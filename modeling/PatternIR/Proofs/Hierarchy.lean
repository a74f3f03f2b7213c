/-
  PatternIR.Proofs.Hierarchy
  ──────────────────────────
  **SUBTYPING IS TRANSITIVE, and erasure keeps it.**

  Whether one class is a subclass of another is a search along the recorded
  supertypes, which ends for every hierarchy, with cycles too.  It finds the
  classes that can be reached, and those are a transitive relation.  `Object`
  is above every class without being reached: only where no supertypes are
  recorded for it is subtyping transitive through it.

    • `isSubclass_iff` — the search is reachability;
    • `isSubtype_self_iff` — the types that are below themselves;
    • `isSubtype_trans` — static subtyping, from subclassing;
    • `isSubtype_erasure` — the types without their arguments.
-/
import PatternIR.Hierarchy
import PatternIR.Proofs.Reachability

namespace PatternIR

namespace Ty

/-- The element type of an array of arrays, however deep; any other type itself. -/
def innermost : Ty → Ty
  | .array elem => elem.innermost
  | t => t

/-- Erasure makes no reference type primitive. -/
theorem erasure_isPrimitive (t : Ty) : t.erasure.isPrimitive = t.isPrimitive := by
  cases t <;> rfl

end Ty

namespace Hierarchy

variable {h : Hierarchy} {a b c name sub sup : String} {s t u : Ty}

/-! ## §1. Subclasses. -/

/-- A recorded supertype is a name the hierarchy mentions. -/
theorem mem_names_of_supers (hsup : sup ∈ h.supers sub) : sup ∈ h.names := by
  unfold supers get? at hsup
  cases hentry : h.entries.lookup sub with
  | none => simp [hentry] at hsup
  | some entry =>
      have hmem : (sub, entry) ∈ h.entries := by
        obtain ⟨before, after, hentries, -⟩ := List.lookup_eq_some_iff.mp hentry
        rw [hentries]
        exact List.mem_append_right _ List.mem_cons_self
      rw [hentry] at hsup
      exact List.mem_flatMap.mpr ⟨(sub, entry), hmem, List.mem_cons_of_mem _ hsup⟩

/-- A class inherits from the classes that can be reached along supertypes. -/
theorem mem_ancestors_iff : sup ∈ h.ancestors sub ↔ Reaches h.supers sub sup := by
  have hmarked : Marks.has (h.ancestors sub) sup = true ↔ sup ∈ h.ancestors sub := by
    simp [Marks.has]
  rw [← hmarked]
  constructor
  · intro hsup
    rcases explore_sound _ _ _ _ _ hsup with hnone | ⟨x, hx, hreach⟩
    · exact absurd hnone (by simp [Marks.has])
    · rwa [List.mem_singleton.mp hx] at hreach
  · intro hreach
    -- no more is ever pending than the class itself and what the entries mention
    refine explore_complete (sub :: h.names) List.countP_le_length ?_ ?_ ?_ (List.mem_singleton.mpr rfl)
      hreach
    · intro x hx
      exact .inr (by rw [List.mem_singleton.mp hx]; exact List.mem_cons_self)
    · exact fun x _ y hy => .inr (List.mem_cons_of_mem _ (mem_names_of_supers hy))
    · exact fun x hx => absurd hx (by simp [Marks.has])

/-- **Subclassing is reachability**, with `Object` above every class. -/
theorem isSubclass_iff : h.isSubclass sub sup = true ↔ sup = "Object" ∨ Reaches h.supers sub sup := by
  simp only [isSubclass, Bool.or_eq_true, decide_eq_true_eq, mem_ancestors_iff]
  constructor
  · rintro ((rfl | hobject) | hreach)
    · exact .inr .refl
    · exact .inl hobject
    · exact .inr hreach
  · rintro (hobject | hreach)
    · exact .inl (.inr hobject)
    · exact .inr hreach

/-- Nothing but `Object` is above `Object`. -/
theorem eq_object_of_isSubclass (hroot : h.supers "Object" = []) (hsub : h.isSubclass "Object" sup = true) :
    sup = "Object" := by
  rcases isSubclass_iff.mp hsub with hobject | hreach
  · exact hobject
  · rcases hreach.cases_head with heq | ⟨x, hx, -⟩
    · exact heq.symm
    · rw [hroot] at hx
      exact absurd hx List.not_mem_nil

/-- With nothing above `Object`, being a subclass is transitive. -/
theorem isSubclass_trans (hroot : h.supers "Object" = []) (hab : h.isSubclass a b = true)
    (hbc : h.isSubclass b c = true) : h.isSubclass a c = true := by
  rcases isSubclass_iff.mp hab with rfl | hab
  · rw [eq_object_of_isSubclass hroot hbc]
    exact isSubclass_iff.mpr (.inl rfl)
  · rcases isSubclass_iff.mp hbc with hobject | hbc
    · exact isSubclass_iff.mpr (.inl hobject)
    · exact isSubclass_iff.mpr (.inr (Relation.ReflTransGen.trans hab hbc))

/-! ## §2. Types. -/

/-- A class type is below another if the class is, and the arguments agree
where the other has any. -/
theorem isSubtype_named {as bs : List Ty} : h.isSubtype (.named a as) (.named b bs) = true ↔
    h.isSubclass a b = true ∧ (bs = [] ∨ a = b ∧ as = bs) := by
  simp [isSubtype]

/-- The only class above an array is `Object`. -/
theorem isSubtype_array_named {as : List Ty} : h.isSubtype (.array t) (.named name as) = true ↔
    name = "Object" := by
  simp [isSubtype]

/-- Arrays are covariant, except in primitive types. -/
theorem isSubtype_array : h.isSubtype (.array s) (.array t) = true ↔
    s = t ∧ s.isPrimitive = true ∨ s.isPrimitive = false ∧ t.isPrimitive = false ∧ h.isSubtype s t = true := by
  rw [isSubtype]
  cases hs : s.isPrimitive <;> cases ht : t.isPrimitive <;> simp
  rintro rfl
  rw [hs] at ht
  exact Bool.noConfusion ht

/-- **Subtyping is reflexive**, except that nothing is below `void` and arrays of it. -/
theorem isSubtype_self_iff (h : Hierarchy) : ∀ t : Ty, h.isSubtype t t = true ↔ t.innermost ≠ .void
  | .prim _ => by simp [isSubtype, Ty.innermost]
  | .null => by simp [isSubtype, Ty.isReference, Ty.innermost]
  | .void => by simp [isSubtype, Ty.innermost]
  | .named name _ => by
      have hself : h.isSubclass name name = true := isSubclass_iff.mpr (.inr .refl)
      simp [isSubtype_named, hself, Ty.innermost]
  | .array elem => by
      rw [isSubtype_array, isSubtype_self_iff h elem, Ty.innermost]
      cases elem with
      | prim _ => simp [Ty.isPrimitive, Ty.innermost]
      | _ => simp [Ty.isPrimitive]

/-- **Subtyping is transitive** where `Object` has no supertypes. -/
theorem isSubtype_trans (hroot : h.supers "Object" = []) : ∀ {s t u : Ty},
    h.isSubtype s t = true → h.isSubtype t u = true → h.isSubtype s u = true
  | .prim a, .prim b, .prim c, hst, htu => by
      simp only [isSubtype, decide_eq_true_eq] at hst htu ⊢
      exact hst.trans htu
  | .null, .null, _, _, htu => htu
  | .null, .named _ _, .named _ _, _, _ | .null, .array _, .named _ _, _, _
  | .null, .array _, .array _, _, _ => rfl
  | .named a as, .named b bs, .named c cs, hst, htu => by
      obtain ⟨hab, has⟩ := isSubtype_named.mp hst
      obtain ⟨hbc, hbs⟩ := isSubtype_named.mp htu
      refine isSubtype_named.mpr ⟨isSubclass_trans hroot hab hbc, ?_⟩
      rcases hbs with hnone | ⟨rfl, rfl⟩
      · exact .inl hnone
      · exact has
  | .array _, .named b _, .named c _, hst, htu => by
      have hb := isSubtype_array_named.mp hst
      subst hb
      exact isSubtype_array_named.mpr (eq_object_of_isSubclass hroot (isSubtype_named.mp htu).1)
  | .array _, .array _, .named _ _, _, htu => isSubtype_array_named.mpr (isSubtype_array_named.mp htu)
  | .array s, .array t, .array u, hst, htu => by
      rcases isSubtype_array.mp hst with ⟨rfl, -⟩ | ⟨hs, ht, hst⟩
      · exact htu
      · rcases isSubtype_array.mp htu with ⟨-, hprim⟩ | ⟨-, hu, htu⟩
        · rw [ht] at hprim
          exact Bool.noConfusion hprim
        · exact isSubtype_array.mpr (.inr ⟨hs, hu, isSubtype_trans hroot hst htu⟩)

/-- **Erasure keeps subtyping.** -/
theorem isSubtype_erasure : ∀ {s t : Ty}, h.isSubtype s t = true → h.isSubtype s.erasure t.erasure = true
  | .prim _, .prim _, hst => hst
  | .null, .named _ _, _ | .null, .array _, _ | .null, .null, _ => rfl
  | .named _ _, .named _ _, hst => isSubtype_named.mpr ⟨(isSubtype_named.mp hst).1, .inl rfl⟩
  | .array _, .named _ _, hst => isSubtype_array_named.mpr (isSubtype_array_named.mp hst)
  | .array s, .array t, hst => by
      show h.isSubtype (.array s.erasure) (.array t.erasure) = true
      rw [isSubtype_array, s.erasure_isPrimitive, t.erasure_isPrimitive]
      rcases isSubtype_array.mp hst with ⟨rfl, hprim⟩ | ⟨hs, ht, hst⟩
      · exact .inl ⟨rfl, hprim⟩
      · exact .inr ⟨hs, ht, isSubtype_erasure hst⟩

end Hierarchy

end PatternIR
