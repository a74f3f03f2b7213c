/-
  PatternIR.Proofs.Symbols.Flags
  ──────────────────────────────
  **FLAGS OF UNIFIED BINDINGS.**

  Unification and marking do not commute.  A unification that adds a binding sets
  its flag if one of the two has it; one that finds a binding leaves the flag of
  that as it is, and marking goes down to parts only.  So for `m`, the binding
  that unifies `a` and `b`:

      c marked first, then m added   flag of m  =  flag of a or of b or a, b reached from c
      m added first, then c marked   flag of m  =  flag of a or of b

    • `merge?_adds_or_finds` — a unification and the flag of its answer;
    • `Built.merge?_preserve` — marking does not change which binding is found;
    • `merged_flag_iff` — when the order does not matter.
-/
import PatternIR.Proofs.Symbols.Interning

namespace PatternIR

namespace Symbols

variable {s t u : Symbols} {a b c m n : BindingId}

/-- A unification finds a binding of the table and changes nothing, or adds one
whose flag is set if that of one of the two is. -/
theorem merge?_adds_or_finds (h : s.Ordered) (hm : s.merge? a b = some (m, t)) :
    s.Has m ∧ t = s
      ∨ m = ⟨s.bindings.size⟩ ∧ ¬ s.Has m ∧ t.isPreserved m = (s.isPreserved a || s.isPreserved b) := by
  have hhas := h.has_merge hm
  rcases merge?_cases hm with ⟨rfl, -⟩ | ⟨first, second, hfirst, hsecond, rfl, rfl⟩
  · exact .inl ⟨hhas, rfl⟩
  · refine .inr ⟨rfl, Nat.lt_irrefl s.bindings.size, ?_⟩
    simp only [isPreserved, binding?_push, if_true, hfirst, hsecond, Option.any_some,
      unifiedEntry_preserved]

/-- **Marking does not change** with which binding two are unified. -/
theorem Built.merge?_preserve (hs : s.Built) (hm : s.merge? a b = some (m, t))
    (hn : (s.preserve c).merge? a b = some (n, u)) : n = m := by
  have hmarked : (s.preserve c).Built := hs.apply (.preserve c)
  have hclosed := hs.sound.ordered.closed
  have hleaves : ∀ {x}, s.Has x → ∀ leaf, leaf ∈ (s.preserve c).leaves x ↔ leaf ∈ s.leaves x :=
    fun hx leaf => (Grows.preserve s c).mem_leaves hclosed hx
  obtain ⟨ha, hb⟩ := merge?_has hm
  rcases merge?_adds_or_finds hs.sound.ordered hm with ⟨hhas, rfl⟩ | ⟨rfl, -, -⟩
  · refine hmarked.merge?_same (has_preserve.mpr hhas) hn fun leaf => ?_
    rw [hleaves hhas, hleaves ha, hleaves hb, hclosed.mem_leaves_merge hm]
  · rcases merge?_adds_or_finds hmarked.sound.ordered hn with ⟨hhas, rfl⟩ | ⟨rfl, -, -⟩
    · -- what is found after marking would have been found before
      have hhas := has_preserve.mp hhas
      refine (hs.merge?_same hhas hm fun leaf => ?_).symm
      rw [← hleaves hhas, ← hleaves ha, ← hleaves hb, hmarked.sound.ordered.closed.mem_leaves_merge hn]
    · rw [size_preserve]

/-- **When the order of marking and unifying does not matter.**  In a table that
was built, two bindings are unified by the same binding before and after another
is marked.  Its flag is set if it was, or if the binding is new and one of the
two has its flag.  To mark before or after gives it the same flag just if the
binding was there, or one of the two had its flag, or the marked binding leads to
neither. -/
theorem merged_flag_iff (h : s.Built) (ha : s.Has a) (hb : s.Has b) (hc : s.Has c) :
    ∃ m t u, s.merge? a b = some (m, t)
      ∧ (s.preserve c).merge? a b = some (m, u)
      ∧ (t.preserve c).merge? a b = some (m, t.preserve c)
      ∧ (t.isPreserved m = true ↔
          s.isPreserved m = true ∨ ¬ s.Has m ∧ (s.isPreserved a = true ∨ s.isPreserved b = true))
      ∧ (u.isPreserved m = (t.preserve c).isPreserved m ↔
          s.Has m ∨ (s.isPreserved a = true ∨ s.isPreserved b = true)
            ∨ ¬ (Reaches s.parts c a ∨ Reaches s.parts c b)) := by
  have hordered := h.sound.ordered
  have hmarked : (s.preserve c).Built := h.apply (.preserve c)
  obtain ⟨m, t, hm⟩ := merge?_isSome ha hb
  obtain ⟨n, u, hn⟩ := merge?_isSome (has_preserve.mpr ha : (s.preserve c).Has a) (has_preserve.mpr hb)
  obtain rfl := h.merge?_preserve hm hn
  have hstable := merge?_stable hordered hm (Grows.preserve t c) ((h.merge hm).apply (.preserve c)).sound.ordered
  refine ⟨n, t, u, hm, hn, hstable, ?_⟩
  rcases merge?_adds_or_finds hordered hm with ⟨hhas, rfl⟩ | ⟨hplace, hnew, hflag⟩
  · rcases merge?_adds_or_finds hmarked.sound.ordered hn with ⟨-, rfl⟩ | ⟨-, hnone, -⟩
    · simp [hhas]
    · exact absurd (has_preserve.mpr hhas) hnone
  · -- nothing of the table leads to the new binding
    have hfar : ¬ Reaches t.parts c n := fun hreach =>
      hnew (hordered.closed.has_of_reaches hc ((merge?_grows hm).reaches hordered.closed hc hreach))
    have hafter : (t.preserve c).isPreserved n = t.isPreserved n := by
      rw [Bool.eq_iff_iff, isPreserved_preserve]
      simp [hfar]
    have hbefore : u.isPreserved n = ((s.preserve c).isPreserved a || (s.preserve c).isPreserved b) := by
      rcases merge?_adds_or_finds hmarked.sound.ordered hn with ⟨hhas, -⟩ | ⟨-, -, hflag⟩
      · exact absurd (has_preserve.mp hhas) hnew
      · exact hflag
    have hunset : s.isPreserved n ≠ true := fun hset => hnew (has_of_isPreserved hset)
    refine ⟨by simp [hflag, hnew, hunset], ?_⟩
    rw [hafter, hbefore, hflag, Bool.eq_iff_iff, Bool.or_eq_true, Bool.or_eq_true,
      isPreserved_preserve, isPreserved_preserve]
    simp only [ha, hb, hnew, true_and, false_or]
    rw [or_or_or_comm, or_iff_left_iff_imp, imp_iff_or_not]

/-- Two patterns of one name. -/
def twoPatterns : Symbols :=
  Symbols.empty.after [.addBinding "x" (.named "Object" []) none, .addBinding "x" (.named "Object" []) none]

/-- Two patterns of one name, unified. -/
def twoUnified : Symbols := TableOp.apply twoPatterns (.merge ⟨0⟩ ⟨1⟩)

/-- What was unified before is found, with its flag unset, whether a part is
marked before or after. -/
theorem merged_flag_iff_found : twoUnified.Built ∧ ∃ t u,
    twoUnified.merge? ⟨0⟩ ⟨1⟩ = some (⟨2⟩, t)
      ∧ (twoUnified.preserve ⟨0⟩).merge? ⟨0⟩ ⟨1⟩ = some (⟨2⟩, u)
      ∧ u.isPreserved ⟨2⟩ = (t.preserve ⟨0⟩).isPreserved ⟨2⟩ := by
  have hpatterns : twoPatterns.Built := ⟨_, rfl⟩
  have hbuilt : twoUnified.Built := hpatterns.apply (.merge ⟨0⟩ ⟨1⟩)
  obtain ⟨m, t, u, hm, hn, -, -, hsame⟩ :=
    merged_flag_iff hbuilt (a := ⟨0⟩) (b := ⟨1⟩) (c := ⟨0⟩) (by decide) (by decide) (by decide)
  obtain rfl : m = ⟨2⟩ := by
    have hfound : (twoUnified.merge? ⟨0⟩ ⟨1⟩).map Prod.fst = some ⟨2⟩ := by decide
    simpa [hm] using hfound
  exact ⟨hbuilt, t, u, hm, hn, hsame.mpr (.inl (by decide))⟩

/-- **A part that is marked before or after**: the flag of two patterns together
is set if the first one is marked before they are unified, and not set if it is
marked between two unifications, though it has its own flag then. -/
theorem merged_flag_by_order : twoPatterns.Built
    ∧ (twoPatterns.preserve ⟨0⟩).merge? ⟨0⟩ ⟨1⟩
        = some (⟨2⟩, TableOp.apply (twoPatterns.preserve ⟨0⟩) (.merge ⟨0⟩ ⟨1⟩))
    ∧ (TableOp.apply (twoPatterns.preserve ⟨0⟩) (.merge ⟨0⟩ ⟨1⟩)).isPreserved ⟨2⟩ = true
    ∧ twoPatterns.merge? ⟨0⟩ ⟨1⟩ = some (⟨2⟩, twoUnified)
    ∧ (twoUnified.preserve ⟨0⟩).merge? ⟨0⟩ ⟨1⟩ = some (⟨2⟩, twoUnified.preserve ⟨0⟩)
    ∧ (twoUnified.preserve ⟨0⟩).isPreserved ⟨0⟩ = true
    ∧ (twoUnified.preserve ⟨0⟩).isPreserved ⟨2⟩ = false :=
  ⟨⟨_, rfl⟩, by decide, by decide, by decide, by decide, by decide, by decide⟩

end Symbols

end PatternIR
