/-
  PatternIR.Proofs.Ancestry
  ─────────────────────────
  **LOOKING FOR A CLASS AMONG THE SUPERTYPES OF ANOTHER.**

  A stack of pending classes and a record of those taken up are enough: take up
  the latest pending class, and if it is neither the one looked for nor known,
  put its recorded supertypes on top.

      pending  C  →  Object I J  →  J's supertypes on top of Object I  →  …

  Every turn takes a class off the stack, and the supertypes of a class go onto
  it once only.  So the loop ends, whatever cycles the hierarchy has, after no
  more turns than it has recorded supertypes, and one.

    • `Climbs` — the runs of the loop that end, with their turns and answer;
    • `exists_climbs` — it ends;
    • `Climbs.found_iff` — it finds what can be reached from what is pending;
    • `isSubclass_decides` — subclassing is decided by the loop.
-/
import PatternIR.Proofs.Hierarchy

namespace PatternIR

namespace Hierarchy

variable {h : Hierarchy} {seen pending rest : List String} {x sup : String} {turns : Nat} {found : Bool}

/-! ## §1. The loop. -/

/-- The loop ends, from classes taken up and classes pending: after so many turns,
and having found `sup` or not. -/
inductive Climbs (h : Hierarchy) (sup : String) :
    (seen pending : List String) → (turns : Nat) → (found : Bool) → Prop
  /-- Nothing is pending. -/
  | nothing {seen : List String} : Climbs h sup seen [] 0 false
  /-- A class that was taken up before is passed over. -/
  | again {seen rest : List String} {x : String} {turns : Nat} {found : Bool} :
      x ∈ seen → Climbs h sup seen rest turns found → Climbs h sup seen (x :: rest) (turns + 1) found
  /-- The class that is looked for. -/
  | here {seen rest : List String} : sup ∉ seen → Climbs h sup seen (sup :: rest) 1 true
  /-- Another class: its supertypes are put on top, the last one uppermost. -/
  | up {seen rest : List String} {x : String} {turns : Nat} {found : Bool} :
      x ∉ seen → x ≠ sup → Climbs h sup (x :: seen) ((h.supers x).reverse ++ rest) turns found →
      Climbs h sup seen (x :: rest) (turns + 1) found

/-- Whether `sub` is `sup` or inherits from it, by the loop: a class is found to be
itself, and below `Object`, without a turn. -/
def SubclassLoop (h : Hierarchy) (sub sup : String) (turns : Nat) (answer : Bool) : Prop :=
  if sub = sup ∨ sup = "Object" then turns = 0 ∧ answer = true else h.Climbs sup [] [sub] turns answer

/-- The loop ends in one way only. -/
theorem Climbs.unique {more : Nat} {other : Bool} (hrun : h.Climbs sup seen pending turns found)
    (hrun' : h.Climbs sup seen pending more other) : turns = more ∧ found = other := by
  induction hrun generalizing more with
  | nothing =>
      cases hrun' with
      | nothing => exact ⟨rfl, rfl⟩
  | again hx _ ih =>
      cases hrun' with
      | again _ hrun' =>
          obtain ⟨rfl, rfl⟩ := ih hrun'
          exact ⟨rfl, rfl⟩
      | here hsup => exact absurd hx hsup
      | up hx' _ _ => exact absurd hx hx'
  | here hsup =>
      cases hrun' with
      | again hx _ => exact absurd hx hsup
      | here _ => exact ⟨rfl, rfl⟩
      | up _ hne _ => exact absurd rfl hne
  | up hx hne _ ih =>
      cases hrun' with
      | again hx' _ => exact absurd hx' hx
      | here _ => exact absurd rfl hne
      | up _ _ hrun' =>
          obtain ⟨rfl, rfl⟩ := ih hrun'
          exact ⟨rfl, rfl⟩

/-! ## §2. It ends. -/

/-- How many supertypes are recorded with the classes that were not taken up. -/
def ahead (h : Hierarchy) (seen : List String) : Nat :=
  ((h.entries.filter fun entry => decide (entry.1 ∉ seen)).flatMap fun entry => entry.2.toList).length

/-- How many supertypes are recorded. -/
def recorded (h : Hierarchy) : Nat := (h.entries.flatMap fun entry => entry.2.toList).length

/-- With nothing visited, every recorded class is still ahead. -/
theorem ahead_nil (h : Hierarchy) : h.ahead [] = h.recorded := by
  have hall : h.entries.filter (fun entry => decide (entry.1 ∉ ([] : List String))) = h.entries :=
    List.filter_eq_self.mpr fun _ _ => decide_eq_true List.not_mem_nil
  rw [ahead, hall, recorded]

/-- The supertypes of a class that is taken up are no longer ahead, those in
entries that a later one replaces included. -/
theorem ahead_cons (h : Hierarchy) (hx : x ∉ seen) :
    (h.supers x).length + h.ahead (x :: seen) ≤ h.ahead seen := by
  obtain ⟨entries⟩ := h
  simp only [supers, get?, ahead]
  induction entries with
  | nil => simp
  | cons entry entries ih =>
      obtain ⟨name, s⟩ := entry
      by_cases hname : name = x
      · subst hname
        have hsame : decide (name ∉ name :: seen) = false := by simp
        simp only [List.lookup_cons, beq_self_eq_true, List.filter_cons, hsame, hx, not_false_eq_true,
          decide_true, if_true, List.flatMap_cons, List.length_append, Option.map_some, Option.getD_some]
        simp only [Bool.false_eq_true, if_false]
        omega
      · have hne : (x == name) = false := beq_eq_false_iff_ne.mpr (Ne.symm hname)
        have hkeep : decide (name ∉ x :: seen) = decide (name ∉ seen) := by
          simp [List.mem_cons, hname]
        simp only [List.lookup_cons, hne, List.filter_cons, hkeep]
        split
        · simp only [List.flatMap_cons, List.length_append]
          omega
        · exact ih

/-- **The loop ends**, after at most as many turns as classes are pending and
supertypes ahead. -/
theorem exists_climbs (h : Hierarchy) (sup : String) : ∀ (steps : Nat) (seen pending : List String),
    pending.length + h.ahead seen ≤ steps → ∃ turns ≤ steps, ∃ found, h.Climbs sup seen pending turns found
  | _, _, [], _ => ⟨0, Nat.zero_le _, false, .nothing⟩
  | 0, _, _ :: _, hsteps => absurd hsteps (by simp)
  | steps + 1, seen, x :: rest, hsteps => by
      rw [List.length_cons] at hsteps
      by_cases hx : x ∈ seen
      · obtain ⟨turns, hturns, found, hrun⟩ := exists_climbs h sup steps seen rest (by omega)
        exact ⟨turns + 1, by omega, found, .again hx hrun⟩
      · by_cases hsup : x = sup
        · subst hsup
          exact ⟨1, by omega, true, .here hx⟩
        · have hahead := h.ahead_cons hx
          have hpending : ((h.supers x).reverse ++ rest).length + h.ahead (x :: seen) ≤ steps := by
            rw [List.length_append, List.length_reverse]
            omega
          obtain ⟨turns, hturns, found, hrun⟩ := exists_climbs h sup steps _ _ hpending
          exact ⟨turns + 1, by omega, found, .up hx hsup hrun⟩

/-! ## §3. What it finds. -/

/-- What the classes taken up lead to is taken up or pending, and the one looked
for is not among them. -/
def Bounded (h : Hierarchy) (sup : String) (seen pending : List String) : Prop :=
  sup ∉ seen ∧ ∀ x ∈ seen, ∀ y ∈ h.supers x, y ∈ seen ∨ y ∈ pending

/-- A way from a class taken up to the one looked for leads through one that is pending. -/
theorem Bounded.leaves (hbound : h.Bounded sup seen pending) (hreach : Reaches h.supers x sup) (hx : x ∈ seen) :
    ∃ y ∈ pending, Reaches h.supers y sup := by
  induction hreach using Relation.ReflTransGen.head_induction_on with
  | refl => exact absurd hx hbound.1
  | head hstep hrest ih =>
      rcases hbound.2 _ hx _ hstep with hseen | hpending
      · exact ih hseen
      · exact ⟨_, hpending, hrest⟩

/-- **The loop finds** the class looked for if it can be reached from one that is pending. -/
theorem Climbs.found_iff (hrun : h.Climbs sup seen pending turns found) :
    h.Bounded sup seen pending → (found = true ↔ ∃ x ∈ pending, Reaches h.supers x sup) := by
  induction hrun with
  | nothing => exact fun _ => by simp
  | @again seen rest x _ _ hx _ ih =>
      intro hbound
      have hrest : h.Bounded sup seen rest := by
        refine ⟨hbound.1, fun z hz y hy => ?_⟩
        rcases hbound.2 z hz y hy with hy | hy
        · exact .inl hy
        · rcases List.mem_cons.mp hy with rfl | hy
          · exact .inl hx
          · exact .inr hy
      rw [ih hrest]
      constructor
      · exact fun ⟨y, hy, hreach⟩ => ⟨y, List.mem_cons_of_mem _ hy, hreach⟩
      · rintro ⟨y, hy, hreach⟩
        rcases List.mem_cons.mp hy with rfl | hy
        -- what a seen class reaches, one of those still pending reaches as well
        · exact hrest.leaves hreach hx
        · exact ⟨y, hy, hreach⟩
  | here _ => exact fun _ => iff_of_true rfl ⟨_, List.mem_cons_self, .refl⟩
  | @up seen rest x _ _ hx hne _ ih =>
      intro hbound
      have hnext : h.Bounded sup (x :: seen) ((h.supers x).reverse ++ rest) := by
        refine ⟨fun hsup => (List.mem_cons.mp hsup).elim (Ne.symm hne) hbound.1, fun z hz y hy => ?_⟩
        rcases List.mem_cons.mp hz with rfl | hz
        · exact .inr (List.mem_append_left _ (List.mem_reverse.mpr hy))
        · rcases hbound.2 z hz y hy with hy | hy
          · exact .inl (List.mem_cons_of_mem _ hy)
          · rcases List.mem_cons.mp hy with rfl | hy
            · exact .inl List.mem_cons_self
            · exact .inr (List.mem_append_right _ hy)
      rw [ih hnext]
      constructor
      · rintro ⟨y, hy, hreach⟩
        rcases List.mem_append.mp hy with hy | hy
        · exact ⟨x, List.mem_cons_self, .head (List.mem_reverse.mp hy) hreach⟩
        · exact ⟨y, List.mem_cons_of_mem _ hy, hreach⟩
      · rintro ⟨y, hy, hreach⟩
        rcases List.mem_cons.mp hy with rfl | hy
        -- it is not `sup` itself, so the way goes on by one of its supertypes
        · rcases hreach.cases_head with heq | ⟨z, hz, hzsup⟩
          · exact absurd heq hne
          · exact ⟨z, List.mem_append_left _ (List.mem_reverse.mpr hz), hzsup⟩
        · exact ⟨y, List.mem_append_right _ hy, hreach⟩

/-! ## §4. Subclasses. -/

/-- One class is recorded as the superclass or an interface of another. -/
def Inherits (h : Hierarchy) (sub sup : String) : Prop :=
  ∃ s, h.get? sub = some s ∧ (s.superclass = some sup ∨ sup ∈ s.interfaces)

/-- The listed supertypes are those a class inherits from. -/
theorem mem_supers_iff {sub : String} : sup ∈ h.supers sub ↔ h.Inherits sub sup := by
  unfold supers Inherits
  cases h.get? sub with
  | none => simp
  | some s => simp [Supertypes.toList]

/-- To reach a class along recorded supertypes is to be it, or to inherit from it
in one step or several. -/
theorem reaches_iff {sub : String} :
    Reaches h.supers sub sup ↔ sub = sup ∨ Relation.TransGen h.Inherits sub sup := by
  have hstep : (fun x y => y ∈ h.supers x) = h.Inherits := by
    funext x y
    exact propext mem_supers_iff
  unfold Reaches
  rw [hstep, Relation.reflTransGen_iff_eq_or_transGen, eq_comm]

/-- The loop of the search ends with the answer that `isSubclass` gives. -/
theorem subclassLoop_answer {sub : String} {answer : Bool} (hloop : h.SubclassLoop sub sup turns answer) :
    answer = h.isSubclass sub sup := by
  rw [Bool.eq_iff_iff, isSubclass_iff]
  unfold SubclassLoop at hloop
  split at hloop
  next hknown =>
    refine iff_of_true hloop.2 ?_
    rcases hknown with rfl | hobject
    · exact .inr .refl
    · exact .inl hobject
  next hunknown =>
    have hbound : h.Bounded sup [] [sub] := ⟨List.not_mem_nil, fun _ hx => absurd hx List.not_mem_nil⟩
    rw [hloop.found_iff hbound]
    simp [(not_or.mp hunknown).2]

/-- The loop ends, after one turn more than there are recorded classes at most. -/
theorem exists_subclassLoop (h : Hierarchy) (sub sup : String) :
    ∃ turns ≤ h.recorded + 1, ∃ answer, h.SubclassLoop sub sup turns answer := by
  unfold SubclassLoop
  split
  next => exact ⟨0, Nat.zero_le _, true, rfl, rfl⟩
  next =>
    refine h.exists_climbs sup (h.recorded + 1) [] [sub] ?_
    rw [ahead_nil, List.length_singleton, Nat.add_comm]

/-- **Subclassing is decided**, in every hierarchy: the loop ends, in one way and
within a bound, with the answer of `isSubclass`; and that is whether the two
classes are the same, or the second is `Object` or can be reached from the first
along recorded superclasses and interfaces. -/
theorem isSubclass_decides (h : Hierarchy) (sub sup : String) :
    (∃ turns ≤ h.recorded + 1, ∀ more answer,
        h.SubclassLoop sub sup more answer ↔ more = turns ∧ answer = h.isSubclass sub sup)
      ∧ (h.isSubclass sub sup = true ↔
          sub = sup ∨ sup = "Object" ∨ Relation.TransGen h.Inherits sub sup) := by
  constructor
  · obtain ⟨turns, hturns, answer, hloop⟩ := h.exists_subclassLoop sub sup
    have hanswer := subclassLoop_answer hloop
    subst hanswer
    refine ⟨turns, hturns, fun more answer => ⟨fun hmore => ⟨?_, subclassLoop_answer hmore⟩, ?_⟩⟩
    · unfold SubclassLoop at hloop hmore
      split at hloop
      next hknown =>
        rw [if_pos hknown] at hmore
        exact hmore.1.trans hloop.1.symm
      next hunknown =>
        rw [if_neg hunknown] at hmore
        exact (hmore.unique hloop).1
    · rintro ⟨rfl, rfl⟩
      exact hloop
  · rw [isSubclass_iff, reaches_iff, or_left_comm]

/-- Two classes that inherit from each other, one from a class that is not
declared; the second declaration of `A` replaces the first. -/
def cyclic : Hierarchy :=
  root.declare "A" none ["Z"] |>.declare "B" (some "A") ["Y"] |>.declare "A" (some "B") []

example : cyclic.isSubclass "A" "Y" = true ∧ cyclic.isSubclass "A" "Z" = false
    ∧ cyclic.isSubclass "Y" "A" = false := by decide

end Hierarchy

end PatternIR
