/-
  PatternIR.Proofs.Lowering.LatestWrites
  ──────────────────────────────────────
  **WHAT A UNIFIED BINDING READS AS, after matches and assignments.**

  A match writes the pattern that has matched, an assignment the binding that it
  names.  A unified binding reads as what was assigned to it, and as the last match
  of its patterns only as long as nothing was.  A lowered program has one variable
  for all of them, which reads as the last write of either kind:

      writes            s = a     s matches b      b matches, then s = a
      unified binding      a             a                     a
      its variable         a             b                     a

    • `Environment.writes` — writes to bindings, each in its place;
    • `getBinding?_set_leaf`, `getBinding?_of_get?` — one more write;
    • `getBinding?_writes_iff` — when the binding reads as its variable;
    • `assigned_binding_stays` — when it does not.
-/
import PatternIR.Proofs.Lowering.Facts
import PatternIR.Proofs.Symbols.Interning

namespace PatternIR

/-- A write to a binding: a match of a pattern, or an assignment. -/
structure BindingWrite where
  binding : BindingId
  value : Value
  origin : Origin

namespace Environment

variable {env : Environment} {s : Symbols} {m leaf : BindingId} {sym : Sym} {v : Value} {origin : Origin}
  {c : Cell} {place : BindingId → Sym} {ws : List BindingWrite}

/-! ## §1. Writes, one after the other. -/

/-- The environment after writes to bindings, each made to the symbol in whose
place the binding is kept. -/
def writes (env : Environment) (place : BindingId → Sym) (ws : List BindingWrite) : Environment :=
  ws.foldl (fun env w => env.set (place w.binding) w.value w.origin) env

/-- One more write, behind the others. -/
theorem writes_append_singleton (env : Environment) (place : BindingId → Sym) (ws : List BindingWrite)
    (w : BindingWrite) :
    env.writes place (ws ++ [w]) = (env.writes place ws).set (place w.binding) w.value w.origin := by
  rw [writes, List.foldl_append]
  rfl

/-- Each write turns the clock by one. -/
theorem writes_clock : ∀ (env : Environment) (ws : List BindingWrite),
    (env.writes place ws).clock = env.clock + ws.length
  | _, [] => rfl
  | env, w :: ws => by
      show ((env.set (place w.binding) w.value w.origin).writes place ws).clock = _
      rw [writes_clock]
      show env.clock + 1 + ws.length = _
      rw [List.length_cons, Nat.add_assoc, Nat.add_comm 1]

/-- What is written is read back, at the new time. -/
theorem get?_set_self (env : Environment) (sym : Sym) (v : Value) (origin : Origin) :
    (env.set sym v origin).get? sym = some ⟨v, env.clock + 1, origin⟩ :=
  Activation.get?_set_self _ _ _

/-- Other symbols keep what they hold. -/
theorem get?_set_of_ne {other : Sym} (h : other ≠ sym) :
    (env.set sym v origin).get? other = env.get? other :=
  Activation.get?_set_of_ne _ _ h

/-- A symbol that has a cell keeps one. -/
theorem get?_writes_ne_none : ∀ {env : Environment}, env.get? sym ≠ none →
    ∀ ws : List BindingWrite, (env.writes place ws).get? sym ≠ none
  | _, h, [] => h
  | env, h, w :: ws => by
      refine get?_writes_ne_none (?_ : (env.set (place w.binding) w.value w.origin).get? sym ≠ none) ws
      by_cases hsym : sym = place w.binding
      · rw [hsym, get?_set_self]
        exact Option.some_ne_none _
      · rwa [get?_set_of_ne hsym]

/-- A binding has no cell just if all writes were to others. -/
theorem get?_writes_eq_none_iff : ∀ {env : Environment}, env.get? (.binding m) = none →
    ∀ ws : List BindingWrite,
      ((env.writes Sym.binding ws).get? (.binding m) = none ↔ ∀ w ∈ ws, w.binding ≠ m)
  | _, hnew, [] => iff_of_true hnew fun _ hw => absurd hw List.not_mem_nil
  | env, hnew, w :: ws => by
      rw [List.forall_mem_cons]
      by_cases hw : w.binding = m
      · have hcell : (env.set (.binding w.binding) w.value w.origin).get? (.binding m) ≠ none := by
          rw [hw, get?_set_self]
          exact Option.some_ne_none _
        exact iff_of_false (get?_writes_ne_none hcell ws) fun h => h.1 hw
      · have hother : (env.set (.binding w.binding) w.value w.origin).get? (.binding m) = none := by
          rwa [get?_set_of_ne fun heq => hw (Sym.binding.inj heq).symm]
        exact (get?_writes_eq_none_iff hother ws).trans (by simp [hw])

/-! ## §2. Stamps. -/

/-- The stamps of the current activation are those of its past. -/
def Stamped (env : Environment) : Prop := ∀ ⦃sym c⦄, env.get? sym = some c → c.stamp ≤ env.clock

/-- A new activation holds nothing, so no stamp is ahead of the clock. -/
theorem Stamped.enter (env : Environment) : env.enter.Stamped :=
  fun _ _ hc => absurd hc (by simp [Environment.enter, get?, Activation.get?])

/-- A write is stamped by the clock it turns. -/
theorem Stamped.set (h : env.Stamped) (sym : Sym) (v : Value) (origin : Origin) :
    (env.set sym v origin).Stamped := by
  intro other c hc
  show c.stamp ≤ env.clock + 1
  by_cases hother : other = sym
  · subst hother
    rw [get?_set_self] at hc
    injection hc with hc
    rw [← hc]
  · rw [get?_set_of_ne hother] at hc
    exact Nat.le_succ_of_le (h hc)

/-- So are writes one after the other. -/
theorem Stamped.writes (place : BindingId → Sym) : ∀ {env : Environment}, env.Stamped →
    ∀ ws : List BindingWrite, (env.writes place ws).Stamped
  | _, h, [] => h
  | _, h, w :: ws => (h.set (place w.binding) w.value w.origin).writes place ws

/-! ## §3. What a unified binding reads as. -/

/-- A binding that was written reads as what was written last. -/
theorem getBinding?_of_get? (h : env.get? (.binding m) = some c) : env.getBinding? s m = some c := by
  unfold getBinding?
  rw [h]

/-- A match of one of its patterns is what a binding reads as that was not written itself. -/
theorem getBinding?_set_leaf (hstamped : env.Stamped) (hnew : env.get? (.binding m) = none) (hne : leaf ≠ m)
    (hleaf : leaf ∈ s.leaves m) :
    (env.set (.binding leaf) v origin).getBinding? s m = some ⟨v, env.clock + 1, origin⟩ := by
  unfold getBinding?
  rw [get?_set_of_ne fun heq => hne (Sym.binding.inj heq).symm, hnew]
  refine latest_eq ?_ fun d hd => ?_
  · exact List.mem_filterMap.mpr ⟨leaf, hleaf, get?_set_self _ _ _ _⟩
  · obtain ⟨other, -, hd⟩ := List.mem_filterMap.mp hd
    by_cases hother : other = leaf
    · subst hother
      rw [get?_set_self] at hd
      injection hd with hd
      exact .inl hd.symm
    · rw [get?_set_of_ne fun heq => hother (Sym.binding.inj heq)] at hd
      exact .inr (Nat.lt_succ_of_le (hstamped hd))

/-- **When a unified binding reads its latest write.**  From writes to it and to its
patterns, in an activation in which it was not written before, its variable has the
last write, whichever that is.  The binding itself reads as this same write just if
the last write is an assignment to it, or there was none to it: no match may follow
an assignment. -/
theorem getBinding?_writes_iff (hstamped : env.Stamped) (hnew : env.get? (.binding m) = none)
    {last : BindingWrite}
    (hws : ∀ w ∈ ws ++ [last], w.binding = m ∨ w.binding ∈ s.leaves m) (x : VarId) :
    ∃ cell : Cell, cell.value = last.value
      ∧ (env.writes (fun _ => .var x) (ws ++ [last])).get? (.var x) = some cell
      ∧ ((env.writes Sym.binding (ws ++ [last])).getBinding? s m = some cell ↔
          last.binding = m ∨ ∀ w ∈ ws, w.binding ≠ m) := by
  refine ⟨⟨last.value, env.clock + ws.length + 1, last.origin⟩, rfl, ?_, ?_⟩
  · rw [writes_append_singleton, get?_set_self, writes_clock]
  · have hstamps := hstamped.writes Sym.binding ws
    have hunwritten := get?_writes_eq_none_iff hnew ws
    have hclock : (env.writes Sym.binding ws).clock = env.clock + ws.length := writes_clock env ws
    rw [writes_append_singleton]
    by_cases hlast : last.binding = m
    · refine iff_of_true ?_ (.inl hlast)
      rw [hlast, ← hclock]
      exact getBinding?_of_get? (get?_set_self _ _ _ _)
    · have hleaf : last.binding ∈ s.leaves m :=
        (hws last (List.mem_append_right _ List.mem_cons_self)).resolve_left hlast
      cases hself : (env.writes Sym.binding ws).get? (.binding m) with
      | none =>
          refine iff_of_true ?_ (.inr (hunwritten.mp hself))
          rw [← hclock]
          exact getBinding?_set_leaf hstamps hself hlast hleaf
      | some c =>
          -- the assignment is what it goes on to read as, and that has an older stamp
          have hkept : ((env.writes Sym.binding ws).set (.binding last.binding) last.value last.origin).get?
              (.binding m) = some c := by
            rwa [get?_set_of_ne fun heq => hlast (Sym.binding.inj heq).symm]
          have hwritten : ¬ ∀ w ∈ ws, w.binding ≠ m := fun hnone => by
            rw [hunwritten.mpr hnone] at hself
            exact absurd hself.symm (Option.some_ne_none c)
          refine iff_of_false ?_ (not_or.mpr ⟨hlast, hwritten⟩)
          rw [getBinding?_of_get? hkept]
          rintro ⟨⟩
          have hold := hstamps hself
          rw [hclock] at hold
          exact absurd hold (Nat.not_succ_le_self _)

/-- Two patterns of one name, and what unifies them. -/
def eitherPattern : Symbols :=
  Symbols.empty.after [.addBinding "s" .string none, .addBinding "s" .string none, .merge ⟨0⟩ ⟨1⟩]

/-- A match of one of the patterns. -/
def matchOf (b : Nat) (text : String) : BindingWrite := ⟨⟨b⟩, .str text, .matched⟩

/-- Both patterns have matched, the second one first: the unified binding reads as
the match of the first, as its variable does. -/
theorem getBinding?_writes_iff_matched :
    start.enter.Stamped ∧ start.enter.get? (.binding ⟨2⟩) = none
      ∧ (∀ w ∈ [matchOf 1 "b"] ++ [matchOf 0 "a"], w.binding = ⟨2⟩ ∨ w.binding ∈ eitherPattern.leaves ⟨2⟩)
      ∧ ∃ cell : Cell, cell.value = .str "a"
        ∧ (start.enter.writes (fun _ => .var ⟨0⟩) [matchOf 1 "b", matchOf 0 "a"]).get? (.var ⟨0⟩) = some cell
        ∧ (start.enter.writes Sym.binding [matchOf 1 "b", matchOf 0 "a"]).getBinding? eitherPattern ⟨2⟩
            = some cell := by
  have hstamped := Stamped.enter start
  have hnew : start.enter.get? (.binding ⟨2⟩) = none := rfl
  have hws : ∀ w ∈ [matchOf 1 "b"] ++ [matchOf 0 "a"],
      w.binding = ⟨2⟩ ∨ w.binding ∈ eitherPattern.leaves ⟨2⟩ := by decide
  obtain ⟨cell, hvalue, hstored, hread⟩ := getBinding?_writes_iff hstamped hnew hws ⟨0⟩
  exact ⟨hstamped, hnew, hws, cell, hvalue, hstored, hread.mpr (.inr (by decide))⟩

/-- **An assignment hides later matches**: after `s = "a"` and a match of `"b"` the
unified binding reads as `"a"`, and its variable as `"b"`. -/
theorem assigned_binding_stays : eitherPattern.Built
    ∧ (eitherPattern.binding? ⟨2⟩).any (·.isMerged) = true
    ∧ ⟨0⟩ ∈ eitherPattern.leaves ⟨2⟩
    ∧ ((start.enter.writes Sym.binding [⟨⟨2⟩, .str "a", .assigned⟩, matchOf 0 "b"]).getBinding?
        eitherPattern ⟨2⟩).map (·.value) = some (.str "a")
    ∧ ((start.enter.writes (fun _ => .var ⟨0⟩) [⟨⟨2⟩, .str "a", .assigned⟩, matchOf 0 "b"]).get?
        (.var ⟨0⟩)).map (·.value) = some (.str "b") :=
  ⟨⟨_, rfl⟩, by decide, by decide, by decide, by decide⟩

end Environment

end PatternIR
