/-
  PatternIR.Proofs.Lowering.Facts
  ───────────────────────────────
  **TWO MACHINES: one keeps what each pattern matched, one has storage.**

  The machine that runs a tree as it stands has a cell for each pattern, and
  reads a unified binding as the last written of its patterns.  The machine
  that runs the lowered tree has a variable for the whole group.  What is
  known of groups of patterns at some point of an evaluation is a set of facts:

    • `Fact.stored` — the last match of the group is in its variable;
    • `Fact.still` — no pattern of the group has matched since;
    • `Fact.after` — so late it is.

  `Agree` relates the two machines under such facts.  Each write of either
  machine keeps it, and a known group reads as its variable (`Agree.read`).
-/
import PatternIR.Proofs.Eval.Later
import PatternIR.Proofs.Flow.Groups

namespace PatternIR

variable {ω : Type}

/-! ## §1. Writes. -/

namespace Machine

/-- What can be told of a machine without its variables and bindings. -/
def visible (m : Machine ω) : Nat × Nat × String × ω := (m.depth, m.nextObject, m.output, m.host)

/-- The machine after a symbol has been written. -/
def written (m : Machine ω) (sym : Sym) (v : Value) (origin : Origin) : Machine ω :=
  { m with
    env := m.env.set sym v origin
    history := .wrote m.env.level sym origin :: m.history }

variable (m : Machine ω) (sym : Sym) (v : Value) (origin : Origin)

/-- A write is not visible from outside. -/
@[simp] theorem written_visible : (m.written sym v origin).visible = m.visible := rfl

/-- A write turns the clock by one. -/
@[simp] theorem written_clock : (m.written sym v origin).env.clock = m.env.clock + 1 := rfl

/-- A write stays in the current activation. -/
@[simp] theorem written_callers : (m.written sym v origin).env.callers = m.env.callers := rfl

/-- What is written is read back, at the new time. -/
theorem written_get?_self :
    (m.written sym v origin).env.get? sym = some ⟨v, m.env.clock + 1, origin⟩ :=
  Activation.get?_set_self _ _ _

/-- Other symbols keep what they hold. -/
theorem written_get?_of_ne {other : Sym} (h : other ≠ sym) :
    (m.written sym v origin).env.get? other = m.env.get? other :=
  Activation.get?_set_of_ne _ _ h

end Machine

/-! ## §2. The cell written last. -/

namespace Environment

/-- The latest of some cells is one of them. -/
theorem latest_mem : ∀ {cs : List Cell} {c : Cell}, latest cs = some c → c ∈ cs
  | x :: cs, c, h => by
      unfold latest at h
      split at h
      next =>
        injection h with h
        rw [h]
        exact List.mem_cons_self
      next d hd =>
        injection h with h
        split at h
        · rw [← h]
          exact List.mem_cons_self
        · rw [← h]
          exact List.mem_cons_of_mem _ (latest_mem hd)

/-- A cell that is newer than all others is the latest. -/
theorem latest_eq {c : Cell} : ∀ {cs : List Cell}, c ∈ cs →
    (∀ d ∈ cs, d = c ∨ d.stamp < c.stamp) → latest cs = some c
  | x :: cs, hc, hnew => by
      have hnew' : ∀ d ∈ cs, d = c ∨ d.stamp < c.stamp :=
        fun d hd => hnew d (List.mem_cons_of_mem _ hd)
      unfold latest
      by_cases hcs : c ∈ cs
      · rw [latest_eq hcs hnew']
        simp only
        rcases hnew x List.mem_cons_self with rfl | hlt
        · rw [if_neg (Nat.lt_irrefl _)]
        · rw [if_neg (by omega)]
      · have hx : c = x := by
          rcases List.mem_cons.mp hc with h | h
          · exact h
          · exact absurd h hcs
        subst hx
        cases hl : latest cs with
        | none => rfl
        | some d =>
            have hd := latest_mem hl
            rcases hnew' d hd with rfl | hlt
            · exact absurd hd hcs
            · simp only
              rw [if_pos hlt]

/-- The cell `c` is that of the pattern of the group that was written last. -/
def Newest (env : Environment) (group : List BindingId) (c : Cell) : Prop :=
  ∃ leaf ∈ group, env.get? (.binding leaf) = some c ∧
    ∀ other ∈ group, other ≠ leaf → ∀ d, env.get? (.binding other) = some d → d.stamp < c.stamp

variable {env : Environment} {s : Symbols} {b : BindingId} {group : List BindingId} {c : Cell}

/-- A binding reads as the pattern of its group that was written last. -/
theorem Newest.getBinding_eq (h : env.Newest group c) (hb : Flow.Stands s b group)
    (hleaf : ∀ {b c}, env.get? (.binding b) = some c → s.isLeaf b = true) :
    env.getBinding? s b = some c := by
  obtain ⟨leaf, hmem, hc, hnew⟩ := h
  unfold getBinding?
  cases hself : env.get? (.binding b) with
  | some d =>
      have hgroup := hb.2 leaf
      rw [Symbols.leaves_of_isLeaf (hleaf hself), List.mem_singleton] at hgroup
      rw [hgroup.mpr hmem, hself] at hc
      exact hc
  | none =>
      refine latest_eq ?_ ?_
      · exact List.mem_filterMap.mpr ⟨leaf, (hb.2 leaf).mpr hmem, hc⟩
      · intro d hd
        obtain ⟨other, hother, hd⟩ := List.mem_filterMap.mp hd
        by_cases heq : other = leaf
        · subst heq
          rw [hc] at hd
          injection hd with hd
          exact .inl hd.symm
        · exact .inr (hnew other ((hb.2 other).mp hother) heq d hd)

end Environment

namespace Lowering

/-! ## §3. Facts. -/

/-- Something that is known of a group of patterns. -/
inductive Fact where
  /-- One of the group has matched after `since`, and what the last one matched is in `var`. -/
  | stored (group : List BindingId) (var : VarId) (since : Nat)
  /-- None of the group has matched after `upto`. -/
  | still (group : List BindingId) (upto : Nat)
  /-- It is no earlier than `stamp`. -/
  | after (stamp : Nat)

namespace Fact

/-- The group it is about, if it is about one. -/
def group : Fact → List BindingId
  | stored group _ _ => group
  | still group _ => group
  | after _ => []

/-- The variable it names, if it names one. -/
def var? : Fact → Option VarId
  | stored _ var _ => some var
  | still _ _ | after _ => none

/-- What a fact says of the two machines. -/
def Holds (m m' : Machine ω) : Fact → Prop
  | stored group var since => ∃ c, m.env.Newest group c ∧ since < c.stamp ∧
      ∃ d, m'.env.get? (.var var) = some d ∧ d.value = c.value
  | still group upto => ∀ leaf ∈ group, ∀ c, m.env.get? (.binding leaf) = some c → c.stamp ≤ upto
  | after stamp => stamp ≤ m.env.clock

variable {m m' m₁ m₁' : Machine ω}

/-- Machines in which the group and its variable are the same know the same of them. -/
theorem Holds.congr : ∀ {f : Fact}, f.Holds m m' →
    (∀ leaf ∈ f.group, m₁.env.get? (.binding leaf) = m.env.get? (.binding leaf)) →
    (∀ x, f.var? = some x → m₁'.env.get? (.var x) = m'.env.get? (.var x)) →
    m.env.clock ≤ m₁.env.clock → f.Holds m₁ m₁'
  | stored group var since, h, hleaf, hvar, _ => by
      obtain ⟨c, ⟨leaf, hmem, hc, hnew⟩, hsince, d, hd, hval⟩ := h
      refine ⟨c, ⟨leaf, hmem, ?_, ?_⟩, hsince, d, ?_, hval⟩
      · rw [hleaf leaf hmem]
        exact hc
      · intro other hother hne e he
        rw [hleaf other hother] at he
        exact hnew other hother hne e he
      · rw [hvar var rfl]
        exact hd
  | still group upto, h, hleaf, _, _ => by
      intro leaf hmem c hc
      rw [hleaf leaf hmem] at hc
      exact h leaf hmem c hc
  | after stamp, h, _, _, hclock => Nat.le_trans h hclock

end Fact

/-- What is known at some point. -/
abbrev Facts := Fact → Prop

namespace Facts

/-- Nothing is known. -/
def none : Facts := fun _ => False

/-- What either tells. -/
def or (K L : Facts) : Facts := fun f => K f ∨ L f

/-- One fact more. -/
def insert (K : Facts) (f : Fact) : Facts := K.or (· = f)

/-- Groups share no pattern and no variable, and the variables are not among the first `n`. -/
structure Apart (K : Facts) (n : Nat) : Prop where
  group : ∀ {f g : Fact} {leaf : BindingId}, K f → K g → leaf ∈ f.group → leaf ∈ g.group → f = g
  var : ∀ {f g : Fact} {x : VarId}, K f → K g → f.var? = some x → g.var? = some x → f = g
  storage : ∀ {f : Fact} {x : VarId}, K f → f.var? = some x → n ≤ x.index

end Facts

/-! ## §4. Machines that agree. -/

/-- Machines that look the same.  The stamps of the first are those of its past. -/
structure Alike (m m' : Machine ω) : Prop where
  visible : m.visible = m'.visible
  stamps : ∀ a ∈ m.env.current :: m.env.callers, ∀ {sym c}, a.get? sym = some c →
    c.stamp ≤ m.env.clock

/-- The first machine runs a tree over the table `s`, the second one the lowered
tree; both have been called from the given activations. -/
structure Agree (s : Symbols) (callers callers' : List Activation) (K : Facts) (m m' : Machine ω) :
    Prop where
  visible : m.visible = m'.visible
  callers : m.env.callers = callers
  callers' : m'.env.callers = callers'
  stamps : ∀ a ∈ m.env.current :: m.env.callers, ∀ {sym c}, a.get? sym = some c →
    c.stamp ≤ m.env.clock
  vars : ∀ {v : VarId}, v.index < s.vars.size →
    (m.env.get? (.var v)).map (·.value) = (m'.env.get? (.var v)).map (·.value)
  leaves : ∀ {b : BindingId} {c : Cell}, m.env.get? (.binding b) = some c → s.isLeaf b = true
  facts : ∀ {f : Fact}, K f → f.Holds m m'

namespace Agree

variable {s : Symbols} {callers callers' : List Activation} {K K' : Facts} {m m' : Machine ω}

/-- Machines that agree look alike from outside. -/
theorem alike (h : Agree s callers callers' K m m') : Alike m m' := ⟨h.visible, h.stamps⟩

/-- Other facts may be put in the place of those known, if they hold. -/
theorem of_facts (h : Agree s callers callers' K m m') (hK : ∀ {f : Fact}, K' f → f.Holds m m') :
    Agree s callers callers' K' m m' :=
  ⟨h.visible, h.callers, h.callers', h.stamps, h.vars, h.leaves, hK⟩

/-- Fewer facts may be known. -/
theorem weaken (h : Agree s callers callers' K m m') (hK : ∀ {f : Fact}, K' f → K f) :
    Agree s callers callers' K' m m' :=
  h.of_facts fun hf => h.facts (hK hf)

/-- One more may be, if it holds. -/
theorem insert (h : Agree s callers callers' K m m') {f : Fact} (hf : f.Holds m m') :
    Agree s callers callers' (K.insert f) m m' := by
  refine h.of_facts ?_
  rintro g (hg | rfl)
  · exact h.facts hg
  · exact hf

/-- Machines with the same variables and bindings, and that look the same. -/
theorem congr (h : Agree s callers callers' K m m') {m₁ m₁' : Machine ω} (henv : m₁.env = m.env)
    (henv' : m₁'.env = m'.env) (hvisible : m₁.visible = m₁'.visible) :
    Agree s callers callers' K m₁ m₁' := by
  refine ⟨hvisible, ?_, ?_, ?_, ?_, ?_, ?_⟩
  · rw [henv]
    exact h.callers
  · rw [henv']
    exact h.callers'
  · rw [henv]
    exact h.stamps
  · rw [henv, henv']
    exact h.vars
  · rw [henv]
    exact h.leaves
  · intro f hf
    refine (h.facts hf).congr (fun _ _ => by rw [henv]) (fun _ _ => by rw [henv']) ?_
    rw [henv]

/-- No cell is from a time to come. -/
theorem stamp_le (h : Agree s callers callers' K m m') {sym : Sym} {c : Cell}
    (hc : m.env.get? sym = some c) : c.stamp ≤ m.env.clock :=
  h.stamps m.env.current List.mem_cons_self hc

/-- At any time nothing has matched later. -/
theorem still (h : Agree s callers callers' K m m') (group : List BindingId) :
    (Fact.still group m.env.clock).Holds m m' :=
  fun _ _ _ hc => h.stamp_le hc

/-- The stamps after a write. -/
theorem stamps_written (h : Agree s callers callers' K m m') (sym : Sym) (v : Value)
    (origin : Origin) :
    ∀ a ∈ (m.written sym v origin).env.current :: (m.written sym v origin).env.callers,
      ∀ {x c}, a.get? x = some c → c.stamp ≤ (m.written sym v origin).env.clock := by
  intro a ha x c hc
  rcases List.mem_cons.mp ha with rfl | ha
  · by_cases hx : x = sym
    · subst hx
      have hself := m.written_get?_self x v origin
      rw [show (m.written x v origin).env.current.get? x = (m.written x v origin).env.get? x from rfl,
        hself] at hc
      injection hc with hc
      rw [← hc]
      exact Nat.le_refl _
    · have hne := m.written_get?_of_ne sym v origin hx
      rw [show (m.written sym v origin).env.current.get? x
        = (m.written sym v origin).env.get? x from rfl, hne] at hc
      exact Nat.le_succ_of_le (h.stamp_le hc)
  · exact Nat.le_succ_of_le (h.stamps a (List.mem_cons_of_mem _ ha) hc)

/-- The machine with storage writes a variable that holds no known group. -/
theorem writeStorage (h : Agree s callers callers' K m m') {x : VarId}
    (hx : s.vars.size ≤ x.index) (hK : ∀ {f : Fact}, K f → f.var? ≠ some x) (v : Value)
    (origin : Origin) : Agree s callers callers' K m (m'.written (.var x) v origin) := by
  refine ⟨h.visible, h.callers, h.callers', h.stamps, ?_, h.leaves, ?_⟩
  · intro y hy
    have hne : Sym.var y ≠ Sym.var x := by
      intro heq
      injection heq with heq
      rw [heq] at hy
      omega
    rw [m'.written_get?_of_ne _ _ _ hne]
    exact h.vars hy
  · intro f hf
    refine (h.facts hf).congr (fun _ _ => rfl) ?_ (Nat.le_refl _)
    intro y hy
    have hne : Sym.var y ≠ Sym.var x := by
      intro heq
      injection heq with heq
      exact hK hf (heq ▸ hy)
    exact m'.written_get?_of_ne _ _ _ hne

/-- Both machines write a variable of the program. -/
theorem writeVar (h : Agree s callers callers' K m m') (hK : K.Apart s.vars.size) {x : VarId}
    (hx : x.index < s.vars.size) (v : Value) (origin origin' : Origin) :
    Agree s callers callers' K (m.written (.var x) v origin) (m'.written (.var x) v origin') := by
  refine ⟨h.visible, h.callers, h.callers', h.stamps_written _ _ _, ?_, ?_, ?_⟩
  · intro y hy
    by_cases hyx : y = x
    · subst hyx
      rw [m.written_get?_self, m'.written_get?_self]
      rfl
    · have hne : Sym.var y ≠ Sym.var x := fun heq => hyx (by injection heq)
      rw [m.written_get?_of_ne _ _ _ hne, m'.written_get?_of_ne _ _ _ hne]
      exact h.vars hy
  · intro b c hc
    rw [m.written_get?_of_ne _ _ _ (by simp)] at hc
    exact h.leaves hc
  · intro f hf
    refine (h.facts hf).congr ?_ ?_ (Nat.le_succ _)
    · intro leaf _
      exact m.written_get?_of_ne _ _ _ (by simp)
    · intro y hy
      have hne : Sym.var y ≠ Sym.var x := by
        intro heq
        injection heq with heq
        have hstorage := hK.storage hf hy
        rw [heq] at hstorage
        omega
      exact m'.written_get?_of_ne _ _ _ hne

/-- The first machine writes a pattern of no known group. -/
theorem writePattern (h : Agree s callers callers' K m m') {leaf : BindingId}
    (hleaf : s.isLeaf leaf = true) (hK : ∀ {f : Fact}, K f → leaf ∉ f.group) (v : Value)
    (origin : Origin) : Agree s callers callers' K (m.written (.binding leaf) v origin) m' := by
  refine ⟨h.visible, h.callers, h.callers', h.stamps_written _ _ _, ?_, ?_, ?_⟩
  · intro y hy
    rw [m.written_get?_of_ne _ _ _ (by simp)]
    exact h.vars hy
  · intro b c hc
    by_cases hb : b = leaf
    · rw [hb]
      exact hleaf
    · rw [m.written_get?_of_ne _ _ _ (by simpa using hb)] at hc
      exact h.leaves hc
  · intro f hf
    refine (h.facts hf).congr ?_ (fun _ _ => rfl) (Nat.le_succ _)
    intro other hother
    refine m.written_get?_of_ne _ _ _ ?_
    intro heq
    injection heq with heq
    exact hK hf (heq ▸ hother)

/-- What has just been written to a pattern and to a variable is stored there. -/
theorem holds_stored {group : List BindingId} {leaf : BindingId} {x : VarId} {v : Value}
    {origin origin' : Origin} {since : Nat} (hmem : leaf ∈ group)
    (hothers : ∀ other ∈ group, other ≠ leaf → ∀ c, m.env.get? (.binding other) = some c →
      c.stamp ≤ m.env.clock) (hsince : since ≤ m.env.clock) :
    (Fact.stored group x since).Holds (m.written (.binding leaf) v origin)
      (m'.written (.var x) v origin') := by
  refine ⟨_, ⟨leaf, hmem, m.written_get?_self _ _ _, ?_⟩, Nat.lt_succ_of_le hsince, _,
    m'.written_get?_self _ _ _, rfl⟩
  intro other hother hne c hc
  rw [m.written_get?_of_ne _ _ _ (by simpa using hne)] at hc
  exact Nat.lt_succ_of_le (hothers other hother hne c hc)

/-- Both machines write a known group, one a pattern of it and one its variable. -/
theorem writeKnown (h : Agree s callers callers' K m m') (hK : K.Apart s.vars.size)
    {group : List BindingId} {x : VarId} {since : Nat} (hknown : K (.stored group x since))
    {leaf : BindingId} (hmem : leaf ∈ group) (hleaf : s.isLeaf leaf = true) (v : Value)
    (origin origin' : Origin) :
    Agree s callers callers' K (m.written (.binding leaf) v origin) (m'.written (.var x) v origin') := by
  have hvar : s.vars.size ≤ x.index := hK.storage hknown rfl
  -- all other facts are of other patterns and other variables
  let others : Facts := fun f => K f ∧ f ≠ .stored group x since
  have hothers : Agree s callers callers' others m m' := h.weaken fun hf => hf.1
  have hwritten := (hothers.writeStorage hvar (fun {f} hf hx => hf.2 (hK.var hf.1 hknown hx rfl)) v
    origin').writePattern hleaf (fun {f} hf hin => hf.2 (hK.group hf.1 hknown hin hmem)) v origin
  refine hwritten.of_facts ?_
  intro f hf
  by_cases heq : f = .stored group x since
  · subst heq
    obtain ⟨c, ⟨leaf', hmem', hc, -⟩, hsince, -⟩ := h.facts hf
    refine holds_stored hmem (fun _ _ _ _ hd => h.stamp_le hd) ?_
    exact Nat.le_of_lt (Nat.lt_of_lt_of_le hsince (h.stamp_le hc))
  · exact hwritten.facts ⟨hf, heq⟩

/-- **A known group reads as its variable.** -/
theorem read (h : Agree s callers callers' K m m') {group : List BindingId} {x : VarId}
    {since : Nat} (hknown : K (.stored group x since)) {b : BindingId}
    (hb : Flow.Stands s b group) :
    ∃ c d, m.env.getBinding? s b = some c ∧ m'.env.get? (.var x) = some d ∧ d.value = c.value := by
  obtain ⟨c, hnewest, -, d, hd, hval⟩ := h.facts hknown
  exact ⟨c, d, hnewest.getBinding_eq hb h.leaves, hd, hval⟩

/-- What is known is known again once the activations are those from before. -/
theorem restored {m₁ m₁' : Machine ω} (h : Agree s callers callers' K m m') (h₁ : Alike m₁ m₁')
    (hm : m.Restored m₁) (hm' : m'.Restored m₁') (hclock : m.env.clock ≤ m₁.env.clock) : Agree s callers callers' K m₁ m₁' := by
  have hget : ∀ sym, m₁.env.get? sym = m.env.get? sym := fun sym => congrArg (·.get? sym) hm.current
  have hget' : ∀ sym, m₁'.env.get? sym = m'.env.get? sym := fun sym => congrArg (·.get? sym) hm'.current
  refine ⟨h₁.visible, hm.callers.trans h.callers, hm'.callers.trans h.callers', h₁.stamps, ?_, ?_, ?_⟩
  · intro v hv
    rw [hget, hget']
    exact h.vars hv
  · intro b c hc
    rw [hget] at hc
    exact h.leaves hc
  · exact fun hf => (h.facts hf).congr (fun _ _ => hget _) (fun _ _ => hget' _) hclock

end Agree

namespace Alike

variable {m m' : Machine ω}

/-- Beginning a call: nothing is known of the new activations. -/
theorem enter (h : Alike m m') (s : Symbols) :
    Agree s (m.env.current :: m.env.callers) (m'.env.current :: m'.env.callers) .none
      m.entered m'.entered := by
  have hvisible := h.visible
  simp only [Machine.visible, Prod.mk.injEq] at hvisible
  refine ⟨?_, rfl, rfl, ?_, fun _ => rfl, fun hc => by injection hc, fun hf => hf.elim⟩
  · simp [Machine.visible, Machine.entered, hvisible]
  · intro a ha sym c hc
    rcases List.mem_cons.mp ha with rfl | ha
    · injection hc
    · exact h.stamps a ha hc

/-- Ending it. -/
theorem leave (h : Alike m m') : Alike (leaveCall m) (leaveCall m') := by
  have hvisible := h.visible
  simp only [Machine.visible, Prod.mk.injEq] at hvisible
  refine ⟨by simp [Machine.visible, leaveCall, hvisible], ?_⟩
  intro a ha sym c hc
  have hold : a ∈ m.env.callers ∨ a = [] := by
    simp only [leaveCall, Environment.leave] at ha
    split at ha <;> simp_all
  rcases hold with ha' | rfl
  · rw [Machine.leaveCall_clock]
    exact h.stamps a (List.mem_cons_of_mem _ ha') hc
  · injection hc

end Alike

end Lowering

end PatternIR
