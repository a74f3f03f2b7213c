/-
  PatternIR.Proofs.Lowering.Meaning
  ─────────────────────────────────
  **THE SAME MEANING, with patterns and with storage.**

  `Agreeing` says of two evaluations, one of a tree with patterns and one of a
  tree with storage, that the second simulates the first wherever what is in
  scope is known, and what is known afterwards.  Evaluations are put together
  from such steps, and fuel is not spoken of any more.

    • `Place` — where patterns are stored, and which bindings are in scope;
    • `Point` — two machines that agree, and facts ready for what comes next;
    • `Agreeing` — evaluations that agree, with the steps they are made of.
-/
import PatternIR.Proofs.Eval.Simulation
import PatternIR.Proofs.Flow.Endings
import PatternIR.Proofs.Lowering.Facts
import PatternIR.Proofs.Lowering.Storage

namespace PatternIR

variable {ω : Type}

/-- What relates two values, if there are any, in a weaker relation. -/
theorem rel_imp {α β : Type} {R S : α → β → Prop} {a : Option α} {b : Option β}
    (h : Option.Rel R a b) (himp : ∀ x y, R x y → S x y) : Option.Rel S a b := by
  cases h with
  | none => exact .none
  | some hxy => exact .some (himp _ _ hxy)

namespace Lowering

open PatternIR.Flow (groups Stands)

/-! ## §1. Places. -/

/-- A place in a tree. -/
structure Place where
  storage : Storage
  /-- All variables in use are below. -/
  bound : Nat
  scope : BindingId → Prop

/-- The storage of a place is behind the variables of the program. -/
def Place.Valid (P : Place) (s : Symbols) : Prop :=
  ∀ {leaf : BindingId} {x : VarId}, P.storage leaf = some x →
    s.vars.size ≤ x.index ∧ x.index < P.bound

/-- What the value of an expression tells: of each group of this outcome that
is stored, that it has matched in between. -/
def gained (s : Symbols) (ρ : Storage) (e : Expr) (v : Value) (since : Nat) : Facts := fun f =>
  ∃ o g x, v = .bool o ∧ g ∈ groups s e o ∧ ρ.Stores g x ∧ f = .stored g x since

/-- What an outcome tells is of its groups, each in its variable. -/
theorem gained_bool {s : Symbols} {ρ : Storage} {e : Expr} {outcome : Bool} {since : Nat} {f : Fact} :
    gained s ρ e (.bool outcome) since f
      ↔ ∃ g x, g ∈ groups s e outcome ∧ ρ.Stores g x ∧ f = .stored g x since := by
  constructor
  · rintro ⟨o, g, x, ho, hrest⟩
    injection ho with ho
    rw [← ho] at hrest
    exact ⟨g, x, hrest⟩
  · rintro ⟨g, x, hrest⟩
    exact ⟨outcome, g, x, rfl, hrest⟩

/-- The bindings that stand for a group of a condition. -/
def Told (s : Symbols) (cond : Expr) (outcome : Bool) : BindingId → Prop := fun b =>
  ∃ g ∈ groups s cond outcome, Stands s b g

/-! ## §2. Points. -/

/-- Nothing that is known is of the given patterns, or in their storage. -/
structure Ready (s : Symbols) (P : Place) (K : Facts) (ts : List BindingId) : Prop where
  apart : K.Apart s.vars.size
  tests : ∀ {f : Fact} {leaf : BindingId}, K f → leaf ∈ f.group → leaf ∉ ts
  storage : ∀ {f : Fact} {x : VarId} {leaf : BindingId}, K f → f.var? = some x → leaf ∈ ts →
    P.storage leaf ≠ some x
  bound : ∀ {f : Fact} {x : VarId}, K f → f.var? = some x → x.index < P.bound

/-- Of each binding in scope it is known in which variable it is. -/
def Covers (s : Symbols) (P : Place) (K : Facts) : Prop :=
  ∀ b, P.scope b → s.Has b →
    ∃ g x since, K (.stored g x since) ∧ Stands s b g ∧ P.storage.Stores g x

/-- A point at which two evaluations agree, before something with the given
patterns is evaluated. -/
structure Point (s : Symbols) (P : Place) (callers callers' : List Activation) (K : Facts)
    (ts : List BindingId) (m m' : Machine ω) : Prop where
  ready : Ready s P K ts
  covers : Covers s P K
  agree : Agree s callers callers' K m m'

namespace Ready

variable {s : Symbols} {P P' : Place} {K K' : Facts} {ts ts' : List BindingId}

/-- Fewer tests may be ahead. -/
theorem subset (h : Ready s P K ts) (hts : ∀ leaf ∈ ts', leaf ∈ ts) : Ready s P K ts' :=
  ⟨h.apart, fun hf hleaf hin => h.tests hf hleaf (hts _ hin),
    fun hf hx hin => h.storage hf hx (hts _ hin), h.bound⟩

/-- More storage does not matter to what is known. -/
theorem extends_ (h : Ready s P K ts) (hP : P.storage.Extends P'.storage P.bound)
    (hbound : P.bound ≤ P'.bound) : Ready s P' K ts := by
  refine ⟨h.apart, h.tests, ?_, fun hf hx => Nat.lt_of_lt_of_le (h.bound hf hx) hbound⟩
  intro f x leaf hf hx hleaf hstored
  rcases hP.fresh hstored with hold | hnew
  · exact h.storage hf hx hleaf hold
  · exact absurd (h.bound hf hx) (Nat.not_lt.mpr hnew)

/-- A fact about other patterns, without storage. -/
theorem insert (h : Ready s P K ts) {f : Fact} (hvar : f.var? = none)
    (hK : ∀ {g : Fact} {leaf : BindingId}, K g → leaf ∈ g.group → leaf ∉ f.group)
    (hts : ∀ leaf ∈ f.group, leaf ∉ ts) : Ready s P (K.insert f) ts := by
  have hno : ∀ {x : VarId}, f.var? ≠ some x := by simp [hvar]
  refine ⟨⟨?_, ?_, ?_⟩, ?_, ?_, ?_⟩
  · rintro g g' leaf (hg | rfl) (hg' | rfl) hleaf hleaf'
    · exact h.apart.group hg hg' hleaf hleaf'
    · exact absurd hleaf' (hK hg hleaf)
    · exact absurd hleaf (hK hg' hleaf')
    · rfl
  · rintro g g' x (hg | rfl) (hg' | rfl) hx hx'
    · exact h.apart.var hg hg' hx hx'
    · exact absurd hx' hno
    · exact absurd hx hno
    · rfl
  · rintro g x (hg | rfl) hx
    · exact h.apart.storage hg hx
    · exact absurd hx hno
  · rintro g leaf (hg | rfl) hleaf
    · exact h.tests hg hleaf
    · exact hts leaf hleaf
  · rintro g x leaf (hg | rfl) hx
    · exact h.storage hg hx
    · exact absurd hx hno
  · rintro g x (hg | rfl) hx
    · exact h.bound hg hx
    · exact absurd hx hno

end Ready

namespace Point

variable {s : Symbols} {P P' : Place} {callers callers' : List Activation} {K K' : Facts}
  {ts ts' : List BindingId} {m m' m₁ m₁' : Machine ω}

/-- The next point, if nothing new is known there. -/
theorem next (h : Point s P callers callers' K ts m m') (h₁ : Agree s callers callers' K m₁ m₁')
    (hts : ∀ leaf ∈ ts', leaf ∈ ts) : Point s P callers callers' K ts' m₁ m₁' :=
  ⟨h.ready.subset hts, h.covers, h₁⟩

/-- Fewer tests may be ahead. -/
theorem subset (h : Point s P callers callers' K ts m m') (hts : ∀ leaf ∈ ts', leaf ∈ ts) :
    Point s P callers callers' K ts' m m' :=
  h.next h.agree hts

/-- With more storage, and no more in scope. -/
theorem extends_ (h : Point s P callers callers' K ts m m')
    (hP : P.storage.Extends P'.storage P.bound) (hbound : P.bound ≤ P'.bound)
    (hscope : ∀ b, P'.scope b → P.scope b) : Point s P' callers callers' K ts m m' := by
  refine ⟨h.ready.extends_ hP hbound, ?_, h.agree⟩
  intro b hb hhas
  obtain ⟨g, x, since, hK, hstands, hstores⟩ := h.covers b (hscope b hb) hhas
  exact ⟨g, x, since, hK, hstands, fun leaf hleaf => hP.kept (hstores leaf hleaf)⟩

/-- A fact about other bindings may become known, if it holds. -/
theorem insert (h : Point s P callers callers' K ts m m') {f : Fact} (hvar : f.var? = none)
    (hK : ∀ {g : Fact} {leaf : BindingId}, K g → leaf ∈ g.group → leaf ∉ f.group)
    (hts : ∀ leaf ∈ f.group, leaf ∉ ts) (hf : f.Holds m m') :
    Point s P callers callers' (K.insert f) ts m m' := by
  refine ⟨h.ready.insert hvar hK hts, ?_, h.agree.insert hf⟩
  intro b hb hhas
  obtain ⟨g, x, since, hg, hrest⟩ := h.covers b hb hhas
  exact ⟨g, x, since, .inl hg, hrest⟩

/-- The time is known at any point. -/
theorem insertAfter (h : Point s P callers callers' K ts m m') :
    Point s P callers callers' (K.insert (.after m.env.clock)) ts m m' :=
  h.insert rfl (fun _ _ => List.not_mem_nil) (fun _ hleaf => absurd hleaf List.not_mem_nil)
    (Nat.le_refl _)

end Point

/-! ## §3. Evaluations that agree. -/

/-- How two evaluations end that agree: in the same value, with the facts that
go with it; in the same jump, with the facts known before; in the same fault. -/
def Same {α : Type} (s : Symbols) (callers callers' : List Activation) (K₀ : Facts) (K : α → Facts) :
    Except Interrupt α → Machine ω → Machine ω → Prop
  | .ok a, m, m' => Agree s callers callers' (K a) m m'
  | .error i, m, m' => if i.isJump then Agree s callers callers' K₀ m m' else Alike m m'

/-- Where machines agree, the same fault is the same ending. -/
theorem Same.fault {α : Type} {s : Symbols} {callers callers' : List Activation} {K₀ K₁ : Facts}
    {K : α → Facts} {m m' : Machine ω} (h : Agree s callers callers' K₁ m m') (f : Fault) :
    Same s callers callers' K₀ K (.error (.fault f)) m m' :=
  h.alike

/-- An interruption does not care what would be known behind a result. -/
theorem Same.weaken {α β : Type} {s : Symbols} {callers callers' : List Activation} {K₀ K₁ : Facts}
    {K : α → Facts} {L : β → Facts} {i : Interrupt} {m m' : Machine ω}
    (hK : ∀ {f : Fact}, K₁ f → K₀ f) (h : Same s callers callers' K₀ K (.error i) m m') :
    Same s callers callers' K₁ L (.error i) m m' := by
  unfold Same at h ⊢
  cases hi : i.isJump with
  | true =>
      simp only [hi, if_true] at h ⊢
      exact h.weaken hK
  | false =>
      simp only [hi, Bool.false_eq_true, if_false] at h ⊢
      exact h

/-- The setting of a program and that of the lowered program. -/
structure Twin (setting setting' : Setting ω) : Prop where
  sound : setting.program.symbols.Sound
  hierarchy : setting'.hierarchy = setting.hierarchy
  native : setting'.native? = setting.native?
  var : ∀ {v : VarId}, v.index < setting.program.symbols.vars.size →
    setting'.program.symbols.var? v = setting.program.symbols.var? v

/-- Calls of two methods with no more fuel than `n` agree. -/
def CallAgrees (setting setting' : Setting ω) (n : Nat) (f f' : Method) : Prop :=
  ∀ k, k ≤ n → ∀ args {callers callers' : List Activation} {K : Facts} {m m' : Machine ω},
    Agree setting.program.symbols callers callers' K m m' →
      Simulates k (callMethod setting k f args) (fun k => callMethod setting' k f' args) m m'
        (Same setting.program.symbols callers callers' K fun _ => K)

/-- The programs have methods of the same names, and their calls with no more
fuel than `n` agree. -/
def Calls (setting setting' : Setting ω) (n : Nat) : Prop :=
  ∀ name, Option.Rel (CallAgrees setting setting' n) (setting.program.method? name)
    (setting'.program.method? name)

/-- Calls that agree with much fuel agree with less. -/
theorem Calls.of_le {setting setting' : Setting ω} {n n' : Nat} (h : Calls setting setting' n')
    (hn : n ≤ n') : Calls setting setting' n :=
  fun name => rel_imp (h name) fun _ _ hf k hk => hf k (Nat.le_trans hk hn)

/-- Facts that a value goes with, from some time on. -/
abbrev Gain (α : Type) := α → Nat → Facts

/-- Nothing new is known. -/
def Gain.nothing {α : Type} : Gain α := fun _ _ => .none

/-- What an outcome of a condition tells, if there is one that is certain. -/
def Gain.outcome {α : Type} (s : Symbols) (ρ : Storage) (certain : Option (Expr × Bool)) : Gain α :=
  fun _ since f => ∃ c o, certain = some (c, o) ∧ gained s ρ c (.bool o) since f

/-- At a place, an evaluation with fuel `n` of something with the given patterns
agrees with a lowered one, and a value comes with new facts. -/
def AgreeingAt {α : Type} (n : Nat) (setting setting' : Setting ω) (P : Place) (ts : List BindingId)
    (G : Gain α) (c : Run ω α) (g : Nat → Run ω α) : Prop :=
  Calls setting setting' n → ∀ {callers callers' : List Activation} {K : Facts}
    {m m' : Machine ω}, Point setting.program.symbols P callers callers' K ts m m' →
      Simulates n c g m m'
        (Same setting.program.symbols callers callers' K fun a => K.or (G a m.env.clock))

/-- Evaluations agree with any fuel. -/
def Agreeing {α : Type} (setting setting' : Setting ω) (P : Place) (ts : List BindingId) (G : Gain α)
    (c g : Nat → Run ω α) : Prop :=
  ∀ n, AgreeingAt n setting setting' P ts G (c n) g

namespace Agreeing

variable {α β : Type} {setting setting' : Setting ω} {P P' : Place} {ts ts' ts₁ ts₂ : List BindingId}
  {G : Gain α} {c g : Nat → Run ω α}

/-- A result without an effect gains nothing. -/
theorem pure (a : α) :
    Agreeing setting setting' P ts .nothing (fun _ => (Pure.pure a : Run ω α)) fun _ => Pure.pure a :=
  fun _ _ _ _ _ _ _ h => .pure (h.agree.weaken fun hf => hf.elim id False.elim)

/-- An interruption on both sides. -/
theorem interrupt (i : Interrupt) :
    Agreeing setting setting' P ts G (fun _ => (Run.interrupt i : Run ω α)) fun _ => Run.interrupt i := by
  intro n _ callers callers' K m m' h
  refine .interrupt ?_
  show if i.isJump then _ else _
  split
  · exact h.agree
  · exact h.agree.alike

/-- A value or a fault on both sides. -/
theorem ofExcept : ∀ x : Except Fault α,
    Agreeing setting setting' P ts .nothing (fun _ => (Run.ofExcept x : Run ω α)) fun _ => Run.ofExcept x
  | .ok a => pure a
  | .error f => interrupt (.fault f)

/-- Each step takes a unit of fuel. -/
theorem step {c₁ g₁ : Nat → Run ω α} (hc : c 0 = throw .exhausted) (hc₁ : ∀ n, c (n + 1) = c₁ n)
    (hg : g 0 = throw .exhausted) (hg₁ : ∀ n, g (n + 1) = g₁ n)
    (h : Agreeing setting setting' P ts G c₁ g₁) : Agreeing setting setting' P ts G c g := by
  intro n calls callers callers' K m m' hpoint
  cases n with
  | zero =>
      rw [hc]
      exact .zero hg
  | succ n =>
      rw [hc₁]
      exact .step hg hg₁ (h n (calls.of_le (Nat.le_succ n)) hpoint)

/-- It holds where more tests are ahead. -/
theorem subset (h : Agreeing setting setting' P ts' G c g) (hts : ∀ leaf ∈ ts', leaf ∈ ts) :
    Agreeing setting setting' P ts G c g :=
  fun n calls _ _ _ _ _ hpoint => h n calls (hpoint.subset hts)

/-- A value comes with less. -/
theorem mono {G' : Gain α} (h : Agreeing setting setting' P ts G c g)
    (hG : ∀ {a since f}, G' a since f → G a since f) : Agreeing setting setting' P ts G' c g := by
  intro n calls callers callers' K m m' hpoint
  refine (h n calls hpoint).mono ?_
  intro r m₁ m₁' hpost
  cases r with
  | ok a => exact Agree.weaken hpost fun hf => hf.imp id hG
  | error i => exact Same.weaken (fun hf => hf) hpost

/-- What is gained may be forgotten. -/
theorem forget (h : Agreeing setting setting' P ts G c g) :
    Agreeing setting setting' P ts .nothing c g :=
  h.mono False.elim

/-- More storage, and storage further behind. -/
theorem extends_ (h : Agreeing setting setting' P' ts G c g)
    (hP : P.storage.Extends P'.storage P.bound) (hbound : P.bound ≤ P'.bound)
    (hscope : ∀ b, P'.scope b → P.scope b) : Agreeing setting setting' P ts G c g :=
  fun n calls _ _ _ _ _ hpoint => h n calls (hpoint.extends_ hP hbound hscope)

/-- **Steps in sequence.** -/
theorem bind {f f' : α → Nat → Run ω β} (hc : Agreeing setting setting' P ts₁ G c g)
    (hf : ∀ a, Agreeing setting setting' P ts₂ .nothing (f a) (f' a)) (h₁ : ∀ leaf ∈ ts₁, leaf ∈ ts)
    (h₂ : ∀ leaf ∈ ts₂, leaf ∈ ts) :
    Agreeing setting setting' P ts .nothing (fun n => c n >>= fun a => f a n)
      fun k => g k >>= fun a => f' a k := by
  intro n calls callers callers' K m m' hpoint
  refine .bind (hc n calls (hpoint.subset h₁)) ?_ fun i _ _ => Same.weaken fun hf => hf
  intro a m₁ m₁' hagree
  refine (hf a n calls (hpoint.next (Agree.weaken hagree .inl) h₂)).mono ?_
  intro r m₂ m₂' hpost
  cases r with
  | ok b => exact hpost
  | error i => exact Same.weaken (fun hf => hf) hpost

end Agreeing

/-! ## §4. Conditions. -/

/-- What an outcome of a condition tells can be used before something with the
patterns `ts` is evaluated. -/
structure Tells (s : Symbols) (P : Place) (e : Expr) (outcome : Bool) (ts : List BindingId) : Prop where
  valid : P.Valid s
  disjoint : (groups s e outcome).Pairwise Flow.Disjoint
  single : ∀ {g g' : List BindingId} {leaf leaf' : BindingId} {x : VarId}, g ∈ groups s e outcome →
    g' ∈ groups s e outcome → leaf ∈ g → leaf' ∈ g' → P.storage leaf = some x →
      P.storage leaf' = some x → g = g'
  stored : ∀ g ∈ groups s e outcome, ∃ x, P.storage.Stores g x
  tests : ∀ leaf ∈ e.tests, leaf ∉ ts
  storage : ∀ {g : List BindingId} {leaf other : BindingId} {x : VarId}, g ∈ groups s e outcome →
    leaf ∈ g → P.storage leaf = some x → other ∈ ts → P.storage other ≠ some x

section

variable {s : Symbols} {P P' : Place} {K : Facts} {ts : List BindingId} {e : Expr} {outcome : Bool}
  {since : Nat}

/-- What is known in front of a condition is of other patterns than those of its
groups, and in other variables. -/
structure Aside (s : Symbols) (P : Place) (e : Expr) (outcome : Bool) (K : Facts) : Prop where
  group : ∀ {f : Fact} {leaf : BindingId} {g : List BindingId}, K f → g ∈ groups s e outcome →
    leaf ∈ f.group → leaf ∉ g
  var : ∀ {f : Fact} {x : VarId} {g : List BindingId}, K f → g ∈ groups s e outcome →
    f.var? = some x → ¬ P.storage.Stores g x

/-- Where the patterns of a condition are ahead, what is known is aside. -/
theorem Ready.aside (h : Ready s P K (e.tests ++ ts)) : Aside s P e outcome K := by
  refine ⟨?_, ?_⟩
  · intro f leaf g hf hg hleaf hin
    exact h.tests hf hleaf (List.mem_append_left _ (Flow.mem_tests hg hin))
  · intro f x g hf hg hx hstores
    obtain ⟨leaf, hleaf⟩ := Flow.exists_mem_group hg
    exact h.storage hf hx (List.mem_append_left _ (Flow.mem_tests hg hleaf)) (hstores leaf hleaf)

/-- What a condition tells is apart from what was known, and one group from another. -/
theorem Tells.apart (ht : Tells s P e outcome ts) (hK : K.Apart s.vars.size)
    (haside : Aside s P e outcome K) :
    (K.or (gained s P.storage e (.bool outcome) since)).Apart s.vars.size := by
  refine ⟨?_, ?_, ?_⟩
  · rintro f f' leaf (hf | hf) (hf' | hf') hleaf hleaf'
    · exact hK.group hf hf' hleaf hleaf'
    · obtain ⟨g, x, hg, -, rfl⟩ := gained_bool.mp hf'
      exact absurd hleaf' (haside.group hf hg hleaf)
    · obtain ⟨g, x, hg, -, rfl⟩ := gained_bool.mp hf
      exact absurd hleaf (haside.group hf' hg hleaf')
    · obtain ⟨g, x, hg, hx, rfl⟩ := gained_bool.mp hf
      obtain ⟨g', x', hg', hx', rfl⟩ := gained_bool.mp hf'
      have hgg := Flow.eq_of_disjoint ht.disjoint hg hg' hleaf hleaf'
      subst hgg
      have hxx := (hx leaf hleaf).symm.trans (hx' leaf hleaf)
      injection hxx with hxx
      rw [hxx]
  · rintro f f' y (hf | hf) (hf' | hf') hy hy'
    · exact hK.var hf hf' hy hy'
    · obtain ⟨g, x, hg, hx, rfl⟩ := gained_bool.mp hf'
      injection hy' with hxy
      subst hxy
      exact absurd hx (haside.var hf hg hy)
    · obtain ⟨g, x, hg, hx, rfl⟩ := gained_bool.mp hf
      injection hy with hxy
      subst hxy
      exact absurd hx (haside.var hf' hg hy')
    · obtain ⟨g, x, hg, hx, rfl⟩ := gained_bool.mp hf
      obtain ⟨g', x', hg', hx', rfl⟩ := gained_bool.mp hf'
      injection hy with hxy
      injection hy' with hxy'
      subst hxy hxy'
      obtain ⟨leaf, hleaf⟩ := Flow.exists_mem_group hg
      obtain ⟨leaf', hleaf'⟩ := Flow.exists_mem_group hg'
      rw [ht.single hg hg' hleaf hleaf' (hx leaf hleaf) (hx' leaf' hleaf')]
  · rintro f y (hf | hf) hy
    · exact hK.storage hf hy
    · obtain ⟨g, x, hg, hx, rfl⟩ := gained_bool.mp hf
      injection hy with hxy
      subst hxy
      obtain ⟨leaf, hleaf⟩ := Flow.exists_mem_group hg
      exact (ht.valid (hx leaf hleaf)).1

/-- Nothing that is known once a condition has come out is of the patterns that
are still ahead. -/
theorem Ready.told (ht : Tells s P e outcome ts) (h : Ready s P K (e.tests ++ ts))
    (hstorage : P'.storage = P.storage) (hbound : P.bound ≤ P'.bound) :
    Ready s P' (K.or (gained s P.storage e (.bool outcome) since)) ts := by
  refine ⟨ht.apart h.apart h.aside, ?_, ?_, ?_⟩
  · rintro f leaf (hf | hf) hleaf hin
    · exact h.tests hf hleaf (List.mem_append_right _ hin)
    · obtain ⟨g, x, hg, -, rfl⟩ := gained_bool.mp hf
      exact ht.tests leaf (Flow.mem_tests hg hleaf) hin
  · rintro f y leaf (hf | hf) hy hin
    · rw [hstorage]
      exact h.storage hf hy (List.mem_append_right _ hin)
    · obtain ⟨g, x, hg, hx, rfl⟩ := gained_bool.mp hf
      injection hy with hxy
      subst hxy
      obtain ⟨other, hother⟩ := Flow.exists_mem_group hg
      rw [hstorage]
      exact ht.storage hg hother (hx other hother) hin
  · rintro f y (hf | hf) hy
    · exact Nat.lt_of_lt_of_le (h.bound hf hy) hbound
    · obtain ⟨g, x, hg, hx, rfl⟩ := gained_bool.mp hf
      injection hy with hxy
      subst hxy
      obtain ⟨leaf, hleaf⟩ := Flow.exists_mem_group hg
      exact Nat.lt_of_lt_of_le (ht.valid (hx leaf hleaf)).2 hbound

/-- **The point after a condition has come out.** -/
theorem Point.told {callers callers' : List Activation} {m m' m₁ m₁' : Machine ω}
    (ht : Tells s P e outcome ts) (h : Point s P callers callers' K (e.tests ++ ts) m m')
    (h₁ : Agree s callers callers' (K.or (gained s P.storage e (.bool outcome) since)) m₁ m₁')
    (hstorage : P'.storage = P.storage) (hbound : P.bound ≤ P'.bound)
    (hscope : ∀ b, P'.scope b → P.scope b ∨ Told s e outcome b) :
    Point s P' callers callers' (K.or (gained s P.storage e (.bool outcome) since)) ts m₁ m₁' := by
  refine ⟨h.ready.told ht hstorage hbound, ?_, h₁⟩
  intro b hb hhas
  rw [hstorage]
  rcases hscope b hb with hb | ⟨g, hg, hstands⟩
  · obtain ⟨g, x, since', hK, hrest⟩ := h.covers b hb hhas
    exact ⟨g, x, since', .inl hK, hrest⟩
  · obtain ⟨x, hx⟩ := ht.stored g hg
    exact ⟨g, x, since, .inr (gained_bool.mpr ⟨g, x, hg, hx, rfl⟩), hstands, hx⟩

end

/-! ## §5. Reading and writing. -/

namespace Agreeing

variable {setting setting' : Setting ω} {P : Place} {ts : List BindingId}

/-- Two computations without fuel, the end of which is known. -/
theorem of_ends {α : Type} {G : Gain α} {c g : Run ω α}
    (h : ∀ {callers callers' : List Activation} {K : Facts} {m m' : Machine ω},
      Point setting.program.symbols P callers callers' K ts m m' →
        ∃ r m₁ m₁', c m = Run.ended r m₁ ∧ g m' = Run.ended r m₁' ∧
          Same setting.program.symbols callers callers' K (fun a => K.or (G a m.env.clock)) r m₁ m₁') :
    Agreeing setting setting' P ts G (fun _ => c) fun _ => g := by
  intro n _ callers callers' K m m' hpoint
  obtain ⟨r, m₁, m₁', hc, hg, hsame⟩ := h hpoint
  exact .ends hc (.of_eq fun _ => hg) hsame

/-- A result behind which nothing more is known. -/
theorem same_nothing {α : Type} {s : Symbols} {callers callers' : List Activation} {K : Facts}
    {m m' : Machine ω} (h : Agree s callers callers' K m m') (a : α) (since : Nat) :
    Same s callers callers' K (fun a => K.or (Gain.nothing a since)) (.ok a) m m' :=
  h.weaken fun hf => hf.elim id False.elim

variable (twin : Twin setting setting')

include twin

/-- A variable of the program has the same name in both tables. -/
theorem nameOf?_var {v : VarId} (hv : v.index < setting.program.symbols.vars.size) :
    setting'.program.symbols.nameOf? (.var v) = setting.program.symbols.nameOf? (.var v) := by
  simp [Symbols.nameOf?, twin.var hv]

/-- A variable of the program reads the same. -/
theorem readVar {v : VarId} (hv : v.index < setting.program.symbols.vars.size) (node node' : NodeId) :
    Agreeing setting setting' P ts .nothing
      (fun _ => (Run.read setting.program.symbols node (.var v) : Run ω Value))
      fun _ => Run.read setting'.program.symbols node' (.var v) := by
  refine .of_ends ?_
  intro callers callers' K m m' hpoint
  have hcells := hpoint.agree.vars hv
  simp only [Run.read, Environment.read?, nameOf?_var twin hv]
  cases hc : m.env.get? (.var v) with
  | none =>
      have hc' : m'.env.get? (.var v) = none := by
        rw [hc] at hcells
        exact Option.map_eq_none_iff.mp hcells.symm
      rw [hc']
      exact ⟨.error _, m, m', rfl, rfl, hpoint.agree.alike⟩
  | some c =>
      obtain ⟨c', hc', hval⟩ : ∃ c', m'.env.get? (.var v) = some c' ∧ c'.value = c.value := by
        rw [hc] at hcells
        exact Option.map_eq_some_iff.mp hcells.symm
      rw [hc']
      refine ⟨.ok c.value, _, _, rfl, by rw [← hval]; rfl, ?_⟩
      refine same_nothing ?_ _ _
      exact hpoint.agree.congr rfl rfl hpoint.agree.visible

/-- A binding in scope reads as its storage. -/
theorem readBinding {b : BindingId} {x : VarId} (hscope : P.scope b)
    (hb : setting.program.symbols.Has b)
    (hx : ∀ leaf ∈ setting.program.symbols.leaves b, P.storage leaf = some x) (node node' : NodeId) :
    Agreeing setting setting' P ts .nothing
      (fun _ => (Run.read setting.program.symbols node (.binding b) : Run ω Value))
      fun _ => Run.read setting'.program.symbols node' (.var x) := by
  refine .of_ends ?_
  intro callers callers' K m m' hpoint
  obtain ⟨g, y, since, hK, hstands, hstores⟩ := hpoint.covers b hscope hb
  obtain ⟨leaf, hleaf⟩ := twin.sound.ordered.exists_leaf hb
  have hxy : x = y := by
    have hy := hstores leaf ((hstands.2 leaf).mp hleaf)
    rw [hx leaf hleaf] at hy
    exact Option.some.inj hy
  subst hxy
  obtain ⟨c, d, hc, hd, hval⟩ := hpoint.agree.read hK hstands
  simp only [Run.read, Environment.read?, hc, hd]
  refine ⟨.ok c.value, _, _, rfl, by rw [← hval]; rfl, ?_⟩
  refine same_nothing ?_ _ _
  exact hpoint.agree.congr rfl rfl hpoint.agree.visible

omit twin in
/-- A variable of the program is written the same. -/
theorem writeVar {v : VarId} (hv : v.index < setting.program.symbols.vars.size) (w : Value)
    (origin : Origin) :
    Agreeing setting setting' P ts .nothing (fun _ => (Run.write (.var v) w origin : Run ω Unit))
      fun _ => Run.write (.var v) w origin := by
  refine .of_ends ?_
  intro callers callers' K m m' hpoint
  exact ⟨.ok (), _, _, rfl, rfl,
    same_nothing (hpoint.agree.writeVar hpoint.ready.apart hv w origin origin) _ _⟩

omit twin in
/-- An assignment to a binding in scope is one to its storage. -/
theorem writeBinding {b : BindingId} {x : VarId} (hscope : P.scope b)
    (hb : setting.program.symbols.isLeaf b = true) (hx : P.storage b = some x) (w : Value)
    (origin origin' : Origin) :
    Agreeing setting setting' P ts .nothing (fun _ => (Run.write (.binding b) w origin : Run ω Unit))
      fun _ => Run.write (.var x) w origin' := by
  refine .of_ends ?_
  intro callers callers' K m m' hpoint
  obtain ⟨g, y, since, hK, hstands, hstores⟩ := hpoint.covers b hscope (.of_isLeaf hb)
  have hmem : b ∈ g := (hstands.2 b).mp (by simp [Symbols.leaves_of_isLeaf hb])
  have hxy : x = y := by
    have hy := hstores b hmem
    rw [hx] at hy
    exact Option.some.inj hy
  subst hxy
  exact ⟨.ok (), _, _, rfl, rfl,
    same_nothing (hpoint.agree.writeKnown hpoint.ready.apart hK hmem hb w origin origin') _ _⟩

/-- A variable of the program is declared the same. -/
theorem declare {v : VarId} (hv : v.index < setting.program.symbols.vars.size) (w : Value) :
    Agreeing setting setting' P ts .nothing
      (fun _ => (Run.declare setting.program.symbols v w : Run ω Unit))
      fun _ => Run.declare setting'.program.symbols v w := by
  unfold Run.declare
  rw [twin.var hv]
  cases setting.program.symbols.var? v with
  | none => exact .bind (.pure w) (fun w => .writeVar hv w _) (fun _ => id) fun _ => id
  | some sym => exact .bind (.ofExcept _) (fun w => .writeVar hv w _) (fun _ => id) fun _ => id

end Agreeing

end Lowering

end PatternIR
