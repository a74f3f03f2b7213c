/-
  PatternIR.Proofs.Eval.Answers
  ─────────────────────────────
  **WHAT A CALL ANSWERS does not depend on what came before it.**

  A call runs in an activation of its own.  Of the machine that it finds it
  uses the depth and the host alone; the clock only tells which of two cells is
  newer.  With the balance of calls this makes sessions safe: as long as no
  argument fails to convert, calls that end in errors do no harm.

    • `Mirrors` — two machines in the same call, begun in different machines;
    • `Run.congruence_mirrored` — they do the same from there;
    • `answers_iff` — the answer of a call, from the depth and the host;
    • `session_balanced` — calls one after the other.
-/
import Mathlib.Data.List.Forall2
import Mathlib.Logic.Function.Iterate
import PatternIR.Proofs.Eval.Balance
import PatternIR.Proofs.Eval.Simulation

namespace PatternIR

variable {ω α β : Type}

/-! ## §1. Cells and activations. -/

/-- The same cell, written as late after the clock `t'` as the other after `t`. -/
structure Cell.Mirrors (t t' : Nat) (c c' : Cell) : Prop where
  value : c'.value = c.value
  origin : c'.origin = c.origin
  stamp : c.stamp + t' = c'.stamp + t

/-- The same symbols, each with the same cell. -/
def Activation.Mirrors (t t' : Nat) : Activation → Activation → Prop :=
  List.Forall₂ fun entry entry' => entry'.1 = entry.1 ∧ entry.2.Mirrors t t' entry'.2

section

variable {t t' : Nat}

/-- Writing the same to both keeps two activations alike. -/
theorem Activation.Mirrors.set {a a' : Activation} (h : Activation.Mirrors t t' a a') (sym : Sym)
    {c c' : Cell} (hc : c.Mirrors t t' c') : Activation.Mirrors t t' (a.set sym c) (a'.set sym c') := by
  refine .cons ⟨rfl, hc⟩ (List.rel_filter ?_ h)
  rintro entry entry' ⟨hsym, -⟩
  simp [hsym]

/-- What two such activations hold of a symbol is alike, or neither holds anything. -/
theorem Activation.Mirrors.get? {a a' : Activation} (h : Activation.Mirrors t t' a a') (sym : Sym) :
    Option.Rel (Cell.Mirrors t t') (a.get? sym) (a'.get? sym) := by
  unfold Activation.get?
  induction h with
  | nil => exact .none
  | @cons entry entry' a a' hentry _ ih =>
      obtain ⟨x, c⟩ := entry
      obtain ⟨y, c'⟩ := entry'
      obtain ⟨rfl, hc⟩ := hentry
      cases hx : sym == y with
      | true => simpa only [List.lookup_cons, hx] using .some hc
      | false => simpa only [List.lookup_cons, hx] using ih

/-- The latest of cells that are alike are alike, since the stamps keep their order. -/
theorem Environment.latest_mirrors {cs cs' : List Cell} (h : List.Forall₂ (Cell.Mirrors t t') cs cs') :
    Option.Rel (Cell.Mirrors t t') (latest cs) (latest cs') := by
  induction h with
  | nil => exact .none
  | @cons c c' cs cs' hc _ ih =>
      unfold latest
      generalize latest cs = x at ih
      generalize latest cs' = x' at ih
      cases ih with
      | none => exact .some hc
      | @some d d' hd =>
          have hnewer : d.stamp < c.stamp ↔ d'.stamp < c'.stamp := by
            have hstamp := hc.stamp
            have hstamp' := hd.stamp
            omega
          simp only [hnewer]
          split
          · exact .some hc
          · exact .some hd

end

/-! ## §2. Machines. -/

/-- `m` and `m'` are as far in one call, which began with `base` and `base'`;
at least `n` calls inside of it are going on. -/
structure Mirrors (base base' : Machine ω) (n : Nat) (m m' : Machine ω) : Prop where
  depth : m'.depth = m.depth
  host : m'.host = m.host
  printed : ∃ text, m.output = base.output ++ text ∧ m'.output = base'.output ++ text
  clock : m.env.clock + base'.env.clock = m'.env.clock + base.env.clock
  current : m.env.current.Mirrors base.env.clock base'.env.clock m'.env.current
  callers : ∃ inner inner', m.env.callers = inner ++ base.env.callers
    ∧ m'.env.callers = inner' ++ base'.env.callers ∧ n ≤ inner.length
      ∧ List.Forall₂ (Activation.Mirrors base.env.clock base'.env.clock) inner inner'

namespace Mirrors

variable {base base' m m' : Machine ω} {n : Nat} (h : Mirrors base base' n m m')

include h

/-- A write to both machines, at the clock of each. -/
theorem written (sym : Sym) (v : Value) (origin : Origin) : Mirrors base base' n
    { m with env := m.env.set sym v origin, history := .wrote m.env.level sym origin :: m.history }
    { m' with env := m'.env.set sym v origin, history := .wrote m'.env.level sym origin :: m'.history } := by
  have hclock := h.clock
  have hcell : (Cell.mk v (m.env.clock + 1) origin).Mirrors base.env.clock base'.env.clock
      ⟨v, m'.env.clock + 1, origin⟩ := ⟨rfl, rfl, by simp only; omega⟩
  refine ⟨h.depth, h.host, h.printed, ?_, h.current.set sym hcell, h.callers⟩
  show m.env.clock + 1 + _ = m'.env.clock + 1 + _
  omega

/-- A variable or a binding reads alike in both machines. -/
theorem read? (s : Symbols) : ∀ sym, Option.Rel (Cell.Mirrors base.env.clock base'.env.clock)
    (m.env.read? s sym) (m'.env.read? s sym)
  | .var _ => h.current.get? _
  | .binding b => by
      show Option.Rel _ (m.env.getBinding? s b) (m'.env.getBinding? s b)
      unfold Environment.getBinding? Environment.get?
      have hleaves : List.Forall₂ (Cell.Mirrors base.env.clock base'.env.clock)
          ((s.leaves b).filterMap fun leaf => m.env.current.get? (.binding leaf))
          ((s.leaves b).filterMap fun leaf => m'.env.current.get? (.binding leaf)) := by
        refine List.rel_filterMap ?_ (List.forall₂_same.mpr fun x _ => rfl : List.Forall₂ Eq _ _)
        rintro x _ rfl
        exact h.current.get? _
      have hown := h.current.get? (.binding b)
      generalize m.env.current.get? (.binding b) = x at hown
      generalize m'.env.current.get? (.binding b) = x' at hown
      cases hown with
      | some hc => exact .some hc
      | none => exact Environment.latest_mirrors hleaves

/-- A call inside begins. -/
theorem entered : Mirrors base base' (n + 1) m.entered m'.entered := by
  obtain ⟨inner, inner', hm, hm', hn, hinner⟩ := h.callers
  refine ⟨?_, h.host, h.printed, h.clock, .nil, m.env.current :: inner, m'.env.current :: inner', ?_, ?_,
    Nat.succ_le_succ hn, .cons h.current hinner⟩
  · show m'.depth + 1 = m.depth + 1
    rw [h.depth]
  · show m.env.current :: m.env.callers = _
    rw [hm]
    rfl
  · show m'.env.current :: m'.env.callers = _
    rw [hm']
    rfl

omit h

/-- What holds for many more calls holds for fewer. -/
theorem mono {k : Nat} (h : Mirrors base base' n m m') (hk : k ≤ n) : Mirrors base base' k m m' := by
  obtain ⟨inner, inner', hm, hm', hn, hinner⟩ := h.callers
  exact { h with callers := ⟨inner, inner', hm, hm', Nat.le_trans hk hn, hinner⟩ }

/-- A call inside ends. -/
theorem leaveCall (h : Mirrors base base' (n + 1) m m') : Mirrors base base' n (leaveCall m) (leaveCall m') := by
  obtain ⟨inner, inner', hm, hm', hn, hinner⟩ := h.callers
  cases hinner with
  | nil => exact absurd hn (by simp)
  | @cons a a' inner inner' ha hinner =>
      have hleave : (PatternIR.leaveCall m).env = ⟨a, inner ++ base.env.callers, m.env.clock⟩ := by
        simp [PatternIR.leaveCall, Environment.leave, hm]
      have hleave' : (PatternIR.leaveCall m').env = ⟨a', inner' ++ base'.env.callers, m'.env.clock⟩ := by
        simp [PatternIR.leaveCall, Environment.leave, hm']
      refine ⟨?_, h.host, h.printed, by rw [hleave, hleave']; exact h.clock,
        by rw [hleave, hleave']; exact ha, inner, inner', by rw [hleave], by rw [hleave'], ?_, hinner⟩
      · show m'.depth - 1 = m.depth - 1
        rw [h.depth]
      · simpa using hn

end Mirrors

/-! ## §3. Computations. -/

/-- Two computations end in the same way, in machines that are so related. -/
inductive EndAlike (R : Machine ω → Machine ω → Prop) :
    EStateM.Result Stop (Machine ω) α → EStateM.Result Stop (Machine ω) α → Prop
  | ok (a : α) {m m' : Machine ω} (h : R m m') : EndAlike R (.ok a m) (.ok a m')
  | error (e : Stop) {m m' : Machine ω} (h : R m m') : EndAlike R (.error e m) (.error e m')

/-- Two computations that do the same in the same call. -/
structure Run.Mirrored (c c' : Run ω α) : Prop where
  ends : ∀ {base base' : Machine ω} {n : Nat} {m m' : Machine ω}, Mirrors base base' n m m' →
    EndAlike (Mirrors base base' n) (c m) (c' m')

namespace Run.Mirrored

variable {c c' : Run ω α}

/-- A result without an effect is the same in both machines. -/
theorem pure (a : α) : Mirrored (Pure.pure a : Run ω α) (Pure.pure a) := ⟨fun h => .ok a h⟩

/-- So is a stop. -/
theorem stop (e : Stop) : Mirrored (throw e : Run ω α) (throw e) := ⟨fun h => .error e h⟩

theorem bind {f f' : α → Run ω β} (hc : Mirrored c c') (hf : ∀ a, Mirrored (f a) (f' a)) :
    Mirrored (c >>= f) (c' >>= f') := by
  refine ⟨fun {base base' n m m'} h => ?_⟩
  have hends := hc.ends h
  rw [bind_apply, bind_apply]
  generalize c m = r at hends
  generalize c' m' = r' at hends
  cases hends with
  | ok a h₁ => exact (hf a).ends h₁
  | error e h₁ => exact .error e h₁

/-- What becomes of an ending is decided the same way in both machines. -/
theorem settle (how : Except Stop α → Except Stop β) (hc : Mirrored c c') :
    Mirrored (settle how c) (PatternIR.settle how c') := by
  refine ⟨fun {base base' n m m'} h => ?_⟩
  have hends := hc.ends h
  unfold PatternIR.settle
  generalize c m = r at hends
  generalize c' m' = r' at hends
  cases hends with
  | ok a h₁ =>
      simp only
      cases how (.ok a) with
      | ok b => exact .ok b h₁
      | error e => exact .error e h₁
  | error e h₁ =>
      simp only
      cases how (.error e) with
      | ok b => exact .ok b h₁
      | error e' => exact .error e' h₁

/-- A write is stamped by the clock of its own machine. -/
theorem write (sym : Sym) (v : Value) (origin : Origin) :
    Mirrored (Run.write sym v origin : Run ω Unit) (Run.write sym v origin) :=
  ⟨fun h => .ok () (h.written sym v origin)⟩

/-- What is read comes from cells that are alike. -/
theorem read (s : Symbols) (node : NodeId) (sym : Sym) :
    Mirrored (Run.read s node sym : Run ω Value) (Run.read s node sym) := by
  refine ⟨fun {base base' n m m'} h => ?_⟩
  have hcell := h.read? s sym
  unfold Run.read
  generalize m.env.read? s sym = x at hcell
  generalize m'.env.read? s sym = x' at hcell
  cases hcell with
  | none => exact .error _ h
  | @some c c' hc =>
      simp only
      rw [hc.value, hc.origin]
      exact .ok _ ⟨h.depth, h.host, h.printed, h.clock, h.current, h.callers⟩

/-- Both machines print the same. -/
theorem print (text : String) : Mirrored (Run.print text : Run ω Unit) (Run.print text) := by
  refine ⟨fun {base base' n m m'} h => ?_⟩
  obtain ⟨before, hm, hm'⟩ := h.printed
  refine .ok () ⟨h.depth, h.host, ⟨before ++ text, ?_, ?_⟩, h.clock, h.current, h.callers⟩
  · show m.output ++ text = _
    rw [hm, String.append_assoc]
  · show m'.output ++ text = _
    rw [hm', String.append_assoc]

/-- A native method sees the host, which is the same in both. -/
theorem callNative (f : Native ω) (args : List Value) : Mirrored (callNative f args) (callNative f args) := by
  refine ⟨fun {base base' n m m'} h => ?_⟩
  unfold PatternIR.callNative
  rw [h.host]
  split
  · exact .ok _ ⟨h.depth, rfl, h.printed, h.clock, h.current, h.callers⟩
  · exact .error _ ⟨h.depth, rfl, h.printed, h.clock, h.current, h.callers⟩

/-- A declaration converts its value before it writes. -/
theorem declare (s : Symbols) (var : VarId) (v : Value) :
    Mirrored (Run.declare s var v : Run ω Unit) (Run.declare s var v) := by
  unfold Run.declare
  split
  next symbol _ =>
    refine bind ?_ fun v => write _ v _
    cases coerce symbol.ty v with
    | ok w => exact pure w
    | error f => exact stop _
  next => exact bind (pure _) fun v => write _ v _

theorem bindParams (s : Symbols) : ∀ (params : List VarId) (args : List Value),
    Mirrored (PatternIR.bindParams s params args : Run ω Unit) (PatternIR.bindParams s params args)
  | [], _ => pure _
  | _ :: _, [] => pure _
  | param :: params, arg :: args => bind (declare s param arg) fun _ => bindParams s params args

/-- Around a body, one more call counts in both machines. -/
theorem bracketCall {c c' : Run ω Unit} (hc : Mirrored c c') (method : String)
    {base base' m m' : Machine ω} {n : Nat} (h : Mirrors base base' (n + 1) m m') :
    EndAlike (Mirrors base base' n) (bracketCall method c m) (PatternIR.bracketCall method c' m') := by
  have hends := (hc.settle (callResult method)).ends h
  unfold PatternIR.bracketCall
  generalize PatternIR.settle (callResult method) c m = r at hends
  generalize PatternIR.settle (callResult method) c' m' = r' at hends
  cases hends with
  | ok v h₁ => exact .ok v h₁.leaveCall
  | error e h₁ => exact .error e h₁.leaveCall

/-- A call is as alike as its body. -/
theorem callBy (s : Symbols) (f : Method) (args : List Value) {exec exec' : Stmt → Run ω Unit}
    (hexec : ∀ body, Mirrored (exec body) (exec' body)) :
    Mirrored (callBy s f args exec) (PatternIR.callBy s f args exec') := by
  refine ⟨fun {base base' n m m'} h => ?_⟩
  cases hadmitted : admission m.depth f args with
  | error e =>
      rw [callBy_error hadmitted, callBy_error (h.depth ▸ hadmitted)]
      exact .error _ h
  | ok body =>
      rw [callBy_ok hadmitted, callBy_ok (h.depth ▸ hadmitted), bind_apply, bind_apply]
      have hbound := (bindParams s f.params args).ends h.entered
      generalize (PatternIR.bindParams s f.params args : Run ω Unit) m.entered = r at hbound
      generalize (PatternIR.bindParams s f.params args : Run ω Unit) m'.entered = r' at hbound
      cases hbound with
      | ok _ h₁ => exact (hexec body).bracketCall f.name h₁
      | error e h₁ => exact .error e (h₁.mono (Nat.le_succ n))

end Run.Mirrored

/-- Doing the same passes through every construct. -/
theorem Run.congruence_mirrored (setting : Setting ω) : Congruence setting Mirrored where
  pure := .pure
  interrupt _ := .stop _
  write := .write
  read := .read _
  print := .print
  native _ := .callNative _
  bind := .bind
  settle _ _ _ := .settle _
  call _ args _ _ hexec := .callBy _ _ args hexec

/-! ## §4. Answers. -/

/-- What a call made in `m` answers: the way it ends, the text it prints, and
the state it leaves the host in. -/
def Setting.Answers (setting : Setting ω) (m : Machine ω) (name : String) (args : List Value)
    (r : Except Interrupt Value) (text : String) (host : ω) : Prop :=
  ∃ n m', callNamed setting n name args m = Run.ended r m' ∧ m'.output = m.output ++ text ∧ m'.host = host

/-- From `m` and from `m'` on the same has been printed, and has become of the host. -/
structure Tells (m m' m₁ m₁' : Machine ω) : Prop where
  host : m₁'.host = m₁.host
  printed : ∃ text, m₁.output = m.output ++ text ∧ m₁'.output = m'.output ++ text

section

variable {m m' : Machine ω}

/-- Two machines at the end of such runs tell the same. -/
theorem Mirrors.tells {n : Nat} {m₁ m₁' : Machine ω} (h : Mirrors m.entered m'.entered n m₁ m₁') :
    Tells m m' m₁ m₁' := ⟨h.host, h.printed⟩

variable (hdepth : m'.depth = m.depth) (hhost : m'.host = m.host)

include hdepth hhost

/-- The runs begin alike, with no call open. -/
theorem Mirrors.begun : Mirrors m.entered m'.entered 0 m.entered m'.entered := by
  refine ⟨?_, hhost, ⟨"", by simp, by simp⟩, Nat.add_comm _ _, .nil, [], [], rfl, rfl, Nat.le_refl _, .nil⟩
  show m'.depth + 1 = m.depth + 1
  rw [hdepth]

/-- One call. -/
theorem callBy_alike (s : Symbols) (f : Method) (args : List Value) {exec : Stmt → Run ω Unit}
    (hexec : ∀ body, Run.Mirrored (exec body) (exec body)) :
    EndAlike (Tells m m') (callBy s f args exec m) (callBy s f args exec m') := by
  cases hadmitted : admission m.depth f args with
  | error e =>
      rw [callBy_error hadmitted, callBy_error (hdepth ▸ hadmitted)]
      exact .error _ ⟨hhost, "", by simp, by simp⟩
  | ok body =>
      rw [callBy_ok hadmitted, callBy_ok (hdepth ▸ hadmitted), bind_apply, bind_apply]
      have hbound := (Run.Mirrored.bindParams s f.params args).ends (Mirrors.begun hdepth hhost)
      generalize (bindParams s f.params args : Run ω Unit) m.entered = r at hbound
      generalize (bindParams s f.params args : Run ω Unit) m'.entered = r' at hbound
      cases hbound with
      | error e h₁ => exact .error e h₁.tells
      | @ok _ m₁ m₁' h₁ =>
          have hbody := ((hexec body).settle (callResult f.name)).ends h₁
          simp only [bracketCall]
          generalize settle (callResult f.name) (exec body) m₁ = r at hbody
          generalize settle (callResult f.name) (exec body) m₁' = r' at hbody
          cases hbody with
          | ok v h₂ => exact .ok v ⟨h₂.host, h₂.printed⟩
          | error e h₂ => exact .error e ⟨h₂.host, h₂.printed⟩

/-- A call ends alike in two machines with the same host and the same depth. -/
theorem callNamed_alike (setting : Setting ω) (n : Nat) (name : String) (args : List Value) :
    EndAlike (Tells m m') (callNamed setting n name args m) (callNamed setting n name args m') := by
  have hunchanged : ∀ e : Stop,
      EndAlike (Tells m m') ((throw e : Run ω Value) m) ((throw e : Run ω Value) m') :=
    fun e => .error e ⟨hhost, "", by simp, by simp⟩
  unfold callNamed
  cases setting.program.method? name with
  | none => exact hunchanged _
  | some f =>
      cases n with
      | zero => exact hunchanged _
      | succ n =>
          have hbody := (Run.congruence_mirrored setting).evaluation 0 (fun c h => h rfl ▸ .stop _) n
          exact callBy_alike hdepth hhost _ f args hbody.stmt

/-- So an answer of the one is an answer of the other. -/
theorem Setting.Answers.transfer {setting : Setting ω} {name : String} {args : List Value}
    {r : Except Interrupt Value} {text : String} {host : ω} (h : setting.Answers m name args r text host) :
    setting.Answers m' name args r text host := by
  obtain ⟨n, m₁, hcall, hprinted, rfl⟩ := h
  have halike := callNamed_alike hdepth hhost setting n name args
  rw [hcall] at halike
  have htold : ∀ {m₁' : Machine ω}, Tells m m' m₁ m₁' → m₁'.output = m'.output ++ text := by
    rintro m₁' ⟨-, text', h₁, h₁'⟩
    rw [hprinted] at h₁
    rw [h₁', String.append_right_inj (m.output) |>.mp h₁]
  generalize hcall' : callNamed setting n name args m' = r' at halike
  cases r with
  | ok v =>
      cases halike with
      | ok _ h₁ => exact ⟨n, _, hcall', htold h₁, h₁.host⟩
  | error i =>
      cases halike with
      | error _ h₁ => exact ⟨n, _, hcall', htold h₁, h₁.host⟩

end

/-- **What a call answers** is the same in all machines of one depth with one
host state. -/
theorem answers_iff {setting : Setting ω} {m m' : Machine ω} (hdepth : m'.depth = m.depth)
    (hhost : m'.host = m.host) {name : String} {args : List Value} {r : Except Interrupt Value}
    {text : String} {host : ω} :
    setting.Answers m' name args r text host ↔ setting.Answers m name args r text host :=
  ⟨Setting.Answers.transfer hdepth.symm hhost.symm, Setting.Answers.transfer hdepth hhost⟩

/-! ## §5. Sessions. -/

/-- Calls one after the other, each of which ends, and none on an argument that
does not convert. -/
inductive Session (setting : Setting ω) (m : Machine ω) : Machine ω → Prop
  | start : Session setting m m
  | call {m₁ m₂ : Machine ω} {n : Nat} {name : String} {args : List Value} {r : Except Interrupt Value}
      (h : Session setting m m₁) (ended : callNamed setting n name args m₁ = Run.ended r m₂)
      (converts : ∀ f, r = .error (.fault f) → ¬setting.program.ArgumentFault f) : Session setting m m₂

/-- **Calls leave the interpreter balanced.**  After any number of calls that
end in values or errors, not on an argument that does not convert, the depth
and all activations are as before; and as long as the host is, so is what
every later call answers. -/
theorem session_balanced {setting : Setting ω} {m m' : Machine ω} (h : Session setting m m') :
    m.Balanced m' ∧ (m'.host = m.host → ∀ name args r text host,
      setting.Answers m' name args r text host ↔ setting.Answers m name args r text host) := by
  have hbalanced : m.Balanced m' := by
    induction h with
    | start => exact .refl m
    | @call m₁ m₂ n name args r _ ended converts ih =>
        refine ih.trans ?_
        have hcall := callNamed_balances setting n name args
        cases r with
        | ok v => exact hcall.ok ended
        | error i =>
            rcases hcall.error ended with hbalanced | ⟨⟨f, hf, hfault⟩, -⟩
            · exact hbalanced
            · injection hf with hf
              exact absurd hfault (converts f (by rw [hf]))
  exact ⟨hbalanced, fun hhost _ _ _ _ _ => answers_iff hbalanced.depth hhost⟩

/-- Only a cast that fails is such a fault. -/
theorem Program.ArgumentFault.classCast {p : Program} {f : Fault} (h : p.ArgumentFault f) :
    ∃ source target, f = .classCast source target := by
  obtain ⟨_, -, _, -, symbol, v, -, hv⟩ := h
  unfold coerce at hv
  split at hv
  · split at hv
    · injection hv
    · split at hv
      · injection hv
      · injection hv with hv
        exact ⟨_, _, hv.symm⟩
  · injection hv

/-! ## §6. Calls that are left begun. -/

/-- The machine after a call, however the call ends. -/
def Machine.after (setting : Setting ω) (n : Nat) (name : String) (args : List Value) (m : Machine ω) :
    Machine ω :=
  match callNamed setting n name args m with
  | .ok _ m' => m'
  | .error _ m' => m'

section

variable {setting : Setting ω} {name : String} {f : Method} {args : List Value} {body : Stmt}
  (hf : setting.program.method? name = some f) (harity : args.length = f.params.length)

include hf harity

/-- At the greatest depth every call is refused. -/
theorem answers_stackOverflow {m : Machine ω} (hdepth : maxDepth ≤ m.depth) :
    setting.Answers m name args (.error (.fault (.stackOverflow f.name))) "" m.host := by
  refine ⟨1, m, ?_, by simp, rfl⟩
  have hrefused : admission m.depth f args = .error (.stackOverflow f.name) := by
    simp [admission, harity, hdepth]
  unfold callNamed
  rw [hf]
  exact callBy_error hrefused

/-- A call on arguments that do not convert is left begun. -/
theorem Machine.unended_after (hbody : f.body = some body) (hargs : ∀ m : Machine ω, ∃ e m',
    bindParams setting.program.symbols f.params args m = .error e m') {m : Machine ω}
    (hdepth : m.depth < maxDepth) (n : Nat) : m.Unended (m.after setting (n + 1) name args) := by
  have hadmitted : admission m.depth f args = .ok body := by
    simp [admission, harity, Nat.not_le.mpr hdepth, hbody]
  obtain ⟨e, m', hbound⟩ := hargs m.entered
  have hcall : callNamed setting (n + 1) name args m = .error e m' := by
    unfold callNamed
    rw [hf]
    refine (callBy_ok hadmitted).trans ?_
    rw [bind_apply, hbound]
  have hlevel : m.entered.Level m' :=
    ((Run.Tidy.bindParams (fun _ => False) _ _ _).error hbound).resolve_right fun h => h.1.elim fun _ h => h.2
  unfold Machine.after
  rw [hcall]
  exact ⟨hlevel.depth, hlevel.callers⟩

/-- **Arguments that do not convert use up the stack**: after so many such
calls as there are levels left, no method can be called any more. -/
theorem unconverted_calls_overflow (hbody : f.body = some body) (hargs : ∀ m : Machine ω, ∃ e m',
    bindParams setting.program.symbols f.params args m = .error e m') (n : Nat) {m m' : Machine ω}
    (hm' : m' = (Machine.after setting (n + 1) name args)^[maxDepth - m.depth] m)
    {other : String} {g : Method} (hg : setting.program.method? other = some g) {args' : List Value}
    (harity' : args'.length = g.params.length) :
    setting.Answers m' other args' (.error (.fault (.stackOverflow g.name))) "" m'.host := by
  have hdepth : ∀ k, m.depth + k ≤ maxDepth →
      ((Machine.after setting (n + 1) name args)^[k] m).depth = m.depth + k := by
    intro k
    induction k with
    | zero => exact fun _ => rfl
    | succ k ih =>
        intro hk
        have hbefore := ih (by omega)
        rw [Function.iterate_succ_apply',
          (Machine.unended_after hf harity hbody hargs (by rw [hbefore]; omega) n).depth, hbefore]
        omega
  refine answers_stackOverflow hg harity' ?_
  rw [hm']
  rcases Nat.le_total m.depth maxDepth with h | h
  · rw [hdepth _ (by omega)]
    omega
  · rw [Nat.sub_eq_zero_of_le h]
    exact h

end

namespace Echo

/-- `return x;` -/
def body : Stmt := .ret ⟨0, .nowhere⟩ (some (.ident ⟨0, .int, .nowhere⟩ (.var ⟨0⟩)))

/-- `int m(int x) { return x; }` -/
def method : Method := ⟨0, "m", [⟨0⟩], .int, some body, .nowhere⟩

/-- The method alone, with its parameter in the table. -/
def program : Program :=
  ⟨[⟨0, "C", none, [], [method], .nowhere⟩], ⟨#[⟨⟨0⟩, "x", .int, none, false⟩], #[]⟩⟩

/-- The program with no native methods. -/
def setting : Setting Unit := program.setting fun _ => none

end Echo

/-- A call without its argument does not count. -/
theorem session_balanced_arity : ∃ m', Session Echo.setting (.start ()) m'
    ∧ (Machine.start ()).Balanced m' ∧ Echo.setting.Answers m' "m" [.int 1] (.ok (.int 1)) "" () := by
  have hsession : Session Echo.setting (.start ()) (.start ()) := by
    have hended : callNamed Echo.setting 1 "m" [] (.start ())
        = Run.ended (.error (.fault (.arityMismatch 1 0))) (.start ()) := rfl
    refine .call .start hended ?_
    rintro f hf hfault
    obtain ⟨_, _, rfl⟩ := hfault.classCast
    simp at hf
  have h := session_balanced hsession
  exact ⟨_, hsession, h.1, (h.2 rfl "m" [.int 1] _ "" ()).mpr ⟨5, _, rfl, rfl, rfl⟩⟩

/-- **Calls with an argument that does not convert are never ended**: after one
the machine is not balanced, and after 512 of them a call that has an answer before
does not get it any more. -/
theorem unconverted_calls_not_balanced :
    ¬ (Machine.start ()).Balanced ((Machine.start ()).after Echo.setting 5 "m" [.str "a"])
      ∧ Echo.setting.Answers (.start ()) "m" [.int 1] (.ok (.int 1)) "" ()
      ∧ Echo.setting.Answers ((Machine.after Echo.setting 5 "m" [.str "a"])^[maxDepth] (.start ())) "m" [.int 1]
          (.error (.fault (.stackOverflow "m"))) "" () := by
  refine ⟨?_, ⟨5, _, rfl, rfl, rfl⟩, ?_⟩
  · intro h
    exact absurd h.depth (by decide)
  · have hmethod : Echo.setting.program.method? "m" = some Echo.method := rfl
    have hargs : ∀ m : Machine Unit, ∃ e m',
        bindParams Echo.program.symbols Echo.method.params [.str "a"] m = .error e m' :=
      fun m => ⟨_, _, rfl⟩
    have hbody : Echo.method.body = some Echo.body := rfl
    have harity : [Value.int 1].length = Echo.method.params.length := rfl
    have h := unconverted_calls_overflow hmethod rfl hbody hargs 4 (m := .start ()) rfl hmethod harity
    rwa [Subsingleton.elim (Machine.host _) ()] at h

end PatternIR
