/-
  PatternIR.Proofs.Flow.Stability
  ───────────────────────────────
  **ASKED AGAIN, THE ORACLE ANSWERS THE SAME.**

  The oracle unifies bindings while it answers, so a question changes the table
  that the next one is asked on.  Once a question has been asked, the table has
  what its answer unifies, and every later table has it too:

      matchBindings e o t = (bs, t')  →  t' grows to u  →  matchBindings e o u = (bs, u)

  A type test may have a binding that the table lacks.  It is paired with no
  other then, and it is not either later, unless the later table has it.

    • `mem_matchBindings` — where the bindings of an answer come from;
    • `matchBindings_stable` — the answer on a later table.
-/
import PatternIR.Proofs.Flow.Groups

namespace PatternIR

namespace Flow

open Symbols (Grows)

variable {t u : Symbols}

/-! ## §1. Where the bindings of an answer come from. -/

/-- The oracle keeps a table in order. -/
theorem matchBindings_ordered (e : Expr) (o : Bool) (ht : t.Ordered) : (matchBindings e o t).2.Ordered :=
  matchBindings_keeps (fun h hm => h.merge hm) e o ht

/-- What is merged is in the table it leads to. -/
theorem both_has (right : List BindingId) : ∀ (left : List BindingId) {t : Symbols}, t.Ordered →
    ∀ m ∈ (both t right left).1, (both t right left).2.Has m
  | [], _, _, _, hm => absurd hm List.not_mem_nil
  | a :: left, t, ht, m, hm => by
      unfold both at hm ⊢
      split at hm
      · exact both_has right left ht m hm
      next merged t' h =>
        obtain ⟨b, -, hmerge⟩ := Option.bind_eq_some_iff.mp h
        rcases List.mem_cons.mp hm with rfl | hm
        · exact (both_grows right left t').has (ht.has_merge hmerge)
        · exact both_has right left (ht.merge hmerge) m hm

/-- A binding of an answer is that of a type test, or the table has it. -/
theorem mem_matchBindings : ∀ (e : Expr) (o : Bool) {t : Symbols}, t.Ordered →
    ∀ b ∈ (matchBindings e o t).1, b ∈ e.tests ∨ (matchBindings e o t).2.Has b
  | .typeTest _ _ pattern, o, t, _, b, hb => by
      cases o with
      | false => exact absurd hb List.not_mem_nil
      | true =>
          rw [List.mem_singleton.mp hb]
          exact .inl (by simp)
  | .unary _ op e, o, t, ht, b, hb => by
      cases op with
      | neg => exact absurd hb List.not_mem_nil
      | not =>
          exact (mem_matchBindings e (!o) ht b hb).imp_left fun hmem => by
            simpa using hmem
  | .binary i op l r, o, t, ht, b, hb => by
      have htl := matchBindings_ordered l o ht
      have htests : ∀ {x}, x ∈ l.tests ∨ x ∈ r.tests → x ∈ (Expr.binary i op l r).tests := fun hx => by
        simpa using hx
      have heither : b ∈ either (matchBindings r o (matchBindings l o t).2).2 (matchBindings l o t).1
            (matchBindings r o (matchBindings l o t).2).1 →
          b ∈ (Expr.binary i op l r).tests ∨ (matchBindings r o (matchBindings l o t).2).2.Has b := by
        intro hb
        rcases mem_either hb with hb | hb
        · exact (mem_matchBindings l o ht b hb).imp (fun h => htests (.inl h)) (matchBindings_grows r o _).has
        · exact (mem_matchBindings r o htl b hb).imp_left fun h => htests (.inr h)
      -- what is joined has been unified over the right operand, and is in the table by then
      have hboth := both_has (matchBindings r o (matchBindings l o t).2).1 (matchBindings l o t).1
        (matchBindings_ordered r o htl) b
      cases op with
      | and =>
          cases o with
          | true => exact heither hb
          | false => exact .inr (hboth hb)
      | or =>
          cases o with
          | true => exact .inr (hboth hb)
          | false => exact heither hb
      | _ => exact absurd hb List.not_mem_nil
  | .literal _ _, _, _, _, _, hb | .ident _ _, _, _, _, _, hb | .conditional _ _ _ _, _, _, _, _, hb
  | .assign _ _ _, _, _, _, _, hb | .cast _ _ _, _, _, _, _, hb | .instanceOf _ _ _, _, _, _, _, hb
  | .call _ _ _, _, _, _, _, hb | .methodCall _ _ _ _, _, _, _, _, hb | .letIn _ _ _, _, _, _, _, hb =>
      absurd hb List.not_mem_nil

/-- Where the table has the patterns of a condition, it has the bindings of the answer. -/
theorem matchBindings_has {e : Expr} {o : Bool} (ht : t.Ordered) (htests : ∀ b ∈ e.tests, t.Has b) :
    ∀ b ∈ (matchBindings e o t).1, (matchBindings e o t).2.Has b := by
  intro b hb
  rcases mem_matchBindings e o ht b hb with hmem | hhas
  · exact (matchBindings_grows e o t).has (htests b hmem)
  · exact hhas

/-! ## §2. The same answer later. -/

/-- Growth does not change which old bindings share a leaf. -/
theorem isAliasFor_grows (hgrows : t.Grows u) (ht : t.Ordered) {a b : BindingId} (ha : u.Has a → t.Has a)
    (hb : u.Has b → t.Has b) :
    u.isAliasFor a b = t.isAliasFor a b := by
  unfold Symbols.isAliasFor
  rw [hgrows.leaves_of_old ht.closed ha, hgrows.leaves_of_old ht.closed hb]

/-- Nor what two lists match in either way. -/
theorem either_grows (hgrows : t.Grows u) (ht : t.Ordered) : ∀ {right left : List BindingId},
    (∀ b ∈ left, u.Has b → t.Has b) → (∀ b ∈ right, u.Has b → t.Has b) →
      either u left right = either t left right
  | [], _, _, _ => rfl
  | b :: right, left, hleft, hright => by
      have hb : u.Has b → t.Has b := hright b List.mem_cons_self
      have hany : (left.any fun a => u.isAliasFor a b) = left.any fun a => t.isAliasFor a b := by
        refine Bool.eq_iff_iff.mpr ?_
        rw [List.any_eq_true, List.any_eq_true]
        refine exists_congr fun a => and_congr_right fun ha => ?_
        rw [isAliasFor_grows hgrows ht (hleft a ha) hb]
      have hright' : ∀ b ∈ right, u.Has b → t.Has b := fun b hb => hright b (List.mem_cons_of_mem _ hb)
      unfold either
      rw [List.foldl_cons, List.foldl_cons, hany]
      split
      · exact either_grows hgrows ht hleft hright'
      · refine either_grows hgrows ht ?_ hright'
        intro a ha
        rcases List.mem_append.mp ha with ha | ha
        · exact hleft a ha
        · rw [List.mem_singleton.mp ha]
          exact hb

/-- **Merged once more, two lists give the same bindings and add none.** -/
theorem both_stable (hu : u.Ordered) {right : List BindingId} : ∀ {left : List BindingId}
    {t : Symbols}, t.Ordered → (∀ b ∈ left, u.Has b → t.Has b) → (∀ b ∈ right, u.Has b → t.Has b) →
      (both t right left).2.Grows u → both u right left = ((both t right left).1, u)
  | [], _, _, _, _, _ => rfl
  | a :: left, t, ht, hleft, hright, hgrows => by
      have hleft' : ∀ b ∈ left, u.Has b → t.Has b := fun b hb => hleft b (List.mem_cons_of_mem _ hb)
      have hmono := both_grows right (a :: left) t
      have hfind : right.find? (sameVariable u a) = right.find? (sameVariable t a) := by
        refine List.find?_congr ?_
        intro b hb
        exact sameVariable_grows (hmono.trans hgrows) (hleft a List.mem_cons_self) (hright b hb)
      cases hb : right.find? (sameVariable t a) with
      | none =>
          have hbind : (right.find? (sameVariable t a)).bind (t.merge? a) = none := by rw [hb]; rfl
          have hbind' : (right.find? (sameVariable u a)).bind (u.merge? a) = none := by
            rw [hfind, hb]
            rfl
          simp only [both, hbind, hbind'] at hgrows ⊢
          exact both_stable hu ht hleft' hright hgrows
      | some b =>
          obtain ⟨n, ha', hb'⟩ := sameVariable_iff.mp (List.find?_some hb)
          obtain ⟨m, t', hm⟩ := Symbols.merge?_isSome (Symbols.has_of_named? ha') (Symbols.has_of_named? hb')
          have hbind : (right.find? (sameVariable t a)).bind (t.merge? a) = some (m, t') := by
            rw [hb]
            exact hm
          have htt' := Symbols.merge?_grows hm
          simp only [both, hbind] at hgrows ⊢
          have htu : t'.Grows u := (both_grows right left t').trans hgrows
          -- the later table has the binding of this pair, and answers with it
          have hbind' : (right.find? (sameVariable u a)).bind (u.merge? a) = some (m, u) := by
            rw [hfind, hb]
            exact Symbols.merge?_stable ht hm htu hu
          have hrest := both_stable hu (ht.merge hm) (fun b hb h => htt'.has (hleft' b hb h))
            (fun b hb h => htt'.has (hright b hb h)) hgrows
          simp only [hbind', hrest]

/-- **The oracle asked again**, on a table that has grown since, answers the
same and adds nothing.  Of the patterns of the condition, the later table has
those only that were in the table when it was asked first. -/
theorem matchBindings_stable (hu : u.Ordered) : ∀ (e : Expr) (o : Bool) {t : Symbols}, t.Ordered →
    (∀ b ∈ e.tests, u.Has b → t.Has b) → (matchBindings e o t).2.Grows u →
      matchBindings e o u = ((matchBindings e o t).1, u)
  | .typeTest _ _ _, _, _, _, _, _ => rfl
  | .unary _ op e, o, t, ht, hold, hgrows => by
      cases op with
      | neg => rfl
      | not =>
          exact matchBindings_stable hu e (!o) ht (fun b hb => hold b (by
            simpa using hb)) hgrows
  | .binary _ op l r, o, t, ht, hold, hgrows => by
      have hmem : ∀ b, b ∈ l.tests ∨ b ∈ r.tests → u.Has b → t.Has b := fun b hb => hold b (by
        simpa using hb)
      have hgl := matchBindings_grows l o t
      have hgr := matchBindings_grows r o (matchBindings l o t).2
      have htl := matchBindings_ordered l o ht
      have htr := matchBindings_ordered r o htl
      -- what is listed for the operands is not new in the later table
      have hls : ∀ b ∈ (matchBindings l o t).1, u.Has b → (matchBindings r o (matchBindings l o t).2).2.Has b := by
        intro b hb hub
        rcases mem_matchBindings l o ht b hb with htest | hhas
        · exact hgr.has (hgl.has (hmem b (.inl htest) hub))
        · exact hgr.has hhas
      have hrs : ∀ b ∈ (matchBindings r o (matchBindings l o t).2).1, u.Has b →
          (matchBindings r o (matchBindings l o t).2).2.Has b := by
        intro b hb hub
        rcases mem_matchBindings r o htl b hb with htest | hhas
        · exact hgr.has (hgl.has (hmem b (.inr htest) hub))
        · exact hhas
      -- both operands are answered as before; then so is what is made of the answers
      have hsides : (matchBindings r o (matchBindings l o t).2).2.Grows u →
          matchBindings l o u = ((matchBindings l o t).1, u)
            ∧ matchBindings r o u = ((matchBindings r o (matchBindings l o t).2).1, u) := fun h =>
        ⟨matchBindings_stable hu l o ht (fun b hb => hmem b (.inl hb)) (hgr.trans h),
          matchBindings_stable hu r o htl (fun b hb hub => hgl.has (hmem b (.inr hb) hub)) h⟩
      have heither : (matchBindings r o (matchBindings l o t).2).2.Grows u →
          (either (matchBindings r o (matchBindings l o u).2).2 (matchBindings l o u).1
              (matchBindings r o (matchBindings l o u).2).1,
            (matchBindings r o (matchBindings l o u).2).2)
          = (either (matchBindings r o (matchBindings l o t).2).2 (matchBindings l o t).1
              (matchBindings r o (matchBindings l o t).2).1, u) := by
        intro h
        obtain ⟨hl, hr⟩ := hsides h
        rw [hl]
        simp only
        rw [hr]
        simp only
        rw [either_grows h htr hls hrs]
      have hboth : (both (matchBindings r o (matchBindings l o t).2).2
            (matchBindings r o (matchBindings l o t).2).1 (matchBindings l o t).1).2.Grows u →
          both (matchBindings r o (matchBindings l o u).2).2
              (matchBindings r o (matchBindings l o u).2).1 (matchBindings l o u).1
          = ((both (matchBindings r o (matchBindings l o t).2).2
              (matchBindings r o (matchBindings l o t).2).1 (matchBindings l o t).1).1, u) := by
        intro h
        obtain ⟨hl, hr⟩ := hsides ((both_grows _ _ _).trans h)
        rw [hl]
        simp only
        rw [hr]
        exact both_stable hu htr hls hrs h
      cases op with
      | and =>
          cases o with
          | true => exact heither hgrows
          | false => exact hboth hgrows
      | or =>
          cases o with
          | true => exact hboth hgrows
          | false => exact heither hgrows
      | _ => rfl
  | .literal _ _, _, _, _, _, _ | .ident _ _, _, _, _, _, _ | .conditional _ _ _ _, _, _, _, _, _
  | .assign _ _ _, _, _, _, _, _ | .cast _ _ _, _, _, _, _, _ | .instanceOf _ _ _, _, _, _, _, _
  | .call _ _ _, _, _, _, _, _ | .methodCall _ _ _ _, _, _, _, _, _ | .letIn _ _ _, _, _, _, _, _ => rfl

end Flow

end PatternIR
