/-
  PatternIR.Proofs.Printer.Quoted
  ───────────────────────────────
  **QUOTED TEXTS ARE READ IN ONE WAY.**

  Between the quotes of a string constant a character takes one, two or six:

      newline, tab, return, backslash, quotes    a backslash and one more
      other control characters                   `\u` and four digits
      all others                                 themselves

  What stands behind a backslash says how far its escape goes, so the first
  character can be told from any text, and with it all of them.  A quote only
  stands in an escape of its own: in front of its backslash there are whole
  escapes, so the backslashes right there come in pairs.

    • `Printer.Escaped` — the ways to write a character;
    • `Printer.unescape` — the first character of an escaped text;
    • `Printer.QuotesEscaped` — no quote in a text ends it;
    • `Printer.literal_string_unique` — string constants with the same text are
      equal, and what is between the quotes does not end before the last one.
-/
import PatternIR.Printer
import PatternIR.Proofs.Json.Drafts

namespace PatternIR

namespace Printer

/-! ## §1. The ways to write a character. -/

/-- The character that a letter behind a backslash stands for. -/
def letter? (l : Char) : Option Char :=
  match l with
  | 'n' => some '\n'
  | 't' => some '\t'
  | 'r' => some '\r'
  | '\\' => some '\\'
  | '\'' => some '\''
  | '\"' => some '\"'
  | _ => none

/-- The ways to write a character between quotes. -/
inductive Escaped (c : Char) : List Char → Prop where
  | letter {l : Char} (h : letter? l = some c) : Escaped c ['\\', l]
  | code (h : isControl c = true) : Escaped c ('\\' :: 'u' :: Text.hex 4 c.toNat)
  | plain (hcontrol : isControl c = false) (hslash : c ≠ '\\') (hquote : c ≠ '\"') : Escaped c [c]

/-- Every character is written in one of these ways. -/
theorem escaped (c : Char) : Escaped c (escape c) := by
  unfold escape
  -- the six characters with a letter of their own
  iterate 6
    split
    next h => exact .letter (by rw [h]; rfl)
  split
  next h => exact .code h
  next hslash _ hquote hcontrol => exact .plain (by simpa using hcontrol) hslash hquote

theorem isControl_digitChar : ∀ {d : Nat}, d < 16 →
    isControl d.digitChar = false ∧ d.digitChar ≠ '\\' ∧ d.digitChar ≠ '\"' := by
  decide

/-- Hexadecimal digits are no control characters, and are not escaped. -/
theorem isControl_hex : ∀ {count n : Nat}, ∀ c ∈ Text.hex count n,
    isControl c = false ∧ c ≠ '\\' ∧ c ≠ '\"'
  | 0, _, _, h => nomatch h
  | count + 1, n, c, h => by
      rcases List.mem_append.mp h with h | h
      · exact isControl_hex c h
      · rw [List.mem_singleton.mp h]
        exact isControl_digitChar (Nat.mod_lt n (by decide))

theorem isControl_letter {l c : Char} (h : letter? l = some c) : isControl l = false := by
  unfold letter? at h
  split at h
  all_goals first | decide | exact nomatch h

/-- No escape has control characters. -/
theorem isControl_escape {c d : Char} (h : d ∈ escape c) : isControl d = false := by
  have hways := escaped c
  generalize escape c = text at h hways
  cases hways with
  | @letter l hl =>
      rcases List.mem_cons.mp h with rfl | h
      · decide
      · rw [List.mem_singleton.mp h]
        exact isControl_letter hl
  | code _ =>
      rcases List.mem_cons.mp h with rfl | h
      · decide
      rcases List.mem_cons.mp h with rfl | h
      · decide
      · exact (isControl_hex d h).1
  | plain hcontrol _ _ =>
      rw [List.mem_singleton.mp h]
      exact hcontrol

/-! ## §2. Reading. -/

/-- The first character of an escaped text, and the rest. -/
def unescape : List Char → Option (Char × List Char)
  | [] => none
  | '\\' :: 'u' :: cs =>
    match Draft.codeUnit cs with
    | .ok (unit, rest) => some (Char.ofNat unit, rest)
    | .error _ => none
  | '\\' :: l :: cs => (letter? l).map fun c => (c, cs)
  | c :: cs => some (c, cs)

/-- **An escaped character is read as itself**, whatever stands behind it. -/
theorem unescape_escape (c : Char) (rest : List Char) : unescape (escape c ++ rest) = some (c, rest) := by
  have hways := escaped c
  generalize escape c = text at hways
  cases hways with
  | @letter l hl =>
      -- no letter is taken for the beginning of a code
      have hu : l ≠ 'u' := by
        rintro rfl
        exact nomatch hl
      show unescape ('\\' :: l :: rest) = _
      rw [unescape, hl]
      · rfl
      · exact hu
  | code hcontrol =>
      have hlt : c.toNat < 0x10000 := by
        simp only [isControl, Bool.or_eq_true, Bool.and_eq_true, decide_eq_true_eq] at hcontrol
        omega
      show unescape ('\\' :: 'u' :: (Text.hex 4 c.toNat ++ rest)) = _
      simp only [unescape, Draft.codeUnit_hex hlt, Char.ofNat_toNat]
  | plain _ hslash _ =>
      show unescape (c :: rest) = _
      unfold unescape
      split <;> simp_all

/-- **Texts that are escaped to the same are equal.** -/
theorem eq_of_flatMap_escape : ∀ {cs ds : List Char}, cs.flatMap escape = ds.flatMap escape → cs = ds
  | [], [], _ => rfl
  | [], d :: ds, h => by
      have hread := unescape_escape d (ds.flatMap escape)
      rw [← List.flatMap_cons, ← h] at hread
      exact nomatch hread
  | c :: cs, [], h => by
      have hread := unescape_escape c (cs.flatMap escape)
      rw [← List.flatMap_cons, h] at hread
      exact nomatch hread
  | c :: cs, d :: ds, h => by
      have hread := unescape_escape c (cs.flatMap escape)
      rw [← List.flatMap_cons, h, List.flatMap_cons, unescape_escape] at hread
      injection hread with hread
      injection hread with hfirst hrest
      rw [hfirst, eq_of_flatMap_escape hrest.symm]

/-! ## §3. Quotes in escaped texts. -/

/-- The number of backslashes at the end of a text. -/
def backslashes (cs : List Char) : Nat := (cs.reverse.takeWhile (· = '\\')).length

/-- Every quote stands behind an odd number of backslashes. -/
def QuotesEscaped (cs : List Char) : Prop :=
  ∀ front rest, cs = front ++ '\"' :: rest → backslashes front % 2 = 1

variable {c : Char} {cs ds : List Char}

theorem backslashes_concat_backslash : backslashes (cs ++ ['\\']) = backslashes cs + 1 := by
  simp [backslashes]

theorem backslashes_concat (hc : c ≠ '\\') : backslashes (cs ++ [c]) = 0 := by
  simp [backslashes, hc]

/-- One more character, if it is no quote or one behind an odd number of backslashes. -/
theorem QuotesEscaped.concat (h : QuotesEscaped cs) (hc : c = '\"' → backslashes cs % 2 = 1) :
    QuotesEscaped (cs ++ [c]) := by
  intro front rest heq
  -- the quote is the last character, or it stands in the text before that
  rcases List.eq_nil_or_concat rest with rfl | ⟨more, d, hrest⟩
  · obtain ⟨rfl, hquote⟩ := List.append_inj' heq rfl
    exact hc (List.singleton_inj.mp hquote)
  · have hsplit : cs ++ [c] = (front ++ '\"' :: more) ++ [d] := by
      rw [heq, hrest, List.concat_eq_append, List.append_assoc, List.cons_append]
    exact h front more (List.append_inj_left' hsplit rfl)

/-- A text of whole escapes: its quotes are escaped, and no backslash at its end
is left to escape what comes next. -/
structure Whole (cs : List Char) : Prop where
  even : backslashes cs % 2 = 0
  quotes : QuotesEscaped cs

namespace Whole

theorem nil : Whole [] where
  even := rfl
  quotes front rest h := by simp at h

/-- A character that is not escaped. -/
theorem concat (h : Whole cs) (hslash : c ≠ '\\') (hquote : c ≠ '\"') : Whole (cs ++ [c]) where
  even := by rw [backslashes_concat hslash]
  quotes := h.quotes.concat fun hc => absurd hc hquote

theorem append (h : Whole cs) (hds : ∀ c ∈ ds, c ≠ '\\' ∧ c ≠ '\"') : Whole (cs ++ ds) := by
  induction ds generalizing cs with
  | nil => rwa [List.append_nil]
  | cons d ds ih =>
      obtain ⟨hslash, hquote⟩ := hds d List.mem_cons_self
      rw [List.append_cons]
      exact ih (h.concat hslash hquote) fun c hc => hds c (List.mem_cons_of_mem d hc)

/-- A backslash and what it escapes, also a quote or another backslash. -/
theorem escape_one (h : Whole cs) (l : Char) : Whole (cs ++ ['\\', l]) := by
  have heven := h.even
  have hodd : backslashes (cs ++ ['\\']) % 2 = 1 := by
    rw [backslashes_concat_backslash]
    omega
  have hquotes : QuotesEscaped (cs ++ ['\\']) := h.quotes.concat fun hc => nomatch hc
  rw [List.append_cons]
  refine ⟨?_, hquotes.concat fun _ => hodd⟩
  -- two backslashes more keep the number even, any other character ends their row
  by_cases hl : l = '\\'
  · rw [hl, backslashes_concat_backslash]
    omega
  · rw [backslashes_concat hl]

/-- **A written character leaves whole escapes behind it.** -/
theorem append_escape (h : Whole cs) (c : Char) : Whole (cs ++ escape c) := by
  have hways := escaped c
  generalize escape c = text at hways
  cases hways with
  | @letter l _ => exact h.escape_one l
  | code _ =>
      have hdigits : ∀ d ∈ Text.hex 4 c.toNat, d ≠ '\\' ∧ d ≠ '\"' := fun d hd => (isControl_hex d hd).2
      have hwhole := (h.escape_one 'u').append hdigits
      rwa [List.append_assoc] at hwhole
  | plain _ hslash hquote => exact h.concat hslash hquote

/-- **A written text** consists of whole escapes, behind others too. -/
theorem append_flatMap (h : Whole cs) (ds : List Char) : Whole (cs ++ ds.flatMap escape) := by
  induction ds generalizing cs with
  | nil => rwa [List.flatMap_nil, List.append_nil]
  | cons d ds ih =>
      rw [List.flatMap_cons, ← List.append_assoc]
      exact ih (h.append_escape d)

end Whole

/-! ## §4. String constants. -/

theorem toList_literal_string (s : String) :
    (literal (.string s)).toList = '\"' :: (s.toList.flatMap escape ++ ['\"']) := by
  rw [literal, quoted, Text.quotedBy, String.toList_ofList]

/-- **String constants are read in one way.**  Two of them with the same text are
equal, and between the quotes around it there is no control character, and no
quote but behind an odd number of backslashes. -/
theorem literal_string_unique (s t : String) :
    (literal (.string s) = literal (.string t) ↔ s = t)
      ∧ ∃ body, (literal (.string s)).toList = '\"' :: (body ++ ['\"'])
        ∧ (∀ c ∈ body, isControl c = false) ∧ QuotesEscaped body := by
  constructor
  · constructor
    · intro h
      have hchars := congrArg String.toList h
      rw [toList_literal_string, toList_literal_string] at hchars
      have hbodies := List.append_inj_left' (List.cons.inj hchars).2 rfl
      exact String.toList_inj.mp (eq_of_flatMap_escape hbodies)
    · rintro rfl
      rfl
  · refine ⟨_, toList_literal_string s, ?_, (Whole.nil.append_flatMap s.toList).quotes⟩
    intro d hd
    obtain ⟨c, -, hc⟩ := List.mem_flatMap.mp hd
    exact isControl_escape hc

/-- A backslash and a quote: the quote stands behind three backslashes. -/
example : literal (.string "\\\"") = "\"\\\\\\\"\"" := by decide

end Printer

end PatternIR
