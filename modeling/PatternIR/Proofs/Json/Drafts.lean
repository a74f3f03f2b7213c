/-
  PatternIR.Proofs.Json.Drafts
  ────────────────────────────
  **A WRITTEN VALUE IS SCANNED AS IT IS.**

  The text of a JSON value, with whatever blanks between its parts, is taken by
  the scanner to its end, and nothing more is.  What was found is the value
  again: the same brackets around the same scalars.

      ⟦text of j⟧ rest   ↦   j.draft, and `rest` is left

  Floating-point numbers are the exception.  The draft of one has the numeral
  that it was written as, and infinities and NaNs, which are written as `null`,
  are found as that.

    • `Json.draft` — what is found where a value was written;
    • `Json.Spacing`, `Json.laid` — a text by the blanks in it;
    • `Json.toList_compact`, `Json.toList_prettyAt` — both written forms are such texts;
    • `Draft.value_laid` — scanning a value in front of what no number goes on with;
    • `Draft.scan_laid` — scanning a text with nothing but the value;
    • `JsonLibrary.standard_lawful` — so the library the program runs with can be relied on.
-/
import PatternIR.Json.Standard
import PatternIR.Proofs.Float.Rounding
import PatternIR.Proofs.Json.Numerals

namespace PatternIR

/-! ## §1. What is found. -/

namespace Json

mutual
/-- What scanning finds where a value was written. -/
def draft : Json → Draft Numeral
  | .null => .null
  | .bool b => .bool b
  | .int n => .number (.ofInt n)
  | .single x => (Draft.scan (scalar (.single x)).toList).1
  | .double x => (Draft.scan (scalar (.double x)).toList).1
  | .string s => .string (some s)
  | .array js => .array (drafts js) none
  | .object fs => .object (fieldDrafts fs) none
/-- What scanning finds where items were written. -/
def drafts : List Json → List (Draft Numeral)
  | [] => []
  | j :: js => draft j :: drafts js
/-- What scanning finds where fields were written. -/
def fieldDrafts : List (String × Json) → List (Key × Draft Numeral)
  | [] => []
  | (k, j) :: fs => (.text (some k), draft j) :: fieldDrafts fs
end

end Json

namespace Draft

variable {c : Char} {cs bs : List Char}

/-! ## §2. Blanks. -/

/-- What is no blank is not skipped. -/
theorem skipBlanks_cons (h : ¬IsBlank c) : skipBlanks (c :: cs) = c :: cs := if_neg h

/-- Any number of blanks is. -/
theorem skipBlanks_blanks (h : ∀ b ∈ bs, IsBlank b) : skipBlanks (bs ++ cs) = skipBlanks cs := by
  induction bs with
  | nil => rfl
  | cons b bs ih =>
      obtain ⟨hb, hbs⟩ := List.forall_mem_cons.mp h
      exact (if_pos hb).trans (ih hbs)

/-- A number ends where the text does. -/
theorem delimits_nil : Delimits [] := nofun

/-- A number ends before whatever does not go on with it. -/
theorem delimits_cons (h : c.isDigit = false ∧ c ≠ '.' ∧ c ≠ 'e' ∧ c ≠ 'E') : Delimits (c :: cs) := by
  intro d hd
  obtain rfl := Option.some.inj hd
  exact h

/-- A comma ends a number. -/
theorem delimits_comma : Delimits (',' :: cs) := delimits_cons (by decide)

/-- No number goes on with a blank. -/
theorem delimits_blanks (h : ∀ b ∈ bs, IsBlank b) (hcs : Delimits cs) : Delimits (bs ++ cs) := by
  match bs with
  | [] => exact hcs
  | b :: bs =>
      apply delimits_cons
      rcases h b List.mem_cons_self with rfl | rfl | rfl | rfl
      all_goals decide

end Draft

/-! ## §3. Texts by the blanks in them. -/

namespace Json

/-- The blanks in a text: in front of an item or a closing bracket, by its
level, and behind the colon of a field. -/
structure Spacing where
  line : Nat → List Char
  gap : List Char
  blank_line : ∀ level, ∀ c ∈ line level, Draft.IsBlank c
  blank_gap : ∀ c ∈ gap, Draft.IsBlank c

mutual
/-- A value as it is written with given blanks. -/
def laid (s : Spacing) (level : Nat) : Json → List Char
  | .array (j :: js) =>
    '[' :: (s.line (level + 1) ++ (laid s (level + 1) j ++ (laidItems s (level + 1) js ++
      (s.line level ++ [']']))))
  | .object ((k, j) :: fs) =>
    '\x7b' :: (s.line (level + 1) ++ ((quoted k).toList ++ (':' :: (s.gap ++ (laid s (level + 1) j ++
      (laidFields s (level + 1) fs ++ (s.line level ++ ['\x7d'])))))))
  | .null => (scalar .null).toList
  | .bool b => (scalar (.bool b)).toList
  | .int n => (scalar (.int n)).toList
  | .single x => (scalar (.single x)).toList
  | .double x => (scalar (.double x)).toList
  | .string t => (scalar (.string t)).toList
  | .array [] => (scalar (.array [])).toList
  | .object [] => (scalar (.object [])).toList
/-- The items behind the first, each with its comma. -/
def laidItems (s : Spacing) (level : Nat) : List Json → List Char
  | [] => []
  | j :: js => ',' :: (s.line level ++ (laid s level j ++ laidItems s level js))
/-- The fields behind the first, each with its comma. -/
def laidFields (s : Spacing) (level : Nat) : List (String × Json) → List Char
  | [] => []
  | (k, j) :: fs =>
    ',' :: (s.line level ++ ((quoted k).toList ++ (':' :: (s.gap ++ (laid s level j ++
      laidFields s level fs)))))
end

/-- No blanks at all. -/
def Spacing.compact : Spacing := ⟨fun _ => [], [], fun _ => nofun, nofun⟩

/-- A new line consists of blanks. -/
theorem blank_newline (level : Nat) : ∀ c ∈ (newline level).toList, Draft.IsBlank c := by
  intro c hc
  rw [newline, String.toList_ofList] at hc
  rcases List.mem_cons.mp hc with rfl | hc
  · decide
  · rw [List.eq_of_mem_replicate hc]
    decide

/-- A new line for each item. -/
def Spacing.pretty : Spacing :=
  ⟨fun level => (newline level).toList, [' '], blank_newline, List.forall_mem_singleton.mpr (.inl rfl)⟩

mutual
/-- **On one line** a value is written without blanks. -/
theorem toList_compact : ∀ (level : Nat) (j : Json), (compact j).toList = laid .compact level j
  | _, .null | _, .bool _ | _, .int _ | _, .single _ | _, .double _ | _, .string _
  | _, .array [] | _, .object [] => by rw [compact, laid]
  | level, .array (j :: js) => by
      rw [compact, laid, ← toList_compact, ← toList_compactItems]
      simp only [String.toList_append, List.append_assoc]
      rfl
  | level, .object ((k, j) :: fs) => by
      rw [compact, laid, ← toList_compact, ← toList_compactFields]
      simp only [String.toList_append, List.append_assoc]
      rfl
/-- The items behind the first, in one line. -/
theorem toList_compactItems : ∀ (level : Nat) (js : List Json),
    (compactItems js).toList = laidItems .compact level js
  | _, [] => by
      rw [compactItems, laidItems]
      rfl
  | level, j :: js => by
      rw [compactItems, laidItems, ← toList_compact, ← toList_compactItems]
      simp only [String.toList_append, List.append_assoc]
      rfl
/-- The fields behind the first, in one line. -/
theorem toList_compactFields : ∀ (level : Nat) (fs : List (String × Json)),
    (compactFields fs).toList = laidFields .compact level fs
  | _, [] => by
      rw [compactFields, laidFields]
      rfl
  | level, (k, j) :: fs => by
      rw [compactFields, laidFields, ← toList_compact, ← toList_compactFields]
      simp only [String.toList_append, List.append_assoc]
      rfl
end

mutual
/-- **Over several lines** it is written with a new line for each item. -/
theorem toList_prettyAt : ∀ (level : Nat) (j : Json), (prettyAt level j).toList = laid .pretty level j
  | _, .null | _, .bool _ | _, .int _ | _, .single _ | _, .double _ | _, .string _
  | _, .array [] | _, .object [] => by rw [prettyAt, laid]
  | level, .array (j :: js) => by
      rw [prettyAt, laid, ← toList_prettyAt, ← toList_prettyItems]
      simp only [String.toList_append, List.append_assoc]
      rfl
  | level, .object ((k, j) :: fs) => by
      rw [prettyAt, laid, ← toList_prettyAt, ← toList_prettyFields]
      simp only [String.toList_append, List.append_assoc]
      rfl
/-- The items behind the first, each on its line. -/
theorem toList_prettyItems : ∀ (level : Nat) (js : List Json),
    (prettyItems level js).toList = laidItems .pretty level js
  | _, [] => by
      rw [prettyItems, laidItems]
      rfl
  | level, j :: js => by
      rw [prettyItems, laidItems, ← toList_prettyAt, ← toList_prettyItems]
      simp only [String.toList_append, List.append_assoc]
      rfl
/-- The fields behind the first, each on its line. -/
theorem toList_prettyFields : ∀ (level : Nat) (fs : List (String × Json)),
    (prettyFields level fs).toList = laidFields .pretty level fs
  | _, [] => by
      rw [prettyFields, laidFields]
      rfl
  | level, (k, j) :: fs => by
      rw [prettyFields, laidFields, ← toList_prettyAt, ← toList_prettyFields]
      simp only [String.toList_append, List.append_assoc]
      rfl
end

end Json

namespace Draft

variable {fuel : Nat} {c : Char} {cs rest bs gap : List Char} {d : Draft Numeral}

/-! ## §4. Scalars. -/

/-- A character that an item can begin with, and no blank or bracket at the end of a list. -/
def IsHead (c : Char) : Prop := ¬IsBlank c ∧ c ≠ ']'

instance (c : Char) : Decidable (IsHead c) := inferInstanceAs (Decidable (_ ∧ _))

/-- What opens no bracket is read by itself. -/
theorem value_atom (hblank : ¬IsBlank c) (harray : c ≠ '[') (hobject : c ≠ '\x7b') :
    value (fuel + 1) (c :: cs) = atom fuel c cs := by
  simp only [value, skipBlanks_cons hblank, if_neg harray, if_neg hobject]

/-- A numeral begins like nothing else. -/
theorem opens_ne {x : Char} (h : Numeral.Opens c) (hx : x ≠ '-') (hdigit : x.isDigit = false) : c ≠ x := by
  rintro rfl
  rcases h with h | h
  · exact hx h
  · rw [hdigit] at h
    exact Bool.noConfusion h

/-- A number opens with no blank and no bracket that closes. -/
theorem opens_isHead (h : Numeral.Opens c) : IsHead c := by
  refine ⟨?_, opens_ne h (by decide) rfl⟩
  rintro (hc | hc | hc | hc)
  all_goals exact opens_ne h (by decide) rfl hc

/-- **Scanning a numeral.** -/
theorem value_numeral {n : Numeral} (hn : n.Proper) (hrest : Delimits rest) :
    value (fuel + 1) (n.text ++ rest) = ⟨.number n, some rest⟩ := by
  obtain ⟨c, cs, htext, hopens, hscan⟩ := Numeral.scan_text hn hrest
  have hne : ∀ x : Char, x ≠ '-' → x.isDigit = false → c ≠ x := fun x => opens_ne hopens
  rw [htext, List.cons_append, value_atom (opens_isHead hopens).1 (hne '[' (by decide) rfl)
    (hne '\x7b' (by decide) rfl)]
  unfold atom
  rw [if_neg (hne 'n' (by decide) rfl), if_neg (hne 't' (by decide) rfl), if_neg (hne 'f' (by decide) rfl),
    if_neg (hne '\"' (by decide) rfl)]
  exact (if_pos hopens).trans hscan

/-- A text of nothing but a numeral. -/
theorem scan_numeral {n : Numeral} (hn : n.Proper) : (scan n.text).1 = .number n := by
  have hvalue : value (2 * n.text.length + 2) (n.text ++ []) = ⟨.number n, some []⟩ :=
    value_numeral hn nofun
  rw [List.append_nil] at hvalue
  show (value (2 * n.text.length + 2) n.text).value = _
  rw [hvalue]

/-- Scanning a floating-point number, written or not. -/
theorem value_float {t : Option String}
    (ht : ∀ s ∈ t, ∃ n : Numeral, n.Proper ∧ n.IsReal ∧ s.toList = n.text) (hrest : Delimits rest) :
    value (fuel + 1) ((t.getD "null").toList ++ rest)
      = ⟨(scan (t.getD "null").toList).1, some rest⟩ := by
  match t with
  | none => rfl
  | some s =>
      obtain ⟨n, hn, -, htext⟩ := ht s rfl
      show value (fuel + 1) (s.toList ++ rest) = ⟨(scan s.toList).1, some rest⟩
      rw [htext, scan_numeral hn]
      exact value_numeral hn hrest

/-! ## §5. Strings. -/

/-- A character takes at least one character to write. -/
theorem escape_length (c : Char) : 0 < (Json.escape c).length := by
  unfold Json.escape
  repeat' split
  all_goals exact Nat.succ_pos _

/-- A digit in base sixteen is read back. -/
theorem hexDigit_digitChar : ∀ {d : Nat}, d < 16 → hexDigit? d.digitChar = some d := by
  decide

/-- Four hexadecimal digits are read as the number they were written for. -/
theorem codeUnit_hex {n : Nat} (h : n < 0x10000) : codeUnit (Text.hex 4 n ++ rest) = .ok (n, rest) := by
  have hdigits : Text.hex 4 n ++ rest = (n / 16 / 16 / 16 % 16).digitChar :: (n / 16 / 16 % 16).digitChar ::
      (n / 16 % 16).digitChar :: (n % 16).digitChar :: rest := by
    simp [Text.hex]
  rw [hdigits]
  simp only [codeUnit, hexDigit_digitChar (Nat.mod_lt _ (by decide : 16 > 0))]
  congr 2
  omega

/-- A character is known by its number. -/
theorem eq_of_toNat {k : Nat} (h : c.toNat = k) : c = Char.ofNat k := by
  rw [← h, Char.ofNat_toNat]

/-- **A written character is read as itself.** -/
theorem piece_escape (c : Char) : piece (Json.escape c ++ rest) = .char c rest := by
  unfold Json.escape
  by_cases hquote : c = '\"'
  · subst hquote
    rfl
  by_cases hslash : c = '\\'
  · subst hslash
    rfl
  by_cases hback : c.toNat = 0x08
  · obtain rfl := eq_of_toNat hback
    rfl
  by_cases hfeed : c.toNat = 0x0c
  · obtain rfl := eq_of_toNat hfeed
    rfl
  by_cases hline : c = '\n'
  · subst hline
    rfl
  by_cases hreturn : c = '\r'
  · subst hreturn
    rfl
  by_cases htab : c = '\t'
  · subst htab
    rfl
  -- no short escape: a control character by its code, any other as it is
  rw [if_neg hquote, if_neg hslash, if_neg hback, if_neg hfeed, if_neg hline, if_neg hreturn, if_neg htab]
  split
  next hcontrol =>
    have hunit : codeUnit (Text.hex 4 c.toNat ++ rest) = .ok (c.toNat, rest) := codeUnit_hex (by omega)
    have hhigh : isHighSurrogate c.toNat = false := decide_eq_false (by omega)
    have hlow : isLowSurrogate c.toNat = false := decide_eq_false (by omega)
    show piece ('\\' :: 'u' :: (Text.hex 4 c.toNat ++ rest)) = _
    simp only [piece, hunit, hhigh, hlow, Char.ofNat_toNat]
    rfl
  next hcontrol =>
    show piece (c :: rest) = _
    unfold piece
    split <;> simp_all

/-- **A written string is read as itself**, behind its first quote. -/
theorem stringBody_escape : ∀ (cs : List Char) {fuel : Nat} (found : List Char), cs.length < fuel →
    stringBody fuel true found (cs.flatMap Json.escape ++ '\"' :: rest)
      = (.ok (some (String.ofList (found.reverse ++ cs))), rest)
  | _, 0, _, h => absurd h (Nat.not_lt_zero _)
  | [], fuel + 1, found, _ => by
      rw [List.append_nil]
      rfl
  | c :: cs, fuel + 1, found, h => by
      have hmore := stringBody_escape cs (c :: found) (Nat.lt_of_succ_lt_succ h)
      rw [List.flatMap_cons, List.append_assoc, stringBody, piece_escape]
      rw [List.reverse_cons, List.append_assoc] at hmore
      exact hmore

/-- Escaping makes no text shorter. -/
theorem length_le_escaped : ∀ cs : List Char, cs.length ≤ (cs.flatMap Json.escape).length
  | [] => Nat.le_refl 0
  | c :: cs => by
      have hmore := length_le_escaped cs
      have hc := escape_length c
      rw [List.flatMap_cons, List.length_append, List.length_cons]
      omega

/-- A text stands between quotes, its characters escaped. -/
theorem quoted_eq (s : String) :
    (Json.quoted s).toList = '\"' :: (s.toList.flatMap Json.escape ++ ['\"']) := by
  rw [Json.quoted, Text.quotedBy, String.toList_ofList]

/-- What stands behind the first quote of a written string. -/
theorem stringBody_quoted (s : String) (rest : List Char) (h : (Json.quoted s).toList.length ≤ fuel + 1) :
    stringBody fuel true [] (s.toList.flatMap Json.escape ++ '\"' :: rest) = (.ok (some s), rest) := by
  have hlength := length_le_escaped s.toList
  rw [quoted_eq, List.length_cons, List.length_append, List.length_singleton] at h
  rw [stringBody_escape s.toList [] (by omega), List.reverse_nil, List.nil_append, String.ofList_toList]

/-! ## §6. Steps through lists. -/

/-- A text begins with what an item can begin with. -/
def Begins (cs : List Char) : Prop := ∃ c more, cs = c :: more ∧ IsHead c

/-- What begins with a character that begins a value begins one. -/
theorem begins_cons (h : IsHead c) : Begins (c :: cs) := ⟨c, cs, rfl, h⟩

/-- What follows does not matter. -/
theorem Begins.append (h : Begins cs) (more : List Char) : Begins (cs ++ more) := by
  obtain ⟨c, tail, rfl, hc⟩ := h
  exact ⟨c, tail ++ more, rfl, hc⟩

/-- A bracket, with the items behind it. -/
theorem value_brackets {found : List (Draft Numeral) × Option TextFault} (h : items fuel true cs = ⟨found, some rest⟩) :
    value (fuel + 1) ('[' :: cs) = ⟨.array found.1 found.2, some rest⟩ := by
  rw [value, skipBlanks_cons (by decide)]
  simp only [if_true, h]

/-- A brace, with the fields behind it. -/
theorem value_braces {found : List (Key × Draft Numeral) × Option TextFault}
    (h : fields fuel true cs = ⟨found, some rest⟩) :
    value (fuel + 1) ('\x7b' :: cs) = ⟨.object found.1 found.2, some rest⟩ := by
  rw [value, skipBlanks_cons (by decide)]
  simp only [h]
  rfl

/-- Blanks before a value are skipped. -/
theorem value_blanks (h : ∀ b ∈ bs, IsBlank b) : value fuel (bs ++ cs) = value fuel cs := by
  cases fuel with
  | zero => rfl
  | succ fuel => rw [value, value, skipBlanks_blanks h]

/-- A bracket closes the list, whether or not there are items. -/
theorem items_close {first : Bool} (h : skipBlanks cs = ']' :: rest) :
    items (fuel + 1) first cs = ⟨([], none), some rest⟩ := by
  rw [items, h]
  rfl

/-- One more item in front of others. -/
def moreItems (d : Draft Numeral) (found : Found (List (Draft Numeral) × Option TextFault)) :
    Found (List (Draft Numeral) × Option TextFault) :=
  ⟨(d :: found.value.1, found.value.2), found.rest⟩

/-- The first item, behind blanks. -/
theorem items_first (hbs : ∀ b ∈ bs, IsBlank b) (hcs : Begins cs) (hitem : value fuel cs = ⟨d, some rest⟩) :
    items (fuel + 1) true (bs ++ cs) = moreItems d (items fuel false rest) := by
  obtain ⟨c, more, rfl, hblank, hclose⟩ := hcs
  rw [items, skipBlanks_blanks hbs, skipBlanks_cons hblank]
  simp [hclose, hitem, moreItems]

/-- A further item, behind a comma. -/
theorem items_more (hbs : ∀ b ∈ bs, IsBlank b) (hcs : Begins cs) (hitem : value fuel cs = ⟨d, some rest⟩) :
    items (fuel + 1) false (',' :: (bs ++ cs)) = moreItems d (items fuel false rest) := by
  obtain ⟨c, more, rfl, hblank, hclose⟩ := hcs
  rw [items, skipBlanks_cons (by decide)]
  simp [skipBlanks_blanks hbs, skipBlanks_cons hblank, hclose, hitem, moreItems]

/-- A brace closes the fields. -/
theorem fields_close {first : Bool} (h : skipBlanks cs = '\x7d' :: rest) :
    fields (fuel + 1) first cs = ⟨([], none), some rest⟩ := by
  rw [fields, h]
  rfl

/-- One more field in front of others. -/
def moreFields (k : String) (d : Draft Numeral) (found : Found (List (Key × Draft Numeral) × Option TextFault)) :
    Found (List (Key × Draft Numeral) × Option TextFault) :=
  ⟨((.text (some k), d) :: found.value.1, found.value.2), found.rest⟩

variable {k : String}

/-- The first field, behind blanks. -/
theorem fields_first (hbs : ∀ b ∈ bs, IsBlank b) (hgap : ∀ b ∈ gap, IsBlank b)
    (hkey : (Json.quoted k).toList.length ≤ fuel + 1) (hfield : value fuel cs = ⟨d, some rest⟩) :
    fields (fuel + 1) true (bs ++ ((Json.quoted k).toList ++ (':' :: (gap ++ cs))))
      = moreFields k d (fields fuel false rest) := by
  have hbody := stringBody_quoted k (':' :: (gap ++ cs)) hkey
  rw [fields, skipBlanks_blanks hbs, quoted_eq, List.cons_append, skipBlanks_cons (by decide)]
  simp [key?, hbody, skipBlanks_cons (c := ':') (by decide), value_blanks hgap, hfield, moreFields]

/-- A further field, behind a comma. -/
theorem fields_more (hbs : ∀ b ∈ bs, IsBlank b) (hgap : ∀ b ∈ gap, IsBlank b)
    (hkey : (Json.quoted k).toList.length ≤ fuel + 1) (hfield : value fuel cs = ⟨d, some rest⟩) :
    fields (fuel + 1) false (',' :: (bs ++ ((Json.quoted k).toList ++ (':' :: (gap ++ cs)))))
      = moreFields k d (fields fuel false rest) := by
  have hbody := stringBody_quoted k (':' :: (gap ++ cs)) hkey
  rw [fields, skipBlanks_cons (by decide)]
  simp [skipBlanks_blanks hbs, quoted_eq, skipBlanks_cons (c := '\"') (by decide), key?, hbody,
    skipBlanks_cons (c := ':') (by decide), value_blanks hgap, hfield, moreFields]

/-! ## §7. Values. -/

/-- A number begins a value. -/
theorem begins_numeral {n : Numeral} (hn : n.Proper) : Begins n.text := by
  obtain ⟨c, cs, htext, hopens, -⟩ := Numeral.scan_text hn (show Delimits [] from nofun)
  exact ⟨c, cs, htext, opens_isHead hopens⟩

/-- So does a number written as one, or `null` in its place. -/
theorem begins_float {t : Option String} (ht : ∀ s ∈ t, ∃ n : Numeral, n.Proper ∧ n.IsReal ∧ s.toList = n.text) :
    Begins (t.getD "null").toList := by
  match t with
  | none => exact begins_cons (by decide)
  | some s =>
      obtain ⟨n, hn, -, htext⟩ := ht s rfl
      show Begins s.toList
      rw [htext]
      exact begins_numeral hn

/-- What is written of a single is a real number. -/
theorem single_text {x : Single} : ∀ s ∈ x.write? .jsonSingle, ∃ n : Numeral, n.Proper ∧ n.IsReal ∧ s.toList = n.text :=
  fun _ h => Binary.write?_eq_text rfl h

/-- So is what is written of a double. -/
theorem double_text {x : Double} : ∀ s ∈ x.write? .jsonDouble, ∃ n : Numeral, n.Proper ∧ n.IsReal ∧ s.toList = n.text :=
  fun _ h => Binary.write?_eq_text rfl h

/-- A text begins with no blank and closes no list. -/
theorem begins_laid (s : Json.Spacing) (level : Nat) : ∀ j : Json, Begins (Json.laid s level j)
  | .null | .bool true | .bool false | .array [] | .object [] => by
      rw [Json.laid]
      exact begins_cons (by decide)
  | .int n => by
      rw [Json.laid, Json.scalar, Numeral.toString_eq_text]
      exact begins_numeral (Numeral.proper_ofInt n)
  | .single _ => by
      rw [Json.laid]
      exact begins_float single_text
  | .double _ => by
      rw [Json.laid]
      exact begins_float double_text
  | .string t => by
      rw [Json.laid, Json.scalar, quoted_eq]
      exact begins_cons (by decide)
  | .array (j :: js) => by
      rw [Json.laid]
      exact begins_cons (by decide)
  | .object ((k, j) :: fs) => by
      rw [Json.laid]
      exact begins_cons (by decide)

/-- Behind an item is a comma or, behind blanks, what closes the list. -/
theorem delimits_items (s : Json.Spacing) (level level' : Nat) (h : Delimits cs) :
    ∀ js : List Json, Delimits (Json.laidItems s level js ++ (s.line level' ++ cs))
  | [] => by
      rw [Json.laidItems, List.nil_append]
      exact delimits_blanks (s.blank_line level') h
  | j :: js => by
      rw [Json.laidItems]
      exact delimits_comma

/-- Behind the fields, what ends a number still does. -/
theorem delimits_fields (s : Json.Spacing) (level level' : Nat) (h : Delimits cs) :
    ∀ fs : List (String × Json), Delimits (Json.laidFields s level fs ++ (s.line level' ++ cs))
  | [] => by
      rw [Json.laidFields, List.nil_append]
      exact delimits_blanks (s.blank_line level') h
  | (k, j) :: fs => by
      rw [Json.laidFields]
      exact delimits_comma

/-- A text between quotes is read back whole. -/
theorem value_string (s : String) (h : (Json.quoted s).toList.length ≤ fuel + 1) :
    value (fuel + 1) ((Json.quoted s).toList ++ rest) = ⟨.string (some s), some rest⟩ := by
  have hbody := stringBody_quoted s rest h
  rw [quoted_eq, List.cons_append, List.append_assoc, value_atom (by decide) (by decide) (by decide)]
  show string? fuel _ = _
  rw [string?, List.singleton_append, hbody]

-- The induction is on the value. What delimits a number, which alone does not show where
-- it ends, is part of the statement: behind an item of a list it is a comma or a bracket.
mutual
/-- **Scanning a written value** takes its text, and nothing of what is behind.
The fuel lasts if there is more of it than there are characters. -/
theorem value_laid (s : Json.Spacing) : ∀ (j : Json) (level fuel : Nat) (rest : List Char),
    (Json.laid s level j).length < fuel → Delimits rest →
      value fuel (Json.laid s level j ++ rest) = ⟨j.draft, some rest⟩
  | .null, level, fuel, rest | .bool true, level, fuel, rest | .bool false, level, fuel, rest => by
      intro h _
      obtain ⟨fuel, rfl⟩ := Nat.exists_eq_succ_of_ne_zero (Nat.ne_zero_of_lt h)
      rw [Json.draft, Json.laid]
      exact value_atom (by decide) (by decide) (by decide)
  | .int n, level, fuel, rest => by
      intro h hrest
      obtain ⟨fuel, rfl⟩ := Nat.exists_eq_succ_of_ne_zero (Nat.ne_zero_of_lt h)
      rw [Json.draft, Json.laid, Json.scalar, Numeral.toString_eq_text]
      exact value_numeral (Numeral.proper_ofInt n) hrest
  | .single x, level, fuel, rest => by
      intro h hrest
      obtain ⟨fuel, rfl⟩ := Nat.exists_eq_succ_of_ne_zero (Nat.ne_zero_of_lt h)
      rw [Json.draft, Json.laid]
      exact value_float single_text hrest
  | .double x, level, fuel, rest => by
      intro h hrest
      obtain ⟨fuel, rfl⟩ := Nat.exists_eq_succ_of_ne_zero (Nat.ne_zero_of_lt h)
      rw [Json.draft, Json.laid]
      exact value_float double_text hrest
  | .string t, level, fuel, rest => by
      intro h _
      obtain ⟨fuel, rfl⟩ := Nat.exists_eq_succ_of_ne_zero (Nat.ne_zero_of_lt h)
      rw [Json.laid, Json.scalar] at h ⊢
      rw [Json.draft]
      exact value_string t (Nat.le_of_lt h)
  | .array [], level, fuel, rest => by
      intro h _
      rw [Json.laid, Json.scalar] at h ⊢
      obtain ⟨fuel, rfl⟩ : ∃ k, fuel = k + 2 := ⟨fuel - 2, (Nat.sub_add_cancel (Nat.le_of_lt h)).symm⟩
      rw [Json.draft, Json.drafts]
      exact value_brackets (items_close (skipBlanks_cons (by decide)))
  | .object [], level, fuel, rest => by
      intro h _
      rw [Json.laid, Json.scalar] at h ⊢
      obtain ⟨fuel, rfl⟩ : ∃ k, fuel = k + 2 := ⟨fuel - 2, (Nat.sub_add_cancel (Nat.le_of_lt h)).symm⟩
      rw [Json.draft, Json.fieldDrafts]
      exact value_braces (fields_close (skipBlanks_cons (by decide)))
  | .array (j :: js), level, fuel, rest => by
      intro h _
      rw [Json.laid] at h ⊢
      simp only [List.length_cons, List.length_append] at h
      obtain ⟨fuel, rfl⟩ : ∃ k, fuel = k + 2 := ⟨fuel - 2, by omega⟩
      have hclose : Delimits (']' :: rest) := delimits_cons (by decide)
      -- the two brackets leave the items with less text than there is fuel
      have hitem := value_laid s j (level + 1) fuel _ (by omega)
        (delimits_items s (level + 1) level hclose js)
      have hmore := items_laid s js (level + 1) level fuel rest (by omega)
      have hall := items_first (s.blank_line (level + 1)) ((begins_laid s (level + 1) j).append _) hitem
      rw [hmore] at hall
      rw [Json.draft, Json.drafts]
      simpa using value_brackets hall
  | .object ((k, j) :: fs), level, fuel, rest => by
      intro h _
      rw [Json.laid] at h ⊢
      simp only [List.length_cons, List.length_append] at h
      obtain ⟨fuel, rfl⟩ : ∃ k, fuel = k + 2 := ⟨fuel - 2, by omega⟩
      have hclose : Delimits ('\x7d' :: rest) := delimits_cons (by decide)
      have hfield := value_laid s j (level + 1) fuel _ (by omega)
        (delimits_fields s (level + 1) level hclose fs)
      have hmore := fields_laid s fs (level + 1) level fuel rest (by omega)
      have hall := fields_first (k := k) (s.blank_line (level + 1)) s.blank_gap (by omega) hfield
      rw [hmore] at hall
      rw [Json.draft, Json.fieldDrafts]
      simpa using value_braces hall
/-- The items behind the first are read back, up to the bracket. -/
theorem items_laid (s : Json.Spacing) : ∀ (js : List Json) (level level' fuel : Nat) (rest : List Char),
    (Json.laidItems s level js).length < fuel →
      items fuel false (Json.laidItems s level js ++ (s.line level' ++ ']' :: rest))
        = ⟨(Json.drafts js, none), some rest⟩
  | [], level, level', fuel, rest => by
      intro h
      obtain ⟨fuel, rfl⟩ := Nat.exists_eq_succ_of_ne_zero (Nat.ne_zero_of_lt h)
      rw [Json.laidItems, Json.drafts]
      refine items_close ?_
      rw [List.nil_append, skipBlanks_blanks (s.blank_line level'), skipBlanks_cons (by decide)]
  | j :: js, level, level', fuel, rest => by
      intro h
      rw [Json.laidItems] at h ⊢
      simp only [List.length_cons, List.length_append] at h
      obtain ⟨fuel, rfl⟩ : ∃ k, fuel = k + 1 := ⟨fuel - 1, by omega⟩
      have hclose : Delimits (']' :: rest) := delimits_cons (by decide)
      have hitem := value_laid s j level fuel _ (by omega) (delimits_items s level level' hclose js)
      have hmore := items_laid s js level level' fuel rest (by omega)
      have hall := items_more (s.blank_line level) ((begins_laid s level j).append _) hitem
      rw [hmore] at hall
      rw [Json.drafts]
      simpa [moreItems] using hall
/-- The fields behind the first are read back, up to the brace. -/
theorem fields_laid (s : Json.Spacing) :
    ∀ (fs : List (String × Json)) (level level' fuel : Nat) (rest : List Char),
    (Json.laidFields s level fs).length < fuel →
      fields fuel false (Json.laidFields s level fs ++ (s.line level' ++ '\x7d' :: rest))
        = ⟨(Json.fieldDrafts fs, none), some rest⟩
  | [], level, level', fuel, rest => by
      intro h
      obtain ⟨fuel, rfl⟩ := Nat.exists_eq_succ_of_ne_zero (Nat.ne_zero_of_lt h)
      rw [Json.laidFields, Json.fieldDrafts]
      refine fields_close ?_
      rw [List.nil_append, skipBlanks_blanks (s.blank_line level'), skipBlanks_cons (by decide)]
  | (k, j) :: fs, level, level', fuel, rest => by
      intro h
      rw [Json.laidFields] at h ⊢
      simp only [List.length_cons, List.length_append] at h
      obtain ⟨fuel, rfl⟩ : ∃ k, fuel = k + 1 := ⟨fuel - 1, by omega⟩
      have hclose : Delimits ('\x7d' :: rest) := delimits_cons (by decide)
      have hfield := value_laid s j level fuel _ (by omega) (delimits_fields s level level' hclose fs)
      have hmore := fields_laid s fs level level' fuel rest (by omega)
      have hall := fields_more (k := k) (s.blank_line level) s.blank_gap (by omega) hfield
      rw [hmore] at hall
      rw [Json.fieldDrafts]
      simpa [moreFields] using hall
end

/-- **Scanning a written value and blanks behind it** finds the value, and no fault. -/
theorem scan_laid (s : Json.Spacing) (j : Json) (hbs : ∀ b ∈ bs, IsBlank b) :
    scan (Json.laid s 0 j ++ bs) = (j.draft, none) := by
  have hlength : (Json.laid s 0 j).length < 2 * (Json.laid s 0 j ++ bs).length + 2 := by
    rw [List.length_append]
    omega
  have hdelimits : Delimits (bs ++ []) := delimits_blanks hbs delimits_nil
  rw [List.append_nil] at hdelimits
  have hnothing : skipBlanks (bs ++ []) = [] := skipBlanks_blanks hbs
  rw [List.append_nil] at hnothing
  unfold scan
  rw [value_laid s j 0 _ bs hlength hdelimits]
  simp only [hnothing]
  rfl

end Draft

/-! ## §8. The library the program runs with. -/

/-- An infinity or a NaN has no text. -/
theorem Binary.write?_eq_none {f : Format} (l : Layout) {x : Binary f} (h : x.isFinite = false) :
    x.write? l = none := by
  have hge : f.infinity ≤ x.magnitude := Nat.le_of_not_lt (of_decide_eq_false h)
  unfold Binary.write? Binary.view
  by_cases hnan : f.infinity < x.magnitude
  · simp only [if_pos hnan]
  · have hinfinite : x.magnitude = f.infinity := Nat.le_antisymm (Nat.le_of_not_lt hnan) hge
    simp only [if_neg hnan, if_pos hinfinite]

namespace JsonLibrary

/-- Behind a text of a value with blanks in it, more blanks. -/
theorem standard_scan {text after : String} {s : Json.Spacing} {j : Json}
    (htext : text.toList = Json.laid s 0 j) (hafter : ∀ c ∈ after.toList, Draft.IsBlank c) :
    standard.scan (text ++ after) = (j.draft, none) := by
  show Draft.scan (text ++ after).toList = _
  rw [String.toList_append, htext, Draft.scan_laid s j hafter]

/-- The library reads what it wrote in one line, whatever blanks follow. -/
theorem standard_compact (j : Json) (after : String) (hafter : ∀ c ∈ after.toList, Draft.IsBlank c) :
    standard.scan (standard.compact j ++ after) = (j.draft, none) :=
  standard_scan (Json.toList_compact 0 j) hafter

/-- It reads what it wrote on many lines, whatever blanks follow. -/
theorem standard_pretty (j : Json) (after : String) (hafter : ∀ c ∈ after.toList, Draft.IsBlank c) :
    standard.scan (standard.pretty j ++ after) = (j.draft, none) :=
  standard_scan (Json.toList_prettyAt 0 j) hafter

/-- Alone, a value is read as what it is written as. -/
theorem standard_alone (j : Json) : standard.alone j = j.draft := by
  have hscan := standard_compact j "" nofun
  rw [String.append_empty] at hscan
  exact congrArg Prod.fst hscan

mutual
/-- What the library finds is what its scanner does. -/
theorem standard_draft : ∀ j : Json, standard.draft j = j.draft
  | .null => standard_alone .null
  | .bool b => standard_alone (.bool b)
  | .int n => standard_alone (.int n)
  | .single x => standard_alone (.single x)
  | .double x => standard_alone (.double x)
  | .string s => standard_alone (.string s)
  | .array js => by
      rw [draft, Json.draft, standard_drafts js]
      rfl
  | .object fs => by
      rw [draft, Json.draft, standard_fieldDrafts fs]
      rfl
/-- The same of a list of values. -/
theorem standard_drafts : ∀ js : List Json, standard.drafts js = Json.drafts js
  | [] => rfl
  | j :: js => by
      rw [drafts, Json.drafts, standard_draft j, standard_drafts js]
      rfl
/-- The same of fields. -/
theorem standard_fieldDrafts : ∀ fs : List (String × Json), standard.fieldDrafts fs = Json.fieldDrafts fs
  | [] => rfl
  | (k, j) :: fs => by
      rw [fieldDrafts, Json.fieldDrafts, standard_draft j, standard_fieldDrafts fs]
      rfl
end

/-- The draft of a single without a text. -/
theorem draft_single {x : Single} (h : x.isFinite = false) : (Json.single x).draft = .null := by
  rw [Json.draft, Json.scalar, Binary.write?_eq_none _ h]
  rfl

/-- The draft of a double without a text. -/
theorem draft_double {x : Double} (h : x.isFinite = false) : (Json.double x).draft = .null := by
  rw [Json.draft, Json.scalar, Binary.write?_eq_none _ h]
  rfl

/-- The draft of any other double is a numeral that is not one of an integer. -/
theorem draft_double_real {x : Double} (h : x.isFinite = true) :
    ∃ n : Numeral, (Json.double x).draft = .number n ∧ n.IsReal := by
  obtain ⟨S, k, hreads⟩ := Binary.exists_reads (of_decide_eq_true h)
  obtain ⟨t, ht⟩ : ∃ t, x.write? .jsonDouble = some t := by
    unfold Binary.write?
    rw [hreads.view]
    exact ⟨_, rfl⟩
  obtain ⟨n, hn, hreal, htext⟩ := Draft.double_text t ht
  refine ⟨n, ?_, hreal⟩
  rw [Json.draft, Json.scalar, ht, Option.getD_some, htext, Draft.scan_numeral hn]

/-- **The library the program runs with** can be relied on. -/
instance standard_lawful : standard.Lawful where
  room := rfl
  compact j after hafter := (standard_compact j after hafter).trans (by rw [standard_draft]; rfl)
  pretty j after hafter := (standard_pretty j after hafter).trans (by rw [standard_draft]; rfl)
  null := (standard_draft .null).trans (by rw [Json.draft]; rfl)
  bool b := (standard_draft (.bool b)).trans (by rw [Json.draft]; rfl)
  string s := (standard_draft (.string s)).trans (by rw [Json.draft]; rfl)
  int n hlow hhigh := by
    refine ⟨.ofInt n, (standard_draft (.int n)).trans (by rw [Json.draft]; rfl), fun low high hl hh => ?_⟩
    show Numeral.int low high (.ofInt n) = _
    simp [Numeral.int, Numeral.read, Numeral.value_ofInt hlow hhigh, Reader.orFault, bind, Except.bind, hl, hh]
  single x h := (standard_draft (.single x)).trans (draft_single h)
  double x h := (standard_draft (.double x)).trans (draft_double h)
  narrows x k hk hx h := by
    rw [standard_draft] at hk
    have hfinite : x.isFinite = true := by
      by_contra hx
      rw [draft_double (eq_false_of_ne_true hx)] at hk
      exact nomatch hk
    obtain ⟨n, hn, hreal⟩ := draft_double_real hfinite
    obtain rfl := Draft.number.inj (hn.symm.trans hk)
    -- the numeral has a value, no integer, and that is `x`
    show Numeral.single n = _
    change Numeral.double n = _ at hx
    unfold Numeral.double Numeral.read at hx
    unfold Numeral.single Numeral.read
    cases hvalue : n.value? with
    | none =>
        rw [hvalue] at hx
        exact nomatch hx
    | some v =>
        cases v with
        | int z => exact absurd hvalue (n.value_of_isReal hreal z)
        | real y =>
            rw [hvalue] at hx
            obtain rfl := Except.ok.inj hx
            exact congrArg Except.ok (Binary.convert_infinite hfinite h)

end JsonLibrary

end PatternIR
