/-
  PatternIR.Proofs.Wire.Readers
  ─────────────────────────────
  **READERS GIVE BACK WHAT WAS WRITTEN.**

  A reader goes with a way to write if it gives each value back that was written
  so, as long as it may open as many brackets as the written form has, and finds
  the form malformed as soon as it may not.  The forms are put together from
  parts, and the readers are in the same way, so that it is enough to know it of
  scalars and to have one lemma for each way to put readers together.

    • `Reader.Reads` — what a reader makes of a form, with room below a bound;
    • scalars, options and lists;
    • `Reader.Record.Takes` — a record, from its fields in order;
    • `Reader.reads_plain`, `Reader.reads_full` — variants;
    • `Reader.Refuses` — a form that is not read with any room.

  Readers of trees recurse on a fuel, and the bound is what that lasts for: one
  more step of the fuel is good for one more bracket.  Scalars are read as the
  library was relied on to find them.
-/
import PatternIR.Json.Decode

namespace PatternIR

open JsonLibrary (draft drafts fieldDrafts)

namespace Reader

variable {lib : JsonLibrary} {α β σ τ : Type} {n m room : Nat} {read : Reader lib α} {j : Json} {a : α}

/-- The reader gives a value back from its written form if there is room for the
brackets of the form, and otherwise finds it malformed, with room below the bound. -/
def Reads (lib : JsonLibrary) (n : Nat) (read : Reader lib α) (j : Json) (a : α) : Prop :=
  ∀ room, room < n → read room (lib.draft j) = if j.depth ≤ room then .ok a else .error .malformed

/-- A lower bound. -/
theorem Reads.mono (h : Reads lib n read j a) (hm : m ≤ n) : Reads lib m read j a :=
  fun room hroom => h room (Nat.lt_of_lt_of_le hroom hm)

/-- What is made from a value that is read. -/
theorem Reads.map (h : Reads lib n read j a) (f : α → β) :
    Reads lib n (fun room d => f <$> read room d) j (f a) := by
  intro room hroom
  show f <$> read room (lib.draft j) = _
  rw [h room hroom]
  split <;> rfl

/-! ## §1. Scalars. -/

/-- There is always room for a value without brackets. -/
theorem reads_scalar (hdepth : j.depth = 0) (h : ∀ room, read room (lib.draft j) = .ok a) :
    Reads lib n read j a := by
  intro room _
  rw [h room, hdepth, if_pos (Nat.zero_le room)]

section

variable [hlib : lib.Lawful]

/-- A truth value. -/
theorem reads_bool (b : Bool) : Reads lib n Reader.bool (.bool b) b :=
  reads_scalar (by rw [Json.depth]) fun _ => by rw [hlib.bool, Reader.bool]

/-- A string. -/
theorem reads_string (s : String) : Reads lib n Reader.string (.string s) s :=
  reads_scalar (by rw [Json.depth]) fun _ => by rw [hlib.string, Reader.string]

/-- A character. -/
theorem reads_char (c : Char) : Reads lib n Reader.char (.string (String.ofList [c])) c := by
  refine reads_scalar (by rw [Json.depth]) fun room => ?_
  rw [hlib.string]
  simp [Reader.char, Reader.string, bind, Except.bind]

/-- An integer of 64 bits, with or without sign, within the limits of the reader. -/
theorem reads_int {low high z : Int} (hlow : low ≤ z) (hhigh : z ≤ high)
    (hmin : Int64.minValue.toInt ≤ low) (hmax : high < UInt64.size) :
    Reads lib n (Reader.int low high) (.int z) z := by
  obtain ⟨k, hdraft, hread⟩ := hlib.int z (Int.le_trans hmin hlow) (Int.lt_of_le_of_lt hhigh hmax)
  refine reads_scalar (by rw [Json.depth]) fun room => ?_
  rw [hdraft]
  exact hread low high hlow hhigh

/-- An index. -/
theorem reads_nat32 {k : Nat} (h : k < UInt32.size) : Reads lib n Reader.nat32 (.nat k) k := by
  have hsize : (UInt32.size : Int) = 4294967296 := by decide
  exact (reads_int (z := k) (by omega) (by omega) (by decide) (by decide)).map Int.toNat

/-- A position. -/
theorem reads_nat64 {k : Nat} (h : k < UInt64.size) : Reads lib n Reader.nat64 (.nat k) k :=
  (reads_int (z := k) (by omega) (by omega) (by decide) (by decide)).map Int.toNat

/-- 32 bits with a sign. -/
theorem reads_int32 (i : Int32) : Reads lib n Reader.int32 (.int i.toInt) i := by
  have hread : Reads lib n Reader.int32 (.int i.toInt) (.ofInt i.toInt) :=
    (reads_int (Int32.minValue_le_toInt i) (Int32.toInt_le i) (by decide) (by decide)).map Int32.ofInt
  rwa [Int32.ofInt_toInt] at hread

/-- 64 bits with a sign. -/
theorem reads_int64 (i : Int64) : Reads lib n Reader.int64 (.int i.toInt) i := by
  have hread : Reads lib n Reader.int64 (.int i.toInt) (.ofInt i.toInt) :=
    (reads_int (Int64.minValue_le_toInt i) (Int64.toInt_le i) (by decide) (by decide)).map Int64.ofInt
  rwa [Int64.ofInt_toInt] at hread

end

/-- A single that the library keeps. -/
theorem reads_single {x : Single} (h : lib.KeepsSingle x) :
    Reads lib n Reader.single (.single x) x := by
  obtain ⟨k, hdraft, hread⟩ := h
  refine reads_scalar (by rw [Json.depth]) fun room => ?_
  rw [hdraft]
  exact hread

/-- A double that the library keeps. -/
theorem reads_double {x : Double} (h : lib.KeepsDouble x) :
    Reads lib n Reader.double (.double x) x := by
  obtain ⟨k, hdraft, hread⟩ := h
  refine reads_scalar (by rw [Json.depth]) fun room => ?_
  rw [hdraft]
  exact hread

/-- A double that the library keeps, too large for a single, where a single is wanted. -/
theorem reads_narrowed [hlib : lib.Lawful] {x : Double} (h : lib.KeepsDouble x)
    (hlarge : (x.convert : Single).isFinite = false) :
    Reads lib n Reader.single (.double x) (.infinite x.negative) := by
  obtain ⟨k, hdraft, hread⟩ := h
  refine reads_scalar (by rw [Json.depth]) fun room => ?_
  have hnarrow := hlib.narrows x k hdraft hread hlarge
  rw [hdraft]
  exact hnarrow

/-! ## §2. Options and lists. -/

/-- What is written is not taken for a missing value. -/
def Present (lib : JsonLibrary) (read : Reader lib α) (j : Json) : Prop :=
  ∀ room, Reader.option read room (lib.draft j) = some <$> read room (lib.draft j)

/-- A string is present. -/
theorem present_string [hlib : lib.Lawful] (s : String) : Present lib read (.string s) := fun room => by
  rw [hlib.string]
  rfl

/-- An object is present. -/
theorem present_object (fs : List (String × Json)) : Present lib read (.object fs) := fun room => by
  rw [draft]
  rfl

/-- An optional value that is there. -/
theorem Reads.option (h : Reads lib n read j a) (hpresent : Present lib read j) :
    Reads lib n (Reader.option read) j (some a) := by
  intro room hroom
  rw [hpresent room, h room hroom]
  split <;> rfl

/-- A value or `null`. -/
theorem reads_option [hlib : lib.Lawful] {write : α → Json} {o : Option α}
    (hpresent : ∀ a ∈ o, Present lib read (write a)) (h : ∀ a ∈ o, Reads lib n read (write a) a) :
    Reads lib n (Reader.option read) (.option write o) o := by
  match o with
  | none =>
      refine reads_scalar (by rw [Json.option, Json.depth]) fun room => ?_
      rw [Json.option, hlib.null]
      rfl
  | some a => exact (h a rfl).option (hpresent a rfl)

/-- Items in order, with room for the brackets in each of them. -/
theorem items_eq {write : α → Json} (hroom : room < n) : ∀ {as : List α},
    (∀ a ∈ as, Reads lib n read (write a) a) →
      Reader.items (read room) (lib.drafts (as.map write))
        = if Json.depths (as.map write) ≤ room then .ok as else .error .malformed
  | [], _ => by
      rw [List.map_nil, drafts, Json.depths, if_pos (Nat.zero_le room)]
      rfl
  | a :: as, h => by
      have hmore := items_eq hroom fun b hb => h b (List.mem_cons_of_mem a hb)
      rw [List.map_cons, drafts, Reader.items, Json.depths, h a List.mem_cons_self room hroom, hmore]
      -- the first item that is too deep ends it
      by_cases hfirst : (write a).depth ≤ room
      · by_cases hrest : Json.depths (as.map write) ≤ room
        · rw [if_pos hfirst, if_pos hrest, if_pos (Nat.max_le.mpr ⟨hfirst, hrest⟩)]
          rfl
        · rw [if_pos hfirst, if_neg hrest, if_neg fun hboth => hrest (Nat.max_le.mp hboth).2]
          rfl
      · rw [if_neg hfirst, if_neg fun hboth => hfirst (Nat.max_le.mp hboth).1]
        rfl

/-- **A list**, in brackets of its own. -/
theorem reads_list {write : α → Json} {as : List α} (h : ∀ a ∈ as, Reads lib n read (write a) a) :
    Reads lib n (Reader.list read) (.list write as) as := by
  intro room hroom
  rw [Json.list, Json.depth, draft]
  cases room with
  | zero => rw [if_neg (Nat.not_succ_le_zero _)]; rfl
  | succ room =>
      -- the bracket takes one from the room, and the items have what is left
      show (do
        let as ← Reader.items (read room) (lib.drafts (as.map write))
        unlessFault none
        return as) = _
      rw [items_eq (Nat.lt_of_succ_lt hroom) h]
      by_cases hdepth : Json.depths (as.map write) ≤ room
      · rw [if_pos hdepth, if_pos (Nat.succ_le_succ hdepth)]
        rfl
      · rw [if_neg hdepth, if_neg fun hle => hdepth (Nat.le_of_succ_le_succ hle)]
        rfl

/-! ## §3. Records. -/

namespace Record

/-- A record of one field, with its key and the reader of its value. -/
structure IsField (r : Record lib (Option α) α) (key : String) (read : Reader lib α) : Prop where
  start : r.start = none
  put : ∀ room d, r.put room key d none = some (some <$> read room d)
  twice : ∀ room d b, r.put room key d (some b) = some (.error .mismatched)
  other : ∀ room k d s, k ≠ key → r.put room k d s = none
  finish : ∀ a, r.finish (some a) = some a

/-- A field that may be absent. -/
theorem isField_fieldOr (absent : Option α) (key : String) (read : Reader lib α) :
    IsField (fieldOr absent key read) key read where
  start := rfl
  put _ _ := if_pos rfl
  twice _ _ _ := if_pos rfl
  other _ _ _ _ h := if_neg h
  finish _ := rfl

/-- A field that has to be there. -/
theorem isField (key : String) (read : Reader lib α) : IsField (field key read) key read :=
  isField_fieldOr none key read

/-- A field that may be `null`. -/
theorem isField_optional (key : String) (read : Reader lib α) :
    IsField (optional key read) key (Reader.option read) where
  start := rfl
  put _ _ := if_pos rfl
  twice _ _ _ := if_pos rfl
  other _ _ _ _ h := if_neg h
  finish _ := rfl

/-- Read the fields of an object, and make the record. -/
def collect (r : Record lib σ α) (room : Nat) (fs : List (Key × Draft lib.Number)) (s : σ) :
    Except TextFault α := do
  let s ← r.fields room fs s
  orFault .mismatched (r.finish s)

/-- The record is read from its fields if there is room for the brackets in them,
and malformed otherwise, with room below the bound. -/
def Takes (n : Nat) (r : Record lib σ α) (fs : List (String × Json)) (a : α) : Prop :=
  ∀ room, room < n → r.collect room (lib.fieldDrafts fs) r.start
    = if Json.fieldDepths fs ≤ room then .ok a else .error .malformed

variable {r : Record lib (Option α) α} {q : Record lib τ β} {key : String} {fs : List (String × Json)} {b : β}

/-- The key of the first record. -/
theorem put_and_left (hr : IsField r key read) (d : Draft lib.Number) (t : τ) :
    (r.and q).put room key d (none, t) = some ((·, t) <$> (some <$> read room d)) := by
  simp only [Record.and, hr.put]

/-- Any other key. -/
theorem put_and_right (hr : IsField r key read) {k : String} (hk : k ≠ key) (d : Draft lib.Number)
    (s : Option α) (t : τ) :
    (r.and q).put room k d (s, t) = (q.put room k d t).map fun result => (s, ·) <$> result := by
  simp only [Record.and, hr.other room k d s hk]

/-- A record is made if its fields are read and none is missing. -/
theorem collect_ok {s : Record lib σ α} {fs : List (Key × Draft lib.Number)} {start : σ} :
    s.collect room fs start = .ok a ↔ ∃ t, s.fields room fs start = .ok t ∧ s.finish t = some a := by
  unfold collect
  cases s.fields room fs start with
  | error fault =>
      constructor
      · exact nofun
      · rintro ⟨_, h, -⟩
        exact nomatch h
  | ok t =>
      show orFault .mismatched (s.finish t) = .ok a ↔ _
      constructor
      · intro h
        refine ⟨t, rfl, ?_⟩
        cases hfinish : s.finish t with
        | none =>
            rw [hfinish] at h
            exact nomatch h
        | some b =>
            rw [hfinish] at h
            exact congrArg some (Except.ok.inj h)
      · rintro ⟨t', ht, hfinish⟩
        obtain rfl := Except.ok.inj ht
        rw [hfinish]
        rfl

/-- A record is malformed if a field of it is: a missing one is a mismatch. -/
theorem collect_malformed {s : Record lib σ α} {fs : List (Key × Draft lib.Number)} {start : σ} :
    s.collect room fs start = .error .malformed ↔ s.fields room fs start = .error .malformed := by
  unfold collect
  cases s.fields room fs start with
  | error fault =>
      constructor
      · intro h
        exact congrArg Except.error (Except.error.inj h)
      · intro h
        exact congrArg Except.error (Except.error.inj h)
  | ok t =>
      constructor
      · intro h
        cases hfinish : s.finish t <;> simp [bind, Except.bind, orFault, hfinish] at h
      · exact nofun

/-- Fields of the second record leave the first one alone. -/
theorem fields_and (hr : IsField r key read) (s : Option α) : ∀ {fs : List (String × Json)} (t : τ),
    (∀ f ∈ fs, f.1 ≠ key) → (r.and q).fields room (lib.fieldDrafts fs) (s, t)
      = (s, ·) <$> q.fields room (lib.fieldDrafts fs) t
  | [], _, _ => by
      rw [fieldDrafts]
      rfl
  | (k, j) :: fs, t, h => by
      have hmore : ∀ t, (r.and q).fields room (lib.fieldDrafts fs) (s, t)
          = (s, ·) <$> q.fields room (lib.fieldDrafts fs) t :=
        fun t => fields_and hr s t fun f hf => h f (List.mem_cons_of_mem _ hf)
      rw [fieldDrafts, fields, fields, put_and_right hr (h (k, j) List.mem_cons_self)]
      cases hput : q.put room k (lib.draft j) t with
      | some result =>
          cases result with
          | ok t' => exact hmore t'
          | error fault => rfl
      | none =>
          cases hskim : unlessFault (lib.draft j).skim with
          | ok u => exact hmore t
          | error fault => rfl

/-- The first of several fields, and what the others are read to. -/
theorem fields_cons (hr : IsField r key read) (hkeys : ∀ f ∈ fs, f.1 ≠ key) :
    (r.and q).fields room (lib.fieldDrafts ((key, j) :: fs)) (none, q.start)
      = (read room (lib.draft j) >>= fun a => (some a, ·) <$> q.fields room (lib.fieldDrafts fs) q.start) := by
  rw [fieldDrafts, fields, put_and_left hr]
  cases read room (lib.draft j) with
  | error fault => rfl
  | ok a => exact fields_and hr (some a) q.start hkeys

/-- **The first field of a record**, and then the others. -/
theorem takes_cons (hr : IsField r key read) (hkeys : ∀ f ∈ fs, f.1 ≠ key) (ha : Reads lib n read j a)
    (hb : Takes n q fs b) : Takes n (r.and q) ((key, j) :: fs) (a, b) := by
  intro room hroom
  have hread := ha room hroom
  have hrest := hb room hroom
  have hfields : (r.and q).fields room (lib.fieldDrafts ((key, j) :: fs)) (none, q.start) = _ :=
    fields_cons hr hkeys
  -- the first field goes to the first record, and none of the others does
  have hstart : (r.and q).start = (none, q.start) := Prod.ext hr.start rfl
  rw [hread] at hfields
  rw [hstart, Json.fieldDepths]
  by_cases hfirst : j.depth ≤ room
  · rw [if_pos hfirst] at hfields
    by_cases hdepths : Json.fieldDepths fs ≤ room
    · rw [if_pos hdepths] at hrest
      obtain ⟨t, ht, hfinish⟩ := collect_ok.mp hrest
      rw [if_pos (Nat.max_le.mpr ⟨hfirst, hdepths⟩)]
      refine collect_ok.mpr ⟨(some a, t), ?_, ?_⟩
      · rw [hfields, ht]
        rfl
      · simp only [Record.and, hr.finish, hfinish]
        rfl
    · rw [if_neg hdepths] at hrest
      rw [if_neg fun hboth => hdepths (Nat.max_le.mp hboth).2]
      refine collect_malformed.mpr ?_
      rw [hfields, collect_malformed.mp hrest]
      rfl
  · rw [if_neg hfirst] at hfields
    rw [if_neg fun hboth => hfirst (Nat.max_le.mp hboth).1]
    exact collect_malformed.mpr hfields

/-- A record of one field. -/
theorem takes_one (hr : IsField r key read) (ha : Reads lib n read j a) : Takes n r [(key, j)] a := by
  intro room hroom
  rw [Json.fieldDepths, Json.fieldDepths, Nat.max_zero]
  unfold collect
  rw [fieldDrafts, fieldDrafts, fields, hr.start, hr.put, ha room hroom]
  by_cases hdepth : j.depth ≤ room
  · rw [if_pos hdepth]
    show orFault .mismatched (r.finish (some a)) = _
    rw [hr.finish]
    rfl
  · rw [if_neg hdepth]
    rfl

variable {s : Record lib σ α}

/-- What is made from a record takes the same fields. -/
theorem fields_map (f : α → β) : ∀ (fs : List (Key × Draft lib.Number)) (t : σ),
    (s.map f).fields room fs t = s.fields room fs t
  | [], _ => rfl
  | (.text (some k), d) :: fs, t => by
      have hput : (s.map f).put = s.put := rfl
      simp only [fields, hput, fields_map f fs]
  | (.text none, _) :: _, _ | (.alien, _) :: _, _ | (.cut _ _, _) :: _, _ => rfl

/-- What is made from a record that is read. -/
theorem Takes.map (h : Takes n s fs a) (f : α → β) : Takes n (s.map f) fs (f a) := by
  intro room hroom
  have hread := h room hroom
  by_cases hdepth : Json.fieldDepths fs ≤ room
  · rw [if_pos hdepth] at hread ⊢
    obtain ⟨t, hfields, hfinish⟩ := collect_ok.mp hread
    refine collect_ok.mpr ⟨t, (fields_map f _ _).trans hfields, ?_⟩
    show (s.finish t).map f = _
    rw [hfinish]
    rfl
  · rw [if_neg hdepth] at hread ⊢
    exact collect_malformed.mpr ((fields_map f _ _).trans (collect_malformed.mp hread))

/-- **An object**: one more bracket. -/
theorem Takes.object_succ (h : Takes n s fs a) : Reads lib (n + 1) s.read (.object fs) a := by
  intro room hroom
  rw [Json.depth, draft]
  cases room with
  | zero => rw [if_neg (Nat.not_succ_le_zero _)]; rfl
  | succ room =>
      have hread := h room (Nat.lt_of_succ_lt_succ hroom)
      show (do
        let t ← s.fields room (lib.fieldDrafts fs) s.start
        unlessFault none
        orFault .mismatched (s.finish t)) = _
      by_cases hdepth : Json.fieldDepths fs ≤ room
      · rw [if_pos hdepth] at hread
        obtain ⟨t, hfields, hfinish⟩ := collect_ok.mp hread
        rw [if_pos (Nat.succ_le_succ hdepth), hfields]
        show orFault .mismatched (s.finish t) = _
        rw [hfinish]
        rfl
      · rw [if_neg hdepth] at hread
        rw [if_neg fun hle => hdepth (Nat.le_of_succ_le_succ hle), collect_malformed.mp hread]
        rfl

/-- An object, with the bound of its fields. -/
theorem Takes.object (h : Takes n s fs a) : Reads lib n s.read (.object fs) a :=
  h.object_succ.mono (Nat.le_succ n)

/-- What is made from an object. -/
theorem Takes.objectAs (h : Takes n s fs a) (f : α → β) : Reads lib n (s.readAs f) (.object fs) (f a) :=
  (h.map f).object

end Record

/-! ## §4. Variants. -/

variable {plain : String → Option α} {full : String → Option (Reader lib α)} {tag : String}

/-- A variant without content. -/
theorem reads_plain [hlib : lib.Lawful] (h : plain tag = some a) :
    Reads lib n (variant plain full) (.string tag) a := by
  refine reads_scalar (by rw [Json.depth]) fun room => ?_
  rw [hlib.string]
  show orFault .mismatched (plain tag) = _
  rw [h]
  rfl

/-- A variant with content, and room for its bracket. -/
theorem variant_full (hplain : plain tag = none) (hfull : full tag = some read) :
    variant plain full (room + 1) (lib.draft (.object [(tag, j)])) = read room (lib.draft j) := by
  rw [draft, fieldDrafts, fieldDrafts]
  simp only [variant, opening, variantName, bind, Except.bind, hplain, hfull]
  cases read room (lib.draft j) <;> rfl

/-- **A variant with content**: one more bracket. -/
theorem reads_full_succ (hplain : plain tag = none) (hfull : full tag = some read)
    (h : Reads lib n read j a) :
    Reads lib (n + 1) (variant plain full) (.object [(tag, j)]) a := by
  intro room hroom
  rw [Json.depth, Json.fieldDepths, Json.fieldDepths, Nat.max_zero]
  cases room with
  | zero =>
      rw [if_neg (Nat.not_succ_le_zero _), draft]
      rfl
  | succ room =>
      rw [variant_full hplain hfull, h room (Nat.lt_of_succ_lt_succ hroom)]
      by_cases hdepth : j.depth ≤ room
      · rw [if_pos hdepth, if_pos (Nat.succ_le_succ hdepth)]
      · rw [if_neg hdepth, if_neg fun hle => hdepth (Nat.le_of_succ_le_succ hle)]

/-- A variant with content, with the bound of the content. -/
theorem reads_full (hplain : plain tag = none) (hfull : full tag = some read)
    (h : Reads lib n read j a) :
    Reads lib n (variant plain full) (.object [(tag, j)]) a :=
  (reads_full_succ hplain hfull h).mono (Nat.le_succ n)

/-! ## §5. Forms that are not read. -/

/-- The reader makes nothing of the form, whatever room it has. -/
def Refuses (lib : JsonLibrary) (read : Reader lib α) (j : Json) : Prop :=
  ∀ room, ∃ fault, read room (lib.draft j) = .error fault

/-- What would be made from the value. -/
theorem Refuses.map (h : Refuses lib read j) (f : α → β) :
    Refuses lib (fun room d => f <$> read room d) j := by
  intro room
  obtain ⟨fault, hfault⟩ := h room
  exact ⟨fault, congrArg (f <$> ·) hfault⟩

/-- An optional value that is there and is refused. -/
theorem Refuses.option (h : Refuses lib read j) (hpresent : Present lib read j) :
    Refuses lib (Reader.option read) j := by
  intro room
  obtain ⟨fault, hfault⟩ := h.map some room
  exact ⟨fault, (hpresent room).trans hfault⟩

/-- No single is read where an infinite one or a NaN was written. -/
theorem refuses_single [hlib : lib.Lawful] {x : Single} (h : x.isFinite = false) :
    Refuses lib Reader.single (.single x) := by
  intro room
  rw [hlib.single x h]
  exact ⟨.mismatched, rfl⟩

/-- A variant whose content is refused. -/
theorem refuses_full (hplain : plain tag = none) (hfull : full tag = some read) (h : Refuses lib read j) :
    Refuses lib (variant plain full) (.object [(tag, j)]) := by
  intro room
  cases room with
  | zero => exact ⟨.malformed, by rw [draft]; rfl⟩
  | succ room =>
      obtain ⟨fault, hfault⟩ := h room
      exact ⟨fault, (variant_full hplain hfull).trans hfault⟩

/-- A list with an item that is refused. -/
theorem refuses_list {js : List Json} (hj : j ∈ js) (h : Refuses lib read j) :
    Refuses lib (Reader.list read) (.array js) := by
  have hitems : ∀ (room : Nat) (js : List Json), j ∈ js →
      ∃ fault, Reader.items (read room) (lib.drafts js) = .error fault := by
    intro room js hj
    induction js with
    | nil => exact absurd hj List.not_mem_nil
    | cons i js ih =>
        rw [drafts, Reader.items]
        cases hread : read room (lib.draft i) with
        | error fault => exact ⟨fault, rfl⟩
        | ok a =>
            -- an item in front may have been read; the list is refused at the first that is not
            rcases List.mem_cons.mp hj with rfl | hj
            · obtain ⟨fault, hfault⟩ := h room
              exact nomatch hread.symm.trans hfault
            · obtain ⟨fault, hfault⟩ := ih hj
              rw [hfault]
              exact ⟨fault, rfl⟩
  intro room
  rw [draft]
  cases room with
  | zero => exact ⟨.malformed, rfl⟩
  | succ room =>
      obtain ⟨fault, hfault⟩ := hitems room js hj
      refine ⟨fault, ?_⟩
      show (do
        let as ← Reader.items (read room) (lib.drafts js)
        unlessFault none
        return as) = _
      rw [hfault]
      rfl

namespace Record

variable {r : Record lib (Option α) α} {q : Record lib τ β} {s : Record lib σ α} {key k : String}
  {fs : List (String × Json)}

/-- The record makes nothing of a field, whatever came before it. -/
def Rejects (s : Record lib σ α) (k : String) (j : Json) : Prop :=
  ∀ room t, ∃ fault, s.put room k (lib.draft j) t = some (.error fault)

/-- A record of one field whose value is refused. -/
theorem IsField.rejects (hr : IsField r key read) (h : Refuses lib read j) : r.Rejects key j := by
  intro room t
  cases t with
  | none =>
      obtain ⟨fault, hfault⟩ := h room
      exact ⟨fault, by rw [hr.put, hfault]; rfl⟩
  | some b => exact ⟨.mismatched, hr.twice room _ b⟩

/-- A field that the first of two records rejects. -/
theorem Rejects.left (h : s.Rejects k j) (q : Record lib τ β) : (s.and q).Rejects k j := by
  rintro room ⟨t, u⟩
  obtain ⟨fault, hfault⟩ := h room t
  exact ⟨fault, by simp only [Record.and, hfault]; rfl⟩

/-- A field that the second of two records rejects, and the first one has nothing to do with. -/
theorem Rejects.right (hr : IsField r key read) (hk : k ≠ key) (h : q.Rejects k j) : (r.and q).Rejects k j := by
  rintro room ⟨t, u⟩
  obtain ⟨fault, hfault⟩ := h room u
  exact ⟨fault, by rw [put_and_right hr hk, hfault]; rfl⟩

/-- Fields among which one is rejected. -/
theorem Rejects.fields (h : s.Rejects k j) (room : Nat) : ∀ {fs : List (String × Json)} (t : σ), (k, j) ∈ fs →
    ∃ fault, s.fields room (lib.fieldDrafts fs) t = .error fault
  | [], _, hmem => absurd hmem List.not_mem_nil
  | (k', j') :: fs, t, hmem => by
      rw [fieldDrafts, Record.fields]
      rcases List.mem_cons.mp hmem with heq | hmem
      · obtain ⟨rfl, rfl⟩ := Prod.mk.inj heq
        obtain ⟨fault, hfault⟩ := h room t
        rw [hfault]
        exact ⟨fault, rfl⟩
      · cases s.put room k' (lib.draft j') t with
        | some result =>
            cases result with
            | ok t' => exact Rejects.fields h room t' hmem
            | error fault => exact ⟨fault, rfl⟩
        | none =>
            cases hskim : unlessFault (lib.draft j').skim with
            | ok u => exact Rejects.fields h room t hmem
            | error fault => exact ⟨fault, rfl⟩

/-- **An object with a field that is rejected.** -/
theorem Rejects.object (h : s.Rejects k j) (hmem : (k, j) ∈ fs) (f : α → β) :
    Refuses lib (s.readAs f) (.object fs) := by
  intro room
  rw [draft]
  cases room with
  | zero => exact ⟨.malformed, rfl⟩
  | succ room =>
      obtain ⟨fault, hfault⟩ := h.fields room s.start hmem
      refine ⟨fault, ?_⟩
      show (do
        let t ← (s.map f).fields room (lib.fieldDrafts fs) s.start
        unlessFault none
        orFault .mismatched ((s.map f).finish t)) = _
      rw [fields_map f, hfault]
      rfl

end Record

end Reader

end PatternIR
