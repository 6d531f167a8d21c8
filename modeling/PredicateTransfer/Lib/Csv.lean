import Mathlib.Data.List.Basic
import Mathlib.Tactic

/-!
# Reading separated values

A reader of delimited text, with the rules spreadsheet and data frame readers share.

- A field ends at a delimiter or at the end of its line. A line ends at a newline, at a carriage
  return, or at both.
- A field that *starts* with a quote is quoted: up to the closing quote every character belongs to
  it, and two quotes stand for one. What follows the closing quote is read as plain text.
- In a plain field a quote is an ordinary character.
- Lines of blanks are skipped. A quoted field that does not end is an error.

`records_row_append` says that a line of `Clean` fields, written with nothing but delimiters between
them, is read back as it was written. `clean_of_field` is the converse for one field: a field that
is read back as it was written is clean. Its proof counts. A field read from a piece of text has as
many delimiters as the piece, and fewer characters if it was quoted; so the piece cannot reach
beyond the field's own delimiter, and cannot be quoted.

All delimiters of a text are read, inside of fields or between them (`count_of_records`). So if two
neighbouring fields of a line are read back somewhere in its record, the record has no more fields
than the line (`length_le_of_records`).
-/

namespace Csv

/-- The characters with a meaning of their own, and those a skipped line may have. -/
structure Dialect (α : Type) where
  delimiter : α
  quote : α
  newline : α
  carriage : α
  blank : α → Bool
  delimiter_ne_quote : delimiter ≠ quote
  delimiter_ne_newline : delimiter ≠ newline
  delimiter_ne_carriage : delimiter ≠ carriage
  newline_ne_quote : newline ≠ quote
  delimiter_not_blank : blank delimiter = false

/-- A field that was read: its text, whether its record goes on, and what is left to read. -/
structure FieldEnd (α : Type) where
  text : List α
  more : Bool
  rest : List α

def FieldEnd.push {α : Type} (c : α) (e : FieldEnd α) : FieldEnd α := { e with text := c :: e.text }

namespace Dialect

variable {α : Type} [DecidableEq α] (D : Dialect α)

/-! ## The reader -/

/-- After a carriage return a newline belongs to the same line end. -/
def afterCarriage : List α → List α
  | [] => []
  | c :: s => if c = D.newline then s else c :: s

/-- Inside a plain field. -/
def inField : List α → FieldEnd α
  | [] => ⟨[], false, []⟩
  | c :: s =>
    if c = D.delimiter then ⟨[], true, s⟩
    else if c = D.newline then ⟨[], false, s⟩
    else if c = D.carriage then ⟨[], false, D.afterCarriage s⟩
    else (inField s).push c

/-- Inside a quoted field; the flag says that the last character was a quote. -/
def inQuotedField : Bool → List α → Option (FieldEnd α)
  | false, [] => none
  | false, c :: s =>
    if c = D.quote then inQuotedField true s
    else (inQuotedField false s).map (·.push c)
  | true, [] => some (D.inField [])
  | true, c :: s =>
    if c = D.quote then (inQuotedField false s).map (·.push c)
    else some (D.inField (c :: s))

def field : List α → Option (FieldEnd α)
  | [] => some (D.inField [])
  | c :: s => if c = D.quote then D.inQuotedField false s else some (D.inField (c :: s))

/-- The fields of one record; the number bounds how many. -/
def recordFields : Nat → List α → Option (List (List α) × List α)
  | 0, _ => none
  | n + 1, s => do
    let e ← D.field s
    if e.more then
      let (fields, rest) ← recordFields n e.rest
      return (e.text :: fields, rest)
    else return ([e.text], e.rest)

/-- Drop lines of blanks: `line` is where the line at hand began. -/
def skipBlankLines (line : List α) : List α → List α
  | [] => []
  | c :: s =>
    if c = D.newline || c = D.carriage then skipBlankLines s s
    else if D.blank c then skipBlankLines line s
    else line

/-- The records of a text; the number bounds how many. -/
def records : Nat → List α → Option (List (List (List α)))
  | 0, _ => none
  | n + 1, s =>
    match D.skipBlankLines s s with
    | [] => some []
    | c :: s => do
      let (fields, rest) ← D.recordFields ((c :: s).length + 1) (c :: s)
      return fields :: (← records n rest)

def read (s : List α) : Option (List (List (List α))) := D.records (s.length + 1) s

/-! ## Clean fields -/

/-- A field that needs no quotes. -/
structure Clean (f : List α) : Prop where
  noDelimiter : D.delimiter ∉ f
  noNewline : D.newline ∉ f
  noCarriage : D.carriage ∉ f
  notQuoted : f.head? ≠ some D.quote

instance (f : List α) : Decidable (D.Clean f) :=
  decidable_of_iff
    (D.delimiter ∉ f ∧ D.newline ∉ f ∧ D.carriage ∉ f ∧ f.head? ≠ some D.quote)
    ⟨fun ⟨h₁, h₂, h₃, h₄⟩ => ⟨h₁, h₂, h₃, h₄⟩, fun ⟨h₁, h₂, h₃, h₄⟩ => ⟨h₁, h₂, h₃, h₄⟩⟩

variable {D} {f : List α}

/-- A plain field goes on through characters with no meaning of their own. -/
theorem inField_append (hdelimiter : D.delimiter ∉ f) (hnewline : D.newline ∉ f)
    (hcarriage : D.carriage ∉ f) (s : List α) :
    D.inField (f ++ s) = ⟨f ++ (D.inField s).text, (D.inField s).more, (D.inField s).rest⟩ := by
  induction f with
  | nil => rfl
  | cons c f ih =>
    simp only [List.mem_cons, not_or] at hdelimiter hnewline hcarriage
    rw [List.cons_append, inField, if_neg (Ne.symm hdelimiter.1), if_neg (Ne.symm hnewline.1),
      if_neg (Ne.symm hcarriage.1), ih hdelimiter.2 hnewline.2 hcarriage.2]
    rfl

theorem field_eq_inField {s : List α} (h : s.head? ≠ some D.quote) :
    D.field s = some (D.inField s) := by
  cases s with
  | nil => rfl
  | cons c s =>
    have hc : c ≠ D.quote := fun heq => h (congrArg some heq)
    rw [field, if_neg hc]

theorem field_append (hf : D.Clean f) {s : List α} (hs : s.head? ≠ some D.quote) :
    D.field (f ++ s) =
      some ⟨f ++ (D.inField s).text, (D.inField s).more, (D.inField s).rest⟩ := by
  have hhead : (f ++ s).head? ≠ some D.quote := by
    cases f with
    | nil => exact hs
    | cons c f => exact hf.notQuoted
  rw [field_eq_inField hhead, inField_append hf.noDelimiter hf.noNewline hf.noCarriage]

theorem field_delimiter (hf : D.Clean f) (s : List α) :
    D.field (f ++ D.delimiter :: s) = some ⟨f, true, s⟩ := by
  have hhead : (D.delimiter :: s).head? ≠ some D.quote := by
    simpa using D.delimiter_ne_quote
  rw [field_append hf hhead]
  simp [inField]

theorem field_newline (hf : D.Clean f) (s : List α) :
    D.field (f ++ D.newline :: s) = some ⟨f, false, s⟩ := by
  have hhead : (D.newline :: s).head? ≠ some D.quote := by
    simpa using D.newline_ne_quote
  rw [field_append hf hhead]
  simp [inField, Ne.symm D.delimiter_ne_newline]

/-! ## Writing and reading back -/

variable (D) in
/-- A line: the fields as they are, with a delimiter between them. -/
def row (fields : List (List α)) : List α := [D.delimiter].intercalate fields ++ [D.newline]

omit [DecidableEq α] in
theorem row_cons_cons (f g : List α) (fs : List (List α)) :
    D.row (f :: g :: fs) = f ++ D.delimiter :: D.row (g :: fs) := by
  simp [row]

omit [DecidableEq α] in
theorem length_le_length_row (fs : List (List α)) : fs.length ≤ (D.row fs).length := by
  induction fs with
  | nil => exact Nat.zero_le _
  | cons f fs ih =>
    cases fs with
    | nil => simp [row]
    | cons g fs =>
      rw [row_cons_cons, List.length_append]
      simp only [List.length_cons] at ih ⊢
      omega

/-- The fields of a clean line. -/
theorem recordFields_row {fs : List (List α)} (hne : fs ≠ []) (hclean : ∀ f ∈ fs, D.Clean f)
    {n : Nat} (hn : fs.length ≤ n) (s : List α) :
    D.recordFields n (D.row fs ++ s) = some (fs, s) := by
  induction fs generalizing n with
  | nil => exact absurd rfl hne
  | cons f fs ih =>
    have hf := hclean f List.mem_cons_self
    cases n with
    | zero => simp at hn
    | succ n =>
      cases fs with
      | nil =>
        have hrow : D.row [f] ++ s = f ++ D.newline :: s := by simp [row]
        rw [hrow, recordFields, field_newline hf]
        rfl
      | cons g fs =>
        have hrest := ih (List.cons_ne_nil g fs)
          (fun x hx => hclean x (List.mem_cons_of_mem f hx)) (Nat.le_of_succ_le_succ hn)
        rw [row_cons_cons, List.append_assoc, List.cons_append, recordFields, field_delimiter hf]
        simp [hrest]

/-- A line is not skipped if a delimiter stands on it. -/
theorem skipBlankLines_delimiter (hnewline : D.newline ∉ f) (hcarriage : D.carriage ∉ f)
    (line s : List α) : D.skipBlankLines line (f ++ D.delimiter :: s) = line := by
  induction f with
  | nil =>
    simp [skipBlankLines, D.delimiter_ne_newline, D.delimiter_ne_carriage, D.delimiter_not_blank]
  | cons c f ih =>
    simp only [List.mem_cons, not_or] at hnewline hcarriage
    have hc : ¬(c = D.newline || c = D.carriage) = true := by
      simp [Ne.symm hnewline.1, Ne.symm hcarriage.1]
    rw [List.cons_append, skipBlankLines, if_neg hc, ih hnewline.2 hcarriage.2]
    exact ite_self line

/-- **A clean line of two fields or more is read back as it was written.** -/
theorem records_row_append {f g : List α} {fs : List (List α)}
    (hclean : ∀ x ∈ f :: g :: fs, D.Clean x) (n : Nat) (s : List α) :
    D.records (n + 1) (D.row (f :: g :: fs) ++ s) =
      (D.records n s).map ((f :: g :: fs) :: ·) := by
  have hf := hclean f List.mem_cons_self
  have hskip : D.skipBlankLines (D.row (f :: g :: fs) ++ s) (D.row (f :: g :: fs) ++ s) =
      D.row (f :: g :: fs) ++ s := by
    rw [row_cons_cons, List.append_assoc, List.cons_append]
    exact skipBlankLines_delimiter hf.noNewline hf.noCarriage _ _
  have hlen : (f :: g :: fs).length ≤ (D.row (f :: g :: fs) ++ s).length + 1 := by
    have hrow := length_le_length_row (D := D) (f :: g :: fs)
    rw [List.length_append]
    omega
  have hfields := recordFields_row (List.cons_ne_nil f (g :: fs)) hclean hlen s
  rw [records, hskip]
  cases htext : D.row (f :: g :: fs) ++ s with
  | nil => simp [row] at htext
  | cons c t =>
    rw [htext] at hfields
    simp only [hfields]
    cases hrest : D.records n s <;> simp [hrest]

/-- A text of clean lines is read back as it was written. -/
theorem read_rows {rows : List (List (List α))}
    (h : ∀ r ∈ rows, 2 ≤ r.length ∧ ∀ f ∈ r, D.Clean f) :
    D.read (rows.flatMap D.row) = some rows := by
  have hrun : ∀ n, rows.length < n → D.records n (rows.flatMap D.row) = some rows := by
    intro n hn
    induction rows generalizing n with
    | nil =>
      cases n with
      | zero => simp at hn
      | succ n => rfl
    | cons r rows ih =>
      obtain ⟨hlen, hclean⟩ := h r List.mem_cons_self
      match r, n, hlen with
      | f :: g :: fs, n + 1, _ =>
        have hrest := ih (fun r' hr' => h r' (List.mem_cons_of_mem _ hr')) n (by simpa using hn)
        rw [List.flatMap_cons, records_row_append hclean, hrest]
        rfl
  apply hrun
  have hlen : rows.length ≤ (rows.flatMap D.row).length := by
    clear h hrun
    induction rows with
    | nil => exact Nat.zero_le _
    | cons r rows ih =>
      have hrow : 1 ≤ (D.row r).length := by simp [row]
      rw [List.flatMap_cons, List.length_append, List.length_cons]
      omega
  omega

/-! ## What is read back was clean -/

theorem inField_raw (s : List α) :
    (∃ v, s = (D.inField s).text ++ v) ∧ D.delimiter ∉ (D.inField s).text ∧
      D.newline ∉ (D.inField s).text ∧ D.carriage ∉ (D.inField s).text := by
  induction s with
  | nil => simp [inField]
  | cons c s ih =>
    obtain ⟨⟨v, hv⟩, hdelimiter, hnewline, hcarriage⟩ := ih
    rw [inField]
    split_ifs with h₁ h₂ h₃
    · simp
    · simp
    · simp
    · refine ⟨⟨v, congrArg (c :: ·) hv⟩, ?_, ?_, ?_⟩
      · simpa [FieldEnd.push, Ne.symm h₁] using hdelimiter
      · simpa [FieldEnd.push, Ne.symm h₂] using hnewline
      · simpa [FieldEnd.push, Ne.symm h₃] using hcarriage

/-- What a quoted field is read from has its delimiters, and at least a quote more. -/
theorem inQuotedField_raw {s : List α} {afterQuote : Bool} {e : FieldEnd α}
    (h : D.inQuotedField afterQuote s = some e) :
    ∃ u v, s = u ++ v ∧ e.text.count D.delimiter = u.count D.delimiter ∧
      e.text.length < u.length + afterQuote.toNat := by
  induction s generalizing afterQuote e with
  | nil =>
    cases afterQuote with
    | false => cases h
    | true =>
      cases h
      exact ⟨[], [], rfl, rfl, Nat.one_pos⟩
  | cons c s ih =>
    cases afterQuote with
    | false =>
      rw [inQuotedField] at h
      split_ifs at h with hc
      · obtain ⟨u, v, rfl, hcount, hlen⟩ := ih h
        refine ⟨c :: u, v, rfl, ?_, ?_⟩
        · rw [hcount, hc, List.count_cons_of_ne (Ne.symm D.delimiter_ne_quote)]
        · simpa using hlen
      · obtain ⟨e', he', rfl⟩ := Option.map_eq_some_iff.mp h
        obtain ⟨u, v, rfl, hcount, hlen⟩ := ih he'
        refine ⟨c :: u, v, rfl, ?_, ?_⟩
        · simp [FieldEnd.push, List.count_cons, hcount]
        · simpa [FieldEnd.push] using hlen
    | true =>
      rw [inQuotedField] at h
      split_ifs at h with hc
      · obtain ⟨e', he', rfl⟩ := Option.map_eq_some_iff.mp h
        obtain ⟨u, v, rfl, hcount, hlen⟩ := ih he'
        refine ⟨c :: u, v, rfl, ?_, ?_⟩
        · simp [FieldEnd.push, List.count_cons, hcount]
        · simp only [FieldEnd.push, Bool.toNat_false, Bool.toNat_true, List.length_cons] at hlen ⊢
          omega
      · cases h
        obtain ⟨⟨v, hv⟩, -⟩ := inField_raw (D := D) (c :: s)
        exact ⟨_, v, hv, rfl, Nat.lt_succ_self _⟩

/-- What a field is read from has its delimiters; it is longer than the field, or it is the field
and clean. -/
theorem field_raw {s : List α} {e : FieldEnd α} (h : D.field s = some e) :
    ∃ u v, s = u ++ v ∧ e.text.count D.delimiter = u.count D.delimiter ∧
      (e.text.length < u.length ∨ e.text = u ∧ D.Clean u) := by
  by_cases hs : s.head? = some D.quote
  · obtain ⟨s, rfl⟩ : ∃ t, s = D.quote :: t := ⟨s.tail, (List.cons_head?_tail hs).symm⟩
    rw [field, if_pos rfl] at h
    obtain ⟨u, v, rfl, hcount, hlen⟩ := inQuotedField_raw h
    refine ⟨D.quote :: u, v, rfl, ?_, .inl ?_⟩
    · rw [hcount, List.count_cons_of_ne (Ne.symm D.delimiter_ne_quote)]
    · exact Nat.lt_succ_of_lt hlen
  · rw [field_eq_inField hs] at h
    cases h
    obtain ⟨⟨v, hv⟩, hdelimiter, hnewline, hcarriage⟩ := inField_raw (D := D) s
    refine ⟨_, v, hv, rfl, .inr ⟨rfl, hdelimiter, hnewline, hcarriage, ?_⟩⟩
    intro hhead
    apply hs
    rw [hv, List.head?_append, hhead]
    rfl

/-- **A field that is read back as it was written is clean**, and nothing was skipped in front of
it. -/
theorem clean_of_field {skipped q tail : List α} {e : FieldEnd α}
    (h : D.field (q ++ D.delimiter :: tail) = some e) (hskipped : D.delimiter ∉ skipped)
    (htext : e.text = skipped ++ q) : skipped = [] ∧ D.Clean q := by
  obtain ⟨u, v, huv, hcount, hu⟩ := field_raw h
  have hcount' : u.count D.delimiter = q.count D.delimiter := by
    rw [← hcount, htext, List.count_append, List.count_eq_zero_of_not_mem hskipped, Nat.zero_add]
  -- the piece does not reach beyond the delimiter, or it would have one more
  have hle : u.length ≤ q.length := by
    rcases List.append_eq_append_iff.mp huv with ⟨w, rfl, hw⟩ | ⟨w, rfl, -⟩
    · cases w with
      | nil => simp
      | cons c w =>
        have hc : D.delimiter = c := (List.cons.inj hw).1
        rw [← hc, List.count_append, List.count_cons_self] at hcount'
        omega
    · simp
  rcases hu with hlt | ⟨heq, hclean⟩
  · rw [htext, List.length_append] at hlt
    omega
  · rw [heq] at htext
    have hlen := congrArg List.length htext
    rw [List.length_append] at hlen
    have hnil : skipped = [] := List.length_eq_zero_iff.mp (by omega)
    subst hnil
    rw [List.nil_append] at htext
    exact ⟨rfl, htext ▸ hclean⟩

/-- What is skipped has no delimiter. -/
theorem skipBlankLines_suffix {line before s : List α} (hline : line = before ++ s)
    (hbefore : D.delimiter ∉ before) :
    ∃ skipped, line = skipped ++ D.skipBlankLines line s ∧ D.delimiter ∉ skipped := by
  induction s generalizing line before with
  | nil => exact ⟨before, hline, hbefore⟩
  | cons c s ih =>
    rw [skipBlankLines]
    split_ifs with h₁ h₂
    · have hc : D.delimiter ≠ c := by
        intro heq
        simp [← heq, D.delimiter_ne_newline, D.delimiter_ne_carriage] at h₁
      obtain ⟨skipped, hs, hskipped⟩ := ih (List.nil_append s).symm List.not_mem_nil
      refine ⟨before ++ c :: skipped, ?_, ?_⟩
      · rw [hline, List.append_assoc, List.cons_append, ← hs]
      · simp [hbefore, hskipped, hc]
    · have hc : D.delimiter ≠ c := by
        intro heq
        rw [← heq, D.delimiter_not_blank] at h₂
        cases h₂
      refine ih (show line = (before ++ [c]) ++ s from ?_) ?_
      · simp [hline]
      · simp [hbefore, hc]
    · exact ⟨[], rfl, List.not_mem_nil⟩

omit [DecidableEq α] in
/-- The first delimiter of a text stands behind what is skipped. -/
theorem exists_of_skipped {skipped s q tail : List α} (h : skipped ++ s = q ++ D.delimiter :: tail)
    (hskipped : D.delimiter ∉ skipped) :
    ∃ q', q = skipped ++ q' ∧ s = q' ++ D.delimiter :: tail := by
  rcases List.append_eq_append_iff.mp h with ⟨w, rfl, rfl⟩ | ⟨w, rfl, hw⟩
  · exact ⟨w, rfl, rfl⟩
  · cases w with
    | nil => exact ⟨[], by simp, by simpa using hw.symm⟩
    | cons c w =>
      have hc : D.delimiter = c := (List.cons.inj hw).1
      exact absurd (by simp [hc]) hskipped

theorem recordFields_cases {n : Nat} {s rest : List α} {fields : List (List α)}
    (h : D.recordFields n s = some (fields, rest)) :
    ∃ e, D.field s = some e ∧
      (e.more = true ∧ (∃ m others, D.recordFields m e.rest = some (others, rest) ∧
          fields = e.text :: others) ∨
        e.more = false ∧ fields = [e.text]) := by
  cases n with
  | zero => cases h
  | succ n =>
    rw [recordFields] at h
    obtain ⟨e, he, h⟩ := Option.bind_eq_some_iff.mp h
    refine ⟨e, he, ?_⟩
    cases hmore : e.more with
    | true =>
      rw [hmore, if_pos rfl] at h
      obtain ⟨⟨others, rest'⟩, hothers, h⟩ := Option.bind_eq_some_iff.mp h
      cases h
      exact .inl ⟨rfl, n, others, hothers, rfl⟩
    | false =>
      rw [hmore] at h
      cases h
      exact .inr ⟨rfl, rfl⟩

theorem records_cases {n : Nat} {s : List α} {r : List (List α)} {rs : List (List (List α))}
    (h : D.records n s = some (r :: rs)) :
    ∃ m rest k, D.recordFields m (D.skipBlankLines s s) = some (r, rest) ∧
      D.records k rest = some rs := by
  cases n with
  | zero => cases h
  | succ n =>
    rw [records] at h
    split at h
    · cases h
    · rename_i c t hskip
      obtain ⟨⟨fields, rest⟩, hfields, h⟩ := Option.bind_eq_some_iff.mp h
      obtain ⟨others, hothers, h⟩ := Option.bind_eq_some_iff.mp h
      cases h
      exact ⟨_, rest, n, hskip ▸ hfields, hothers⟩

/-- **If the first two fields of a record are read back, they are clean.** -/
theorem clean_of_records {n : Nat} {f g tail : List α} {r : List (List α)}
    {rs : List (List (List α))}
    (h : D.records n (f ++ D.delimiter :: (g ++ D.delimiter :: tail)) = some (r :: rs))
    (hf : r[0]? = some f) (hg : r[1]? = some g) : D.Clean f ∧ D.Clean g := by
  obtain ⟨m, rest, -, hfields, -⟩ := records_cases h
  obtain ⟨skipped, hs, hskipped⟩ := skipBlankLines_suffix (List.nil_append _).symm
    (D := D) (s := f ++ D.delimiter :: (g ++ D.delimiter :: tail)) List.not_mem_nil
  obtain ⟨f', hf', hrest⟩ := exists_of_skipped hs.symm hskipped
  rw [hrest] at hfields
  obtain ⟨e, he, hmore⟩ := recordFields_cases hfields
  have htext : e.text = f := by
    rcases hmore with ⟨-, _, _, -, rfl⟩ | ⟨-, rfl⟩ <;> simpa using hf
  obtain ⟨rfl, hclean⟩ := clean_of_field he hskipped (htext.trans hf')
  have hf'' : f = f' := by simpa using hf'
  subst hf''
  -- the first field is clean, so the second is read from where it was written
  rw [field_delimiter hclean] at he
  cases he
  rcases hmore with ⟨-, k, others, hothers, rfl⟩ | ⟨hend, -⟩
  · obtain ⟨e', he', hmore'⟩ := recordFields_cases hothers
    have htext' : e'.text = [] ++ g := by
      rcases hmore' with ⟨-, _, _, -, rfl⟩ | ⟨-, rfl⟩ <;> simpa using hg
    exact ⟨hclean, (clean_of_field he' List.not_mem_nil htext').2⟩
  · cases hend

/-! ## Counting delimiters -/

theorem count_afterCarriage (s : List α) :
    (D.afterCarriage s).count D.delimiter = s.count D.delimiter := by
  cases s with
  | nil => rfl
  | cons c s =>
    rw [afterCarriage]
    split_ifs with hc
    · rw [hc, List.count_cons_of_ne (Ne.symm D.delimiter_ne_newline)]
    · rfl

theorem count_inField (s : List α) :
    s.count D.delimiter = (D.inField s).text.count D.delimiter + (D.inField s).more.toNat +
      (D.inField s).rest.count D.delimiter := by
  induction s with
  | nil => rfl
  | cons c s ih =>
    rw [inField]
    split_ifs with h₁ h₂ h₃
    · simp [h₁, Nat.add_comm]
    · simp [h₂, Ne.symm D.delimiter_ne_newline]
    · simp [h₃, Ne.symm D.delimiter_ne_carriage, count_afterCarriage]
    · simpa [FieldEnd.push, List.count_cons, h₁] using ih

theorem count_inQuotedField {s : List α} {afterQuote : Bool} {e : FieldEnd α}
    (h : D.inQuotedField afterQuote s = some e) :
    s.count D.delimiter =
      e.text.count D.delimiter + e.more.toNat + e.rest.count D.delimiter := by
  -- a character that belongs to the field
  have hpush : ∀ {c : α} {s : List α} {e : FieldEnd α}, s.count D.delimiter =
      e.text.count D.delimiter + e.more.toNat + e.rest.count D.delimiter →
      (c :: s).count D.delimiter = (e.push c).text.count D.delimiter + (e.push c).more.toNat +
        (e.push c).rest.count D.delimiter := by
    intro c s e he
    simp only [FieldEnd.push, List.count_cons, he]
    omega
  induction s generalizing afterQuote e with
  | nil =>
    cases afterQuote with
    | false => cases h
    | true =>
      cases h
      rfl
  | cons c s ih =>
    cases afterQuote with
    | false =>
      rw [inQuotedField] at h
      split_ifs at h with hc
      · rw [hc, List.count_cons_of_ne (Ne.symm D.delimiter_ne_quote)]
        exact ih h
      · obtain ⟨e', he', rfl⟩ := Option.map_eq_some_iff.mp h
        exact hpush (ih he')
    | true =>
      rw [inQuotedField] at h
      split_ifs at h with hc
      · obtain ⟨e', he', rfl⟩ := Option.map_eq_some_iff.mp h
        exact hpush (ih he')
      · cases h
        exact count_inField (c :: s)

theorem count_field {s : List α} {e : FieldEnd α} (h : D.field s = some e) :
    s.count D.delimiter =
      e.text.count D.delimiter + e.more.toNat + e.rest.count D.delimiter := by
  by_cases hs : s.head? = some D.quote
  · obtain ⟨s, rfl⟩ : ∃ t, s = D.quote :: t := ⟨s.tail, (List.cons_head?_tail hs).symm⟩
    rw [field, if_pos rfl] at h
    rw [List.count_cons_of_ne (Ne.symm D.delimiter_ne_quote)]
    exact count_inQuotedField h
  · rw [field_eq_inField hs] at h
    cases h
    exact count_inField s

theorem count_recordFields {n : Nat} {s rest : List α} {fields : List (List α)}
    (h : D.recordFields n s = some (fields, rest)) :
    s.count D.delimiter + 1 =
      (fields.map (·.count D.delimiter)).sum + fields.length + rest.count D.delimiter := by
  induction n generalizing s fields with
  | zero => cases h
  | succ n ih =>
    rw [recordFields] at h
    obtain ⟨e, he, h⟩ := Option.bind_eq_some_iff.mp h
    have hcount := count_field he
    cases hmore : e.more with
    | true =>
      rw [hmore, if_pos rfl] at h
      obtain ⟨⟨others, rest'⟩, hothers, h⟩ := Option.bind_eq_some_iff.mp h
      cases h
      have hrest := ih hothers
      rw [hmore, Bool.toNat_true] at hcount
      rw [List.map_cons, List.sum_cons, List.length_cons]
      omega
    | false =>
      rw [hmore] at h
      cases h
      rw [hmore, Bool.toNat_false] at hcount
      rw [List.map_singleton, List.sum_singleton, List.length_singleton]
      omega

/-- Where nothing is read there is no delimiter. -/
theorem count_of_records_nil {n : Nat} {s : List α} (h : D.records n s = some []) :
    s.count D.delimiter = 0 := by
  obtain ⟨skipped, hs, hskipped⟩ := skipBlankLines_suffix (List.nil_append _).symm
    (D := D) (s := s) List.not_mem_nil
  cases n with
  | zero => cases h
  | succ n =>
    rw [records] at h
    split at h
    · rename_i hnil
      rw [hs, hnil, List.append_nil]
      exact List.count_eq_zero_of_not_mem hskipped
    · obtain ⟨⟨fields, rest⟩, -, h⟩ := Option.bind_eq_some_iff.mp h
      obtain ⟨others, -, h⟩ := Option.bind_eq_some_iff.mp h
      cases h

/-- **The delimiters of a text with one record** are those inside of its fields, and one between
each two of them. -/
theorem count_of_records {n : Nat} {s : List α} {r : List (List α)}
    (h : D.records n s = some [r]) :
    s.count D.delimiter + 1 = (r.map (·.count D.delimiter)).sum + r.length := by
  obtain ⟨m, rest, k, hfields, hrest⟩ := records_cases h
  obtain ⟨skipped, hs, hskipped⟩ := skipBlankLines_suffix (List.nil_append _).symm
    (D := D) (s := s) List.not_mem_nil
  have hcount := count_recordFields hfields
  have hskip := congrArg (List.count D.delimiter) hs
  rw [List.count_append, List.count_eq_zero_of_not_mem hskipped] at hskip
  have hnone := count_of_records_nil hrest
  omega

theorem count_row {fs : List (List α)} (hne : fs ≠ []) :
    (D.row fs).count D.delimiter + 1 = (fs.map (·.count D.delimiter)).sum + fs.length := by
  induction fs with
  | nil => exact absurd rfl hne
  | cons f fs ih =>
    cases fs with
    | nil => simp [row, Ne.symm D.delimiter_ne_newline]
    | cons g fs =>
      have hrest := ih (List.cons_ne_nil g fs)
      rw [row_cons_cons, List.count_append, List.count_cons_self, List.map_cons, List.sum_cons,
        List.length_cons]
      omega

/-- **If two neighbours of a line are read back**, wherever in the record, then the record has no
more fields than the line, provided that the other fields have no delimiter. -/
theorem length_le_of_records {n d : Nat} {f g : List α} {fs r : List (List α)}
    (h : D.records n (D.row (f :: g :: fs)) = some [r]) (hfs : ∀ x ∈ fs, D.delimiter ∉ x)
    (hf : r[d]? = some f) (hg : r[d + 1]? = some g) : r.length ≤ fs.length + 2 := by
  have hcount := count_of_records h
  have hrow := count_row (D := D) (List.cons_ne_nil f (g :: fs))
  have hzero : (fs.map (·.count D.delimiter)).sum = 0 := by
    rw [List.sum_eq_zero_iff_forall_eq_nat]
    intro x hx
    obtain ⟨y, hy, rfl⟩ := List.mem_map.mp hx
    exact List.count_eq_zero_of_not_mem (hfs y hy)
  obtain ⟨hlt, hget⟩ := List.getElem?_eq_some_iff.mp hf
  obtain ⟨hlt', hget'⟩ := List.getElem?_eq_some_iff.mp hg
  have hsplit : r = r.take d ++ f :: g :: r.drop (d + 2) := by
    conv_lhs => rw [← List.take_append_drop d r, List.drop_eq_getElem_cons hlt, hget,
      List.drop_eq_getElem_cons hlt', hget']
  have hsum := congrArg (fun r => (r.map (·.count D.delimiter)).sum) hsplit
  simp only [List.map_append, List.map_cons, List.sum_append, List.sum_cons] at hsum
  simp only [List.map_cons, List.sum_cons, List.length_cons] at hrow
  omega

end Dialect

end Csv
