import PredicateTransfer.StreamAccounting
import PredicateTransfer.Lib.Csv

/-!
# Metrics from the engine to the model

The probe operator appends its metrics to a file, one line for each filter, under a header. Python
reads the file and trains on it. The engine writes every field as it is; the reader takes commas,
line ends and a leading quote for structure.

**Theorem (`handsOver_iff`).** A line is read back with the names and counters that were written if
and only if neither name has a comma or a line end, or starts with a quote, and the reader keeps
both as texts. A column that is named by the expression it computes, such as `coalesce(a.k,b.k)`,
does not survive.

The reader is any one that splits the text by these rules (`CsvReader`). What it makes of a field is
its own: a data frame takes `07` for a number, and an empty name or `NA` for a missing value. Fields
in excess of the header it may take for an index of the line, which moves all others to the left.
-/

namespace PredicateTransfer

open Csv Csv.Dialect

/-! ## The engine's side -/

/-- Rounding to the nearest whole number, ties to the even one. -/
def roundHalfEven (x : ℚ) : Nat :=
  let floor := x.floor.toNat
  let rest := x - floor
  if rest < 1 / 2 then floor
  else if 1 / 2 < rest then floor + 1
  else if floor % 2 = 0 then floor
  else floor + 1

/-- Four digits of a number below ten thousand. -/
def fourDigits (n : Nat) : String :=
  toString (n / 1000 % 10) ++ toString (n / 100 % 10) ++ toString (n / 10 % 10) ++
    toString (n % 10)

/-- `format!("{:.4}", x)`. -/
def formatFixed4 (x : ℚ) : String :=
  let scaled := roundHalfEven (|x| * 10000)
  (if x < 0 then "-" else "") ++ toString (scaled / 10000) ++ "." ++ fourDigits scaled

namespace FilterMetrics

variable (m : FilterMetrics)

def netBenefitMs : ℚ :=
  let scanMsPerRow : ℚ := 1 / 1000
  let savedMs := m.rowsEliminated * scanMsPerRow
  savedMs - m.buildTimeMs - m.probeTimeMs

def wasBeneficial : Nat := if 0 < m.netBenefitMs then 1 else 0

/-- The numbers of a line, behind the two names. -/
def numbers : List String :=
  [toString m.buildCardinality, toString m.distinctEstimate, toString m.filterSizeBytes,
    formatFixed4 m.buildTimeMs, toString m.probeBatches, toString m.rowsIn, toString m.rowsOut,
    toString m.rowsEliminated, formatFixed4 m.probeTimeMs, formatFixed4 m.netBenefitMs,
    toString m.wasBeneficial]

/-- The thirteen places of the format string. -/
def csvFields : List String := m.queryId :: m.colName :: m.numbers

def toCsvRow : String := ",".intercalate m.csvFields ++ "\n"

end FilterMetrics

def metricsColumns : List String :=
  ["query_id", "col_name", "build_cardinality", "distinct_estimate", "filter_size_bytes",
    "build_time_ms", "probe_batches", "rows_in", "rows_out", "rows_eliminated", "probe_time_ms",
    "net_benefit_ms", "was_beneficial"]

/-- `write_metrics`: what the file holds afterwards. The header is written to a file that is missing
or empty. -/
def writeMetrics (file : Option String) (metrics : FilterMetrics) : String :=
  let writeHeader := file.all (· == "")
  file.getD "" ++ (if writeHeader then ",".intercalate metricsColumns ++ "\n" else "") ++
    metrics.toCsvRow

/-! ## Python's side -/

/-- Comma separated, with double quotes. -/
def commaSeparated : Dialect Char where
  delimiter := ','
  quote := '"'
  newline := '\n'
  carriage := '\r'
  blank c := c == ' ' || c == '\t'
  delimiter_ne_quote := by decide
  delimiter_ne_newline := by decide
  delimiter_ne_carriage := by decide
  newline_ne_quote := by decide
  delimiter_not_blank := by decide

/-- The records of a text, by the texts of their fields. -/
def csvRecords (text : String) : Option (List (List String)) :=
  (commaSeparated.read text.toList).map (·.map (·.map String.ofList))

/-- A reader such as `pandas.read_csv`, by what is assumed of it on files with the header of
`write_metrics`. -/
structure CsvReader where
  Cell : Type
  text : String → Cell
  number : Nat → Cell
  missing : Cell
  /-- What becomes of a field that is alone in its column. -/
  convert : String → Cell
  /-- The names of the columns, and the records below them. -/
  read : String → Option (List String × List (List Cell))
  /-- A line with a field for every column. -/
  read_eq : ∀ {file fields}, csvRecords file = some [metricsColumns, fields] →
    fields.length = metricsColumns.length →
      read file = some (metricsColumns, [fields.map convert])
  /-- One record comes from one line. If the line has more fields than the header, the first of
  them may be taken for an index; what is added at the end is missing. -/
  of_read : ∀ {file record}, read file = some (metricsColumns, [record]) →
    ∃ fields index k, csvRecords file = some [metricsColumns, fields] ∧
      index ≤ fields.length - metricsColumns.length ∧
      record = (fields.drop index).map convert ++ List.replicate k missing
  /-- A field that stays a text stays the same. -/
  eq_of_convert_eq_text : ∀ {s t}, convert s = text t → s = t
  missing_ne_text : ∀ t, missing ≠ text t
  convert_number : ∀ n < 2 ^ 64, convert (toString n) = number n

/-- The field stays a text. -/
def CsvReader.KeepsText (R : CsvReader) (s : String) : Prop := R.convert s = R.text s

/-- A field of a record, by its column. -/
def csvField {γ : Type} (record : List γ) (column : String) : Option γ :=
  (metricsColumns.zip record).lookup column

/-- The counters, by their columns. -/
def FilterMetrics.counters (m : FilterMetrics) : List (String × Nat) :=
  [("build_cardinality", m.buildCardinality), ("distinct_estimate", m.distinctEstimate),
    ("filter_size_bytes", m.filterSizeBytes), ("probe_batches", m.probeBatches),
    ("rows_in", m.rowsIn), ("rows_out", m.rowsOut), ("rows_eliminated", m.rowsEliminated)]

/-- The counters are machine words. -/
def FilterMetrics.InRange (m : FilterMetrics) : Prop := ∀ x ∈ m.counters, x.2 < 2 ^ 64

/-- The line comes back as one record of thirteen fields, with its names and counters. -/
def FilterMetrics.HandsOver (m : FilterMetrics) (R : CsvReader) : Prop :=
  ∃ record, R.read (writeMetrics none m) = some (metricsColumns, [record]) ∧ record.length = 13 ∧
    csvField record "query_id" = some (R.text m.queryId) ∧
    csvField record "col_name" = some (R.text m.colName) ∧
    ∀ x ∈ m.counters, csvField record x.1 = some (R.number x.2)

/-! ## Lines -/

theorem toList_comma : ",".toList = [commaSeparated.delimiter] := by decide

theorem toList_line (fields : List String) :
    (",".intercalate fields ++ "\n").toList = commaSeparated.row (fields.map String.toList) := by
  rw [String.toList_append, String.toList_intercalate, toList_comma]
  rfl

theorem FilterMetrics.toList_toCsvRow (m : FilterMetrics) :
    m.toCsvRow.toList = commaSeparated.row (m.csvFields.map String.toList) :=
  toList_line m.csvFields

theorem clean_of_numeric {f : List Char}
    (h : ∀ c ∈ f, c.isDigit = true ∨ c = '.' ∨ c = '-') : commaSeparated.Clean f where
  noDelimiter hc := by
    have hmem := h _ hc
    revert hmem
    decide
  noNewline hc := by
    have hmem := h _ hc
    revert hmem
    decide
  noCarriage hc := by
    have hmem := h _ hc
    revert hmem
    decide
  notQuoted hc := by
    have hmem := h _ (List.mem_of_head? hc)
    revert hmem
    decide

theorem isDigit_of_mem_toString {n : Nat} {c : Char} (h : c ∈ (toString n).toList) :
    c.isDigit = true := by
  have hdigits : (toString n).toList = Nat.toDigits 10 n := Nat.toList_repr
  rw [hdigits] at h
  exact Nat.isDigit_of_mem_toDigits (by decide) (by decide) h

theorem clean_toString (n : Nat) : commaSeparated.Clean (toString n).toList :=
  clean_of_numeric fun _ h => .inl (isDigit_of_mem_toString h)

theorem clean_formatFixed4 (x : ℚ) : commaSeparated.Clean (formatFixed4 x).toList := by
  apply clean_of_numeric
  intro c hc
  simp only [formatFixed4, fourDigits, String.toList_append, List.mem_append] at hc
  rcases hc with ((hsign | hwhole) | hpoint) | ((h₁ | h₂) | h₃) | h₄
  · split at hsign
    · exact .inr (.inr (List.mem_singleton.mp hsign))
    · cases hsign
  · exact .inl (isDigit_of_mem_toString hwhole)
  · exact .inr (.inl (List.mem_singleton.mp hpoint))
  · exact .inl (isDigit_of_mem_toString h₁)
  · exact .inl (isDigit_of_mem_toString h₂)
  · exact .inl (isDigit_of_mem_toString h₃)
  · exact .inl (isDigit_of_mem_toString h₄)

theorem FilterMetrics.clean_numbers (m : FilterMetrics) :
    ∀ s ∈ m.numbers, commaSeparated.Clean s.toList := by
  simp only [numbers, List.forall_mem_cons, clean_toString, clean_formatFixed4,
    List.not_mem_nil, false_implies, implies_true, and_self]

theorem clean_map {fields : List String} (h : ∀ s ∈ fields, commaSeparated.Clean s.toList) :
    ∀ f ∈ fields.map String.toList, commaSeparated.Clean f := by
  intro f hf
  obtain ⟨s, hs, rfl⟩ := List.mem_map.mp hf
  exact h s hs

theorem clean_metricsColumns : ∀ s ∈ metricsColumns, commaSeparated.Clean s.toList := by
  decide

/-- Both names can be written as they are. -/
structure FilterMetrics.CleanNames (m : FilterMetrics) : Prop where
  queryId : commaSeparated.Clean m.queryId.toList
  colName : commaSeparated.Clean m.colName.toList

theorem FilterMetrics.CleanNames.csvFields {m : FilterMetrics} (h : m.CleanNames) :
    ∀ s ∈ m.csvFields, commaSeparated.Clean s.toList := by
  intro s hs
  rcases List.mem_cons.mp hs with rfl | hs
  · exact h.queryId
  · rcases List.mem_cons.mp hs with rfl | hs
    · exact h.colName
    · exact m.clean_numbers s hs

/-! ## Appending -/

/-- Lines are appended to a file that has some. -/
theorem writeMetrics_some {text : String} (h : text ≠ "") (m : FilterMetrics) :
    writeMetrics (some text) m = text ++ m.toCsvRow := by
  simp [writeMetrics, h]

/-- The file after a run of writes. -/
def writeAll (file : Option String) (ms : List FilterMetrics) : Option String :=
  ms.foldl (fun file m => some (writeMetrics file m)) file

theorem writeAll_some {text : String} (h : text ≠ "") (ms : List FilterMetrics) :
    ∃ text', writeAll (some text) ms = some text' ∧
      text'.toList = text.toList ++
        (ms.map fun m => m.csvFields.map String.toList).flatMap commaSeparated.row := by
  induction ms generalizing text with
  | nil => exact ⟨text, rfl, by simp⟩
  | cons m ms ih =>
    have hne : text ++ m.toCsvRow ≠ "" := by
      intro heq
      apply h
      rw [← String.toList_inj] at heq ⊢
      rw [String.toList_append] at heq
      exact (List.append_eq_nil_iff.mp heq).1
    obtain ⟨text', hrun, htext'⟩ := ih hne
    refine ⟨text', ?_, ?_⟩
    · rw [← hrun, ← writeMetrics_some h]
      rfl
    · rw [htext', String.toList_append, FilterMetrics.toList_toCsvRow]
      simp

/-- The text of a file that was missing before. -/
theorem toList_writeMetrics_none (m : FilterMetrics) :
    (writeMetrics none m).toList =
      commaSeparated.row (metricsColumns.map String.toList) ++
        commaSeparated.row (m.csvFields.map String.toList) := by
  have hwrite : writeMetrics none m =
      "" ++ (",".intercalate metricsColumns ++ "\n") ++ m.toCsvRow := rfl
  rw [hwrite, String.toList_append, String.toList_append, toList_line, m.toList_toCsvRow]
  rfl

theorem map_ofList_toList (records : List (List String)) :
    (records.map (·.map String.toList)).map (·.map String.ofList) = records := by
  simp [Function.comp_def]

/-- **Every run of writes with clean names is read back**, a record for each line, in order. -/
theorem csvRecords_writeAll {m : FilterMetrics} {ms : List FilterMetrics}
    (h : ∀ m' ∈ m :: ms, m'.CleanNames) :
    ((writeAll none (m :: ms)).bind csvRecords) =
      some (metricsColumns :: (m :: ms).map (·.csvFields)) := by
  have hne : writeMetrics none m ≠ "" := by
    intro heq
    have hnil := congrArg String.toList heq
    rw [toList_writeMetrics_none] at hnil
    simp [row] at hnil
  obtain ⟨text, hrun, htext⟩ := writeAll_some hne ms
  have hwrite : writeAll none (m :: ms) = some text := hrun
  have hrows : text.toList =
      ((metricsColumns :: (m :: ms).map (·.csvFields)).map (·.map String.toList)).flatMap
        commaSeparated.row := by
    rw [htext, toList_writeMetrics_none]
    simp [Function.comp_def]
  have hclean : ∀ r ∈ (metricsColumns :: (m :: ms).map (·.csvFields)).map (·.map String.toList),
      2 ≤ r.length ∧ ∀ f ∈ r, commaSeparated.Clean f := by
    intro r hr
    obtain ⟨fields, hfields, rfl⟩ := List.mem_map.mp hr
    rcases List.mem_cons.mp hfields with rfl | hfields
    · exact ⟨by decide, clean_map clean_metricsColumns⟩
    · obtain ⟨m', hm', rfl⟩ := List.mem_map.mp hfields
      exact ⟨by simp [FilterMetrics.csvFields], clean_map (h m' hm').csvFields⟩
  rw [hwrite, Option.bind_some, csvRecords, hrows, read_rows hclean, Option.map_some,
    map_ofList_toList]

/-! ## One line -/

theorem csvRecords_writeMetrics {m : FilterMetrics} (h : m.CleanNames) :
    csvRecords (writeMetrics none m) = some [metricsColumns, m.csvFields] := by
  have hread := csvRecords_writeAll (show ∀ m' ∈ m :: [], m'.CleanNames by simpa using h)
  have hwrite : writeAll none [m] = some (writeMetrics none m) := rfl
  rw [hwrite, Option.bind_some] at hread
  rw [hread]
  rfl

theorem FilterMetrics.counters_csvFields (m : FilterMetrics) {γ : Type} (f : String → γ) :
    ∀ x ∈ m.counters, csvField (m.csvFields.map f) x.1 = some (f (toString x.2)) := by
  simp only [counters, List.forall_mem_cons]
  exact ⟨rfl, rfl, rfl, rfl, rfl, rfl, rfl, by simp⟩

theorem FilterMetrics.CleanNames.handsOver {m : FilterMetrics} {R : CsvReader} (h : m.CleanNames)
    (hrange : m.InRange) (hquery : R.KeepsText m.queryId) (hcol : R.KeepsText m.colName) :
    m.HandsOver R := by
  refine ⟨_, R.read_eq (csvRecords_writeMetrics h) rfl, rfl, congrArg some hquery,
    congrArg some hcol, fun x hx => ?_⟩
  rw [m.counters_csvFields R.convert x hx, R.convert_number x.2 (hrange x hx)]

theorem csvField_queryId {γ : Type} (record : List γ) :
    csvField record "query_id" = record[0]? := by
  cases record with
  | nil => rfl
  | cons a record => rfl

theorem csvField_colName {γ : Type} (record : List γ) :
    csvField record "col_name" = record[1]? := by
  match record with
  | [] => rfl
  | [_] => rfl
  | _ :: _ :: _ => rfl

/-- A text in a record is that field of the line, and was kept. -/
theorem CsvReader.keepsText_of_getElem? {R : CsvReader} {fields : List String} {k i : Nat}
    {s : String}
    (h : (fields.map R.convert ++ List.replicate k R.missing)[i]? = some (R.text s)) :
    fields[i]? = some s ∧ R.KeepsText s := by
  by_cases hi : i < fields.length
  · rw [List.getElem?_append_left (by simpa using hi), List.getElem?_map] at h
    obtain ⟨t, ht, hconvert⟩ := Option.map_eq_some_iff.mp h
    obtain rfl := R.eq_of_convert_eq_text hconvert
    exact ⟨ht, hconvert⟩
  · rw [List.getElem?_append_right (by simpa using hi)] at h
    have hmem := List.eq_of_mem_replicate (List.mem_of_getElem? h)
    exact absurd hmem.symm (R.missing_ne_text s)

theorem getElem?_of_map_ofList {r : List (List Char)} {i : Nat} {s : String}
    (h : (r.map String.ofList)[i]? = some s) : r[i]? = some s.toList := by
  rw [List.getElem?_map] at h
  obtain ⟨l, hl, rfl⟩ := Option.map_eq_some_iff.mp h
  rw [hl, String.toList_ofList]

/-- Behind the header the reader is left with the line. -/
theorem records_of_csvRecords {m : FilterMetrics} {fields : List String}
    (h : csvRecords (writeMetrics none m) = some [metricsColumns, fields]) :
    ∃ n r, commaSeparated.records n (commaSeparated.row (m.csvFields.map String.toList)) =
      some [r] ∧ fields = r.map String.ofList := by
  obtain ⟨raw, hraw, hrecords⟩ := Option.map_eq_some_iff.mp h
  rw [Dialect.read, toList_writeMetrics_none] at hraw
  have hheader := (records_row_append (clean_map clean_metricsColumns) _ _).symm.trans hraw
  obtain ⟨rs, hrs, rfl⟩ := Option.map_eq_some_iff.mp hheader
  obtain ⟨-, hrs'⟩ := List.cons.inj hrecords
  obtain ⟨r, rs, rfl, hr, hnil⟩ := List.map_eq_cons_iff.mp hrs'
  rw [List.map_eq_nil_iff.mp hnil] at hrs
  exact ⟨_, r, hrs, hr.symm⟩

/-- A line of which two names are read back has no field in excess. -/
theorem FilterMetrics.length_le_of_csvRecords {m : FilterMetrics} {fields : List String}
    {index : Nat} (h : csvRecords (writeMetrics none m) = some [metricsColumns, fields])
    (hquery : fields[index]? = some m.queryId) (hcol : fields[index + 1]? = some m.colName) :
    fields.length ≤ metricsColumns.length := by
  obtain ⟨n, r, hrecords, rfl⟩ := records_of_csvRecords h
  rw [List.length_map]
  refine length_le_of_records hrecords (fun f hf => ?_) (getElem?_of_map_ofList hquery)
    (getElem?_of_map_ofList hcol)
  exact (clean_map m.clean_numbers f hf).noDelimiter

/-- Two names that are read back are clean. -/
theorem FilterMetrics.cleanNames_of_csvRecords {m : FilterMetrics} {fields : List String}
    (h : csvRecords (writeMetrics none m) = some [metricsColumns, fields])
    (hquery : fields[0]? = some m.queryId) (hcol : fields[1]? = some m.colName) :
    m.CleanNames := by
  obtain ⟨n, r, hrecords, rfl⟩ := records_of_csvRecords h
  rw [csvFields, numbers, List.map_cons, List.map_cons, List.map_cons, row_cons_cons,
    row_cons_cons] at hrecords
  obtain ⟨hq, hc⟩ := clean_of_records hrecords (getElem?_of_map_ofList hquery)
    (getElem?_of_map_ofList hcol)
  exact ⟨hq, hc⟩

theorem FilterMetrics.HandsOver.names {m : FilterMetrics} {R : CsvReader} (h : m.HandsOver R) :
    m.CleanNames ∧ R.KeepsText m.queryId ∧ R.KeepsText m.colName := by
  obtain ⟨record, hread, -, hquery, hcol, -⟩ := h
  obtain ⟨fields, index, k, hfields, hindex, rfl⟩ := R.of_read hread
  rw [csvField_queryId] at hquery
  rw [csvField_colName] at hcol
  obtain ⟨hquery, hkeptQuery⟩ := R.keepsText_of_getElem? hquery
  obtain ⟨hcol, hkeptCol⟩ := R.keepsText_of_getElem? hcol
  rw [List.getElem?_drop] at hquery hcol
  -- the names are found again, so nothing was taken for an index
  have hle := length_le_of_csvRecords hfields hquery hcol
  obtain rfl : index = 0 := Nat.le_zero.mp (hindex.trans_eq (Nat.sub_eq_zero_of_le hle))
  rw [Nat.zero_add] at hquery hcol
  exact ⟨cleanNames_of_csvRecords hfields hquery hcol, hkeptQuery, hkeptCol⟩

/-- **The hand-over works for clean names that the reader keeps, and for no others.** -/
theorem FilterMetrics.handsOver_iff (m : FilterMetrics) (hrange : m.InRange) (R : CsvReader) :
    m.HandsOver R ↔ m.CleanNames ∧ R.KeepsText m.queryId ∧ R.KeepsText m.colName := by
  constructor
  · intro h
    exact h.names
  · rintro ⟨hclean, hquery, hcol⟩
    exact hclean.handsOver hrange hquery hcol

/-! ### A reader that converts -/

inductive Cell where
  | missing
  | number (n : Nat)
  | text (s : String)
  deriving DecidableEq, Repr

/-- Digits are a number, and two texts stand for nothing. -/
def Cell.convert (s : String) : Cell :=
  if s = "" ∨ s = "NA" then .missing
  else if s.toList.all Char.isDigit then .number (Nat.ofDigitChars 10 s.toList 0)
  else .text s

theorem Cell.eq_of_convert_eq_text {s t : String} (h : Cell.convert s = .text t) : s = t := by
  unfold Cell.convert at h
  split_ifs at h
  exact Cell.text.inj h

theorem Cell.convert_toString (n : Nat) : Cell.convert (toString n) = .number n := by
  have hdigits : (toString n).toList = Nat.toDigits 10 n := Nat.toList_repr
  have hall : (toString n).toList.all Char.isDigit = true := by
    rw [List.all_eq_true]
    intro c hc
    exact isDigit_of_mem_toString hc
  have hne : ¬(toString n = "" ∨ toString n = "NA") := by
    rintro (h | h)
    · have hnil := congrArg String.toList h
      rw [hdigits] at hnil
      exact Nat.toDigits_ne_nil hnil
    · rw [h] at hall
      revert hall
      decide
  rw [Cell.convert, if_neg hne, if_pos hall, hdigits, Nat.ofDigitChars_ten_toDigits]

/-- The cells under the header. Fields in excess are an index. -/
def readCells (file : String) : Option (List String × List (List Cell)) :=
  match csvRecords file with
  | some (header :: records) => some (header, records.map fun fields =>
      (fields.drop (fields.length - header.length)).map Cell.convert)
  | _ => none

theorem of_readCells {file : String} {header : List String} {record : List Cell}
    (h : readCells file = some (header, [record])) :
    ∃ fields index k, csvRecords file = some [header, fields] ∧
      index ≤ fields.length - header.length ∧
      record = (fields.drop index).map Cell.convert ++ List.replicate k Cell.missing := by
  unfold readCells at h
  split at h
  · rename_i header' records hrecords
    obtain ⟨rfl, hmap⟩ := Prod.mk.inj (Option.some.inj h)
    obtain ⟨fields, rest, rfl, rfl, hnil⟩ := List.map_eq_cons_iff.mp hmap
    rw [List.map_eq_nil_iff.mp hnil] at hrecords
    exact ⟨fields, _, 0, hrecords, le_rfl, (List.append_nil _).symm⟩
  · cases h

theorem readCells_eq {file : String} {header fields : List String}
    (h : csvRecords file = some [header, fields]) (hlength : fields.length = header.length) :
    readCells file = some (header, [fields.map Cell.convert]) := by
  rw [readCells, h]
  simp only [List.map_singleton, hlength, Nat.sub_self, List.drop_zero]

def convertingReader : CsvReader where
  Cell := Cell
  text := .text
  number := .number
  missing := .missing
  convert := Cell.convert
  read := readCells
  read_eq := readCells_eq
  of_read := of_readCells
  eq_of_convert_eq_text := Cell.eq_of_convert_eq_text
  missing_ne_text _ h := by cases h
  convert_number n _ := Cell.convert_toString n

/-- A filter on a column that is named by its expression. -/
def coalesceMetrics : FilterMetrics where
  queryId := "q07"
  colName := "coalesce(a.k,b.k)"
  buildCardinality := 25
  distinctEstimate := 20
  filterSizeBytes := 32
  buildTimeMs := 3 / 2
  probeBatches := 4
  rowsIn := 30000
  rowsOut := 1000
  rowsEliminated := 29000
  probeTimeMs := 2

/-- One on a plain column. -/
def orderkeyMetrics : FilterMetrics := { coalesceMetrics with colName := "l_orderkey" }

theorem orderkeyMetrics_inRange : orderkeyMetrics.InRange := by
  unfold FilterMetrics.InRange
  decide

/-- The same filter, on a column that is named by a number. -/
def numberedMetrics : FilterMetrics := { coalesceMetrics with colName := "07" }

theorem orderkeyMetrics_handsOver :
    orderkeyMetrics.HandsOver convertingReader ∧ ¬numberedMetrics.HandsOver convertingReader := by
  constructor
  · have hclean : orderkeyMetrics.CleanNames := ⟨by decide, by decide⟩
    have hquery : Cell.convert "q07" = .text "q07" := by decide
    have hcol : Cell.convert "l_orderkey" = .text "l_orderkey" := by decide
    exact (orderkeyMetrics.handsOver_iff orderkeyMetrics_inRange convertingReader).2
      ⟨hclean, hquery, hcol⟩
  · intro h
    have hcol : Cell.convert "07" = .text "07" := h.names.2.2
    revert hcol
    decide

/-- The comma splits the name, and the line has a field more than the header. Whatever a reader
makes of that, it does not bring the name back. -/
theorem coalesceMetrics_not_handsOver :
    (∀ R : CsvReader, ¬coalesceMetrics.HandsOver R) ∧
      csvRecords (writeMetrics none coalesceMetrics) = some [metricsColumns,
        ["q07", "coalesce(a.k", "b.k)", "25", "20", "32", "1.5000", "4", "30000", "1000", "29000",
          "2.0000", "25.5000", "1"]] := by
  constructor
  · intro R h
    exact absurd h.names.1.colName (by decide)
  · rw [csvRecords, toList_writeMetrics_none]
    decide +kernel

end PredicateTransfer
