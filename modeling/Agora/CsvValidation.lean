import Agora.CssValidation
import Agora.CsvReading

/-!
# The validation of CSV

`_validate_csv` reads the staged bytes of a part once more, as records.  A wrapper counts the
bytes of the lines that the reader pulls, and the loop over the rows measures each record by
the difference of two counts.  It accepts exactly the texts whose records are within the
limits, as wide as the first one, not empty and not HTML.
-/

namespace Agora

/-! ## The text of a part -/

/-- The strict decoding of bytes that may start with a byte order mark. -/
def decodeMarked (bytes : Bytes) : Option Text :=
  match Utf8.MarkedDecoder.initial.feed bytes with
  | some (decoder, text) => if decoder.mayEnd = true then some text else none
  | none => none

/-- `_HTML_LOOKS_LIKE_RE`. -/
def htmlLooksLike : TextPattern :=
  .all [.textStart, patternSpaces,
    .any [
      .all [patternWord "<!doctype", .one isPythonSpace, patternSpaces, patternWord "html",
        .wordEdge],
      .both (patternWord "<html") .wordEdge,
      .both (patternWord "<head") .wordEdge,
      .both (patternWord "<body") .wordEdge,
      .both (patternWord "<script") .wordEdge]]

/-! ## The loop over the rows -/

/-- What the loop over the rows keeps. -/
structure CsvProgress where
  rowCount : ℕ
  previousRecordEnd : ℕ
  expectedFields : Option ℕ
  sawValue : Bool
  opening : Text

def CsvProgress.initial : CsvProgress :=
  ⟨0, 0, none, false, []⟩

/-- `"\n".join(row)`. -/
def joinRow (row : List Text) : Text :=
  ['\n'].intercalate row

section Validation

variable (tables : UploadTables) (limits : UploadLimits) (index : ℕ)

/-- The body of the loop, for a row and the bytes that have been pulled so far. -/
def CsvProgress.inspect (progress : CsvProgress) (row : List Text) (byteCount : ℕ) :
    Except UploadIssue CsvProgress := do
  refuse (limits.maxCsvRows < progress.rowCount + 1) ⟨.csvTooManyRows, some index, none⟩
  refuse (limits.maxCsvRecordBytes < byteCount - progress.previousRecordEnd)
    ⟨.csvRecordTooLarge, some index, none⟩
  refuse (limits.maxCsvFields < row.length) ⟨.csvTooManyFields, some index, none⟩
  refuse (row ≠ [] ∧ ∃ expected ∈ progress.expectedFields, row.length ≠ expected)
    ⟨.csvMalformed, some index, none⟩
  refuse (∃ field ∈ row, limits.maxCsvFieldBytes < utf8Length field)
    ⟨.csvFieldTooLarge, some index, none⟩
  .ok {
    rowCount := progress.rowCount + 1
    previousRecordEnd := byteCount
    expectedFields :=
      if row = [] then progress.expectedFields
      else some (progress.expectedFields.getD row.length)
    sawValue := progress.sawValue || row.any (fun field => !field.isEmpty)
    opening := progress.opening ++ (joinRow row).take (512 - progress.opening.length) }

/-- `csv.field_size_limit` of the validator. -/
def csvFieldLimit : ℕ :=
  max 1 (max limits.maxFileBytes limits.maxCsvFieldBytes)

/-- The reader pulls one line after another; a line that ends a record is followed by the body
of the loop, and an error of the reader ends the loop. -/
def inspectLines (reader : Csv.Reader) (progress : CsvProgress) (byteCount : ℕ) :
    List Text → Except UploadIssue CsvProgress
  | [] => do
      refuse (reader.mayEnd = false) ⟨.csvMalformed, some index, none⟩
      .ok progress
  | line :: rest =>
      match reader.readLine (csvFieldLimit limits) line with
      | none => .error ⟨.csvMalformed, some index, none⟩
      | some next =>
          if next.state = .startRecord then do
            let inspected ←
              progress.inspect limits index next.fields (byteCount + utf8Length line)
            inspectLines .initial inspected (byteCount + utf8Length line) rest
          else inspectLines next progress (byteCount + utf8Length line) rest

/-- `_validate_csv` of the decoded text. -/
def validateCsvText (text : Text) : Except UploadIssue PUnit := do
  refuse (Csv.acceptsFieldLimit (csvFieldLimit limits) = false) ⟨.csvMalformed, some index, none⟩
  let progress ← inspectLines limits index .initial .initial 0 (Csv.splitLines text)
  refuse (progress.sawValue = false) ⟨.emptyFile, some index, none⟩
  refuse (htmlLooksLike.occursIn tables.isWord progress.opening = true)
    ⟨.mediaTypeMismatch, some index, none⟩

/-- `_validate_csv`. -/
def validateCsv (bytes : Bytes) : Except UploadIssue PUnit :=
  match decodeMarked bytes with
  | none => .error ⟨.invalidUtf8, some index, none⟩
  | some text => validateCsvText tables limits index text

end Validation

/-! ## The specification -/

/-- The first record that is not blank. -/
def firstFilled (records : List Csv.Record) : Option Csv.Record :=
  records.find? fun record => record.fields ≠ []

/-- The records of a text are within the limits, inclusively, and equally wide. -/
structure RecordsWithin (limits : UploadLimits) (records : List Csv.Record) : Prop where
  rows : records.length ≤ limits.maxCsvRows
  recordBytes : ∀ record ∈ records, utf8Length record.text ≤ limits.maxCsvRecordBytes
  fields : ∀ record ∈ records, record.fields.length ≤ limits.maxCsvFields
  widths : ∀ record ∈ records, record.fields ≠ [] →
    ∀ first ∈ firstFilled records, record.fields.length = first.fields.length
  fieldBytes : ∀ record ∈ records, ∀ field ∈ record.fields,
    utf8Length field ≤ limits.maxCsvFieldBytes

/-- What the accepted CSV texts are. -/
structure AcceptableCsv (tables : UploadTables) (limits : UploadLimits) (text : Text) : Prop where
  parsed : Csv.parses (csvFieldLimit limits) text = true
  within : RecordsWithin limits (Csv.records (csvFieldLimit limits) text)
  filled : ∃ record ∈ Csv.records (csvFieldLimit limits) text, ∃ field ∈ record.fields, field ≠ []
  plain : htmlLooksLike.occursIn tables.isWord
    (((Csv.records (csvFieldLimit limits) text).flatMap fun record =>
      joinRow record.fields).take 512) = false

section Acceptance

variable {tables : UploadTables} {limits : UploadLimits} {index byteCount : ℕ}
  {progress last : CsvProgress} {text : Text}

theorem utf8Length_append (first second : Text) :
    utf8Length (first ++ second) = utf8Length first + utf8Length second := by
  simp [utf8Length]

/-! ## One row -/

/-- The progress after a row that is accepted. -/
def CsvProgress.after (progress : CsvProgress) (row : List Text) (byteCount : ℕ) :
    CsvProgress where
  rowCount := progress.rowCount + 1
  previousRecordEnd := byteCount
  expectedFields :=
    if row = [] then progress.expectedFields
    else some (progress.expectedFields.getD row.length)
  sawValue := progress.sawValue || row.any (fun field => !field.isEmpty)
  opening := progress.opening ++ (joinRow row).take (512 - progress.opening.length)

/-- The checks of the loop on a row. -/
structure RowWithin (limits : UploadLimits) (progress : CsvProgress) (row : List Text)
    (byteCount : ℕ) : Prop where
  rows : progress.rowCount + 1 ≤ limits.maxCsvRows
  recordBytes : byteCount - progress.previousRecordEnd ≤ limits.maxCsvRecordBytes
  fields : row.length ≤ limits.maxCsvFields
  width : row ≠ [] → ∀ expected ∈ progress.expectedFields, row.length = expected
  fieldBytes : ∀ field ∈ row, utf8Length field ≤ limits.maxCsvFieldBytes

theorem inspect_row_ok_iff {row : List Text} :
    progress.inspect limits index row byteCount = .ok last ↔
      RowWithin limits progress row byteCount ∧ last = progress.after row byteCount := by
  simp only [CsvProgress.inspect, bind_eq_ok_iff, refuse_eq_ok, not_lt, not_and, not_exists,
    not_not, Except.ok.injEq, CsvProgress.after]
  constructor
  · rintro ⟨_, hrows, _, hrecord, _, hfields, _, hwidth, _, hfield, rfl⟩
    exact ⟨⟨hrows, hrecord, hfields, hwidth, hfield⟩, rfl⟩
  · rintro ⟨hwithin, rfl⟩
    exact ⟨⟨⟩, hwithin.rows, ⟨⟩, hwithin.recordBytes, ⟨⟩, hwithin.fields, ⟨⟩, hwithin.width, ⟨⟩,
      hwithin.fieldBytes, rfl⟩

/-- The body of the loop, for a record that is measured by its text. -/
def inspectRecord (limits : UploadLimits) (index : ℕ) (progress : CsvProgress)
    (record : Csv.Record) : Except UploadIssue CsvProgress :=
  progress.inspect limits index record.fields
    (progress.previousRecordEnd + utf8Length record.text)

/-! ## The loop and the records -/

/-- The running difference measures the lines of each record. -/
theorem inspectLines_ok_iff {reader : Csv.Reader} {consumed : Text} {lines : List Text}
    (hcount : byteCount = progress.previousRecordEnd + utf8Length consumed) :
    inspectLines limits index reader progress byteCount lines = .ok last ↔
      (Csv.readFrom (csvFieldLimit limits) reader consumed lines).1.foldlM
          (inspectRecord limits index) progress = .ok last ∧
        (Csv.readFrom (csvFieldLimit limits) reader consumed lines).2 = true := by
  induction lines generalizing reader progress byteCount consumed with
  | nil =>
      simp only [inspectLines, Csv.readFrom, List.foldlM_nil, bind_eq_ok_iff, refuse_eq_ok,
        Bool.not_eq_false]
      constructor
      · rintro ⟨_, hend, hlast⟩
        exact ⟨hlast, hend⟩
      · rintro ⟨hlast, hend⟩
        exact ⟨⟨⟩, hend, hlast⟩
  | cons line rest ih =>
      rw [inspectLines, Csv.readFrom]
      cases hline : reader.readLine (csvFieldLimit limits) line with
      | none => simp
      | some next =>
          have hlonger : byteCount + utf8Length line =
              progress.previousRecordEnd + utf8Length (consumed ++ line) := by
            rw [hcount, utf8Length_append, Nat.add_assoc]
          by_cases hended : next.state = .startRecord
          · simp only [if_pos hended, List.foldlM_cons, inspectRecord, ← hlonger]
            cases hrow : progress.inspect limits index next.fields
                (byteCount + utf8Length line) with
            | error issue => simp [bind, Except.bind]
            | ok inspected =>
                obtain ⟨_, rfl⟩ := inspect_row_ok_iff.mp hrow
                exact ih (by simp [CsvProgress.after, utf8Length])
          · simp only [if_neg hended]
            exact ih hlonger

/-- The progress after some records. -/
def progressAfter (records : List Csv.Record) : CsvProgress where
  rowCount := records.length
  previousRecordEnd := utf8Length (records.flatMap Csv.Record.text)
  expectedFields := (firstFilled records).map fun record => record.fields.length
  sawValue := records.any fun record => record.fields.any fun field => !field.isEmpty
  opening := (records.flatMap fun record => joinRow record.fields).take 512

theorem progressAfter_concat (records : List Csv.Record) (record : Csv.Record) :
    (progressAfter records).after record.fields
        ((progressAfter records).previousRecordEnd + utf8Length record.text) =
      progressAfter (records ++ [record]) := by
  have hopening : ∀ text added : Text,
      text.take 512 ++ added.take (512 - (text.take 512).length) = (text ++ added).take 512 := by
    intro text added
    rw [List.take_append, List.length_take]
    congr 2
    omega
  simp only [CsvProgress.after, progressAfter, List.length_append, List.length_singleton,
    List.flatMap_append, List.flatMap_cons, List.flatMap_nil, List.append_nil, utf8Length_append,
    List.any_append, List.any_cons, List.any_nil, Bool.or_false, hopening, firstFilled,
    List.find?_append]
  congr 1
  cases hfirst : records.find? fun record => record.fields ≠ [] with
  | none => by_cases hempty : record.fields = [] <;> simp [hempty]
  | some first => by_cases hempty : record.fields = [] <;> simp [hempty]

theorem recordsWithin_concat (records : List Csv.Record) (record : Csv.Record) :
    RecordsWithin limits (records ++ [record]) ↔
      RecordsWithin limits records ∧ RowWithin limits (progressAfter records) record.fields
        ((progressAfter records).previousRecordEnd + utf8Length record.text) := by
  have hfirst : ∀ found, firstFilled records = some found →
      firstFilled (records ++ [record]) = some found := by
    intro found hfound
    simp only [firstFilled] at hfound ⊢
    rw [List.find?_append, hfound, Option.some_or]
  constructor
  · intro hwithin
    have hlast : record ∈ records ++ [record] := by simp
    refine ⟨⟨?_, ?_, ?_, ?_, ?_⟩, ?_, ?_, ?_, ?_, ?_⟩
    · exact (Nat.le_succ _).trans (by simpa using hwithin.rows)
    · exact fun found hmem => hwithin.recordBytes found (List.mem_append_left _ hmem)
    · exact fun found hmem => hwithin.fields found (List.mem_append_left _ hmem)
    · exact fun found hmem hfilled first hsome =>
        hwithin.widths found (List.mem_append_left _ hmem) hfilled first (hfirst first hsome)
    · exact fun found hmem => hwithin.fieldBytes found (List.mem_append_left _ hmem)
    · simpa [progressAfter] using hwithin.rows
    · rw [Nat.add_sub_cancel_left]
      exact hwithin.recordBytes record hlast
    · exact hwithin.fields record hlast
    · intro hfilled expected hexpected
      obtain ⟨first, hsome, rfl⟩ := Option.map_eq_some_iff.mp hexpected
      exact hwithin.widths record hlast hfilled first (hfirst first hsome)
    · exact hwithin.fieldBytes record hlast
  · rintro ⟨hwithin, hrow⟩
    constructor
    · simpa [progressAfter] using hrow.rows
    · intro found hmem
      cases List.mem_append.mp hmem with
      | inl hbefore => exact hwithin.recordBytes found hbefore
      | inr hsame =>
          have hbytes := hrow.recordBytes
          rw [Nat.add_sub_cancel_left] at hbytes
          rwa [List.mem_singleton.mp hsame]
    · intro found hmem
      cases List.mem_append.mp hmem with
      | inl hbefore => exact hwithin.fields found hbefore
      | inr hsame =>
          rw [List.mem_singleton.mp hsame]
          exact hrow.fields
    · intro found hmem hfilled first hsome
      cases hbefore : firstFilled records with
      | some known =>
          obtain rfl := Option.some.inj ((hfirst known hbefore).symm.trans hsome)
          cases List.mem_append.mp hmem with
          | inl hearlier => exact hwithin.widths found hearlier hfilled known hbefore
          | inr hsame =>
              rw [List.mem_singleton.mp hsame] at hfilled ⊢
              exact hrow.width hfilled _ (by simp [progressAfter, hbefore])
      | none =>
          have hblank : ∀ earlier ∈ records, earlier.fields = [] := by
            intro earlier hearlier
            have hnone := List.find?_eq_none.mp hbefore earlier hearlier
            simpa using hnone
          cases List.mem_append.mp hmem with
          | inl hearlier => exact absurd (hblank found hearlier) hfilled
          | inr hsame =>
              rw [List.mem_singleton.mp hsame] at hfilled ⊢
              simp only [firstFilled] at hbefore hsome
              rw [Option.mem_def, List.find?_append, hbefore, Option.none_or] at hsome
              have hmember := List.mem_of_find?_eq_some hsome
              rw [List.mem_singleton.mp hmember]
    · intro found hmem
      cases List.mem_append.mp hmem with
      | inl hbefore => exact hwithin.fieldBytes found hbefore
      | inr hsame =>
          rw [List.mem_singleton.mp hsame]
          exact hrow.fieldBytes

/-- The loop accepts the records that are within the limits. -/
theorem foldlM_inspectRecord_ok_iff {records : List Csv.Record} :
    records.foldlM (inspectRecord limits index) .initial = .ok last ↔
      RecordsWithin limits records ∧ last = progressAfter records := by
  induction records using List.reverseRecOn generalizing last with
  | nil =>
      rw [List.foldlM_nil]
      refine ⟨?_, ?_⟩
      · intro haccept
        refine ⟨⟨Nat.zero_le _, ?_, ?_, ?_, ?_⟩, (Except.ok.inj haccept).symm⟩ <;> simp
      · rintro ⟨_, rfl⟩
        rfl
  | append_singleton records record ih =>
      rw [List.foldlM_append, bind_eq_ok_iff, recordsWithin_concat]
      simp only [List.foldlM_cons, List.foldlM_nil, bind_pure, ih, inspectRecord,
        inspect_row_ok_iff]
      constructor
      · rintro ⟨_, ⟨hrecords, rfl⟩, hrow, rfl⟩
        exact ⟨⟨hrecords, hrow⟩, progressAfter_concat records record⟩
      · rintro ⟨⟨hrecords, hrow⟩, rfl⟩
        exact ⟨_, ⟨hrecords, rfl⟩, hrow, (progressAfter_concat records record).symm⟩

/-- The validator accepts a text exactly when its records meet the specification. -/
theorem csv_is_accepted_iff :
    validateCsvText tables limits index text = .ok ⟨⟩ ↔ AcceptableCsv tables limits text := by
  have hlines (last : CsvProgress) :=
    @inspectLines_ok_iff limits index 0 .initial last .initial [] (Csv.splitLines text) rfl
  simp only [validateCsvText, bind_eq_ok_iff, refuse_eq_ok, Bool.not_eq_false, hlines]
  constructor
  · rintro ⟨_, hlimit, last, ⟨hrecords, hcomplete⟩, _, hvalue, hplain⟩
    obtain ⟨hwithin, rfl⟩ := foldlM_inspectRecord_ok_iff.mp hrecords
    refine ⟨?_, hwithin, ?_, Bool.eq_false_iff.mpr hplain⟩
    · rw [Csv.parses, hlimit, hcomplete]
      rfl
    · simpa [progressAfter, Csv.records] using hvalue
  · intro haccept
    have hparsed := haccept.parsed
    rw [Csv.parses, Bool.and_eq_true] at hparsed
    refine ⟨⟨⟩, hparsed.1, progressAfter (Csv.records (csvFieldLimit limits) text),
      ⟨foldlM_inspectRecord_ok_iff.mpr ⟨haccept.within, rfl⟩, hparsed.2⟩, ⟨⟩, ?_,
      Bool.eq_false_iff.mp haccept.plain⟩
    simpa [progressAfter, Csv.records] using haccept.filled

end Acceptance

end Agora
