import Agora.DomainRecords

/-!
# Boundary values of signed cursors

A cursor carries the ordering values of a boundary row as JSON.  Texts and integers go
there as they are, aware datetimes and UUIDs as the texts that `isoformat` and `str` write.
Every value of the kind of its column is read back as it was written.
-/

namespace Agora

/-! ## Numerals of a fixed width -/

/-- The digits of a number, most significant first. -/
def numeral (base : ℕ) : ℕ → ℕ → Text
  | 0, _ => []
  | width + 1, number =>
      Nat.digitChar (number / base ^ width) :: numeral base width (number % base ^ width)

def digit? (base : ℕ) (c : Char) : Option ℕ :=
  let value :=
    if '0' ≤ c ∧ c ≤ '9' then c.toNat - '0'.toNat
    else if 'a' ≤ c ∧ c ≤ 'f' then c.toNat - 'a'.toNat + 10
    else if 'A' ≤ c ∧ c ≤ 'F' then c.toNat - 'A'.toNat + 10
    else base
  if value < base then some value else none

/-- The number that the first characters denote, after the digits read so far, and the
characters behind them. -/
def readNumeral (base : ℕ) : ℕ → ℕ → Text → Option (ℕ × Text)
  | 0, number, rest => some (number, rest)
  | _ + 1, _, [] => none
  | width + 1, number, c :: rest =>
      (digit? base c).bind fun digit => readNumeral base width (number * base + digit) rest

section Numerals

variable {base : ℕ}

theorem digit?_digitChar (hbase : base ≤ 16) {digit : ℕ} (hdigit : digit < base) :
    digit? base (Nat.digitChar digit) = some digit := by
  have hsmall : digit < 16 := hdigit.trans_le hbase
  interval_cases digit <;> simp [digit?, Nat.digitChar, hdigit]

theorem readNumeral_numeral (hbase : base ≤ 16) {width number : ℕ} (read : ℕ) (rest : Text)
    (hnumber : number < base ^ width) :
    readNumeral base width read (numeral base width number ++ rest) =
      some (read * base ^ width + number, rest) := by
  induction width generalizing number read with
  | zero =>
      have hzero : number = 0 := by simpa using hnumber
      simp [numeral, readNumeral, hzero]
  | succ width ih =>
      have hpositive : 0 < base ^ width := by
        apply Nat.pos_of_ne_zero
        intro hzero
        rw [Nat.pow_succ, hzero, Nat.zero_mul] at hnumber
        omega
      have hdigit : number / base ^ width < base := by
        apply Nat.div_lt_of_lt_mul
        rwa [← Nat.pow_succ]
      have hrest : number % base ^ width < base ^ width := Nat.mod_lt _ hpositive
      have hsplit := Nat.div_add_mod number (base ^ width)
      simp only [numeral, List.cons_append, readNumeral, digit?_digitChar hbase hdigit,
        Option.bind_some, ih _ hrest, Option.some.injEq, Prod.mk.injEq, and_true]
      calc
        (read * base + number / base ^ width) * base ^ width + number % base ^ width =
            read * base ^ (width + 1) +
              (base ^ width * (number / base ^ width) + number % base ^ width) := by ring
        _ = read * base ^ (width + 1) + number := by rw [hsplit]

theorem numeral_length (width number : ℕ) : (numeral base width number).length = width := by
  induction width generalizing number with
  | zero => rfl
  | succ width ih => simp [numeral, ih]

end Numerals

/-! ## Datetimes -/

def isLeapYear (year : ℕ) : Bool :=
  year % 4 = 0 ∧ (year % 100 ≠ 0 ∨ year % 400 = 0)

def daysInMonth (year month : ℕ) : ℕ :=
  if month = 2 then if isLeapYear year = true then 29 else 28
  else if month = 4 ∨ month = 6 ∨ month = 9 ∨ month = 11 then 30
  else 31

structure DateTimeFields where
  year : ℕ
  month : ℕ
  day : ℕ
  hour : ℕ
  minute : ℕ
  second : ℕ
  microsecond : ℕ
  deriving DecidableEq, Repr

structure DateTimeFields.Valid (fields : DateTimeFields) : Prop where
  year : 1 ≤ fields.year ∧ fields.year ≤ 9999
  month : 1 ≤ fields.month ∧ fields.month ≤ 12
  day : 1 ≤ fields.day ∧ fields.day ≤ daysInMonth fields.year fields.month
  hour : fields.hour < 24
  minute : fields.minute < 60
  second : fields.second < 60
  microsecond : fields.microsecond < 1000000

instance (fields : DateTimeFields) : Decidable fields.Valid :=
  decidable_of_iff
    ((1 ≤ fields.year ∧ fields.year ≤ 9999) ∧ (1 ≤ fields.month ∧ fields.month ≤ 12) ∧
      (1 ≤ fields.day ∧ fields.day ≤ daysInMonth fields.year fields.month) ∧
        fields.hour < 24 ∧ fields.minute < 60 ∧ fields.second < 60 ∧
          fields.microsecond < 1000000)
    ⟨fun ⟨hyear, hmonth, hday, hhour, hminute, hsecond, hmicrosecond⟩ =>
        ⟨hyear, hmonth, hday, hhour, hminute, hsecond, hmicrosecond⟩,
      fun hvalid => ⟨hvalid.year, hvalid.month, hvalid.day, hvalid.hour, hvalid.minute,
        hvalid.second, hvalid.microsecond⟩⟩

/-- A datetime of the UTC time zone, as the database returns it. -/
abbrev DateTime := { fields : DateTimeFields // fields.Valid }

namespace DateTime

def isoFormat (value : DateTime) : Text :=
  numeral 10 4 value.1.year ++ '-' :: numeral 10 2 value.1.month ++
    '-' :: numeral 10 2 value.1.day ++ 'T' :: numeral 10 2 value.1.hour ++
      ':' :: numeral 10 2 value.1.minute ++ ':' :: numeral 10 2 value.1.second ++
        (if value.1.microsecond = 0 then [] else '.' :: numeral 10 6 value.1.microsecond) ++
          "+00:00".toList

/-- A separator followed by a number of fixed width. -/
def readPart (separator : Char) (width : ℕ) : Text → Option (ℕ × Text)
  | [] => none
  | c :: rest => if c = separator then readNumeral 10 width 0 rest else none

/-- `datetime.fromisoformat`, on the extended format that `isoformat` writes. -/
def fromIsoFormat (text : Text) : Option DateTime := do
  let (year, rest) ← readNumeral 10 4 0 text
  let (month, rest) ← readPart '-' 2 rest
  let (day, rest) ← readPart '-' 2 rest
  let (hour, rest) ← readPart 'T' 2 rest
  let (minute, rest) ← readPart ':' 2 rest
  let (second, rest) ← readPart ':' 2 rest
  let (microsecond, rest) ←
    if rest.head? = some '.' then readPart '.' 6 rest else some (0, rest)
  let fields : DateTimeFields := ⟨year, month, day, hour, minute, second, microsecond⟩
  if hvalid : fields.Valid then
    if rest = "+00:00".toList then some ⟨fields, hvalid⟩ else none
  else none

theorem readPart_numeral {separator : Char} {width number : ℕ} (rest : Text)
    (hnumber : number < 10 ^ width) :
    readPart separator width (separator :: (numeral 10 width number ++ rest)) =
      some (number, rest) := by
  rw [readPart, if_pos rfl, readNumeral_numeral (by decide) 0 rest hnumber]
  simp

theorem fromIsoFormat_isoFormat (value : DateTime) :
    fromIsoFormat value.isoFormat = some value := by
  obtain ⟨fields, hvalid⟩ := value
  have hmonths : daysInMonth fields.year fields.month ≤ 31 := by
    unfold daysInMonth
    split
    · split <;> decide
    · split <;> decide
  have hyear : fields.year < 10 ^ 4 := by have := hvalid.year; omega
  have hmonth : fields.month < 10 ^ 2 := by have := hvalid.month; omega
  have hday : fields.day < 10 ^ 2 := by have := hvalid.day; omega
  have hhour : fields.hour < 10 ^ 2 := by have := hvalid.hour; omega
  have hminute : fields.minute < 10 ^ 2 := by have := hvalid.minute; omega
  have hsecond : fields.second < 10 ^ 2 := by have := hvalid.second; omega
  have hmicrosecond : fields.microsecond < 10 ^ 6 := by have := hvalid.microsecond; omega
  have hparts : fromIsoFormat (isoFormat ⟨fields, hvalid⟩) = (do
      let fraction : Text :=
        (if fields.microsecond = 0 then [] else '.' :: numeral 10 6 fields.microsecond) ++
          "+00:00".toList
      let (microsecond, rest) ←
        if fraction.head? = some '.' then readPart '.' 6 fraction else some (0, fraction)
      let read : DateTimeFields := { fields with microsecond := microsecond }
      if hread : read.Valid then
        if rest = "+00:00".toList then some ⟨read, hread⟩ else none
      else none) := by
    simp only [isoFormat, fromIsoFormat, List.append_assoc, List.cons_append,
      readNumeral_numeral (by decide : 10 ≤ 16) 0 _ hyear, readPart_numeral _ hmonth,
      readPart_numeral _ hday, readPart_numeral _ hhour, readPart_numeral _ hminute,
      readPart_numeral _ hsecond, Option.bind_eq_bind, Option.bind_some, Nat.zero_mul,
      Nat.zero_add]
  rw [hparts]
  by_cases hzero : fields.microsecond = 0
  · have hsame : { fields with microsecond := 0 } = fields := by
      rw [← hzero]
    simp [hzero, hsame, hvalid]
  · simp [hzero, readPart_numeral _ hmicrosecond, hvalid]

end DateTime

/-! ## UUIDs -/

/-- `uuid.UUID`, as its integer. -/
abbrev UuidValue := Fin (2 ^ 128)

namespace UuidValue

/-- `str`, in groups of 8, 4, 4, 4 and 12 digits. -/
def toText (value : UuidValue) : Text :=
  let hex := numeral 16 32 value.1
  hex.take 8 ++ '-' :: (hex.drop 8).take 4 ++ '-' :: (hex.drop 12).take 4 ++
    '-' :: (hex.drop 16).take 4 ++ '-' :: hex.drop 20

/-- The constructor, on the texts that `str` writes. -/
def parse (text : Text) : Option UuidValue := do
  let hex := text.filter fun c => c ≠ '-'
  if hex.length = 32 then
    let (value, _) ← readNumeral 16 32 0 hex
    if hvalue : value < 2 ^ 128 then some ⟨value, hvalue⟩ else none
  else none

theorem digitChar_ne_dash {digit : ℕ} (hdigit : digit < 16) : Nat.digitChar digit ≠ '-' := by
  interval_cases digit <;> decide

theorem dash_notMem_numeral {width number : ℕ} (hnumber : number < 16 ^ width) :
    '-' ∉ numeral 16 width number := by
  induction width generalizing number with
  | zero => simp [numeral]
  | succ width ih =>
      have hdigit : number / 16 ^ width < 16 := by
        apply Nat.div_lt_of_lt_mul
        rwa [← Nat.pow_succ]
      have hrest : number % 16 ^ width < 16 ^ width := Nat.mod_lt _ (by positivity)
      rw [numeral, List.mem_cons]
      intro hmem
      cases hmem with
      | inl hfirst => exact digitChar_ne_dash hdigit hfirst.symm
      | inr hlater => exact ih hrest hlater

theorem filter_toText (value : UuidValue) :
    value.toText.filter (fun c => c ≠ '-') = numeral 16 32 value.1 := by
  have hnumber : value.1 < 16 ^ 32 := by
    have hbound := value.2
    norm_num at hbound ⊢
    exact hbound
  have hkept : ∀ part : Text, part.Sublist (numeral 16 32 value.1) →
      part.filter (fun c => c ≠ '-') = part := by
    intro part hpart
    rw [List.filter_eq_self]
    intro c hc
    have hne : c ≠ '-' := by
      rintro rfl
      exact dash_notMem_numeral hnumber (hpart.subset hc)
    simpa using hne
  have hslice : ∀ first count, (((numeral 16 32 value.1).drop first).take count).Sublist
      (numeral 16 32 value.1) := fun first count =>
    (List.take_sublist _ _).trans (List.drop_sublist _ _)
  have hstart : ((numeral 16 32 value.1).take 8).Sublist (numeral 16 32 value.1) :=
    List.take_sublist _ _
  have hend : ((numeral 16 32 value.1).drop 20).Sublist (numeral 16 32 value.1) :=
    List.drop_sublist _ _
  have hdash : ∀ rest : Text, ('-' :: rest).filter (fun c => c ≠ '-') =
      rest.filter (fun c => c ≠ '-') := fun rest => by simp
  simp only [toText, List.filter_append, hdash, hkept _ hstart, hkept _ (hslice _ _),
    hkept _ hend, List.cons_append, List.append_assoc]
  have hjoin : ∀ (hex : Text) (first count : ℕ),
      (hex.drop first).take count ++ hex.drop (first + count) = hex.drop first := by
    intro hex first count
    rw [← List.drop_drop, List.take_append_drop]
  rw [hjoin _ 16 4, hjoin _ 12 4, hjoin _ 8 4, List.take_append_drop]

theorem parse_toText (value : UuidValue) : parse value.toText = some value := by
  have hnumber : value.1 < 16 ^ 32 := by
    have hbound := value.2
    norm_num at hbound ⊢
    exact hbound
  have hread := readNumeral_numeral (by decide : 16 ≤ 16) 0 [] hnumber
  rw [List.append_nil] at hread
  simp only [parse, filter_toText, numeral_length, if_true, hread, Option.bind_eq_bind,
    Option.bind_some]
  simp

end UuidValue

/-! ## Columns and their values -/

inductive CursorValueKind where
  | text
  | integer
  | datetime
  | uuid
  deriving DecidableEq, Repr

inductive CursorValue where
  | text (value : Text)
  | integer (value : ℤ)
  | datetime (value : DateTime)
  | uuid (value : UuidValue)
  deriving DecidableEq

def CursorValue.kind : CursorValue → CursorValueKind
  | .text _ => .text
  | .integer _ => .integer
  | .datetime _ => .datetime
  | .uuid _ => .uuid

inductive PaginationFailure where
  | value (message : String)
  | type (message : String)
  | invalidCursor (message : String)
  deriving DecidableEq, Repr

/-- `field.split("__")`. -/
def splitPath : Text → Text → List Text
  | part, [] => [part.reverse]
  | part, '_' :: '_' :: rest => part.reverse :: splitPath [] rest
  | part, c :: rest => splitPath (c :: part) rest

def isPublicName (name : Text) : Bool :=
  name ≠ [] ∧ name.head? ≠ some '_'

/-- A fixed ordering column; its field is a path of public names. -/
structure CursorColumn where
  field : Text
  kind : CursorValueKind
  descending : Bool
  isPublic : isPublicName field = true ∧ (splitPath [] field).all isPublicName = true

/-- The constructor with `__post_init__`. -/
def CursorColumn.create (field : Text) (kind : CursorValueKind) (descending : Bool) :
    Except PaginationFailure CursorColumn :=
  if hfield : isPublicName field = true then
    if hparts : (splitPath [] field).all isPublicName = true then
      .ok ⟨field, kind, descending, hfield, hparts⟩
    else .error (.value "cursor columns require public model field paths")
  else .error (.value "cursor columns require a public model field")

/-- `_validated_value`; no value is the `None` of a NULL. -/
def validatedValue (value : Option CursorValue) (kind : CursorValueKind) :
    Except PaginationFailure CursorValue :=
  match value.filter fun value => value.kind = kind with
  | some value => .ok value
  | none => .error (.type "cursor boundary has the wrong type")

theorem validatedValue_of_kind {value : CursorValue} {kind : CursorValueKind}
    (hkind : value.kind = kind) : validatedValue (some value) kind = .ok value := by
  have hkept : (some value).filter (fun value => value.kind = kind) = some value := by
    simp [hkind]
  rw [validatedValue, hkept]

/-! ## Signed objects -/

/-- The JSON values that cursors are made of. -/
inductive Json where
  | null
  | bool (value : Bool)
  | number (value : ℤ)
  | text (value : Text)
  | list (items : List Json)
  | object (members : List (String × Json))

/-- `_encode_value`. -/
def encodeValue (value : CursorValue) (kind : CursorValueKind) :
    Except PaginationFailure Json := do
  match ← validatedValue (some value) kind with
  | .datetime value => pure (.text value.isoFormat)
  | .uuid value => pure (.text value.toText)
  | .text value => pure (.text value)
  | .integer value => pure (.number value)

/-- `_decode_value`. -/
def decodeValue (value : Json) (kind : CursorValueKind) :
    Except PaginationFailure CursorValue :=
  match kind, value with
  | .text, .text value => .ok (.text value)
  | .text, _ => .error (.type "cursor boundary has the wrong type")
  | .integer, .number value => .ok (.integer value)
  | .integer, _ => .error (.type "cursor boundary has the wrong type")
  | .datetime, .text value =>
      match DateTime.fromIsoFormat value with
      | some value => .ok (.datetime value)
      | none => .error (.value "Invalid isoformat string")
  | .uuid, .text value =>
      match UuidValue.parse value with
      | some value => .ok (.uuid value)
      | none => .error (.value "badly formed hexadecimal UUID string")
  | _, _ => .error (.type "encoded cursor value has the wrong type")

/-- The JSON form of a value of its own kind. -/
def CursorValue.toJson : CursorValue → Json
  | .text value => .text value
  | .integer value => .number value
  | .datetime value => .text value.isoFormat
  | .uuid value => .text value.toText

theorem encodeValue_of_kind {value : CursorValue} {kind : CursorValueKind}
    (hkind : value.kind = kind) : encodeValue value kind = .ok value.toJson := by
  rw [encodeValue, validatedValue_of_kind hkind]
  cases value with
  | text value => rfl
  | integer value => rfl
  | datetime value => rfl
  | uuid value => rfl

theorem decodeValue_toJson {value : CursorValue} {kind : CursorValueKind}
    (hkind : value.kind = kind) : decodeValue value.toJson kind = .ok value := by
  subst hkind
  cases value with
  | text value => rfl
  | integer value => rfl
  | datetime value =>
      simp [decodeValue, CursorValue.toJson, CursorValue.kind, DateTime.fromIsoFormat_isoFormat]
  | uuid value =>
      simp [decodeValue, CursorValue.toJson, CursorValue.kind, UuidValue.parse_toText]

end Agora
