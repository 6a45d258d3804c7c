import Agora.ArtifactStorageKeys

/-!
# Canonical identity and artifact names

SOEIDs are ASCII, so their canonical form is computed here.  Logical names need
Unicode normalization, case mapping and general categories; these tables are a
parameter, `UnicodeTables`, since no definition below depends on their values.
-/

namespace Agora

inductive UnicodeCategory where
  | control
  | format
  | other
  deriving DecidableEq, Repr

/-- The functions of `unicodedata` and `str` that read the Unicode tables. -/
structure UnicodeTables where
  nfc : Text → Text
  nfkc : Text → Text
  casefold : Text → Text
  upper : Text → Text
  category : Char → UnicodeCategory

def isAscii (c : Char) : Bool :=
  c.toNat < 128

theorem toLower_of_not_ascii {c : Char} (hascii : isAscii c = false) : c.toLower = c := by
  rw [isAscii, decide_eq_false_iff_not, Char.toNat] at hascii
  unfold Char.toLower
  rw [dif_neg]
  intro hupper
  have hbound := UInt32.le_iff_toNat_le.mp hupper.2
  have hvalue : ('Z'.val).toNat = 90 := rfl
  omega

/-- `_ASCII_WHITESPACE`. -/
def asciiWhitespace : Text :=
  [' ', '\t', '\r', '\n', '\x0c', '\x0b']

/-- `str.strip` of a set of characters. -/
def stripOf (characters value : Text) : Text :=
  ((value.dropWhile (characters.contains ·)).reverse.dropWhile
    (characters.contains ·)).reverse

/-- The code points of `str.isspace`. -/
def isPythonSpace (c : Char) : Bool :=
  [9, 10, 11, 12, 13, 28, 29, 30, 31, 32, 133, 160, 5760, 8232, 8233, 8239, 8287,
    12288].contains c.toNat || (8192 ≤ c.toNat && c.toNat ≤ 8202)

/-- `str.strip()`. -/
def strip (value : Text) : Text :=
  ((value.dropWhile isPythonSpace).reverse.dropWhile isPythonSpace).reverse

/-- `str.split()`: the maximal runs of characters that are not white space. -/
def splitWords (value : Text) : List Text :=
  (value.splitOnP isPythonSpace).filter (· ≠ [])

/-- `" ".join(value.split())`. -/
def joinWords (value : Text) : Text :=
  [' '].intercalate (splitWords value)

def isSoeidStart (c : Char) : Bool :=
  ('A' ≤ c && c ≤ 'Z') || ('0' ≤ c && c ≤ '9')

def isSoeidRest (c : Char) : Bool :=
  isSoeidStart c || c == '.' || c == '_' || c == '-'

/-- `SOEID_PATTERN.fullmatch`. -/
def isSoeid (value : Text) : Bool :=
  match value with
  | [] => false
  | first :: rest => isSoeidStart first && rest.length ≤ 63 && rest.all isSoeidRest

def canonicalizeSoeid (value : Text) : Except String Text :=
  let stripped := stripOf asciiWhitespace value
  if !stripped.all isAscii then
    .error "SOEID must contain ASCII characters only"
  else
    let canonical := stripped.map Char.toUpper
    if isSoeid canonical then .ok canonical
    else .error "SOEID does not match the required canonical grammar"

structure LogicalName where
  display : Text
  comparisonKey : Text
  deriving DecidableEq

def utf8Length (value : Text) : ℕ :=
  (value.map Char.utf8Size).sum

/-- `_RESERVED_WINDOWS_STEMS`. -/
def reservedWindowsStems : List Text :=
  ["CON", "PRN", "AUX", "NUL",
    "COM1", "COM2", "COM3", "COM4", "COM5", "COM6", "COM7", "COM8", "COM9",
    "LPT1", "LPT2", "LPT3", "LPT4", "LPT5", "LPT6", "LPT7", "LPT8", "LPT9"].map
      String.toList

def endsInSpaceOrDot (value : Text) : Bool :=
  match value.getLast? with
  | some c => c == ' ' || c == '.'
  | none => false

def isReservedForm (value : Text) : Bool :=
  value == ['.'] || value == ['.', '.'] || endsInSpaceOrDot value

/-- The upper-case text before the first dot, without trailing blanks and dots. -/
def reservedStem (tables : UnicodeTables) (compatible : Text) : Text :=
  ((tables.upper (compatible.takeWhile (· ≠ '.'))).reverse.dropWhile
    fun c => c == ' ' || c == '.').reverse

def normalizeLogicalName (tables : UnicodeTables) (value : Text) :
    Except String LogicalName :=
  let display := tables.nfc value
  let compatible := tables.nfkc display
  let comparisonKey := tables.nfkc (tables.casefold compatible)
  if display.isEmpty || 255 < display.length then
    .error "logical name must contain 1 through 255 characters"
  else if isReservedForm display || isReservedForm compatible then
    .error "logical name has a reserved form"
  else if compatible.any fun c => c == '/' || c == '\\' || c == ':' then
    .error "logical name cannot contain path separators or a colon"
  else if display.any fun c => tables.category c != .other then
    .error "logical name cannot contain control characters"
  else if reservedWindowsStems.contains (reservedStem tables compatible) then
    .error "logical name uses a reserved platform name"
  else if 1024 < utf8Length comparisonKey then
    .error "logical name comparison key is too long"
  else
    .ok ⟨display, comparisonKey⟩

/-- `_normalize_short_text`. -/
def normalizeShortText (tables : UnicodeTables) (maximum : ℕ) (label : String)
    (value : Text) : Except String Text :=
  if value.any fun c => tables.category c == .format ||
      (tables.category c == .control && c != '\t' && c != '\r' && c != '\n') then
    .error (label ++ " cannot contain control characters")
  else
    let normalized := joinWords value
    if maximum < normalized.length then
      .error (label ++ " must be at most " ++ toString maximum ++ " characters")
    else .ok normalized

end Agora
