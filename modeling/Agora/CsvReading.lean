import Mathlib.Algebra.Group.Nat.Defs
import Mathlib.Data.List.Basic

/-!
# Reading CSV records

The reader of comma-separated records with double quotes, in its strict mode.  It takes the
lines of a text one by one; a record ends with the line that leaves it outside quotes.
-/

namespace Csv

/-- The lines of a text with their ends: a line feed, a carriage return, or both. -/
def splitLines : List Char → List (List Char)
  | '\r' :: '\n' :: rest => ['\r', '\n'] :: splitLines rest
  | c :: rest =>
      if c = '\n' ∨ c = '\r' then [c] :: splitLines rest
      else
        match splitLines rest with
        | [] => [[c]]
        | line :: lines => (c :: line) :: lines
  | [] => []

inductive ReaderState where
  | startRecord
  | startField
  | inField
  | inQuotedField
  | quoteInQuotedField
  | eatLineEnd
  deriving DecidableEq, Repr

structure Reader where
  state : ReaderState
  field : List Char
  fields : List (List Char)
  deriving DecidableEq, Repr

namespace Reader

def initial : Reader :=
  ⟨.startRecord, [], []⟩

def saveField (next : ReaderState) (reader : Reader) : Reader :=
  ⟨next, [], reader.fields ++ [reader.field]⟩

/-- A further character of the field; none where the field is too long. -/
def addChar (limit : ℕ) (c : Char) (next : ReaderState) (reader : Reader) : Option Reader :=
  if limit ≤ reader.field.length then none
  else some { reader with state := next, field := reader.field ++ [c] }

def isLineEnd (c : Char) : Bool :=
  c == '\n' || c == '\r'

/-- A character where a field may start. -/
def startField (limit : ℕ) (c : Char) (reader : Reader) : Option Reader :=
  if isLineEnd c then some (reader.saveField .eatLineEnd)
  else if c = '"' then some { reader with state := .inQuotedField }
  else if c = ',' then some (reader.saveField .startField)
  else reader.addChar limit c .inField

/-- One character; none where the reader raises an error. -/
def process (limit : ℕ) (reader : Reader) (c : Char) : Option Reader :=
  match reader.state with
  | .startRecord =>
      if isLineEnd c then some { reader with state := .eatLineEnd }
      else reader.startField limit c
  | .startField => reader.startField limit c
  | .inField =>
      if isLineEnd c then some (reader.saveField .eatLineEnd)
      else if c = ',' then some (reader.saveField .startField)
      else reader.addChar limit c .inField
  | .inQuotedField =>
      if c = '"' then some { reader with state := .quoteInQuotedField }
      else reader.addChar limit c .inQuotedField
  | .quoteInQuotedField =>
      if c = '"' then reader.addChar limit c .inQuotedField
      else if c = ',' then some (reader.saveField .startField)
      else if isLineEnd c then some (reader.saveField .eatLineEnd)
      else none
  | .eatLineEnd => if isLineEnd c then some reader else none

/-- The end of a line. -/
def endLine (reader : Reader) : Reader :=
  match reader.state with
  | .startRecord => reader
  | .startField => reader.saveField .startRecord
  | .inField => reader.saveField .startRecord
  | .inQuotedField => reader
  | .quoteInQuotedField => reader.saveField .startRecord
  | .eatLineEnd => { reader with state := .startRecord }

def readLine (limit : ℕ) (reader : Reader) (line : List Char) : Option Reader :=
  (line.foldlM (process limit) reader).map endLine

/-- Whether the lines may end here without an error. -/
def mayEnd (reader : Reader) : Bool :=
  reader.field.isEmpty && reader.state ≠ .inQuotedField

end Reader

/-- The fields of a record and the text of its lines. -/
structure Record where
  fields : List (List Char)
  text : List Char
  deriving DecidableEq, Repr

/-- The records up to the first error, and whether there is none. -/
def readFrom (limit : ℕ) : Reader → List Char → List (List Char) → List Record × Bool
  | reader, _, [] => ([], reader.mayEnd)
  | reader, consumed, line :: rest =>
      match reader.readLine limit line with
      | none => ([], false)
      | some next =>
          if next.state = .startRecord then
            let (records, complete) := readFrom limit .initial [] rest
            (⟨next.fields, consumed ++ line⟩ :: records, complete)
          else readFrom limit next (consumed ++ line) rest

/-- The records that the reader yields before it stops. -/
def records (limit : ℕ) (text : List Char) : List Record :=
  (readFrom limit .initial [] (splitLines text)).1

/-- Whether a field limit fits into the integers of the reader. -/
def acceptsFieldLimit (limit : ℕ) : Bool :=
  limit < 2 ^ 63

/-- Whether the reader takes its field limit and reads the whole text without an error. -/
def parses (limit : ℕ) (text : List Char) : Bool :=
  acceptsFieldLimit limit && (readFrom limit .initial [] (splitLines text)).2

end Csv
