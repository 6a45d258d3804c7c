import Mathlib.Tactic

/-!
# Decoding UTF-8 byte by byte

The strict decoder takes one byte at a time and refuses the first byte that no encoding of a
character allows.  What it decodes does not depend on how the bytes are cut into chunks.
-/

namespace Utf8

/-- Between two characters, or inside one: how many bytes are missing, the range of the next
one, and the value of the bits so far. -/
inductive DecoderState where
  | between
  | inside (missing low high value : ℕ)
  deriving DecidableEq, Repr

/-- The step from the first byte of a character. -/
def firstByte (byte : ℕ) : Option (DecoderState × Option Char) :=
  if byte < 0x80 then some (.between, some (Char.ofNat byte))
  else if 0xC2 ≤ byte ∧ byte ≤ 0xDF then some (.inside 1 0x80 0xBF (byte - 0xC0), none)
  else if byte = 0xE0 then some (.inside 2 0xA0 0xBF 0, none)
  else if byte = 0xED then some (.inside 2 0x80 0x9F 0xD, none)
  else if 0xE1 ≤ byte ∧ byte ≤ 0xEF then some (.inside 2 0x80 0xBF (byte - 0xE0), none)
  else if byte = 0xF0 then some (.inside 3 0x90 0xBF 0, none)
  else if 0xF1 ≤ byte ∧ byte ≤ 0xF3 then some (.inside 3 0x80 0xBF (byte - 0xF0), none)
  else if byte = 0xF4 then some (.inside 3 0x80 0x8F 4, none)
  else none

/-- One byte: the next state and the character it completes, or none where the byte is
invalid. -/
def step : DecoderState → UInt8 → Option (DecoderState × Option Char)
  | .between, byte => firstByte byte.toNat
  | .inside missing low high value, byte =>
      if low ≤ byte.toNat ∧ byte.toNat ≤ high then
        if missing ≤ 1 then some (.between, some (Char.ofNat (value * 64 + (byte.toNat - 0x80))))
        else some (.inside (missing - 1) 0x80 0xBF (value * 64 + (byte.toNat - 0x80)), none)
      else none

/-- The state after some bytes and the characters they complete. -/
def decodeFrom : DecoderState → List UInt8 → Option (DecoderState × List Char)
  | state, [] => some (state, [])
  | state, byte :: rest =>
      match step state byte with
      | none => none
      | some (next, completed) =>
          (decodeFrom next rest).map fun result => (result.1, completed.toList ++ result.2)

/-- The strict decoding of whole bytes. -/
def decode (bytes : List UInt8) : Option (List Char) :=
  match decodeFrom .between bytes with
  | some (.between, text) => some text
  | _ => none

variable {state : DecoderState} {first second : List UInt8}

theorem decodeFrom_append :
    decodeFrom state (first ++ second) =
      (decodeFrom state first).bind fun middle =>
        (decodeFrom middle.1 second).map fun result => (result.1, middle.2 ++ result.2) := by
  induction first generalizing state with
  | nil =>
      simp only [List.nil_append, decodeFrom, Option.bind_some]
      cases decodeFrom state second with
      | none => rfl
      | some result => rfl
  | cons byte rest ih =>
      rw [List.cons_append, decodeFrom, decodeFrom]
      cases step state byte with
      | none => rfl
      | some stepped =>
          simp only [ih]
          cases decodeFrom stepped.1 rest with
          | none => rfl
          | some middle =>
              simp only [Option.bind_some, Option.map_some]
              cases decodeFrom middle.1 second with
              | none => rfl
              | some result => simp

/-! ## A byte order mark before the text -/

/-- The byte order mark, which the decoder drops where it stands first. -/
def byteOrderMark : Char :=
  Char.ofNat 0xFEFF

/-- The decoder of a text that may start with a byte order mark. -/
structure MarkedDecoder where
  /-- No character is decoded yet. -/
  atStart : Bool
  state : DecoderState
  deriving DecidableEq, Repr

def MarkedDecoder.initial : MarkedDecoder :=
  ⟨true, .between⟩

/-- The text without a byte order mark at the start. -/
def dropMark (atStart : Bool) (text : List Char) : List Char :=
  match text with
  | [] => []
  | c :: rest => if atStart && c == byteOrderMark then rest else text

/-- The decoder after a chunk and the text that it releases. -/
def MarkedDecoder.feed (decoder : MarkedDecoder) (chunk : List UInt8) :
    Option (MarkedDecoder × List Char) :=
  (decodeFrom decoder.state chunk).map fun result =>
    (⟨decoder.atStart && result.2.isEmpty, result.1⟩, dropMark decoder.atStart result.2)

/-- Whether the bytes may end here: also inside a byte order mark at the start, which is
still held back then. -/
def MarkedDecoder.mayEnd (decoder : MarkedDecoder) : Bool :=
  decoder.state = .between ∨
    (decoder.atStart = true ∧
      (decoder.state = .inside 2 0x80 0xBF 0xF ∨ decoder.state = .inside 1 0x80 0xBF 0x3FB))

/-- The decoder after some chunks and the texts that they release. -/
def MarkedDecoder.feedAll (decoder : MarkedDecoder) :
    List (List UInt8) → Option (MarkedDecoder × List (List Char))
  | [] => some (decoder, [])
  | chunk :: rest => do
      let (fed, text) ← decoder.feed chunk
      let (last, texts) ← fed.feedAll rest
      some (last, text :: texts)

theorem dropMark_append {atStart : Bool} {before after : List Char} :
    dropMark atStart (before ++ after) =
      dropMark atStart before ++ dropMark (atStart && before.isEmpty) after := by
  cases before with
  | nil => simp [dropMark]
  | cons c rest =>
      have hkept : dropMark false after = after := by
        cases after with
        | nil => rfl
        | cons _ _ => simp [dropMark]
      rw [List.isEmpty_cons, Bool.and_false, hkept, List.cons_append]
      by_cases hmark : (atStart && c == byteOrderMark) = true
      · simp only [dropMark, if_pos hmark]
      · simp only [dropMark, if_neg hmark, List.cons_append]

theorem MarkedDecoder.feed_append {decoder : MarkedDecoder} :
    decoder.feed (first ++ second) =
      (decoder.feed first).bind fun middle =>
        (middle.1.feed second).map fun result => (result.1, middle.2 ++ result.2) := by
  simp only [MarkedDecoder.feed, decodeFrom_append]
  cases decodeFrom decoder.state first with
  | none => rfl
  | some middle =>
      simp only [Option.bind_some, Option.map_some]
      cases decodeFrom middle.1 second with
      | none => rfl
      | some result =>
          simp only [Option.map_some, dropMark_append, Option.some.injEq, Prod.mk.injEq, and_true,
            MarkedDecoder.mk.injEq]
          cases middle.2 with
          | nil => simp
          | cons c rest => simp

/-- Chunks release what their bytes release together. -/
theorem MarkedDecoder.feedAll_eq {decoder : MarkedDecoder} {chunks : List (List UInt8)} :
    (decoder.feedAll chunks).map (fun result => (result.1, result.2.flatten)) =
      decoder.feed chunks.flatten := by
  induction chunks generalizing decoder with
  | nil =>
      simp [MarkedDecoder.feedAll, MarkedDecoder.feed, decodeFrom, dropMark]
  | cons chunk rest ih =>
      rw [List.flatten_cons, MarkedDecoder.feed_append, MarkedDecoder.feedAll]
      cases decoder.feed chunk with
      | none => rfl
      | some middle =>
          simp only [Option.bind_eq_bind, Option.bind_some, ← ih]
          cases middle.1.feedAll rest with
          | none => rfl
          | some result => simp

end Utf8
