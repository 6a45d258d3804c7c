import Agora.AssetReferences

/-!
# The validation of CSS

`_CssValidator` decodes the escapes of a stylesheet and then searches it for imports, for
external URLs and for the targets of `url()`.  It keeps the last characters of what it has
read and searches them again with the next chunk.
-/

namespace Agora

/-! ## Escapes -/

inductive CssEscapeState where
  | plain
  /-- After a backslash. -/
  | opened
  /-- After some hexadecimal digits of an escape, with their value. -/
  | hexadecimal (count value : ℕ)
  /-- After a carriage return that ends an escape; a line feed after it belongs to it. -/
  | returned
  deriving DecidableEq, Repr

/-- The character of a hexadecimal escape. -/
def cssCharacter (value : ℕ) : Char :=
  if value = 0 ∨ 0x10FFFF < value ∨ (0xD800 ≤ value ∧ value ≤ 0xDFFF) then Char.ofNat 0xFFFD
  else Char.ofNat value

/-- One character outside an escape: the next state and the decoded text. -/
def cssPlainStep (c : Char) : CssEscapeState × Text :=
  if c = '\\' then (.opened, []) else (.plain, [c])

/-- The white space that ends a hexadecimal escape, and what follows the escape. -/
def cssAfterEscape (c : Char) : CssEscapeState × Text :=
  if c = '\r' then (.returned, [])
  else if c = ' ' ∨ c = '\t' ∨ c = '\n' ∨ c = '\x0c' then (.plain, [])
  else cssPlainStep c

def cssEscapeStep : CssEscapeState → Char → CssEscapeState × Text
  | .plain, c => cssPlainStep c
  | .opened, c =>
      match hexValue c with
      | some digit => (.hexadecimal 1 digit, [])
      | none =>
          if c = '\r' then (.returned, [])
          else if c = '\n' ∨ c = '\x0c' then (.plain, [])
          else (.plain, [c])
  | .hexadecimal count value, c =>
      match if count < 6 then hexValue c else none with
      | some digit => (.hexadecimal (count + 1) (value * 16 + digit), [])
      | none =>
          let (state, text) := cssAfterEscape c
          (state, cssCharacter value :: text)
  | .returned, c => if c = '\n' then (.plain, []) else cssPlainStep c

/-- What the end of the text leaves of an escape. -/
def cssEscapeEnd : CssEscapeState → Text
  | .plain => []
  | .opened => ['\\']
  | .hexadecimal _ value => [cssCharacter value]
  | .returned => []

def decodeCssFrom : CssEscapeState → Text → Text
  | state, [] => cssEscapeEnd state
  | state, c :: rest => (cssEscapeStep state c).2 ++ decodeCssFrom (cssEscapeStep state c).1 rest

/-- `_decode_css_escapes`. -/
def decodeCssEscapes (value : Text) : Text :=
  decodeCssFrom .plain value

/-! ## Patterns -/

def patternSpaces : TextPattern :=
  .many isPythonSpace

/-- A run of characters of an ASCII class, of at least one. -/
def patternClass (accepts : Char → Bool) : TextPattern :=
  .one (TextPattern.classIgnoringCase accepts)

/-- `_EXTERNAL_URL_TOKEN_RE`. -/
def externalUrlToken : TextPattern :=
  .either
    (.all [.wordEdge,
      .any [.both (patternWord "http") (.maybe (patternWord "s")), patternWord "ftp",
        patternWord "file"],
      patternWord ":", patternSpaces, patternWord "/", patternSpaces, patternWord "/"])
    (.all [patternWord "//", patternClass fun c => isAsciiLetter c || isAsciiDigit c])

/-- `_CSS_IMPORT_RE`. -/
def cssImport : TextPattern :=
  .both (patternWord "@import") .wordEdge

/-- `_CSS_URL_RE`. -/
def cssUrl : TextPattern :=
  .all [.wordEdge, patternWord "url", patternSpaces, patternWord "(", patternSpaces,
    .group 1 (.many (· ≠ ')')), patternWord ")"]

/-- `_SAFE_DATA_URL_RE`. -/
def safeDataUrl : TextPattern :=
  .all [patternWord "data:",
    .any [
      .both (patternWord "image/") (.any [patternWord "png",
        .all [patternWord "jp", .maybe (patternWord "e"), patternWord "g"], patternWord "gif",
        patternWord "webp"]),
      .both (patternWord "font/woff") (.maybe (patternWord "2"))],
    .either (.one fun c => c == ';' || c == ',') .textEnd]

/-- Whether a pattern matches at the start of a text. -/
def matchesStart (tables : UploadTables) (pattern : TextPattern) (text : Text) : Bool :=
  (pattern.matchAt tables.isWord (.start text)).isSome

def startsWithBlob (tables : UploadTables) (text : Text) : Bool :=
  "blob:".toList.isPrefixOf (tables.unicode.casefold text)

/-! ## The validator -/

/-- What a validator of a part knows of its package. -/
structure PackageContext where
  artifactKinds : ArtifactKinds
  limits : UploadLimits
  index : ℕ

structure CssValidator where
  references : List Text
  tail : Text
  deriving DecidableEq

def CssValidator.initial : CssValidator :=
  ⟨[], []⟩

/-- The number of characters that are searched again. -/
def codeTailLength : ℕ := 4096

def lastCharacters (text : Text) : Text :=
  (text.reverse.take codeTailLength).reverse

section Validator

variable (tables : UploadTables) (context : PackageContext)

def PackageContext.issue (code : UploadIssueCode) : UploadIssue :=
  ⟨code, some context.index, none⟩

def PackageContext.external (field : UploadIssueField) : UploadIssue :=
  ⟨.externalDependency, some context.index, some field⟩

def PackageContext.cssRequest : ReferenceRequest where
  index := context.index
  allowedKinds := imageKinds ++ fontKinds
  csvCompatibility := false
  externalField := .cssExternalUrl

def isQuote (c : Char) : Bool :=
  c == '"' || c == '\''

/-- The text of `url()` in quotes, if the same quote stands at both ends. -/
def quotedTarget (raw : Text) : Option Text :=
  if 2 ≤ raw.length ∧ raw.head? = raw.getLast? ∧ raw.head?.any isQuote = true then
    some raw.tail.dropLast
  else none

/-- The target of `url()` for the text between its parentheses. -/
def cssTarget (argument : Text) : Except UploadIssue Text := do
  let raw := strip argument
  match quotedTarget raw with
  | some target => .ok target
  | none =>
      refuse (raw.any isQuote = true) (context.issue .invalidAssetReference)
      .ok raw

/-- The check of one match of `_CSS_URL_RE`: the reference to record, if there is one. -/
def inspectCssUrl (argument : Text) : Except UploadIssue (Option Text) := do
  let target ← cssTarget context argument
  refuse (target = [] ∨ target.any isPythonSpace = true) (context.issue .invalidAssetReference)
  if matchesStart tables safeDataUrl target = true ∨ startsWithBlob tables target = true then
    .ok none
  else
    let reference ← resolveAssetReference tables context.artifactKinds context.cssRequest target
    .ok (some reference)

/-- The texts between the parentheses of the matches of `_CSS_URL_RE`. -/
def cssUrlArguments (decoded : Text) : List Text :=
  (cssUrl.findAll tables.isWord decoded).map fun found => found.stop.group 1

/-- The references of a list of matches, after the ones that are known. -/
def inspectCssUrls : List Text → List Text → Except UploadIssue (List Text)
  | references, [] => .ok references
  | references, argument :: rest => do
      let reference ← inspectCssUrl tables context argument
      inspectCssUrls (references ++ reference.toList) rest

/-- `_CssValidator._inspect`. -/
def CssValidator.inspect (state : CssValidator) (combined : Text) :
    Except UploadIssue CssValidator := do
  let decoded := decodeCssEscapes combined
  refuse (cssImport.occursIn tables.isWord decoded = true) (context.external .cssImport)
  refuse (externalUrlToken.occursIn tables.isWord decoded = true)
    (context.external .cssExternalUrl)
  let references ← inspectCssUrls tables context state.references
    (cssUrlArguments tables decoded)
  .ok { state with references := references }

def CssValidator.feed (state : CssValidator) (data : Text) : Except UploadIssue CssValidator :=
  if data = [] then .ok state
  else do
    let combined := state.tail ++ data
    let inspected ← state.inspect tables context combined
    .ok { inspected with tail := lastCharacters combined }

def CssValidator.finish (state : CssValidator) : Except UploadIssue (List Text) := do
  let inspected ← state.inspect tables context state.tail
  .ok inspected.references

end Validator

end Agora
