import Agora.CssValidation
import Agora.HtmlStructure

/-!
# The inspection of inline code and attributes

Script and handler texts are searched for URLs, for network interfaces and for the data
calls `fetch` and `d3.csv`.  The validator keeps the last characters of the texts it has
seen and searches them again together with the next text, whatever element it belongs to.
-/

namespace Agora

/-! ## Patterns -/

def patternExactly (c : Char) : TextPattern :=
  .one (· == c)

/-- `fetch` or `d3.csv` up to the opening parenthesis. -/
def dataCallOpening : TextPattern :=
  .all [.wordEdge,
    .either (patternWord "fetch")
      (.all [patternWord "d3", patternSpaces, patternExactly '.', patternSpaces,
        patternWord "csv"]),
    patternSpaces, patternExactly '(', patternSpaces]

/-- `_CSV_CALL_RE`; the second group is the URL. -/
def csvCall : TextPattern :=
  .all [dataCallOpening, .group 1 (.one isQuote), .group 2 (.many fun c => !isQuote c), .again 1]

/-- `_CSV_TEMPLATE_CALL_RE`. -/
def csvTemplateCall : TextPattern :=
  .all [dataCallOpening, patternExactly '`', .group 2 (.many (· ≠ '`')), patternExactly '`']

/-- `_D3_CSV_RE`. -/
def d3Csv : TextPattern :=
  .all [.wordEdge, patternWord "d3", patternSpaces, patternExactly '.', patternSpaces,
    patternWord "csv", patternSpaces, patternExactly '(']

/-- `_FETCH_RE`. -/
def fetchCall : TextPattern :=
  .all [.wordEdge, patternWord "fetch", patternSpaces, patternExactly '(']

/-- `_DYNAMIC_NETWORK_RE`. -/
def dynamicNetwork : TextPattern :=
  .any [
    .all [.wordEdge,
      .any (["XMLHttpRequest", "WebSocket", "EventSource", "ImportScripts", "sendBeacon", "Worker",
        "SharedWorker"].map patternWord),
      patternSpaces, patternExactly '('],
    .all [patternWord "navigator", patternSpaces, patternExactly '.', patternSpaces,
      patternWord "serviceWorker", .wordEdge],
    .all [.wordEdge, patternWord "serviceWorker", patternSpaces,
      .one fun c => c == '.' || c == '['],
    .all [.wordEdge, patternWord "import", patternSpaces, patternExactly '('],
    .all [
      .either .textStart (.one fun c => c == ';' || c == '{' || c == '}' || c == '\n'),
      patternSpaces, patternWord "import", .one isPythonSpace, patternSpaces,
      patternClass fun c =>
        isQuote c || c == '{' || c == '*' || isAsciiLetter c || c == '_' || c == '$']]

/-- What must follow the literal of a data call. -/
def afterLiteral : TextPattern :=
  .both patternSpaces (.one fun c => c == ')' || c == ',')

/-- An identifier in front of the position where it ends. -/
def leadingIdentifier : TextPattern :=
  .all [.one fun c => isAsciiLetter c || c == '_' || c == '$',
    .many fun c => isAsciiLetter c || isAsciiDigit c || c == '_' || c == '$', .wordEdge]

/-! ## Script and handler texts -/

/-- What the inspections of an HTML validator keep. -/
structure CodeInspection where
  references : List Text
  scriptTail : Text
  css : CssValidator
  deriving DecidableEq

def CodeInspection.initial : CodeInspection :=
  ⟨[], [], .initial⟩

/-- The offset of a position in its text. -/
def offsetOf (position : TextPosition) : ℕ :=
  position.before.length

section Inspections

variable (tables : UploadTables) (context : PackageContext)

def PackageContext.csvRequest : ReferenceRequest where
  index := context.index
  allowedKinds := [.csv]
  csvCompatibility := true
  externalField := .dynamicDataReference

/-- `_dynamic_data_issue_field` of the text behind the parenthesis. -/
def dynamicDataIssueField (source : Text) : UploadIssueField :=
  let argument := source.dropWhile isPythonSpace
  if argument.head? = some '`' then .dataTemplateLiteral
  else if matchesStart tables leadingIdentifier argument = true then .dataIdentifier
  else .dataExpression

/-- The matches of the two literal forms of a data call, in the order of their starts. -/
def literalCalls (combined : Text) : List TextPattern.Found :=
  (csvCall.findAll tables.isWord combined ++
    csvTemplateCall.findAll tables.isWord combined).insertionSort fun first second =>
      offsetOf first.start ≤ offsetOf second.start

/-- The check of one literal call: the reference to record, if there is one. -/
def inspectLiteralCall (call : TextPattern.Found) : Except UploadIssue (Option Text) := do
  refuse (matchesStart tables afterLiteral call.stop.after = false)
    (context.external .dynamicDataReference)
  let url := call.stop.group 2
  if url.tails.any "$\x7b".toList.isPrefixOf then .ok none
  else
    let reference ← resolveAssetReference tables context.artifactKinds context.csvRequest url
    .ok (some reference)

/-- The references of a list of literal calls, after the ones that are known. -/
def inspectLiteralCalls :
    List Text → List TextPattern.Found → Except UploadIssue (List Text)
  | references, [] => .ok references
  | references, call :: rest => do
      let reference ← inspectLiteralCall tables context call
      inspectLiteralCalls (references ++ reference.toList) rest

/-- Whether some literal call starts at a call or less than 4096 characters before it. -/
def isCovered (literals : List TextPattern.Found) (call : TextPattern.Found) : Bool :=
  literals.any fun literal =>
    offsetOf literal.start ≤ offsetOf call.start &&
      offsetOf call.start < offsetOf literal.start + codeTailLength

/-- The check that literal calls cover every match of a pattern. -/
def inspectCallCover (literals : List TextPattern.Found) :
    List TextPattern.Found → Except UploadIssue PUnit
  | [] => .ok ⟨⟩
  | call :: rest => do
      refuse (isCovered literals call = false)
        (context.external (dynamicDataIssueField tables call.stop.after))
      inspectCallCover literals rest

/-- The references that a text of script code records, searched as a whole. -/
def inspectScriptText (references : List Text) (combined : Text) :
    Except UploadIssue (List Text) := do
  refuse (externalUrlToken.occursIn tables.isWord combined = true)
    (context.external .inlineScriptUrl)
  refuse (dynamicNetwork.occursIn tables.isWord combined = true)
    (context.external .inlineNetworkApi)
  let literals := literalCalls tables combined
  let recorded ← inspectLiteralCalls tables context references literals
  inspectCallCover tables context literals (fetchCall.findAll tables.isWord combined)
  inspectCallCover tables context literals (d3Csv.findAll tables.isWord combined)
  .ok recorded

/-- `_inspect_code`. -/
def CodeInspection.inspectCode (data : Text) (css : Bool) (state : CodeInspection) :
    Except UploadIssue CodeInspection :=
  if css then do
    let fed ← state.css.feed tables context data
    .ok { state with css := fed }
  else do
    let combined := state.scriptTail ++ data
    let references ← inspectScriptText tables context state.references combined
    .ok { state with references := references, scriptTail := lastCharacters combined }

/-- The references that `finish` returns. -/
def CodeInspection.finish (state : CodeInspection) : Except UploadIssue (List Text) := do
  let cssReferences ← state.css.finish tables context
  .ok (state.references ++ cssReferences)

/-! ## Attributes -/

/-- `_URL_ATTRIBUTES`. -/
def urlAttributes : List Text :=
  ["action", "background", "cite", "code", "data", "formaction", "href", "longdesc", "manifest",
    "ping", "poster", "profile", "src", "usemap", "xlink:href"].map String.toList

/-- `_FORM_URL_ATTRIBUTES`. -/
def formUrlAttributes : List Text :=
  ["action", "formaction"].map String.toList

/-- The attributes with their case-folded names, none of which may be repeated. -/
def attributeValues : List Text → HtmlAttributes → Except UploadIssue (List (Text × Text))
  | _, [] => .ok []
  | names, (rawName, rawValue) :: rest => do
      let name := tables.unicode.casefold rawName
      refuse (name ∈ names) (htmlMalformed context.index)
      let values ← attributeValues (name :: names) rest
      .ok ((name, rawValue.getD []) :: values)

/-- The kinds that a `link` element may refer to. -/
def linkKinds (values : List (Text × Text)) : Option (List UploadKind) :=
  let rel := ((values.find? fun value => value.1 = "rel".toList).map Prod.snd).getD []
  let tokens := (splitWords rel).map tables.unicode.casefold
  if "stylesheet".toList ∈ tokens then some [.css]
  else if "icon".toList ∈ tokens ∨ "apple-touch-icon".toList ∈ tokens then some imageKinds
  else none

/-- `_allowed_attribute_kinds`. -/
def allowedAttributeKinds (tag name : Text) : List UploadKind :=
  if name = "href".toList ∧ (tag = "a".toList ∨ tag = "area".toList) then supportingKinds
  else if name = "background".toList ∨ name = "poster".toList then imageKinds
  else if name = "src".toList ∧ (tag = "img".toList ∨ tag = "source".toList) then imageKinds
  else []

/-- `_safe_data_url_for_kinds`. -/
def safeDataUrlForKinds (value : Text) (allowedKinds : List UploadKind) : Bool :=
  matchesStart tables safeDataUrl value &&
    if "data:font/".toList.isPrefixOf (tables.unicode.casefold value) then
      allowedKinds.any (· ∈ fontKinds)
    else allowedKinds.any (· ∈ imageKinds)

/-- `_inspect_url_attribute`: the reference to record, if there is one. -/
def inspectUrlAttribute (value tag name : Text) (allowedKinds : List UploadKind) :
    Except UploadIssue (Option Text) := do
  let request : ReferenceRequest :=
    { index := context.index
      allowedKinds := allowedKinds
      csvCompatibility := allowedKinds = [.csv]
      externalField := .externalReference }
  refuse (value = [] ∨ value.any isPythonSpace = true) request.invalid
  refuse (name ∈ formUrlAttributes) (context.external .htmlFormAction)
  if value.head? = some '#' then do
    refuse (¬ (name = "href".toList ∧ (tag = "a".toList ∨ tag = "area".toList))) request.invalid
    .ok none
  else if allowedKinds ≠ [] ∧ (safeDataUrlForKinds tables value allowedKinds = true ∨
      startsWithBlob tables value = true) then .ok none
  else do
    let reference ← resolveAssetReference tables context.artifactKinds request value
    .ok (some reference)

/-- The inspection of one attribute of an element. -/
def inspectAttribute (tag : Text) (link : Option (List UploadKind)) (entry : Text × Text)
    (state : CodeInspection) : Except UploadIssue CodeInspection := do
  let (name, value) := entry
  refuse (tag = "script".toList ∧ name = "src".toList) (context.external .htmlScriptSource)
  refuse (name = "manifest".toList) (context.external .htmlManifest)
  refuse (name ∈ formUrlAttributes) (context.external .htmlFormAction)
  refuse (name = "srcset".toList ∨ name = "imagesrcset".toList)
    (context.external .htmlResponsiveSource)
  if name ∈ urlAttributes then
    let allowedKinds :=
      if tag = "link".toList ∧ name = "href".toList then link.getD []
      else allowedAttributeKinds tag name
    let reference ← inspectUrlAttribute tables context value tag name allowedKinds
    .ok { state with references := state.references ++ reference.toList }
  else if name = "style".toList then state.inspectCode tables context value true
  else if "on".toList.isPrefixOf name then state.inspectCode tables context value false
  else do
    refuse (tag = "meta".toList ∧ name = "content".toList ∧
      externalUrlToken.occursIn tables.isWord value = true) (context.external .htmlMetaUrl)
    refuse (tag = "meta".toList ∧ name = "http-equiv".toList ∧
      tables.unicode.casefold value = "refresh".toList) (context.external .htmlMetaRefresh)
    .ok state

/-- `_validate_attributes`. -/
def CodeInspection.validateAttributes (tag : Text) (attributes : HtmlAttributes)
    (state : CodeInspection) : Except UploadIssue CodeInspection := do
  let values ← attributeValues tables context [] attributes
  let link := if tag = "link".toList then linkKinds tables values else none
  refuse (tag = "link".toList ∧ (link = none ∨ ∀ entry ∈ values, entry.1 ≠ "href".toList))
    (context.external .htmlLink)
  values.foldlM (fun state entry => inspectAttribute tables context tag link entry state)
    state

/-- The inspections of `_HtmlValidator`. -/
def packageInspections : HtmlInspections CodeInspection (List Text) where
  validateAttributes := CodeInspection.validateAttributes tables context
  inspectCode := CodeInspection.inspectCode tables context
  finish := CodeInspection.finish tables context

end Inspections

end Agora
