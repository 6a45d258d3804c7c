import Agora.DomainModels

/-!
# Upload kinds, limits and issues

The extension of a filename alone decides the kind and the media type of an uploaded file.
An upload is refused with an issue that names the part, but never its content.
-/

namespace Agora

/-- `UploadKind` has the values of the persisted kinds. -/
abbrev UploadKind := ArtifactKind

/-- `UPLOAD_EXTENSION_TO_KIND`. -/
def uploadExtensionToKind : List (String × UploadKind) :=
  [("html", .html), ("csv", .csv), ("css", .css), ("png", .image), ("jpg", .image),
    ("jpeg", .image), ("gif", .image), ("webp", .image), ("woff", .font), ("woff2", .font)]

/-- `UPLOAD_EXTENSION_TO_MEDIA_TYPE`. -/
def uploadExtensionToMediaType : List (String × String) :=
  [("html", "text/html"), ("csv", "text/csv"), ("css", "text/css"), ("png", "image/png"),
    ("jpg", "image/jpeg"), ("jpeg", "image/jpeg"), ("gif", "image/gif"),
    ("webp", "image/webp"), ("woff", "font/woff"), ("woff2", "font/woff2")]

/-- `_IMAGE_KINDS`. -/
def imageKinds : List UploadKind := [.image]

/-- `_FONT_KINDS`. -/
def fontKinds : List UploadKind := [.font]

/-- `_SUPPORTING_KINDS`. -/
def supportingKinds : List UploadKind := [.csv, .css, .image, .font]

/-- `_TEXT_KINDS`. -/
def textKinds : List UploadKind := [.html, .csv, .css]

inductive UploadIssueCode where
  | malformedMultipart
  | tooManyFiles
  | missingHtml
  | multipleHtml
  | invalidFilename
  | duplicateFilename
  | extensionMismatch
  | mediaTypeMismatch
  | emptyFile
  | fileTooLarge
  | totalTooLarge
  | tooManyChunks
  | invalidUtf8
  | binaryContent
  | csvMalformed
  | csvTooManyRows
  | csvTooManyFields
  | csvFieldTooLarge
  | csvRecordTooLarge
  | htmlMalformed
  | htmlTooComplex
  | externalDependency
  | invalidAssetReference
  | missingAssetReference
  | invalidCsvReference
  | missingCsvReference
  | nonBytesChunk
  | streamError
  | stagingError
  deriving DecidableEq, Repr

inductive UploadIssueField where
  | filename
  | mediaType
  | cssImport
  | cssExternalUrl
  | htmlProcessingInstruction
  | htmlEmbeddedContent
  | htmlLink
  | htmlScriptSource
  | htmlManifest
  | htmlFormAction
  | htmlResponsiveSource
  | htmlMetaUrl
  | htmlMetaRefresh
  | inlineScriptUrl
  | inlineNetworkApi
  | dynamicDataReference
  | dataTemplateLiteral
  | dataIdentifier
  | dataExpression
  | externalReference
  deriving DecidableEq, Repr

structure UploadIssue where
  code : UploadIssueCode
  partIndex : Option ℕ
  field : Option UploadIssueField
  deriving DecidableEq, Repr

structure UploadLimits where
  maxFileBytes : ℕ
  maxTotalBytes : ℕ
  maxFiles : ℕ
  maxCsvRows : ℕ
  maxCsvFields : ℕ
  maxCsvFieldBytes : ℕ
  maxCsvRecordBytes : ℕ
  maxHtmlTokens : ℕ
  maxHtmlNesting : ℕ
  maxChunksPerFile : ℕ
  files_pos : 1 ≤ maxFiles
  csvRows_pos : 1 ≤ maxCsvRows
  csvFields_pos : 1 ≤ maxCsvFields
  csvFieldBytes_pos : 1 ≤ maxCsvFieldBytes
  csvRecordBytes_pos : 1 ≤ maxCsvRecordBytes
  htmlTokens_pos : 1 ≤ maxHtmlTokens
  htmlNesting_pos : 1 ≤ maxHtmlNesting
  chunksPerFile_pos : 1 ≤ maxChunksPerFile

/-- The default limits. -/
def UploadLimits.default : UploadLimits where
  maxFileBytes := 25 * 1024 * 1024
  maxTotalBytes := 100 * 1024 * 1024
  maxFiles := 51
  maxCsvRows := 100000
  maxCsvFields := 1024
  maxCsvFieldBytes := 1 * 1024 * 1024
  maxCsvRecordBytes := 4 * 1024 * 1024
  maxHtmlTokens := 100000
  maxHtmlNesting := 256
  maxChunksPerFile := 100000
  files_pos := by decide
  csvRows_pos := by decide
  csvFields_pos := by decide
  csvFieldBytes_pos := by decide
  csvRecordBytes_pos := by decide
  htmlTokens_pos := by decide
  htmlNesting_pos := by decide
  chunksPerFile_pos := by decide

/-! ## Refusals -/

/-- Raise the issue if the condition holds. -/
def refuse (condition : Prop) [Decidable condition] (issue : UploadIssue) :
    Except UploadIssue PUnit :=
  if condition then .error issue else .ok ⟨⟩

@[simp] theorem refuse_eq_ok {condition : Prop} [Decidable condition] {issue : UploadIssue}
    {done : PUnit} : refuse condition issue = .ok done ↔ ¬ condition := by
  unfold refuse
  split
  · simp [*]
  · simp [*]

/-- A sequence succeeds exactly when its first part does and the rest does after it. -/
theorem bind_eq_ok_iff {ε α β : Type} {first : Except ε α} {rest : α → Except ε β} {result : β} :
    (first >>= rest) = .ok result ↔ ∃ middle, first = .ok middle ∧ rest middle = .ok result := by
  cases first with
  | error raised => simp [bind, Except.bind]
  | ok middle => simp [bind, Except.bind]

/-- What every accepted step of a fold keeps, the fold keeps. -/
theorem foldlM_ok_induction {ε α β : Type} {step : β → α → Except ε β} {good : β → Prop}
    (hstep : ∀ state item next, good state → step state item = .ok next → good next)
    {items : List α} {state last : β} (hstate : good state)
    (haccept : items.foldlM step state = .ok last) : good last := by
  induction items generalizing state with
  | nil =>
      obtain rfl := Except.ok.inj haccept
      exact hstate
  | cons item rest ih =>
      rw [List.foldlM_cons, bind_eq_ok_iff] at haccept
      obtain ⟨next, hnext, hrest⟩ := haccept
      exact ih (hstep state item next hstate hnext) hrest

end Agora
