import Agora.CodeInspection
import Agora.CommentTracking
import Agora.CsvValidation

/-!
# The staging of an upload

`stage_upload` reads the byte stream of every part once.  Each chunk is counted, measured,
decoded, validated and written to a temporary file before the next one is asked for.  The
parser of HTML is a parameter, and so is the device that holds the temporary files.
-/

namespace Agora

/-! ## Temporary files -/

/-- The temporary files of the parts: which of them can be opened and read, how many bytes
they take, and how much of a write is done at once. -/
structure StagingDevice where
  opens : ℕ → Bool
  readable : ℕ → Bool
  capacity : ℕ → ℕ
  progress : ℕ → ℕ → ℕ

def stagingError (index : ℕ) : UploadIssue :=
  ⟨.stagingError, some index, none⟩

def streamError (index : ℕ) : UploadIssue :=
  ⟨.streamError, some index, none⟩

/-- The bytes that one write at the end of a file takes; none where it fails. -/
def StagingDevice.write (device : StagingDevice) (index : ℕ) (file remaining : Bytes) :
    Option ℕ :=
  if device.capacity index ≤ file.length then none
  else some (min remaining.length
    (min (device.capacity index - file.length) (device.progress index file.length + 1)))

/-- The loop of `_write_all`; every write takes a byte at least, which uses up the fuel. -/
def writeAllFrom (device : StagingDevice) (index : ℕ) :
    ℕ → Bytes → Bytes → Except UploadIssue Bytes
  | 0, file, _ => .ok file
  | fuel + 1, file, remaining =>
      if remaining = [] then .ok file
      else
        match device.write index file remaining with
        | none => .error (stagingError index)
        | some written =>
            writeAllFrom device index fuel (file ++ remaining.take written)
              (remaining.drop written)

/-- `_write_all`. -/
def writeAll (device : StagingDevice) (index : ℕ) (file chunk : Bytes) :
    Except UploadIssue Bytes :=
  writeAllFrom device index chunk.length file chunk

/-- `StagedUploadFile.iter_chunks` from a position on. -/
def iterChunksFrom (chunkSize : ℕ) : ℕ → Bytes → List Bytes
  | 0, _ => []
  | fuel + 1, stream =>
      if stream.take chunkSize = [] then []
      else stream.take chunkSize :: iterChunksFrom chunkSize fuel (stream.drop chunkSize)

/-! ## The validators of the content -/

/-- `html.parser.HTMLParser`: the events that a text or the end releases, and the next state
or none where the parser raises an error after them. -/
structure HtmlParser (π : Type) where
  initial : π
  feed : π → Text → List HtmlEvent × Option π
  close : π → List HtmlEvent × Option π
  rawdata : π → Text

/-- The parser, the tracker of comments and the handlers of `_HtmlValidator`. -/
structure HtmlReading (π : Type) where
  parsed : π
  tracker : CommentTracker
  handlers : HtmlValidator CodeInspection

/-- The validators that a part has by its kind. -/
inductive ContentValidator (π : Type) where
  | html (decoder : Utf8.MarkedDecoder) (reading : HtmlReading π)
  | css (decoder : Utf8.MarkedDecoder) (validator : CssValidator)
  | csv (decoder : Utf8.MarkedDecoder)
  | binary

section Staging

variable {π : Type} (tables : UploadTables) (parser : HtmlParser π) (device : StagingDevice)
  (sha256 : Bytes → Text) (context : PackageContext)

def HtmlReading.initial : HtmlReading π :=
  ⟨parser.initial, .initial, .initial .initial⟩

/-- The handling of the events that the parser released, and of its error. -/
def HtmlReading.handle (reading : HtmlReading π) (released : List HtmlEvent × Option π) :
    Except UploadIssue (HtmlReading π) := do
  let handlers ← reading.handlers.handleAll tables.unicode context.limits context.index
    (packageInspections tables context) released.1
  match released.2 with
  | none => .error (htmlMalformed context.index)
  | some parsed => .ok { reading with parsed := parsed, handlers := handlers }

/-- `_HtmlValidator.feed`. -/
def HtmlReading.feed (reading : HtmlReading π) (data : Text) :
    Except UploadIssue (HtmlReading π) :=
  HtmlReading.handle tables context
    { reading with tracker := reading.tracker.trackUnterminatedComment data }
    (parser.feed reading.parsed data)

/-- `_HtmlValidator.finish`. -/
def HtmlReading.finish (reading : HtmlReading π) : Except UploadIssue (List Text) := do
  let closed ← reading.handle tables context (parser.close reading.parsed)
  closed.handlers.finish context.index (packageInspections tables context)
    (parser.rawdata closed.parsed ≠ [] || closed.tracker.commentOpen)

def ContentValidator.initial : UploadKind → ContentValidator π
  | .html => .html .initial (.initial parser)
  | .css => .css .initial .initial
  | .csv => .csv .initial
  | .image | .font => .binary

def isBinaryCharacter (c : Char) : Bool :=
  (c.toNat < 0x20 && !(c == '\t' || c == '\n' || c == '\r')) || c.toNat = 0x7F

/-- `_decode_chunk` and `_validate_decoded_text`. -/
def decodeChunk (decoder : Utf8.MarkedDecoder) (chunk : Bytes) :
    Except UploadIssue (Utf8.MarkedDecoder × Text) :=
  match decoder.feed chunk with
  | none => .error (context.issue .invalidUtf8)
  | some fed => do
      refuse (fed.2.any isBinaryCharacter = true) (context.issue .binaryContent)
      .ok fed

/-- The validation of a chunk. -/
def ContentValidator.feed (chunk : Bytes) :
    ContentValidator π → Except UploadIssue (ContentValidator π)
  | .html decoder reading => do
      let (fed, text) ← decodeChunk context decoder chunk
      let reading ← reading.feed tables parser context text
      .ok (.html fed reading)
  | .css decoder validator => do
      let (fed, text) ← decodeChunk context decoder chunk
      let validator ← validator.feed tables context text
      .ok (.css fed validator)
  | .csv decoder => do
      let (fed, _) ← decodeChunk context decoder chunk
      .ok (.csv fed)
  | .binary => .ok .binary

/-- The end of the decoded text, which releases no text. -/
def ContentValidator.endText :
    ContentValidator π → Except UploadIssue (ContentValidator π)
  | .html decoder reading => do
      refuse (decoder.mayEnd = false) (context.issue .invalidUtf8)
      let reading ← reading.feed tables parser context []
      .ok (.html decoder reading)
  | .css decoder validator => do
      refuse (decoder.mayEnd = false) (context.issue .invalidUtf8)
      let validator ← validator.feed tables context []
      .ok (.css decoder validator)
  | .csv decoder => do
      refuse (decoder.mayEnd = false) (context.issue .invalidUtf8)
      .ok (.csv decoder)
  | .binary => .ok .binary

/-- `_BINARY_SIGNATURES`, as offsets with the bytes at them. -/
def binarySignatures : List (String × List (ℕ × Bytes)) :=
  [("image/png", [(0, [0x89, 0x50, 0x4E, 0x47, 0x0D, 0x0A, 0x1A, 0x0A])]),
    ("image/jpeg", [(0, [0xFF, 0xD8])]),
    ("image/gif", [(0, [0x47, 0x49, 0x46, 0x38, 0x37, 0x61])]),
    ("image/webp", [(0, [0x52, 0x49, 0x46, 0x46]), (8, [0x57, 0x45, 0x42, 0x50])]),
    ("font/woff", [(0, [0x77, 0x4F, 0x46, 0x46])]),
    ("font/woff2", [(0, [0x77, 0x4F, 0x46, 0x32])])]

/-- The two signatures of a GIF. -/
def gifSignatures : List Bytes :=
  [[0x47, 0x49, 0x46, 0x38, 0x37, 0x61], [0x47, 0x49, 0x46, 0x38, 0x39, 0x61]]

/-- `_validate_binary_signature`. -/
def validateBinarySignature (file : Bytes) (mediaType : String) : Except UploadIssue PUnit :=
  match (binarySignatures.find? fun entry => entry.1 = mediaType).map Prod.snd with
  | none => .error (streamError context.index)
  | some checks => do
      refuse (device.readable context.index = false) (stagingError context.index)
      let required := (checks.map fun signed => signed.1 + signed.2.length).foldl max 0
      let opening := file.take required
      refuse (opening.length < required) (context.issue .mediaTypeMismatch)
      if mediaType = "image/gif" then
        refuse (opening.take 6 ∉ gifSignatures) (context.issue .mediaTypeMismatch)
      else
        refuse (∃ signed ∈ checks, (opening.drop signed.1).take signed.2.length ≠ signed.2)
          (context.issue .mediaTypeMismatch)

/-- The last checks of a part: the references that it records. -/
def ContentValidator.finish (file : Bytes) (mediaType : String) :
    ContentValidator π → Except UploadIssue (List Text)
  | .html _ reading => reading.finish tables parser context
  | .css _ validator => validator.finish tables context
  | .csv _ => do
      refuse (device.readable context.index = false) (context.issue .csvMalformed)
      validateCsv tables context.limits context.index file
      .ok []
  | .binary => do
      validateBinarySignature device context file mediaType
      .ok []

/-! ## One part -/

/-- What the loop over the chunks of a part keeps. -/
structure PartStaging (π : Type) where
  byteSize : ℕ
  totalSize : ℕ
  content : ContentValidator π
  temporary : Bytes
  /-- The bytes that the digest has read. -/
  digested : Bytes

/-- The handling of the bytes of a chunk. -/
def PartStaging.stageBytes (staging : PartStaging π) (chunk : Bytes) :
    Except UploadIssue (PartStaging π) := do
  refuse (context.limits.maxFileBytes < staging.byteSize + chunk.length)
    (context.issue .fileTooLarge)
  refuse (context.limits.maxTotalBytes < staging.totalSize + chunk.length)
    (context.issue .totalTooLarge)
  let content ← staging.content.feed tables parser context chunk
  let temporary ← writeAll device context.index staging.temporary chunk
  .ok {
    byteSize := staging.byteSize + chunk.length
    totalSize := staging.totalSize + chunk.length
    content := content
    temporary := temporary
    digested := staging.digested ++ chunk }

/-- The loop over the chunks, after some of them. -/
def PartStaging.stageChunks : ℕ → PartStaging π → List Chunk → Except UploadIssue (PartStaging π)
  | _, staging, [] => .ok staging
  | _, _, .raises :: _ => .error (streamError context.index)
  | count, _, .notBytes :: _ => do
      refuse (context.limits.maxChunksPerFile < count + 1) (context.issue .tooManyChunks)
      .error (context.issue .nonBytesChunk)
  | count, staging, .bytes chunk :: rest => do
      refuse (context.limits.maxChunksPerFile < count + 1) (context.issue .tooManyChunks)
      let staged ← staging.stageBytes tables parser device context chunk
      stageChunks (count + 1) staged rest

/-- `StagedUploadFile`. -/
structure StagedUploadFile where
  kind : UploadKind
  logicalName : LogicalName
  byteSize : ℕ
  sha256 : Text
  stream : Bytes
  mediaType : String
  deriving DecidableEq

/-- `iter_chunks`. -/
def StagedUploadFile.iterChunks (file : StagedUploadFile) (chunkSize : ℕ) : List Bytes :=
  iterChunksFrom chunkSize file.stream.length file.stream

/-- What the staging of a part yields: the file, the running total and the references. -/
structure StagedPart where
  file : StagedUploadFile
  totalSize : ℕ
  references : List Text
  deriving DecidableEq

/-- The start of the loop over the chunks of a part. -/
def PartStaging.start (kind : UploadKind) (totalSize : ℕ) : PartStaging π :=
  ⟨0, totalSize, .initial parser kind, [], []⟩

/-- The end of `_stage_entry`. -/
def PartStaging.finish (staging : PartStaging π) (entry : ManifestEntry) :
    Except UploadIssue StagedPart := do
  let content ← staging.content.endText tables parser context
  refuse (staging.byteSize = 0) (context.issue .emptyFile)
  let references ← content.finish tables parser device context staging.temporary entry.mediaType
  .ok {
    file :=
      { kind := entry.kind
        logicalName := entry.name
        byteSize := staging.byteSize
        sha256 := sha256 staging.digested
        stream := staging.temporary
        mediaType := entry.mediaType }
    totalSize := staging.totalSize
    references := references }

/-- `_stage_entry`. -/
def stageEntry (artifactKinds : ArtifactKinds) (limits : UploadLimits) (totalSize : ℕ)
    (entry : ManifestEntry) : Except UploadIssue StagedPart := do
  let context : PackageContext := ⟨artifactKinds, limits, entry.index⟩
  refuse (device.opens entry.index = false) (stagingError entry.index)
  match entry.part.chunks with
  | none => .error (streamError entry.index)
  | some chunks => do
      let staging ← PartStaging.stageChunks tables parser device context 0
        (.start parser entry.kind totalSize) chunks
      staging.finish tables parser device sha256 context entry

/-! ## The package -/

/-- `StagedUpload`. -/
structure StagedUpload where
  files : List StagedUploadFile
  totalSize : ℕ
  referencedArtifactNames : List Text
  deriving DecidableEq

/-- The loop over the entries, after some of them. -/
def stageEntries (artifactKinds : ArtifactKinds) (limits : UploadLimits) :
    StagedUpload → List ManifestEntry → Except UploadIssue StagedUpload
  | staged, [] => .ok staged
  | staged, entry :: rest => do
      let part ← stageEntry tables parser device sha256 artifactKinds limits staged.totalSize entry
      stageEntries artifactKinds limits
        { files := staged.files ++ [part.file]
          totalSize := part.totalSize
          referencedArtifactNames := staged.referencedArtifactNames ++ part.references } rest

/-- `stage_upload`. -/
def stageUpload (limits : UploadLimits) (parts : List RawPart) :
    Except UploadIssue StagedUpload := do
  let manifest ← buildManifest tables limits parts
  stageEntries tables parser device sha256 (artifactKindsOf manifest) limits ⟨[], 0, []⟩ manifest

end Staging

end Agora
