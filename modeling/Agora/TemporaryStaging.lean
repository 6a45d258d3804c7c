import Agora.RaisingPrograms
import Agora.UploadStaging

/-!
# The temporary files of a staging

`stage_upload` with its files: every operation on a file may raise, and so may the byte
stream of a part at any chunk.  A file is open from its creation until it is closed; closing
one marks it closed also where the close raises.  The checks are those of the pure staging.
-/

namespace Agora.TemporaryStaging

open RaisingProgram

/-! ## Files -/

/-- What the handlers tell apart: `UploadRejected`, `ValueError` and `AttributeError`, any other
`Exception`, and a `BaseException` that is none. -/
inductive Raised where
  | rejected (issue : UploadIssue)
  | value
  | error
  | interrupt

structure TemporaryFile where
  content : Bytes
  position : ℕ
  isOpen : Bool

/-- The bytes at the position are written over. -/
def TemporaryFile.write (file : TemporaryFile) (data : Bytes) : TemporaryFile :=
  { file with
    content := file.content.take file.position ++ data ++
      file.content.drop (file.position + data.length)
    position := file.position + data.length }

/-- The files in the order of their creation and the number of operations so far. -/
structure World where
  files : List TemporaryFile
  operations : ℕ

/-- What each operation raises, if it does, and how many bytes a write takes at most. -/
structure Disk where
  raises : ℕ → Option Raised
  progress : ℕ → ℕ

abbrev Staging (α : Type) := RaisingProgram World Raised α

section Files

variable (disk : Disk)

def operate : Staging ℕ := fun world =>
  match disk.raises world.operations with
  | none => (.ok world.operations, { world with operations := world.operations + 1 })
  | some raised => (.error raised, { world with operations := world.operations + 1 })

/-- The file behind a handle; a closed file raises. -/
def openFile (handle : ℕ) : Staging TemporaryFile := fun world =>
  match world.files[handle]? with
  | none => (.error .value, world)
  | some file => if file.isOpen then (.ok file, world) else (.error .value, world)

def setFile (handle : ℕ) (file : TemporaryFile) : Staging PUnit :=
  modifyState fun world => { world with files := world.files.set handle file }

/-- `tempfile.TemporaryFile`. -/
def createFile : Staging ℕ := do
  let _ ← operate disk
  let world ← readState
  modifyState fun world => { world with files := world.files ++ [⟨[], 0, true⟩] }
  pure world.files.length

def write (handle : ℕ) (data : Bytes) : Staging ℕ := do
  let file ← openFile handle
  let operation ← operate disk
  let written := data.take (disk.progress operation)
  setFile handle (file.write written)
  pure written.length

def read (handle count : ℕ) : Staging Bytes := do
  let file ← openFile handle
  let _ ← operate disk
  let bytes := (file.content.drop file.position).take count
  setFile handle { file with position := file.position + bytes.length }
  pure bytes

/-- `seek(0)`. -/
def rewind (handle : ℕ) : Staging PUnit := do
  let file ← openFile handle
  let _ ← operate disk
  setFile handle { file with position := 0 }

def flush (handle : ℕ) : Staging PUnit := do
  let _ ← openFile handle
  let _ ← operate disk
  pure ⟨⟩

/-- `close`; a closed file stays as it is. -/
def close (handle : ℕ) : Staging PUnit := do
  let world ← readState
  match world.files[handle]? with
  | some ⟨content, position, true⟩ => do
      setFile handle ⟨content, position, false⟩
      let _ ← operate disk
      pure ⟨⟩
  | _ => pure ⟨⟩

/-- `_close_one_safely`. -/
def closeOneSafely (handle : ℕ) : Staging PUnit :=
  (close disk handle).handle fun _ => pure ⟨⟩

end Files

/-! ## The helpers of a part -/

def liftIssue {α : Type} (outcome : Except UploadIssue α) : Staging α :=
  lift (outcome.mapError Raised.rejected)

/-- A rejection passes; any other `Exception` becomes one. -/
def rejecting {α : Type} (issue : UploadIssue) (body : Staging α) : Staging α :=
  body.handle fun
    | .rejected found => raising (.rejected found)
    | .interrupt => raising .interrupt
    | .value | .error => raising (.rejected issue)

/-- What the byte stream of a part yields or raises. -/
inductive StreamEvent where
  | bytes (chunk : Bytes)
  | notBytes
  | raises (raised : Raised)

/-- The byte stream of a part, unless it cannot be opened. -/
abbrev ByteStream := Except Raised (List StreamEvent)

/-- `_source_iterator`. -/
def sourceIterator : ByteStream → Staging (List StreamEvent)
  | .ok events => pure events
  | .error .interrupt => raising .interrupt
  | .error _ => raising .error

section Helpers

variable {π : Type} (tables : UploadTables) (parser : HtmlParser π) (disk : Disk)
  (sha256 : Bytes → Text) (context : PackageContext) (handle : ℕ)

/-- The loop of `_write_all`; every turn writes a byte at least, which uses up the fuel. -/
def writeAllFrom : ℕ → Bytes → Staging PUnit
  | 0, _ => pure ⟨⟩
  | fuel + 1, remaining =>
      if remaining = [] then pure ⟨⟩
      else do
        let written ← write disk handle remaining
        if written = 0 then raising .error
        else writeAllFrom fuel (remaining.drop written)

/-- `_write_all`. -/
def writeAll (chunk : Bytes) : Staging PUnit :=
  rejecting (stagingError context.index) (writeAllFrom disk handle chunk.length chunk)

/-- The loop of `_validate_csv` over the lines that its wrapper reads. -/
def inspectLines (reader : Csv.Reader) (progress : CsvProgress) (byteCount : ℕ) :
    List Text → Staging CsvProgress
  | [] => do
      let _ ← operate disk
      if reader.mayEnd then pure progress else raising .error
  | line :: rest => do
      let _ ← operate disk
      match reader.readLine (csvFieldLimit context.limits) line with
      | none => raising .error
      | some next =>
          if next.state = .startRecord then do
            let inspected ← liftIssue (progress.inspect context.limits context.index next.fields
              (byteCount + utf8Length line))
            inspectLines .initial inspected (byteCount + utf8Length line) rest
          else inspectLines next progress (byteCount + utf8Length line) rest

/-- The wrapper owns the file during the body and is detached after it; one that stays attached
closes the file when it is finalized. -/
def withWrapper {α : Type} (body : Staging α) : Staging α := fun world =>
  match operate disk (body world).2 with
  | (.ok _, after) => ((body world).1, after)
  | (.error .value, after) => ((body world).1, (closeOneSafely disk handle after).2)
  | (.error raised, after) => (.error raised, (closeOneSafely disk handle after).2)

/-- The records of the text behind the wrapper. -/
def inspectText (content : Bytes) : Staging CsvProgress :=
  match decodeMarked content with
  | none => raising (.rejected (context.issue .invalidUtf8))
  | some text =>
      if Csv.acceptsFieldLimit (csvFieldLimit context.limits) then
        inspectLines disk context .initial .initial 0 (Csv.splitLines text)
      else raising .error

/-- `_validate_csv`. -/
def validateCsv : Staging PUnit :=
  rejecting (context.issue .csvMalformed) do
    rewind disk handle
    let file ← openFile handle
    let _ ← operate disk
    let progress ← withWrapper disk handle (inspectText disk context file.content)
    liftIssue (refuse (progress.sawValue = false) (context.issue .emptyFile))
    liftIssue (refuse (htmlLooksLike.occursIn tables.isWord progress.opening = true)
      (context.issue .mediaTypeMismatch))

/-- The comparison of `_validate_binary_signature`. -/
def checkSignature (checks : List (ℕ × Bytes)) (required : ℕ) (opening : Bytes)
    (mediaType : String) : Except UploadIssue PUnit := do
  refuse (opening.length < required) (context.issue .mediaTypeMismatch)
  if mediaType = "image/gif" then
    refuse (gifSignatures.contains (opening.take 6) = false) (context.issue .mediaTypeMismatch)
  else
    refuse (∃ signed ∈ checks, (opening.drop signed.1).take signed.2.length ≠ signed.2)
      (context.issue .mediaTypeMismatch)

/-- `_validate_binary_signature`. -/
def validateBinarySignature (mediaType : String) : Staging PUnit :=
  match (binarySignatures.find? fun entry => entry.1 = mediaType).map Prod.snd with
  | none => raising .error
  | some checks => rejecting (stagingError context.index) do
      rewind disk handle
      let required := (checks.map fun signed => signed.1 + signed.2.length).foldl max 0
      let opening ← read disk handle required
      liftIssue (checkSignature context checks required opening mediaType)
      rewind disk handle

/-- The last checks of a part: the references that it records. -/
def finishContent (mediaType : String) : ContentValidator π → Staging (List Text)
  | .html _ reading => liftIssue (reading.finish tables parser context)
  | .css _ validator => liftIssue (validator.finish tables context)
  | .csv _ => do
      validateCsv tables disk context handle
      pure []
  | .binary => do
      validateBinarySignature disk context handle mediaType
      pure []

/-! ## One part -/

/-- What the loop over the chunks of a part keeps beside the file. -/
structure Progress (π : Type) where
  byteSize : ℕ
  totalSize : ℕ
  content : ContentValidator π
  digested : Bytes

def Progress.stageBytes (progress : Progress π) (chunk : Bytes) : Staging (Progress π) := do
  liftIssue (refuse (context.limits.maxFileBytes < progress.byteSize + chunk.length)
    (context.issue .fileTooLarge))
  liftIssue (refuse (context.limits.maxTotalBytes < progress.totalSize + chunk.length)
    (context.issue .totalTooLarge))
  let content ← liftIssue (progress.content.feed tables parser context chunk)
  writeAll disk context handle chunk
  pure {
    byteSize := progress.byteSize + chunk.length
    totalSize := progress.totalSize + chunk.length
    content := content
    digested := progress.digested ++ chunk }

/-- The loop over the chunks, after some of them. -/
def Progress.stageChunks : ℕ → Progress π → List StreamEvent → Staging (Progress π)
  | _, progress, [] => pure progress
  | _, _, .raises raised :: _ => raising raised
  | count, _, .notBytes :: _ => do
      liftIssue (refuse (context.limits.maxChunksPerFile < count + 1)
        (context.issue .tooManyChunks))
      raising (.rejected (context.issue .nonBytesChunk))
  | count, progress, .bytes chunk :: rest => do
      liftIssue (refuse (context.limits.maxChunksPerFile < count + 1)
        (context.issue .tooManyChunks))
      let next ← progress.stageBytes tables parser disk context handle chunk
      stageChunks (count + 1) next rest

/-- `StagedUploadFile`. -/
structure StagedUploadFile where
  kind : UploadKind
  logicalName : LogicalName
  byteSize : ℕ
  sha256 : Text
  handle : ℕ
  mediaType : String

structure StagedPart where
  file : StagedUploadFile
  totalSize : ℕ
  references : List Text

/-- The body of `_stage_entry` once its file is open. -/
def stageBody (stream : ByteStream) (totalSize : ℕ) (entry : ManifestEntry) :
    Staging StagedPart := do
  let events ← sourceIterator stream
  let progress ← Progress.stageChunks tables parser disk context handle 0
    ⟨0, totalSize, .initial parser entry.kind, []⟩ events
  let content ← liftIssue (progress.content.endText tables parser context)
  liftIssue (refuse (progress.byteSize = 0) (context.issue .emptyFile))
  let references ← finishContent tables parser disk context handle entry.mediaType content
  flush disk handle
  rewind disk handle
  pure {
    file :=
      { kind := entry.kind
        logicalName := entry.name
        byteSize := progress.byteSize
        sha256 := sha256 progress.digested
        handle := handle
        mediaType := entry.mediaType }
    totalSize := progress.totalSize
    references := references }

end Helpers

section Package

variable {π : Type} (tables : UploadTables) (parser : HtmlParser π) (disk : Disk)
  (sha256 : Bytes → Text) (streams : ℕ → ByteStream)

/-- `_stage_entry`. -/
def stageEntry (artifactKinds : ArtifactKinds) (limits : UploadLimits) (totalSize : ℕ)
    (entry : ManifestEntry) : Staging StagedPart := do
  let handle ← (createFile disk).handle fun
    | .interrupt => raising .interrupt
    | _ => raising (.rejected (stagingError entry.index))
  let body := stageBody tables parser disk sha256 ⟨artifactKinds, limits, entry.index⟩ handle
    (streams entry.index) totalSize entry
  body.handle fun raised => do
    closeOneSafely disk handle
    match raised with
    | .rejected issue => raising (.rejected issue)
    | .interrupt => raising .interrupt
    | .value | .error => raising (.rejected (streamError entry.index))

/-! ## The package -/

/-- `StagedUpload`. -/
structure StagedUpload where
  files : List StagedUploadFile
  totalSize : ℕ
  referencedArtifactNames : List Text
  closed : Bool

/-- `_close_staged_safely`. -/
def closeStagedSafely : List StagedUploadFile → Staging PUnit
  | [] => pure ⟨⟩
  | file :: rest => do
      closeOneSafely disk file.handle
      closeStagedSafely rest

/-- The loop over the entries, after some of them, with its handler at the entry that fails. -/
def stageEntries (artifactKinds : ArtifactKinds) (limits : UploadLimits) :
    StagedUpload → List ManifestEntry → Staging StagedUpload
  | staged, [] => pure staged
  | staged, entry :: rest => do
      let part ← (stageEntry tables parser disk sha256 streams artifactKinds limits
          staged.totalSize entry).handle fun raised => do
        closeStagedSafely disk staged.files
        raising raised
      stageEntries artifactKinds limits
        { files := staged.files ++ [part.file]
          totalSize := part.totalSize
          referencedArtifactNames := staged.referencedArtifactNames ++ part.references
          closed := false } rest

/-- `stage_upload`. -/
def stageUpload (limits : UploadLimits) (parts : List RawPart) : Staging StagedUpload := do
  let manifest ← liftIssue (buildManifest tables limits parts)
  stageEntries tables parser disk sha256 streams (artifactKindsOf manifest) limits
    ⟨[], 0, [], false⟩ manifest

/-! ## Replay and close -/

/-- The reads of `iter_chunks`; every chunk takes a byte at least, which uses up the fuel. -/
def readChunks (handle chunkSize : ℕ) : ℕ → Staging (List Bytes)
  | 0 => pure []
  | fuel + 1 => do
      let chunk ← read disk handle chunkSize
      if chunk = [] then pure []
      else do
        let rest ← readChunks handle chunkSize fuel
        pure (chunk :: rest)

/-- `iter_chunks`. -/
def StagedUploadFile.iterChunks (file : StagedUploadFile) (chunkSize : ℕ) :
    Staging (List Bytes) :=
  if chunkSize < 1 then raising .value
  else
    RaisingProgram.handle
      (do
        rewind disk file.handle
        let stored ← openFile file.handle
        readChunks disk file.handle chunkSize (stored.content.length + 1))
      fun
        | .rejected issue => raising (.rejected issue)
        | .interrupt => raising .interrupt
        | .value | .error => raising .error

/-- The loop of `StagedUpload.close`, which keeps the first exception. -/
def closeFiles : Option Raised → List StagedUploadFile → Staging (Option Raised)
  | first, [] => pure first
  | first, file :: rest => do
      let raised ← RaisingProgram.handle
        (do
          close disk file.handle
          pure none)
        fun raised => pure (some raised)
      closeFiles (first.or raised) rest

/-- `StagedUpload.close`. -/
def StagedUpload.close (upload : StagedUpload) : Staging StagedUpload :=
  if upload.closed then pure upload
  else do
    let first ← closeFiles disk none upload.files
    match first with
    | none => pure { upload with closed := true }
    | some raised => raising raised

end Package

end Agora.TemporaryStaging
