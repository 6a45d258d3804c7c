import Agora.ArtifactStorageKeys

/-!
# The system calls of `FilesystemArtifactStorage.write`

A write is a program whose every step makes at most one system call.  Its phase
is the program counter together with the local variables that are still live
there.  `advance` executes one step against the file system; the result of the
call is an input, so that any call may fail and a transfer may be short.  A call
that takes no further step is a crashed one.
-/

namespace Agora

/-- What the chunk iterator yields next. -/
inductive Chunk where
  | bytes (chunk : Bytes)
  | notBytes
  | raises
  deriving DecidableEq, Repr

inductive WriteOutcome where
  | returned (receipt : StoredArtifact)
  | committed (receipt : StoredArtifact)
  | raised (error : StorageError)
  deriving DecidableEq

inductive WritePhase where
  | validatingExpectations
  | creatingDirectory (directory : StorageDirectory) (rest : List StorageDirectory)
  | assertingDirectory (created : Bool) (rest : List StorageDirectory)
  | resolvingDirectory (created : Bool) (rest : List StorageDirectory)
  | syncingParent (rest : List StorageDirectory)
  | openingPending
  | streaming (descriptor : Inode) (received : Bytes)
  | writingChunk (descriptor : Inode) (received remaining : Bytes)
  | syncingFile (descriptor : Inode) (received : Bytes)
  | rewinding (descriptor : Inode) (received : Bytes)
  | readingBack (descriptor : Inode) (received stored : Bytes)
  | closingAfterFailure (descriptor : Inode) (error : StorageError)
  | unlinkingAfterFailure (error : StorageError)
  | closing (descriptor : Inode) (receipt : StoredArtifact)
  | linking (receipt : StoredArtifact)
  | unlinkingPending (receipt : StoredArtifact)
  | syncingDirectory (receipt : StoredArtifact)
  | finished (outcome : WriteOutcome)
  deriving DecidableEq

/-- The result of a system call: it succeeds, moving `count` bytes if it moves
any, it raises `OSError`, or it inspects an entry of an unsafe kind. -/
inductive SystemResult where
  | succeeded (count : ℕ)
  | failed
  | unsafeEntry
  deriving DecidableEq, Repr

structure WriteCall where
  key : StorageKey
  chunks : List Chunk
  expectedSize : Option ℤ
  expectedSha256 : Option Text
  phase : WritePhase

def readSize : ℕ := 1024 * 1024

namespace WriteCall

def start (key : StorageKey) (chunks : List Chunk) (expectedSize : Option ℤ)
    (expectedSha256 : Option Text) : WriteCall :=
  ⟨key, chunks, expectedSize, expectedSha256, .validatingExpectations⟩

def goto (call : WriteCall) (phase : WritePhase) : WriteCall :=
  { call with phase := phase }

def raise (call : WriteCall) (kind : StorageErrorKind) (message : String) : WriteCall :=
  call.goto (.finished (.raised (.storage kind message)))

/-- `_validate_expectations`: the expectation it refuses, if any. -/
def refusedExpectation (call : WriteCall) : Option String :=
  match call.expectedSize with
  | some size =>
      if size < 0 then some "expected artifact size must be nonnegative"
      else refusedDigest
  | none => refusedDigest
where
  refusedDigest : Option String :=
    match call.expectedSha256 with
    | some digest =>
        if isHexDigest digest then none
        else some "expected SHA-256 must be lowercase hexadecimal"
    | none => none

def exceedsExpectedSize (call : WriteCall) (byteSize : ℕ) : Bool :=
  match call.expectedSize with
  | some size => decide (size < (byteSize : ℤ))
  | none => false

/-- The checks between the last chunk and `os.fsync`. -/
def refusedStream (sha256 : Bytes → Text) (call : WriteCall) (received : Bytes) :
    Option String :=
  if call.expectedSize.any (fun size => size != (received.length : ℤ)) then
    some "artifact size did not match its expectation"
  else if call.expectedSha256.any (fun digest => sha256 received != digest) then
    some "artifact digest did not match its expectation"
  else none

/-- The next directory of `_paths`, or the pending file below the last one. -/
def enterDirectories : List StorageDirectory → WritePhase
  | [] => .openingPending
  | directory :: rest => .creatingDirectory directory rest

/-- `_write_all` while bytes remain, and back to the chunk loop after. -/
def continueWriting (descriptor : Inode) (received remaining : Bytes) : WritePhase :=
  match remaining with
  | [] => .streaming descriptor received
  | byte :: rest => .writingChunk descriptor received (byte :: rest)

/-- One iteration of the chunk loop of `_stream_and_verify`, or its end. -/
def nextChunk (sha256 : Bytes → Text) (call : WriteCall) (descriptor : Inode)
    (received : Bytes) : WriteCall :=
  match call.chunks with
  | [] =>
      match call.refusedStream sha256 received with
      | some message =>
          call.goto (.closingAfterFailure descriptor (.storage .storageIntegrityError message))
      | none => call.goto (.syncingFile descriptor received)
  | .raises :: rest =>
      { call with chunks := rest, phase := .closingAfterFailure descriptor .chunkSource }
  | .notBytes :: rest =>
      { call with chunks := rest, phase := .closingAfterFailure descriptor .notBytes }
  | .bytes chunk :: rest =>
      if call.exceedsExpectedSize (received ++ chunk).length then
        { call with
          chunks := rest
          phase := .closingAfterFailure descriptor
            (.storage .storageIntegrityError "artifact exceeded its expected size") }
      else
        { call with
          chunks := rest
          phase := continueWriting descriptor (received ++ chunk) chunk }

/-- One `os.read` of `_readback`, or its comparison at the end of the file. -/
def readback (sha256 : Bytes → Text) (call : WriteCall) (descriptor : Inode)
    (received stored content : Bytes) (count : ℕ) : WriteCall :=
  match content.drop stored.length with
  | [] =>
      if stored.length != received.length || sha256 stored != sha256 received then
        call.goto (.closingAfterFailure descriptor
          (.storage .storageIntegrityError "stored artifact failed read-back verification"))
      else
        call.goto (.closing descriptor (.of sha256 call.key received))
  | byte :: rest =>
      call.goto (.readingBack descriptor received
        (stored ++ (byte :: rest).take (min (max count 1) readSize)))

end WriteCall

open WriteCall in
/-- One step of a write.  Results a call cannot have count as failures. -/
@[grind unfold] def advance (sha256 : Bytes → Text) (files : StorageFiles) (call : WriteCall)
    (result : SystemResult) : StorageFiles × WriteCall :=
  match call.phase, result with
  | .validatingExpectations, _ =>
      match call.refusedExpectation with
      | some message => (files, call.raise .storageIntegrityError message)
      | none => (files, call.goto (enterDirectories call.key.directories))
  | .creatingDirectory directory rest, .succeeded _ =>
      match files.makeDirectory directory with
      | .ok next => (next, call.goto (.assertingDirectory true rest))
      | .error .alreadyExists => (files, call.goto (.assertingDirectory false rest))
      | .error .notFound =>
          (files, call.raise .artifactStorageError
            "could not create private artifact storage directory")
  | .creatingDirectory _ _, _ =>
      (files, call.raise .artifactStorageError
        "could not create private artifact storage directory")
  | .assertingDirectory created rest, .succeeded _ =>
      (files, call.goto (.resolvingDirectory created rest))
  | .assertingDirectory _ _, .unsafeEntry =>
      (files, call.raise .unsafeStorageEntry "artifact storage directory is unsafe")
  | .assertingDirectory _ _, .failed =>
      (files, call.raise .artifactStorageError
        "could not inspect artifact storage directory")
  | .resolvingDirectory true rest, .succeeded _ =>
      (files, call.goto (.syncingParent rest))
  | .resolvingDirectory false rest, .succeeded _ =>
      (files, call.goto (enterDirectories rest))
  | .resolvingDirectory _ _, .unsafeEntry =>
      (files, call.raise .unsafeStorageEntry "storage key escaped the configured root")
  | .resolvingDirectory _ _, .failed =>
      (files, call.raise .artifactStorageError
        "could not resolve artifact storage directory")
  | .syncingParent rest, .succeeded _ => (files, call.goto (enterDirectories rest))
  | .syncingParent _, _ =>
      (files, call.raise .artifactStorageError
        "artifact storage directory durability check failed")
  | .openingPending, .succeeded _ =>
      match files.createExclusive call.key.pendingPath with
      | .ok (next, descriptor) => (next, call.goto (.streaming descriptor []))
      | .error .alreadyExists =>
          (files, call.raise .storageCollision "pending storage key already exists")
      | .error .notFound =>
          (files, call.raise .artifactStorageError
            "could not create private pending artifact")
  | .openingPending, _ =>
      (files, call.raise .artifactStorageError
        "could not create private pending artifact")
  | .streaming descriptor received, _ =>
      (files, call.nextChunk sha256 descriptor received)
  | .writingChunk descriptor received remaining, .succeeded count =>
      match remaining.take count with
      | [] => (files, call.goto (.closingAfterFailure descriptor .operatingSystem))
      | byte :: written =>
          (files.append descriptor (byte :: written),
            call.goto (continueWriting descriptor received (remaining.drop count)))
  | .writingChunk descriptor _ _, _ =>
      (files, call.goto (.closingAfterFailure descriptor .operatingSystem))
  | .syncingFile descriptor received, .succeeded _ =>
      (files, call.goto (.rewinding descriptor received))
  | .syncingFile descriptor _, _ =>
      (files, call.goto (.closingAfterFailure descriptor .operatingSystem))
  | .rewinding descriptor received, .succeeded _ =>
      (files, call.goto (.readingBack descriptor received []))
  | .rewinding descriptor _, _ =>
      (files, call.goto (.closingAfterFailure descriptor .operatingSystem))
  | .readingBack descriptor received stored, .succeeded count =>
      (files, call.readback sha256 descriptor received stored
        (files.content descriptor) count)
  | .readingBack descriptor _ _, _ =>
      (files, call.goto (.closingAfterFailure descriptor .operatingSystem))
  | .closingAfterFailure _ error, .succeeded _ =>
      (files, call.goto (.unlinkingAfterFailure error))
  | .closingAfterFailure _ _, _ =>
      (files, call.goto (.unlinkingAfterFailure
        (.storage .artifactStorageError "could not close incomplete private artifact")))
  | .unlinkingAfterFailure error, .succeeded _ =>
      match files.unlink call.key.pendingPath with
      | .ok next => (next, call.goto (.finished (.raised error)))
      | .error _ => (files, call.goto (.finished (.raised error)))
  | .unlinkingAfterFailure _, _ =>
      (files, call.raise .storageCleanupRequired "could not clean incomplete artifact")
  | .closing _ receipt, .succeeded _ => (files, call.goto (.linking receipt))
  | .closing _ _, _ =>
      (files, call.goto (.unlinkingAfterFailure
        (.storage .artifactStorageError "could not close private pending artifact")))
  | .linking receipt, .succeeded _ =>
      match files.link call.key.pendingPath call.key.finalPath with
      | .ok next => (next, call.goto (.unlinkingPending receipt))
      | .error .alreadyExists =>
          (files, call.goto (.unlinkingAfterFailure
            (.storage .storageCollision "final storage key already exists")))
      | .error .notFound =>
          (files, call.goto (.unlinkingAfterFailure
            (.storage .artifactStorageError
              "could not atomically install private artifact")))
  | .linking _, _ =>
      (files, call.goto (.unlinkingAfterFailure
        (.storage .artifactStorageError "could not atomically install private artifact")))
  | .unlinkingPending receipt, .succeeded _ =>
      match files.unlink call.key.pendingPath with
      | .ok next => (next, call.goto (.syncingDirectory receipt))
      | .error _ => (files, call.goto (.finished (.committed receipt)))
  | .unlinkingPending receipt, _ =>
      (files, call.goto (.finished (.committed receipt)))
  | .syncingDirectory receipt, .succeeded _ =>
      (files, call.goto (.finished (.returned receipt)))
  | .syncingDirectory receipt, _ =>
      (files, call.goto (.finished (.committed receipt)))
  | .finished _, _ => (files, call)

end Agora
