import Agora.ArtifactWriteProgram
import Agora.DashboardServices

/-!
# The transactions of revision creation and reservation cleanup

`create_complete_revision` reserves a storage key, writes the bytes and marks the
reservation for each payload, and then commits one revision.  Each function
below is one of its database transactions, or one of the cleanup job's.  A
cleanup transaction that decides to delete bytes stays open while the storage
deletes them, so its decision and its ending are two functions.
-/

namespace Agora

open Transaction (check found fail forEach recover)

/-! ## Reservations -/

def StorageReservation.checkConstraints (row : StorageReservation) : Tx PUnit := do
  check (isCanonicalKey row.storageKey = true)
    (.validation none "Constraint “agora_reservation_storage_key_format” is violated.")
  check (row.verifiedSize = none ↔ row.verifiedSha256 = [])
    (.validation none "Constraint “agora_reservation_verification_match” is violated.")
  check (row.verifiedSha256 = [] ∨ isHexDigest row.verifiedSha256 = true)
    (.validation none "Constraint “agora_reservation_sha256_format” is violated.")
  check (row.storageState = .owned ↔ row.verifiedSize ≠ none)
    (.validation none "Constraint “agora_reservation_state_receipt_match” is violated.")

/-- `StorageReservation.save` of a new row. -/
def StorageReservation.insert (row : StorageReservation) : Tx StorageReservation := do
  row.checkConstraints
  let db ← get
  check (db.reservations.any (fun other => other.storageKey = row.storageKey) = false)
    (.integrity "TB_TA_AGORA_STORAGE_RESERVATION.STORAGE_KEY")
  let reservations ← found (db.reservations.create row)
    (.integrity "TB_TA_AGORA_STORAGE_RESERVATION.ID")
  set { db with reservations := reservations }
  pure row

/-- `StorageReservation.save` of a stored row. -/
def StorageReservation.save (row : StorageReservation) : Tx StorageReservation := do
  let db ← get
  let original ← found (db.reservations.get? row.id) .doesNotExist
  check (original.storageKey = row.storageKey ∧ original.createdAt = row.createdAt ∧
      original.expiresAt = row.expiresAt)
    (.immutableRecord "storage reservation identity is immutable")
  check (original.verifiedSize ≠ none → row.verifiedSize = original.verifiedSize ∧
      row.verifiedSha256 = original.verifiedSha256)
    (.immutableRecord "storage verification receipt is immutable")
  check (row.storageState ≠ original.storageState →
      original.storageState = .reserved ∧
        (row.storageState = .owned ∨ row.storageState = .collision))
    (.immutableRecord "storage reservation state transition is not allowed")
  check (original.cleanupRequired = true → row.cleanupRequired = true)
    (.immutableRecord "storage cleanup requirement cannot be cleared")
  row.checkConstraints
  set { db with reservations := db.reservations.replace row }
  pure row

def reservationLifetime : ℤ := seconds (24 * 3600)

def keyAttempts : ℕ := 8

def Db.artifactOwns (db : Db) (storageKey : Text) : Bool :=
  db.artifacts.any fun artifact => artifact.storageKey = storageKey

/-- The insertion of `_reserve_storage_key`: the reservation, or nothing when another
reservation has the key. -/
def insertReservation (context : CallContext) (key : StorageKey) :
    Tx (Option StorageReservation) :=
  recover
    (do
      let reservation ← StorageReservation.insert {
        id := context.uuid 0
        storageKey := key.value
        storageState := .reserved
        createdAt := context.clock
        expiresAt := context.clock + reservationLifetime
        verifiedSize := none
        verifiedSha256 := []
        cleanupRequired := false }
      pure (some reservation))
    fun
      | .integrity _ => pure none
      | failure => fail failure

def markReservationVerified (reservationId : Uuid) (receipt : StoredArtifact) :
    Tx PUnit := do
  let db ← get
  let reservation ← found (db.reservations.get? reservationId) .doesNotExist
  check (reservation.storageKey = receipt.key.value)
    (.revisionCreation "storage receipt did not match its reservation")
  let _ ← StorageReservation.save { reservation with
    verifiedSize := some receipt.byteSize
    verifiedSha256 := receipt.sha256
    storageState := .owned
    cleanupRequired := false }

def markReservationCollision (reservationId : Uuid) : Tx PUnit := do
  let db ← get
  let reservation ← found (db.reservations.get? reservationId) .doesNotExist
  if reservation.storageState = .collision then
    pure ⟨⟩
  else
    check (reservation.storageState = .reserved)
      (.revisionCreation "verified storage reservation cannot become a collision")
    let _ ← StorageReservation.save { reservation with storageState := .collision }

/-- Set the cleanup requirement of a stored reservation. -/
def StorageReservation.requireCleanup (reservation : StorageReservation) : Tx PUnit := do
  let _ ← StorageReservation.save { reservation with cleanupRequired := true }

def markReservationCleanupRequired (reservationId : Uuid) : Tx PUnit := do
  let db ← get
  let reservation ← found (db.reservations.get? reservationId) .doesNotExist
  reservation.requireCleanup

/-- Delete a stored reservation. -/
def StorageReservation.delete (reservation : StorageReservation) : Tx PUnit :=
  modify fun db => { db with
    reservations := db.reservations.keep fun other => other.id ≠ reservation.id }

/-! ## Payloads -/

/-- A one-shot byte stream with a logical name. -/
structure ArtifactPayload where
  kind : ArtifactKind
  logicalName : Text
  chunks : List Chunk
  expectedSize : ℤ
  expectedSha256 : Text
  mediaType : Option Text
  deriving DecidableEq

def removeQuotes (value : Text) : Text :=
  stripOf ['"'] value

/-- Whether a media-type parameter is the one that is normalized away. -/
def isCharsetParameter (tables : UnicodeTables) (base parameter : Text) : Bool :=
  let key := parameter.takeWhile (· ≠ '=')
  let value := (parameter.dropWhile (· ≠ '=')).tail
  parameter.contains '=' && tables.casefold key == "charset".toList &&
    tables.casefold (removeQuotes (strip value)) == "utf-8".toList &&
      "text/".toList.isPrefixOf base

/-- `_authoritative_media_type`. -/
def authoritativeMediaType (tables : UnicodeTables) (payload : ArtifactPayload) :
    Except String String :=
  let allowed := artifactMediaTypes payload.kind
  match payload.mediaType with
  | none =>
      match allowed with
      | [only] => .ok only
      | _ => .error "artifact media type is required for this artifact kind"
  | some supplied =>
      if strip supplied = [] then
        .error "artifact media type is not supported"
      else
        let pieces := (supplied.splitOn ';').map strip
        let base := tables.casefold (pieces.headD [])
        match allowed.find? fun mediaType => mediaType.toList = base with
        | none => .error "artifact media type is not allowed for this artifact kind"
        | some mediaType =>
            if pieces.tail.all (isCharsetParameter tables base) then .ok mediaType
            else .error "artifact media type is not supported"

/-- The names of the payloads not yet checked, given the comparison keys seen. -/
def validatePayloads (tables : UnicodeTables) (seen : List Text) :
    List ArtifactPayload → Tx (List LogicalName)
  | [] => pure []
  | payload :: rest => do
      check (0 ≤ payload.expectedSize)
        (.revisionCreation "artifact size must be nonnegative")
      check (isHexDigest payload.expectedSha256 = true)
        (.revisionCreation "artifact SHA-256 must be lowercase hexadecimal")
      let _ ← orFail (authoritativeMediaType tables payload) .revisionCreation
      let name ← orFail (normalizeLogicalName tables payload.logicalName)
        .invalidLogicalName
      check (name.comparisonKey ∉ seen)
        (.revisionCreation "artifact logical names must be unique after normalization")
      let names ← validatePayloads tables (name.comparisonKey :: seen) rest
      pure (name :: names)

/-- `_validate_payload_set`. -/
def validatePayloadSet (tables : UnicodeTables) (payloads : List ArtifactPayload) :
    Tx (List LogicalName) := do
  check (payloads.countP (fun payload => payload.kind = .html) = 1)
    (.revisionCreation "a complete revision requires exactly one HTML artifact")
  validatePayloads tables [] payloads

/-- The checks of `create_complete_revision` before its first reservation. -/
def checkRevisionRequest (platform : Platform) (dashboardId createdById : Uuid)
    (payloads : List ArtifactPayload) : Tx (List LogicalName) := do
  let names ← validatePayloadSet platform.unicode payloads
  let db ← get
  check (∃ dashboard ∈ db.dashboards.get? dashboardId,
      dashboard.ownerId = createdById ∧ db.isActiveUser dashboard.ownerId = true ∧
        dashboard.state.acceptsRevisions = true)
    (.revisionCreation
      "revision creator must own an active revision-accepting dashboard")
  pure names

/-! ## The commit of a revision -/

/-- A payload whose bytes are stored and whose reservation is marked verified. -/
structure PreparedArtifact where
  reservationId : Uuid
  name : LogicalName
  kind : ArtifactKind
  receipt : StoredArtifact
  mediaType : String

/-- The reservation still vouches for the receipt, and no artifact has its key. -/
def verifyPrepared (item : PreparedArtifact) : Tx PUnit := do
  let db ← get
  let reservation ← found (db.reservations.get? item.reservationId) .assertion
  check (reservation.storageKey = item.receipt.key.value ∧
      reservation.verifiedSize = some item.receipt.byteSize ∧
        reservation.verifiedSha256 = item.receipt.sha256 ∧
          reservation.cleanupRequired = false)
    (.revisionCreation "artifact storage reservation is not verified")
  check (db.artifactOwns item.receipt.key.value = false)
    (.revisionCreation "artifact storage key is already owned")

/-- The number after the latest revision. -/
def Db.nextRevisionNumber (db : Db) (dashboard : Dashboard) : Tx ℕ := do
  match dashboard.latestRevisionId with
  | none => pure 1
  | some latestId =>
      let latest ← found (db.revisions.get? latestId) .doesNotExist
      pure (latest.number + 1)

/-- The artifact row of a prepared payload. -/
def PreparedArtifact.row (item : PreparedArtifact) (id revisionId : Uuid) : Artifact where
  id := id
  revisionId := revisionId
  kind := item.kind
  logicalName := item.name.display
  nameKey := item.name.comparisonKey
  storageKey := item.receipt.key.value
  byteSize := item.receipt.byteSize
  mediaType := item.mediaType
  sha256 := item.receipt.sha256

/-- The insertion of the artifacts of a revision, each with its position. -/
def insertArtifacts (platform : Platform) (context : CallContext) (revisionId : Uuid) :
    List (ℕ × PreparedArtifact) → Tx PUnit :=
  forEach fun item => do
    let _ ← Artifact.insert platform (item.2.row (context.uuid (item.1 + 1)) revisionId)

/-- The update that completes a revision, with `AGORA_REVISION_COMPLETE_GUARD`. -/
def lockArtifacts (revision : Revision) : Tx PUnit := do
  let db ← get
  check (∃ stored ∈ db.revisions.get? revision.id, stored.artifactsLocked = false)
    (.revisionCreation "revision artifacts could not be finalized")
  check ((db.artifacts.where? fun artifact =>
      artifact.revisionId = revision.id ∧ artifact.kind = .html).length = 1)
    (.trigger (-20008) "a committed revision requires exactly one HTML artifact")
  set { db with revisions := db.revisions.replace { revision with artifactsLocked := true } }

def commitRevisionMetadata (platform : Platform) (context : CallContext)
    (dashboardId createdById : Uuid) (prepared : List PreparedArtifact) :
    Tx Revision := do
  let db ← get
  let dashboard ← found ((db.dashboards.get? dashboardId).filter fun dashboard =>
    dashboard.ownerId = createdById)
    (.revisionCreation "revision creator must own the dashboard")
  check (db.isActiveUser createdById = true)
    (.revisionCreation "revision creator must be active")
  check (dashboard.state.acceptsRevisions = true)
    (.revisionCreation "dashboard state does not accept revisions")
  let reservationIds := prepared.map PreparedArtifact.reservationId
  check ((db.reservations.where? fun reservation =>
      reservation.id ∈ reservationIds).length = prepared.length)
    (.revisionCreation "artifact storage reservation is missing")
  forEach verifyPrepared prepared
  let number ← db.nextRevisionNumber dashboard
  let revision ← Revision.insert {
    id := context.uuid 0
    dashboardId := dashboard.id
    number := number
    createdById := createdById
    createdAt := context.clock
    artifactsLocked := false }
  insertArtifacts platform context revision.id (prepared.zipIdx.map Prod.swap)
  lockArtifacts revision
  let _ ← Dashboard.save context { dashboard with latestRevisionId := some revision.id }
  recordAudit context .revisionCreated
    { actorId := some createdById
      dashboardId := some dashboard.id
      revisionId := some revision.id }
    [("artifact_count", .number prepared.length), ("revision_number", .number number)]
  modify fun db => { db with
    reservations := db.reservations.keep fun reservation =>
      reservation.id ∉ reservationIds }
  pure { revision with artifactsLocked := true }

/-! ## Cleanup -/

/-- What a cleanup transaction does with its reservation: it is done, or it deletes
the bytes of the key while it holds the row. -/
inductive CleanupDecision where
  | settled
  | deleteBytes
  deriving DecidableEq, Repr

/-- The identifiers that `cleanup_expired_reservations` works through, in the order
of expiry and identifier. -/
def Db.expiredReservations (db : Db) (cutoff : Time) (limit : ℕ) : List Uuid :=
  (((db.reservations.where? fun reservation =>
      reservation.expiresAt ≤ cutoff ∧
        ¬ (reservation.storageState = .reserved ∧ reservation.cleanupRequired = true)).insertionSort
    fun first second => first.expiresAt < second.expiresAt ∨
      (first.expiresAt = second.expiresAt ∧ first.id ≤ second.id)).take limit).map
    StorageReservation.id

/-- One transaction of `cleanup_expired_reservations`, up to the deletion. -/
def decideExpired (cutoff : Time) (reservationId : Uuid) : Tx CleanupDecision := do
  let db ← get
  match (db.reservations.get? reservationId).filter fun reservation =>
      reservation.expiresAt ≤ cutoff with
  | none => pure .settled
  | some reservation =>
      if db.artifactOwns reservation.storageKey = true then
        reservation.delete
        pure .settled
      else if reservation.storageState = .collision then
        reservation.delete
        pure .settled
      else if reservation.storageState = .reserved then
        reservation.requireCleanup
        pure .settled
      else
        pure .deleteBytes

/-- What `_cleanup_unowned` remembers about one reservation. -/
structure CleanupCandidate where
  reservationId : Uuid
  key : StorageKey
  ownsBytes : Bool
  uncertainOutcome : Bool
  deriving DecidableEq

/-- One transaction of `_cleanup_unowned`, up to the deletion. -/
def decideUnowned (candidate : CleanupCandidate) : Tx CleanupDecision := do
  let db ← get
  match db.reservations.get? candidate.reservationId with
  | none => pure .settled
  | some reservation =>
      if reservation.storageKey ≠ candidate.key.value then
        reservation.requireCleanup
        pure .settled
      else if db.artifactOwns candidate.key.value = true then
        reservation.delete
        pure .settled
      else if reservation.storageState = .collision then
        reservation.delete
        pure .settled
      else if candidate.uncertainOutcome = true then
        if reservation.cleanupRequired = false then
          reservation.requireCleanup
          pure .settled
        else
          pure .settled
      else if reservation.cleanupRequired = true then
        pure .settled
      else if candidate.ownsBytes = false then
        reservation.delete
        pure .settled
      else
        pure .deleteBytes

/-- The end of a cleanup transaction after the deletion succeeded or failed. -/
def finishDeletion (reservationId : Uuid) (deleted : Bool) : Tx PUnit := do
  let db ← get
  let reservation ← found (db.reservations.get? reservationId) .doesNotExist
  if deleted = true then
    reservation.delete
  else
    reservation.requireCleanup

end Agora
