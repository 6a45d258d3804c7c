import Agora.ArtifactWriteOutcomes
import Agora.InterleavedParties
import Agora.RevisionServices

/-!
# Uploads and cleanup jobs, step by step

`create_complete_revision` and `cleanup_expired_reservations` work on the database and on the
artifact storage.  Each database transaction is one step, and so is each storage call, whose
system calls may fail one by one.  A cleanup transaction keeps its reservation locked while
the storage deletes the bytes.  A process may die before any step.
-/

namespace Agora

/-- What the caller of a transaction learns.  A `lost` one has committed, but its caller gets
an error. -/
inductive CommitReport where
  | answered
  | failed
  | lost
  deriving DecidableEq, Repr

def reported {α : Type} (body : Tx α) (db : Db) : CommitReport → Db × Option α
  | .answered => (body.settle db, body.value? db)
  | .failed => (db, none)
  | .lost => (body.settle db, none)

/-! ## Uploads -/

/-- The next step of an upload.  `deleting` and `deleted` are inside a transaction of
`_cleanup_unowned`; `cleaning []` has raised. -/
inductive UploadPhase where
  | reserving (attempts : ℕ)
  | inserting (attempts : ℕ) (key : StorageKey)
  | writing (candidate : CleanupCandidate)
  | markingVerified (candidate : CleanupCandidate) (receipt : StoredArtifact)
  | markingCommitted (candidate : CleanupCandidate) (receipt : StoredArtifact)
  | markingCollision (candidate : CleanupCandidate)
  | markingCleanupRequired (candidate : CleanupCandidate)
  | committing
  | cleaning (rest : List CleanupCandidate)
  | deleting (candidate : CleanupCandidate) (rest : List CleanupCandidate)
  | deleted (candidate : CleanupCandidate) (rest : List CleanupCandidate) (removed : Bool)
  | finished (revision : Revision)
  | crashed
  deriving DecidableEq

/-- A call of `create_complete_revision` with the normalized names of its payloads. -/
structure UploadSession where
  dashboardId : Uuid
  createdById : Uuid
  payloads : List (ArtifactPayload × LogicalName)
  candidates : List CleanupCandidate
  prepared : List PreparedArtifact
  phase : UploadPhase

namespace UploadSession

def goto (session : UploadSession) (phase : UploadPhase) : UploadSession :=
  { session with phase := phase }

/-- The payload that the loop is at. -/
def current? (session : UploadSession) : Option (ArtifactPayload × LogicalName) :=
  session.payloads[session.prepared.length]?

/-- The next iteration of the loop, or the commit after it. -/
def next (session : UploadSession) : UploadSession :=
  session.goto (if session.prepared.length < session.payloads.length then .reserving keyAttempts
    else .committing)

/-- The loop starts at the first payload. -/
def start (dashboardId createdById : Uuid) (payloads : List (ArtifactPayload × LogicalName)) :
    UploadSession :=
  next {
    dashboardId := dashboardId
    createdById := createdById
    payloads := payloads
    candidates := []
    prepared := []
    phase := .committing }

/-- An exception inside the loop or the commit. -/
def fail (session : UploadSession) : UploadSession :=
  session.goto (.cleaning session.candidates)

/-- An exception after the reservation of the current payload. -/
def failWith (session : UploadSession) (candidate : CleanupCandidate) : UploadSession :=
  session.goto (.cleaning (session.candidates ++ [candidate]))

/-- The next attempt of `_reserve_storage_key`. -/
def retry (session : UploadSession) : ℕ → UploadSession
  | 0 => session.fail
  | attempts + 1 => session.goto (.reserving (attempts + 1))

/-- The candidate of a new reservation. -/
def reserved (session : UploadSession) (attempts : ℕ) (key : StorageKey) :
    Option StorageReservation → UploadSession
  | some reservation => session.goto (.writing ⟨reservation.id, key, false, false⟩)
  | none => session.retry attempts

/-- The current payload joins the prepared ones. -/
def prepare (tables : UnicodeTables) (session : UploadSession) (candidate : CleanupCandidate)
    (receipt : StoredArtifact) : UploadSession :=
  match session.current? with
  | none => session.failWith candidate
  | some payload =>
      match authoritativeMediaType tables payload.1 with
      | .error _ => session.failWith candidate
      | .ok mediaType =>
          next { session with
            candidates := session.candidates ++ [candidate]
            prepared := session.prepared ++ [{
              reservationId := candidate.reservationId
              name := payload.2
              kind := payload.1.kind
              receipt := receipt
              mediaType := mediaType }] }

/-- What the handlers around `storage.write` do with its outcome; a write without one has
died. -/
def written (session : UploadSession) (candidate : CleanupCandidate) : WritePhase → UploadSession
  | .finished (.returned receipt) =>
      session.goto (.markingVerified { candidate with ownsBytes := true } receipt)
  | .finished (.committed receipt) =>
      session.goto (.markingCommitted { candidate with ownsBytes := true } receipt)
  | .finished (.raised (.storage .storageCollision _)) =>
      session.goto (.markingCollision candidate)
  | .finished (.raised (.storage .storageCleanupRequired _)) =>
      session.goto (.markingCleanupRequired { candidate with uncertainOutcome := true })
  | .finished (.raised _) => session.failWith candidate
  | _ => session.goto .crashed

def decided (session : UploadSession) (candidate : CleanupCandidate)
    (rest : List CleanupCandidate) : CleanupDecision → UploadSession
  | .settled => session.goto (.cleaning rest)
  | .deleteBytes => session.goto (.deleting candidate rest)

end UploadSession

/-! ## Cleanup jobs -/

inductive CleanupPhase where
  | deciding (rest : List Uuid)
  | deleting (reservationId : Uuid) (key : StorageKey) (rest : List Uuid)
  | deleted (reservationId : Uuid) (removed : Bool) (rest : List Uuid)
  | ended
  deriving DecidableEq

/-- A call of `cleanup_expired_reservations`. -/
structure CleanupJob where
  cutoff : Time
  phase : CleanupPhase

namespace CleanupJob

def goto (job : CleanupJob) (phase : CleanupPhase) : CleanupJob :=
  { job with phase := phase }

/-- The constructor of `StorageKey`. -/
def storageKey? (value : Text) : Option StorageKey :=
  if hcanonical : isCanonicalKey value = true then some ⟨value, hcanonical⟩ else none

/-- After its decision the job leaves the transaction or calls `storage.delete`; a text that
is no key counts as a failed deletion. -/
def decided (job : CleanupJob) (reservationId : Uuid) (rest : List Uuid) :
    CleanupDecision × Text → CleanupJob
  | (.settled, _) => job.goto (.deciding rest)
  | (.deleteBytes, value) =>
      match storageKey? value with
      | some key => job.goto (.deleting reservationId key rest)
      | none => job.goto (.deleted reservationId false rest)

/-- One transaction of the job up to the deletion, with the key it is about to delete. -/
def decide (cutoff : Time) (reservationId : Uuid) : Tx (CleanupDecision × Text) := do
  let db ← get
  let decision ← decideExpired cutoff reservationId
  pure (decision, ((db.reservations.get? reservationId).map StorageReservation.storageKey).getD [])

end CleanupJob

/-! ## Parties -/

inductive UploadParty where
  | upload (session : UploadSession)
  | cleanup (job : CleanupJob)

/-- Both stores, the reservations that open transactions have locked, and the identifiers
that were ever drawn for a reservation. -/
structure UploadStore where
  db : Db
  files : StorageFiles
  locked : List Uuid
  issued : List Uuid

/-- A transaction that a party is about to run: the rows it waits for, the identifier it
draws, its effect with the party after it, and the party after an error. -/
structure PartyTransaction where
  rows : List Uuid
  drawn : List Uuid
  body : Tx UploadParty
  onFailure : UploadParty

section Transactions

variable (platform : Platform) (context : CallContext)

def UploadSession.transaction? (session : UploadSession) : Option PartyTransaction :=
  match session.phase with
  | .inserting attempts key => some {
      rows := []
      drawn := [context.uuid 0]
      body := do
        let reservation ← insertReservation context key
        pure (.upload (session.reserved attempts key reservation))
      onFailure := .upload session.fail }
  | .markingVerified candidate receipt => some {
      rows := [candidate.reservationId]
      drawn := []
      body := do
        markReservationVerified candidate.reservationId receipt
        pure (.upload (session.prepare platform.unicode candidate receipt))
      onFailure := .upload (session.failWith candidate) }
  | .markingCommitted candidate receipt => some {
      rows := [candidate.reservationId]
      drawn := []
      body := do
        markReservationVerified candidate.reservationId receipt
        pure (.upload (session.failWith candidate))
      onFailure := .upload (session.failWith candidate) }
  | .markingCollision candidate => some {
      rows := [candidate.reservationId]
      drawn := []
      body := do
        markReservationCollision candidate.reservationId
        pure (.upload (session.failWith candidate))
      onFailure := .upload (session.failWith candidate) }
  | .markingCleanupRequired candidate => some {
      rows := [candidate.reservationId]
      drawn := []
      body := do
        markReservationCleanupRequired candidate.reservationId
        pure (.upload (session.failWith candidate))
      onFailure := .upload (session.failWith candidate) }
  | .committing => some {
      rows := session.prepared.map PreparedArtifact.reservationId
      drawn := []
      body := do
        let revision ← commitRevisionMetadata platform context session.dashboardId
          session.createdById session.prepared
        pure (.upload (session.goto (.finished revision)))
      onFailure := .upload session.fail }
  | .cleaning (candidate :: rest) => some {
      rows := [candidate.reservationId]
      drawn := []
      body := do
        let decision ← decideUnowned candidate
        pure (.upload (session.decided candidate rest decision))
      onFailure := .upload (session.goto (.cleaning rest)) }
  | .deleted candidate rest removed => some {
      rows := []
      drawn := []
      body := do
        finishDeletion candidate.reservationId removed
        pure (.upload (session.goto (.cleaning rest)))
      onFailure := .upload (session.goto (.cleaning rest)) }
  | _ => none

def CleanupJob.transaction? (job : CleanupJob) : Option PartyTransaction :=
  match job.phase with
  | .deciding (reservationId :: rest) => some {
      rows := [reservationId]
      drawn := []
      body := do
        let decision ← CleanupJob.decide job.cutoff reservationId
        pure (.cleanup (job.decided reservationId rest decision))
      onFailure := .cleanup (job.goto .ended) }
  | .deleted reservationId removed rest => some {
      rows := []
      drawn := []
      body := do
        finishDeletion reservationId removed
        pure (.cleanup (job.goto (.deciding rest)))
      onFailure := .cleanup (job.goto .ended) }
  | _ => none

def UploadParty.transaction? : UploadParty → Option PartyTransaction
  | .upload session => session.transaction? platform context
  | .cleanup job => job.transaction?

end Transactions

/-- The reservation that the open transaction of a party has locked. -/
def UploadParty.held : UploadParty → List Uuid
  | .upload session =>
      match session.phase with
      | .deleting candidate _ => [candidate.reservationId]
      | .deleted candidate _ _ => [candidate.reservationId]
      | _ => []
  | .cleanup job =>
      match job.phase with
      | .deleting reservationId _ _ => [reservationId]
      | .deleted reservationId _ _ => [reservationId]
      | _ => []

/-- A process dies; the database undoes its open transaction. -/
def UploadParty.crashed : UploadParty → UploadParty
  | .upload session => .upload (session.goto .crashed)
  | .cleanup job => .cleanup (job.goto .ended)

namespace UploadStore

/-- The locks after a party has moved on. -/
def relocked (store : UploadStore) (party moved : UploadParty) : List Uuid :=
  moved.held ++ store.locked.filter fun id => id ∉ party.held

/-- A party has to wait for a row that another transaction has locked; it may fail meanwhile. -/
def Blocks (store : UploadStore) (transaction : PartyTransaction) (report : CommitReport) : Prop :=
  report ≠ .failed ∧ ∃ id ∈ transaction.rows, id ∈ store.locked

instance (store : UploadStore) (transaction : PartyTransaction) (report : CommitReport) :
    Decidable (store.Blocks transaction report) := by
  unfold Blocks
  infer_instance

/-- `uuid4` never draws an identifier again. -/
def Draws (store : UploadStore) (transaction : PartyTransaction) : Prop :=
  ∀ id ∈ transaction.drawn, id ∉ store.issued

instance (store : UploadStore) (transaction : PartyTransaction) :
    Decidable (store.Draws transaction) := by
  unfold Draws
  infer_instance

/-- A party runs its transaction. -/
def transact (store : UploadStore) (party : UploadParty) (transaction : PartyTransaction)
    (report : CommitReport) : Option (UploadStore × UploadParty) :=
  if store.Blocks transaction report then none
  else if store.Draws transaction then
    let result := reported transaction.body store.db report
    let moved := result.2.getD transaction.onFailure
    some ({ store with
      db := result.1
      locked := store.relocked party moved
      issued := transaction.drawn ++ store.issued }, moved)
  else none

/-- A party calls the storage, or dies in the call. -/
def called (store : UploadStore) (party moved : UploadParty) (files : StorageFiles) :
    UploadStore × UploadParty :=
  ({ store with files := files, locked := store.relocked party moved }, moved)

end UploadStore

/-- A step of a party: the draw of a storage key, a transaction, a call of the storage with
the results of its system calls, or the end of its process. -/
inductive UploadLabel where
  | generate (key : StorageKey) (report : CommitReport)
  | transact (context : CallContext) (report : CommitReport)
  | store (results : List SystemResult)
  | crash

/-- `storage.generate_key` and the query for an artifact that has the key. -/
def UploadSession.generated (session : UploadSession) (db : Db) (attempts : ℕ) (key : StorageKey) :
    CommitReport → UploadSession
  | .answered =>
      if db.artifactOwns key.value = true then session.retry attempts
      else session.goto (.inserting attempts key)
  | _ => session.fail

/-- What a deletion has answered; one that has not ended has died. -/
def DeletePhase.answer? : DeletePhase → Option Bool
  | .returned => some true
  | .raised _ _ => some false
  | _ => none

/-- The write call of an upload for its current payload. -/
def UploadSession.writeCall? (session : UploadSession) (candidate : CleanupCandidate) :
    Option WriteCall :=
  session.current?.map fun payload =>
    .start candidate.key payload.1.chunks (some payload.1.expectedSize)
      (some payload.1.expectedSha256)

section Steps

variable (platform : Platform) (store : UploadStore)

def UploadSession.callStorage (session : UploadSession) (results : List SystemResult) :
    Option (UploadStore × UploadParty) :=
  match session.phase with
  | .writing candidate =>
      (session.writeCall? candidate).map fun call =>
        let last := writeAlone platform.sha256 store.files call results
        store.called (.upload session) (.upload (session.written candidate last.2.phase)) last.1
  | .deleting candidate rest =>
      let last := runDelete candidate.key store.files results
      match last.2.answer? with
      | some removed =>
          some (store.called (.upload session)
            (.upload (session.goto (.deleted candidate rest removed))) last.1)
      | none => some (store.called (.upload session) (.upload (session.goto .crashed)) last.1)
  | _ => none

def CleanupJob.callStorage (job : CleanupJob) (results : List SystemResult) :
    Option (UploadStore × UploadParty) :=
  match job.phase with
  | .deleting reservationId key rest =>
      let last := runDelete key store.files results
      match last.2.answer? with
      | some removed =>
          some (store.called (.cleanup job)
            (.cleanup (job.goto (.deleted reservationId removed rest))) last.1)
      | none => some (store.called (.cleanup job) (.cleanup (job.goto .ended)) last.1)
  | _ => none

def UploadParty.callStorage (results : List SystemResult) : UploadParty →
    Option (UploadStore × UploadParty)
  | .upload session => session.callStorage platform store results
  | .cleanup job => job.callStorage store results

def UploadParty.generate (key : StorageKey) (report : CommitReport) : UploadParty →
    Option (UploadStore × UploadParty)
  | .upload session =>
      match session.phase with
      | .reserving (attempts + 1) =>
          some (store, .upload (session.generated store.db attempts key report))
      | _ => none
  | .cleanup _ => none

def UploadParty.act (party : UploadParty) : UploadLabel → Option (UploadStore × UploadParty)
  | .generate key report => party.generate store key report
  | .transact context report =>
      (party.transaction? platform context).bind fun transaction =>
        store.transact party transaction report
  | .store results => party.callStorage platform store results
  | .crash => some (store.called party party.crashed store.files)

end Steps

/-! ## The system -/

/-- The checks of `create_complete_revision` have passed, or a job has read its candidates. -/
inductive UploadParty.Starts (platform : Platform) (store : UploadStore) : UploadParty → Prop
  | upload {dashboardId createdById : Uuid} {payloads : List ArtifactPayload}
      {names : List LogicalName}
      (hchecked : (checkRevisionRequest platform dashboardId createdById payloads).value?
        store.db = some names) :
      Starts platform store
        (.upload (UploadSession.start dashboardId createdById (payloads.zip names)))
  | cleanup {cutoff : Time} {limit : ℕ} (hlimit : 1 ≤ limit) :
      Starts platform store (.cleanup {
        cutoff := cutoff
        phase := .deciding (store.db.expiredReservations cutoff limit) })

/-- No file of any key is stored. -/
def StorageFiles.Unused (files : StorageFiles) : Prop :=
  ∀ key : StorageKey, files.read key.finalPath = none ∧ files.read key.pendingPath = none

/-- A new installation; no other service writes artifacts, revisions or reservations. -/
def uploadSystem (platform : Platform) : PartySystem UploadStore UploadParty UploadLabel where
  initial := fun store => store.db.artifacts.rows = [] ∧ store.db.revisions.rows = [] ∧
    store.db.reservations.rows = [] ∧ StorageFiles.Unused store.files ∧ store.locked = [] ∧
      store.issued = []
  environment := fun store next => ∃ db, next = { store with db := db } ∧
    db.artifacts = store.db.artifacts ∧ db.revisions = store.db.revisions ∧
      db.reservations = store.db.reservations
  starts := UploadParty.Starts platform
  act := fun store party label => party.act platform store label
  spares := fun _ _ _ _ => True

end Agora
