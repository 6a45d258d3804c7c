import Agora.AtomicTransactions
import Agora.CanonicalNames
import Agora.DomainRecords

/-!
# Saving users, dashboards and revisions

`save` of each model as a transaction: the checks against the stored original,
`clean`, the declared constraints, and the write.  `full_clean` collects the
errors of its stages into one exception; here the first error stands for it.
-/

namespace Agora

inductive GrantRejection where
  | invalidSoeid
  | unknownUser
  | disabledUser
  | selfGrant
  | alreadyGranted
  deriving DecidableEq, Repr

/-- The exceptions that end a transaction, with their messages. -/
inductive Failure where
  | validation (field : Option String) (message : String)
  | immutableRecord (message : String)
  | integrity (constraint : String)
  | trigger (code : ℤ) (message : String)
  | multipleObjectsReturned
  | doesNotExist
  | assertion
  | value (message : String)
  | projectAccessDenied (message : String)
  | grantViewerRejected (reason : GrantRejection)
  | enhancementAccessDenied (message : String)
  | enhancementValidation (message : String)
  | renderAuthorizationDenied (message : String)
  | renderAuthorizationUnavailable (message : String)
  | projectOwnerUnavailable
  | projectRenameDenied
  | bootstrapAlreadyComplete
  | duplicateSoeid
  | lastAdministrator
  | notAdministrator
  | passwordPolicy (messages : List String)
  | selfDisable
  | userNotFound
  | invalidSoeid (message : String)
  | invalidLogicalName (message : String)
  | revisionCreation (message : String)
  deriving DecidableEq, Repr

abbrev Tx := Transaction Db Failure

open Transaction (check found fail)

/-- What a call draws from its surroundings: the clock, fresh UUIDs, and the
identity values that rolled-back transactions have used up. -/
structure CallContext where
  clock : Time
  uuid : ℕ → Uuid
  skippedIds : ℕ

/-- The library functions that the services call. -/
structure Platform where
  unicode : UnicodeTables
  sha256 : Bytes → Text
  sha256_hex : ∀ bytes, isHexDigest (sha256 bytes) = true
  /-- The messages of `validate_password`; none when the password is accepted. -/
  passwordErrors : Text → User → List String
  /-- `make_password` with the given salt. -/
  makePassword : Text → Text → Text

/-- `get_one_or_none`: more than one row is an error. -/
def getOneOrNone {ρ : Type} (rows : List ρ) : Tx (Option ρ) :=
  match rows with
  | [] => pure none
  | [row] => pure (some row)
  | _ => fail .multipleObjectsReturned

@[simp] theorem runs_getOneOrNone {ρ : Type} {rows : List ρ} {before after : Db}
    {result : Option ρ} :
    (getOneOrNone rows).Runs before result after ↔
      rows = result.toList ∧ before = after := by
  unfold getOneOrNone
  split
  · simp only [Transaction.runs_pure]
    cases result <;> simp
  · rename_i row
    simp only [Transaction.runs_pure]
    cases result <;> simp
  · rename_i hnil hone
    simp only [Transaction.runs_fail, false_iff, not_and]
    intro hrows
    cases result with
    | none => exact absurd hrows hnil
    | some row => exact absurd hrows (hone row)

/-- The value of a text function, or the failure built from its message. -/
def orFail {α : Type} (result : Except String α) (failure : String → Failure) : Tx α :=
  match result with
  | .ok value => pure value
  | .error message => fail (failure message)

@[simp] theorem runs_orFail {α : Type} {result : Except String α}
    {failure : String → Failure} {before after : Db} {value : α} :
    (orFail result failure).Runs before value after ↔
      result = .ok value ∧ before = after := by
  cases result with
  | ok other => simp [orFail]
  | error message => simp [orFail]

/-- Raise the error of a trigger, if there is one. -/
def raiseAny (failure : Option Failure) : Tx PUnit :=
  match failure with
  | some failure => fail failure
  | none => pure ⟨⟩

@[simp] theorem runs_raiseAny {failure : Option Failure} {before after : Db} {done : PUnit} :
    (raiseAny failure).Runs before done after ↔ failure = none ∧ before = after := by
  cases failure with
  | none => simp [raiseAny]
  | some failure => simp [raiseAny]

/-- The next identity value. -/
def takeId : Tx ℕ := do
  let db ← get
  set { db with nextId := db.nextId + 1 }
  pure db.nextId

theorem runs_takeId {before after : Db} {id : ℕ} :
    takeId.Runs before id after ↔
      id = before.nextId ∧ after = { before with nextId := before.nextId + 1 } := by
  simp only [takeId, Transaction.runs_bind, Transaction.runs_get,
    Transaction.runs_set, Transaction.runs_pure]
  constructor
  · rintro ⟨state, middle, ⟨rfl, rfl⟩, done, final, rfl, rfl, rfl⟩
    exact ⟨rfl, rfl⟩
  · rintro ⟨rfl, rfl⟩
    exact ⟨before, before, ⟨rfl, rfl⟩, ⟨⟩, _, rfl, rfl, rfl⟩

/-! ## Users -/

def maxPasswordLength : ℕ := 256

def User.fullClean (row : User) : Tx PUnit := do
  check (row.password ≠ [] ∧ row.password.length ≤ 128)
    (.validation (some "password") "password is not a valid value")
  let canonical ← orFail (canonicalizeSoeid row.soeid) (.validation (some "soeid"))
  check (row.soeid = canonical)
    (.validation (some "soeid") "SOEID must already be canonical")
  let db ← get
  check (db.users.any (fun other => other.id ≠ row.id ∧ other.soeid = row.soeid) = false)
    (.validation (some "soeid") "User with this Soeid already exists.")
  check (0 < row.authVersion)
    (.validation none "Constraint “agora_user_auth_version_positive” is violated.")

/-- `User.save` of a new row. -/
def User.insert (row : User) : Tx User := do
  row.fullClean
  let db ← get
  let users ← found (db.users.create row) (.integrity "TB_TA_AGORA_USER.ID")
  set { db with users := users }
  pure row

/-- A change of the active flag advances the authentication version. -/
def User.advanceAuthVersion (row original : User) : User :=
  if row.isActive ≠ original.isActive then
    { row with authVersion := original.authVersion + 1 }
  else row

/-- The row that `User.save` writes over the original. -/
def User.savedOver (clock : Time) (row original : User) : User :=
  { row.advanceAuthVersion original with updatedAt := clock }

/-- `User.save` of a stored row, which must have been read in the transaction. -/
def User.save (context : CallContext) (row : User) : Tx User := do
  let db ← get
  let original ← found (db.users.get? row.id) .doesNotExist
  check (original.soeid = row.soeid) (.immutableRecord "user identity fields are immutable")
  let saved := row.savedOver context.clock original
  saved.fullClean
  check (original.authVersion ≤ saved.authVersion)
    (.trigger (-20012) "user authentication version cannot move backwards")
  set { db with users := db.users.replace saved }
  pure saved

/-! ## Dashboards -/

def DashboardState.acceptsRevisions : DashboardState → Bool
  | .draft | .published | .unpublished => true
  | .archived | .deleted => false

/-- The states that `_validate_lifecycle_transition` allows after this one. -/
def DashboardState.allows (everPublished : Bool) :
    DashboardState → DashboardState → Bool
  | .draft, .draft | .draft, .published | .draft, .archived | .draft, .deleted => true
  | .published, .published | .published, .unpublished | .published, .archived
  | .published, .deleted => true
  | .unpublished, .unpublished | .unpublished, .published | .unpublished, .archived
  | .unpublished, .deleted => true
  | .archived, .unpublished => everPublished
  | .archived, .draft => !everPublished
  | .archived, .deleted => true
  | _, _ => false

def Dashboard.freshnessComplete (row : Dashboard) : Bool :=
  row.freshnessIntervalSeconds.isSome == row.freshnessConfirmedAt.isSome &&
    row.freshnessIntervalSeconds.isSome == row.staleAfter.isSome

def Dashboard.clean (row : Dashboard) : Tx PUnit := do
  let db ← get
  check (row.freshnessComplete = true)
    (.validation none
      "freshness interval, confirmation, and stale-after must be set together")
  check (∀ interval ∈ row.freshnessIntervalSeconds, 1 ≤ interval ∧ interval ≤ 31536000)
    (.validation (some "freshness_interval_seconds")
      "interval must be between 1 second and 1 year")
  check (∀ interval ∈ row.freshnessIntervalSeconds, ∀ confirmed ∈ row.freshnessConfirmedAt,
      row.staleAfter = some (confirmed + seconds interval))
    (.validation (some "stale_after") "stale-after must equal confirmation plus interval")
  check (row.publicationVersion = 0 ↔ row.lastPublishedAt = none)
    (.validation none
      "publication version zero and missing last-published time must match")
  check (¬ (row.state = .published ∧ row.publicationVersion = 0))
    (.validation none "published dashboards must have a publication version")
  check (∀ revisionId ∈ row.publishedRevisionId, ∃ revision ∈ db.revisions.get? revisionId,
      revision.dashboardId = row.id)
    (.validation (some "published_revision")
      "published revision must belong to this dashboard")
  check (∀ revisionId ∈ row.latestRevisionId, ∃ revision ∈ db.revisions.get? revisionId,
      revision.dashboardId = row.id)
    (.validation (some "latest_revision") "latest revision must belong to this dashboard")

/-- The declared check constraints that `clean` does not already imply. -/
def Dashboard.checkConstraints (row : Dashboard) : Tx PUnit := do
  check (row.state = .published ↔ row.publishedRevisionId.isSome = true)
    (.validation none "Constraint “agora_dashboard_publication_state” is violated.")
  check ((row.state = .draft → row.firstPublishedAt = none) ∧
      (row.state = .published ∨ row.state = .unpublished → row.firstPublishedAt ≠ none))
    (.validation none "Constraint “agora_dashboard_publication_history” is violated.")

def Dashboard.fullClean (row : Dashboard) : Tx PUnit := do
  check (row.name ≠ [] ∧ row.name.length ≤ 200)
    (.validation (some "name") "name is not a valid value")
  check (row.publicationNote.length ≤ 240)
    (.validation (some "publication_note") "publication note is not a valid value")
  row.clean
  row.checkConstraints

/-- `Dashboard.save` of a new row. -/
def Dashboard.insert (row : Dashboard) : Tx Dashboard := do
  check (row.state = .draft ∧ row.latestRevisionId = none ∧
      row.publishedRevisionId = none ∧ row.firstPublishedAt = none ∧
      row.publicationVersion = 0 ∧ row.lastPublishedAt = none ∧
      row.lastOwnershipTransferId = none)
    (.validation none "new dashboards must begin as private drafts")
  row.fullClean
  let db ← get
  let dashboards ← found (db.dashboards.create row)
    (.integrity "TB_TA_AGORA_DASHBOARD.ID")
  set { db with dashboards := dashboards }
  pure row

/-- A first publication or a new revision advances the publication version when
the caller did not. -/
def Dashboard.advancePublication (clock : Time) (row original : Dashboard) : Dashboard :=
  if row.state = .published ∧ row.publishedRevisionId ≠ none ∧
      (original.state ≠ .published ∨
        row.publishedRevisionId ≠ original.publishedRevisionId) ∧
      row.publicationVersion = original.publicationVersion then
    { row with
      publicationVersion := original.publicationVersion + 1
      lastPublishedAt := some clock }
  else row

/-- The row that `Dashboard.save` writes over the original. -/
def Dashboard.savedOver (clock : Time) (row original : Dashboard) : Dashboard :=
  { row.advancePublication clock original with updatedAt := clock }

/-- `_validate_lifecycle_transition` when the version advances. -/
def Dashboard.validateAdvance (row original : Dashboard) : Tx PUnit := do
  check (row.state = .published ∧ row.publishedRevisionId ≠ none)
    (.validation none "a publication version requires a published revision")
  check (∃ published ∈ row.lastPublishedAt,
      ∀ earlier ∈ original.lastPublishedAt, earlier ≤ published)
    (.validation none "last-published time must advance with publication version")

/-- `_validate_lifecycle_transition` when the version stays. -/
def Dashboard.validateKept (row original : Dashboard) : Tx PUnit := do
  check (row.lastPublishedAt = original.lastPublishedAt)
    (.immutableRecord "last-published time changes only on publication")
  check (row.publicationNote = original.publicationNote)
    (.immutableRecord "publication note changes only on publication")
  check (¬ (row.state = .published ∧ original.state = .published ∧
      row.publishedRevisionId ≠ original.publishedRevisionId))
    (.validation none "republishing a revision must advance publication version")

def Dashboard.validateLifecycleTransition (row original : Dashboard) : Tx PUnit := do
  check (original.state ≠ .deleted)
    (.immutableRecord "deleted dashboards are terminal tombstones")
  check (original.firstPublishedAt ≠ none →
      row.firstPublishedAt = original.firstPublishedAt)
    (.immutableRecord "first publication time is immutable")
  check (original.firstPublishedAt = none → row.firstPublishedAt ≠ none →
      original.state = .draft ∧ row.state = .published)
    (.validation none "publication history begins only with first publication")
  check (original.publicationVersion ≤ row.publicationVersion)
    (.immutableRecord "publication version cannot decrease")
  check (row.publicationVersion ≤ original.publicationVersion + 1)
    (.validation none "publication version must advance one version at a time")
  if row.publicationVersion = original.publicationVersion + 1 then
    row.validateAdvance original
  else
    row.validateKept original
  check (original.state.allows original.firstPublishedAt.isSome row.state = true)
    (.validation none "dashboard lifecycle transition is not allowed")
  check (original.state = .archived →
      row.name = original.name ∧ row.description = original.description ∧
      row.latestRevisionId = original.latestRevisionId ∧
      row.publicationNote = original.publicationNote ∧
      row.dataAsOf = original.dataAsOf ∧
      row.freshnessIntervalSeconds = original.freshnessIntervalSeconds ∧
      row.freshnessConfirmedAt = original.freshnessConfirmedAt ∧
      row.staleAfter = original.staleAfter)
    (.validation none "archived dashboards are read-only")

/-- `Dashboard.save` of a stored row. -/
def Dashboard.save (context : CallContext) (row : Dashboard) : Tx Dashboard := do
  let db ← get
  let original ← found (db.dashboards.get? row.id) .doesNotExist
  check (original.ownerId = row.ownerId ∧
      original.lastOwnershipTransferId = row.lastOwnershipTransferId)
    (.immutableRecord "dashboard identity and ownership are immutable")
  let saved := row.savedOver context.clock original
  saved.validateLifecycleTransition original
  saved.fullClean
  set { db with dashboards := db.dashboards.replace saved }
  pure saved

/-! ## Revisions and artifacts -/

def Revision.clean (row : Revision) : Tx PUnit := do
  let db ← get
  let dashboard ← found (db.dashboards.get? row.dashboardId) .doesNotExist
  check (row.createdById = dashboard.ownerId)
    (.validation (some "created_by") "revision creator must own the dashboard")
  check (dashboard.state.acceptsRevisions = true)
    (.validation (some "dashboard") "dashboard state does not accept revisions")
  let creator ← found (db.users.get? row.createdById) .doesNotExist
  check (creator.isActive = true)
    (.validation (some "created_by") "revision creator must be active")

/-- `Revision.save` of a new row. -/
def Revision.insert (row : Revision) : Tx Revision := do
  row.clean
  let db ← get
  check (0 < row.number)
    (.validation none "Constraint “agora_revision_positive_number” is violated.")
  check (db.revisions.any (fun other =>
      other.dashboardId = row.dashboardId ∧ other.number = row.number) = false)
    (.validation none "Constraint “agora_revision_dashboard_number_unique” is violated.")
  let revisions ← found (db.revisions.create row) (.integrity "TB_TA_AGORA_REVISION.ID")
  set { db with revisions := revisions }
  pure row

/-- `ARTIFACT_MEDIA_TYPES`. -/
def artifactMediaTypes : ArtifactKind → List String
  | .html => ["text/html"]
  | .csv => ["text/csv"]
  | .css => ["text/css"]
  | .image => ["image/png", "image/jpeg", "image/gif", "image/webp"]
  | .font => ["font/woff", "font/woff2"]

def Artifact.clean (platform : Platform) (row : Artifact) : Tx PUnit := do
  let db ← get
  let normalized ← orFail (normalizeLogicalName platform.unicode row.logicalName)
    (.validation (some "logical_name"))
  check (row.logicalName = normalized.display ∧ row.nameKey = normalized.comparisonKey)
    (.validation none "logical name and comparison key must be canonical")
  check (row.mediaType ∈ artifactMediaTypes row.kind)
    (.validation (some "media_type") "media type is not allowed for this artifact kind")
  let revision ← found (db.revisions.get? row.revisionId) .doesNotExist
  check (revision.artifactsLocked = false)
    (.validation none "artifacts cannot be added to a complete revision")

/-- `Artifact.save` of a new row; saving normalizes the logical name first. -/
def Artifact.insert (platform : Platform) (row : Artifact) : Tx Artifact := do
  let normalized ← orFail (normalizeLogicalName platform.unicode row.logicalName)
    .invalidLogicalName
  let saved :=
    { row with logicalName := normalized.display, nameKey := normalized.comparisonKey }
  saved.clean platform
  let db ← get
  check (isHexDigest saved.sha256 = true)
    (.validation none "Constraint “agora_artifact_sha256_format” is violated.")
  check (isCanonicalKey saved.storageKey = true)
    (.validation none "Constraint “agora_artifact_storage_key_format” is violated.")
  check (saved.logicalName ≠ [] ∧ saved.nameKey ≠ [])
    (.validation none "Constraint “agora_artifact_names_not_empty” is violated.")
  check (db.artifacts.any (fun other =>
      other.revisionId = saved.revisionId ∧ other.nameKey = saved.nameKey) = false)
    (.validation none "Constraint “agora_artifact_revision_name_unique” is violated.")
  check (db.artifacts.any (fun other => other.storageKey = saved.storageKey) = false)
    (.validation (some "storage_key") "Artifact with this Storage key already exists.")
  check (saved.kind = .html → db.artifacts.any (fun other =>
      other.revisionId = saved.revisionId ∧ other.kind = .html) = false)
    (.integrity "agora_artifact_one_html_idx")
  let artifacts ← found (db.artifacts.create saved) (.integrity "TB_TA_AGORA_ARTIFACT.ID")
  set { db with artifacts := artifacts }
  pure saved

/-! ## Audit events -/

/-- The relations of an audit event; an absent one is null. -/
structure AuditScope where
  actorId : Option Uuid := none
  dashboardId : Option Uuid := none
  revisionId : Option Uuid := none
  targetUserId : Option Uuid := none

/-- `AuditEvent.objects.create`. -/
def recordAudit (context : CallContext) (eventType : AuditEventType) (scope : AuditScope)
    (metadata : List (String × AuditValue)) : Tx PUnit := do
  let id ← takeId
  let db ← get
  let audits ← found (db.audits.create {
      id := id
      eventType := eventType
      occurredAt := context.clock
      actorId := scope.actorId
      dashboardId := scope.dashboardId
      revisionId := scope.revisionId
      targetUserId := scope.targetUserId
      metadata := metadata }) (.integrity "TB_TA_AGORA_AUDIT_EVENT.ID")
  set { db with audits := audits }

end Agora
