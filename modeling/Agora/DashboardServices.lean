import Agora.AccessServices

/-!
# Dashboards and accounts

The project services, the publication half of `agora.core.enhancements`, and the
administrator services of `agora.core.authentication`, each as one transaction.
-/

namespace Agora

open Transaction (check found fail)

/-! ## Projects -/

def createProject (context : CallContext) (ownerId : Uuid) (name description : Text) :
    Tx Dashboard := do
  let db ← get
  let owner ← found (db.activeUser ownerId) .projectOwnerUnavailable
  let project ← Dashboard.insert {
    id := context.uuid 0
    ownerId := owner.id
    name := strip name
    description := strip description
    state := .draft
    latestRevisionId := none
    publishedRevisionId := none
    firstPublishedAt := none
    publicationVersion := 0
    lastPublishedAt := none
    publicationNote := []
    dataAsOf := none
    freshnessIntervalSeconds := none
    freshnessConfirmedAt := none
    staleAfter := none
    lastOwnershipTransferId := none
    createdAt := context.clock
    updatedAt := context.clock }
  recordAudit context .dashboardCreated
    { actorId := some owner.id, dashboardId := some project.id } []
  pure project

def renameProject (context : CallContext) (projectId ownerId : Uuid) (name : Text) :
    Tx Dashboard := do
  let normalizedName := strip name
  check (normalizedName ≠ [] ∧ normalizedName.length ≤ 200)
    (.value "dashboard name must contain between 1 and 200 characters")
  let db ← get
  let project ← found ((db.dashboards.get? projectId).filter fun project =>
    project.ownerId = ownerId ∧ db.isActiveUser project.ownerId ∧
      project.state ≠ .archived ∧ project.state ≠ .deleted) .projectRenameDenied
  if project.name = normalizedName then
    pure project
  else
    let renamed ← Dashboard.save context { project with name := normalizedName }
    recordAudit context .dashboardRenamed
      { actorId := some ownerId, dashboardId := some project.id } []
    pure renamed

/-! ## Publication -/

def maxFreshnessIntervalSeconds : ℤ := 31536000

/-- `_freshness_seconds` of an interval in microseconds. -/
def freshnessSeconds (interval : Option ℤ) : Except String (Option ℤ) :=
  match interval with
  | none => .ok none
  | some length =>
      if length % seconds 1 = 0 ∧ seconds 1 ≤ length ∧
          length ≤ seconds maxFreshnessIntervalSeconds then
        .ok (some (length / seconds 1))
      else
        .error "freshness interval must be whole seconds between 1 second and 1 year"

/-- `_apply_freshness`. -/
def Dashboard.applyFreshness (dashboard : Dashboard) (intervalSeconds : Option ℤ)
    (confirmedAt : Time) : Dashboard :=
  { dashboard with
    freshnessIntervalSeconds := intervalSeconds
    freshnessConfirmedAt := intervalSeconds.map fun _ => confirmedAt
    staleAfter := intervalSeconds.map fun interval => confirmedAt + seconds interval }

/-- The row that publishing a revision saves. -/
def Dashboard.publish (dashboard : Dashboard) (revisionId : Uuid) (note : Text)
    (dataAsOf : Option Time) (freshness : Option ℤ) (publishedAt : Time) : Dashboard :=
  Dashboard.applyFreshness { dashboard with
    state := .published
    publishedRevisionId := some revisionId
    firstPublishedAt := some (dashboard.firstPublishedAt.getD publishedAt)
    publicationVersion := dashboard.publicationVersion + 1
    lastPublishedAt := some publishedAt
    publicationNote := note
    dataAsOf := dataAsOf } freshness publishedAt

def publishDashboardRevision (platform : Platform) (context : CallContext)
    (dashboardId actorId revisionId : Uuid) (publicationNote : Text)
    (dataAsOf : Option Time) (freshnessInterval : Option ℤ) (publishedAt : Time) :
    Tx Dashboard := do
  let note ← orFail
    (normalizeShortText platform.unicode 240 "publication note" publicationNote)
    .enhancementValidation
  let freshness ← orFail (freshnessSeconds freshnessInterval) .enhancementValidation
  let owned ← lockCurrentOwner dashboardId actorId
  check (owned.1.state.acceptsRevisions = true) genericFailure
  let db ← get
  let revision ← found ((db.revisions.get? revisionId).filter fun revision =>
    revision.dashboardId = owned.1.id ∧ revision.artifactsLocked) genericFailure
  check (∀ earlier ∈ owned.1.lastPublishedAt, earlier ≤ publishedAt)
    (.enhancementValidation "publication time cannot move backward")
  let published ← Dashboard.save context
    (owned.1.publish revision.id note dataAsOf freshness publishedAt)
  recordAudit context .dashboardPublished
    { actorId := some owned.2.id
      dashboardId := some owned.1.id
      revisionId := some revision.id }
    [("publication_version", .number published.publicationVersion),
      ("republished", .flag owned.1.firstPublishedAt.isSome)]
  pure published

def unpublishDashboard (context : CallContext) (dashboardId actorId : Uuid) :
    Tx Dashboard := do
  let owned ← lockCurrentOwner dashboardId actorId
  check (owned.1.state = .published ∧ owned.1.publishedRevisionId ≠ none) genericFailure
  let unpublished ← Dashboard.save context { owned.1 with
    state := .unpublished, publishedRevisionId := none }
  recordAudit context .dashboardUnpublished
    { actorId := some owned.2.id
      dashboardId := some owned.1.id
      revisionId := owned.1.publishedRevisionId }
    [("publication_version", .number unpublished.publicationVersion)]
  pure unpublished

/-- `dataAsOf` is absent when the caller leaves it unset. -/
def confirmDashboardFreshness (context : CallContext) (dashboardId actorId : Uuid)
    (freshnessInterval : Option ℤ) (dataAsOf : Option (Option Time))
    (confirmedAt : Time) : Tx Dashboard := do
  let freshness ← orFail (freshnessSeconds freshnessInterval) .enhancementValidation
  let owned ← lockCurrentOwner dashboardId actorId
  check (owned.1.state = .published) genericFailure
  let confirmed ← Dashboard.save context
    (Dashboard.applyFreshness { owned.1 with
      dataAsOf := dataAsOf.getD owned.1.dataAsOf } freshness confirmedAt)
  recordAudit context .dashboardFreshnessConfirmed
    { actorId := some owned.2.id, dashboardId := some owned.1.id }
    [("freshness_provided", .flag freshness.isSome)]
  pure confirmed

/-! ## Favorites -/

def setDashboardFavorite (context : CallContext) (dashboardId userId : Uuid)
    (favorited : Bool) : Tx (Option DashboardFavorite) := do
  let db ← get
  if favorited = false then
    let user ← found (db.activeUser userId) genericFailure
    set { db with
      favorites := db.favorites.keep fun favorite =>
        ¬ (favorite.userId = user.id ∧ favorite.dashboardId = dashboardId) }
    pure none
  else
    let dashboard ← found ((db.dashboards.get? dashboardId).filter fun dashboard =>
      dashboard.state = .published ∧ dashboard.publishedRevisionId ≠ none) genericFailure
    let user ← found (db.activeUser userId) genericFailure
    check (dashboard.ownerId = user.id ∨ db.activeViewerGrant dashboard.id user.id ≠ none)
      genericFailure
    let existing ← getOneOrNone (db.favorites.where? fun favorite =>
      favorite.userId = user.id ∧ favorite.dashboardId = dashboard.id)
    match existing with
    | some favorite => pure (some favorite)
    | none =>
        let id ← takeId
        let favorite : DashboardFavorite := ⟨id, user.id, dashboard.id, context.clock⟩
        let db ← get
        let favorites ← found (db.favorites.create favorite)
          (.integrity "TB_TA_AGORA_DASH_FAVORITE.ID")
        set { db with favorites := favorites }
        pure (some favorite)

/-! ## Accounts -/

/-- `_set_validated_password`. -/
def setValidatedPassword (platform : Platform) (user : User) (password salt : Text) :
    Tx User := do
  check (password.length ≤ maxPasswordLength)
    (.passwordPolicy ["Password must be 256 characters or fewer."])
  check (platform.passwordErrors password user = [])
    (.passwordPolicy (platform.passwordErrors password user))
  pure { user with password := platform.makePassword password salt }

/-- `_require_administrator`. -/
def requireAdministrator (actorId : Uuid) : Tx User := do
  let db ← get
  found ((db.activeUser actorId).filter User.isAdministrator) .notAdministrator

/-- `_record_audit_event` of an account change. -/
def recordAccountAudit (context : CallContext) (eventType : AuditEventType)
    (actorId : Option Uuid) (target : User) : Tx PUnit :=
  recordAudit context eventType { actorId := actorId, targetUserId := some target.id } []

def newUser (context : CallContext) (soeid : Text) (isAdministrator : Bool) : User where
  id := context.uuid 0
  soeid := soeid
  password := []
  isActive := true
  isAdministrator := isAdministrator
  authVersion := 1
  createdAt := context.clock
  updatedAt := context.clock

def bootstrapFirstAdministrator (platform : Platform) (context : CallContext)
    (soeid password salt : Text) : Tx User := do
  let db ← get
  check (db.users.rows = []) .bootstrapAlreadyComplete
  let canonical ← orFail (canonicalizeSoeid soeid) .invalidSoeid
  let candidate ← setValidatedPassword platform (newUser context canonical true)
    password salt
  let user ← candidate.insert
  recordAccountAudit context .accountBootstrapped none user
  pure user

/-- The handler of a refused insertion of a user. -/
def duplicateUser (canonical : Text) (failure : Failure) : Tx User := do
  let db ← get
  match failure with
  | .integrity _ | .validation _ _ =>
      check (db.users.any (fun user => user.soeid = canonical) = false) .duplicateSoeid
      fail failure
  | _ => fail failure

def provisionUser (platform : Platform) (context : CallContext) (actorId : Uuid)
    (soeid password salt : Text) (isAdministrator : Bool) : Tx User := do
  let canonical ← orFail (canonicalizeSoeid soeid) .invalidSoeid
  let actor ← requireAdministrator actorId
  let candidate ← setValidatedPassword platform (newUser context canonical isAdministrator)
    password salt
  let user ← Transaction.recover candidate.insert (duplicateUser canonical)
  recordAccountAudit context .userCreated (some actor.id) user
  pure user

def disableUser (context : CallContext) (actorId targetId : Uuid) : Tx User := do
  let db ← get
  let activeAdministrators := db.users.where? fun user =>
    user.isActive && user.isAdministrator
  let actor ← found (activeAdministrators.find? fun user => user.id = actorId)
    .notAdministrator
  let target ← found (db.users.get? targetId) .userNotFound
  check (¬ (target.id = actor.id ∧ target.isAdministrator = true ∧
      activeAdministrators.length ≤ 1)) .lastAdministrator
  check (target.id ≠ actor.id) .selfDisable
  if target.isActive = false then
    pure target
  else
    let disabled ← User.save context { target with isActive := false }
    recordAccountAudit context .userDisabled (some actor.id) disabled
    pure disabled

def enableUser (context : CallContext) (actorId targetId : Uuid) : Tx User := do
  let actor ← requireAdministrator actorId
  let db ← get
  let target ← found (db.users.get? targetId) .userNotFound
  if target.isActive = true then
    pure target
  else
    let enabled ← User.save context { target with isActive := true }
    recordAccountAudit context .userEnabled (some actor.id) enabled
    pure enabled

def resetUserPassword (platform : Platform) (context : CallContext)
    (actorId targetId : Uuid) (password salt : Text) : Tx User := do
  let actor ← requireAdministrator actorId
  let db ← get
  let target ← found (db.users.get? targetId) .userNotFound
  let changed ← setValidatedPassword platform target password salt
  let reset ← User.save context { changed with authVersion := changed.authVersion + 1 }
  recordAccountAudit context .userPasswordReset (some actor.id) reset
  pure reset

end Agora
