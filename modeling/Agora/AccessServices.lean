import Agora.AccessModels

/-!
# Grants, access requests and ownership transfers

The services of `agora.core.access` and the access half of
`agora.core.enhancements`, each as one transaction.  A service that returns early
commits what it has written so far, which is nothing.
-/

namespace Agora

open Transaction (check found fail recover)

def genericAccessFailure : Failure :=
  .projectAccessDenied "project access is not available"

def genericFailure : Failure :=
  .enhancementAccessDenied "dashboard action is not available"

/-! ## Queries -/

def Db.hasActiveViewerGrant (db : Db) (dashboardId viewerId : Uuid) : Bool :=
  db.grants.any (ViewerGrant.isActiveFor dashboardId viewerId)

/-- The first unrevoked grant of a pair in the order of identifiers. -/
def Db.activeViewerGrant (db : Db) (dashboardId viewerId : Uuid) : Option ViewerGrant :=
  (db.activeGrants dashboardId viewerId).argmin ViewerGrant.id

/-- A stored user, if active. -/
def Db.activeUser (db : Db) (userId : Uuid) : Option User :=
  (db.users.get? userId).filter User.isActive

def Db.isActiveUser (db : Db) (userId : Uuid) : Bool :=
  (db.activeUser userId).isSome

/-- `_lock_active_owner`. -/
def lockActiveOwner (dashboardId actorId : Uuid) : Tx (Dashboard × User) := do
  let db ← get
  let dashboard ← found
    ((db.dashboards.get? dashboardId).filter fun dashboard => dashboard.state ≠ .deleted)
    genericAccessFailure
  let actor ← found (db.activeUser actorId) genericAccessFailure
  check (dashboard.ownerId = actor.id) genericAccessFailure
  pure (dashboard, actor)

/-- `_lock_current_owner`. -/
def lockCurrentOwner (dashboardId actorId : Uuid) : Tx (Dashboard × User) := do
  let db ← get
  let dashboard ← found (db.dashboards.get? dashboardId) genericFailure
  let actor ← found (db.activeUser actorId) genericFailure
  check (dashboard.ownerId = actor.id) genericFailure
  pure (dashboard, actor)

/-! ## Grants -/

/-- `_record_grant_audit` and `_audit_grant`. -/
def recordGrantAudit (context : CallContext) (eventType : AuditEventType) (actor : User)
    (dashboard : Dashboard) (grant : ViewerGrant) : Tx PUnit :=
  recordAudit context eventType
    { actorId := some actor.id
      dashboardId := some dashboard.id
      targetUserId := some grant.viewerId }
    [("grant_id", .uuid grant.id)]

/-- A new grant epoch. -/
def newGrant (context : CallContext) (dashboardId viewerId createdById : Uuid) :
    ViewerGrant where
  id := context.uuid 0
  dashboardId := dashboardId
  viewerId := viewerId
  createdById := createdById
  createdAt := context.clock
  revokedAt := none
  revokedById := none

/-- The handler of the race on the active grant index. -/
def grantRace (dashboardId viewerId : Uuid) (failure : Failure) : Tx ViewerGrant :=
  match failure with
  | .integrity _ => do
      let db ← get
      check (db.hasActiveViewerGrant dashboardId viewerId = false)
        (.grantViewerRejected .alreadyGranted)
      fail failure
  | _ => fail failure

def grantProjectViewer (context : CallContext) (dashboardId actorId : Uuid)
    (targetSoeid : Text) : Tx ViewerGrant := do
  let canonical ← orFail (canonicalizeSoeid targetSoeid) fun _ =>
    .grantViewerRejected .invalidSoeid
  let owned ← lockActiveOwner dashboardId actorId
  check (owned.1.state ≠ .archived) genericAccessFailure
  let db ← get
  let matching ← getOneOrNone (db.users.where? fun user => user.soeid = canonical)
  let target ← found matching (.grantViewerRejected .unknownUser)
  check (target.isActive = true) (.grantViewerRejected .disabledUser)
  check (target.id ≠ owned.2.id) (.grantViewerRejected .selfGrant)
  check (db.hasActiveViewerGrant owned.1.id target.id = false)
    (.grantViewerRejected .alreadyGranted)
  let grant ← recover (newGrant context owned.1.id target.id owned.2.id).insert
    (grantRace owned.1.id target.id)
  recordGrantAudit context .grantCreated owned.2 owned.1 grant
  pure grant

/-- Close a grant epoch and record it. -/
def revokeGrant (context : CallContext) (revokedAt : Time) (actor : User)
    (dashboard : Dashboard) (grant : ViewerGrant) : Tx ViewerGrant := do
  let revoked ← ViewerGrant.save { grant with
    revokedAt := some revokedAt, revokedById := some actor.id }
  recordGrantAudit context .grantRevoked actor dashboard revoked
  pure revoked

def revokeProjectViewer (context : CallContext) (dashboardId grantId actorId : Uuid) :
    Tx ViewerGrant := do
  let owned ← lockActiveOwner dashboardId actorId
  let db ← get
  let grant ← found
    ((db.grants.get? grantId).filter fun grant => grant.dashboardId = owned.1.id)
    genericAccessFailure
  if grant.revokedAt ≠ none then
    pure grant
  else
    revokeGrant context context.clock owned.2 owned.1 grant

/-! ## Access requests -/

def Db.requestsOf (db : Db) (dashboardId requesterId : Uuid) : List AccessRequest :=
  db.accessRequests.where? fun request =>
    request.dashboardId = dashboardId ∧ request.requesterId = requesterId

/-- Create or reopen the request row of a pair. -/
def openAccessRequest (context : CallContext) (dashboardId requesterId : Uuid)
    (message : Text) (existing : Option AccessRequest) : Tx AccessRequest := do
  match existing with
  | none =>
      let id ← takeId
      AccessRequest.insert {
        id := id
        dashboardId := dashboardId
        requesterId := requesterId
        status := .pending
        message := message
        requestedAt := context.clock
        resolvedAt := none
        resolvedById := none
        updatedAt := context.clock }
  | some request =>
      AccessRequest.save context { request with
        status := .pending
        message := message
        requestedAt := max context.clock (request.requestedAt + 1)
        resolvedAt := none
        resolvedById := none }

def requestDashboardAccess (platform : Platform) (context : CallContext)
    (dashboardId requesterId : Uuid) (message : Text) : Tx AccessRequest := do
  let normalizedMessage ← orFail
    (normalizeShortText platform.unicode 500 "request message" message)
    .enhancementValidation
  let db ← get
  let dashboard ← found ((db.dashboards.get? dashboardId).filter fun dashboard =>
    dashboard.state = .published ∧ db.isActiveUser dashboard.ownerId) genericFailure
  let requester ← found (db.activeUser requesterId) genericFailure
  check (dashboard.ownerId ≠ requester.id ∧
      db.activeViewerGrant dashboard.id requester.id = none) genericFailure
  let existing ← getOneOrNone (db.requestsOf dashboard.id requester.id)
  if existing.any (fun request => request.status = .pending) then
    found existing genericFailure
  else
    let request ← openAccessRequest context dashboard.id requester.id normalizedMessage
      existing
    recordAudit context .accessRequested
      { actorId := some requester.id
        dashboardId := some dashboard.id
        targetUserId := some requester.id }
      [("request_id", .number request.id), ("reopened", .flag existing.isSome)]
    pure request

/-- `AccessRequest.Status(resolution)`. -/
def AccessRequestStatus.parse : String → Option AccessRequestStatus
  | "pending" => some .pending
  | "approved" => some .approved
  | "denied" => some .denied
  | "cancelled" => some .cancelled
  | _ => none

/-- Resolve a pending request and record it. -/
def resolveRequest (context : CallContext) (resolvedAt : Time) (actor : User)
    (dashboard : Dashboard) (request : AccessRequest) (status : AccessRequestStatus) :
    Tx AccessRequest := do
  let resolved ← AccessRequest.save context { request with
    status := status, resolvedAt := some resolvedAt, resolvedById := some actor.id }
  recordAudit context .accessResolved
    { actorId := some actor.id
      dashboardId := some dashboard.id
      targetUserId := some request.requesterId }
    [("request_id", .number request.id), ("resolution", .status status)]
  pure resolved

/-- The grant that approval opens, unless the requester already holds one. -/
def approveGrant (context : CallContext) (actor : User) (dashboard : Dashboard)
    (request : AccessRequest) : Tx PUnit := do
  let db ← get
  check ((dashboard.state = .published ∨ dashboard.state = .unpublished) ∧
      db.isActiveUser dashboard.ownerId ∧ db.isActiveUser request.requesterId)
    genericFailure
  let existing ← getOneOrNone (db.activeGrants dashboard.id request.requesterId)
  if existing = none then
    let grant ← (newGrant context dashboard.id request.requesterId actor.id).insert
    recordGrantAudit context .grantCreated actor dashboard grant
  else
    pure ⟨⟩

def resolveDashboardAccessRequest (context : CallContext) (dashboardId : Uuid)
    (requestId : ℕ) (actorId : Uuid) (resolution : String) (resolvedAt : Time) :
    Tx AccessRequest := do
  let status ← found (AccessRequestStatus.parse resolution)
    (.enhancementValidation "access-request resolution is invalid")
  check (status ≠ .pending) (.enhancementValidation "pending is not a resolution")
  let db ← get
  let dashboard ← found (db.dashboards.get? dashboardId) genericFailure
  let request ← found ((db.accessRequests.get? requestId).filter fun request =>
    request.dashboardId = dashboardId) genericFailure
  let actor ← found (db.activeUser actorId) genericFailure
  check (actor.id = if status = .cancelled then request.requesterId else dashboard.ownerId)
    genericFailure
  if request.status ≠ .pending then
    check (request.status = status) genericFailure
    pure request
  else
    if status = .approved then
      approveGrant context actor dashboard request
    else
      pure ⟨⟩
    resolveRequest context resolvedAt actor dashboard request status

/-! ## Ownership transfers -/

/-- Close the unrevoked grant of the incoming owner. -/
def closeIncomingGrant (context : CallContext) (transferredAt : Time) (actor : User)
    (dashboard : Dashboard) (incomingOwnerId : Uuid) : Tx PUnit := do
  let db ← get
  let grant ← getOneOrNone (db.activeGrants dashboard.id incomingOwnerId)
  match grant with
  | none => pure ⟨⟩
  | some grant =>
      let _ ← revokeGrant context transferredAt actor dashboard grant
      pure ⟨⟩

/-- Approve the pending request of the incoming owner. -/
def closeIncomingRequest (context : CallContext) (transferredAt : Time) (actor : User)
    (dashboard : Dashboard) (incomingOwnerId : Uuid) : Tx PUnit := do
  let db ← get
  let request ← getOneOrNone (db.accessRequests.where? fun request =>
    request.dashboardId = dashboard.id ∧ request.requesterId = incomingOwnerId ∧
      request.status = .pending)
  match request with
  | none => pure ⟨⟩
  | some request =>
      let _ ← resolveRequest context transferredAt actor dashboard request .approved
      pure ⟨⟩

/-- `expectedTransferId` is absent when the caller leaves it unset. -/
def transferDashboardOwnership (context : CallContext)
    (dashboardId actorId incomingOwnerId : Uuid)
    (expectedTransferId : Option (Option Uuid)) (transferredAt : Time) :
    Tx Dashboard := do
  let db ← get
  let dashboard ← found ((db.dashboards.get? dashboardId).filter fun dashboard =>
    dashboard.state.acceptsRevisions) genericFailure
  check (∀ expected ∈ expectedTransferId, dashboard.lastOwnershipTransferId = expected)
    genericFailure
  let actor ← found (db.activeUser actorId) genericFailure
  let incomingOwner ← found (db.activeUser incomingOwnerId) genericFailure
  check (actor.id = dashboard.ownerId ∧ incomingOwner.id ≠ actor.id) genericFailure
  closeIncomingGrant context transferredAt actor dashboard incomingOwner.id
  closeIncomingRequest context transferredAt actor dashboard incomingOwner.id
  let marker ← DashboardOwnershipTransfer.insert {
    id := context.uuid 0
    dashboardId := dashboard.id
    fromOwnerId := actor.id
    toOwnerId := incomingOwner.id
    previousTransferId := dashboard.lastOwnershipTransferId
    transferredAt := context.clock }
  dashboard.changeOwner transferredAt marker
  recordAudit context .dashboardOwnershipTransferred
    { actorId := some actor.id
      dashboardId := some dashboard.id
      targetUserId := some incomingOwner.id }
    [("transfer_id", .uuid marker.id)]
  let db ← get
  found (db.dashboards.get? dashboard.id) .doesNotExist

end Agora
