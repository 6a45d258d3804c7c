import Agora.AccountInterleavings
import Agora.LockWaiting

/-!
# The transactional services with their row locks

Every service as the program of its `select_for_update` statements, followed by its
transaction.  A query that joins a related row locks both rows.  Updates and deletions
touch only rows that are locked already, rows that the transaction has inserted, or the
favorites of a locked user, so they wait for nobody.
-/

namespace Agora

open Transaction

namespace LockedRow

def dashboard? : LockedRow → Option Dashboard
  | .dashboard row => some row
  | _ => none

def accessRequest? : LockedRow → Option AccessRequest
  | .accessRequest row => some row
  | _ => none

end LockedRow

/-! ## Locking statements -/

def lockDashboard (dashboardId : Uuid) (matching : Dashboard → Bool)
    (next : Option Dashboard → ServiceProgram) : ServiceProgram :=
  .lock
    (fun db => match (db.dashboards.get? dashboardId).filter matching with
      | some dashboard => [.dashboard dashboard.id]
      | none => [])
    (fun row => row.dashboard?.any matching)
    (fun rows => next (rows.findSome? LockedRow.dashboard?))

/-- A query of a dashboard with `select_related("owner")`; the owner of a dashboard is
always stored. -/
def lockDashboardAndOwner (dashboardId : Uuid) (matching : Dashboard → Bool)
    (ownerMatching : User → Bool) (next : Option Dashboard → Option User → ServiceProgram) :
    ServiceProgram :=
  .lock
    (fun db => match (db.dashboards.get? dashboardId).filter matching with
      | some dashboard =>
          if (db.users.get? dashboard.ownerId).all ownerMatching then
            [.dashboard dashboard.id, .user dashboard.ownerId]
          else []
      | none => [])
    (fun row => row.dashboard?.all matching && row.user?.all ownerMatching)
    (fun rows => next (rows.findSome? LockedRow.dashboard?) (rows.findSome? LockedRow.user?))

/-- A query of an active user by identifier. -/
def lockActiveUser (userId : Uuid) (next : Option User → ServiceProgram) : ServiceProgram :=
  lockUsers (fun user => user.id = userId && user.isActive) fun users => next users.head?

def lockGrants (matching : ViewerGrant → Bool) (next : ServiceProgram) : ServiceProgram :=
  .lock (fun db => (db.grants.where? matching).map fun grant => .grant grant.id)
    (fun row => match row with
      | .grant grant => matching grant
      | _ => false)
    (fun _ => next)

/-- Requests are queried only if the condition holds. -/
def lockRequests (condition : Db → Bool) (matching : AccessRequest → Bool)
    (next : ServiceProgram) : ServiceProgram :=
  .lock
    (fun db => if condition db then
        (db.accessRequests.where? matching).map fun request => .accessRequest request.id
      else [])
    (fun row => row.accessRequest?.any matching)
    (fun _ => next)

/-- A query of a request with `select_related("requester")`. -/
def lockRequestAndRequester (matching : AccessRequest → Bool)
    (next : Option AccessRequest → Option User → ServiceProgram) : ServiceProgram :=
  .lock
    (fun db => (db.accessRequests.where? matching).flatMap fun request =>
      [.accessRequest request.id, .user request.requesterId])
    (fun row => row.accessRequest?.all matching)
    (fun rows =>
      next (rows.findSome? LockedRow.accessRequest?) (rows.findSome? LockedRow.user?))

def lockReservations (reservationIds : List Uuid) (next : ServiceProgram) : ServiceProgram :=
  .lock
    (fun db => (db.reservations.where? fun reservation =>
      reservation.id ∈ reservationIds).map fun reservation => .reservation reservation.id)
    (fun row => match row with
      | .reservation reservation => reservation.id ∈ reservationIds
      | _ => false)
    (fun _ => next)

/-! ## Programs -/

inductive DashboardOperation where
  | grantProjectViewer (dashboardId actorId : Uuid) (targetSoeid : Text)
  | revokeProjectViewer (dashboardId grantId actorId : Uuid)
  | requestDashboardAccess (dashboardId requesterId : Uuid) (message : Text)
  | resolveDashboardAccessRequest (dashboardId : Uuid) (requestId : ℕ) (actorId : Uuid)
      (resolution : String) (resolvedAt : Time)
  | transferDashboardOwnership (dashboardId actorId incomingOwnerId : Uuid)
      (expectedTransferId : Option (Option Uuid)) (transferredAt : Time)
  | publishDashboardRevision (dashboardId actorId revisionId : Uuid)
      (publicationNote : Text) (dataAsOf : Option Time) (freshnessInterval : Option ℤ)
      (publishedAt : Time)
  | unpublishDashboard (dashboardId actorId : Uuid)
  | setDashboardFavorite (dashboardId userId : Uuid) (favorited : Bool)
  | commitRevisionMetadata (dashboardId createdById : Uuid) (prepared : List PreparedArtifact)

def DashboardOperation.operation : DashboardOperation → Operation
  | .grantProjectViewer dashboardId actorId targetSoeid =>
      .grantProjectViewer dashboardId actorId targetSoeid
  | .revokeProjectViewer dashboardId grantId actorId =>
      .revokeProjectViewer dashboardId grantId actorId
  | .requestDashboardAccess dashboardId requesterId message =>
      .requestDashboardAccess dashboardId requesterId message
  | .resolveDashboardAccessRequest dashboardId requestId actorId resolution resolvedAt =>
      .resolveDashboardAccessRequest dashboardId requestId actorId resolution resolvedAt
  | .transferDashboardOwnership dashboardId actorId incomingOwnerId expectedTransferId
      transferredAt =>
      .transferDashboardOwnership dashboardId actorId incomingOwnerId expectedTransferId
        transferredAt
  | .publishDashboardRevision dashboardId actorId revisionId publicationNote dataAsOf
      freshnessInterval publishedAt =>
      .publishDashboardRevision dashboardId actorId revisionId publicationNote dataAsOf
        freshnessInterval publishedAt
  | .unpublishDashboard dashboardId actorId => .unpublishDashboard dashboardId actorId
  | .setDashboardFavorite dashboardId userId favorited =>
      .setDashboardFavorite dashboardId userId favorited
  | .commitRevisionMetadata dashboardId createdById prepared =>
      .commitRevisionMetadata dashboardId createdById prepared

structure DashboardCall where
  context : CallContext
  operation : DashboardOperation

namespace DashboardCall

/-- The transaction of the service, once its rows are locked. -/
def commit (platform : Platform) (call : DashboardCall) : ServiceProgram :=
  .commit do
    let _ ← call.operation.operation.body platform call.context
    pure ⟨⟩

/-- `_lock_active_owner`. -/
def lockOwned (dashboardId actorId : Uuid) (next : Dashboard → User → ServiceProgram) :
    ServiceProgram :=
  lockDashboard dashboardId (fun dashboard => dashboard.state ≠ .deleted) fun found =>
    match found with
    | none => raise genericAccessFailure
    | some dashboard =>
        lockActiveUser actorId fun user =>
          match user with
          | none => raise genericAccessFailure
          | some actor =>
              if dashboard.ownerId = actor.id then next dashboard actor
              else raise genericAccessFailure

/-- `_lock_current_owner`. -/
def lockCurrent (dashboardId actorId : Uuid) (next : ServiceProgram) : ServiceProgram :=
  lockDashboard dashboardId (fun _ => true) fun found =>
    lockActiveUser actorId fun user =>
      match found, user with
      | some dashboard, some actor =>
          if dashboard.ownerId = actor.id then next else raise genericFailure
      | _, _ => raise genericFailure

def grantProgram (platform : Platform) (call : DashboardCall) (dashboardId actorId : Uuid)
    (targetSoeid : Text) : ServiceProgram :=
  match canonicalizeSoeid targetSoeid with
  | .error _ => raise (.grantViewerRejected .invalidSoeid)
  | .ok canonical =>
      lockOwned dashboardId actorId fun dashboard _ =>
        if dashboard.state = .archived then raise genericAccessFailure
        else lockUsers (fun user => user.soeid = canonical) fun _ => call.commit platform

def revokeProgram (platform : Platform) (call : DashboardCall)
    (dashboardId grantId actorId : Uuid) : ServiceProgram :=
  lockOwned dashboardId actorId fun dashboard _ =>
    lockGrants (fun grant => grant.id = grantId && grant.dashboardId = dashboard.id)
      (call.commit platform)

def requestProgram (platform : Platform) (call : DashboardCall)
    (dashboardId requesterId : Uuid) (message : Text) : ServiceProgram :=
  match normalizeShortText platform.unicode 500 "request message" message with
  | .error failure => raise (.enhancementValidation failure)
  | .ok _ =>
      lockDashboardAndOwner dashboardId (fun dashboard => dashboard.state = .published)
        (fun owner => owner.isActive) fun found owner =>
          lockActiveUser requesterId fun user =>
            match found, owner, user with
            | some dashboard, some _, some requester =>
                if dashboard.ownerId = requester.id then raise genericFailure
                else
                  lockRequests
                    (fun db => db.activeViewerGrant dashboard.id requester.id = none)
                    (fun request => request.dashboardId = dashboard.id &&
                      request.requesterId = requester.id)
                    (call.commit platform)
            | _, _, _ => raise genericFailure

/-- The locks of a resolution after all its rows are there. -/
def resolveFoundProgram (platform : Platform) (call : DashboardCall)
    (status : AccessRequestStatus) (dashboard : Dashboard) (owner : User)
    (request : AccessRequest) (requester actor : User) : ServiceProgram :=
  if actor.id ≠ (if status = .cancelled then request.requesterId else dashboard.ownerId) then
    raise genericFailure
  else if request.status ≠ .pending ∨ status ≠ .approved then
    call.commit platform
  else if (dashboard.state = .published ∨ dashboard.state = .unpublished) ∧
      owner.isActive = true ∧ requester.isActive = true then
    lockGrants (ViewerGrant.isActiveFor dashboard.id request.requesterId) (call.commit platform)
  else
    raise genericFailure

def resolveProgram (platform : Platform) (call : DashboardCall) (dashboardId : Uuid)
    (requestId : ℕ) (actorId : Uuid) (resolution : String) : ServiceProgram :=
  match AccessRequestStatus.parse resolution with
  | none => raise (.enhancementValidation "access-request resolution is invalid")
  | some .pending => raise (.enhancementValidation "pending is not a resolution")
  | some status =>
      lockDashboardAndOwner dashboardId (fun _ => true) (fun _ => true) fun found owner =>
        lockRequestAndRequester (fun request => request.id = requestId &&
            request.dashboardId = dashboardId) fun request requester =>
          lockActiveUser actorId fun actor =>
            match found, owner, request, requester, actor with
            | some dashboard, some owner, some request, some requester, some actor =>
                call.resolveFoundProgram platform status dashboard owner request requester actor
            | _, _, _, _, _ => raise genericFailure

def transferProgram (platform : Platform) (call : DashboardCall)
    (dashboardId actorId incomingOwnerId : Uuid)
    (expectedTransferId : Option (Option Uuid)) : ServiceProgram :=
  lockDashboard dashboardId (fun _ => true) fun found =>
    match found with
    | none => raise genericFailure
    | some dashboard =>
        if dashboard.state.acceptsRevisions = true ∧
            ∀ expected ∈ expectedTransferId, dashboard.lastOwnershipTransferId = expected then
          lockUsers (fun user => (user.id = actorId || user.id = incomingOwnerId) &&
              user.isActive) fun users =>
            match users.find? fun user => user.id = actorId,
                users.find? fun user => user.id = incomingOwnerId with
            | some actor, some incomingOwner =>
                if actor.id = dashboard.ownerId ∧ incomingOwner.id ≠ actor.id then
                  lockGrants (ViewerGrant.isActiveFor dashboard.id incomingOwner.id)
                    (lockRequests (fun _ => true) (fun request =>
                      request.dashboardId = dashboard.id &&
                        request.requesterId = incomingOwner.id && request.status = .pending)
                      (call.commit platform))
                else raise genericFailure
            | _, _ => raise genericFailure
        else raise genericFailure

def publishProgram (platform : Platform) (call : DashboardCall) (dashboardId actorId : Uuid)
    (publicationNote : Text) (freshnessInterval : Option ℤ) : ServiceProgram :=
  match normalizeShortText platform.unicode 240 "publication note" publicationNote,
      freshnessSeconds freshnessInterval with
  | .error failure, _ => raise (.enhancementValidation failure)
  | .ok _, .error failure => raise (.enhancementValidation failure)
  | .ok _, .ok _ => lockCurrent dashboardId actorId (call.commit platform)

def favoriteProgram (platform : Platform) (call : DashboardCall) (dashboardId userId : Uuid)
    (favorited : Bool) : ServiceProgram :=
  if favorited = false then
    lockActiveUser userId fun user =>
      match user with
      | none => raise genericFailure
      | some _ => call.commit platform
  else
    lockDashboard dashboardId (fun dashboard =>
        dashboard.state = .published && dashboard.publishedRevisionId.isSome) fun found =>
      lockActiveUser userId fun user =>
        match found, user with
        | some _, some _ => call.commit platform
        | _, _ => raise genericFailure

def commitRevisionProgram (platform : Platform) (call : DashboardCall)
    (dashboardId createdById : Uuid) (prepared : List PreparedArtifact) : ServiceProgram :=
  lockDashboard dashboardId (fun _ => true) fun found =>
    match found.filter fun dashboard => dashboard.ownerId = createdById with
    | none => raise (.revisionCreation "revision creator must own the dashboard")
    | some dashboard =>
        lockUsers (fun user => user.id = createdById) fun users =>
          match users.head?.filter User.isActive with
          | none => raise (.revisionCreation "revision creator must be active")
          | some _ =>
              if dashboard.state.acceptsRevisions = true then
                lockReservations (prepared.map PreparedArtifact.reservationId)
                  (call.commit platform)
              else raise (.revisionCreation "dashboard state does not accept revisions")

def program (platform : Platform) (call : DashboardCall) : ServiceProgram :=
  match call.operation with
  | .grantProjectViewer dashboardId actorId targetSoeid =>
      call.grantProgram platform dashboardId actorId targetSoeid
  | .revokeProjectViewer dashboardId grantId actorId =>
      call.revokeProgram platform dashboardId grantId actorId
  | .requestDashboardAccess dashboardId requesterId message =>
      call.requestProgram platform dashboardId requesterId message
  | .resolveDashboardAccessRequest dashboardId requestId actorId resolution _ =>
      call.resolveProgram platform dashboardId requestId actorId resolution
  | .transferDashboardOwnership dashboardId actorId incomingOwnerId expectedTransferId _ =>
      call.transferProgram platform dashboardId actorId incomingOwnerId expectedTransferId
  | .publishDashboardRevision dashboardId actorId _ publicationNote _ freshnessInterval _ =>
      call.publishProgram platform dashboardId actorId publicationNote freshnessInterval
  | .unpublishDashboard dashboardId actorId =>
      lockCurrent dashboardId actorId (call.commit platform)
  | .setDashboardFavorite dashboardId userId favorited =>
      call.favoriteProgram platform dashboardId userId favorited
  | .commitRevisionMetadata dashboardId createdById prepared =>
      call.commitRevisionProgram platform dashboardId createdById prepared

end DashboardCall

/-- A call of any of the services. -/
inductive LockingCall where
  | account (call : AccountCall)
  | dashboard (call : DashboardCall)

def LockingCall.program (platform : Platform) : LockingCall → ServiceProgram
  | .account call => call.program platform
  | .dashboard call => call.program platform

/-- The reservations that the call commits. -/
def LockingCall.reservationIds : LockingCall → List Uuid
  | .dashboard ⟨_, .commitRevisionMetadata _ _ prepared⟩ =>
      prepared.map PreparedArtifact.reservationId
  | _ => []

def lockingServices (platform : Platform) : LockingSystem LockingCall Db LockedRow Failure where
  store := lockedRows
  program call := call.program platform

end Agora
