import Agora.DomainModels

/-!
# Saving transfers, access requests, grants and render authorizations

The records that decide who may see a dashboard.  The unique indexes and the
triggers that decide more than `save` does are part of the write: the active
grant index, the transfer chain index, the dashboard guard on a change of
owner, and the guards on captured opens.
-/

namespace Agora

open Transaction (check found fail)

/-! ## Ownership transfers -/

/-- `DashboardOwnershipTransfer.save`; the marker is always a new row. -/
def DashboardOwnershipTransfer.insert (row : DashboardOwnershipTransfer) :
    Tx DashboardOwnershipTransfer := do
  let db ← get
  let dashboard ← found (db.dashboards.get? row.dashboardId) .doesNotExist
  check (row.fromOwnerId = dashboard.ownerId)
    (.validation (some "from_owner") "source must be the current dashboard owner")
  check (row.toOwnerId ≠ row.fromOwnerId)
    (.validation (some "to_owner") "incoming owner must be different")
  let toOwner ← found (db.users.get? row.toOwnerId) .doesNotExist
  check (toOwner.isActive = true)
    (.validation (some "to_owner") "incoming owner must be active")
  check (row.previousTransferId = dashboard.lastOwnershipTransferId)
    (.validation (some "previous_transfer")
      "transfer marker must continue the dashboard chain")
  check (db.transfers.any (fun other =>
      other.dashboardId = row.dashboardId ∧
        other.previousTransferId = row.previousTransferId) = false)
    (.integrity "AGORA_TRANSFER_CHAIN_UQ_IDX")
  let transfers ← found (db.transfers.create row) (.integrity "TB_TA_AGORA_DASH_TRANSFER.ID")
  set { db with transfers := transfers }
  pure row

/-- The update of the owner and the transfer pointer, which bypasses `save`, with
the trigger `AGORA_DASHBOARD_GUARD` on a change of owner. -/
def Dashboard.changeOwner (clock : Time) (dashboard : Dashboard)
    (marker : DashboardOwnershipTransfer) : Tx PUnit := do
  let db ← get
  let stored ← found (db.dashboards.get? dashboard.id)
    (.enhancementAccessDenied "dashboard action is not available")
  check (stored.ownerId = dashboard.ownerId ∧
      stored.lastOwnershipTransferId = dashboard.lastOwnershipTransferId)
    (.enhancementAccessDenied "dashboard action is not available")
  check (stored.state.acceptsRevisions = true ∧
      stored.lastOwnershipTransferId ≠ some marker.id)
    (.trigger (-20002) "ownership transfer state is invalid")
  let installed ← found (db.transfers.get? marker.id)
    (.trigger (-20002) "ownership transfer marker is missing")
  check (installed.dashboardId = stored.id ∧ installed.fromOwnerId = stored.ownerId ∧
      installed.toOwnerId = marker.toOwnerId ∧
        installed.previousTransferId = stored.lastOwnershipTransferId)
    (.trigger (-20002) "ownership transfer marker is invalid")
  check ((∃ owner ∈ db.users.get? stored.ownerId, owner.isActive = true) ∧
      ∃ owner ∈ db.users.get? marker.toOwnerId, owner.isActive = true)
    (.trigger (-20002) "ownership transfer users must be active")
  check (db.grants.any (fun grant => grant.dashboardId = stored.id ∧
      grant.viewerId = marker.toOwnerId ∧ grant.revokedAt = none) = false)
    (.trigger (-20002) "incoming owner grant must be revoked")
  check (db.accessRequests.any (fun request => request.dashboardId = stored.id ∧
      request.requesterId = marker.toOwnerId ∧ request.status = .pending) = false)
    (.trigger (-20002) "incoming owner request must be resolved")
  set { db with
    dashboards := db.dashboards.replace { stored with
      ownerId := marker.toOwnerId
      lastOwnershipTransferId := some marker.id
      updatedAt := clock } }

/-! ## Access requests -/

/-- The dashboard of a request accepts requests: it is published and its owner
is active. -/
def Db.acceptsRequests (db : Db) (dashboard : Dashboard) : Prop :=
  dashboard.state = .published ∧
    ∃ owner ∈ db.users.get? dashboard.ownerId, owner.isActive = true

instance (db : Db) (dashboard : Dashboard) : Decidable (db.acceptsRequests dashboard) :=
  inferInstanceAs (Decidable (_ ∧ _))

def AccessRequest.fullClean (row : AccessRequest) : Tx PUnit := do
  check (row.message.length ≤ 500)
    (.validation (some "message") "message is not a valid value")
  check (row.status = .pending ↔ row.resolvedAt = none ∧ row.resolvedById = none)
    (.validation none "pending and resolution fields do not match")
  check (row.status ≠ .pending → row.resolvedAt ≠ none ∧ row.resolvedById ≠ none)
    (.validation none "Constraint “agora_access_resolution_match” is violated.")

/-- `AccessRequest.save` of a new row. -/
def AccessRequest.insert (row : AccessRequest) : Tx AccessRequest := do
  let db ← get
  check (row.status = .pending)
    (.validation none "new access requests must begin pending")
  let dashboard ← found (db.dashboards.get? row.dashboardId) .doesNotExist
  check (row.requesterId ≠ dashboard.ownerId)
    (.validation (some "requester") "dashboard owner already has access")
  check (db.acceptsRequests dashboard)
    (.validation (some "dashboard") "dashboard is not accepting access requests")
  let requester ← found (db.users.get? row.requesterId) .doesNotExist
  check (requester.isActive = true)
    (.validation (some "requester") "requester must be active")
  row.fullClean
  check (db.accessRequests.any (fun other =>
      other.dashboardId = row.dashboardId ∧ other.requesterId = row.requesterId) = false)
    (.validation none "Constraint “agora_access_dash_requester_uq” is violated.")
  let accessRequests ← found (db.accessRequests.create row)
    (.integrity "TB_TA_AGORA_ACCESS_REQUEST.ID")
  set { db with accessRequests := accessRequests }
  pure row

/-- `_validate_transition` of a pending request. -/
def AccessRequest.validateResolution (row original : AccessRequest)
    (dashboard : Dashboard) (requester : User) : Tx PUnit := do
  if row.status = .pending then
    check (row.requestedAt = original.requestedAt)
      (.immutableRecord "pending request time is immutable")
  else
    let db ← get
    let expectedResolver :=
      if row.status = .cancelled then row.requesterId else dashboard.ownerId
    check (row.resolvedById = some expectedResolver ∧ row.resolvedAt ≠ none)
      (.validation none "access-request resolver is not authorized")
    check (row.status = .approved →
        (dashboard.state = .published ∨ dashboard.state = .unpublished) ∧
          (∃ owner ∈ db.users.get? dashboard.ownerId, owner.isActive = true) ∧
            requester.isActive = true)
      (.validation none "dashboard access cannot be approved in the current state")
    check (row.requestedAt = original.requestedAt ∧ row.message = original.message)
      (.immutableRecord "resolution cannot rewrite request history")

/-- `_validate_transition` of a resolved request. -/
def AccessRequest.validateReopening (row original : AccessRequest)
    (dashboard : Dashboard) (requester : User) : Tx PUnit := do
  if row.status = .pending then
    let db ← get
    check (original.requestedAt < row.requestedAt)
      (.validation none "a reopened request must have a later request time")
    check (row.resolvedAt = none ∧ row.resolvedById = none)
      (.validation none "a reopened request must clear its prior resolution")
    check (requester.isActive = true)
      (.validation (some "requester") "requester must be active")
    check (row.requesterId ≠ dashboard.ownerId)
      (.validation (some "requester") "dashboard owner already has access")
    check (db.acceptsRequests dashboard)
      (.validation (some "dashboard") "dashboard is not accepting access requests")
  else
    check (row.status = original.status ∧ row.message = original.message ∧
        row.requestedAt = original.requestedAt ∧ row.resolvedAt = original.resolvedAt ∧
          row.resolvedById = original.resolvedById)
      (.immutableRecord "resolved access request is immutable until reopened")

def AccessRequest.validateTransition (row original : AccessRequest) : Tx PUnit := do
  check (original.dashboardId = row.dashboardId ∧ original.requesterId = row.requesterId)
    (.immutableRecord "access-request scope is immutable")
  let db ← get
  let dashboard ← found (db.dashboards.get? row.dashboardId) .doesNotExist
  let requester ← found (db.users.get? row.requesterId) .doesNotExist
  if original.status = .pending then
    row.validateResolution original dashboard requester
  else
    row.validateReopening original dashboard requester

/-- `AccessRequest.save` of a stored row. -/
def AccessRequest.save (context : CallContext) (row : AccessRequest) :
    Tx AccessRequest := do
  let db ← get
  let original ← found (db.accessRequests.get? row.id) .doesNotExist
  row.validateTransition original
  let saved := { row with updatedAt := context.clock }
  saved.fullClean
  set { db with accessRequests := db.accessRequests.replace saved }
  pure saved

/-! ## Viewer grants -/

def ViewerGrant.isActiveFor (dashboardId viewerId : Uuid) (grant : ViewerGrant) : Bool :=
  grant.dashboardId == dashboardId && grant.viewerId == viewerId &&
    grant.revokedAt == none

/-- The unrevoked grants of a pair. -/
def Db.activeGrants (db : Db) (dashboardId viewerId : Uuid) : List ViewerGrant :=
  db.grants.where? (ViewerGrant.isActiveFor dashboardId viewerId)

def ViewerGrant.checkConstraints (row : ViewerGrant) : Tx PUnit := do
  check (row.revokedAt = none ↔ row.revokedById = none)
    (.validation none "revoked_at and revoked_by must either both be set or both be empty")
  check (row.viewerId ≠ row.createdById)
    (.validation none "Constraint “agora_grant_owner_not_viewer” is violated.")

/-- `ViewerGrant.save` of a new row, under the index of active grants. -/
def ViewerGrant.insert (row : ViewerGrant) : Tx ViewerGrant := do
  let db ← get
  let dashboard ← found (db.dashboards.get? row.dashboardId) .doesNotExist
  check (row.viewerId ≠ dashboard.ownerId)
    (.validation (some "viewer") "dashboard owners cannot grant themselves access")
  check (row.createdById = dashboard.ownerId)
    (.validation (some "created_by") "only the dashboard owner can create a grant")
  check (∀ revoker ∈ row.revokedById, revoker = dashboard.ownerId)
    (.validation (some "revoked_by") "only the dashboard owner can revoke a grant")
  row.checkConstraints
  check (row.revokedAt = none → db.activeGrants row.dashboardId row.viewerId = [])
    (.integrity "AGORA_GRANT_ACTIVE_UQ_IDX")
  let grants ← found (db.grants.create row) (.integrity "TB_TA_AGORA_VIEWER_GRANT.ID")
  set { db with grants := grants }
  pure row

/-- `ViewerGrant.save` of a stored row. -/
def ViewerGrant.save (row : ViewerGrant) : Tx ViewerGrant := do
  let db ← get
  let original ← found (db.grants.get? row.id) .doesNotExist
  check (original.dashboardId = row.dashboardId ∧ original.viewerId = row.viewerId ∧
      original.createdById = row.createdById ∧ original.createdAt = row.createdAt)
    (.immutableRecord "grant relationship fields are immutable")
  check (original.revokedAt ≠ none →
      original.revokedAt = row.revokedAt ∧ original.revokedById = row.revokedById)
    (.immutableRecord "a recorded grant revocation is immutable")
  row.checkConstraints
  let dashboard ← found (db.dashboards.get? row.dashboardId) .doesNotExist
  check (original.revokedAt = none →
      ∀ revoker ∈ row.revokedById, revoker = dashboard.ownerId)
    (.validation (some "revoked_by") "only the dashboard owner can revoke a grant")
  set { db with grants := db.grants.replace row }
  pure row

/-! ## Render authorizations -/

/-- The scope checks of `RenderAuthorization.clean`, for new and stored rows. -/
def RenderAuthorization.cleanScope (row : RenderAuthorization) : Tx PUnit := do
  let db ← get
  check (∀ captured ∈ row.authorizedOpenCapturedAt,
      row.audience = .viewer ∧ captured = row.createdAt)
    (.validation (some "authorized_open_captured_at")
      "capture marker must match a viewer issue")
  check (row.audience = .preview → row.publicationVersion = none)
    (.validation (some "publication_version") "preview has no publication version")
  check (row.audience = .viewer → ∃ version ∈ row.publicationVersion, 0 < version)
    (.validation (some "publication_version") "viewer issue must snapshot its version")
  let revision ← found (db.revisions.get? row.revisionId) .doesNotExist
  check (revision.dashboardId = row.dashboardId)
    (.validation (some "revision") "revision must belong to the dashboard")
  check (∀ epochId ∈ row.ownerTransferEpochId, ∃ epoch ∈ db.transfers.get? epochId,
      epoch.dashboardId = row.dashboardId)
    (.validation (some "owner_transfer_epoch") "owner epoch must belong to the dashboard")
  check (row.ownerTransferEpochId ≠ none → row.viewerGrantId = none)
    (.validation (some "owner_transfer_epoch")
      "owner and grant epochs are mutually exclusive")
  check (row.viewerGrantId ≠ none → row.audience = .viewer)
    (.validation (some "viewer_grant") "grant-bound authorizations must target viewers")
  check (∀ grantId ∈ row.viewerGrantId, ∃ grant ∈ db.grants.get? grantId,
      grant.dashboardId = row.dashboardId)
    (.validation (some "viewer_grant") "grant must belong to the authorization dashboard")
  check (∀ grantId ∈ row.viewerGrantId, ∃ grant ∈ db.grants.get? grantId,
      grant.viewerId = row.viewerId)
    (.validation (some "viewer_grant") "grant must belong to the authorization viewer")

/-- The checks of `RenderAuthorization.clean` that only a new row must pass. -/
def RenderAuthorization.cleanNew (row : RenderAuthorization) : Tx PUnit := do
  let db ← get
  let dashboard ← found (db.dashboards.get? row.dashboardId) .doesNotExist
  let viewer ← found (db.users.get? row.viewerId) .doesNotExist
  check (∀ grantId ∈ row.viewerGrantId, ∃ grant ∈ db.grants.get? grantId,
      grant.revokedAt = none)
    (.validation (some "viewer_grant") "authorization grant must be active")
  check (row.viewerGrantId = none → row.audience = .viewer →
      row.viewerId = dashboard.ownerId)
    (.validation (some "viewer_grant")
      "non-owner viewer authorizations must bind a grant epoch")
  check (row.viewerId = dashboard.ownerId →
      row.ownerTransferEpochId = dashboard.lastOwnershipTransferId)
    (.validation (some "owner_transfer_epoch")
      "owner authorization must bind the current epoch")
  check (row.viewerAuthVersion = viewer.authVersion)
    (.validation (some "viewer_auth_version")
      "authorization must bind the current user version")

/-- `RenderAuthorization.save` of a new row. -/
def RenderAuthorization.insert (row : RenderAuthorization) : Tx RenderAuthorization := do
  row.cleanScope
  row.cleanNew
  let db ← get
  check (isHexDigest row.tokenDigest = true)
    (.validation none "Constraint “agora_render_token_digest_format” is violated.")
  check (0 < row.viewerAuthVersion)
    (.validation none "Constraint “agora_render_auth_version_positive” is violated.")
  check (db.authorizations.any (fun other => other.tokenDigest = row.tokenDigest) = false)
    (.integrity "TB_TA_AGORA_RENDER_AUTHORIZATION.TOKEN_DIGEST")
  let authorizations ← found (db.authorizations.create row)
    (.integrity "TB_TA_AGORA_RENDER_AUTHORIZATION.ID")
  set { db with authorizations := authorizations }
  pure row

/-- The fields of a stored authorization that `save` refuses to change. -/
def RenderAuthorization.SameScope (first second : RenderAuthorization) : Prop :=
  first.tokenDigest = second.tokenDigest ∧ first.audience = second.audience ∧
    first.viewerId = second.viewerId ∧
      first.viewerAuthVersion = second.viewerAuthVersion ∧
        first.dashboardId = second.dashboardId ∧ first.revisionId = second.revisionId ∧
          first.viewerGrantId = second.viewerGrantId ∧
            first.ownerTransferEpochId = second.ownerTransferEpochId ∧
              first.publicationVersion = second.publicationVersion ∧
                first.createdAt = second.createdAt ∧ first.expiresAt = second.expiresAt

instance (first second : RenderAuthorization) : Decidable (first.SameScope second) :=
  inferInstanceAs (Decidable (_ ∧ _))

/-- `RenderAuthorization.save` of a stored row. -/
def RenderAuthorization.save (row : RenderAuthorization) : Tx RenderAuthorization := do
  let db ← get
  let original ← found (db.authorizations.get? row.id) .doesNotExist
  check (original.SameScope row)
    (.immutableRecord "render authorization scope is immutable")
  check (original.revokedAt ≠ none → row.revokedAt = original.revokedAt)
    (.immutableRecord "render authorization revocation is immutable")
  check (original.authorizedOpenCapturedAt ≠ none →
      row.authorizedOpenCapturedAt = original.authorizedOpenCapturedAt)
    (.immutableRecord "authorized-open capture marker is immutable")
  row.cleanScope
  set { db with authorizations := db.authorizations.replace row }
  pure row

/-! ## Captured opens -/

/-- The truth of the SQL comparison `first <> second`, unknown when either side
is null. -/
def sqlDiffers {α : Type} [DecidableEq α] (first second : Option α) : Bool :=
  match first, second with
  | some left, some right => left ≠ right
  | _, _ => false

/-- The trigger `AGORA_AUTH_OPEN_GUARD` on insertion: the error it raises. -/
def AuthorizedOpen.insertGuard (db : Db) (row : AuthorizedOpen) : Option Failure :=
  match db.authorizations.get? row.sourceAuthorizationId with
  | none => some (.trigger (-20025) "authorized-open dependency is missing")
  | some source =>
      match db.users.get? source.viewerId, db.dashboards.get? source.dashboardId with
      | some viewer, some dashboard =>
          if source.audience ≠ .viewer ∨ source.authorizedOpenCapturedAt ≠ none ∨
              source.revokedAt ≠ none ∨ viewer.isActive = false ∨
              source.viewerAuthVersion ≠ viewer.authVersion ∨
              source.publicationVersion = none ∨ dashboard.state ≠ .published ∨
              sqlDiffers dashboard.publishedRevisionId (some source.revisionId) = true ∨
              sqlDiffers (some dashboard.publicationVersion) source.publicationVersion =
                true ∨
              row.dashboardId ≠ source.dashboardId ∨ row.viewerId ≠ source.viewerId ∨
              row.revisionId ≠ source.revisionId ∨
              sqlDiffers (some row.publicationVersion) source.publicationVersion = true ∨
              row.openedAt ≠ source.createdAt ∨ row.aggregatedAt ≠ none then
            some (.trigger (-20025) "authorized-open source is invalid")
          else if source.viewerId ≠ dashboard.ownerId then
            if source.viewerGrantId = none ∨ source.ownerTransferEpochId ≠ none then
              some (.trigger (-20025) "authorized-open viewer grant is missing")
            else if (db.grants.where? fun grant =>
                some grant.id = source.viewerGrantId ∧
                  grant.dashboardId = source.dashboardId ∧
                    grant.viewerId = source.viewerId ∧
                      grant.revokedAt = none).length ≠ 1 then
              some (.trigger (-20025) "authorized-open viewer grant is invalid")
            else none
          else if source.viewerGrantId ≠ none ∨
              source.ownerTransferEpochId ≠ dashboard.lastOwnershipTransferId then
            some (.trigger (-20025) "owner authorized-open cannot bind a grant")
          else none
      | _, _ => some (.trigger (-20025) "authorized-open dependency is missing")

/-- `AuthorizedOpen.clean` against the source authorization. -/
def AuthorizedOpen.clean (row : AuthorizedOpen) (source : RenderAuthorization) :
    Tx PUnit := do
  check (source.audience = .viewer)
    (.validation (some "source_authorization") "only published viewer issues count")
  check (row.dashboardId = source.dashboardId ∧ row.viewerId = source.viewerId ∧
      row.revisionId = source.revisionId ∧
        some row.publicationVersion = source.publicationVersion ∧
          row.openedAt = source.createdAt)
    (.validation none "authorized-open snapshot must match its source authorization")

/-- `AuthorizedOpen.save` of a new row, with `AGORA_AUTH_OPEN_GUARD` before and
`AGORA_AUTH_OPEN_MARK` after it. -/
def AuthorizedOpen.insert (row : AuthorizedOpen) : Tx AuthorizedOpen := do
  let db ← get
  let source ← found (db.authorizations.get? row.sourceAuthorizationId) .doesNotExist
  row.clean source
  check (0 < row.publicationVersion)
    (.validation none "Constraint “agora_open_pub_version_pos” is violated.")
  raiseAny (row.insertGuard db)
  check (db.opens.any (fun other =>
      other.sourceAuthorizationId = row.sourceAuthorizationId) = false)
    (.integrity "TB_TA_AGORA_AUTHORIZED_OPEN.SOURCE_AUTHORIZATION_ID")
  let opens ← found (db.opens.create row) (.integrity "TB_TA_AGORA_AUTHORIZED_OPEN.ID")
  check (source.authorizedOpenCapturedAt = none)
    (.trigger (-20026) "authorized-open source was already captured")
  set { db with
    opens := opens
    authorizations := db.authorizations.replace { source with
      authorizedOpenCapturedAt := some row.openedAt } }
  pure row

/-! ## Viewer states -/

def DashboardViewerState.clean (row : DashboardViewerState) : Tx PUnit := do
  let db ← get
  let dashboard ← found (db.dashboards.get? row.dashboardId) .doesNotExist
  check (row.seenPublicationVersion ≤ dashboard.publicationVersion)
    (.validation (some "seen_publication_version")
      "seen version cannot exceed dashboard version")

/-- `DashboardViewerState.save` of a new row. -/
def DashboardViewerState.insert (row : DashboardViewerState) :
    Tx DashboardViewerState := do
  row.clean
  let db ← get
  check (db.viewerStates.any (fun other =>
      other.userId = row.userId ∧ other.dashboardId = row.dashboardId) = false)
    (.validation none "Constraint “agora_view_state_user_dash_uq” is violated.")
  let viewerStates ← found (db.viewerStates.create row)
    (.integrity "TB_TA_AGORA_DASH_VIEWER_STATE.ID")
  set { db with viewerStates := viewerStates }
  pure row

/-- `DashboardViewerState.save` of a stored row. -/
def DashboardViewerState.save (row : DashboardViewerState) : Tx DashboardViewerState := do
  let db ← get
  let original ← found (db.viewerStates.get? row.id) .doesNotExist
  check (original.userId = row.userId ∧ original.dashboardId = row.dashboardId)
    (.immutableRecord "viewer-state scope is immutable")
  check (original.lastViewedAt ≤ row.lastViewedAt)
    (.immutableRecord "last-viewed time cannot move backward")
  check (original.seenPublicationVersion ≤ row.seenPublicationVersion)
    (.immutableRecord "seen publication version cannot decrease")
  row.clean
  set { db with viewerStates := db.viewerStates.replace row }
  pure row

end Agora
