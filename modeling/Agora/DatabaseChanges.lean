import Agora.AnalyticsServices
import Mathlib.Logic.Relation

/-!
# The changes that the services make to the database

Every committed service is a sequence of the changes listed here.  A change
carries what the code has checked before the write, so an invariant of the
database is proved once for each change and no service body is opened again.
Writes whose audit event belongs to them, and the marker and owner of a transfer,
are one change: the invariants hold again only after both.
-/

namespace Agora

open Transaction

/-- A committed aggregation or purge. -/
def AnalyticsCall (before after : Db) : Prop :=
  (∃ context through batchSize result,
    (aggregateAuthorizedOpens context through batchSize).Runs before result after) ∨
  ∃ context bound batchSize result,
    (purgeAuthorizedOpens context bound batchSize).Runs before result after

/-- The event that a grant audit records. -/
def AuditEvent.Concerns (event : AuditEvent) (eventType : AuditEventType)
    (grant : ViewerGrant) : Prop :=
  event.eventType = eventType ∧ event.dashboardId = some grant.dashboardId ∧
    event.targetUserId = some grant.viewerId ∧
      event.metadata = [("grant_id", .uuid grant.id)]

/-- The events that record a grant or an access request. -/
def AuditEventType.isScoped : AuditEventType → Bool
  | .grantCreated | .grantRevoked | .accessRequested | .accessResolved => true
  | _ => false

/-- The event that a new or reopened access request records. -/
def AuditEvent.Opens (event : AuditEvent) (request : AccessRequest) : Prop :=
  event.eventType = .accessRequested ∧ event.dashboardId = some request.dashboardId ∧
    event.targetUserId = some request.requesterId ∧
      ∃ reopened, event.metadata =
        [("request_id", .number request.id), ("reopened", .flag reopened)]

/-- The event that a resolution records. -/
def AuditEvent.Resolves (event : AuditEvent) (request : AccessRequest) : Prop :=
  event.eventType = .accessResolved ∧ event.dashboardId = some request.dashboardId ∧
    event.targetUserId = some request.requesterId ∧
      event.metadata =
        [("request_id", .number request.id), ("resolution", .status request.status)]

/-- The artifacts of a new revision were added: one of them is HTML, and their name
keys differ. -/
structure Completes (before : Table Artifact) (revisionId : Uuid) (after : Table Artifact) :
    Prop where
  kept : ∀ artifact ∈ before, artifact ∈ after
  added : ∀ artifact ∈ after, artifact ∈ before ∨ artifact.revisionId = revisionId
  oneHtml : (after.where? fun artifact =>
    artifact.revisionId = revisionId ∧ artifact.kind = .html).length = 1
  distinct : ∀ first ∈ after, ∀ second ∈ after, first.revisionId = revisionId →
    second.revisionId = revisionId → first ∉ before → first.nameKey = second.nameKey →
      first = second

/-- The number of the revision after the latest one of a dashboard. -/
def Db.Numbers (db : Db) (dashboard : Dashboard) (number : ℕ) : Prop :=
  match dashboard.latestRevisionId with
  | none => number = 1
  | some latestId => ∃ latest ∈ db.revisions.get? latestId, number = latest.number + 1

/-- What `Dashboard.save` has established about the row it writes. -/
structure Dashboard.SavedFrom (db : Db) (row original : Dashboard) : Prop where
  owner : row.ownerId = original.ownerId
  transfer : row.lastOwnershipTransferId = original.lastOwnershipTransferId
  version : original.publicationVersion ≤ row.publicationVersion
  republished : row.publicationVersion = original.publicationVersion →
    row.publishedRevisionId ≠ none →
      row.publishedRevisionId = original.publishedRevisionId
  published : row.state = .published ↔ row.publishedRevisionId.isSome = true
  versioned : row.state = .published → 0 < row.publicationVersion
  revision : ∀ revisionId ∈ row.publishedRevisionId,
    ∃ revision ∈ db.revisions.get? revisionId, revision.dashboardId = row.id
  accepting : row.state.acceptsRevisions = true → original.state.acceptsRevisions = true

/-- What the services and `RenderAuthorization.save` have established about a new
authorization. -/
structure RenderAuthorization.Issued (db : Db) (row : RenderAuthorization) : Prop where
  dashboard : ∃ dashboard ∈ db.dashboards.get? row.dashboardId,
    ∀ version ∈ row.publicationVersion, version = dashboard.publicationVersion
  viewer : ∃ viewer ∈ db.users.get? row.viewerId,
    row.viewerAuthVersion = viewer.authVersion
  revision : ∃ revision ∈ db.revisions.get? row.revisionId,
    revision.dashboardId = row.dashboardId
  epoch : ∀ epochId ∈ row.ownerTransferEpochId, ∃ epoch, db.transfers.get? epochId = some epoch
  grant : ∀ grantId ∈ row.viewerGrantId, ∃ grant ∈ db.grants.get? grantId,
    grant.dashboardId = row.dashboardId ∧ grant.viewerId = row.viewerId
  digest : ∀ other ∈ db.authorizations, other.tokenDigest ≠ row.tokenDigest
  uncaptured : row.authorizedOpenCapturedAt = none

/-- What `AuthorizedOpen.save` and its triggers have established about a new open. -/
structure AuthorizedOpen.CapturedFrom (row : AuthorizedOpen) (source : RenderAuthorization) :
    Prop where
  viewer : source.audience = .viewer
  uncaptured : source.authorizedOpenCapturedAt = none
  dashboardId : row.dashboardId = source.dashboardId
  viewerId : row.viewerId = source.viewerId
  openedAt : row.openedAt = source.createdAt

/-- A transfer marker that continues the chain of a dashboard, and the row that the
transfer leaves. -/
structure DashboardOwnershipTransfer.Moves (marker : DashboardOwnershipTransfer)
    (stored row : Dashboard) : Prop where
  dashboard : marker.dashboardId = row.id
  source : marker.fromOwnerId = stored.ownerId
  target : marker.toOwnerId = row.ownerId
  previous : marker.previousTransferId = stored.lastOwnershipTransferId
  row : row = { stored with
    ownerId := row.ownerId
    lastOwnershipTransferId := some marker.id
    updatedAt := row.updatedAt }

/-- The parts of the database that only some operations change. -/
inductive Effect where
  | opens
  | dashboards
  | transfers
  | requests
  | resolutions
  | revisions
  deriving DecidableEq

/-- One change with what has been checked before it; some kinds need an effect that
the operation has. -/
inductive Change (effects : Set Effect) (before : Db) : Db → Prop
  | idsTaken (count : ℕ) : Change effects before { before with nextId := before.nextId + count }
  | userInserted {row : User} {users : Table User}
      (hcreate : before.users.create row = some users)
      (hversion : 0 < row.authVersion) :
      Change effects before { before with users := users }
  | userSaved {row original : User}
      (horiginal : before.users.get? row.id = some original)
      (hversion : original.authVersion ≤ row.authVersion)
      (hactive : row.authVersion = original.authVersion → row.isActive = original.isActive) :
      Change effects before { before with users := before.users.replace row }
  | dashboardInserted {row : Dashboard} {dashboards : Table Dashboard}
      (hcreate : before.dashboards.create row = some dashboards)
      (hdraft : row.state = .draft) (hpublished : row.publishedRevisionId = none)
      (htransfer : row.lastOwnershipTransferId = none)
      (hlatest : row.latestRevisionId = none)
      (heffect : .dashboards ∈ effects) :
      Change effects before { before with dashboards := dashboards }
  | dashboardSaved {row original : Dashboard}
      (horiginal : before.dashboards.get? row.id = some original)
      (hsaved : row.SavedFrom before original)
      (hlatest : row.latestRevisionId = original.latestRevisionId) :
      Change effects before { before with dashboards := before.dashboards.replace row }
  | ownershipTransferred {marker : DashboardOwnershipTransfer}
      {transfers : Table DashboardOwnershipTransfer} {stored row : Dashboard}
      (hcreate : before.transfers.create marker = some transfers)
      (hstored : before.dashboards.get? row.id = some stored)
      (hmoves : marker.Moves stored row)
      (hgrants : ∀ grant ∈ before.grants, grant.dashboardId = row.id →
        grant.viewerId = row.ownerId → grant.revokedAt ≠ none)
      (hrequests : ∀ request ∈ before.accessRequests, request.dashboardId = row.id →
        request.requesterId = row.ownerId → request.status ≠ .pending)
      (heffect : .transfers ∈ effects) :
      Change effects before { before with
        transfers := transfers
        dashboards := before.dashboards.replace row }
  | grantCreated {grant : ViewerGrant} {grants : Table ViewerGrant}
      {dashboard : Dashboard} {event : AuditEvent} {audits : Table AuditEvent}
      (hdashboard : before.dashboards.get? grant.dashboardId = some dashboard)
      (hviewer : grant.viewerId ≠ dashboard.ownerId)
      (hunrevoked : grant.revokedAt = none)
      (hnone : before.activeGrants grant.dashboardId grant.viewerId = [])
      (hgrants : before.grants.create grant = some grants)
      (hevent : event.Concerns .grantCreated grant)
      (haudits : before.audits.create event = some audits) :
      Change effects before { before with
        grants := grants
        audits := audits
        nextId := before.nextId + 1 }
  | grantRevoked {grant original : ViewerGrant} {event : AuditEvent}
      {audits : Table AuditEvent}
      (horiginal : before.grants.get? grant.id = some original)
      (hunrevoked : original.revokedAt = none)
      (hdashboard : grant.dashboardId = original.dashboardId)
      (hviewer : grant.viewerId = original.viewerId)
      (hrevoked : grant.revokedAt ≠ none)
      (hevent : event.Concerns .grantRevoked grant)
      (haudits : before.audits.create event = some audits) :
      Change effects before { before with
        grants := before.grants.replace grant
        audits := audits
        nextId := before.nextId + 1 }
  | requestOpened {row : AccessRequest} {accessRequests : Table AccessRequest}
      {dashboard : Dashboard} {event : AuditEvent} {audits : Table AuditEvent}
      (hdashboard : before.dashboards.get? row.dashboardId = some dashboard)
      (hrequester : row.requesterId ≠ dashboard.ownerId)
      (hcreate : before.accessRequests.create row = some accessRequests)
      (hpending : row.status = .pending)
      (hevent : event.Opens row)
      (haudits : before.audits.create event = some audits)
      (heffect : .requests ∈ effects) :
      Change effects before { before with
        accessRequests := accessRequests
        audits := audits
        nextId := before.nextId + 1 }
  | requestReopened {row original : AccessRequest} {dashboard : Dashboard}
      {event : AuditEvent} {audits : Table AuditEvent}
      (horiginal : before.accessRequests.get? row.id = some original)
      (hscope : row.dashboardId = original.dashboardId)
      (hsame : row.requesterId = original.requesterId)
      (hdashboard : before.dashboards.get? row.dashboardId = some dashboard)
      (hrequester : row.requesterId ≠ dashboard.ownerId)
      (hresolved : original.status ≠ .pending)
      (hpending : row.status = .pending)
      (hevent : event.Opens row)
      (haudits : before.audits.create event = some audits)
      (heffect : .requests ∈ effects) :
      Change effects before { before with
        accessRequests := before.accessRequests.replace row
        audits := audits
        nextId := before.nextId + 1 }
  | requestResolved {row original : AccessRequest} {event : AuditEvent}
      {audits : Table AuditEvent}
      (horiginal : before.accessRequests.get? row.id = some original)
      (hscope : row.dashboardId = original.dashboardId)
      (hsame : row.requesterId = original.requesterId)
      (hpending : original.status = .pending)
      (hresolved : row.status ≠ .pending)
      (hevent : event.Resolves row)
      (haudits : before.audits.create event = some audits)
      (heffect : .resolutions ∈ effects) :
      Change effects before { before with
        accessRequests := before.accessRequests.replace row
        audits := audits
        nextId := before.nextId + 1 }
  | audited {event : AuditEvent} {audits : Table AuditEvent}
      (hunscoped : event.eventType.isScoped = false)
      (haudits : before.audits.create event = some audits) :
      Change effects before { before with audits := audits, nextId := before.nextId + 1 }
  | revisionCommitted {row : Revision} {revisions : Table Revision}
      {artifacts : Table Artifact} {stored written : Dashboard}
      (hrevisions : before.revisions.create row = some revisions)
      (hlocked : row.artifactsLocked = true)
      (hartifacts : Completes before.artifacts row.id artifacts)
      (hstored : before.dashboards.get? written.id = some stored)
      (hscope : row.dashboardId = written.id)
      (hnumber : before.Numbers stored row.number)
      (hsaved : written.SavedFrom { before with revisions := revisions } stored)
      (hlatest : written.latestRevisionId = some row.id)
      (heffect : .revisions ∈ effects) :
      Change effects before { before with
        revisions := revisions
        artifacts := artifacts
        dashboards := before.dashboards.replace written }
  | reservationsChanged (reservations : Table StorageReservation) :
      Change effects before { before with reservations := reservations }
  | favoriteAdded {row : DashboardFavorite} {favorites : Table DashboardFavorite}
      (hid : row.id < before.nextId)
      (hunique : ∀ other ∈ before.favorites,
        ¬ (other.userId = row.userId ∧ other.dashboardId = row.dashboardId))
      (hcreate : before.favorites.create row = some favorites) :
      Change effects before { before with favorites := favorites }
  | favoritesRemoved (retained : DashboardFavorite → Bool) :
      Change effects before { before with favorites := before.favorites.keep retained }
  | previewInserted {row : RenderAuthorization}
      {authorizations : Table RenderAuthorization}
      (hpreview : row.audience = .preview)
      (hissued : row.Issued before)
      (hcreate : before.authorizations.create row = some authorizations) :
      Change effects before { before with authorizations := authorizations }
  | authorizationRevoked {row original : RenderAuthorization}
      (horiginal : before.authorizations.get? row.id = some original)
      (hscope : original.SameScope row)
      (hrevoked : original.revokedAt ≠ none → row.revokedAt ≠ none)
      (hcaptured : row.authorizedOpenCapturedAt = original.authorizedOpenCapturedAt) :
      Change effects before { before with authorizations := before.authorizations.replace row }
  | viewInserted {row : RenderAuthorization} {opened : AuthorizedOpen}
      {authorizations : Table RenderAuthorization} {opens : Table AuthorizedOpen}
      (heffect : .opens ∈ effects)
      (hissued : row.Issued before)
      (hcreate : before.authorizations.create row = some authorizations)
      (hid : opened.id < before.nextId)
      (hsource : opened.sourceAuthorizationId = row.id)
      (hcaptured : opened.CapturedFrom row)
      (hunique : ∀ other ∈ before.opens, other.sourceAuthorizationId ≠ row.id)
      (hwaiting : opened.aggregatedAt = none)
      (hopens : before.opens.create opened = some opens) :
      Change effects before { before with
        opens := opens
        authorizations := authorizations.replace { row with
          authorizedOpenCapturedAt := some opened.openedAt } }
  | openCaptured {row : AuthorizedOpen} {opens : Table AuthorizedOpen}
      {source : RenderAuthorization}
      (heffect : .opens ∈ effects)
      (hid : row.id < before.nextId)
      (hsource : before.authorizations.get? row.sourceAuthorizationId = some source)
      (hcaptured : row.CapturedFrom source)
      (hunique : ∀ other ∈ before.opens,
        other.sourceAuthorizationId ≠ row.sourceAuthorizationId)
      (hwaiting : row.aggregatedAt = none)
      (hcreate : before.opens.create row = some opens) :
      Change effects before { before with
        opens := opens
        authorizations := before.authorizations.replace { source with
          authorizedOpenCapturedAt := some row.openedAt } }
  | viewerStateInserted {row : DashboardViewerState}
      {viewerStates : Table DashboardViewerState} {dashboard : Dashboard}
      (hid : row.id < before.nextId)
      (hdashboard : before.dashboards.get? row.dashboardId = some dashboard)
      (hseen : row.seenPublicationVersion ≤ dashboard.publicationVersion)
      (hunique : ∀ other ∈ before.viewerStates,
        ¬ (other.userId = row.userId ∧ other.dashboardId = row.dashboardId))
      (hcreate : before.viewerStates.create row = some viewerStates) :
      Change effects before { before with viewerStates := viewerStates }
  | viewerStateSaved {row original : DashboardViewerState} {dashboard : Dashboard}
      (horiginal : before.viewerStates.get? row.id = some original)
      (huser : row.userId = original.userId)
      (hscope : row.dashboardId = original.dashboardId)
      (hdashboard : before.dashboards.get? row.dashboardId = some dashboard)
      (hseen : row.seenPublicationVersion ≤ dashboard.publicationVersion) :
      Change effects before { before with viewerStates := before.viewerStates.replace row }
  | analyticsChanged {opens : Table AuthorizedOpen}
      {dailyRollups : Table DashboardOpenDaily}
      {viewerSummaries : Table DashboardViewerOpenSummary}
      {snapshots : Table DashboardOpenSnapshot}
      {checkpoint : Option AnalyticsPipelineCheckpoint} {nextId : ℕ}
      (heffect : .opens ∈ effects)
      (hnext : before.nextId ≤ nextId)
      (hopens : ∀ row ∈ opens, ∃ old ∈ before.opens, old.id = row.id ∧
        old.sourceAuthorizationId = row.sourceAuthorizationId)
      (hcall : AnalyticsCall before { before with
        opens := opens
        dailyRollups := dailyRollups
        viewerSummaries := viewerSummaries
        snapshots := snapshots
        checkpoint := checkpoint
        nextId := nextId }) :
      Change effects before { before with
        opens := opens
        dailyRollups := dailyRollups
        viewerSummaries := viewerSummaries
        snapshots := snapshots
        checkpoint := checkpoint
        nextId := nextId }

/-- A sequence of changes. -/
abbrev Changes (effects : Set Effect) : Db → Db → Prop :=
  Relation.ReflTransGen (Change effects)

/-! ## Changes without an effect -/

variable {effects : Set Effect} {before after : Db}

theorem Change.dashboard_absent (hchange : Change effects before after)
    (hnone : .dashboards ∉ effects) {id : Uuid} (habsent : before.dashboards.get? id = none) :
    after.dashboards.get? id = none := by
  have hreplaced (row : Dashboard) : (before.dashboards.replace row).get? id = none := by
    rw [Table.get?_replace, habsent]
    simp
  cases hchange with
  | dashboardInserted _ _ _ _ _ heffect => exact absurd heffect hnone
  | dashboardSaved => exact hreplaced _
  | ownershipTransferred => exact hreplaced _
  | revisionCommitted => exact hreplaced _
  | _ => exact habsent

theorem Changes.dashboard_absent (hchanges : Changes effects before after)
    (hnone : .dashboards ∉ effects) {id : Uuid} (habsent : before.dashboards.get? id = none) :
    after.dashboards.get? id = none := by
  induction hchanges with
  | refl => exact habsent
  | tail _ hlast ih => exact hlast.dashboard_absent hnone ih

theorem Change.accessRequests_eq (hchange : Change effects before after)
    (hrequests : .requests ∉ effects) (hresolutions : .resolutions ∉ effects) :
    after.accessRequests = before.accessRequests := by
  cases hchange with
  | requestOpened _ _ _ _ _ _ heffect => exact absurd heffect hrequests
  | requestReopened _ _ _ _ _ _ _ _ _ heffect => exact absurd heffect hrequests
  | requestResolved _ _ _ _ _ _ _ heffect => exact absurd heffect hresolutions
  | _ => rfl

theorem Changes.accessRequests_eq (hchanges : Changes effects before after)
    (hrequests : .requests ∉ effects) (hresolutions : .resolutions ∉ effects) :
    after.accessRequests = before.accessRequests := by
  induction hchanges with
  | refl => rfl
  | tail _ hlast ih => rw [hlast.accessRequests_eq hrequests hresolutions, ih]

end Agora
