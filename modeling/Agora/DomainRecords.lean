import Agora.ArtifactStorageKeys
import Agora.RowTable

/-!
# The records of the database

One structure for each model of `agora.core.models` with the columns its code
reads or writes, and the database as one table for each.  Identifiers of
`UUIDField` keys are numbers, times are microseconds of the epoch, and choices
are inductive types, so a row with an undeclared choice cannot be built.
-/

namespace Agora

abbrev Uuid := ℕ

/-- An aware datetime, in microseconds of the epoch. -/
abbrev Time := ℤ

def seconds (count : ℤ) : ℤ := count * 1000000

def days (count : ℤ) : ℤ := seconds (count * 86400)

/-- The date of an aware datetime in the UTC time zone of the settings. -/
def Time.date (time : Time) : ℤ := time / days 1

structure User where
  id : Uuid
  soeid : Text
  password : Text
  isActive : Bool
  isAdministrator : Bool
  authVersion : ℕ
  createdAt : Time
  updatedAt : Time
  deriving DecidableEq

inductive DashboardState where
  | draft
  | published
  | unpublished
  | archived
  | deleted
  deriving DecidableEq, Repr

structure Dashboard where
  id : Uuid
  ownerId : Uuid
  name : Text
  description : Text
  state : DashboardState
  latestRevisionId : Option Uuid
  publishedRevisionId : Option Uuid
  firstPublishedAt : Option Time
  publicationVersion : ℕ
  lastPublishedAt : Option Time
  publicationNote : Text
  dataAsOf : Option Time
  freshnessIntervalSeconds : Option ℤ
  freshnessConfirmedAt : Option Time
  staleAfter : Option Time
  lastOwnershipTransferId : Option Uuid
  createdAt : Time
  updatedAt : Time
  deriving DecidableEq

structure DashboardOwnershipTransfer where
  id : Uuid
  dashboardId : Uuid
  fromOwnerId : Uuid
  toOwnerId : Uuid
  previousTransferId : Option Uuid
  transferredAt : Time
  deriving DecidableEq

structure DashboardFavorite where
  id : ℕ
  userId : Uuid
  dashboardId : Uuid
  createdAt : Time
  deriving DecidableEq

structure DashboardViewerState where
  id : ℕ
  userId : Uuid
  dashboardId : Uuid
  lastViewedAt : Time
  seenPublicationVersion : ℕ
  deriving DecidableEq

inductive AccessRequestStatus where
  | pending
  | approved
  | denied
  | cancelled
  deriving DecidableEq, Repr

structure AccessRequest where
  id : ℕ
  dashboardId : Uuid
  requesterId : Uuid
  status : AccessRequestStatus
  message : Text
  requestedAt : Time
  resolvedAt : Option Time
  resolvedById : Option Uuid
  updatedAt : Time
  deriving DecidableEq

structure Revision where
  id : Uuid
  dashboardId : Uuid
  number : ℕ
  createdById : Uuid
  createdAt : Time
  artifactsLocked : Bool
  deriving DecidableEq

inductive ArtifactKind where
  | html
  | csv
  | css
  | image
  | font
  deriving DecidableEq, Repr

structure Artifact where
  id : Uuid
  revisionId : Uuid
  kind : ArtifactKind
  logicalName : Text
  nameKey : Text
  storageKey : Text
  byteSize : ℕ
  mediaType : String
  sha256 : Text
  deriving DecidableEq

structure ViewerGrant where
  id : Uuid
  dashboardId : Uuid
  viewerId : Uuid
  createdById : Uuid
  createdAt : Time
  revokedAt : Option Time
  revokedById : Option Uuid
  deriving DecidableEq

inductive Audience where
  | preview
  | viewer
  deriving DecidableEq, Repr

structure RenderAuthorization where
  id : Uuid
  tokenDigest : Text
  audience : Audience
  viewerId : Uuid
  viewerAuthVersion : ℕ
  dashboardId : Uuid
  revisionId : Uuid
  viewerGrantId : Option Uuid
  ownerTransferEpochId : Option Uuid
  publicationVersion : Option ℕ
  createdAt : Time
  expiresAt : Time
  revokedAt : Option Time
  authorizedOpenCapturedAt : Option Time
  deriving DecidableEq

structure AuthorizedOpen where
  id : ℕ
  sourceAuthorizationId : Uuid
  dashboardId : Uuid
  viewerId : Uuid
  revisionId : Uuid
  publicationVersion : ℕ
  openedAt : Time
  aggregatedAt : Option Time
  deriving DecidableEq

structure DashboardOpenDaily where
  id : ℕ
  dashboardId : Uuid
  day : ℤ
  authorizedOpenCount : ℕ
  deriving DecidableEq

structure DashboardViewerOpenSummary where
  id : ℕ
  dashboardId : Uuid
  viewerId : Uuid
  authorizedOpenCount : ℕ
  firstOpenedAt : Time
  lastOpenedAt : Time
  deriving DecidableEq

structure DashboardOpenSnapshot where
  id : ℕ
  dashboardId : Uuid
  authorizedOpenCount : ℕ
  lastOpenedAt : Time
  capturedThroughOpenId : ℕ
  updatedAt : Time
  deriving DecidableEq

/-- The one row of the checkpoint table, under its only allowed key. -/
structure AnalyticsPipelineCheckpoint where
  lastCompletedOpenId : ℕ
  updatedAt : Time
  deriving DecidableEq

inductive AuditEventType where
  | accountBootstrapped
  | userCreated
  | userDisabled
  | userEnabled
  | userPasswordReset
  | dashboardCreated
  | dashboardRenamed
  | revisionCreated
  | dashboardPublished
  | dashboardUnpublished
  | dashboardFreshnessConfirmed
  | dashboardOwnershipTransferred
  | dashboardPreviewStarted
  | grantCreated
  | grantRevoked
  | accessRequested
  | accessResolved
  deriving DecidableEq, Repr

/-- The persisted text of an event type. -/
def AuditEventType.name : AuditEventType → String
  | .accountBootstrapped => "auth.bootstrap"
  | .userCreated => "user.created"
  | .userDisabled => "user.disabled"
  | .userEnabled => "user.enabled"
  | .userPasswordReset => "user.password_reset"
  | .dashboardCreated => "dashboard.created"
  | .dashboardRenamed => "dashboard.renamed"
  | .revisionCreated => "revision.created"
  | .dashboardPublished => "dashboard.published"
  | .dashboardUnpublished => "dashboard.unpublished"
  | .dashboardFreshnessConfirmed => "dashboard.freshness_confirmed"
  | .dashboardOwnershipTransferred => "dashboard.ownership_transferred"
  | .dashboardPreviewStarted => "dashboard.preview_started"
  | .grantCreated => "grant.created"
  | .grantRevoked => "grant.revoked"
  | .accessRequested => "access.requested"
  | .accessResolved => "access.resolved"

/-- A value of the metadata object of an audit event. -/
inductive AuditValue where
  | uuid (id : Uuid)
  | number (value : ℕ)
  | flag (value : Bool)
  | status (value : AccessRequestStatus)
  | audience (value : Audience)
  deriving DecidableEq, Repr

structure AuditEvent where
  id : ℕ
  eventType : AuditEventType
  occurredAt : Time
  actorId : Option Uuid
  dashboardId : Option Uuid
  revisionId : Option Uuid
  targetUserId : Option Uuid
  metadata : List (String × AuditValue)
  deriving DecidableEq

inductive ReservationState where
  | reserved
  | owned
  | collision
  deriving DecidableEq, Repr

structure StorageReservation where
  id : Uuid
  storageKey : Text
  storageState : ReservationState
  createdAt : Time
  expiresAt : Time
  verifiedSize : Option ℕ
  verifiedSha256 : Text
  cleanupRequired : Bool
  deriving DecidableEq

section Keys

instance : Keyed User Uuid := ⟨User.id⟩
instance : Keyed Dashboard Uuid := ⟨Dashboard.id⟩
instance : Keyed DashboardOwnershipTransfer Uuid := ⟨DashboardOwnershipTransfer.id⟩
instance : Keyed DashboardFavorite ℕ := ⟨DashboardFavorite.id⟩
instance : Keyed DashboardViewerState ℕ := ⟨DashboardViewerState.id⟩
instance : Keyed AccessRequest ℕ := ⟨AccessRequest.id⟩
instance : Keyed Revision Uuid := ⟨Revision.id⟩
instance : Keyed Artifact Uuid := ⟨Artifact.id⟩
instance : Keyed ViewerGrant Uuid := ⟨ViewerGrant.id⟩
instance : Keyed RenderAuthorization Uuid := ⟨RenderAuthorization.id⟩
instance : Keyed AuthorizedOpen ℕ := ⟨AuthorizedOpen.id⟩
instance : Keyed DashboardOpenDaily ℕ := ⟨DashboardOpenDaily.id⟩
instance : Keyed DashboardViewerOpenSummary ℕ := ⟨DashboardViewerOpenSummary.id⟩
instance : Keyed DashboardOpenSnapshot ℕ := ⟨DashboardOpenSnapshot.id⟩
instance : Keyed AuditEvent ℕ := ⟨AuditEvent.id⟩
instance : Keyed StorageReservation Uuid := ⟨StorageReservation.id⟩

end Keys

structure Db where
  users : Table User
  dashboards : Table Dashboard
  transfers : Table DashboardOwnershipTransfer
  favorites : Table DashboardFavorite
  viewerStates : Table DashboardViewerState
  accessRequests : Table AccessRequest
  revisions : Table Revision
  artifacts : Table Artifact
  grants : Table ViewerGrant
  authorizations : Table RenderAuthorization
  opens : Table AuthorizedOpen
  dailyRollups : Table DashboardOpenDaily
  viewerSummaries : Table DashboardViewerOpenSummary
  snapshots : Table DashboardOpenSnapshot
  checkpoint : Option AnalyticsPipelineCheckpoint
  audits : Table AuditEvent
  reservations : Table StorageReservation
  /-- The next value of the identity columns; values are never reused. -/
  nextId : ℕ

def Db.empty : Db where
  users := .empty
  dashboards := .empty
  transfers := .empty
  favorites := .empty
  viewerStates := .empty
  accessRequests := .empty
  revisions := .empty
  artifacts := .empty
  grants := .empty
  authorizations := .empty
  opens := .empty
  dailyRollups := .empty
  viewerSummaries := .empty
  snapshots := .empty
  checkpoint := none
  audits := .empty
  reservations := .empty
  nextId := 1

end Agora
