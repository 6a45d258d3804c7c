import Agora.AuthorizationAgreement
import Agora.DashboardTriggers

/-!
# The capture of an open and its trigger

`_authorization_can_source_open` decides in Python whether an authorization may
source an open, and `AGORA_AUTH_OPEN_GUARD` decides it again in the database.  The
audience of an authorization and the state of a dashboard are columns that may be
null.  Python refuses a null there; in the trigger the comparison is unknown and
refuses nothing.  On all other rows the two decisions agree, and what Python
allows is a current credential.
-/

namespace Agora

open Sql

/-! ## The rows -/

/-- The columns of an open before the row is stored. -/
structure OpenColumns where
  id : ℕ
  sourceAuthorizationId : Uuid
  dashboardId : Uuid
  viewerId : Uuid
  revisionId : Uuid
  publicationVersion : Option ℕ
  openedAt : Time
  aggregatedAt : Option Time
  deriving DecidableEq

def AuthorizedOpen.columns (row : AuthorizedOpen) : OpenColumns where
  id := row.id
  sourceAuthorizationId := row.sourceAuthorizationId
  dashboardId := row.dashboardId
  viewerId := row.viewerId
  revisionId := row.revisionId
  publicationVersion := some row.publicationVersion
  openedAt := row.openedAt
  aggregatedAt := row.aggregatedAt

/-- The columns of an authorization as the table holds them: the audience may be null. -/
structure AuthorizationColumns where
  id : Uuid
  audience : Option Audience
  viewerId : Uuid
  viewerAuthVersion : ℕ
  dashboardId : Uuid
  revisionId : Uuid
  viewerGrantId : Option Uuid
  ownerTransferEpochId : Option Uuid
  publicationVersion : Option ℕ
  createdAt : Time
  expiresAt : Time
  revokedAt : Option Time
  authorizedOpenCapturedAt : Option Time
  deriving DecidableEq

def RenderAuthorization.columns (row : RenderAuthorization) : AuthorizationColumns where
  id := row.id
  audience := some row.audience
  viewerId := row.viewerId
  viewerAuthVersion := row.viewerAuthVersion
  dashboardId := row.dashboardId
  revisionId := row.revisionId
  viewerGrantId := row.viewerGrantId
  ownerTransferEpochId := row.ownerTransferEpochId
  publicationVersion := row.publicationVersion
  createdAt := row.createdAt
  expiresAt := row.expiresAt
  revokedAt := row.revokedAt
  authorizedOpenCapturedAt := row.authorizedOpenCapturedAt

/-- The row that `capture_authorized_open` inserts for an authorization. -/
def AuthorizationColumns.openColumns (source : AuthorizationColumns) (id : ℕ) :
    OpenColumns where
  id := id
  sourceAuthorizationId := source.id
  dashboardId := source.dashboardId
  viewerId := source.viewerId
  revisionId := source.revisionId
  publicationVersion := source.publicationVersion
  openedAt := source.createdAt
  aggregatedAt := none

/-- The rows that the two decisions read, with the columns that may be null. -/
structure CaptureRows where
  authorizations : Uuid → Option AuthorizationColumns
  dashboards : Uuid → Option DashboardColumns
  users : Table User
  revisions : Table Revision
  grants : Table ViewerGrant
  checkpoint : Option AnalyticsPipelineCheckpoint
  dashboardKey : ∀ id row, dashboards id = some row → row.id = id

def Db.captureRows (db : Db) : CaptureRows where
  authorizations id := (db.authorizations.get? id).map RenderAuthorization.columns
  dashboards id := (db.dashboards.get? id).map Dashboard.columns
  users := db.users
  revisions := db.revisions
  grants := db.grants
  checkpoint := db.checkpoint
  dashboardKey id row hrow := by
    obtain ⟨stored, hstored, rfl⟩ := Option.map_eq_some_iff.mp hrow
    exact Table.key_of_get? hstored

/-- An authorization with its related rows, as `select_related` loads them. -/
structure LoadedColumns where
  source : AuthorizationColumns
  dashboard : DashboardColumns
  viewer : User
  revision : Revision
  grant : Option ViewerGrant
  deriving DecidableEq

def LoadedAuthorization.columns (loaded : LoadedAuthorization) : LoadedColumns where
  source := loaded.authorization.columns
  dashboard := loaded.dashboard.columns
  viewer := loaded.viewer
  revision := loaded.revision
  grant := loaded.grant

/-- The related rows are those that the keys of the authorization name. -/
structure LoadedColumns.Loads (loaded : LoadedColumns) (rows : CaptureRows) : Prop where
  source : rows.authorizations loaded.source.id = some loaded.source
  dashboard : rows.dashboards loaded.source.dashboardId = some loaded.dashboard
  viewer : rows.users.get? loaded.source.viewerId = some loaded.viewer
  revision : rows.revisions.get? loaded.source.revisionId = some loaded.revision
  grant : loaded.grant = loaded.source.viewerGrantId.bind rows.grants.get?

instance (loaded : LoadedColumns) (rows : CaptureRows) : Decidable (loaded.Loads rows) :=
  decidable_of_iff
    (rows.authorizations loaded.source.id = some loaded.source ∧
      rows.dashboards loaded.source.dashboardId = some loaded.dashboard ∧
        rows.users.get? loaded.source.viewerId = some loaded.viewer ∧
          rows.revisions.get? loaded.source.revisionId = some loaded.revision ∧
            loaded.grant = loaded.source.viewerGrantId.bind rows.grants.get?)
    ⟨fun ⟨source, dashboard, viewer, revision, grant⟩ =>
        ⟨source, dashboard, viewer, revision, grant⟩,
      fun loads =>
        ⟨loads.source, loads.dashboard, loads.viewer, loads.revision, loads.grant⟩⟩

/-! ## The decisions of the service -/

/-- `user_can_view_published`. -/
def CaptureRows.userCanViewPublished (rows : CaptureRows) (dashboard : DashboardColumns)
    (viewer : User) (viewerGrant : Option ViewerGrant) : Bool :=
  if viewer.isActive = false then false
  else if dashboard.state ≠ some .published ∨ dashboard.publishedRevisionId = none then false
  else if dashboard.ownerId = viewer.id then true
  else
    match viewerGrant with
    | some grant =>
        grant.dashboardId = dashboard.id ∧ grant.viewerId = viewer.id ∧
          grant.revokedAt = none
    | none => rows.grants.any (ViewerGrant.isActiveFor dashboard.id viewer.id)

/-- `_authorization_can_source_open`. -/
def LoadedColumns.canSourceOpen (loaded : LoadedColumns) : Bool :=
  let authorization := loaded.source
  let dashboard := loaded.dashboard
  let viewer := loaded.viewer
  if authorization.audience ≠ some .viewer ∨ authorization.publicationVersion = none ∨
      authorization.publicationVersion = some 0 ∨ authorization.revokedAt ≠ none ∨
      viewer.isActive = false ∨ viewer.authVersion ≠ authorization.viewerAuthVersion ∨
      dashboard.state ≠ some .published ∨
      dashboard.publishedRevisionId ≠ some authorization.revisionId ∨
      some dashboard.publicationVersion ≠ authorization.publicationVersion then false
  else if dashboard.ownerId = viewer.id then
    authorization.viewerGrantId = none ∧
      authorization.ownerTransferEpochId = dashboard.lastOwnershipTransferId
  else
    authorization.ownerTransferEpochId = none ∧
      loaded.grant.any fun grant =>
        grant.dashboardId = dashboard.id ∧ grant.viewerId = viewer.id ∧
          grant.revokedAt = none

/-- `_authorization_is_current`. -/
def LoadedColumns.isCurrent (loaded : LoadedColumns) (rows : CaptureRows) (checkedAt : Time) :
    Bool :=
  let authorization := loaded.source
  let dashboard := loaded.dashboard
  if authorization.revokedAt ≠ none ∨ authorization.expiresAt ≤ checkedAt ∨
      loaded.viewer.isActive = false ∨
      loaded.viewer.authVersion ≠ authorization.viewerAuthVersion ∨
      loaded.revision.artifactsLocked = false ∨
      loaded.revision.dashboardId ≠ authorization.dashboardId then false
  else
    match authorization.audience with
    | some .preview =>
        authorization.viewerGrantId = none ∧
          dashboard.ownerId = authorization.viewerId ∧
            authorization.ownerTransferEpochId = dashboard.lastOwnershipTransferId ∧
              dashboard.state ≠ some .archived ∧ dashboard.state ≠ some .deleted
    | none => false
    | some .viewer =>
        if dashboard.publishedRevisionId ≠ some authorization.revisionId then false
        else if some dashboard.publicationVersion ≠ authorization.publicationVersion then
          false
        else if dashboard.ownerId = authorization.viewerId then
          authorization.viewerGrantId = none ∧
            authorization.ownerTransferEpochId = dashboard.lastOwnershipTransferId
        else if authorization.viewerGrantId = none ∨
            authorization.ownerTransferEpochId ≠ none then false
        else rows.userCanViewPublished dashboard loaded.viewer loaded.grant

/-! ## The trigger -/

/-- The condition on the source of an inserted open. -/
def OpenColumns.sourceInvalid (new : OpenColumns) (source : AuthorizationColumns)
    (viewer : User) (dashboard : DashboardColumns) : Truth :=
  (differs source.audience (some .viewer)).or <|
  (isNotNull source.authorizedOpenCapturedAt).or <|
  (isNotNull source.revokedAt).or <|
  (differs (some viewer.isActive) (some true)).or <|
  (differs (some source.viewerAuthVersion) (some viewer.authVersion)).or <|
  (isNull source.publicationVersion).or <|
  (differs dashboard.state (some .published)).or <|
  (differs dashboard.publishedRevisionId (some source.revisionId)).or <|
  (differs (some dashboard.publicationVersion) source.publicationVersion).or <|
  (differs (some new.dashboardId) (some source.dashboardId)).or <|
  (differs (some new.viewerId) (some source.viewerId)).or <|
  (differs (some new.revisionId) (some source.revisionId)).or <|
  (differs new.publicationVersion source.publicationVersion).or <|
  (differs (some new.openedAt) (some source.createdAt)).or <|
  isNotNull new.aggregatedAt

/-- The grants counted for the source of an inserted open. -/
def CaptureRows.validGrants (rows : CaptureRows) (source : AuthorizationColumns) :
    List ViewerGrant :=
  rows.grants.where? fun grant =>
    some grant.id = source.viewerGrantId ∧ grant.dashboardId = source.dashboardId ∧
      grant.viewerId = source.viewerId ∧ grant.revokedAt = none

/-- `AGORA_AUTH_OPEN_GUARD` on an inserted row. -/
def OpenColumns.insertGuard (rows : CaptureRows) (new : OpenColumns) : Guard := do
  let missing : Raised := ⟨-20025, "authorized-open dependency is missing"⟩
  let source ← selectInto (rows.authorizations new.sourceAuthorizationId) missing
  let viewer ← selectInto (rows.users.get? source.viewerId) missing
  let dashboard ← selectInto (rows.dashboards source.dashboardId) missing
  raiseWhen (new.sourceInvalid source viewer dashboard) (-20025)
    "authorized-open source is invalid"
  if differs (some source.viewerId) (some dashboard.ownerId) = .holds then
    raiseWhen ((isNull source.viewerGrantId).or (isNotNull source.ownerTransferEpochId))
      (-20025) "authorized-open viewer grant is missing"
    raiseWhen (differs (some (rows.validGrants source).length) (some 1)) (-20025)
      "authorized-open viewer grant is invalid"
  else
    raiseWhen ((isNotNull source.viewerGrantId).or
        (distinct source.ownerTransferEpochId dashboard.lastOwnershipTransferId))
      (-20025) "owner authorized-open cannot bind a grant"

/-- `AGORA_AUTH_OPEN_GUARD` on an updated row. -/
def OpenColumns.updateGuard (old new : OpenColumns) : Guard := do
  raiseWhen
    ((differs (some new.id) (some old.id)).or <|
      (differs (some new.sourceAuthorizationId) (some old.sourceAuthorizationId)).or <|
      (differs (some new.dashboardId) (some old.dashboardId)).or <|
      (differs (some new.viewerId) (some old.viewerId)).or <|
      (differs (some new.revisionId) (some old.revisionId)).or <|
      (differs new.publicationVersion old.publicationVersion).or <|
      differs (some new.openedAt) (some old.openedAt))
    (-20025) "authorized-open source fields are immutable"
  raiseWhen
    ((isNotNull old.aggregatedAt).and
      ((isNull new.aggregatedAt).or (differs new.aggregatedAt old.aggregatedAt)))
    (-20025) "authorized-open aggregation is one-way"

/-- `AGORA_AUTH_OPEN_GUARD` on a deleted row. -/
def OpenColumns.deleteGuard (rows : CaptureRows) (now : Time) (old : OpenColumns) : Guard := do
  raiseWhen ((isNull old.aggregatedAt).or (less (some (now - days 90)) (some old.openedAt)))
    (-20025) "authorized-open is not retention eligible"
  let checkpoint ← selectInto rows.checkpoint ⟨-20025, "authorized-open dependency is missing"⟩
  raiseWhen (less (some checkpoint.lastCompletedOpenId) (some old.id)) (-20025)
    "authorized-open is ahead of checkpoint"

/-- `AGORA_AUTH_OPEN_GUARD`. -/
def authorizedOpenGuard (rows : CaptureRows) (now : Time) : RowEvent OpenColumns → Guard
  | .inserting new => new.insertGuard rows
  | .updating old new => old.updateGuard new
  | .deleting old => old.deleteGuard rows now

/-! ## The check constraints -/

/-- `agora_render_audience_valid`. -/
def AuthorizationColumns.audienceValid (row : AuthorizationColumns) : Truth :=
  within row.audience [.preview, .viewer]

/-- `agora_render_pub_version_match`, which a null audience passes with any positive
version. -/
def AuthorizationColumns.pubVersionMatch (row : AuthorizationColumns) : Truth :=
  ((equals row.audience (some .preview)).and (isNull row.publicationVersion)).or <|
    (equals row.audience (some .viewer)).and <|
      (less (some 0) row.publicationVersion).and (isNotNull row.publicationVersion)

/-- `agora_render_epoch_grant_xor`. -/
def AuthorizationColumns.epochGrantXor (row : AuthorizationColumns) : Truth :=
  (isNull row.ownerTransferEpochId).or (isNull row.viewerGrantId)

/-- The check constraints of the authorization and of its dashboard, which refuse only what
fails. -/
structure LoadedColumns.MeetsConstraints (loaded : LoadedColumns) : Prop where
  audience : loaded.source.audienceValid ≠ .fails
  version : loaded.source.pubVersionMatch ≠ .fails
  epoch : loaded.source.epochGrantXor ≠ .fails
  publication : loaded.dashboard.publicationState ≠ .fails

instance (loaded : LoadedColumns) : Decidable loaded.MeetsConstraints :=
  decidable_of_iff
    (loaded.source.audienceValid ≠ .fails ∧ loaded.source.pubVersionMatch ≠ .fails ∧
      loaded.source.epochGrantXor ≠ .fails ∧ loaded.dashboard.publicationState ≠ .fails)
    ⟨fun ⟨audience, version, epoch, publication⟩ => ⟨audience, version, epoch, publication⟩,
      fun meets => ⟨meets.audience, meets.version, meets.epoch, meets.publication⟩⟩

theorem AuthorizationColumns.version_pos {row : AuthorizationColumns}
    (hversion : row.pubVersionMatch ≠ .fails) (haudience : row.audience = some .viewer) :
    ∃ version, row.publicationVersion = some version ∧ 0 < version := by
  cases hfound : row.publicationVersion with
  | none => simp [pubVersionMatch, haudience, hfound] at hversion
  | some version =>
      refine ⟨version, rfl, ?_⟩
      have hnotFails : ¬ less (some 0) (some version) = .fails := by
        simpa [pubVersionMatch, haudience, hfound] using hversion
      have hunequal : ¬ ¬ 0 < version := by
        intro hzero
        exact hnotFails (compare_eq_fails.mpr ⟨0, rfl, version, rfl, hzero⟩)
      exact not_not.mp hunequal

/-! ## The rows of the service -/

theorem LoadedAuthorization.canSourceOpen_columns (loaded : LoadedAuthorization) :
    loaded.columns.canSourceOpen =
      loaded.authorization.canSourceOpen loaded.dashboard loaded.viewer loaded.grant := by
  simp only [LoadedColumns.canSourceOpen, RenderAuthorization.canSourceOpen,
    LoadedAuthorization.columns, RenderAuthorization.columns, Dashboard.columns, ne_eq,
    Option.some.injEq]
  congr

theorem LoadedAuthorization.isCurrent_columns (loaded : LoadedAuthorization) (db : Db)
    (checkedAt : Time) :
    loaded.columns.isCurrent db.captureRows checkedAt = loaded.isCurrent db checkedAt := by
  simp only [LoadedColumns.isCurrent, LoadedAuthorization.isCurrent, Db.authorizationIsCurrent,
    LoadedAuthorization.columns, RenderAuthorization.columns, Dashboard.columns,
    CaptureRows.userCanViewPublished, Db.userCanViewPublished, Db.hasActiveViewerGrant,
    Db.captureRows, ne_eq, Option.some.injEq]
  cases loaded.authorization.audience <;> rfl

theorem sqlDiffers_eq_true_iff {α : Type} [DecidableEq α] {first second : Option α} :
    sqlDiffers first second = true ↔ differs first second = .holds := by
  cases first with
  | none => simp [sqlDiffers, differs_eq_holds]
  | some left => cases second <;> simp [sqlDiffers, differs_eq_holds]

theorem ite_some_eq_none_iff {α : Type} {condition : Prop} [Decidable condition] {raised : α}
    {rest : Option α} :
    (if condition then some raised else rest) = none ↔ ¬ condition ∧ rest = none := by
  split <;> simp_all

/-- The guard of an insertion in the service model is the trigger. -/
theorem AuthorizedOpen.insertGuard_eq_none_iff {db : Db} {row : AuthorizedOpen} :
    row.insertGuard db = none ↔ Accepts (row.columns.insertGuard db.captureRows) := by
  simp only [OpenColumns.insertGuard, accepts_bind_selectInto, accepts_bind,
    accepts_ite, accepts_raiseWhen]
  unfold AuthorizedOpen.insertGuard
  cases hsource : db.authorizations.get? row.sourceAuthorizationId with
  | none => simp [AuthorizedOpen.columns, Db.captureRows, hsource]
  | some source =>
      cases hviewer : db.users.get? source.viewerId with
      | none => simp [AuthorizedOpen.columns, RenderAuthorization.columns, Db.captureRows, hsource,
          hviewer]
      | some viewer =>
          cases hdashboard : db.dashboards.get? source.dashboardId with
          | none => simp [AuthorizedOpen.columns, RenderAuthorization.columns, Db.captureRows,
              hsource, hviewer, hdashboard]
          | some dashboard =>
              simp only [AuthorizedOpen.columns, Db.captureRows, hsource, hviewer, hdashboard,
                Option.map_some, RenderAuthorization.columns, Dashboard.columns,
                Option.mem_some_iff, exists_eq_left', ite_some_eq_none_iff,
                OpenColumns.sourceInvalid, sqlDiffers_eq_true_iff, Truth.or_eq_holds,
                isNull_eq_holds, isNotNull_eq_holds, distinct_eq_holds, differs_eq_holds,
                CaptureRows.validGrants, Bool.not_eq_true, ne_eq]
              split
              · simp_all [ite_some_eq_none_iff]
              · simp_all

/-! ## Parity -/

variable {rows : CaptureRows} {loaded : LoadedColumns}

/-- What both decisions ask of a credential and its related rows. -/
structure LoadedColumns.Entitled (loaded : LoadedColumns) : Prop where
  unrevoked : loaded.source.revokedAt = none
  active : loaded.viewer.isActive = true
  authVersion : loaded.viewer.authVersion = loaded.source.viewerAuthVersion
  version : loaded.source.publicationVersion = some loaded.dashboard.publicationVersion
  basis :
    (loaded.dashboard.ownerId = loaded.source.viewerId ∧
      loaded.source.viewerGrantId = none ∧
        loaded.source.ownerTransferEpochId = loaded.dashboard.lastOwnershipTransferId) ∨
    (loaded.dashboard.ownerId ≠ loaded.source.viewerId ∧
      loaded.source.ownerTransferEpochId = none ∧
        ∃ grant ∈ loaded.grant, grant.dashboardId = loaded.source.dashboardId ∧
          grant.viewerId = loaded.source.viewerId ∧ grant.revokedAt = none)

/-- The three columns in which a null is not compared, as Python asks for them. -/
def LoadedColumns.Published (loaded : LoadedColumns) : Prop :=
  loaded.source.audience = some .viewer ∧ loaded.dashboard.state = some .published ∧
    loaded.dashboard.publishedRevisionId = some loaded.source.revisionId

/-- The same columns, none of which is known to differ. -/
def LoadedColumns.Unrefused (loaded : LoadedColumns) : Prop :=
  (loaded.source.audience = none ∨ loaded.source.audience = some .viewer) ∧
    (loaded.dashboard.state = none ∨ loaded.dashboard.state = some .published) ∧
      (loaded.dashboard.publishedRevisionId = none ∨
        loaded.dashboard.publishedRevisionId = some loaded.source.revisionId)

/-- An entitled credential whose audience is null, or whose dashboard has no state, while
nothing else is known to refuse it. -/
def LoadedColumns.SlipsPast (loaded : LoadedColumns) : Prop :=
  (loaded.source.audience = none ∨ loaded.dashboard.state = none) ∧ loaded.Unrefused ∧
    loaded.Entitled

theorem canSourceOpen_iff (hloads : loaded.Loads rows)
    (hconstraints : loaded.MeetsConstraints) :
    loaded.canSourceOpen = true ↔ loaded.Published ∧ loaded.Entitled := by
  have hdashboardId : loaded.dashboard.id = loaded.source.dashboardId :=
    rows.dashboardKey _ _ hloads.dashboard
  have hviewerId : loaded.viewer.id = loaded.source.viewerId := Table.key_of_get? hloads.viewer
  have hnonzero : loaded.source.audience = some .viewer →
      loaded.source.publicationVersion ≠ none ∧ loaded.source.publicationVersion ≠ some 0 := by
    intro haudience
    obtain ⟨version, hfound, hpos⟩ :=
      AuthorizationColumns.version_pos hconstraints.version haudience
    rw [hfound]
    exact ⟨Option.some_ne_none _, fun hzero => hpos.ne' (Option.some.inj hzero)⟩
  unfold LoadedColumns.canSourceOpen
  constructor
  · intro hcan
    simp only at hcan
    split at hcan
    · contradiction
    · rename_i hopen
      simp only [not_or, not_not, Bool.not_eq_false] at hopen
      obtain ⟨haudience, _, _, hrevoked, hactive, hauth, hpublished, hrevision, hversion⟩ := hopen
      refine ⟨⟨haudience, hpublished, hrevision⟩, hrevoked, hactive, hauth, hversion.symm, ?_⟩
      split at hcan
      · rename_i howner
        rw [hviewerId] at howner
        simp only [decide_eq_true_eq] at hcan
        exact .inl ⟨howner, hcan.1, hcan.2⟩
      · rename_i howner
        rw [hviewerId] at howner
        simp only [decide_eq_true_eq, Option.any_eq_true, hdashboardId, hviewerId] at hcan
        exact .inr ⟨howner, hcan⟩
  · rintro ⟨⟨haudience, hpublished, hrevision⟩, hentitled⟩
    have hzero : loaded.dashboard.publicationVersion ≠ 0 := by
      intro hzero
      apply (hnonzero haudience).2
      rw [hentitled.version, hzero]
    simp only
    rw [if_neg (by
      simp [haudience, hpublished, hrevision, hentitled.unrevoked, hentitled.active,
        hentitled.authVersion, hentitled.version, hzero])]
    obtain ⟨howner, hgrant, hepoch⟩ | ⟨howner, hepoch, hgrant⟩ := hentitled.basis
    · rw [hviewerId, if_pos howner]
      simp [hgrant, hepoch]
    · rw [hviewerId, if_neg howner]
      simp only [hepoch, decide_eq_true_eq, Option.any_eq_true, hdashboardId, true_and]
      exact hgrant

/-- The trigger counts one grant exactly when the loaded grant is open. -/
theorem validGrants_length_eq_one (hloads : loaded.Loads rows) :
    (rows.validGrants loaded.source).length = 1 ↔
      ∃ grant ∈ loaded.grant, grant.dashboardId = loaded.source.dashboardId ∧
        grant.viewerId = loaded.source.viewerId ∧ grant.revokedAt = none := by
  constructor
  · intro hone
    obtain ⟨grant, hgrants⟩ := List.length_eq_one_iff.mp hone
    have hmem : grant ∈ rows.validGrants loaded.source := by simp [hgrants]
    rw [CaptureRows.validGrants, Table.mem_where?_iff, decide_eq_true_eq] at hmem
    obtain ⟨hstored, hid, hvalid⟩ := hmem
    refine ⟨grant, ?_, hvalid⟩
    rw [hloads.grant, ← hid]
    exact Table.get?_of_mem hstored
  · rintro ⟨grant, hfound, hvalid⟩
    rw [hloads.grant] at hfound
    obtain ⟨grantId, hid, hstored⟩ := Option.bind_eq_some_iff.mp hfound
    have hkey : grant.id = grantId := Table.key_of_get? hstored
    have honly : rows.validGrants loaded.source = [grant] := by
      apply Table.where?_eq_singleton (Table.mem_of_get? hstored)
      · rw [decide_eq_true_eq, hid, hkey]
        exact ⟨rfl, hvalid⟩
      · intro other hother hselected
        rw [decide_eq_true_eq, hid] at hselected
        have hsame : other.id = grant.id := by
          rw [hkey]
          exact Option.some.inj hselected.1
        exact Table.eq_of_key_eq hother (Table.mem_of_get? hstored) hsame
    rw [honly]
    rfl

/-- The condition of the trigger, with its comparisons of nulls resolved. -/
theorem sourceInvalid_ne_holds (huncaptured : loaded.source.authorizedOpenCapturedAt = none)
    (id : ℕ) :
    (loaded.source.openColumns id).sourceInvalid loaded.source loaded.viewer loaded.dashboard ≠
        .holds ↔
      loaded.Unrefused ∧ loaded.source.revokedAt = none ∧ loaded.viewer.isActive = true ∧
        loaded.viewer.authVersion = loaded.source.viewerAuthVersion ∧
          loaded.source.publicationVersion = some loaded.dashboard.publicationVersion := by
  have hversion : (loaded.source.publicationVersion ≠ none ∧
      ¬ differs (some loaded.dashboard.publicationVersion) loaded.source.publicationVersion =
        .holds) ↔
      loaded.source.publicationVersion = some loaded.dashboard.publicationVersion := by
    cases loaded.source.publicationVersion with
    | none => simp
    | some version =>
        simp only [ne_eq, reduceCtorEq, not_false_eq_true, differs_some, not_not, true_and,
          Option.some.injEq]
        exact eq_comm
  have hsame : ∀ {α : Type} [DecidableEq α] {value : Option α} {expected : α},
      (¬ differs value (some expected) = .holds) ↔ value = none ∨ value = some expected := by
    intro α _ value expected
    rw [← ne_eq, differs_ne_holds]
    simp
  rw [← hversion]
  simp only [OpenColumns.sourceInvalid, AuthorizationColumns.openColumns, ne_eq,
    Truth.or_eq_holds, isNotNull_eq_holds, isNull_eq_holds, differs_some, not_or, not_not,
    LoadedColumns.Unrefused, hsame, huncaptured, differs_self, not_false_eq_true, true_and,
    and_true]
  constructor
  · rintro ⟨haudience, hunrevoked, hactive, hauth, hset, hpublished, hrevision, hequal⟩
    exact ⟨⟨haudience, hpublished, hrevision⟩, hunrevoked, hactive, hauth.symm, hset, hequal⟩
  · rintro ⟨⟨haudience, hpublished, hrevision⟩, hunrevoked, hactive, hauth, hset, hequal⟩
    exact ⟨haudience, hunrevoked, hactive, hauth.symm, hset, hpublished, hrevision, hequal⟩

theorem accepts_insertGuard_iff (hloads : loaded.Loads rows)
    (huncaptured : loaded.source.authorizedOpenCapturedAt = none) (id : ℕ) :
    Accepts ((loaded.source.openColumns id).insertGuard rows) ↔
      loaded.Unrefused ∧ loaded.Entitled := by
  have hgrants := validGrants_length_eq_one hloads
  have hsource := sourceInvalid_ne_holds huncaptured id
  have hguard : Accepts ((loaded.source.openColumns id).insertGuard rows) ↔
      (loaded.source.openColumns id).sourceInvalid loaded.source loaded.viewer
          loaded.dashboard ≠ .holds ∧
        (loaded.source.viewerId ≠ loaded.dashboard.ownerId →
          loaded.source.viewerGrantId ≠ none ∧
            loaded.source.ownerTransferEpochId = none ∧
              (rows.validGrants loaded.source).length = 1) ∧
        (loaded.source.viewerId = loaded.dashboard.ownerId →
          loaded.source.viewerGrantId = none ∧
            loaded.source.ownerTransferEpochId = loaded.dashboard.lastOwnershipTransferId) := by
    have hread : rows.authorizations (loaded.source.openColumns id).sourceAuthorizationId =
        some loaded.source := hloads.source
    simp only [OpenColumns.insertGuard, accepts_bind_selectInto, hread, hloads.viewer,
      hloads.dashboard, accepts_bind, accepts_ite, accepts_raiseWhen, Option.mem_some_iff,
      exists_eq_left', differs_eq_holds, Truth.or_eq_holds, isNull_eq_holds, isNotNull_eq_holds,
      distinct_eq_holds, ne_eq, not_or, not_not, and_assoc]
  rw [hguard, hsource, hgrants]
  constructor
  · rintro ⟨⟨hunrefused, hunrevoked, hactive, hauth, hversion⟩, hother, howner⟩
    refine ⟨hunrefused, hunrevoked, hactive, hauth, hversion, ?_⟩
    by_cases howned : loaded.source.viewerId = loaded.dashboard.ownerId
    · exact .inl ⟨howned.symm, howner howned⟩
    · exact .inr ⟨Ne.symm howned, (hother howned).2⟩
  · rintro ⟨hunrefused, hentitled⟩
    refine ⟨⟨hunrefused, hentitled.unrevoked, hentitled.active, hentitled.authVersion,
      hentitled.version⟩, ?_, ?_⟩
    · intro hother
      obtain ⟨howner, _⟩ | ⟨_, hepoch, grant, hfound, hvalid⟩ := hentitled.basis
      · exact absurd howner.symm hother
      · refine ⟨?_, hepoch, grant, hfound, hvalid⟩
        intro hnone
        rw [hloads.grant, hnone] at hfound
        contradiction
    · intro howned
      obtain ⟨_, hbound⟩ | ⟨hother, _⟩ := hentitled.basis
      · exact hbound
      · exact absurd howned.symm hother

/-- What Python allows to source an open is a current credential. -/
theorem isCurrent_of_canSourceOpen (hloads : loaded.Loads rows)
    (hconstraints : loaded.MeetsConstraints) (hcan : loaded.canSourceOpen = true)
    {checkedAt : Time} (hunexpired : checkedAt < loaded.source.expiresAt)
    (hlocked : loaded.revision.artifactsLocked = true)
    (hrevision : loaded.revision.dashboardId = loaded.source.dashboardId) :
    loaded.isCurrent rows checkedAt = true := by
  obtain ⟨⟨haudience, hpublished, hpinned⟩, hentitled⟩ :=
    (canSourceOpen_iff hloads hconstraints).mp hcan
  have hdashboardId : loaded.dashboard.id = loaded.source.dashboardId :=
    rows.dashboardKey _ _ hloads.dashboard
  have hviewerId : loaded.viewer.id = loaded.source.viewerId := Table.key_of_get? hloads.viewer
  unfold LoadedColumns.isCurrent
  simp only
  rw [if_neg (by
    simp [hentitled.unrevoked, hentitled.active, hentitled.authVersion, hlocked, hrevision,
      hunexpired])]
  simp only [haudience]
  rw [if_neg (by simp [hpinned]), if_neg (by simp [hentitled.version])]
  obtain ⟨howner, hunbound, hepoch⟩ | ⟨howner, hepoch, grant, hfound, hsame, hholder, hopen⟩ :=
    hentitled.basis
  · rw [if_pos howner]
    simp [hunbound, hepoch]
  · have hbound : loaded.source.viewerGrantId ≠ none := by
      intro hnone
      rw [hloads.grant, hnone] at hfound
      contradiction
    rw [if_neg howner, if_neg (by simp [hbound, hepoch])]
    unfold CaptureRows.userCanViewPublished
    rw [if_neg (by simp [hentitled.active]),
      if_neg (by simp [hpublished, hpinned]), hviewerId, if_neg howner]
    rw [Option.mem_def] at hfound
    simp [hfound, hdashboardId, hsame, hholder, hopen]

/-- Where no null slips past, the three columns are what Python asks for. -/
theorem published_of_unrefused (hconstraints : loaded.MeetsConstraints)
    (hunrefused : loaded.Unrefused)
    (hset : ¬ (loaded.source.audience = none ∨ loaded.dashboard.state = none)) :
    loaded.Published := by
  obtain ⟨haudience, hstate, hrevision⟩ := hunrefused
  obtain ⟨haudienceSet, hstateSet⟩ := not_or.mp hset
  have hpublished := hstate.resolve_left hstateSet
  have hpinned := DashboardColumns.publishedRevision_ne_none hconstraints.publication hpublished
  exact ⟨haudience.resolve_left haudienceSet, hpublished, hrevision.resolve_left hpinned⟩

theorem LoadedColumns.Published.unrefused (hpublished : loaded.Published) :
    loaded.Unrefused :=
  ⟨.inr hpublished.1, .inr hpublished.2.1, .inr hpublished.2.2⟩

/-- `_authorization_can_source_open` allows an uncaptured authorization exactly when
`AGORA_AUTH_OPEN_GUARD` accepts the row of its open, and what it allows is current, unless a
null audience or state slips past the trigger. -/
theorem open_capture_predicates_agree_iff (hloads : loaded.Loads rows)
    (huncaptured : loaded.source.authorizedOpenCapturedAt = none)
    (hconstraints : loaded.MeetsConstraints) :
    ((∀ id now, loaded.canSourceOpen = true ↔
        Accepts (authorizedOpenGuard rows now (.inserting (loaded.source.openColumns id)))) ∧
      (loaded.canSourceOpen = true →
        ∀ checkedAt < loaded.source.expiresAt, loaded.revision.artifactsLocked = true →
          loaded.revision.dashboardId = loaded.source.dashboardId →
            loaded.isCurrent rows checkedAt = true)) ↔
      ¬ loaded.SlipsPast := by
  have hcan := canSourceOpen_iff hloads hconstraints
  have haccepts : ∀ id now,
      Accepts (authorizedOpenGuard rows now (.inserting (loaded.source.openColumns id))) ↔
        loaded.Unrefused ∧ loaded.Entitled :=
    fun id _ => accepts_insertGuard_iff hloads huncaptured id
  constructor
  · rintro ⟨hagree, _⟩ ⟨hnull, hunrefused, hentitled⟩
    have hallowed := (hagree 0 0).mpr ((haccepts 0 0).mpr ⟨hunrefused, hentitled⟩)
    obtain ⟨⟨haudience, hstate, _⟩, _⟩ := hcan.mp hallowed
    simp [haudience, hstate] at hnull
  · intro hslips
    refine ⟨fun id now => ?_, fun hallowed checkedAt hunexpired hlocked hrevision =>
      isCurrent_of_canSourceOpen hloads hconstraints hallowed hunexpired hlocked hrevision⟩
    rw [hcan, haccepts]
    constructor
    · rintro ⟨hpublished, hentitled⟩
      exact ⟨hpublished.unrefused, hentitled⟩
    · rintro ⟨hunrefused, hentitled⟩
      refine ⟨published_of_unrefused hconstraints hunrefused fun hnull => ?_, hentitled⟩
      exact hslips ⟨hnull, hunrefused, hentitled⟩

/-- A credential of the second user that no open has captured yet. -/
def uncapturedView : RenderAuthorization where
  id := 8
  tokenDigest := tokenDigest (repeatedToken 'A')
  audience := .viewer
  viewerId := 2
  viewerAuthVersion := 1
  dashboardId := 3
  revisionId := 5
  viewerGrantId := some 7
  ownerTransferEpochId := none
  publicationVersion := some 1
  createdAt := 8
  expiresAt := 8 + renderLifetime
  revokedAt := none
  authorizedOpenCapturedAt := none

def uncapturedDb : Db :=
  { runCalls asciiPlatform publishedCalls with
    authorizations := Table.empty.insert uncapturedView rfl }

/-- The rows of the uncaptured credential, its audience null. -/
def unlabelledRows : CaptureRows :=
  { uncapturedDb.captureRows with
    authorizations := fun id =>
      (uncapturedDb.captureRows.authorizations id).map ({ · with audience := none }) }

/-- The same rows, where the dashboard has no state instead. -/
def statelessRows : CaptureRows :=
  { uncapturedDb.captureRows with
    dashboards := fun id =>
      (uncapturedDb.captureRows.dashboards id).map ({ · with state := none })
    dashboardKey := by
      intro id row hrow
      obtain ⟨stored, hstored, rfl⟩ := Option.map_eq_some_iff.mp hrow
      exact uncapturedDb.captureRows.dashboardKey id stored hstored }

theorem uncapturedView_sources_open :
    ∃ loaded : LoadedColumns,
      loaded.Loads uncapturedDb.captureRows ∧ loaded.canSourceOpen = true ∧
        (((∀ id now, loaded.canSourceOpen = true ↔
            Accepts (authorizedOpenGuard uncapturedDb.captureRows now
              (.inserting (loaded.source.openColumns id)))) ∧
          (loaded.canSourceOpen = true →
            ∀ checkedAt < loaded.source.expiresAt, loaded.revision.artifactsLocked = true →
              loaded.revision.dashboardId = loaded.source.dashboardId →
                loaded.isCurrent uncapturedDb.captureRows checkedAt = true)) ↔
          ¬ loaded.SlipsPast) := by
  have hcomputed : (uncapturedDb.loadAuthorization uncapturedView).map (fun loaded =>
      decide (loaded.columns.Loads uncapturedDb.captureRows ∧
        loaded.columns.source.authorizedOpenCapturedAt = none ∧
          loaded.columns.MeetsConstraints ∧ loaded.columns.canSourceOpen = true)) =
            some true := by
    decide +kernel
  obtain ⟨loaded, _, hholds⟩ := Option.map_eq_some_iff.mp hcomputed
  obtain ⟨hloads, huncaptured, hconstraints, hcan⟩ := of_decide_eq_true hholds
  exact ⟨loaded.columns, hloads, hcan,
    open_capture_predicates_agree_iff hloads huncaptured hconstraints⟩

/-- The trigger accepts the open of a credential without an audience, and of one whose
dashboard has no state; Python refuses both. -/
theorem null_labels_slip_past_trigger :
    (∃ loaded : LoadedColumns, loaded.Loads unlabelledRows ∧ loaded.MeetsConstraints ∧
      loaded.source.authorizedOpenCapturedAt = none ∧ loaded.canSourceOpen = false ∧
        Accepts (authorizedOpenGuard unlabelledRows 9
          (.inserting (loaded.source.openColumns 1)))) ∧
    ∃ loaded : LoadedColumns, loaded.Loads statelessRows ∧ loaded.MeetsConstraints ∧
      loaded.source.authorizedOpenCapturedAt = none ∧ loaded.canSourceOpen = false ∧
        Accepts (authorizedOpenGuard statelessRows 9
          (.inserting (loaded.source.openColumns 1))) := by
  have hunlabelled : (uncapturedDb.loadAuthorization uncapturedView).map (fun loaded =>
      let changed : LoadedColumns :=
        { loaded.columns with source := { loaded.columns.source with audience := none } }
      decide (changed.Loads unlabelledRows ∧ changed.MeetsConstraints ∧
        changed.source.authorizedOpenCapturedAt = none ∧ changed.canSourceOpen = false ∧
          Accepts (authorizedOpenGuard unlabelledRows 9
            (.inserting (changed.source.openColumns 1))))) = some true := by
    decide +kernel
  have hstateless : (uncapturedDb.loadAuthorization uncapturedView).map (fun loaded =>
      let changed : LoadedColumns :=
        { loaded.columns with dashboard := { loaded.columns.dashboard with state := none } }
      decide (changed.Loads statelessRows ∧ changed.MeetsConstraints ∧
        changed.source.authorizedOpenCapturedAt = none ∧ changed.canSourceOpen = false ∧
          Accepts (authorizedOpenGuard statelessRows 9
            (.inserting (changed.source.openColumns 1))))) = some true := by
    decide +kernel
  constructor
  · obtain ⟨loaded, _, hholds⟩ := Option.map_eq_some_iff.mp hunlabelled
    exact ⟨_, of_decide_eq_true hholds⟩
  · obtain ⟨loaded, _, hholds⟩ := Option.map_eq_some_iff.mp hstateless
    exact ⟨_, of_decide_eq_true hholds⟩

end Agora
