import Agora.DatabaseEvolution

/-!
# A dead credential stays dead

Every authorization is bound to rows that exist, at versions that have been
reached.  So when a later check of it succeeds, no fact the check reads has
changed since any earlier moment at which the authorization existed: a version
that had moved could not have come back, and neither could an owner's epoch.
-/

namespace Agora

open Transaction

variable {effects : Set Effect}

/-! ## What every reachable database satisfies -/

/-- The facts that a stored authorization is bound to. -/
structure RenderAuthorization.Bound (db : Db) (row : RenderAuthorization) : Prop where
  dashboard : ∃ dashboard, db.dashboards.get? row.dashboardId = some dashboard ∧
    ∀ version ∈ row.publicationVersion, version ≤ dashboard.publicationVersion
  viewer : ∃ viewer, db.users.get? row.viewerId = some viewer ∧
    row.viewerAuthVersion ≤ viewer.authVersion
  revision : ∃ revision, db.revisions.get? row.revisionId = some revision ∧
    revision.dashboardId = row.dashboardId
  epoch : ∀ epochId ∈ row.ownerTransferEpochId, ∃ epoch,
    db.transfers.get? epochId = some epoch
  grant : ∀ grantId ∈ row.viewerGrantId, ∃ grant, db.grants.get? grantId = some grant ∧
    grant.dashboardId = row.dashboardId ∧ grant.viewerId = row.viewerId

structure Db.Credentials (db : Db) : Prop where
  locked : ∀ revision ∈ db.revisions, revision.artifactsLocked = true
  published : ∀ dashboard ∈ db.dashboards,
    dashboard.state = .published ↔ dashboard.publishedRevisionId.isSome = true
  bound : ∀ row ∈ db.authorizations, row.Bound db
  digests : ∀ first ∈ db.authorizations, ∀ second ∈ db.authorizations,
    first.tokenDigest = second.tokenDigest → first = second

theorem RenderAuthorization.Bound.evolves {before after : Db} {row later : RenderAuthorization}
    (hbound : row.Bound before) (hevolves : Evolves before after)
    (hscope : row.SameScope later) : later.Bound after := by
  rcases hscope with ⟨_, _, hviewer, hversion, hdashboard, hrevision, hgrant, hepoch,
    hpublication, _, _⟩
  constructor
  · rcases hbound.dashboard with ⟨dashboard, hget, hle⟩
    rcases hevolves.dashboards _ _ hget with ⟨evolved, hevolved, hstep⟩
    rw [← hdashboard, ← hpublication]
    exact ⟨evolved, hevolved, fun version hmem => (hle version hmem).trans hstep.version⟩
  · rcases hbound.viewer with ⟨viewer, hget, hle⟩
    rcases hevolves.users _ _ hget with ⟨evolved, hevolved, hstep⟩
    rw [← hviewer, ← hversion]
    exact ⟨evolved, hevolved, hle.trans hstep.1⟩
  · rcases hbound.revision with ⟨revision, hget, hbelongs⟩
    rcases hevolves.revisions _ _ hget with ⟨evolved, hevolved, rfl⟩
    rw [← hdashboard, ← hrevision]
    exact ⟨revision, hevolved, hbelongs⟩
  · intro epochId hmem
    rw [← hepoch] at hmem
    rcases hbound.epoch epochId hmem with ⟨epoch, hget⟩
    rcases hevolves.transfers _ _ hget with ⟨evolved, hevolved, _⟩
    exact ⟨evolved, hevolved⟩
  · intro grantId hmem
    rw [← hgrant] at hmem
    rcases hbound.grant grantId hmem with ⟨grant, hget, hdash, hview⟩
    rcases hevolves.grants _ _ hget with ⟨evolved, hevolved, hstep⟩
    rw [← hdashboard, ← hviewer]
    exact ⟨evolved, hevolved, hstep.1.trans hdash, hstep.2.1.trans hview⟩

theorem RenderAuthorization.Issued.bound {db : Db} {row : RenderAuthorization}
    (hissued : row.Issued db) : row.Bound db where
  dashboard := by
    rcases hissued.dashboard with ⟨dashboard, hget, hversion⟩
    exact ⟨dashboard, hget, fun version hmem => (hversion version hmem).le⟩
  viewer := by
    rcases hissued.viewer with ⟨viewer, hget, hversion⟩
    exact ⟨viewer, hget, hversion.le⟩
  revision := hissued.revision
  epoch := hissued.epoch
  grant := hissued.grant

/-- A change writes over stored authorizations without moving their scope, or it
inserts one and may mark it. -/
theorem Change.authorizations {before after : Db} (hchange : Change effects before after) :
    (∀ row ∈ after.authorizations, ∃ old ∈ before.authorizations,
      old.id = row.id ∧ old.SameScope row) ∨
    ∃ issued authorizations, issued.Issued before ∧
      before.authorizations.create issued = some authorizations ∧
        ∀ row ∈ after.authorizations, ∃ old ∈ authorizations,
          old.id = row.id ∧ old.SameScope row := by
  have hreplaced : ∀ (table : Table RenderAuthorization) row original,
      table.get? row.id = some original → original.SameScope row →
        ∀ other ∈ table.replace row, ∃ old ∈ table, old.id = other.id ∧ old.SameScope other := by
    intro table row original horiginal hscope other hother
    rcases (Table.mem_replace horiginal).mp hother with rfl | ⟨hold, _⟩
    · exact ⟨original, Table.mem_of_get? horiginal, Table.key_of_get? horiginal, hscope⟩
    · exact ⟨other, hold, rfl, .refl other⟩
  cases hchange with
  | previewInserted _ hissued hcreate =>
      exact .inr ⟨_, _, hissued, hcreate, fun row hrow => ⟨row, hrow, rfl, .refl row⟩⟩
  | @viewInserted row opened authorizations opens _ hissued hcreate _ _ _ _ _ _ =>
      have hself : authorizations.get? row.id = some row := by
        rw [Table.get?_of_create hcreate]
        exact if_pos rfl
      exact .inr ⟨row, authorizations, hissued, hcreate,
        hreplaced _ { row with authorizedOpenCapturedAt := some opened.openedAt } row hself
          (.refl row)⟩
  | authorizationRevoked horiginal hscope _ _ =>
      exact .inl (hreplaced _ _ _ horiginal hscope)
  | @openCaptured row opens source _ _ hsource _ _ _ _ =>
      have hid : source.id = row.sourceAuthorizationId := Table.key_of_get? hsource
      rw [← hid] at hsource
      exact .inl (hreplaced _ { source with authorizedOpenCapturedAt := some row.openedAt }
        source hsource (.refl source))
  | _ => exact .inl fun row hrow => ⟨row, hrow, rfl, .refl row⟩

namespace Db.Credentials

variable {before after : Db}

theorem locked_change (hgood : before.Credentials) (hchange : Change effects before after) :
    ∀ revision ∈ after.revisions, revision.artifactsLocked = true := by
  cases hchange with
  | revisionCommitted hrevisions hlocked =>
      intro revision hrevision
      rcases (Table.mem_of_create hrevisions).mp hrevision with rfl | hold
      · exact hlocked
      · exact hgood.locked revision hold
  | _ => exact hgood.locked

theorem published_change (hgood : before.Credentials) (hchange : Change effects before after) :
    ∀ dashboard ∈ after.dashboards,
      dashboard.state = .published ↔ dashboard.publishedRevisionId.isSome = true := by
  cases hchange with
  | dashboardInserted hcreate hdraft hpublished _ =>
      intro dashboard hdashboard
      rcases (Table.mem_of_create hcreate).mp hdashboard with rfl | hold
      · simp [hdraft, hpublished]
      · exact hgood.published dashboard hold
  | dashboardSaved horiginal hsaved =>
      intro dashboard hdashboard
      rcases (Table.mem_replace horiginal).mp hdashboard with rfl | ⟨hold, _⟩
      · exact hsaved.published
      · exact hgood.published dashboard hold
  | revisionCommitted _ _ _ hstored _ _ hsaved =>
      intro dashboard hdashboard
      rcases (Table.mem_replace hstored).mp hdashboard with rfl | ⟨hold, _⟩
      · exact hsaved.published
      · exact hgood.published dashboard hold
  | @ownershipTransferred marker transfers stored row _ hstored hmoves _ _ =>
      intro dashboard hdashboard
      rcases (Table.mem_replace hstored).mp hdashboard with rfl | ⟨hold, _⟩
      · rw [hmoves.row]
        exact hgood.published stored (Table.mem_of_get? hstored)
      · exact hgood.published dashboard hold
  | _ => exact hgood.published

theorem bound_change (hgood : before.Credentials) (hchange : Change effects before after) :
    ∀ row ∈ after.authorizations, row.Bound after := by
  have hevolves := hchange.evolves
  intro row hrow
  rcases hchange.authorizations with hkept | ⟨issued, authorizations, hissued, hcreate, hkept⟩
  · rcases hkept row hrow with ⟨old, hold, _, hscope⟩
    exact (hgood.bound old hold).evolves hevolves hscope
  · rcases hkept row hrow with ⟨old, hold, _, hscope⟩
    rcases (Table.mem_of_create hcreate).mp hold with rfl | hold
    · exact hissued.bound.evolves hevolves hscope
    · exact (hgood.bound old hold).evolves hevolves hscope

/-- Rows kept under their identifiers and digests keep the digests unique. -/
theorem digests_kept {table next : Table RenderAuthorization}
    (hunique : ∀ first ∈ table, ∀ second ∈ table,
      first.tokenDigest = second.tokenDigest → first = second)
    (hkept : ∀ row ∈ next, ∃ old ∈ table, old.id = row.id ∧ old.SameScope row) :
    ∀ first ∈ next, ∀ second ∈ next, first.tokenDigest = second.tokenDigest →
      first = second := by
  intro first hfirst second hsecond hsame
  rcases hkept first hfirst with ⟨oldFirst, holdFirst, hfirstId, hfirstScope⟩
  rcases hkept second hsecond with ⟨oldSecond, holdSecond, hsecondId, hsecondScope⟩
  have holds : oldFirst = oldSecond := hunique oldFirst holdFirst oldSecond holdSecond
    (hfirstScope.1.trans (hsame.trans hsecondScope.1.symm))
  exact Table.eq_of_key_eq hfirst hsecond
    (hfirstId.symm.trans ((congrArg RenderAuthorization.id holds).trans hsecondId))

theorem digests_change (hgood : before.Credentials) (hchange : Change effects before after) :
    ∀ first ∈ after.authorizations, ∀ second ∈ after.authorizations,
      first.tokenDigest = second.tokenDigest → first = second := by
  rcases hchange.authorizations with hkept | ⟨issued, authorizations, hissued, hcreate, hkept⟩
  · exact digests_kept hgood.digests hkept
  · refine digests_kept ?_ hkept
    intro first hfirst second hsecond hsame
    rcases (Table.mem_of_create hcreate).mp hfirst with rfl | hfirst
    · rcases (Table.mem_of_create hcreate).mp hsecond with rfl | hsecond
      · rfl
      · exact absurd hsame.symm (hissued.digest second hsecond)
    · rcases (Table.mem_of_create hcreate).mp hsecond with rfl | hsecond
      · exact absurd hsame (hissued.digest first hfirst)
      · exact hgood.digests first hfirst second hsecond hsame

theorem change (hgood : before.Credentials) (hchange : Change effects before after) :
    after.Credentials where
  locked := hgood.locked_change hchange
  published := hgood.published_change hchange
  bound := hgood.bound_change hchange
  digests := hgood.digests_change hchange

theorem initial : Db.empty.Credentials where
  locked := by simp [Db.empty]
  published := by simp [Db.empty]
  bound := by simp [Db.empty]
  digests := by simp [Db.empty]

end Db.Credentials

theorem credentials_of_reachable {platform : Platform} {db : Db}
    (hreach : (serviceSystem platform).Reachable db) : db.Credentials :=
  reachable_induction hreach .initial fun _ _ => Db.Credentials.change

/-! ## The check -/

structure LoadedAuthorization.Live (loaded : LoadedAuthorization) (checkedAt : Time) : Prop where
  unrevoked : loaded.authorization.revokedAt = none
  unexpired : checkedAt < loaded.authorization.expiresAt
  active : loaded.viewer.isActive = true
  version : loaded.viewer.authVersion = loaded.authorization.viewerAuthVersion
  locked : loaded.revision.artifactsLocked = true
  belongs : loaded.revision.dashboardId = loaded.authorization.dashboardId

def LoadedAuthorization.OwnerEpoch (loaded : LoadedAuthorization) : Prop :=
  loaded.dashboard.ownerId = loaded.authorization.viewerId ∧
    loaded.authorization.viewerGrantId = none ∧
      loaded.authorization.ownerTransferEpochId = loaded.dashboard.lastOwnershipTransferId

def LoadedAuthorization.PreviewCurrent (loaded : LoadedAuthorization) : Prop :=
  loaded.authorization.audience = .preview ∧ loaded.OwnerEpoch ∧
    loaded.dashboard.state.acceptsRevisions = true

def LoadedAuthorization.GrantEpoch (loaded : LoadedAuthorization) (db : Db) : Prop :=
  loaded.dashboard.ownerId ≠ loaded.authorization.viewerId ∧
    loaded.authorization.viewerGrantId ≠ none ∧
      loaded.authorization.ownerTransferEpochId = none ∧
        db.userCanViewPublished loaded.dashboard loaded.viewer loaded.grant = true

def LoadedAuthorization.ViewCurrent (loaded : LoadedAuthorization) (db : Db) : Prop :=
  loaded.authorization.audience = .viewer ∧
    loaded.dashboard.publishedRevisionId = some loaded.authorization.revisionId ∧
      loaded.authorization.publicationVersion = some loaded.dashboard.publicationVersion ∧
        (loaded.OwnerEpoch ∨ loaded.GrantEpoch db)

theorem DashboardState.acceptsRevisions_iff {state : DashboardState} :
    state.acceptsRevisions = true ↔ state ≠ .archived ∧ state ≠ .deleted := by
  cases state <;> decide

theorem LoadedAuthorization.isCurrent_iff {loaded : LoadedAuthorization} {db : Db}
    {checkedAt : Time} :
    loaded.isCurrent db checkedAt = true ↔
      loaded.Live checkedAt ∧ (loaded.PreviewCurrent ∨ loaded.ViewCurrent db) := by
  unfold LoadedAuthorization.isCurrent Db.authorizationIsCurrent
  by_cases hlive : loaded.Live checkedAt
  · have hpassed : ¬ (loaded.authorization.revokedAt ≠ none ∨
        loaded.authorization.expiresAt ≤ checkedAt ∨ loaded.viewer.isActive = false ∨
        loaded.viewer.authVersion ≠ loaded.authorization.viewerAuthVersion ∨
        loaded.revision.artifactsLocked = false ∨
        loaded.revision.dashboardId ≠ loaded.authorization.dashboardId) := by
      simp [hlive.unrevoked, hlive.unexpired, hlive.active, hlive.version, hlive.locked,
        hlive.belongs]
    rw [if_neg hpassed]
    simp only [hlive, true_and]
    cases haudience : loaded.authorization.audience with
    | preview =>
        simp [PreviewCurrent, ViewCurrent, OwnerEpoch, haudience,
          DashboardState.acceptsRevisions_iff]
        tauto
    | viewer =>
        simp only [PreviewCurrent, ViewCurrent, OwnerEpoch, GrantEpoch, haudience,
          reduceCtorEq, false_and, false_or, true_and]
        by_cases hpublished : loaded.dashboard.publishedRevisionId =
            some loaded.authorization.revisionId
        · by_cases hversion : loaded.authorization.publicationVersion =
              some loaded.dashboard.publicationVersion
          · by_cases howner : loaded.dashboard.ownerId = loaded.authorization.viewerId
            · simp [hpublished, hversion, howner]
            · simp [hpublished, hversion, howner]
              tauto
          · simp [hpublished, hversion, Ne.symm hversion]
        · simp [hpublished]
  · have hfailed : loaded.authorization.revokedAt ≠ none ∨
        loaded.authorization.expiresAt ≤ checkedAt ∨ loaded.viewer.isActive = false ∨
        loaded.viewer.authVersion ≠ loaded.authorization.viewerAuthVersion ∨
        loaded.revision.artifactsLocked = false ∨
        loaded.revision.dashboardId ≠ loaded.authorization.dashboardId := by
      by_contra hnone
      simp only [not_or, not_not, not_le, Bool.not_eq_false] at hnone
      exact hlive ⟨hnone.1, hnone.2.1, hnone.2.2.1, hnone.2.2.2.1, hnone.2.2.2.2.1,
        hnone.2.2.2.2.2⟩
    rw [if_pos hfailed]
    simp [hlive]

theorem Db.userCanViewPublished_iff {db : Db} {dashboard : Dashboard} {viewer : User}
    {grant : ViewerGrant} (howner : dashboard.ownerId ≠ viewer.id) :
    db.userCanViewPublished dashboard viewer (some grant) = true ↔
      viewer.isActive = true ∧ dashboard.state = .published ∧
        dashboard.publishedRevisionId ≠ none ∧
          grant.dashboardId = dashboard.id ∧ grant.viewerId = viewer.id ∧
            grant.revokedAt = none := by
  unfold Db.userCanViewPublished
  by_cases hactive : viewer.isActive = true
  · by_cases hstate : dashboard.state = .published
    · by_cases hpublished : dashboard.publishedRevisionId = none
      · simp [hactive, hstate, hpublished]
      · simp [hactive, hstate, hpublished, howner]
    · simp [hactive, hstate]
  · simp [hactive]

theorem Db.loadAuthorization_eq_some_iff {db : Db} {row : RenderAuthorization}
    {loaded : LoadedAuthorization} :
    db.loadAuthorization row = some loaded ↔
      loaded.authorization = row ∧
        db.dashboards.get? row.dashboardId = some loaded.dashboard ∧
          db.users.get? row.viewerId = some loaded.viewer ∧
            db.revisions.get? row.revisionId = some loaded.revision ∧
              loaded.grant = row.viewerGrantId.bind db.grants.get? := by
  unfold Db.loadAuthorization
  rcases loaded with ⟨authorization, dashboard, viewer, revision, grant⟩
  cases db.dashboards.get? row.dashboardId with
  | none => simp
  | some storedDashboard =>
      cases db.users.get? row.viewerId with
      | none => simp
      | some storedViewer =>
          cases db.revisions.get? row.revisionId with
          | none => simp
          | some storedRevision =>
              simp only [Option.some.injEq, LoadedAuthorization.mk.injEq]
              constructor
              · rintro ⟨rfl, rfl, rfl, rfl, rfl⟩
                exact ⟨rfl, rfl, rfl, rfl, rfl⟩
              · rintro ⟨rfl, rfl, rfl, rfl, rfl⟩
                exact ⟨rfl, rfl, rfl, rfl, rfl⟩

/-! ## A later success implies an earlier one -/

section Earlier

variable {db later : Db} {earlier evolved : LoadedAuthorization}

/-- One authorization loaded at two moments of a run. -/
structure LoadedAtBoth (db later : Db) (earlier evolved : LoadedAuthorization) : Prop where
  bound : earlier.authorization.Bound db
  earlierLoad : db.loadAuthorization earlier.authorization = some earlier
  laterLoad : later.loadAuthorization evolved.authorization = some evolved
  authorization : earlier.authorization.EvolvesTo evolved.authorization
  dashboard : earlier.dashboard.EvolvesTo db.transfers evolved.dashboard
  viewer : earlier.viewer.EvolvesTo evolved.viewer

theorem LoadedAtBoth.of_later {row laterRow : RenderAuthorization}
    (hgood : db.Credentials) (hevolves : Evolves db later) (hrow : row ∈ db.authorizations)
    (hstep : row.EvolvesTo laterRow)
    (hload : later.loadAuthorization laterRow = some evolved) :
    ∃ earlier, earlier.authorization = row ∧ LoadedAtBoth db later earlier evolved := by
  have hbound := hgood.bound row hrow
  rcases hbound.dashboard with ⟨dashboard, hdashboard, _⟩
  rcases hbound.viewer with ⟨viewer, hviewer, _⟩
  rcases hbound.revision with ⟨revision, hrevision, _⟩
  rcases Db.loadAuthorization_eq_some_iff.mp hload with
    ⟨rfl, hlaterDashboard, hlaterViewer, _, _⟩
  have hscope := hstep.1
  rcases hscope with ⟨_, _, hviewerId, _, hdashboardId, _⟩
  refine ⟨⟨row, dashboard, viewer, revision, row.viewerGrantId.bind db.grants.get?⟩, rfl, ?_⟩
  constructor
  · exact hbound
  · exact Db.loadAuthorization_eq_some_iff.mpr ⟨rfl, hdashboard, hviewer, hrevision, rfl⟩
  · exact hload
  · exact hstep
  · rcases hevolves.dashboards _ _ hdashboard with ⟨stored, hstored, hevolved⟩
    rw [hdashboardId, hlaterDashboard, Option.some.injEq] at hstored
    rwa [hstored]
  · rcases hevolves.users _ _ hviewer with ⟨stored, hstored, hevolved⟩
    rw [hviewerId, hlaterViewer, Option.some.injEq] at hstored
    rwa [hstored]

theorem LoadedAtBoth.live (hboth : LoadedAtBoth db later earlier evolved)
    (hgood : db.Credentials) {checkedAt laterAt : Time} (htime : checkedAt ≤ laterAt)
    (hlive : evolved.Live laterAt) : earlier.Live checkedAt := by
  rcases hboth.authorization with ⟨hscope, hrevoked, _⟩
  rcases hscope with ⟨_, _, _, hversion, _, _, _, _, _, _, hexpires⟩
  rcases Db.loadAuthorization_eq_some_iff.mp hboth.earlierLoad with
    ⟨_, _, hviewer, hrevision, _⟩
  have hsame : evolved.viewer.authVersion = earlier.viewer.authVersion := by
    rcases hboth.bound.viewer with ⟨viewer, hget, hle⟩
    cases Option.some.inj (hviewer.symm.trans hget)
    have hnow := hlive.version
    have hstep := hboth.viewer.1
    omega
  constructor
  · by_contra hbefore
    exact hrevoked hbefore hlive.unrevoked
  · rw [hexpires]
    exact htime.trans_lt hlive.unexpired
  · rw [← hboth.viewer.2 hsame]
    exact hlive.active
  · rw [← hsame, hversion]
    exact hlive.version
  · exact hgood.locked _ (Table.mem_of_get? hrevision)
  · rcases hboth.bound.revision with ⟨revision, hget, hbelongs⟩
    cases Option.some.inj (hrevision.symm.trans hget)
    exact hbelongs

/-- An owner epoch that is current later was never left: a transfer would have
installed an identifier that the authorization cannot be bound to. -/
theorem LoadedAtBoth.ownerEpoch (hboth : LoadedAtBoth db later earlier evolved)
    (hepoch : evolved.OwnerEpoch) : earlier.OwnerEpoch := by
  rcases hboth.authorization.1 with ⟨_, _, hviewerId, _, _, _, hgrantId, hepochId, _⟩
  rcases hepoch with ⟨howner, hgrant, hlast⟩
  rcases hboth.dashboard.owner with ⟨hlastKept, hownerKept⟩ | ⟨transferId, hmem, hfresh⟩
  · exact ⟨by rw [← hownerKept, howner, hviewerId], by rw [hgrantId, hgrant],
      by rw [hepochId, hlast, hlastKept]⟩
  · rw [← hlast, ← hepochId] at hmem
    rcases hboth.bound.epoch transferId hmem with ⟨epoch, hget⟩
    rw [hfresh] at hget
    cases hget

theorem LoadedAtBoth.grantEpoch (hboth : LoadedAtBoth db later earlier evolved)
    (hgood : db.Credentials)
    (haccess : AccessInvariant db.dashboards db.grants db.accessRequests)
    (hevolves : Evolves db later) (hactive : earlier.viewer.isActive = true)
    (hpublished : earlier.dashboard.publishedRevisionId ≠ none)
    (hepoch : evolved.GrantEpoch later) : earlier.GrantEpoch db := by
  rcases hboth.authorization.1 with ⟨_, _, hviewerId, _, hdashboardId, _, hgrantId, hepochId, _⟩
  rcases Db.loadAuthorization_eq_some_iff.mp hboth.earlierLoad with
    ⟨_, hdashboard, hviewer, _, hgrantLoad⟩
  rcases Db.loadAuthorization_eq_some_iff.mp hboth.laterLoad with
    ⟨_, _, hlaterViewer, _, hlaterLoad⟩
  rcases hepoch with ⟨howner, hgrant, hnone, hcan⟩
  rcases Option.ne_none_iff_exists'.mp hgrant with ⟨grantId, hsome⟩
  have hbefore : earlier.authorization.viewerGrantId = some grantId := hgrantId.trans hsome
  rcases hboth.bound.grant grantId hbefore with ⟨grant, hget, hdash, hview⟩
  rcases hevolves.grants grantId grant hget with ⟨laterGrant, hlaterGet, hstep⟩
  have hlaterGrant : evolved.grant = some laterGrant := by
    rw [hlaterLoad, hsome]
    exact hlaterGet
  have hlaterId : evolved.viewer.id = evolved.authorization.viewerId :=
    Table.key_of_get? hlaterViewer
  rw [hlaterGrant, Db.userCanViewPublished_iff (by rw [hlaterId]; exact howner)] at hcan
  have hunrevoked : grant.revokedAt = none := by
    by_contra hrevoked
    exact hstep.2.2 hrevoked hcan.2.2.2.2.2
  have hid : earlier.viewer.id = earlier.authorization.viewerId := Table.key_of_get? hviewer
  have hdashId : earlier.dashboard.id = earlier.authorization.dashboardId :=
    Table.key_of_get? hdashboard
  have hnotOwner : earlier.dashboard.ownerId ≠ earlier.authorization.viewerId := by
    intro hsame
    exact haccess.owner_holds_none (Table.mem_of_get? hdashboard) (Table.mem_of_get? hget)
      (hdash.trans hdashId.symm) (hview.trans hsame.symm) hunrevoked
  have hearlierGrant : earlier.grant = some grant := by
    rw [hgrantLoad, hbefore]
    exact hget
  refine ⟨hnotOwner, by rw [hbefore]; simp, by rw [hepochId, hnone], ?_⟩
  rw [hearlierGrant, Db.userCanViewPublished_iff (by rw [hid]; exact hnotOwner)]
  have hstate := (hgood.published _ (Table.mem_of_get? hdashboard)).mpr
    (Option.isSome_iff_ne_none.mpr hpublished)
  exact ⟨hactive, hstate, hpublished, hdash.trans hdashId.symm, hview.trans hid.symm,
    hunrevoked⟩

theorem LoadedAtBoth.viewCurrent (hboth : LoadedAtBoth db later earlier evolved)
    (hgood : db.Credentials)
    (haccess : AccessInvariant db.dashboards db.grants db.accessRequests)
    (hevolves : Evolves db later) (hactive : earlier.viewer.isActive = true)
    (hview : evolved.ViewCurrent later) : earlier.ViewCurrent db := by
  rcases hboth.authorization.1 with ⟨_, haudience, _, _, _, hrevisionId, _, _, hversionId, _⟩
  rcases hview with ⟨hviewer, hpublished, hversion, hepoch⟩
  rcases Db.loadAuthorization_eq_some_iff.mp hboth.earlierLoad with ⟨_, hdashboard, _⟩
  have hsame : evolved.dashboard.publicationVersion = earlier.dashboard.publicationVersion := by
    rcases hboth.bound.dashboard with ⟨dashboard, hget, hle⟩
    cases Option.some.inj (hdashboard.symm.trans hget)
    have hreached := hle evolved.dashboard.publicationVersion (hversionId.trans hversion)
    exact le_antisymm hreached hboth.dashboard.version
  have hkept := hboth.dashboard.republished hsame (by rw [hpublished]; simp)
  rw [hpublished, ← hrevisionId] at hkept
  refine ⟨haudience.trans hviewer, hkept.symm, by rw [hversionId, hversion, hsame], ?_⟩
  rcases hepoch with howner | hgrant
  · exact .inl (hboth.ownerEpoch howner)
  · exact .inr (hboth.grantEpoch hgood haccess hevolves hactive (by rw [← hkept]; simp) hgrant)

theorem LoadedAtBoth.isCurrent (hboth : LoadedAtBoth db later earlier evolved)
    (hgood : db.Credentials)
    (haccess : AccessInvariant db.dashboards db.grants db.accessRequests)
    (hevolves : Evolves db later) {checkedAt laterAt : Time} (htime : checkedAt ≤ laterAt)
    (hcurrent : evolved.isCurrent later laterAt = true) :
    earlier.isCurrent db checkedAt = true := by
  rw [LoadedAuthorization.isCurrent_iff] at hcurrent ⊢
  have hlive := hboth.live hgood htime hcurrent.1
  refine ⟨hlive, ?_⟩
  rcases hcurrent.2 with ⟨hpreview, howner, haccepts⟩ | hview
  · exact .inl ⟨hboth.authorization.1.2.1.trans hpreview, hboth.ownerEpoch howner,
      hboth.dashboard.accepting haccepts⟩
  · exact .inr (hboth.viewCurrent hgood haccess hevolves hlive.active hview)

end Earlier

/-! ## Credentials of a run -/

/-- `resolve_render_authorization` delivers for a bearer token. -/
def Db.Delivers (db : Db) (platform : Platform) (token : Text) (audience : Audience)
    (checkedAt : Time) : Prop :=
  ∃ loaded after,
    (resolveRenderAuthorization platform token audience checkedAt).Runs db loaded after

/-- A committed call that returns a credential. -/
inductive Issues (platform : Platform) : Db → RenderCredential → Db → Prop
  | preview {context : CallContext} {token : ℕ → BearerToken}
      {dashboardId revisionId viewerId : Uuid} {issuedAt : Time} {before after : Db}
      {credential : RenderCredential}
      (hruns : (ServiceCall.body platform ⟨context, .issueOwnerPreview token dashboardId
        revisionId viewerId issuedAt⟩).Runs before credential after) :
      Issues platform before credential after
  | view {context : CallContext} {token : ℕ → BearerToken}
      {dashboardId viewerId : Uuid} {issuedAt : Time} {before after : Db}
      {credential : RenderCredential}
      (hruns : (ServiceCall.body platform ⟨context, .issuePublishedView token dashboardId
        viewerId issuedAt⟩).Runs before credential after) :
      Issues platform before credential after

/-- The authorization row of a credential. -/
def RenderAuthorization.Backs (row : RenderAuthorization) (platform : Platform)
    (token : Text) (audience : Audience) : Prop :=
  row.tokenDigest = platform.digest token ∧ row.audience = audience

section Issue

variable {platform : Platform} {before after : Db} {credential : RenderCredential}

theorem Issues.step (hissues : Issues platform before credential after) :
    ∃ call, (serviceSystem platform).step before call after := by
  cases hissues with
  | preview hruns => exact ⟨_, (settle_of_runs hruns).symm⟩
  | view hruns => exact ⟨_, (settle_of_runs hruns).symm⟩

theorem backed_of_created {context : CallContext} {token : ℕ → BearerToken}
    {dashboard : Dashboard} {revisionId : Uuid} {viewer : User}
    {viewerGrant : Option ViewerGrant} {audience : Audience} {issuedAt : Time}
    {created : RenderCredential × RenderAuthorization} {middle : Db}
    (hdashboard : before.dashboards.get? dashboard.id = some dashboard)
    (hcreate : (createAuthorization platform context token dashboard revisionId viewer
      viewerGrant audience issuedAt).Runs before created middle)
    (hevolves : Evolves middle after) :
    ∃ row ∈ after.authorizations, row.Backs platform created.1.token created.1.audience := by
  rcases createAuthorization_runs hdashboard hcreate with
    ⟨attempted, hcredential, hrow, _, authorizations, hinserted, rfl⟩
  have hmem : created.2 ∈ authorizations := (Table.mem_of_create hinserted).mpr (.inl rfl)
  rcases hevolves.authorizations _ _ (Table.get?_of_mem hmem) with ⟨later, hlater, hscope, _⟩
  refine ⟨later, Table.mem_of_get? hlater, ?_, ?_⟩
  · rw [← hscope.1, hcredential, hrow]
    rfl
  · rw [← hscope.2.1, hcredential, hrow]
    rfl

theorem issueOwnerPreview_backed {context : CallContext} {token : ℕ → BearerToken}
    {dashboardId revisionId viewerId : Uuid} {issuedAt : Time}
    (hruns : (issueOwnerPreview platform context token dashboardId revisionId viewerId
      issuedAt).Runs before credential after) :
    ∃ row ∈ after.authorizations, row.Backs platform credential.token credential.audience := by
  simp only [issueOwnerPreview, runs_bind, runs_get, runs_found, runs_check, runs_pure,
    and_assoc, exists_and_left, exists_eq_left', exists_const,
    Option.filter_eq_some_iff] at hruns
  rcases hruns with ⟨dashboard, hdashboard, _, viewer, _, revision, _, _, _, created,
    middle, hcreate, _, _, haudit, rfl, rfl⟩
  have haudited : Change ∅ middle _ := recordAudit_change haudit rfl
  exact backed_of_created (Table.get?_of_mem (Table.mem_of_get? hdashboard)) hcreate
    haudited.evolves

theorem issuePublishedView_backed {context : CallContext} {token : ℕ → BearerToken}
    {dashboardId viewerId : Uuid} {issuedAt : Time}
    (hruns : (issuePublishedView platform context token dashboardId viewerId issuedAt).Runs
      before credential after) :
    ∃ row ∈ after.authorizations, row.Backs platform credential.token credential.audience := by
  simp only [issuePublishedView, runs_bind, runs_get, runs_found, runs_check, runs_pure,
    and_assoc, exists_and_left, exists_eq_left', exists_const,
    Option.filter_eq_some_iff] at hruns
  rcases hruns with ⟨dashboard, hdashboard, _, revisionId, _, viewer, _, _, created,
    middle, hcreate, _, captured, hcapture, rfl, rfl⟩
  have hcaptured : Changes {.opens} middle captured :=
    captureAuthorizedOpen_changes (captureIssued_runs hcapture) rfl
  exact backed_of_created (Table.get?_of_mem (Table.mem_of_get? hdashboard)) hcreate
    hcaptured.evolves

theorem Issues.backed (hissues : Issues platform before credential after) :
    ∃ row ∈ after.authorizations, row.Backs platform credential.token credential.audience := by
  cases hissues with
  | preview hruns => exact issueOwnerPreview_backed (ServiceCall.runs_body.mp hruns)
  | view hruns => exact issuePublishedView_backed (ServiceCall.runs_body.mp hruns)

end Issue

theorem Db.authorizationOf_eq_some_iff {platform : Platform} {db : Db} {token : Text}
    {audience : Audience} {row : RenderAuthorization}
    (hgood : db.Credentials) :
    db.authorizationOf platform token audience = some row ↔
      row ∈ db.authorizations ∧ row.Backs platform token audience := by
  unfold Db.authorizationOf
  constructor
  · intro hargmin
    have hmem := List.argmin_mem hargmin
    rw [Table.mem_where?_iff, decide_eq_true_eq] at hmem
    exact hmem
  · rintro ⟨hrow, hbacks⟩
    have hselected : row ∈ db.authorizations.where? fun authorization =>
        authorization.tokenDigest = platform.digest token ∧
          authorization.audience = audience := by
      rw [Table.mem_where?_iff, decide_eq_true_eq]
      exact ⟨hrow, hbacks⟩
    cases hargmin : List.argmin RenderAuthorization.id
        (db.authorizations.where? fun authorization =>
          authorization.tokenDigest = platform.digest token ∧
            authorization.audience = audience) with
    | none =>
        rw [List.argmin_eq_none] at hargmin
        rw [hargmin] at hselected
        simp at hselected
    | some found =>
        have hfound := List.argmin_mem hargmin
        rw [Table.mem_where?_iff, decide_eq_true_eq] at hfound
        rw [hgood.digests found hfound.1 row hrow (hfound.2.1.trans hbacks.1.symm)]

theorem Db.delivers_iff {platform : Platform} {db : Db} {token : Text} {audience : Audience}
    {checkedAt : Time} (hgood : db.Credentials) :
    db.Delivers platform token audience checkedAt ↔
      isToken token = true ∧ ∃ loaded : LoadedAuthorization,
        loaded.authorization ∈ db.authorizations ∧
          loaded.authorization.Backs platform token audience ∧
            db.loadAuthorization loaded.authorization = some loaded ∧
              loaded.isCurrent db checkedAt = true := by
  constructor
  · rintro ⟨loaded, after, hruns⟩
    rcases resolveRenderAuthorization_runs.mp hruns with ⟨htoken, hbind, hcurrent, _⟩
    rcases Option.bind_eq_some_iff.mp hbind with ⟨row, hrow, hload⟩
    rcases (Db.authorizationOf_eq_some_iff hgood).mp hrow with ⟨hmem, hbacks⟩
    cases (Db.loadAuthorization_eq_some_iff.mp hload).1
    exact ⟨htoken, loaded, hmem, hbacks, hload, hcurrent⟩
  · rintro ⟨htoken, loaded, hmem, hbacks, hload, hcurrent⟩
    refine ⟨loaded, db, resolveRenderAuthorization_runs.mpr ⟨htoken, ?_, hcurrent, rfl⟩⟩
    rw [(Db.authorizationOf_eq_some_iff hgood).mpr ⟨hmem, hbacks⟩]
    exact hload

/-- A later delivery implies one at every earlier moment since the issue. -/
theorem delivers_of_later {platform : Platform} {moment later : Db} {token : Text}
    {audience : Audience} {checkedAt laterAt : Time}
    (hreach : (serviceSystem platform).Reachable moment)
    (hlaterReach : (serviceSystem platform).Reachable later) (hevolves : Evolves moment later)
    (hissued : ∃ row ∈ moment.authorizations, row.Backs platform token audience)
    (htime : checkedAt ≤ laterAt) (hdelivers : later.Delivers platform token audience laterAt) :
    moment.Delivers platform token audience checkedAt := by
  have hgood := credentials_of_reachable hreach
  have hlaterGood := credentials_of_reachable hlaterReach
  rcases hissued with ⟨row, hrow, hbacks⟩
  rcases (Db.delivers_iff hlaterGood).mp hdelivers with
    ⟨htoken, evolved, hevolvedMem, hevolvedBacks, hload, hcurrent⟩
  rcases hevolves.authorizations _ _ (Table.get?_of_mem hrow) with ⟨stored, hstored, hstep⟩
  have hsame : stored = evolved.authorization :=
    hlaterGood.digests stored (Table.mem_of_get? hstored) _ hevolvedMem
      (hstep.1.1.symm.trans (hbacks.1.trans hevolvedBacks.1.symm))
  rw [hsame] at hstep
  rcases LoadedAtBoth.of_later hgood hevolves hrow hstep hload with ⟨earlier, rfl, hboth⟩
  exact (Db.delivers_iff hgood).mpr ⟨htoken, earlier, hrow, hbacks, hboth.earlierLoad,
    hboth.isCurrent hgood (accessInvariant_of_reachable hreach) hevolves htime hcurrent⟩

theorem dead_credential_stays_dead {platform : Platform} {before issued moment later : Db}
    {credential : RenderCredential} {calls laterCalls : List ServiceCall}
    {checkedAt laterAt : Time}
    (hreach : (serviceSystem platform).Reachable before)
    (hissues : Issues platform before credential issued)
    (hmoment : (serviceSystem platform).Path issued calls moment)
    (hlater : (serviceSystem platform).Path moment laterCalls later)
    (htime : checkedAt ≤ laterAt)
    (hdead : ¬ moment.Delivers platform credential.token credential.audience checkedAt) :
    ¬ later.Delivers platform credential.token credential.audience laterAt := by
  intro hdelivers
  rcases hissues.step with ⟨call, hstep⟩
  have hissuedReach := hreach.step hstep
  have hmomentReach := hissuedReach.path hmoment
  refine hdead (delivers_of_later hmomentReach (hmomentReach.path hlater)
    (evolves_of_path hlater) ?_ htime hdelivers)
  rcases hissues.backed with ⟨row, hrow, hbacks⟩
  rcases (evolves_of_path hmoment).authorizations _ _ (Table.get?_of_mem hrow) with
    ⟨evolved, hevolved, hscope, _⟩
  exact ⟨evolved, Table.mem_of_get? hevolved, hscope.1.symm.trans hbacks.1,
    hscope.2.1.symm.trans hbacks.2⟩

theorem Db.not_delivers_of_value? {platform : Platform} {db : Db} {token : Text}
    {audience : Audience} {checkedAt : Time}
    (hvalue : (resolveRenderAuthorization platform token audience checkedAt).value? db = none) :
    ¬ db.Delivers platform token audience checkedAt := by
  rintro ⟨loaded, after, hruns⟩
  rw [value?_of_runs hruns] at hvalue
  contradiction

theorem Issues.of_value? {platform : Platform} {context : CallContext}
    {token : ℕ → BearerToken} {dashboardId viewerId : Uuid} {issuedAt : Time} {before : Db}
    {credential : RenderCredential} (call : ServiceCall)
    (hcall : call = ⟨context, .issuePublishedView token dashboardId viewerId issuedAt⟩)
    (hvalue : (issuePublishedView platform context token dashboardId viewerId issuedAt).value?
      (call.start before) = some credential) :
    Issues platform before credential (runFrom platform before [call]) := by
  subst hcall
  have hbody := runs_of_value? hvalue
  have hruns : (ServiceCall.body platform ⟨context, .issuePublishedView token dashboardId
      viewerId issuedAt⟩).Runs before credential _ := ServiceCall.runs_body.mpr hbody
  rw [runFrom, List.foldl_cons, List.foldl_nil, settle_of_runs hruns]
  exact .view hruns

/-- The second user opens the published view. -/
def firstView : ServiceCall :=
  ⟨contextAt 8 8, .issuePublishedView firstToken 3 2 8⟩

def revokedCall : ServiceCall :=
  ⟨contextAt 9 9, .revokeProjectViewer 3 7 1⟩

def regrantedCall : ServiceCall :=
  ⟨contextAt 10 10, .grantProjectViewer 3 1 "bb00002".toList⟩

def openedView : Db :=
  runFrom asciiPlatform (runCalls asciiPlatform publishedCalls) [firstView]

def revokedView : Db :=
  runFrom asciiPlatform openedView [revokedCall]

theorem openedView_issued :
    Issues asciiPlatform (runCalls asciiPlatform publishedCalls)
      ⟨List.replicate 43 'A', .viewer, 8 + renderLifetime⟩ openedView :=
  Issues.of_value? firstView rfl (by decide +kernel)

theorem revokedView_dead :
    ¬ revokedView.Delivers asciiPlatform (List.replicate 43 'A') .viewer 10 :=
  Db.not_delivers_of_value? (by decide +kernel)

theorem revoked_view_stays_dead :
    ¬ (runFrom asciiPlatform revokedView [regrantedCall]).Delivers asciiPlatform
      (List.replicate 43 'A') .viewer 11 := by
  have hmoment : (serviceSystem asciiPlatform).Path openedView [revokedCall] revokedView :=
    path_runFrom [revokedCall] openedView
  have hlater := @path_runFrom asciiPlatform [regrantedCall] revokedView
  have htime : (10 : Time) ≤ 11 := by decide
  have hstays := dead_credential_stays_dead (reachable_runCalls publishedCalls)
    openedView_issued hmoment hlater htime
  exact hstays revokedView_dead

end Agora
