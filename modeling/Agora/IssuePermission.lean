import Agora.RecordConsistency

/-!
# A permitted issue commits

`Permits` collects what `issue_published_view` reads before it creates an
authorization.  In a consistent database everything that follows then passes: the
checks of the new row, the capture with its trigger, and the viewer state.  Only
the tokens and identifiers of the attempts can still be taken.
-/

namespace Agora

open Transaction

/-- What a permitted issue has read. -/
structure Db.Permits (db : Db) (dashboard : Dashboard) (viewer : User) (revisionId : Uuid)
    (grant : Option ViewerGrant) : Prop where
  storedDashboard : db.dashboards.get? dashboard.id = some dashboard
  published : dashboard.state = .published
  pinned : dashboard.publishedRevisionId = some revisionId
  storedViewer : db.users.get? viewer.id = some viewer
  active : viewer.isActive = true
  basis : (dashboard.ownerId = viewer.id ∧ grant = none) ∨
    (dashboard.ownerId ≠ viewer.id ∧ ∃ held, grant = some held ∧
      db.grants.get? held.id = some held ∧ held.dashboardId = dashboard.id ∧
        held.viewerId = viewer.id ∧ held.revokedAt = none)

theorem RenderAuthorization.runs_cleanScope {db : Db} {row : RenderAuthorization} :
    row.cleanScope.Runs db ⟨⟩ db ↔
      (∀ captured ∈ row.authorizedOpenCapturedAt,
          row.audience = .viewer ∧ captured = row.createdAt) ∧
        (row.audience = .preview → row.publicationVersion = none) ∧
          (row.audience = .viewer → ∃ version ∈ row.publicationVersion, 0 < version) ∧
            (∃ revision, db.revisions.get? row.revisionId = some revision ∧
              revision.dashboardId = row.dashboardId) ∧
              (∀ epochId ∈ row.ownerTransferEpochId, ∃ epoch ∈ db.transfers.get? epochId,
                epoch.dashboardId = row.dashboardId) ∧
                (row.ownerTransferEpochId ≠ none → row.viewerGrantId = none) ∧
                  (row.viewerGrantId ≠ none → row.audience = .viewer) ∧
                    (∀ grantId ∈ row.viewerGrantId, ∃ grant ∈ db.grants.get? grantId,
                      grant.dashboardId = row.dashboardId) ∧
                      ∀ grantId ∈ row.viewerGrantId, ∃ grant ∈ db.grants.get? grantId,
                        grant.viewerId = row.viewerId := by
  simp only [RenderAuthorization.cleanScope, runs_bind, runs_get, runs_found, runs_check,
    and_assoc, exists_and_left, exists_eq_left', exists_const, and_true]
  constructor
  · rintro ⟨hcaptured, hpreview, hviewer, revision, hrevision, hbelongs, hrest⟩
    exact ⟨hcaptured, hpreview, hviewer, ⟨revision, hrevision, hbelongs⟩, hrest⟩
  · rintro ⟨hcaptured, hpreview, hviewer, ⟨revision, hrevision, hbelongs⟩, hrest⟩
    exact ⟨hcaptured, hpreview, hviewer, revision, hrevision, hbelongs, hrest⟩

theorem RenderAuthorization.runs_cleanNew {db : Db} {row : RenderAuthorization} :
    row.cleanNew.Runs db ⟨⟩ db ↔
      ∃ dashboard, db.dashboards.get? row.dashboardId = some dashboard ∧
        ∃ viewer, db.users.get? row.viewerId = some viewer ∧
          (∀ grantId ∈ row.viewerGrantId, ∃ grant ∈ db.grants.get? grantId,
            grant.revokedAt = none) ∧
            (row.viewerGrantId = none → row.audience = .viewer →
              row.viewerId = dashboard.ownerId) ∧
              (row.viewerId = dashboard.ownerId →
                row.ownerTransferEpochId = dashboard.lastOwnershipTransferId) ∧
                row.viewerAuthVersion = viewer.authVersion := by
  simp only [RenderAuthorization.cleanNew, runs_bind, runs_get, runs_found, runs_check,
    and_assoc, exists_and_left, exists_eq_left', exists_const, and_true]

/-- A new authorization that passes every check but those of the unique columns. -/
structure RenderAuthorization.Clean (db : Db) (row : RenderAuthorization) : Prop where
  scope : row.cleanScope.Runs db ⟨⟩ db
  new : row.cleanNew.Runs db ⟨⟩ db
  digest : isHexDigest row.tokenDigest = true
  version : 0 < row.viewerAuthVersion

/-- A new authorization whose digest and identifier are not in use. -/
def RenderAuthorization.Fresh (db : Db) (row : RenderAuthorization) : Prop :=
  (∀ other ∈ db.authorizations, other.tokenDigest ≠ row.tokenDigest) ∧
    ∀ other ∈ db.authorizations, other.id ≠ row.id

namespace RenderAuthorization.Clean

variable {db : Db} {row : RenderAuthorization}

theorem insert_commits (hclean : row.Clean db) (hfresh : row.Fresh db) :
    ∃ after, row.insert.Runs db row after := by
  have hnone : db.authorizations.get? (Keyed.key row) = none :=
    Table.get?_eq_none_iff.mpr hfresh.2
  rcases Table.exists_create hnone with ⟨authorizations, hcreate⟩
  refine ⟨{ db with authorizations := authorizations }, ?_⟩
  simp only [RenderAuthorization.insert, runs_bind, runs_get, runs_check, runs_found, runs_set,
    runs_pure, and_assoc, exists_and_left, exists_eq_left', exists_const]
  refine ⟨⟨⟩, db, hclean.scope, ⟨⟩, db, hclean.new, hclean.digest, hclean.version, ?_,
    authorizations, hcreate, trivial, rfl⟩
  rw [Table.any_eq_false_iff]
  intro other hother
  simpa using hfresh.1 other hother

theorem insert_refused (hclean : row.Clean db) (hused : ¬ row.Fresh db) :
    ∃ constraint, row.insert db = .error (.integrity constraint) := by
  have hget : Transaction.Runs (get : Tx Db) db db db := runs_get.mpr ⟨rfl, rfl⟩
  rw [RenderAuthorization.insert, bind_of_runs hclean.scope, bind_of_runs hclean.new,
    bind_of_runs hget, bind_check_of_pos hclean.digest, bind_check_of_pos hclean.version]
  by_cases hdigest : db.authorizations.any (fun other =>
      other.tokenDigest = row.tokenDigest) = false
  · refine ⟨"TB_TA_AGORA_RENDER_AUTHORIZATION.ID", ?_⟩
    have hnone : db.authorizations.create row = none := by
      rw [Table.create_eq_none_iff, ← Option.ne_none_iff_exists']
      intro hnone
      refine hused ⟨?_, Table.get?_eq_none_iff.mp hnone⟩
      intro other hother
      simpa using Table.any_eq_false_iff.mp hdigest other hother
    rw [bind_check_of_pos hdigest, bind_found_of_none hnone]
  · exact ⟨"TB_TA_AGORA_RENDER_AUTHORIZATION.TOKEN_DIGEST", bind_check_of_neg hdigest⟩

end RenderAuthorization.Clean

namespace Db.Permits

variable {db : Db} {dashboard : Dashboard} {viewer : User} {revisionId : Uuid}
  {grant : Option ViewerGrant} {platform : Platform} {context : CallContext}
  {token : ℕ → BearerToken} {issuedAt : Time}

/-! ## The new authorization -/

theorem cleanScope_runs (hpermits : db.Permits dashboard viewer revisionId grant)
    (hgood : db.Consistent) (attempt : ℕ) :
    (newAuthorization platform context attempt (token attempt) dashboard revisionId viewer
      grant .viewer issuedAt).cleanScope.Runs db ⟨⟩ db := by
  have hconsistent := hgood.dashboards _ (Table.mem_of_get? hpermits.storedDashboard)
  rcases hconsistent.revision revisionId hpermits.pinned with ⟨revision, hrevision, hbelongs⟩
  have hversion := hconsistent.version hpermits.published
  rw [RenderAuthorization.runs_cleanScope]
  refine ⟨by simp [newAuthorization], by simp [newAuthorization],
    fun _ => ⟨dashboard.publicationVersion, by simp [newAuthorization], hversion⟩,
    ⟨revision, hrevision, hbelongs⟩, ?_⟩
  rcases hpermits.basis with ⟨_, rfl⟩ | ⟨_, held, rfl, hheld, hdashboard, hviewer, _⟩
  · refine ⟨?_, by simp [newAuthorization], by simp [newAuthorization],
      by simp [newAuthorization], by simp [newAuthorization]⟩
    intro epochId hepoch
    rcases hconsistent.epoch epochId (by simpa [newAuthorization] using hepoch) with
      ⟨marker, hmarker, hsame⟩
    exact ⟨marker, hmarker, hsame⟩
  · refine ⟨by simp [newAuthorization], by simp [newAuthorization], fun _ => rfl, ?_, ?_⟩
    · intro grantId hgrantId
      have hid : grantId = held.id := by simpa [newAuthorization, eq_comm] using hgrantId
      exact ⟨held, by rw [hid]; exact hheld, hdashboard⟩
    · intro grantId hgrantId
      have hid : grantId = held.id := by simpa [newAuthorization, eq_comm] using hgrantId
      exact ⟨held, by rw [hid]; exact hheld, hviewer⟩

theorem cleanNew_runs (hpermits : db.Permits dashboard viewer revisionId grant) (attempt : ℕ) :
    (newAuthorization platform context attempt (token attempt) dashboard revisionId viewer
      grant .viewer issuedAt).cleanNew.Runs db ⟨⟩ db := by
  rw [RenderAuthorization.runs_cleanNew]
  refine ⟨dashboard, hpermits.storedDashboard, viewer, hpermits.storedViewer, ?_⟩
  rcases hpermits.basis with ⟨howner, rfl⟩ | ⟨howner, held, rfl, hheld, _, _, hunrevoked⟩
  · exact ⟨by simp [newAuthorization], fun _ _ => howner.symm,
      by simp [newAuthorization], rfl⟩
  · refine ⟨?_, by simp [newAuthorization], fun hsame => absurd hsame.symm howner, rfl⟩
    intro grantId hgrantId
    have hid : grantId = held.id := by simpa [newAuthorization, eq_comm] using hgrantId
    exact ⟨held, by rw [hid]; exact hheld, hunrevoked⟩

theorem clean (hpermits : db.Permits dashboard viewer revisionId grant)
    (hgood : db.Consistent) (attempt : ℕ) :
    (newAuthorization platform context attempt (token attempt) dashboard revisionId viewer
      grant .viewer issuedAt).Clean db where
  scope := hpermits.cleanScope_runs hgood attempt
  new := hpermits.cleanNew_runs attempt
  digest := platform.sha256_hex _
  version := hgood.authVersions viewer (Table.mem_of_get? hpermits.storedViewer)

/-- Some attempt from a given one on inserts its authorization. -/
theorem createAuthorizationFrom_commits
    (hpermits : db.Permits dashboard viewer revisionId grant) (hgood : db.Consistent)
    {remaining attempt : ℕ}
    (hfresh : ∃ drawn, attempt ≤ drawn ∧ drawn < attempt + remaining ∧
      (newAuthorization platform context drawn (token drawn) dashboard revisionId viewer grant
        .viewer issuedAt).Fresh db) :
    ∃ created after, (createAuthorizationFrom platform context token dashboard revisionId viewer
      grant .viewer issuedAt remaining attempt).Runs db created after := by
  induction remaining generalizing attempt with
  | zero =>
      rcases hfresh with ⟨drawn, hfrom, hto, _⟩
      omega
  | succ remaining ih =>
      have hclean : (newAuthorization platform context attempt (token attempt) dashboard
          revisionId viewer grant .viewer issuedAt).Clean db := hpermits.clean hgood attempt
      by_cases hfirst : (newAuthorization platform context attempt (token attempt) dashboard
          revisionId viewer grant .viewer issuedAt).Fresh db
      · rcases hclean.insert_commits hfirst with ⟨after, hinsert⟩
        have hissued : ((do
            let authorization ← (newAuthorization platform context attempt (token attempt)
              dashboard revisionId viewer grant .viewer issuedAt).insert
            pure (⟨(token attempt).value, .viewer, issuedAt + renderLifetime⟩,
              authorization)) : Tx (RenderCredential × RenderAuthorization)).Runs db
            (⟨(token attempt).value, .viewer, issuedAt + renderLifetime⟩,
              newAuthorization platform context attempt (token attempt) dashboard revisionId
                viewer grant .viewer issuedAt) after :=
          runs_bind.mpr ⟨_, after, hinsert, runs_pure.mpr ⟨rfl, rfl⟩⟩
        exact ⟨_, after, runs_recover.mpr (.inl hissued)⟩
      · rcases hfresh with ⟨drawn, hfrom, hto, hdrawn⟩
        have hne : drawn ≠ attempt := by
          rintro rfl
          exact hfirst hdrawn
        have hlater : attempt + 1 ≤ drawn := by omega
        rcases ih ⟨drawn, hlater, by omega, hdrawn⟩ with ⟨created, after, hrest⟩
        rcases hclean.insert_refused hfirst with ⟨constraint, hrefused⟩
        refine ⟨created, after, ?_⟩
        rw [createAuthorizationFrom, runs_recover]
        refine .inr ⟨.integrity constraint, ?_, hrest⟩
        simp only [bind, StateT.bind, hrefused, Except.bind]

/-! ## The capture -/

theorem loadAuthorization_eq (hpermits : db.Permits dashboard viewer revisionId grant)
    {revision : Revision} (hrevision : db.revisions.get? revisionId = some revision)
    (attempt : ℕ) :
    db.loadAuthorization (newAuthorization platform context attempt (token attempt) dashboard
      revisionId viewer grant .viewer issuedAt) =
        some ⟨newAuthorization platform context attempt (token attempt) dashboard revisionId
          viewer grant .viewer issuedAt, dashboard, viewer, revision, grant⟩ := by
  rw [Db.loadAuthorization_eq_some_iff]
  refine ⟨rfl, hpermits.storedDashboard, hpermits.storedViewer, hrevision, ?_⟩
  rcases hpermits.basis with ⟨_, rfl⟩ | ⟨_, held, rfl, hheld, _⟩
  · rfl
  · exact hheld.symm

theorem canSourceOpen_eq (hpermits : db.Permits dashboard viewer revisionId grant)
    (hgood : db.Consistent) (attempt : ℕ) :
    (newAuthorization platform context attempt (token attempt) dashboard revisionId viewer grant
      .viewer issuedAt).canSourceOpen dashboard viewer grant = true := by
  have hversion := (hgood.dashboards _ (Table.mem_of_get? hpermits.storedDashboard)).version
    hpermits.published
  unfold RenderAuthorization.canSourceOpen
  rw [if_neg (by simp [newAuthorization, hpermits.active, hpermits.published, hpermits.pinned,
    hversion.ne'])]
  rcases hpermits.basis with ⟨howner, rfl⟩ |
    ⟨howner, held, rfl, _, hdashboard, hviewer, hunrevoked⟩
  · simp [newAuthorization, howner]
  · simp [newAuthorization, howner, hdashboard, hviewer, hunrevoked]

theorem insertGuard_eq (hpermits : db.Permits dashboard viewer revisionId grant)
    (attempt id : ℕ)
    (hstored : db.authorizations.get? (context.uuid attempt) = some (newAuthorization platform
      context attempt (token attempt) dashboard revisionId viewer grant .viewer issuedAt)) :
    ((newAuthorization platform context attempt (token attempt) dashboard revisionId viewer grant
      .viewer issuedAt).openRow id dashboard.publicationVersion).insertGuard db = none := by
  unfold AuthorizedOpen.insertGuard
  simp only [RenderAuthorization.openRow, newAuthorization] at hstored ⊢
  simp only [hstored, hpermits.storedViewer, hpermits.storedDashboard]
  rw [if_neg (by simp [sqlDiffers, hpermits.active, hpermits.published, hpermits.pinned])]
  rcases hpermits.basis with ⟨howner, rfl⟩ |
    ⟨howner, held, rfl, hheld, hdashboard, hviewer, hunrevoked⟩
  · simp [howner]
  · have hone : (db.grants.where? fun other => decide (other.id = held.id) &&
        (decide (other.dashboardId = dashboard.id) &&
          (decide (other.viewerId = viewer.id) && decide (other.revokedAt = none)))) =
          [held] := by
      refine Table.where?_eq_singleton (Table.mem_of_get? hheld)
        (by simp [hdashboard, hviewer, hunrevoked]) ?_
      intro other hother hselected
      simp only [Bool.and_eq_true, decide_eq_true_eq] at hselected
      exact Table.eq_of_key_eq hother (Table.mem_of_get? hheld) hselected.1
    simp [Ne.symm howner, hone]

/-- The open of an authorization that has none yet is inserted. -/
theorem insertOpen_commits (hpermits : db.Permits dashboard viewer revisionId grant)
    (hgood : db.Consistent) (attempt : ℕ)
    (hstored : db.authorizations.get? (context.uuid attempt) = some (newAuthorization platform
      context attempt (token attempt) dashboard revisionId viewer grant .viewer issuedAt))
    (hnone : ∀ other ∈ db.opens, other.sourceAuthorizationId ≠ context.uuid attempt) :
    ∃ after, (insertOpen (newAuthorization platform context attempt (token attempt) dashboard
      revisionId viewer grant .viewer issuedAt) dashboard.publicationVersion).Runs db true
        after := by
  have hversion := (hgood.dashboards _ (Table.mem_of_get? hpermits.storedDashboard)).version
    hpermits.published
  have hguard := hpermits.insertGuard_eq attempt db.nextId hstored
  let row := (newAuthorization platform context attempt (token attempt) dashboard revisionId
    viewer grant .viewer issuedAt).openRow db.nextId dashboard.publicationVersion
  have hfresh : db.opens.get? (Keyed.key row) = none := by
    rw [Table.get?_eq_none_iff]
    intro other hother
    exact (hgood.identities.opens other hother).ne
  rcases Table.exists_create hfresh with ⟨opens, hcreate⟩
  have hinsert : ∃ after, row.insert.Runs { db with nextId := db.nextId + 1 } row after := by
    simp only [AuthorizedOpen.insert, AuthorizedOpen.clean, runs_bind, runs_get, runs_found,
      runs_check, runs_raiseAny, runs_set, runs_pure, and_assoc, exists_and_left,
      exists_eq_left', exists_const]
    refine ⟨_, _, hstored, rfl, rfl, rfl, rfl, rfl, rfl, hversion, hguard, ?_, opens, hcreate,
      rfl, trivial, rfl⟩
    rw [Table.any_eq_false_iff]
    intro other hother
    simpa [row, RenderAuthorization.openRow, newAuthorization] using hnone other hother
  rcases hinsert with ⟨after, hinsert⟩
  refine ⟨after, ?_⟩
  rw [insertOpen, runs_recover]
  refine .inl (runs_bind.mpr ⟨db.nextId, _, runs_takeId.mpr ⟨rfl, rfl⟩, ?_⟩)
  exact runs_bind.mpr ⟨row, after, hinsert, runs_pure.mpr ⟨rfl, rfl⟩⟩

theorem advanceViewerState_commits (hpermits : db.Permits dashboard viewer revisionId grant)
    (hgood : db.Consistent) (row : RenderAuthorization)
    (hdashboard : row.dashboardId = dashboard.id) :
    ∃ state after, (advanceViewerState row dashboard.publicationVersion).Runs db state
      after := by
  have hone : ∀ first ∈ db.viewerStates, ∀ second ∈ db.viewerStates,
      (decide (first.userId = row.viewerId ∧ first.dashboardId = row.dashboardId)) = true →
        (decide (second.userId = row.viewerId ∧ second.dashboardId = row.dashboardId)) = true →
          first = second := by
    intro first hfirst second hsecond hone htwo
    rw [decide_eq_true_eq] at hone htwo
    exact hgood.pairs.viewerStates first hfirst second hsecond (hone.1.trans htwo.1.symm)
      (hone.2.trans htwo.2.symm)
  rcases Table.where?_eq_toList hone with ⟨existing, hexisting⟩
  have hstored : db.dashboards.get? row.dashboardId = some dashboard :=
    hdashboard ▸ hpermits.storedDashboard
  cases existing with
  | none =>
      let fresh : DashboardViewerState := {
        id := db.nextId
        userId := row.viewerId
        dashboardId := row.dashboardId
        lastViewedAt := row.createdAt
        seenPublicationVersion := dashboard.publicationVersion }
      have hfresh : db.viewerStates.get? (Keyed.key fresh) = none := by
        rw [Table.get?_eq_none_iff]
        intro other hother
        exact (hgood.identities.viewerStates other hother).ne
      rcases Table.exists_create hfresh with ⟨viewerStates, hcreate⟩
      have hinsert : ∃ after, fresh.insert.Runs { db with nextId := db.nextId + 1 } fresh
          after := by
        simp only [DashboardViewerState.insert, DashboardViewerState.clean, runs_bind, runs_get,
          runs_found, runs_check, runs_set, runs_pure, and_assoc, exists_and_left,
          exists_eq_left', exists_const]
        refine ⟨_, _, ⟨dashboard, hstored, le_refl _, rfl⟩, ?_, viewerStates, hcreate, trivial, rfl⟩
        rw [Table.any_eq_false_iff]
        intro other hother hselected
        have hmem : other ∈ db.viewerStates.where? fun state =>
            state.userId = row.viewerId ∧ state.dashboardId = row.dashboardId :=
          Table.mem_where?_iff.mpr ⟨hother, hselected⟩
        rw [hexisting] at hmem
        simp at hmem
      rcases hinsert with ⟨after, hinsert⟩
      refine ⟨fresh, after, ?_⟩
      simp only [advanceViewerState, runs_bind, runs_get, runs_getOneOrNone, and_assoc,
        exists_and_left, exists_eq_left']
      exact ⟨none, hexisting, runs_bind.mpr ⟨_, _, runs_takeId.mpr ⟨rfl, rfl⟩, hinsert⟩⟩
  | some state =>
      have hmem : state ∈ db.viewerStates.where? fun state =>
          state.userId = row.viewerId ∧ state.dashboardId = row.dashboardId := by
        rw [hexisting]
        simp
      rw [Table.mem_where?_iff, decide_eq_true_eq] at hmem
      have hseen : state.seenPublicationVersion ≤ dashboard.publicationVersion := by
        rcases hgood.seen state hmem.1 with ⟨stored, hget, hle⟩
        rw [hmem.2.2, hstored] at hget
        rwa [Option.some.inj hget]
      let advanced : DashboardViewerState := { state with
        lastViewedAt := max state.lastViewedAt row.createdAt
        seenPublicationVersion := max state.seenPublicationVersion dashboard.publicationVersion }
      have hsave : ∃ after, advanced.save.Runs db advanced after := by
        have hadvanced : db.dashboards.get? advanced.dashboardId = some dashboard :=
          hmem.2.2 ▸ hstored
        simp only [DashboardViewerState.save, DashboardViewerState.clean, runs_bind, runs_get,
          runs_found, runs_check, runs_set, runs_pure, and_assoc, exists_and_left,
          exists_eq_left', exists_const]
        exact ⟨_, state, Table.get?_of_mem hmem.1, rfl, rfl, le_max_left _ _, le_max_left _ _, _,
          ⟨dashboard, hadvanced, max_le hseen (le_refl _), rfl⟩, trivial, rfl⟩
      rcases hsave with ⟨after, hsave⟩
      simp only [advanceViewerState, runs_bind, runs_get, runs_getOneOrNone, and_assoc,
        exists_and_left, exists_eq_left']
      by_cases hsame : advanced = state
      · refine ⟨state, db, some state, hexisting, ?_⟩
        exact runs_ite.mpr (.inl ⟨hsame, runs_pure.mpr ⟨rfl, rfl⟩⟩)
      · refine ⟨advanced, after, some state, hexisting, ?_⟩
        exact runs_ite.mpr (.inr ⟨hsame, hsave⟩)

/-- What an issue has read is not touched by the writes of its transaction. -/
theorem frame (hpermits : db.Permits dashboard viewer revisionId grant) (later : Db)
    (hdashboards : later.dashboards = db.dashboards) (husers : later.users = db.users)
    (hgrants : later.grants = db.grants) : later.Permits dashboard viewer revisionId grant where
  storedDashboard := hdashboards ▸ hpermits.storedDashboard
  published := hpermits.published
  pinned := hpermits.pinned
  storedViewer := husers ▸ hpermits.storedViewer
  active := hpermits.active
  basis := hgrants ▸ hpermits.basis

theorem captureAuthorizedOpen_commits (hpermits : db.Permits dashboard viewer revisionId grant)
    (hgood : db.Consistent) (attempt : ℕ)
    (hstored : db.authorizations.get? (context.uuid attempt) = some (newAuthorization platform
      context attempt (token attempt) dashboard revisionId viewer grant .viewer issuedAt))
    (hnone : ∀ other ∈ db.opens, other.sourceAuthorizationId ≠ context.uuid attempt) :
    ∃ after, (captureAuthorizedOpen (context.uuid attempt)).Runs db true after := by
  rcases (hgood.dashboards _ (Table.mem_of_get? hpermits.storedDashboard)).revision revisionId
    hpermits.pinned with ⟨revision, hrevision, _⟩
  rcases hpermits.insertOpen_commits hgood attempt hstored hnone with ⟨middle, hinsert⟩
  have hmiddle : middle.Permits dashboard viewer revisionId grant := by
    rcases insertOpen_runs hinsert with ⟨_, rfl⟩ | ⟨_, _, _, _, _, _, _, rfl⟩
    · exact hpermits
    · exact hpermits.frame _ rfl rfl rfl
  have hinserted : Changes {.opens} db middle := insertOpen_changes hinsert rfl
  have hmiddleGood := hgood.changes hinserted
  rcases hmiddle.advanceViewerState_commits hmiddleGood (newAuthorization platform context
    attempt (token attempt) dashboard revisionId viewer grant .viewer issuedAt) rfl with
    ⟨state, after, hadvance⟩
  refine ⟨after, ?_⟩
  simp only [captureAuthorizedOpen, runs_bind, runs_get, runs_found, runs_check, runs_ite,
    runs_pure, and_assoc, exists_and_left, exists_eq_left', exists_const]
  refine ⟨⟨_, dashboard, viewer, revision, grant⟩, ?_, .inr ⟨?_, ?_, _, rfl, true, middle,
    hinsert, .inl ⟨rfl, state, after, hadvance, trivial, rfl⟩⟩⟩
  · rw [hstored, Option.bind_some]
    exact hpermits.loadAuthorization_eq hrevision attempt
  · simp
  · exact hpermits.canSourceOpen_eq hgood attempt

theorem issuePublishedView_commits (hpermits : db.Permits dashboard viewer revisionId grant)
    (hgood : db.Consistent)
    (hgrant : grant = if dashboard.ownerId ≠ viewer.id then
      db.activeViewerGrant dashboard.id viewer.id else none)
    (hcan : db.userCanViewPublished dashboard viewer grant = true)
    (hfresh : ∃ drawn < tokenAttempts, (newAuthorization platform context drawn (token drawn)
      dashboard revisionId viewer grant .viewer issuedAt).Fresh db) :
    ∃ credential after, (issuePublishedView platform context token dashboard.id viewer.id
      issuedAt).Runs db credential after := by
  rcases hfresh with ⟨drawn, hdrawn, hfresh⟩
  rcases hpermits.createAuthorizationFrom_commits hgood
    ⟨drawn, Nat.zero_le drawn, by rwa [Nat.zero_add], hfresh⟩ with ⟨created, middle, hcreate⟩
  have hcreate : (createAuthorization platform context token dashboard revisionId viewer grant
      .viewer issuedAt).Runs db created middle := hcreate
  rcases createAuthorization_runs hpermits.storedDashboard hcreate with
    ⟨attempted, _, hrow, hissued, authorizations, hinserted, rfl⟩
  have hmiddleGood := hgood.withAuthorization hinserted
  have hid : created.2.id = context.uuid attempted := by
    rw [hrow]
    rfl
  have hstored : authorizations.get? (context.uuid attempted) = some created.2 := by
    rw [Table.get?_of_create hinserted, ← hid]
    exact if_pos rfl
  have hnone : ∀ other ∈ db.opens, other.sourceAuthorizationId ≠ context.uuid attempted := by
    intro other hother hsame
    rcases hgood.sources other hother with ⟨source, hsource⟩
    refine Table.fresh_of_create hinserted source (Table.mem_of_get? hsource) ?_
    exact (Table.key_of_get? hsource).trans (hsame.trans hid.symm)
  have hmiddle := hpermits.frame { db with authorizations := authorizations } rfl rfl rfl
  rcases hmiddle.captureAuthorizedOpen_commits hmiddleGood attempted (hrow ▸ hstored) hnone with
    ⟨after, hcapture⟩
  refine ⟨created.1, after, ?_⟩
  simp only [issuePublishedView, captureIssued, runs_bind, runs_get, runs_found, runs_check,
    runs_recover, runs_pure, and_assoc, exists_and_left, exists_eq_left', exists_const,
    Option.filter_eq_some_iff]
  have hactive : db.activeUser viewer.id = some viewer := by
    rw [Db.activeUser, hpermits.storedViewer]
    exact if_pos hpermits.active
  refine ⟨dashboard, hpermits.storedDashboard, by simpa using hpermits.published, revisionId,
    hpermits.pinned, viewer, hactive, ?_⟩
  rw [← hgrant]
  refine ⟨hcan, created, _, hcreate, after, ⟨true, after, .inl ?_, rfl, rfl⟩, rfl, rfl⟩
  rwa [hid]

end Db.Permits

end Agora
