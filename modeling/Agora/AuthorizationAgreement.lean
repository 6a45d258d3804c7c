import Agora.AuthorizationQueries
import Agora.IssuePermission

/-!
# The authorization paths agree

`MaySee` is the rule itself: an active user sees a published dashboard that the
user owns or holds an unrevoked grant on.  Each of the four paths of the code is
equivalent to it in a consistent database, an issued credential is accepted until
it expires, and an accepted viewer credential implies the rule.
-/

namespace Agora

open Transaction

def Db.MaySee (db : Db) (dashboardId userId : Uuid) : Prop :=
  ∃ dashboard, db.dashboards.get? dashboardId = some dashboard ∧
    ∃ user, db.activeUser userId = some user ∧
      dashboard.state = .published ∧ dashboard.publishedRevisionId ≠ none ∧
        (dashboard.ownerId = userId ∨ db.hasActiveViewerGrant dashboardId userId = true)

/-! ## The four paths -/

/-- `issue_published_view` commits a credential. -/
def Db.IssuesView (db : Db) (platform : Platform) (context : CallContext)
    (token : ℕ → BearerToken) (dashboardId userId : Uuid) (issuedAt : Time) : Prop :=
  ∃ (credential : RenderCredential) (after : Db),
    (ServiceCall.body platform
      ⟨context, .issuePublishedView token dashboardId userId issuedAt⟩).Runs db credential after

/-- `set_dashboard_favorite` commits a favorite. -/
def Db.AllowsFavorite (db : Db) (platform : Platform) (context : CallContext)
    (dashboardId userId : Uuid) : Prop :=
  ∃ (favorite : Option DashboardFavorite) (after : Db),
    (ServiceCall.body platform
      ⟨context, .setDashboardFavorite dashboardId userId true⟩).Runs db favorite after

/-- `visible_project` returns a project with a published revision. -/
def Db.ShowsPublished (db : Db) (dashboardId userId : Uuid) : Prop :=
  ∃ project owned, db.visibleProject dashboardId userId = some (project, owned) ∧
    project.publishedRevisionId ≠ none

/-- One of the attempts of an issue draws a token and an identifier not in use. -/
def Db.DrawsFresh (db : Db) (platform : Platform) (context : CallContext)
    (token : ℕ → BearerToken) : Prop :=
  ∃ drawn < tokenAttempts,
    (∀ row ∈ db.authorizations, row.tokenDigest ≠ platform.digest (token drawn).value) ∧
      ∀ row ∈ db.authorizations, row.id ≠ context.uuid drawn

section Rule

variable {db : Db} {dashboardId userId : Uuid}

theorem Db.activeUser_eq_some_iff {user : User} :
    db.activeUser userId = some user ↔
      db.users.get? userId = some user ∧ user.isActive = true := by
  simp [Db.activeUser, Option.filter_eq_some_iff]

theorem Db.isActiveUser_iff :
    db.isActiveUser userId = true ↔ ∃ user, db.activeUser userId = some user := by
  simp [Db.isActiveUser, Option.isSome_iff_exists]

theorem Db.hasActiveViewerGrant_iff :
    db.hasActiveViewerGrant dashboardId userId = true ↔
      ∃ grant ∈ db.grants, grant.dashboardId = dashboardId ∧ grant.viewerId = userId ∧
        grant.revokedAt = none := by
  simp [Db.hasActiveViewerGrant, Table.any_eq_true_iff, ViewerGrant.isActiveFor, and_assoc]

/-- The filter of the queries on the grants of active users. -/
theorem Db.anyActiveGrant_iff :
    db.grants.any (fun grant => grant.dashboardId = dashboardId ∧ grant.viewerId = userId ∧
        db.isActiveUser grant.viewerId = true ∧ grant.revokedAt = none) = true ↔
      (∃ user, db.activeUser userId = some user) ∧
        db.hasActiveViewerGrant dashboardId userId = true := by
  rw [Db.hasActiveViewerGrant_iff, Table.any_eq_true_iff, ← Db.isActiveUser_iff]
  constructor
  · rintro ⟨grant, hgrant, hselected⟩
    rw [decide_eq_true_eq] at hselected
    rcases hselected with ⟨hdashboard, rfl, hactive, hunrevoked⟩
    exact ⟨hactive, grant, hgrant, hdashboard, rfl, hunrevoked⟩
  · rintro ⟨hactive, grant, hgrant, hdashboard, rfl, hunrevoked⟩
    exact ⟨grant, hgrant, decide_eq_true_eq.mpr ⟨hdashboard, rfl, hactive, hunrevoked⟩⟩

theorem Db.publishedAuthorization_iff {dashboard : Dashboard} :
    db.publishedAuthorization userId dashboard = true ↔
      (∃ user, db.activeUser userId = some user) ∧
        (dashboard.ownerId = userId ∨
          db.hasActiveViewerGrant dashboard.id userId = true) := by
  unfold Db.publishedAuthorization
  rw [decide_eq_true_eq, Db.anyActiveGrant_iff]
  constructor
  · rintro (⟨rfl, hactive⟩ | ⟨hactive, hgrant⟩)
    · exact ⟨Db.isActiveUser_iff.mp hactive, .inl rfl⟩
    · exact ⟨hactive, .inr hgrant⟩
  · rintro ⟨hactive, rfl | hgrant⟩
    · exact .inl ⟨rfl, Db.isActiveUser_iff.mpr hactive⟩
    · exact .inr ⟨hactive, hgrant⟩

theorem authorizedPublishedDashboard_iff :
    db.authorizedPublishedDashboard dashboardId userId ≠ none ↔
      db.MaySee dashboardId userId := by
  rw [Option.ne_none_iff_exists']
  unfold Db.authorizedPublishedDashboard Db.MaySee
  simp only [Option.filter_eq_some_iff, decide_eq_true_eq, Db.publishedAuthorization_iff]
  constructor
  · rintro ⟨dashboard, hget, hstate, hpublished, ⟨user, huser⟩, hbasis⟩
    have hid : dashboard.id = dashboardId := Table.key_of_get? hget
    exact ⟨dashboard, hget, user, huser, hstate, hpublished, hid ▸ hbasis⟩
  · rintro ⟨dashboard, hget, user, huser, hstate, hpublished, hbasis⟩
    have hid : dashboard.id = dashboardId := Table.key_of_get? hget
    exact ⟨dashboard, hget, hstate, hpublished, ⟨user, huser⟩, hid ▸ hbasis⟩

theorem Db.mem_sharedProjects_iff {project : Dashboard} :
    project ∈ db.sharedProjects userId ↔
      project ∈ db.dashboards ∧ project.state = .published ∧
        project.publishedRevisionId ≠ none ∧ (∃ user, db.activeUser userId = some user) ∧
          db.hasActiveViewerGrant project.id userId = true := by
  unfold Db.sharedProjects
  rw [List.mem_insertionSort, Table.mem_where?_iff, decide_eq_true_eq, Db.anyActiveGrant_iff]

theorem Db.manageableProject_eq_some_iff {project : Dashboard} :
    db.manageableProject dashboardId userId = some project ↔
      db.dashboards.get? dashboardId = some project ∧ project.ownerId = userId ∧
        (∃ user, db.activeUser userId = some user) ∧ project.state ≠ .deleted := by
  simp only [Db.manageableProject, Option.filter_eq_some_iff, decide_eq_true_eq,
    Db.isActiveUser_iff]
  constructor
  · rintro ⟨hget, rfl, huser, hstate⟩
    exact ⟨hget, rfl, huser, hstate⟩
  · rintro ⟨hget, rfl, huser, hstate⟩
    exact ⟨hget, rfl, huser, hstate⟩

/-- The shared project of a page is the stored one. -/
theorem Db.headShared_eq_some_iff {project : Dashboard} :
    ((db.sharedProjects userId).filter fun project => project.id = dashboardId).head? =
        some project ↔
      db.dashboards.get? dashboardId = some project ∧ project ∈ db.sharedProjects userId := by
  constructor
  · intro hhead
    have hmem := List.mem_of_head? hhead
    rw [List.mem_filter, decide_eq_true_eq] at hmem
    have hstored := (Db.mem_sharedProjects_iff.mp hmem.1).1
    exact ⟨hmem.2 ▸ Table.get?_of_mem hstored, hmem.1⟩
  · rintro ⟨hget, hshared⟩
    have hid : project.id = dashboardId := Table.key_of_get? hget
    have hmem : project ∈ (db.sharedProjects userId).filter fun project =>
        project.id = dashboardId := List.mem_filter.mpr ⟨hshared, by simpa using hid⟩
    cases hhead : ((db.sharedProjects userId).filter fun project =>
        project.id = dashboardId).head? with
    | none =>
        rw [List.head?_eq_none_iff] at hhead
        rw [hhead] at hmem
        simp at hmem
    | some other =>
        have hother := List.mem_of_head? hhead
        rw [List.mem_filter, decide_eq_true_eq] at hother
        have hstored := (Db.mem_sharedProjects_iff.mp hother.1).1
        rw [Table.eq_of_key_eq hstored (Table.mem_of_get? hget)
          (hother.2.trans hid.symm)]

theorem showsPublished_iff (hgood : db.Credentials) :
    db.ShowsPublished dashboardId userId ↔ db.MaySee dashboardId userId := by
  unfold Db.ShowsPublished Db.visibleProject Db.MaySee
  cases howned : db.manageableProject dashboardId userId with
  | some project =>
      rcases Db.manageableProject_eq_some_iff.mp howned with ⟨hget, howner, ⟨user, huser⟩, _⟩
      have hpublished := hgood.published project (Table.mem_of_get? hget)
      simp only [Option.some.injEq, Prod.mk.injEq]
      constructor
      · rintro ⟨_, _, ⟨rfl, rfl⟩, hrevision⟩
        exact ⟨project, hget, user, huser,
          hpublished.mpr (Option.isSome_iff_ne_none.mpr hrevision), hrevision, .inl howner⟩
      · rintro ⟨other, hother, _, _, _, hrevision, _⟩
        cases Option.some.inj (hget.symm.trans hother)
        exact ⟨project, true, ⟨rfl, rfl⟩, hrevision⟩
  | none =>
      simp only [Option.map_eq_some_iff, Prod.mk.injEq]
      constructor
      · rintro ⟨_, _, ⟨project, hhead, rfl, rfl⟩, hrevision⟩
        rcases Db.headShared_eq_some_iff.mp hhead with ⟨hget, hshared⟩
        rcases Db.mem_sharedProjects_iff.mp hshared with ⟨_, hstate, _, ⟨user, huser⟩, hgrant⟩
        have hid : project.id = dashboardId := Table.key_of_get? hget
        exact ⟨project, hget, user, huser, hstate, hrevision, .inr (hid ▸ hgrant)⟩
      · rintro ⟨project, hget, user, huser, hstate, hrevision, hbasis⟩
        have hid : project.id = dashboardId := Table.key_of_get? hget
        have hgrant : db.hasActiveViewerGrant dashboardId userId = true := by
          rcases hbasis with howner | hgrant
          · have hmanaged : db.manageableProject dashboardId userId = some project :=
              Db.manageableProject_eq_some_iff.mpr
                ⟨hget, howner, ⟨user, huser⟩, by rw [hstate]; decide⟩
            rw [howned] at hmanaged
            contradiction
          · exact hgrant
        have hshared : project ∈ db.sharedProjects userId :=
          Db.mem_sharedProjects_iff.mpr ⟨Table.mem_of_get? hget, hstate, hrevision,
            ⟨user, huser⟩, hid.symm ▸ hgrant⟩
        exact ⟨project, false, ⟨project, Db.headShared_eq_some_iff.mpr ⟨hget, hshared⟩, rfl,
          rfl⟩, hrevision⟩

end Rule

/-! ## Favorites -/

section Commits

variable {platform : Platform} {context : CallContext} {token : ℕ → BearerToken}
  {db : Db} {dashboardId userId : Uuid} {issuedAt : Time}

theorem Db.activeViewerGrant_ne_none_iff :
    db.activeViewerGrant dashboardId userId ≠ none ↔
      db.hasActiveViewerGrant dashboardId userId = true := by
  unfold Db.activeViewerGrant Db.hasActiveViewerGrant Db.activeGrants
  rw [Ne, List.argmin_eq_none, Table.any_eq_true_iff]
  constructor
  · intro hne
    rcases List.exists_mem_of_ne_nil _ hne with ⟨grant, hgrant⟩
    rw [Table.mem_where?_iff] at hgrant
    exact ⟨grant, hgrant⟩
  · rintro ⟨grant, hgrant⟩ hnil
    have hmem := Table.mem_where?_iff.mpr hgrant
    rw [hnil] at hmem
    simp at hmem

theorem Db.activeViewerGrant_eq_some {grant : ViewerGrant}
    (hgrant : db.activeViewerGrant dashboardId userId = some grant) :
    grant ∈ db.grants ∧ grant.dashboardId = dashboardId ∧ grant.viewerId = userId ∧
      grant.revokedAt = none := by
  have hmem := List.argmin_mem hgrant
  simp only [Db.activeGrants, Table.mem_where?_iff, ViewerGrant.isActiveFor, Bool.and_eq_true,
    beq_iff_eq, and_assoc] at hmem
  exact hmem

theorem setDashboardFavorite_commits_iff (hgood : db.Consistent) :
    (∃ favorite after,
      (setDashboardFavorite context dashboardId userId true).Runs db favorite after) ↔
        db.MaySee dashboardId userId := by
  simp only [setDashboardFavorite, runs_bind, runs_get, runs_found, runs_check,
    runs_getOneOrNone, runs_ite, and_assoc, exists_and_left, exists_eq_left',
    exists_const, Bool.true_eq_false, false_and, false_or, not_false_eq_true, true_and,
    Option.filter_eq_some_iff, decide_eq_true_eq]
  constructor
  · rintro ⟨favorite, after, dashboard, hget, hstate, hpublished, user, huser, hbasis, _⟩
    have hid : dashboard.id = dashboardId := Table.key_of_get? hget
    have huserId : user.id = userId :=
      Table.key_of_get? (Db.activeUser_eq_some_iff.mp huser).1
    rw [Db.activeViewerGrant_ne_none_iff, hid, huserId] at hbasis
    exact ⟨dashboard, hget, user, huser, hstate, hpublished, hbasis⟩
  · rintro ⟨dashboard, hget, user, huser, hstate, hpublished, hbasis⟩
    have hid : dashboard.id = dashboardId := Table.key_of_get? hget
    have huserId : user.id = userId :=
      Table.key_of_get? (Db.activeUser_eq_some_iff.mp huser).1
    have hone : ∀ first ∈ db.favorites, ∀ second ∈ db.favorites,
        decide (first.userId = user.id ∧ first.dashboardId = dashboard.id) = true →
          decide (second.userId = user.id ∧ second.dashboardId = dashboard.id) = true →
            first = second := by
      intro first hfirst second hsecond hone htwo
      rw [decide_eq_true_eq] at hone htwo
      exact hgood.pairs.favorites first hfirst second hsecond (hone.1.trans htwo.1.symm)
        (hone.2.trans htwo.2.symm)
    rcases Table.where?_eq_toList hone with ⟨existing, hexisting⟩
    rw [← Db.activeViewerGrant_ne_none_iff, ← hid, ← huserId] at hbasis
    cases existing with
    | some favorite =>
        exact ⟨some favorite, db, dashboard, hget, hstate, hpublished, user, huser, hbasis,
          some favorite, hexisting, runs_pure.mpr ⟨rfl, rfl⟩⟩
    | none =>
        have hfresh : db.favorites.get? (Keyed.key
            (⟨db.nextId, user.id, dashboard.id, context.clock⟩ : DashboardFavorite)) = none := by
          rw [Table.get?_eq_none_iff]
          intro other hother
          exact (hgood.identities.favorites other hother).ne
        rcases Table.exists_create hfresh with ⟨favorites, hcreate⟩
        refine ⟨some ⟨db.nextId, user.id, dashboard.id, context.clock⟩,
          { db with nextId := db.nextId + 1, favorites := favorites }, dashboard, hget, hstate,
          hpublished, user, huser, hbasis, none, hexisting, ?_⟩
        simp only [runs_bind, runs_takeId, runs_get, runs_found, runs_set, runs_pure, and_assoc,
          exists_and_left, exists_eq_left', exists_eq_left, exists_const]
        exact ⟨favorites, hcreate, trivial, rfl⟩

/-! ## Issue -/

/-- What an issue reads under the rule. -/
theorem Db.MaySee.permits (hmay : db.MaySee dashboardId userId) :
    ∃ dashboard viewer revisionId, dashboard.id = dashboardId ∧ viewer.id = userId ∧
      db.Permits dashboard viewer revisionId
        (if dashboard.ownerId ≠ viewer.id then db.activeViewerGrant dashboard.id viewer.id
          else none) ∧
      db.userCanViewPublished dashboard viewer
        (if dashboard.ownerId ≠ viewer.id then db.activeViewerGrant dashboard.id viewer.id
          else none) = true := by
  rcases hmay with ⟨dashboard, hget, viewer, huser, hstate, hpublished, hbasis⟩
  rcases Db.activeUser_eq_some_iff.mp huser with ⟨hviewer, hactive⟩
  have hid : dashboard.id = dashboardId := Table.key_of_get? hget
  have hviewerId : viewer.id = userId := Table.key_of_get? hviewer
  rcases Option.ne_none_iff_exists'.mp hpublished with ⟨revisionId, hrevision⟩
  refine ⟨dashboard, viewer, revisionId, hid, hviewerId, ?_⟩
  by_cases howner : dashboard.ownerId = viewer.id
  · rw [if_neg (by simpa using howner)]
    refine ⟨⟨hid ▸ hget, hstate, hrevision, hviewerId ▸ hviewer, hactive,
      .inl ⟨howner, rfl⟩⟩, ?_⟩
    simp [Db.userCanViewPublished, hactive, hstate, hpublished, howner]
  · rw [if_pos howner]
    have hgrant : db.activeViewerGrant dashboard.id viewer.id ≠ none := by
      rw [Db.activeViewerGrant_ne_none_iff, hid, hviewerId]
      exact hbasis.resolve_left (hviewerId ▸ howner)
    rcases Option.ne_none_iff_exists'.mp hgrant with ⟨held, hheld⟩
    rcases Db.activeViewerGrant_eq_some hheld with ⟨hmem, hdash, hview, hunrevoked⟩
    rw [hheld]
    refine ⟨⟨hid ▸ hget, hstate, hrevision, hviewerId ▸ hviewer, hactive,
      .inr ⟨howner, held, rfl, Table.get?_of_mem hmem, hdash, hview, hunrevoked⟩⟩, ?_⟩
    rw [Db.userCanViewPublished_iff howner]
    exact ⟨hactive, hstate, hpublished, hdash, hview, hunrevoked⟩

theorem issuePublishedView_maySee {credential : RenderCredential} {after : Db}
    (hruns : (issuePublishedView platform context token dashboardId userId issuedAt).Runs db
      credential after) :
    db.MaySee dashboardId userId := by
  simp only [issuePublishedView, runs_bind, runs_get, runs_found, runs_check, runs_pure,
    and_assoc, exists_and_left, exists_eq_left', exists_const,
    Option.filter_eq_some_iff, decide_eq_true_eq] at hruns
  rcases hruns with ⟨dashboard, hget, hstate, revisionId, hrevision, viewer, huser, hcan, _⟩
  have hid : dashboard.id = dashboardId := Table.key_of_get? hget
  have hviewerId : viewer.id = userId :=
    Table.key_of_get? (Db.activeUser_eq_some_iff.mp huser).1
  refine ⟨dashboard, hget, viewer, huser, hstate, by rw [hrevision]; simp, ?_⟩
  by_cases howner : dashboard.ownerId = viewer.id
  · exact .inl (howner.trans hviewerId)
  · refine .inr ?_
    rw [if_pos howner] at hcan
    cases hgrant : db.activeViewerGrant dashboard.id viewer.id with
    | none =>
        rw [hgrant] at hcan
        have hactive := (Db.activeUser_eq_some_iff.mp huser).2
        simp only [Db.userCanViewPublished, hactive, hstate, hrevision, howner] at hcan
        rw [← hid, ← hviewerId]
        simpa using hcan
    | some held =>
        rw [← hid, ← hviewerId, ← Db.activeViewerGrant_ne_none_iff, hgrant]
        simp

theorem issuePublishedView_commits_iff (hgood : db.Consistent)
    (hfresh : db.DrawsFresh platform context token) :
    (∃ credential after,
      (issuePublishedView platform context token dashboardId userId issuedAt).Runs db credential
        after) ↔ db.MaySee dashboardId userId := by
  constructor
  · rintro ⟨credential, after, hruns⟩
    exact issuePublishedView_maySee hruns
  · intro hmay
    rcases hmay.permits with ⟨dashboard, viewer, revisionId, rfl, rfl, hpermits, hcan⟩
    exact hpermits.issuePublishedView_commits hgood rfl hcan hfresh

/-! ## Acceptance -/

/-- An authorization under its issue, joined with what the issue has read, is current
until it expires. -/
theorem Db.Permits.isCurrent {dashboard : Dashboard} {viewer : User} {revisionId : Uuid}
    {grant : Option ViewerGrant} {revision : Revision} {checkedAt : Time}
    (hpermits : db.Permits dashboard viewer revisionId grant) (hlocked : revision.artifactsLocked)
    (hbelongs : revision.dashboardId = dashboard.id) (attempt : ℕ) (captured : Option Time)
    (htime : checkedAt < issuedAt + renderLifetime) :
    LoadedAuthorization.isCurrent db
      ⟨{ newAuthorization platform context attempt (token attempt) dashboard revisionId viewer
          grant .viewer issuedAt with authorizedOpenCapturedAt := captured },
        dashboard, viewer, revision, grant⟩ checkedAt = true := by
  rw [LoadedAuthorization.isCurrent_iff]
  refine ⟨⟨rfl, htime, hpermits.active, rfl, hlocked, hbelongs⟩, .inr ⟨rfl, hpermits.pinned,
    rfl, ?_⟩⟩
  rcases hpermits.basis with ⟨howner, rfl⟩ |
    ⟨howner, held, rfl, _, hdashboard, hviewer, hunrevoked⟩
  · exact .inl ⟨howner, rfl, rfl⟩
  · refine .inr ⟨howner, by simp [newAuthorization], rfl, ?_⟩
    rw [Db.userCanViewPublished_iff howner]
    exact ⟨hpermits.active, hpermits.published, by rw [hpermits.pinned]; simp, hdashboard,
      hviewer, hunrevoked⟩

theorem issuePublishedView_delivers {credential : RenderCredential} {after : Db}
    (hruns : (issuePublishedView platform context token dashboardId userId issuedAt).Runs db
      credential after)
    (hgood : db.Credentials) (hafter : after.Credentials) {checkedAt : Time}
    (htime : checkedAt < credential.expiresAt) :
    after.Delivers platform credential.token credential.audience checkedAt := by
  rcases (issuePublishedView_maySee hruns).permits with
    ⟨dashboard, viewer, revisionId, rfl, rfl, hpermits, _⟩
  simp only [issuePublishedView, runs_bind, runs_get, runs_found, runs_check, runs_pure,
    and_assoc, exists_and_left, exists_eq_left', exists_const,
    Option.filter_eq_some_iff, decide_eq_true_eq] at hruns
  rcases hruns with ⟨stored, hstored, _, pinned, hpinned, user, huser, _, created, middle,
    hcreate, _, _, hcapture, rfl, rfl⟩
  cases Option.some.inj (hpermits.storedDashboard.symm.trans hstored)
  cases Option.some.inj (hpermits.pinned.symm.trans hpinned)
  cases Option.some.inj
    (hpermits.storedViewer.symm.trans (Db.activeUser_eq_some_iff.mp huser).1)
  generalize (if dashboard.ownerId ≠ viewer.id then db.activeViewerGrant dashboard.id viewer.id
    else none) = grant at hpermits hcreate
  rcases createAuthorization_runs hstored hcreate with
    ⟨attempted, hcredential, hrow, hissued, authorizations, hinserted, rfl⟩
  rcases hissued.revision with ⟨revision, hrevision, hbelongs⟩
  rw [hrow] at hrevision hbelongs
  have hcreated : authorizations.get? created.2.id = some created.2 := by
    rw [Table.get?_of_create hinserted]
    exact if_pos rfl
  rcases captureAuthorizedOpen_runs (captureIssued_runs hcapture) with
    ⟨hfalse, _⟩ | ⟨_, source, version, hid, hcaptured⟩
  · contradiction
  · have hsource := hcaptured.stored
    rw [hid] at hsource
    cases Option.some.inj (hcreated.symm.trans hsource)
    rcases hcaptured.written with ⟨opens, viewerStates, nextId, _, _, rfl⟩
    rw [hcredential] at htime ⊢
    rw [Db.delivers_iff hafter]
    refine ⟨(token attempted).canonical, ⟨{ created.2 with
      authorizedOpenCapturedAt := some created.2.createdAt }, dashboard, viewer, revision, grant⟩,
      Table.mem_of_get? (Table.get?_replace_self hcreated), ?_, ?_, ?_⟩
    · rw [hrow]
      exact ⟨rfl, rfl⟩
    · rw [Db.loadAuthorization_eq_some_iff, hrow]
      refine ⟨rfl, hpermits.storedDashboard, hpermits.storedViewer, hrevision, ?_⟩
      rcases hpermits.basis with ⟨_, rfl⟩ | ⟨_, held, rfl, hheld, _⟩
      · rfl
      · exact hheld.symm
    · rw [hrow]
      exact (hpermits.frame _ rfl rfl rfl).isCurrent
        (hgood.locked revision (Table.mem_of_get? hrevision)) hbelongs attempted _ htime

/-- An accepted viewer credential is one of a user who may see the dashboard, for the
revision published now. -/
theorem resolveRenderAuthorization_maySee {credentialToken : Text} {checkedAt : Time}
    {loaded : LoadedAuthorization} {after : Db} (hgood : db.Credentials)
    (hruns : (resolveRenderAuthorization platform credentialToken .viewer checkedAt).Runs db
      loaded after) :
    db.MaySee loaded.authorization.dashboardId loaded.authorization.viewerId ∧
      ∃ dashboard, db.dashboards.get? loaded.authorization.dashboardId = some dashboard ∧
        dashboard.publishedRevisionId = some loaded.revision.id := by
  rcases resolveRenderAuthorization_runs.mp hruns with ⟨_, hbind, hcurrent, _⟩
  rcases Option.bind_eq_some_iff.mp hbind with ⟨row, hrow, hload⟩
  rcases (Db.authorizationOf_eq_some_iff hgood).mp hrow with ⟨_, _, haudience⟩
  rcases Db.loadAuthorization_eq_some_iff.mp hload with
    ⟨rfl, hdashboard, hviewer, hrevision, hgrantLoad⟩
  rcases LoadedAuthorization.isCurrent_iff.mp hcurrent with ⟨hlive, hpreview | hview⟩
  · rw [hpreview.1] at haudience
    contradiction
  · have hpinned := hview.2.1
    have hpublished := (hgood.published _ (Table.mem_of_get? hdashboard)).mpr
      (by rw [hpinned]; rfl)
    have hrevisionId : loaded.revision.id = loaded.authorization.revisionId :=
      Table.key_of_get? hrevision
    have hviewerId : loaded.viewer.id = loaded.authorization.viewerId :=
      Table.key_of_get? hviewer
    have hdashboardId : loaded.dashboard.id = loaded.authorization.dashboardId :=
      Table.key_of_get? hdashboard
    refine ⟨⟨loaded.dashboard, hdashboard, loaded.viewer,
      Db.activeUser_eq_some_iff.mpr ⟨hviewer, hlive.active⟩, hpublished,
      by rw [hpinned]; simp, ?_⟩, loaded.dashboard, hdashboard, by rw [hpinned, hrevisionId]⟩
    rcases hview.2.2.2 with howner | ⟨hdiffers, hbound, _, hcan⟩
    · exact .inl howner.1
    · refine .inr ?_
      have hnotOwner : loaded.dashboard.ownerId ≠ loaded.viewer.id := hviewerId.symm ▸ hdiffers
      cases hgrant : loaded.grant with
      | none =>
          simp only [Db.userCanViewPublished, hgrant, hlive.active, hpublished, hpinned,
            hnotOwner] at hcan
          rw [← hdashboardId, ← hviewerId]
          simpa using hcan
      | some held =>
          rw [hgrant, Db.userCanViewPublished_iff hnotOwner] at hcan
          rw [hgrant, eq_comm, Option.bind_eq_some_iff] at hgrantLoad
          rcases hgrantLoad with ⟨grantId, _, hheld⟩
          rw [Db.hasActiveViewerGrant_iff, ← hdashboardId, ← hviewerId]
          exact ⟨held, Table.mem_of_get? hheld, hcan.2.2.2⟩

end Commits

/-! ## The agreement -/

section Agreement

variable {platform : Platform} {db : Db}

theorem Db.MaySee.start {call : ServiceCall} {dashboardId userId : Uuid} :
    (call.start db).MaySee dashboardId userId ↔ db.MaySee dashboardId userId :=
  Iff.rfl

theorem Db.Consistent.start (hgood : db.Consistent) (call : ServiceCall) :
    (call.start db).Consistent :=
  have hstarted : Change ∅ db (call.start db) := call.start_change db
  hgood.change hstarted

theorem issuesView_maySee {context : CallContext} {token : ℕ → BearerToken}
    {dashboardId userId : Uuid} {issuedAt : Time}
    (hissues : db.IssuesView platform context token dashboardId userId issuedAt) :
    db.MaySee dashboardId userId := by
  rcases hissues with ⟨credential, after, hruns⟩
  have hstarted := ServiceCall.runs_body.mp hruns
  exact Db.MaySee.start.mp (issuePublishedView_maySee hstarted)

theorem issuesView_iff {context : CallContext} {token : ℕ → BearerToken}
    {dashboardId userId : Uuid} {issuedAt : Time} (hgood : db.Consistent)
    (hfresh : db.DrawsFresh platform context token) :
    db.IssuesView platform context token dashboardId userId issuedAt ↔
      db.MaySee dashboardId userId := by
  constructor
  · exact issuesView_maySee
  · intro hmay
    have hstart := hgood.start ⟨context, .issuePublishedView token dashboardId userId issuedAt⟩
    rcases (issuePublishedView_commits_iff hstart hfresh).mpr hmay with
      ⟨credential, after, hruns⟩
    exact ⟨credential, after, ServiceCall.runs_body.mpr hruns⟩

theorem allowsFavorite_iff {context : CallContext} {dashboardId userId : Uuid}
    (hgood : db.Consistent) :
    db.AllowsFavorite platform context dashboardId userId ↔ db.MaySee dashboardId userId := by
  have hstart := hgood.start ⟨context, .setDashboardFavorite dashboardId userId true⟩
  have hcommits := @setDashboardFavorite_commits_iff context _ dashboardId userId hstart
  constructor
  · rintro ⟨favorite, after, hruns⟩
    exact Db.MaySee.start.mp (hcommits.mp ⟨favorite, after, ServiceCall.runs_body.mp hruns⟩)
  · intro hmay
    rcases hcommits.mpr hmay with ⟨favorite, after, hruns⟩
    exact ⟨favorite, after, ServiceCall.runs_body.mpr hruns⟩

theorem authorization_paths_agree
    (hreach : (serviceSystem platform).Reachable db) (dashboardId userId : Uuid) :
    (∀ context token issuedAt favoriteContext, db.DrawsFresh platform context token →
      List.TFAE [
        db.authorizedPublishedDashboard dashboardId userId ≠ none,
        db.IssuesView platform context token dashboardId userId issuedAt,
        db.AllowsFavorite platform favoriteContext dashboardId userId,
        db.ShowsPublished dashboardId userId]) ∧
    (∀ context token issuedAt (credential : RenderCredential) (after : Db),
      (ServiceCall.body platform
        ⟨context, .issuePublishedView token dashboardId userId issuedAt⟩).Runs db credential
          after →
        ∀ checkedAt < credential.expiresAt,
          after.Delivers platform credential.token credential.audience checkedAt) ∧
    (∀ credentialToken checkedAt loaded after,
      (resolveRenderAuthorization platform credentialToken .viewer checkedAt).Runs db loaded
          after →
        loaded.authorization.dashboardId = dashboardId →
          loaded.authorization.viewerId = userId →
            db.authorizedPublishedDashboard dashboardId userId ≠ none ∧
              (∀ context, db.AllowsFavorite platform context dashboardId userId) ∧
                db.ShowsPublished dashboardId userId ∧
                  (∀ context token issuedAt, db.DrawsFresh platform context token →
                    db.IssuesView platform context token dashboardId userId issuedAt) ∧
                    ∃ dashboard, db.dashboards.get? dashboardId = some dashboard ∧
                      dashboard.publishedRevisionId = some loaded.revision.id) ∧
    (db.activeUser userId = none →
      db.authorizedPublishedDashboard dashboardId userId = none ∧
        (∀ context token issuedAt,
          ¬ db.IssuesView platform context token dashboardId userId issuedAt) ∧
          (∀ context, ¬ db.AllowsFavorite platform context dashboardId userId) ∧
            ¬ db.ShowsPublished dashboardId userId ∧
              ∀ credentialToken checkedAt loaded after,
                (resolveRenderAuthorization platform credentialToken .viewer checkedAt).Runs db
                    loaded after →
                  loaded.authorization.viewerId ≠ userId) := by
  have hgood := consistent_of_reachable hreach
  have hcredentials := credentials_of_reachable hreach
  refine ⟨?_, ?_, ?_, ?_⟩
  · intro context token issuedAt favoriteContext hfresh
    rw [authorizedPublishedDashboard_iff, issuesView_iff hgood hfresh, allowsFavorite_iff hgood,
      showsPublished_iff hcredentials]
    tfae_finish
  · intro context token issuedAt credential after hruns checkedAt htime
    have hafter : (serviceSystem platform).Reachable after :=
      hreach.step (settle_of_runs hruns).symm
    have hstarted : Change ∅ db (ServiceCall.start ⟨context,
        .issuePublishedView token dashboardId userId issuedAt⟩ db) :=
      ServiceCall.start_change _ db
    have hstart := hcredentials.change hstarted
    exact issuePublishedView_delivers (ServiceCall.runs_body.mp hruns) hstart
      (credentials_of_reachable hafter) htime
  · rintro credentialToken checkedAt loaded after hruns rfl rfl
    rcases resolveRenderAuthorization_maySee hcredentials hruns with ⟨hmay, hpinned⟩
    exact ⟨authorizedPublishedDashboard_iff.mpr hmay,
      fun context => (allowsFavorite_iff hgood).mpr hmay,
      (showsPublished_iff hcredentials).mpr hmay,
      fun context token issuedAt hfresh => (issuesView_iff hgood hfresh).mpr hmay, hpinned⟩
  · intro hinactive
    have hnot : ∀ otherId, ¬ db.MaySee otherId userId := by
      rintro otherId ⟨_, _, user, huser, _⟩
      rw [hinactive] at huser
      contradiction
    refine ⟨?_, fun _ _ _ hissues => hnot _ (issuesView_maySee hissues),
      fun _ hallows => hnot _ ((allowsFavorite_iff hgood).mp hallows),
      fun hshows => hnot _ ((showsPublished_iff hcredentials).mp hshows), ?_⟩
    · by_contra hsome
      exact hnot _ (authorizedPublishedDashboard_iff.mp hsome)
    · rintro credentialToken checkedAt loaded after hruns rfl
      exact hnot _ (resolveRenderAuthorization_maySee hcredentials hruns).1

/-- The dashboard that was shared with the second user, before any view of it. -/
theorem shared_dashboard_paths_agree :
    (runCalls asciiPlatform publishedCalls).IssuesView asciiPlatform (contextAt 8 8) firstToken
        3 2 8 ∧
      (runCalls asciiPlatform publishedCalls).ShowsPublished 3 2 := by
  have hnone : (runCalls asciiPlatform publishedCalls).authorizations.rows = [] := by
    decide +kernel
  have hfresh : (runCalls asciiPlatform publishedCalls).DrawsFresh asciiPlatform
      (contextAt 8 8) firstToken :=
    ⟨0, by decide, by simp [Table.mem_def, hnone], by simp [Table.mem_def, hnone]⟩
  have hagree := (authorization_paths_agree (reachable_runCalls publishedCalls) 3 2).1
    (contextAt 8 8) firstToken 8 (contextAt 8 8) hfresh
  have hquery : (runCalls asciiPlatform publishedCalls).authorizedPublishedDashboard 3 2 ≠
      none := by decide +kernel
  exact ⟨(hagree.out 0 1).mp hquery, (hagree.out 0 3).mp hquery⟩

end Agreement

end Agora
