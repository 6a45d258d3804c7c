import Agora.AuthorizationAgreement
import Agora.WindowedReaders

/-!
# Discovery depends on the visible dashboards only

`search_dashboards` filters one scope of its user by prefixes of names, owners and tags and
annotates the rows with the user's favorites.  The filters and the annotations read nothing
of a dashboard that is outside the scope, so two states that agree on what a user may see
give this user the same results.
-/

namespace Agora

/-! ## The queries -/

inductive DiscoveryScope where
  | mine
  | shared
  deriving DecidableEq, Repr

structure DiscoverySearch where
  scope : DiscoveryScope
  query : Text

def discoveryScope (scope : Text) : Except Failure DiscoveryScope :=
  if scope = "mine".toList then .ok .mine
  else if scope = "shared".toList then .ok .shared
  else .error (.value "discovery scope must be mine or shared")

def maxDiscoveryQueryLength : ℕ := 200

def normalizeDiscoveryQuery (tables : UnicodeTables) (value : Text) : Except Failure Text :=
  let compatible := tables.nfkc value
  if compatible.any fun c => tables.category c != .other then
    .error (.value "search cannot contain control characters")
  else
    let normalized := joinWords compatible
    if maxDiscoveryQueryLength < normalized.length then
      .error (.value "search must contain at most 200 characters")
    else .ok normalized

/-- `DiscoverySearch.from_input`. -/
def DiscoverySearch.fromInput (tables : UnicodeTables) (scope query : Text) :
    Except Failure DiscoverySearch := do
  let resolvedScope ← discoveryScope scope
  let normalized ← normalizeDiscoveryQuery tables query
  .ok ⟨resolvedScope, normalized⟩

/-- The dashboards of `_scope_dashboards`. -/
def Db.inScope (db : Db) (principalId : Uuid) (scope : DiscoveryScope)
    (dashboard : Dashboard) : Bool :=
  match scope with
  | .mine =>
      dashboard.ownerId = principalId ∧ db.isActiveUser dashboard.ownerId = true ∧
        dashboard.state ≠ .deleted
  | .shared =>
      dashboard.id ∈ (db.grants.where? fun grant =>
          grant.viewerId = principalId ∧ db.isActiveUser grant.viewerId = true ∧
            grant.revokedAt = none).map ViewerGrant.dashboardId ∧
        dashboard.state = .published ∧ dashboard.publishedRevisionId ≠ none

/-- `_soeid_prefix`. -/
def soeidPrefix (query : Text) : Option Text :=
  (canonicalizeSoeid query).toOption

/-- `_tag_key_prefix`. -/
def tagKeyPrefix (tables : UnicodeTables) (query : Text) : Option Text :=
  (normalizeDashboardTag tables query).toOption.map DashboardTagName.key

/-- The prefix predicates of a query that is not empty. -/
def TaggedDb.matchesQuery (tables : UnicodeTables) (state : TaggedDb) (query : Text)
    (dashboard : Dashboard) : Bool :=
  query.isPrefixOf dashboard.name ||
    ((soeidPrefix query).any fun soeid =>
      (state.db.users.get? dashboard.ownerId).any fun owner => soeid.isPrefixOf owner.soeid) ||
    ((tagKeyPrefix tables query).any fun key => state.tags.any fun tag =>
      tag.dashboardId = dashboard.id && key.isPrefixOf tag.key)

/-- The fields that `_dashboard_rows` loads, with the annotation `is_favorite`; the latest
revision is loaded in the owner's scope only. -/
structure DiscoveryRow where
  id : Uuid
  ownerId : Uuid
  ownerSoeid : Text
  name : Text
  state : DashboardState
  publishedRevision : Option (Uuid × ℕ)
  publicationVersion : ℕ
  updatedAt : Time
  latestRevision : Option (Uuid × ℕ)
  isFavorite : Bool
  deriving DecidableEq

/-- The identifier and the number of a revision that a dashboard points to. -/
def Db.revisionNumber (db : Db) (revisionId : Option Uuid) : Option (Uuid × ℕ) :=
  (revisionId.bind db.revisions.get?).map fun revision => (revision.id, revision.number)

def Db.isFavorite (db : Db) (principalId : Uuid) (dashboard : Dashboard) : Bool :=
  dashboard.state = .published ∧ dashboard.publishedRevisionId ≠ none ∧
    db.favorites.any (fun favorite =>
      favorite.dashboardId = dashboard.id ∧ favorite.userId = principalId ∧
        db.isActiveUser favorite.userId = true) = true

/-- `_dashboard_rows` of one dashboard; the owner is joined. -/
def Db.discoveryRow (db : Db) (principalId : Uuid) (includeLatestRevision : Bool)
    (dashboard : Dashboard) : Option DiscoveryRow :=
  (db.users.get? dashboard.ownerId).map fun owner =>
    { id := dashboard.id
      ownerId := owner.id
      ownerSoeid := owner.soeid
      name := dashboard.name
      state := dashboard.state
      publishedRevision := db.revisionNumber dashboard.publishedRevisionId
      publicationVersion := dashboard.publicationVersion
      updatedAt := dashboard.updatedAt
      latestRevision :=
        if includeLatestRevision then db.revisionNumber dashboard.latestRevisionId else none
      isFavorite := db.isFavorite principalId dashboard }

/-- The order `("-updated_at", "id")` as a key. -/
def Dashboard.updatedKey (dashboard : Dashboard) : Timeᵒᵈ ×ₗ Uuid :=
  toLex (OrderDual.toDual dashboard.updatedAt, dashboard.id)

/-- The dashboards of a search, in its order. -/
def TaggedDb.searchMatches (tables : UnicodeTables) (state : TaggedDb) (principalId : Uuid)
    (search : DiscoverySearch) : List Dashboard :=
  Keyset.ordered Dashboard.updatedKey (state.db.dashboards.where? fun dashboard =>
    state.db.inScope principalId search.scope dashboard &&
      (search.query.isEmpty || state.matchesQuery tables search.query dashboard))

def TaggedDb.searchDashboards (tables : UnicodeTables) (state : TaggedDb) (principalId : Uuid)
    (scope query : Text) : Except Failure (List DiscoveryRow) := do
  let search ← DiscoverySearch.fromInput tables scope query
  .ok ((state.searchMatches tables principalId search).filterMap
    (state.db.discoveryRow principalId (search.scope = .mine)))

/-- A project with the rows that its query loads beside it. -/
structure LoadedProject where
  project : Dashboard
  owner : Option User
  latestRevision : Option Revision
  publishedRevision : Option Revision
  deriving DecidableEq

/-- `visible_project` with its related rows: an owned project comes with its latest revision,
a shared one with its owner. -/
def Db.loadedProject (db : Db) (projectId viewerId : Uuid) : Option (LoadedProject × Bool) :=
  (db.visibleProject projectId viewerId).map fun (project, owned) =>
    ({ project := project
       owner := if owned then none else db.users.get? project.ownerId
       latestRevision :=
         if owned then project.latestRevisionId.bind db.revisions.get? else none
       publishedRevision := project.publishedRevisionId.bind db.revisions.get? }, owned)

/-! ## What a user sees -/

/-- The dashboard is owned and not deleted, or published and actively granted. -/
structure Db.Sees (db : Db) (userId : Uuid) (dashboard : Dashboard) : Prop where
  stored : dashboard ∈ db.dashboards
  basis : (dashboard.ownerId = userId ∧ dashboard.state ≠ .deleted) ∨
    (dashboard.state = .published ∧ db.activeGrantExists dashboard.id userId = true)

/-- Two states agree on the account and the favorites of a user and on the dashboards it sees,
with their owners, revisions and tags and the user's grants on them. -/
structure TaggedDb.AgreeOnSeen (userId : Uuid) (first second : TaggedDb) : Prop where
  account : first.db.users.get? userId = second.db.users.get? userId
  favorites : ∀ favorite : DashboardFavorite, favorite.userId = userId →
    (favorite ∈ first.db.favorites ↔ favorite ∈ second.db.favorites)
  dashboards : ∀ dashboard, first.db.Sees userId dashboard ↔ second.db.Sees userId dashboard
  owners : ∀ dashboard, first.db.Sees userId dashboard →
    first.db.users.get? dashboard.ownerId = second.db.users.get? dashboard.ownerId
  revisions : ∀ dashboard, first.db.Sees userId dashboard → ∀ revisionId : Uuid,
    revisionId ∈ dashboard.latestRevisionId ∨ revisionId ∈ dashboard.publishedRevisionId →
      first.db.revisions.get? revisionId = second.db.revisions.get? revisionId
  tags : ∀ dashboard, first.db.Sees userId dashboard → ∀ tag : DashboardTag,
    tag.dashboardId = dashboard.id → (tag ∈ first.tags ↔ tag ∈ second.tags)
  grants : ∀ dashboard, first.db.Sees userId dashboard → ∀ grant : ViewerGrant,
    grant.dashboardId = dashboard.id → grant.viewerId = userId →
      (grant ∈ first.db.grants ↔ grant ∈ second.db.grants)

section Agreement

variable {tables : UnicodeTables} {first second : TaggedDb} {userId dashboardId : Uuid}
  {dashboard : Dashboard} {scope : DiscoveryScope}

theorem TaggedDb.AgreeOnSeen.symm (hagree : TaggedDb.AgreeOnSeen userId first second) :
    TaggedDb.AgreeOnSeen userId second first where
  account := hagree.account.symm
  favorites favorite huser := (hagree.favorites favorite huser).symm
  dashboards dashboard := (hagree.dashboards dashboard).symm
  owners dashboard hsees := (hagree.owners dashboard ((hagree.dashboards dashboard).mpr hsees)).symm
  revisions dashboard hsees revisionId hrevision :=
    (hagree.revisions dashboard ((hagree.dashboards dashboard).mpr hsees) revisionId
      hrevision).symm
  tags dashboard hsees tag hid :=
    (hagree.tags dashboard ((hagree.dashboards dashboard).mpr hsees) tag hid).symm
  grants dashboard hsees grant hid hviewer :=
    (hagree.grants dashboard ((hagree.dashboards dashboard).mpr hsees) grant hid hviewer).symm

theorem TaggedDb.AgreeOnSeen.active (hagree : TaggedDb.AgreeOnSeen userId first second) :
    first.db.isActiveUser userId = second.db.isActiveUser userId := by
  rw [Db.isActiveUser, Db.isActiveUser, Db.activeUser, Db.activeUser, hagree.account]

theorem TaggedDb.AgreeOnSeen.stored (hagree : TaggedDb.AgreeOnSeen userId first second)
    (hsees : first.db.Sees userId dashboard) : dashboard ∈ second.db.dashboards :=
  ((hagree.dashboards dashboard).mp hsees).stored

theorem TaggedDb.AgreeOnSeen.granted (hagree : TaggedDb.AgreeOnSeen userId first second)
    (hsees : first.db.Sees userId dashboard) :
    first.db.activeGrantExists dashboard.id userId =
      second.db.activeGrantExists dashboard.id userId := by
  unfold Db.activeGrantExists
  rw [Bool.eq_iff_iff, Table.any_eq_true_iff, Table.any_eq_true_iff]
  simp only [decide_eq_true_eq]
  constructor
  · rintro ⟨grant, hgrant, hid, hviewer, hactive, hopen⟩
    refine ⟨grant, (hagree.grants dashboard hsees grant hid hviewer).mp hgrant, hid, hviewer,
      ?_, hopen⟩
    rwa [hviewer, ← hagree.active, ← hviewer]
  · rintro ⟨grant, hgrant, hid, hviewer, hactive, hopen⟩
    refine ⟨grant, (hagree.grants dashboard hsees grant hid hviewer).mpr hgrant, hid, hviewer,
      ?_, hopen⟩
    rwa [hviewer, hagree.active, ← hviewer]

/-! ## Search -/

theorem Db.inScope_shared_iff {db : Db} :
    db.inScope userId .shared dashboard = true ↔
      db.activeGrantExists dashboard.id userId = true ∧ dashboard.state = .published ∧
        dashboard.publishedRevisionId ≠ none := by
  simp only [Db.inScope, Db.activeGrantExists, Table.any_eq_true_iff, decide_eq_true_eq,
    List.mem_map, Table.mem_where?_iff]
  apply and_congr_left
  intro _
  constructor
  · rintro ⟨grant, ⟨hgrant, hactive⟩, hid⟩
    exact ⟨grant, hgrant, hid, hactive⟩
  · rintro ⟨grant, hgrant, hid, hactive⟩
    exact ⟨grant, ⟨hgrant, hactive⟩, hid⟩

/-- Every dashboard of a scope is one that the user sees. -/
theorem Db.sees_of_inScope {db : Db} (hstored : dashboard ∈ db.dashboards)
    (hscope : db.inScope userId scope dashboard = true) : db.Sees userId dashboard := by
  refine ⟨hstored, ?_⟩
  cases scope with
  | mine =>
      simp only [Db.inScope, decide_eq_true_eq] at hscope
      exact .inl ⟨hscope.1, hscope.2.2⟩
  | shared =>
      obtain ⟨hgrant, hpublished, _⟩ := Db.inScope_shared_iff.mp hscope
      exact .inr ⟨hpublished, hgrant⟩

theorem TaggedDb.AgreeOnSeen.inScope (hagree : TaggedDb.AgreeOnSeen userId first second)
    (hsees : first.db.Sees userId dashboard) :
    first.db.inScope userId scope dashboard = second.db.inScope userId scope dashboard := by
  rw [Bool.eq_iff_iff]
  cases scope with
  | mine =>
      simp only [Db.inScope, decide_eq_true_eq]
      apply and_congr_right
      intro howner
      rw [howner, hagree.active]
  | shared => rw [Db.inScope_shared_iff, Db.inScope_shared_iff, hagree.granted hsees]

theorem TaggedDb.AgreeOnSeen.matchesQuery (hagree : TaggedDb.AgreeOnSeen userId first second)
    (hsees : first.db.Sees userId dashboard) (query : Text) :
    first.matchesQuery tables query dashboard = second.matchesQuery tables query dashboard := by
  have htags : ∀ key : Text,
      (first.tags.any fun tag => tag.dashboardId = dashboard.id && key.isPrefixOf tag.key) =
        second.tags.any fun tag => tag.dashboardId = dashboard.id && key.isPrefixOf tag.key := by
    intro key
    rw [Bool.eq_iff_iff, Table.any_eq_true_iff, Table.any_eq_true_iff]
    apply exists_congr
    intro tag
    apply and_congr_left
    intro hmatches
    rw [Bool.and_eq_true, decide_eq_true_eq] at hmatches
    exact hagree.tags dashboard hsees tag hmatches.1
  simp only [TaggedDb.matchesQuery, hagree.owners dashboard hsees, htags]

theorem TaggedDb.searchMatches_subset {search : DiscoverySearch}
    (hagree : TaggedDb.AgreeOnSeen userId first second)
    (hmatch : dashboard ∈ first.db.dashboards.where? fun dashboard =>
      first.db.inScope userId search.scope dashboard &&
        (search.query.isEmpty || first.matchesQuery tables search.query dashboard)) :
    dashboard ∈ second.db.dashboards.where? fun dashboard =>
      second.db.inScope userId search.scope dashboard &&
        (search.query.isEmpty || second.matchesQuery tables search.query dashboard) := by
  rw [Table.mem_where?_iff, Bool.and_eq_true] at hmatch ⊢
  obtain ⟨hstored, hscope, hquery⟩ := hmatch
  have hsees := Db.sees_of_inScope hstored hscope
  rw [← hagree.inScope hsees, ← hagree.matchesQuery hsees]
  exact ⟨hagree.stored hsees, hscope, hquery⟩

theorem TaggedDb.AgreeOnSeen.searchMatches {search : DiscoverySearch}
    (hagree : TaggedDb.AgreeOnSeen userId first second) :
    first.searchMatches tables userId search = second.searchMatches tables userId search := by
  have hkeys : ∀ (table : Table Dashboard) (selected : Dashboard → Bool),
      ((table.where? selected).map Dashboard.updatedKey).Nodup := by
    intro table selected
    apply List.Nodup.of_map (fun key => (ofLex key).2)
    rw [List.map_map]
    exact table.nodupKeys.sublist (List.filter_sublist.map _)
  apply Keyset.ordered_congr (hkeys _ _) (hkeys _ _)
  intro dashboard
  exact ⟨TaggedDb.searchMatches_subset hagree, TaggedDb.searchMatches_subset hagree.symm⟩

theorem TaggedDb.AgreeOnSeen.revisionNumber {revisionId : Option Uuid}
    (hagree : TaggedDb.AgreeOnSeen userId first second)
    (hsees : first.db.Sees userId dashboard)
    (hrevision : revisionId = dashboard.latestRevisionId ∨
      revisionId = dashboard.publishedRevisionId) :
    revisionId.bind first.db.revisions.get? = revisionId.bind second.db.revisions.get? := by
  cases revisionId with
  | none => rfl
  | some id =>
      apply hagree.revisions dashboard hsees id
      exact hrevision.imp Eq.symm Eq.symm

theorem TaggedDb.AgreeOnSeen.isFavorite (hagree : TaggedDb.AgreeOnSeen userId first second) :
    first.db.isFavorite userId dashboard = second.db.isFavorite userId dashboard := by
  have hany : (first.db.favorites.any fun favorite =>
      favorite.dashboardId = dashboard.id ∧ favorite.userId = userId ∧
        first.db.isActiveUser favorite.userId = true) =
      second.db.favorites.any fun favorite =>
        favorite.dashboardId = dashboard.id ∧ favorite.userId = userId ∧
          second.db.isActiveUser favorite.userId = true := by
    rw [Bool.eq_iff_iff, Table.any_eq_true_iff, Table.any_eq_true_iff]
    simp only [decide_eq_true_eq]
    apply exists_congr
    intro favorite
    constructor
    · rintro ⟨hfavorite, hid, huser, hactive⟩
      refine ⟨(hagree.favorites favorite huser).mp hfavorite, hid, huser, ?_⟩
      rwa [huser, ← hagree.active, ← huser]
    · rintro ⟨hfavorite, hid, huser, hactive⟩
      refine ⟨(hagree.favorites favorite huser).mpr hfavorite, hid, huser, ?_⟩
      rwa [huser, hagree.active, ← huser]
  simp only [Db.isFavorite, hany]

theorem TaggedDb.AgreeOnSeen.discoveryRow (hagree : TaggedDb.AgreeOnSeen userId first second)
    (hsees : first.db.Sees userId dashboard) (includeLatestRevision : Bool) :
    first.db.discoveryRow userId includeLatestRevision dashboard =
      second.db.discoveryRow userId includeLatestRevision dashboard := by
  simp only [Db.discoveryRow, Db.revisionNumber, hagree.owners dashboard hsees,
    hagree.revisionNumber hsees (.inl rfl), hagree.revisionNumber hsees (.inr rfl),
    hagree.isFavorite]

theorem TaggedDb.AgreeOnSeen.searchDashboards (hagree : TaggedDb.AgreeOnSeen userId first second)
    (scopeText query : Text) :
    first.searchDashboards tables userId scopeText query =
      second.searchDashboards tables userId scopeText query := by
  unfold TaggedDb.searchDashboards
  cases hsearch : DiscoverySearch.fromInput tables scopeText query with
  | error failure => rfl
  | ok search =>
      simp only [bind, Except.bind, Except.ok.injEq]
      rw [← hagree.searchMatches]
      apply List.filterMap_congr
      intro dashboard hdashboard
      rw [TaggedDb.searchMatches, Keyset.ordered, List.mem_insertionSort, Table.mem_where?_iff,
        Bool.and_eq_true] at hdashboard
      exact hagree.discoveryRow (Db.sees_of_inScope hdashboard.1 hdashboard.2.1) _

/-! ## Single dashboards -/

theorem TaggedDb.AgreeOnSeen.get? (hagree : TaggedDb.AgreeOnSeen userId first second)
    (hsees : first.db.Sees userId dashboard)
    (hget : first.db.dashboards.get? dashboardId = some dashboard) :
    second.db.dashboards.get? dashboardId = some dashboard :=
  Table.get?_eq_some_iff.mpr ⟨hagree.stored hsees, Table.key_of_get? hget⟩

theorem TaggedDb.AgreeOnSeen.activeUser (hagree : TaggedDb.AgreeOnSeen userId first second) :
    first.db.activeUser userId = second.db.activeUser userId := by
  rw [Db.activeUser, Db.activeUser, hagree.account]

theorem TaggedDb.manageableProject_subset (hagree : TaggedDb.AgreeOnSeen userId first second)
    (hfound : first.db.manageableProject dashboardId userId = some dashboard) :
    second.db.manageableProject dashboardId userId = some dashboard := by
  rw [Db.manageableProject_eq_some_iff] at hfound ⊢
  obtain ⟨hget, howner, hactive, hstate⟩ := hfound
  have hsees : first.db.Sees userId dashboard :=
    ⟨Table.mem_of_get? hget, .inl ⟨howner, hstate⟩⟩
  rw [hagree.activeUser] at hactive
  exact ⟨hagree.get? hsees hget, howner, hactive, hstate⟩

theorem Db.activeGrantExists_iff {db : Db} :
    db.activeGrantExists dashboardId userId = true ↔
      (∃ user, db.activeUser userId = some user) ∧
        db.hasActiveViewerGrant dashboardId userId = true :=
  Db.anyActiveGrant_iff

theorem Db.mem_sharedProjects {db : Db} :
    dashboard ∈ db.sharedProjects userId ↔
      dashboard ∈ db.dashboards ∧ db.inScope userId .shared dashboard = true := by
  rw [Db.mem_sharedProjects_iff, Db.inScope_shared_iff, Db.activeGrantExists_iff]
  tauto

theorem TaggedDb.headShared_subset (hagree : TaggedDb.AgreeOnSeen userId first second)
    (hfound : ((first.db.sharedProjects userId).filter fun project =>
      project.id = dashboardId).head? = some dashboard) :
    ((second.db.sharedProjects userId).filter fun project =>
      project.id = dashboardId).head? = some dashboard := by
  rw [Db.headShared_eq_some_iff, Db.mem_sharedProjects] at hfound ⊢
  obtain ⟨hget, hstored, hscope⟩ := hfound
  have hsees := Db.sees_of_inScope hstored hscope
  rw [hagree.inScope hsees] at hscope
  exact ⟨hagree.get? hsees hget, hagree.stored hsees, hscope⟩

theorem TaggedDb.AgreeOnSeen.visibleProject (hagree : TaggedDb.AgreeOnSeen userId first second) :
    first.db.visibleProject dashboardId userId = second.db.visibleProject dashboardId userId := by
  have howned : first.db.manageableProject dashboardId userId =
      second.db.manageableProject dashboardId userId := by
    apply Option.ext
    intro dashboard
    exact ⟨TaggedDb.manageableProject_subset hagree, TaggedDb.manageableProject_subset hagree.symm⟩
  have hshared : ((first.db.sharedProjects userId).filter fun project =>
      project.id = dashboardId).head? = ((second.db.sharedProjects userId).filter fun project =>
        project.id = dashboardId).head? := by
    apply Option.ext
    intro dashboard
    exact ⟨TaggedDb.headShared_subset hagree, TaggedDb.headShared_subset hagree.symm⟩
  rw [Db.visibleProject, Db.visibleProject, howned, hshared]

theorem Db.sees_of_visibleProject {db : Db} {owned : Bool}
    (hvisible : db.visibleProject dashboardId userId = some (dashboard, owned)) :
    db.Sees userId dashboard := by
  unfold Db.visibleProject at hvisible
  cases howned : db.manageableProject dashboardId userId with
  | some found =>
      simp only [howned, Option.some.injEq, Prod.mk.injEq] at hvisible
      obtain ⟨hget, howner, _, hstate⟩ := Db.manageableProject_eq_some_iff.mp howned
      rw [← hvisible.1]
      exact ⟨Table.mem_of_get? hget, .inl ⟨howner, hstate⟩⟩
  | none =>
      simp only [howned, Option.map_eq_some_iff, Prod.mk.injEq] at hvisible
      obtain ⟨found, hfound, rfl, _⟩ := hvisible
      obtain ⟨_, hshared⟩ := Db.headShared_eq_some_iff.mp hfound
      obtain ⟨hstored, hscope⟩ := Db.mem_sharedProjects.mp hshared
      exact Db.sees_of_inScope hstored hscope

theorem TaggedDb.AgreeOnSeen.loadedProject (hagree : TaggedDb.AgreeOnSeen userId first second) :
    first.db.loadedProject dashboardId userId = second.db.loadedProject dashboardId userId := by
  unfold Db.loadedProject
  rw [← hagree.visibleProject]
  cases hvisible : first.db.visibleProject dashboardId userId with
  | none => rfl
  | some found =>
      have hsees := Db.sees_of_visibleProject hvisible
      simp only [Option.map_some, hagree.owners found.1 hsees,
        hagree.revisionNumber hsees (.inl rfl), hagree.revisionNumber hsees (.inr rfl)]

theorem TaggedDb.authorizedPublishedDashboard_subset
    (hagree : TaggedDb.AgreeOnSeen userId first second)
    (hfound : first.db.authorizedPublishedDashboard dashboardId userId = some dashboard) :
    second.db.authorizedPublishedDashboard dashboardId userId = some dashboard := by
  simp only [Db.authorizedPublishedDashboard, Option.filter_eq_some_iff, decide_eq_true_eq,
    Db.publishedAuthorization_iff] at hfound ⊢
  obtain ⟨hget, hpublished, hpinned, hactive, hbasis⟩ := hfound
  have hsees : first.db.Sees userId dashboard := by
    refine ⟨Table.mem_of_get? hget, ?_⟩
    cases hbasis with
    | inl howner =>
        left
        exact ⟨howner, by simp [hpublished]⟩
    | inr hgrant =>
        right
        exact ⟨hpublished, Db.activeGrantExists_iff.mpr ⟨hactive, hgrant⟩⟩
  refine ⟨hagree.get? hsees hget, hpublished, hpinned, by rwa [← hagree.activeUser], ?_⟩
  cases hbasis with
  | inl howner => exact .inl howner
  | inr hgrant =>
      have hexists := Db.activeGrantExists_iff.mpr ⟨hactive, hgrant⟩
      rw [hagree.granted hsees] at hexists
      exact .inr (Db.activeGrantExists_iff.mp hexists).2

end Agreement

/-! ## The discovery queries -/

/-- States that agree on what a user sees give it the same search results, project pages and
published dashboards. -/
theorem discovery_depends_on_seen (tables : UnicodeTables) (userId : Uuid)
    (first second : TaggedDb) (hagree : TaggedDb.AgreeOnSeen userId first second) :
    (∀ scope query, first.searchDashboards tables userId scope query =
        second.searchDashboards tables userId scope query) ∧
      (∀ projectId, first.db.loadedProject projectId userId =
        second.db.loadedProject projectId userId) ∧
      ∀ dashboardId, first.db.authorizedPublishedDashboard dashboardId userId =
        second.db.authorizedPublishedDashboard dashboardId userId := by
  refine ⟨hagree.searchDashboards, fun _ => hagree.loadedProject, fun dashboardId => ?_⟩
  apply Option.ext
  intro dashboard
  exact ⟨TaggedDb.authorizedPublishedDashboard_subset hagree,
    TaggedDb.authorizedPublishedDashboard_subset hagree.symm⟩

/-- A hundred dashboards of another owner change nothing for the second user. -/
theorem others_change_no_discovery :
    (carriersBefore 0).searchDashboards asciiTables 2 "mine".toList "sales".toList =
      (carriersBefore 100).searchDashboards asciiTables 2 "mine".toList "sales".toList := by
  have hsees : ∀ (count : Fin 101) (dashboard : Dashboard),
      (carriersBefore count).db.Sees 2 dashboard ↔ dashboard = carrierDashboard 101 2 := by
    intro count dashboard
    constructor
    · intro hsees
      cases List.mem_cons.mp hsees.stored with
      | inl hlast => exact hlast
      | inr hbefore =>
          obtain ⟨id, _, rfl⟩ := List.mem_map.mp hbefore
          have hbasis := hsees.basis
          simp [carrierDashboard, Db.activeGrantExists, carriersBefore, Db.empty, Table.any]
            at hbasis
    · intro heq
      have hshows := (@carriersBefore_shows count dashboard).mpr heq
      exact ⟨hshows.stored, .inl ⟨by rw [heq]; rfl, by rw [hshows.published]; decide⟩⟩
  exact (discovery_depends_on_seen asciiTables 2 (carriersBefore 0) (carriersBefore 100)
    { account := rfl
      favorites := fun _ _ => Iff.rfl
      dashboards := fun dashboard => (hsees 0 dashboard).trans (hsees 100 dashboard).symm
      owners := fun _ _ => rfl
      revisions := by
        intro dashboard hseen revisionId hrevision
        rw [(hsees 0 dashboard).mp hseen] at hrevision
        have hid : revisionId = 1101 := by
          simpa [carrierDashboard, eq_comm] using hrevision
        rw [hid]
        decide +kernel
      tags := by
        intro dashboard hseen
        exact carriersBefore_agree.tags dashboard
          (carriersBefore_shows.mpr ((hsees 0 dashboard).mp hseen))
      grants := fun _ _ _ _ _ => Iff.rfl }).1 _ _

end Agora
