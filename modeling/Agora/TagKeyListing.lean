import Agora.AuthorizationQueries
import Agora.DashboardTags
import Agora.KeysetEnumeration
import Agora.ServiceRuns

/-!
# Dashboards listed by a tag key

`dashboards_by_tag_key` takes the first hundred dashboards that carry the key and
then keeps the ones its principal may see.  What lies outside this window is cut
before the authorization, so the listing shows the first visible dashboards exactly
when these, as many as the limit asks for, lie inside it.
-/

namespace Agora

/-! ## The query -/

def maxPageLimit : ℤ := 100

def maxAuthorizationCandidates : ℕ := 100

/-- The dashboards that carry a key, in the order of their identifiers, cut to the window. -/
def TaggedDb.candidates (state : TaggedDb) (key : Text) : List Uuid :=
  ((Keyset.ordered DashboardTag.dashboardId (state.tags.where? fun tag => tag.key = key)).map
    DashboardTag.dashboardId).take maxAuthorizationCandidates

/-- `_bounded_limit`. -/
def boundedLimit (limit : ℤ) : Except Failure ℕ :=
  if 1 ≤ limit ∧ limit ≤ maxPageLimit then .ok limit.toNat
  else .error (.value "limit must be between 1 and 100")

def tagKeyOf (tables : UnicodeTables) (tag : Text) : Except Failure Text :=
  match normalizeDashboardTag tables tag with
  | .ok name => .ok name.key
  | .error message => .error (.value message)

def TaggedDb.dashboardsByTagKey (tables : UnicodeTables) (state : TaggedDb)
    (principalId : Uuid) (tag : Text) (limit : ℤ) : Except Failure (List Dashboard) := do
  let bounded ← boundedLimit limit
  let key ← tagKeyOf tables tag
  .ok ((Keyset.ordered Dashboard.id (state.db.dashboards.where? fun dashboard =>
    dashboard.id ∈ state.candidates key ∧ dashboard.state = .published ∧
      dashboard.publishedRevisionId ≠ none ∧
        state.db.publishedAuthorization principalId dashboard = true)).take bounded)

/-! ## What a principal may see -/

/-- The principal sees the dashboard as published. -/
structure TaggedDb.Shows (state : TaggedDb) (principalId : Uuid) (dashboard : Dashboard) :
    Prop where
  stored : dashboard ∈ state.db.dashboards
  published : dashboard.state = .published
  pinned : dashboard.publishedRevisionId ≠ none
  authorized : state.db.publishedAuthorization principalId dashboard = true

/-- Two states agree on what the principal sees, with its tags, owners and grants. -/
structure TaggedDb.AgreeFor (principalId : Uuid) (first second : TaggedDb) : Prop where
  dashboards : ∀ dashboard, first.Shows principalId dashboard ↔ second.Shows principalId dashboard
  tags : ∀ dashboard, first.Shows principalId dashboard → ∀ tag : DashboardTag,
    tag.dashboardId = dashboard.id → (tag ∈ first.tags ↔ tag ∈ second.tags)
  owners : ∀ dashboard, first.Shows principalId dashboard →
    first.db.users.get? dashboard.ownerId = second.db.users.get? dashboard.ownerId
  grants : ∀ dashboard, first.Shows principalId dashboard → ∀ grant : ViewerGrant,
    grant.dashboardId = dashboard.id → (grant ∈ first.db.grants ↔ grant ∈ second.db.grants)

def TaggedDb.Carries (state : TaggedDb) (key : Text) (dashboard : Dashboard) : Prop :=
  ∃ tag ∈ state.tags.rows, tag.key = key ∧ tag.dashboardId = dashboard.id

instance (state : TaggedDb) (key : Text) (dashboard : Dashboard) :
    Decidable (state.Carries key dashboard) :=
  inferInstanceAs (Decidable (∃ tag ∈ state.tags.rows, _))

/-- The visible dashboards that carry a key, in the order of their identifiers. -/
def TaggedDb.visibleCarriers (state : TaggedDb) (principalId : Uuid) (key : Text) :
    List Dashboard :=
  Keyset.ordered Dashboard.id (state.db.dashboards.where? fun dashboard =>
    state.Carries key dashboard ∧ dashboard.state = .published ∧
      dashboard.publishedRevisionId ≠ none ∧
        state.db.publishedAuthorization principalId dashboard = true)

/-- The visible dashboards that a page of this length shows lie inside the window. -/
def TaggedDb.WithinWindow (state : TaggedDb) (principalId : Uuid) (key : Text) (bounded : ℕ) :
    Prop :=
  ∀ dashboard ∈ (state.visibleCarriers principalId key).take bounded,
    dashboard.id ∈ state.candidates key

section Listings

variable {tables : UnicodeTables} {state first second : TaggedDb} {principalId : Uuid}
  {tag key : Text} {limit : ℤ} {dashboard : Dashboard}

theorem TaggedDb.carries_of_candidate (hcandidate : dashboard.id ∈ state.candidates key) :
    state.Carries key dashboard := by
  obtain ⟨tag, htag, hid⟩ := List.mem_map.mp (List.mem_of_mem_take hcandidate)
  rw [Keyset.ordered, List.mem_insertionSort, Table.mem_where?_iff, decide_eq_true_eq] at htag
  exact ⟨tag, htag.1, htag.2, hid⟩

/-- With no more carriers than the window holds, all of them lie inside it. -/
theorem TaggedDb.withinWindow_of_few
    (hfew : (state.tags.where? fun tag => tag.key = key).length ≤ maxAuthorizationCandidates)
    (bounded : ℕ) : state.WithinWindow principalId key bounded := by
  intro dashboard hshown
  have hvisible := List.mem_of_mem_take hshown
  rw [TaggedDb.visibleCarriers, Keyset.ordered, List.mem_insertionSort, Table.mem_where?_iff,
    decide_eq_true_eq] at hvisible
  obtain ⟨-, ⟨tag, htag, hkey, hid⟩, -⟩ := hvisible
  unfold TaggedDb.candidates
  rw [List.take_of_length_le]
  · rw [← hid]
    apply List.mem_map_of_mem
    rw [Keyset.ordered, List.mem_insertionSort, Table.mem_where?_iff, decide_eq_true_eq]
    exact ⟨htag, hkey⟩
  · rwa [List.length_map, Keyset.ordered, List.length_insertionSort]

theorem TaggedDb.mem_visibleRows {selected : Dashboard → Prop} [DecidablePred selected] :
    dashboard ∈ (state.db.dashboards.where? fun dashboard =>
        selected dashboard ∧ dashboard.state = .published ∧
          dashboard.publishedRevisionId ≠ none ∧
            state.db.publishedAuthorization principalId dashboard = true) ↔
      selected dashboard ∧ state.Shows principalId dashboard := by
  rw [Table.mem_where?_iff, decide_eq_true_eq]
  constructor
  · rintro ⟨hstored, hselected, hpublished, hpinned, hauthorized⟩
    exact ⟨hselected, hstored, hpublished, hpinned, hauthorized⟩
  · rintro ⟨hselected, hshows⟩
    exact ⟨hshows.stored, hselected, hshows.published, hshows.pinned, hshows.authorized⟩

theorem TaggedDb.enumerates_where? {selected : Dashboard → Bool} :
    Keyset.Enumerates Dashboard.id (state.db.dashboards.where? selected)
      (Keyset.ordered Dashboard.id (state.db.dashboards.where? selected)) := by
  apply Keyset.enumerates_ordered
  exact state.db.dashboards.nodupKeys.sublist (List.filter_sublist.map _)

/-- Rows of two states with the same members are listed in the same order. -/
theorem TaggedDb.ordered_congr {chosen other : Dashboard → Bool}
    (hsame : ∀ dashboard, dashboard ∈ first.db.dashboards.where? chosen ↔
      dashboard ∈ second.db.dashboards.where? other) :
    Keyset.ordered Dashboard.id (first.db.dashboards.where? chosen) =
      Keyset.ordered Dashboard.id (second.db.dashboards.where? other) := by
  have hfirst := @TaggedDb.enumerates_where? first chosen
  have hsecond := @TaggedDb.enumerates_where? second other
  have hperm : (first.db.dashboards.where? chosen).Perm (second.db.dashboards.where? other) := by
    rw [List.perm_ext_iff_of_nodup]
    · exact hsame
    · exact first.db.dashboards.nodup_rows.filter _
    · exact second.db.dashboards.nodup_rows.filter _
  exact Keyset.Enumerates.unique ⟨hfirst.perm.trans hperm, hfirst.ascending⟩ hsecond

theorem TaggedDb.AgreeFor.carries (hagree : TaggedDb.AgreeFor principalId first second)
    (hshows : first.Shows principalId dashboard) :
    first.Carries key dashboard ↔ second.Carries key dashboard := by
  constructor
  · rintro ⟨tag, htag, hkey, hid⟩
    exact ⟨tag, (hagree.tags dashboard hshows tag hid).mp htag, hkey, hid⟩
  · rintro ⟨tag, htag, hkey, hid⟩
    exact ⟨tag, (hagree.tags dashboard hshows tag hid).mpr htag, hkey, hid⟩

theorem TaggedDb.AgreeFor.visibleCarriers (hagree : TaggedDb.AgreeFor principalId first second) :
    first.visibleCarriers principalId key = second.visibleCarriers principalId key := by
  apply TaggedDb.ordered_congr
  intro dashboard
  rw [TaggedDb.mem_visibleRows, TaggedDb.mem_visibleRows, ← hagree.dashboards dashboard]
  apply and_congr_left
  intro hshows
  exact hagree.carries hshows

/-- The rows of the listing are the visible carriers inside the window. -/
theorem TaggedDb.ordered_candidates :
    Keyset.ordered Dashboard.id (state.db.dashboards.where? fun dashboard =>
        dashboard.id ∈ state.candidates key ∧ dashboard.state = .published ∧
          dashboard.publishedRevisionId ≠ none ∧
            state.db.publishedAuthorization principalId dashboard = true) =
      (state.visibleCarriers principalId key).filter fun dashboard =>
        dashboard.id ∈ state.candidates key := by
  have hrows := @TaggedDb.enumerates_where? state fun dashboard =>
    dashboard.id ∈ state.candidates key ∧ dashboard.state = .published ∧
      dashboard.publishedRevisionId ≠ none ∧
        state.db.publishedAuthorization principalId dashboard = true
  have hvisible := @TaggedDb.enumerates_where? state fun dashboard =>
    state.Carries key dashboard ∧ dashboard.state = .published ∧
      dashboard.publishedRevisionId ≠ none ∧
        state.db.publishedAuthorization principalId dashboard = true
  apply Keyset.Enumerates.unique hrows
  refine ⟨?_, hvisible.ascending.sublist List.filter_sublist⟩
  rw [List.perm_ext_iff_of_nodup]
  · intro dashboard
    rw [List.mem_filter, decide_eq_true_eq, TaggedDb.visibleCarriers, Keyset.ordered,
      List.mem_insertionSort, TaggedDb.mem_visibleRows, TaggedDb.mem_visibleRows]
    constructor
    · rintro ⟨⟨-, hshows⟩, hcandidate⟩
      exact ⟨hcandidate, hshows⟩
    · rintro ⟨hcandidate, hshows⟩
      exact ⟨⟨TaggedDb.carries_of_candidate hcandidate, hshows⟩, hcandidate⟩
  · exact ((hvisible.perm.nodup_iff).mpr (state.db.dashboards.nodup_rows.filter _)).filter _
  · exact state.db.dashboards.nodup_rows.filter _

/-- A state lists the first visible carriers exactly when they lie inside the window. -/
theorem TaggedDb.dashboardsByTagKey_eq_iff {bounded : ℕ}
    (hlimit : boundedLimit limit = .ok bounded) (hkey : tagKeyOf tables tag = .ok key) :
    state.dashboardsByTagKey tables principalId tag limit =
        .ok ((state.visibleCarriers principalId key).take bounded) ↔
      state.WithinWindow principalId key bounded := by
  simp only [TaggedDb.dashboardsByTagKey, hlimit, hkey, bind, Except.bind, Except.ok.injEq]
  rw [TaggedDb.ordered_candidates, Keyset.take_filter_eq_iff]
  simp only [decide_eq_true_eq, TaggedDb.WithinWindow]

end Listings

/-- Where the visible carriers that the page shows lie inside the window, the listing depends
on what the principal may see only: it is the first of them in the order of their
identifiers. -/
theorem tag_key_listing {tables : UnicodeTables} {first second : TaggedDb} {principalId : Uuid}
    {tag : Text} {limit : ℤ} (hagree : TaggedDb.AgreeFor principalId first second)
    (hfirst : ∀ bounded key, boundedLimit limit = .ok bounded → tagKeyOf tables tag = .ok key →
      first.WithinWindow principalId key bounded)
    (hsecond : ∀ bounded key, boundedLimit limit = .ok bounded → tagKeyOf tables tag = .ok key →
      second.WithinWindow principalId key bounded) :
    first.dashboardsByTagKey tables principalId tag limit =
        second.dashboardsByTagKey tables principalId tag limit ∧
      ∀ bounded key, boundedLimit limit = .ok bounded → tagKeyOf tables tag = .ok key →
        first.dashboardsByTagKey tables principalId tag limit =
          .ok ((first.visibleCarriers principalId key).take bounded) := by
  have hlists : ∀ bounded key, boundedLimit limit = .ok bounded →
      tagKeyOf tables tag = .ok key →
        first.dashboardsByTagKey tables principalId tag limit =
          .ok ((first.visibleCarriers principalId key).take bounded) :=
    fun bounded key hlimit hkey =>
      (TaggedDb.dashboardsByTagKey_eq_iff hlimit hkey).mpr (hfirst bounded key hlimit hkey)
  refine ⟨?_, hlists⟩
  cases hlimit : boundedLimit limit with
  | error failure => simp [TaggedDb.dashboardsByTagKey, hlimit, bind, Except.bind]
  | ok bounded =>
      cases hkey : tagKeyOf tables tag with
      | error failure => simp [TaggedDb.dashboardsByTagKey, hlimit, hkey, bind, Except.bind]
      | ok key =>
          rw [hlists bounded key hlimit hkey, hagree.visibleCarriers]
          exact ((TaggedDb.dashboardsByTagKey_eq_iff hlimit hkey).mpr
            (hsecond bounded key hlimit hkey)).symm

/-! ## Carriers outside the window -/

def carrierUser (id : Uuid) : User where
  id := id
  soeid := "AA".toList ++ Nat.toDigits 10 id
  password := samplePassword
  isActive := true
  isAdministrator := false
  authVersion := 1
  createdAt := 0
  updatedAt := 0

/-- A published dashboard. -/
def carrierDashboard (id ownerId : Uuid) : Dashboard where
  id := id
  ownerId := ownerId
  name := "Sales".toList
  description := []
  state := .published
  latestRevisionId := some (1000 + id)
  publishedRevisionId := some (1000 + id)
  firstPublishedAt := some 0
  publicationVersion := 1
  lastPublishedAt := some 0
  publicationNote := []
  dataAsOf := none
  freshnessIntervalSeconds := none
  freshnessConfirmedAt := none
  staleAfter := none
  lastOwnershipTransferId := none
  createdAt := 0
  updatedAt := 0

def carrierRevision (dashboardId ownerId : Uuid) : Revision where
  id := 1000 + dashboardId
  dashboardId := dashboardId
  number := 1
  createdById := ownerId
  createdAt := 0
  artifactsLocked := true

def carrierTag (dashboardId : Uuid) : DashboardTag where
  id := dashboardId
  dashboardId := dashboardId
  label := "sales".toList
  key := "sales".toList
  slot := 1
  createdAt := 0

theorem nodup_carriers {ρ : Type} [Keyed ρ ℕ] {row : ℕ → ρ} {last : ρ} (offset : ℕ)
    (count : Fin 101) (hrow : ∀ id, Keyed.key (row id) = offset + id)
    (hlast : Keyed.key last = offset + 101) :
    ((last :: (List.range count).map row).map Keyed.key).Nodup := by
  have hkeys : ((List.range count).map row).map Keyed.key =
      (List.range count).map fun id => offset + id := by
    rw [List.map_map]
    exact List.map_congr_left fun id _ => hrow id
  rw [List.map_cons, hkeys, hlast, List.nodup_cons]
  constructor
  · intro hmem
    obtain ⟨id, hid, hsame⟩ := List.mem_map.mp hmem
    have hsmall := List.mem_range.mp hid
    have hcount := count.isLt
    omega
  · exact List.nodup_range.map fun first second hsame => by simpa using hsame

/-- Some dashboards of the first user with the tag, and after them one of the second user. -/
def carriersBefore (count : Fin 101) : TaggedDb where
  db := { Db.empty with
    users := ⟨[carrierUser 1, carrierUser 2], by decide⟩
    dashboards := ⟨carrierDashboard 101 2 :: (List.range count).map (carrierDashboard · 1),
      nodup_carriers 0 count (fun id => (Nat.zero_add id).symm) rfl⟩
    revisions := ⟨carrierRevision 101 2 :: (List.range count).map (carrierRevision · 1),
      nodup_carriers 1000 count (fun _ => rfl) rfl⟩ }
  tags := ⟨carrierTag 101 :: (List.range count).map carrierTag,
    nodup_carriers 0 count (fun id => (Nat.zero_add id).symm) rfl⟩
  replacements := []
  nextTagId := 102

/-- The second user sees the last dashboard only. -/
theorem carriersBefore_shows {count : Fin 101} {dashboard : Dashboard} :
    (carriersBefore count).Shows 2 dashboard ↔ dashboard = carrierDashboard 101 2 := by
  constructor
  · intro hshows
    obtain hlast | hbefore := List.mem_cons.mp hshows.stored
    · exact hlast
    · obtain ⟨id, -, rfl⟩ := List.mem_map.mp hbefore
      have hauthorized := hshows.authorized
      simp [Db.publishedAuthorization, carrierDashboard, carriersBefore, Db.empty, Table.any]
        at hauthorized
  · rintro rfl
    exact ⟨List.mem_cons_self, rfl, Option.some_ne_none _, rfl⟩

theorem carriersBefore_tag {count : Fin 101} {tag : DashboardTag} (hlast : tag.dashboardId = 101) :
    tag ∈ (carriersBefore count).tags ↔ tag = carrierTag 101 := by
  constructor
  · intro hmem
    obtain hhead | hbefore := List.mem_cons.mp hmem
    · exact hhead
    · obtain ⟨id, hid, rfl⟩ := List.mem_map.mp hbefore
      have hsmall := List.mem_range.mp hid
      have hsame : id = 101 := hlast
      rw [hsame] at hsmall
      exact absurd (hsmall.trans count.isLt) (lt_irrefl _)
  · rintro rfl
    exact List.mem_cons_self

theorem carriersBefore_agree {first second : Fin 101} :
    TaggedDb.AgreeFor 2 (carriersBefore first) (carriersBefore second) where
  dashboards dashboard := carriersBefore_shows.trans carriersBefore_shows.symm
  tags dashboard hshows tag hid := by
    rw [carriersBefore_shows] at hshows
    have hlast : tag.dashboardId = 101 := hid.trans (congrArg Dashboard.id hshows)
    rw [carriersBefore_tag hlast, carriersBefore_tag hlast]
  owners _ _ := rfl
  grants _ _ _ _ := Iff.rfl

/-- A hundred dashboards that the second user may not see hide the one that it may see. -/
theorem invisible_carriers_hide_dashboard :
    TaggedDb.AgreeFor 2 (carriersBefore 0) (carriersBefore 100) ∧
      (carriersBefore 0).dashboardsByTagKey asciiTables 2 "sales".toList 25 =
        .ok [carrierDashboard 101 2] ∧
      (carriersBefore 100).dashboardsByTagKey asciiTables 2 "sales".toList 25 = .ok [] :=
  ⟨carriersBefore_agree, by decide +kernel, by decide +kernel⟩

/-- Three of them do not. -/
theorem few_invisible_carriers_hide_nothing :
    (carriersBefore 3).dashboardsByTagKey asciiTables 2 "sales".toList 25 =
      (carriersBefore 0).dashboardsByTagKey asciiTables 2 "sales".toList 25 := by
  have hkeyed : ∀ key, tagKeyOf asciiTables "sales".toList = .ok key → key = "sales".toList := by
    intro key hkey
    have hcomputed : tagKeyOf asciiTables "sales".toList = .ok "sales".toList := by
      decide +kernel
    rw [hcomputed] at hkey
    exact (Except.ok.inj hkey).symm
  refine (tag_key_listing carriersBefore_agree (fun bounded key _ hkey => ?_)
    (fun bounded key _ hkey => ?_)).1
  · rw [hkeyed key hkey]
    exact TaggedDb.withinWindow_of_few (by decide +kernel) bounded
  · rw [hkeyed key hkey]
    exact TaggedDb.withinWindow_of_few (by decide +kernel) bounded

end Agora
