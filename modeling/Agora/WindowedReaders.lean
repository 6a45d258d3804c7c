import Agora.TagKeyListing
import Agora.WindowedEnumeration

/-!
# The windowed readers of a user's dashboards

`recent_favorite_dashboards`, `recently_viewed_dashboards` and `stale_owned_dashboards`
take a window of candidates behind a cursor and then keep the ones that qualify.  A caller
goes on from the last dashboard it was shown, so a window without a qualifying candidate
ends the enumeration.
-/

namespace Agora

/-! ## The queries -/

structure DescendingTimeCursor where
  timestamp : Time
  rowId : ℕ

structure AscendingTimeCursor where
  timestamp : Time
  rowId : Uuid

/-- `_active_grant_exists`. -/
def Db.activeGrantExists (db : Db) (dashboardId viewerId : Uuid) : Bool :=
  db.grants.any fun grant =>
    grant.dashboardId = dashboardId ∧ grant.viewerId = viewerId ∧
      db.isActiveUser grant.viewerId = true ∧ grant.revokedAt = none

/-- The columns of a table with one row for a user and a dashboard. -/
structure MarkColumns (ρ : Type) where
  id : ρ → ℕ
  userId : ρ → Uuid
  dashboardId : ρ → Uuid
  time : ρ → Time

def favoriteColumns : MarkColumns DashboardFavorite where
  id := DashboardFavorite.id
  userId := DashboardFavorite.userId
  dashboardId := DashboardFavorite.dashboardId
  time := DashboardFavorite.createdAt

def viewerStateColumns : MarkColumns DashboardViewerState where
  id := DashboardViewerState.id
  userId := DashboardViewerState.userId
  dashboardId := DashboardViewerState.dashboardId
  time := DashboardViewerState.lastViewedAt

section Marks

variable {ρ : Type} (columns : MarkColumns ρ)

/-- The descending order of the time and then of the identifier. -/
def MarkColumns.key (mark : ρ) : (Time ×ₗ ℕ)ᵒᵈ :=
  OrderDual.toDual (toLex (columns.time mark, columns.id mark))

/-- The marks of a user. -/
def MarkColumns.marksOf (userId : Uuid) (marks : List ρ) : List ρ :=
  marks.filter fun mark => columns.userId mark = userId

/-- The identifiers of the candidate dashboards behind a cursor. -/
def MarkColumns.candidates (userId : Uuid) (before : Option DescendingTimeCursor)
    (marks : List ρ) : List Uuid :=
  ((Keyset.ordered columns.key ((columns.marksOf userId marks).filter fun mark =>
    match before with
    | none => true
    | some cursor => columns.time mark < cursor.timestamp ∨
        (columns.time mark = cursor.timestamp ∧ columns.id mark < cursor.rowId))).take
    maxAuthorizationCandidates).map columns.dashboardId

/-- The candidate dashboards that qualify, each with the mark of the user it is joined with,
in the descending order of the marks. -/
def MarkColumns.markedDashboards (db : Db) (marks : List ρ) (userId : Uuid)
    (before : Option DescendingTimeCursor) (qualifies : Dashboard → Bool) (bounded : ℕ) :
    List (Dashboard × ρ) :=
  (Keyset.ordered (fun row => columns.key row.2) (db.dashboards.rows.flatMap fun dashboard =>
    (marks.filter fun mark =>
      columns.dashboardId mark = dashboard.id ∧
        dashboard.id ∈ columns.candidates userId before marks ∧
          columns.userId mark = userId ∧ db.isActiveUser (columns.userId mark) = true ∧
            qualifies dashboard = true).map (Prod.mk dashboard))).take bounded

/-- The boundary that the mark of the last dashboard gives. -/
def MarkColumns.boundary (row : Dashboard × ρ) : DescendingTimeCursor :=
  ⟨columns.time row.2, columns.id row.2⟩

end Marks

def Db.favoriteQualifies (db : Db) (userId : Uuid) (dashboard : Dashboard) : Bool :=
  dashboard.state ≠ .deleted ∧
    (dashboard.ownerId = userId ∨
      (db.activeGrantExists dashboard.id userId = true ∧ dashboard.state = .published ∧
        dashboard.publishedRevisionId ≠ none))

def Db.recentFavoriteDashboards (db : Db) (userId : Uuid) (limit : ℤ)
    (before : Option DescendingTimeCursor) :
    Except Failure (List (Dashboard × DashboardFavorite)) := do
  let bounded ← boundedLimit limit
  .ok (favoriteColumns.markedDashboards db db.favorites.rows userId before
    (db.favoriteQualifies userId) bounded)

def Db.viewedQualifies (db : Db) (userId : Uuid) (dashboard : Dashboard) : Bool :=
  dashboard.state = .published ∧ dashboard.publishedRevisionId ≠ none ∧
    (dashboard.ownerId = userId ∨ db.activeGrantExists dashboard.id userId = true)

def hasNewPublication (row : Dashboard × DashboardViewerState) : Bool :=
  row.2.seenPublicationVersion < row.1.publicationVersion

/-- Each dashboard with the viewer state it is joined with and its `has_new_publication`. -/
def Db.recentlyViewedDashboards (db : Db) (userId : Uuid) (limit : ℤ)
    (before : Option DescendingTimeCursor) :
    Except Failure (List ((Dashboard × DashboardViewerState) × Bool)) := do
  let bounded ← boundedLimit limit
  .ok ((viewerStateColumns.markedDashboards db db.viewerStates.rows userId before
    (db.viewedQualifies userId) bounded).map fun row => (row, hasNewPublication row))

/-- The order `("stale_after", "id")` of dashboards that have a `stale_after`. -/
def Dashboard.staleKey (dashboard : Dashboard) : Time ×ₗ Uuid :=
  toLex (dashboard.staleAfter.getD 0, dashboard.id)

def Dashboard.StaleOf (ownerId : Uuid) (asOf : Time) (dashboard : Dashboard) : Bool :=
  dashboard.ownerId = ownerId ∧ dashboard.staleAfter.any (· ≤ asOf) = true

def Db.staleCandidates (db : Db) (ownerId : Uuid) (asOf : Time)
    (after : Option AscendingTimeCursor) : List Uuid :=
  ((Keyset.ordered Dashboard.staleKey
    ((db.dashboards.where? (Dashboard.StaleOf ownerId asOf)).filter fun dashboard =>
      match after with
      | none => true
      | some cursor => dashboard.staleAfter.any (cursor.timestamp < ·) = true ∨
          (dashboard.staleAfter = some cursor.timestamp ∧ cursor.rowId < dashboard.id))).take
    maxAuthorizationCandidates).map Dashboard.id

def Db.staleQualifies (db : Db) (dashboard : Dashboard) : Bool :=
  db.isActiveUser dashboard.ownerId = true ∧ dashboard.state = .published

def Db.staleOwnedDashboards (db : Db) (ownerId : Uuid) (asOf : Time) (limit : ℤ)
    (after : Option AscendingTimeCursor) : Except Failure (List Dashboard) := do
  let bounded ← boundedLimit limit
  .ok ((Keyset.ordered Dashboard.staleKey (db.dashboards.where? fun dashboard =>
    dashboard.id ∈ db.staleCandidates ownerId asOf after ∧ dashboard.ownerId = ownerId ∧
      db.staleQualifies dashboard = true)).take bounded)

/-- The boundary that a stale dashboard gives. -/
def Dashboard.staleBoundary (dashboard : Dashboard) : AscendingTimeCursor :=
  ⟨dashboard.staleAfter.getD 0, dashboard.id⟩

theorem maxAuthorizationCandidates_pos : 0 < maxAuthorizationCandidates := by decide

/-! ## Readers of marks -/

/-- The constraints of a table of marks: its primary key and one row for a user and a
dashboard. -/
structure MarkColumns.Constraints {ρ : Type} (columns : MarkColumns ρ) (marks : List ρ) :
    Prop where
  ids : (marks.map columns.id).Nodup
  pairs : ∀ first ∈ marks, ∀ second ∈ marks, columns.userId first = columns.userId second →
    columns.dashboardId first = columns.dashboardId second → first = second

def DescendingTimeCursor.position (cursor : DescendingTimeCursor) : (Time ×ₗ ℕ)ᵒᵈ :=
  OrderDual.toDual (toLex (cursor.timestamp, cursor.rowId))

section MarkReaders

variable {ρ : Type} {columns : MarkColumns ρ} {db : Db} {marks : List ρ} {userId : Uuid}
  {before : Option DescendingTimeCursor} {qualifies : Dashboard → Bool} {bounded : ℕ}

/-- The qualifying dashboard of a mark. -/
def MarkColumns.shown (columns : MarkColumns ρ) (db : Db) (userId : Uuid)
    (qualifies : Dashboard → Bool) (mark : ρ) : Option (Dashboard × ρ) :=
  ((db.dashboards.get? (columns.dashboardId mark)).filter fun dashboard =>
    db.isActiveUser userId = true ∧ qualifies dashboard = true).map fun dashboard =>
      (dashboard, mark)

theorem MarkColumns.shown_eq_some {mark : ρ} {row : Dashboard × ρ} :
    columns.shown db userId qualifies mark = some row ↔
      row.2 = mark ∧ row.1 ∈ db.dashboards ∧ row.1.id = columns.dashboardId mark ∧
        db.isActiveUser userId = true ∧ qualifies row.1 = true := by
  simp only [MarkColumns.shown, Option.map_eq_some_iff, Option.filter_eq_some_iff,
    Table.get?_eq_some_iff, decide_eq_true_eq]
  constructor
  · rintro ⟨dashboard, ⟨⟨hstored, hid⟩, hqualifies⟩, rfl⟩
    exact ⟨rfl, hstored, hid, hqualifies⟩
  · rintro ⟨hmark, hstored, hid, hqualifies⟩
    exact ⟨row.1, ⟨⟨hstored, hid⟩, hqualifies⟩, by rw [← hmark]⟩

theorem MarkColumns.enumerates_marksOf (hmarks : columns.Constraints marks) :
    Keyset.Enumerates columns.key (columns.marksOf userId marks)
      (Keyset.ordered columns.key (columns.marksOf userId marks)) := by
  apply Keyset.enumerates_ordered
  have hnodup : ((columns.marksOf userId marks).map columns.id).Nodup :=
    hmarks.ids.sublist (List.filter_sublist.map _)
  apply List.Nodup.of_map (fun key => (ofLex (OrderDual.ofDual key)).2)
  rw [List.map_map]
  exact hnodup

theorem MarkColumns.candidates_eq :
    columns.candidates userId before marks =
      ((Keyset.ordered columns.key (Keyset.selected columns.key
        ((before.map DescendingTimeCursor.position).map (Prod.mk .next))
        (columns.marksOf userId marks))).take maxAuthorizationCandidates).map
        columns.dashboardId := by
  unfold MarkColumns.candidates Keyset.selected
  congr 3
  apply List.filter_congr
  intro mark hmark
  cases before with
  | none => rfl
  | some cursor =>
      simp only [Option.map_some, MarkColumns.key, DescendingTimeCursor.position,
        OrderDual.toDual_lt_toDual, Prod.Lex.toLex_lt_toLex]

theorem MarkColumns.markedDashboards_eq (hmarks : columns.Constraints marks) :
    columns.markedDashboards db marks userId before qualifies bounded =
      Keyset.windowed columns.key maxAuthorizationCandidates bounded
        (columns.shown db userId qualifies) (before.map DescendingTimeCursor.position)
        (columns.marksOf userId marks) := by
  unfold MarkColumns.markedDashboards Keyset.windowed
  rw [MarkColumns.candidates_eq]
  set window := (Keyset.ordered columns.key (Keyset.selected columns.key
    ((before.map DescendingTimeCursor.position).map (Prod.mk .next))
    (columns.marksOf userId marks))).take maxAuthorizationCandidates with hwindow
  have hascending : window.Pairwise fun first second => columns.key first < columns.key second := by
    have hlisted := @MarkColumns.enumerates_marksOf _ _ _ userId hmarks
    rw [hwindow, hlisted.ordered_selected]
    exact (hlisted.selected_ascending _).sublist (List.take_sublist _ _)
  have hmember : ∀ mark ∈ window, mark ∈ marks ∧ columns.userId mark = userId := by
    intro mark hmark
    have hordered := List.mem_of_mem_take hmark
    rw [Keyset.ordered, List.mem_insertionSort] at hordered
    simpa [MarkColumns.marksOf] using List.mem_of_mem_filter hordered
  congr 1
  apply Keyset.Enumerates.ordered_eq
  have hshown : (window.filterMap (columns.shown db userId qualifies)).Pairwise
      fun first second => columns.key first.2 < columns.key second.2 := by
    rw [List.pairwise_filterMap]
    apply hascending.imp
    intro first second hless row hrow other hother
    rw [(MarkColumns.shown_eq_some.mp hrow).1, (MarkColumns.shown_eq_some.mp hother).1]
    exact hless
  refine ⟨?_, hshown⟩
  rw [List.perm_ext_iff_of_nodup]
  · rintro ⟨dashboard, mark⟩
    simp only [List.mem_filterMap, MarkColumns.shown_eq_some, List.mem_flatMap, List.mem_map,
      List.mem_filter, decide_eq_true_eq, Prod.mk.injEq]
    constructor
    · rintro ⟨found, hfound, rfl, hstored, hid, hactive, hqualifies⟩
      obtain ⟨hmark, huser⟩ := hmember _ hfound
      exact ⟨dashboard, hstored, mark, ⟨hmark, hid.symm, ⟨mark, hfound, hid.symm⟩, huser,
        by rwa [huser], hqualifies⟩, rfl, rfl⟩
    · rintro ⟨found, hstored, chosen, ⟨hmark, hid, ⟨other, hother, hsame⟩, huser, hactive,
        hqualifies⟩, rfl, rfl⟩
      obtain ⟨hotherMark, hotherUser⟩ := hmember _ hother
      have heq := hmarks.pairs other hotherMark chosen hmark (hotherUser.trans huser.symm)
        (hsame.trans hid.symm)
      rw [heq] at hother
      exact ⟨chosen, hother, rfl, hstored, hid.symm, by rwa [huser] at hactive, hqualifies⟩
  · exact hshown.imp fun hless heq => absurd (congrArg (fun row => columns.key row.2) heq)
      (ne_of_lt hless)
  · have hnodup : marks.Nodup := hmarks.ids.of_map
    rw [List.nodup_flatMap]
    constructor
    · intro dashboard hdashboard
      exact (hnodup.filter _).map fun first second heq => (Prod.mk.inj heq).2
    · have hdashboards : db.dashboards.rows.Nodup := db.dashboards.nodupKeys.of_map
      apply hdashboards.imp
      intro first second hdifferent row hfirst hsecond
      obtain ⟨_, _, rfl⟩ := List.mem_map.mp hfirst
      obtain ⟨_, _, heq⟩ := List.mem_map.mp hsecond
      exact hdifferent (Prod.mk.inj heq).1.symm

/-- What the enumeration of a reader of marks yields. -/
theorem MarkColumns.listing_iff {σ : Type} {reader : Option DescendingTimeCursor →
      Except Failure (List σ)} {item : Dashboard × ρ → σ} {cursor : σ → DescendingTimeCursor}
    (hmarks : columns.Constraints marks) (hbounded : 0 < bounded)
    (hcursor : ∀ row, cursor (item row) = MarkColumns.boundary columns row)
    (hreader : ∀ before, reader before =
      .ok ((columns.markedDashboards db marks userId before qualifies bounded).map item))
    (yielded : List σ) :
    Keyset.Listing reader cursor none yielded ↔
      yielded = Keyset.shownBeforeGap maxAuthorizationCandidates
        (fun mark => (columns.shown db userId qualifies mark).map item) 0
        (Keyset.ordered columns.key (columns.marksOf userId marks)) := by
  apply Keyset.listing_iff (@MarkColumns.enumerates_marksOf _ _ _ userId hmarks).keys_nodup
    _ _ maxAuthorizationCandidates_pos hbounded
  · exact DescendingTimeCursor.position
  · intro before
    rw [hreader, MarkColumns.markedDashboards_eq hmarks]
    simp only [Keyset.windowed, List.map_take, List.map_filterMap]
  · intro mark found hfound
    obtain ⟨row, hrow, rfl⟩ := Option.map_eq_some_iff.mp hfound
    rw [hcursor, MarkColumns.boundary, (MarkColumns.shown_eq_some.mp hrow).1]
    rfl

end MarkReaders

/-! ## The reader of stale dashboards -/

def AscendingTimeCursor.position (cursor : AscendingTimeCursor) : Time ×ₗ Uuid :=
  toLex (cursor.timestamp, cursor.rowId)

section StaleReader

variable {db : Db} {ownerId : Uuid} {asOf : Time} {after : Option AscendingTimeCursor}
  {bounded : ℕ}

theorem enumerates_stale :
    Keyset.Enumerates Dashboard.staleKey (db.dashboards.where? (Dashboard.StaleOf ownerId asOf))
      (Keyset.ordered Dashboard.staleKey
        (db.dashboards.where? (Dashboard.StaleOf ownerId asOf))) := by
  apply Keyset.enumerates_ordered
  have hnodup : ((db.dashboards.where? (Dashboard.StaleOf ownerId asOf)).map Dashboard.id).Nodup :=
    db.dashboards.nodupKeys.sublist (List.filter_sublist.map _)
  apply List.Nodup.of_map (fun key => (ofLex key).2)
  rw [List.map_map]
  exact hnodup

theorem Db.staleCandidates_eq :
    db.staleCandidates ownerId asOf after =
      ((Keyset.ordered Dashboard.staleKey (Keyset.selected Dashboard.staleKey
        ((after.map AscendingTimeCursor.position).map (Prod.mk .next))
        (db.dashboards.where? (Dashboard.StaleOf ownerId asOf)))).take
        maxAuthorizationCandidates).map Dashboard.id := by
  unfold Db.staleCandidates Keyset.selected
  congr 3
  apply List.filter_congr
  intro dashboard hdashboard
  rw [Table.mem_where?_iff, Dashboard.StaleOf, decide_eq_true_eq] at hdashboard
  obtain ⟨_, _, hstale⟩ := hdashboard
  cases after with
  | none => rfl
  | some cursor =>
      cases htime : dashboard.staleAfter with
      | none => simp [htime] at hstale
      | some time =>
          simp only [Option.map_some, Dashboard.staleKey, AscendingTimeCursor.position, htime,
            Prod.Lex.toLex_lt_toLex, Option.any_some, Option.getD_some, Option.some.injEq,
            decide_eq_true_eq, @eq_comm _ time]

theorem staleRows_eq :
    (Keyset.ordered Dashboard.staleKey (db.dashboards.where? fun dashboard =>
      dashboard.id ∈ db.staleCandidates ownerId asOf after ∧ dashboard.ownerId = ownerId ∧
        db.staleQualifies dashboard = true)).take bounded =
      Keyset.windowed Dashboard.staleKey maxAuthorizationCandidates bounded
        (Option.guard db.staleQualifies) (after.map AscendingTimeCursor.position)
        (db.dashboards.where? (Dashboard.StaleOf ownerId asOf)) := by
  unfold Keyset.windowed
  rw [Db.staleCandidates_eq, List.filterMap_eq_filter]
  set window := (Keyset.ordered Dashboard.staleKey (Keyset.selected Dashboard.staleKey
    ((after.map AscendingTimeCursor.position).map (Prod.mk .next))
    (db.dashboards.where? (Dashboard.StaleOf ownerId asOf)))).take maxAuthorizationCandidates
    with hwindow
  have hascending : window.Pairwise fun first second => first.staleKey < second.staleKey := by
    rw [hwindow, (@enumerates_stale db ownerId asOf).ordered_selected]
    exact (enumerates_stale.selected_ascending _).sublist (List.take_sublist _ _)
  have hmember : ∀ dashboard ∈ window, dashboard ∈ db.dashboards ∧ dashboard.ownerId = ownerId := by
    intro dashboard hdashboard
    have hordered := List.mem_of_mem_take hdashboard
    rw [Keyset.ordered, List.mem_insertionSort] at hordered
    have hrow := Table.mem_where?_iff.mp (List.mem_of_mem_filter hordered)
    rw [Dashboard.StaleOf, decide_eq_true_eq] at hrow
    exact ⟨hrow.1, hrow.2.1⟩
  congr 1
  apply Keyset.Enumerates.ordered_eq
  refine ⟨?_, hascending.filter _⟩
  rw [List.perm_ext_iff_of_nodup]
  · intro dashboard
    simp only [List.mem_filter, Table.mem_where?_iff, decide_eq_true_eq, List.mem_map]
    constructor
    · intro hshown
      obtain ⟨hstored, howner⟩ := hmember dashboard hshown.1
      exact ⟨hstored, ⟨dashboard, hshown.1, rfl⟩, howner, hshown.2⟩
    · rintro ⟨hstored, ⟨other, hother, hid⟩, _, hqualifies⟩
      have heq := db.dashboards.eq_of_key_eq (hmember other hother).1 hstored hid
      rw [heq] at hother
      exact ⟨hother, hqualifies⟩
  · apply (hascending.filter _).imp
    intro first second hless heq
    exact absurd (congrArg Dashboard.staleKey heq) (ne_of_lt hless)
  · exact db.dashboards.nodupKeys.of_map.filter _

end StaleReader

/-! ## What the enumerations yield -/

/-- A reader lists what its candidates show before the first whole window of candidates that
show nothing: distinct rows in the order of the candidates, and all of them when there is no
such window. -/
structure ListsUpToGap {ρ σ γ : Type} (reader : Option γ → Except Failure (List σ))
    (cursor : σ → γ) (shown : ρ → Option σ) (candidates : List ρ) : Prop where
  listing : ∀ yielded, Keyset.Listing reader cursor none yielded ↔
    yielded = Keyset.shownBeforeGap maxAuthorizationCandidates shown 0 candidates
  distinct : (candidates.filterMap shown).Nodup
  initial : Keyset.shownBeforeGap maxAuthorizationCandidates shown 0 candidates <+:
    candidates.filterMap shown
  complete : (∀ gap : List ρ, gap <:+: candidates → gap.length = maxAuthorizationCandidates →
      gap.filterMap shown ≠ []) →
    Keyset.shownBeforeGap maxAuthorizationCandidates shown 0 candidates =
      candidates.filterMap shown

theorem listsUpToGap {ρ σ γ : Type} {reader : Option γ → Except Failure (List σ)}
    {cursor : σ → γ} {shown : ρ → Option σ} {candidates : List ρ}
    (hlisting : ∀ yielded, Keyset.Listing reader cursor none yielded ↔
      yielded = Keyset.shownBeforeGap maxAuthorizationCandidates shown 0 candidates)
    (hcandidates : candidates.Nodup)
    (hshown : ∀ first second item, shown first = some item → shown second = some item →
      first = second) :
    ListsUpToGap reader cursor shown candidates where
  listing := hlisting
  distinct := hcandidates.filterMap fun first second item hfirst hsecond =>
    hshown first second item hfirst hsecond
  initial := Keyset.shownBeforeGap_initial
  complete hgap := @Keyset.shownBeforeGap_of_noGap _ _ _ shown candidates []
    rfl maxAuthorizationCandidates_pos hgap

/-- What the reader of viewed dashboards shows of a viewer state. -/
def Db.shownView (db : Db) (userId : Uuid) (mark : DashboardViewerState) :
    Option ((Dashboard × DashboardViewerState) × Bool) :=
  (viewerStateColumns.shown db userId (db.viewedQualifies userId) mark).map fun row =>
    (row, hasNewPublication row)

/-- Each reader lists its qualifying rows up to the first window without one. -/
theorem windowed_readers_list_up_to_gap (db : Db) (userId : Uuid) (asOf : Time) (limit : ℤ)
    (hfavorites : favoriteColumns.Constraints db.favorites.rows)
    (hviewerStates : viewerStateColumns.Constraints db.viewerStates.rows)
    (hlimit : 1 ≤ limit ∧ limit ≤ maxPageLimit) :
    ListsUpToGap (db.recentFavoriteDashboards userId limit) favoriteColumns.boundary
        (favoriteColumns.shown db userId (db.favoriteQualifies userId))
        (Keyset.ordered favoriteColumns.key
          (favoriteColumns.marksOf userId db.favorites.rows)) ∧
      ListsUpToGap (db.recentlyViewedDashboards userId limit)
        (fun item => viewerStateColumns.boundary item.1) (db.shownView userId)
        (Keyset.ordered viewerStateColumns.key
          (viewerStateColumns.marksOf userId db.viewerStates.rows)) ∧
      ListsUpToGap (db.staleOwnedDashboards userId asOf limit) Dashboard.staleBoundary
        (Option.guard db.staleQualifies)
        (Keyset.ordered Dashboard.staleKey
          (db.dashboards.where? (Dashboard.StaleOf userId asOf))) := by
  have hbounded : boundedLimit limit = .ok limit.toNat := by
    rw [boundedLimit, if_pos hlimit]
  have hpositive : 0 < limit.toNat := by omega
  refine ⟨?_, ?_, ?_⟩
  · apply listsUpToGap
    · have hlisting := @MarkColumns.listing_iff _ favoriteColumns db db.favorites.rows userId
        (db.favoriteQualifies userId) limit.toNat _ (db.recentFavoriteDashboards userId limit) id
        favoriteColumns.boundary hfavorites hpositive (fun _ => rfl)
      simp only [Option.map_id, List.map_id, id] at hlisting
      apply hlisting
      intro before
      rw [Db.recentFavoriteDashboards, hbounded]
      rfl
    · exact (MarkColumns.enumerates_marksOf hfavorites).ordered_nodup
    · intro first second item hfirst hsecond
      exact (MarkColumns.shown_eq_some.mp hfirst).1.symm.trans
        (MarkColumns.shown_eq_some.mp hsecond).1
  · apply listsUpToGap
    · apply @MarkColumns.listing_iff _ viewerStateColumns db db.viewerStates.rows userId
        (db.viewedQualifies userId) limit.toNat _ (db.recentlyViewedDashboards userId limit)
        (fun row => (row, hasNewPublication row)) _ hviewerStates hpositive (fun _ => rfl)
      intro before
      rw [Db.recentlyViewedDashboards, hbounded]
      rfl
    · exact (MarkColumns.enumerates_marksOf hviewerStates).ordered_nodup
    · intro first second item hfirst hsecond
      obtain ⟨row, hrow, rfl⟩ := Option.map_eq_some_iff.mp hfirst
      obtain ⟨other, hother, heq⟩ := Option.map_eq_some_iff.mp hsecond
      rw [(Prod.mk.inj heq).1] at hother
      exact (MarkColumns.shown_eq_some.mp hrow).1.symm.trans
        (MarkColumns.shown_eq_some.mp hother).1
  · apply listsUpToGap
    · intro yielded
      apply Keyset.listing_iff enumerates_stale.keys_nodup _ _ maxAuthorizationCandidates_pos
        hpositive
      · exact AscendingTimeCursor.position
      · intro after
        rw [Db.staleOwnedDashboards, hbounded, ← staleRows_eq]
        rfl
      · intro dashboard item hitem
        obtain ⟨rfl, _⟩ := Option.guard_eq_some_iff.mp hitem
        rfl
    · exact enumerates_stale.ordered_nodup
    · intro first second item hfirst hsecond
      exact (Option.guard_eq_some_iff.mp hfirst).1.trans
        (Option.guard_eq_some_iff.mp hsecond).1.symm

/-! ## A gap before a qualifying favorite -/

def ownedDashboard (id ownerId : Uuid) : Dashboard where
  id := id
  ownerId := ownerId
  name := "Plan".toList
  description := []
  state := .unpublished
  latestRevisionId := none
  publishedRevisionId := none
  firstPublishedAt := none
  publicationVersion := 0
  lastPublishedAt := none
  publicationNote := []
  dataAsOf := none
  freshnessIntervalSeconds := none
  freshnessConfirmedAt := none
  staleAfter := none
  lastOwnershipTransferId := none
  createdAt := 0
  updatedAt := 0

def gapFavorite (id : ℕ) : DashboardFavorite where
  id := 100 - id
  userId := 1
  dashboardId := id
  createdAt := 0

/-- The newest hundred favorites are of another owner's unpublished dashboards, the oldest is
of an own one. -/
def gapDb : Db where
  __ := Db.empty
  users :=
    { rows := [⟨1, "AB12345".toList, [], true, false, 1, 0, 0⟩]
      nodupKeys := by decide }
  dashboards :=
    { rows := (List.range 101).map fun id => ownedDashboard id (if id = 100 then 1 else 2)
      nodupKeys := by
        rw [List.map_map]
        exact List.nodup_range.map fun first second heq => heq }
  favorites :=
    { rows := (List.range 101).map gapFavorite
      nodupKeys := by
        rw [List.map_map]
        apply List.Nodup.map_on _ List.nodup_range
        intro first hfirst second hsecond heq
        have hids : 100 - first = 100 - second := heq
        rw [List.mem_range] at hfirst hsecond
        omega }

theorem gapDb_favorites : favoriteColumns.Constraints gapDb.favorites.rows where
  ids := gapDb.favorites.nodupKeys
  pairs first hfirst second hsecond _ hdashboard := by
    obtain ⟨firstId, _, rfl⟩ := List.mem_map.mp hfirst
    obtain ⟨secondId, _, rfl⟩ := List.mem_map.mp hsecond
    exact congrArg gapFavorite hdashboard

theorem gapDb_listed :
    Keyset.ordered favoriteColumns.key (favoriteColumns.marksOf 1 gapDb.favorites.rows) =
      (List.range 100).map gapFavorite ++ [gapFavorite 100] := by
  have hrows : favoriteColumns.marksOf 1 gapDb.favorites.rows =
      (List.range 101).map gapFavorite := by
    apply List.filter_eq_self.mpr
    intro mark hmark
    obtain ⟨id, _, rfl⟩ := List.mem_map.mp hmark
    rfl
  rw [hrows]
  apply Keyset.Enumerates.ordered_eq
  refine ⟨?_, ?_⟩
  · rw [List.range_succ, List.map_append]
    rfl
  · rw [← List.map_singleton, ← List.map_append, ← List.range_succ, List.pairwise_map]
    apply List.pairwise_lt_range.imp_of_mem
    intro first second hfirst hsecond hless
    rw [List.mem_range] at hfirst hsecond
    simp only [MarkColumns.key, favoriteColumns, gapFavorite, OrderDual.toDual_lt_toDual,
      Prod.Lex.toLex_lt_toLex]
    right
    exact ⟨trivial, by omega⟩

theorem gapDb_dashboard {id : ℕ} (hid : id < 101) :
    gapDb.dashboards.get? id = some (ownedDashboard id (if id = 100 then 1 else 2)) := by
  rw [Table.get?_eq_some_iff]
  exact ⟨List.mem_map.mpr ⟨id, List.mem_range.mpr hid, rfl⟩, rfl⟩

/-- None of the newest hundred favorites qualifies. -/
theorem gapDb_gap :
    ((List.range 100).map gapFavorite).filterMap
      (favoriteColumns.shown gapDb 1 (gapDb.favoriteQualifies 1)) = [] := by
  rw [List.filterMap_eq_nil_iff]
  intro mark hmark
  obtain ⟨id, hid, rfl⟩ := List.mem_map.mp hmark
  rw [List.mem_range] at hid
  have hget : gapDb.dashboards.get? (favoriteColumns.dashboardId (gapFavorite id)) =
      some (ownedDashboard id 2) := by
    have howner : (if id = 100 then 1 else 2) = 2 := if_neg (by omega)
    rw [← howner]
    exact @gapDb_dashboard id (by omega)
  rw [MarkColumns.shown, hget]
  simp [Db.favoriteQualifies, ownedDashboard]

theorem gapDb_yields_nothing :
    Keyset.shownBeforeGap maxAuthorizationCandidates
      (favoriteColumns.shown gapDb 1 (gapDb.favoriteQualifies 1)) 0
      (Keyset.ordered favoriteColumns.key
        (favoriteColumns.marksOf 1 gapDb.favorites.rows)) = [] := by
  rw [gapDb_listed, Keyset.shownBeforeGap_of_none gapDb_gap, if_neg]
  simp [maxAuthorizationCandidates]

theorem gapDb_shows_oldest :
    favoriteColumns.shown gapDb 1 (gapDb.favoriteQualifies 1) (gapFavorite 100) =
      some (ownedDashboard 100 1, gapFavorite 100) := by
  rw [MarkColumns.shown_eq_some]
  have hstored : ownedDashboard 100 1 ∈ gapDb.dashboards :=
    (Table.get?_eq_some_iff.mp (@gapDb_dashboard 100 (by omega))).1
  exact ⟨rfl, hstored, rfl, by decide, by decide +kernel⟩

/-- An own favorite behind a gap is never listed. -/
theorem gap_hides_own_favorite :
    ¬ ∀ (db : Db) (userId : Uuid) (limit : ℤ),
      favoriteColumns.Constraints db.favorites.rows → 1 ≤ limit ∧ limit ≤ maxPageLimit →
        Keyset.Listing (db.recentFavoriteDashboards userId limit) favoriteColumns.boundary none
          ((Keyset.ordered favoriteColumns.key
            (favoriteColumns.marksOf userId db.favorites.rows)).filterMap
              (favoriteColumns.shown db userId (db.favoriteQualifies userId))) := by
  intro hclaim
  have hlisting := hclaim gapDb 1 25 gapDb_favorites (by decide)
  have hreader := @MarkColumns.listing_iff _ favoriteColumns gapDb gapDb.favorites.rows 1
    (gapDb.favoriteQualifies 1) 25 _ (gapDb.recentFavoriteDashboards 1 25) id
    favoriteColumns.boundary gapDb_favorites (by decide) (fun _ => rfl)
    (fun before => by simp [Db.recentFavoriteDashboards, boundedLimit, maxPageLimit]; rfl)
  simp only [Option.map_id, id] at hreader
  rw [hreader, gapDb_yields_nothing, gapDb_listed, List.filterMap_append, gapDb_gap,
    List.filterMap_cons, gapDb_shows_oldest] at hlisting
  simp at hlisting

/-- The favorites of the example are listed as none. -/
theorem gapDb_lists_no_favorites :
    Keyset.Listing (gapDb.recentFavoriteDashboards 1 25) favoriteColumns.boundary none [] := by
  have hreaders := windowed_readers_list_up_to_gap gapDb 1 0 25 gapDb_favorites
    ⟨List.nodup_nil, by decide⟩ (by decide)
  exact (hreaders.1.listing []).mpr gapDb_yields_nothing.symm

end Agora
