import Agora.CaptureSessions
import Mathlib.Order.Bounds.Basic

/-!
# The new-publication marker

A viewer state holds the greatest version and the latest time among the opens captured for
its viewer and dashboard, in whatever order they commit.  The marker compares that version
with the current one of the dashboard, and the versions count the publications.
-/

namespace Agora

open Transaction

/-! ## The history of publications and opens -/

/-- The versions of a dashboard in the order of their publication. -/
def publishedVersions (publications : List (Uuid × ℕ)) (dashboardId : Uuid) : List ℕ :=
  (publications.filter fun entry => entry.1 = dashboardId).map Prod.snd

/-- Another publication of the dashboard was committed after that of the version. -/
def PublishedAfter (publications : List (Uuid × ℕ)) (dashboardId : Uuid) (version : ℕ) : Prop :=
  ∃ before after, publications = before ++ (dashboardId, version) :: after ∧
    ∃ later, (dashboardId, later) ∈ after

/-- A value of each open captured for a viewer and a dashboard. -/
def openedValues {α : Type} (value : AuthorizedOpen → α) (captures : List AuthorizedOpen)
    (viewerId dashboardId : Uuid) : Set α :=
  {found | ∃ opened ∈ captures, opened.viewerId = viewerId ∧
    opened.dashboardId = dashboardId ∧ value opened = found}

section History

variable {publications before after : List (Uuid × ℕ)} {dashboardId : Uuid} {count version : ℕ}

theorem publishedVersions_append :
    publishedVersions (before ++ after) dashboardId =
      publishedVersions before dashboardId ++ publishedVersions after dashboardId := by
  simp [publishedVersions]

theorem publishedVersions_split :
    publishedVersions (before ++ (dashboardId, version) :: after) dashboardId =
      publishedVersions before dashboardId ++ version :: publishedVersions after dashboardId := by
  simp [publishedVersions]

theorem publishedAfter_iff
    (hversions : publishedVersions publications dashboardId = List.range' 1 count)
    (hpositive : 0 < version) (hle : version ≤ count) :
    PublishedAfter publications dashboardId version ↔ version < count := by
  constructor
  · rintro ⟨before, after, rfl, later, hlater⟩
    rw [publishedVersions_split] at hversions
    have hmem : later ∈ publishedVersions after dashboardId :=
      List.mem_map.mpr ⟨(dashboardId, later), by simpa using hlater, rfl⟩
    have hordered : (List.range' 1 count).Pairwise (· < ·) := List.pairwise_lt_range'
    rw [← hversions, List.pairwise_append] at hordered
    have hless := (List.pairwise_cons.mp hordered.2.1).1 later hmem
    have hlast : later ∈ List.range' 1 count := by
      rw [← hversions]
      simp [hmem]
    rw [List.mem_range'_1] at hlast
    omega
  · intro hless
    have hmem : version ∈ publishedVersions publications dashboardId := by
      rw [hversions, List.mem_range'_1]
      omega
    obtain ⟨⟨named, released⟩, hentry, hreleased⟩ := List.mem_map.mp hmem
    obtain ⟨hentry, hnamed⟩ := List.mem_filter.mp hentry
    obtain ⟨before, after, rfl⟩ := List.append_of_mem hentry
    have hsame : named = dashboardId := by simpa using hnamed
    have hversion : released = version := hreleased
    rw [hsame, hversion] at hversions ⊢
    rw [publishedVersions_split] at hversions
    have hordered : (List.range' 1 count).Pairwise (· < ·) := List.pairwise_lt_range'
    have hlast : count ∈ List.range' 1 count := by
      rw [List.mem_range'_1]
      omega
    rw [← hversions] at hlast hordered
    rw [List.pairwise_append] at hordered
    rw [List.mem_append, List.mem_cons] at hlast
    rcases hlast with hbefore | rfl | hafter
    · have hgreater := hordered.2.2 count hbefore version List.mem_cons_self
      omega
    · omega
    · obtain ⟨⟨other, _⟩, hother, rfl⟩ := List.mem_map.mp hafter
      obtain ⟨hother, hnamed⟩ := List.mem_filter.mp hother
      have hothername : other = dashboardId := by simpa using hnamed
      rw [hothername] at hother
      exact ⟨before, after, rfl, _, hother⟩

end History

section Opened

variable {α : Type} {value : AuthorizedOpen → α} {captures : List AuthorizedOpen}
  {opened : AuthorizedOpen} {viewerId dashboardId : Uuid}

theorem openedValues_append_self :
    openedValues value (captures ++ [opened]) opened.viewerId opened.dashboardId =
      insert (value opened) (openedValues value captures opened.viewerId opened.dashboardId) := by
  ext found
  simp only [openedValues, List.mem_append, List.mem_singleton, Set.mem_ofPred_eq,
    Set.mem_insert_iff]
  constructor
  · rintro ⟨other, hother | rfl, hviewer, hdashboard, rfl⟩
    · exact .inr ⟨other, hother, hviewer, hdashboard, rfl⟩
    · exact .inl rfl
  · rintro (rfl | ⟨other, hother, hviewer, hdashboard, rfl⟩)
    · exact ⟨opened, .inr rfl, rfl, rfl, rfl⟩
    · exact ⟨other, .inl hother, hviewer, hdashboard, rfl⟩

theorem openedValues_append_other
    (hother : ¬ (opened.viewerId = viewerId ∧ opened.dashboardId = dashboardId)) :
    openedValues value (captures ++ [opened]) viewerId dashboardId =
      openedValues value captures viewerId dashboardId := by
  ext found
  simp only [openedValues, List.mem_append, List.mem_singleton, Set.mem_ofPred_eq]
  constructor
  · rintro ⟨first, hfirst | rfl, hviewer, hdashboard, rfl⟩
    · exact ⟨first, hfirst, hviewer, hdashboard, rfl⟩
    · exact absurd ⟨hviewer, hdashboard⟩ hother
  · rintro ⟨first, hfirst, hviewer, hdashboard, rfl⟩
    exact ⟨first, .inl hfirst, hviewer, hdashboard, rfl⟩

end Opened

/-! ## The invariant -/

/-- The publications of a dashboard are numbered from one to its version. -/
structure CountsPublications (dashboards : Table Dashboard) (publications : List (Uuid × ℕ)) :
    Prop where
  released : ∀ dashboard ∈ dashboards,
    publishedVersions publications dashboard.id = List.range' 1 dashboard.publicationVersion
  unknown : ∀ id, dashboards.get? id = none → publishedVersions publications id = []

/-- Each viewer state holds the greatest version and time captured for its pair. -/
structure HoldsMaxima (marks : Table DashboardViewerState) (captures : List AuthorizedOpen) :
    Prop where
  pairs : ∀ first ∈ marks, ∀ second ∈ marks, first.userId = second.userId →
    first.dashboardId = second.dashboardId → first = second
  versions : ∀ mark ∈ marks, IsGreatest
    (openedValues AuthorizedOpen.publicationVersion captures mark.userId mark.dashboardId)
    mark.seenPublicationVersion
  times : ∀ mark ∈ marks, IsGreatest
    (openedValues AuthorizedOpen.openedAt captures mark.userId mark.dashboardId)
    mark.lastViewedAt
  marked : ∀ opened ∈ captures, ∃ mark ∈ marks,
    mark.userId = opened.viewerId ∧ mark.dashboardId = opened.dashboardId

/-- The version of a dashboard has been published. -/
def Released (dashboards : Table Dashboard) (dashboardId : Uuid) (version : ℕ) : Prop :=
  0 < version ∧ ∃ dashboard, dashboards.get? dashboardId = some dashboard ∧
    version ≤ dashboard.publicationVersion

/-- What a session relies on. -/
def CapturePhase.Sound (dashboards : Table Dashboard) (marks : Table DashboardViewerState)
    (row : RenderAuthorization) : CapturePhase → Prop
  | .loaded => True
  | .checked version | .opened _ version | .missing _ version =>
      Released dashboards row.dashboardId version
  | .locked _ version mark => Released dashboards row.dashboardId version ∧
      mark ∈ marks ∧ mark.userId = row.viewerId ∧ mark.dashboardId = row.dashboardId

structure MarkerState.Sound (state : MarkerState) : Prop where
  publications : CountsPublications state.db.dashboards state.publications
  marks : HoldsMaxima state.db.viewerStates state.captures
  opens : ∀ opened ∈ state.captures,
    Released state.db.dashboards opened.dashboardId opened.publicationVersion
  sessions : ∀ id session, state.sessions id = some session →
    session.phase.Sound state.db.dashboards state.db.viewerStates session.row
  locks : ∀ id session mark, state.sessions id = some session →
    session.phase.mark = some mark → state.Unlocked id mark

/-- Versions of stored dashboards only grow. -/
def Grows (before after : Table Dashboard) : Prop :=
  before.Carries (fun dashboard later =>
    dashboard.publicationVersion ≤ later.publicationVersion) after

theorem Released.grows {before after : Table Dashboard} {dashboardId : Uuid} {version : ℕ}
    (hgrows : Grows before after) (hreleased : Released before dashboardId version) :
    Released after dashboardId version := by
  obtain ⟨hpositive, dashboard, hget, hle⟩ := hreleased
  obtain ⟨later, hlater, hversion⟩ := hgrows dashboardId dashboard hget
  exact ⟨hpositive, later, hlater, hle.trans hversion⟩

theorem CapturePhase.Sound.grows {before after : Table Dashboard}
    {marks : Table DashboardViewerState} {row : RenderAuthorization} {phase : CapturePhase}
    (hgrows : Grows before after) (hsound : phase.Sound before marks row) :
    phase.Sound after marks row := by
  cases phase with
  | loaded => trivial
  | checked version => exact Released.grows hgrows hsound
  | opened openId version => exact Released.grows hgrows hsound
  | missing openId version => exact Released.grows hgrows hsound
  | locked openId version mark => exact ⟨Released.grows hgrows hsound.1, hsound.2⟩

/-! ## Publications and other transactions -/

/-- A save that names another version than the original one writes that version. -/
theorem Dashboard.savedOver_version {clock : Time} {row original : Dashboard}
    (hversion : row.publicationVersion = original.publicationVersion → row.state ≠ .published) :
    (row.savedOver clock original).publicationVersion = row.publicationVersion := by
  unfold Dashboard.savedOver Dashboard.advancePublication
  split
  · rename_i hadvances
    exact absurd hadvances.1 (hversion hadvances.2.2.2)
  · rfl

theorem publishDashboardRevision_markers {platform : Platform} {context : CallContext}
    {dashboardId actorId revisionId : Uuid} {publicationNote : Text}
    {dataAsOf : Option Time} {freshnessInterval : Option ℤ} {publishedAt : Time}
    {published : Dashboard} {before after : Db}
    (hruns : (publishDashboardRevision platform context dashboardId actorId revisionId
      publicationNote dataAsOf freshnessInterval publishedAt).Runs before published after) :
    ∃ stored, before.dashboards.get? dashboardId = some stored ∧ published.id = dashboardId ∧
      published.publicationVersion = stored.publicationVersion + 1 ∧
        after.viewerStates = before.viewerStates ∧
          after.dashboards = before.dashboards.replace published := by
  simp only [publishDashboardRevision, runs_bind, runs_orFail, runs_get, runs_found,
    runs_check, runs_pure, and_assoc, exists_and_left, exists_eq_left', exists_const] at hruns
  rcases hruns with ⟨note, _, freshness, _, owned, state, howned, _, revision, _, _,
    saved, middle, hsave, _, _, haudit, rfl, rfl⟩
  rcases lockCurrentOwner_runs howned with ⟨rfl, hdashboard, _⟩
  rcases recordAudit_runs haudit with ⟨_, _, _, _, _, _, _, rfl⟩
  obtain ⟨original, horiginal, _, rfl, _, _, rfl⟩ := Dashboard.runs_save.mp hsave
  cases original_of_get? hdashboard horiginal
  refine ⟨owned.1, hdashboard, ?_, ?_, rfl, rfl⟩
  · rw [Dashboard.savedOver_id]
    exact Table.key_of_get? hdashboard
  · rw [Dashboard.savedOver_version]
    · rfl
    · intro hsame
      exact absurd hsame (Nat.succ_ne_self owned.1.publicationVersion)

theorem unpublishDashboard_markers {context : CallContext} {dashboardId actorId : Uuid}
    {unpublished : Dashboard} {before after : Db}
    (hruns : (unpublishDashboard context dashboardId actorId).Runs before unpublished after) :
    before.KeepsMarkers after := by
  simp only [unpublishDashboard, runs_bind, runs_check, runs_pure, and_assoc,
    exists_and_left, exists_eq_left', exists_const] at hruns
  rcases hruns with ⟨owned, state, howned, _, _, saved, middle, hsave, _, _, haudit, _, rfl⟩
  rcases lockCurrentOwner_runs howned with ⟨rfl, hdashboard, _⟩
  rcases recordAudit_runs haudit with ⟨_, _, _, _, _, _, _, rfl⟩
  obtain ⟨original, horiginal, _, hsaved, _, _, rfl⟩ := Dashboard.runs_save.mp hsave
  cases original_of_get? hdashboard horiginal
  have hversion : saved.publicationVersion = owned.1.publicationVersion := by
    rw [hsaved, Dashboard.savedOver_version]
    intro _ hpublished
    cases hpublished
  have hid : saved.id = owned.1.id := by
    rw [hsaved, Dashboard.savedOver_id]
  have hstored : before.dashboards.get? (Keyed.key saved) = some owned.1 := by
    change before.dashboards.get? saved.id = some owned.1
    rw [hid]
    exact horiginal
  constructor
  · rfl
  · intro id dashboard hget
    have hcarries : before.dashboards.Carries
        (fun dashboard later => later.publicationVersion = dashboard.publicationVersion)
        (before.dashboards.replace saved) :=
      .of_replace (fun _ => rfl) hstored hversion
    exact hcarries id dashboard hget
  · intro dashboard hmem hnone
    obtain rfl | ⟨hold, _⟩ := (Table.mem_replace hstored).mp hmem
    · cases hnone.symm.trans hstored
    · cases hnone.symm.trans (Table.get?_of_mem hold)

section Changes

variable {state : MarkerState}

theorem MarkerState.Sound.later (hsound : state.Sound) {after : Db}
    {publications : List (Uuid × ℕ)} (hmarks : after.viewerStates = state.db.viewerStates)
    (hpublications : CountsPublications after.dashboards publications)
    (hgrows : Grows state.db.dashboards after.dashboards) :
    MarkerState.Sound { state with db := after, publications := publications } where
  publications := hpublications
  marks := by
    change HoldsMaxima after.viewerStates state.captures
    rw [hmarks]
    exact hsound.marks
  opens opened hopened := (hsound.opens opened hopened).grows hgrows
  sessions id session hsession := by
    change session.phase.Sound after.dashboards after.viewerStates session.row
    rw [hmarks]
    exact (hsound.sessions id session hsession).grows hgrows
  locks := hsound.locks

theorem MarkerState.Sound.published (hsound : state.Sound) {dashboardId : Uuid}
    {stored published : Dashboard} {after : Db}
    (hstored : state.db.dashboards.get? dashboardId = some stored)
    (hid : published.id = dashboardId)
    (hversion : published.publicationVersion = stored.publicationVersion + 1)
    (hmarks : after.viewerStates = state.db.viewerStates)
    (hwritten : after.dashboards = state.db.dashboards.replace published) :
    MarkerState.Sound { state with
      db := after
      publications := state.publications ++ [(dashboardId, published.publicationVersion)] } := by
  have hkey : state.db.dashboards.get? (Keyed.key published) = some stored := by
    change state.db.dashboards.get? published.id = some stored
    rw [hid]
    exact hstored
  have hself : stored.id = dashboardId := Table.key_of_get? hstored
  have hother : ∀ id, id ≠ dashboardId →
      publishedVersions (state.publications ++ [(dashboardId, published.publicationVersion)]) id =
        publishedVersions state.publications id := by
    intro id hne
    rw [publishedVersions_append]
    simp [publishedVersions, hne.symm]
  apply hsound.later hmarks
  · constructor
    · intro dashboard hmem
      rw [hwritten, Table.mem_replace hkey] at hmem
      rcases hmem with rfl | ⟨hold, hne⟩
      · have hbefore := hsound.publications.released stored (Table.mem_of_get? hstored)
        rw [hself] at hbefore
        rw [hid, publishedVersions_append, hbefore, hversion, List.range'_1_concat]
        simp [publishedVersions, Nat.add_comm]
      · have hne' : dashboard.id ≠ dashboardId := by
          rw [← hid]
          exact hne
        rw [hother dashboard.id hne']
        exact hsound.publications.released dashboard hold
    · intro id hnone
      rw [hwritten, Table.get?_replace] at hnone
      have hne : id ≠ dashboardId := by
        rintro rfl
        rw [hstored] at hnone
        split at hnone <;> cases hnone
      have hne' : Keyed.key published ≠ id := by
        intro hsame
        exact hne (hsame.symm.trans hid)
      rw [if_neg hne'] at hnone
      rw [hother id hne]
      exact hsound.publications.unknown id hnone
  · rw [hwritten]
    apply Table.Carries.of_replace (fun dashboard => le_refl dashboard.publicationVersion) hkey
    rw [hversion]
    exact Nat.le_succ stored.publicationVersion

theorem MarkerState.Sound.kept (hsound : state.Sound) {after : Db}
    (hkeeps : state.db.KeepsMarkers after) :
    MarkerState.Sound { state with db := after } := by
  apply hsound.later hkeeps.marks
  · constructor
    · intro dashboard hmem
      cases hbefore : state.db.dashboards.get? dashboard.id with
      | none =>
          rw [hsound.publications.unknown dashboard.id hbefore,
            hkeeps.drafts dashboard hmem hbefore]
          rfl
      | some stored =>
          obtain ⟨later, hlater, hversion⟩ := hkeeps.versions dashboard.id stored hbefore
          cases Option.some.inj (hlater.symm.trans (Table.get?_of_mem hmem))
          have hreleased := hsound.publications.released stored (Table.mem_of_get? hbefore)
          have hid : stored.id = dashboard.id := Table.key_of_get? hbefore
          rw [hid, ← hversion] at hreleased
          exact hreleased
    · intro id hnone
      apply hsound.publications.unknown id
      cases hbefore : state.db.dashboards.get? id with
      | none => rfl
      | some stored =>
          obtain ⟨later, hlater, _⟩ := hkeeps.versions id stored hbefore
          cases hnone.symm.trans hlater
  · intro id dashboard hget
    obtain ⟨later, hlater, hversion⟩ := hkeeps.versions id dashboard hget
    exact ⟨later, hlater, hversion.ge⟩

/-! ## Sessions -/

/-- A session goes on; identity values may have been taken. -/
theorem MarkerState.Sound.enter (hsound : state.Sound) {id : ℕ} {session : CaptureSession}
    {db : Db} (hdashboards : db.dashboards = state.db.dashboards)
    (hmarks : db.viewerStates = state.db.viewerStates)
    (hphase : session.phase.Sound state.db.dashboards state.db.viewerStates session.row)
    (hlock : ∀ mark, session.phase.mark = some mark → state.Unlocked id mark) :
    (MarkerState.enter { state with db := db } id session).Sound where
  publications := by
    change CountsPublications db.dashboards state.publications
    rw [hdashboards]
    exact hsound.publications
  marks := by
    change HoldsMaxima db.viewerStates state.captures
    rw [hmarks]
    exact hsound.marks
  opens opened hopened := by
    change Released db.dashboards _ _
    rw [hdashboards]
    exact hsound.opens opened hopened
  sessions other found hfound := by
    change found.phase.Sound db.dashboards db.viewerStates found.row
    rw [hdashboards, hmarks]
    by_cases hother : other = id
    · rw [hother, MarkerState.enter_self] at hfound
      cases hfound
      exact hphase
    · rw [MarkerState.enter_of_ne hother] at hfound
      exact hsound.sessions other found hfound
  locks first found mark hfound hmark second other held hother hheld hsame := by
    simp only [MarkerState.enter, Function.update_apply] at hfound hother
    split at hfound
    · rename_i hfirst
      split at hother
      · rename_i hsecond
        exact hsecond.trans hfirst.symm
      · cases hfound
        rw [hfirst]
        exact hlock mark hmark second other held hother hheld hsame
    · split at hother
      · rename_i hsecond
        cases hother
        rw [hsecond]
        exact (hlock held hheld first found mark hfound hmark hsame.symm).symm
      · exact hsound.locks first found mark hfound hmark second other held hother hheld hsame

theorem MarkerState.Sound.leave (hsound : state.Sound) (id : ℕ) : (state.leave id).Sound where
  publications := hsound.publications
  marks := hsound.marks
  opens := hsound.opens
  sessions other found hfound := by
    simp only [MarkerState.leave, Function.update_apply] at hfound
    split at hfound
    · cases hfound
    · exact hsound.sessions other found hfound
  locks first found mark hfound hmark second other held hother hheld hsame := by
    simp only [MarkerState.leave, Function.update_apply] at hfound hother
    split at hfound
    · cases hfound
    · split at hother
      · cases hother
      · exact hsound.locks first found mark hfound hmark second other held hother hheld hsame

theorem Db.released_of_source {db : Db} {row : RenderAuthorization} {version : ℕ}
    (hsource : db.sourceVersion row = some version) :
    Released db.dashboards row.dashboardId version := by
  obtain ⟨loaded, hload, hsource⟩ := Option.bind_eq_some_iff.mp hsource
  rw [Option.ite_none_right_eq_some] at hsource
  obtain ⟨⟨_, hsource⟩, hversion⟩ := hsource
  have hdashboard : db.dashboards.get? row.dashboardId = some loaded.dashboard := by
    unfold Db.loadAuthorization at hload
    split at hload
    · rename_i dashboard _ _ hget _ _
      cases hload
      exact hget
    · cases hload
  unfold RenderAuthorization.canSourceOpen at hsource
  split at hsource
  · cases hsource
  · rename_i hnot
    simp only [not_or, not_not] at hnot
    obtain ⟨_, _, hpositive, _, _, _, _, _, hcurrent⟩ := hnot
    rw [hversion] at hcurrent hpositive
    cases hcurrent
    refine ⟨?_, loaded.dashboard, hdashboard, le_rfl⟩
    apply Nat.pos_of_ne_zero
    intro hzero
    exact hpositive (congrArg some hzero)

end Changes

/-! ## The commit of a capture -/

/-- The same viewer state later on. -/
structure DashboardViewerState.NotAfter (earlier later : DashboardViewerState) : Prop where
  user : later.userId = earlier.userId
  dashboard : later.dashboardId = earlier.dashboardId
  viewed : earlier.lastViewedAt ≤ later.lastViewedAt
  seen : earlier.seenPublicationVersion ≤ later.seenPublicationVersion

theorem DashboardViewerState.NotAfter.refl (mark : DashboardViewerState) : mark.NotAfter mark :=
  ⟨rfl, rfl, le_rfl, le_rfl⟩

theorem DashboardViewerState.NotAfter.trans (first second third : DashboardViewerState)
    (hfirst : first.NotAfter second) (hsecond : second.NotAfter third) : first.NotAfter third :=
  ⟨hsecond.user.trans hfirst.user, hsecond.dashboard.trans hfirst.dashboard,
    hfirst.viewed.trans hsecond.viewed, hfirst.seen.trans hsecond.seen⟩

/-- A viewer state takes the place of the one of its pair, if there is one. -/
structure DashboardViewerState.Advances (mark : DashboardViewerState)
    (existing : Option DashboardViewerState) (before after : Table DashboardViewerState) :
    Prop where
  rows : ∀ other, other ∈ after ↔ other = mark ∨ (other ∈ before ∧ other.id ≠ mark.id)
  replaced : ∀ other ∈ before, other.id = mark.id → existing = some other
  pair : ∀ other ∈ before, other.userId = mark.userId → other.dashboardId = mark.dashboardId →
    existing = some other
  stored : ∀ other, existing = some other →
    other ∈ before ∧ other.id = mark.id ∧ other.NotAfter mark

section Commit

variable {existing : Option DashboardViewerState} {mark : DashboardViewerState}
  {before after : Table DashboardViewerState} {captures : List AuthorizedOpen}
  {opened : AuthorizedOpen}

theorem DashboardViewerState.Advances.carries (hadvances : mark.Advances existing before after) :
    before.Carries DashboardViewerState.NotAfter after := by
  intro id other hget
  have hmem := Table.mem_of_get? hget
  have hid : other.id = id := Table.key_of_get? hget
  by_cases hsame : other.id = mark.id
  · have hstored := hadvances.stored other (hadvances.replaced other hmem hsame)
    have hmark : mark ∈ after := (hadvances.rows mark).mpr (.inl rfl)
    have hkey : Keyed.key mark = id := hsame.symm.trans hid
    refine ⟨mark, ?_, hstored.2.2⟩
    rw [← hkey]
    exact Table.get?_of_mem hmark
  · have hkept : other ∈ after := (hadvances.rows other).mpr (.inr ⟨hmem, hsame⟩)
    refine ⟨other, ?_, .refl other⟩
    rw [← hid]
    exact Table.get?_of_mem hkept

theorem HoldsMaxima.advance (hmaxima : HoldsMaxima before captures)
    (hadvances : mark.Advances existing before after)
    (huser : mark.userId = opened.viewerId) (hdashboard : mark.dashboardId = opened.dashboardId)
    (hversion : IsGreatest (insert opened.publicationVersion
      (openedValues AuthorizedOpen.publicationVersion captures opened.viewerId
        opened.dashboardId)) mark.seenPublicationVersion)
    (htime : IsGreatest (insert opened.openedAt
      (openedValues AuthorizedOpen.openedAt captures opened.viewerId opened.dashboardId))
      mark.lastViewedAt) :
    HoldsMaxima after (captures ++ [opened]) := by
  have hapart : ∀ other ∈ before, other.id ≠ mark.id →
      ¬ (opened.viewerId = other.userId ∧ opened.dashboardId = other.dashboardId) := by
    intro other hother hne hpair
    have hsame := hadvances.pair other hother (hpair.1.symm.trans huser.symm)
      (hpair.2.symm.trans hdashboard.symm)
    exact hne (hadvances.stored other hsame).2.1
  constructor
  · intro first hfirst second hsecond hsameUser hsameDashboard
    rcases (hadvances.rows first).mp hfirst with rfl | ⟨hfirst, hfirstId⟩
    · rcases (hadvances.rows second).mp hsecond with rfl | ⟨hsecond, hsecondId⟩
      · rfl
      · exact absurd ⟨huser.symm.trans hsameUser, hdashboard.symm.trans hsameDashboard⟩
          (hapart second hsecond hsecondId)
    · rcases (hadvances.rows second).mp hsecond with rfl | ⟨hsecond, hsecondId⟩
      · exact absurd ⟨huser.symm.trans hsameUser.symm, hdashboard.symm.trans hsameDashboard.symm⟩
          (hapart first hfirst hfirstId)
      · exact hmaxima.pairs first hfirst second hsecond hsameUser hsameDashboard
  · intro other hother
    rcases (hadvances.rows other).mp hother with rfl | ⟨hother, hne⟩
    · rw [huser, hdashboard, openedValues_append_self]
      exact hversion
    · rw [openedValues_append_other (hapart other hother hne)]
      exact hmaxima.versions other hother
  · intro other hother
    rcases (hadvances.rows other).mp hother with rfl | ⟨hother, hne⟩
    · rw [huser, hdashboard, openedValues_append_self]
      exact htime
    · rw [openedValues_append_other (hapart other hother hne)]
      exact hmaxima.times other hother
  · intro earlier hearlier
    rw [List.mem_append, List.mem_singleton] at hearlier
    rcases hearlier with hearlier | rfl
    · obtain ⟨old, hold, holdUser, holdDashboard⟩ := hmaxima.marked earlier hearlier
      by_cases hsame : old.id = mark.id
      · have hstored := (hadvances.stored old (hadvances.replaced old hold hsame)).2.2
        exact ⟨mark, (hadvances.rows mark).mpr (.inl rfl), hstored.user.trans holdUser,
          hstored.dashboard.trans holdDashboard⟩
      · exact ⟨old, (hadvances.rows old).mpr (.inr ⟨hold, hsame⟩), holdUser, holdDashboard⟩
    · exact ⟨mark, (hadvances.rows mark).mpr (.inl rfl), huser, hdashboard⟩

/-- The first open of a pair is its only one. -/
theorem HoldsMaxima.openedValues_eq_empty {α : Type} {value : AuthorizedOpen → α}
    {viewerId dashboardId : Uuid} (hmaxima : HoldsMaxima before captures)
    (hnone : ∀ other ∈ before, ¬ (other.userId = viewerId ∧ other.dashboardId = dashboardId)) :
    openedValues value captures viewerId dashboardId = ∅ := by
  rw [Set.eq_empty_iff_forall_notMem]
  rintro found ⟨earlier, hearlier, hviewer, hdashboard, _⟩
  obtain ⟨old, hold, holdUser, holdDashboard⟩ := hmaxima.marked earlier hearlier
  exact hnone old hold ⟨holdUser.trans hviewer, holdDashboard.trans hdashboard⟩

end Commit

/-- What `_advance_viewer_state` writes, and that it is the maximum. -/
structure RecordsOpen (mark : DashboardViewerState)
    (existing : Option DashboardViewerState) (before after : Db) (captures : List AuthorizedOpen)
    (opened : AuthorizedOpen) : Prop where
  advances : mark.Advances existing before.viewerStates after.viewerStates
  user : mark.userId = opened.viewerId
  dashboard : mark.dashboardId = opened.dashboardId
  version : IsGreatest (insert opened.publicationVersion
    (openedValues AuthorizedOpen.publicationVersion captures opened.viewerId
      opened.dashboardId)) mark.seenPublicationVersion
  time : IsGreatest (insert opened.openedAt
    (openedValues AuthorizedOpen.openedAt captures opened.viewerId opened.dashboardId))
    mark.lastViewedAt
  dashboards : after.dashboards = before.dashboards

section Records

variable {row : RenderAuthorization} {openId version : ℕ} {before after : Db}
  {mark : DashboardViewerState} {captures : List AuthorizedOpen}

theorem advanceFrom_none_records (hmaxima : HoldsMaxima before.viewerStates captures)
    (hruns : (advanceFrom row version none).Runs before mark after) :
    RecordsOpen mark none before after captures (row.openRow openId version) := by
  simp only [advanceFrom, DashboardViewerState.insert, DashboardViewerState.clean, runs_bind,
    runs_takeId, runs_get, runs_found, runs_check, runs_set, runs_pure, and_assoc,
    exists_and_left, exists_eq_left', exists_eq_left, exists_const] at hruns
  rcases hruns with ⟨_, ⟨_, _, _, rfl⟩, hunique, marks, hcreate, rfl, rfl⟩
  have hnone : ∀ other ∈ before.viewerStates,
      ¬ (other.userId = row.viewerId ∧ other.dashboardId = row.dashboardId) := by
    intro other hother hpair
    exact Table.any_eq_false_iff.mp hunique other hother (by simpa using hpair)
  have hfresh : ∀ other ∈ before.viewerStates, other.id ≠ before.nextId :=
    Table.fresh_of_create hcreate
  constructor
  · constructor
    · intro other
      rw [Table.mem_of_create hcreate]
      constructor
      · rintro (rfl | hother)
        · exact .inl rfl
        · exact .inr ⟨hother, hfresh other hother⟩
      · rintro (rfl | ⟨hother, _⟩)
        · exact .inl rfl
        · exact .inr hother
    · intro other hother hsame
      exact absurd hsame (hfresh other hother)
    · intro other hother huser hdashboard
      exact absurd ⟨huser, hdashboard⟩ (hnone other hother)
    · intro other hother
      cases hother
  · rfl
  · rfl
  · change IsGreatest (insert version (openedValues AuthorizedOpen.publicationVersion captures
      row.viewerId row.dashboardId)) version
    rw [HoldsMaxima.openedValues_eq_empty hmaxima hnone, insert_empty_eq]
    exact isGreatest_singleton
  · change IsGreatest (insert row.createdAt (openedValues AuthorizedOpen.openedAt captures
      row.viewerId row.dashboardId)) row.createdAt
    rw [HoldsMaxima.openedValues_eq_empty hmaxima hnone, insert_empty_eq]
    exact isGreatest_singleton
  · rfl

/-- The viewer state that an existing one advances to. -/
def DashboardViewerState.advanced (state : DashboardViewerState) (row : RenderAuthorization)
    (version : ℕ) : DashboardViewerState :=
  { state with
    lastViewedAt := max state.lastViewedAt row.createdAt
    seenPublicationVersion := max state.seenPublicationVersion version }

theorem advanceFrom_some_writes {stored : DashboardViewerState}
    (hstored : stored ∈ before.viewerStates)
    (hruns : (advanceFrom row version (some stored)).Runs before mark after) :
    mark = stored.advanced row version ∧ after.dashboards = before.dashboards ∧
      ∀ other, other ∈ after.viewerStates ↔
        other = mark ∨ (other ∈ before.viewerStates ∧ other.id ≠ mark.id) := by
  simp only [advanceFrom, runs_ite, runs_pure] at hruns
  rcases hruns with ⟨hsame, rfl, rfl⟩ | ⟨_, hsave⟩
  · refine ⟨hsame.symm, rfl, ?_⟩
    intro other
    constructor
    · intro hother
      by_cases hid : other.id = stored.id
      · exact .inl (Table.eq_of_key_eq hother hstored hid)
      · exact .inr ⟨hother, hid⟩
    · rintro (rfl | ⟨hother, _⟩)
      · exact hstored
      · exact hother
  · simp only [DashboardViewerState.save, DashboardViewerState.clean, runs_bind, runs_get,
      runs_found, runs_check, runs_set, runs_pure, and_assoc, exists_and_left,
      exists_eq_left', exists_const] at hsave
    rcases hsave with ⟨original, horiginal, _, _, _, _, _, ⟨_, _, _, rfl⟩, rfl, rfl⟩
    exact ⟨rfl, rfl, fun other => Table.mem_replace horiginal⟩

theorem advanceFrom_some_records {stored : DashboardViewerState}
    (hmaxima : HoldsMaxima before.viewerStates captures)
    (hstored : stored ∈ before.viewerStates) (huser : stored.userId = row.viewerId)
    (hdashboard : stored.dashboardId = row.dashboardId)
    (hruns : (advanceFrom row version (some stored)).Runs before mark after) :
    RecordsOpen mark (some stored) before after captures (row.openRow openId version) := by
  obtain ⟨rfl, hdashboards, hrows⟩ := advanceFrom_some_writes hstored hruns
  have hversions := hmaxima.versions stored hstored
  have htimes := hmaxima.times stored hstored
  rw [huser, hdashboard] at hversions htimes
  constructor
  · constructor
    · exact hrows
    · intro other hother hsame
      exact congrArg some (Table.eq_of_key_eq hstored hother hsame.symm)
    · intro other hother hsameUser hsameDashboard
      exact congrArg some (hmaxima.pairs stored hstored other hother hsameUser.symm
        hsameDashboard.symm)
    · intro other hother
      cases hother
      exact ⟨hstored, rfl, rfl, rfl, le_max_left _ _, le_max_left _ _⟩
  · exact huser
  · exact hdashboard
  · have hgreatest := hversions.insert version
    rw [max_comm] at hgreatest
    exact hgreatest
  · have hgreatest := htimes.insert row.createdAt
    rw [max_comm] at hgreatest
    exact hgreatest
  · exact hdashboards

end Records

/-! ## Every step -/

section Steps

variable {state : MarkerState}

theorem CaptureSession.recorded_eq {session : CaptureSession} {openId version : ℕ}
    {db written : Db} (hrecorded : session.recorded openId version db = some written) :
    written.dashboards = db.dashboards ∧ written.viewerStates = db.viewerStates := by
  simp only [CaptureSession.recorded, Option.bind_eq_bind, Option.bind_eq_some_iff,
    Option.some.injEq] at hrecorded
  obtain ⟨seen, hvisible, opens, _, rfl⟩ := hrecorded
  obtain ⟨⟨authorizations, rfl⟩, _⟩ := CaptureSession.visible_eq hvisible .loaded 0
  exact ⟨rfl, rfl⟩

/-- What a pending session has found. -/
theorem CapturePhase.Sound.pending {dashboards : Table Dashboard}
    {marks : Table DashboardViewerState} {row : RenderAuthorization} {phase : CapturePhase}
    {openId version : ℕ} {existing : Option DashboardViewerState}
    (hsound : phase.Sound dashboards marks row)
    (hpending : phase.pending = some (openId, version, existing)) :
    Released dashboards row.dashboardId version ∧ existing = phase.mark ∧
      ∀ stored, existing = some stored →
        stored ∈ marks ∧ stored.userId = row.viewerId ∧ stored.dashboardId = row.dashboardId := by
  cases phase with
  | loaded => cases hpending
  | checked version => cases hpending
  | opened openId version => cases hpending
  | missing openId version =>
      cases hpending
      exact ⟨hsound, rfl, fun _ hstored => by cases hstored⟩
  | locked openId version mark =>
      cases hpending
      refine ⟨hsound.1, rfl, ?_⟩
      intro stored hstored
      cases hstored
      exact hsound.2

theorem MarkerState.Sound.records (hsound : state.Sound) {id openId version : ℕ}
    {session : CaptureSession} {existing : Option DashboardViewerState}
    {mark : DashboardViewerState} {written after : Db}
    (hsession : state.sessions id = some session)
    (hpending : session.phase.pending = some (openId, version, existing))
    (hrecorded : session.recorded openId version state.db = some written)
    (hruns : (advanceFrom session.row version existing).Runs written mark after) :
    RecordsOpen mark existing written after state.captures
      (session.row.openRow openId version) := by
  obtain ⟨_, _, hexisting⟩ := (hsound.sessions id session hsession).pending hpending
  have hmaxima := hsound.marks
  rw [← (CaptureSession.recorded_eq hrecorded).2] at hmaxima hexisting
  cases existing with
  | none => exact advanceFrom_none_records hmaxima hruns
  | some stored =>
      obtain ⟨hstored, huser, hdashboard⟩ := hexisting stored rfl
      exact advanceFrom_some_records hmaxima hstored huser hdashboard hruns

theorem MarkerState.Sound.commit (hsound : state.Sound) {id openId version : ℕ}
    {session : CaptureSession} {existing : Option DashboardViewerState}
    {mark : DashboardViewerState} {written after : Db}
    (hsession : state.sessions id = some session)
    (hpending : session.phase.pending = some (openId, version, existing))
    (hrecorded : session.recorded openId version state.db = some written)
    (hrecords : RecordsOpen mark existing written after state.captures
      (session.row.openRow openId version)) :
    (MarkerState.leave { state with
      db := after
      captures := state.captures ++ [session.row.openRow openId version] } id).Sound := by
  obtain ⟨hreleased, hlocked, _⟩ := (hsound.sessions id session hsession).pending hpending
  obtain ⟨hdashboards, hmarks⟩ := CaptureSession.recorded_eq hrecorded
  have hunchanged : after.dashboards = state.db.dashboards := hrecords.dashboards.trans hdashboards
  have hadvances := hrecords.advances
  rw [hmarks] at hadvances
  have hleft := hsound.leave id
  constructor
  · change CountsPublications after.dashboards state.publications
    rw [hunchanged]
    exact hsound.publications
  · exact hsound.marks.advance hadvances hrecords.user hrecords.dashboard hrecords.version
      hrecords.time
  · intro opened hopened
    change Released after.dashboards _ _
    rw [hunchanged]
    rcases List.mem_append.mp hopened with hold | hnew
    · exact hsound.opens opened hold
    · cases List.mem_singleton.mp hnew
      exact hreleased
  · intro other found hfound
    change found.phase.Sound after.dashboards after.viewerStates found.row
    rw [hunchanged]
    have hphase := hleft.sessions other found hfound
    cases hcurrent : found.phase with
    | locked foundOpen foundVersion held =>
        rw [hcurrent] at hphase
        refine ⟨hphase.1, ?_, hphase.2.2⟩
        apply (hadvances.rows held).mpr
        refine .inr ⟨hphase.2.1, ?_⟩
        intro hsame
        have hstored := hadvances.replaced held hphase.2.1 hsame
        have hother : other ≠ id := by
          rintro rfl
          simp [MarkerState.leave] at hfound
        simp only [MarkerState.leave, Function.update_of_ne hother] at hfound
        have hheld : found.phase.mark = some held := by
          rw [hcurrent]
          rfl
        exact hother (hsound.locks id session held hsession (hlocked.symm.trans hstored) other found
          held hfound hheld rfl)
    | loaded => trivial
    | checked foundVersion =>
        rw [hcurrent] at hphase
        exact hphase
    | opened foundOpen foundVersion =>
        rw [hcurrent] at hphase
        exact hphase
    | missing foundOpen foundVersion =>
        rw [hcurrent] at hphase
        exact hphase
  · exact hleft.locks

theorem MarkerStep.sound {event : MarkerEvent} {next : MarkerState} (hsound : state.Sound)
    (hstep : MarkerStep state event next) :
    next.Sound ∧
      state.db.viewerStates.Carries DashboardViewerState.NotAfter next.db.viewerStates := by
  have hrefl : state.db.viewerStates.Carries DashboardViewerState.NotAfter state.db.viewerStates :=
    Table.Carries.refl DashboardViewerState.NotAfter.refl _
  cases hstep with
  | published hruns =>
      obtain ⟨stored, hstored, hid, hversion, hmarks, hwritten⟩ :=
        publishDashboardRevision_markers hruns
      refine ⟨hsound.published hstored hid hversion hmarks hwritten, ?_⟩
      simpa [hmarks] using hrefl
  | unpublished hruns =>
      have hkeeps := unpublishDashboard_markers hruns
      refine ⟨hsound.kept hkeeps, ?_⟩
      simpa [hkeeps.marks] using hrefl
  | other hkeeps _ =>
      refine ⟨hsound.kept hkeeps, ?_⟩
      simpa [hkeeps.marks] using hrefl
  | issued _ _ _ _ =>
      refine ⟨hsound.enter rfl rfl trivial ?_, hrefl⟩
      intro mark hmark
      cases hmark
  | began _ _ _ hsource =>
      refine ⟨hsound.enter rfl rfl (Db.released_of_source hsource) ?_, hrefl⟩
      intro mark hmark
      cases hmark
  | checked _ hsource =>
      refine ⟨hsound.enter rfl rfl (Db.released_of_source hsource) ?_, hrefl⟩
      intro mark hmark
      cases hmark
  | opened hsession _ _ =>
      have hphase := hsound.sessions _ _ hsession
      refine ⟨hsound.enter rfl rfl hphase ?_, hrefl⟩
      intro mark hmark
      cases hmark
  | missed hsession _ =>
      have hphase := hsound.sessions _ _ hsession
      refine ⟨hsound.enter rfl rfl hphase ?_, hrefl⟩
      intro mark hmark
      cases hmark
  | @found id openId version row fresh phase mark hsession hphase hmark hlock =>
      have hmem : mark ∈ state.db.marksFor row := by
        rw [hmark]
        exact List.mem_singleton_self mark
      simp only [Db.marksFor, Table.mem_where?_iff, decide_eq_true_eq] at hmem
      have hreleased : Released state.db.dashboards row.dashboardId version := by
        have hbefore := hsound.sessions id _ hsession
        rcases hphase with rfl | rfl
        · exact hbefore
        · exact hbefore
      refine ⟨hsound.enter rfl rfl ⟨hreleased, hmem⟩ ?_, hrefl⟩
      intro held hheld
      cases hheld
      exact hlock
  | committed hsession hpending hrecorded hruns =>
      have hrecords := hsound.records hsession hpending hrecorded hruns
      refine ⟨hsound.commit hsession hpending hrecorded hrecords, ?_⟩
      have hcarries := hrecords.advances.carries
      rw [(CaptureSession.recorded_eq hrecorded).2] at hcarries
      exact hcarries
  | aborted _ => exact ⟨hsound.leave _, hrefl⟩

theorem MarkerState.Initial.sound (hinitial : state.Initial) : state.Sound where
  publications := by
    rw [hinitial.publications]
    constructor
    · intro dashboard hmem
      rw [hinitial.drafts dashboard hmem]
      rfl
    · intro _ _
      rfl
  marks := by
    rw [hinitial.captures]
    constructor
    · intro first hfirst
      exact absurd hfirst (hinitial.marks first)
    · intro mark hmark
      exact absurd hmark (hinitial.marks mark)
    · intro mark hmark
      exact absurd hmark (hinitial.marks mark)
    · intro opened hopened
      cases hopened
  opens opened hopened := by
    rw [hinitial.captures] at hopened
    cases hopened
  sessions id session hsession := by
    rw [hinitial.sessions id] at hsession
    cases hsession
  locks id session mark hsession := by
    rw [hinitial.sessions id] at hsession
    cases hsession

theorem sound_of_reachable (hreach : markerSystem.Reachable state) : state.Sound :=
  hreach.invariant (fun _ hinitial => MarkerState.Initial.sound hinitial)
    fun _ _ _ hsound hstep => (MarkerStep.sound hsound hstep).1

end Steps

/-! ## The marker -/

/-- `_personal_limit`. -/
def personalLimit (limit : ℤ) : Except Failure ℕ :=
  if 1 ≤ limit ∧ limit ≤ 10 then .ok limit.toNat
  else .error (.value "limit must be between 1 and 10")

/-- `recently_viewed_dashboards` of the personal lists. -/
def Db.personalRecentlyViewed (db : Db) (userId : Uuid) (limit : ℤ) :
    Except Failure (List ((Dashboard × DashboardViewerState) × Bool)) := do
  let bounded ← personalLimit limit
  .ok ((viewerStateColumns.markedDashboards db db.viewerStates.rows userId none
    (db.viewedQualifies userId) bounded).map fun row => (row, hasNewPublication row))

/-- The flag of a dashboard and a viewer state is set exactly when a publication was committed
after the newest one that the viewer has a captured open of. -/
def MarkerState.ReportsExactly (state : MarkerState) (row : Dashboard × DashboardViewerState)
    (flag : Bool) : Prop :=
  ∃ newest, IsGreatest (openedValues AuthorizedOpen.publicationVersion state.captures
      row.2.userId row.1.id) newest ∧
    (flag = true ↔ PublishedAfter state.publications row.1.id newest)

section Marker

variable {state : MarkerState} {mark : DashboardViewerState} {dashboard : Dashboard}

theorem MarkerState.Sound.released_seen (hsound : state.Sound)
    (hmark : mark ∈ state.db.viewerStates) :
    Released state.db.dashboards mark.dashboardId mark.seenPublicationVersion := by
  obtain ⟨opened, hopened, _, hdashboard, hversion⟩ := (hsound.marks.versions mark hmark).1
  rw [← hdashboard, ← hversion]
  exact hsound.opens opened hopened

theorem MarkerState.Sound.reports (hsound : state.Sound) (hmark : mark ∈ state.db.viewerStates)
    (hdashboard : state.db.dashboards.get? mark.dashboardId = some dashboard) :
    mark.seenPublicationVersion ≤ dashboard.publicationVersion ∧
      state.ReportsExactly (dashboard, mark) (hasNewPublication (dashboard, mark)) := by
  obtain ⟨hpositive, stored, hstored, hle⟩ := hsound.released_seen hmark
  cases Option.some.inj (hdashboard.symm.trans hstored)
  have hid : dashboard.id = mark.dashboardId := Table.key_of_get? hdashboard
  have hversions := hsound.publications.released dashboard (Table.mem_of_get? hdashboard)
  refine ⟨hle, mark.seenPublicationVersion, ?_, ?_⟩
  · rw [hid]
    exact hsound.marks.versions mark hmark
  · rw [publishedAfter_iff hversions hpositive hle, hasNewPublication, decide_eq_true_eq]

theorem mem_markedDashboards {db : Db} {userId : Uuid} {before : Option DescendingTimeCursor}
    {qualifies : Dashboard → Bool} {bounded : ℕ} {row : Dashboard × DashboardViewerState}
    (hrow : row ∈ viewerStateColumns.markedDashboards db db.viewerStates.rows userId before
      qualifies bounded) :
    row.2 ∈ db.viewerStates ∧ db.dashboards.get? row.2.dashboardId = some row.1 := by
  have hlisted := List.mem_of_mem_take hrow
  rw [Keyset.ordered, List.mem_insertionSort, List.mem_flatMap] at hlisted
  obtain ⟨dashboard, hdashboard, hlisted⟩ := hlisted
  obtain ⟨mark, hmark, rfl⟩ := List.mem_map.mp hlisted
  obtain ⟨hmark, hjoined⟩ := List.mem_filter.mp hmark
  rw [decide_eq_true_eq] at hjoined
  have hid : mark.dashboardId = dashboard.id := hjoined.1
  refine ⟨hmark, ?_⟩
  rw [hid]
  exact Table.get?_of_mem hdashboard

theorem MarkerState.Sound.reports_listed (hsound : state.Sound) {userId : Uuid}
    {before : Option DescendingTimeCursor} {qualifies : Dashboard → Bool} {bounded : ℕ}
    {item : (Dashboard × DashboardViewerState) × Bool}
    (hitem : item ∈ (viewerStateColumns.markedDashboards state.db state.db.viewerStates.rows
      userId before qualifies bounded).map fun row => (row, hasNewPublication row)) :
    state.ReportsExactly item.1 item.2 := by
  obtain ⟨row, hrow, rfl⟩ := List.mem_map.mp hitem
  obtain ⟨hmark, hdashboard⟩ := mem_markedDashboards hrow
  exact (hsound.reports hmark hdashboard).2

end Marker

/-- In every run of publications, withdrawals and interleaved captures, no viewer state is ahead
of its dashboard or goes backwards, and the marker is exact wherever it is reported. -/
theorem new_publication_marker_exact {first last : MarkerState} {events : List MarkerEvent}
    (hreach : markerSystem.Reachable first) (hpath : markerSystem.Path first events last) :
    (∀ mark ∈ last.db.viewerStates, ∃ dashboard,
      last.db.dashboards.get? mark.dashboardId = some dashboard ∧
        mark.seenPublicationVersion ≤ dashboard.publicationVersion ∧
          last.ReportsExactly (dashboard, mark) (hasNewPublication (dashboard, mark))) ∧
      first.db.viewerStates.Carries DashboardViewerState.NotAfter last.db.viewerStates ∧
        (∀ userId limit before items,
          last.db.recentlyViewedDashboards userId limit before = .ok items →
            ∀ item ∈ items, last.ReportsExactly item.1 item.2) ∧
          ∀ userId limit items, last.db.personalRecentlyViewed userId limit = .ok items →
            ∀ item ∈ items, last.ReportsExactly item.1 item.2 := by
  have hsound := sound_of_reachable (hreach.path hpath)
  refine ⟨?_, ?_, ?_, ?_⟩
  · intro mark hmark
    obtain ⟨_, dashboard, hdashboard, _⟩ := hsound.released_seen hmark
    exact ⟨dashboard, hdashboard, hsound.reports hmark hdashboard⟩
  · apply hpath.related hreach
    · intro state
      exact Table.Carries.refl DashboardViewerState.NotAfter.refl state.db.viewerStates
    · intro a b c hbefore hafter
      exact hbefore.trans hafter DashboardViewerState.NotAfter.trans
    · intro before event after hbefore hstep
      exact (MarkerStep.sound (sound_of_reachable hbefore) hstep).2
  · intro userId limit before items hitems item hitem
    unfold Db.recentlyViewedDashboards at hitems
    cases hbounded : boundedLimit limit with
    | error failure =>
        rw [hbounded] at hitems
        cases hitems
    | ok bounded =>
        rw [hbounded] at hitems
        cases hitems
        exact hsound.reports_listed hitem
  · intro userId limit items hitems item hitem
    unfold Db.personalRecentlyViewed at hitems
    cases hbounded : personalLimit limit with
    | error failure =>
        rw [hbounded] at hitems
        cases hitems
    | ok bounded =>
        rw [hbounded] at hitems
        cases hitems
        exact hsound.reports_listed hitem

/-- A view of one publication is captured before the next. -/
theorem reissue_path {start : MarkerState} {platform : Platform}
    {firstContext issueContext secondContext : CallContext}
    {dashboardId actorId revisionId viewerId : Uuid} {note : Text} {dataAsOf : Option Time}
    {interval : Option ℤ} {firstAt issuedAt secondAt : Time} {token : ℕ → BearerToken}
    {first second : Dashboard} {credential : RenderCredential} {once viewed twice : Db}
    (hstart : start.Initial)
    (hfirst : (publishDashboardRevision platform firstContext dashboardId actorId revisionId note
      dataAsOf interval firstAt).Runs start.db first once)
    (hissue : (issuePublishedView platform issueContext token dashboardId viewerId
      issuedAt).Runs once credential viewed)
    (hsecond : (publishDashboardRevision platform secondContext dashboardId actorId revisionId
      note dataAsOf interval secondAt).Runs viewed second twice) :
    ∃ before after, markerSystem.Reachable before ∧
      markerSystem.Path before [.publication] after ∧ after.db = twice := by
  have hpublished : markerSystem.step start .publication { start with
      db := once
      publications := start.publications ++ [(dashboardId, first.publicationVersion)] } :=
    .published hfirst
  have hidle : ∀ other, ({ start with
      db := once
      publications := start.publications ++ [(dashboardId, first.publicationVersion)] } :
        MarkerState).sessions other = none :=
    hstart.sessions
  obtain ⟨captures, hcaptured⟩ := issuePublishedView_path hidle 0 hissue
  have hreach := ((TransitionSystem.Reachable.initial hstart).step hpublished).path hcaptured
  exact ⟨_, _, hreach, .single (.published hsecond), rfl⟩

def markerStart : MarkerState where
  db := runCalls asciiPlatform revisionCalls
  publications := []
  captures := []
  sessions := fun _ => none

def samplePublication (clock : Time) (firstUuid : Uuid) : Tx Dashboard :=
  publishDashboardRevision asciiPlatform (contextAt clock firstUuid) 3 1 5 [] none none clock

def sampleIssue : Tx RenderCredential :=
  issuePublishedView asciiPlatform (contextAt 7 8) firstToken 3 1 7

theorem reissued_publication_is_new :
    ∃ state dashboard mark, markerSystem.Reachable state ∧ mark ∈ state.db.viewerStates ∧
      state.db.dashboards.get? mark.dashboardId = some dashboard ∧
        hasNewPublication (dashboard, mark) = true ∧
          state.ReportsExactly (dashboard, mark) (hasNewPublication (dashboard, mark)) := by
  have hstart : markerStart.Initial := by
    constructor
    · intro mark
      have hnone : markerStart.db.viewerStates.rows = [] := by decide +kernel
      rw [Table.mem_def, hnone]
      exact List.not_mem_nil
    · decide +kernel
    · rfl
    · rfl
    · exact fun _ => rfl
  have hfirst : ((samplePublication 6 7).value? markerStart.db).isSome = true := by
    decide +kernel
  have hissue : (sampleIssue.value? ((samplePublication 6 7).settle markerStart.db)).isSome =
      true := by
    decide +kernel
  have hsecond : ((samplePublication 9 10).value?
      (sampleIssue.settle ((samplePublication 6 7).settle markerStart.db))).isSome = true := by
    decide +kernel
  obtain ⟨first, hfirst⟩ := Option.isSome_iff_exists.mp hfirst
  obtain ⟨credential, hissue⟩ := Option.isSome_iff_exists.mp hissue
  obtain ⟨second, hsecond⟩ := Option.isSome_iff_exists.mp hsecond
  obtain ⟨before, after, hreach, hpath, hdb⟩ := reissue_path hstart (runs_of_value? hfirst)
    (runs_of_value? hissue) (runs_of_value? hsecond)
  have hfinal : after.db = (samplePublication 9 10).settle
      (sampleIssue.settle ((samplePublication 6 7).settle markerStart.db)) :=
    hdb
  have hnew : ∃ mark ∈ ((samplePublication 9 10).settle
        (sampleIssue.settle ((samplePublication 6 7).settle markerStart.db))).viewerStates.rows,
      (((samplePublication 9 10).settle (sampleIssue.settle
        ((samplePublication 6 7).settle markerStart.db))).dashboards.get? mark.dashboardId).any
          (fun dashboard => hasNewPublication (dashboard, mark)) = true := by
    decide +kernel
  obtain ⟨mark, hmark, hany⟩ := hnew
  obtain ⟨dashboard, hdashboard, hnew⟩ := (Option.any_eq_true ..).mp hany
  rw [← hfinal] at hmark hdashboard
  obtain ⟨found, hfound, _, hreports⟩ := (new_publication_marker_exact hreach hpath).1 mark hmark
  cases Option.some.inj (hdashboard.symm.trans hfound)
  exact ⟨after, dashboard, mark, hreach.path hpath, hmark, hdashboard, hnew, hreports⟩

end Agora
