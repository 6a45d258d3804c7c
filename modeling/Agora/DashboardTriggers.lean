import Agora.DashboardLifecycle
import Agora.SqlConditions

/-!
# The triggers on dashboards

`AGORA_DASHBOARD_GUARD` and `AGORA_DASH_META_GUARD` restate the lifecycle of a
dashboard over columns that may be null.  Every change that `Dashboard.save`
accepts passes both, and so does every change of owner that a transfer makes.
-/

namespace Agora

open Sql Transaction

/-- `CHR(0)`. -/
def chr0 : Text :=
  [Char.ofNat 0]

/-! ## The guard of the publication and freshness columns -/

/-- The sum of a time and an interval of seconds, null when either is. -/
def plusSeconds (time : Option Time) (interval : Option ℤ) : Option Time :=
  time.bind fun start => interval.map fun length => start + seconds length

/-- The checks of `AGORA_DASH_META_GUARD` on any written row. -/
def Dashboard.freshnessGuard (new : Dashboard) : Guard := do
  if isNull new.freshnessIntervalSeconds = .holds then
    raiseWhen ((isNotNull new.freshnessConfirmedAt).or (isNotNull new.staleAfter)) (-20021)
      "freshness fields must be set together"
  else
    raiseWhen
      ((less new.freshnessIntervalSeconds (some 1)).or <|
        (less (some 31536000) new.freshnessIntervalSeconds).or <|
        (isNull new.freshnessConfirmedAt).or <|
        isNull new.staleAfter)
      (-20021) "freshness interval is invalid"
    raiseWhen
      (differs new.staleAfter (plusSeconds new.freshnessConfirmedAt new.freshnessIntervalSeconds))
      (-20021) "stale-after does not match freshness claim"

def Dashboard.releaseGuard (new : Dashboard) : Guard :=
  raiseWhen
    (((equals (some new.publicationVersion) (some 0)).and (isNotNull new.lastPublishedAt)).or
      ((less (some 0) (some new.publicationVersion)).and (isNull new.lastPublishedAt)))
    (-20021) "publication version and time do not match"

/-- The checks of `AGORA_DASH_META_GUARD` on the version of an updated row. -/
def Dashboard.versionGuard (old new : Dashboard) : Guard := do
  raiseWhen
    ((less (some new.publicationVersion) (some old.publicationVersion)).or
      (less (some (old.publicationVersion + 1)) (some new.publicationVersion)))
    (-20021) "publication version must advance by one"
  if equals (some new.publicationVersion) (some (old.publicationVersion + 1)) = .holds then
    raiseWhen
      ((differs (some new.state) (some .published)).or <|
        (isNull new.publishedRevisionId).or <|
        (isNull new.lastPublishedAt).or <|
        (isNotNull old.lastPublishedAt).and (less new.lastPublishedAt old.lastPublishedAt))
      (-20021) "publication version lacks a valid release"
  else
    raiseWhen
      ((distinct new.lastPublishedAt old.lastPublishedAt).or <|
        differs (nvl (textColumn new.publicationNote) chr0)
          (nvl (textColumn old.publicationNote) chr0))
      (-20021) "release metadata changes require a new version"
    raiseWhen
      ((equals (some new.state) (some .published)).and <|
        (equals (some old.state) (some .published)).and <|
        distinct new.publishedRevisionId old.publishedRevisionId)
      (-20021) "republish must advance publication version"

/-- `AGORA_DASH_META_GUARD`, which does not fire on deletion. -/
def dashboardMetaGuard : RowEvent Dashboard → Guard
  | .inserting new => do
      new.freshnessGuard
      new.releaseGuard
      raiseWhen
        ((differs (some new.publicationVersion) (some 0)).or (isNotNull new.lastPublishedAt))
        (-20021) "new dashboards have no publication version"
  | .updating old new => do
      new.freshnessGuard
      new.releaseGuard
      old.versionGuard new
  | .deleting _ => .ok ⟨⟩

/-! ## The guard of identity, ownership and lifecycle -/

/-- `description_changed`. -/
def Dashboard.descriptionChanged (old new : Dashboard) : Bool :=
  if (isNull (textColumn old.description)).and (isNotNull (textColumn new.description)) =
      .holds then true
  else if (isNotNull (textColumn old.description)).and (isNull (textColumn new.description)) =
      .holds then true
  else
    (isNotNull (textColumn old.description)).and
      (differs (textColumn old.description) (textColumn new.description)) = .holds

/-- The columns that neither a transfer nor an archived dashboard may change, other than
the description. -/
def Dashboard.contentDiffers (old new : Dashboard) : Truth :=
  (differs (textColumn new.name) (textColumn old.name)).or <|
  (distinct new.latestRevisionId old.latestRevisionId).or <|
  (distinct new.publishedRevisionId old.publishedRevisionId).or <|
  (distinct new.firstPublishedAt old.firstPublishedAt).or <|
  (differs (some new.publicationVersion) (some old.publicationVersion)).or <|
  (distinct new.lastPublishedAt old.lastPublishedAt).or <|
  (differs (nvl (textColumn new.publicationNote) chr0)
    (nvl (textColumn old.publicationNote) chr0)).or <|
  (distinct new.dataAsOf old.dataAsOf).or <|
  (distinct new.freshnessIntervalSeconds old.freshnessIntervalSeconds).or <|
  (distinct new.freshnessConfirmedAt old.freshnessConfirmedAt).or <|
  (distinct new.staleAfter old.staleAfter).or <|
  differs (some new.createdAt) (some old.createdAt)

def markerMissing : Raised :=
  ⟨-20002, "ownership transfer marker is missing"⟩

/-- `AGORA_DASHBOARD_GUARD` on a change of owner. -/
def Dashboard.transferGuard (db : Db) (old new : Dashboard) : Guard := do
  raiseWhen
    ((within (some old.state) [.draft, .published, .unpublished]).not.or <|
      (differs (some new.state) (some old.state)).or <|
      (isNull new.lastOwnershipTransferId).or <|
      equals new.lastOwnershipTransferId old.lastOwnershipTransferId)
    (-20002) "ownership transfer state is invalid"
  raiseWhen (old.contentDiffers new) (-20002) "transfer must preserve dashboard state"
  raiseWhen (known (old.descriptionChanged new = true)) (-20002)
    "transfer must preserve dashboard description"
  let marker ← selectInto (new.lastOwnershipTransferId.bind db.transfers.get?) markerMissing
  raiseWhen
    ((differs (some marker.dashboardId) (some old.id)).or <|
      (differs (some marker.fromOwnerId) (some old.ownerId)).or <|
      (differs (some marker.toOwnerId) (some new.ownerId)).or <|
      distinct marker.previousTransferId old.lastOwnershipTransferId)
    (-20002) "ownership transfer marker is invalid"
  let outgoing ← selectInto (db.users.get? old.ownerId) markerMissing
  let incoming ← selectInto (db.users.get? new.ownerId) markerMissing
  raiseWhen
    ((differs (some outgoing.isActive) (some true)).or
      (differs (some incoming.isActive) (some true)))
    (-20002) "ownership transfer users must be active"
  raiseWhen
    (differs (some (db.grants.where? fun grant => grant.dashboardId = old.id ∧
      grant.viewerId = new.ownerId ∧ grant.revokedAt = none).length) (some 0))
    (-20002) "incoming owner grant must be revoked"
  raiseWhen
    (differs (some (db.accessRequests.where? fun request => request.dashboardId = old.id ∧
      request.requesterId = new.ownerId ∧ request.status = .pending).length) (some 0))
    (-20002) "incoming owner request must be resolved"

/-- The transitions that `AGORA_DASHBOARD_GUARD` allows. -/
def Dashboard.transitionAllowed (old new : Dashboard) : Truth :=
  ((equals (some old.state) (some .draft)).and
    (within (some new.state) [.draft, .published, .archived, .deleted])).or <|
  ((equals (some old.state) (some .published)).and
    (within (some new.state) [.published, .unpublished, .archived, .deleted])).or <|
  ((equals (some old.state) (some .unpublished)).and
    (within (some new.state) [.unpublished, .published, .archived, .deleted])).or <|
  ((equals (some old.state) (some .archived)).and
    (equals (some new.state) (some .deleted))).or <|
  ((equals (some old.state) (some .archived)).and <|
    (isNull old.firstPublishedAt).and (equals (some new.state) (some .draft))).or <|
  (equals (some old.state) (some .archived)).and <|
    (isNotNull old.firstPublishedAt).and (equals (some new.state) (some .unpublished))

/-- `AGORA_DASHBOARD_GUARD` on an update that keeps the owner. -/
def Dashboard.lifecycleGuard (old new : Dashboard) : Guard := do
  raiseWhen (distinct new.lastOwnershipTransferId old.lastOwnershipTransferId) (-20002)
    "transfer marker changes only with owner"
  raiseWhen (equals (some old.state) (some .deleted)) (-20002)
    "deleted dashboards are terminal tombstones"
  raiseWhen
    ((isNotNull old.firstPublishedAt).and
      ((isNull new.firstPublishedAt).or (differs new.firstPublishedAt old.firstPublishedAt)))
    (-20002) "first publication time is immutable"
  raiseWhen
    ((isNull old.firstPublishedAt).and <|
      (isNotNull new.firstPublishedAt).and <|
      ((equals (some old.state) (some .draft)).and
        (equals (some new.state) (some .published))).not)
    (-20002) "publication history begins only with first publication"
  raiseWhen (old.transitionAllowed new).not (-20002)
    "dashboard lifecycle transition is not allowed"
  raiseWhen
    ((equals (some old.state) (some .archived)).and
      ((known (old.descriptionChanged new = true)).or (old.contentDiffers new)))
    (-20002) "archived dashboards are read-only"

/-- `AGORA_DASHBOARD_GUARD`. -/
def dashboardGuard (db : Db) : RowEvent Dashboard → Guard
  | .inserting new =>
      raiseWhen
        ((differs (some new.state) (some .draft)).or <|
          (isNotNull new.latestRevisionId).or <|
          (isNotNull new.publishedRevisionId).or <|
          (isNotNull new.firstPublishedAt).or <|
          isNotNull new.lastOwnershipTransferId)
        (-20002) "new dashboards must begin as private drafts"
  | .updating old new => do
      raiseWhen (differs (some new.id) (some old.id)) (-20002)
        "dashboard identity is immutable"
      if differs (some new.ownerId) (some old.ownerId) = .holds then
        old.transferGuard db new
      else
        old.lifecycleGuard new
  | .deleting _ => .error ⟨-20002, "dashboards cannot be hard-deleted"⟩

/-- `agora_dashboard_publication_state`. -/
def Dashboard.publicationState (row : Dashboard) : Truth :=
  ((equals (some row.state) (some .published)).and (isNotNull row.publishedRevisionId)).or
    ((equals (some row.state) (some .published)).not.and (isNull row.publishedRevisionId))

/-! ## The columns that other triggers read -/

/-- The columns of a dashboard as the table holds them: the state may be null. -/
structure DashboardColumns where
  id : Uuid
  ownerId : Uuid
  state : Option DashboardState
  publishedRevisionId : Option Uuid
  publicationVersion : ℕ
  lastOwnershipTransferId : Option Uuid
  deriving DecidableEq

def Dashboard.columns (row : Dashboard) : DashboardColumns where
  id := row.id
  ownerId := row.ownerId
  state := some row.state
  publishedRevisionId := row.publishedRevisionId
  publicationVersion := row.publicationVersion
  lastOwnershipTransferId := row.lastOwnershipTransferId

/-- `agora_dashboard_publication_state`, which a null state passes with any revision. -/
def DashboardColumns.publicationState (row : DashboardColumns) : Truth :=
  ((isNotNull row.publishedRevisionId).and (equals row.state (some .published))).or <|
    ((equals row.state (some .published)).and (isNotNull row.state)).not.and
      (isNull row.publishedRevisionId)

theorem DashboardColumns.publishedRevision_ne_none {row : DashboardColumns}
    (hstate : row.publicationState ≠ .fails) (hpublished : row.state = some .published) :
    row.publishedRevisionId ≠ none := by
  intro hnone
  simp [publicationState, hpublished, hnone] at hstate

/-! ## Accepted saves pass both triggers -/

variable {db : Db} {row original : Dashboard}

theorem Dashboard.Valid.accepts_freshnessGuard (hvalid : row.Valid db) :
    Accepts row.freshnessGuard := by
  unfold Dashboard.freshnessGuard
  obtain ⟨hinterval, hconfirmed, hstale⟩ | ⟨interval, confirmed, hinterval, hconfirmed, hstale⟩ :=
    hvalid.inStep.claim
  · simp [hinterval, hconfirmed, hstale]
  · have hbounds := hvalid.interval interval hinterval
    simp only [hinterval, hconfirmed, hstale, plusSeconds]
    simp
    omega

theorem Dashboard.Valid.accepts_releaseGuard (hvalid : row.Valid db) :
    Accepts row.releaseGuard := by
  have hreleased := hvalid.released
  unfold Dashboard.releaseGuard
  cases hlast : row.lastPublishedAt with
  | none =>
      rw [hlast] at hreleased
      simp [hreleased.mpr rfl]
  | some published =>
      rw [hlast] at hreleased
      have hpositive : row.publicationVersion ≠ 0 := fun hzero =>
        Option.some_ne_none _ (hreleased.mp hzero)
      simpa using hpositive

theorem Dashboard.Follows.accepts_versionGuard (hfollows : row.Follows original) :
    Accepts (original.versionGuard row) := by
  have hle := hfollows.versionLe
  have hstep := hfollows.versionStep
  unfold Dashboard.versionGuard
  by_cases hadvance : row.publicationVersion = original.publicationVersion + 1
  · obtain ⟨⟨hstate, hrevision⟩, published, hpublished, hlater⟩ := hfollows.advanced hadvance
    rw [Option.mem_def] at hpublished
    have hordered : ∀ earlier, original.lastPublishedAt = some earlier → ¬ published < earlier :=
      fun earlier hearlier => not_lt.mpr (hlater earlier hearlier)
    simp only [accepts_bind, accepts_ite, accepts_raiseWhen]
    refine ⟨?_, fun _ => ?_, fun hkept => absurd ?_ hkept⟩
    · simp
      omega
    · simpa [hstate, hrevision, hpublished] using fun _ => hordered
    · simpa using hadvance
  · obtain ⟨hlast, hnote, hrepublish⟩ := hfollows.kept hadvance
    simp only [accepts_bind, accepts_ite, accepts_raiseWhen]
    refine ⟨?_, fun hnew => absurd ?_ hadvance, fun _ => ⟨?_, ?_⟩⟩
    · simp
      omega
    · simpa using hnew
    · simp [hlast, hnote]
    · simpa using hrepublish

theorem descriptionChanged_of_eq (hsame : row.description = original.description) :
    original.descriptionChanged row = false := by
  unfold Dashboard.descriptionChanged
  rw [hsame]
  simp

/-- An archived dashboard keeps its content, since its next state is not published. -/
theorem Dashboard.contentDiffers_of_archived (hfollows : row.Follows original)
    (hvalid : row.Valid db) (hstate : original.publicationState ≠ .fails)
    (hcreated : row.createdAt = original.createdAt) (harchived : original.state = .archived) :
    original.contentDiffers row ≠ .holds := by
  have hunpublished : row.state ≠ .published := by
    intro hpublished
    have hallowed := hfollows.allowed
    rw [harchived, hpublished] at hallowed
    contradiction
  have hversion : row.publicationVersion ≠ original.publicationVersion + 1 := by
    intro hadvance
    exact hunpublished (hfollows.advanced hadvance).1.1
  have hsameVersion : row.publicationVersion = original.publicationVersion := by
    have hle := hfollows.versionLe
    have hstep := hfollows.versionStep
    omega
  have hlast := (hfollows.kept hversion).1
  have hfirst : row.firstPublishedAt = original.firstPublishedAt := by
    by_cases hnone : original.firstPublishedAt = none
    · by_contra hset
      rw [hnone] at hset
      exact hunpublished (hfollows.firstSet hnone hset).2
    · exact hfollows.firstKept hnone
  have hrevision : row.publishedRevisionId = none := by
    by_contra hset
    exact hunpublished (hvalid.published.mpr (Option.isSome_iff_ne_none.mpr hset))
  have horiginal : original.publishedRevisionId = none := by
    by_contra hset
    simp [Dashboard.publicationState, harchived, hset] at hstate
  obtain ⟨hname, _, hlatest, hnote, hasOf, hinterval, hconfirmed, hstale⟩ :=
    hfollows.archived harchived
  simp only [Dashboard.contentDiffers, hname, hlatest, hnote, hasOf, hinterval, hconfirmed,
    hstale, hsameVersion, hlast, hfirst, hrevision, horiginal, hcreated]
  simp

theorem Dashboard.Follows.transitionAllowed (hfollows : row.Follows original) :
    original.transitionAllowed row = .holds := by
  have hallowed := hfollows.allowed
  simp only [Dashboard.transitionAllowed]
  cases hold : original.state <;> cases hnew : row.state <;>
    cases hfirst : original.firstPublishedAt <;>
      simp [hold, hnew, hfirst, DashboardState.allows] at hallowed ⊢

theorem Dashboard.Follows.accepts_lifecycleGuard (hfollows : row.Follows original)
    (hvalid : row.Valid db) (hstate : original.publicationState ≠ .fails)
    (htransfer : row.lastOwnershipTransferId = original.lastOwnershipTransferId)
    (hcreated : row.createdAt = original.createdAt) : Accepts (original.lifecycleGuard row) := by
  unfold Dashboard.lifecycleGuard
  simp only [accepts_bind, accepts_raiseWhen]
  refine ⟨?_, ?_, ?_, ?_, ?_, ?_⟩
  · simp [htransfer]
  · simpa using hfollows.alive
  · by_cases hnone : original.firstPublishedAt = none
    · simp [hnone]
    · rw [hfollows.firstKept hnone]
      simp [hnone]
  · simp only [ne_eq, Truth.and_eq_holds, Truth.not_eq_holds, Truth.and_eq_fails, isNull_eq_holds,
      isNotNull_eq_holds]
    rintro ⟨hnone, hset, hother⟩
    obtain ⟨hdraft, hpublished⟩ := hfollows.firstSet hnone hset
    simp [hdraft, hpublished] at hother
  · simp [hfollows.transitionAllowed]
  · intro hholds
    simp only [Truth.and_eq_holds, Truth.or_eq_holds, known_eq_holds] at hholds
    obtain ⟨harchived, hchanged⟩ := hholds
    have harchived : original.state = .archived := by simpa using harchived
    obtain hdescription | hcontent := hchanged
    · rw [descriptionChanged_of_eq (hfollows.archived harchived).2.1] at hdescription
      contradiction
    · exact Dashboard.contentDiffers_of_archived hfollows hvalid hstate hcreated harchived hcontent

/-- A full save that keeps the time of creation passes both triggers. -/
theorem dashboard_triggers_accept_saves {context : CallContext} {saved : Dashboard} {after : Db}
    (hstored : db.dashboards.get? row.id = some original)
    (hstate : original.publicationState ≠ .fails)
    (hcreated : row.createdAt = original.createdAt)
    (hruns : (row.save context).Runs db saved after) :
    Accepts (dashboardGuard db (.updating original saved)) ∧
      Accepts (dashboardMetaGuard (.updating original saved)) := by
  obtain ⟨stored, hread, ⟨howner, htransfer⟩, rfl, hfollows, hvalid, _⟩ :=
    Dashboard.runs_save.mp hruns
  cases Option.some.inj (hstored.symm.trans hread)
  have hfields := @Dashboard.savedOver_kept context.clock row original
  have hid : original.id = (row.savedOver context.clock original).id := by
    rw [Dashboard.savedOver_id]
    exact Table.key_of_get? hstored
  have hkeptCreated : (row.savedOver context.clock original).createdAt = original.createdAt := by
    rw [← hcreated]
    unfold Dashboard.savedOver Dashboard.advancePublication
    split <;> rfl
  constructor
  · simp only [dashboardGuard, accepts_bind, accepts_raiseWhen, accepts_ite]
    refine ⟨?_, fun hmoved => absurd hmoved ?_, fun _ => ?_⟩
    · simp [hid]
    · simp [hfields.1, howner]
    · exact hfollows.accepts_lifecycleGuard hvalid hstate (hfields.2.1.trans htransfer.symm)
        hkeptCreated
  · simp only [dashboardMetaGuard, accepts_bind]
    exact ⟨hvalid.accepts_freshnessGuard, hvalid.accepts_releaseGuard,
      hfollows.accepts_versionGuard⟩

/-- The update of a transfer passes the guard of the dashboard. -/
theorem Dashboard.changeOwner_accepted {dashboard : Dashboard} {clock : Time}
    {marker : DashboardOwnershipTransfer} {after : Db} {done : PUnit}
    (hother : marker.toOwnerId ≠ dashboard.ownerId)
    (hruns : (dashboard.changeOwner clock marker).Runs db done after) :
    ∃ stored, db.dashboards.get? dashboard.id = some stored ∧
      Accepts (dashboardGuard db (.updating stored { stored with
        ownerId := marker.toOwnerId
        lastOwnershipTransferId := some marker.id
        updatedAt := clock })) := by
  simp only [Dashboard.changeOwner, runs_bind, runs_get, runs_found, runs_check, runs_set,
    and_assoc, exists_and_left, exists_eq_left', exists_const] at hruns
  obtain ⟨stored, hstored, howner, _, hstate, hnew, installed, hinstalled, hdashboard, hfrom, hto,
    hprevious, ⟨outgoing, houtgoing, hout⟩, ⟨incoming, hincoming, hin⟩, hgrants, hrequests, _⟩ :=
    hruns
  refine ⟨stored, hstored, ?_⟩
  simp only [dashboardGuard, accepts_bind, accepts_raiseWhen, accepts_ite]
  refine ⟨by simp, fun _ => ?_, fun hsame => absurd ?_ hsame⟩
  · simp only [Dashboard.transferGuard, accepts_bind, accepts_raiseWhen, accepts_bind_selectInto]
    refine ⟨?_, ?_, ?_, installed, hinstalled, ?_, outgoing, houtgoing, incoming, hincoming, ?_, ?_,
      ?_⟩
    · simp only [ne_eq, Truth.or_eq_holds, Truth.not_eq_holds, within_eq_fails, isNull_eq_holds,
        equals_eq_holds, not_or]
      refine ⟨?_, differs_self, by simp, ?_⟩
      · cases hold : stored.state <;> simp [hold, DashboardState.acceptsRevisions] at hstate ⊢
      · simpa [eq_comm (a := some marker.id)] using hnew
    · simp [Dashboard.contentDiffers]
    · simp [descriptionChanged_of_eq]
    · simp [hdashboard, hfrom, hto, hprevious]
    · simp [hout, hin]
    · rw [Table.where?_eq_nil hgrants]
      exact differs_self
    · rw [Table.where?_eq_nil hrequests]
      exact differs_self
  · rw [differs_some, howner]
    exact hother

/-- Publishing the stored revision of a draft passes both triggers. -/
theorem publishing_passes_triggers :
    ∃ original saved,
      (runCalls asciiPlatform revisionCalls).dashboards.get? 3 = some original ∧
        saved.publicationVersion = original.publicationVersion + 1 ∧
          Accepts (dashboardGuard (runCalls asciiPlatform revisionCalls)
            (.updating original saved)) ∧
              Accepts (dashboardMetaGuard (.updating original saved)) := by
  have hcomputed : ((runCalls asciiPlatform revisionCalls).dashboards.get? 3).map (fun original =>
      ((publishingSave.row.save (contextAt 6 7)).value?
        (runCalls asciiPlatform revisionCalls)).map fun saved =>
          decide (original.publicationState ≠ .fails ∧
            publishingSave.row.createdAt = original.createdAt ∧
              saved.publicationVersion = original.publicationVersion + 1)) =
        some (some true) := by
    decide +kernel
  obtain ⟨original, hstored, hsaves⟩ := Option.map_eq_some_iff.mp hcomputed
  obtain ⟨saved, hsaved, hholds⟩ := Option.map_eq_some_iff.mp hsaves
  obtain ⟨hstate, hcreated, hversion⟩ := of_decide_eq_true hholds
  have hread : (runCalls asciiPlatform revisionCalls).dashboards.get? publishingSave.row.id =
      some original := hstored
  exact ⟨original, saved, hstored, hversion,
    dashboard_triggers_accept_saves hread hstate hcreated (runs_of_value? hsaved)⟩

end Agora
