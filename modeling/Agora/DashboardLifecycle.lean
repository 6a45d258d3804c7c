import Agora.ServiceRuns

/-!
# The publication lifecycle of a dashboard

`Dashboard.save` accepts a row exactly when the row is valid in itself and follows
the stored original.  Whatever values are assigned between saves, these two
conditions keep the publication fields in step, save after save.
-/

namespace Agora

open Transaction

/-! ## What a save accepts -/

/-- What `full_clean` asks of a dashboard. -/
structure Dashboard.Valid (db : Db) (row : Dashboard) : Prop where
  name : row.name ≠ [] ∧ row.name.length ≤ 200
  note : row.publicationNote.length ≤ 240
  freshness : row.freshnessComplete = true
  interval : ∀ interval ∈ row.freshnessIntervalSeconds, 1 ≤ interval ∧ interval ≤ 31536000
  stale : ∀ interval ∈ row.freshnessIntervalSeconds, ∀ confirmed ∈ row.freshnessConfirmedAt,
    row.staleAfter = some (confirmed + seconds interval)
  released : row.publicationVersion = 0 ↔ row.lastPublishedAt = none
  versioned : ¬ (row.state = .published ∧ row.publicationVersion = 0)
  publishedRevision : ∀ revisionId ∈ row.publishedRevisionId,
    ∃ revision ∈ db.revisions.get? revisionId, revision.dashboardId = row.id
  latestRevision : ∀ revisionId ∈ row.latestRevisionId,
    ∃ revision ∈ db.revisions.get? revisionId, revision.dashboardId = row.id
  published : row.state = .published ↔ row.publishedRevisionId.isSome = true
  draft : row.state = .draft → row.firstPublishedAt = none
  history : row.state = .published ∨ row.state = .unpublished → row.firstPublishedAt ≠ none

/-- What `_validate_lifecycle_transition` asks of a row and its original. -/
structure Dashboard.Follows (row original : Dashboard) : Prop where
  alive : original.state ≠ .deleted
  firstKept : original.firstPublishedAt ≠ none → row.firstPublishedAt = original.firstPublishedAt
  firstSet : original.firstPublishedAt = none → row.firstPublishedAt ≠ none →
    original.state = .draft ∧ row.state = .published
  versionLe : original.publicationVersion ≤ row.publicationVersion
  versionStep : row.publicationVersion ≤ original.publicationVersion + 1
  advanced : row.publicationVersion = original.publicationVersion + 1 →
    (row.state = .published ∧ row.publishedRevisionId ≠ none) ∧
      ∃ published ∈ row.lastPublishedAt, ∀ earlier ∈ original.lastPublishedAt,
        earlier ≤ published
  kept : row.publicationVersion ≠ original.publicationVersion + 1 →
    row.lastPublishedAt = original.lastPublishedAt ∧
      row.publicationNote = original.publicationNote ∧
        ¬ (row.state = .published ∧ original.state = .published ∧
          row.publishedRevisionId ≠ original.publishedRevisionId)
  allowed : original.state.allows original.firstPublishedAt.isSome row.state = true
  archived : original.state = .archived →
    row.name = original.name ∧ row.description = original.description ∧
      row.latestRevisionId = original.latestRevisionId ∧
        row.publicationNote = original.publicationNote ∧
          row.dataAsOf = original.dataAsOf ∧
            row.freshnessIntervalSeconds = original.freshnessIntervalSeconds ∧
              row.freshnessConfirmedAt = original.freshnessConfirmedAt ∧
                row.staleAfter = original.staleAfter

theorem Dashboard.runs_fullClean {row : Dashboard} {before after : Db} {done : PUnit} :
    row.fullClean.Runs before done after ↔ row.Valid before ∧ before = after := by
  simp only [Dashboard.fullClean, Dashboard.clean, Dashboard.checkConstraints, runs_bind,
    runs_check, runs_get, and_assoc, exists_and_left, exists_eq_left', exists_const]
  constructor
  · rintro ⟨hnamed, hnamed', hnote, hfresh, hinterval, hstale, hreleased, hversioned,
      hpublishedRevision, hlatest, hpublished, hdraft, hhistory, rfl⟩
    exact ⟨⟨⟨hnamed, hnamed'⟩, hnote, hfresh, hinterval, hstale, hreleased, hversioned,
      hpublishedRevision, hlatest, hpublished, hdraft, hhistory⟩, rfl⟩
  · rintro ⟨hvalid, rfl⟩
    exact ⟨hvalid.name.1, hvalid.name.2, hvalid.note, hvalid.freshness, hvalid.interval,
      hvalid.stale, hvalid.released, hvalid.versioned, hvalid.publishedRevision,
      hvalid.latestRevision, hvalid.published, hvalid.draft, hvalid.history, rfl⟩

theorem Dashboard.runs_validateLifecycleTransition {row original : Dashboard}
    {before after : Db} {done : PUnit} :
    (row.validateLifecycleTransition original).Runs before done after ↔
      row.Follows original ∧ before = after := by
  simp only [Dashboard.validateLifecycleTransition, Dashboard.validateAdvance,
    Dashboard.validateKept, runs_bind, runs_check, runs_ite, and_assoc, exists_and_left,
    exists_eq_left', exists_const]
  constructor
  · rintro ⟨halive, hfirst, hset, hversion, hstep, hversions⟩
    obtain ⟨hadvance, hstate, hrevision, htime, hallowed, harchived, rfl⟩ |
      ⟨hsame, hlast, hnote, hrepublish, hallowed, harchived, rfl⟩ := hversions
    · exact ⟨⟨halive, hfirst, hset, hversion, hstep, fun _ => ⟨⟨hstate, hrevision⟩, htime⟩,
        fun hsame => absurd hadvance hsame, hallowed, harchived⟩, rfl⟩
    · exact ⟨⟨halive, hfirst, hset, hversion, hstep, fun hadvance => absurd hadvance hsame,
        fun _ => ⟨hlast, hnote, by simpa using hrepublish⟩, hallowed, harchived⟩, rfl⟩
  · rintro ⟨hfollows, rfl⟩
    refine ⟨hfollows.alive, hfollows.firstKept, hfollows.firstSet, hfollows.versionLe,
      hfollows.versionStep, ?_⟩
    by_cases hadvance : row.publicationVersion = original.publicationVersion + 1
    · obtain ⟨⟨hstate, hrevision⟩, htime⟩ := hfollows.advanced hadvance
      exact .inl ⟨hadvance, hstate, hrevision, htime, hfollows.allowed, hfollows.archived, rfl⟩
    · obtain ⟨hlast, hnote, hrepublish⟩ := hfollows.kept hadvance
      exact .inr ⟨hadvance, hlast, hnote, by simpa using hrepublish, hfollows.allowed,
        hfollows.archived, rfl⟩

/-- `Dashboard.save` of a stored row. -/
theorem Dashboard.runs_save {context : CallContext} {row saved : Dashboard}
    {before after : Db} :
    (row.save context).Runs before saved after ↔
      ∃ original, before.dashboards.get? row.id = some original ∧
        (original.ownerId = row.ownerId ∧
          original.lastOwnershipTransferId = row.lastOwnershipTransferId) ∧
        saved = row.savedOver context.clock original ∧ saved.Follows original ∧
          saved.Valid before ∧
            after = { before with dashboards := before.dashboards.replace saved } := by
  simp only [Dashboard.save, runs_bind, runs_get, runs_found, runs_check, runs_set, runs_pure,
    Dashboard.runs_validateLifecycleTransition, Dashboard.runs_fullClean, and_assoc,
    exists_and_left, exists_eq_left', exists_const]
  constructor
  · rintro ⟨original, hstored, howner, htransfer, hfollows, hvalid, rfl, rfl⟩
    exact ⟨original, hstored, howner, htransfer, rfl, hfollows, hvalid, rfl⟩
  · rintro ⟨original, hstored, howner, htransfer, rfl, hfollows, hvalid, rfl⟩
    exact ⟨original, hstored, howner, htransfer, hfollows, hvalid, rfl, rfl⟩

/-- `Dashboard.save` of a new row. -/
theorem Dashboard.runs_insert {row inserted : Dashboard} {before after : Db} :
    row.insert.Runs before inserted after ↔
      (row.state = .draft ∧ row.latestRevisionId = none ∧ row.publishedRevisionId = none ∧
        row.firstPublishedAt = none ∧ row.publicationVersion = 0 ∧
          row.lastPublishedAt = none ∧ row.lastOwnershipTransferId = none) ∧
        row.Valid before ∧ inserted = row ∧
          ∃ dashboards, before.dashboards.create row = some dashboards ∧
            after = { before with dashboards := dashboards } := by
  simp only [Dashboard.insert, runs_bind, runs_check, runs_get, runs_found, runs_set, runs_pure,
    Dashboard.runs_fullClean, and_assoc, exists_and_left, exists_eq_left', exists_const]
  constructor
  · rintro ⟨hstate, hlatest, hrevision, hfirst, hversion, hlast, htransfer, hvalid, dashboards,
      hcreate, rfl, rfl⟩
    exact ⟨hstate, hlatest, hrevision, hfirst, hversion, hlast, htransfer, hvalid, rfl,
      dashboards, hcreate, rfl⟩
  · rintro ⟨hstate, hlatest, hrevision, hfirst, hversion, hlast, htransfer, hvalid, rfl,
      dashboards, hcreate, rfl⟩
    exact ⟨hstate, hlatest, hrevision, hfirst, hversion, hlast, htransfer, hvalid, dashboards,
      hcreate, rfl, rfl⟩

/-! ## Sequences of saves -/

/-- A save of a dashboard: a new row, or a value for every field of a stored one.  The
rows of the other tables are those at the time of the save. -/
structure DashboardSave where
  context : CallContext
  others : Db
  adding : Bool
  row : Dashboard

def DashboardSave.body (save : DashboardSave) : Tx Dashboard :=
  if save.adding then save.row.insert else save.row.save save.context

def DashboardSave.start (save : DashboardSave) (before : Table Dashboard) : Db :=
  { save.others with dashboards := before }

/-- The table after the save, if it is accepted. -/
def DashboardSave.accept (save : DashboardSave) (before : Table Dashboard) :
    Option (Table Dashboard) :=
  (save.body.value? (save.start before)).map fun _ =>
    (save.body.settle (save.start before)).dashboards

def dashboardSaves : TransitionSystem (Table Dashboard) DashboardSave where
  initial table := table = .empty
  step before save after := save.accept before = some after

/-- The publication and freshness fields that every stored dashboard keeps in step. -/
structure Dashboard.InStep (row : Dashboard) : Prop where
  published : row.state = .published ↔ row.publishedRevisionId ≠ none
  released : row.publicationVersion = 0 ↔ row.lastPublishedAt = none
  claim : (row.freshnessIntervalSeconds = none ∧ row.freshnessConfirmedAt = none ∧
      row.staleAfter = none) ∨
    ∃ interval confirmed, row.freshnessIntervalSeconds = some interval ∧
      row.freshnessConfirmedAt = some confirmed ∧
        row.staleAfter = some (confirmed + seconds interval)

/-- What an accepted save does to the publication fields. -/
structure Dashboard.SavedAs (earlier later : Dashboard) : Prop where
  alive : earlier.state ≠ .deleted
  version : later.publicationVersion = earlier.publicationVersion ∨
    later.publicationVersion = earlier.publicationVersion + 1
  advances : later.state = .published →
    (earlier.state ≠ .published ∨
      later.publishedRevisionId ≠ earlier.publishedRevisionId) →
        later.publicationVersion = earlier.publicationVersion + 1
  released : later.publicationVersion = earlier.publicationVersion + 1 →
    later.state = .published

/-- What any number of saves keeps of a dashboard. -/
structure Dashboard.ReleasedUpTo (earlier later : Dashboard) : Prop where
  version : earlier.publicationVersion ≤ later.publicationVersion
  last : ∀ before ∈ earlier.lastPublishedAt, ∃ after ∈ later.lastPublishedAt, before ≤ after
  first : ∀ published ∈ earlier.firstPublishedAt, later.firstPublishedAt = some published

variable {earlier later : Dashboard}

theorem Dashboard.ReleasedUpTo.refl (row : Dashboard) : row.ReleasedUpTo row where
  version := le_rfl
  last before hbefore := ⟨before, hbefore, le_rfl⟩
  first _ hpublished := hpublished

theorem Dashboard.ReleasedUpTo.trans (first second third : Dashboard)
    (hfirst : first.ReleasedUpTo second) (hsecond : second.ReleasedUpTo third) :
    first.ReleasedUpTo third where
  version := hfirst.version.trans hsecond.version
  last before hbefore := by
    obtain ⟨middle, hmiddle, hle⟩ := hfirst.last before hbefore
    obtain ⟨after, hafter, hlater⟩ := hsecond.last middle hmiddle
    exact ⟨after, hafter, hle.trans hlater⟩
  first published hpublished := hsecond.first published (hfirst.first published hpublished)

theorem Dashboard.Valid.inStep {db : Db} {row : Dashboard} (hvalid : row.Valid db) :
    row.InStep where
  published := by
    rw [hvalid.published, Option.isSome_iff_ne_none]
  released := hvalid.released
  claim := by
    have hcomplete := hvalid.freshness
    unfold Dashboard.freshnessComplete at hcomplete
    cases hinterval : row.freshnessIntervalSeconds with
    | none =>
        simp [hinterval] at hcomplete
        exact .inl ⟨rfl, hcomplete⟩
    | some interval =>
        simp only [hinterval, Option.isSome_some, Bool.and_eq_true, beq_iff_eq,
          eq_comm (a := true), Option.isSome_iff_exists] at hcomplete
        obtain ⟨⟨confirmed, hconfirmed⟩, _⟩ := hcomplete
        exact .inr ⟨interval, confirmed, rfl, hconfirmed,
          hvalid.stale interval hinterval confirmed hconfirmed⟩

/-- The save spec, for the publication fields. -/
theorem Dashboard.Follows.releasedUpTo (hfollows : later.Follows earlier) :
    earlier.ReleasedUpTo later where
  version := hfollows.versionLe
  last before hbefore := by
    by_cases hadvance : later.publicationVersion = earlier.publicationVersion + 1
    · obtain ⟨_, published, hpublished, hle⟩ := hfollows.advanced hadvance
      exact ⟨published, hpublished, hle before hbefore⟩
    · rw [(hfollows.kept hadvance).1]
      exact ⟨before, hbefore, le_rfl⟩
  first published hpublished := by
    have hset : earlier.firstPublishedAt ≠ none := by
      rw [Option.mem_def.mp hpublished]
      exact Option.some_ne_none _
    rw [hfollows.firstKept hset]
    exact hpublished

theorem Dashboard.savedAs {db : Db} {clock : Time} {row original : Dashboard}
    (hbefore : original.InStep) (hfollows : (row.savedOver clock original).Follows original)
    (hvalid : (row.savedOver clock original).Valid db) :
    original.SavedAs (row.savedOver clock original) where
  alive := hfollows.alive
  version := by
    have hle := hfollows.versionLe
    have hstep := hfollows.versionStep
    omega
  advances hpublished hmoved := by
    by_contra hsame
    have hversion : (row.savedOver clock original).publicationVersion =
        original.publicationVersion := by
      have hle := hfollows.versionLe
      have hstep := hfollows.versionStep
      omega
    have hrevision := hvalid.inStep.published.mp hpublished
    have hcleaned : (row.savedOver clock original).Cleaned db :=
      ⟨hvalid.published, fun hstate => Nat.pos_of_ne_zero fun hzero =>
        hvalid.versioned ⟨hstate, hzero⟩, hvalid.publishedRevision⟩
    have hkept := Dashboard.republished_savedOver hcleaned (hfollows.kept hsame).2.2 hversion
      hrevision
    obtain hstate | hother := hmoved
    · apply hstate
      rw [hbefore.published, ← hkept]
      exact hrevision
    · exact hother hkept
  released hadvance := (hfollows.advanced hadvance).1.1

theorem DashboardSave.runs_of_accept {save : DashboardSave} {before after : Table Dashboard}
    (haccept : save.accept before = some after) :
    ∃ saved final, save.body.Runs (save.start before) saved final ∧ final.dashboards = after := by
  obtain ⟨saved, hsaved, hafter⟩ := Option.map_eq_some_iff.mp haccept
  exact ⟨saved, _, runs_of_value? hsaved, hafter⟩

theorem get?_savedOver {table : Table Dashboard} {clock : Time} {row original : Dashboard}
    (hstored : table.get? row.id = some original) :
    table.get? (Keyed.key (row.savedOver clock original)) = some original := by
  change table.get? (row.savedOver clock original).id = some original
  rwa [Dashboard.savedOver_id]

/-- An accepted save adds a valid draft or replaces a row that it follows. -/
theorem DashboardSave.accept_cases {save : DashboardSave} {before after : Table Dashboard}
    (haccept : save.accept before = some after) :
    (save.adding = true ∧ save.row.Valid (save.start before) ∧
      before.create save.row = some after) ∨
    (save.adding = false ∧ ∃ original, before.get? save.row.id = some original ∧
      (save.row.savedOver save.context.clock original).Follows original ∧
        (save.row.savedOver save.context.clock original).Valid (save.start before) ∧
          after = before.replace (save.row.savedOver save.context.clock original)) := by
  obtain ⟨saved, final, hruns, rfl⟩ := DashboardSave.runs_of_accept haccept
  unfold DashboardSave.body at hruns
  cases hadding : save.adding with
  | true =>
      rw [hadding, if_pos rfl] at hruns
      obtain ⟨_, hvalid, _, dashboards, hcreate, rfl⟩ := Dashboard.runs_insert.mp hruns
      exact .inl ⟨rfl, hvalid, hcreate⟩
  | false =>
      rw [hadding, if_neg Bool.false_ne_true] at hruns
      obtain ⟨original, hstored, _, rfl, hfollows, hvalid, rfl⟩ := Dashboard.runs_save.mp hruns
      exact .inr ⟨rfl, original, hstored, hfollows, hvalid, rfl⟩

theorem inStep_of_accept {save : DashboardSave} {before after : Table Dashboard}
    (hbefore : ∀ row ∈ before, row.InStep) (haccept : save.accept before = some after) :
    ∀ row ∈ after, row.InStep := by
  intro row hrow
  obtain ⟨_, hvalid, hcreate⟩ | ⟨_, original, hstored, _, hvalid, rfl⟩ :=
    DashboardSave.accept_cases haccept
  · obtain rfl | hold := (Table.mem_of_create hcreate).mp hrow
    · exact hvalid.inStep
    · exact hbefore row hold
  · obtain rfl | ⟨hold, _⟩ := (Table.mem_replace (get?_savedOver hstored)).mp hrow
    · exact hvalid.inStep
    · exact hbefore row hold

theorem inStep_of_reachable {table : Table Dashboard} (hreach : dashboardSaves.Reachable table) :
    ∀ row ∈ table, row.InStep := by
  apply hreach.invariant
  · rintro start rfl row hrow
    simp at hrow
  · intro before save after hbefore hstep
    exact inStep_of_accept hbefore hstep

theorem releasedUpTo_of_accept {save : DashboardSave} {before after : Table Dashboard}
    (haccept : save.accept before = some after) :
    before.Carries Dashboard.ReleasedUpTo after := by
  obtain ⟨_, _, hcreate⟩ | ⟨_, original, hstored, hfollows, _, rfl⟩ :=
    DashboardSave.accept_cases haccept
  · exact .of_create Dashboard.ReleasedUpTo.refl hcreate
  · exact .of_replace Dashboard.ReleasedUpTo.refl (get?_savedOver hstored)
      hfollows.releasedUpTo

/-- Over any sequence of accepted saves the publication fields of every dashboard stay in
step, each save advances them by the rules, a deleted dashboard is final, and versions and
times of release only grow. -/
theorem publication_lifecycle {before : Table Dashboard}
    (hreach : dashboardSaves.Reachable before) :
    (∀ row ∈ before, row.InStep) ∧
    (∀ save after, dashboardSaves.step before save after → save.adding = false →
      ∃ earlier later, before.get? save.row.id = some earlier ∧
        after.get? save.row.id = some later ∧ earlier.SavedAs later) ∧
    ∀ saves after, dashboardSaves.Path before saves after → ∀ earlier ∈ before,
      ∃ later ∈ after, later.id = earlier.id ∧ earlier.ReleasedUpTo later := by
  have hinStep := inStep_of_reachable hreach
  refine ⟨hinStep, ?_, ?_⟩
  · intro save after hstep hstored
    obtain ⟨hadding, _⟩ | ⟨_, original, horiginal, hfollows, hvalid, rfl⟩ :=
      DashboardSave.accept_cases hstep
    · rw [hstored] at hadding
      contradiction
    · refine ⟨original, _, horiginal, ?_,
        Dashboard.savedAs (hinStep original (Table.mem_of_get? horiginal)) hfollows hvalid⟩
      have hsaved := Table.get?_replace_self (@get?_savedOver _ save.context.clock _ _ horiginal)
      change (before.replace _).get? (save.row.savedOver save.context.clock original).id = _
        at hsaved
      rwa [Dashboard.savedOver_id] at hsaved
  · intro saves after hpath earlier hearlier
    have hcarries : before.Carries Dashboard.ReleasedUpTo after := by
      apply hpath.related hreach (Table.Carries.refl Dashboard.ReleasedUpTo.refl)
      · intro first second third hfirst hsecond
        exact hfirst.trans hsecond Dashboard.ReleasedUpTo.trans
      · intro first save second _ hstep
        exact releasedUpTo_of_accept hstep
    obtain ⟨later, hlater, hreleased⟩ := hcarries earlier.id earlier (Table.get?_of_mem hearlier)
    exact ⟨later, Table.mem_of_get? hlater, Table.key_of_get? hlater, hreleased⟩

def draftDashboard : Dashboard where
  id := 3
  ownerId := 1
  name := "Sales".toList
  description := []
  state := .draft
  latestRevisionId := none
  publishedRevisionId := none
  firstPublishedAt := none
  publicationVersion := 0
  lastPublishedAt := none
  publicationNote := []
  dataAsOf := none
  freshnessIntervalSeconds := none
  freshnessConfirmedAt := none
  staleAfter := none
  lastOwnershipTransferId := none
  createdAt := 2
  updatedAt := 2

def draftSave : DashboardSave where
  context := contextAt 2 3
  others := runCalls asciiPlatform revisionCalls
  adding := true
  row := draftDashboard

/-- The revision is published with a freshness claim; the save advances the version. -/
def publishingSave : DashboardSave where
  context := contextAt 6 7
  others := runCalls asciiPlatform revisionCalls
  adding := false
  row := { draftDashboard with
    state := .published
    publishedRevisionId := some 5
    firstPublishedAt := some 6
    freshnessIntervalSeconds := some 60
    freshnessConfirmedAt := some 6
    staleAfter := some (6 + seconds 60) }

theorem publishingSave_advances :
    ∃ before after, draftSave.accept .empty = some before ∧
      publishingSave.accept before = some after ∧
        ∃ earlier later, before.get? 3 = some earlier ∧ after.get? 3 = some later ∧
          earlier.SavedAs later := by
  have hcomputed : (draftSave.accept .empty).map (fun before =>
      (publishingSave.accept before).isSome) = some true := by
    decide +kernel
  obtain ⟨before, hdraft, hisSome⟩ := Option.map_eq_some_iff.mp hcomputed
  obtain ⟨after, hpublished⟩ := Option.isSome_iff_exists.mp hisSome
  have hreach : dashboardSaves.Reachable before :=
    (TransitionSystem.Reachable.initial rfl).step hdraft
  exact ⟨before, after, hdraft, hpublished,
    (publication_lifecycle hreach).2.1 publishingSave after hpublished rfl⟩

end Agora
