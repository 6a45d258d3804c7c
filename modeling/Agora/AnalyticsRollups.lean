import Agora.AnalyticsServices

/-!
# The rollups of one aggregation

The daily, viewer and dashboard rollups are tables that hold a summary of opens
under a key.  Adding the groups of a batch advances each of them by the batch and
changes nothing else but the identity values used up.
-/

namespace Agora

open Transaction

/-- A table of the database that holds a rollup of opens. -/
structure OpenRollup (ρ κ ν : Type) [Keyed ρ ℕ] where
  read : Db → Table ρ
  write : Db → Table ρ → ℕ → Db
  key : ρ → κ
  value : ρ → ν
  eventKey : AuthorizedOpen → κ
  summary : Summary AuthorizedOpen ν
  read_write : ∀ db table nextId, read (write db table nextId) = table
  nextId_write : ∀ db table nextId, (write db table nextId).nextId = nextId
  write_write : ∀ db table nextId later laterId,
    write (write db table nextId) later laterId = write db later laterId
  write_read : ∀ db, write db (read db) db.nextId = db

/-- The opens and the bounds of their times. -/
def viewerSummary : Summary AuthorizedOpen (ℕ × Time × Time) where
  measure row := (1, row.openedAt, row.openedAt)
  merge first second :=
    (first.1 + second.1, min first.2.1 second.2.1, max first.2.2 second.2.2)
  assoc first second third := by
    simp only [Nat.add_assoc, min_assoc, max_assoc]
  comm first second := by
    simp only [Nat.add_comm, min_comm, max_comm]

/-- The opens, the latest time and the highest identifier. -/
def snapshotSummary : Summary AuthorizedOpen (ℕ × Time × ℕ) where
  measure row := (1, row.openedAt, row.id)
  merge first second :=
    (first.1 + second.1, max first.2.1 second.2.1, max first.2.2 second.2.2)
  assoc first second third := by
    simp only [Nat.add_assoc, max_assoc]
  comm first second := by
    simp only [Nat.add_comm, max_comm]

def dailyRollup : OpenRollup DashboardOpenDaily (Uuid × ℤ) ℕ where
  read := Db.dailyRollups
  write db table nextId := { db with dailyRollups := table, nextId := nextId }
  key row := (row.dashboardId, row.day)
  value := DashboardOpenDaily.authorizedOpenCount
  eventKey := AuthorizedOpen.dailyKey
  summary := Summary.counting AuthorizedOpen
  read_write _ _ _ := rfl
  nextId_write _ _ _ := rfl
  write_write _ _ _ _ _ := rfl
  write_read _ := rfl

def viewerRollup :
    OpenRollup DashboardViewerOpenSummary (Uuid × Uuid) (ℕ × Time × Time) where
  read := Db.viewerSummaries
  write db table nextId := { db with viewerSummaries := table, nextId := nextId }
  key row := (row.dashboardId, row.viewerId)
  value row := (row.authorizedOpenCount, row.firstOpenedAt, row.lastOpenedAt)
  eventKey := AuthorizedOpen.viewerKey
  summary := viewerSummary
  read_write _ _ _ := rfl
  nextId_write _ _ _ := rfl
  write_write _ _ _ _ _ := rfl
  write_read _ := rfl

def snapshotRollup : OpenRollup DashboardOpenSnapshot Uuid (ℕ × Time × ℕ) where
  read := Db.snapshots
  write db table nextId := { db with snapshots := table, nextId := nextId }
  key := DashboardOpenSnapshot.dashboardId
  value row := (row.authorizedOpenCount, row.lastOpenedAt, row.capturedThroughOpenId)
  eventKey := AuthorizedOpen.dashboardId
  summary := snapshotSummary
  read_write _ _ _ := rfl
  nextId_write _ _ _ := rfl
  write_write _ _ _ _ _ := rfl
  write_read _ := rfl

namespace OpenRollup

variable {ρ κ ν : Type} [Keyed ρ ℕ] [DecidableEq κ] (rollup : OpenRollup ρ κ ν)

/-- One row for each key. -/
def Keys (db : Db) : Prop :=
  ((rollup.read db).rows.map rollup.key).Nodup

/-- The value of each key. -/
def view (db : Db) : κ → Option ν :=
  (rollup.read db).viewed rollup.key rollup.value

/-- The table was advanced by these groups and nothing else changed. -/
def Advanced (groups : List (κ × List AuthorizedOpen)) (before after : Db) : Prop :=
  ∃ table nextId, before.nextId ≤ nextId ∧ after = rollup.write before table nextId ∧
    (rollup.Keys before → rollup.Keys after ∧
      rollup.view after = groups.foldl rollup.summary.advance (rollup.view before))

/-- A transaction that advances the table by each group advances it by all. -/
theorem advanced_forEach {body : κ × List AuthorizedOpen → Tx PUnit}
    {groups : List (κ × List AuthorizedOpen)} {before after : Db} {done : PUnit}
    (hbody : ∀ group ∈ groups, ∀ first second, (body group).Runs first ⟨⟩ second →
      rollup.Advanced [group] first second)
    (hruns : (forEach body groups).Runs before done after) :
    rollup.Advanced groups before after := by
  induction groups generalizing before with
  | nil =>
      simp only [runs_forEach_nil] at hruns
      subst hruns
      exact ⟨rollup.read before, before.nextId, le_refl _, (rollup.write_read before).symm,
        fun hkeys => ⟨hkeys, rfl⟩⟩
  | cons group rest ih =>
      simp only [runs_forEach_cons] at hruns
      rcases hruns with ⟨middle, hgroup, hrest⟩
      rcases hbody group (List.mem_cons_self ..) before middle hgroup with
        ⟨table, nextId, hnext, rfl, hadvance⟩
      rcases ih (fun other hother => hbody other (List.mem_cons_of_mem _ hother)) hrest with
        ⟨later, laterId, hlater, rfl, hadvanceRest⟩
      rw [rollup.nextId_write] at hlater
      refine ⟨later, laterId, hnext.trans hlater, rollup.write_write .., ?_⟩
      intro hkeys
      rcases hadvance hkeys with ⟨hmiddleKeys, hmiddleView⟩
      rcases hadvanceRest hmiddleKeys with ⟨hafterKeys, hafterView⟩
      exact ⟨hafterKeys, by rw [hafterView, hmiddleView]; rfl⟩

end OpenRollup

/-! ## The bounds of a group -/

theorem viewerSummary_of (events : List AuthorizedOpen) :
    viewerSummary.of events =
      (earliest events).bind fun first => (latest events).map fun last =>
        (events.length, first, last) := by
  induction events with
  | nil => rfl
  | cons event rest ih =>
      rw [Summary.of_cons, ih]
      unfold earliest latest
      rw [List.map_cons, List.min?_cons, List.max?_cons]
      cases rest with
      | nil => rfl
      | cons other rest =>
          simp [List.min?_cons, List.max?_cons, viewerSummary, Option.merge, Nat.add_comm]

theorem snapshotSummary_of (events : List AuthorizedOpen) :
    snapshotSummary.of events =
      (latest events).bind fun last => (highestId events).map fun highest =>
        (events.length, last, highest) := by
  induction events with
  | nil => rfl
  | cons event rest ih =>
      rw [Summary.of_cons, ih]
      unfold highestId latest
      rw [List.map_cons, List.map_cons, List.max?_cons, List.max?_cons]
      cases rest with
      | nil => rfl
      | cons other rest =>
          simp [List.max?_cons, snapshotSummary, Option.merge, Nat.add_comm]

/-! ## One group -/

section OneGroup

variable {ρ κ ν : Type} [Keyed ρ ℕ] [DecidableEq κ] {rollup : OpenRollup ρ κ ν}

theorem OpenRollup.advanced_created {before after : Db} {row : ρ} {table : Table ρ}
    {group : κ × List AuthorizedOpen}
    (hcreate : (rollup.read before).create row = some table)
    (hnone : (rollup.read before).where? (fun other => rollup.key other = group.1) = [])
    (hkey : rollup.key row = group.1)
    (hvalue : some (rollup.value row) = rollup.summary.of group.2)
    (hafter : after = rollup.write before table (before.nextId + 1)) :
    rollup.Advanced [group] before after := by
  refine ⟨table, before.nextId + 1, Nat.le_succ _, hafter, ?_⟩
  intro hkeys
  subst hafter
  unfold OpenRollup.Keys OpenRollup.view
  rw [rollup.read_write, List.foldl_cons, List.foldl_nil, Summary.advance,
    Table.viewed_eq_none hnone, ← hvalue, ← hkey, Table.viewed_create hcreate]
  exact ⟨Table.nodup_create hcreate hkeys (by rwa [hkey]), rfl⟩

theorem OpenRollup.advanced_replaced {before after : Db} {old : ρ}
    {group : κ × List AuthorizedOpen} (row : ρ)
    (hone : (rollup.read before).where? (fun other => rollup.key other = group.1) = [old])
    (hid : Keyed.key row = Keyed.key old) (hkey : rollup.key row = rollup.key old)
    (hvalue : some (rollup.value row) =
      Option.merge rollup.summary.merge (some (rollup.value old))
        (rollup.summary.of group.2))
    (hafter : after = rollup.write before ((rollup.read before).replace row) before.nextId) :
    rollup.Advanced [group] before after := by
  refine ⟨_, before.nextId, le_refl _, hafter, ?_⟩
  intro hkeys
  have hselected : old ∈ (rollup.read before).where? fun other =>
      rollup.key other = group.1 := by simp [hone]
  rw [Table.mem_where?_iff, decide_eq_true_eq] at hselected
  have hview : (rollup.read before).viewed rollup.key rollup.value group.1 =
      some (rollup.value old) :=
    (Table.viewed_eq_some_iff hkeys).mpr ⟨old, hselected.1, hselected.2, rfl⟩
  subst hafter
  unfold OpenRollup.Keys OpenRollup.view
  rw [rollup.read_write, List.foldl_cons, List.foldl_nil, Summary.advance, hview, ← hvalue,
    Table.viewed_replace hselected.1 hid hkey hkeys, hkey, hselected.2,
    Table.map_key_replace hselected.1 hid hkey]
  exact ⟨hkeys, rfl⟩

end OneGroup

theorem advanceDaily_runs {group : (Uuid × ℤ) × List AuthorizedOpen} {before after : Db}
    {done : PUnit} (hgroup : group.2 ≠ [])
    (hruns : (advanceDaily group).Runs before done after) :
    dailyRollup.Advanced [group] before after := by
  have hof : dailyRollup.summary.of group.2 = some group.2.length :=
    (Summary.counting_of group.2).trans (if_neg hgroup)
  simp only [advanceDaily, runs_bind, runs_get, runs_getOneOrNone, and_assoc,
    exists_and_left, exists_eq_left'] at hruns
  rcases hruns with ⟨found, hfound, hrest⟩
  cases found with
  | none =>
      simp only [runs_bind, runs_takeId, runs_get, runs_found, runs_set, and_assoc,
        exists_and_left, exists_eq_left', exists_eq_left] at hrest
      rcases hrest with ⟨table, hcreate, rfl⟩
      exact OpenRollup.advanced_created hcreate hfound rfl hof.symm rfl
  | some old =>
      simp only [runs_set] at hrest
      refine OpenRollup.advanced_replaced
        { old with authorizedOpenCount := old.authorizedOpenCount + group.2.length }
        hfound rfl rfl ?_ hrest.symm
      rw [hof]
      rfl

theorem advanceViewerSummary_runs {group : (Uuid × Uuid) × List AuthorizedOpen}
    {before after : Db} {done : PUnit}
    (hruns : (advanceViewerSummary group).Runs before done after) :
    viewerRollup.Advanced [group] before after := by
  simp only [advanceViewerSummary, runs_bind, runs_get, runs_found, runs_getOneOrNone,
    and_assoc, exists_and_left, exists_eq_left'] at hruns
  rcases hruns with ⟨first, hfirst, last, hlast, found, hfound, hrest⟩
  have hof : viewerRollup.summary.of group.2 = some (group.2.length, first, last) := by
    refine (viewerSummary_of group.2).trans ?_
    rw [hfirst, hlast]
    rfl
  cases found with
  | none =>
      simp only [runs_bind, runs_takeId, runs_get, runs_found, runs_check, runs_set,
        and_assoc, exists_and_left, exists_eq_left', exists_eq_left, exists_const] at hrest
      rcases hrest with ⟨_, table, hcreate, rfl⟩
      exact OpenRollup.advanced_created hcreate hfound rfl hof.symm rfl
  | some old =>
      simp only [runs_bind, runs_check, runs_set, and_assoc, exists_and_left,
        exists_eq_left', exists_const] at hrest
      refine OpenRollup.advanced_replaced { old with
        authorizedOpenCount := old.authorizedOpenCount + group.2.length
        firstOpenedAt := min old.firstOpenedAt first
        lastOpenedAt := max old.lastOpenedAt last } hfound rfl rfl ?_ hrest.2.symm
      rw [hof]
      rfl

theorem advanceSnapshot_runs {context : CallContext} {group : Uuid × List AuthorizedOpen}
    {before after : Db} {done : PUnit}
    (hruns : (advanceSnapshot context group).Runs before done after) :
    snapshotRollup.Advanced [group] before after := by
  simp only [advanceSnapshot, runs_bind, runs_get, runs_found, runs_getOneOrNone,
    and_assoc, exists_and_left, exists_eq_left'] at hruns
  rcases hruns with ⟨last, hlast, highest, hhighest, found, hfound, hrest⟩
  have hof : snapshotRollup.summary.of group.2 = some (group.2.length, last, highest) := by
    refine (snapshotSummary_of group.2).trans ?_
    rw [hlast, hhighest]
    rfl
  cases found with
  | none =>
      simp only [runs_bind, runs_takeId, runs_get, runs_found, runs_set, and_assoc,
        exists_and_left, exists_eq_left', exists_eq_left] at hrest
      rcases hrest with ⟨table, hcreate, rfl⟩
      exact OpenRollup.advanced_created hcreate hfound rfl hof.symm rfl
  | some old =>
      simp only [runs_set] at hrest
      refine OpenRollup.advanced_replaced { old with
        authorizedOpenCount := old.authorizedOpenCount + group.2.length
        lastOpenedAt := max old.lastOpenedAt last
        capturedThroughOpenId := max old.capturedThroughOpenId highest
        updatedAt := context.clock } hfound rfl rfl ?_ hrest.symm
      rw [hof]
      rfl

/-! ## One aggregation -/

/-- An aggregation has taken a batch into the rollups and changed nothing outside
the analytics tables. -/
structure Aggregated (clock : Time) (batch : List AuthorizedOpen) (before after : Db) :
    Prop where
  frame : ∃ dailyRollups viewerSummaries snapshots checkpoint nextId,
    before.nextId ≤ nextId ∧ after = { before with
      opens := before.opens.update
        (AuthorizedOpen.marked clock (batch.map AuthorizedOpen.id)) AuthorizedOpen.marked_id
      dailyRollups := dailyRollups
      viewerSummaries := viewerSummaries
      snapshots := snapshots
      checkpoint := some checkpoint
      nextId := nextId }
  daily : dailyRollup.Keys before → dailyRollup.Keys after ∧
    dailyRollup.view after =
      (grouped AuthorizedOpen.dailyKey batch).foldl dailyRollup.summary.advance
        (dailyRollup.view before)
  viewer : viewerRollup.Keys before → viewerRollup.Keys after ∧
    viewerRollup.view after =
      (grouped AuthorizedOpen.viewerKey batch).foldl viewerRollup.summary.advance
        (viewerRollup.view before)
  snapshot : snapshotRollup.Keys before → snapshotRollup.Keys after ∧
    snapshotRollup.view after =
      (grouped AuthorizedOpen.dashboardId batch).foldl snapshotRollup.summary.advance
        (snapshotRollup.view before)
  checkpoint : ∃ checkpoint ∈ after.checkpoint,
    (∀ earlier ∈ before.checkpoint,
      earlier.lastCompletedOpenId ≤ checkpoint.lastCompletedOpenId) ∧
        ∀ row ∈ batch, row.id ≤ checkpoint.lastCompletedOpenId

theorem AuthorizedOpen.marked_nil (clock : Time) (row : AuthorizedOpen) :
    row.marked clock [] = row := by
  simp [AuthorizedOpen.marked]

theorem Aggregated.of_empty {clock : Time} {before : Db}
    {checkpoint : AnalyticsPipelineCheckpoint}
    (hcheckpoint : ∀ earlier ∈ before.checkpoint, earlier = checkpoint) :
    Aggregated clock [] before { before with checkpoint := some checkpoint } where
  frame := by
    refine ⟨before.dailyRollups, before.viewerSummaries, before.snapshots, checkpoint,
      before.nextId, le_refl _, ?_⟩
    have hopens : before.opens.update (AuthorizedOpen.marked clock [])
        AuthorizedOpen.marked_id = before.opens :=
      Table.update_of_fixed (AuthorizedOpen.marked_nil clock)
    rw [List.map_nil, hopens]
  daily hkeys := ⟨hkeys, rfl⟩
  viewer hkeys := ⟨hkeys, rfl⟩
  snapshot hkeys := ⟨hkeys, rfl⟩
  checkpoint := by
    refine ⟨checkpoint, rfl, ?_, by simp⟩
    intro earlier hearlier
    rw [hcheckpoint earlier hearlier]

theorem lockedCheckpoint_runs {context : CallContext} {before after : Db}
    {checkpoint : AnalyticsPipelineCheckpoint}
    (hruns : (lockedCheckpoint context).Runs before checkpoint after) :
    after = { before with checkpoint := some checkpoint } ∧
      ∀ earlier ∈ before.checkpoint, earlier = checkpoint := by
  simp only [lockedCheckpoint, runs_bind, runs_get, and_assoc, exists_and_left,
    exists_eq_left'] at hruns
  cases hstored : before.checkpoint with
  | some stored =>
      simp only [hstored, runs_pure] at hruns
      rcases hruns with ⟨rfl, rfl⟩
      refine ⟨?_, by simp⟩
      rw [← hstored]
  | none =>
      simp only [hstored, runs_bind, runs_set, runs_pure, exists_and_left, exists_eq_left',
        exists_const] at hruns
      rcases hruns with ⟨rfl, rfl⟩
      exact ⟨rfl, by simp⟩

theorem group_ne_nil {κ : Type} [DecidableEq κ] {key : AuthorizedOpen → κ}
    {batch : List AuthorizedOpen} {group : κ × List AuthorizedOpen}
    (hgroup : group ∈ grouped key batch) : group.2 ≠ [] := by
  rcases List.mem_map.mp hgroup with ⟨value, hvalue, rfl⟩
  rcases List.mem_map.mp (mem_firstSeen.mp hvalue) with ⟨row, hrow, hkey⟩
  exact List.ne_nil_of_mem (List.mem_filter.mpr ⟨hrow, by simpa using hkey⟩)

theorem le_of_highestId {events : List AuthorizedOpen} {highest : ℕ}
    (hhighest : highestId events = some highest) {row : AuthorizedOpen}
    (hrow : row ∈ events) : row.id ≤ highest :=
  (List.max?_eq_some_iff.mp hhighest).2 row.id (List.mem_map_of_mem hrow)

theorem aggregateAuthorizedOpens_runs {context : CallContext} {through : Time}
    {batchSize : ℤ} {result : AnalyticsAggregationResult} {before after : Db}
    (hruns : (aggregateAuthorizedOpens context through batchSize).Runs before result after) :
    Aggregated context.clock (before.waitingOpens through batchSize.toNat) before after ∧
      1 ≤ batchSize ∧
        result.processed = (before.waitingOpens through batchSize.toNat).length := by
  simp only [aggregateAuthorizedOpens, boundedBatchSize, runs_bind, runs_check, runs_get,
    runs_pure, and_assoc, exists_and_left, exists_eq_left', exists_const] at hruns
  rcases hruns with ⟨hpositive, _, checkpoint, locked, hlocked, hrest⟩
  rcases lockedCheckpoint_runs hlocked with ⟨rfl, hcheckpoint⟩
  have hwaiting : Db.waitingOpens { before with checkpoint := some checkpoint } through
      batchSize.toNat = before.waitingOpens through batchSize.toNat := rfl
  rw [hwaiting] at hrest
  generalize before.waitingOpens through batchSize.toNat = batch at hrest
  cases hhighest : highestId batch with
  | none =>
      simp only [hhighest, runs_pure] at hrest
      rcases hrest with ⟨rfl, rfl⟩
      have hempty : batch = [] := by
        simpa [highestId, List.max?_eq_none_iff] using hhighest
      subst hempty
      exact ⟨.of_empty hcheckpoint, hpositive, rfl⟩
  | some highest =>
      simp only [hhighest, runs_bind, runs_get, runs_set, runs_pure, markAggregated,
        runs_modify, and_assoc, exists_and_left, exists_eq_left', exists_const] at hrest
      rcases hrest with ⟨_, first, hdaily, _, second, hviewer, _, third, hsnapshot, rfl, rfl⟩
      rcases dailyRollup.advanced_forEach
        (fun group hgroup _ _ hbody => advanceDaily_runs (group_ne_nil hgroup) hbody) hdaily with
        ⟨dailyRollups, firstId, hfirst, rfl, hdailyView⟩
      rcases viewerRollup.advanced_forEach
        (fun _ _ _ _ hbody => advanceViewerSummary_runs hbody) hviewer with
        ⟨viewerSummaries, secondId, hsecond, rfl, hviewerView⟩
      rcases snapshotRollup.advanced_forEach
        (fun _ _ _ _ hbody => advanceSnapshot_runs hbody) hsnapshot with
        ⟨snapshots, thirdId, hthird, rfl, hsnapshotView⟩
      refine ⟨⟨⟨dailyRollups, viewerSummaries, snapshots, _, thirdId,
        hfirst.trans (hsecond.trans hthird), rfl⟩, hdailyView, hviewerView, hsnapshotView,
        ⟨_, rfl, ?_, ?_⟩⟩, hpositive, rfl⟩
      · intro earlier hearlier
        rw [hcheckpoint earlier hearlier]
        exact le_max_left _ _
      · intro row hrow
        exact (le_of_highestId hhighest hrow).trans (le_max_right _ _)

theorem purgeAuthorizedOpens_runs {context : CallContext} {bound : Time} {batchSize : ℤ}
    {removed : ℕ} {before after : Db}
    (hruns : (purgeAuthorizedOpens context bound batchSize).Runs before removed after) :
    ∃ retained : AuthorizedOpen → Bool,
      after = { before with opens := before.opens.keep retained } ∧
        ∀ row ∈ before.opens, retained row = false → row.aggregatedAt ≠ none ∧
          ∃ checkpoint ∈ before.checkpoint, row.id ≤ checkpoint.lastCompletedOpenId := by
  simp only [purgeAuthorizedOpens, boundedBatchSize, runs_bind, runs_check, runs_get,
    runs_pure, and_assoc, exists_and_left, exists_eq_left', exists_const] at hruns
  rcases hruns with ⟨_, _, _, hrest⟩
  cases hcheckpoint : before.checkpoint with
  | none =>
      simp only [hcheckpoint, runs_pure] at hrest
      rcases hrest with ⟨_, rfl⟩
      exact ⟨fun _ => true, by rw [Table.keep_all, ← hcheckpoint], by simp⟩
  | some checkpoint =>
      simp only [hcheckpoint, runs_bind, runs_check, runs_set, runs_pure, and_assoc,
        exists_and_left, exists_eq_left', exists_const] at hrest
      rcases hrest with ⟨heligible, hbehind, _, rfl⟩
      refine ⟨_, rfl, ?_⟩
      intro row hrow hremoved
      simp only [decide_eq_false_iff_not, not_not, List.mem_map] at hremoved
      rcases hremoved with ⟨other, hother, hid⟩
      have hselected := hother
      unfold Db.removableOpens Db.selectOpens at hselected
      have hmem : other ∈ before.opens := by
        have hsorted := List.mem_of_mem_take (List.mem_of_mem_filter hselected)
        rw [List.mem_insertionSort] at hsorted
        exact (Table.mem_where?_iff.mp hsorted).1
      have hsame : other = row := Table.eq_of_key_eq hmem hrow hid
      subst hsame
      exact ⟨(heligible other hother).1, checkpoint, rfl, hbehind other hother⟩

end Agora
