import Agora.AnalyticsLedger

/-!
# Aggregation catches up

In a reachable database an aggregation with a legal batch size commits: each rollup key has
one row, the identity values of the rollups lie below the next one, and the bounds of a
viewer stay in order.  A batch therefore lowers the number of waiting opens by its size, and
enough batches leave none, whatever else runs between them except new views.
-/

namespace Agora

open Transaction

namespace OpenRollup

variable {ρ κ ν : Type} [Keyed ρ ℕ] [DecidableEq κ] {rollup : OpenRollup ρ κ ν}
  {before after : Db}

/-- One row for each key, and identity values below the next one. -/
structure Sound (rollup : OpenRollup ρ κ ν) (db : Db) : Prop where
  keys : rollup.Keys db
  identities : ∀ row ∈ rollup.read db, Keyed.key row < db.nextId

omit [DecidableEq κ] in
theorem Sound.later (hsound : rollup.Sound before)
    (hread : rollup.read after = rollup.read before) (hnext : before.nextId ≤ after.nextId) :
    rollup.Sound after := by
  constructor
  · unfold Keys
    rw [hread]
    exact hsound.keys
  · intro row hrow
    rw [hread] at hrow
    exact (hsound.identities row hrow).trans_le hnext

theorem Sound.select (hsound : rollup.Sound before) (wanted : κ) :
    ∃ found : Option ρ,
      (rollup.read before).where? (fun row => rollup.key row = wanted) = found.toList := by
  apply Table.where?_eq_toList
  intro first hfirst second hsecond hone htwo
  have hsame : rollup.key first = rollup.key second :=
    (of_decide_eq_true hone).trans (of_decide_eq_true htwo).symm
  exact List.inj_on_of_nodup_map hsound.keys hfirst hsecond hsame

omit [DecidableEq κ] in
theorem Sound.insert (hsound : rollup.Sound before) {row : ρ}
    (hid : Keyed.key row = before.nextId) :
    ∃ table, (rollup.read before).create row = some table ∧
      ∀ other ∈ table, Keyed.key other < before.nextId + 1 := by
  have hnone : (rollup.read before).get? (Keyed.key row) = none := by
    apply Table.get?_eq_none_iff.mpr
    intro other hother hsame
    have hbelow := hsound.identities other hother
    omega
  rcases Table.exists_create hnone with ⟨table, hcreate⟩
  refine ⟨table, hcreate, ?_⟩
  intro other hother
  rcases (Table.mem_of_create hcreate).mp hother with rfl | hold
  · omega
  · exact (hsound.identities other hold).trans (Nat.lt_succ_self _)

omit [DecidableEq κ] in
theorem Sound.write {row old : ρ} (hsound : rollup.Sound before)
    (hold : old ∈ rollup.read before) (hid : Keyed.key row = Keyed.key old) :
    ∀ other ∈ (rollup.read before).replace row, Keyed.key other < before.nextId := by
  intro other hother
  have hget : (rollup.read before).get? (Keyed.key row) = some old :=
    hid ▸ Table.get?_of_mem hold
  rcases (Table.mem_replace hget).mp hother with rfl | ⟨hmem, _⟩
  · rw [hid]
    exact hsound.identities old hold
  · exact hsound.identities other hmem

omit [DecidableEq κ] in
/-- Groups that can each be added can be added in order. -/
theorem forEach_commits {body : κ × List AuthorizedOpen → Tx PUnit}
    {groups : List (κ × List AuthorizedOpen)}
    (hbody : ∀ group ∈ groups, ∀ db, rollup.Sound db →
      ∃ next, (body group).Runs db ⟨⟩ next ∧ rollup.Sound next)
    (hsound : rollup.Sound before) :
    ∃ after, (forEach body groups).Runs before ⟨⟩ after ∧ rollup.Sound after := by
  induction groups generalizing before with
  | nil =>
      refine ⟨before, ?_, hsound⟩
      simp only [runs_forEach_nil]
  | cons group rest ih =>
      rcases hbody group (List.mem_cons_self ..) before hsound with ⟨middle, hgroup, hmiddle⟩
      rcases ih (fun other hother => hbody other (List.mem_cons_of_mem _ hother)) hmiddle with
        ⟨after, hrest, hafter⟩
      refine ⟨after, ?_, hafter⟩
      simp only [runs_forEach_cons]
      exact ⟨middle, hgroup, hrest⟩

end OpenRollup

/-! ## One group -/

theorem Table.mem_of_select {ρ : Type} [Keyed ρ ℕ] {table : Table ρ} {selected : ρ → Bool}
    {row : ρ} (hfound : table.where? selected = (some row).toList) : row ∈ table := by
  have hmem : row ∈ table.where? selected := by simp [hfound]
  exact (Table.mem_where?_iff.mp hmem).1

theorem advanceDaily_commits {group : (Uuid × ℤ) × List AuthorizedOpen} {before : Db}
    (hgroup : group.2 ≠ []) (hsound : dailyRollup.Sound before) :
    ∃ after, (advanceDaily group).Runs before ⟨⟩ after ∧ dailyRollup.Sound after := by
  rcases hsound.select group.1 with ⟨found, hfound⟩
  have hcommits : ∃ after, (advanceDaily group).Runs before ⟨⟩ after ∧
      ∀ row ∈ after.dailyRollups, row.id < after.nextId := by
    simp only [advanceDaily, runs_bind, runs_get, runs_getOneOrNone, and_assoc,
      exists_and_left, exists_eq_left']
    cases found with
    | none =>
        let row : DashboardOpenDaily :=
          ⟨before.nextId, group.1.1, group.1.2, group.2.length⟩
        have hid : Keyed.key row = before.nextId := rfl
        rcases hsound.insert hid with ⟨table, hcreate, hbelow⟩
        refine ⟨{ before with dailyRollups := table, nextId := before.nextId + 1 },
          ⟨none, hfound, ?_⟩, hbelow⟩
        simp only [runs_bind, runs_takeId, runs_get, runs_found, runs_set, and_assoc,
          exists_and_left, exists_eq_left', exists_eq_left]
        exact ⟨table, hcreate, rfl⟩
    | some old =>
        let row := { old with authorizedOpenCount := old.authorizedOpenCount + group.2.length }
        have hid : Keyed.key row = Keyed.key old := rfl
        refine ⟨{ before with dailyRollups := before.dailyRollups.replace row },
          ⟨some old, hfound, ?_⟩, hsound.write (Table.mem_of_select hfound) hid⟩
        exact runs_set.mpr rfl
  rcases hcommits with ⟨after, hruns, hbelow⟩
  rcases advanceDaily_runs hgroup hruns with ⟨_, _, _, _, hkeys⟩
  exact ⟨after, hruns, (hkeys hsound.keys).1, hbelow⟩

/-- The bounds of a group of opens are in order. -/
theorem exists_bounds {events : List AuthorizedOpen} (hevents : events ≠ []) :
    ∃ first last, earliest events = some first ∧ latest events = some last ∧ first ≤ last := by
  cases events with
  | nil => contradiction
  | cons event rest =>
      cases hfirst : earliest (event :: rest) with
      | none =>
          unfold earliest at hfirst
          simp at hfirst
      | some first =>
          cases hlast : latest (event :: rest) with
          | none =>
              unfold latest at hlast
              simp at hlast
          | some last =>
              have hmem : event.openedAt ∈ {time | ∃ row ∈ event :: rest, row.openedAt = time} :=
                ⟨event, List.mem_cons_self .., rfl⟩
              have hle := (isLeast_of_earliest hfirst).2 hmem
              exact ⟨first, last, rfl, rfl, hle.trans ((isGreatest_of_latest hlast).2 hmem)⟩

theorem advanceViewerSummary_commits {group : (Uuid × Uuid) × List AuthorizedOpen}
    {before : Db} (hgroup : group.2 ≠ []) (hsound : viewerRollup.Sound before) :
    ∃ after, (advanceViewerSummary group).Runs before ⟨⟩ after ∧
      viewerRollup.Sound after := by
  rcases hsound.select group.1 with ⟨found, hfound⟩
  rcases exists_bounds hgroup with ⟨first, last, hfirst, hlast, horder⟩
  have hcommits : ∃ after, (advanceViewerSummary group).Runs before ⟨⟩ after ∧
      ∀ row ∈ after.viewerSummaries, row.id < after.nextId := by
    simp only [advanceViewerSummary, runs_bind, runs_get, runs_found, runs_getOneOrNone,
      and_assoc, exists_and_left, exists_eq_left', hfirst, hlast, Option.some.injEq]
    cases found with
    | none =>
        let row : DashboardViewerOpenSummary :=
          ⟨before.nextId, group.1.1, group.1.2, group.2.length, first, last⟩
        have hid : Keyed.key row = before.nextId := rfl
        rcases hsound.insert hid with ⟨table, hcreate, hbelow⟩
        refine ⟨{ before with viewerSummaries := table, nextId := before.nextId + 1 },
          ⟨none, hfound, ?_⟩, hbelow⟩
        simp only [runs_bind, runs_takeId, runs_get, runs_found, runs_check, runs_set,
          and_assoc, exists_and_left, exists_eq_left', exists_eq_left, exists_const]
        exact ⟨horder, table, hcreate, rfl⟩
    | some old =>
        let row := { old with
          authorizedOpenCount := old.authorizedOpenCount + group.2.length
          firstOpenedAt := min old.firstOpenedAt first
          lastOpenedAt := max old.lastOpenedAt last }
        have hid : Keyed.key row = Keyed.key old := rfl
        refine ⟨{ before with viewerSummaries := before.viewerSummaries.replace row },
          ⟨some old, hfound, ?_⟩, hsound.write (Table.mem_of_select hfound) hid⟩
        simp only [runs_bind, runs_check, runs_set, and_assoc, exists_and_left,
          exists_eq_left', exists_const]
        exact ⟨(min_le_right _ _).trans (horder.trans (le_max_right _ _)), rfl⟩
  rcases hcommits with ⟨after, hruns, hbelow⟩
  rcases advanceViewerSummary_runs hruns with ⟨_, _, _, _, hkeys⟩
  exact ⟨after, hruns, (hkeys hsound.keys).1, hbelow⟩

theorem advanceSnapshot_commits {context : CallContext} {group : Uuid × List AuthorizedOpen}
    {before : Db} (hgroup : group.2 ≠ []) (hsound : snapshotRollup.Sound before) :
    ∃ after, (advanceSnapshot context group).Runs before ⟨⟩ after ∧
      snapshotRollup.Sound after := by
  rcases hsound.select group.1 with ⟨found, hfound⟩
  rcases exists_bounds hgroup with ⟨_, last, _, hlast, _⟩
  have hhighest : ∃ highest, highestId group.2 = some highest := by
    cases hid : highestId group.2 with
    | none => exact absurd (by simpa [highestId, List.max?_eq_none_iff] using hid) hgroup
    | some highest => exact ⟨highest, rfl⟩
  rcases hhighest with ⟨highest, hhighest⟩
  have hcommits : ∃ after, (advanceSnapshot context group).Runs before ⟨⟩ after ∧
      ∀ row ∈ after.snapshots, row.id < after.nextId := by
    simp only [advanceSnapshot, runs_bind, runs_get, runs_found, runs_getOneOrNone,
      and_assoc, exists_and_left, exists_eq_left', hlast, hhighest, Option.some.injEq]
    cases found with
    | none =>
        let row : DashboardOpenSnapshot :=
          ⟨before.nextId, group.1, group.2.length, last, highest, context.clock⟩
        have hid : Keyed.key row = before.nextId := rfl
        rcases hsound.insert hid with ⟨table, hcreate, hbelow⟩
        refine ⟨{ before with snapshots := table, nextId := before.nextId + 1 },
          ⟨none, hfound, ?_⟩, hbelow⟩
        simp only [runs_bind, runs_takeId, runs_get, runs_found, runs_set, and_assoc,
          exists_and_left, exists_eq_left', exists_eq_left]
        exact ⟨table, hcreate, rfl⟩
    | some old =>
        let row := { old with
          authorizedOpenCount := old.authorizedOpenCount + group.2.length
          lastOpenedAt := max old.lastOpenedAt last
          capturedThroughOpenId := max old.capturedThroughOpenId highest
          updatedAt := context.clock }
        have hid : Keyed.key row = Keyed.key old := rfl
        refine ⟨{ before with snapshots := before.snapshots.replace row },
          ⟨some old, hfound, ?_⟩, hsound.write (Table.mem_of_select hfound) hid⟩
        exact runs_set.mpr rfl
  rcases hcommits with ⟨after, hruns, hbelow⟩
  rcases advanceSnapshot_runs hruns with ⟨_, _, _, _, hkeys⟩
  exact ⟨after, hruns, (hkeys hsound.keys).1, hbelow⟩

/-! ## One aggregation -/

/-- The rollups can be advanced. -/
structure Db.Rollable (db : Db) : Prop where
  daily : dailyRollup.Sound db
  viewer : viewerRollup.Sound db
  snapshot : snapshotRollup.Sound db

/-- The groups of a batch can be added to the rollups in order. -/
theorem groups_commit (context : CallContext) (batch : List AuthorizedOpen) {before : Db}
    (hgood : before.Rollable) :
    ∃ first second after,
      (forEach advanceDaily (grouped AuthorizedOpen.dailyKey batch)).Runs before ⟨⟩ first ∧
        (forEach advanceViewerSummary (grouped AuthorizedOpen.viewerKey batch)).Runs first ⟨⟩
          second ∧
          (forEach (advanceSnapshot context) (grouped AuthorizedOpen.dashboardId batch)).Runs
            second ⟨⟩ after ∧
            after.Rollable := by
  rcases OpenRollup.forEach_commits
    (fun group hgroup _ hsound => advanceDaily_commits (group_ne_nil hgroup) hsound)
    hgood.daily with ⟨first, hdaily, hfirst⟩
  rcases dailyRollup.advanced_forEach
    (fun group hgroup _ _ hbody => advanceDaily_runs (group_ne_nil hgroup) hbody) hdaily with
    ⟨dailyRollups, firstId, hfirstId, rfl, _⟩
  have hviewer : viewerRollup.Sound (dailyRollup.write before dailyRollups firstId) :=
    hgood.viewer.later rfl hfirstId
  rcases OpenRollup.forEach_commits
    (fun group hgroup _ hsound => advanceViewerSummary_commits (group_ne_nil hgroup) hsound)
    hviewer with ⟨second, hviewers, hsecond⟩
  rcases viewerRollup.advanced_forEach
    (fun _ _ _ _ hbody => advanceViewerSummary_runs hbody) hviewers with
    ⟨viewerSummaries, secondId, hsecondId, rfl, _⟩
  have hsnapshot : snapshotRollup.Sound
      (viewerRollup.write (dailyRollup.write before dailyRollups firstId) viewerSummaries
        secondId) :=
    hgood.snapshot.later rfl (hfirstId.trans hsecondId)
  rcases OpenRollup.forEach_commits
    (fun group hgroup _ hsound => advanceSnapshot_commits (group_ne_nil hgroup) hsound)
    hsnapshot with ⟨after, hsnapshots, hafter⟩
  rcases snapshotRollup.advanced_forEach
    (fun _ _ _ _ hbody => advanceSnapshot_runs hbody) hsnapshots with
    ⟨snapshots, thirdId, hthirdId, rfl, _⟩
  refine ⟨_, _, _, hdaily, hviewers, hsnapshots, ?_, ?_, hafter⟩
  · exact hfirst.later rfl (hsecondId.trans hthirdId)
  · exact hsecond.later rfl hthirdId

theorem aggregateAuthorizedOpens_commits {context : CallContext} {through : Time}
    {batchSize : ℤ} {before : Db} (hgood : before.Rollable) (hpositive : 1 ≤ batchSize)
    (hlimit : batchSize ≤ maxAnalyticsBatchSize) :
    ∃ result after,
      (aggregateAuthorizedOpens context through batchSize).Runs before result after ∧
        after.Rollable := by
  have hlocked : ∃ checkpoint, (lockedCheckpoint context).Runs before checkpoint
      { before with checkpoint := some checkpoint } := by
    simp only [lockedCheckpoint, runs_bind, runs_get, and_assoc, exists_and_left,
      exists_eq_left']
    cases hstored : before.checkpoint with
    | none =>
        refine ⟨⟨0, context.clock⟩, ?_⟩
        simp only [runs_bind, runs_set, runs_pure, exists_eq_left', exists_const, and_self]
    | some checkpoint =>
        refine ⟨checkpoint, ?_⟩
        simp only [runs_pure, true_and]
        rw [← hstored]
  rcases hlocked with ⟨checkpoint, hlocked⟩
  have hlockedGood : Db.Rollable { before with checkpoint := some checkpoint } :=
    ⟨hgood.daily.later rfl (le_refl _), hgood.viewer.later rfl (le_refl _),
      hgood.snapshot.later rfl (le_refl _)⟩
  cases hhighest : highestId (Db.waitingOpens { before with checkpoint := some checkpoint }
      through batchSize.toNat) with
  | none =>
      refine ⟨⟨0, checkpoint.lastCompletedOpenId⟩, { before with checkpoint := some checkpoint },
        ?_, hlockedGood⟩
      simp only [aggregateAuthorizedOpens, boundedBatchSize, runs_bind, runs_check, runs_get,
        runs_pure, and_assoc, exists_and_left, exists_eq_left', exists_const]
      refine ⟨hpositive, hlimit, checkpoint, _, hlocked, ?_⟩
      simp only [hhighest, runs_pure, and_self]
  | some highest =>
      let batch := Db.waitingOpens { before with checkpoint := some checkpoint } through
        batchSize.toNat
      rcases groups_commit context batch hlockedGood with
        ⟨first, second, third, hdaily, hviewer, hsnapshot, hthird⟩
      let last := max checkpoint.lastCompletedOpenId highest
      refine ⟨⟨batch.length, last⟩,
        { third with
          opens := third.opens.update
            (AuthorizedOpen.marked context.clock (batch.map AuthorizedOpen.id))
            AuthorizedOpen.marked_id
          checkpoint := some ⟨last, context.clock⟩ }, ?_, ?_⟩
      · simp only [aggregateAuthorizedOpens, boundedBatchSize, runs_bind, runs_check, runs_get,
          runs_pure, and_assoc, exists_and_left, exists_eq_left', exists_const]
        refine ⟨hpositive, hlimit, checkpoint, _, hlocked, ?_⟩
        simp only [hhighest, runs_bind, runs_get, runs_set, runs_pure, markAggregated,
          runs_modify, and_assoc, exists_and_left, exists_eq_left', exists_const]
        exact ⟨_, first, hdaily, _, second, hviewer, _, third, hsnapshot, rfl, rfl⟩
      · exact ⟨hthird.daily.later rfl (le_refl _), hthird.viewer.later rfl (le_refl _),
          hthird.snapshot.later rfl (le_refl _)⟩

theorem aggregateAuthorizedOpens_bounds {context : CallContext} {through : Time}
    {batchSize : ℤ} {result : AnalyticsAggregationResult} {before after : Db}
    (hruns : (aggregateAuthorizedOpens context through batchSize).Runs before result after) :
    1 ≤ batchSize ∧ batchSize ≤ maxAnalyticsBatchSize := by
  simp only [aggregateAuthorizedOpens, boundedBatchSize, runs_bind, runs_check, runs_get,
    runs_pure, and_assoc, exists_and_left, exists_eq_left', exists_const] at hruns
  exact ⟨hruns.1, hruns.2.1⟩

/-! ## Every run -/

theorem Db.Rollable.later {before after : Db} (hgood : before.Rollable)
    (hdaily : after.dailyRollups = before.dailyRollups)
    (hviewer : after.viewerSummaries = before.viewerSummaries)
    (hsnapshot : after.snapshots = before.snapshots) (hnext : before.nextId ≤ after.nextId) :
    after.Rollable :=
  ⟨hgood.daily.later hdaily hnext, hgood.viewer.later hviewer hnext,
    hgood.snapshot.later hsnapshot hnext⟩

theorem Db.Rollable.change {effects : Set Effect} {before after : Db} (hgood : before.Rollable)
    (hchange : Change effects before after) : after.Rollable := by
  cases hchange with
  | idsTaken count => exact hgood.later rfl rfl rfl (Nat.le_add_right _ count)
  | grantCreated => exact hgood.later rfl rfl rfl (Nat.le_succ _)
  | grantRevoked => exact hgood.later rfl rfl rfl (Nat.le_succ _)
  | requestOpened => exact hgood.later rfl rfl rfl (Nat.le_succ _)
  | requestReopened => exact hgood.later rfl rfl rfl (Nat.le_succ _)
  | requestResolved => exact hgood.later rfl rfl rfl (Nat.le_succ _)
  | audited => exact hgood.later rfl rfl rfl (Nat.le_succ _)
  | analyticsChanged _ _ _ hcall =>
      rcases hcall with ⟨context, through, batchSize, result, hruns⟩ |
        ⟨_, _, _, _, hruns⟩
      · have hbounds := aggregateAuthorizedOpens_bounds hruns
        rcases @aggregateAuthorizedOpens_commits context through _ _ hgood hbounds.1 hbounds.2
          with ⟨_, _, hcommits, hlater⟩
        have hsame := hruns.symm.trans hcommits
        rw [Except.ok.injEq, Prod.mk.injEq] at hsame
        rw [hsame.2]
        exact hlater
      · rcases purgeAuthorizedOpens_runs hruns with ⟨_, hafter, _⟩
        rw [hafter]
        exact hgood.later rfl rfl rfl (le_refl _)
  | _ => exact hgood.later rfl rfl rfl (le_refl _)

theorem rollable_of_reachable {platform : Platform} {db : Db}
    (hreach : (serviceSystem platform).Reachable db) : db.Rollable := by
  apply reachable_induction hreach
  · constructor
    · exact ⟨List.nodup_nil, by simp [dailyRollup, Db.empty]⟩
    · exact ⟨List.nodup_nil, by simp [viewerRollup, Db.empty]⟩
    · exact ⟨List.nodup_nil, by simp [snapshotRollup, Db.empty]⟩
  · intro before after hgood hchange
    exact hgood.change hchange

/-! ## Waiting opens -/

theorem Db.nodup_waiting (db : Db) : db.waiting.Nodup :=
  db.opens.nodup_rows.filter _

/-- A batch that covers the times of all waiting opens is as long as its limit allows. -/
theorem length_waitingOpens {db : Db} {through : Time} {limit : ℕ}
    (hthrough : ∀ row ∈ db.waiting, row.openedAt ≤ through) :
    (db.waitingOpens through limit).length = min limit db.waiting.length := by
  have hselected : db.opens.where? (fun row =>
      decide (row.aggregatedAt = none ∧ row.openedAt ≤ through)) = db.waiting := by
    apply List.filter_congr
    intro row hrow
    rw [decide_eq_decide]
    constructor
    · exact fun hboth => hboth.1
    · exact fun hnone => ⟨hnone, hthrough row (Db.mem_waiting.mpr ⟨hrow, hnone⟩)⟩
  rw [Db.waitingOpens, Db.selectOpens, hselected, List.length_take,
    List.length_insertionSort]

/-- An aggregation takes its batch from the waiting opens and leaves the others. -/
theorem Aggregated.waiting_add {clock : Time} {batch : List AuthorizedOpen} {before after : Db}
    (haggregated : Aggregated clock batch before after) (hbatch : OpenLedger.Takes batch before) :
    after.waiting.length + batch.length = before.waiting.length := by
  have hdisjoint : (after.waiting ++ batch).Nodup := by
    rw [List.nodup_append']
    refine ⟨after.nodup_waiting, hbatch.nodup, ?_⟩
    intro row hrow hmem
    exact ((haggregated.mem_waiting hbatch).mp hrow).2 hmem
  have hperm : (after.waiting ++ batch).Perm before.waiting := by
    rw [List.perm_ext_iff_of_nodup hdisjoint before.nodup_waiting]
    intro row
    rw [List.mem_append, haggregated.mem_waiting hbatch]
    constructor
    · rintro (⟨hwaiting, _⟩ | hmem)
      · exact hwaiting
      · exact Db.mem_waiting.mpr ⟨hbatch.stored row hmem, hbatch.waiting row hmem⟩
    · intro hwaiting
      by_cases hmem : row ∈ batch
      · exact .inr hmem
      · exact .inl ⟨hwaiting, hmem⟩
  rw [← List.length_append, hperm.length_eq]

theorem Change.opens_eq {effects : Set Effect} {before after : Db}
    (hchange : Change effects before after) (hnone : .opens ∉ effects) :
    after.opens = before.opens := by
  cases hchange with
  | viewInserted heffect => exact absurd heffect hnone
  | openCaptured heffect => exact absurd heffect hnone
  | analyticsChanged heffect => exact absurd heffect hnone
  | _ => rfl

theorem Changes.opens_eq {effects : Set Effect} {before after : Db}
    (hchanges : Changes effects before after) (hnone : .opens ∉ effects) :
    after.opens = before.opens := by
  induction hchanges with
  | refl => rfl
  | tail _ hlast ih => rw [hlast.opens_eq hnone, ih]

/-- Whether an operation issues a view. -/
def Operation.isIssue : Operation → Bool
  | .issuePublishedView .. => true
  | _ => false

/-- The waiting opens that a call takes when all of them lie before a time. -/
def ServiceCall.capacity (latest : Time) (call : ServiceCall) : ℕ :=
  match call.operation with
  | .aggregateAuthorizedOpens through batchSize =>
      if latest ≤ through ∧ 1 ≤ batchSize ∧ batchSize ≤ maxAnalyticsBatchSize then
        batchSize.toNat
      else 0
  | _ => 0

/-- The time bound and the batch size of an aggregation. -/
def ServiceCall.aggregation? (call : ServiceCall) : Option (Time × ℤ) :=
  match call.operation with
  | .aggregateAuthorizedOpens through batchSize => some (through, batchSize)
  | _ => none

/-- The calls of a run take what the batch sizes of its legal aggregations add up to, where the
bound of an aggregation is not before the time. -/
theorem sum_capacity (latest : Time) (calls : List ServiceCall) :
    (calls.map (ServiceCall.capacity latest)).sum =
      (((calls.filterMap ServiceCall.aggregation?).filter fun aggregation =>
        latest ≤ aggregation.1 ∧ 1 ≤ aggregation.2 ∧ aggregation.2 ≤ maxAnalyticsBatchSize).map
          fun aggregation => aggregation.2.toNat).sum := by
  induction calls with
  | nil => rfl
  | cons call rest ih =>
      rcases call with ⟨context, operation⟩
      rw [List.map_cons, List.sum_cons, ih]
      cases operation with
      | aggregateAuthorizedOpens through batchSize =>
          have hfound : ServiceCall.aggregation?
              ⟨context, .aggregateAuthorizedOpens through batchSize⟩ =
                some (through, batchSize) := rfl
          rw [List.filterMap_cons_some hfound, List.filter_cons]
          simp only [ServiceCall.capacity, decide_eq_true_eq]
          split
          · rw [List.map_cons, List.sum_cons]
          · exact Nat.zero_add _
      | _ => exact Nat.zero_add _

/-- The opens of a database after a call that issues no view: none is new, and a waiting
one was waiting. -/
structure Db.Drains (before after : Db) (capacity : ℕ) : Prop where
  waiting : ∀ row ∈ after.waiting, row ∈ before.waiting
  fewer : after.waiting.length ≤ before.waiting.length - capacity

theorem Db.Drains.of_opens {before after : Db} (hopens : after.opens = before.opens) :
    before.Drains after 0 := by
  have hwaiting : after.waiting = before.waiting := congrArg
    (fun table : Table AuthorizedOpen => table.where? fun row => row.aggregatedAt = none) hopens
  exact ⟨fun row hrow => hwaiting ▸ hrow, (congrArg List.length hwaiting).le⟩

section Drain

variable {platform : Platform}

theorem aggregation_drains {context : CallContext} {through latest : Time}
    {batchSize : ℤ} {before : Db} (hgood : before.Rollable)
    (hlatest : ∀ row ∈ before.waiting, row.openedAt ≤ latest) :
    before.Drains
      ((ServiceCall.body platform ⟨context, .aggregateAuthorizedOpens through batchSize⟩).settle
        before)
      (ServiceCall.capacity latest ⟨context, .aggregateAuthorizedOpens through batchSize⟩) := by
  let call : ServiceCall := ⟨context, .aggregateAuthorizedOpens through batchSize⟩
  have hstart : (call.start before).Rollable :=
    hgood.later rfl rfl rfl (Nat.le_add_right _ _)
  have hfails : ¬ (1 ≤ batchSize ∧ batchSize ≤ maxAnalyticsBatchSize) →
      before.Drains ((call.body platform).settle before) (call.capacity latest) := by
    intro hillegal
    have hcapacity : call.capacity latest = 0 := if_neg fun hall => hillegal hall.2
    rw [hcapacity]
    refine settle_induction (motive := fun after : Db => before.Drains after 0) (.of_opens rfl) ?_
    intro result after hruns
    exact absurd (aggregateAuthorizedOpens_bounds (ServiceCall.runs_body.mp hruns)) hillegal
  by_cases hlegal : 1 ≤ batchSize ∧ batchSize ≤ maxAnalyticsBatchSize
  · rcases @aggregateAuthorizedOpens_commits context through _ _ hstart hlegal.1 hlegal.2 with
      ⟨result, after, hruns, _⟩
    have hsettle : (call.body platform).settle before = after :=
      settle_of_runs (ServiceCall.runs_body.mpr hruns)
    show before.Drains ((call.body platform).settle before) (call.capacity latest)
    rw [hsettle]
    have haggregated := (aggregateAuthorizedOpens_runs hruns).1
    have hbatch := OpenLedger.takes_waitingOpens (call.start before) through batchSize.toNat
    have hadd : after.waiting.length +
        (before.waitingOpens through batchSize.toNat).length = before.waiting.length :=
      haggregated.waiting_add hbatch
    constructor
    · exact fun row hrow => ((haggregated.mem_waiting hbatch).mp hrow).1
    · by_cases hthrough : latest ≤ through
      · have hcapacity : call.capacity latest = batchSize.toNat := if_pos ⟨hthrough, hlegal⟩
        have hlength : (before.waitingOpens through batchSize.toNat).length =
            min batchSize.toNat before.waiting.length :=
          length_waitingOpens fun row hrow => (hlatest row hrow).trans hthrough
        rw [hcapacity]
        omega
      · have hcapacity : call.capacity latest = 0 := if_neg fun hall => hthrough hall.1
        rw [hcapacity]
        omega
  · exact hfails hlegal

theorem capture_opens {before : Db} {context : CallContext} {authorizationId : Uuid}
    (hreach : (serviceSystem platform).Reachable before) :
    ((ServiceCall.body platform ⟨context, .captureAuthorizedOpen authorizationId⟩).settle
      before).opens = before.opens := by
  rcases ledger_of_reachable hreach with ⟨taken, hledger⟩
  refine settle_induction (motive := fun after : Db => after.opens = before.opens) rfl ?_
  intro recorded after hruns
  let call : ServiceCall := ⟨context, .captureAuthorizedOpen authorizationId⟩
  have hstart : OpenLedger taken (call.start before) := { hledger with }
  have hkept := (hstart.captures_nothing (ServiceCall.runs_body.mp hruns)).2.1
  rw [hkept]
  rfl

theorem purge_drains {before : Db} {context : CallContext} {bound : Time} {batchSize : ℤ} :
    before.Drains
      ((ServiceCall.body platform ⟨context, .purgeAuthorizedOpens bound batchSize⟩).settle
        before) 0 := by
  refine settle_induction (motive := fun after : Db => before.Drains after 0) (.of_opens rfl) ?_
  intro result after hruns
  rcases purgeAuthorizedOpens_runs (ServiceCall.runs_body.mp hruns) with ⟨retained, rfl, _⟩
  have hsublist : ((before.opens.keep retained).where? fun row => row.aggregatedAt = none).Sublist
      before.waiting := List.filter_sublist.filter _
  exact ⟨fun row hrow => hsublist.subset hrow, hsublist.length_le⟩

theorem drains_of_call {before : Db} {call : ServiceCall} {latest : Time}
    (hreach : (serviceSystem platform).Reachable before)
    (hissue : call.operation.isIssue = false)
    (hlatest : ∀ row ∈ before.waiting, row.openedAt ≤ latest) :
    before.Drains ((call.body platform).settle before) (call.capacity latest) := by
  have hchanges : Changes call.operation.effects before ((call.body platform).settle before) :=
    call.settle_changes before
  rcases call with ⟨context, operation⟩
  cases operation with
  | issuePublishedView => contradiction
  | captureAuthorizedOpen => exact Db.Drains.of_opens (capture_opens hreach)
  | aggregateAuthorizedOpens => exact aggregation_drains (rollable_of_reachable hreach) hlatest
  | purgeAuthorizedOpens => exact purge_drains
  | requestDashboardAccess => exact .of_opens (hchanges.opens_eq (by simp [Operation.effects]))
  | resolveDashboardAccessRequest =>
      exact .of_opens (hchanges.opens_eq (by simp [Operation.effects]))
  | createProject => exact .of_opens (hchanges.opens_eq (by simp [Operation.effects]))
  | transferDashboardOwnership =>
      exact .of_opens (hchanges.opens_eq (by simp [Operation.effects]))
  | commitRevisionMetadata => exact .of_opens (hchanges.opens_eq (by simp [Operation.effects]))
  | _ => exact .of_opens (hchanges.opens_eq (Set.notMem_empty _))

/-- Calls that together take as many opens as wait leave none, whatever else runs between
them except new views. -/
theorem drained_of_capacity {before after : Db} {calls : List ServiceCall} {latest : Time}
    (hreach : (serviceSystem platform).Reachable before)
    (hpath : (serviceSystem platform).Path before calls after)
    (hissue : ∀ call ∈ calls, call.operation.isIssue = false)
    (hlatest : ∀ row ∈ before.waiting, row.openedAt ≤ latest)
    (henough : before.waiting.length ≤ (calls.map (ServiceCall.capacity latest)).sum) :
    after.waiting = [] := by
  induction hpath with
  | refl => exact List.length_eq_zero_iff.mp (Nat.le_zero.mp henough)
  | @cons first middle last call rest hstep _ ih =>
      have hmiddle : middle = (call.body platform).settle first := hstep
      have hdrains := drains_of_call hreach (hissue call (List.mem_cons_self ..)) hlatest
      rw [← hmiddle] at hdrains
      apply ih (hreach.step hstep)
      · exact fun other hother => hissue other (List.mem_cons_of_mem _ hother)
      · exact fun row hrow => hlatest row (hdrains.waiting row hrow)
      · have hfewer := hdrains.fewer
        rw [List.map_cons, List.sum_cons] at henough
        omega

end Drain

/-- In a reachable database every aggregation with a legal batch size commits.  When no view is
issued meanwhile, aggregations through the latest waiting open or later, whose batch sizes add up
to the number of waiting opens, leave none waiting; the rollups of a dashboard then count every
view of it that was ever issued. -/
theorem rollups_catch_up {platform : Platform} {before : Db}
    (hreach : (serviceSystem platform).Reachable before) :
    (∀ (context : CallContext) (through : Time) (batchSize : ℤ), 1 ≤ batchSize →
      batchSize ≤ maxAnalyticsBatchSize → ∃ result after,
        (aggregateAuthorizedOpens context through batchSize).Runs before result after) ∧
      ∀ (calls : List ServiceCall) (after : Db) (latest : Time) (dashboardId : Uuid),
        (serviceSystem platform).Path before calls after →
          (∀ call ∈ calls, call.operation.isIssue = false) →
          (∀ row ∈ before.waiting, row.openedAt ≤ latest) →
          before.waiting.length ≤
            (((calls.filterMap ServiceCall.aggregation?).filter fun aggregation =>
              latest ≤ aggregation.1 ∧ 1 ≤ aggregation.2 ∧
                aggregation.2 ≤ maxAnalyticsBatchSize).map
                  fun aggregation => aggregation.2.toNat).sum →
            after.waiting = [] ∧ after.Tallies dashboardId ∧
              after.countedOf dashboardId =
                after.authorizations.where? fun row =>
                  row.audience = .viewer ∧ row.dashboardId = dashboardId := by
  constructor
  · intro context through batchSize hpositive hlimit
    have hgood := rollable_of_reachable hreach
    rcases @aggregateAuthorizedOpens_commits context through _ _ hgood hpositive hlimit with
      ⟨result, after, hruns, _⟩
    exact ⟨result, after, hruns⟩
  · intro calls after latest dashboardId hpath hissue hlatest henough
    rw [← sum_capacity] at henough
    have hwaiting := drained_of_capacity hreach hpath hissue hlatest henough
    rcases ledger_of_reachable (hreach.path hpath) with ⟨taken, hledger⟩
    refine ⟨hwaiting, hledger.tallies dashboardId, ?_⟩
    unfold Db.countedOf Db.counted Table.where?
    rw [List.filter_filter]
    apply List.filter_congr
    intro row _
    rw [Db.awaits_of_drained hwaiting, ← Bool.decide_and, decide_eq_decide]
    simp only [and_true]
    exact and_comm

theorem two_batches_catch_up :
    (∃ result after, (aggregateAuthorizedOpens (contextAt 20 30) 9 1).Runs
      (runCalls asciiPlatform viewedCalls) result after) ∧
    (runFrom asciiPlatform (runCalls asciiPlatform viewedCalls) twoBatches).waiting = [] ∧
      (runFrom asciiPlatform (runCalls asciiPlatform viewedCalls) twoBatches).Tallies 3 ∧
        (runFrom asciiPlatform (runCalls asciiPlatform viewedCalls) twoBatches).countedOf 3 =
          (runFrom asciiPlatform (runCalls asciiPlatform viewedCalls)
            twoBatches).authorizations.where? fun row =>
              row.audience = .viewer ∧ row.dashboardId = 3 := by
  have hrows : ∀ row ∈ (runCalls asciiPlatform viewedCalls).waiting, row.openedAt ≤ 9 := by
    decide +kernel
  have hreach : (serviceSystem asciiPlatform).Reachable (runCalls asciiPlatform viewedCalls) :=
    reachable_runCalls viewedCalls
  have hcatchUp := rollups_catch_up hreach
  refine ⟨hcatchUp.1 _ 9 1 (by decide) (by decide), ?_⟩
  exact hcatchUp.2 twoBatches _ 9 3 (path_runFrom twoBatches _) (by decide) hrows
    (by decide +kernel)

end Agora
