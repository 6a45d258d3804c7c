import Agora.KeyedRollups
import Agora.RenderServices

/-!
# Aggregation and retention of authorized opens

`aggregate_authorized_opens` adds one batch of waiting opens to the daily, viewer
and dashboard rollups and advances the checkpoint; `purge_authorized_opens`
deletes one batch of aggregated opens behind it.
-/

namespace Agora

open Transaction (check found fail forEach)

def authorizedOpenRetention : ℤ := days 90

def maxAnalyticsBatchSize : ℤ := 1000

/-- `_bounded_batch_size`. -/
def boundedBatchSize (batchSize : ℤ) : Tx ℕ := do
  check (1 ≤ batchSize ∧ batchSize ≤ maxAnalyticsBatchSize)
    (.value "batch_size must be between 1 and 1000")
  pure batchSize.toNat

/-- The order `("opened_at", "id")`. -/
def AuthorizedOpen.before (first second : AuthorizedOpen) : Prop :=
  first.openedAt < second.openedAt ∨
    (first.openedAt = second.openedAt ∧ first.id ≤ second.id)

instance : DecidableRel AuthorizedOpen.before :=
  fun _ _ => inferInstanceAs (Decidable (_ ∨ _))

/-- The first rows of a selection of opens in the order of time and identifier. -/
def Db.selectOpens (db : Db) (selected : AuthorizedOpen → Bool) (limit : ℕ) :
    List AuthorizedOpen :=
  ((db.opens.where? selected).insertionSort AuthorizedOpen.before).take limit

/-! ## Groups of a batch -/

def AuthorizedOpen.dailyKey (row : AuthorizedOpen) : Uuid × ℤ :=
  (row.dashboardId, Time.date row.openedAt)

def AuthorizedOpen.viewerKey (row : AuthorizedOpen) : Uuid × Uuid :=
  (row.dashboardId, row.viewerId)

/-- `min` and `max` over a list, with the first element as the starting value. -/
def earliest (events : List AuthorizedOpen) : Option Time :=
  (events.map AuthorizedOpen.openedAt).min?

def latest (events : List AuthorizedOpen) : Option Time :=
  (events.map AuthorizedOpen.openedAt).max?

def highestId (events : List AuthorizedOpen) : Option ℕ :=
  (events.map AuthorizedOpen.id).max?

/-! ## Rollups -/

def advanceDaily (group : (Uuid × ℤ) × List AuthorizedOpen) : Tx PUnit := do
  let db ← get
  let rollup ← getOneOrNone (db.dailyRollups.where? fun rollup =>
    (rollup.dashboardId, rollup.day) = group.1)
  match rollup with
  | none =>
      let id ← takeId
      let db ← get
      let dailyRollups ← found
        (db.dailyRollups.create ⟨id, group.1.1, group.1.2, group.2.length⟩)
        (.integrity "TB_TA_AGORA_OPEN_DAILY.ID")
      set { db with dailyRollups := dailyRollups }
  | some rollup =>
      set { db with
        dailyRollups := db.dailyRollups.replace { rollup with
          authorizedOpenCount := rollup.authorizedOpenCount + group.2.length } }

def advanceViewerSummary (group : (Uuid × Uuid) × List AuthorizedOpen) : Tx PUnit := do
  let firstOpenedAt ← found (earliest group.2) (.value "min() arg is an empty sequence")
  let lastOpenedAt ← found (latest group.2) (.value "max() arg is an empty sequence")
  let db ← get
  let summary ← getOneOrNone (db.viewerSummaries.where? fun summary =>
    (summary.dashboardId, summary.viewerId) = group.1)
  match summary with
  | none =>
      let id ← takeId
      let db ← get
      check (firstOpenedAt ≤ lastOpenedAt) (.integrity "agora_view_sum_time_order")
      let viewerSummaries ← found
        (db.viewerSummaries.create
          ⟨id, group.1.1, group.1.2, group.2.length, firstOpenedAt, lastOpenedAt⟩)
        (.integrity "TB_TA_AGORA_VIEWER_OPEN_SUM.ID")
      set { db with viewerSummaries := viewerSummaries }
  | some summary =>
      let advanced := { summary with
        authorizedOpenCount := summary.authorizedOpenCount + group.2.length
        firstOpenedAt := min summary.firstOpenedAt firstOpenedAt
        lastOpenedAt := max summary.lastOpenedAt lastOpenedAt }
      check (advanced.firstOpenedAt ≤ advanced.lastOpenedAt)
        (.integrity "agora_view_sum_time_order")
      set { db with viewerSummaries := db.viewerSummaries.replace advanced }

def advanceSnapshot (context : CallContext) (group : Uuid × List AuthorizedOpen) :
    Tx PUnit := do
  let lastOpenedAt ← found (latest group.2) (.value "max() arg is an empty sequence")
  let throughOpenId ← found (highestId group.2) (.value "max() arg is an empty sequence")
  let db ← get
  let snapshot ← getOneOrNone (db.snapshots.where? fun snapshot =>
    snapshot.dashboardId = group.1)
  match snapshot with
  | none =>
      let id ← takeId
      let db ← get
      let snapshots ← found
        (db.snapshots.create
          ⟨id, group.1, group.2.length, lastOpenedAt, throughOpenId, context.clock⟩)
        (.integrity "TB_TA_AGORA_OPEN_SNAPSHOT.ID")
      set { db with snapshots := snapshots }
  | some snapshot =>
      set { db with
        snapshots := db.snapshots.replace { snapshot with
          authorizedOpenCount := snapshot.authorizedOpenCount + group.2.length
          lastOpenedAt := max snapshot.lastOpenedAt lastOpenedAt
          capturedThroughOpenId := max snapshot.capturedThroughOpenId throughOpenId
          updatedAt := context.clock } }

/-- `_locked_checkpoint`. -/
def lockedCheckpoint (context : CallContext) : Tx AnalyticsPipelineCheckpoint := do
  let db ← get
  match db.checkpoint with
  | some checkpoint => pure checkpoint
  | none =>
      let checkpoint : AnalyticsPipelineCheckpoint := ⟨0, context.clock⟩
      set { db with checkpoint := some checkpoint }
      pure checkpoint

/-- The row of an open after a batch was marked as aggregated. -/
def AuthorizedOpen.marked (aggregatedAt : Time) (openIds : List ℕ) (row : AuthorizedOpen) :
    AuthorizedOpen :=
  if row.id ∈ openIds ∧ row.aggregatedAt = none then
    { row with aggregatedAt := some aggregatedAt }
  else row

theorem AuthorizedOpen.marked_id {aggregatedAt : Time} {openIds : List ℕ}
    (row : AuthorizedOpen) : (row.marked aggregatedAt openIds).id = row.id := by
  unfold AuthorizedOpen.marked
  split <;> rfl

/-- Mark the waiting opens of a batch as aggregated. -/
def markAggregated (aggregatedAt : Time) (openIds : List ℕ) : Tx PUnit :=
  modify fun db => { db with
    opens := db.opens.update (AuthorizedOpen.marked aggregatedAt openIds)
      AuthorizedOpen.marked_id }

structure AnalyticsAggregationResult where
  processed : ℕ
  lastCompletedOpenId : ℕ
  deriving DecidableEq, Repr

/-- The waiting opens that a call with these bounds takes. -/
def Db.waitingOpens (db : Db) (through : Time) (limit : ℕ) : List AuthorizedOpen :=
  db.selectOpens
    (fun row => row.aggregatedAt = none ∧ row.openedAt ≤ through) limit

def aggregateAuthorizedOpens (context : CallContext) (through : Time) (batchSize : ℤ) :
    Tx AnalyticsAggregationResult := do
  let bounded ← boundedBatchSize batchSize
  let checkpoint ← lockedCheckpoint context
  let db ← get
  let opens := db.waitingOpens through bounded
  match highestId opens with
  | none => pure ⟨0, checkpoint.lastCompletedOpenId⟩
  | some throughOpenId =>
      forEach advanceDaily (grouped AuthorizedOpen.dailyKey opens)
      forEach advanceViewerSummary (grouped AuthorizedOpen.viewerKey opens)
      forEach (advanceSnapshot context) (grouped AuthorizedOpen.dashboardId opens)
      markAggregated context.clock (opens.map AuthorizedOpen.id)
      let lastCompletedOpenId := max checkpoint.lastCompletedOpenId throughOpenId
      let db ← get
      set { db with checkpoint := some ⟨lastCompletedOpenId, context.clock⟩ }
      pure ⟨opens.length, lastCompletedOpenId⟩

/-- The opens that a purge with these bounds deletes. -/
def Db.removableOpens (db : Db) (checkpoint : AnalyticsPipelineCheckpoint)
    (before : Time) (limit : ℕ) : List AuthorizedOpen :=
  (db.selectOpens (fun row => row.openedAt < before) limit).filter fun row =>
    row.aggregatedAt ≠ none ∧ row.id ≤ checkpoint.lastCompletedOpenId

/-- The number of opens removed; the deletion passes `AGORA_AUTH_OPEN_GUARD`. -/
def purgeAuthorizedOpens (context : CallContext) (before : Time) (batchSize : ℤ) :
    Tx ℕ := do
  let bounded ← boundedBatchSize batchSize
  check (before ≤ context.clock - authorizedOpenRetention)
    (.value "authorized opens must be retained for at least 90 days")
  let db ← get
  match db.checkpoint with
  | none => pure 0
  | some checkpoint =>
      let removable := db.removableOpens checkpoint before bounded
      check (∀ row ∈ removable, row.aggregatedAt ≠ none ∧
          row.openedAt ≤ context.clock - authorizedOpenRetention)
        (.trigger (-20025) "authorized-open is not retention eligible")
      check (∀ row ∈ removable, row.id ≤ checkpoint.lastCompletedOpenId)
        (.trigger (-20025) "authorized-open is ahead of checkpoint")
      set { db with
        opens := db.opens.keep fun row => row.id ∉ removable.map AuthorizedOpen.id }
      pure removable.length

end Agora
