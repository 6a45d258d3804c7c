import Agora.KeysetEnumeration
import Agora.RevisionServices
import Agora.ServiceRuns

/-!
# Progress of the cleanup job

A call of the job visits the oldest candidates, at most `limit` of them.  A visited
reservation is deleted or keeps its row with the cleanup requirement set.  A kept row
is no candidate any more if its state is reserved, and stays one if it is owned: such
rows are stuck.  A reservation is visited at last iff fewer than `limit` stuck rows come
before it.
-/

namespace Agora

open Transaction

/-! ## Calls of the job -/

/-- One iteration of `cleanup_expired_reservations`, with the storage's deletion. -/
def cleanupReservation (deletable : Text → Bool) (cutoff : Time) (reservationId : Uuid) :
    Tx PUnit := do
  let decision ← decideExpired cutoff reservationId
  if decision = .deleteBytes then
    let db ← get
    let reservation ← found (db.reservations.get? reservationId) .doesNotExist
    finishDeletion reservationId (deletable reservation.storageKey)
  else
    pure ⟨⟩

/-- The loop over the selected reservations; an exception ends it. -/
def cleanupEach (deletable : Text → Bool) (cutoff : Time) : List Uuid → Db → Db
  | [], db => db
  | reservationId :: rest, db =>
      match cleanupReservation deletable cutoff reservationId db with
      | .ok (_, next) => cleanupEach deletable cutoff rest next
      | .error _ => db

def cleanupExpiredReservations (deletable : Text → Bool) (limit : ℕ) (cutoff : Time) (db : Db) :
    Db :=
  cleanupEach deletable cutoff (db.expiredReservations cutoff limit) db

/-- The database after some calls, each at its own time. -/
def cleanupCalls (deletable : Text → Bool) (limit : ℕ) (cutoffs : ℕ → Time) (db : Db) : ℕ → Db
  | 0 => db
  | calls + 1 =>
      cleanupExpiredReservations deletable limit (cutoffs calls)
        (cleanupCalls deletable limit cutoffs db calls)

/-! ## One visit -/

/-- The check constraints of the table. -/
structure StorageReservation.Constrained (row : StorageReservation) : Prop where
  key : isCanonicalKey row.storageKey = true
  receipt : row.verifiedSize = none ↔ row.verifiedSha256 = []
  digest : row.verifiedSha256 = [] ∨ isHexDigest row.verifiedSha256 = true
  state : row.storageState = .owned ↔ row.verifiedSize ≠ none

def StorageReservation.quarantined (row : StorageReservation) : StorageReservation :=
  { row with cleanupRequired := true }

/-- A visit deletes the row. -/
def Db.Removes (deletable : Text → Bool) (db : Db) (row : StorageReservation) : Prop :=
  db.artifactOwns row.storageKey = true ∨ row.storageState = .collision ∨
    (row.storageState = .owned ∧ deletable row.storageKey = true)

instance (deletable : Text → Bool) (db : Db) (row : StorageReservation) :
    Decidable (db.Removes deletable row) := by
  unfold Db.Removes
  infer_instance

/-- What a visit leaves of the row. -/
def Db.visited (deletable : Text → Bool) (db : Db) (row : StorageReservation) :
    Option StorageReservation :=
  if db.Removes deletable row then none else some row.quarantined

variable {deletable : Text → Bool} {cutoff : Time} {limit : ℕ} {db after : Db}
  {row target : StorageReservation}

theorem StorageReservation.requireCleanup_ok (hstored : db.reservations.get? row.id = some row)
    (hrow : row.Constrained) :
    row.requireCleanup db = .ok (⟨⟩, db.resaved row.quarantined) := by
  have hsave : row.quarantined.save.Runs db row.quarantined (db.resaved row.quarantined) := by
    simp only [StorageReservation.save, StorageReservation.checkConstraints, runs_bind, runs_get,
      runs_found, runs_check, runs_set, runs_pure, and_assoc, exists_and_left, exists_eq_left',
      exists_const]
    exact ⟨row, hstored, rfl, rfl, rfl, fun _ => ⟨rfl, rfl⟩, fun hne => absurd rfl hne,
      fun _ => rfl, hrow.key, hrow.receipt, hrow.digest, hrow.state, trivial, rfl⟩
  have hruns : row.requireCleanup.Runs db ⟨⟩ (db.resaved row.quarantined) := by
    simp only [StorageReservation.requireCleanup, runs_bind, runs_pure]
    exact ⟨_, _, hsave, trivial, rfl⟩
  exact hruns

/-- The database after a visit of the row. -/
def Db.afterVisit (deletable : Text → Bool) (db : Db) (row : StorageReservation) : Db :=
  if db.Removes deletable row then db.released row.id else db.resaved row.quarantined

/-- The decision of a visit. -/
theorem decideExpired_ok (hstored : db.reservations.get? row.id = some row)
    (hexpired : row.expiresAt ≤ cutoff) (hrow : row.Constrained) :
    decideExpired cutoff row.id db =
      if db.artifactOwns row.storageKey = true ∨ row.storageState = .collision then
        .ok (.settled, db.released row.id)
      else if row.storageState = .reserved then .ok (.settled, db.resaved row.quarantined)
      else .ok (.deleteBytes, db) := by
  have hfilter : (db.reservations.get? row.id).filter (fun found =>
      found.expiresAt ≤ cutoff) = some row := by
    rw [hstored]
    simp [hexpired]
  have hdelete : ∀ decision : CleanupDecision,
      (row.delete >>= fun _ => pure decision : Tx CleanupDecision) db =
        .ok (decision, db.released row.id) := fun _ => rfl
  have hrequire : (row.requireCleanup >>= fun _ => pure CleanupDecision.settled :
      Tx CleanupDecision) db = .ok (.settled, db.resaved row.quarantined) :=
    bind_of_runs (row.requireCleanup_ok hstored hrow)
  unfold decideExpired
  rw [bind_get]
  simp only [hfilter]
  by_cases howned : db.artifactOwns row.storageKey = true
  · simp only [howned, if_true, true_or]
    exact hdelete _
  · by_cases hcollision : row.storageState = .collision
    · simp only [howned, hcollision, if_true, or_true]
      exact hdelete _
    · by_cases hreserved : row.storageState = .reserved
      · simp only [howned, hreserved, if_true, if_false, reduceCtorEq, or_false]
        exact hrequire
      · simp only [howned, hcollision, hreserved, if_false, or_false]
        rfl

theorem finishDeletion_ok (deleted : Bool) (hstored : db.reservations.get? row.id = some row)
    (hrow : row.Constrained) :
    finishDeletion row.id deleted db =
      .ok (⟨⟩, if deleted = true then db.released row.id else db.resaved row.quarantined) := by
  unfold finishDeletion
  rw [bind_get, bind_found_of_some hstored]
  cases deleted with
  | true => rfl
  | false => exact row.requireCleanup_ok hstored hrow

theorem cleanupReservation_ok (hstored : db.reservations.get? row.id = some row)
    (hexpired : row.expiresAt ≤ cutoff) (hrow : row.Constrained) :
    cleanupReservation deletable cutoff row.id db = .ok (⟨⟩, db.afterVisit deletable row) := by
  have hdecide := decideExpired_ok hstored hexpired hrow
  unfold cleanupReservation Db.afterVisit
  by_cases hunused : db.artifactOwns row.storageKey = true ∨ row.storageState = .collision
  · have hremoves : db.Removes deletable row := hunused.imp id .inl
    rw [if_pos hunused] at hdecide
    rw [bind_of_runs hdecide, if_pos hremoves, if_neg (by simp)]
    rfl
  · rw [if_neg hunused] at hdecide
    rw [not_or] at hunused
    by_cases hreserved : row.storageState = .reserved
    · have hkeeps : ¬ db.Removes deletable row := by
        simp [Db.Removes, hunused.1, hreserved]
      rw [if_pos hreserved] at hdecide
      rw [bind_of_runs hdecide, if_neg hkeeps, if_neg (by simp)]
      rfl
    · have howned : row.storageState = .owned := by
        cases hstate : row.storageState with
        | reserved => exact absurd hstate hreserved
        | owned => rfl
        | collision => exact absurd hstate hunused.2
      have hremoves : db.Removes deletable row ↔ deletable row.storageKey = true := by
        simp [Db.Removes, hunused.1, howned]
      rw [if_neg hreserved] at hdecide
      rw [bind_of_runs hdecide, if_pos rfl, bind_get, bind_found_of_some hstored,
        finishDeletion_ok _ hstored hrow]
      simp only [hremoves]

/-! ## One call -/

theorem Db.removes_congr (hartifacts : after.artifacts = db.artifacts) :
    after.Removes deletable row ↔ db.Removes deletable row := by
  simp only [Db.Removes, Db.artifactOwns, hartifacts]

theorem Db.visited_congr (hartifacts : after.artifacts = db.artifacts) :
    after.visited deletable row = db.visited deletable row := by
  unfold Db.visited
  by_cases hremoves : db.Removes deletable row
  · rw [if_pos hremoves, if_pos ((Db.removes_congr hartifacts).mpr hremoves)]
  · rw [if_neg hremoves, if_neg (mt (Db.removes_congr hartifacts).mp hremoves)]

theorem Db.afterVisit_artifacts :
    (db.afterVisit deletable row).artifacts = db.artifacts := by
  unfold Db.afterVisit
  split
  · rfl
  · rfl

theorem Db.afterVisit_rows (hstored : row ∈ db.reservations) :
    (db.afterVisit deletable row).reservations.rows =
      db.reservations.rows.filterMap fun other =>
        if other = row then db.visited deletable other else some other := by
  have hsame : ∀ other ∈ db.reservations.rows, other.id = row.id ↔ other = row := by
    intro other hother
    constructor
    · exact fun hid => Table.eq_of_key_eq hother hstored hid
    · exact fun heq => by rw [heq]
  unfold Db.afterVisit Db.visited
  by_cases hremoves : db.Removes deletable row
  · rw [if_pos hremoves]
    show db.reservations.rows.filter _ = _
    rw [← List.filterMap_eq_filter]
    apply List.filterMap_congr
    intro other hother
    by_cases heq : other = row
    · simp [heq, hremoves, Option.guard]
    · have hid : other.id ≠ row.id := fun hid => heq ((hsame other hother).mp hid)
      simp [heq, hid, Option.guard]
  · rw [if_neg hremoves]
    show db.reservations.rows.map _ = _
    rw [← List.filterMap_eq_map]
    apply List.filterMap_congr
    intro other hother
    by_cases heq : other = row
    · subst heq
      simp [hremoves, Keyed.key, StorageReservation.quarantined]
    · have hid : other.id ≠ row.id := fun hid => heq ((hsame other hother).mp hid)
      simp [heq, hid, Keyed.key, StorageReservation.quarantined]

/-- What the visits leave of a row. -/
def Db.remains (deletable : Text → Bool) (db : Db) (visits : List StorageReservation)
    (row : StorageReservation) : Option StorageReservation :=
  if row ∈ visits then db.visited deletable row else some row

theorem Db.remains_cons {visits : List StorageReservation} {first : StorageReservation}
    (hfresh : first.id ∉ visits.map StorageReservation.id) :
    (if row = first then db.visited deletable row else some row).bind
        ((db.afterVisit deletable first).remains deletable visits) =
      db.remains deletable (first :: visits) row := by
  have hlater : ∀ other : StorageReservation,
      (db.afterVisit deletable first).visited deletable other = db.visited deletable other :=
    fun other => Db.visited_congr Db.afterVisit_artifacts
  unfold Db.remains
  by_cases hfirst : row = first
  · have hkept : first.quarantined ∉ visits := by
      intro hmem
      exact hfresh (List.mem_map.mpr ⟨_, hmem, rfl⟩)
    rw [if_pos hfirst, hfirst, if_pos (List.mem_cons_self ..)]
    unfold Db.visited
    by_cases hremoves : db.Removes deletable first
    · rw [if_pos hremoves]
      rfl
    · rw [if_neg hremoves, Option.bind_some, if_neg hkept]
  · rw [if_neg hfirst, Option.bind_some, hlater]
    simp only [List.mem_cons, hfirst, false_or]

/-- The job visits rows as they were when the call began. -/
theorem cleanupEach_spec {visits : List StorageReservation}
    (hdistinct : (visits.map StorageReservation.id).Nodup)
    (hvisits : ∀ row ∈ visits, row ∈ db.reservations ∧ row.expiresAt ≤ cutoff ∧ row.Constrained) :
    (cleanupEach deletable cutoff (visits.map StorageReservation.id) db).artifacts =
        db.artifacts ∧
      (cleanupEach deletable cutoff (visits.map StorageReservation.id) db).reservations.rows =
        db.reservations.rows.filterMap (db.remains deletable visits) := by
  induction visits generalizing db with
  | nil =>
      have hsome : db.remains deletable [] = some := by
        funext row
        simp [Db.remains]
      rw [hsome, List.filterMap_some]
      exact ⟨rfl, rfl⟩
  | cons first rest ih =>
      obtain ⟨hstored, hexpired, hrow⟩ := hvisits first (List.mem_cons_self ..)
      rw [List.map_cons, List.nodup_cons] at hdistinct
      have hothers : ∀ row ∈ rest, row ≠ first := by
        intro row hrest heq
        apply hdistinct.1
        rw [← heq]
        exact List.mem_map_of_mem hrest
      have hrest : ∀ row ∈ rest, row ∈ (db.afterVisit deletable first).reservations ∧
          row.expiresAt ≤ cutoff ∧ row.Constrained := by
        intro row hmem
        obtain ⟨hstoredRow, hother⟩ := hvisits row (List.mem_cons_of_mem _ hmem)
        refine ⟨?_, hother⟩
        rw [Table.mem_def, Db.afterVisit_rows hstored, List.mem_filterMap]
        exact ⟨row, hstoredRow, by rw [if_neg (hothers row hmem)]⟩
      have hnext := ih hdistinct.2 hrest
      have hcall : cleanupEach deletable cutoff ((first :: rest).map StorageReservation.id) db =
          cleanupEach deletable cutoff (rest.map StorageReservation.id)
            (db.afterVisit deletable first) := by
        rw [List.map_cons, cleanupEach,
          cleanupReservation_ok (Table.get?_of_mem hstored) hexpired hrow]
      rw [hcall]
      refine ⟨hnext.1.trans Db.afterVisit_artifacts, ?_⟩
      rw [hnext.2, Db.afterVisit_rows hstored, List.filterMap_filterMap]
      apply List.filterMap_congr
      intro row _
      exact Db.remains_cons hdistinct.1

/-! ## The queue -/

/-- The order of the candidates: by expiry, then by identifier. -/
def StorageReservation.place (row : StorageReservation) : Time ×ₗ Uuid :=
  toLex (row.expiresAt, row.id)

/-- A row that an excluding filter of the job does not hide. -/
def StorageReservation.Waiting (row : StorageReservation) : Prop :=
  ¬ (row.storageState = .reserved ∧ row.cleanupRequired = true)

instance (row : StorageReservation) : Decidable row.Waiting := by
  unfold StorageReservation.Waiting
  infer_instance

/-- The rows that a call may visit. -/
def Db.candidates (db : Db) (cutoff : Time) : List StorageReservation :=
  db.reservations.where? fun row => row.expiresAt ≤ cutoff ∧ row.Waiting

/-- The rows that a call visits. -/
def Db.batch (db : Db) (cutoff : Time) (limit : ℕ) : List StorageReservation :=
  (Keyset.ordered StorageReservation.place (db.candidates cutoff)).take limit

theorem Db.expiredReservations_eq :
    db.expiredReservations cutoff limit = (db.batch cutoff limit).map StorageReservation.id := by
  have hle : ∀ first second : StorageReservation, first.place ≤ second.place ↔
      first.expiresAt < second.expiresAt ∨
        (first.expiresAt = second.expiresAt ∧ first.id ≤ second.id) := by
    intro first second
    simp [StorageReservation.place, Prod.Lex.le_iff]
  unfold Db.expiredReservations Db.batch Keyset.ordered Db.candidates StorageReservation.Waiting
  simp only [hle]

theorem Db.mem_candidates : row ∈ db.candidates cutoff ↔
    row ∈ db.reservations ∧ row.expiresAt ≤ cutoff ∧ row.Waiting := by
  unfold Db.candidates
  rw [Table.mem_where?_iff, decide_eq_true_eq]

theorem Db.candidates_places_nodup :
    ((db.candidates cutoff).map StorageReservation.place).Nodup := by
  have hids : ((db.candidates cutoff).map StorageReservation.id).Nodup :=
    db.reservations.nodupKeys.sublist (List.filter_sublist.map _)
  have hmap : (db.candidates cutoff).map StorageReservation.id =
      ((db.candidates cutoff).map StorageReservation.place).map fun place => (ofLex place).2 := by
    rw [List.map_map]
    rfl
  rw [hmap] at hids
  exact hids.of_map _

theorem Db.mem_candidates_of_mem_batch (hbatch : row ∈ db.batch cutoff limit) :
    row ∈ db.candidates cutoff :=
  (Keyset.enumerates_ordered Db.candidates_places_nodup).perm.mem_iff.mp
    (List.mem_of_mem_take hbatch)

theorem Db.batch_ids_nodup :
    ((db.batch cutoff limit).map StorageReservation.id).Nodup := by
  have hids : ((db.candidates cutoff).map StorageReservation.id).Nodup :=
    db.reservations.nodupKeys.sublist (List.filter_sublist.map _)
  have hperm := (Keyset.enumerates_ordered (@Db.candidates_places_nodup cutoff db)).perm
  have hordered := ((hperm.map StorageReservation.id).nodup_iff).mpr hids
  exact hordered.sublist ((List.take_sublist ..).map _)

theorem cleanupExpiredReservations_spec (hrows : ∀ row ∈ db.reservations, row.Constrained) :
    (cleanupExpiredReservations deletable limit cutoff db).artifacts = db.artifacts ∧
      (cleanupExpiredReservations deletable limit cutoff db).reservations.rows =
        db.reservations.rows.filterMap (db.remains deletable (db.batch cutoff limit)) := by
  unfold cleanupExpiredReservations
  rw [Db.expiredReservations_eq]
  apply cleanupEach_spec Db.batch_ids_nodup
  intro row hbatch
  obtain ⟨hstored, hexpired, _⟩ := Db.mem_candidates.mp (Db.mem_candidates_of_mem_batch hbatch)
  exact ⟨hstored, hexpired, hrows row hstored⟩

/-! ## The rows ahead of a reservation -/

/-- An owned row that every visit keeps. -/
def Db.Stuck (deletable : Text → Bool) (db : Db) (row : StorageReservation) : Prop :=
  row.storageState = .owned ∧ ¬ db.Removes deletable row

instance (deletable : Text → Bool) (db : Db) (row : StorageReservation) :
    Decidable (db.Stuck deletable row) := by
  unfold Db.Stuck
  infer_instance

def Db.stuckAhead (deletable : Text → Bool) (db : Db) (target : StorageReservation) : ℕ :=
  db.reservations.rows.countP fun row => row.place < target.place ∧ db.Stuck deletable row

/-- The candidates ahead of a reservation that leave the queue when they are visited. -/
def Db.passingAhead (deletable : Text → Bool) (db : Db) (target : StorageReservation) : ℕ :=
  db.reservations.rows.countP fun row =>
    row.place < target.place ∧ row.Waiting ∧ ¬ db.Stuck deletable row

theorem Db.Stuck.waiting (hstuck : db.Stuck deletable row) : row.Waiting := by
  rintro ⟨hreserved, _⟩
  rw [hstuck.1] at hreserved
  cases hreserved

theorem StorageReservation.expiresAt_le_of_place (hplace : row.place < target.place) :
    row.expiresAt ≤ target.expiresAt := by
  cases Prod.Lex.lt_iff.mp hplace with
  | inl hless => exact le_of_lt hless
  | inr hsame => exact le_of_eq hsame.1

/-- A candidate is visited iff fewer than `limit` candidates are ahead of it. -/
theorem Db.mem_batch_iff (htarget : target ∈ db.candidates cutoff) :
    target ∈ db.batch cutoff limit ↔
      db.stuckAhead deletable target + db.passingAhead deletable target < limit := by
  have hexpired := (Db.mem_candidates.mp htarget).2.1
  have hrank : (db.candidates cutoff).countP (fun row => row.place < target.place) =
      db.stuckAhead deletable target + db.passingAhead deletable target := by
    unfold Db.candidates Db.stuckAhead Db.passingAhead Table.where?
    rw [List.countP_filter,
      List.countP_eq_countP_filter_add _ _ fun row => db.Stuck deletable row,
      List.countP_filter, List.countP_filter]
    congr 1
    · apply List.countP_congr
      intro row _
      have hwaits : db.Stuck deletable row → row.Waiting := Db.Stuck.waiting
      have hearly : row.place < target.place → row.expiresAt ≤ cutoff := fun hplace =>
        (StorageReservation.expiresAt_le_of_place hplace).trans hexpired
      simp only [Bool.and_eq_true, decide_eq_true_eq]
      tauto
    · apply List.countP_congr
      intro row _
      have hearly : row.place < target.place → row.expiresAt ≤ cutoff := fun hplace =>
        (StorageReservation.expiresAt_le_of_place hplace).trans hexpired
      simp only [Bool.and_eq_true, decide_eq_true_eq, Bool.not_eq_true', decide_eq_false_iff_not]
      tauto
  rw [← hrank]
  exact Keyset.mem_take_ordered_iff Db.candidates_places_nodup htarget

@[simp] theorem StorageReservation.place_quarantined : row.quarantined.place = row.place := rfl

@[simp] theorem StorageReservation.storageState_quarantined :
    row.quarantined.storageState = row.storageState := rfl

@[simp] theorem StorageReservation.waiting_quarantined :
    row.quarantined.Waiting ↔ row.storageState ≠ .reserved := by
  simp [StorageReservation.Waiting, StorageReservation.quarantined]

@[simp] theorem Db.removes_quarantined :
    db.Removes deletable row.quarantined ↔ db.Removes deletable row :=
  Iff.rfl

/-- A visited row that stays is stuck, or it is reserved and waits no longer. -/
theorem Db.stuck_or_reserved (hkept : ¬ db.Removes deletable row) :
    row.storageState = .owned ∨ row.storageState = .reserved := by
  cases hstate : row.storageState with
  | reserved => exact .inr rfl
  | owned => exact .inl rfl
  | collision => exact absurd (.inr (.inl hstate)) hkept

/-! ## What one call changes -/

section Call

variable (hrows : ∀ row ∈ db.reservations, row.Constrained)

omit hrows in
theorem StorageReservation.Constrained.quarantined (hrow : row.Constrained) :
    row.quarantined.Constrained :=
  ⟨hrow.key, hrow.receipt, hrow.digest, hrow.state⟩

theorem Db.eq_quarantined_of_visited {left : StorageReservation}
    (hleft : db.visited deletable row = some left) : left = row.quarantined := by
  unfold Db.visited at hleft
  split at hleft
  · cases hleft
  · exact (Option.some.inj hleft).symm

include hrows in
theorem cleanupExpiredReservations_constrained :
    ∀ row ∈ (cleanupExpiredReservations deletable limit cutoff db).reservations,
      row.Constrained := by
  intro left hleft
  rw [Table.mem_def, (cleanupExpiredReservations_spec hrows).2, List.mem_filterMap] at hleft
  obtain ⟨old, hold, hremains⟩ := hleft
  have hconstrained := hrows old hold
  unfold Db.remains at hremains
  split at hremains
  · rw [Db.eq_quarantined_of_visited hremains]
    exact hconstrained.quarantined
  · cases hremains
    exact hconstrained

include hrows in
/-- A reservation that is not visited keeps its row. -/
theorem mem_of_not_visited (htarget : target ∈ db.reservations)
    (hbatch : target ∉ db.batch cutoff limit) :
    target ∈ (cleanupExpiredReservations deletable limit cutoff db).reservations := by
  rw [Table.mem_def, (cleanupExpiredReservations_spec hrows).2, List.mem_filterMap]
  exact ⟨target, htarget, if_neg hbatch⟩

theorem Db.id_of_remains {visits : List StorageReservation} {left : StorageReservation}
    (hleft : db.remains deletable visits row = some left) : left.id = row.id := by
  unfold Db.remains at hleft
  split at hleft
  · rw [Db.eq_quarantined_of_visited hleft]
    rfl
  · cases hleft
    rfl

include hrows in
/-- The job adds no identifier. -/
theorem get?_eq_none_of_cleanup {id : Uuid} (hgone : db.reservations.get? id = none) :
    (cleanupExpiredReservations deletable limit cutoff db).reservations.get? id = none := by
  rw [Table.get?_eq_none_iff] at hgone ⊢
  intro left hleft
  rw [Table.mem_def, (cleanupExpiredReservations_spec hrows).2, List.mem_filterMap] at hleft
  obtain ⟨row, hrow, hremains⟩ := hleft
  have hid : left.id = row.id := Db.id_of_remains hremains
  show left.id ≠ id
  rw [hid]
  exact hgone row hrow

include hrows in
/-- A visit of a removable reservation deletes it. -/
theorem get?_eq_none_of_visited (hbatch : target ∈ db.batch cutoff limit)
    (hremoves : db.Removes deletable target) :
    (cleanupExpiredReservations deletable limit cutoff db).reservations.get? target.id =
      none := by
  rw [Table.get?_eq_none_iff]
  intro left hleft hkey
  rw [Table.mem_def, (cleanupExpiredReservations_spec hrows).2, List.mem_filterMap] at hleft
  obtain ⟨row, hrow, hremains⟩ := hleft
  have hid : row.id = target.id := (Db.id_of_remains hremains).symm.trans hkey
  have htarget := (Db.mem_candidates.mp (Db.mem_candidates_of_mem_batch hbatch)).1
  have hsame : row = target := Table.eq_of_key_eq hrow htarget hid
  subst hsame
  simp only [Db.remains, if_pos hbatch, Db.visited, if_pos hremoves, reduceCtorEq] at hremains

include hrows in
theorem Db.stuckAhead_cleanup :
    (cleanupExpiredReservations deletable limit cutoff db).stuckAhead deletable target =
      db.stuckAhead deletable target := by
  obtain ⟨hartifacts, hreservations⟩ := @cleanupExpiredReservations_spec deletable cutoff limit
    db hrows
  unfold Db.stuckAhead
  rw [hreservations, List.countP_filterMap]
  apply List.countP_congr
  intro row _
  unfold Db.remains Db.visited Db.Stuck
  simp only [Db.removes_congr hartifacts]
  by_cases hbatch : row ∈ db.batch cutoff limit
  · by_cases hremoves : db.Removes deletable row
    · simp [hbatch, hremoves]
    · simp only [hbatch, hremoves, if_true, if_false, Option.map_some, Option.getD_some,
        StorageReservation.place_quarantined, StorageReservation.storageState_quarantined,
        Db.removes_quarantined, decide_eq_true_eq]
  · simp [hbatch]

include hrows in
theorem Db.passingAhead_cleanup :
    (cleanupExpiredReservations deletable limit cutoff db).passingAhead deletable target =
      db.reservations.rows.countP fun row =>
        (row.place < target.place ∧ row.Waiting ∧ ¬ db.Stuck deletable row) ∧
          row ∉ db.batch cutoff limit := by
  obtain ⟨hartifacts, hreservations⟩ := @cleanupExpiredReservations_spec deletable cutoff limit
    db hrows
  unfold Db.passingAhead
  rw [hreservations, List.countP_filterMap]
  apply List.countP_congr
  intro row _
  unfold Db.remains Db.visited Db.Stuck
  simp only [Db.removes_congr hartifacts]
  by_cases hbatch : row ∈ db.batch cutoff limit
  · by_cases hremoves : db.Removes deletable row
    · simp [hbatch, hremoves]
    · have hstate := Db.stuck_or_reserved hremoves
      simp only [hbatch, hremoves, if_true, if_false, Option.map_some, Option.getD_some,
        StorageReservation.place_quarantined, StorageReservation.waiting_quarantined,
        StorageReservation.storageState_quarantined, Db.removes_quarantined, decide_eq_true_eq]
      tauto
  · simp [hbatch]

include hrows in
/-- While a reservation waits for its visit, the rows ahead of it that can leave do. -/
theorem Db.passingAhead_decreases (htarget : target ∈ db.candidates cutoff)
    (hbatch : target ∉ db.batch cutoff limit)
    (hstuck : db.stuckAhead deletable target < limit) :
    (cleanupExpiredReservations deletable limit cutoff db).passingAhead deletable target <
      db.passingAhead deletable target := by
  obtain ⟨hstored, _, _⟩ := Db.mem_candidates.mp htarget
  obtain ⟨hlength, hahead⟩ := Keyset.before_cut Db.candidates_places_nodup htarget hbatch
  have hfew : (db.batch cutoff limit).countP (fun row => db.Stuck deletable row) < limit := by
    apply Nat.lt_of_le_of_lt _ hstuck
    unfold Db.stuckAhead
    rw [List.countP_eq_length_filter, List.countP_eq_length_filter]
    apply List.Subperm.length_le
    apply List.subperm_of_subset (List.Nodup.filter _ (List.Nodup.of_map _ Db.batch_ids_nodup))
    intro row hrow
    rw [List.mem_filter, decide_eq_true_eq] at hrow ⊢
    obtain ⟨hrow, hkept⟩ := hrow
    have hcandidate := Db.mem_candidates.mp (Db.mem_candidates_of_mem_batch hrow)
    exact ⟨hcandidate.1, hahead row hrow, hkept⟩
  have hpassing : ∃ row ∈ db.batch cutoff limit, ¬ db.Stuck deletable row := by
    by_contra hall
    push Not at hall
    have hevery : (db.batch cutoff limit).countP (fun row => db.Stuck deletable row) =
        (db.batch cutoff limit).length := by
      rw [List.countP_eq_length]
      intro row hrow
      exact decide_eq_true (hall row hrow)
    have hfull : (db.batch cutoff limit).length = limit := hlength
    omega
  obtain ⟨row, hrow, hfree⟩ := hpassing
  have hcandidate := Db.mem_candidates.mp (Db.mem_candidates_of_mem_batch hrow)
  rw [Db.passingAhead_cleanup hrows]
  unfold Db.passingAhead
  rw [List.countP_eq_countP_filter_add db.reservations.rows
    (fun row => row.place < target.place ∧ row.Waiting ∧ ¬ db.Stuck deletable row)
    (fun row => row ∈ db.batch cutoff limit), List.countP_filter, List.countP_filter]
  have hvisited : 0 < db.reservations.rows.countP fun row =>
      decide (row.place < target.place ∧ row.Waiting ∧ ¬ db.Stuck deletable row) &&
        decide (row ∈ db.batch cutoff limit) := by
    rw [List.countP_pos_iff]
    refine ⟨row, hcandidate.1, ?_⟩
    rw [Bool.and_eq_true, decide_eq_true_eq, decide_eq_true_eq]
    exact ⟨⟨hahead row hrow, hcandidate.2.2, hfree⟩, hrow⟩
  have hothers : (db.reservations.rows.countP fun row =>
      (row.place < target.place ∧ row.Waiting ∧ ¬ db.Stuck deletable row) ∧
        row ∉ db.batch cutoff limit) =
      db.reservations.rows.countP fun row =>
        decide (row.place < target.place ∧ row.Waiting ∧ ¬ db.Stuck deletable row) &&
          !decide (row ∈ db.batch cutoff limit) := by
    apply List.countP_congr
    intro row _
    simp only [decide_eq_true_eq, Bool.and_eq_true, Bool.not_eq_true', decide_eq_false_iff_not]
  omega

end Call

/-! ## Every run of calls -/

section Run

variable {cutoffs : ℕ → Time} (hrows : ∀ row ∈ db.reservations, row.Constrained)

/-- The rows that the job is there to remove. -/
def StorageReservation.Removable (deletable : Text → Bool) (row : StorageReservation) : Prop :=
  (row.storageState = .owned ∧ deletable row.storageKey = true) ∨ row.storageState = .collision

instance (deletable : Text → Bool) (row : StorageReservation) :
    Decidable (row.Removable deletable) := by
  unfold StorageReservation.Removable
  infer_instance

theorem StorageReservation.Removable.removes (hremovable : row.Removable deletable) :
    db.Removes deletable row :=
  .inr hremovable.symm

theorem StorageReservation.Removable.waiting (hremovable : row.Removable deletable) :
    row.Waiting := by
  intro hhidden
  cases hremovable with
  | inl howned => exact absurd (howned.1.symm.trans hhidden.1) (by decide)
  | inr hcollision => exact absurd (hcollision.symm.trans hhidden.1) (by decide)

include hrows in
theorem cleanupCalls_constrained (calls : ℕ) :
    ∀ row ∈ (cleanupCalls deletable limit cutoffs db calls).reservations, row.Constrained := by
  induction calls with
  | zero => exact hrows
  | succ calls ih => exact cleanupExpiredReservations_constrained ih

include hrows in
theorem stuckAhead_cleanupCalls (calls : ℕ) :
    (cleanupCalls deletable limit cutoffs db calls).stuckAhead deletable target =
      db.stuckAhead deletable target := by
  induction calls with
  | zero => rfl
  | succ calls ih =>
      rw [cleanupCalls, Db.stuckAhead_cleanup (cleanupCalls_constrained hrows calls), ih]

include hrows in
theorem gone_of_gone {id : Uuid} {first last : ℕ} (hle : first ≤ last)
    (hgone : (cleanupCalls deletable limit cutoffs db first).reservations.get? id = none) :
    (cleanupCalls deletable limit cutoffs db last).reservations.get? id = none := by
  induction hle with
  | refl => exact hgone
  | step _ ih => exact get?_eq_none_of_cleanup (cleanupCalls_constrained hrows _) ih

include hrows in
/-- A reservation with too many stuck rows ahead of it is never visited. -/
theorem kept_of_stuck (htarget : target ∈ db.reservations)
    (hstuck : limit ≤ db.stuckAhead deletable target) (calls : ℕ) :
    target ∈ (cleanupCalls deletable limit cutoffs db calls).reservations := by
  induction calls with
  | zero => exact htarget
  | succ calls ih =>
      apply mem_of_not_visited (cleanupCalls_constrained hrows calls) ih
      intro hbatch
      have hcandidate := Db.mem_candidates_of_mem_batch hbatch
      rw [Db.mem_batch_iff hcandidate, stuckAhead_cleanupCalls hrows] at hbatch
      omega

include hrows in
/-- A removable reservation with few stuck rows ahead of it is removed at last. -/
theorem gone_of_few_stuck (hcutoffs : Monotone cutoffs) (hexpired : target.expiresAt ≤ cutoffs 0)
    (hremovable : target.Removable deletable) (hstuck : db.stuckAhead deletable target < limit)
    (calls : ℕ)
    (htarget : target ∈ (cleanupCalls deletable limit cutoffs db calls).reservations) :
    ∃ later, (cleanupCalls deletable limit cutoffs db later).reservations.get? target.id =
      none := by
  generalize hahead : (cleanupCalls deletable limit cutoffs db calls).passingAhead deletable
    target = ahead
  induction ahead using Nat.strong_induction_on generalizing calls with
  | _ ahead ih =>
      have hconstrained := @cleanupCalls_constrained deletable limit db cutoffs hrows calls
      have hcandidate : target ∈ (cleanupCalls deletable limit cutoffs db calls).candidates
          (cutoffs calls) :=
        Db.mem_candidates.mpr ⟨htarget, hexpired.trans (hcutoffs (Nat.zero_le calls)),
          hremovable.waiting⟩
      by_cases hbatch : target ∈
          (cleanupCalls deletable limit cutoffs db calls).batch (cutoffs calls) limit
      · exact ⟨calls + 1, get?_eq_none_of_visited hconstrained hbatch hremovable.removes⟩
      · have hfew : (cleanupCalls deletable limit cutoffs db calls).stuckAhead deletable target <
            limit := by
          rw [stuckAhead_cleanupCalls hrows]
          exact hstuck
        have hless := Db.passingAhead_decreases hconstrained hcandidate hbatch hfew
        exact ih _ (hahead ▸ hless) (calls + 1)
          (mem_of_not_visited hconstrained htarget hbatch) rfl

include hrows in
/-- Reservations that are each removed at last are removed by one call. -/
theorem gone_together {rows : List StorageReservation}
    (heach : ∀ row ∈ rows,
      ∃ calls, (cleanupCalls deletable limit cutoffs db calls).reservations.get? row.id = none) :
    ∃ calls, ∀ row ∈ rows,
      (cleanupCalls deletable limit cutoffs db calls).reservations.get? row.id = none := by
  induction rows with
  | nil => exact ⟨0, by simp⟩
  | cons first rest ih =>
      obtain ⟨calls, hcalls⟩ := ih fun row hrow => heach row (List.mem_cons_of_mem _ hrow)
      obtain ⟨later, hlater⟩ := heach first (List.mem_cons_self ..)
      refine ⟨max calls later, ?_⟩
      intro row hrow
      cases List.mem_cons.mp hrow with
      | inl hsame =>
          rw [hsame]
          exact gone_of_gone hrows (le_max_right calls later) hlater
      | inr hrest => exact gone_of_gone hrows (le_max_left calls later) (hcalls row hrest)

end Run

/-- After finitely many calls every expired reservation that the job is there to remove
is removed. -/
def CleansUp (deletable : Text → Bool) (limit : ℕ) (cutoffs : ℕ → Time) (db : Db) : Prop :=
  ∃ calls, ∀ row ∈ db.reservations, row.expiresAt ≤ cutoffs 0 → row.Removable deletable →
    (cleanupCalls deletable limit cutoffs db calls).reservations.get? row.id = none

/-- The job is starved exactly when `limit` owned reservations whose keys cannot be deleted
come before a removable one. -/
theorem cleanup_not_starved_iff {cutoffs : ℕ → Time} (hcutoffs : Monotone cutoffs)
    (hrows : ∀ row ∈ db.reservations, row.Constrained) :
    CleansUp deletable limit cutoffs db ↔
      ∀ row ∈ db.reservations, row.expiresAt ≤ cutoffs 0 → row.Removable deletable →
        db.stuckAhead deletable row < limit := by
  constructor
  · rintro ⟨calls, hgone⟩ row hrow hexpired hremovable
    by_contra hstuck
    have hkept := @kept_of_stuck deletable limit db row cutoffs hrows hrow
      (Nat.not_lt.mp hstuck) calls
    have hstored := Table.get?_of_mem hkept
    rw [show Keyed.key row = row.id from rfl, hgone row hrow hexpired hremovable] at hstored
    cases hstored
  · intro hfew
    have hdue : ∀ row ∈ db.reservations.rows.filter (fun row =>
        row.expiresAt ≤ cutoffs 0 ∧ row.Removable deletable),
        ∃ calls, (cleanupCalls deletable limit cutoffs db calls).reservations.get? row.id =
          none := by
      intro row hrow
      rw [List.mem_filter, decide_eq_true_eq] at hrow
      obtain ⟨hstored, hexpired, hremovable⟩ := hrow
      exact gone_of_few_stuck hrows hcutoffs hexpired hremovable
        (hfew row hstored hexpired hremovable) 0 hstored
    obtain ⟨calls, hgone⟩ := gone_together hrows hdue
    refine ⟨calls, ?_⟩
    intro row hrow hexpired hremovable
    apply hgone
    rw [List.mem_filter, decide_eq_true_eq]
    exact ⟨hrow, hexpired, hremovable⟩

/-! ## A starved job -/

/-- The storage key whose token repeats one digit. -/
def repeatedKey (digit : Char) (hdigit : isHexDigest (List.replicate 64 digit) = true) : Text :=
  (StorageKey.generate (List.replicate 64 digit) hdigit).value

/-- An owned reservation that expired first, and a collision. -/
def starvedDb : Db :=
  { Db.empty with
    reservations := {
      rows := [
        { id := 1
          storageKey := repeatedKey 'a' (by decide)
          storageState := .owned
          createdAt := 0
          expiresAt := 10
          verifiedSize := some 1
          verifiedSha256 := List.replicate 64 'a'
          cleanupRequired := false },
        { id := 2
          storageKey := repeatedKey 'b' (by decide)
          storageState := .collision
          createdAt := 0
          expiresAt := 20
          verifiedSize := none
          verifiedSha256 := []
          cleanupRequired := false }]
      nodupKeys := by decide } }

theorem StorageReservation.constrained_starvedDb :
    ∀ row ∈ starvedDb.reservations, row.Constrained := by
  intro row hrow
  have hstored : row ∈ starvedDb.reservations.rows := hrow
  simp only [starvedDb, List.mem_cons, List.not_mem_nil, or_false] at hstored
  cases hstored with
  | inl hfirst =>
      rw [hfirst]
      exact ⟨StorageKey.canonical _, by decide +kernel, by decide +kernel, by decide +kernel⟩
  | inr hsecond =>
      rw [hsecond]
      exact ⟨StorageKey.canonical _, by decide +kernel, by decide +kernel, by decide +kernel⟩

/-- One key that cannot be deleted keeps a job of limit 1 from the collision for ever. -/
theorem stuck_reservation_starves_cleanup :
    ¬ CleansUp (fun key => key ≠ repeatedKey 'a' (by decide)) 1 (fun calls => 100 + calls)
      starvedDb := by
  rintro ⟨calls, hgone⟩
  have hcollision : starvedDb.reservations.rows.get ⟨1, by decide⟩ ∈ starvedDb.reservations :=
    List.get_mem ..
  have hkept := @kept_of_stuck (fun key => key ≠ repeatedKey 'a' (by decide)) 1 starvedDb _
    (fun calls => 100 + calls) StorageReservation.constrained_starvedDb hcollision
    (by decide +kernel) calls
  have hnone := hgone _ hcollision (by decide +kernel) (.inr rfl)
  cases (Table.get?_of_mem hkept).symm.trans hnone

theorem one_stuck_reservation_leaves_room :
    CleansUp (fun key => key ≠ repeatedKey 'a' (by decide)) 2 (fun calls => 100 + calls)
      starvedDb := by
  have hclock : Monotone fun calls : ℕ => (100 : Time) + calls := by
    intro first last hle
    exact Int.add_le_add_left (Int.ofNat_le.mpr hle) 100
  apply (cleanup_not_starved_iff hclock StorageReservation.constrained_starvedDb).mpr
  decide +kernel

end Agora
