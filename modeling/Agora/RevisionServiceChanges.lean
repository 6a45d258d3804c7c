import Agora.ServiceChanges

/-!
# The transactions of revision creation as changes

The committed runs of the reservation transactions touch nothing but reservations,
and only in the ways that `StorageReservation.save` allows.  The commit of a
revision adds one artifact for each prepared payload and deletes the reservations
of the payloads with it.
-/

namespace Agora

open Transaction

variable {effects : Set Effect}

/-! ## Saving reservations -/

/-- The transitions that `StorageReservation.save` allows. -/
structure StorageReservation.Follows (row original : StorageReservation) : Prop where
  key : row.storageKey = original.storageKey
  receipt : original.verifiedSize ≠ none →
    row.verifiedSize = original.verifiedSize ∧ row.verifiedSha256 = original.verifiedSha256
  state : row.storageState ≠ original.storageState → original.storageState = .reserved
  cleanup : original.cleanupRequired = true → row.cleanupRequired = true

theorem StorageReservation.insert_runs {row inserted : StorageReservation} {before after : Db}
    (hruns : row.insert.Runs before inserted after) :
    inserted = row ∧ (∀ other ∈ before.reservations, other.storageKey ≠ row.storageKey) ∧
      ∃ reservations, before.reservations.create row = some reservations ∧
        after = { before with reservations := reservations } := by
  simp only [StorageReservation.insert, StorageReservation.checkConstraints, runs_bind,
    runs_get, runs_found, runs_check, runs_set, runs_pure, and_assoc, exists_and_left,
    exists_eq_left', exists_const] at hruns
  rcases hruns with ⟨_, _, _, _, hunique, reservations, hcreate, rfl, rfl⟩
  refine ⟨rfl, ?_, reservations, hcreate, rfl⟩
  intro other hother hkey
  exact Table.any_eq_false_iff.mp hunique other hother (by simp [hkey])

theorem StorageReservation.save_runs {row saved : StorageReservation} {before after : Db}
    (hruns : row.save.Runs before saved after) :
    ∃ original, before.reservations.get? row.id = some original ∧ row.Follows original ∧
      (row.storageState = .owned ↔ row.verifiedSize ≠ none) ∧
        after = { before with reservations := before.reservations.replace row } := by
  simp only [StorageReservation.save, StorageReservation.checkConstraints, runs_bind,
    runs_get, runs_found, runs_check, runs_set, runs_pure, and_assoc, exists_and_left,
    exists_eq_left', exists_const] at hruns
  rcases hruns with ⟨original, horiginal, hkey, _, _, hreceipt, hstate, hcleanup, _, _, _,
    howned, _, rfl⟩
  exact ⟨original, horiginal,
    ⟨hkey.symm, hreceipt, fun hdiffers => (hstate hdiffers).1, hcleanup⟩, howned, rfl⟩

theorem insertReservation_runs {context : CallContext} {key : StorageKey}
    {result : Option StorageReservation} {before after : Db}
    (hruns : (insertReservation context key).Runs before result after) :
    (result = none ∧ after = before) ∨
      ∃ row reservations, result = some row ∧ row.id = context.uuid 0 ∧
        row.storageKey = key.value ∧ row.storageState = .reserved ∧
          row.verifiedSize = none ∧ row.cleanupRequired = false ∧
            (∀ other ∈ before.reservations, other.storageKey ≠ key.value) ∧
              before.reservations.create row = some reservations ∧
                after = { before with reservations := reservations } := by
  simp only [insertReservation, runs_recover, runs_bind, runs_pure] at hruns
  rcases hruns with ⟨row, middle, hinsert, rfl, rfl⟩ | ⟨failure, _, hhandled⟩
  · rcases StorageReservation.insert_runs hinsert with
      ⟨rfl, hunique, reservations, hcreate, rfl⟩
    exact .inr ⟨_, reservations, rfl, rfl, rfl, rfl, rfl, rfl, hunique, hcreate, rfl⟩
  · cases failure with
    | integrity =>
        simp only [runs_pure] at hhandled
        exact .inl ⟨hhandled.1.symm, hhandled.2.symm⟩
    | _ => simp at hhandled

/-- The database after a reservation was deleted. -/
def Db.released (db : Db) (reservationId : Uuid) : Db :=
  { db with reservations := db.reservations.keep fun other => other.id ≠ reservationId }

/-- The database after a reservation was written. -/
def Db.resaved (db : Db) (row : StorageReservation) : Db :=
  { db with reservations := db.reservations.replace row }

theorem StorageReservation.delete_runs {reservation : StorageReservation} {before after : Db}
    {done : PUnit} (hruns : reservation.delete.Runs before done after) :
    after = before.released reservation.id := by
  simp only [StorageReservation.delete, runs_modify] at hruns
  exact hruns.symm

theorem StorageReservation.requireCleanup_runs {reservation : StorageReservation}
    {before after : Db} {done : PUnit}
    (hruns : reservation.requireCleanup.Runs before done after) :
    after = before.resaved { reservation with cleanupRequired := true } := by
  simp only [StorageReservation.requireCleanup, runs_bind, runs_pure] at hruns
  rcases hruns with ⟨saved, middle, hsave, _, rfl⟩
  rcases StorageReservation.save_runs hsave with ⟨original, _, _, _, rfl⟩
  rfl

theorem markReservationVerified_runs {reservationId : Uuid} {receipt : StoredArtifact}
    {before after : Db} {done : PUnit}
    (hruns : (markReservationVerified reservationId receipt).Runs before done after) :
    ∃ original row, before.reservations.get? reservationId = some original ∧
      original.storageKey = receipt.key.value ∧ row.Follows original ∧
        row = { original with
          verifiedSize := some receipt.byteSize
          verifiedSha256 := receipt.sha256
          storageState := .owned
          cleanupRequired := false } ∧
        after = before.resaved row := by
  simp only [markReservationVerified, runs_bind, runs_get, runs_found, runs_check, runs_pure,
    and_assoc, exists_and_left, exists_eq_left', exists_const] at hruns
  rcases hruns with ⟨original, horiginal, hkey, saved, middle, hsave, _, rfl⟩
  rcases StorageReservation.save_runs hsave with ⟨stored, hstored, hfollows, _, rfl⟩
  have hsame : stored = original :=
    Option.some.inj (hstored.symm.trans (Table.get?_of_mem (Table.mem_of_get? horiginal)))
  subst hsame
  exact ⟨stored, _, horiginal, hkey, hfollows, rfl, rfl⟩

theorem markReservationCollision_runs {reservationId : Uuid} {before after : Db}
    {done : PUnit}
    (hruns : (markReservationCollision reservationId).Runs before done after) :
    ∃ original, before.reservations.get? reservationId = some original ∧
      ((original.storageState = .collision ∧ after = before) ∨
        (original.storageState = .reserved ∧
          after = before.resaved { original with storageState := .collision })) := by
  simp only [markReservationCollision, runs_bind, runs_get, runs_found, runs_check, runs_ite,
    runs_pure, and_assoc, exists_and_left, exists_eq_left', exists_const] at hruns
  rcases hruns with ⟨original, horiginal, ⟨hcollision, _, rfl⟩ | ⟨_, hreserved, saved, middle,
    hsave, _, rfl⟩⟩
  · exact ⟨original, horiginal, .inl ⟨hcollision, rfl⟩⟩
  · rcases StorageReservation.save_runs hsave with ⟨stored, _, _, _, rfl⟩
    exact ⟨original, horiginal, .inr ⟨hreserved, rfl⟩⟩

theorem markReservationCleanupRequired_runs {reservationId : Uuid} {before after : Db}
    {done : PUnit}
    (hruns : (markReservationCleanupRequired reservationId).Runs before done after) :
    ∃ original, before.reservations.get? reservationId = some original ∧
      after = before.resaved { original with cleanupRequired := true } := by
  simp only [markReservationCleanupRequired, runs_bind, runs_get, runs_found, and_assoc,
    exists_and_left, exists_eq_left'] at hruns
  rcases hruns with ⟨original, horiginal, hrequire⟩
  exact ⟨original, horiginal, StorageReservation.requireCleanup_runs hrequire⟩

/-! ## Cleanup decisions -/

/-- What a settled cleanup transaction has done with its reservation. -/
inductive CleanupSettled (before : Db) (reservationId : Uuid) : Db → Prop
  | kept : CleanupSettled before reservationId before
  | released {reservation : StorageReservation}
      (hget : before.reservations.get? reservationId = some reservation)
      (hunused : before.artifactOwns reservation.storageKey = true ∨
        reservation.storageState = .collision) :
      CleanupSettled before reservationId (before.released reservationId)
  | required {reservation : StorageReservation}
      (hget : before.reservations.get? reservationId = some reservation) :
      CleanupSettled before reservationId
        (before.resaved { reservation with cleanupRequired := true })

theorem StorageReservation.id_of_get? {db : Db} {reservationId : Uuid}
    {reservation : StorageReservation}
    (hget : db.reservations.get? reservationId = some reservation) :
    reservation.id = reservationId :=
  Table.key_of_get? hget

theorem decideExpired_runs {cutoff : Time} {reservationId : Uuid}
    {decision : CleanupDecision} {before after : Db}
    (hruns : (decideExpired cutoff reservationId).Runs before decision after) :
    (decision = .settled ∧ CleanupSettled before reservationId after) ∨
      (decision = .deleteBytes ∧ after = before ∧
        ∃ reservation, before.reservations.get? reservationId = some reservation ∧
          before.artifactOwns reservation.storageKey = false ∧
            reservation.storageState = .owned) := by
  simp only [decideExpired, runs_bind, runs_get, and_assoc, exists_and_left,
    exists_eq_left'] at hruns
  cases hfound : (before.reservations.get? reservationId).filter fun reservation =>
      reservation.expiresAt ≤ cutoff with
  | none =>
      simp only [hfound, runs_pure] at hruns
      rcases hruns with ⟨rfl, rfl⟩
      exact .inl ⟨rfl, .kept⟩
  | some reservation =>
      have hget := (Option.filter_eq_some_iff.mp hfound).1
      have hid := StorageReservation.id_of_get? hget
      simp only [hfound, runs_ite, runs_bind, runs_pure] at hruns
      rcases hruns with ⟨howned, _, _, hdelete, rfl, rfl⟩ | ⟨hfree, hruns⟩
      · rw [StorageReservation.delete_runs hdelete, hid]
        exact .inl ⟨rfl, .released hget (.inl howned)⟩
      rcases hruns with ⟨hcollision, _, _, hdelete, rfl, rfl⟩ | ⟨hnot, hruns⟩
      · rw [StorageReservation.delete_runs hdelete, hid]
        exact .inl ⟨rfl, .released hget (.inr hcollision)⟩
      rcases hruns with ⟨_, _, _, hrequire, rfl, rfl⟩ | ⟨hnone, rfl, rfl⟩
      · rw [StorageReservation.requireCleanup_runs hrequire]
        exact .inl ⟨rfl, .required hget⟩
      · refine .inr ⟨rfl, rfl, reservation, hget, by simpa using hfree, ?_⟩
        cases hstate : reservation.storageState with
        | reserved => exact absurd hstate hnone
        | owned => rfl
        | collision => exact absurd hstate hnot

theorem decideUnowned_runs {candidate : CleanupCandidate} {decision : CleanupDecision}
    {before after : Db}
    (hruns : (decideUnowned candidate).Runs before decision after) :
    (decision = .settled ∧ CleanupSettled before candidate.reservationId after) ∨
      ∃ reservation, before.reservations.get? candidate.reservationId = some reservation ∧
        reservation.storageKey = candidate.key.value ∧
          before.artifactOwns candidate.key.value = false ∧
            candidate.uncertainOutcome = false ∧ reservation.cleanupRequired = false ∧
              reservation.storageState ≠ .collision ∧
                ((decision = .settled ∧ candidate.ownsBytes = false ∧
                    after = before.released candidate.reservationId) ∨
                  (decision = .deleteBytes ∧ candidate.ownsBytes = true ∧
                    after = before)) := by
  simp only [decideUnowned, runs_bind, runs_get, and_assoc, exists_and_left,
    exists_eq_left'] at hruns
  cases hget : before.reservations.get? candidate.reservationId with
  | none =>
      simp only [hget, runs_pure] at hruns
      rcases hruns with ⟨rfl, rfl⟩
      exact .inl ⟨rfl, .kept⟩
  | some reservation =>
      have hid := StorageReservation.id_of_get? hget
      simp only [hget, runs_ite, runs_bind, runs_pure] at hruns
      rcases hruns with ⟨_, _, _, hrequire, rfl, rfl⟩ | ⟨hkey, hruns⟩
      · rw [StorageReservation.requireCleanup_runs hrequire]
        exact .inl ⟨rfl, .required hget⟩
      have hkey : reservation.storageKey = candidate.key.value := by simpa using hkey
      rcases hruns with ⟨howned, _, _, hdelete, rfl, rfl⟩ | ⟨hfree, hruns⟩
      · rw [StorageReservation.delete_runs hdelete, hid]
        exact .inl ⟨rfl, .released hget (.inl (by rwa [hkey]))⟩
      rcases hruns with ⟨hcollision, _, _, hdelete, rfl, rfl⟩ | ⟨hnot, hruns⟩
      · rw [StorageReservation.delete_runs hdelete, hid]
        exact .inl ⟨rfl, .released hget (.inr hcollision)⟩
      rcases hruns with ⟨_, ⟨_, _, _, hrequire, rfl, rfl⟩ | ⟨_, rfl, rfl⟩⟩ | ⟨hcertain, hruns⟩
      · rw [StorageReservation.requireCleanup_runs hrequire]
        exact .inl ⟨rfl, .required hget⟩
      · exact .inl ⟨rfl, .kept⟩
      rcases hruns with ⟨_, rfl, rfl⟩ | ⟨hclear, hruns⟩
      · exact .inl ⟨rfl, .kept⟩
      refine .inr ⟨reservation, rfl, hkey, by simpa using hfree, by simpa using hcertain,
        by simpa using hclear, hnot, ?_⟩
      rcases hruns with ⟨howns, _, _, hdelete, rfl, rfl⟩ | ⟨howns, rfl, rfl⟩
      · rw [StorageReservation.delete_runs hdelete, hid]
        exact .inl ⟨rfl, howns, rfl⟩
      · exact .inr ⟨rfl, by simpa using howns, rfl⟩

theorem finishDeletion_runs {reservationId : Uuid} {deleted : Bool} {before after : Db}
    {done : PUnit} (hruns : (finishDeletion reservationId deleted).Runs before done after) :
    ∃ reservation, before.reservations.get? reservationId = some reservation ∧
      ((deleted = true ∧ after = before.released reservationId) ∨
        (deleted = false ∧
          after = before.resaved { reservation with cleanupRequired := true })) := by
  simp only [finishDeletion, runs_bind, runs_get, runs_found, runs_ite, and_assoc,
    exists_and_left, exists_eq_left'] at hruns
  rcases hruns with ⟨reservation, hget, ⟨hdeleted, hdelete⟩ | ⟨hkept, hrequire⟩⟩
  · rw [StorageReservation.delete_runs hdelete, StorageReservation.id_of_get? hget]
    exact ⟨reservation, hget, .inl ⟨hdeleted, rfl⟩⟩
  · rw [StorageReservation.requireCleanup_runs hrequire]
    exact ⟨reservation, hget, .inr ⟨by simpa using hkept, rfl⟩⟩

/-! ## The commit of a revision -/

/-- The artifact row of a prepared payload, up to its identifiers and names. -/
def PreparedArtifact.StoredAs (item : PreparedArtifact) (row : Artifact) : Prop :=
  row.storageKey = item.receipt.key.value ∧ row.byteSize = item.receipt.byteSize ∧
    row.sha256 = item.receipt.sha256

/-- Artifacts are added for exactly these payloads. -/
def AddsArtifacts (prepared : List PreparedArtifact) (before after : Table Artifact) : Prop :=
  (∀ row ∈ before, row ∈ after) ∧
    (∀ item ∈ prepared, ∃ row ∈ after, item.StoredAs row) ∧
      ∀ row ∈ after, row ∈ before ∨ ∃ item ∈ prepared, item.StoredAs row

/-- The row inserted for a prepared payload; saving normalizes its name once more. -/
def PreparedArtifact.Inserted (platform : Platform) (item : PreparedArtifact)
    (id revisionId : Uuid) (row : Artifact) : Prop :=
  ∃ normalized, normalizeLogicalName platform.unicode item.name.display = .ok normalized ∧
    row = { item.row id revisionId with
      logicalName := normalized.display
      nameKey := normalized.comparisonKey }

theorem PreparedArtifact.Inserted.storedAs {platform : Platform} {item : PreparedArtifact}
    {id revisionId : Uuid} {row : Artifact}
    (hinserted : item.Inserted platform id revisionId row) : item.StoredAs row := by
  rcases hinserted with ⟨_, _, rfl⟩
  exact ⟨rfl, rfl, rfl⟩

theorem PreparedArtifact.Inserted.revisionId_eq {platform : Platform} {item : PreparedArtifact}
    {id revisionId : Uuid} {row : Artifact}
    (hinserted : item.Inserted platform id revisionId row) : row.revisionId = revisionId := by
  rcases hinserted with ⟨_, _, rfl⟩
  rfl

theorem Artifact.insert_runs {platform : Platform} {row inserted : Artifact} {before after : Db}
    (hruns : (row.insert platform).Runs before inserted after) :
    ∃ normalized artifacts, normalizeLogicalName platform.unicode row.logicalName =
        .ok normalized ∧
      inserted = { row with
        logicalName := normalized.display
        nameKey := normalized.comparisonKey } ∧
      (∀ other ∈ before.artifacts, other.revisionId = inserted.revisionId →
        other.nameKey ≠ inserted.nameKey) ∧
      before.artifacts.create inserted = some artifacts ∧
        after = { before with artifacts := artifacts } := by
  simp only [Artifact.insert, Artifact.clean, runs_bind, runs_get, runs_found, runs_check,
    runs_orFail, runs_set, runs_pure, and_assoc, exists_and_left, exists_eq_left',
    exists_const] at hruns
  rcases hruns with ⟨normalized, hname, middle, ⟨_, _, _, _, _, _, _, _, rfl⟩, _, _, _, _,
    hunique, _, _, artifacts, hcreate, rfl, rfl⟩
  refine ⟨normalized, artifacts, hname, rfl, ?_, hcreate, rfl⟩
  intro other hother hrevision hkey
  exact Table.any_eq_false_iff.mp hunique other hother (by simpa using ⟨hrevision, hkey⟩)

/-- The rows that the payloads of a revision added, in the order of the payloads. -/
structure AddsRows (platform : Platform) (context : CallContext) (revisionId : Uuid)
    (items : List (ℕ × PreparedArtifact)) (before after : Table Artifact)
    (rows : List Artifact) : Prop where
  rows_eq : after.rows = rows.reverse ++ before.rows
  inserted : List.Forall₂ (fun item row =>
    item.2.Inserted platform (context.uuid (item.1 + 1)) revisionId row) items rows
  distinct : rows.Pairwise fun first second => first.nameKey ≠ second.nameKey
  unused : ∀ row ∈ rows, ∀ other ∈ before, other.revisionId = revisionId →
    other.nameKey ≠ row.nameKey

theorem insertArtifacts_runs {platform : Platform} {context : CallContext}
    {revisionId : Uuid} {items : List (ℕ × PreparedArtifact)} {before after : Db}
    {done : PUnit}
    (hruns : (insertArtifacts platform context revisionId items).Runs before done after) :
    ∃ artifacts rows, after = { before with artifacts := artifacts } ∧
      AddsRows platform context revisionId items before.artifacts artifacts rows := by
  induction items generalizing before with
  | nil =>
      simp only [insertArtifacts, runs_forEach_nil] at hruns
      subst hruns
      exact ⟨before.artifacts, [], rfl, ⟨rfl, .nil, .nil, by simp⟩⟩
  | cons item rest ih =>
      simp only [insertArtifacts, runs_forEach_cons, runs_bind, runs_pure] at hruns
      rcases hruns with ⟨middle, ⟨inserted, _, hinsert, _, rfl⟩, hrest⟩
      rcases Artifact.insert_runs hinsert with
        ⟨normalized, created, hname, hrow, hunique, hcreate, rfl⟩
      rcases ih hrest with ⟨artifacts, rows, rfl, hadds⟩
      have hinserted : item.2.Inserted platform (context.uuid (item.1 + 1)) revisionId
          inserted := ⟨normalized, hname, hrow⟩
      rw [hinserted.revisionId_eq] at hunique
      refine ⟨artifacts, inserted :: rows, rfl, ?_, .cons hinserted hadds.inserted, ?_, ?_⟩
      · rw [hadds.rows_eq, (Table.create_eq_some_iff.mp hcreate).2]
        simp
      · refine .cons ?_ hadds.distinct
        intro row hrow
        exact hadds.unused row hrow inserted ((Table.mem_of_create hcreate).mpr (.inl rfl))
          hinserted.revisionId_eq
      · intro row hrow other hother hrevision
        rcases List.mem_cons.mp hrow with rfl | hrow
        · exact hunique other hother hrevision
        · exact hadds.unused row hrow other ((Table.mem_of_create hcreate).mpr (.inr hother))
            hrevision

theorem AddsRows.mem_iff {platform : Platform} {context : CallContext} {revisionId : Uuid}
    {items : List (ℕ × PreparedArtifact)} {before after : Table Artifact}
    {rows : List Artifact}
    (hadds : AddsRows platform context revisionId items before after rows) (row : Artifact) :
    row ∈ after ↔ row ∈ rows ∨ row ∈ before := by
  rw [Table.mem_def, hadds.rows_eq, List.mem_append, List.mem_reverse, Table.mem_def]

theorem AddsRows.addsArtifacts {platform : Platform} {context : CallContext}
    {revisionId : Uuid} {items : List (ℕ × PreparedArtifact)} {before after : Table Artifact}
    {rows : List Artifact}
    (hadds : AddsRows platform context revisionId items before after rows) :
    AddsArtifacts (items.map Prod.snd) before after := by
  refine ⟨fun row hrow => (hadds.mem_iff row).mpr (.inr hrow), ?_, ?_⟩
  · intro item hitem
    rcases List.mem_map.mp hitem with ⟨pair, hpair, rfl⟩
    rcases List.forall₂_iff_get.mp hadds.inserted with ⟨hlength, hget⟩
    rcases List.get_of_mem hpair with ⟨index, rfl⟩
    have hbound : index.val < rows.length := index.isLt.trans_eq hlength
    exact ⟨rows.get ⟨index.val, hbound⟩, (hadds.mem_iff _).mpr (.inl (List.get_mem ..)),
      (hget index.val index.isLt hbound).storedAs⟩
  · intro row hrow
    rcases (hadds.mem_iff row).mp hrow with hnew | hold
    · rcases List.forall₂_iff_get.mp hadds.inserted with ⟨hlength, hget⟩
      rcases List.get_of_mem hnew with ⟨index, rfl⟩
      have hbound : index.val < items.length := index.isLt.trans_eq hlength.symm
      exact .inr ⟨_, List.mem_map_of_mem (List.get_mem items ⟨index.val, hbound⟩),
        (hget index.val hbound index.isLt).storedAs⟩
    · exact .inl hold

/-- The rows of a new revision complete it once they are locked. -/
theorem AddsRows.completes {platform : Platform} {context : CallContext} {revisionId : Uuid}
    {items : List (ℕ × PreparedArtifact)} {before after : Table Artifact}
    {rows : List Artifact}
    (hadds : AddsRows platform context revisionId items before after rows)
    (hhtml : (after.where? fun artifact =>
      artifact.revisionId = revisionId ∧ artifact.kind = .html).length = 1) :
    Completes before revisionId after where
  kept artifact hartifact := (hadds.mem_iff artifact).mpr (.inr hartifact)
  added := by
    intro artifact hartifact
    rcases (hadds.mem_iff artifact).mp hartifact with hnew | hold
    · rcases List.forall₂_iff_get.mp hadds.inserted with ⟨hlength, hget⟩
      rcases List.get_of_mem hnew with ⟨index, rfl⟩
      have hbound : index.val < items.length := index.isLt.trans_eq hlength.symm
      exact .inr (hget index.val hbound index.isLt).revisionId_eq
    · exact .inl hold
  oneHtml := hhtml
  distinct := by
    intro first hfirst second hsecond hfirstRevision hsecondRevision hnew hkey
    have hfirst := ((hadds.mem_iff first).mp hfirst).resolve_right hnew
    rcases (hadds.mem_iff second).mp hsecond with hsecond | hsecond
    · by_contra hne
      have hsymm : Std.Symm fun first second : Artifact => first.nameKey ≠ second.nameKey :=
        ⟨fun _ _ => Ne.symm⟩
      exact hadds.distinct.forall hfirst hsecond hne hkey
    · exact absurd hkey.symm (hadds.unused first hfirst second hsecond hsecondRevision)

/-- A prepared payload whose reservation vouches for its receipt. -/
def PreparedArtifact.Vouched (db : Db) (item : PreparedArtifact) : Prop :=
  (∃ reservation ∈ db.reservations.get? item.reservationId,
    reservation.storageKey = item.receipt.key.value ∧
      reservation.verifiedSize = some item.receipt.byteSize ∧
        reservation.verifiedSha256 = item.receipt.sha256 ∧
          reservation.cleanupRequired = false) ∧
    db.artifactOwns item.receipt.key.value = false

theorem verifyPrepared_runs {items : List PreparedArtifact} {before after : Db}
    {done : PUnit} (hruns : (forEach verifyPrepared items).Runs before done after) :
    after = before ∧ ∀ item ∈ items, item.Vouched before := by
  induction items with
  | nil =>
      simp only [runs_forEach_nil] at hruns
      exact ⟨hruns.symm, by simp⟩
  | cons item rest ih =>
      simp only [runs_forEach_cons, verifyPrepared, runs_bind, runs_get, runs_found,
        runs_check, and_assoc, exists_and_left, exists_eq_left', exists_const] at hruns
      rcases hruns with ⟨middle, ⟨reservation, hget, hkey, hsize, hdigest, hclean, hfree, rfl⟩,
        hrest⟩
      rcases ih hrest with ⟨rfl, hvouched⟩
      refine ⟨rfl, ?_⟩
      intro other hother
      rcases List.mem_cons.mp hother with rfl | hother
      · exact ⟨⟨reservation, hget, hkey, hsize, hdigest, hclean⟩, hfree⟩
      · exact hvouched other hother

theorem Revision.insert_runs {row inserted : Revision} {before after : Db}
    (hruns : row.insert.Runs before inserted after) :
    inserted = row ∧ ∃ revisions, before.revisions.create row = some revisions ∧
      after = { before with revisions := revisions } := by
  simp only [Revision.insert, Revision.clean, runs_bind, runs_get, runs_found, runs_check,
    runs_set, runs_pure, and_assoc, exists_and_left, exists_eq_left',
    exists_const] at hruns
  rcases hruns with ⟨middle, ⟨dashboard, _, _, _, creator, _, _, rfl⟩, _, _, revisions,
    hcreate, rfl, rfl⟩
  exact ⟨rfl, revisions, hcreate, rfl⟩

theorem lockArtifacts_runs {revision : Revision} {before after : Db} {done : PUnit}
    (hruns : (lockArtifacts revision).Runs before done after) :
    (before.artifacts.where? fun artifact =>
        artifact.revisionId = revision.id ∧ artifact.kind = .html).length = 1 ∧
      after = { before with
        revisions := before.revisions.replace { revision with artifactsLocked := true } } := by
  simp only [lockArtifacts, runs_bind, runs_get, runs_check, runs_set, and_assoc,
    exists_and_left, exists_eq_left', exists_const] at hruns
  exact ⟨hruns.2.1, hruns.2.2.symm⟩

theorem completeRevision_runs {platform : Platform} {context : CallContext}
    {row inserted : Revision} {items : List (ℕ × PreparedArtifact)}
    {before first second after : Db} {filled locked : PUnit}
    (hinsert : row.insert.Runs before inserted first)
    (hartifacts : (insertArtifacts platform context inserted.id items).Runs first filled
      second)
    (hlock : (lockArtifacts inserted).Runs second locked after) :
    inserted = row ∧ ∃ revisions artifacts rows,
      before.revisions.create { row with artifactsLocked := true } = some revisions ∧
        AddsRows platform context row.id items before.artifacts artifacts rows ∧
          Completes before.artifacts row.id artifacts ∧
            after = { before with revisions := revisions, artifacts := artifacts } := by
  rcases Revision.insert_runs hinsert with ⟨rfl, revisions, hcreate, rfl⟩
  rcases insertArtifacts_runs hartifacts with ⟨artifacts, rows, rfl, hadds⟩
  rcases lockArtifacts_runs hlock with ⟨hhtml, rfl⟩
  have hlocked : before.revisions.create { inserted with artifactsLocked := true } =
      some (revisions.replace { inserted with artifactsLocked := true }) :=
    Table.create_replace hcreate rfl
  exact ⟨rfl, _, artifacts, rows, hlocked, hadds, hadds.completes hhtml, rfl⟩

/-- What the commit of a revision has checked and written. -/
structure RevisionCommit (platform : Platform) (context : CallContext)
    (prepared : List PreparedArtifact) (revision : Revision) (before after : Db) : Prop where
  vouched : ∀ item ∈ prepared, item.Vouched before
  locked : revision.artifactsLocked = true
  stored : after.revisions.get? revision.id = some revision
  rows : ∃ rows, AddsRows platform context revision.id (prepared.zipIdx.map Prod.swap)
    before.artifacts after.artifacts rows
  reservations : after.reservations = before.reservations.keep fun reservation =>
    reservation.id ∉ prepared.map PreparedArtifact.reservationId
  changes : ∀ effects, .revisions ∈ effects → Changes effects before after

theorem map_snd_zipIdx (prepared : List PreparedArtifact) :
    (prepared.zipIdx.map Prod.swap).map Prod.snd = prepared := by
  rw [List.map_map, show Prod.snd ∘ Prod.swap = (Prod.fst : PreparedArtifact × ℕ → _) from rfl,
    List.zipIdx_map_fst]

theorem RevisionCommit.artifacts {platform : Platform} {context : CallContext}
    {prepared : List PreparedArtifact} {revision : Revision} {before after : Db}
    (hcommit : RevisionCommit platform context prepared revision before after) :
    AddsArtifacts prepared before.artifacts after.artifacts := by
  rcases hcommit.rows with ⟨rows, hrows⟩
  have hadds := hrows.addsArtifacts
  rwa [map_snd_zipIdx] at hadds

theorem nextRevisionNumber_runs {db before after : Db} {dashboard : Dashboard} {number : ℕ}
    (hruns : (db.nextRevisionNumber dashboard).Runs before number after) :
    after = before ∧ db.Numbers dashboard number := by
  unfold Db.nextRevisionNumber at hruns
  unfold Db.Numbers
  cases hlatest : dashboard.latestRevisionId with
  | none =>
      simp only [hlatest, runs_pure] at hruns
      exact ⟨hruns.2.symm, hruns.1.symm⟩
  | some latestId =>
      simp only [hlatest, runs_bind, runs_found, runs_pure, and_assoc, exists_and_left,
        exists_eq_left'] at hruns
      rcases hruns with ⟨latest, hget, rfl, rfl⟩
      exact ⟨rfl, latest, hget, rfl⟩

theorem commitRevisionMetadata_runs {platform : Platform} {context : CallContext}
    {dashboardId createdById : Uuid} {prepared : List PreparedArtifact}
    {revision : Revision} {before after : Db}
    (hruns : (commitRevisionMetadata platform context dashboardId createdById
      prepared).Runs before revision after) :
    RevisionCommit platform context prepared revision before after := by
  simp only [commitRevisionMetadata, runs_bind, runs_get, runs_found, runs_check,
    runs_modify, runs_pure, and_assoc, exists_and_left, exists_eq_left', exists_const,
    Option.filter_eq_some_iff] at hruns
  rcases hruns with ⟨dashboard, hdashboard, _, _, haccepting, _, _, verified, hverify, number,
    numbered, hnumber, inserted, first, hinsert, _, second, hartifacts, _, third, hlock,
    saved, fourth, hsave, _, fifth, haudit, rfl, rfl⟩
  rcases verifyPrepared_runs hverify with ⟨rfl, hvouched⟩
  rcases nextRevisionNumber_runs hnumber with ⟨rfl, hnumbers⟩
  rcases completeRevision_runs hinsert hartifacts hlock with
    ⟨rfl, revisions, artifacts, rows, hcreate, hadds, hcompletes, rfl⟩
  have haccepts : ∀ original, numbered.dashboards.get? dashboard.id = some original →
      dashboard.state.acceptsRevisions = true → original.state.acceptsRevisions = true := by
    intro original horiginal _
    rw [original_of_get? hdashboard horiginal]
    exact haccepting
  rcases Dashboard.save_runs hsave haccepts with
    ⟨written, original, hid, hlatest, horiginal, hsaved, rfl⟩
  have hsame : original = dashboard := by
    rw [hid] at horiginal
    exact original_of_get? hdashboard horiginal
  subst hsame
  have haudited : ∀ effects, Change effects _ fifth := fun _ => recordAudit_change haudit rfl
  rcases recordAudit_runs haudit with ⟨event, audits, _, _, _, _, _, rfl⟩
  refine ⟨hvouched, rfl, ?_, ⟨rows, hadds⟩, rfl, fun effects heffect => ?_⟩
  · rw [Table.get?_of_create hcreate]
    exact if_pos rfl
  · have hcommitted : Change effects numbered _ := .revisionCommitted hcreate rfl hcompletes
      horiginal hid.symm hnumbers { hsaved with } hlatest heffect
    exact ((Relation.ReflTransGen.single hcommitted).tail (haudited effects)).tail
      (.reservationsChanged _)

end Agora
