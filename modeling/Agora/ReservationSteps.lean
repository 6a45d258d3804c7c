import Agora.CleanupProgress
import Agora.RevisionServiceChanges
import Agora.UploadSessions

/-!
# What the transactions do to the reservations

Every transaction of an upload or a job is a reservation step: it rewrites only the rows it
locks, no row changes its key, and a row goes only when its files need it no more.  The
invariants of the uploads are derived from this one description.
-/

namespace Agora

open Transaction

/-- A pending or final file of the key exists. -/
def KeyStored (files : StorageFiles) (key : StorageKey) : Prop :=
  files.read key.finalPath ≠ none ∨ files.read key.pendingPath ≠ none

/-- Whatever is stored under this text belongs to an artifact. -/
def Db.Accounts (db : Db) (files : StorageFiles) (value : Text) : Prop :=
  ∀ key : StorageKey, key.value = value → KeyStored files key → db.artifactOwns value = true

/-- The reservations are consistent with each other and with the files. -/
structure Db.Ledger (db : Db) (files : StorageFiles) : Prop where
  keys : ∀ first ∈ db.reservations, ∀ second ∈ db.reservations,
    first.storageKey = second.storageKey → first = second
  covered : ∀ key, KeyStored files key → db.artifactOwns key.value = true ∨
    ∃ row ∈ db.reservations, row.storageKey = key.value
  collisions : ∀ row ∈ db.reservations, row.storageState = .collision →
    db.Accounts files row.storageKey
  constrained : ∀ row ∈ db.reservations, row.Constrained

/-- A transaction that may rewrite the touched rows and insert rows under the drawn
identifiers; `own` are the reservations that only its party uses. -/
structure ReservationStep (files : StorageFiles) (own touched drawn : List Uuid)
    (before after : Db) : Prop where
  untouched : ∀ id row, id ∉ touched → before.reservations.get? id = some row →
    after.reservations.get? id = some row
  rows : ∀ id row, after.reservations.get? id = some row →
    (∃ original, before.reservations.get? id = some original ∧ row.Follows original) ∨
      (id ∈ drawn ∧ before.reservations.get? id = none ∧ row.storageState = .reserved)
  keys : ∀ first ∈ after.reservations, ∀ second ∈ after.reservations,
    first.storageKey = second.storageKey → first = second
  collisions : ∀ row ∈ after.reservations, row.storageState = .collision →
    before.Accounts files row.storageKey
  constrained : ∀ row ∈ after.reservations, row.Constrained
  released : ∀ id row, before.reservations.get? id = some row →
    after.reservations.get? id = none → after.Accounts files row.storageKey
  reserved : ∀ id row, before.reservations.get? id = some row → row.storageState = .reserved →
    (∃ later, after.reservations.get? id = some later ∧ later.storageState = .reserved) ∨
      after.artifactOwns row.storageKey = true ∨ id ∈ own
  kept : ∀ value, before.artifactOwns value = true → after.artifactOwns value = true
  owned : ∀ value, after.artifactOwns value = true → before.artifactOwns value = true ∨
    ∃ id ∈ touched, ∃ row, before.reservations.get? id = some row ∧ row.storageKey = value

variable {files : StorageFiles} {own touched drawn : List Uuid} {before after : Db}

theorem Db.artifactOwns_iff {db : Db} {value : Text} :
    db.artifactOwns value = true ↔ ∃ artifact ∈ db.artifacts, artifact.storageKey = value := by
  unfold Db.artifactOwns
  rw [Table.any_eq_true_iff]
  simp only [decide_eq_true_eq]

theorem Db.Accounts.of_kept {value : Text} (haccounts : before.Accounts files value)
    (hkept : before.artifactOwns value = true → after.artifactOwns value = true) :
    after.Accounts files value :=
  fun key hkey hstored => hkept (haccounts key hkey hstored)

theorem Db.Accounts.of_owned {db : Db} {value : Text} (howned : db.artifactOwns value = true) :
    db.Accounts files value :=
  fun _ _ _ => howned

theorem StorageReservation.Follows.refl (row : StorageReservation) : row.Follows row :=
  ⟨rfl, fun _ => ⟨rfl, rfl⟩, fun hne => absurd rfl hne, fun hcleanup => hcleanup⟩

theorem Db.Ledger.get?_inj {db : Db} (hledger : db.Ledger files) {first second : Uuid}
    {one two : StorageReservation} (hone : db.reservations.get? first = some one)
    (htwo : db.reservations.get? second = some two) (hkey : one.storageKey = two.storageKey) :
    first = second := by
  have hsame := hledger.keys one (Table.mem_of_get? hone) two (Table.mem_of_get? htwo) hkey
  rw [← StorageReservation.id_of_get? hone, ← StorageReservation.id_of_get? htwo, hsame]

/-! ## The kinds of steps -/

/-- Other tables may change. -/
theorem ReservationStep.same (hledger : before.Ledger files)
    (hartifacts : after.artifacts = before.artifacts)
    (hreservations : after.reservations = before.reservations) :
    ReservationStep files own touched drawn before after where
  untouched := fun _ _ _ hget => by rw [hreservations]; exact hget
  rows := fun id row hget => .inl ⟨row, by rwa [hreservations] at hget, .refl row⟩
  keys := by
    rw [hreservations]
    exact hledger.keys
  collisions := by
    rw [hreservations]
    exact hledger.collisions
  constrained := by
    rw [hreservations]
    exact hledger.constrained
  released := by
    intro id row hget hnone
    rw [hreservations, hget] at hnone
    cases hnone
  reserved := fun id row hget hreserved =>
    .inl ⟨row, by rw [hreservations]; exact hget, hreserved⟩
  kept := by
    unfold Db.artifactOwns
    rw [hartifacts]
    exact fun _ howned => howned
  owned := by
    unfold Db.artifactOwns
    rw [hartifacts]
    exact fun _ howned => .inl howned

theorem ReservationStep.refl (hledger : before.Ledger files) :
    ReservationStep files own touched drawn before before :=
  .same hledger rfl rfl

/-- A row is written over. -/
theorem ReservationStep.saved {row : StorageReservation} (original : StorageReservation)
    (hledger : before.Ledger files)
    (hget : before.reservations.get? row.id = some original) (hfollows : row.Follows original)
    (hconstrained : row.Constrained) (htouched : row.id ∈ touched)
    (hcollision : row.storageState = .collision → before.Accounts files row.storageKey)
    (hreserved : row.storageState = original.storageState ∨ row.id ∈ own) :
    ReservationStep files own touched drawn before (before.resaved row) := by
  have hself : (before.resaved row).reservations.get? row.id = some row :=
    Table.get?_replace_self hget
  have hothers : ∀ id, id ≠ row.id →
      (before.resaved row).reservations.get? id = before.reservations.get? id :=
    fun id hid => Table.get?_replace_of_ne hid.symm
  have hmem : ∀ other, other ∈ (before.resaved row).reservations ↔
      other = row ∨ (other ∈ before.reservations ∧ other.id ≠ row.id) :=
    fun other => Table.mem_replace hget
  have hkey : ∀ other ∈ before.reservations, other.storageKey = row.storageKey →
      other.id = row.id := by
    intro other hother hsame
    rw [hfollows.key] at hsame
    have hfound := hledger.keys other hother original (Table.mem_of_get? hget) hsame
    rw [hfound]
    exact StorageReservation.id_of_get? hget
  constructor
  · intro id found hid hfound
    rw [hothers id (fun heq => hid (heq ▸ htouched))]
    exact hfound
  · intro id found hfound
    by_cases hid : id = row.id
    · rw [hid, hself] at hfound
      cases hfound
      exact .inl ⟨original, by rw [hid]; exact hget, hfollows⟩
    · rw [hothers id hid] at hfound
      exact .inl ⟨found, hfound, .refl found⟩
  · intro first hfirst second hsecond hsame
    cases (hmem first).mp hfirst with
    | inl hone =>
        cases (hmem second).mp hsecond with
        | inl htwo => rw [hone, htwo]
        | inr htwo =>
            rw [hone] at hsame
            exact absurd (hkey second htwo.1 hsame.symm) htwo.2
    | inr hone =>
        cases (hmem second).mp hsecond with
        | inl htwo =>
            rw [htwo] at hsame
            exact absurd (hkey first hone.1 hsame) hone.2
        | inr htwo => exact hledger.keys first hone.1 second htwo.1 hsame
  · intro other hother hstate
    cases (hmem other).mp hother with
    | inl hrow =>
        rw [hrow] at hstate ⊢
        exact hcollision hstate
    | inr hold => exact hledger.collisions other hold.1 hstate
  · intro other hother
    cases (hmem other).mp hother with
    | inl hrow => rw [hrow]; exact hconstrained
    | inr hold => exact hledger.constrained other hold.1
  · intro id found hfound hnone
    by_cases hid : id = row.id
    · rw [hid, hself] at hnone
      cases hnone
    · rw [hothers id hid, hfound] at hnone
      cases hnone
  · intro id found hfound hstate
    by_cases hid : id = row.id
    · rw [hid, hget] at hfound
      cases hfound
      cases hreserved with
      | inl hsame => exact .inl ⟨row, by rw [hid]; exact hself, by rw [hsame]; exact hstate⟩
      | inr hown => exact .inr (.inr (by rw [hid]; exact hown))
    · exact .inl ⟨found, by rw [hothers id hid]; exact hfound, hstate⟩
  · exact fun _ howned => howned
  · exact fun _ howned => .inl howned

/-- A row goes. -/
theorem ReservationStep.releasing {reservationId : Uuid} {row : StorageReservation}
    (hledger : before.Ledger files) (hget : before.reservations.get? reservationId = some row)
    (htouched : reservationId ∈ touched) (haccounts : before.Accounts files row.storageKey)
    (hreserved : row.storageState = .reserved → before.artifactOwns row.storageKey = true ∨
      reservationId ∈ own) :
    ReservationStep files own touched drawn before (before.released reservationId) := by
  have hself : (before.released reservationId).reservations.get? reservationId = none := by
    unfold Db.released
    rw [Table.get?_keep, hget]
    simp [Option.filter, StorageReservation.id_of_get? hget]
  have hothers : ∀ id, id ≠ reservationId →
      (before.released reservationId).reservations.get? id = before.reservations.get? id := by
    intro id hid
    unfold Db.released
    rw [Table.get?_keep]
    cases hfound : before.reservations.get? id with
    | none => rfl
    | some found =>
        have hne : found.id ≠ reservationId := by
          rw [StorageReservation.id_of_get? hfound]
          exact hid
        simp [Option.filter, hne]
  have hmem : ∀ other ∈ (before.released reservationId).reservations,
      other ∈ before.reservations :=
    fun other hother => (Table.mem_keep_iff.mp hother).1
  constructor
  · intro id found hid hfound
    rw [hothers id (fun heq => hid (heq ▸ htouched))]
    exact hfound
  · intro id found hfound
    by_cases hid : id = reservationId
    · rw [hid, hself] at hfound
      cases hfound
    · rw [hothers id hid] at hfound
      exact .inl ⟨found, hfound, .refl found⟩
  · exact fun first hfirst second hsecond =>
      hledger.keys first (hmem first hfirst) second (hmem second hsecond)
  · exact fun other hother => hledger.collisions other (hmem other hother)
  · exact fun other hother => hledger.constrained other (hmem other hother)
  · intro id found hfound hnone
    by_cases hid : id = reservationId
    · rw [hid, hget] at hfound
      cases hfound
      exact haccounts
    · rw [hothers id hid, hfound] at hnone
      cases hnone
  · intro id found hfound hstate
    by_cases hid : id = reservationId
    · rw [hid, hget] at hfound
      cases hfound
      rw [hid]
      exact .inr (hreserved hstate)
    · exact .inl ⟨found, by rw [hothers id hid]; exact hfound, hstate⟩
  · exact fun _ howned => howned
  · exact fun _ howned => .inl howned

/-- A row is inserted under a key of its own. -/
theorem ReservationStep.inserted {row : StorageReservation}
    {reservations : Table StorageReservation} (hledger : before.Ledger files)
    (hcreate : before.reservations.create row = some reservations)
    (hunique : ∀ other ∈ before.reservations, other.storageKey ≠ row.storageKey)
    (hreserved : row.storageState = .reserved) (hconstrained : row.Constrained)
    (hdrawn : row.id ∈ drawn) :
    ReservationStep files own touched drawn before
      { before with reservations := reservations } := by
  have hfresh : before.reservations.get? row.id = none :=
    (Table.create_eq_some_iff.mp hcreate).1
  have hget : ∀ id, reservations.get? id =
      if row.id = id then some row else before.reservations.get? id :=
    Table.get?_of_create hcreate
  have hmem : ∀ other, other ∈ reservations ↔ other = row ∨ other ∈ before.reservations :=
    fun other => Table.mem_of_create hcreate
  have hold : ∀ id found, before.reservations.get? id = some found →
      reservations.get? id = some found := by
    intro id found hfound
    rw [hget]
    by_cases hid : row.id = id
    · rw [hid, hfound] at hfresh
      cases hfresh
    · rw [if_neg hid]
      exact hfound
  constructor
  · exact fun id found _ hfound => hold id found hfound
  · intro id found hfound
    change reservations.get? id = some found at hfound
    rw [hget] at hfound
    by_cases hid : row.id = id
    · rw [if_pos hid] at hfound
      cases hfound
      exact .inr ⟨hid ▸ hdrawn, hid ▸ hfresh, hreserved⟩
    · rw [if_neg hid] at hfound
      exact .inl ⟨found, hfound, .refl found⟩
  · intro first hfirst second hsecond hsame
    cases (hmem first).mp hfirst with
    | inl hone =>
        cases (hmem second).mp hsecond with
        | inl htwo => rw [hone, htwo]
        | inr htwo =>
            rw [hone] at hsame
            exact absurd hsame.symm (hunique second htwo)
    | inr hone =>
        cases (hmem second).mp hsecond with
        | inl htwo =>
            rw [htwo] at hsame
            exact absurd hsame (hunique first hone)
        | inr htwo => exact hledger.keys first hone second htwo hsame
  · intro other hother hstate
    cases (hmem other).mp hother with
    | inl hrow =>
        rw [hrow, hreserved] at hstate
        cases hstate
    | inr hrow => exact hledger.collisions other hrow hstate
  · intro other hother
    cases (hmem other).mp hother with
    | inl hrow => rw [hrow]; exact hconstrained
    | inr hrow => exact hledger.constrained other hrow
  · intro id found hfound hnone
    change reservations.get? id = none at hnone
    rw [hold id found hfound] at hnone
    cases hnone
  · exact fun id found hfound hstate => .inl ⟨found, hold id found hfound, hstate⟩
  · exact fun _ howned => howned
  · exact fun _ howned => .inl howned

/-! ## The steps of the transactions -/

theorem ReservationStep.quarantined {reservationId : Uuid} {row : StorageReservation}
    (hledger : before.Ledger files) (hget : before.reservations.get? reservationId = some row)
    (htouched : reservationId ∈ touched) :
    ReservationStep files own touched drawn before (before.resaved row.quarantined) := by
  have hid := StorageReservation.id_of_get? hget
  have hmem := Table.mem_of_get? hget
  apply ReservationStep.saved row hledger
  · exact hid ▸ hget
  · exact ⟨rfl, fun _ => ⟨rfl, rfl⟩, fun hne => absurd rfl hne, fun _ => rfl⟩
  · exact (hledger.constrained row hmem).quarantined
  · exact hid ▸ htouched
  · exact hledger.collisions row hmem
  · exact .inl rfl

theorem insertReservation_step {context : CallContext} {key : StorageKey}
    {result : Option StorageReservation} (hledger : before.Ledger files)
    (hruns : (insertReservation context key).Runs before result after) :
    ReservationStep files own touched [context.uuid 0] before after := by
  simp only [insertReservation, runs_recover, runs_bind, runs_pure] at hruns
  rcases hruns with ⟨row, middle, hinsert, _, rfl⟩ | ⟨failure, _, hhandled⟩
  · rcases StorageReservation.insert_runs hinsert with ⟨_, hunique, reservations, hcreate, rfl⟩
    apply ReservationStep.inserted hledger hcreate hunique rfl
    · exact ⟨key.canonical, by simp, .inl rfl, by simp⟩
    · exact List.mem_singleton_self _
  · cases failure with
    | integrity =>
        simp only [runs_pure] at hhandled
        rw [← hhandled.2]
        exact .refl hledger
    | _ => simp at hhandled

theorem StorageReservation.save_constrained {row saved : StorageReservation} {before after : Db}
    (hruns : row.save.Runs before saved after) : row.Constrained := by
  simp only [StorageReservation.save, StorageReservation.checkConstraints, runs_bind,
    runs_get, runs_found, runs_check, runs_set, runs_pure, and_assoc, exists_and_left,
    exists_eq_left', exists_const] at hruns
  rcases hruns with ⟨_, _, _, _, _, _, _, _, hkey, hreceipt, hdigest, hstate, _, _⟩
  exact ⟨hkey, hreceipt, hdigest, hstate⟩

theorem markReservationVerified_step {reservationId : Uuid} {receipt : StoredArtifact}
    {done : PUnit} (hledger : before.Ledger files)
    (hruns : (markReservationVerified reservationId receipt).Runs before done after)
    (htouched : reservationId ∈ touched) (hown : reservationId ∈ own) :
    ReservationStep files own touched drawn before after := by
  have hconstrained : ∀ original, before.reservations.get? reservationId = some original →
      StorageReservation.Constrained { original with
        verifiedSize := some receipt.byteSize
        verifiedSha256 := receipt.sha256
        storageState := .owned
        cleanupRequired := false } := by
    intro original horiginal
    simp only [markReservationVerified, runs_bind, runs_get, runs_found, runs_check, runs_pure,
      and_assoc, exists_and_left, exists_eq_left', exists_const] at hruns
    rcases hruns with ⟨found, hfound, _, saved, middle, hsave, _, _⟩
    rw [horiginal] at hfound
    cases hfound
    exact StorageReservation.save_constrained hsave
  rcases markReservationVerified_runs hruns with ⟨original, row, hget, _, hfollows, hrow, rfl⟩
  have hid : row.id = reservationId := by
    have hsame : row.id = original.id := by rw [hrow]
    rw [hsame]
    exact StorageReservation.id_of_get? hget
  apply ReservationStep.saved original hledger (hid ▸ hget) hfollows
  · rw [hrow]
    exact hconstrained original hget
  · exact hid ▸ htouched
  · intro hstate
    rw [hrow] at hstate
    cases hstate
  · exact .inr (hid ▸ hown)

theorem markReservationCollision_step {reservationId : Uuid} {done : PUnit}
    (hledger : before.Ledger files)
    (hruns : (markReservationCollision reservationId).Runs before done after)
    (htouched : reservationId ∈ touched) (hown : reservationId ∈ own)
    (haccounts : ∀ row, before.reservations.get? reservationId = some row →
      before.Accounts files row.storageKey) :
    ReservationStep files own touched drawn before after := by
  rcases markReservationCollision_runs hruns with
    ⟨original, hget, ⟨_, rfl⟩ | ⟨hreserved, rfl⟩⟩
  · exact .refl hledger
  · have hid := StorageReservation.id_of_get? hget
    have horiginal := hledger.constrained original (Table.mem_of_get? hget)
    have hnone : original.verifiedSize = none := by
      by_contra hsome
      have howned := horiginal.state.mpr hsome
      rw [hreserved] at howned
      cases howned
    apply ReservationStep.saved original hledger
    · exact hid ▸ hget
    · exact ⟨rfl, fun _ => ⟨rfl, rfl⟩, fun _ => hreserved, fun hcleanup => hcleanup⟩
    · exact ⟨horiginal.key, horiginal.receipt, horiginal.digest, by simp [hnone]⟩
    · exact hid ▸ htouched
    · exact fun _ => haccounts original hget
    · exact .inr (hid ▸ hown)

theorem markReservationCleanupRequired_step {reservationId : Uuid} {done : PUnit}
    (hledger : before.Ledger files)
    (hruns : (markReservationCleanupRequired reservationId).Runs before done after)
    (htouched : reservationId ∈ touched) :
    ReservationStep files own touched drawn before after := by
  rcases markReservationCleanupRequired_runs hruns with ⟨original, hget, rfl⟩
  exact .quarantined hledger hget htouched

theorem CleanupSettled.step {reservationId : Uuid} (hledger : before.Ledger files)
    (hsettled : CleanupSettled before reservationId after) (htouched : reservationId ∈ touched) :
    ReservationStep files own touched drawn before after := by
  cases hsettled with
  | kept => exact .refl hledger
  | released hget hunused =>
      rename_i row
      apply ReservationStep.releasing hledger hget htouched
      · cases hunused with
        | inl howned => exact .of_owned howned
        | inr hcollision => exact hledger.collisions row (Table.mem_of_get? hget) hcollision
      · intro hreserved
        cases hunused with
        | inl howned => exact .inl howned
        | inr hcollision =>
            rw [hreserved] at hcollision
            cases hcollision
  | required hget => exact .quarantined hledger hget htouched

/-- What an upload knows of a reservation that it may still clean up: a candidate that owns no
bytes and has a certain outcome left no files of its own. -/
def CleanupCandidate.Kept (db : Db) (files : StorageFiles) (candidate : CleanupCandidate) : Prop :=
  ∀ row, db.reservations.get? candidate.reservationId = some row →
    row.storageKey = candidate.key.value ∧
      (candidate.ownsBytes = false → candidate.uncertainOutcome = false →
        db.Accounts files row.storageKey)

theorem decideUnowned_step {candidate : CleanupCandidate} {decision : CleanupDecision}
    (hledger : before.Ledger files) (hkept : candidate.Kept before files)
    (hruns : (decideUnowned candidate).Runs before decision after)
    (htouched : candidate.reservationId ∈ touched) (hown : candidate.reservationId ∈ own) :
    ReservationStep files own touched drawn before after := by
  rcases decideUnowned_runs hruns with ⟨_, hsettled⟩ | ⟨row, hget, _, _, hcertain, _, _,
    ⟨_, howns, rfl⟩ | ⟨_, _, rfl⟩⟩
  · exact hsettled.step hledger htouched
  · apply ReservationStep.releasing hledger hget htouched
    · exact (hkept row hget).2 howns hcertain
    · exact fun _ => .inr hown
  · exact .refl hledger

theorem decideUnowned_deletes {candidate : CleanupCandidate}
    (hruns : (decideUnowned candidate).Runs before .deleteBytes after) :
    after = before ∧ ∃ row, before.reservations.get? candidate.reservationId = some row ∧
      row.storageKey = candidate.key.value ∧ before.artifactOwns row.storageKey = false := by
  rcases decideUnowned_runs hruns with ⟨hdecision, _⟩ | ⟨row, hget, hkey, hfree, _, _, _,
    ⟨hdecision, _⟩ | ⟨_, _, rfl⟩⟩
  · cases hdecision
  · cases hdecision
  · rw [← hkey] at hfree
    exact ⟨rfl, row, hget, hkey, hfree⟩

theorem CleanupJob.decide_step {cutoff : Time} {reservationId : Uuid}
    {decision : CleanupDecision × Text} (hledger : before.Ledger files)
    (hruns : (CleanupJob.decide cutoff reservationId).Runs before decision after)
    (htouched : reservationId ∈ touched) :
    ReservationStep files own touched drawn before after := by
  simp only [CleanupJob.decide, runs_bind, runs_get, runs_pure, and_assoc, exists_and_left,
    exists_eq_left'] at hruns
  obtain ⟨made, middle, hdecide, rfl, rfl⟩ := hruns
  cases decideExpired_runs hdecide with
  | inl hsettled => exact hsettled.2.step hledger htouched
  | inr hdelete =>
      rw [hdelete.2.1]
      exact .refl hledger

theorem CleanupJob.decide_deletes {cutoff : Time} {reservationId : Uuid}
    {decision : CleanupDecision × Text} (hdelete : decision.1 = .deleteBytes)
    (hruns : (CleanupJob.decide cutoff reservationId).Runs before decision after) :
    after = before ∧ ∃ row, before.reservations.get? reservationId = some row ∧
      decision.2 = row.storageKey ∧ before.artifactOwns row.storageKey = false ∧
        row.storageState = .owned := by
  simp only [CleanupJob.decide, runs_bind, runs_get, runs_pure, and_assoc, exists_and_left,
    exists_eq_left'] at hruns
  obtain ⟨made, middle, hdecide, rfl, rfl⟩ := hruns
  rcases decideExpired_runs hdecide with ⟨hmade, _⟩ | ⟨_, rfl, row, hget, hfree, howned⟩
  · rw [hmade] at hdelete
    cases hdelete
  · refine ⟨rfl, row, hget, ?_, hfree, howned⟩
    rw [hget]
    rfl

/-- A transaction has locked its reservation and deletes the bytes; `removed` says that the
storage has answered that they are gone. -/
structure OpenDeletion where
  reservationId : Uuid
  key : Option StorageKey
  removed : Bool

/-- No artifact has the key of the reservation, and only this transaction may change that. -/
def OpenDeletion.Sound (db : Db) (files : StorageFiles) (own : List Uuid)
    (deletion : OpenDeletion) : Prop :=
  ∃ row, db.reservations.get? deletion.reservationId = some row ∧
    (∀ key ∈ deletion.key, row.storageKey = key.value) ∧
      db.artifactOwns row.storageKey = false ∧
        (row.storageState = .owned ∨ deletion.reservationId ∈ own) ∧
          (deletion.removed = true → ∀ key : StorageKey, key.value = row.storageKey →
            ¬ KeyStored files key)

theorem finishDeletion_step {deletion : OpenDeletion} {done : PUnit}
    (hledger : before.Ledger files) (hsound : deletion.Sound before files own)
    (hruns : (finishDeletion deletion.reservationId deletion.removed).Runs before done after)
    (htouched : deletion.reservationId ∈ touched) :
    ReservationStep files own touched drawn before after := by
  rcases hsound with ⟨row, hget, _, _, hstate, hgone⟩
  rcases finishDeletion_runs hruns with ⟨found, hfound, ⟨hremoved, rfl⟩ | ⟨_, rfl⟩⟩
  · apply ReservationStep.releasing hledger hget htouched
    · exact fun key hkey hstored => absurd hstored (hgone hremoved key hkey)
    · intro hreserved
      cases hstate with
      | inl howned =>
          rw [hreserved] at howned
          cases howned
      | inr hown => exact .inr hown
  · exact .quarantined hledger hfound htouched

section RevisionCommits

variable {platform : Platform} {context : CallContext} {prepared : List PreparedArtifact}
  {revision : Revision}

theorem RevisionCommit.keeps_owned
    (hcommit : RevisionCommit platform context prepared revision before after) {value : Text}
    (howned : before.artifactOwns value = true) : after.artifactOwns value = true := by
  obtain ⟨artifact, hartifact, hkey⟩ := Db.artifactOwns_iff.mp howned
  exact Db.artifactOwns_iff.mpr ⟨artifact, hcommit.artifacts.1 artifact hartifact, hkey⟩

theorem RevisionCommit.mem_before
    (hcommit : RevisionCommit platform context prepared revision before after)
    {row : StorageReservation} (hrow : row ∈ after.reservations) : row ∈ before.reservations := by
  rw [hcommit.reservations] at hrow
  exact (Table.mem_keep_iff.mp hrow).1

/-- The commit deletes the reservations of its artifacts and no other. -/
theorem RevisionCommit.get?_reservations
    (hcommit : RevisionCommit platform context prepared revision before after) {id : Uuid}
    {row : StorageReservation} (hfound : before.reservations.get? id = some row) :
    (id ∉ prepared.map PreparedArtifact.reservationId ∧
        after.reservations.get? id = some row) ∨
      (id ∈ prepared.map PreparedArtifact.reservationId ∧
        after.reservations.get? id = none) := by
  have hid := StorageReservation.id_of_get? hfound
  rw [hcommit.reservations, Table.get?_keep, hfound]
  by_cases hmem : id ∈ prepared.map PreparedArtifact.reservationId
  · exact .inr ⟨hmem, by simp [Option.filter, hid, hmem]⟩
  · exact .inl ⟨hmem, by simp [Option.filter, hid, hmem]⟩

/-- A reservation that the commit deletes vouched for the key of an artifact. -/
theorem RevisionCommit.vouched_key
    (hcommit : RevisionCommit platform context prepared revision before after) {id : Uuid}
    {row : StorageReservation} (hid : id ∈ prepared.map PreparedArtifact.reservationId)
    (hfound : before.reservations.get? id = some row) :
    ∃ item ∈ prepared, item.reservationId = id ∧ row.storageKey = item.receipt.key.value := by
  obtain ⟨item, hitem, hitemId⟩ := List.mem_map.mp hid
  obtain ⟨⟨reservation, hreservation, hkey, _⟩, _⟩ := hcommit.vouched item hitem
  rw [hitemId] at hreservation
  rw [Option.mem_def, hfound] at hreservation
  cases hreservation
  exact ⟨item, hitem, hitemId, hkey⟩

theorem RevisionCommit.step (hledger : before.Ledger files)
    (hcommit : RevisionCommit platform context prepared revision before after)
    (htouched : ∀ item ∈ prepared, item.reservationId ∈ touched)
    (hown : ∀ item ∈ prepared, item.reservationId ∈ own) :
    ReservationStep files own touched drawn before after := by
  have hadds := hcommit.artifacts
  constructor
  · intro id row hid hfound
    cases hcommit.get?_reservations hfound with
    | inl hleft => exact hleft.2
    | inr hgone =>
        obtain ⟨item, hitem, hitemId⟩ := List.mem_map.mp hgone.1
        exact absurd (hitemId ▸ htouched item hitem) hid
  · intro id row hfound
    have hbefore := Table.get?_of_mem (hcommit.mem_before (Table.mem_of_get? hfound))
    rw [Table.key_of_get? hfound] at hbefore
    exact .inl ⟨row, hbefore, .refl row⟩
  · exact fun first hfirst second hsecond =>
      hledger.keys first (hcommit.mem_before hfirst) second (hcommit.mem_before hsecond)
  · exact fun row hrow => hledger.collisions row (hcommit.mem_before hrow)
  · exact fun row hrow => hledger.constrained row (hcommit.mem_before hrow)
  · intro id row hfound hnone
    cases hcommit.get?_reservations hfound with
    | inl hleft =>
        rw [hleft.2] at hnone
        cases hnone
    | inr hgone =>
        obtain ⟨item, hitem, _, hkey⟩ := hcommit.vouched_key hgone.1 hfound
        obtain ⟨artifact, hartifact, hstored, _⟩ := hadds.2.1 item hitem
        apply Db.Accounts.of_owned
        exact Db.artifactOwns_iff.mpr ⟨artifact, hartifact, hstored.trans hkey.symm⟩
  · intro id row hfound hstate
    cases hcommit.get?_reservations hfound with
    | inl hleft => exact .inl ⟨row, hleft.2, hstate⟩
    | inr hgone =>
        obtain ⟨item, hitem, hitemId⟩ := List.mem_map.mp hgone.1
        exact .inr (.inr (hitemId ▸ hown item hitem))
  · exact fun _ howned => hcommit.keeps_owned howned
  · intro value howned
    obtain ⟨artifact, hartifact, hkey⟩ := Db.artifactOwns_iff.mp howned
    cases hadds.2.2 artifact hartifact with
    | inl hold => exact .inl (Db.artifactOwns_iff.mpr ⟨artifact, hold, hkey⟩)
    | inr hnew =>
        obtain ⟨item, hitem, hstored, _⟩ := hnew
        obtain ⟨⟨reservation, hreservation, hsame, _⟩, _⟩ := hcommit.vouched item hitem
        refine .inr ⟨item.reservationId, htouched item hitem, reservation, hreservation, ?_⟩
        rw [hsame, ← hstored, hkey]

end RevisionCommits

end Agora
