import Agora.ReservationSteps

/-!
# Every stored file is accounted for

A file comes into being under a key that a reservation or an artifact carries, and a
reservation goes only when its files are gone or an artifact has its key.  So however uploads
and cleanup jobs interleave, fail and die, no stored file is ever without a row in the
database that names its key.
-/

namespace Agora

open Transaction

/-! ## What a party still has to do -/

/-- The reservations that an upload may still clean up, in order. -/
def UploadSession.pending (session : UploadSession) : List CleanupCandidate :=
  match session.phase with
  | .writing candidate => session.candidates ++ [candidate]
  | .markingVerified candidate _ => session.candidates ++ [candidate]
  | .markingCommitted candidate _ => session.candidates ++ [candidate]
  | .markingCollision candidate => session.candidates ++ [candidate]
  | .markingCleanupRequired candidate => session.candidates ++ [candidate]
  | .cleaning rest => rest
  | .deleting candidate rest => candidate :: rest
  | .deleted candidate rest _ => candidate :: rest
  | .finished _ => []
  | .crashed => []
  | .reserving _ => session.candidates
  | .inserting _ _ => session.candidates
  | .committing => session.candidates

/-- The reservation whose file the upload is about to write. -/
def UploadPhase.writing? : UploadPhase → Option CleanupCandidate
  | .writing candidate => some candidate
  | _ => none

/-- The flags of the current reservation tell whether its upload has written bytes. -/
def UploadPhase.Flagged : UploadPhase → Prop
  | .writing candidate => candidate.ownsBytes = false ∧ candidate.uncertainOutcome = false
  | .markingCollision candidate =>
      candidate.ownsBytes = false ∧ candidate.uncertainOutcome = false
  | .markingVerified candidate _ => candidate.ownsBytes = true
  | _ => True

def UploadPhase.deletion? : UploadPhase → Option OpenDeletion
  | .deleting candidate _ => some ⟨candidate.reservationId, some candidate.key, false⟩
  | .deleted candidate _ removed => some ⟨candidate.reservationId, none, removed⟩
  | _ => none

def CleanupPhase.deletion? : CleanupPhase → Option OpenDeletion
  | .deleting reservationId key _ => some ⟨reservationId, some key, false⟩
  | .deleted reservationId removed _ => some ⟨reservationId, none, removed⟩
  | _ => none

namespace UploadParty

def pending : UploadParty → List CleanupCandidate
  | .upload session => session.pending
  | .cleanup _ => []

/-- The reservations that only this party uses. -/
def own (party : UploadParty) : List Uuid :=
  party.pending.map CleanupCandidate.reservationId

def writing? : UploadParty → Option CleanupCandidate
  | .upload session => session.phase.writing?
  | .cleanup _ => none

def Flagged : UploadParty → Prop
  | .upload session => session.phase.Flagged
  | .cleanup _ => True

def deletion? : UploadParty → Option OpenDeletion
  | .upload session => session.phase.deletion?
  | .cleanup job => job.phase.deletion?

/-- Every prepared artifact has a candidate, and these candidates own their bytes. -/
def PreparedKnown : UploadParty → Prop
  | .upload session =>
      (∀ item ∈ session.prepared, ∃ candidate ∈ session.candidates,
        candidate.reservationId = item.reservationId) ∧
          ∀ candidate ∈ session.candidates, candidate.ownsBytes = true
  | .cleanup _ => True

theorem held_eq (party : UploadParty) :
    party.held = (party.deletion?.map OpenDeletion.reservationId).toList := by
  cases party with
  | upload session =>
      simp only [held, deletion?]
      cases session.phase <;> rfl
  | cleanup job =>
      simp only [held, deletion?]
      cases job.phase <;> rfl

theorem mem_held_iff {party : UploadParty} {id : Uuid} :
    id ∈ party.held ↔ ∃ deletion ∈ party.deletion?, deletion.reservationId = id := by
  rw [held_eq, Option.mem_toList, Option.map_eq_some_iff]
  rfl

end UploadParty

/-- A reservation that its upload has not written to: it is still in its first state, or an
artifact has its key. -/
def CleanupCandidate.Unwritten (db : Db) (candidate : CleanupCandidate) : Prop :=
  (∃ row, db.reservations.get? candidate.reservationId = some row ∧
    row.storageState = .reserved) ∨ db.artifactOwns candidate.key.value = true

/-- What a party knows of the stores. -/
structure UploadParty.Tracked (store : UploadStore) (party : UploadParty) : Prop where
  issued : ∀ id ∈ party.own, id ∈ store.issued
  kept : ∀ candidate ∈ party.pending, candidate.Kept store.db store.files
  writing : ∀ candidate ∈ party.writing?, candidate.Unwritten store.db
  flagged : party.Flagged
  deletion : ∀ deletion ∈ party.deletion?, deletion.Sound store.db store.files party.own
  held : ∀ id ∈ party.held, id ∈ store.locked
  prepared : party.PreparedKnown

/-- Two parties share neither reservations nor locks. -/
structure UploadParty.Apart (first second : UploadParty) : Prop where
  own : ∀ id ∈ first.own, id ∉ second.own
  held : ∀ id ∈ first.held, id ∉ second.held

def UploadStore.Sound (store : UploadStore) : Prop :=
  store.db.Ledger store.files

/-! ## Reservation steps keep the facts -/

section Steps

variable {files : StorageFiles} {own touched drawn : List Uuid} {before after : Db}

theorem ReservationStep.ledger (hstep : ReservationStep files own touched drawn before after)
    (hledger : before.Ledger files) : after.Ledger files where
  keys := hstep.keys
  covered := by
    intro key hstored
    cases hledger.covered key hstored with
    | inl howned => exact .inl (hstep.kept key.value howned)
    | inr hrow =>
        obtain ⟨row, hrow, hkey⟩ := hrow
        have hget := Table.get?_of_mem hrow
        cases hlater : after.reservations.get? (Keyed.key row) with
        | none =>
            rw [← hkey]
            exact .inl (hstep.released _ row hget hlater key hkey.symm hstored)
        | some later =>
            cases hstep.rows _ later hlater with
            | inl hold =>
                obtain ⟨original, horiginal, hfollows⟩ := hold
                rw [hget] at horiginal
                cases horiginal
                exact .inr ⟨later, Table.mem_of_get? hlater, hfollows.key.trans hkey⟩
            | inr hnew =>
                rw [hget] at hnew
                cases hnew.2.1
  collisions := fun row hrow hstate => (hstep.collisions row hrow hstate).of_kept (hstep.kept _)
  constrained := hstep.constrained

theorem ReservationStep.candidate {candidate : CleanupCandidate}
    (hstep : ReservationStep files own touched drawn before after)
    (hkept : candidate.Kept before files) (hold : candidate.reservationId ∉ drawn) :
    candidate.Kept after files := by
  intro row hrow
  cases hstep.rows _ row hrow with
  | inl hfollowed =>
      obtain ⟨original, horiginal, hfollows⟩ := hfollowed
      have hknown := hkept original horiginal
      rw [hfollows.key]
      refine ⟨hknown.1, fun howns hcertain => ?_⟩
      exact (hknown.2 howns hcertain).of_kept (hstep.kept _)
  | inr hnew => exact absurd hnew.1 hold

theorem ReservationStep.unwritten {candidate : CleanupCandidate}
    (hstep : ReservationStep files own touched drawn before after)
    (hkept : candidate.Kept before files) (hunwritten : candidate.Unwritten before)
    (hown : candidate.reservationId ∉ own) : candidate.Unwritten after := by
  cases hunwritten with
  | inl hrow =>
      obtain ⟨row, hget, hreserved⟩ := hrow
      cases hstep.reserved _ row hget hreserved with
      | inl hleft => exact .inl hleft
      | inr hrest =>
          cases hrest with
          | inl howned =>
              rw [(hkept row hget).1] at howned
              exact .inr howned
          | inr hmine => exact absurd hmine hown
  | inr howned => exact .inr (hstep.kept _ howned)

theorem ReservationStep.deletion {deletion : OpenDeletion} {others : List Uuid}
    (hstep : ReservationStep files own touched drawn before after)
    (hledger : before.Ledger files) (hsound : deletion.Sound before files others)
    (huntouched : deletion.reservationId ∉ touched) : deletion.Sound after files others := by
  obtain ⟨row, hget, hkey, hfree, hstate, hgone⟩ := hsound
  refine ⟨row, hstep.untouched _ row huntouched hget, hkey, ?_, hstate, hgone⟩
  cases howned : after.artifactOwns row.storageKey with
  | false => rfl
  | true =>
      cases hstep.owned _ howned with
      | inl hold =>
          rw [hfree] at hold
          cases hold
      | inr hnew =>
          obtain ⟨id, hid, other, hother, hsame⟩ := hnew
          rw [hledger.get?_inj hget hother hsame.symm] at huntouched
          exact absurd hid huntouched

end Steps

/-! ## Storage calls keep the facts -/

/-- A storage call makes files of these keys only. -/
def OnlyStores (keys : List StorageKey) (before after : StorageFiles) : Prop :=
  ∀ key, KeyStored after key → KeyStored before key ∨ key ∈ keys

section Calls

variable {db : Db} {keys : List StorageKey} {before after : StorageFiles}

theorem Db.Accounts.stores {value : Text} (haccounts : db.Accounts before value)
    (hstores : OnlyStores keys before after)
    (hkeys : ∀ key ∈ keys, key.value = value → db.artifactOwns value = true) :
    db.Accounts after value := by
  intro key hkey hstored
  cases hstores key hstored with
  | inl hold => exact haccounts key hkey hold
  | inr hnew => exact hkeys key hnew hkey

/-- The row with the key of an unwritten reservation is its own, unless an artifact has the
key. -/
theorem CleanupCandidate.Unwritten.sole {candidate : CleanupCandidate} {row : StorageReservation}
    (hledger : db.Ledger before) (hkept : candidate.Kept db before)
    (hunwritten : candidate.Unwritten db) (hrow : row ∈ db.reservations)
    (hkey : row.storageKey = candidate.key.value) :
    (row.id = candidate.reservationId ∧ row.storageState = .reserved) ∨
      db.artifactOwns candidate.key.value = true := by
  cases hunwritten with
  | inl hown =>
      obtain ⟨found, hget, hreserved⟩ := hown
      have hsame := hledger.keys row hrow found (Table.mem_of_get? hget)
        (hkey.trans (hkept found hget).1.symm)
      rw [hsame]
      exact .inl ⟨StorageReservation.id_of_get? hget, hreserved⟩
  | inr howned => exact .inr howned

theorem Db.Ledger.write {candidate : CleanupCandidate} (hledger : db.Ledger before)
    (hkept : candidate.Kept db before) (hunwritten : candidate.Unwritten db)
    (hstores : OnlyStores [candidate.key] before after) : db.Ledger after where
  keys := hledger.keys
  covered := by
    intro key hstored
    cases hstores key hstored with
    | inl hold => exact hledger.covered key hold
    | inr hnew =>
        rw [List.mem_singleton.mp hnew]
        cases hunwritten with
        | inl hown =>
            obtain ⟨row, hget, _⟩ := hown
            exact .inr ⟨row, Table.mem_of_get? hget, (hkept row hget).1⟩
        | inr howned => exact .inl howned
  collisions := by
    intro row hrow hstate
    apply (hledger.collisions row hrow hstate).stores hstores
    intro key hkey hvalue
    rw [List.mem_singleton.mp hkey] at hvalue
    cases hunwritten.sole hledger hkept hrow hvalue.symm with
    | inl hown =>
        rw [hstate] at hown
        cases hown.2
    | inr howned => rw [← hvalue]; exact howned
  constrained := hledger.constrained

theorem CleanupCandidate.Kept.write {candidate other : CleanupCandidate}
    (hledger : db.Ledger before) (hkept : candidate.Kept db before)
    (hunwritten : candidate.Unwritten db) (hstores : OnlyStores [candidate.key] before after)
    (hother : other.Kept db before) (hne : other.reservationId ≠ candidate.reservationId) :
    other.Kept db after := by
  intro row hget
  have hknown := hother row hget
  refine ⟨hknown.1, fun howns hcertain => ?_⟩
  apply (hknown.2 howns hcertain).stores hstores
  intro key hkey hvalue
  rw [List.mem_singleton.mp hkey] at hvalue
  cases hunwritten.sole hledger hkept (Table.mem_of_get? hget) hvalue.symm with
  | inl hown =>
      rw [StorageReservation.id_of_get? hget] at hown
      exact absurd hown.1 hne
  | inr howned => rw [← hvalue]; exact howned

theorem OpenDeletion.Sound.write {candidate : CleanupCandidate} {deletion : OpenDeletion}
    {own : List Uuid} (hledger : db.Ledger before) (hkept : candidate.Kept db before)
    (hunwritten : candidate.Unwritten db) (hstores : OnlyStores [candidate.key] before after)
    (hsound : deletion.Sound db before own) (hother : candidate.reservationId ∉ own) :
    deletion.Sound db after own := by
  obtain ⟨row, hget, hkey, hfree, hstate, hgone⟩ := hsound
  refine ⟨row, hget, hkey, hfree, hstate, fun hremoved key hvalue hstored => ?_⟩
  cases hstores key hstored with
  | inl hold => exact hgone hremoved key hvalue hold
  | inr hnew =>
      rw [List.mem_singleton.mp hnew] at hvalue
      cases hunwritten.sole hledger hkept (Table.mem_of_get? hget) hvalue.symm with
      | inl hown =>
          rw [StorageReservation.id_of_get? hget] at hown
          cases hstate with
          | inl howned =>
              rw [hown.2] at howned
              cases howned
          | inr hmine => exact hother (hown.1 ▸ hmine)
      | inr howned =>
          rw [hvalue, hfree] at howned
          cases howned

theorem Db.Ledger.delete (hledger : db.Ledger before) (hstores : OnlyStores [] before after) :
    db.Ledger after where
  keys := hledger.keys
  covered := by
    intro key hstored
    cases hstores key hstored with
    | inl hold => exact hledger.covered key hold
    | inr hnew => cases hnew
  collisions := fun row hrow hstate =>
    (hledger.collisions row hrow hstate).stores hstores fun key hkey => by cases hkey
  constrained := hledger.constrained

theorem CleanupCandidate.Kept.delete {candidate : CleanupCandidate}
    (hkept : candidate.Kept db before) (hstores : OnlyStores [] before after) :
    candidate.Kept db after := by
  intro row hget
  have hknown := hkept row hget
  refine ⟨hknown.1, fun howns hcertain => ?_⟩
  exact (hknown.2 howns hcertain).stores hstores fun key hkey => by cases hkey

theorem OpenDeletion.Sound.delete {deletion : OpenDeletion} {own : List Uuid}
    (hsound : deletion.Sound db before own) (hstores : OnlyStores [] before after) :
    deletion.Sound db after own := by
  obtain ⟨row, hget, hkey, hfree, hstate, hgone⟩ := hsound
  refine ⟨row, hget, hkey, hfree, hstate, fun hremoved key hvalue hstored => ?_⟩
  cases hstores key hstored with
  | inl hold => exact hgone hremoved key hvalue hold
  | inr hnew => cases hnew

/-- A write that runs alone leaves every other file, and a final file that exists, as it was. -/
theorem WriteCall.Alone.keeps {sha256 : Bytes → Text} {key : StorageKey} {chunks : List Chunk}
    {call : WriteCall} {path : StoragePath}
    (hgood : call.Alone sha256 key chunks before after) (hpending : path ≠ key.pendingPath)
    (hfinal : path = key.finalPath → before.read path ≠ none) :
    after.read path = before.read path := by
  have hpended : ∀ bytes, Pends call.key before after bytes →
      after.read path = before.read path := by
    intro bytes hpends
    rw [hpends.2, hgood.key]
    exact Function.update_of_ne hpending _ _
  have hlinked : before.read key.finalPath = none → path ≠ key.finalPath := by
    intro hnone hpath
    exact hfinal hpath (hpath ▸ hnone)
  have htraced := hgood.traced
  cases hphase : call.phase with
  | finished outcome =>
      simp only [WriteCall.Traced, hphase, hgood.key] at htraced
      cases outcome with
      | returned receipt =>
          obtain ⟨payload, _, hnone, _, hread⟩ := htraced
          rw [hread]
          exact Function.update_of_ne (hlinked hnone) _ _
      | committed receipt =>
          obtain ⟨payload, _, hnone, _, hothers⟩ := htraced
          exact hothers path (hlinked hnone) hpending
      | raised error =>
          cases error with
          | storage kind message =>
              cases kind with
              | storageCollision => exact congrFun htraced.2 path
              | storageCleanupRequired => exact htraced path hpending
              | _ => exact congrFun htraced path
          | _ => exact congrFun htraced path
  | unlinkingPending receipt =>
      simp only [WriteCall.Traced, hphase, hgood.key] at htraced
      obtain ⟨payload, _, hnone, _, hread⟩ := htraced
      rw [hread, Function.update_of_ne (hlinked hnone)]
      exact Function.update_of_ne hpending _ _
  | syncingDirectory receipt =>
      simp only [WriteCall.Traced, hphase, hgood.key] at htraced
      obtain ⟨payload, _, hnone, _, hread⟩ := htraced
      rw [hread]
      exact Function.update_of_ne (hlinked hnone) _ _
  | writingChunk descriptor received remaining =>
      simp only [WriteCall.Traced, hphase] at htraced
      obtain ⟨⟨bytes, _, hpends⟩, _⟩ := htraced
      exact hpended bytes hpends
  | streaming descriptor received =>
      simp only [WriteCall.Traced, hphase] at htraced
      exact hpended received htraced.1
  | syncingFile descriptor received =>
      simp only [WriteCall.Traced, hphase] at htraced
      exact hpended received htraced.1
  | rewinding descriptor received =>
      simp only [WriteCall.Traced, hphase] at htraced
      exact hpended received htraced.1
  | readingBack descriptor received stored =>
      simp only [WriteCall.Traced, hphase] at htraced
      exact hpended received htraced.1
  | closingAfterFailure descriptor error =>
      simp only [WriteCall.Traced, hphase] at htraced
      obtain ⟨⟨bytes, hpends⟩, _⟩ := htraced
      exact hpended bytes hpends
  | unlinkingAfterFailure error =>
      simp only [WriteCall.Traced, hphase] at htraced
      obtain ⟨⟨bytes, hpends⟩, _⟩ := htraced
      exact hpended bytes hpends
  | closing descriptor receipt =>
      simp only [WriteCall.Traced, hphase] at htraced
      obtain ⟨payload, _, hpends⟩ := htraced
      exact hpended payload hpends
  | linking receipt =>
      simp only [WriteCall.Traced, hphase] at htraced
      obtain ⟨payload, _, hpends⟩ := htraced
      exact hpended payload hpends
  | _ =>
      simp only [WriteCall.Traced, hphase] at htraced
      exact congrFun htraced.1 path

theorem WriteCall.start_alone {sha256 : Bytes → Text} {key : StorageKey} {chunks : List Chunk}
    {expectedSize : Option ℤ} {expectedSha256 : Option Text} :
    (WriteCall.start key chunks expectedSize expectedSha256).Alone sha256 key chunks before
      before := by
  refine ⟨rfl, trivial, ⟨rfl, rfl⟩, ?_, fun _ hdirectory => hdirectory, fun _ => .inl⟩
  intro directory hahead
  cases hahead

theorem WriteCall.Alone.stores {sha256 : Bytes → Text} {key : StorageKey} {chunks : List Chunk}
    {call : WriteCall} (hgood : call.Alone sha256 key chunks before after) :
    OnlyStores [key] before after := by
  intro other hstored
  by_cases hsame : other = key
  · exact .inr (List.mem_singleton.mpr hsame)
  · have hothers : ∀ path, path = other.finalPath ∨ path = other.pendingPath →
        after.read path = before.read path := by
      intro path hpath
      apply hgood.keeps
      · intro hpending
        cases hpath with
        | inl hfinal =>
            exact StorageKey.finalPath_ne_pendingPath other key (hfinal.symm.trans hpending)
        | inr hown => exact hsame (StorageKey.pendingPath_injective (hown.symm.trans hpending))
      · intro hfinal
        cases hpath with
        | inl hown => exact absurd (StorageKey.finalPath_injective (hown.symm.trans hfinal)) hsame
        | inr hpending =>
            exact absurd (hfinal.symm.trans hpending)
              (StorageKey.finalPath_ne_pendingPath key other)
    left
    unfold KeyStored at hstored ⊢
    rwa [hothers _ (.inl rfl), hothers _ (.inr rfl)] at hstored

theorem OnlyRemoved.read_kept {key : StorageKey} {path : StoragePath}
    (hremoved : OnlyRemoved key before after) (hpath : after.read path ≠ none) :
    after.read path = before.read path := by
  cases hentry : after.entry path with
  | none => exact absurd (FileSystem.read_eq_none_iff.mpr hentry) hpath
  | some inode => exact hremoved.read_of_some hentry

theorem OnlyRemoved.stores {key : StorageKey} (hremoved : OnlyRemoved key before after) :
    OnlyStores [] before after := by
  intro other hstored
  left
  cases hstored with
  | inl hfinal => exact .inl (hremoved.read_kept hfinal ▸ hfinal)
  | inr hpending => exact .inr (hremoved.read_kept hpending ▸ hpending)

end Calls

/-! ## The party after a transaction -/

/-- A party goes on with what it had and what its transaction has told it. -/
structure UploadParty.MovedBy (party : UploadParty) (transaction : PartyTransaction) (db : Db)
    (files : StorageFiles) (moved : UploadParty) : Prop where
  pending : ∀ candidate ∈ moved.pending, candidate ∈ party.pending ∨
    (candidate.reservationId ∈ transaction.drawn ∧ candidate.Kept db files)
  writing : ∀ candidate ∈ moved.writing?, candidate.Unwritten db
  flagged : moved.Flagged
  deletion : ∀ deletion ∈ moved.deletion?, deletion.Sound db files moved.own ∧
    deletion.reservationId ∈ transaction.rows
  prepared : moved.PreparedKnown

section Moves

variable {platform : Platform} {context : CallContext} {session : UploadSession}
  {store : UploadStore} {files : StorageFiles} {db : Db} {transaction : PartyTransaction}
  {moved : UploadParty}

@[simp] theorem UploadSession.pending_fail : session.fail.pending = session.candidates := rfl

@[simp] theorem UploadSession.pending_failWith {candidate : CleanupCandidate} :
    (session.failWith candidate).pending = session.candidates ++ [candidate] := rfl

@[simp] theorem UploadSession.pending_next : session.next.pending = session.candidates := by
  unfold next
  split <;> rfl

@[simp] theorem UploadSession.pending_retry (attempts : ℕ) :
    (session.retry attempts).pending = session.candidates := by
  cases attempts <;> rfl

theorem UploadSession.deletion_next : session.next.phase.deletion? = none ∧
    session.next.phase.writing? = none ∧ session.next.phase.Flagged := by
  unfold next
  split <;> exact ⟨rfl, rfl, trivial⟩

theorem UploadSession.deletion_retry (attempts : ℕ) :
    (session.retry attempts).phase.deletion? = none ∧
      (session.retry attempts).phase.writing? = none ∧
        (session.retry attempts).phase.Flagged := by
  cases attempts <;> exact ⟨rfl, rfl, trivial⟩

/-- A session that neither writes nor deletes next, and has no new candidate. -/
theorem UploadParty.MovedBy.quiet {party : UploadParty}
    (hpending : ∀ candidate ∈ moved.pending, candidate ∈ party.pending)
    (hdeletion : moved.deletion? = none) (hwriting : moved.writing? = none)
    (hflagged : moved.Flagged) (hprepared : moved.PreparedKnown) :
    party.MovedBy transaction db files moved where
  pending := fun candidate hcandidate => .inl (hpending candidate hcandidate)
  writing := by simp [hwriting]
  flagged := hflagged
  deletion := by simp [hdeletion]
  prepared := hprepared

theorem UploadSession.prepare_moved {candidate : CleanupCandidate} {receipt : StoredArtifact}
    (hphase : session.phase = .markingVerified candidate receipt)
    (hprepared : (UploadParty.upload session).PreparedKnown)
    (howns : candidate.ownsBytes = true) :
    (UploadParty.upload session).MovedBy transaction db files
      (.upload (session.prepare platform.unicode candidate receipt)) := by
  have hpending : (UploadParty.upload session).pending = session.candidates ++ [candidate] := by
    simp only [UploadParty.pending, pending, hphase]
  have hfailed : (UploadParty.upload session).MovedBy transaction db files
      (.upload (session.failWith candidate)) :=
    .quiet (fun other hother => by rw [hpending]; exact hother) rfl rfl trivial hprepared
  unfold prepare
  cases session.current? with
  | none => exact hfailed
  | some payload =>
      dsimp only
      cases authoritativeMediaType platform.unicode payload.1 with
      | error message => exact hfailed
      | ok mediaType =>
          apply UploadParty.MovedBy.quiet
          · intro other hother
            rw [hpending]
            simpa only [UploadParty.pending, pending_next] using hother
          · exact deletion_next.1
          · exact deletion_next.2.1
          · exact deletion_next.2.2
          · constructor
            · intro item hitem
              change item ∈ session.prepared ++ [_] at hitem
              change ∃ known ∈ session.candidates ++ [candidate], _
              cases List.mem_append.mp hitem with
              | inl hold =>
                  obtain ⟨known, hknown, hid⟩ := hprepared.1 item hold
                  exact ⟨known, List.mem_append_left _ hknown, hid⟩
              | inr hnew =>
                  rw [List.mem_singleton.mp hnew]
                  exact ⟨candidate, List.mem_append_right _ (List.mem_singleton_self _), rfl⟩
            · intro known hknown
              change known ∈ session.candidates ++ [candidate] at hknown
              cases List.mem_append.mp hknown with
              | inl hold => exact hprepared.2 known hold
              | inr hnew => rw [List.mem_singleton.mp hnew]; exact howns

theorem UploadSession.reserved_moved {attempts : ℕ} {key : StorageKey}
    {result : Option StorageReservation} {after : Db}
    (hphase : session.phase = .inserting attempts key)
    (hprepared : (UploadParty.upload session).PreparedKnown) (hledger : db.Ledger files)
    (hruns : (insertReservation context key).Runs db result after)
    (hdrawn : transaction.drawn = [context.uuid 0]) :
    (UploadParty.upload session).MovedBy transaction after files
      (.upload (session.reserved attempts key result)) := by
  have hpending : (UploadParty.upload session).pending = session.candidates := by
    simp only [UploadParty.pending, pending, hphase]
  rcases insertReservation_runs hruns with ⟨rfl, rfl⟩ | ⟨row, reservations, rfl, hid, hkey,
    hreserved, _, _, hunique, hcreate, rfl⟩
  · apply UploadParty.MovedBy.quiet
    · intro other hother
      rw [hpending]
      simpa only [UploadParty.pending, reserved, pending_retry] using hother
    · exact (deletion_retry attempts).1
    · exact (deletion_retry attempts).2.1
    · exact (deletion_retry attempts).2.2
    · cases attempts <;> exact hprepared
  · have hget : reservations.get? row.id = some row := by
      rw [Table.get?_of_create hcreate]
      exact if_pos rfl
    have hkept : CleanupCandidate.Kept { db with reservations := reservations } files
        ⟨row.id, key, false, false⟩ := by
      intro found hfound
      change reservations.get? row.id = some found at hfound
      rw [hget] at hfound
      cases hfound
      refine ⟨hkey, fun _ _ => ?_⟩
      intro other hvalue hstored
      rw [hkey] at hvalue ⊢
      rw [← hvalue]
      cases hledger.covered other hstored with
      | inl howned => exact howned
      | inr hrow =>
          obtain ⟨earlier, hearlier, hsame⟩ := hrow
          exact absurd (hsame.trans hvalue) (hunique earlier hearlier)
    constructor
    · intro candidate hcandidate
      change candidate ∈ session.candidates ++ [_] at hcandidate
      cases List.mem_append.mp hcandidate with
      | inl hold => exact .inl (by rw [hpending]; exact hold)
      | inr hnew =>
          rw [List.mem_singleton.mp hnew]
          refine .inr ⟨?_, hkept⟩
          rw [hdrawn]
          exact List.mem_singleton.mpr hid
    · intro candidate hcandidate
      cases hcandidate
      exact .inl ⟨row, hget, hreserved⟩
    · exact ⟨rfl, rfl⟩
    · exact fun deletion hdeletion => by cases hdeletion
    · exact hprepared

theorem UploadSession.decided_moved {candidate : CleanupCandidate} {rest : List CleanupCandidate}
    {decision : CleanupDecision} (hphase : session.phase = .cleaning (candidate :: rest))
    (hprepared : (UploadParty.upload session).PreparedKnown)
    (hrows : transaction.rows = [candidate.reservationId])
    (hdelete : decision = .deleteBytes → ∃ row,
      db.reservations.get? candidate.reservationId = some row ∧
        row.storageKey = candidate.key.value ∧ db.artifactOwns row.storageKey = false) :
    (UploadParty.upload session).MovedBy transaction db files
      (.upload (session.decided candidate rest decision)) := by
  have hpending : (UploadParty.upload session).pending = candidate :: rest := by
    simp only [UploadParty.pending, pending, hphase]
  cases decision with
  | settled =>
      apply UploadParty.MovedBy.quiet
      · intro other hother
        rw [hpending]
        exact List.mem_cons_of_mem _ hother
      · rfl
      · rfl
      · trivial
      · exact hprepared
  | deleteBytes =>
      obtain ⟨row, hget, hkey, hfree⟩ := hdelete rfl
      constructor
      · intro other hother
        rw [hpending]
        exact .inl hother
      · exact fun other hother => by cases hother
      · trivial
      · intro deletion hdeletion
        cases hdeletion
        refine ⟨⟨row, hget, ?_, hfree, .inr ?_, ?_⟩, ?_⟩
        · intro key hsame
          cases hsame
          exact hkey
        · exact List.mem_cons_self ..
        · intro hremoved
          cases hremoved
        · rw [hrows]
          exact List.mem_singleton_self _
      · exact hprepared

theorem UploadSession.failWith_moved {candidate : CleanupCandidate}
    (hpending : session.pending = session.candidates ++ [candidate])
    (hprepared : (UploadParty.upload session).PreparedKnown) :
    (UploadParty.upload session).MovedBy transaction db files
      (.upload (session.failWith candidate)) :=
  .quiet (fun other hother => by rw [UploadParty.pending, hpending]; exact hother)
    rfl rfl trivial hprepared

/-- What a transaction of an upload does when it commits. -/
theorem UploadSession.transaction_commits {after : Db} (hsound : store.Sound)
    (htracked : (UploadParty.upload session).Tracked store)
    (htransaction : session.transaction? platform context = some transaction)
    (hruns : transaction.body.Runs store.db moved after) :
    ReservationStep store.files (UploadParty.upload session).own
        (transaction.rows ++ (UploadParty.upload session).held) transaction.drawn store.db after ∧
      (UploadParty.upload session).MovedBy transaction after store.files moved := by
  have hpending := fun candidate (hcandidate : candidate ∈ session.pending) =>
    @List.mem_map_of_mem _ _ _ _ CleanupCandidate.reservationId hcandidate
  have hown : (UploadParty.upload session).own =
      session.pending.map CleanupCandidate.reservationId := rfl
  have hprepared := htracked.prepared
  unfold UploadSession.transaction? at htransaction
  cases hphase : session.phase with
  | inserting attempts key =>
      simp only [hphase, Option.some.injEq] at htransaction
      subst htransaction
      simp only [runs_bind, runs_pure] at hruns
      obtain ⟨result, middle, hinsert, rfl, rfl⟩ := hruns
      exact ⟨insertReservation_step hsound hinsert,
        reserved_moved hphase hprepared hsound hinsert rfl⟩
  | markingVerified candidate receipt =>
      simp only [hphase, Option.some.injEq] at htransaction
      subst htransaction
      simp only [runs_bind, runs_pure] at hruns
      obtain ⟨done, middle, hmark, rfl, rfl⟩ := hruns
      have howns : candidate.ownsBytes = true := by
        have hflagged := htracked.flagged
        simpa only [UploadParty.Flagged, UploadPhase.Flagged, hphase] using hflagged
      refine ⟨markReservationVerified_step hsound hmark (by simp) ?_,
        prepare_moved hphase hprepared howns⟩
      apply hpending
      simp [pending, hphase]
  | markingCommitted candidate receipt =>
      simp only [hphase, Option.some.injEq] at htransaction
      subst htransaction
      simp only [runs_bind, runs_pure] at hruns
      obtain ⟨done, middle, hmark, rfl, rfl⟩ := hruns
      refine ⟨markReservationVerified_step hsound hmark (by simp) ?_,
        failWith_moved (by simp only [pending, hphase]) hprepared⟩
      apply hpending
      simp [pending, hphase]
  | markingCollision candidate =>
      have hcandidate : candidate ∈ session.pending := by simp [pending, hphase]
      simp only [hphase, Option.some.injEq] at htransaction
      subst htransaction
      simp only [runs_bind, runs_pure] at hruns
      obtain ⟨done, middle, hmark, rfl, rfl⟩ := hruns
      have hblank : candidate.ownsBytes = false ∧ candidate.uncertainOutcome = false := by
        have hflagged := htracked.flagged
        simpa only [UploadParty.Flagged, UploadPhase.Flagged, hphase] using hflagged
      refine ⟨markReservationCollision_step hsound hmark (by simp) (hpending _ hcandidate) ?_,
        failWith_moved (by simp only [pending, hphase]) hprepared⟩
      exact fun row hrow => (htracked.kept _ hcandidate row hrow).2 hblank.1 hblank.2
  | markingCleanupRequired candidate =>
      simp only [hphase, Option.some.injEq] at htransaction
      subst htransaction
      simp only [runs_bind, runs_pure] at hruns
      obtain ⟨done, middle, hmark, rfl, rfl⟩ := hruns
      exact ⟨markReservationCleanupRequired_step hsound hmark (by simp),
        failWith_moved (by simp only [pending, hphase]) hprepared⟩
  | committing =>
      have hknown : ∀ item ∈ session.prepared,
          item.reservationId ∈ (UploadParty.upload session).own := by
        intro item hitem
        obtain ⟨candidate, hcandidate, hid⟩ := hprepared.1 item hitem
        rw [← hid]
        apply hpending
        simpa only [pending, hphase] using hcandidate
      simp only [hphase, Option.some.injEq] at htransaction
      subst htransaction
      simp only [runs_bind, runs_pure] at hruns
      obtain ⟨revision, middle, hcommit, rfl, rfl⟩ := hruns
      refine ⟨(commitRevisionMetadata_runs hcommit).step hsound ?_ hknown, ?_⟩
      · intro item hitem
        exact List.mem_append_left _ (List.mem_map_of_mem hitem)
      · apply UploadParty.MovedBy.quiet
        · exact fun other hother => by cases hother
        · rfl
        · rfl
        · trivial
        · exact hprepared
  | cleaning candidates =>
      cases candidates with
      | nil => simp [hphase] at htransaction
      | cons candidate rest =>
          have hcandidate : candidate ∈ session.pending := by simp [pending, hphase]
          simp only [hphase, Option.some.injEq] at htransaction
          subst htransaction
          simp only [runs_bind, runs_pure] at hruns
          obtain ⟨decision, middle, hdecide, rfl, rfl⟩ := hruns
          have htouched : candidate.reservationId ∈
              [candidate.reservationId] ++ (UploadParty.upload session).held :=
            List.mem_append_left _ (List.mem_singleton_self _)
          refine ⟨decideUnowned_step hsound (htracked.kept _ hcandidate) hdecide htouched
            (hpending _ hcandidate), decided_moved hphase hprepared rfl ?_⟩
          intro hdelete
          rw [hdelete] at hdecide
          obtain ⟨hsame, hrow⟩ := decideUnowned_deletes hdecide
          rw [hsame]
          exact hrow
  | deleted candidate rest removed =>
      have hsoundDeletion : OpenDeletion.Sound store.db store.files
          (UploadParty.upload session).own ⟨candidate.reservationId, none, removed⟩ := by
        apply htracked.deletion
        simp [UploadParty.deletion?, UploadPhase.deletion?, hphase]
      have hheld : candidate.reservationId ∈ (UploadParty.upload session).held := by
        simp [UploadParty.held, hphase]
      simp only [hphase, Option.some.injEq] at htransaction
      subst htransaction
      simp only [runs_bind, runs_pure] at hruns
      obtain ⟨done, middle, hfinish, rfl, rfl⟩ := hruns
      refine ⟨finishDeletion_step hsound hsoundDeletion hfinish
        (List.mem_append_right _ hheld), ?_⟩
      apply UploadParty.MovedBy.quiet
      · intro other hother
        change other ∈ rest at hother
        simp only [UploadParty.pending, pending, hphase]
        exact List.mem_cons_of_mem _ hother
      · rfl
      · rfl
      · trivial
      · exact hprepared
  | _ => simp [hphase] at htransaction

/-- A party whose transaction ends in an error has nothing new. -/
theorem UploadSession.transaction_fails
    (hprepared : (UploadParty.upload session).PreparedKnown)
    (htransaction : session.transaction? platform context = some transaction) :
    (UploadParty.upload session).MovedBy transaction db files transaction.onFailure ∧
      transaction.onFailure.held = [] := by
  have hquiet : ∀ rest : List CleanupCandidate, (∀ candidate ∈ rest, candidate ∈ session.pending) →
      (UploadParty.upload session).MovedBy transaction db files
        (.upload (session.goto (.cleaning rest))) :=
    fun rest hrest => .quiet hrest rfl rfl trivial hprepared
  unfold UploadSession.transaction? at htransaction
  cases hphase : session.phase with
  | inserting attempts key =>
      simp only [hphase, Option.some.injEq] at htransaction
      subst htransaction
      exact ⟨hquiet session.candidates (by simp [pending, hphase]), rfl⟩
  | committing =>
      simp only [hphase, Option.some.injEq] at htransaction
      subst htransaction
      exact ⟨hquiet session.candidates (by simp [pending, hphase]), rfl⟩
  | cleaning candidates =>
      cases candidates with
      | nil => simp [hphase] at htransaction
      | cons candidate rest =>
          simp only [hphase, Option.some.injEq] at htransaction
          subst htransaction
          refine ⟨hquiet rest ?_, rfl⟩
          simp only [pending, hphase]
          exact fun other hother => List.mem_cons_of_mem _ hother
  | deleted candidate rest removed =>
      simp only [hphase, Option.some.injEq] at htransaction
      subst htransaction
      refine ⟨hquiet rest ?_, rfl⟩
      simp only [pending, hphase]
      exact fun other hother => List.mem_cons_of_mem _ hother
  | markingVerified candidate receipt | markingCommitted candidate receipt =>
      simp only [hphase, Option.some.injEq] at htransaction
      subst htransaction
      exact ⟨hquiet (session.candidates ++ [candidate]) (by simp [pending, hphase]), rfl⟩
  | markingCollision candidate | markingCleanupRequired candidate =>
      simp only [hphase, Option.some.injEq] at htransaction
      subst htransaction
      exact ⟨hquiet (session.candidates ++ [candidate]) (by simp [pending, hphase]), rfl⟩
  | _ => simp [hphase] at htransaction

theorem CleanupJob.storageKey?_eq_some {value : Text} {key : StorageKey}
    (hkey : CleanupJob.storageKey? value = some key) : key.value = value := by
  unfold CleanupJob.storageKey? at hkey
  split at hkey
  · cases hkey
    rfl
  · cases hkey

theorem CleanupJob.decided_moved {job : CleanupJob} {reservationId : Uuid} {rest : List Uuid}
    {decision : CleanupDecision × Text} (hrows : transaction.rows = [reservationId])
    (hdelete : decision.1 = .deleteBytes → ∃ row,
      db.reservations.get? reservationId = some row ∧ decision.2 = row.storageKey ∧
        db.artifactOwns row.storageKey = false ∧ row.storageState = .owned) :
    (UploadParty.cleanup job).MovedBy transaction db files
      (.cleanup (job.decided reservationId rest decision)) := by
  have hnone : ∀ phase, (UploadParty.cleanup (job.goto phase)).pending = [] := fun _ => rfl
  obtain ⟨made, value⟩ := decision
  cases made with
  | settled =>
      exact .quiet (fun other hother => by cases hother) rfl rfl trivial trivial
  | deleteBytes =>
      obtain ⟨row, hget, hvalue, hfree, howned⟩ := hdelete rfl
      have hfound : ∀ phase deletion, phase.deletion? = some deletion →
          deletion.reservationId = reservationId → deletion.removed = false →
            (∀ key ∈ deletion.key, row.storageKey = key.value) →
              (UploadParty.cleanup job).MovedBy transaction db files
                (.cleanup (job.goto phase)) := by
        intro phase deletion hphase hid hremoved hkey
        constructor
        · exact fun other hother => by cases hother
        · exact fun other hother => by cases hother
        · trivial
        · intro found hdeletion
          change phase.deletion? = some found at hdeletion
          rw [hphase] at hdeletion
          cases hdeletion
          refine ⟨⟨row, hid ▸ hget, hkey, hfree, .inl howned, ?_⟩, ?_⟩
          · rw [hremoved]
            exact fun hfalse => by cases hfalse
          · rw [hrows, hid]
            exact List.mem_singleton_self _
        · trivial
      simp only [CleanupJob.decided]
      cases hkey : CleanupJob.storageKey? value with
      | none => exact hfound _ _ rfl rfl rfl (fun key hkey => by cases hkey)
      | some key =>
          apply hfound _ _ rfl rfl rfl
          intro other hother
          cases hother
          rw [← hvalue, CleanupJob.storageKey?_eq_some hkey]

theorem CleanupJob.transaction_commits {job : CleanupJob} {after : Db} (hsound : store.Sound)
    (htracked : (UploadParty.cleanup job).Tracked store)
    (htransaction : job.transaction? = some transaction)
    (hruns : transaction.body.Runs store.db moved after) :
    ReservationStep store.files (UploadParty.cleanup job).own
        (transaction.rows ++ (UploadParty.cleanup job).held) transaction.drawn store.db after ∧
      (UploadParty.cleanup job).MovedBy transaction after store.files moved := by
  unfold CleanupJob.transaction? at htransaction
  cases hphase : job.phase with
  | deciding ids =>
      cases ids with
      | nil => simp [hphase] at htransaction
      | cons reservationId rest =>
          simp only [hphase, Option.some.injEq] at htransaction
          subst htransaction
          simp only [runs_bind, runs_pure] at hruns
          obtain ⟨decision, middle, hdecide, rfl, rfl⟩ := hruns
          have htouched : reservationId ∈ [reservationId] ++ (UploadParty.cleanup job).held :=
            List.mem_append_left _ (List.mem_singleton_self _)
          refine ⟨CleanupJob.decide_step hsound hdecide htouched, decided_moved rfl ?_⟩
          intro hdelete
          obtain ⟨hsame, hrow⟩ := CleanupJob.decide_deletes hdelete hdecide
          rw [hsame]
          exact hrow
  | deleted reservationId removed rest =>
      have hsoundDeletion : OpenDeletion.Sound store.db store.files
          (UploadParty.cleanup job).own ⟨reservationId, none, removed⟩ := by
        apply htracked.deletion
        simp [UploadParty.deletion?, CleanupPhase.deletion?, hphase]
      have hheld : reservationId ∈ (UploadParty.cleanup job).held := by
        simp [UploadParty.held, hphase]
      simp only [hphase, Option.some.injEq] at htransaction
      subst htransaction
      simp only [runs_bind, runs_pure] at hruns
      obtain ⟨done, middle, hfinish, rfl, rfl⟩ := hruns
      exact ⟨finishDeletion_step hsound hsoundDeletion hfinish (List.mem_append_right _ hheld),
        .quiet (fun other hother => by cases hother) rfl rfl trivial trivial⟩
  | _ => simp [hphase] at htransaction

theorem CleanupJob.transaction_fails {job : CleanupJob}
    (htransaction : job.transaction? = some transaction) :
    (UploadParty.cleanup job).MovedBy transaction db files transaction.onFailure ∧
      transaction.onFailure.held = [] := by
  have hended : (UploadParty.cleanup job).MovedBy transaction db files
      (.cleanup (job.goto .ended)) :=
    .quiet (fun other hother => by cases hother) rfl rfl trivial trivial
  unfold CleanupJob.transaction? at htransaction
  cases hphase : job.phase with
  | deciding ids =>
      cases ids with
      | nil => simp [hphase] at htransaction
      | cons reservationId rest =>
          simp only [hphase, Option.some.injEq] at htransaction
          subst htransaction
          exact ⟨hended, rfl⟩
  | deleted reservationId removed rest =>
      simp only [hphase, Option.some.injEq] at htransaction
      subst htransaction
      exact ⟨hended, rfl⟩
  | _ => simp [hphase] at htransaction

variable {party : UploadParty}

theorem UploadParty.transaction_commits {after : Db} (hsound : store.Sound)
    (htracked : party.Tracked store)
    (htransaction : party.transaction? platform context = some transaction)
    (hruns : transaction.body.Runs store.db moved after) :
    ReservationStep store.files party.own (transaction.rows ++ party.held) transaction.drawn
        store.db after ∧
      party.MovedBy transaction after store.files moved := by
  cases party with
  | upload session => exact session.transaction_commits hsound htracked htransaction hruns
  | cleanup job => exact job.transaction_commits hsound htracked htransaction hruns

theorem UploadParty.transaction_fails (db : Db) (files : StorageFiles)
    (hprepared : party.PreparedKnown)
    (htransaction : party.transaction? platform context = some transaction) :
    party.MovedBy transaction db files transaction.onFailure ∧ transaction.onFailure.held = [] := by
  cases party with
  | upload session => exact session.transaction_fails hprepared htransaction
  | cleanup job => exact job.transaction_fails htransaction

theorem reported_cases {α : Type} (body : Tx α) (before : Db) (report : CommitReport) :
    reported body before report = (before, none) ∨
      ∃ value after, body.Runs before value after ∧ report ≠ .failed ∧
        (reported body before report).1 = after ∧
          ((reported body before report).2 = some value ∨
            (reported body before report).2 = none) := by
  cases hbody : body before with
  | error failure =>
      left
      cases report <;> simp [reported, settle, value?, hbody]
  | ok result =>
      obtain ⟨value, after⟩ := result
      have hruns : body.Runs before value after := hbody
      cases report with
      | failed => exact .inl rfl
      | answered =>
          exact .inr ⟨value, after, hruns, by simp, settle_of_runs hruns,
            .inl (value?_of_runs hruns)⟩
      | lost => exact .inr ⟨value, after, hruns, by simp, settle_of_runs hruns, .inr rfl⟩

/-- What a transaction leaves, whatever its report. -/
theorem UploadStore.transact_cases {next : UploadStore} {report : CommitReport}
    (hsound : store.Sound) (htracked : party.Tracked store)
    (htransaction : party.transaction? platform context = some transaction)
    (htransact : store.transact party transaction report = some (next, moved)) :
    ReservationStep store.files party.own (transaction.rows ++ party.held) transaction.drawn
        store.db next.db ∧
      party.MovedBy transaction next.db store.files moved ∧
        next.files = store.files ∧ next.locked = store.relocked party moved ∧
          next.issued = transaction.drawn ++ store.issued ∧
            (∀ id ∈ transaction.drawn, id ∉ store.issued) ∧
              (next.db = store.db ∨ ∀ id ∈ transaction.rows, id ∉ store.locked) ∧
                ∀ id ∈ moved.held, id ∉ store.locked := by
  unfold UploadStore.transact at htransact
  split at htransact
  · cases htransact
  · rename_i hblocks
    split at htransact
    · rename_i hdraws
      simp only [Option.some.injEq, Prod.mk.injEq] at htransact
      obtain ⟨rfl, hmoved⟩ := htransact
      have hunlocked : report ≠ .failed → ∀ id ∈ transaction.rows, id ∉ store.locked :=
        fun hreport id hid hlocked => hblocks ⟨hreport, id, hid, hlocked⟩
      rcases reported_cases transaction.body store.db report with
        hfailed | ⟨value, after, hruns, hreport, hdb, hvalue⟩
      · have hfails := UploadParty.transaction_fails store.db store.files htracked.prepared
          htransaction
        rw [hfailed] at hmoved ⊢
        rw [Option.getD_none] at hmoved ⊢
        subst hmoved
        refine ⟨.refl hsound, hfails.1, rfl, rfl, rfl, hdraws, .inl rfl, ?_⟩
        rw [hfails.2]
        exact fun id hid => by cases hid
      · have hcommits := UploadParty.transaction_commits hsound htracked htransaction hruns
        have hfails := UploadParty.transaction_fails after store.files htracked.prepared
          htransaction
        have hmovedBy : party.MovedBy transaction after store.files moved ∧
            ∀ id ∈ moved.held, id ∉ store.locked := by
          cases hvalue with
          | inl hsome =>
              rw [hsome, Option.getD_some] at hmoved
              subst hmoved
              refine ⟨hcommits.2, fun id hid => ?_⟩
              obtain ⟨deletion, hdeletion, hsame⟩ := UploadParty.mem_held_iff.mp hid
              rw [← hsame]
              exact hunlocked hreport _ (hcommits.2.deletion deletion hdeletion).2
          | inr hnone =>
              rw [hnone, Option.getD_none] at hmoved
              subst hmoved
              refine ⟨hfails.1, ?_⟩
              rw [hfails.2]
              exact fun id hid => by cases hid
        rw [← hmoved]
        rw [← hmoved] at hmovedBy
        rw [hdb]
        exact ⟨hcommits.1, hmovedBy.1, rfl, rfl, rfl, hdraws, .inr (hunlocked hreport),
          hmovedBy.2⟩
    · cases htransact

end Moves

/-! ## The party after a storage call -/

section Storage

variable {platform : Platform} {session : UploadSession} {candidate : CleanupCandidate}
  {store next : UploadStore} {before after : StorageFiles} {db : Db} {party moved : UploadParty}
  {results : List SystemResult}

theorem StorageKey.eq_of_value {first second : StorageKey} (hvalue : first.value = second.value) :
    first = second := by
  cases first
  cases second
  cases hvalue
  rfl

/-- A candidate with a flag knows nothing of its files. -/
theorem CleanupCandidate.Kept.of_flag {known : CleanupCandidate} (hkept : known.Kept db before)
    (hid : candidate.reservationId = known.reservationId) (hkey : candidate.key = known.key)
    (hflag : candidate.ownsBytes = true ∨ candidate.uncertainOutcome = true) :
    candidate.Kept db after := by
  intro row hrow
  rw [hid] at hrow
  refine ⟨hkey ▸ (hkept row hrow).1, fun howns hcertain => ?_⟩
  cases hflag with
  | inl htrue =>
      rw [howns] at htrue
      cases htrue
  | inr htrue =>
      rw [hcertain] at htrue
      cases htrue

theorem CleanupCandidate.Kept.of_read (hkept : candidate.Kept db before)
    (hread : after.read = before.read) : candidate.Kept db after := by
  intro row hrow
  refine ⟨(hkept row hrow).1, fun howns hcertain key hkey hstored => ?_⟩
  unfold KeyStored at hstored
  rw [hread] at hstored
  exact (hkept row hrow).2 howns hcertain key hkey hstored

/-- However a write ends, its upload knows what the files are. -/
theorem UploadSession.written_kept {key : StorageKey} {chunks : List Chunk} {call : WriteCall}
    (halone : call.Alone platform.sha256 key chunks before after)
    (hkept : candidate.Kept db before)
    (hcandidates : ∀ known ∈ session.candidates, known.Kept db before ∧ known.ownsBytes = true) :
    ∀ known ∈ (session.written candidate call.phase).pending, known.Kept db after := by
  have hold : ∀ known ∈ session.candidates, known.Kept db after := fun known hknown =>
    (hcandidates known hknown).1.of_flag rfl rfl (.inl (hcandidates known hknown).2)
  have happend : ∀ last : CleanupCandidate, last.Kept db after →
      ∀ known ∈ session.candidates ++ [last], known.Kept db after := by
    intro last hlast known hknown
    cases List.mem_append.mp hknown with
    | inl hearlier => exact hold known hearlier
    | inr hnew => rw [List.mem_singleton.mp hnew]; exact hlast
  have htraced := halone.traced
  cases hphase : call.phase with
  | finished outcome =>
      simp only [WriteCall.Traced, hphase] at htraced
      cases outcome with
      | returned receipt => exact happend _ (hkept.of_flag rfl rfl (.inl rfl))
      | committed receipt => exact happend _ (hkept.of_flag rfl rfl (.inl rfl))
      | raised error =>
          cases error with
          | storage kind message =>
              cases kind with
              | storageCollision => exact happend _ (hkept.of_read htraced.2)
              | storageCleanupRequired => exact happend _ (hkept.of_flag rfl rfl (.inr rfl))
              | _ => exact happend _ (hkept.of_read htraced)
          | _ => exact happend _ (hkept.of_read htraced)
  | _ => exact fun known hknown => by cases hknown

theorem UploadSession.written_own (phase : WritePhase) :
    ∀ id ∈ (UploadParty.upload (session.written candidate phase)).own,
      id ∈ (session.candidates ++ [candidate]).map CleanupCandidate.reservationId := by
  intro id hid
  have hsame : ∀ last : CleanupCandidate, last.reservationId = candidate.reservationId →
      id ∈ (session.candidates ++ [last]).map CleanupCandidate.reservationId →
        id ∈ (session.candidates ++ [candidate]).map CleanupCandidate.reservationId := by
    intro last hlast hmem
    simpa [hlast] using hmem
  cases phase with
  | finished outcome =>
      cases outcome with
      | returned receipt => exact hsame { candidate with ownsBytes := true } rfl hid
      | committed receipt => exact hsame { candidate with ownsBytes := true } rfl hid
      | raised error =>
          cases error with
          | storage kind message =>
              cases kind with
              | storageCleanupRequired =>
                  exact hsame { candidate with uncertainOutcome := true } rfl hid
              | _ => exact hid
          | _ => exact hid
  | _ => cases hid

/-- After its write an upload neither writes nor deletes. -/
theorem UploadSession.written_quiet
    (hflagged : candidate.ownsBytes = false ∧ candidate.uncertainOutcome = false)
    (hprepared : (UploadParty.upload session).PreparedKnown) (phase : WritePhase) :
    (session.written candidate phase).phase.deletion? = none ∧
      (session.written candidate phase).phase.writing? = none ∧
        (session.written candidate phase).phase.Flagged ∧
          (UploadParty.upload (session.written candidate phase)).PreparedKnown := by
  cases phase with
  | finished outcome =>
      cases outcome with
      | returned receipt => exact ⟨rfl, rfl, rfl, hprepared⟩
      | committed receipt => exact ⟨rfl, rfl, trivial, hprepared⟩
      | raised error =>
          cases error with
          | storage kind message =>
              cases kind with
              | storageCollision => exact ⟨rfl, rfl, hflagged, hprepared⟩
              | _ => exact ⟨rfl, rfl, trivial, hprepared⟩
          | _ => exact ⟨rfl, rfl, trivial, hprepared⟩
  | _ => exact ⟨rfl, rfl, trivial, hprepared⟩

theorem OpenDeletion.Sound.answered {own : List Uuid} {reservationId : Uuid} {key : StorageKey}
    {removed : Bool} (hsound : OpenDeletion.Sound db before own ⟨reservationId, some key, false⟩)
    (hanswer : (runDelete key before results).2.answer? = some removed) :
    OpenDeletion.Sound db (runDelete key before results).1 own ⟨reservationId, none, removed⟩ := by
  obtain ⟨row, hget, hkey, hfree, hstate, _⟩ := hsound
  refine ⟨row, hget, (fun other hother => by cases hother), hfree, hstate, ?_⟩
  intro hremoved other hvalue hstored
  have hremovedPhase := (runDelete_contract key before results).2
  have hsame : other = key := StorageKey.eq_of_value (hvalue.trans (hkey key rfl))
  rw [hsame] at hstored
  have htrue : removed = true := hremoved
  cases hphase : (runDelete key before results).2 with
  | returned =>
      rw [hphase] at hremovedPhase
      cases hstored with
      | inl hfinal => exact hfinal (FileSystem.read_eq_none_iff.mpr hremovedPhase.1)
      | inr hpending => exact hpending (FileSystem.read_eq_none_iff.mpr hremovedPhase.2)
  | raised kind message =>
      rw [hphase] at hanswer
      cases hanswer
      cases htrue
  | _ =>
      rw [hphase] at hanswer
      cases hanswer

/-- What a storage call leaves of the stores and of its party. -/
structure UploadParty.CalledBy (party : UploadParty) (store next : UploadStore)
    (moved : UploadParty) : Prop where
  db : next.db = store.db
  issued : next.issued = store.issued
  locked : next.locked = store.relocked party moved
  own : ∀ id ∈ moved.own, id ∈ party.own
  held : ∀ id ∈ moved.held, id ∈ party.held
  writing : moved.writing? = none
  flagged : moved.Flagged
  prepared : moved.PreparedKnown
  stores : (∃ candidate ∈ party.writing?, OnlyStores [candidate.key] store.files next.files) ∨
    OnlyStores [] store.files next.files
  kept : ∀ candidate ∈ moved.pending, candidate.Kept next.db next.files
  deletion : ∀ deletion ∈ moved.deletion?, deletion.Sound next.db next.files moved.own

/-- An upload writes its current payload to the key of its reservation. -/
theorem UploadSession.callStorage_writes {candidate : CleanupCandidate}
    (hphase : session.phase = .writing candidate)
    (hcall : session.callStorage platform store results = some (next, moved)) :
    ∃ payload last, session.current? = some payload ∧
      writeAlone platform.sha256 store.files (.start candidate.key payload.1.chunks
        (some payload.1.expectedSize) (some payload.1.expectedSha256)) results = last ∧
      last.2.Alone platform.sha256 candidate.key payload.1.chunks store.files last.1 ∧
        moved = .upload (session.written candidate last.2.phase) ∧
          next = { store with
            files := last.1
            locked := store.relocked (.upload session) moved } := by
  simp only [callStorage, hphase, Option.map_eq_some_iff] at hcall
  obtain ⟨call, hwrite, hresult⟩ := hcall
  obtain ⟨payload, hcurrent, rfl⟩ := Option.map_eq_some_iff.mp hwrite
  have halone := writeAlone_alone results (@WriteCall.start_alone store.files platform.sha256
    candidate.key payload.1.chunks (some payload.1.expectedSize) (some payload.1.expectedSha256))
  refine ⟨payload, _, hcurrent, rfl, halone, ?_⟩
  cases hresult
  exact ⟨rfl, rfl⟩

/-- An upload deletes the bytes of the reservation that it has locked. -/
theorem UploadSession.callStorage_deletes {candidate : CleanupCandidate}
    {rest : List CleanupCandidate} (hphase : session.phase = .deleting candidate rest)
    (hcall : session.callStorage platform store results = some (next, moved)) :
    (next.files = (runDelete candidate.key store.files results).1 ∧ next.db = store.db ∧
      next.issued = store.issued ∧ next.locked = store.relocked (.upload session) moved) ∧
    (((runDelete candidate.key store.files results).2.answer? = none ∧
      moved = .upload (session.goto .crashed)) ∨
      ∃ removed, (runDelete candidate.key store.files results).2.answer? = some removed ∧
        moved = .upload (session.goto (.deleted candidate rest removed))) := by
  simp only [callStorage, hphase] at hcall
  cases hanswer : (runDelete candidate.key store.files results).2.answer? with
  | none =>
      simp only [hanswer, Option.some.injEq] at hcall
      cases hcall
      exact ⟨⟨rfl, rfl, rfl, rfl⟩, .inl ⟨rfl, rfl⟩⟩
  | some removed =>
      simp only [hanswer, Option.some.injEq] at hcall
      cases hcall
      exact ⟨⟨rfl, rfl, rfl, rfl⟩, .inr ⟨removed, rfl, rfl⟩⟩

/-- A job deletes the bytes of the reservation that it has locked. -/
theorem CleanupJob.callStorage_deletes {job : CleanupJob}
    (hcall : job.callStorage store results = some (next, moved)) :
    ∃ reservationId key rest, job.phase = .deleting reservationId key rest ∧
      (next.files = (runDelete key store.files results).1 ∧ next.db = store.db ∧
        next.issued = store.issued ∧ next.locked = store.relocked (.cleanup job) moved) ∧
      (((runDelete key store.files results).2.answer? = none ∧
        moved = .cleanup (job.goto .ended)) ∨
        ∃ removed, (runDelete key store.files results).2.answer? = some removed ∧
          moved = .cleanup (job.goto (.deleted reservationId removed rest))) := by
  unfold callStorage at hcall
  cases hphase : job.phase with
  | deleting reservationId key rest =>
      refine ⟨reservationId, key, rest, rfl, ?_⟩
      simp only [hphase] at hcall
      cases hanswer : (runDelete key store.files results).2.answer? with
      | none =>
          simp only [hanswer, Option.some.injEq] at hcall
          cases hcall
          exact ⟨⟨rfl, rfl, rfl, rfl⟩, .inl ⟨rfl, rfl⟩⟩
      | some removed =>
          simp only [hanswer, Option.some.injEq] at hcall
          cases hcall
          exact ⟨⟨rfl, rfl, rfl, rfl⟩, .inr ⟨removed, rfl, rfl⟩⟩
  | _ => simp [hphase] at hcall

theorem UploadSession.callStorage_called_writing {candidate : CleanupCandidate}
    (htracked : (UploadParty.upload session).Tracked store)
    (hphase : session.phase = .writing candidate)
    (hcall : session.callStorage platform store results = some (next, moved)) :
    (UploadParty.upload session).CalledBy store next moved := by
  have hpending : session.pending = session.candidates ++ [candidate] := by
    simp only [pending, hphase]
  have hflagged : candidate.ownsBytes = false ∧ candidate.uncertainOutcome = false := by
    have hflagged := htracked.flagged
    simpa only [UploadParty.Flagged, UploadPhase.Flagged, hphase] using hflagged
  have hkept : ∀ known ∈ session.candidates ++ [candidate],
      known.Kept store.db store.files := by
    intro known hknown
    apply htracked.kept
    rw [UploadParty.pending, hpending]
    exact hknown
  obtain ⟨payload, last, _, _, halone, rfl, rfl⟩ := session.callStorage_writes hphase hcall
  have hquiet := session.written_quiet hflagged htracked.prepared last.2.phase
  constructor
  · rfl
  · rfl
  · rfl
  · intro id hid
    have hown := session.written_own last.2.phase id hid
    rw [← hpending] at hown
    exact hown
  · intro id hid
    rw [UploadParty.mem_held_iff] at hid
    obtain ⟨deletion, hdeletion, _⟩ := hid
    rw [UploadParty.deletion?, hquiet.1] at hdeletion
    cases hdeletion
  · exact hquiet.2.1
  · exact hquiet.2.2.1
  · exact hquiet.2.2.2
  · left
    refine ⟨candidate, ?_, halone.stores⟩
    simp [UploadParty.writing?, UploadPhase.writing?, hphase]
  · apply UploadSession.written_kept halone
    · exact hkept candidate (List.mem_append_right _ (List.mem_singleton_self _))
    · intro known hknown
      exact ⟨hkept known (List.mem_append_left _ hknown), htracked.prepared.2 known hknown⟩
  · intro deletion hdeletion
    rw [UploadParty.deletion?, hquiet.1] at hdeletion
    cases hdeletion

theorem UploadSession.callStorage_called_deleting {candidate : CleanupCandidate}
    {rest : List CleanupCandidate} (htracked : (UploadParty.upload session).Tracked store)
    (hphase : session.phase = .deleting candidate rest)
    (hcall : session.callStorage platform store results = some (next, moved)) :
    (UploadParty.upload session).CalledBy store next moved := by
  have hpending : (UploadParty.upload session).pending = candidate :: rest := by
    simp only [UploadParty.pending, pending, hphase]
  have hheld : (UploadParty.upload session).held = [candidate.reservationId] := by
    simp only [UploadParty.held, hphase]
  have hsound : OpenDeletion.Sound store.db store.files (UploadParty.upload session).own
      ⟨candidate.reservationId, some candidate.key, false⟩ := by
    apply htracked.deletion
    simp [UploadParty.deletion?, UploadPhase.deletion?, hphase]
  have hstores := (runDelete_contract candidate.key store.files results).1.stores
  obtain ⟨⟨hfiles, hdb, hissued, hlocked⟩, hanswer⟩ := session.callStorage_deletes hphase hcall
  rw [← hfiles] at hstores
  cases hanswer with
  | inl hdied =>
      obtain ⟨_, rfl⟩ := hdied
      constructor
      · exact hdb
      · exact hissued
      · exact hlocked
      · exact fun id hid => by cases hid
      · exact fun id hid => by cases hid
      · rfl
      · trivial
      · exact htracked.prepared
      · exact .inr hstores
      · exact fun known hknown => by cases hknown
      · exact fun deletion hdeletion => by cases hdeletion
  | inr hanswered =>
      obtain ⟨removed, hanswer, rfl⟩ := hanswered
      have hsame : (UploadParty.upload (session.goto (.deleted candidate rest removed))).own =
          (UploadParty.upload session).own := by
        rw [UploadParty.own, UploadParty.own, hpending]
        rfl
      constructor
      · exact hdb
      · exact hissued
      · exact hlocked
      · exact fun id hid => hsame ▸ hid
      · intro id hid
        rw [hheld]
        exact hid
      · rfl
      · trivial
      · exact htracked.prepared
      · exact .inr hstores
      · intro known hknown
        rw [hdb]
        apply (htracked.kept known ?_).delete hstores
        rw [hpending]
        exact hknown
      · intro deletion hdeletion
        cases hdeletion
        rw [hsame, hdb, hfiles]
        exact hsound.answered hanswer

theorem UploadSession.callStorage_called
    (htracked : (UploadParty.upload session).Tracked store)
    (hcall : session.callStorage platform store results = some (next, moved)) :
    (UploadParty.upload session).CalledBy store next moved := by
  cases hphase : session.phase with
  | writing candidate => exact session.callStorage_called_writing htracked hphase hcall
  | deleting candidate rest => exact session.callStorage_called_deleting htracked hphase hcall
  | _ => simp [UploadSession.callStorage, hphase] at hcall

theorem CleanupJob.callStorage_called {job : CleanupJob}
    (htracked : (UploadParty.cleanup job).Tracked store)
    (hcall : job.callStorage store results = some (next, moved)) :
    (UploadParty.cleanup job).CalledBy store next moved := by
  unfold CleanupJob.callStorage at hcall
  cases hphase : job.phase with
  | deleting reservationId key rest =>
      have hheld : (UploadParty.cleanup job).held = [reservationId] := by
        simp only [UploadParty.held, hphase]
      have hsound : OpenDeletion.Sound store.db store.files (UploadParty.cleanup job).own
          ⟨reservationId, some key, false⟩ := by
        apply htracked.deletion
        simp [UploadParty.deletion?, CleanupPhase.deletion?, hphase]
      have hcontract := runDelete_contract key store.files results
      have hjob : ∀ phase : CleanupPhase, ∀ files,
          OnlyStores [] store.files files → (∀ deletion ∈ phase.deletion?,
            deletion.Sound store.db files [] ∧ deletion.reservationId = reservationId) →
              (UploadParty.cleanup job).CalledBy store
                (store.called (.cleanup job) (.cleanup (job.goto phase)) files).1
                (.cleanup (job.goto phase)) := by
        intro phase files hstores hdeletion
        constructor
        · rfl
        · rfl
        · rfl
        · exact fun id hid => by cases hid
        · intro id hid
          obtain ⟨deletion, hfound, hid⟩ := UploadParty.mem_held_iff.mp hid
          rw [hheld, ← hid, (hdeletion deletion hfound).2]
          exact List.mem_singleton_self _
        · rfl
        · trivial
        · trivial
        · exact .inr hstores
        · exact fun known hknown => by cases hknown
        · exact fun deletion hfound => (hdeletion deletion hfound).1
      simp only [hphase] at hcall
      cases hanswer : (runDelete key store.files results).2.answer? with
      | none =>
          simp only [hanswer, Option.some.injEq] at hcall
          cases hcall
          exact hjob .ended _ hcontract.1.stores fun deletion hdeletion => by cases hdeletion
      | some removed =>
          simp only [hanswer, Option.some.injEq] at hcall
          cases hcall
          apply hjob (.deleted reservationId removed rest) _ hcontract.1.stores
          intro deletion hdeletion
          cases hdeletion
          exact ⟨hsound.answered hanswer, rfl⟩
  | _ => simp [hphase] at hcall

theorem UploadParty.callStorage_called (htracked : party.Tracked store)
    (hcall : party.callStorage platform store results = some (next, moved)) :
    party.CalledBy store next moved := by
  cases party with
  | upload session => exact session.callStorage_called htracked hcall
  | cleanup job => exact job.callStorage_called htracked hcall

end Storage

/-! ## The invariant of the runs -/

section Runs

variable {platform : Platform} {context : CallContext} {store next : UploadStore}
  {party moved other : UploadParty} {transaction : PartyTransaction} {report : CommitReport}
  {label : UploadLabel}

theorem UploadParty.mem_own {candidate : CleanupCandidate} (hpending : candidate ∈ party.pending) :
    candidate.reservationId ∈ party.own :=
  List.mem_map_of_mem hpending

theorem UploadParty.writing_pending {candidate : CleanupCandidate}
    (hwriting : candidate ∈ party.writing?) : candidate ∈ party.pending := by
  cases party with
  | upload session =>
      simp only [writing?] at hwriting
      cases hphase : session.phase with
      | writing current =>
          rw [hphase] at hwriting
          cases hwriting
          simp only [pending, UploadSession.pending, hphase]
          exact List.mem_append_right _ (List.mem_singleton_self _)
      | _ =>
          rw [hphase] at hwriting
          cases hwriting
  | cleanup job => cases hwriting

theorem UploadParty.MovedBy.own {db : Db} {files : StorageFiles}
    (hmoved : party.MovedBy transaction db files moved) :
    ∀ id ∈ moved.own, id ∈ party.own ∨ id ∈ transaction.drawn := by
  intro id hid
  obtain ⟨candidate, hcandidate, rfl⟩ := List.mem_map.mp hid
  cases hmoved.pending candidate hcandidate with
  | inl hold => exact .inl (UploadParty.mem_own hold)
  | inr hnew => exact .inr hnew.1

theorem UploadStore.mem_relocked {id : Uuid} (hlocked : id ∈ store.locked)
    (hfree : id ∉ party.held) : id ∈ store.relocked party moved := by
  unfold UploadStore.relocked
  apply List.mem_append_right
  rw [List.mem_filter]
  exact ⟨hlocked, by simpa using hfree⟩

/-- A transaction keeps what its party and every other party know. -/
theorem UploadParty.Tracked.transact (hsound : store.Sound) (htracked : party.Tracked store)
    (htransaction : party.transaction? platform context = some transaction)
    (htransact : store.transact party transaction report = some (next, moved)) :
    next.Sound ∧ moved.Tracked next ∧
      ∀ other : UploadParty, other.Tracked store → party.Apart other →
        other.Tracked next ∧ moved.Apart other := by
  obtain ⟨hstep, hmoved, hfiles, hlocked, hissued, hdrawn, hunlocked, hnew⟩ :=
    UploadStore.transact_cases hsound htracked htransaction htransact
  have hfresh : ∀ id, id ∈ store.issued → id ∉ transaction.drawn :=
    fun id hid hmem => hdrawn id hmem hid
  refine ⟨?_, ?_, ?_⟩
  · unfold UploadStore.Sound
    rw [hfiles]
    exact hstep.ledger hsound
  · constructor
    · intro id hid
      rw [hissued]
      cases hmoved.own id hid with
      | inl hold => exact List.mem_append_right _ (htracked.issued id hold)
      | inr hdraw => exact List.mem_append_left _ hdraw
    · intro candidate hcandidate
      rw [hfiles]
      cases hmoved.pending candidate hcandidate with
      | inl hold =>
          apply hstep.candidate (htracked.kept candidate hold)
          exact hfresh _ (htracked.issued _ (UploadParty.mem_own hold))
      | inr hdraw => exact hdraw.2
    · exact hmoved.writing
    · exact hmoved.flagged
    · intro deletion hdeletion
      rw [hfiles]
      exact (hmoved.deletion deletion hdeletion).1
    · intro id hid
      rw [hlocked]
      exact List.mem_append_left _ hid
    · exact hmoved.prepared
  · intro other hother hapart
    refine ⟨?_, ?_, ?_⟩
    · constructor
      · intro id hid
        rw [hissued]
        exact List.mem_append_right _ (hother.issued id hid)
      · intro candidate hcandidate
        rw [hfiles]
        apply hstep.candidate (hother.kept candidate hcandidate)
        exact hfresh _ (hother.issued _ (UploadParty.mem_own hcandidate))
      · intro candidate hcandidate
        have hpending := UploadParty.writing_pending hcandidate
        apply hstep.unwritten (hother.kept candidate hpending)
          (hother.writing candidate hcandidate)
        exact fun hmine => hapart.own _ hmine (UploadParty.mem_own hpending)
      · exact hother.flagged
      · intro deletion hdeletion
        have hheld : deletion.reservationId ∈ other.held :=
          UploadParty.mem_held_iff.mpr ⟨deletion, hdeletion, rfl⟩
        rw [hfiles]
        cases hunlocked with
        | inl hsame =>
            rw [hsame]
            exact hother.deletion deletion hdeletion
        | inr hrows =>
            apply hstep.deletion hsound (hother.deletion deletion hdeletion)
            intro htouched
            cases List.mem_append.mp htouched with
            | inl hrow => exact hrows _ hrow (hother.held _ hheld)
            | inr hmine => exact hapart.held _ hmine hheld
      · intro id hid
        rw [hlocked]
        exact UploadStore.mem_relocked (hother.held id hid)
          fun hmine => hapart.held id hmine hid
      · exact hother.prepared
    · intro id hid hmine
      cases hmoved.own id hid with
      | inl hold => exact hapart.own id hold hmine
      | inr hdraw => exact hdrawn id hdraw (hother.issued id hmine)
    · exact fun id hid hmine => hnew id hid (hother.held id hmine)

/-- A storage call keeps what its party and every other party know. -/
theorem UploadParty.Tracked.call (hsound : store.Sound) (htracked : party.Tracked store)
    (hcalled : party.CalledBy store next moved) :
    next.Sound ∧ moved.Tracked next ∧
      ∀ other : UploadParty, other.Tracked store → party.Apart other →
        other.Tracked next ∧ moved.Apart other := by
  have hlocked : ∀ id ∈ moved.held, id ∈ next.locked := by
    intro id hid
    rw [hcalled.locked]
    exact List.mem_append_left _ hid
  refine ⟨?_, ?_, ?_⟩
  · unfold UploadStore.Sound
    rw [hcalled.db]
    cases hcalled.stores with
    | inl hwrite =>
        obtain ⟨candidate, hwriting, hstores⟩ := hwrite
        exact Db.Ledger.write hsound
          (htracked.kept candidate (UploadParty.writing_pending hwriting))
          (htracked.writing candidate hwriting) hstores
    | inr hstores => exact Db.Ledger.delete hsound hstores
  · constructor
    · intro id hid
      rw [hcalled.issued]
      exact htracked.issued id (hcalled.own id hid)
    · exact hcalled.kept
    · intro candidate hcandidate
      rw [hcalled.writing] at hcandidate
      cases hcandidate
    · exact hcalled.flagged
    · exact hcalled.deletion
    · exact hlocked
    · exact hcalled.prepared
  · intro other hother hapart
    refine ⟨?_, ?_, ?_⟩
    · constructor
      · intro id hid
        rw [hcalled.issued]
        exact hother.issued id hid
      · intro candidate hcandidate
        rw [hcalled.db]
        have hkept := hother.kept candidate hcandidate
        cases hcalled.stores with
        | inl hwrite =>
            obtain ⟨current, hwriting, hstores⟩ := hwrite
            have hpending := UploadParty.writing_pending hwriting
            apply CleanupCandidate.Kept.write hsound (htracked.kept current hpending)
              (htracked.writing current hwriting) hstores hkept
            intro hsame
            apply hapart.own _ (UploadParty.mem_own hpending)
            rw [← hsame]
            exact UploadParty.mem_own hcandidate
        | inr hstores => exact hkept.delete hstores
      · rw [hcalled.db]
        exact hother.writing
      · exact hother.flagged
      · intro deletion hdeletion
        rw [hcalled.db]
        have hdeleting := hother.deletion deletion hdeletion
        cases hcalled.stores with
        | inl hwrite =>
            obtain ⟨current, hwriting, hstores⟩ := hwrite
            have hpending := UploadParty.writing_pending hwriting
            exact OpenDeletion.Sound.write hsound (htracked.kept current hpending)
              (htracked.writing current hwriting) hstores hdeleting
              (hapart.own _ (UploadParty.mem_own hpending))
        | inr hstores => exact hdeleting.delete hstores
      · intro id hid
        rw [hcalled.locked]
        exact UploadStore.mem_relocked (hother.held id hid)
          fun hmine => hapart.held id hmine hid
      · exact hother.prepared
    · exact fun id hid => hapart.own id (hcalled.own id hid)
    · exact fun id hid => hapart.held id (hcalled.held id hid)

theorem UploadParty.crash_called (hprepared : party.PreparedKnown) :
    party.CalledBy store (store.called party party.crashed store.files).1 party.crashed := by
  have hpending : party.crashed.pending = [] := by cases party <;> rfl
  have hdeletion : party.crashed.deletion? = none := by cases party <;> rfl
  have hown : party.crashed.own = [] := by rw [UploadParty.own, hpending]; rfl
  have hheld : party.crashed.held = [] := by rw [UploadParty.held_eq, hdeletion]; rfl
  constructor
  · rfl
  · rfl
  · rfl
  · rw [hown]
    exact fun id hid => by cases hid
  · rw [hheld]
    exact fun id hid => by cases hid
  · cases party <;> rfl
  · cases party <;> trivial
  · cases party with
    | upload session => exact hprepared
    | cleanup job => trivial
  · exact .inr fun key hstored => .inl hstored
  · rw [hpending]
    exact fun known hknown => by cases hknown
  · rw [hdeletion]
    exact fun deletion hfound => by cases hfound

/-- The draw of a storage key touches neither store. -/
theorem UploadParty.generate_quiet {key : StorageKey}
    (hgenerate : party.generate store key report = some (next, moved)) :
    next = store ∧ moved.pending = party.pending ∧ moved.deletion? = none ∧
      party.held = [] ∧ moved.writing? = none ∧ moved.Flagged ∧
        (party.PreparedKnown → moved.PreparedKnown) := by
  cases party with
  | cleanup job => cases hgenerate
  | upload session =>
      simp only [generate] at hgenerate
      cases hphase : session.phase with
      | reserving attempts =>
          cases attempts with
          | zero => simp [hphase] at hgenerate
          | succ attempts =>
              simp only [hphase, Option.some.injEq, Prod.mk.injEq] at hgenerate
              obtain ⟨rfl, rfl⟩ := hgenerate
              have hpending : (UploadParty.upload session).pending = session.candidates := by
                simp only [pending, UploadSession.pending, hphase]
              have hheld : (UploadParty.upload session).held = [] := by
                simp only [held, hphase]
              rw [hpending, hheld]
              cases report with
              | answered =>
                  simp only [UploadSession.generated]
                  split
                  · have hquiet := session.deletion_retry attempts
                    refine ⟨by trivial, session.pending_retry attempts, hquiet.1, by trivial,
                      hquiet.2.1, hquiet.2.2, fun hprepared => ?_⟩
                    cases attempts <;> exact hprepared
                  · exact ⟨by trivial, rfl, rfl, by trivial, rfl, trivial,
                      fun hprepared => hprepared⟩
              | _ => exact ⟨by trivial, rfl, rfl, by trivial, rfl, trivial,
                  fun hprepared => hprepared⟩
      | _ => simp [hphase] at hgenerate

theorem UploadParty.Tracked.generate {key : StorageKey} (htracked : party.Tracked store)
    (hgenerate : party.generate store key report = some (next, moved)) :
    next = store ∧ moved.Tracked store ∧
      ∀ other : UploadParty, party.Apart other → moved.Apart other := by
  obtain ⟨hsame, hpending, hdeletion, hheld, hwriting, hflagged, hprepared⟩ :=
    UploadParty.generate_quiet hgenerate
  have hown : moved.own = party.own := by
    unfold UploadParty.own
    rw [hpending]
  have hnone : moved.held = [] := by
    rw [UploadParty.held_eq, hdeletion]
    rfl
  refine ⟨hsame, ?_, ?_⟩
  · constructor
    · rw [hown]
      exact htracked.issued
    · rw [hpending]
      exact htracked.kept
    · rw [hwriting]
      exact fun candidate hcandidate => by cases hcandidate
    · exact hflagged
    · rw [hdeletion]
      exact fun deletion hfound => by cases hfound
    · rw [hnone]
      exact fun id hid => by cases hid
    · exact hprepared htracked.prepared
  · intro other hapart
    refine ⟨?_, ?_⟩
    · rw [hown]
      exact hapart.own
    · rw [hnone]
      exact fun id hid => by cases hid

/-- A step keeps what its party and every other party know. -/
theorem UploadParty.Tracked.act (hsound : store.Sound) (htracked : party.Tracked store)
    (hact : party.act platform store label = some (next, moved)) :
    next.Sound ∧ moved.Tracked next ∧
      ∀ other : UploadParty, other.Tracked store → party.Apart other →
        other.Tracked next ∧ moved.Apart other := by
  cases label with
  | generate key report =>
      obtain ⟨rfl, hmoved, hapart⟩ := htracked.generate hact
      exact ⟨hsound, hmoved, fun other hother hfirst => ⟨hother, hapart other hfirst⟩⟩
  | transact context report =>
      obtain ⟨transaction, htransaction, htransact⟩ := Option.bind_eq_some_iff.mp hact
      exact htracked.transact hsound htransaction htransact
  | store results =>
      exact htracked.call hsound (UploadParty.callStorage_called htracked hact)
  | crash =>
      cases hact
      exact htracked.call hsound (UploadParty.crash_called htracked.prepared)

theorem UploadParty.Starts.tracked (hstarts : party.Starts platform store) :
    party.Tracked store ∧ party.own = [] ∧ party.held = [] := by
  cases hstarts with
  | @upload dashboardId createdById payloads names hchecked =>
      have hquiet : (UploadSession.start dashboardId createdById
          (payloads.zip names)).phase.deletion? = none ∧
            (UploadSession.start dashboardId createdById (payloads.zip names)).phase.writing? =
              none ∧ (UploadSession.start dashboardId createdById
                (payloads.zip names)).phase.Flagged :=
        UploadSession.deletion_next
      have hpending : (UploadSession.start dashboardId createdById (payloads.zip names)).pending =
          [] := UploadSession.pending_next
      have hheld : (UploadParty.upload
          (UploadSession.start dashboardId createdById (payloads.zip names))).held = [] := by
        rw [UploadParty.held_eq]
        exact congrArg (fun found => (Option.map OpenDeletion.reservationId found).toList) hquiet.1
      have hown : (UploadParty.upload
          (UploadSession.start dashboardId createdById (payloads.zip names))).own = [] := by
        rw [UploadParty.own, UploadParty.pending, hpending]
        rfl
      refine ⟨?_, hown, hheld⟩
      constructor
      · rw [hown]
        exact fun id hid => by cases hid
      · rw [UploadParty.pending, hpending]
        exact fun candidate hcandidate => by cases hcandidate
      · intro candidate hcandidate
        have hnone := hquiet.2.1.symm.trans hcandidate
        cases hnone
      · exact hquiet.2.2
      · intro deletion hdeletion
        have hnone := hquiet.1.symm.trans hdeletion
        cases hnone
      · rw [hheld]
        exact fun id hid => by cases hid
      · exact ⟨fun item hitem => (by cases hitem), fun candidate hcandidate => by cases hcandidate⟩
  | cleanup hlimit =>
      refine ⟨?_, rfl, rfl⟩
      constructor
      · exact fun id hid => by cases hid
      · exact fun candidate hcandidate => by cases hcandidate
      · exact fun candidate hcandidate => by cases hcandidate
      · trivial
      · exact fun deletion hdeletion => by cases hdeletion
      · exact fun id hid => by cases hid
      · trivial

theorem UploadParty.Tracked.environment {db : Db} (hsound : store.Sound)
    (hartifacts : db.artifacts = store.db.artifacts)
    (hreservations : db.reservations = store.db.reservations) :
    UploadStore.Sound { store with db := db } ∧
      ∀ party : UploadParty, party.Tracked store → party.Tracked { store with db := db } := by
  have hstep : ReservationStep store.files [] [] [] store.db db :=
    .same hsound hartifacts hreservations
  refine ⟨hstep.ledger hsound, fun party htracked => ?_⟩
  constructor
  · exact htracked.issued
  · exact fun candidate hcandidate =>
      hstep.candidate (htracked.kept candidate hcandidate) List.not_mem_nil
  · intro candidate hcandidate
    exact hstep.unwritten (htracked.kept candidate (UploadParty.writing_pending hcandidate))
      (htracked.writing candidate hcandidate) List.not_mem_nil
  · exact htracked.flagged
  · exact fun deletion hdeletion =>
      hstep.deletion hsound (htracked.deletion deletion hdeletion) List.not_mem_nil
  · exact htracked.held
  · exact htracked.prepared

theorem UploadStore.sound_initial (hinitial : (uploadSystem platform).initial store) :
    store.Sound := by
  obtain ⟨hartifacts, _, hreservations, hfiles, _, _⟩ := hinitial
  have hnone : ∀ row, row ∉ store.db.reservations := by
    intro row hrow
    rw [Table.mem_def, hreservations] at hrow
    cases hrow
  have hunused : ∀ key, ¬ KeyStored store.files key := by
    intro key hstored
    cases hstored with
    | inl hfinal => exact hfinal (hfiles key).1
    | inr hpending => exact hpending (hfiles key).2
  exact ⟨fun first hfirst => absurd hfirst (hnone first), fun key hstored =>
    absurd hstored (hunused key), fun row hrow => absurd hrow (hnone row), fun row hrow =>
      absurd hrow (hnone row)⟩

theorem uploadSystem_invariant : (uploadSystem platform).Invariant UploadStore.Sound
    (fun store party => party.Tracked store) UploadParty.Apart where
  initial := fun hinitial => @UploadStore.sound_initial platform _ hinitial
  environment := by
    intro store next hchange hsound
    obtain ⟨db, rfl, hartifacts, _, hreservations⟩ := hchange
    exact UploadParty.Tracked.environment hsound hartifacts hreservations
  start := by
    intro store party hstart _
    obtain ⟨htracked, hown, hheld⟩ := UploadParty.Starts.tracked hstart
    refine ⟨htracked, fun other _ => ⟨?_, ?_⟩⟩
    · rw [hown]
      exact fun id hid => by cases hid
    · rw [hheld]
      exact fun id hid => by cases hid
  act := by
    intro store next party moved label hact hsound htracked
    have hkept := htracked.act hsound hact
    exact ⟨hkept.1, hkept.2.1⟩
  frame := by
    intro store next party moved other label hact hsound htracked hother hapart _
    exact (htracked.act hsound hact).2.2 other hother hapart
  symmetric := by
    intro first second hapart
    exact ⟨fun id hsecond hfirst => hapart.own id hfirst hsecond,
      fun id hsecond hfirst => hapart.held id hfirst hsecond⟩

/-- In every state that uploads and cleanup jobs reach, every pending or final file has a key
that an artifact or a reservation carries. -/
theorem no_orphan_bytes {state : Configuration UploadStore UploadParty} {key : StorageKey}
    (hreach : (uploadSystem platform).Reachable state)
    (hstored : KeyStored state.store.files key) :
    state.store.db.artifactOwns key.value = true ∨
      ∃ row ∈ state.store.db.reservations, row.storageKey = key.value :=
  (uploadSystem_invariant.holds hreach).store.covered key hstored

end Runs

/-- A new installation with two users and one project. -/
def sampleUploadStore : UploadStore where
  db := runCalls asciiPlatform (revisionCalls.take 3)
  files := emptyStorage
  locked := []
  issued := []

def samplePayload : ArtifactPayload where
  kind := .html
  logicalName := "index.html".toList
  chunks := [.bytes (repeatedToken 'A')]
  expectedSize := 43
  expectedSha256 := tokenDigest (repeatedToken 'A')
  mediaType := none

/-- An upload of one file to the project. -/
def sampleUpload : UploadSession :=
  .start 3 1 ([samplePayload].zip [⟨"index.html".toList, "index.html".toList⟩])

def sampleConfiguration : Configuration UploadStore UploadParty :=
  ⟨sampleUploadStore, [.upload sampleUpload]⟩

theorem sampleUploadStore_initial (platform : Platform) :
    (uploadSystem platform).initial sampleUploadStore :=
  ⟨by decide +kernel, by decide +kernel, by decide +kernel, fun _ => ⟨rfl, rfl⟩, rfl, rfl⟩

theorem sampleConfiguration_run
    {spares : UploadStore → UploadParty → UploadLabel → UploadParty → Prop}
    {state : Configuration UploadStore UploadParty} {steps : List (ℕ × UploadLabel)}
    (halone : ∀ step ∈ steps, step.1 = 0)
    (hrun : (uploadSystem asciiPlatform).run sampleConfiguration steps = some state) :
    ((uploadSystem asciiPlatform).sparing spares).Reachable state := by
  have hstarts : UploadParty.Starts asciiPlatform sampleUploadStore (.upload sampleUpload) :=
    .upload (by decide +kernel)
  exact PartySystem.Reachable.run_alone (sampleUploadStore_initial asciiPlatform) hstarts halone
    hrun

/-- The upload dies while it writes its file. -/
def crashedSteps : List (ℕ × UploadLabel) :=
  [(0, .generate sampleReceipt.key .answered), (0, .transact (contextAt 3 4) .answered),
    (0, .store (List.replicate 20 (.succeeded 43)))]

theorem crashed_upload_is_covered :
    ∃ state, (uploadSystem asciiPlatform).run sampleConfiguration crashedSteps = some state ∧
      KeyStored state.store.files sampleReceipt.key ∧
        (state.store.db.artifactOwns sampleReceipt.key.value = true ∨
          ∃ row ∈ state.store.db.reservations, row.storageKey = sampleReceipt.key.value) := by
  have hpending : ((uploadSystem asciiPlatform).run sampleConfiguration crashedSteps).map
      (fun state => state.store.files.read sampleReceipt.key.pendingPath) =
        some (some (repeatedToken 'A')) := by
    decide +kernel
  obtain ⟨state, hrun, hread⟩ := Option.map_eq_some_iff.mp hpending
  have hstored : KeyStored state.store.files sampleReceipt.key := by
    right
    rw [hread]
    exact Option.some_ne_none _
  have hreach : ((uploadSystem asciiPlatform).sparing fun _ _ _ _ => True).Reachable state :=
    sampleConfiguration_run (by decide) hrun
  exact ⟨state, hrun, hstored, no_orphan_bytes hreach.of_sparing hstored⟩

end Agora
