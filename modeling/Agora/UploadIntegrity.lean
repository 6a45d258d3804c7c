import Agora.CommittedBytes
import Agora.UploadAgreement

/-!
# Upload integrity

An upload that has been answered has delivered its payloads: its revision has one artifact for
each of them, whose file holds exactly the bytes of the payload.  The commit relies on the
reservations: one that still vouches has its bytes in the storage, unless a cleanup transaction
has deleted them and then ended without its commit.
-/

namespace Agora

open Transaction

/-! ## Verified writes -/

/-- The receipt has the size and the digest that its payload was announced with. -/
def StoredArtifact.Expected (payload : ArtifactPayload) (receipt : StoredArtifact) : Prop :=
  (receipt.byteSize : ℤ) = payload.expectedSize ∧ receipt.sha256 = payload.expectedSha256

/-- A size and a digest are those that a write expects. -/
def WriteCall.Expects (call : WriteCall) (byteSize : ℕ) (digest : Text) : Prop :=
  (∀ size ∈ call.expectedSize, (byteSize : ℤ) = size) ∧
    ∀ expected ∈ call.expectedSha256, digest = expected

/-- A write whose stream has ended has received what it expects. -/
def WriteCall.Verified (sha256 : Bytes → Text) (call : WriteCall) : Prop :=
  match call.phase with
  | .syncingFile _ received | .rewinding _ received | .readingBack _ received _ =>
      call.Expects received.length (sha256 received)
  | .closing _ receipt | .linking receipt | .unlinkingPending receipt
  | .syncingDirectory receipt => call.Expects receipt.byteSize receipt.sha256
  | .finished (.returned receipt) => call.Expects receipt.byteSize receipt.sha256
  | _ => True

section Writes

variable {sha256 : Bytes → Text} {files : StorageFiles} {call : WriteCall} {result : SystemResult}

theorem WriteCall.expects_of_refusedStream {received : Bytes}
    (hpasses : call.refusedStream sha256 received = none) :
    call.Expects received.length (sha256 received) := by
  unfold refusedStream at hpasses
  split at hpasses
  · cases hpasses
  · rename_i hsize
    split at hpasses
    · cases hpasses
    · rename_i hdigest
      constructor
      · intro size hexpected
        have hfound : call.expectedSize = some size := hexpected
        simp only [hfound, Option.any_some, bne_iff_ne, ne_eq, not_not] at hsize
        exact hsize.symm
      · intro digest hexpected
        have hfound : call.expectedSha256 = some digest := hexpected
        simpa [hfound] using hdigest

theorem WriteCall.nextChunk_verified {descriptor : Inode} {received : Bytes} :
    (call.nextChunk sha256 descriptor received).Verified sha256 := by
  unfold nextChunk
  split
  · split
    · trivial
    · rename_i hpasses
      exact expects_of_refusedStream hpasses
  · trivial
  · trivial
  · rename_i chunk rest _
    split
    · trivial
    · cases chunk <;> trivial

theorem WriteCall.readback_verified {descriptor : Inode} {received stored content : Bytes}
    {count : ℕ} (hexpects : call.Expects received.length (sha256 received)) :
    (call.readback sha256 descriptor received stored content count).Verified sha256 := by
  unfold readback
  split
  · split
    · trivial
    · exact hexpects
  · exact hexpects

theorem advance_verified (hverified : call.Verified sha256) :
    (advance sha256 files call result).2.Verified sha256 := by
  cases hphase : call.phase with
  | validatingExpectations =>
      simp only [advance, hphase]
      split
      · trivial
      · cases call.key.directories <;> trivial
  | streaming descriptor received =>
      simp only [advance, hphase]
      exact WriteCall.nextChunk_verified
  | readingBack descriptor received stored =>
      simp only [WriteCall.Verified, hphase] at hverified
      cases result with
      | succeeded count =>
          simp only [advance, hphase]
          exact WriteCall.readback_verified hverified
      | _ =>
          simp only [advance, hphase]
          trivial
  | writingChunk descriptor received remaining =>
      cases result with
      | succeeded count =>
          simp only [advance, hphase]
          split
          · trivial
          · cases remaining.drop count <;> trivial
      | _ =>
          simp only [advance, hphase]
          trivial
  | resolvingDirectory created rest =>
      cases result with
      | succeeded count =>
          cases created with
          | true =>
              simp only [advance, hphase]
              trivial
          | false =>
              simp only [advance, hphase]
              cases rest <;> trivial
      | _ => cases created <;> simp only [advance, hphase] <;> trivial
  | syncingParent rest =>
      cases result with
      | succeeded count =>
          simp only [advance, hphase]
          cases rest <;> trivial
      | _ =>
          simp only [advance, hphase]
          trivial
  | creatingDirectory directory rest =>
      cases result with
      | succeeded count =>
          simp only [advance, hphase]
          split <;> trivial
      | _ =>
          simp only [advance, hphase]
          trivial
  | openingPending =>
      cases result with
      | succeeded count =>
          simp only [advance, hphase]
          split <;> trivial
      | _ =>
          simp only [advance, hphase]
          trivial
  | unlinkingAfterFailure error =>
      cases result with
      | succeeded count =>
          simp only [advance, hphase]
          split <;> trivial
      | _ =>
          simp only [advance, hphase]
          trivial
  | linking receipt | unlinkingPending receipt =>
      simp only [WriteCall.Verified, hphase] at hverified
      cases result with
      | succeeded count =>
          simp only [advance, hphase]
          split
          · exact hverified
          all_goals trivial
      | _ =>
          simp only [advance, hphase]
          trivial
  | finished outcome =>
      simp only [advance, hphase]
      exact hverified
  | _ =>
      simp only [WriteCall.Verified, hphase] at hverified
      cases result <;> simp only [advance, hphase] <;> first | exact hverified | trivial

theorem WriteCall.nextChunk_expectations {descriptor : Inode} {received : Bytes} :
    (call.nextChunk sha256 descriptor received).expectedSize = call.expectedSize ∧
      (call.nextChunk sha256 descriptor received).expectedSha256 = call.expectedSha256 := by
  unfold nextChunk
  split
  · split <;> exact ⟨rfl, rfl⟩
  · exact ⟨rfl, rfl⟩
  · exact ⟨rfl, rfl⟩
  · split <;> exact ⟨rfl, rfl⟩

theorem WriteCall.readback_expectations {descriptor : Inode} {received stored content : Bytes}
    {count : ℕ} :
    (call.readback sha256 descriptor received stored content count).expectedSize =
        call.expectedSize ∧
      (call.readback sha256 descriptor received stored content count).expectedSha256 =
        call.expectedSha256 := by
  unfold readback
  split
  · split <;> exact ⟨rfl, rfl⟩
  · exact ⟨rfl, rfl⟩

theorem advance_expectations :
    (advance sha256 files call result).2.expectedSize = call.expectedSize ∧
      (advance sha256 files call result).2.expectedSha256 = call.expectedSha256 := by
  unfold advance
  split
  all_goals
    first
      | exact WriteCall.nextChunk_expectations
      | exact WriteCall.readback_expectations
      | ((try split) <;> exact ⟨rfl, rfl⟩)

/-- A returned write has received what it was told to expect. -/
theorem writeAlone_expected {results : List SystemResult} {receipt : StoredArtifact}
    (hverified : call.Verified sha256)
    (hphase : (writeAlone sha256 files call results).2.phase = .finished (.returned receipt)) :
    call.Expects receipt.byteSize receipt.sha256 := by
  induction results generalizing files call with
  | nil =>
      have hend : call.phase = .finished (.returned receipt) := hphase
      simpa only [WriteCall.Verified, hend] using hverified
  | cons result rest ih =>
      have hlast := ih (advance_verified hverified) hphase
      have hsame := @advance_expectations sha256 files call result
      unfold WriteCall.Expects at hlast ⊢
      rwa [hsame.1, hsame.2] at hlast

end Writes

/-! ## What an upload commits with -/

/-- The file of an artifact holds bytes of its size and digest. -/
def Artifact.Backed (sha256 : Bytes → Text) (files : StorageFiles) (artifact : Artifact) : Prop :=
  ∃ (key : StorageKey) (bytes : Bytes), key.value = artifact.storageKey ∧
    files.read key.finalPath = some bytes ∧ artifact.byteSize = bytes.length ∧
      artifact.sha256 = sha256 bytes

/-- What an upload commits with: a reservation, the receipt of its write and the payload. -/
structure Reliance where
  reservationId : Uuid
  receipt : StoredArtifact
  payload : ArtifactPayload

/-- The final file of the receipt holds the bytes of the payload, which the receipt describes. -/
def Reliance.Stored (sha256 : Bytes → Text) (files : StorageFiles) (entry : Reliance) : Prop :=
  ∃ bytes, payloadOf entry.payload.chunks = some bytes ∧
    entry.receipt = .of sha256 entry.receipt.key bytes ∧
      files.read entry.receipt.key.finalPath = some bytes

def PreparedArtifact.reliance (item : PreparedArtifact) (payload : ArtifactPayload × LogicalName) :
    Reliance where
  reservationId := item.reservationId
  receipt := item.receipt
  payload := payload.1

def UploadSession.reliances (session : UploadSession) : List Reliance :=
  List.zipWith PreparedArtifact.reliance session.prepared session.payloads

/-- What an upload may still commit with. -/
def UploadSession.relied (session : UploadSession) : List Reliance :=
  match session.phase with
  | .reserving _ => session.reliances
  | .inserting _ _ => session.reliances
  | .writing _ => session.reliances
  | .markingVerified candidate receipt =>
      session.reliances ++
        session.current?.toList.map fun payload => ⟨candidate.reservationId, receipt, payload.1⟩
  | .committing => session.reliances
  | _ => []

def UploadParty.relied : UploadParty → List Reliance
  | .upload session => session.relied
  | .cleanup _ => []

/-- A reservation that still vouches, that no transaction has locked and whose key no artifact
has. -/
structure UploadStore.Vouches (store : UploadStore) (id : Uuid) (receipt : StoredArtifact) :
    Prop where
  row : ∃ row, store.db.reservations.get? id = some row ∧ row.cleanupRequired = false
  free : store.db.artifactOwns receipt.key.value = false
  unlocked : id ∉ store.locked

/-- Whatever an upload relies on is stored, as long as its reservation vouches. -/
structure UploadParty.Relies (sha256 : Bytes → Text) (store : UploadStore) (party : UploadParty) :
    Prop where
  backed : ∀ entry ∈ party.relied, store.Vouches entry.reservationId entry.receipt →
    entry.Stored sha256 store.files
  keyed : ∀ entry ∈ party.relied, ∃ candidate ∈ party.pending,
    candidate.reservationId = entry.reservationId ∧ candidate.key = entry.receipt.key

/-- A step unlocks a reservation that its transaction had locked to delete the bytes, and the
reservation still vouches. -/
def UploadStore.Abandons (platform : Platform) (store : UploadStore) (party : UploadParty)
    (label : UploadLabel) (id : Uuid) : Prop :=
  id ∈ party.held ∧ ∃ next moved, party.act platform store label = some (next, moved) ∧
    id ∉ moved.held ∧
      ∃ row, next.db.reservations.get? id = some row ∧ row.cleanupRequired = false

/-- A step abandons no reservation that another upload is going to commit with. -/
def UploadStore.Spares (platform : Platform) (store : UploadStore) (party : UploadParty)
    (label : UploadLabel) (other : UploadParty) : Prop :=
  ∀ entry ∈ other.relied, ¬ store.Abandons platform party label entry.reservationId

/-- `Abandons`, computed. -/
def UploadStore.abandons (platform : Platform) (store : UploadStore) (party : UploadParty)
    (label : UploadLabel) (id : Uuid) : Bool :=
  decide (id ∈ party.held) && (party.act platform store label).any fun result =>
    decide (id ∉ result.2.held) && (result.1.db.reservations.get? id).any fun row =>
      !row.cleanupRequired

theorem UploadStore.abandons_iff {platform : Platform} {store : UploadStore} {party : UploadParty}
    {label : UploadLabel} {id : Uuid} : store.abandons platform party label id = true ↔
      store.Abandons platform party label id := by
  rw [abandons, Abandons, Bool.and_eq_true, decide_eq_true_eq, Option.any_eq_true]
  constructor
  · intro habandons
    obtain ⟨hheld, result, hact, hresult⟩ := habandons
    rw [Bool.and_eq_true, decide_eq_true_eq, Option.any_eq_true] at hresult
    obtain ⟨hleft, row, hrow, hvouches⟩ := hresult
    rw [Bool.not_eq_true'] at hvouches
    exact ⟨hheld, result.1, result.2, hact, hleft, row, hrow, hvouches⟩
  · intro habandons
    obtain ⟨hheld, next, moved, hact, hleft, row, hrow, hvouches⟩ := habandons
    refine ⟨hheld, (next, moved), hact, ?_⟩
    rw [Bool.and_eq_true, decide_eq_true_eq, Option.any_eq_true]
    refine ⟨hleft, row, hrow, ?_⟩
    rw [hvouches, Bool.not_false]

instance (platform : Platform) (store : UploadStore) (party : UploadParty) (label : UploadLabel)
    (other : UploadParty) : Decidable (store.Spares platform party label other) :=
  decidable_of_iff
    (∀ entry ∈ other.relied, ¬ store.abandons platform party label entry.reservationId = true)
    (forall₂_congr fun _ _ => not_congr UploadStore.abandons_iff)

instance (platform : Platform) (store : UploadStore) (party : UploadParty) (label : UploadLabel)
    (other : UploadParty) :
    Decidable (((uploadSystem platform).sparing (UploadStore.Spares platform)).spares store party
      label other) :=
  inferInstanceAs (Decidable (True ∧ store.Spares platform party label other))

def UploadStore.Backed (sha256 : Bytes → Text) (store : UploadStore) : Prop :=
  ∀ artifact ∈ store.db.artifacts, artifact.Backed sha256 store.files

section Integrity

variable {platform : Platform} {context : CallContext} {store next : UploadStore}
  {party moved other : UploadParty} {label : UploadLabel} {session : UploadSession}
  {results : List SystemResult} {transaction : PartyTransaction} {before after : Db}

/-! ## What an upload relies on -/

theorem zipWith_append_single {α β γ : Type} {combine : α → β → γ} {first : List α}
    {second : List β} {last : α} {next : β} (hnext : second[first.length]? = some next) :
    List.zipWith combine (first ++ [last]) second =
      List.zipWith combine first second ++ [combine last next] := by
  induction first generalizing second with
  | nil =>
      cases second with
      | nil => cases hnext
      | cons head tail =>
          cases hnext
          cases tail <;> rfl
  | cons item rest ih =>
      cases second with
      | nil => cases hnext
      | cons head tail =>
          have hrest : tail[rest.length]? = some next := by simpa using hnext
          rw [List.cons_append, List.zipWith_cons_cons, List.zipWith_cons_cons, ih hrest]
          rfl

theorem UploadSession.relied_next : session.next.relied = session.reliances := by
  unfold next
  split <;> rfl

theorem UploadSession.held_of_relied {entry : Reliance}
    (hentry : entry ∈ session.relied) : (UploadParty.upload session).held = [] := by
  unfold relied at hentry
  simp only [UploadParty.held]
  cases hphase : session.phase with
  | deleting candidate rest | deleted candidate rest removed =>
      rw [hphase] at hentry
      cases hentry
  | _ => rfl

theorem UploadSession.retry_relied {entry : Reliance} {attempts : ℕ}
    (hentry : entry ∈ (session.retry attempts).relied) :
    entry ∈ session.reliances := by
  cases attempts with
  | zero => cases hentry
  | succ attempts => exact hentry

/-- What a moved upload relies on it has relied on before, and it still has its candidates. -/
structure UploadParty.RelyingOn (party moved : UploadParty) (entry : Reliance) :
    Prop where
  before : entry ∈ party.relied
  pending : ∀ candidate ∈ party.pending, ∃ known ∈ moved.pending,
    known.reservationId = candidate.reservationId ∧ known.key = candidate.key

theorem UploadSession.prepare_relied {tables : UnicodeTables} {candidate : CleanupCandidate}
    {receipt : StoredArtifact} {entry : Reliance}
    (hphase : session.phase = .markingVerified candidate receipt)
    (hentry : entry ∈ (session.prepare tables candidate receipt).relied) :
    UploadParty.RelyingOn (.upload session)
      (.upload (session.prepare tables candidate receipt)) entry := by
  unfold prepare at hentry ⊢
  cases hcurrent : session.current? with
  | none =>
      rw [hcurrent] at hentry
      cases hentry
  | some payload =>
      rw [hcurrent] at hentry
      dsimp only at hentry ⊢
      cases hmedia : authoritativeMediaType tables payload.1 with
      | error message =>
          rw [hmedia] at hentry
          cases hentry
      | ok mediaType =>
          rw [hmedia] at hentry
          dsimp only at hentry
          rw [relied_next] at hentry
          have hreliances := @zipWith_append_single _ _ _ PreparedArtifact.reliance
            session.prepared session.payloads {
              reservationId := candidate.reservationId
              name := payload.2
              kind := payload.1.kind
              receipt := receipt
              mediaType := mediaType } payload hcurrent
          constructor
          · simp only [UploadParty.relied, relied, hphase, hcurrent]
            rw [reliances, hreliances] at hentry
            exact hentry
          · intro known hknown
            refine ⟨known, ?_, rfl, rfl⟩
            simp only [UploadParty.pending, pending, hphase] at hknown
            dsimp only
            rw [UploadParty.pending, pending_next]
            exact hknown

theorem UploadSession.transaction_relied {entry : Reliance}
    (htransaction : session.transaction? platform context = some transaction)
    (hruns : transaction.body.Runs before moved after) (hentry : entry ∈ moved.relied) :
    UploadParty.RelyingOn (.upload session) moved entry := by
  unfold UploadSession.transaction? at htransaction
  cases hphase : session.phase with
  | inserting attempts key =>
      have hpending : (UploadParty.upload session).pending = session.candidates := by
        simp only [UploadParty.pending, pending, hphase]
      have hrelied : (UploadParty.upload session).relied =
          session.reliances := by
        simp only [UploadParty.relied, relied, hphase]
      simp only [hphase, Option.some.injEq] at htransaction
      subst htransaction
      simp only [runs_bind, runs_pure] at hruns
      obtain ⟨result, middle, _, rfl, _⟩ := hruns
      cases result with
      | none =>
          constructor
          · rw [hrelied]
            exact retry_relied hentry
          · intro known hknown
            refine ⟨known, ?_, rfl, rfl⟩
            rw [hpending] at hknown
            simpa only [UploadParty.pending, reserved, pending_retry] using hknown
      | some row =>
          constructor
          · rw [hrelied]
            exact hentry
          · intro known hknown
            rw [hpending] at hknown
            exact ⟨known, List.mem_append_left _ hknown, rfl, rfl⟩
  | markingVerified candidate receipt =>
      simp only [hphase, Option.some.injEq] at htransaction
      subst htransaction
      simp only [runs_bind, runs_pure] at hruns
      obtain ⟨done, middle, _, rfl, _⟩ := hruns
      exact prepare_relied hphase hentry
  | cleaning candidates =>
      cases candidates with
      | nil => simp [hphase] at htransaction
      | cons candidate rest =>
          simp only [hphase, Option.some.injEq] at htransaction
          subst htransaction
          simp only [runs_bind, runs_pure] at hruns
          obtain ⟨decision, middle, _, rfl, _⟩ := hruns
          cases decision <;> cases hentry
  | markingCommitted candidate receipt =>
      simp only [hphase, Option.some.injEq] at htransaction
      subst htransaction
      simp only [runs_bind, runs_pure] at hruns
      obtain ⟨done, middle, _, rfl, _⟩ := hruns
      cases hentry
  | markingCollision candidate | markingCleanupRequired candidate =>
      simp only [hphase, Option.some.injEq] at htransaction
      subst htransaction
      simp only [runs_bind, runs_pure] at hruns
      obtain ⟨done, middle, _, rfl, _⟩ := hruns
      cases hentry
  | committing =>
      simp only [hphase, Option.some.injEq] at htransaction
      subst htransaction
      simp only [runs_bind, runs_pure] at hruns
      obtain ⟨done, middle, _, rfl, _⟩ := hruns
      cases hentry
  | deleted candidate rest removed =>
      simp only [hphase, Option.some.injEq] at htransaction
      subst htransaction
      simp only [runs_bind, runs_pure] at hruns
      obtain ⟨done, middle, _, rfl, _⟩ := hruns
      cases hentry
  | _ => simp [hphase] at htransaction

/-- The caller of a transaction learns its result, or it is told of an error. -/
theorem UploadStore.transact_moved {report : CommitReport}
    (htransact : store.transact party transaction report = some (next, moved)) :
    moved = transaction.onFailure ∨ transaction.body.Runs store.db moved next.db := by
  unfold UploadStore.transact at htransact
  split at htransact
  · cases htransact
  · split at htransact
    · simp only [Option.some.injEq, Prod.mk.injEq] at htransact
      obtain ⟨rfl, rfl⟩ := htransact
      rcases reported_cases transaction.body store.db report with
        hfailed | ⟨value, after, hruns, _, hdb, hvalue⟩
      · rw [hfailed]
        exact .inl rfl
      · cases hvalue with
        | inl hsome =>
            rw [hdb, hsome]
            exact .inr hruns
        | inr hnone =>
            rw [hnone]
            exact .inl rfl
    · cases htransact

theorem UploadSession.onFailure_relied
    (htransaction : session.transaction? platform context = some transaction) :
    transaction.onFailure.relied = [] := by
  unfold UploadSession.transaction? at htransaction
  cases hphase : session.phase with
  | cleaning candidates =>
      cases candidates with
      | nil => simp [hphase] at htransaction
      | cons candidate rest =>
          simp only [hphase, Option.some.injEq] at htransaction
          subst htransaction
          rfl
  | inserting attempts key | markingVerified candidate receipt | markingCommitted candidate receipt
  | markingCollision candidate | markingCleanupRequired candidate | committing
  | deleted candidate rest removed =>
      simp only [hphase, Option.some.injEq] at htransaction
      subst htransaction
      rfl
  | _ => simp [hphase] at htransaction

/-- A job stays a job. -/
theorem CleanupJob.act_cleanup {job : CleanupJob}
    (hact : (UploadParty.cleanup job).act platform store label = some (next, moved)) :
    ∃ later, moved = .cleanup later := by
  cases label with
  | generate key report => cases hact
  | crash =>
      cases hact
      exact ⟨_, rfl⟩
  | store results =>
      obtain ⟨_, _, _, _, _, hanswer⟩ := job.callStorage_deletes hact
      cases hanswer with
      | inl hdied => exact ⟨_, hdied.2⟩
      | inr hanswered => exact ⟨_, hanswered.choose_spec.2⟩
  | transact context report =>
      obtain ⟨transaction, htransaction, htransact⟩ := Option.bind_eq_some_iff.mp hact
      have hmoved := UploadStore.transact_moved htransact
      have hjob : job.transaction? = some transaction := htransaction
      unfold CleanupJob.transaction? at hjob
      cases hphase : job.phase with
      | deciding ids =>
          cases ids with
          | nil => simp [hphase] at hjob
          | cons reservationId rest =>
              simp only [hphase, Option.some.injEq] at hjob
              subst hjob
              cases hmoved with
              | inl hfailed => exact ⟨_, hfailed⟩
              | inr hruns =>
                  simp only [runs_bind, runs_pure] at hruns
                  obtain ⟨decision, middle, _, rfl, _⟩ := hruns
                  exact ⟨_, rfl⟩
      | deleted reservationId removed rest =>
          simp only [hphase, Option.some.injEq] at hjob
          subst hjob
          cases hmoved with
          | inl hfailed => exact ⟨_, hfailed⟩
          | inr hruns =>
              simp only [runs_bind, runs_pure] at hruns
              obtain ⟨done, middle, _, rfl, _⟩ := hruns
              exact ⟨_, rfl⟩
      | _ => simp [hphase] at hjob

theorem UploadSession.transact_relied {report : CommitReport} {entry : Reliance}
    (htransaction : session.transaction? platform context = some transaction)
    (htransact : store.transact (.upload session) transaction report = some (next, moved))
    (hentry : entry ∈ moved.relied) : UploadParty.RelyingOn (.upload session) moved entry := by
  cases UploadStore.transact_moved htransact with
  | inl hfailed =>
      rw [hfailed, session.onFailure_relied htransaction] at hentry
      cases hentry
  | inr hruns => exact session.transaction_relied htransaction hruns hentry

theorem UploadSession.generate_relied {key : StorageKey} {report : CommitReport}
    {entry : Reliance}
    (hgenerate : (UploadParty.upload session).generate store key report = some (next, moved))
    (hentry : entry ∈ moved.relied) : UploadParty.RelyingOn (.upload session) moved entry := by
  have hpending := (UploadParty.generate_quiet hgenerate).2.1
  refine ⟨?_, fun candidate hcandidate => ⟨candidate, by rwa [hpending], rfl, rfl⟩⟩
  simp only [UploadParty.generate] at hgenerate
  cases hphase : session.phase with
  | reserving attempts =>
      cases attempts with
      | zero => simp [hphase] at hgenerate
      | succ attempts =>
          simp only [hphase, Option.some.injEq, Prod.mk.injEq] at hgenerate
          obtain ⟨_, rfl⟩ := hgenerate
          simp only [UploadParty.relied, relied, hphase]
          cases report with
          | answered =>
              simp only [generated] at hentry
              split at hentry
              · exact retry_relied hentry
              · exact hentry
          | _ => cases hentry
  | _ => simp [hphase] at hgenerate

/-- A returned write has stored the bytes of the stream. -/
theorem WriteCall.Alone.returned {sha256 : Bytes → Text} {key : StorageKey} {chunks : List Chunk}
    {call : WriteCall} {files later : StorageFiles} {receipt : StoredArtifact}
    (halone : call.Alone sha256 key chunks files later)
    (hphase : call.phase = .finished (.returned receipt)) :
    receipt.key = key ∧ ∃ bytes, payloadOf chunks = some bytes ∧
      receipt = .of sha256 receipt.key bytes ∧ later.read receipt.key.finalPath = some bytes := by
  have htraced := halone.traced
  simp only [WriteCall.Traced, hphase, halone.key] at htraced
  obtain ⟨bytes, hreceipted, _, _, hread⟩ := htraced
  have hkey : receipt.key = key := by
    rw [hreceipted.2]
    rfl
  refine ⟨hkey, bytes, hreceipted.1, ?_, ?_⟩
  · rw [hkey]
    exact hreceipted.2
  · rw [hkey, hread, Function.update_self]

theorem UploadSession.written_relied {candidate : CleanupCandidate} {phase : WritePhase}
    {payload : ArtifactPayload × LogicalName} {entry : Reliance}
    (hcurrent : session.current? = some payload)
    (hentry : entry ∈ (session.written candidate phase).relied) :
    ∃ receipt, phase = .finished (.returned receipt) ∧ (entry ∈ session.reliances ∨
      entry = ⟨candidate.reservationId, receipt, payload.1⟩) := by
  cases phase with
  | finished outcome =>
      cases outcome with
      | returned receipt =>
          refine ⟨receipt, rfl, ?_⟩
          cases List.mem_append.mp hentry with
          | inl hold => exact .inl hold
          | inr hnew =>
              have hsame : (session.written candidate
                  (.finished (.returned receipt))).current? = some payload := hcurrent
              rw [hsame] at hnew
              exact .inr (List.mem_singleton.mp hnew)
      | committed receipt => cases hentry
      | raised error =>
          cases error with
          | storage kind message => cases kind <;> cases hentry
          | _ => cases hentry
  | _ => cases hentry

/-- What an upload relies on after a storage call. -/
theorem UploadSession.callStorage_relied {entry : Reliance}
    (hcall : session.callStorage platform store results = some (next, moved))
    (hentry : entry ∈ moved.relied) :
    (∀ candidate ∈ (UploadParty.upload session).pending, ∃ known ∈ moved.pending,
      known.reservationId = candidate.reservationId ∧ known.key = candidate.key) ∧
    (entry ∈ session.relied ∨ (entry.Stored platform.sha256 next.files ∧
      ∃ candidate ∈ (UploadParty.upload session).pending,
        candidate.reservationId = entry.reservationId ∧ candidate.key = entry.receipt.key)) := by
  cases hphase : session.phase with
  | deleting candidate rest =>
      cases (session.callStorage_deletes hphase hcall).2 with
      | inl hdied =>
          rw [hdied.2] at hentry
          cases hentry
      | inr hanswered =>
          obtain ⟨removed, _, hmoved⟩ := hanswered
          rw [hmoved] at hentry
          cases hentry
  | writing candidate =>
      have hpending : (UploadParty.upload session).pending = session.candidates ++ [candidate] := by
        simp only [UploadParty.pending, pending, hphase]
      obtain ⟨payload, last, hcurrent, _, halone, rfl, rfl⟩ :=
        session.callStorage_writes hphase hcall
      obtain ⟨receipt, hreturned, hkinds⟩ := written_relied hcurrent hentry
      rw [hpending]
      constructor
      · intro known hknown
        rw [hreturned]
        cases List.mem_append.mp hknown with
        | inl hold => exact ⟨known, List.mem_append_left _ hold, rfl, rfl⟩
        | inr hnew =>
            rw [List.mem_singleton.mp hnew]
            exact ⟨{ candidate with ownsBytes := true },
              List.mem_append_right _ (List.mem_singleton_self _), rfl, rfl⟩
      · cases hkinds with
        | inl hold =>
            left
            simpa only [relied, hphase] using hold
        | inr hnew =>
            obtain ⟨hkey, hstored⟩ := halone.returned hreturned
            rw [hnew]
            exact .inr ⟨hstored, candidate,
              List.mem_append_right _ (List.mem_singleton_self _), rfl,
              hkey.symm⟩
  | _ => simp [callStorage, hphase] at hcall

/-- What a party relies on after a step. -/
theorem UploadParty.act_relied {entry : Reliance}
    (hact : party.act platform store label = some (next, moved))
    (hentry : entry ∈ moved.relied) :
    (∀ candidate ∈ party.pending, ∃ known ∈ moved.pending,
      known.reservationId = candidate.reservationId ∧ known.key = candidate.key) ∧
    (entry ∈ party.relied ∨ (entry.Stored platform.sha256 next.files ∧
      ∃ candidate ∈ party.pending, candidate.reservationId = entry.reservationId ∧
        candidate.key = entry.receipt.key)) := by
  cases party with
  | cleanup job =>
      obtain ⟨later, rfl⟩ := job.act_cleanup hact
      cases hentry
  | upload session =>
      cases label with
      | generate key report =>
          have hrelying := session.generate_relied hact hentry
          exact ⟨hrelying.pending, .inl hrelying.before⟩
      | transact context report =>
          obtain ⟨transaction, htransaction, htransact⟩ := Option.bind_eq_some_iff.mp hact
          have hrelying := session.transact_relied htransaction htransact hentry
          exact ⟨hrelying.pending, .inl hrelying.before⟩
      | store results => exact session.callStorage_relied hact hentry
      | crash =>
          cases hact
          cases hentry

/-! ## The bytes behind the reservations -/

/-- A reservation that vouches after a step has vouched before it, unless the step has
abandoned it. -/
theorem UploadStore.Vouches.of_act {id : Uuid} {receipt : StoredArtifact}
    (hvouches : next.Vouches id receipt) (hsound : store.Sound) (htracked : party.Tracked store)
    (hact : party.act platform store label = some (next, moved)) (hissued : id ∈ store.issued)
    (hspared : ¬ store.Abandons platform party label id) : store.Vouches id receipt := by
  obtain ⟨⟨row, hget, hclean⟩, hfree, hunlocked⟩ := hvouches
  have hrelocked : next.locked = store.relocked party moved → id ∉ store.locked := by
    intro hlocked hbefore
    rw [hlocked, relocked, List.mem_append, not_or, List.mem_filter, not_and] at hunlocked
    have hheld : id ∈ party.held := by
      by_contra hnot
      exact hunlocked.2 hbefore (by simpa using hnot)
    exact hspared ⟨hheld, next, moved, hact, hunlocked.1, row, hget, hclean⟩
  have hkeeps := htracked.keepsCommitted hact
  have hbeforeFree : store.db.artifactOwns receipt.key.value = false := by
    cases howned : store.db.artifactOwns receipt.key.value with
    | false => rfl
    | true =>
        rw [hkeeps.owned howned] at hfree
        cases hfree
  cases label with
  | generate key report =>
      have hsame := (UploadParty.generate_quiet hact).1
      rw [hsame] at hget hunlocked
      exact ⟨⟨row, hget, hclean⟩, hbeforeFree, hunlocked⟩
  | transact context report =>
      obtain ⟨transaction, htransaction, htransact⟩ := Option.bind_eq_some_iff.mp hact
      obtain ⟨hstep, _, _, hlocked, _, hdrawn, _⟩ :=
        UploadStore.transact_cases hsound htracked htransaction htransact
      refine ⟨?_, hbeforeFree, hrelocked hlocked⟩
      cases hstep.rows id row hget with
      | inr hnew => exact absurd hissued (hdrawn id hnew.1)
      | inl hold =>
          obtain ⟨original, horiginal, hfollows⟩ := hold
          refine ⟨original, horiginal, ?_⟩
          cases hcleanup : original.cleanupRequired with
          | false => rfl
          | true =>
              rw [hfollows.cleanup hcleanup] at hclean
              cases hclean
  | store results =>
      have hcalled := UploadParty.callStorage_called htracked hact
      rw [hcalled.db] at hget
      exact ⟨⟨row, hget, hclean⟩, hbeforeFree, hrelocked hcalled.locked⟩
  | crash =>
      have hsame : next.db = store.db ∧ next.locked = store.relocked party moved := by
        cases hact
        exact ⟨rfl, rfl⟩
      rw [hsame.1] at hget
      exact ⟨⟨row, hget, hclean⟩, hbeforeFree, hrelocked hsame.2⟩

/-- A step leaves the bytes of a reservation that vouches. -/
theorem Reliance.Stored.act {candidate : CleanupCandidate} {entry : Reliance}
    {sha256 : Bytes → Text} (hstored : entry.Stored sha256 store.files) (hsound : store.Sound)
    (htracked : party.Tracked store)
    (hact : party.act platform store label = some (next, moved))
    (hkept : candidate.Kept store.db store.files)
    (hid : candidate.reservationId = entry.reservationId) (hkey : candidate.key = entry.receipt.key)
    (hvouches : store.Vouches entry.reservationId entry.receipt) :
    entry.Stored sha256 next.files := by
  obtain ⟨bytes, hpayload, hreceipt, hread⟩ := hstored
  cases UploadParty.act_finals hact entry.receipt.key bytes hread with
  | inl hleft => exact ⟨bytes, hpayload, hreceipt, hleft⟩
  | inr hdeleting =>
      obtain ⟨deletion, hdeletion, hdeleted⟩ := hdeleting
      obtain ⟨row, hget, hvalue, _⟩ := htracked.deletion deletion hdeletion
      obtain ⟨found, hfound, _⟩ := hvouches.row
      rw [← hid] at hfound
      have hsame : deletion.reservationId = candidate.reservationId := by
        apply Db.Ledger.get?_inj hsound hget hfound
        rw [hvalue entry.receipt.key hdeleted, (hkept found hfound).1, hkey]
      have hheld : deletion.reservationId ∈ party.held :=
        UploadParty.mem_held_iff.mpr ⟨deletion, hdeletion, rfl⟩
      rw [hsame, hid] at hheld
      exact absurd (htracked.held _ hheld) hvouches.unlocked

theorem UploadParty.Relies.act (hsound : store.Sound) (htracked : party.Tracked store)
    (hrelies : party.Relies platform.sha256 store)
    (hact : party.act platform store label = some (next, moved)) :
    moved.Relies platform.sha256 next := by
  have hkeyed : ∀ entry ∈ moved.relied, ∃ candidate ∈ party.pending,
      candidate.reservationId = entry.reservationId ∧ candidate.key = entry.receipt.key := by
    intro entry hentry
    cases (UploadParty.act_relied hact hentry).2 with
    | inl hold => exact hrelies.keyed entry hold
    | inr hnew => exact hnew.2
  constructor
  · intro entry hentry hvouches
    cases (UploadParty.act_relied hact hentry).2 with
    | inr hnew => exact hnew.1
    | inl hold =>
        obtain ⟨candidate, hcandidate, hid, hkey⟩ := hrelies.keyed entry hold
        have hissued : entry.reservationId ∈ store.issued := by
          rw [← hid]
          exact htracked.issued _ (UploadParty.mem_own hcandidate)
        have hunheld : party.held = [] := by
          cases party with
          | upload session => exact UploadSession.held_of_relied hold
          | cleanup job => cases hold
        have hspared : ¬ store.Abandons platform party label entry.reservationId := by
          intro habandons
          have hheld := habandons.1
          rw [hunheld] at hheld
          cases hheld
        have hbefore := hvouches.of_act hsound htracked hact hissued hspared
        exact (hrelies.backed entry hold hbefore).act hsound htracked hact
          (htracked.kept _ hcandidate) hid hkey hbefore
  · intro entry hentry
    obtain ⟨candidate, hcandidate, hid, hkey⟩ := hkeyed entry hentry
    obtain ⟨known, hknown, hsameId, hsameKey⟩ :=
      (UploadParty.act_relied hact hentry).1 candidate hcandidate
    exact ⟨known, hknown, hsameId.trans hid, hsameKey.trans hkey⟩

/-- A step of another party leaves what an upload relies on. -/
theorem UploadParty.Relies.frame (hsound : store.Sound) (htracked : party.Tracked store)
    (hact : party.act platform store label = some (next, moved)) (hother : other.Tracked store)
    (hrelies : other.Relies platform.sha256 store)
    (hspares : store.Spares platform party label other) : other.Relies platform.sha256 next := by
  refine ⟨fun entry hentry hvouches => ?_, hrelies.keyed⟩
  obtain ⟨candidate, hcandidate, hid, hkey⟩ := hrelies.keyed entry hentry
  have hissued : entry.reservationId ∈ store.issued := by
    rw [← hid]
    exact hother.issued _ (UploadParty.mem_own hcandidate)
  have hbefore := hvouches.of_act hsound htracked hact hissued (hspares entry hentry)
  exact (hrelies.backed entry hentry hbefore).act hsound htracked hact
    (hother.kept _ hcandidate) hid hkey hbefore

/-! ## From payloads to prepared artifacts -/

/-- A phase in which an upload has just stopped, or waits for its next transaction or call. -/
def UploadPhase.Plain : UploadPhase → Prop
  | .markingVerified _ _ => False
  | .committing => False
  | .finished _ => False
  | _ => True

/-- What an upload becomes in a step that takes the database from `before` to `after`. -/
inductive UploadSession.Continues (platform : Platform) (before after : Db)
    (session : UploadSession) : UploadSession → Prop
  | stopped {phase : UploadPhase} (hplain : phase.Plain) :
      Continues platform before after session (session.goto phase)
  | received {candidate : CleanupCandidate} {receipt : StoredArtifact}
      {payload : ArtifactPayload × LogicalName} (hcurrent : session.current? = some payload)
      (hexpected : receipt.Expected payload.1) :
      Continues platform before after session (session.goto (.markingVerified candidate receipt))
  | prepared {candidate : CleanupCandidate} {receipt : StoredArtifact}
      (hphase : session.phase = .markingVerified candidate receipt) :
      Continues platform before after session (session.prepare platform.unicode candidate receipt)
  | committed {context : CallContext} {revision : Revision}
      (hphase : session.phase = .committing)
      (hruns : (commitRevisionMetadata platform context session.dashboardId session.createdById
        session.prepared).Runs before revision after) :
      Continues platform before after session (session.goto (.finished revision))

theorem UploadSession.Continues.retry (attempts : ℕ) :
    session.Continues platform before after (session.retry attempts) := by
  cases attempts with
  | zero => exact .stopped trivial
  | succ attempts => exact .stopped trivial

theorem UploadSession.transaction_continues
    (htransaction : session.transaction? platform context = some transaction)
    (hruns : transaction.body.Runs before moved after) :
    ∃ later, moved = .upload later ∧ session.Continues platform before after later := by
  unfold UploadSession.transaction? at htransaction
  cases hphase : session.phase with
  | inserting attempts key =>
      simp only [hphase, Option.some.injEq] at htransaction
      subst htransaction
      simp only [runs_bind, runs_pure] at hruns
      obtain ⟨result, middle, _, rfl, _⟩ := hruns
      cases result with
      | none => exact ⟨_, rfl, .retry attempts⟩
      | some reservation => exact ⟨_, rfl, .stopped trivial⟩
  | markingVerified candidate receipt =>
      simp only [hphase, Option.some.injEq] at htransaction
      subst htransaction
      simp only [runs_bind, runs_pure] at hruns
      obtain ⟨done, middle, _, rfl, _⟩ := hruns
      exact ⟨_, rfl, .prepared hphase⟩
  | committing =>
      simp only [hphase, Option.some.injEq] at htransaction
      subst htransaction
      simp only [runs_bind, runs_pure] at hruns
      obtain ⟨revision, middle, hcommit, rfl, rfl⟩ := hruns
      exact ⟨_, rfl, .committed hphase hcommit⟩
  | cleaning candidates =>
      cases candidates with
      | nil => simp [hphase] at htransaction
      | cons candidate rest =>
          simp only [hphase, Option.some.injEq] at htransaction
          subst htransaction
          simp only [runs_bind, runs_pure] at hruns
          obtain ⟨decision, middle, _, rfl, _⟩ := hruns
          cases decision with
          | settled => exact ⟨_, rfl, .stopped trivial⟩
          | deleteBytes => exact ⟨_, rfl, .stopped trivial⟩
  | markingCommitted candidate receipt | markingCollision candidate
  | markingCleanupRequired candidate | deleted candidate rest removed =>
      simp only [hphase, Option.some.injEq] at htransaction
      subst htransaction
      simp only [runs_bind, runs_pure] at hruns
      obtain ⟨done, middle, _, rfl, _⟩ := hruns
      exact ⟨_, rfl, .stopped trivial⟩
  | _ => simp [hphase] at htransaction

theorem UploadSession.onFailure_continues
    (htransaction : session.transaction? platform context = some transaction) :
    ∃ later, transaction.onFailure = .upload later ∧
      session.Continues platform before after later := by
  unfold UploadSession.transaction? at htransaction
  cases hphase : session.phase with
  | cleaning candidates =>
      cases candidates with
      | nil => simp [hphase] at htransaction
      | cons candidate rest =>
          simp only [hphase, Option.some.injEq] at htransaction
          subst htransaction
          exact ⟨_, rfl, .stopped trivial⟩
  | inserting attempts key | markingVerified candidate receipt | markingCommitted candidate receipt
  | markingCollision candidate | markingCleanupRequired candidate | committing
  | deleted candidate rest removed =>
      simp only [hphase, Option.some.injEq] at htransaction
      subst htransaction
      exact ⟨_, rfl, .stopped trivial⟩
  | _ => simp [hphase] at htransaction

theorem UploadSession.written_continues {candidate : CleanupCandidate}
    {payload : ArtifactPayload × LogicalName} {call : WriteCall}
    (hcurrent : session.current? = some payload)
    (hexpected : ∀ receipt, call.phase = .finished (.returned receipt) →
      receipt.Expected payload.1) :
    session.Continues platform before after (session.written candidate call.phase) := by
  cases hphase : call.phase with
  | finished outcome =>
      cases outcome with
      | returned receipt => exact .received hcurrent (hexpected receipt hphase)
      | committed receipt => exact .stopped trivial
      | raised error =>
          cases error with
          | storage kind message => cases kind <;> exact .stopped trivial
          | _ => exact .stopped trivial
  | _ => exact .stopped trivial

theorem UploadSession.callStorage_continues
    (hcall : session.callStorage platform store results = some (next, moved)) :
    ∃ later, moved = .upload later ∧ session.Continues platform before after later := by
  cases hphase : session.phase with
  | writing candidate =>
      obtain ⟨payload, last, hcurrent, hlast, _, rfl, _⟩ := session.callStorage_writes hphase hcall
      refine ⟨_, rfl, written_continues hcurrent fun receipt hreturned => ?_⟩
      rw [← hlast] at hreturned
      have hstart : (WriteCall.start candidate.key payload.1.chunks (some payload.1.expectedSize)
          (some payload.1.expectedSha256)).Verified platform.sha256 := trivial
      obtain ⟨hsize, hdigest⟩ := writeAlone_expected hstart hreturned
      exact ⟨hsize _ rfl, hdigest _ rfl⟩
  | deleting candidate rest =>
      cases (session.callStorage_deletes hphase hcall).2 with
      | inl hdied => exact ⟨_, hdied.2, .stopped trivial⟩
      | inr hanswered =>
          obtain ⟨removed, _, hmoved⟩ := hanswered
          exact ⟨_, hmoved, .stopped trivial⟩
  | _ => simp [callStorage, hphase] at hcall

/-- An upload after one of its steps. -/
theorem UploadSession.act_continues
    (hact : (UploadParty.upload session).act platform store label = some (next, moved)) :
    ∃ later, moved = .upload later ∧ session.Continues platform store.db next.db later := by
  cases label with
  | generate key report =>
      simp only [UploadParty.act, UploadParty.generate] at hact
      cases hphase : session.phase with
      | reserving attempts =>
          cases attempts with
          | zero => simp [hphase] at hact
          | succ attempts =>
              simp only [hphase, Option.some.injEq, Prod.mk.injEq] at hact
              obtain ⟨rfl, rfl⟩ := hact
              refine ⟨_, rfl, ?_⟩
              cases report with
              | answered =>
                  simp only [generated]
                  split
                  · exact .retry attempts
                  · exact .stopped trivial
              | _ => exact .stopped trivial
      | _ => simp [hphase] at hact
  | transact context report =>
      obtain ⟨transaction, htransaction, htransact⟩ := Option.bind_eq_some_iff.mp hact
      cases UploadStore.transact_moved htransact with
      | inl hfailed =>
          rw [hfailed]
          exact session.onFailure_continues htransaction
      | inr hruns => exact session.transaction_continues htransaction hruns
  | store results => exact session.callStorage_continues hact
  | crash =>
      cases hact
      exact ⟨_, rfl, .stopped trivial⟩

/-- The names of the payloads are normalized, the prepared artifacts are those of the first
payloads, in order, and a commit has all of them. -/
structure UploadSession.Linked (platform : Platform) (session : UploadSession) : Prop where
  named : ∀ payload ∈ session.payloads,
    normalizeLogicalName platform.unicode payload.1.logicalName = .ok payload.2
  prepared : ∀ (index : ℕ) (item : PreparedArtifact), session.prepared[index]? = some item →
    ∃ payload, session.payloads[index]? = some payload ∧
      PreparedFor platform.unicode payload.1 payload.2 item
  verifying : ∀ candidate receipt, session.phase = .markingVerified candidate receipt →
    ∀ payload, session.current? = some payload → receipt.Expected payload.1
  complete : session.phase = .committing → session.payloads.length ≤ session.prepared.length

theorem UploadSession.Linked.goto {phase : UploadPhase} (hlinked : session.Linked platform)
    (hverifying : ∀ candidate receipt, phase = .markingVerified candidate receipt →
      ∀ payload, session.current? = some payload → receipt.Expected payload.1)
    (hcommitting : phase ≠ .committing) : (session.goto phase).Linked platform :=
  ⟨hlinked.named, hlinked.prepared, hverifying, fun hphase => absurd hphase hcommitting⟩

theorem UploadSession.linked_next (hnamed : ∀ payload ∈ session.payloads,
    normalizeLogicalName platform.unicode payload.1.logicalName = .ok payload.2)
    (hprepared : ∀ (index : ℕ) (item : PreparedArtifact),
      session.prepared[index]? = some item → ∃ payload, session.payloads[index]? = some payload ∧
        PreparedFor platform.unicode payload.1 payload.2 item) : session.next.Linked platform := by
  unfold UploadSession.next
  split
  · exact ⟨hnamed, hprepared, fun _ _ hphase => (by cases hphase), fun hphase => by cases hphase⟩
  · rename_i hbound
    exact ⟨hnamed, hprepared, fun _ _ hphase => (by cases hphase), fun _ => not_lt.mp hbound⟩

theorem UploadSession.Linked.prepare {candidate : CleanupCandidate} {receipt : StoredArtifact}
    (hlinked : session.Linked platform)
    (hphase : session.phase = .markingVerified candidate receipt) :
    (session.prepare platform.unicode candidate receipt).Linked platform := by
  unfold UploadSession.prepare
  cases hcurrent : session.current? with
  | none =>
      exact hlinked.goto (fun _ _ hcleaning => by cases hcleaning)
        (fun hcleaning => by cases hcleaning)
  | some payload =>
      dsimp only
      cases hmedia : authoritativeMediaType platform.unicode payload.1 with
      | error message =>
          exact hlinked.goto (fun _ _ hcleaning => by cases hcleaning)
            (fun hcleaning => by cases hcleaning)
      | ok mediaType =>
          dsimp only
          have hexpected := hlinked.verifying candidate receipt hphase payload hcurrent
          apply linked_next
          · exact hlinked.named
          intro index item hitem
          cases PartySystem.getElem?_append_single hitem with
          | inl hold => exact hlinked.prepared index item hold
          | inr hlast =>
              rw [hlast.1, hlast.2]
              exact ⟨payload, hcurrent, rfl, rfl, hmedia, hexpected.1, hexpected.2⟩

theorem UploadSession.Linked.continues {later : UploadSession} (hlinked : session.Linked platform)
    (hcontinues : session.Continues platform before after later) : later.Linked platform := by
  cases hcontinues with
  | stopped hplain =>
      apply hlinked.goto
      · intro candidate receipt hphase
        rw [hphase] at hplain
        exact hplain.elim
      · intro hphase
        rw [hphase] at hplain
        exact hplain
  | received hcurrent hexpected =>
      apply hlinked.goto
      · intro candidate receipt hphase payload hfound
        cases hphase
        rw [hcurrent] at hfound
        cases hfound
        exact hexpected
      · exact fun hphase => by cases hphase
  | prepared hphase => exact hlinked.prepare hphase
  | committed _ _ =>
      exact hlinked.goto (fun _ _ hphase => by cases hphase) (fun hphase => by cases hphase)

/-! ## Commits -/

theorem commitRevisionMetadata_creates {dashboardId createdById : Uuid}
    {prepared : List PreparedArtifact} {revision : Revision}
    (hruns : (commitRevisionMetadata platform context dashboardId createdById prepared).Runs before
      revision after) :
    before.revisions.create revision = some after.revisions ∧
      revision.dashboardId = dashboardId ∧ revision.createdById = createdById := by
  simp only [commitRevisionMetadata, runs_bind, runs_get, runs_found, runs_check, runs_modify,
    runs_pure, and_assoc, exists_and_left, exists_eq_left', exists_const,
    Option.filter_eq_some_iff] at hruns
  obtain ⟨dashboard, hdashboard, _, _, haccepting, _, _, verified, hverify, number, numbered,
    hnumber, inserted, first, hinsert, _, second, hartifacts, _, third, hlock, saved, fourth, hsave,
    _, fifth, haudit, rfl, rfl⟩ := hruns
  obtain ⟨rfl, _⟩ := verifyPrepared_runs hverify
  obtain ⟨rfl, _⟩ := nextRevisionNumber_runs hnumber
  obtain ⟨rfl, revisions, artifacts, rows, hcreate, _, _, rfl⟩ :=
    completeRevision_runs hinsert hartifacts hlock
  obtain ⟨written, original, _, _, _, _, rfl⟩ := Dashboard.save_runs hsave (by
    intro original horiginal _
    rw [original_of_get? hdashboard horiginal]
    exact haccepting)
  obtain ⟨event, audits, _, _, _, _, _, rfl⟩ := recordAudit_runs haudit
  exact ⟨hcreate, Table.key_of_get? hdashboard, rfl⟩

/-- A commit finds the bytes of its payloads in the storage, and its step leaves them there. -/
theorem UploadParty.Relies.committed {revision : Revision} {index : ℕ} {item : PreparedArtifact}
    {payload : ArtifactPayload × LogicalName}
    (hrelies : (UploadParty.upload session).Relies platform.sha256 store)
    (hphase : session.phase = .committing)
    (hact : (UploadParty.upload session).act platform store label = some (next, moved))
    (hcommit : RevisionCommit platform context session.prepared revision store.db next.db)
    (hunlocked : ∀ item ∈ session.prepared, item.reservationId ∉ store.locked)
    (hitem : session.prepared[index]? = some item)
    (hpayload : session.payloads[index]? = some payload) :
    (item.reliance payload).Stored platform.sha256 next.files := by
  have hmem : item ∈ session.prepared := List.mem_of_getElem? hitem
  have hrelied : item.reliance payload ∈ (UploadParty.upload session).relied := by
    simp only [UploadParty.relied, UploadSession.relied, hphase]
    apply List.mem_of_getElem? (i := index)
    rw [UploadSession.reliances, List.getElem?_zipWith, hitem, hpayload]
  obtain ⟨⟨row, hget, _, _, _, hclean⟩, hfree⟩ := hcommit.vouched item hmem
  have hvouches : store.Vouches item.reservationId item.receipt :=
    ⟨⟨row, hget, hclean⟩, hfree, hunlocked item hmem⟩
  obtain ⟨bytes, hbytes, hreceipt, hread⟩ := hrelies.backed _ hrelied hvouches
  cases UploadParty.act_finals hact item.receipt.key bytes hread with
  | inr hdeleting =>
      obtain ⟨deletion, hdeletion, _⟩ := hdeleting
      simp [UploadParty.deletion?, UploadPhase.deletion?, hphase] at hdeletion
  | inl hkept => exact ⟨bytes, hbytes, hreceipt, hkept⟩

def UploadParty.Linked (platform : Platform) : UploadParty → Prop
  | .upload session => session.Linked platform
  | .cleanup _ => True

theorem UploadParty.Linked.act (hlinked : party.Linked platform)
    (hact : party.act platform store label = some (next, moved)) : moved.Linked platform := by
  cases party with
  | upload session =>
      obtain ⟨later, rfl, hcontinues⟩ := session.act_continues hact
      exact UploadSession.Linked.continues hlinked hcontinues
  | cleanup job =>
      obtain ⟨later, rfl⟩ := job.act_cleanup hact
      trivial

/-- A step leaves every artifact with its bytes. -/
theorem UploadStore.Backed.act (htracked : party.Tracked store)
    (hrelies : party.Relies platform.sha256 store) (hlinked : party.Linked platform)
    (hbacked : store.Backed platform.sha256)
    (hact : party.act platform store label = some (next, moved)) :
    next.Backed platform.sha256 := by
  have hkeeps := htracked.keepsCommitted hact
  have hold : ∀ artifact ∈ store.db.artifacts, artifact.Backed platform.sha256 next.files := by
    intro artifact hartifact
    obtain ⟨key, bytes, hkey, hread, hsize, hdigest⟩ := hbacked artifact hartifact
    have howned : store.db.artifactOwns key.value = true :=
      Db.artifactOwns_iff.mpr ⟨artifact, hartifact, hkey.symm⟩
    exact ⟨key, bytes, hkey, hkeeps.files key howned bytes hread, hsize, hdigest⟩
  intro artifact hartifact
  cases UploadParty.act_revisions htracked hact with
  | inl hsame =>
      rw [hsame.artifacts] at hartifact
      exact hold artifact hartifact
  | inr hcommitting =>
      obtain ⟨session, context, revision, rfl, hphase, hruns, hunlocked, _⟩ := hcommitting
      have hcommit := commitRevisionMetadata_runs hruns
      cases hcommit.artifacts.2.2 artifact hartifact with
      | inl hbefore => exact hold artifact hbefore
      | inr hnew =>
          obtain ⟨item, hmem, hkey, hsize, hdigest⟩ := hnew
          obtain ⟨index, hitem⟩ := List.getElem?_of_mem hmem
          obtain ⟨payload, hpayload, _⟩ := UploadSession.Linked.prepared hlinked index item hitem
          obtain ⟨bytes, _, hreceipt, hread⟩ :=
            hrelies.committed hphase hact hcommit hunlocked hitem hpayload
          have hdescribed : item.receipt = .of platform.sha256 item.receipt.key bytes := hreceipt
          refine ⟨item.receipt.key, bytes, hkey.symm, hread, ?_, ?_⟩
          · rw [hsize, hdescribed]
            rfl
          · rw [hdigest, hdescribed]
            rfl

/-! ## Deliveries -/

/-- An artifact of a revision holds the bytes of a payload under the name of the payload. -/
structure Artifact.Delivers (platform : Platform) (files : StorageFiles) (revisionId : Uuid)
    (payload : ArtifactPayload × LogicalName) (artifact : Artifact) : Prop where
  revisionId : artifact.revisionId = revisionId
  kind : artifact.kind = payload.1.kind
  mediaType : authoritativeMediaType platform.unicode payload.1 = .ok artifact.mediaType
  named : ∃ normalized, normalizeLogicalName platform.unicode payload.2.display = .ok normalized ∧
    artifact.logicalName = normalized.display ∧ artifact.nameKey = normalized.comparisonKey
  byteSize : (artifact.byteSize : ℤ) = payload.1.expectedSize
  sha256 : artifact.sha256 = payload.1.expectedSha256
  stored : ∃ (key : StorageKey) (bytes : Bytes), key.value = artifact.storageKey ∧
    payloadOf payload.1.chunks = some bytes ∧ files.read key.finalPath = some bytes ∧
      artifact.byteSize = bytes.length ∧ artifact.sha256 = platform.sha256 bytes

/-- The revision of an upload has one artifact for each payload, and no other. -/
structure UploadStore.Delivers (platform : Platform) (store : UploadStore)
    (session : UploadSession) (revision : Revision) : Prop where
  stored : store.db.revisions.get? revision.id = some revision
  dashboardId : revision.dashboardId = session.dashboardId
  createdById : revision.createdById = session.createdById
  locked : revision.artifactsLocked = true
  artifacts : ∃ rows : List Artifact,
    List.Forall₂ (Artifact.Delivers platform store.files revision.id) session.payloads rows ∧
      rows.Pairwise (fun first second => first.nameKey ≠ second.nameKey) ∧
        ∀ artifact, artifact ∈ rows ↔
          artifact ∈ store.db.artifacts ∧ artifact.revisionId = revision.id

/-- Every artifact belongs to a revision. -/
def Db.Rooted (db : Db) : Prop :=
  ∀ artifact ∈ db.artifacts, ∃ revision, db.revisions.get? artifact.revisionId = some revision

theorem forall₂_getElem? {α β : Type} {related : α → β → Prop} {first : List α} {second : List β}
    {index : ℕ} {one : α} {two : β} (hrelated : List.Forall₂ related first second)
    (hone : first[index]? = some one) (htwo : second[index]? = some two) : related one two := by
  induction hrelated generalizing index with
  | nil => cases hone
  | cons hhead _ ih =>
      cases index with
      | zero =>
          cases hone
          cases htwo
          exact hhead
      | succ index => exact ih hone htwo

theorem forall₂_of_getElem? {α β : Type} {related : α → β → Prop} {first : List α}
    {second : List β} (hlength : first.length = second.length)
    (hrelated : ∀ (index : ℕ) (one : α) (two : β), first[index]? = some one →
      second[index]? = some two → related one two) : List.Forall₂ related first second := by
  apply List.forall₂_iff_get.mpr
  refine ⟨hlength, fun index hfirst hsecond => ?_⟩
  exact hrelated index _ _ (List.getElem?_eq_getElem hfirst) (List.getElem?_eq_getElem hsecond)

/-- The rows of a revision stand in the order of its prepared artifacts. -/
theorem AddsRows.at_index {prepared : List PreparedArtifact} {revisionId : Uuid}
    {older newer : Table Artifact} {rows : List Artifact} {index : ℕ} {item : PreparedArtifact}
    {row : Artifact}
    (hadds : AddsRows platform context revisionId (prepared.zipIdx.map Prod.swap) older newer rows)
    (hitem : prepared[index]? = some item) (hrow : rows[index]? = some row) :
    item.Inserted platform (context.uuid (index + 1)) revisionId row := by
  have hpair : (prepared.zipIdx.map Prod.swap)[index]? = some (index, item) := by
    rw [List.getElem?_map, List.getElem?_zipIdx, hitem]
    simp
  have hinserted := forall₂_getElem? hadds.inserted hpair hrow
  exact hinserted

theorem AddsRows.revisionId_eq {prepared : List PreparedArtifact} {revisionId : Uuid}
    {older newer : Table Artifact} {rows : List Artifact} {row : Artifact}
    (hadds : AddsRows platform context revisionId (prepared.zipIdx.map Prod.swap) older newer rows)
    (hrow : row ∈ rows) : row.revisionId = revisionId := by
  obtain ⟨item, hinserted⟩ := exists_of_forall₂ hadds.inserted hrow
  exact hinserted.revisionId_eq

theorem Db.Rooted.committed {dashboardId createdById : Uuid} {prepared : List PreparedArtifact}
    {revision : Revision} (hrooted : before.Rooted)
    (hruns : (commitRevisionMetadata platform context dashboardId createdById prepared).Runs before
      revision after) : after.Rooted := by
  obtain ⟨hcreate, _⟩ := commitRevisionMetadata_creates hruns
  obtain ⟨rows, hadds⟩ := (commitRevisionMetadata_runs hruns).rows
  intro artifact hartifact
  rw [Table.get?_of_create hcreate]
  split
  · exact ⟨revision, rfl⟩
  · rename_i hother
    cases (hadds.mem_iff artifact).mp hartifact with
    | inr hold => exact hrooted artifact hold
    | inl hnew => exact absurd (hadds.revisionId_eq hnew).symm hother

theorem UploadSession.Linked.length_le (hlinked : session.Linked platform) :
    session.prepared.length ≤ session.payloads.length := by
  cases hlast : session.prepared.length with
  | zero => exact Nat.zero_le _
  | succ count =>
      have hbound : count < session.prepared.length := by omega
      obtain ⟨payload, hpayload, _⟩ :=
        hlinked.prepared count _ (List.getElem?_eq_getElem hbound)
      exact (List.getElem?_eq_some_iff.mp hpayload).1

/-- A commit delivers the payloads of its upload. -/
theorem UploadParty.Relies.delivers {revision : Revision}
    (hrelies : (UploadParty.upload session).Relies platform.sha256 store)
    (hlinked : session.Linked platform) (hrooted : store.db.Rooted)
    (hphase : session.phase = .committing)
    (hact : (UploadParty.upload session).act platform store label = some (next, moved))
    (hruns : (commitRevisionMetadata platform context session.dashboardId session.createdById
      session.prepared).Runs store.db revision next.db)
    (hunlocked : ∀ item ∈ session.prepared, item.reservationId ∉ store.locked) :
    next.Delivers platform session revision := by
  have hcommit := commitRevisionMetadata_runs hruns
  obtain ⟨hcreate, hdashboard, hcreator⟩ := commitRevisionMetadata_creates hruns
  obtain ⟨rows, hadds⟩ := hcommit.rows
  have hprepared : session.prepared.length = rows.length := by
    have hlength := hadds.inserted.length_eq
    rwa [List.length_map, List.length_zipIdx] at hlength
  have hpayloads : session.payloads.length = session.prepared.length :=
    le_antisymm (hlinked.complete hphase) hlinked.length_le
  refine ⟨hcommit.stored, hdashboard, hcreator, hcommit.locked, rows, ?_, hadds.distinct, ?_⟩
  · apply forall₂_of_getElem? (hpayloads.trans hprepared)
    intro index payload row hpayload hrow
    have hbound : index < session.prepared.length := by
      rw [hprepared]
      exact (List.getElem?_eq_some_iff.mp hrow).1
    have hitem := List.getElem?_eq_getElem hbound
    obtain ⟨found, hfound, hprepares⟩ := hlinked.prepared index _ hitem
    rw [hpayload] at hfound
    cases hfound
    obtain ⟨normalized, hname, hinserted⟩ := hadds.at_index hitem hrow
    obtain ⟨bytes, hbytes, hreceipt, hread⟩ :=
      hrelies.committed hphase hact hcommit hunlocked hitem hpayload
    have hdescribed : (session.prepared[index]).receipt =
        .of platform.sha256 (session.prepared[index]).receipt.key bytes := hreceipt
    rw [hprepares.name] at hname
    constructor
    · rw [hinserted]
      rfl
    · rw [hinserted]
      exact hprepares.kind
    · rw [hinserted]
      exact hprepares.mediaType
    · rw [hinserted]
      exact ⟨normalized, hname, rfl, rfl⟩
    · rw [hinserted]
      exact hprepares.byteSize
    · rw [hinserted]
      exact hprepares.digest
    · rw [hinserted]
      exact ⟨_, bytes, rfl, hbytes, hread, congrArg StoredArtifact.byteSize hdescribed,
        congrArg StoredArtifact.sha256 hdescribed⟩
  · intro artifact
    rw [hadds.mem_iff artifact]
    constructor
    · exact fun hnew => ⟨.inl hnew, hadds.revisionId_eq hnew⟩
    · intro hmem
      cases hmem.1 with
      | inl hnew => exact hnew
      | inr hold =>
          obtain ⟨found, hfound⟩ := hrooted artifact hold
          have hfresh := (Table.create_eq_some_iff.mp hcreate).1
          rw [hmem.2] at hfound
          rw [show Keyed.key revision = revision.id from rfl, hfound] at hfresh
          cases hfresh

theorem Artifact.Delivers.kept {revisionId : Uuid} {payload : ArtifactPayload × LogicalName}
    {artifact : Artifact} (hdelivers : artifact.Delivers platform store.files revisionId payload)
    (hkeeps : KeepsCommitted store next) (hartifact : artifact ∈ store.db.artifacts) :
    artifact.Delivers platform next.files revisionId payload := by
  obtain ⟨key, bytes, hkey, hbytes, hread, hdescribed⟩ := hdelivers.stored
  have howned : store.db.artifactOwns key.value = true :=
    Db.artifactOwns_iff.mpr ⟨artifact, hartifact, hkey.symm⟩
  exact { hdelivers with
    stored := ⟨key, bytes, hkey, hbytes, hkeeps.files key howned bytes hread, hdescribed⟩ }

theorem UploadStore.Delivers.kept {delivered : UploadSession} {revision : Revision}
    (hdelivers : store.Delivers platform delivered revision) (hkeeps : KeepsCommitted store next)
    (hstored : next.db.revisions.get? revision.id = some revision)
    (hrows : ∀ artifact ∈ next.db.artifacts, artifact.revisionId = revision.id →
      artifact ∈ store.db.artifacts) : next.Delivers platform delivered revision := by
  obtain ⟨rows, hdelivered, hdistinct, hmem⟩ := hdelivers.artifacts
  refine { hdelivers with
    stored := hstored
    artifacts := ⟨rows, ?_, hdistinct, fun artifact => ?_⟩ }
  · apply forall₂_of_getElem? hdelivered.length_eq
    intro index payload row hpayload hrow
    have hartifact := ((hmem row).mp (List.mem_of_getElem? hrow)).1
    exact (forall₂_getElem? hdelivered hpayload hrow).kept hkeeps hartifact
  · rw [hmem artifact]
    constructor
    · exact fun hold => ⟨hkeeps.rows artifact hold.1, hold.2⟩
    · exact fun hnew => ⟨hrows artifact hnew.1 hnew.2, hnew.2⟩

/-- A delivery stays. -/
theorem UploadStore.Delivers.act {delivered : UploadSession} {revision : Revision}
    (hdelivers : store.Delivers platform delivered revision) (htracked : party.Tracked store)
    (hact : party.act platform store label = some (next, moved)) :
    next.Delivers platform delivered revision := by
  cases UploadParty.act_revisions htracked hact with
  | inl hsame =>
      apply hdelivers.kept (htracked.keepsCommitted hact)
      · rw [hsame.revisions]
        exact hdelivers.stored
      · rw [hsame.artifacts]
        exact fun artifact hartifact _ => hartifact
  | inr hcommitting =>
      obtain ⟨session, context, created, _, _, hruns, _⟩ := hcommitting
      obtain ⟨hcreate, _⟩ := commitRevisionMetadata_creates hruns
      obtain ⟨rows, hadds⟩ := (commitRevisionMetadata_runs hruns).rows
      have hother : created.id ≠ revision.id := by
        intro hsame
        have hfresh := (Table.create_eq_some_iff.mp hcreate).1
        have hstored := hdelivers.stored
        rw [← hsame] at hstored
        rw [show Keyed.key created = created.id from rfl, hstored] at hfresh
        cases hfresh
      apply hdelivers.kept (htracked.keepsCommitted hact)
      · rw [Table.get?_of_create hcreate]
        exact (if_neg hother).trans hdelivers.stored
      · intro artifact hartifact hrevision
        cases (hadds.mem_iff artifact).mp hartifact with
        | inr hold => exact hold
        | inl hnew => exact absurd ((hadds.revisionId_eq hnew).symm.trans hrevision) hother

theorem UploadStore.Delivers.environment {db : Db} {delivered : UploadSession}
    {revision : Revision} (hdelivers : store.Delivers platform delivered revision)
    (hartifacts : db.artifacts = store.db.artifacts)
    (hrevisions : db.revisions = store.db.revisions) :
    UploadStore.Delivers platform { store with db := db } delivered revision := by
  apply hdelivers.kept
  · exact ⟨fun artifact hartifact => hartifacts ▸ hartifact, fun _ _ _ hread => hread⟩
  · rw [hrevisions]
    exact hdelivers.stored
  · exact fun artifact hartifact _ => hartifacts ▸ hartifact

/-- An upload that has been answered has delivered. -/
def UploadParty.Answered (platform : Platform) (store : UploadStore) (party : UploadParty) : Prop :=
  ∀ session revision, party = .upload session → session.phase = .finished revision →
    store.Delivers platform session revision

theorem UploadSession.next_unfinished {revision : Revision} :
    session.next.phase ≠ .finished revision := by
  unfold UploadSession.next
  split <;> exact fun hphase => by cases hphase

theorem UploadSession.prepare_unfinished {tables : UnicodeTables} {candidate : CleanupCandidate}
    {receipt : StoredArtifact} {revision : Revision} :
    (session.prepare tables candidate receipt).phase ≠ .finished revision := by
  unfold prepare
  split
  · exact fun hphase => by cases hphase
  · split
    · exact fun hphase => by cases hphase
    · exact next_unfinished

theorem UploadParty.answered_act (htracked : party.Tracked store)
    (hrelies : party.Relies platform.sha256 store) (hlinked : party.Linked platform)
    (hrooted : store.db.Rooted) (hact : party.act platform store label = some (next, moved)) :
    moved.Answered platform next := by
  intro later revision hmoved hfinished
  subst hmoved
  cases party with
  | cleanup job =>
      obtain ⟨found, hfound⟩ := job.act_cleanup hact
      cases hfound
  | upload session =>
      obtain ⟨found, hfound, hcontinues⟩ := session.act_continues hact
      cases hfound
      cases hcontinues with
      | @stopped phase hplain =>
          have hphase : phase = .finished revision := hfinished
          rw [hphase] at hplain
          exact hplain.elim
      | received _ _ => cases hfinished
      | prepared _ => exact absurd hfinished UploadSession.prepare_unfinished
      | committed hphase hruns =>
          cases hfinished
          obtain ⟨hcreate, hrequest⟩ := commitRevisionMetadata_creates hruns
          cases UploadParty.act_revisions htracked hact with
          | inl hsame =>
              have hfresh := (Table.create_eq_some_iff.mp hcreate).1
              have hstored := (commitRevisionMetadata_runs hruns).stored
              rw [hsame.revisions] at hstored
              rw [show Keyed.key revision = revision.id from rfl, hstored] at hfresh
              cases hfresh
          | inr hcommitting =>
              obtain ⟨committing, _, _, hparty, _, _, hunlocked, _⟩ := hcommitting
              cases hparty
              have hdelivers := hrelies.delivers hlinked hrooted hphase hact hruns hunlocked
              exact ⟨hdelivers.stored, hdelivers.dashboardId, hdelivers.createdById,
                hdelivers.locked, hdelivers.artifacts⟩

/-! ## The invariant of the runs -/

/-- The stores of a run in which no cleanup transaction is lost. -/
structure UploadStore.Intact (platform : Platform) (store : UploadStore) : Prop where
  sound : store.Sound
  backed : store.Backed platform.sha256
  rooted : store.db.Rooted

/-- A party of such a run. -/
structure UploadParty.Intact (platform : Platform) (store : UploadStore) (party : UploadParty) :
    Prop where
  tracked : party.Tracked store
  relies : party.Relies platform.sha256 store
  linked : party.Linked platform
  answered : party.Answered platform store

theorem UploadParty.Relies.environment {db : Db} {sha256 : Bytes → Text}
    (hrelies : party.Relies sha256 store) (hartifacts : db.artifacts = store.db.artifacts)
    (hreservations : db.reservations = store.db.reservations) :
    party.Relies sha256 { store with db := db } := by
  refine ⟨fun entry hentry hvouches => ?_, hrelies.keyed⟩
  apply hrelies.backed entry hentry
  obtain ⟨hrow, hfree, hunlocked⟩ := hvouches
  rw [hreservations] at hrow
  rw [Db.artifactOwns, hartifacts] at hfree
  exact ⟨hrow, hfree, hunlocked⟩

theorem UploadStore.Intact.act (hintact : store.Intact platform)
    (hparty : party.Intact platform store)
    (hact : party.act platform store label = some (next, moved)) : next.Intact platform := by
  refine ⟨(hparty.tracked.act hintact.sound hact).1,
    hintact.backed.act hparty.tracked hparty.relies hparty.linked hact, ?_⟩
  cases UploadParty.act_revisions hparty.tracked hact with
  | inl hsame =>
      intro artifact hartifact
      rw [hsame.artifacts] at hartifact
      rw [hsame.revisions]
      exact hintact.rooted artifact hartifact
  | inr hcommitting =>
      obtain ⟨_, _, _, _, _, hruns, _⟩ := hcommitting
      exact hintact.rooted.committed hruns

theorem validatePayloads_named {tables : UnicodeTables} {payloads : List ArtifactPayload}
    {seen : List Text} {names : List LogicalName}
    (hruns : (validatePayloads tables seen payloads).Runs before names after) :
    List.Forall₂ (fun payload name => normalizeLogicalName tables payload.logicalName = .ok name)
      payloads names := by
  induction payloads generalizing seen names before with
  | nil =>
      simp only [validatePayloads, runs_pure] at hruns
      rw [← hruns.1]
      exact .nil
  | cons payload rest ih =>
      simp only [validatePayloads, runs_bind, runs_check, runs_orFail, runs_pure, and_assoc,
        exists_and_left, exists_eq_left', exists_const] at hruns
      obtain ⟨_, _, _, _, name, hname, _, found, middle, hrest, rfl, rfl⟩ := hruns
      exact .cons hname (ih hrest)

theorem checkRevisionRequest_named {dashboardId createdById : Uuid}
    {payloads : List ArtifactPayload} {names : List LogicalName}
    (hchecked : (checkRevisionRequest platform dashboardId createdById payloads).value? before =
      some names) :
    List.Forall₂ (fun payload name =>
      normalizeLogicalName platform.unicode payload.logicalName = .ok name) payloads names := by
  have hruns := runs_of_value? hchecked
  simp only [checkRevisionRequest, validatePayloadSet, runs_bind, runs_check, runs_get, runs_pure,
    and_assoc, exists_and_left, exists_eq_left', exists_const] at hruns
  obtain ⟨_, found, middle, hnames, _, rfl, _⟩ := hruns
  exact validatePayloads_named hnames

theorem UploadParty.Starts.intact (hstarts : party.Starts platform store) :
    party.Intact platform store := by
  have hnone : party.relied = [] := by
    cases hstarts with
    | upload _ => exact UploadSession.relied_next
    | cleanup _ => rfl
  constructor
  · exact hstarts.tracked.1
  · constructor
    · rw [hnone]
      exact fun entry hentry => by cases hentry
    · rw [hnone]
      exact fun entry hentry => by cases hentry
  · cases hstarts with
    | upload hchecked =>
        apply UploadSession.linked_next
        · intro payload hpayload
          exact List.forall₂_zip (checkRevisionRequest_named hchecked) hpayload
        · exact fun index item hitem => by cases hitem
    | cleanup _ => trivial
  · intro session revision hsession hfinished
    cases hstarts with
    | upload _ =>
        cases hsession
        exact absurd hfinished UploadSession.next_unfinished
    | cleanup _ => cases hsession

theorem uploadSystem_intact :
    ((uploadSystem platform).sparing (UploadStore.Spares platform)).Invariant
      (UploadStore.Intact platform) (UploadParty.Intact platform) UploadParty.Apart where
  initial := by
    intro store hinitial
    have hnone : ∀ artifact, artifact ∉ store.db.artifacts := by
      intro artifact hartifact
      rw [Table.mem_def, hinitial.1] at hartifact
      cases hartifact
    exact ⟨@UploadStore.sound_initial platform store hinitial,
      fun artifact hartifact => absurd hartifact (hnone artifact),
      fun artifact hartifact => absurd hartifact (hnone artifact)⟩
  environment := by
    intro store next hchange hintact
    have hkept := (@uploadSystem_invariant platform).environment hchange hintact.sound
    obtain ⟨db, rfl, hartifacts, hrevisions, hreservations⟩ := hchange
    refine ⟨⟨hkept.1, ?_, ?_⟩, fun party hparty => ⟨hkept.2 party hparty.tracked,
      hparty.relies.environment hartifacts hreservations, hparty.linked, ?_⟩⟩
    · intro artifact hartifact
      rw [hartifacts] at hartifact
      exact hintact.backed artifact hartifact
    · intro artifact hartifact
      rw [hartifacts] at hartifact
      rw [hrevisions]
      exact hintact.rooted artifact hartifact
    · intro session revision hsession hfinished
      exact (hparty.answered session revision hsession hfinished).environment hartifacts hrevisions
  start := by
    intro store party hstart hintact
    have hnew := (@uploadSystem_invariant platform).start hstart hintact.sound
    exact ⟨hstart.intact, fun other hother => hnew.2 other hother.tracked⟩
  act := by
    intro store next party moved label hact hintact hparty
    have hkept := (@uploadSystem_invariant platform).act hact hintact.sound hparty.tracked
    exact ⟨hintact.act hparty hact, hkept.2, hparty.relies.act hintact.sound hparty.tracked hact,
      hparty.linked.act hact,
      UploadParty.answered_act hparty.tracked hparty.relies hparty.linked hintact.rooted hact⟩
  frame := by
    intro store next party moved other label hact hintact hparty hother hapart hspares
    have hkept := (@uploadSystem_invariant platform).frame hact hintact.sound hparty.tracked
      hother.tracked hapart trivial
    refine ⟨⟨hkept.1, ?_, hother.linked, ?_⟩, hkept.2⟩
    · exact hother.relies.frame hintact.sound hparty.tracked hact hother.tracked hspares.2
    · intro session revision hsession hfinished
      exact (hother.answered session revision hsession hfinished).act hparty.tracked hact
  symmetric := (@uploadSystem_invariant platform).symmetric

/-- Unless cleanup transactions are lost after a deletion, every artifact has its bytes. -/
theorem committed_artifacts_are_stored {state : Configuration UploadStore UploadParty}
    {artifact : Artifact}
    (hreach : ((uploadSystem platform).sparing (UploadStore.Spares platform)).Reachable state)
    (hartifact : artifact ∈ state.store.db.artifacts) :
    artifact.Backed platform.sha256 state.store.files :=
  (uploadSystem_intact.holds hreach).store.backed artifact hartifact

/-- What has been delivered stays delivered. -/
theorem uploadSystem_keepsDelivered {first last : Configuration UploadStore UploadParty}
    {events : List (PartyEvent UploadStore UploadParty UploadLabel)} {revision : Revision}
    (hreach : ((uploadSystem platform).sparing (UploadStore.Spares platform)).Reachable first)
    (hpath : ((uploadSystem platform).sparing
      (UploadStore.Spares platform)).transitions.Path first events last)
    (hdelivers : first.store.Delivers platform session revision) :
    last.store.Delivers platform session revision := by
  revert hdelivers
  let keeps := fun store next : UploadStore =>
    store.Delivers platform session revision → next.Delivers platform session revision
  show keeps first.store last.store
  apply uploadSystem_intact.related hreach hpath
  · exact fun store hdelivers => hdelivers
  · exact fun hone htwo hdelivers => htwo (hone hdelivers)
  · intro store next hchange hdelivers
    obtain ⟨db, rfl, hartifacts, hrevisions, _⟩ := hchange
    exact hdelivers.environment hartifacts hrevisions
  · exact fun hact _ hparty hdelivers => hdelivers.act hparty.tracked hact

theorem delivers_of_answered {state : Configuration UploadStore UploadParty} {index : ℕ}
    {revision : Revision}
    (hreach : ((uploadSystem platform).sparing (UploadStore.Spares platform)).Reachable state)
    (hparty : state.parties[index]? = some (.upload session))
    (hfinished : session.phase = .finished revision) :
    state.store.Delivers platform session revision :=
  ((uploadSystem_intact.holds hreach).party index _ hparty).answered session revision rfl hfinished

/-- An upload that has been answered has delivered its payloads, and they stay delivered. -/
theorem answered_upload_delivers {first last : Configuration UploadStore UploadParty}
    {events : List (PartyEvent UploadStore UploadParty UploadLabel)} {index : ℕ}
    {revision : Revision}
    (hreach : ((uploadSystem platform).sparing (UploadStore.Spares platform)).Reachable first)
    (hpath : ((uploadSystem platform).sparing
      (UploadStore.Spares platform)).transitions.Path first events last)
    (hparty : first.parties[index]? = some (.upload session))
    (hfinished : session.phase = .finished revision) :
    last.store.Delivers platform session revision := by
  exact uploadSystem_keepsDelivered hreach hpath (delivers_of_answered hreach hparty hfinished)

end Integrity

/-! ## Uploads beside a cleanup job -/

/-- The revision that an upload has been answered with. -/
def UploadParty.revision? : UploadParty → Option Revision
  | .upload session =>
      match session.phase with
      | .finished revision => some revision
      | _ => none
  | .cleanup _ => none

theorem UploadParty.of_revision? {party : UploadParty} {revision : Revision}
    (hanswered : party.revision? = some revision) :
    ∃ session, party = .upload session ∧ session.phase = .finished revision := by
  cases party with
  | cleanup job => cases hanswered
  | upload session =>
      refine ⟨session, rfl, ?_⟩
      simp only [revision?] at hanswered
      split at hanswered
      · cases hanswered
        assumption
      · cases hanswered

/-- A job for the reservations that have expired a day after the upload. -/
def lateCleanup (db : Db) : UploadParty :=
  .cleanup {
    cutoff := 86400000003
    phase := .deciding (db.expiredReservations 86400000003 1) }

/-- An upload and a job start after the process of another upload has died before its commit. -/
def contendedConfiguration (state : Configuration UploadStore UploadParty) :
    Configuration UploadStore UploadParty :=
  ⟨state.store, state.parties ++ [.upload sampleUpload] ++ [lateCleanup state.store.db]⟩

/-- The process dies when its file is written and verified. -/
def abandonedSteps : List (ℕ × UploadLabel) :=
  answeredSteps.take 4 ++ [(0, .crash)]

/-- The job deletes the file that the dead upload has left, and its transaction fails after it.
The other upload writes its own file meanwhile and is answered. -/
def contendedSteps : List (ℕ × UploadLabel) :=
  [(1, .generate zeroKey .answered), (2, .transact (contextAt 6 9) .answered),
    (1, .transact (contextAt 7 10) .answered), (1, .store (List.replicate 40 (.succeeded 43))),
    (2, .store (List.replicate 40 (.succeeded 43))), (1, .transact (contextAt 8 11) .answered),
    (2, .transact (contextAt 9 12) .failed), (1, .transact (contextAt 10 13) .answered)]

theorem contended_uploads_run :
    ∃ dead state session revision,
      (uploadSystem asciiPlatform).run sampleConfiguration abandonedSteps = some dead ∧
        (uploadSystem asciiPlatform).run (contendedConfiguration dead) contendedSteps =
          some state ∧
        ((uploadSystem asciiPlatform).sparing (UploadStore.Spares asciiPlatform)).Reachable state ∧
          state.store.db.artifacts.rows.map Artifact.storageKey = [zeroKey.value] ∧
            state.parties[1]? = some (.upload session) ∧ session.phase = .finished revision := by
  have hdead : (((uploadSystem asciiPlatform).run sampleConfiguration abandonedSteps).map
      fun dead => (checkRevisionRequest asciiPlatform 3 1 [samplePayload]).value? dead.store.db) =
        some (some [⟨"index.html".toList, "index.html".toList⟩]) := by
    decide +kernel
  obtain ⟨dead, hfirst, hchecked⟩ := Option.map_eq_some_iff.mp hdead
  have hanswered : ((((uploadSystem asciiPlatform).run sampleConfiguration abandonedSteps).bind
      fun dead => (uploadSystem asciiPlatform).run (contendedConfiguration dead)
        contendedSteps).bind fun state => (state.parties[1]?.bind UploadParty.revision?).bind
          fun revision => if state.store.db.artifacts.rows.map Artifact.storageKey =
            [zeroKey.value] then some revision else none).isSome = true := by
    decide +kernel
  rw [hfirst, Option.bind_some] at hanswered
  obtain ⟨found, hfound⟩ := Option.isSome_iff_exists.mp hanswered
  obtain ⟨state, hrun, hstate⟩ := Option.bind_eq_some_iff.mp hfound
  obtain ⟨revision, hrevision, hkeys⟩ := Option.bind_eq_some_iff.mp hstate
  obtain ⟨party, hparty, hfinished⟩ := Option.bind_eq_some_iff.mp hrevision
  obtain ⟨session, rfl, hphase⟩ := UploadParty.of_revision? hfinished
  have hspared : ((uploadSystem asciiPlatform).run sampleConfiguration abandonedSteps).map
      (fun dead => ((uploadSystem asciiPlatform).sparing
        (UploadStore.Spares asciiPlatform)).spared (contendedConfiguration dead)
          contendedSteps) = some true := by
    decide +kernel
  rw [hfirst, Option.map_some, Option.some.injEq] at hspared
  have hreach : ((uploadSystem asciiPlatform).sparing (UploadStore.Spares asciiPlatform)).Reachable
      dead := sampleConfiguration_run (by decide) hfirst
  have hupload : UploadParty.Starts asciiPlatform dead.store (.upload sampleUpload) :=
    .upload hchecked
  have hjob : UploadParty.Starts asciiPlatform dead.store (lateCleanup dead.store.db) :=
    .cleanup (le_refl 1)
  have hstarted : ((uploadSystem asciiPlatform).sparing
      (UploadStore.Spares asciiPlatform)).Reachable (contendedConfiguration dead) :=
    (hreach.step (.start hupload)).step (.start hjob)
  have hguarded : ((uploadSystem asciiPlatform).sparing (UploadStore.Spares asciiPlatform)).run
      (contendedConfiguration dead) contendedSteps = some state := by
    rw [PartySystem.run_sparing]
    exact hrun
  refine ⟨dead, state, session, revision, hfirst, hrun, hstarted.run_spared hspared hguarded, ?_,
    hparty, hphase⟩
  split at hkeys
  · assumption
  · cases hkeys

theorem contended_upload_is_stored :
    ∃ dead state artifact,
      (uploadSystem asciiPlatform).run sampleConfiguration abandonedSteps = some dead ∧
        (uploadSystem asciiPlatform).run (contendedConfiguration dead) contendedSteps =
          some state ∧
        artifact ∈ state.store.db.artifacts ∧
          artifact.Backed tokenDigest state.store.files := by
  obtain ⟨dead, state, _, _, hdead, hrun, hreach, hkeys, _⟩ := contended_uploads_run
  obtain ⟨artifact, hartifact, _⟩ := mem_of_storageKeys hkeys
  exact ⟨dead, state, artifact, hdead, hrun, hartifact,
    committed_artifacts_are_stored hreach hartifact⟩

theorem contended_upload_delivered :
    ∃ dead state session revision,
      (uploadSystem asciiPlatform).run sampleConfiguration abandonedSteps = some dead ∧
        (uploadSystem asciiPlatform).run (contendedConfiguration dead) contendedSteps =
          some state ∧
        state.parties[1]? = some (.upload session) ∧
          state.store.Delivers asciiPlatform session revision := by
  obtain ⟨dead, state, session, revision, hdead, hrun, hreach, _, hparty, hphase⟩ :=
    contended_uploads_run
  exact ⟨dead, state, session, revision, hdead, hrun, hparty,
    answered_upload_delivers hreach (.refl state) hparty hphase⟩

/-- An upload commits after a job has deleted its bytes and died: the artifact has no file. -/
example : (((uploadSystem asciiPlatform).run sampleConfiguration (answeredSteps.take 4)).bind
    fun state => (uploadSystem asciiPlatform).run
      ⟨state.store, state.parties ++ [lateCleanup state.store.db]⟩
      [(1, .transact (contextAt 6 9) .answered), (1, .store (List.replicate 40 (.succeeded 43))),
        (1, .crash), (0, .transact (contextAt 7 10) .answered)]).map
    (fun state => (state.store.db.artifacts.rows.map Artifact.storageKey,
      state.store.files.read sampleReceipt.key.finalPath)) =
        some ([sampleReceipt.key.value], none) := by
  decide +kernel

end Agora
