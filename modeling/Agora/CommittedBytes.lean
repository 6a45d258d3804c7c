import Agora.OrphanFreeUploads

/-!
# Committed bytes

The file of a committed artifact never changes and never disappears.  A storage call changes
the final file of its own key only, and a deletion owns its key through a reservation that no
artifact shares.
-/

namespace Agora

open Transaction

/-! ## Final files -/

section Finals

variable {platform : Platform} {store next : UploadStore} {party moved other : UploadParty}
  {label : UploadLabel} {session : UploadSession} {results : List SystemResult}

/-- A step keeps the final files that exist, but for the one that its party is deleting. -/
def KeepsFinals (party : UploadParty) (before after : StorageFiles) : Prop :=
  ∀ (key : StorageKey) (bytes : Bytes), before.read key.finalPath = some bytes →
    after.read key.finalPath = some bytes ∨ ∃ deletion ∈ party.deletion?, deletion.key = some key

theorem OnlyRemoved.keepsFinals {before after : StorageFiles} {key : StorageKey}
    {deletion : OpenDeletion} (hremoved : OnlyRemoved key before after)
    (hdeletion : deletion ∈ party.deletion?) (hkey : deletion.key = some key) :
    KeepsFinals party before after := by
  intro found bytes hread
  by_cases hsame : found = key
  · rw [hsame]
    exact .inr ⟨deletion, hdeletion, hkey⟩
  · left
    have hentry : after.entry found.finalPath = before.entry found.finalPath := by
      apply hremoved.others
      · exact fun hpath => hsame (StorageKey.finalPath_injective hpath)
      · exact StorageKey.finalPath_ne_pendingPath found key
    rw [FileSystem.read, hentry, hremoved.content]
    exact hread

theorem UploadSession.callStorage_finals
    (hcall : session.callStorage platform store results = some (next, moved)) :
    KeepsFinals (.upload session) store.files next.files := by
  cases hphase : session.phase with
  | writing candidate =>
      obtain ⟨payload, last, _, _, halone, rfl, rfl⟩ := session.callStorage_writes hphase hcall
      intro key bytes hread
      left
      change last.1.read key.finalPath = some bytes
      rw [halone.keeps (StorageKey.finalPath_ne_pendingPath key candidate.key)]
      · exact hread
      · rw [hread]
        exact fun _ => Option.some_ne_none bytes
  | deleting candidate rest =>
      have hdeletion : (⟨candidate.reservationId, some candidate.key, false⟩ : OpenDeletion) ∈
          (UploadParty.upload session).deletion? := by
        simp [UploadParty.deletion?, UploadPhase.deletion?, hphase]
      have hremoved := (runDelete_contract candidate.key store.files results).1
      rw [(session.callStorage_deletes hphase hcall).1.1]
      exact hremoved.keepsFinals hdeletion rfl
  | _ => simp [UploadSession.callStorage, hphase] at hcall

theorem CleanupJob.callStorage_finals {job : CleanupJob}
    (hcall : job.callStorage store results = some (next, moved)) :
    KeepsFinals (.cleanup job) store.files next.files := by
  obtain ⟨reservationId, key, rest, hphase, ⟨hfiles, _⟩, _⟩ := job.callStorage_deletes hcall
  have hdeletion : (⟨reservationId, some key, false⟩ : OpenDeletion) ∈
      (UploadParty.cleanup job).deletion? := by
    simp [UploadParty.deletion?, CleanupPhase.deletion?, hphase]
  rw [hfiles]
  exact (runDelete_contract key store.files results).1.keepsFinals hdeletion rfl

theorem UploadStore.transact_files {transaction : PartyTransaction} {report : CommitReport}
    (htransact : store.transact party transaction report = some (next, moved)) :
    next.files = store.files := by
  unfold UploadStore.transact at htransact
  split at htransact
  · cases htransact
  · split at htransact
    · cases htransact
      rfl
    · cases htransact

theorem UploadParty.act_finals (hact : party.act platform store label = some (next, moved)) :
    KeepsFinals party store.files next.files := by
  have hsame : next.files = store.files → KeepsFinals party store.files next.files := by
    intro hfiles key bytes hread
    rw [hfiles]
    exact .inl hread
  cases label with
  | generate key report =>
      rw [(UploadParty.generate_quiet hact).1]
      exact fun key bytes hread => .inl hread
  | transact context report =>
      obtain ⟨transaction, _, htransact⟩ := Option.bind_eq_some_iff.mp hact
      exact hsame (UploadStore.transact_files htransact)
  | store results =>
      cases party with
      | upload session => exact session.callStorage_finals hact
      | cleanup job => exact job.callStorage_finals hact
  | crash =>
      cases hact
      exact hsame rfl

/-- A file that an artifact owns is no deletion's. -/
theorem OpenDeletion.Sound.not_owned {db : Db} {files : StorageFiles} {own : List Uuid}
    {deletion : OpenDeletion} {key : StorageKey} (hsound : deletion.Sound db files own)
    (hkey : deletion.key = some key) : db.artifactOwns key.value = false := by
  obtain ⟨row, _, hsame, hfree, _⟩ := hsound
  rw [← hsame key hkey]
  exact hfree

/-! ## Artifact rows -/

/-- The tables of the revisions and their artifacts are as they were. -/
structure SameRevisions (before after : Db) : Prop where
  artifacts : after.artifacts = before.artifacts
  revisions : after.revisions = before.revisions

theorem CleanupSettled.sameRevisions {before after : Db} {reservationId : Uuid}
    (hsettled : CleanupSettled before reservationId after) : SameRevisions before after := by
  cases hsettled <;> exact ⟨rfl, rfl⟩

variable {context : CallContext} {transaction : PartyTransaction} {before after : Db}

/-- A transaction of an upload adds artifacts only if it commits the revision. -/
theorem UploadSession.transaction_revisions
    (htransaction : session.transaction? platform context = some transaction)
    (hruns : transaction.body.Runs before moved after) :
    SameRevisions before after ∨
      (session.phase = .committing ∧ ∃ revision,
        moved = .upload (session.goto (.finished revision)) ∧
          (commitRevisionMetadata platform context session.dashboardId session.createdById
            session.prepared).Runs before revision after) := by
  unfold UploadSession.transaction? at htransaction
  cases hphase : session.phase with
  | inserting attempts key =>
      simp only [hphase, Option.some.injEq] at htransaction
      subst htransaction
      simp only [runs_bind, runs_pure] at hruns
      obtain ⟨result, middle, hinsert, rfl, rfl⟩ := hruns
      rcases insertReservation_runs hinsert with ⟨_, rfl⟩ | ⟨_, _, _, _, _, _, _, _, _, _, rfl⟩
      · exact .inl ⟨rfl, rfl⟩
      · exact .inl ⟨rfl, rfl⟩
  | markingVerified candidate receipt | markingCommitted candidate receipt =>
      simp only [hphase, Option.some.injEq] at htransaction
      subst htransaction
      simp only [runs_bind, runs_pure] at hruns
      obtain ⟨done, middle, hmark, rfl, rfl⟩ := hruns
      rcases markReservationVerified_runs hmark with ⟨_, _, _, _, _, _, rfl⟩
      exact .inl ⟨rfl, rfl⟩
  | markingCollision candidate =>
      simp only [hphase, Option.some.injEq] at htransaction
      subst htransaction
      simp only [runs_bind, runs_pure] at hruns
      obtain ⟨done, middle, hmark, rfl, rfl⟩ := hruns
      rcases markReservationCollision_runs hmark with ⟨_, _, ⟨_, rfl⟩ | ⟨_, rfl⟩⟩
      · exact .inl ⟨rfl, rfl⟩
      · exact .inl ⟨rfl, rfl⟩
  | markingCleanupRequired candidate =>
      simp only [hphase, Option.some.injEq] at htransaction
      subst htransaction
      simp only [runs_bind, runs_pure] at hruns
      obtain ⟨done, middle, hmark, rfl, rfl⟩ := hruns
      rcases markReservationCleanupRequired_runs hmark with ⟨_, _, rfl⟩
      exact .inl ⟨rfl, rfl⟩
  | committing =>
      simp only [hphase, Option.some.injEq] at htransaction
      subst htransaction
      simp only [runs_bind, runs_pure] at hruns
      obtain ⟨revision, middle, hcommit, rfl, rfl⟩ := hruns
      exact .inr ⟨rfl, revision, rfl, hcommit⟩
  | cleaning candidates =>
      cases candidates with
      | nil => simp [hphase] at htransaction
      | cons candidate rest =>
          simp only [hphase, Option.some.injEq] at htransaction
          subst htransaction
          simp only [runs_bind, runs_pure] at hruns
          obtain ⟨decision, middle, hdecide, rfl, rfl⟩ := hruns
          rcases decideUnowned_runs hdecide with ⟨_, hsettled⟩ | ⟨_, _, _, _, _, _, _,
            ⟨_, _, rfl⟩ | ⟨_, _, rfl⟩⟩
          · exact .inl hsettled.sameRevisions
          · exact .inl ⟨rfl, rfl⟩
          · exact .inl ⟨rfl, rfl⟩
  | deleted candidate rest removed =>
      simp only [hphase, Option.some.injEq] at htransaction
      subst htransaction
      simp only [runs_bind, runs_pure] at hruns
      obtain ⟨done, middle, hfinish, rfl, rfl⟩ := hruns
      rcases finishDeletion_runs hfinish with ⟨_, _, ⟨_, rfl⟩ | ⟨_, rfl⟩⟩
      · exact .inl ⟨rfl, rfl⟩
      · exact .inl ⟨rfl, rfl⟩
  | _ => simp [hphase] at htransaction

theorem CleanupJob.transaction_revisions {job : CleanupJob}
    (htransaction : job.transaction? = some transaction)
    (hruns : transaction.body.Runs before moved after) :
    SameRevisions before after := by
  unfold CleanupJob.transaction? at htransaction
  cases hphase : job.phase with
  | deciding ids =>
      cases ids with
      | nil => simp [hphase] at htransaction
      | cons reservationId rest =>
          simp only [hphase, Option.some.injEq] at htransaction
          subst htransaction
          simp only [CleanupJob.decide, runs_bind, runs_get, runs_pure, and_assoc,
            exists_and_left, exists_eq_left'] at hruns
          obtain ⟨decision, middle, ⟨made, _, hdecide, _, rfl⟩, _, rfl⟩ := hruns
          rcases decideExpired_runs hdecide with ⟨_, hsettled⟩ | ⟨_, rfl, _⟩
          · exact hsettled.sameRevisions
          · exact ⟨rfl, rfl⟩
  | deleted reservationId removed rest =>
      simp only [hphase, Option.some.injEq] at htransaction
      subst htransaction
      simp only [runs_bind, runs_pure] at hruns
      obtain ⟨done, middle, hfinish, rfl, rfl⟩ := hruns
      rcases finishDeletion_runs hfinish with ⟨_, _, ⟨_, rfl⟩ | ⟨_, rfl⟩⟩
      · exact ⟨rfl, rfl⟩
      · exact ⟨rfl, rfl⟩
  | _ => simp [hphase] at htransaction

/-- A step keeps the revisions, or it commits the revision of an upload. -/
theorem UploadParty.act_revisions (htracked : party.Tracked store)
    (hact : party.act platform store label = some (next, moved)) :
    SameRevisions store.db next.db ∨
      ∃ session context revision, party = .upload session ∧ session.phase = .committing ∧
        (commitRevisionMetadata platform context session.dashboardId session.createdById
          session.prepared).Runs store.db revision next.db ∧
          (∀ item ∈ session.prepared, item.reservationId ∉ store.locked) ∧
            (moved = .upload (session.goto (.finished revision)) ∨
              moved = .upload session.fail) := by
  cases label with
  | generate key report =>
      rw [(UploadParty.generate_quiet hact).1]
      exact .inl ⟨rfl, rfl⟩
  | store results =>
      rw [(UploadParty.callStorage_called htracked hact).db]
      exact .inl ⟨rfl, rfl⟩
  | crash =>
      cases hact
      exact .inl ⟨rfl, rfl⟩
  | transact context report =>
      obtain ⟨transaction, htransaction, htransact⟩ := Option.bind_eq_some_iff.mp hact
      unfold UploadStore.transact at htransact
      split at htransact
      · cases htransact
      · rename_i hblocks
        split at htransact
        · simp only [Option.some.injEq, Prod.mk.injEq] at htransact
          obtain ⟨rfl, hmoved⟩ := htransact
          rcases reported_cases transaction.body store.db report with
            hfailed | ⟨value, after, hruns, hreport, hdb, hvalue⟩
          · rw [hfailed]
            exact .inl ⟨rfl, rfl⟩
          · rw [hdb]
            cases party with
            | cleanup job => exact .inl (CleanupJob.transaction_revisions htransaction hruns)
            | upload session =>
                cases session.transaction_revisions htransaction hruns with
                | inl hsame => exact .inl hsame
                | inr hcommit =>
                    obtain ⟨hphase, revision, hfinished, hcommit⟩ := hcommit
                    have hcommitting : transaction.rows =
                        session.prepared.map PreparedArtifact.reservationId ∧
                          transaction.onFailure = .upload session.fail := by
                      change session.transaction? platform context = some transaction
                        at htransaction
                      simp only [UploadSession.transaction?, hphase, Option.some.injEq]
                        at htransaction
                      subst htransaction
                      exact ⟨rfl, rfl⟩
                    right
                    refine ⟨session, context, revision, rfl, hphase, hcommit, ?_, ?_⟩
                    · intro item hitem hlocked
                      apply hblocks
                      refine ⟨hreport, item.reservationId, ?_, hlocked⟩
                      rw [hcommitting.1]
                      exact List.mem_map_of_mem hitem
                    · cases hvalue with
                      | inl hsome =>
                          rw [hsome, Option.getD_some] at hmoved
                          exact .inl (hmoved.symm.trans hfinished)
                      | inr hnone =>
                          rw [hnone, Option.getD_none, hcommitting.2] at hmoved
                          exact .inr hmoved.symm
        · cases htransact

/-- Artifacts stay, and the files of what they own stay as they are. -/
structure KeepsCommitted (before after : UploadStore) : Prop where
  rows : ∀ artifact ∈ before.db.artifacts, artifact ∈ after.db.artifacts
  files : ∀ key : StorageKey, before.db.artifactOwns key.value = true →
    ∀ bytes, before.files.read key.finalPath = some bytes →
      after.files.read key.finalPath = some bytes

theorem KeepsCommitted.refl (store : UploadStore) : KeepsCommitted store store :=
  ⟨fun _ hartifact => hartifact, fun _ _ _ hread => hread⟩

theorem KeepsCommitted.owned {before after : UploadStore} (hkeeps : KeepsCommitted before after)
    {value : Text} (howned : before.db.artifactOwns value = true) :
    after.db.artifactOwns value = true := by
  obtain ⟨artifact, hartifact, hkey⟩ := Db.artifactOwns_iff.mp howned
  exact Db.artifactOwns_iff.mpr ⟨artifact, hkeeps.rows artifact hartifact, hkey⟩

theorem KeepsCommitted.trans {first second third : UploadStore}
    (hfirst : KeepsCommitted first second) (hsecond : KeepsCommitted second third) :
    KeepsCommitted first third := by
  refine ⟨fun artifact hartifact => hsecond.rows artifact (hfirst.rows artifact hartifact), ?_⟩
  intro key howned bytes hread
  exact hsecond.files key (hfirst.owned howned) bytes (hfirst.files key howned bytes hread)

theorem UploadParty.Tracked.keepsCommitted (htracked : party.Tracked store)
    (hact : party.act platform store label = some (next, moved)) :
    KeepsCommitted store next := by
  constructor
  · intro artifact hartifact
    cases UploadParty.act_revisions htracked hact with
    | inl hsame => rw [hsame.artifacts]; exact hartifact
    | inr hcommit =>
        obtain ⟨session, context, revision, _, _, hcommit, _⟩ := hcommit
        exact (commitRevisionMetadata_runs hcommit).artifacts.1 artifact hartifact
  · intro key howned bytes hread
    cases UploadParty.act_finals hact key bytes hread with
    | inl hkept => exact hkept
    | inr hdeleting =>
        obtain ⟨deletion, hdeletion, hkey⟩ := hdeleting
        rw [(htracked.deletion deletion hdeletion).not_owned hkey] at howned
        cases howned

theorem uploadSystem_keepsCommitted {first last : Configuration UploadStore UploadParty}
    {events : List (PartyEvent UploadStore UploadParty UploadLabel)}
    (hreach : (uploadSystem platform).Reachable first)
    (hpath : (uploadSystem platform).transitions.Path first events last) :
    KeepsCommitted first.store last.store := by
  apply uploadSystem_invariant.related hreach hpath
  · exact KeepsCommitted.refl
  · exact fun hfirst hsecond => hfirst.trans hsecond
  · intro store next hchange
    obtain ⟨db, rfl, hartifacts, _⟩ := hchange
    refine ⟨fun artifact hartifact => ?_, fun _ _ _ hread => hread⟩
    rw [hartifacts]
    exact hartifact
  · intro store next party moved label hact _ htracked
    exact htracked.keepsCommitted hact

/-- An artifact is never lost, and its file never changes. -/
theorem committed_bytes_never_change {first last : Configuration UploadStore UploadParty}
    {events : List (PartyEvent UploadStore UploadParty UploadLabel)} {artifact : Artifact}
    (hreach : (uploadSystem platform).Reachable first)
    (hpath : (uploadSystem platform).transitions.Path first events last)
    (hartifact : artifact ∈ first.store.db.artifacts) :
    artifact ∈ last.store.db.artifacts ∧
      ∀ (key : StorageKey) (bytes : Bytes), key.value = artifact.storageKey →
        first.store.files.read key.finalPath = some bytes →
          last.store.files.read key.finalPath = some bytes := by
  have hkeeps := uploadSystem_keepsCommitted hreach hpath
  refine ⟨hkeeps.rows artifact hartifact, fun key bytes hkey hread => ?_⟩
  apply hkeeps.files key ?_ bytes hread
  exact Db.artifactOwns_iff.mpr ⟨artifact, hartifact, hkey.symm⟩

end Finals

/-! ## An upload that is answered -/

/-- The upload writes its file, marks it verified and commits. -/
def answeredSteps : List (ℕ × UploadLabel) :=
  [(0, .generate sampleReceipt.key .answered), (0, .transact (contextAt 3 4) .answered),
    (0, .store (List.replicate 40 (.succeeded 43))), (0, .transact (contextAt 4 5) .answered),
    (0, .transact (contextAt 5 6) .answered)]

theorem answered_upload_runs :
    ∃ state, (uploadSystem asciiPlatform).run sampleConfiguration answeredSteps = some state ∧
      (state.store.db.artifacts.rows.map Artifact.storageKey = [sampleReceipt.key.value] ∧
        state.store.files.read sampleReceipt.key.finalPath = some (repeatedToken 'A')) := by
  have hresult : ((uploadSystem asciiPlatform).run sampleConfiguration answeredSteps).map
      (fun state => (state.store.db.artifacts.rows.map Artifact.storageKey,
        state.store.files.read sampleReceipt.key.finalPath)) =
          some ([sampleReceipt.key.value], some (repeatedToken 'A')) := by
    decide +kernel
  obtain ⟨state, hrun, hstored⟩ := Option.map_eq_some_iff.mp hresult
  exact ⟨state, hrun, Prod.mk.inj hstored⟩

theorem mem_of_storageKeys {db : Db} {value : Text}
    (hkeys : db.artifacts.rows.map Artifact.storageKey = [value]) :
    ∃ artifact ∈ db.artifacts, artifact.storageKey = value := by
  have hmem : value ∈ db.artifacts.rows.map Artifact.storageKey := by
    rw [hkeys]
    exact List.mem_singleton_self value
  exact List.mem_map.mp hmem

/-- The process dies after its answer. -/
theorem answered_upload_stays :
    ∃ first last artifact, (uploadSystem asciiPlatform).run sampleConfiguration answeredSteps =
      some first ∧ (uploadSystem asciiPlatform).run first [(0, .crash)] = some last ∧
        artifact ∈ last.store.db.artifacts ∧
          last.store.files.read sampleReceipt.key.finalPath = some (repeatedToken 'A') := by
  obtain ⟨first, hrun, hkeys, hread⟩ := answered_upload_runs
  obtain ⟨artifact, hartifact, hkey⟩ := mem_of_storageKeys hkeys
  have hreach : ((uploadSystem asciiPlatform).sparing fun _ _ _ _ => True).Reachable first :=
    sampleConfiguration_run (by decide) hrun
  have hcrash : ((uploadSystem asciiPlatform).run first [(0, .crash)]).isSome = true := by
    have hboth : (((uploadSystem asciiPlatform).run sampleConfiguration answeredSteps).bind
        fun state => (uploadSystem asciiPlatform).run state [(0, .crash)]).isSome = true := by
      decide +kernel
    rwa [hrun] at hboth
  obtain ⟨last, hlast⟩ := Option.isSome_iff_exists.mp hcrash
  have hpath := PartySystem.path_of_run (fun _ _ _ _ _ _ _ _ => trivial) hlast
  have hkept := committed_bytes_never_change hreach.of_sparing hpath hartifact
  exact ⟨first, last, artifact, hrun, hlast, hkept.1,
    hkept.2 sampleReceipt.key (repeatedToken 'A') hkey.symm hread⟩

end Agora
