import Agora.ArtifactDeleteProgram
import Agora.NoClobberStorage

/-!
# What the outcome of a write says about the disk

One write runs alone and every system call may fail.  Until the link the files
read as before the write, except for its pending file; the link adds the final
file with the whole payload.  How the write ends therefore decides what the disk
holds.
-/

namespace Agora

/-- The bytes of a stream, if all of its chunks are bytes. -/
def payloadOf : List Chunk → Option Bytes
  | [] => some []
  | .bytes chunk :: rest => (payloadOf rest).map (chunk ++ ·)
  | _ :: _ => none

/-- A write executes its system calls with the given results. -/
def writeAlone (sha256 : Bytes → Text) (files : StorageFiles) (call : WriteCall)
    (results : List SystemResult) : StorageFiles × WriteCall :=
  results.foldl (fun state result => advance sha256 state.1 state.2 result) (files, call)

/-- The receipt describes the whole payload. -/
def Receipted (sha256 : Bytes → Text) (key : StorageKey) (chunks : List Chunk)
    (receipt : StoredArtifact) (payload : Bytes) : Prop :=
  payloadOf chunks = some payload ∧ receipt = .of sha256 key payload

/-- What the outcome of a write says about the files before and after it. -/
def WriteOutcome.TellsDisk (sha256 : Bytes → Text) (key : StorageKey) (chunks : List Chunk)
    (before after : StorageFiles) : WriteOutcome → Prop
  | .returned receipt =>
      ∃ payload, Receipted sha256 key chunks receipt payload ∧
        before.read key.finalPath = none ∧ before.read key.pendingPath = none ∧
          after.read = Function.update before.read key.finalPath (some payload)
  | .committed receipt =>
      ∃ payload, Receipted sha256 key chunks receipt payload ∧
        before.read key.finalPath = none ∧
          after.read key.finalPath = some payload ∧
            ∀ path, path ≠ key.finalPath → path ≠ key.pendingPath →
              after.read path = before.read path
  | .raised (.storage .storageCollision _) =>
      (before.read key.pendingPath ≠ none ∨ before.read key.finalPath ≠ none) ∧
        after.read = before.read ∧ after.hasDirectory = before.hasDirectory
  | .raised (.storage .storageCleanupRequired _) =>
      ∀ path, path ≠ key.pendingPath → after.read path = before.read path
  | .raised _ => after.read = before.read

/-! ## The files during a write -/

/-- The files read as before, except that the pending file holds the bytes. -/
def Pends (key : StorageKey) (before files : StorageFiles) (bytes : Bytes) : Prop :=
  before.read key.pendingPath = none ∧
    files.read = Function.update before.read key.pendingPath (some bytes)

def StorageError.isCollision : StorageError → Bool
  | .storage .storageCollision _ => true
  | _ => false

/-- The part of `TellsDisk` that does not speak of directories. -/
def WriteOutcome.TellsFiles (sha256 : Bytes → Text) (key : StorageKey) (chunks : List Chunk)
    (before after : StorageFiles) : WriteOutcome → Prop
  | .raised (.storage .storageCollision _) =>
      (before.read key.pendingPath ≠ none ∨ before.read key.finalPath ≠ none) ∧
        after.read = before.read
  | outcome => outcome.TellsDisk sha256 key chunks before after

/-- How the files of a running write differ from those it started with. -/
def WriteCall.Traced (sha256 : Bytes → Text) (chunks : List Chunk) (before files : StorageFiles)
    (call : WriteCall) : Prop :=
  match call.phase with
  | .streaming _ received =>
      Pends call.key before files received ∧
        payloadOf chunks = (payloadOf call.chunks).map (received ++ ·)
  | .writingChunk _ received remaining =>
      (∃ bytes, bytes ++ remaining = received ∧ Pends call.key before files bytes) ∧
        payloadOf chunks = (payloadOf call.chunks).map (received ++ ·)
  | .syncingFile _ received | .rewinding _ received | .readingBack _ received _ =>
      Pends call.key before files received ∧ payloadOf chunks = some received
  | .closingAfterFailure _ error | .unlinkingAfterFailure error =>
      (∃ bytes, Pends call.key before files bytes) ∧
        (error.isCollision = true → before.read call.key.finalPath ≠ none)
  | .closing _ receipt | .linking receipt =>
      ∃ payload, Receipted sha256 call.key chunks receipt payload ∧
        Pends call.key before files payload
  | .unlinkingPending receipt =>
      ∃ payload, Receipted sha256 call.key chunks receipt payload ∧
        before.read call.key.finalPath = none ∧ before.read call.key.pendingPath = none ∧
          files.read = Function.update
            (Function.update before.read call.key.pendingPath (some payload))
              call.key.finalPath (some payload)
  | .syncingDirectory receipt =>
      ∃ payload, Receipted sha256 call.key chunks receipt payload ∧
        before.read call.key.finalPath = none ∧ before.read call.key.pendingPath = none ∧
          files.read = Function.update before.read call.key.finalPath (some payload)
  | .finished outcome => outcome.TellsFiles sha256 call.key chunks before files
  | .validatingExpectations | .openingPending | .creatingDirectory _ _
  | .assertingDirectory _ _ | .resolvingDirectory _ _ | .syncingParent _ =>
      files.read = before.read ∧ call.chunks = chunks

variable {sha256 : Bytes → Text} {chunks : List Chunk} {before files : StorageFiles}
  {call : WriteCall} {result : SystemResult}

theorem Pends.failed {bytes : Bytes} {error : StorageError} {descriptor : Inode}
    (hpends : Pends call.key before files bytes) (herror : error.isCollision = false) :
    (call.goto (.closingAfterFailure descriptor error)).Traced sha256 chunks before files := by
  refine ⟨⟨bytes, hpends⟩, ?_⟩
  intro hcollision
  rw [herror] at hcollision
  cases hcollision

theorem Pends.abandoned {bytes : Bytes} {error : StorageError}
    (hpends : Pends call.key before files bytes) (herror : error.isCollision = false) :
    (call.goto (.unlinkingAfterFailure error)).Traced sha256 chunks before files := by
  refine ⟨⟨bytes, hpends⟩, ?_⟩
  intro hcollision
  rw [herror] at hcollision
  cases hcollision

/-- A write that fails before it makes its pending file. -/
theorem WriteCall.raise_traced {kind : StorageErrorKind} {message : String}
    (hsame : files.read = before.read) (hkind : kind ≠ .storageCollision) :
    (call.raise kind message).Traced sha256 chunks before files := by
  cases kind with
  | storageCollision => exact absurd rfl hkind
  | storageCleanupRequired => exact fun path _ => congrFun hsame path
  | _ => exact hsame

theorem WriteCall.enterDirectories_traced {rest : List StorageDirectory}
    (hsame : files.read = before.read) (hchunks : call.chunks = chunks) :
    (call.goto (enterDirectories rest)).Traced sha256 chunks before files := by
  cases rest with
  | nil => exact ⟨hsame, hchunks⟩
  | cons directory rest => exact ⟨hsame, hchunks⟩

theorem WriteCall.nextChunk_traced {descriptor : Inode} {received : Bytes}
    (hpends : Pends call.key before files received)
    (hstream : payloadOf chunks = (payloadOf call.chunks).map (received ++ ·)) :
    (call.nextChunk sha256 descriptor received).Traced sha256 chunks before files := by
  unfold nextChunk
  split
  · rename_i hend
    rw [hend] at hstream
    split
    · exact hpends.failed rfl
    · exact ⟨hpends, by simpa [payloadOf] using hstream⟩
  · exact ⟨⟨received, hpends⟩, by simp [StorageError.isCollision]⟩
  · exact ⟨⟨received, hpends⟩, by simp [StorageError.isCollision]⟩
  · rename_i chunk rest hnext
    rw [hnext, payloadOf, Option.map_map] at hstream
    have hrest : payloadOf chunks = (payloadOf rest).map (received ++ chunk ++ ·) := by
      rw [hstream]
      congr 1
      funext tail
      simp
    split
    · exact ⟨⟨received, hpends⟩, by simp [StorageError.isCollision]⟩
    · cases chunk with
      | nil => exact ⟨by simpa using hpends, by simpa using hrest⟩
      | cons byte chunk => exact ⟨⟨received, rfl, hpends⟩, hrest⟩

theorem WriteCall.readback_traced {descriptor : Inode} {received stored content : Bytes}
    {count : ℕ} (hpends : Pends call.key before files received)
    (hstream : payloadOf chunks = some received) :
    (call.readback sha256 descriptor received stored content count).Traced sha256 chunks before
      files := by
  unfold readback
  split
  · split
    · exact hpends.failed rfl
    · exact ⟨received, ⟨hstream, rfl⟩, hpends⟩
  · exact ⟨hpends, hstream⟩

theorem WriteCall.opening_traced (hphase : call.phase = .openingPending)
    (hsame : files.read = before.read) (hchunks : call.chunks = chunks) :
    (advance sha256 files call result).2.Traced sha256 chunks before
      (advance sha256 files call result).1 := by
  cases result with
  | succeeded count =>
      simp only [advance, hphase]
      split
      · rename_i next descriptor hcreate
        obtain ⟨hfree, hread⟩ := FileSystem.read_createExclusive hcreate
        rw [hsame] at hfree hread
        refine ⟨⟨hfree, hread⟩, ?_⟩
        rw [← hchunks]
        simp [WriteCall.goto]
      · rename_i hcreate
        have hpending := FileSystem.createExclusive_eq_alreadyExists hcreate
        rw [hsame] at hpending
        exact ⟨.inl hpending, hsame⟩
      · exact WriteCall.raise_traced hsame (by simp)
  | _ =>
      simp only [advance, hphase]
      exact WriteCall.raise_traced hsame (by simp)

theorem WriteCall.writing_traced {descriptor : Inode} {received remaining : Bytes}
    (hphase : call.phase = .writingChunk descriptor received remaining)
    (hgood : call.Consistent sha256 files) {bytes : Bytes} (hsplit : bytes ++ remaining = received)
    (hpends : Pends call.key before files bytes)
    (hstream : payloadOf chunks = (payloadOf call.chunks).map (received ++ ·)) :
    (advance sha256 files call result).2.Traced sha256 chunks before
      (advance sha256 files call result).1 := by
  simp only [WriteCall.Consistent, hphase] at hgood
  obtain ⟨inode, hentry, hsole, rfl, _⟩ := hgood
  cases result with
  | succeeded count =>
      simp only [advance, hphase]
      split
      · exact hpends.failed rfl
      · rename_i byte written htake
        rw [← htake]
        have hstored : files.read call.key.pendingPath = some bytes := by
          rw [hpends.2, Function.update_self]
        have hwritten : Pends call.key before (files.append inode (remaining.take count))
            (bytes ++ remaining.take count) := by
          refine ⟨hpends.1, ?_⟩
          rw [FileSystem.read_append hentry hsole hstored, hpends.2, Function.update_idem]
        have hreceived : bytes ++ remaining.take count ++ remaining.drop count = received := by
          rw [List.append_assoc, List.take_append_drop, hsplit]
        cases hdrop : remaining.drop count with
        | nil =>
            rw [hdrop, List.append_nil] at hreceived
            rw [hreceived] at hwritten
            exact ⟨hwritten, hstream⟩
        | cons next rest =>
            rw [hdrop] at hreceived
            exact ⟨⟨_, hreceived, hwritten⟩, hstream⟩
  | _ =>
      simp only [advance, hphase]
      exact hpends.failed rfl

theorem WriteCall.linking_traced {receipt : StoredArtifact} {payload : Bytes}
    (hphase : call.phase = .linking receipt)
    (hreceipted : Receipted sha256 call.key chunks receipt payload)
    (hpends : Pends call.key before files payload) :
    (advance sha256 files call result).2.Traced sha256 chunks before
      (advance sha256 files call result).1 := by
  have hne := StorageKey.finalPath_ne_pendingPath call.key call.key
  cases result with
  | succeeded count =>
      simp only [advance, hphase]
      split
      · rename_i next hlink
        obtain ⟨hfree, hread⟩ := FileSystem.read_link hlink
        rw [hpends.2, Function.update_of_ne hne] at hfree
        rw [hpends.2, Function.update_self] at hread
        exact ⟨payload, hreceipted, hfree, hpends.1, hread⟩
      · rename_i hlink
        have hfinal := FileSystem.link_eq_alreadyExists hlink
        rw [hpends.2, Function.update_of_ne hne] at hfinal
        exact ⟨⟨payload, hpends⟩, fun _ => hfinal⟩
      · exact hpends.abandoned rfl
  | _ =>
      simp only [advance, hphase]
      exact hpends.abandoned rfl

/-- The removal of the pending file after a failure restores the files. -/
theorem WriteCall.cleaning_traced {error : StorageError} {bytes : Bytes}
    (hphase : call.phase = .unlinkingAfterFailure error)
    (hpends : Pends call.key before files bytes)
    (hfinal : error.isCollision = true → before.read call.key.finalPath ≠ none) :
    (advance sha256 files call result).2.Traced sha256 chunks before
      (advance sha256 files call result).1 := by
  cases result with
  | succeeded count =>
      simp only [advance, hphase]
      split
      · rename_i next hunlink
        have hread := FileSystem.read_unlink hunlink
        rw [hpends.2, Function.update_idem, Function.update_eq_self_iff.mpr hpends.1.symm] at hread
        cases error with
        | storage kind message =>
            cases kind with
            | storageCollision => exact ⟨.inr (hfinal rfl), hread⟩
            | storageCleanupRequired => exact fun path _ => congrFun hread path
            | _ => exact hread
        | _ => exact hread
      · rename_i hunlink
        have hgone := FileSystem.read_eq_none_iff.mpr (FileSystem.unlink_eq_error hunlink)
        rw [hpends.2, Function.update_self] at hgone
        cases hgone
  | _ =>
      simp only [advance, hphase]
      have hothers : ∀ path, path ≠ call.key.pendingPath → files.read path = before.read path := by
        intro path hpath
        rw [hpends.2, Function.update_of_ne hpath]
      exact hothers

theorem WriteCall.committing_traced {receipt : StoredArtifact} {payload : Bytes}
    (hphase : call.phase = .unlinkingPending receipt)
    (hreceipted : Receipted sha256 call.key chunks receipt payload)
    (hfinal : before.read call.key.finalPath = none)
    (hpending : before.read call.key.pendingPath = none)
    (hread : files.read = Function.update
      (Function.update before.read call.key.pendingPath (some payload))
        call.key.finalPath (some payload)) :
    (advance sha256 files call result).2.Traced sha256 chunks before
      (advance sha256 files call result).1 := by
  have hne := StorageKey.finalPath_ne_pendingPath call.key call.key
  have hcommitted : (WriteOutcome.committed receipt).TellsFiles sha256 call.key chunks before
      files := by
    refine ⟨payload, hreceipted, hfinal, ?_, ?_⟩
    · rw [hread, Function.update_self]
    · intro path hother hstaged
      rw [hread, Function.update_of_ne hother, Function.update_of_ne hstaged]
  cases result with
  | succeeded count =>
      simp only [advance, hphase]
      split
      · rename_i next hunlink
        have hgone : Function.update before.read call.key.pendingPath none = before.read :=
          Function.update_eq_self_iff.mpr hpending.symm
        refine ⟨payload, hreceipted, hfinal, hpending, ?_⟩
        rw [FileSystem.read_unlink hunlink, hread, Function.update_comm hne, Function.update_idem,
          hgone]
        rfl
      · exact hcommitted
  | _ =>
      simp only [advance, hphase]
      exact hcommitted

/-- A step of a write keeps track of the files. -/
theorem advance_traced (hgood : call.Consistent sha256 files)
    (htraced : call.Traced sha256 chunks before files) :
    (advance sha256 files call result).2.Traced sha256 chunks before
      (advance sha256 files call result).1 := by
  cases hphase : call.phase with
  | validatingExpectations =>
      simp only [WriteCall.Traced, hphase] at htraced
      simp only [advance, hphase]
      split
      · exact WriteCall.raise_traced htraced.1 (by simp)
      · exact WriteCall.enterDirectories_traced htraced.1 htraced.2
  | creatingDirectory directory rest =>
      simp only [WriteCall.Traced, hphase] at htraced
      cases result with
      | succeeded count =>
          simp only [advance, hphase]
          split
          · rename_i next hmake
            obtain ⟨hentry, hcontent, _⟩ := FileSystem.makeDirectory_eq_ok hmake
            exact ⟨(FileSystem.read_eq_of_same hentry hcontent).trans htraced.1, htraced.2⟩
          · exact htraced
          · exact WriteCall.raise_traced htraced.1 (by simp)
      | _ =>
          simp only [advance, hphase]
          exact WriteCall.raise_traced htraced.1 (by simp)
  | assertingDirectory created rest =>
      simp only [WriteCall.Traced, hphase] at htraced
      cases result with
      | succeeded count =>
          simp only [advance, hphase]
          exact htraced
      | _ =>
          simp only [advance, hphase]
          exact WriteCall.raise_traced htraced.1 (by simp)
  | resolvingDirectory created rest =>
      simp only [WriteCall.Traced, hphase] at htraced
      cases result with
      | succeeded count =>
          cases created with
          | true =>
              simp only [advance, hphase]
              exact htraced
          | false =>
              simp only [advance, hphase]
              exact WriteCall.enterDirectories_traced htraced.1 htraced.2
      | _ =>
          cases created <;> simp only [advance, hphase] <;>
            exact WriteCall.raise_traced htraced.1 (by simp)
  | syncingParent rest =>
      simp only [WriteCall.Traced, hphase] at htraced
      cases result with
      | succeeded count =>
          simp only [advance, hphase]
          exact WriteCall.enterDirectories_traced htraced.1 htraced.2
      | _ =>
          simp only [advance, hphase]
          exact WriteCall.raise_traced htraced.1 (by simp)
  | openingPending =>
      simp only [WriteCall.Traced, hphase] at htraced
      exact WriteCall.opening_traced hphase htraced.1 htraced.2
  | streaming descriptor received =>
      simp only [WriteCall.Traced, hphase] at htraced
      simp only [advance, hphase]
      exact WriteCall.nextChunk_traced htraced.1 htraced.2
  | writingChunk descriptor received remaining =>
      simp only [WriteCall.Traced, hphase] at htraced
      obtain ⟨⟨bytes, hsplit, hpends⟩, hstream⟩ := htraced
      exact WriteCall.writing_traced hphase hgood hsplit hpends hstream
  | syncingFile descriptor received =>
      simp only [WriteCall.Traced, hphase] at htraced
      cases result with
      | succeeded count =>
          simp only [advance, hphase]
          exact htraced
      | _ =>
          simp only [advance, hphase]
          exact htraced.1.failed rfl
  | rewinding descriptor received =>
      simp only [WriteCall.Traced, hphase] at htraced
      cases result with
      | succeeded count =>
          simp only [advance, hphase]
          exact htraced
      | _ =>
          simp only [advance, hphase]
          exact htraced.1.failed rfl
  | readingBack descriptor received stored =>
      simp only [WriteCall.Traced, hphase] at htraced
      cases result with
      | succeeded count =>
          simp only [advance, hphase]
          exact WriteCall.readback_traced htraced.1 htraced.2
      | _ =>
          simp only [advance, hphase]
          exact htraced.1.failed rfl
  | closingAfterFailure descriptor error =>
      simp only [WriteCall.Traced, hphase] at htraced
      obtain ⟨⟨bytes, hpends⟩, hfinal⟩ := htraced
      cases result with
      | succeeded count =>
          simp only [advance, hphase]
          exact ⟨⟨bytes, hpends⟩, hfinal⟩
      | _ =>
          simp only [advance, hphase]
          exact hpends.abandoned rfl
  | unlinkingAfterFailure error =>
      simp only [WriteCall.Traced, hphase] at htraced
      obtain ⟨⟨bytes, hpends⟩, hfinal⟩ := htraced
      exact WriteCall.cleaning_traced hphase hpends hfinal
  | closing descriptor receipt =>
      simp only [WriteCall.Traced, hphase] at htraced
      obtain ⟨payload, hreceipted, hpends⟩ := htraced
      cases result with
      | succeeded count =>
          simp only [advance, hphase]
          exact ⟨payload, hreceipted, hpends⟩
      | _ =>
          simp only [advance, hphase]
          exact hpends.abandoned rfl
  | linking receipt =>
      simp only [WriteCall.Traced, hphase] at htraced
      obtain ⟨payload, hreceipted, hpends⟩ := htraced
      exact WriteCall.linking_traced hphase hreceipted hpends
  | unlinkingPending receipt =>
      simp only [WriteCall.Traced, hphase] at htraced
      obtain ⟨payload, hreceipted, hfinal, hpending, hread⟩ := htraced
      exact WriteCall.committing_traced hphase hreceipted hfinal hpending hread
  | syncingDirectory receipt =>
      simp only [WriteCall.Traced, hphase] at htraced
      obtain ⟨payload, hreceipted, hfinal, hpending, hread⟩ := htraced
      cases result with
      | succeeded count =>
          simp only [advance, hphase]
          exact ⟨payload, hreceipted, hfinal, hpending, hread⟩
      | _ =>
          simp only [advance, hphase]
          have hstored : files.read call.key.finalPath = some payload := by
            rw [hread, Function.update_self]
          refine ⟨payload, hreceipted, hfinal, hstored, ?_⟩
          intro path hother _
          rw [hread]
          exact Function.update_of_ne hother _ _
  | finished outcome => simpa only [advance, hphase] using htraced

/-! ## The directories of a write -/

/-- The directories that a write has still to enter. -/
def WritePhase.ahead : WritePhase → List StorageDirectory
  | .creatingDirectory directory rest => directory :: rest
  | .assertingDirectory _ rest | .resolvingDirectory _ rest | .syncingParent rest => rest
  | _ => []

@[simp] theorem WriteCall.ahead_enterDirectories (rest : List StorageDirectory) :
    (enterDirectories rest).ahead = rest := by
  cases rest with
  | nil => rfl
  | cons directory rest => rfl

@[simp] theorem WriteCall.ahead_continueWriting (descriptor : Inode)
    (received remaining : Bytes) : (continueWriting descriptor received remaining).ahead = [] := by
  cases remaining with
  | nil => rfl
  | cons byte rest => rfl

@[simp] theorem WriteCall.ahead_nextChunk (descriptor : Inode) (received : Bytes) :
    (call.nextChunk sha256 descriptor received).phase.ahead = [] := by
  unfold nextChunk
  split
  · split <;> rfl
  · rfl
  · rfl
  · split
    · rfl
    · exact ahead_continueWriting ..

@[simp] theorem WriteCall.ahead_readback (descriptor : Inode)
    (received stored content : Bytes) (count : ℕ) :
    (call.readback sha256 descriptor received stored content count).phase.ahead = [] := by
  unfold readback
  split
  · split <;> rfl
  · rfl

theorem ahead_advance : (advance sha256 files call result).2.phase.ahead <:+ call.phase.ahead ∨
    (advance sha256 files call result).2.phase.ahead = call.key.directories := by
  cases hphase : call.phase with
  | validatingExpectations =>
      simp only [advance, hphase]
      split
      · exact .inl List.nil_suffix
      · exact .inr (WriteCall.ahead_enterDirectories _)
  | creatingDirectory directory rest =>
      left
      cases result with
      | succeeded count =>
          simp only [advance, hphase]
          split
          · exact List.suffix_cons directory rest
          · exact List.suffix_cons directory rest
          · exact List.nil_suffix
      | _ =>
          simp only [advance, hphase]
          exact List.nil_suffix
  | assertingDirectory created rest =>
      left
      cases result with
      | succeeded count =>
          simp only [advance, hphase]
          exact List.suffix_rfl
      | _ =>
          simp only [advance, hphase]
          exact List.nil_suffix
  | resolvingDirectory created rest =>
      left
      cases result with
      | succeeded count =>
          cases created with
          | true =>
              simp only [advance, hphase]
              exact List.suffix_rfl
          | false => simp [advance, hphase, WritePhase.ahead.eq_3]
      | _ =>
          cases created <;> simp only [advance, hphase] <;> exact List.nil_suffix
  | syncingParent rest =>
      left
      cases result with
      | succeeded count => simp [advance, hphase, WritePhase.ahead.eq_4]
      | _ =>
          simp only [advance, hphase]
          exact List.nil_suffix
  | streaming descriptor received => simp [advance, hphase]
  | readingBack descriptor received stored =>
      cases result with
      | succeeded count => simp [advance, hphase]
      | _ =>
          simp only [advance, hphase]
          exact .inl List.nil_suffix
  | writingChunk descriptor received remaining =>
      cases result with
      | succeeded count =>
          simp only [advance, hphase]
          split
          · exact .inl List.nil_suffix
          · simp
      | _ =>
          simp only [advance, hphase]
          exact .inl List.nil_suffix
  | openingPending | linking receipt | unlinkingPending receipt | unlinkingAfterFailure error =>
      left
      cases result with
      | succeeded count =>
          simp only [advance, hphase]
          split <;> exact List.nil_suffix
      | _ =>
          simp only [advance, hphase]
          exact List.nil_suffix
  | finished outcome =>
      simp only [advance, hphase]
      exact .inl List.nil_suffix
  | _ =>
      left
      cases result <;> simp only [advance, hphase] <;> exact List.nil_suffix

theorem hasDirectory_advance :
    (advance sha256 files call result).1.hasDirectory = files.hasDirectory ∨
      ∃ directory ∈ call.phase.ahead, (advance sha256 files call result).1.hasDirectory =
        Function.update files.hasDirectory directory true := by
  cases hphase : call.phase with
  | creatingDirectory directory rest =>
      cases result with
      | succeeded count =>
          simp only [advance, hphase]
          split
          · rename_i next hmake
            exact .inr ⟨directory, List.mem_cons_self ..,
              FileSystem.hasDirectory_makeDirectory hmake⟩
          · exact .inl rfl
          · exact .inl rfl
      | _ =>
          left
          simp only [advance, hphase]
  | openingPending =>
      left
      cases result with
      | succeeded count =>
          simp only [advance, hphase]
          split
          · rename_i next descriptor hcreate
            exact FileSystem.hasDirectory_createExclusive hcreate
          · rfl
          · rfl
      | _ => simp only [advance, hphase]
  | linking receipt =>
      left
      cases result with
      | succeeded count =>
          simp only [advance, hphase]
          split
          · rename_i next hlink
            exact FileSystem.hasDirectory_link hlink
          · rfl
          · rfl
      | _ => simp only [advance, hphase]
  | unlinkingPending receipt | unlinkingAfterFailure error =>
      left
      cases result with
      | succeeded count =>
          simp only [advance, hphase]
          split
          · rename_i next hunlink
            exact FileSystem.hasDirectory_unlink hunlink
          · rfl
      | _ => simp only [advance, hphase]
  | writingChunk descriptor received remaining =>
      left
      cases result with
      | succeeded count =>
          simp only [advance, hphase]
          split <;> rfl
      | _ => simp only [advance, hphase]
  | validatingExpectations =>
      left
      simp only [advance, hphase]
      split <;> rfl
  | resolvingDirectory created rest =>
      left
      cases result <;> cases created <;> simp only [advance, hphase]
  | _ =>
      left
      cases result <;> simp only [advance, hphase]

/-- Only directories of the key come into being. -/
structure WriteCall.Entered (before files : StorageFiles) (call : WriteCall) : Prop where
  ahead : ∀ directory ∈ call.phase.ahead, directory ∈ call.key.directories
  kept : ∀ directory, before.hasDirectory directory = true →
    files.hasDirectory directory = true
  made : ∀ directory, files.hasDirectory directory = true →
    before.hasDirectory directory = true ∨ directory ∈ call.key.directories

theorem advance_entered (hentered : call.Entered before files) :
    (advance sha256 files call result).2.Entered before (advance sha256 files call result).1 := by
  have hdirectories : ∀ directory,
      (advance sha256 files call result).1.hasDirectory directory = true ↔
        files.hasDirectory directory = true ∨ (directory ∈ call.key.directories ∧
          (advance sha256 files call result).1.hasDirectory directory = true) := by
    intro directory
    cases hasDirectory_advance with
    | inl hsame =>
        rw [hsame]
        tauto
    | inr hmade =>
        obtain ⟨entered, hahead, hupdated⟩ := hmade
        rw [hupdated]
        by_cases hsame : directory = entered
        · rw [hsame, Function.update_self]
          have hkey := hentered.ahead entered hahead
          tauto
        · rw [Function.update_of_ne hsame]
          tauto
  refine ⟨?_, ?_, ?_⟩
  · intro directory hahead
    rw [advance_key]
    cases ahead_advance with
    | inl hsuffix => exact hentered.ahead directory (hsuffix.subset hahead)
    | inr hstart =>
        rw [hstart] at hahead
        exact hahead
  · intro directory hbefore
    exact (hdirectories directory).mpr (.inl (hentered.kept directory hbefore))
  · intro directory hafter
    rw [advance_key]
    cases (hdirectories directory).mp hafter with
    | inl hold => exact hentered.made directory hold
    | inr hnew => exact .inr hnew.1

/-- A key with a file has all of its directories. -/
theorem hasDirectory_of_file {key : StorageKey} {directory : StorageDirectory}
    (hfile : before.read key.pendingPath ≠ none ∨ before.read key.finalPath ≠ none)
    (hdirectory : directory ∈ key.directories) : before.hasDirectory directory = true := by
  by_contra hmissing
  rw [Bool.not_eq_true] at hmissing
  obtain ⟨hfinal, hpending⟩ := no_files_of_missing hdirectory hmissing
  cases hfile with
  | inl hfile => exact hfile (FileSystem.read_eq_none_iff.mpr hpending)
  | inr hfile => exact hfile (FileSystem.read_eq_none_iff.mpr hfinal)

theorem WriteCall.Entered.unchanged (hentered : call.Entered before files)
    (hfile : before.read call.key.pendingPath ≠ none ∨ before.read call.key.finalPath ≠ none) :
    files.hasDirectory = before.hasDirectory := by
  funext directory
  rw [Bool.eq_iff_iff]
  constructor
  · intro hafter
    cases hentered.made directory hafter with
    | inl hbefore => exact hbefore
    | inr hkey => exact hasDirectory_of_file hfile hkey
  · exact hentered.kept directory

/-! ## Runs of one write -/

/-- The invariant of a write that runs alone. -/
structure WriteCall.Alone (sha256 : Bytes → Text) (key : StorageKey) (chunks : List Chunk)
    (before files : StorageFiles) (call : WriteCall) : Prop where
  key : call.key = key
  consistent : call.Consistent sha256 files
  traced : call.Traced sha256 chunks before files
  entered : call.Entered before files

theorem writeAlone_alone {key : StorageKey} (results : List SystemResult)
    (hgood : call.Alone sha256 key chunks before files) :
    (writeAlone sha256 files call results).2.Alone sha256 key chunks before
      (writeAlone sha256 files call results).1 := by
  induction results generalizing files call with
  | nil => exact hgood
  | cons result rest ih =>
      apply ih
      exact ⟨advance_key.trans hgood.key, advance_consistent hgood.consistent,
        advance_traced hgood.consistent hgood.traced, advance_entered hgood.entered⟩

/-- However the system calls of a write end, its outcome tells what the disk holds. -/
theorem write_outcome_tells_disk {key : StorageKey} {expectedSize : Option ℤ}
    {expectedSha256 : Option Text} {results : List SystemResult} {outcome : WriteOutcome}
    (hrun : (writeAlone sha256 before (.start key chunks expectedSize expectedSha256)
      results).2.phase = .finished outcome) :
    outcome.TellsDisk sha256 key chunks before
      (writeAlone sha256 before (.start key chunks expectedSize expectedSha256) results).1 := by
  have hstart : (WriteCall.start key chunks expectedSize expectedSha256).Alone sha256 key chunks
      before before := by
    refine ⟨rfl, trivial, ⟨rfl, rfl⟩, ?_, fun _ hdirectory => hdirectory, fun _ => .inl⟩
    intro directory hahead
    cases hahead
  have hend := writeAlone_alone results hstart
  generalize writeAlone sha256 before _ results = last at hrun hend
  have htraced := hend.traced
  simp only [WriteCall.Traced, hrun, hend.key] at htraced
  cases outcome with
  | raised error =>
      cases error with
      | storage kind message =>
          cases kind with
          | storageCollision =>
              have hfile := htraced.1
              rw [← hend.key] at hfile
              exact ⟨htraced.1, htraced.2, hend.entered.unchanged hfile⟩
          | _ => exact htraced
      | _ => exact htraced
  | _ => exact htraced

/-- The removal of the pending file fails after the link. -/
theorem failed_unlink_is_committed :
    let last := writeAlone (fun _ => digestOf123) emptyStorage
      (.start zeroKey [.bytes [1], .bytes [2, 3]] (some 3) none)
      (List.replicate 25 (.succeeded 3) ++ [.failed])
    last.2.phase = .finished (.committed ⟨zeroKey, 3, digestOf123⟩) ∧
      (WriteOutcome.committed ⟨zeroKey, 3, digestOf123⟩).TellsDisk (fun _ => digestOf123) zeroKey
        [.bytes [1], .bytes [2, 3]] emptyStorage last.1 :=
  ⟨by decide +kernel, write_outcome_tells_disk (by decide +kernel)⟩

end Agora
