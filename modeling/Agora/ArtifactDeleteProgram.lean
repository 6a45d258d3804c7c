import Agora.ArtifactWriteProgram

/-!
# The system calls of `FilesystemArtifactStorage.delete`

Deletion walks the directories of the key, removes the final file and then the
pending one, and syncs the directory.  A missing directory or file counts as
deleted.  Whatever calls fail, only the two files of the key can disappear, and
a deletion that returns leaves neither of them.
-/

namespace Agora

inductive DeletePhase where
  | enteringDirectory (directory : StorageDirectory) (rest : List StorageDirectory)
  | assertingDirectory (rest : List StorageDirectory)
  | resolvingDirectory (rest : List StorageDirectory)
  | inspectingFinal
  | unlinkingFinal
  | inspectingPending
  | unlinkingPending
  | syncingDirectory
  | returned
  | raised (kind : StorageErrorKind) (message : String)
  deriving DecidableEq

/-- The next directory of `_paths`, or the final file below the last one. -/
def DeletePhase.walk : List StorageDirectory → DeletePhase
  | [] => .inspectingFinal
  | directory :: rest => .enteringDirectory directory rest

def unlinkIfPresent (files : StorageFiles) (path : StoragePath) : StorageFiles :=
  match files.unlink path with
  | .ok next => next
  | .error _ => files

def DeletePhase.raise (message : String) : DeletePhase :=
  .raised .artifactStorageError message

/-- One step of a deletion of the key. -/
def DeletePhase.advance (key : StorageKey) (files : StorageFiles) (phase : DeletePhase)
    (result : SystemResult) : StorageFiles × DeletePhase :=
  match phase, result with
  | .enteringDirectory directory rest, .succeeded _ =>
      if files.hasDirectory directory = true then (files, .assertingDirectory rest)
      else (files, .returned)
  | .enteringDirectory _ _, _ =>
      (files, .raise "could not inspect artifact storage directory")
  | .assertingDirectory rest, .succeeded _ => (files, .resolvingDirectory rest)
  | .assertingDirectory _, .unsafeEntry =>
      (files, .raised .unsafeStorageEntry "artifact storage directory is unsafe")
  | .assertingDirectory _, .failed =>
      (files, .raise "could not inspect artifact storage directory")
  | .resolvingDirectory rest, .succeeded _ => (files, .walk rest)
  | .resolvingDirectory _, .unsafeEntry =>
      (files, .raised .unsafeStorageEntry "storage key escaped the configured root")
  | .resolvingDirectory _, .failed =>
      (files, .raise "could not resolve artifact storage directory")
  | .inspectingFinal, .succeeded _ =>
      if files.entry key.finalPath = none then (files, .inspectingPending)
      else (files, .unlinkingFinal)
  | .inspectingPending, .succeeded _ =>
      if files.entry key.pendingPath = none then (files, .syncingDirectory)
      else (files, .unlinkingPending)
  | .inspectingFinal, .unsafeEntry | .inspectingPending, .unsafeEntry =>
      (files, .raised .unsafeStorageEntry "artifact storage entry is unsafe")
  | .inspectingFinal, .failed | .inspectingPending, .failed =>
      (files, .raise "could not inspect private artifact")
  | .unlinkingFinal, .succeeded _ =>
      (unlinkIfPresent files key.finalPath, .inspectingPending)
  | .unlinkingPending, .succeeded _ =>
      (unlinkIfPresent files key.pendingPath, .syncingDirectory)
  | .unlinkingFinal, _ | .unlinkingPending, _ =>
      (files, .raise "could not delete private artifact")
  | .syncingDirectory, .succeeded _ => (files, .returned)
  | .syncingDirectory, _ =>
      (files, .raise "artifact deletion durability check failed")
  | .returned, _ => (files, .returned)
  | .raised kind message, _ => (files, .raised kind message)

/-- A deletion that runs alone, with the results of its system calls in order; one
that has not ended when they are used up has crashed. -/
def runDelete (key : StorageKey) (files : StorageFiles) (results : List SystemResult) :
    StorageFiles × DeletePhase :=
  results.foldl (fun current result => current.2.advance key current.1 result)
    (files, .walk key.directories)

/-! ## What a deletion can change -/

@[simp] theorem unlinkIfPresent_entry (files : StorageFiles) (path : StoragePath) :
    (unlinkIfPresent files path).entry = Function.update files.entry path none := by
  unfold unlinkIfPresent
  cases hunlink : files.unlink path with
  | ok next => exact (FileSystem.unlink_eq_ok hunlink).2.1
  | error refusal =>
      have hnone := FileSystem.unlink_eq_error hunlink
      exact (Function.update_eq_self_iff.mpr hnone.symm).symm

@[simp] theorem unlinkIfPresent_content (files : StorageFiles) (path : StoragePath) :
    (unlinkIfPresent files path).content = files.content := by
  unfold unlinkIfPresent
  cases hunlink : files.unlink path with
  | ok next => exact (FileSystem.unlink_eq_ok hunlink).2.2.1
  | error refusal => rfl

@[simp] theorem unlinkIfPresent_nextInode (files : StorageFiles) (path : StoragePath) :
    (unlinkIfPresent files path).nextInode = files.nextInode := by
  unfold unlinkIfPresent
  cases hunlink : files.unlink path with
  | ok next => exact (FileSystem.unlink_eq_ok hunlink).2.2.2
  | error refusal => rfl

/-- At most the two files of the key are gone; no byte changed. -/
structure OnlyRemoved (key : StorageKey) (before after : StorageFiles) : Prop where
  others : ∀ path, path ≠ key.finalPath → path ≠ key.pendingPath →
    after.entry path = before.entry path
  final : after.entry key.finalPath = before.entry key.finalPath ∨
    after.entry key.finalPath = none
  pending : after.entry key.pendingPath = before.entry key.pendingPath ∨
    after.entry key.pendingPath = none
  content : after.content = before.content
  nextInode : after.nextInode = before.nextInode

theorem OnlyRemoved.refl (key : StorageKey) (files : StorageFiles) :
    OnlyRemoved key files files :=
  ⟨fun _ _ _ => rfl, .inl rfl, .inl rfl, rfl, rfl⟩

theorem OnlyRemoved.entry_of_some {key : StorageKey} {before after : StorageFiles}
    (hremoved : OnlyRemoved key before after) {path : StoragePath} {inode : Inode}
    (hentry : after.entry path = some inode) : before.entry path = some inode := by
  by_cases hfinal : path = key.finalPath
  · subst path
    rcases hremoved.final with hsame | hnone
    · rw [← hsame, hentry]
    · rw [hnone] at hentry
      contradiction
  · by_cases hpending : path = key.pendingPath
    · subst path
      rcases hremoved.pending with hsame | hnone
      · rw [← hsame, hentry]
      · rw [hnone] at hentry
        contradiction
    · rw [← hremoved.others path hfinal hpending, hentry]

theorem OnlyRemoved.read_of_some {key : StorageKey} {before after : StorageFiles}
    (hremoved : OnlyRemoved key before after) {path : StoragePath} {inode : Inode}
    (hentry : after.entry path = some inode) : after.read path = before.read path := by
  rw [FileSystem.read, FileSystem.read, hentry, hremoved.entry_of_some hentry,
    hremoved.content]

theorem OnlyRemoved.unlink_final {key : StorageKey} {before after : StorageFiles}
    (hremoved : OnlyRemoved key before after) :
    OnlyRemoved key before (unlinkIfPresent after key.finalPath) := by
  have hne := StorageKey.finalPath_ne_pendingPath key key
  constructor
  · intro path hfinal hpending
    rw [unlinkIfPresent_entry, Function.update_of_ne hfinal,
      hremoved.others path hfinal hpending]
  · right
    rw [unlinkIfPresent_entry, Function.update_self]
  · rw [unlinkIfPresent_entry, Function.update_of_ne hne.symm]
    exact hremoved.pending
  · rw [unlinkIfPresent_content, hremoved.content]
  · rw [unlinkIfPresent_nextInode, hremoved.nextInode]

theorem OnlyRemoved.unlink_pending {key : StorageKey} {before after : StorageFiles}
    (hremoved : OnlyRemoved key before after) :
    OnlyRemoved key before (unlinkIfPresent after key.pendingPath) := by
  have hne := StorageKey.finalPath_ne_pendingPath key key
  constructor
  · intro path hfinal hpending
    rw [unlinkIfPresent_entry, Function.update_of_ne hpending,
      hremoved.others path hfinal hpending]
  · rw [unlinkIfPresent_entry, Function.update_of_ne hne]
    exact hremoved.final
  · right
    rw [unlinkIfPresent_entry, Function.update_self]
  · rw [unlinkIfPresent_content, hremoved.content]
  · rw [unlinkIfPresent_nextInode, hremoved.nextInode]

/-- What each phase knows about the files still to be removed. -/
def DeletePhase.Removed (key : StorageKey) (files : StorageFiles) : DeletePhase → Prop
  | .enteringDirectory directory rest =>
      ∀ ancestor ∈ directory :: rest, ancestor ∈ key.directories
  | .assertingDirectory rest | .resolvingDirectory rest =>
      ∀ ancestor ∈ rest, ancestor ∈ key.directories
  | .inspectingPending | .unlinkingPending => files.entry key.finalPath = none
  | .syncingDirectory | .returned =>
      files.entry key.finalPath = none ∧ files.entry key.pendingPath = none
  | .inspectingFinal | .unlinkingFinal | .raised _ _ => True

theorem hasDirectory_of_ancestor {files : StorageFiles} {directory : StorageDirectory}
    (hdirectory : files.hasDirectory directory = true) {ancestor : StorageDirectory}
    (hancestor : ancestor <+: directory) : files.hasDirectory ancestor = true := by
  induction directory using List.reverseRecOn with
  | nil =>
      rw [List.prefix_nil] at hancestor
      rw [hancestor, hdirectory]
  | append_singleton parent component ih =>
      rcases List.prefix_concat_iff.mp hancestor with hsame | hparent
      · rw [hsame]
        exact hdirectory
      · refine ih ?_ hparent
        apply files.directoryClosed _ parent hdirectory
        cases hchild : parent ++ [component] with
        | nil => simp at hchild
        | cons first rest =>
            show some (first :: rest).dropLast = some parent
            rw [← hchild, List.dropLast_concat]

/-- No file of a key exists below a missing directory. -/
theorem no_files_of_missing {files : StorageFiles} {key : StorageKey}
    {ancestor : StorageDirectory} (hancestor : ancestor ∈ key.directories)
    (hmissing : files.hasDirectory ancestor = false) :
    files.entry key.finalPath = none ∧ files.entry key.pendingPath = none := by
  have hancestor : ancestor <+: key.shards :=
    (List.mem_inits ancestor key.shards).mp (List.mem_of_mem_tail hancestor)
  have hshards : files.hasDirectory key.shards = false := by
    cases hexists : files.hasDirectory key.shards with
    | false => rfl
    | true =>
        rw [hasDirectory_of_ancestor hexists hancestor] at hmissing
        contradiction
  exact ⟨FileSystem.entry_eq_none_of_no_directory hshards,
    FileSystem.entry_eq_none_of_no_directory hshards⟩

theorem DeletePhase.removed_walk {key : StorageKey} {files : StorageFiles}
    {rest : List StorageDirectory} (hrest : ∀ ancestor ∈ rest, ancestor ∈ key.directories) :
    (DeletePhase.walk rest).Removed key files := by
  cases rest with
  | nil => trivial
  | cons directory rest => exact hrest

theorem DeletePhase.removed_advance {key : StorageKey} {start files : StorageFiles}
    {phase : DeletePhase} {result : SystemResult} (hremoved : OnlyRemoved key start files)
    (hphase : phase.Removed key files) :
    OnlyRemoved key start (phase.advance key files result).1 ∧
      (phase.advance key files result).2.Removed key
        (phase.advance key files result).1 := by
  have hne := StorageKey.finalPath_ne_pendingPath key key
  cases phase with
  | enteringDirectory directory rest =>
      cases result with
      | succeeded count =>
          simp only [advance]
          split
          · exact ⟨hremoved, fun ancestor hmem => hphase ancestor (List.mem_cons_of_mem _ hmem)⟩
          · rename_i hmissing
            simp only [Bool.not_eq_true] at hmissing
            exact ⟨hremoved, no_files_of_missing (hphase directory List.mem_cons_self) hmissing⟩
      | _ => exact ⟨hremoved, trivial⟩
  | assertingDirectory rest =>
      cases result with
      | succeeded count => exact ⟨hremoved, hphase⟩
      | _ => exact ⟨hremoved, trivial⟩
  | resolvingDirectory rest =>
      cases result with
      | succeeded count => exact ⟨hremoved, removed_walk hphase⟩
      | _ => exact ⟨hremoved, trivial⟩
  | inspectingFinal =>
      cases result with
      | succeeded count =>
          simp only [advance]
          split
          · rename_i hfinal
            exact ⟨hremoved, hfinal⟩
          · exact ⟨hremoved, trivial⟩
      | _ => exact ⟨hremoved, trivial⟩
  | unlinkingFinal =>
      cases result with
      | succeeded count =>
          refine ⟨hremoved.unlink_final, ?_⟩
          show (unlinkIfPresent files key.finalPath).entry key.finalPath = none
          rw [unlinkIfPresent_entry, Function.update_self]
      | _ => exact ⟨hremoved, trivial⟩
  | inspectingPending =>
      cases result with
      | succeeded count =>
          simp only [advance]
          split
          · rename_i hpending
            exact ⟨hremoved, hphase, hpending⟩
          · exact ⟨hremoved, hphase⟩
      | _ => exact ⟨hremoved, trivial⟩
  | unlinkingPending =>
      cases result with
      | succeeded count =>
          refine ⟨hremoved.unlink_pending, ?_, ?_⟩
          · show (unlinkIfPresent files key.pendingPath).entry key.finalPath = none
            rw [unlinkIfPresent_entry, Function.update_of_ne hne]
            exact hphase
          · show (unlinkIfPresent files key.pendingPath).entry key.pendingPath = none
            rw [unlinkIfPresent_entry, Function.update_self]
      | _ => exact ⟨hremoved, trivial⟩
  | syncingDirectory =>
      cases result with
      | succeeded count => exact ⟨hremoved, hphase⟩
      | _ => exact ⟨hremoved, trivial⟩
  | returned => exact ⟨hremoved, hphase⟩
  | raised kind message => exact ⟨hremoved, trivial⟩

theorem runDelete_contract (key : StorageKey) (files : StorageFiles)
    (results : List SystemResult) :
    OnlyRemoved key files (runDelete key files results).1 ∧
      (runDelete key files results).2.Removed key (runDelete key files results).1 := by
  have hrun : ∀ (results : List SystemResult) (current : StorageFiles × DeletePhase),
      OnlyRemoved key files current.1 ∧ current.2.Removed key current.1 →
        let last := results.foldl
          (fun current result => current.2.advance key current.1 result) current
        OnlyRemoved key files last.1 ∧ last.2.Removed key last.1 := by
    intro results
    induction results with
    | nil => exact fun current hcurrent => hcurrent
    | cons result rest ih =>
        intro current hcurrent
        exact ih _ (DeletePhase.removed_advance hcurrent.1 hcurrent.2)
  exact hrun results (files, .walk key.directories)
    ⟨.refl key files, DeletePhase.removed_walk fun _ hmem => hmem⟩

end Agora
