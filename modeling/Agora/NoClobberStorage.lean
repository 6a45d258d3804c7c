import Agora.ArtifactWriteOwnership
import Agora.TransitionSystem

/-!
# Concurrent writes never clobber

Any number of writes run against one file system.  Each step is one system call
of one write; the order of steps and the result of every call are arbitrary, and
a write that takes no further step has crashed.  At any time at most one write
holds the pending file of a key and at most one write has installed its final
file.  A final file never changes, and it holds what the receipt of the write
that installed it says.
-/

namespace Agora

abbrev CallId := ℕ

structure StorageState where
  files : StorageFiles
  calls : CallId → WriteCall

/-- One write executes one system call with a given result. -/
def StorageState.advance (sha256 : Bytes → Text) (state : StorageState)
    (label : CallId × SystemResult) : StorageState :=
  let next := Agora.advance sha256 state.files (state.calls label.1) label.2
  ⟨next.1, Function.update state.calls label.1 next.2⟩

def writeSystem (sha256 : Bytes → Text) :
    TransitionSystem StorageState (CallId × SystemResult) where
  initial := fun state => ∀ id, (state.calls id).phase = .validatingExpectations
  step := fun before label after => after = before.advance sha256 label

namespace StorageState

variable {sha256 : Bytes → Text}

def run (sha256 : Bytes → Text) (state : StorageState)
    (labels : List (CallId × SystemResult)) : StorageState :=
  labels.foldl (advance sha256) state

theorem path_run (state : StorageState) (labels : List (CallId × SystemResult)) :
    (writeSystem sha256).Path state labels (state.run sha256 labels) := by
  induction labels generalizing state with
  | nil => exact .refl state
  | cons label rest ih => exact .cons rfl (ih (state.advance sha256 label))

structure Invariant (sha256 : Bytes → Text) (state : StorageState) : Prop where
  consistent : ∀ id, (state.calls id).Consistent sha256 state.files
  oneHolder : ∀ first second, (state.calls first).phase.holdsPending = true →
    (state.calls second).phase.holdsPending = true →
      (state.calls first).key = (state.calls second).key → first = second
  oneWinner : ∀ first second receipt other,
    (state.calls first).phase.installed? = some receipt →
      (state.calls second).phase.installed? = some other →
        (state.calls first).key = (state.calls second).key → first = second

theorem Invariant.initial {state : StorageState}
    (hstart : (writeSystem sha256).initial state) : state.Invariant sha256 where
  consistent := by
    intro id
    simp only [WriteCall.Consistent, hstart id]
  oneHolder := by
    intro first second hfirst
    simp [hstart first, WritePhase.holdsPending] at hfirst
  oneWinner := by
    intro first second receipt other hfirst
    simp [hstart first, WritePhase.installed?] at hfirst

end StorageState

theorem WriteCall.Consistent.installed {sha256 : Bytes → Text} {files : StorageFiles}
    {call : WriteCall} {receipt : StoredArtifact} (hgood : call.Consistent sha256 files)
    (hinstalled : call.phase.installed? = some receipt) :
    receipt.key = call.key ∧ Installed sha256 files receipt := by
  cases hphase : call.phase with
  | unlinkingPending other =>
      simp only [hphase, WritePhase.installed?, Option.some.injEq] at hinstalled
      subst other
      simp only [WriteCall.Consistent, hphase] at hgood
      exact ⟨hgood.1, hgood.2.2⟩
  | syncingDirectory other =>
      simp only [hphase, WritePhase.installed?, Option.some.injEq] at hinstalled
      subst other
      simpa only [WriteCall.Consistent, hphase] using hgood
  | finished outcome =>
      simp only [WriteCall.Consistent, hphase] at hgood
      cases outcome with
      | raised error => simp [hphase, WritePhase.installed?] at hinstalled
      | _ =>
          simp only [hphase, WritePhase.installed?, Option.some.injEq] at hinstalled
          subst receipt
          exact hgood
  | _ => simp [hphase, WritePhase.installed?] at hinstalled

theorem Installed.entry {sha256 : Bytes → Text} {files : StorageFiles}
    {receipt : StoredArtifact} (hinstalled : Installed sha256 files receipt) :
    files.entry receipt.key.finalPath ≠ none := by
  rcases hinstalled with ⟨bytes, hread, _⟩
  intro hnone
  simp [FileSystem.read, hnone] at hread

/-- A write that holds its pending file is its only owner, or has just linked it. -/
theorem WriteCall.Consistent.holding {sha256 : Bytes → Text} {files : StorageFiles}
    {call : WriteCall} (hgood : call.Consistent sha256 files)
    (hholds : call.phase.holdsPending = true) :
    Staged files call.key (fun _ _ => True) ∨
      ∃ receipt, call.phase.installed? = some receipt ∧
        files.entry call.key.pendingPath = files.entry call.key.finalPath := by
  cases hphase : call.phase with
  | unlinkingPending receipt =>
      simp only [WriteCall.Consistent, hphase] at hgood
      exact .inr ⟨receipt, rfl, hgood.2.1⟩
  | streaming | writingChunk | syncingFile | rewinding | readingBack
  | closingAfterFailure | unlinkingAfterFailure | closing | linking =>
      simp only [WriteCall.Consistent, hphase] at hgood
      exact .inl (hgood.mono fun _ _ _ => trivial)
  | _ => simp [hphase, WritePhase.holdsPending] at hholds

theorem WriteCall.Consistent.pending_entry {sha256 : Bytes → Text}
    {files : StorageFiles} {call : WriteCall} (hgood : call.Consistent sha256 files)
    (hholds : call.phase.holdsPending = true) :
    files.entry call.key.pendingPath ≠ none := by
  rcases hgood.holding hholds with ⟨inode, hentry, _⟩ | ⟨receipt, hinstalled, hlinked⟩
  · rw [hentry]
    simp
  · rcases hgood.installed hinstalled with ⟨hkey, hfinal⟩
    rw [hlinked, ← hkey]
    exact hfinal.entry

namespace StorageState

variable {sha256 : Bytes → Text} {state : StorageState} {label : CallId × SystemResult}

theorem advance_calls_of_ne {id : CallId} (hne : id ≠ label.1) :
    (state.advance sha256 label).calls id = state.calls id :=
  Function.update_of_ne hne _ _

theorem advance_calls_self :
    (state.advance sha256 label).calls label.1 =
      (Agora.advance sha256 state.files (state.calls label.1) label.2).2 :=
  Function.update_self _ _ _

theorem advance_calls_key (id : CallId) :
    ((state.advance sha256 label).calls id).key = (state.calls id).key := by
  by_cases hid : id = label.1
  · rw [hid, advance_calls_self, advance_key]
  · rw [advance_calls_of_ne hid]

theorem Invariant.fileChange (hgood : state.Invariant sha256) :
    FileChange (state.calls label.1) state.files (state.advance sha256 label).files :=
  advance_fileChange (hgood.consistent label.1)

/-- A newly holding write found no pending file, so no other write held it. -/
theorem Invariant.holder_alone (hgood : state.Invariant sha256) {id : CallId}
    (hne : id ≠ label.1)
    (hstepper : ((state.advance sha256 label).calls label.1).phase.holdsPending = true)
    (hholds : (state.calls id).phase.holdsPending = true) :
    (state.calls label.1).key ≠ (state.calls id).key := by
  intro hkey
  rw [advance_calls_self] at hstepper
  cases hbefore : (state.calls label.1).phase.holdsPending with
  | true => exact hne (hgood.oneHolder _ _ hholds hbefore hkey.symm)
  | false =>
      have hfree := holdsPending_of_advance hbefore hstepper
      rw [hkey] at hfree
      exact (hgood.consistent id).pending_entry hholds hfree

/-- A newly installing write found no final file, so no other write had won. -/
theorem Invariant.winner_alone (hgood : state.Invariant sha256) {id : CallId}
    {receipt other : StoredArtifact} (hne : id ≠ label.1)
    (hstepper : ((state.advance sha256 label).calls label.1).phase.installed? = some receipt)
    (hwon : (state.calls id).phase.installed? = some other) :
    (state.calls label.1).key ≠ (state.calls id).key := by
  intro hkey
  rw [advance_calls_self] at hstepper
  cases hbefore : (state.calls label.1).phase.installed? with
  | some earlier => exact hne (hgood.oneWinner _ _ _ _ hwon hbefore hkey.symm)
  | none =>
      have hfree := final_free_of_advance hbefore hstepper
      rcases (hgood.consistent id).installed hwon with ⟨hother, hinstalled⟩
      rw [hkey, ← hother] at hfree
      exact hinstalled.entry hfree

theorem Invariant.afterStep (hgood : state.Invariant sha256) :
    (state.advance sha256 label).Invariant sha256 where
  consistent := by
    intro id
    by_cases hid : id = label.1
    · rw [hid, advance_calls_self]
      exact advance_consistent (hgood.consistent label.1)
    · rw [advance_calls_of_ne hid]
      refine hgood.fileChange.consistent_kept ?_ (hgood.consistent id)
      intro hstepper hholds hkey
      exact hid (hgood.oneHolder _ _ hholds hstepper hkey.symm)
  oneHolder := by
    intro first second hfirst hsecond hkey
    rw [advance_calls_key, advance_calls_key] at hkey
    by_cases hleft : first = label.1
    · by_cases hright : second = label.1
      · rw [hleft, hright]
      · rw [advance_calls_of_ne hright] at hsecond
        rw [hleft] at hfirst hkey
        exact absurd hkey (hgood.holder_alone hright hfirst hsecond)
    · rw [advance_calls_of_ne hleft] at hfirst
      by_cases hright : second = label.1
      · rw [hright] at hsecond hkey
        exact absurd hkey.symm (hgood.holder_alone hleft hsecond hfirst)
      · rw [advance_calls_of_ne hright] at hsecond
        exact hgood.oneHolder _ _ hfirst hsecond hkey
  oneWinner := by
    intro first second receipt other hfirst hsecond hkey
    rw [advance_calls_key, advance_calls_key] at hkey
    by_cases hleft : first = label.1
    · by_cases hright : second = label.1
      · rw [hleft, hright]
      · rw [advance_calls_of_ne hright] at hsecond
        rw [hleft] at hfirst hkey
        exact absurd hkey (hgood.winner_alone hright hfirst hsecond)
    · rw [advance_calls_of_ne hleft] at hfirst
      by_cases hright : second = label.1
      · rw [hright] at hsecond hkey
        exact absurd hkey.symm (hgood.winner_alone hleft hsecond hfirst)
      · rw [advance_calls_of_ne hright] at hsecond
        exact hgood.oneWinner _ _ _ _ hfirst hsecond hkey

theorem reachable_invariant (hreach : (writeSystem sha256).Reachable state) :
    state.Invariant sha256 :=
  hreach.invariant (fun _ hstart => .initial hstart) (by
    rintro before step after hbefore rfl
    exact hbefore.afterStep)

/-! ## The pending file of a write among the steps of others -/

/-- The write holds its pending file, or it has won and its pending file remains. -/
def OwnsPending (state : StorageState) (id : CallId) : Prop :=
  (state.calls id).phase.holdsPending = true ∨
    (∃ receipt, (state.calls id).phase.installed? = some receipt) ∧
      state.files.entry (state.calls id).key.pendingPath =
        state.files.entry (state.calls id).key.finalPath

theorem Invariant.owned_entry (hgood : state.Invariant sha256) {id : CallId}
    (howns : state.OwnsPending id) :
    ∃ inode, state.files.entry (state.calls id).key.pendingPath = some inode := by
  apply Option.ne_none_iff_exists'.mp
  rcases howns with hholds | ⟨⟨receipt, hwon⟩, hlinked⟩
  · exact (hgood.consistent id).pending_entry hholds
  · rcases (hgood.consistent id).installed hwon with ⟨hkey, hinstalled⟩
    rw [hlinked, ← hkey]
    exact hinstalled.entry

theorem Invariant.owner_alone (hgood : state.Invariant sha256) {id other : CallId}
    (howns : state.OwnsPending id) (hne : other ≠ id)
    (hholds : (state.calls other).phase.holdsPending = true) :
    (state.calls other).key ≠ (state.calls id).key := by
  intro hkey
  rcases howns with howner | ⟨⟨receipt, hwon⟩, hlinked⟩
  · exact hne (hgood.oneHolder _ _ hholds howner hkey)
  · rcases (hgood.consistent other).holding hholds with
      ⟨inode, hentry, hsole, _⟩ | ⟨rival, hrival, _⟩
    · rw [hkey] at hentry hsole
      rw [hlinked] at hentry
      exact StorageKey.finalPath_ne_pendingPath _ _ (hsole _ hentry)
    · exact hne (hgood.oneWinner _ _ _ _ hrival hwon hkey)

theorem Invariant.owned_kept (hgood : state.Invariant sha256) {id : CallId}
    (howns : state.OwnsPending id) (hne : label.1 ≠ id) :
    (state.advance sha256 label).OwnsPending id ∧
      (state.advance sha256 label).files.read (state.calls id).key.pendingPath =
        state.files.read (state.calls id).key.pendingPath := by
  have hcall : (state.advance sha256 label).calls id = state.calls id :=
    advance_calls_of_ne hne.symm
  have hdistinct : (state.calls label.1).phase.holdsPending = true →
      (state.calls label.1).key ≠ (state.calls id).key :=
    hgood.owner_alone howns hne
  rcases hgood.owned_entry howns with ⟨inode, hentry⟩
  rcases hgood.fileChange.pending_kept hdistinct hentry with ⟨hafter, hcontent⟩
  constructor
  · rcases howns with howner | ⟨hwon, hlinked⟩
    · left
      rw [hcall]
      exact howner
    · right
      rw [hcall]
      refine ⟨hwon, ?_⟩
      rw [hafter, (hgood.fileChange.final_kept (hlinked.symm.trans hentry)).1]
  · rw [FileSystem.read, FileSystem.read, hafter, hentry, Option.map_some,
      Option.map_some, hcontent]

/-! ## Runs -/

theorem Path.final_kept {later : StorageState} {labels : List (CallId × SystemResult)}
    (hreach : (writeSystem sha256).Reachable state)
    (hpath : (writeSystem sha256).Path state labels later) {key : StorageKey}
    {bytes : Bytes} (hread : state.files.read key.finalPath = some bytes) :
    later.files.read key.finalPath = some bytes := by
  refine hpath.stable
    (motive := fun reached => reached.files.read key.finalPath = some bytes)
    hreach ?_ hread
  rintro before step after hbefore rfl hkept
  exact (reachable_invariant hbefore).fileChange.read_final_kept hkept

theorem Path.owned_kept {later : StorageState} {labels : List (CallId × SystemResult)}
    {id : CallId} (hgood : state.Invariant sha256)
    (hpath : (writeSystem sha256).Path state labels later)
    (hothers : ∀ step ∈ labels, step.1 ≠ id) (howns : state.OwnsPending id) :
    later.OwnsPending id ∧
      later.files.read (state.calls id).key.pendingPath =
        state.files.read (state.calls id).key.pendingPath := by
  induction hpath with
  | refl reached => exact ⟨howns, rfl⟩
  | cons hstep hrest ih =>
      cases hstep
      have hfirst := hgood.owned_kept howns (hothers _ (List.mem_cons_self))
      have hlast := ih hgood.afterStep
        (fun step hmem => hothers step (List.mem_cons_of_mem _ hmem)) hfirst.1
      rw [advance_calls_key] at hlast
      exact ⟨hlast.1, hlast.2.trans hfirst.2⟩

/-- The final files that were not there at the start have an installing write. -/
def OriginKnown (sha256 : Bytes → Text) (state start : StorageState) : Prop :=
  ∀ key bytes, state.files.read key.finalPath = some bytes →
    start.files.read key.finalPath = some bytes ∨
      ∃ id receipt, (state.calls id).key = key ∧
        (state.calls id).phase.installed? = some receipt ∧
          receipt = .of sha256 key bytes

theorem Invariant.originKnown_afterStep {start : StorageState}
    (hgood : state.Invariant sha256) (hknown : state.OriginKnown sha256 start) :
    (state.advance sha256 label).OriginKnown sha256 start := by
  intro key bytes hread
  cases hbefore : state.files.entry key.finalPath with
  | some inode =>
      have hkept : (state.advance sha256 label).files.read key.finalPath =
          some (state.files.content inode) :=
        hgood.fileChange.read_final_kept (by simp [FileSystem.read, hbefore])
      rw [hread, Option.some.injEq] at hkept
      subst bytes
      rcases hknown key (state.files.content inode) (by simp [FileSystem.read, hbefore]) with
        hforeign | ⟨id, receipt, hkey, hwon, hreceipt⟩
      · exact .inl hforeign
      · refine .inr ⟨id, receipt, ?_, ?_, hreceipt⟩
        · rw [advance_calls_key, hkey]
        · by_cases hid : id = label.1
          · subst id
            rw [advance_calls_self]
            exact installed?_advance hwon
          · rw [advance_calls_of_ne hid]
            exact hwon
  | none =>
      have hafter : (state.advance sha256 label).files.entry key.finalPath ≠ none := by
        intro hnone
        simp [FileSystem.read, hnone] at hread
      rcases installed_of_new_final (hgood.consistent label.1) hbefore hafter with
        ⟨hkey, receipt, hwon⟩
      have hcall : (state.advance sha256 label).calls label.1 =
          (Agora.advance sha256 state.files (state.calls label.1) label.2).2 :=
        advance_calls_self
      have hafter : (state.advance sha256 label).Invariant sha256 := hgood.afterStep
      have hnext := hafter.consistent label.1
      rw [← hcall] at hwon
      rcases hnext.installed hwon with ⟨hreceiptKey, stored, hstored, hreceipt⟩
      rw [advance_calls_key, hkey] at hreceiptKey
      rw [hreceiptKey, hread, Option.some.injEq] at hstored
      subst stored
      refine .inr ⟨label.1, receipt, ?_, hwon, ?_⟩
      · rw [advance_calls_key, hkey]
      · rw [← hreceiptKey]
        exact hreceipt

theorem Path.originKnown {later : StorageState} {labels : List (CallId × SystemResult)}
    (hreach : (writeSystem sha256).Reachable state)
    (hpath : (writeSystem sha256).Path state labels later) :
    later.OriginKnown sha256 state := by
  have hboth : later.Invariant sha256 ∧ later.OriginKnown sha256 state :=
    hpath.preserves
      (motive := fun reached =>
        reached.Invariant sha256 ∧ reached.OriginKnown sha256 state)
      ⟨reachable_invariant hreach, fun key bytes hread => .inl hread⟩ (by
        rintro before step after ⟨hgood, hknown⟩ rfl
        exact ⟨hgood.afterStep, hgood.originKnown_afterStep hknown⟩)
  exact hboth.2

end StorageState

/-- The call returned the receipt or raised `StorageWriteCommitted` with it. -/
def WriteCall.Wins (call : WriteCall) (receipt : StoredArtifact) : Prop :=
  call.phase = .finished (.returned receipt) ∨
    call.phase = .finished (.committed receipt)

theorem WriteCall.Wins.installed {call : WriteCall} {receipt : StoredArtifact}
    (hwins : call.Wins receipt) : call.phase.installed? = some receipt := by
  rcases hwins with hphase | hphase <;> rw [hphase] <;> rfl

/-- What concurrent writes guarantee in a state that a run from `start` reaches. -/
structure NoClobber (sha256 : Bytes → Text) (start state : StorageState) : Prop where
  oneWinner : ∀ first second receipt other, (state.calls first).Wins receipt →
    (state.calls second).Wins other →
      (state.calls first).key = (state.calls second).key → first = second
  receiptTrue : ∀ id receipt, (state.calls id).Wins receipt →
    ∃ bytes, state.files.read (state.calls id).key.finalPath = some bytes ∧
      receipt = ⟨(state.calls id).key, bytes.length, sha256 bytes⟩
  finalInstalled : ∀ (key : StorageKey) bytes, state.files.read key.finalPath = some bytes →
    start.files.read key.finalPath = some bytes ∨
      ∃ id receipt, (state.calls id).key = key ∧
        (state.calls id).phase.installed? = some receipt ∧
          receipt = ⟨key, bytes.length, sha256 bytes⟩
  finalImmutable : ∀ labels later, (writeSystem sha256).Path state labels later →
    ∀ (key : StorageKey) bytes, state.files.read key.finalPath = some bytes →
      later.files.read key.finalPath = some bytes
  pendingIntact : ∀ id labels later, (writeSystem sha256).Path state labels later →
    (∀ label ∈ labels, label.1 ≠ id) → state.OwnsPending id →
      ∃ bytes, state.files.read (state.calls id).key.pendingPath = some bytes ∧
        later.files.read (state.calls id).key.pendingPath = some bytes

theorem concurrent_writes_never_clobber {sha256 : Bytes → Text}
    {start state : StorageState} {labels : List (CallId × SystemResult)}
    (hstart : (writeSystem sha256).initial start)
    (hrun : (writeSystem sha256).Path start labels state) :
    NoClobber sha256 start state := by
  have hreach : (writeSystem sha256).Reachable state := ⟨start, labels, hstart, hrun⟩
  have hgood := StorageState.reachable_invariant hreach
  refine ⟨?_, ?_, ?_, ?_, ?_⟩
  · intro first second receipt other hfirst hsecond hkey
    exact hgood.oneWinner _ _ _ _ hfirst.installed hsecond.installed hkey
  · intro id receipt hwins
    rcases (hgood.consistent id).installed hwins.installed with
      ⟨hkey, bytes, hread, hreceipt⟩
    rw [hkey] at hread hreceipt
    exact ⟨bytes, hread, hreceipt⟩
  · exact StorageState.Path.originKnown (.initial hstart) hrun
  · intro laterLabels later hpath key bytes hread
    exact StorageState.Path.final_kept hreach hpath hread
  · intro id laterLabels later hpath hothers howns
    rcases hgood.owned_entry howns with ⟨inode, hentry⟩
    refine ⟨state.files.content inode, by simp [FileSystem.read, hentry], ?_⟩
    rw [(StorageState.Path.owned_kept hgood hpath hothers howns).2]
    simp [FileSystem.read, hentry]

/-- An empty storage root. -/
def emptyStorage : StorageFiles where
  hasDirectory := fun directory => directory == []
  entry := fun _ => none
  content := fun _ => []
  nextInode := 0
  entryBound := by simp
  entryDirectory := by simp
  directoryClosed := by
    intro directory parent hdirectory hparent
    have hroot : directory = [] := by simpa using hdirectory
    subst hroot
    simp [Located.parent] at hparent

def zeroKey : StorageKey := .generate (List.replicate 64 '0') (by decide)

/-- Two writes of one key; the first runs alone to its link, then the second
collides with its pending file, and both finish. -/
def rivalWrites : StorageState where
  files := emptyStorage
  calls := fun _ => .start zeroKey [.bytes [1, 2, 3]] (some 3) none

def rivalSchedule : List (CallId × SystemResult) :=
  List.replicate 21 (0, .succeeded 3) ++ List.replicate 12 (1, .succeeded 3) ++
    List.replicate 4 (0, .succeeded 0)

def digestOf123 : Text :=
  "039058c6f2c0cb492c533b0a4d14ef77cc0f78abccced5287d84a1a2011cfb81".toList

theorem rival_writes_never_clobber :
    let last := rivalWrites.run (fun _ => digestOf123) rivalSchedule
    (last.calls 0).Wins ⟨zeroKey, 3, digestOf123⟩ ∧
      (last.calls 1).phase = .finished (.raised
        (.storage .storageCollision "pending storage key already exists")) ∧
        NoClobber (fun _ => digestOf123) rivalWrites last :=
  ⟨.inl (by decide +kernel), by decide +kernel,
    concurrent_writes_never_clobber (fun _ => rfl) (StorageState.path_run _ _)⟩

end Agora
