import Agora.ArtifactWriteProgram

/-!
# What one write owns

From the exclusive creation of its pending file until it removes or installs
it, a write is the only owner of that file: no other path names it, and its
bytes are the ones received so far.  From the link on, the final path names the
same file and the receipt describes its bytes.  `WriteCall.Consistent` states
this for every phase.  A step of the write itself keeps it, and so does a step
of another write that holds a different key.
-/

namespace Agora

variable {sha256 : Bytes → Text}

/-- The pending path of the key is the only name of a file with this property. -/
def Staged (files : StorageFiles) (key : StorageKey) (holds : Inode → Bytes → Prop) : Prop :=
  ∃ inode, files.entry key.pendingPath = some inode ∧
    (∀ path, files.entry path = some inode → path = key.pendingPath) ∧
      holds inode (files.content inode)

/-- The final path of the receipt's key names bytes that the receipt describes. -/
def Installed (sha256 : Bytes → Text) (files : StorageFiles) (receipt : StoredArtifact) :
    Prop :=
  ∃ bytes, files.read receipt.key.finalPath = some bytes ∧
    receipt = .of sha256 receipt.key bytes

namespace WritePhase

/-- The phases between the creation of the pending file and its removal. -/
def holdsPending : WritePhase → Bool
  | .streaming _ _ | .writingChunk _ _ _ | .syncingFile _ _ | .rewinding _ _
  | .readingBack _ _ _ | .closingAfterFailure _ _ | .unlinkingAfterFailure _
  | .closing _ _ | .linking _ | .unlinkingPending _ => true
  | _ => false

/-- The receipt of a write that has linked its final file. -/
def installed? : WritePhase → Option StoredArtifact
  | .unlinkingPending receipt | .syncingDirectory receipt
  | .finished (.returned receipt) | .finished (.committed receipt) => some receipt
  | _ => none

end WritePhase

def WriteCall.Consistent (sha256 : Bytes → Text) (files : StorageFiles)
    (call : WriteCall) : Prop :=
  match call.phase with
  | .streaming descriptor received | .syncingFile descriptor received
  | .rewinding descriptor received | .readingBack descriptor received _ =>
      Staged files call.key fun inode bytes => inode = descriptor ∧ bytes = received
  | .writingChunk descriptor received remaining =>
      Staged files call.key fun inode bytes =>
        inode = descriptor ∧ bytes ++ remaining = received
  | .closingAfterFailure _ _ | .unlinkingAfterFailure _ =>
      Staged files call.key fun _ _ => True
  | .closing _ receipt | .linking receipt =>
      Staged files call.key fun _ bytes => receipt = .of sha256 call.key bytes
  | .unlinkingPending receipt =>
      receipt.key = call.key ∧
        files.entry call.key.pendingPath = files.entry call.key.finalPath ∧
          Installed sha256 files receipt
  | .syncingDirectory receipt | .finished (.returned receipt)
  | .finished (.committed receipt) =>
      receipt.key = call.key ∧ Installed sha256 files receipt
  | _ => True

theorem Staged.mono {files : StorageFiles} {key : StorageKey}
    {first second : Inode → Bytes → Prop} (hstaged : Staged files key first)
    (himp : ∀ inode bytes, first inode bytes → second inode bytes) :
    Staged files key second := by
  rcases hstaged with ⟨inode, hentry, hsole, hholds⟩
  exact ⟨inode, hentry, hsole, himp inode _ hholds⟩

/-! ## The effect of a step on the files -/

/-- How a step of a write may change the directory entries and the bytes. -/
inductive FileChange (call : WriteCall) (before after : StorageFiles) : Prop
  | unchanged (hentry : after.entry = before.entry)
      (hcontent : after.content = before.content)
  | created (hfree : before.entry call.key.pendingPath = none)
      (hentry : after.entry =
        Function.update before.entry call.key.pendingPath (some before.nextInode))
      (hcontent : after.content = Function.update before.content before.nextInode [])
  | wrote (descriptor : Inode) (bytes : Bytes)
      (hstaged : Staged before call.key fun inode _ => inode = descriptor)
      (hholds : call.phase.holdsPending = true)
      (hentry : after.entry = before.entry)
      (hcontent : after.content = Function.update before.content descriptor
        (before.content descriptor ++ bytes))
  | linked (inode : Inode) (hfree : before.entry call.key.finalPath = none)
      (hstaged : Staged before call.key fun staged _ => staged = inode)
      (hlinking : ∃ receipt, call.phase = .linking receipt)
      (hentry : after.entry =
        Function.update before.entry call.key.finalPath (some inode))
      (hcontent : after.content = before.content)
  | removed (hholds : call.phase.holdsPending = true)
      (hentry : after.entry = Function.update before.entry call.key.pendingPath none)
      (hcontent : after.content = before.content)

theorem FileChange.refl (call : WriteCall) (files : StorageFiles) :
    FileChange call files files :=
  .unchanged rfl rfl

namespace WriteCall

@[simp] theorem goto_key (call : WriteCall) (phase : WritePhase) :
    (call.goto phase).key = call.key := rfl

@[simp] theorem goto_phase (call : WriteCall) (phase : WritePhase) :
    (call.goto phase).phase = phase := rfl

@[simp] theorem raise_key (call : WriteCall) (kind : StorageErrorKind)
    (message : String) : (call.raise kind message).key = call.key := rfl

@[simp] theorem raise_phase (call : WriteCall) (kind : StorageErrorKind)
    (message : String) :
    (call.raise kind message).phase = .finished (.raised (.storage kind message)) := rfl

@[simp] theorem nextChunk_key (call : WriteCall) (descriptor : Inode) (received : Bytes) :
    (call.nextChunk sha256 descriptor received).key = call.key := by
  unfold nextChunk
  split
  · split <;> rfl
  · rfl
  · rfl
  · split <;> rfl

@[simp] theorem readback_key (call : WriteCall) (descriptor : Inode)
    (received stored content : Bytes) (count : ℕ) :
    (call.readback sha256 descriptor received stored content count).key = call.key := by
  unfold readback
  split
  · split <;> rfl
  · rfl

@[simp] theorem holdsPending_enterDirectories (rest : List StorageDirectory) :
    (enterDirectories rest).holdsPending = false := by
  cases rest <;> rfl

@[simp] theorem installed?_enterDirectories (rest : List StorageDirectory) :
    (enterDirectories rest).installed? = none := by
  cases rest <;> rfl

@[simp] theorem installed?_continueWriting (descriptor : Inode)
    (received remaining : Bytes) :
    (continueWriting descriptor received remaining).installed? = none := by
  cases remaining <;> rfl

@[simp] theorem installed?_nextChunk (call : WriteCall) (descriptor : Inode)
    (received : Bytes) :
    (call.nextChunk sha256 descriptor received).phase.installed? = none := by
  unfold nextChunk
  split
  · split <;> rfl
  · rfl
  · rfl
  · split
    · rfl
    · exact installed?_continueWriting _ _ _

@[simp] theorem installed?_readback (call : WriteCall) (descriptor : Inode)
    (received stored content : Bytes) (count : ℕ) :
    (call.readback sha256 descriptor received stored content count).phase.installed? =
      none := by
  unfold readback
  split
  · split <;> rfl
  · rfl

end WriteCall

section Step

variable {files : StorageFiles} {call : WriteCall} {result : SystemResult}

theorem advance_key : (advance sha256 files call result).2.key = call.key := by
  unfold advance
  split <;> (try split) <;> simp

/-- A write comes to hold its pending file only by creating it. -/
theorem holdsPending_of_advance (hidle : call.phase.holdsPending = false)
    (hafter : (advance sha256 files call result).2.phase.holdsPending = true) :
    files.entry call.key.pendingPath = none := by
  cases hphase : call.phase with
  | openingPending =>
      simp only [advance, hphase] at hafter
      cases result with
      | succeeded count =>
          simp only at hafter
          split at hafter
          · rename_i next descriptor hcreate
            exact (FileSystem.createExclusive_eq_ok hcreate).1
          all_goals simp [WritePhase.holdsPending] at hafter
      | _ => simp [WritePhase.holdsPending] at hafter
  | validatingExpectations =>
      simp only [advance, hphase] at hafter
      split at hafter
      · simp [WritePhase.holdsPending] at hafter
      · simp only [WriteCall.goto_phase, WriteCall.holdsPending_enterDirectories] at hafter
        contradiction
  | creatingDirectory directory rest =>
      cases result with
      | succeeded count =>
          simp only [advance, hphase] at hafter
          split at hafter <;> simp [WritePhase.holdsPending] at hafter
      | _ => simp [advance, hphase, WritePhase.holdsPending] at hafter
  | resolvingDirectory created rest =>
      cases result with
      | succeeded count =>
          cases created with
          | true => simp [advance, hphase, WritePhase.holdsPending] at hafter
          | false => simp [advance, hphase] at hafter
      | _ => cases created <;> simp [advance, hphase, WritePhase.holdsPending] at hafter
  | syncingParent rest =>
      cases result with
      | succeeded count => simp [advance, hphase] at hafter
      | _ => simp [advance, hphase, WritePhase.holdsPending] at hafter
  | assertingDirectory created rest =>
      cases result <;> simp [advance, hphase, WritePhase.holdsPending] at hafter
  | syncingDirectory receipt =>
      cases result <;> simp [advance, hphase, WritePhase.holdsPending] at hafter
  | finished outcome => simp [advance, hphase, WritePhase.holdsPending] at hafter
  | _ => simp [hphase, WritePhase.holdsPending] at hidle

/-- A write installs its final file only where no final file exists. -/
theorem final_free_of_advance {receipt : StoredArtifact}
    (hbefore : call.phase.installed? = none)
    (hafter : (advance sha256 files call result).2.phase.installed? = some receipt) :
    files.entry call.key.finalPath = none := by
  cases hphase : call.phase with
  | linking receipt =>
      simp only [advance, hphase] at hafter
      cases result with
      | succeeded count =>
          simp only at hafter
          split at hafter
          · rename_i next hlink
            exact (FileSystem.link_eq_ok hlink).1
          all_goals simp [WritePhase.installed?] at hafter
      | _ => simp [WritePhase.installed?] at hafter
  | unlinkingPending receipt => simp [hphase, WritePhase.installed?] at hbefore
  | syncingDirectory receipt => simp [hphase, WritePhase.installed?] at hbefore
  | finished outcome =>
      simp only [advance, hphase] at hafter
      rw [hphase] at hbefore
      rw [hbefore] at hafter
      contradiction
  | validatingExpectations =>
      simp only [advance, hphase] at hafter
      split at hafter
      · simp [WritePhase.installed?] at hafter
      · simp at hafter
  | creatingDirectory directory rest =>
      cases result with
      | succeeded count =>
          simp only [advance, hphase] at hafter
          split at hafter <;> simp [WritePhase.installed?] at hafter
      | _ => simp [advance, hphase, WritePhase.installed?] at hafter
  | resolvingDirectory created rest =>
      cases result with
      | succeeded count =>
          cases created with
          | true => simp [advance, hphase, WritePhase.installed?] at hafter
          | false => simp [advance, hphase] at hafter
      | _ => cases created <;> simp [advance, hphase, WritePhase.installed?] at hafter
  | syncingParent rest =>
      cases result with
      | succeeded count => simp [advance, hphase] at hafter
      | _ => simp [advance, hphase, WritePhase.installed?] at hafter
  | openingPending =>
      simp only [advance, hphase] at hafter
      cases result with
      | succeeded count =>
          simp only at hafter
          split at hafter <;> simp [WritePhase.installed?] at hafter
      | _ => simp [WritePhase.installed?] at hafter
  | streaming descriptor received => simp [advance, hphase] at hafter
  | writingChunk descriptor received remaining =>
      simp only [advance, hphase] at hafter
      cases result with
      | succeeded count =>
          simp only at hafter
          split at hafter
          · simp [WritePhase.installed?] at hafter
          · simp at hafter
      | _ => simp [WritePhase.installed?] at hafter
  | readingBack descriptor received stored =>
      cases result with
      | succeeded count => simp [advance, hphase] at hafter
      | _ => simp [advance, hphase, WritePhase.installed?] at hafter
  | unlinkingAfterFailure error =>
      simp only [advance, hphase] at hafter
      cases result with
      | succeeded count =>
          simp only at hafter
          split at hafter <;> simp [WritePhase.installed?] at hafter
      | _ => simp [WritePhase.installed?] at hafter
  | _ => cases result <;> simp [advance, hphase, WritePhase.installed?] at hafter

theorem installed?_advance {receipt : StoredArtifact}
    (hbefore : call.phase.installed? = some receipt) :
    (advance sha256 files call result).2.phase.installed? = some receipt := by
  cases hphase : call.phase with
  | unlinkingPending other =>
      simp only [hphase, WritePhase.installed?, Option.some.injEq] at hbefore
      subst other
      cases result with
      | succeeded count =>
          simp only [advance, hphase]
          split <;> rfl
      | _ => simp [advance, hphase, WritePhase.installed?]
  | syncingDirectory other =>
      simp only [hphase, WritePhase.installed?, Option.some.injEq] at hbefore
      subst other
      cases result <;> simp [advance, hphase, WritePhase.installed?]
  | finished outcome => simpa [advance, hphase] using hbefore
  | _ => simp [hphase, WritePhase.installed?] at hbefore

/-- The effect of a step on the files, for a write whose phase is consistent. -/
theorem advance_fileChange (hgood : call.Consistent sha256 files) :
    FileChange call files (advance sha256 files call result).1 := by
  cases hphase : call.phase with
  | openingPending =>
      cases result with
      | succeeded count =>
          simp only [advance, hphase]
          split
          · rename_i next descriptor hcreate
            rcases FileSystem.createExclusive_eq_ok hcreate with
              ⟨hfree, hinode, hentry, hcontent, _⟩
            subst descriptor
            exact .created hfree hentry hcontent
          all_goals exact .refl call files
      | _ => simpa only [advance, hphase] using .refl call files
  | writingChunk descriptor received remaining =>
      cases result with
      | succeeded count =>
          simp only [advance, hphase]
          split
          · exact .refl call files
          · rename_i byte written htake
            simp only [WriteCall.Consistent, hphase] at hgood
            exact .wrote descriptor (byte :: written)
              (hgood.mono fun _ _ hboth => hboth.1)
              (by rw [hphase]; rfl) rfl rfl
      | _ => simpa only [advance, hphase] using .refl call files
  | unlinkingAfterFailure error =>
      cases result with
      | succeeded count =>
          simp only [advance, hphase]
          split
          · rename_i next hunlink
            rcases FileSystem.unlink_eq_ok hunlink with ⟨_, hentry, hcontent, _⟩
            exact .removed (by rw [hphase]; rfl) hentry hcontent
          · exact .refl call files
      | _ => simpa only [advance, hphase] using .refl call files
  | linking receipt =>
      cases result with
      | succeeded count =>
          simp only [advance, hphase]
          split
          · rename_i next hlink
            rcases FileSystem.link_eq_ok hlink with
              ⟨hfree, inode, hpending, hentry, hcontent, _⟩
            simp only [WriteCall.Consistent, hphase] at hgood
            rcases hgood with ⟨staged, hstaged, hsole, _⟩
            rw [hpending, Option.some.injEq] at hstaged
            subst staged
            exact .linked inode hfree ⟨inode, hpending, hsole, rfl⟩
              ⟨receipt, hphase⟩ hentry hcontent
          all_goals exact .refl call files
      | _ => simpa only [advance, hphase] using .refl call files
  | unlinkingPending receipt =>
      cases result with
      | succeeded count =>
          simp only [advance, hphase]
          split
          · rename_i next hunlink
            rcases FileSystem.unlink_eq_ok hunlink with ⟨_, hentry, hcontent, _⟩
            exact .removed (by rw [hphase]; rfl) hentry hcontent
          · exact .refl call files
      | _ => simpa only [advance, hphase] using .refl call files
  | creatingDirectory directory rest =>
      cases result with
      | succeeded count =>
          simp only [advance, hphase]
          split
          · rename_i next hmake
            rcases FileSystem.makeDirectory_eq_ok hmake with ⟨hentry, hcontent, _⟩
            exact .unchanged hentry hcontent
          all_goals exact .refl call files
      | _ => simpa only [advance, hphase] using .refl call files
  | validatingExpectations =>
      simp only [advance, hphase]
      split <;> exact .refl call files
  | resolvingDirectory created rest =>
      cases result <;> cases created <;>
        simpa only [advance, hphase] using .refl call files
  | _ => cases result <;> simpa only [advance, hphase] using .refl call files

/-- A final file comes to exist only when a write of its key installs it. -/
theorem installed_of_new_final (hgood : call.Consistent sha256 files) {key : StorageKey}
    (hbefore : files.entry key.finalPath = none)
    (hafter : (advance sha256 files call result).1.entry key.finalPath ≠ none) :
    call.key = key ∧
      ∃ receipt, (advance sha256 files call result).2.phase.installed? = some receipt := by
  have hpending := StorageKey.finalPath_ne_pendingPath key call.key
  have hchange : FileChange call files (advance sha256 files call result).1 :=
    advance_fileChange hgood
  cases hchange with
  | unchanged hentry hcontent =>
      rw [hentry] at hafter
      exact absurd hbefore hafter
  | created hfree hentry hcontent =>
      rw [hentry, Function.update_of_ne hpending] at hafter
      exact absurd hbefore hafter
  | wrote descriptor bytes hstaged hholds hentry hcontent =>
      rw [hentry] at hafter
      exact absurd hbefore hafter
  | removed hholds hentry hcontent =>
      rw [hentry, Function.update_of_ne hpending] at hafter
      exact absurd hbefore hafter
  | linked inode hfree hstaged hlinking hentry hcontent =>
      by_cases hfinal : key.finalPath = call.key.finalPath
      · refine ⟨(StorageKey.finalPath_injective hfinal).symm, ?_⟩
        rcases hlinking with ⟨receipt, hphase⟩
        refine ⟨receipt, ?_⟩
        rw [hfinal] at hafter
        cases result with
        | succeeded count =>
            simp only [advance, hphase] at hafter ⊢
            split
            · rfl
            all_goals
              rename_i hlink
              simp only [hlink] at hafter
              exact absurd hfree hafter
        | _ =>
            simp only [advance, hphase] at hafter
            exact absurd hfree hafter
      · rw [hentry, Function.update_of_ne hfinal] at hafter
        exact absurd hbefore hafter

theorem WriteCall.nextChunk_consistent {descriptor : Inode} {received : Bytes}
    (hstaged : Staged files call.key fun inode bytes =>
      inode = descriptor ∧ bytes = received) :
    (call.nextChunk sha256 descriptor received).Consistent sha256 files := by
  have howned : Staged files call.key fun _ _ => True :=
    hstaged.mono fun _ _ _ => trivial
  unfold nextChunk
  split
  · split
    · exact howned
    · exact hstaged
  · exact howned
  · exact howned
  · rename_i chunk rest _
    split
    · exact howned
    · cases chunk with
      | nil => simpa [Consistent, continueWriting] using hstaged
      | cons byte chunk =>
          have hwriting : Staged files call.key fun inode bytes =>
              inode = descriptor ∧ bytes ++ (byte :: chunk) = received ++ byte :: chunk :=
            hstaged.mono fun inode bytes hboth => ⟨hboth.1, by rw [hboth.2]⟩
          exact hwriting

theorem WriteCall.readback_consistent {descriptor : Inode}
    {received stored content : Bytes} {count : ℕ}
    (hstaged : Staged files call.key fun inode bytes =>
      inode = descriptor ∧ bytes = received) :
    (call.readback sha256 descriptor received stored content count).Consistent sha256
      files := by
  unfold readback
  split
  · split
    · exact hstaged.mono fun _ _ _ => trivial
    · have hverified : Staged files call.key fun _ bytes =>
          StoredArtifact.of sha256 call.key received = .of sha256 call.key bytes :=
        hstaged.mono fun inode bytes hboth => by rw [hboth.2]
      exact hverified
  · exact hstaged

theorem WriteCall.enterDirectories_consistent (rest : List StorageDirectory) :
    (call.goto (enterDirectories rest)).Consistent sha256 files := by
  cases rest <;> trivial

theorem Staged.append {key : StorageKey} {descriptor : Inode} {received : Bytes}
    {written remaining : Bytes}
    (hstaged : Staged files key fun inode bytes =>
      inode = descriptor ∧ bytes ++ (written ++ remaining) = received) :
    Staged (files.append descriptor written) key fun inode bytes =>
      inode = descriptor ∧ bytes ++ remaining = received := by
  rcases hstaged with ⟨inode, hentry, hsole, rfl, hbytes⟩
  refine ⟨inode, hentry, hsole, rfl, ?_⟩
  rw [FileSystem.append_content_self, List.append_assoc, hbytes]

/-- A step of a write keeps its own phase consistent. -/
theorem advance_consistent (hgood : call.Consistent sha256 files) :
    (advance sha256 files call result).2.Consistent sha256
      (advance sha256 files call result).1 := by
  cases hphase : call.phase with
  | openingPending =>
      cases result with
      | succeeded count =>
          simp only [advance, hphase]
          split
          · rename_i next descriptor hcreate
            rcases FileSystem.createExclusive_eq_ok hcreate with
              ⟨hfree, hinode, hentry, hcontent, _⟩
            refine ⟨descriptor, ?_, ?_, rfl, ?_⟩
            · rw [hentry, WriteCall.goto_key, Function.update_self]
            · intro path hpath
              rw [WriteCall.goto_key]
              by_contra hne
              rw [hentry, Function.update_of_ne hne] at hpath
              exact absurd hinode (Nat.ne_of_lt (files.entryBound path descriptor hpath))
            · rw [hcontent, Function.update_self]
          all_goals trivial
      | _ => simp only [advance, hphase]; trivial
  | streaming descriptor received =>
      simp only [WriteCall.Consistent, hphase] at hgood
      simp only [advance, hphase]
      exact WriteCall.nextChunk_consistent hgood
  | writingChunk descriptor received remaining =>
      simp only [WriteCall.Consistent, hphase] at hgood
      cases result with
      | succeeded count =>
          simp only [advance, hphase]
          split
          · exact hgood.mono fun _ _ _ => trivial
          · rename_i byte written htake
            rw [← htake]
            have hsplit : remaining = remaining.take count ++ remaining.drop count :=
              (List.take_append_drop count remaining).symm
            rw [hsplit] at hgood
            have happended := hgood.append
            cases hdrop : remaining.drop count with
            | nil =>
                rw [hdrop] at happended
                simpa [WriteCall.Consistent, WriteCall.continueWriting] using happended
            | cons next rest =>
                rw [hdrop] at happended
                exact happended
      | _ =>
          simp only [advance, hphase]
          exact hgood.mono fun _ _ _ => trivial
  | syncingFile descriptor received =>
      simp only [WriteCall.Consistent, hphase] at hgood
      cases result with
      | succeeded count =>
          simp only [advance, hphase]
          exact hgood
      | _ =>
          simp only [advance, hphase]
          exact hgood.mono fun _ _ _ => trivial
  | rewinding descriptor received =>
      simp only [WriteCall.Consistent, hphase] at hgood
      cases result with
      | succeeded count =>
          simp only [advance, hphase]
          exact hgood
      | _ =>
          simp only [advance, hphase]
          exact hgood.mono fun _ _ _ => trivial
  | readingBack descriptor received stored =>
      simp only [WriteCall.Consistent, hphase] at hgood
      cases result with
      | succeeded count =>
          simp only [advance, hphase]
          exact WriteCall.readback_consistent hgood
      | _ =>
          simp only [advance, hphase]
          exact hgood.mono fun _ _ _ => trivial
  | closingAfterFailure descriptor error =>
      simp only [WriteCall.Consistent, hphase] at hgood
      cases result <;> simp only [advance, hphase] <;> exact hgood
  | unlinkingAfterFailure error =>
      cases result with
      | succeeded count =>
          simp only [advance, hphase]
          split <;> trivial
      | _ => simp only [advance, hphase]; trivial
  | closing descriptor receipt =>
      simp only [WriteCall.Consistent, hphase] at hgood
      cases result with
      | succeeded count =>
          simp only [advance, hphase]
          exact hgood
      | _ =>
          simp only [advance, hphase]
          exact hgood.mono fun _ _ _ => trivial
  | linking receipt =>
      simp only [WriteCall.Consistent, hphase] at hgood
      cases result with
      | succeeded count =>
          simp only [advance, hphase]
          split
          · rename_i next hlink
            rcases FileSystem.link_eq_ok hlink with
              ⟨_, inode, hpending, hentry, hcontent, _⟩
            rcases hgood with ⟨staged, hstaged, _, hreceipt⟩
            rw [hpending, Option.some.injEq] at hstaged
            subst staged
            have hkey : receipt.key = call.key := by rw [hreceipt]; rfl
            have hne := StorageKey.finalPath_ne_pendingPath call.key call.key
            refine ⟨hkey, ?_, files.content inode, ?_, ?_⟩
            · rw [hentry, WriteCall.goto_key, Function.update_self,
                Function.update_of_ne hne.symm, hpending]
            · rw [FileSystem.read, hkey, hentry, Function.update_self, hcontent]
              rfl
            · rw [hkey]
              exact hreceipt
          all_goals exact hgood.mono fun _ _ _ => trivial
      | _ =>
          simp only [advance, hphase]
          exact hgood.mono fun _ _ _ => trivial
  | unlinkingPending receipt =>
      simp only [WriteCall.Consistent, hphase] at hgood
      rcases hgood with ⟨hkey, _, bytes, hread, hreceipt⟩
      cases result with
      | succeeded count =>
          simp only [advance, hphase]
          split
          · rename_i next hunlink
            rcases FileSystem.unlink_eq_ok hunlink with ⟨_, hentry, hcontent, _⟩
            have hne := StorageKey.finalPath_ne_pendingPath receipt.key call.key
            refine ⟨hkey, bytes, ?_, hreceipt⟩
            rw [FileSystem.read, hentry, Function.update_of_ne hne, hcontent]
            exact hread
          · exact ⟨hkey, bytes, hread, hreceipt⟩
      | _ =>
          simp only [advance, hphase]
          exact ⟨hkey, bytes, hread, hreceipt⟩
  | syncingDirectory receipt =>
      simp only [WriteCall.Consistent, hphase] at hgood
      cases result <;> simp only [advance, hphase] <;> exact hgood
  | finished outcome => simpa only [advance, hphase] using hgood
  | validatingExpectations =>
      simp only [advance, hphase]
      split
      · trivial
      · exact WriteCall.enterDirectories_consistent _
  | creatingDirectory directory rest =>
      cases result with
      | succeeded count =>
          simp only [advance, hphase]
          split <;> trivial
      | _ => simp only [advance, hphase]; trivial
  | assertingDirectory created rest =>
      cases result <;> simp only [advance, hphase] <;> trivial
  | resolvingDirectory created rest =>
      cases result with
      | succeeded count =>
          cases created with
          | true => simp only [advance, hphase]; trivial
          | false =>
              simp only [advance, hphase]
              exact WriteCall.enterDirectories_consistent _
      | _ => cases created <;> simp only [advance, hphase] <;> trivial
  | syncingParent rest =>
      cases result with
      | succeeded count =>
          simp only [advance, hphase]
          exact WriteCall.enterDirectories_consistent _
      | _ => simp only [advance, hphase]; trivial

end Step

/-! ## Steps of other writes -/

section Frame

variable {call : WriteCall} {before after : StorageFiles} {key : StorageKey}

/-- No write changes a final file once it exists. -/
theorem FileChange.final_kept (hchange : FileChange call before after) {inode : Inode}
    (hentry : before.entry key.finalPath = some inode) :
    after.entry key.finalPath = some inode ∧
      after.content inode = before.content inode := by
  have hne := StorageKey.finalPath_ne_pendingPath key call.key
  cases hchange with
  | unchanged hafter hcontent => rw [hafter, hcontent]; exact ⟨hentry, rfl⟩
  | created hfree hafter hcontent =>
      have hold : inode ≠ before.nextInode :=
        Nat.ne_of_lt (before.entryBound _ inode hentry)
      rw [hafter, hcontent, Function.update_of_ne hne, Function.update_of_ne hold]
      exact ⟨hentry, rfl⟩
  | wrote descriptor bytes hstaged hholds hafter hcontent =>
      rcases hstaged with ⟨staged, _, hsole, rfl⟩
      have hother : inode ≠ staged := by
        rintro rfl
        exact hne (hsole _ hentry)
      rw [hafter, hcontent, Function.update_of_ne hother]
      exact ⟨hentry, rfl⟩
  | linked linked hfree hstaged hlinking hafter hcontent =>
      have hother : key.finalPath ≠ call.key.finalPath := by
        intro hsame
        rw [hsame, hfree] at hentry
        contradiction
      rw [hafter, hcontent, Function.update_of_ne hother]
      exact ⟨hentry, rfl⟩
  | removed hholds hafter hcontent =>
      rw [hafter, hcontent, Function.update_of_ne hne]
      exact ⟨hentry, rfl⟩

/-- A write changes no pending file but the one it holds. -/
theorem FileChange.pending_kept (hchange : FileChange call before after)
    (hdistinct : call.phase.holdsPending = true → call.key ≠ key) {inode : Inode}
    (hentry : before.entry key.pendingPath = some inode) :
    after.entry key.pendingPath = some inode ∧
      after.content inode = before.content inode := by
  cases hchange with
  | unchanged hafter hcontent => rw [hafter, hcontent]; exact ⟨hentry, rfl⟩
  | created hfree hafter hcontent =>
      have hother : key.pendingPath ≠ call.key.pendingPath := by
        intro hsame
        rw [hsame, hfree] at hentry
        contradiction
      have hold : inode ≠ before.nextInode :=
        Nat.ne_of_lt (before.entryBound _ inode hentry)
      rw [hafter, hcontent, Function.update_of_ne hother, Function.update_of_ne hold]
      exact ⟨hentry, rfl⟩
  | wrote descriptor bytes hstaged hholds hafter hcontent =>
      rcases hstaged with ⟨staged, _, hsole, rfl⟩
      have hother : inode ≠ staged := by
        rintro rfl
        have hpath := hsole _ hentry
        exact hdistinct hholds (StorageKey.pendingPath_injective hpath).symm
      rw [hafter, hcontent, Function.update_of_ne hother]
      exact ⟨hentry, rfl⟩
  | linked linked hfree hstaged hlinking hafter hcontent =>
      have hother := (StorageKey.finalPath_ne_pendingPath call.key key).symm
      rw [hafter, hcontent, Function.update_of_ne hother]
      exact ⟨hentry, rfl⟩
  | removed hholds hafter hcontent =>
      have hother : key.pendingPath ≠ call.key.pendingPath := fun hsame =>
        hdistinct hholds (StorageKey.pendingPath_injective hsame).symm
      rw [hafter, hcontent, Function.update_of_ne hother]
      exact ⟨hentry, rfl⟩

/-- No other path comes to name a pending file that the write does not hold. -/
theorem FileChange.no_new_name (hchange : FileChange call before after)
    (hdistinct : call.phase.holdsPending = true → call.key ≠ key) {inode : Inode}
    (hentry : before.entry key.pendingPath = some inode)
    (hsole : ∀ path, before.entry path = some inode → path = key.pendingPath)
    {path : StoragePath} (hpath : after.entry path = some inode) :
    path = key.pendingPath := by
  cases hchange with
  | unchanged hafter hcontent =>
      rw [hafter] at hpath
      exact hsole path hpath
  | created hfree hafter hcontent =>
      rw [hafter] at hpath
      by_cases hsame : path = call.key.pendingPath
      · rw [hsame, Function.update_self, Option.some.injEq] at hpath
        exact absurd hpath.symm (Nat.ne_of_lt (before.entryBound _ inode hentry))
      · rw [Function.update_of_ne hsame] at hpath
        exact hsole path hpath
  | wrote descriptor bytes hstaged hholds hafter hcontent =>
      rw [hafter] at hpath
      exact hsole path hpath
  | linked linked hfree hstaged hlinking hafter hcontent =>
      rw [hafter] at hpath
      by_cases hsame : path = call.key.finalPath
      · rw [hsame, Function.update_self, Option.some.injEq] at hpath
        subst linked
        rcases hstaged with ⟨staged, hstaged, _, rfl⟩
        have hkeys := StorageKey.pendingPath_injective (hsole _ hstaged)
        rcases hlinking with ⟨receipt, hphase⟩
        exact absurd hkeys (hdistinct (by rw [hphase]; rfl))
      · rw [Function.update_of_ne hsame] at hpath
        exact hsole path hpath
  | removed hholds hafter hcontent =>
      rw [hafter] at hpath
      by_cases hsame : path = call.key.pendingPath
      · rw [hsame, Function.update_self] at hpath
        contradiction
      · rw [Function.update_of_ne hsame] at hpath
        exact hsole path hpath

theorem FileChange.staged_kept (hchange : FileChange call before after)
    (hdistinct : call.phase.holdsPending = true → call.key ≠ key)
    {holds : Inode → Bytes → Prop} (hstaged : Staged before key holds) :
    Staged after key holds := by
  rcases hstaged with ⟨inode, hentry, hsole, hholds⟩
  rcases hchange.pending_kept hdistinct hentry with ⟨hafter, hcontent⟩
  refine ⟨inode, hafter, ?_, ?_⟩
  · intro path hpath
    exact hchange.no_new_name hdistinct hentry hsole hpath
  · rw [hcontent]
    exact hholds

theorem FileChange.read_final_kept (hchange : FileChange call before after)
    {bytes : Bytes} (hread : before.read key.finalPath = some bytes) :
    after.read key.finalPath = some bytes := by
  simp only [FileSystem.read, Option.map_eq_some_iff] at hread ⊢
  rcases hread with ⟨inode, hentry, hbytes⟩
  rcases hchange.final_kept hentry with ⟨hafter, hcontent⟩
  exact ⟨inode, hafter, by rw [hcontent, hbytes]⟩

theorem FileChange.installed_kept (hchange : FileChange call before after)
    {receipt : StoredArtifact} (hinstalled : Installed sha256 before receipt) :
    Installed sha256 after receipt := by
  rcases hinstalled with ⟨bytes, hread, hreceipt⟩
  exact ⟨bytes, hchange.read_final_kept hread, hreceipt⟩

/-- A step of a write keeps the phase of every other write consistent, provided
no two writes hold the pending file of one key. -/
theorem FileChange.consistent_kept (hchange : FileChange call before after)
    {other : WriteCall}
    (hdistinct : call.phase.holdsPending = true → other.phase.holdsPending = true →
      call.key ≠ other.key)
    (hgood : other.Consistent sha256 before) : other.Consistent sha256 after := by
  cases hphase : other.phase with
  | unlinkingPending receipt =>
      simp only [WriteCall.Consistent, hphase] at hgood ⊢
      rcases hgood with ⟨hkey, hlinked, hinstalled⟩
      refine ⟨hkey, ?_, hchange.installed_kept hinstalled⟩
      rcases hinstalled with ⟨bytes, hread, _⟩
      simp only [FileSystem.read, Option.map_eq_some_iff, hkey] at hread
      rcases hread with ⟨inode, hfinal, _⟩
      have hholding : call.phase.holdsPending = true → call.key ≠ other.key :=
        fun hholds => hdistinct hholds (by rw [hphase]; rfl)
      rw [(hchange.pending_kept hholding (hlinked.trans hfinal)).1,
        (hchange.final_kept hfinal).1]
  | syncingDirectory receipt =>
      simp only [WriteCall.Consistent, hphase] at hgood ⊢
      exact ⟨hgood.1, hchange.installed_kept hgood.2⟩
  | finished outcome =>
      simp only [WriteCall.Consistent, hphase] at hgood ⊢
      cases outcome with
      | raised error => trivial
      | _ => exact ⟨hgood.1, hchange.installed_kept hgood.2⟩
  | streaming | writingChunk | syncingFile | rewinding | readingBack
  | closingAfterFailure | unlinkingAfterFailure | closing | linking =>
      simp only [WriteCall.Consistent, hphase] at hgood ⊢
      refine hchange.staged_kept (fun hholds => hdistinct hholds ?_) hgood
      rw [hphase]
      rfl
  | _ => simp only [WriteCall.Consistent, hphase]

end Frame

end Agora
