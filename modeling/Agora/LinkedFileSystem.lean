import Mathlib.Tactic

/-!
# A file system with exclusive creation and hard links

Directory entries map paths to inodes and inodes to bytes.  The system calls
below are the ones a no-clobber writer relies on: exclusive creation refuses an
existing name, a hard link refuses an existing target and never copies bytes,
and unlinking removes one name of a file.  Every inode in use is below
`nextInode`, so a created file never shares its inode with an older name, and an
entry lies in a directory all of whose ancestors exist.
-/

universe u v

abbrev Inode := ℕ

abbrev Bytes := List UInt8

/-- Paths of type `π` name entries of directories of type `δ`. -/
class Located (π : Type u) (δ : outParam (Type v)) where
  directory : π → δ
  parent : δ → Option δ

inductive Refusal where
  | alreadyExists
  | notFound
  deriving DecidableEq, Repr

structure FileSystem (π : Type u) {δ : Type v} [Located π δ] where
  hasDirectory : δ → Bool
  entry : π → Option Inode
  content : Inode → Bytes
  nextInode : Inode
  entryBound : ∀ path inode, entry path = some inode → inode < nextInode
  entryDirectory : ∀ path inode, entry path = some inode →
    hasDirectory (Located.directory path) = true
  directoryClosed : ∀ directory parent, hasDirectory directory = true →
    Located.parent π directory = some parent → hasDirectory parent = true

namespace FileSystem

variable {π : Type u} {δ : Type v} [Located π δ]

/-- The bytes a path names, if it names a file. -/
def read (files : FileSystem π) (path : π) : Option Bytes :=
  (files.entry path).map files.content

def parentExists (files : FileSystem π) (directory : δ) : Bool :=
  match Located.parent π directory with
  | none => true
  | some parent => files.hasDirectory parent

def makeDirectory [DecidableEq δ] (files : FileSystem π) (directory : δ) :
    Except Refusal (FileSystem π) :=
  if files.hasDirectory directory then
    .error .alreadyExists
  else if hparent : files.parentExists directory then
    .ok {
      hasDirectory := Function.update files.hasDirectory directory true
      entry := files.entry
      content := files.content
      nextInode := files.nextInode
      entryBound := files.entryBound
      entryDirectory := by
        intro path inode hentry
        by_cases hsame : Located.directory path = directory
        · rw [hsame, Function.update_self]
        · rw [Function.update_of_ne hsame]
          exact files.entryDirectory path inode hentry
      directoryClosed := by
        intro child parent hchild hparentOf
        by_cases hsame : parent = directory
        · rw [hsame, Function.update_self]
        · rw [Function.update_of_ne hsame]
          by_cases hnew : child = directory
          · subst child
            simpa [parentExists, hparentOf] using hparent
          · rw [Function.update_of_ne hnew] at hchild
            exact files.directoryClosed child parent hchild hparentOf
    }
  else
    .error .notFound

def createExclusive [DecidableEq π] (files : FileSystem π) (path : π) :
    Except Refusal (FileSystem π × Inode) :=
  match files.entry path with
  | some _ => .error .alreadyExists
  | none =>
      if hdirectory : files.hasDirectory (Located.directory path) then
        .ok ({
          hasDirectory := files.hasDirectory
          entry := Function.update files.entry path (some files.nextInode)
          content := Function.update files.content files.nextInode []
          nextInode := files.nextInode + 1
          entryBound := by
            intro other inode hentry
            by_cases hother : other = path
            · subst other
              rw [Function.update_self, Option.some.injEq] at hentry
              rw [← hentry]
              exact Nat.lt_succ_self files.nextInode
            · rw [Function.update_of_ne hother] at hentry
              exact Nat.lt_succ_of_lt (files.entryBound other inode hentry)
          entryDirectory := by
            intro other inode hentry
            by_cases hother : other = path
            · subst other
              exact hdirectory
            · rw [Function.update_of_ne hother] at hentry
              exact files.entryDirectory other inode hentry
          directoryClosed := files.directoryClosed
        }, files.nextInode)
      else
        .error .notFound

def append (files : FileSystem π) (inode : Inode) (bytes : Bytes) : FileSystem π :=
  { files with
    content := Function.update files.content inode (files.content inode ++ bytes) }

def link [DecidableEq π] (files : FileSystem π) (source target : π) :
    Except Refusal (FileSystem π) :=
  match files.entry target with
  | some _ => .error .alreadyExists
  | none =>
      match hsource : files.entry source with
      | none => .error .notFound
      | some inode =>
          if hdirectory : files.hasDirectory (Located.directory target) then
            .ok {
              hasDirectory := files.hasDirectory
              entry := Function.update files.entry target (some inode)
              content := files.content
              nextInode := files.nextInode
              entryBound := by
                intro other linked hentry
                by_cases hother : other = target
                · subst other
                  rw [Function.update_self, Option.some.injEq] at hentry
                  subst linked
                  exact files.entryBound source inode hsource
                · rw [Function.update_of_ne hother] at hentry
                  exact files.entryBound other linked hentry
              entryDirectory := by
                intro other linked hentry
                by_cases hother : other = target
                · subst other
                  exact hdirectory
                · rw [Function.update_of_ne hother] at hentry
                  exact files.entryDirectory other linked hentry
              directoryClosed := files.directoryClosed
            }
          else
            .error .notFound

def unlink [DecidableEq π] (files : FileSystem π) (path : π) :
    Except Refusal (FileSystem π) :=
  match files.entry path with
  | none => .error .notFound
  | some _ =>
      have hkept : ∀ {other inode},
          Function.update files.entry path none other = some inode →
            files.entry other = some inode := by
        intro other inode hentry
        by_cases hother : other = path
        · subst other
          simp at hentry
        · rwa [Function.update_of_ne hother] at hentry
      .ok {
        hasDirectory := files.hasDirectory
        entry := Function.update files.entry path none
        content := files.content
        nextInode := files.nextInode
        entryBound := fun other inode hentry =>
          files.entryBound other inode (hkept hentry)
        entryDirectory := fun other inode hentry =>
          files.entryDirectory other inode (hkept hentry)
        directoryClosed := files.directoryClosed
      }

/-! ## What a successful call did -/

variable {files next : FileSystem π}

theorem makeDirectory_eq_ok [DecidableEq δ] {directory : δ}
    (hmake : files.makeDirectory directory = .ok next) :
    next.entry = files.entry ∧ next.content = files.content ∧
      next.nextInode = files.nextInode := by
  unfold makeDirectory at hmake
  split at hmake
  · contradiction
  · split at hmake
    · simp only [Except.ok.injEq] at hmake
      subst next
      exact ⟨rfl, rfl, rfl⟩
    · contradiction

theorem createExclusive_eq_ok [DecidableEq π] {path : π} {inode : Inode}
    (hcreate : files.createExclusive path = .ok (next, inode)) :
    files.entry path = none ∧ inode = files.nextInode ∧
      next.entry = Function.update files.entry path (some inode) ∧
      next.content = Function.update files.content inode [] ∧
      next.nextInode = files.nextInode + 1 := by
  unfold createExclusive at hcreate
  cases hentry : files.entry path with
  | some other => simp [hentry] at hcreate
  | none =>
      simp only [hentry] at hcreate
      split at hcreate
      · simp only [Except.ok.injEq, Prod.mk.injEq] at hcreate
        rcases hcreate with ⟨hnext, hinode⟩
        subst next
        subst inode
        exact ⟨rfl, rfl, rfl, rfl, rfl⟩
      · contradiction

theorem link_eq_ok [DecidableEq π] {source target : π}
    (hlink : files.link source target = .ok next) :
    files.entry target = none ∧
      ∃ inode, files.entry source = some inode ∧
        next.entry = Function.update files.entry target (some inode) ∧
        next.content = files.content ∧ next.nextInode = files.nextInode := by
  unfold link at hlink
  cases htarget : files.entry target with
  | some other => simp [htarget] at hlink
  | none =>
      simp only [htarget] at hlink
      split at hlink
      · contradiction
      · rename_i inode hsource
        split at hlink
        · simp only [Except.ok.injEq] at hlink
          subst next
          exact ⟨rfl, inode, hsource, rfl, rfl, rfl⟩
        · contradiction

theorem unlink_eq_ok [DecidableEq π] {path : π}
    (hunlink : files.unlink path = .ok next) :
    (∃ inode, files.entry path = some inode) ∧
      next.entry = Function.update files.entry path none ∧
      next.content = files.content ∧ next.nextInode = files.nextInode := by
  unfold unlink at hunlink
  cases hentry : files.entry path with
  | none => simp [hentry] at hunlink
  | some inode =>
      simp only [hentry, Except.ok.injEq] at hunlink
      subst next
      exact ⟨⟨inode, rfl⟩, rfl, rfl, rfl⟩

theorem unlink_eq_error [DecidableEq π] {path : π} {refusal : Refusal}
    (hunlink : files.unlink path = .error refusal) : files.entry path = none := by
  unfold unlink at hunlink
  cases hentry : files.entry path with
  | none => rfl
  | some inode => simp [hentry] at hunlink

theorem entry_eq_none_of_no_directory {path : π}
    (hdirectory : files.hasDirectory (Located.directory path) = false) :
    files.entry path = none := by
  cases hentry : files.entry path with
  | none => rfl
  | some inode =>
      have hexists := files.entryDirectory path inode hentry
      rw [hdirectory] at hexists
      contradiction

@[simp] theorem append_entry (inode : Inode) (bytes : Bytes) :
    (files.append inode bytes).entry = files.entry := rfl

@[simp] theorem append_nextInode (inode : Inode) (bytes : Bytes) :
    (files.append inode bytes).nextInode = files.nextInode := rfl

@[simp] theorem append_content_self (inode : Inode) (bytes : Bytes) :
    (files.append inode bytes).content inode = files.content inode ++ bytes := by
  simp [append]

theorem append_content_of_ne {inode other : Inode} (hne : other ≠ inode)
    (bytes : Bytes) :
    (files.append inode bytes).content other = files.content other := by
  simp [append, Function.update_of_ne hne]

theorem hasDirectory_makeDirectory [DecidableEq δ] {directory : δ}
    (hmake : files.makeDirectory directory = .ok next) :
    next.hasDirectory = Function.update files.hasDirectory directory true := by
  unfold makeDirectory at hmake
  split at hmake
  · cases hmake
  · split at hmake
    · cases hmake
      rfl
    · cases hmake

theorem hasDirectory_createExclusive [DecidableEq π] {path : π} {inode : Inode}
    (hcreate : files.createExclusive path = .ok (next, inode)) :
    next.hasDirectory = files.hasDirectory := by
  unfold createExclusive at hcreate
  split at hcreate
  · cases hcreate
  · split at hcreate
    · cases hcreate
      rfl
    · cases hcreate

theorem hasDirectory_link [DecidableEq π] {source target : π}
    (hlink : files.link source target = .ok next) : next.hasDirectory = files.hasDirectory := by
  unfold link at hlink
  split at hlink
  · cases hlink
  · split at hlink
    · cases hlink
    · split at hlink
      · cases hlink
        rfl
      · cases hlink

theorem hasDirectory_unlink [DecidableEq π] {path : π}
    (hunlink : files.unlink path = .ok next) : next.hasDirectory = files.hasDirectory := by
  unfold unlink at hunlink
  split at hunlink
  · cases hunlink
  · cases hunlink
    rfl

/-! ## What paths read after a call -/

theorem read_eq_none_iff {path : π} : files.read path = none ↔ files.entry path = none := by
  rw [read, Option.map_eq_none_iff]

theorem read_eq_of_same (hentry : next.entry = files.entry)
    (hcontent : next.content = files.content) : next.read = files.read := by
  funext path
  rw [read, read, hentry, hcontent]

theorem read_createExclusive [DecidableEq π] {path : π} {inode : Inode}
    (hcreate : files.createExclusive path = .ok (next, inode)) :
    files.read path = none ∧ next.read = Function.update files.read path (some []) := by
  obtain ⟨hfree, hfresh, hentry, hcontent, _⟩ := createExclusive_eq_ok hcreate
  refine ⟨read_eq_none_iff.mpr hfree, ?_⟩
  funext other
  rw [read, hentry, hcontent]
  by_cases hother : other = path
  · rw [hother, Function.update_self, Function.update_self, Option.map_some,
      Function.update_self]
  · rw [Function.update_of_ne hother, Function.update_of_ne hother, read]
    apply Option.map_congr
    intro named hnamed
    apply Function.update_of_ne
    rw [hfresh]
    exact Nat.ne_of_lt (files.entryBound other named hnamed)

theorem read_append [DecidableEq π] {path : π} {inode : Inode} {stored : Bytes}
    (hentry : files.entry path = some inode)
    (hsole : ∀ other, files.entry other = some inode → other = path)
    (hread : files.read path = some stored) (bytes : Bytes) :
    (files.append inode bytes).read =
      Function.update files.read path (some (stored ++ bytes)) := by
  have hcontent : files.content inode = stored := by
    simpa [read, hentry] using hread
  funext other
  by_cases hother : other = path
  · rw [hother, Function.update_self, read, append_entry, hentry, Option.map_some,
      append_content_self, hcontent]
  · rw [Function.update_of_ne hother, read, read, append_entry]
    apply Option.map_congr
    intro named hnamed
    apply append_content_of_ne
    rintro rfl
    exact hother (hsole other hnamed)

theorem read_link [DecidableEq π] {source target : π}
    (hlink : files.link source target = .ok next) :
    files.read target = none ∧
      next.read = Function.update files.read target (files.read source) := by
  obtain ⟨hfree, inode, hsource, hentry, hcontent, _⟩ := link_eq_ok hlink
  refine ⟨read_eq_none_iff.mpr hfree, ?_⟩
  funext other
  rw [read, hentry, hcontent]
  by_cases hother : other = target
  · rw [hother, Function.update_self, Function.update_self, read, hsource]
  · rw [Function.update_of_ne hother, Function.update_of_ne hother, read]

theorem link_eq_alreadyExists [DecidableEq π] {source target : π}
    (hlink : files.link source target = .error .alreadyExists) :
    files.read target ≠ none := by
  intro hfree
  rw [read_eq_none_iff] at hfree
  unfold link at hlink
  simp only [hfree] at hlink
  split at hlink
  · cases hlink
  · split at hlink <;> cases hlink

theorem createExclusive_eq_alreadyExists [DecidableEq π] {path : π}
    (hcreate : files.createExclusive path = .error .alreadyExists) :
    files.read path ≠ none := by
  intro hfree
  rw [read_eq_none_iff] at hfree
  unfold createExclusive at hcreate
  simp only [hfree] at hcreate
  split at hcreate <;> cases hcreate

theorem read_unlink [DecidableEq π] {path : π} (hunlink : files.unlink path = .ok next) :
    next.read = Function.update files.read path none := by
  obtain ⟨_, hentry, hcontent, _⟩ := unlink_eq_ok hunlink
  funext other
  rw [read, hentry, hcontent]
  by_cases hother : other = path
  · rw [hother, Function.update_self, Function.update_self, Option.map_none]
  · rw [Function.update_of_ne hother, Function.update_of_ne hother, read]

end FileSystem
