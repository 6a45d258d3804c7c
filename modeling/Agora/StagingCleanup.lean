import Agora.TemporaryStaging

/-!
# No temporary file is leaked

While a part is staged only its own file changes.  A part that fails has closed it, and the
loop closes the files of the parts before; a package that is staged holds every file that was
opened, each with the bytes of its part.
-/

namespace Agora.TemporaryStaging

open RaisingProgram

/-! ## What a program does to the files -/

/-- No file but one changes. -/
structure Touches (handle : ℕ) (before after : World) : Prop where
  count : after.files.length = before.files.length
  others : ∀ other, other ≠ handle → after.files[other]? = before.files[other]?

/-- No file but one changes, and its content stays. -/
structure KeepsContent (handle : ℕ) (before after : World) : Prop where
  touches : Touches handle before after
  content : after.files[handle]?.map TemporaryFile.content =
    before.files[handle]?.map TemporaryFile.content

/-- Some files are closed, and no other changes. -/
structure Closes (handles : List ℕ) (before after : World) : Prop where
  count : after.files.length = before.files.length
  others : ∀ other, other ∉ handles → after.files[other]? = before.files[other]?
  closed : ∀ handle ∈ handles, ∀ file ∈ after.files[handle]?, file.isOpen = false

section Relations

variable {handle : ℕ} {first second third : World} {handles later : List ℕ}

theorem Touches.of_files (hfiles : second.files = first.files) : Touches handle first second := by
  constructor
  · rw [hfiles]
  · intro other _
    rw [hfiles]

theorem Touches.trans (hfirst : Touches handle first second)
    (hsecond : Touches handle second third) : Touches handle first third where
  count := hsecond.count.trans hfirst.count
  others other hother := (hsecond.others other hother).trans (hfirst.others other hother)

theorem Touches.refl (handle : ℕ) (world : World) : Touches handle world world :=
  .of_files rfl

theorem Touches.transitive (handle : ℕ) :
    ∀ a b c, Touches handle a b → Touches handle b c → Touches handle a c :=
  fun _ _ _ => Touches.trans

theorem Touches.set (world : World) (file : TemporaryFile) (operations : ℕ) :
    Touches handle world ⟨world.files.set handle file, operations⟩ where
  count := List.length_set ..
  others _ hother := List.getElem?_set_ne hother.symm

theorem KeepsContent.of_files (hfiles : second.files = first.files) :
    KeepsContent handle first second where
  touches := .of_files hfiles
  content := by rw [hfiles]

theorem KeepsContent.trans (hfirst : KeepsContent handle first second)
    (hsecond : KeepsContent handle second third) : KeepsContent handle first third where
  touches := hfirst.touches.trans hsecond.touches
  content := hsecond.content.trans hfirst.content

theorem KeepsContent.refl (handle : ℕ) (world : World) : KeepsContent handle world world :=
  .of_files rfl

theorem KeepsContent.transitive (handle : ℕ) :
    ∀ a b c, KeepsContent handle a b → KeepsContent handle b c → KeepsContent handle a c :=
  fun _ _ _ => KeepsContent.trans

theorem KeepsContent.set {world : World} {stored file : TemporaryFile} {operations : ℕ}
    (hstored : world.files[handle]? = some stored) (hcontent : file.content = stored.content) :
    KeepsContent handle world ⟨world.files.set handle file, operations⟩ where
  touches := .set world file operations
  content := by
    have hlt := (List.getElem?_eq_some_iff.mp hstored).1
    rw [List.getElem?_set_self hlt, hstored, Option.map_some, Option.map_some, hcontent]

theorem Closes.nil (world : World) : Closes [] world world where
  count := rfl
  others _ _ := rfl
  closed _ hmem := by cases hmem

theorem Closes.append (hfirst : Closes handles first second) (hsecond : Closes later second third) :
    Closes (handles ++ later) first third where
  count := hsecond.count.trans hfirst.count
  others other hother := by
    rw [List.mem_append, not_or] at hother
    exact (hsecond.others other hother.2).trans (hfirst.others other hother.1)
  closed other hother file hfile := by
    by_cases hlater : other ∈ later
    · exact hsecond.closed other hlater file hfile
    · have hmem : other ∈ handles := (List.mem_append.mp hother).resolve_right hlater
      rw [hsecond.others other hlater] at hfile
      exact hfirst.closed other hmem file hfile

theorem Closes.touches (hcloses : Closes [handle] first second) : Touches handle first second where
  count := hcloses.count
  others other hother := hcloses.others other (by simpa using hother)

end Relations

/-! ## Operations on files -/

section Operations

variable {disk : Disk} {handle : ℕ} {before after : World} {file : TemporaryFile}

@[simp] theorem operate_returns {operation : ℕ} :
    (operate disk).Returns before operation after ↔
      disk.raises before.operations = none ∧ before.operations = operation ∧
        { before with operations := before.operations + 1 } = after := by
  simp only [Returns, operate]
  cases disk.raises before.operations with
  | none => simp
  | some raised => simp

@[simp] theorem openFile_returns :
    (openFile handle).Returns before file after ↔
      before.files[handle]? = some file ∧ file.isOpen = true ∧ before = after := by
  simp only [Returns, openFile]
  cases hstored : before.files[handle]? with
  | none => simp
  | some stored =>
      by_cases hopen : stored.isOpen = true
      · simp only [if_pos hopen, Prod.mk.injEq, Except.ok.injEq, Option.some.injEq]
        constructor
        · rintro ⟨rfl, rfl⟩
          exact ⟨rfl, hopen, rfl⟩
        · rintro ⟨rfl, _, rfl⟩
          exact ⟨rfl, rfl⟩
      · simp only [if_neg hopen, Prod.mk.injEq, reduceCtorEq, false_and, Option.some.injEq,
          false_iff, not_and]
        rintro rfl hopened
        exact absurd hopened hopen

theorem operate_files (disk : Disk) (world : World) :
    (operate disk world).2.files = world.files := by
  simp only [operate]
  cases disk.raises world.operations with
  | none => rfl
  | some raised => rfl

theorem openFile_world (handle : ℕ) (world : World) : (openFile handle world).2 = world := by
  simp only [openFile]
  cases world.files[handle]? with
  | none => rfl
  | some stored =>
      cases hopen : stored.isOpen with
      | true => simp [hopen]
      | false => simp [hopen]

/-- An operation on an open file. -/
theorem respects_fileOperation {α : Type} {relation : World → World → Prop}
    {rest : TemporaryFile → ℕ → Staging α}
    (htrans : ∀ a b c, relation a b → relation b c → relation a c)
    (hsame : ∀ a b : World, b.files = a.files → relation a b)
    (hrest : ∀ world file operation, world.files[handle]? = some file →
      relation world (rest file operation world).2) :
    Respects relation (do
      let file ← openFile handle
      let operation ← operate disk
      rest file operation) := by
  intro before
  apply related_bind htrans (hsame _ _ (congrArg World.files (openFile_world handle before)))
  intro file middle hopened
  obtain ⟨hstored, _, rfl⟩ := openFile_returns.mp hopened
  apply related_bind htrans (hsame _ _ (operate_files disk before))
  intro operation later hoperated
  obtain ⟨_, _, rfl⟩ := operate_returns.mp hoperated
  exact hrest _ file operation hstored

theorem respects_operate {relation : World → World → Prop}
    (hsame : ∀ a b : World, b.files = a.files → relation a b) :
    Respects relation (operate disk) :=
  fun world => hsame _ _ (operate_files disk world)

theorem respects_openFile {relation : World → World → Prop}
    (hsame : ∀ a b : World, b.files = a.files → relation a b) :
    Respects relation (openFile handle) :=
  fun world => hsame _ _ (congrArg World.files (openFile_world handle world))

theorem rewind_keeps : Respects (KeepsContent handle) (rewind disk handle) := by
  apply respects_fileOperation
  · exact KeepsContent.transitive handle
  · exact fun _ _ => KeepsContent.of_files
  · intro world file operation hstored
    exact .set hstored rfl

theorem read_keeps {count : ℕ} : Respects (KeepsContent handle) (read disk handle count) := by
  apply respects_fileOperation
  · exact KeepsContent.transitive handle
  · exact fun _ _ => KeepsContent.of_files
  · intro world file operation hstored
    exact .set hstored rfl

theorem flush_keeps : Respects (KeepsContent handle) (flush disk handle) := by
  apply respects_fileOperation
  · exact KeepsContent.transitive handle
  · exact fun _ _ => KeepsContent.of_files
  · intro world file operation _
    exact .of_files rfl

theorem write_touches {data : Bytes} : Respects (Touches handle) (write disk handle data) := by
  apply respects_fileOperation
  · exact Touches.transitive handle
  · exact fun _ _ => Touches.of_files
  · intro world file operation _
    exact .set world _ _

theorem set_closes {world : World} {operations : ℕ} (hclosed : file.isOpen = false) :
    Closes [handle] world ⟨world.files.set handle file, operations⟩ where
  count := List.length_set ..
  others other hother := by
    rw [List.mem_singleton] at hother
    exact List.getElem?_set_ne fun heq => hother heq.symm
  closed other hother found hfound := by
    rw [List.mem_singleton] at hother
    rw [hother, Option.mem_def, List.getElem?_set_self'] at hfound
    obtain ⟨_, _, rfl⟩ := Option.map_eq_some_iff.mp hfound
    exact hclosed

theorem Closes.files {world later : World} (hcloses : Closes [handle] world later)
    {final : World} (hfiles : final.files = later.files) : Closes [handle] world final := by
  have hafter : Closes [] later final := by
    constructor
    · rw [hfiles]
    · intro other _
      rw [hfiles]
    · intro other hother
      cases hother
  exact hcloses.append hafter

/-- A close of an open file marks it closed, and any other close does nothing. -/
theorem close_cases (disk : Disk) (handle : ℕ) (world : World) :
    ((∀ file ∈ world.files[handle]?, file.isOpen = false) ∧
        close disk handle world = (.ok ⟨⟩, world)) ∨
      ∃ content position, world.files[handle]? = some ⟨content, position, true⟩ ∧
        (close disk handle world).2.files =
          world.files.set handle ⟨content, position, false⟩ := by
  cases hstored : world.files[handle]? with
  | none =>
      left
      constructor
      · intro file hfile
        cases hfile
      · simp only [close, Bind.bind, readState, hstored]
        rfl
  | some stored =>
      obtain ⟨content, position, isOpen⟩ := stored
      cases isOpen with
      | false =>
          left
          constructor
          · intro file hfile
            cases hfile
            rfl
          · simp only [close, Bind.bind, readState, hstored]
            rfl
      | true =>
          refine .inr ⟨content, position, rfl, ?_⟩
          simp only [close, Bind.bind, readState, hstored, setFile, modifyState, operate]
          cases disk.raises world.operations with
          | none => rfl
          | some raised => rfl

theorem close_closes (world : World) : Closes [handle] world (close disk handle world).2 := by
  cases close_cases disk handle world with
  | inl hclosed =>
      rw [hclosed.2]
      constructor
      · rfl
      · exact fun _ _ => rfl
      · intro other hother found hfound
        rw [List.mem_singleton.mp hother] at hfound
        exact hclosed.1 found hfound
  | inr hopen =>
      obtain ⟨content, position, _, hfiles⟩ := hopen
      have hset : Closes [handle] world
          ⟨world.files.set handle ⟨content, position, false⟩, world.operations⟩ :=
        set_closes rfl
      exact hset.files hfiles

theorem close_keeps : Respects (KeepsContent handle) (close disk handle) := by
  intro world
  cases close_cases disk handle world with
  | inl hclosed =>
      rw [hclosed.2]
      exact .of_files rfl
  | inr hopen =>
      obtain ⟨content, position, hstored, hfiles⟩ := hopen
      have hset : KeepsContent handle world
          ⟨world.files.set handle ⟨content, position, false⟩, world.operations⟩ :=
        .set hstored rfl
      exact hset.trans (.of_files hfiles)

theorem closeOneSafely_eq_close (world : World) :
    (closeOneSafely disk handle world).2 = (close disk handle world).2 := by
  simp only [closeOneSafely, RaisingProgram.handle]
  cases close disk handle world with
  | mk outcome after =>
      cases outcome with
      | ok done => rfl
      | error raised => rfl

theorem closeOneSafely_closes (world : World) :
    Closes [handle] world (closeOneSafely disk handle world).2 := by
  rw [closeOneSafely_eq_close]
  exact close_closes world

theorem closeOneSafely_keeps : Respects (KeepsContent handle) (closeOneSafely disk handle) := by
  intro world
  rw [closeOneSafely_eq_close]
  exact close_keeps world

end Operations

/-! ## The helpers keep the content -/

section Helpers

variable {π : Type} {tables : UploadTables} {parser : HtmlParser π} {disk : Disk}
  {context : PackageContext} {handle : ℕ} {α : Type} {relation : World → World → Prop}

theorem respects_liftIssue (hrefl : ∀ world, relation world world)
    (outcome : Except UploadIssue α) : Respects relation (liftIssue outcome) :=
  respects_lift hrefl _

theorem respects_rejecting (htrans : ∀ a b c, relation a b → relation b c → relation a c)
    (hrefl : ∀ world, relation world world) {issue : UploadIssue} {body : Staging α}
    (hbody : Respects relation body) : Respects relation (rejecting issue body) := by
  apply hbody.handle htrans
  intro raised
  cases raised with
  | rejected found => exact respects_raising hrefl _
  | interrupt => exact respects_raising hrefl _
  | value => exact respects_raising hrefl _
  | error => exact respects_raising hrefl _

@[simp] theorem returns_rejecting {issue : UploadIssue} {body : Staging α} {before after : World}
    {value : α} :
    (rejecting issue body).Returns before value after ↔ body.Returns before value after := by
  apply returns_handle_of_raising
  intro raised first last hreturns
  cases raised with
  | rejected found => simp at hreturns
  | interrupt => simp at hreturns
  | value => simp at hreturns
  | error => simp at hreturns

@[simp] theorem returns_liftIssue {outcome : Except UploadIssue α} {before after : World}
    {value : α} :
    (liftIssue outcome).Returns before value after ↔ outcome = .ok value ∧ before = after := by
  cases outcome with
  | ok found => simp [liftIssue, Except.mapError]
  | error issue => simp [liftIssue, Except.mapError]

theorem inspectLines_keeps {reader : Csv.Reader} {progress : CsvProgress} {byteCount : ℕ}
    {lines : List Text} : Respects (KeepsContent handle)
      (inspectLines disk context reader progress byteCount lines) := by
  have htrans := KeepsContent.transitive handle
  have hrefl := KeepsContent.refl handle
  have hoperate : Respects (KeepsContent handle) (operate disk) :=
    respects_operate fun _ _ => .of_files
  induction lines generalizing reader progress byteCount with
  | nil =>
      apply hoperate.bind htrans
      intro operation
      split
      · exact respects_pure hrefl _
      · exact respects_raising hrefl _
  | cons line rest ih =>
      apply hoperate.bind htrans
      intro operation
      split
      · exact respects_raising hrefl _
      · split
        · apply (respects_liftIssue hrefl _).bind htrans
          intro inspected
          exact ih
        · exact ih

theorem withWrapper_keeps {body : Staging α} (hbody : Respects (KeepsContent handle) body) :
    Respects (KeepsContent handle) (withWrapper disk handle body) := by
  intro world
  have hdetached : KeepsContent handle world (operate disk (body world).2).2 :=
    (hbody world).trans (.of_files (operate_files disk _))
  simp only [withWrapper]
  cases hran : operate disk (body world).2 with
  | mk outcome after =>
      rw [hran] at hdetached
      cases outcome with
      | ok operation => exact hdetached
      | error raised =>
          have hclosed := hdetached.trans (@closeOneSafely_keeps disk handle after)
          cases raised with
          | rejected issue => exact hclosed
          | value => exact hclosed
          | error => exact hclosed
          | interrupt => exact hclosed

theorem validateCsv_keeps :
    Respects (KeepsContent handle) (validateCsv tables disk context handle) := by
  have htrans := KeepsContent.transitive handle
  have hrefl := KeepsContent.refl handle
  apply respects_rejecting htrans hrefl
  apply rewind_keeps.bind htrans
  intro _
  apply (respects_openFile fun _ _ => KeepsContent.of_files).bind htrans
  intro file
  apply (respects_operate fun _ _ => KeepsContent.of_files).bind htrans
  intro operation
  apply (withWrapper_keeps ?_).bind htrans
  · intro progress
    apply (respects_liftIssue hrefl _).bind htrans
    intro _
    exact respects_liftIssue hrefl _
  · unfold inspectText
    split
    · exact respects_raising hrefl _
    · split
      · exact inspectLines_keeps
      · exact respects_raising hrefl _

theorem validateBinarySignature_keeps {mediaType : String} :
    Respects (KeepsContent handle) (validateBinarySignature disk context handle mediaType) := by
  have htrans := KeepsContent.transitive handle
  have hrefl := KeepsContent.refl handle
  unfold validateBinarySignature
  split
  · exact respects_raising hrefl _
  · apply respects_rejecting htrans hrefl
    apply rewind_keeps.bind htrans
    intro _
    apply read_keeps.bind htrans
    intro opening
    apply (respects_liftIssue hrefl _).bind htrans
    intro _
    exact rewind_keeps

theorem finishContent_keeps {mediaType : String} {content : ContentValidator π} :
    Respects (KeepsContent handle)
      (finishContent tables parser disk context handle mediaType content) := by
  have htrans := KeepsContent.transitive handle
  have hrefl := KeepsContent.refl handle
  cases content with
  | html decoder reading => exact respects_liftIssue hrefl _
  | css decoder validator => exact respects_liftIssue hrefl _
  | csv decoder => exact validateCsv_keeps.bind htrans fun _ => respects_pure hrefl _
  | binary => exact validateBinarySignature_keeps.bind htrans fun _ => respects_pure hrefl _

end Helpers

/-! ## Staging a part -/

/-- The file is open behind its last byte. -/
def AtEnd (handle : ℕ) (bytes : Bytes) (world : World) : Prop :=
  world.files[handle]? = some ⟨bytes, bytes.length, true⟩

section Part

variable {π : Type} {tables : UploadTables} {parser : HtmlParser π} {disk : Disk}
  {sha256 : Bytes → Text} {context : PackageContext} {handle : ℕ} {before after : World}
  {bytes : Bytes}

theorem keeps_touches {α : Type} {body : Staging α}
    (hkeeps : Respects (KeepsContent handle) body) : Respects (Touches handle) body :=
  hkeeps.mono fun _ _ hkept => hkept.touches

theorem writeAll_touches {chunk : Bytes} :
    Respects (Touches handle) (writeAll disk context handle chunk) := by
  have htrans := Touches.transitive handle
  have hrefl := Touches.refl handle
  apply respects_rejecting htrans hrefl
  generalize chunk.length = fuel
  induction fuel generalizing chunk with
  | zero => exact respects_pure hrefl _
  | succ fuel ih =>
      unfold writeAllFrom
      split
      · exact respects_pure hrefl _
      · apply write_touches.bind htrans
        intro written
        split
        · exact respects_raising hrefl _
        · exact ih

theorem stageChunks_touches {count : ℕ} {progress : Progress π} {events : List StreamEvent} :
    Respects (Touches handle)
      (Progress.stageChunks tables parser disk context handle count progress events) := by
  have htrans := Touches.transitive handle
  have hrefl := Touches.refl handle
  induction events generalizing count progress with
  | nil => exact respects_pure hrefl _
  | cons event rest ih =>
      cases event with
      | raises raised => exact respects_raising hrefl _
      | notBytes =>
          apply (respects_liftIssue hrefl _).bind htrans
          intro _
          exact respects_raising hrefl _
      | bytes chunk =>
          apply (respects_liftIssue hrefl _).bind htrans
          intro _
          apply Respects.bind htrans _ fun next => ih
          apply (respects_liftIssue hrefl _).bind htrans
          intro _
          apply (respects_liftIssue hrefl _).bind htrans
          intro _
          apply (respects_liftIssue hrefl _).bind htrans
          intro content
          apply writeAll_touches.bind htrans
          intro _
          exact respects_pure hrefl _

theorem stageBody_touches {stream : ByteStream} {totalSize : ℕ} {entry : ManifestEntry} :
    Respects (Touches handle)
      (stageBody tables parser disk sha256 context handle stream totalSize entry) := by
  have htrans := Touches.transitive handle
  have hrefl := Touches.refl handle
  have hsource : Respects (Touches handle) (sourceIterator stream) := by
    cases stream with
    | ok events => exact respects_pure hrefl _
    | error raised =>
        cases raised with
        | rejected issue => exact respects_raising hrefl _
        | value => exact respects_raising hrefl _
        | error => exact respects_raising hrefl _
        | interrupt => exact respects_raising hrefl _
  apply hsource.bind htrans
  intro events
  apply stageChunks_touches.bind htrans
  intro progress
  apply (respects_liftIssue hrefl _).bind htrans
  intro content
  apply (respects_liftIssue hrefl _).bind htrans
  intro _
  apply (keeps_touches finishContent_keeps).bind htrans
  intro references
  apply (keeps_touches flush_keeps).bind htrans
  intro _
  apply (keeps_touches rewind_keeps).bind htrans
  intro _
  exact respects_pure hrefl _

theorem write_returns {data : Bytes} {written : ℕ} (hend : AtEnd handle bytes before)
    (hreturns : (write disk handle data).Returns before written after) :
    AtEnd handle (bytes ++ data.take written) after := by
  simp only [write, returns_bind, openFile_returns, operate_returns, setFile,
    returns_modifyState, returns_pure, and_assoc, exists_eq_left'] at hreturns
  obtain ⟨file, _, hstored, _, rfl, operation, _, _, _, rfl, _, hwritten, rfl⟩ := hreturns
  cases Option.some.inj (hend.symm.trans hstored)
  have hlt := (List.getElem?_eq_some_iff.mp hstored).1
  have htaken : data.take written = data.take (disk.progress operation) := by
    rw [← hwritten, List.length_take, ← List.take_eq_take_min]
  rw [htaken, AtEnd]
  simp only
  rw [List.getElem?_set_self hlt]
  simp [TemporaryFile.write]

theorem writeAllFrom_returns {fuel : ℕ} {remaining : Bytes} {done : PUnit}
    (hend : AtEnd handle bytes before) (hfuel : remaining.length ≤ fuel)
    (hreturns : (writeAllFrom disk handle fuel remaining).Returns before done after) :
    AtEnd handle (bytes ++ remaining) after := by
  induction fuel generalizing bytes remaining before with
  | zero =>
      rw [writeAllFrom, returns_pure] at hreturns
      have hnil : remaining = [] := List.length_eq_zero_iff.mp (Nat.le_zero.mp hfuel)
      rw [hnil, List.append_nil, ← hreturns.2]
      exact hend
  | succ fuel ih =>
      rw [writeAllFrom] at hreturns
      split at hreturns
      · rename_i hnil
        rw [returns_pure] at hreturns
        rw [hnil, List.append_nil, ← hreturns.2]
        exact hend
      · rw [returns_bind] at hreturns
        obtain ⟨written, middle, hwrite, hrest⟩ := hreturns
        have hmiddle := write_returns hend hwrite
        split at hrest
        · rw [returns_raising] at hrest
          exact hrest.elim
        · rename_i hpositive
          have hshorter : (remaining.drop written).length ≤ fuel := by
            rw [List.length_drop]
            omega
          have hafter := ih hmiddle hshorter hrest
          rw [List.append_assoc, List.take_append_drop] at hafter
          exact hafter

theorem stageBytes_returns {progress next : Progress π} {chunk : Bytes}
    (hend : AtEnd handle bytes before)
    (hreturns : (progress.stageBytes tables parser disk context handle chunk).Returns before next
      after) :
    AtEnd handle (bytes ++ chunk) after ∧
      next.byteSize = progress.byteSize + chunk.length ∧
        next.digested = progress.digested ++ chunk := by
  simp only [Progress.stageBytes, returns_bind, returns_liftIssue, writeAll, returns_rejecting,
    returns_pure, and_assoc, exists_and_left, exists_eq_left'] at hreturns
  obtain ⟨_, _, _, _, content, _, _, middle, hwritten, rfl, rfl⟩ := hreturns
  exact ⟨writeAllFrom_returns hend le_rfl hwritten, rfl, rfl⟩

theorem stageChunks_returns {count : ℕ} {progress last : Progress π} {events : List StreamEvent}
    (hend : AtEnd handle bytes before)
    (hreturns : (Progress.stageChunks tables parser disk context handle count progress
      events).Returns before last after) :
    ∃ chunks : List Bytes, events = chunks.map .bytes ∧
      AtEnd handle (bytes ++ chunks.flatten) after ∧
        last.byteSize = progress.byteSize + chunks.flatten.length ∧
          last.digested = progress.digested ++ chunks.flatten := by
  induction events generalizing count progress bytes before with
  | nil =>
      rw [Progress.stageChunks, returns_pure] at hreturns
      obtain ⟨rfl, rfl⟩ := hreturns
      exact ⟨[], rfl, by simpa using hend, rfl, by simp⟩
  | cons event rest ih =>
      cases event with
      | raises raised => simp [Progress.stageChunks] at hreturns
      | notBytes => simp [Progress.stageChunks] at hreturns
      | bytes chunk =>
          simp only [Progress.stageChunks, returns_bind, returns_liftIssue, and_assoc,
            exists_and_left, exists_eq_left'] at hreturns
          obtain ⟨_, _, next, middle, hchunk, hrest⟩ := hreturns
          obtain ⟨hmiddle, hsize, hdigested⟩ := stageBytes_returns hend hchunk
          obtain ⟨chunks, rfl, hafter, hlast, hlastDigested⟩ := ih hmiddle hrest
          refine ⟨chunk :: chunks, rfl, ?_, ?_, ?_⟩
          · rw [List.flatten_cons, ← List.append_assoc]
            exact hafter
          · rw [hlast, hsize, List.flatten_cons, List.length_append, Nat.add_assoc]
          · rw [hlastDigested, hdigested, List.flatten_cons, List.append_assoc]

theorem rewind_returns {done : PUnit} {content : Bytes}
    (hcontent : before.files[handle]?.map TemporaryFile.content = some content)
    (hreturns : (rewind disk handle).Returns before done after) :
    after.files[handle]? = some ⟨content, 0, true⟩ := by
  simp only [rewind, returns_bind, openFile_returns, operate_returns, setFile,
    returns_modifyState, and_assoc] at hreturns
  obtain ⟨file, _, hstored, hopen, rfl, operation, _, _, _, rfl, rfl⟩ := hreturns
  have hlt := (List.getElem?_eq_some_iff.mp hstored).1
  rw [hstored, Option.map_some, Option.some.injEq] at hcontent
  simp only
  rw [List.getElem?_set_self hlt, hcontent, hopen]

/-- What a part that is staged says about the bytes of its stream. -/
structure StagedUploadFile.Records (sha256 : Bytes → Text) (file : StagedUploadFile)
    (stream : ByteStream) (bytes : Bytes) : Prop where
  streamed : ∃ chunks : List Bytes, stream = .ok (chunks.map .bytes) ∧ chunks.flatten = bytes
  byteSize : file.byteSize = bytes.length
  sha256 : file.sha256 = sha256 bytes

theorem stageBody_returns {stream : ByteStream} {totalSize : ℕ} {entry : ManifestEntry}
    {part : StagedPart} (hend : AtEnd handle [] before)
    (hreturns : (stageBody tables parser disk sha256 context handle stream totalSize entry).Returns
      before part after) :
    part.file.handle = handle ∧ ∃ bytes, after.files[handle]? = some ⟨bytes, 0, true⟩ ∧
      part.file.Records sha256 stream bytes := by
  simp only [stageBody, returns_bind, returns_liftIssue, returns_pure, and_assoc,
    exists_and_left, exists_eq_left'] at hreturns
  obtain ⟨events, started, hsource, progress, staged, hchunks, content, _, _, _, references,
    finished, hfinish, _, flushed, hflush, _, rewound, hrewind, rfl, rfl⟩ := hreturns
  have hopened : stream = .ok events ∧ before = started := by
    cases stream with
    | ok given =>
        simp only [sourceIterator, returns_pure] at hsource
        exact ⟨congrArg Except.ok hsource.1, hsource.2⟩
    | error raised =>
        cases raised with
        | rejected issue => simp [sourceIterator] at hsource
        | value => simp [sourceIterator] at hsource
        | error => simp [sourceIterator] at hsource
        | interrupt => simp [sourceIterator] at hsource
  obtain ⟨rfl, rfl⟩ := hopened
  obtain ⟨chunks, rfl, hstaged, hsize, hdigested⟩ := stageChunks_returns hend hchunks
  rw [List.nil_append] at hstaged
  have hkept := (finishContent_keeps.of_returns hfinish).trans (flush_keeps.of_returns hflush)
  have hcontent : flushed.files[handle]?.map TemporaryFile.content = some chunks.flatten := by
    rw [hkept.content, hstaged]
    rfl
  refine ⟨rfl, chunks.flatten, rewind_returns hcontent hrewind, ⟨chunks, rfl, rfl⟩, ?_, ?_⟩
  · simpa using hsize
  · simp only [hdigested, List.nil_append]

end Part

/-! ## An entry of the manifest -/

/-- Every file opened meanwhile is closed, and the earlier ones are as they were. -/
structure LeavesNothingOpen (before after : World) : Prop where
  kept : ∀ handle < before.files.length, after.files[handle]? = before.files[handle]?
  closed : ∀ handle, before.files.length ≤ handle →
    ∀ file ∈ after.files[handle]?, file.isOpen = false

section Entry

variable {π : Type} {tables : UploadTables} {parser : HtmlParser π} {disk : Disk}
  {sha256 : Bytes → Text} {streams : ℕ → ByteStream} {artifactKinds : ArtifactKinds}
  {limits : UploadLimits} {totalSize : ℕ} {entry : ManifestEntry} {before after : World}

theorem createFile_returns {handle : ℕ} :
    (createFile disk).Returns before handle after ↔
      disk.raises before.operations = none ∧ handle = before.files.length ∧
        after = ⟨before.files ++ [⟨[], 0, true⟩], before.operations + 1⟩ := by
  simp only [createFile, returns_bind, operate_returns, returns_readState, returns_modifyState,
    returns_pure]
  constructor
  · rintro ⟨_, _, ⟨hquiet, rfl, rfl⟩, _, _, ⟨rfl, rfl⟩, _, _, rfl, rfl, rfl⟩
    exact ⟨hquiet, rfl, rfl⟩
  · rintro ⟨hquiet, rfl, rfl⟩
    exact ⟨_, _, ⟨hquiet, rfl, rfl⟩, _, _, ⟨rfl, rfl⟩, ⟨⟩, _, rfl, rfl, rfl⟩

theorem createFile_raises {raised : Raised}
    (hraises : (createFile disk).Raises before raised after) :
    after.files = before.files := by
  simp only [createFile, raises_bind, returns_readState, returns_modifyState] at hraises
  rcases hraises with hoperate | ⟨_, _, _, hread | ⟨_, _, _, hmodify | ⟨_, _, _, hpure⟩⟩⟩
  · have hfiles := operate_files disk before
    rw [hoperate] at hfiles
    exact hfiles
  · cases hread
  · cases hmodify
  · cases hpure

theorem closeOneSafely_raises {handle : ℕ} {raised : Raised} :
    ¬ (closeOneSafely disk handle).Raises before raised after := by
  simp [closeOneSafely]

theorem closeOneSafely_returns {handle : ℕ} {done : PUnit}
    (hreturns : (closeOneSafely disk handle).Returns before done after) :
    Closes [handle] before after := by
  have hcloses := @closeOneSafely_closes disk handle before
  rw [hreturns] at hcloses
  exact hcloses

/-- An entry that fails has closed the file that it opened. -/
theorem stageEntry_raises {raised : Raised}
    (hraises : (stageEntry tables parser disk sha256 streams artifactKinds limits totalSize
      entry).Raises before raised after) :
    LeavesNothingOpen before after := by
  simp only [stageEntry, raises_bind, raises_handle] at hraises
  rcases hraises with ⟨found, middle, hcreate, hhandler⟩ |
    ⟨handle, middle, hcreate, found, failed, hbody, hhandler⟩
  · have hfiles := createFile_raises hcreate
    have hsame : middle = after := by
      cases found with
      | interrupt => exact (raises_raising.mp hhandler).2
      | rejected issue => exact (raises_raising.mp hhandler).2
      | value => exact (raises_raising.mp hhandler).2
      | error => exact (raises_raising.mp hhandler).2
    rw [hsame] at hfiles
    constructor
    · intro handle _
      rw [hfiles]
    · intro handle hle file hfile
      rw [hfiles, Option.mem_def, List.getElem?_eq_none hle] at hfile
      cases hfile
  · rw [returns_handle_of_raising, createFile_returns] at hcreate
    · obtain ⟨_, rfl, rfl⟩ := hcreate
      have htouched := stageBody_touches.of_raises hbody
      rcases hhandler with hclose | ⟨_, closed, hclose, hraised⟩
      · exact absurd hclose closeOneSafely_raises
      · have hcloses := closeOneSafely_returns hclose
        have hsame : closed = after := by
          cases found with
          | interrupt => exact (raises_raising.mp hraised).2
          | rejected issue => exact (raises_raising.mp hraised).2
          | value => exact (raises_raising.mp hraised).2
          | error => exact (raises_raising.mp hraised).2
        rw [hsame] at hcloses
        have htouches := htouched.trans hcloses.touches
        constructor
        · intro handle hlt
          rw [htouches.others handle (Nat.ne_of_lt hlt)]
          exact List.getElem?_append_left hlt
        · intro handle hle file hfile
          by_cases hsameHandle : handle = before.files.length
          · apply hcloses.closed handle
            · rw [hsameHandle]
              exact List.mem_singleton_self _
            · exact hfile
          · rw [htouches.others handle hsameHandle, Option.mem_def, List.getElem?_eq_none] at hfile
            · cases hfile
            · simp only [List.length_append, List.length_singleton]
              omega
    · intro failure first last hreturns
      cases failure with
      | interrupt => simp at hreturns
      | rejected issue => simp at hreturns
      | value => simp at hreturns
      | error => simp at hreturns

/-- An entry that is staged leaves its own file open behind the earlier ones. -/
theorem stageEntry_returns {part : StagedPart}
    (hreturns : (stageEntry tables parser disk sha256 streams artifactKinds limits totalSize
      entry).Returns before part after) :
    part.file.handle = before.files.length ∧
      after.files.length = before.files.length + 1 ∧
        (∀ handle < before.files.length, after.files[handle]? = before.files[handle]?) ∧
          ∃ bytes, after.files[before.files.length]? = some ⟨bytes, 0, true⟩ ∧
            part.file.Records sha256 (streams entry.index) bytes := by
  simp only [stageEntry, returns_bind] at hreturns
  obtain ⟨handle, middle, hcreate, hbody⟩ := hreturns
  rw [returns_handle_of_raising, createFile_returns] at hcreate
  · obtain ⟨_, rfl, rfl⟩ := hcreate
    rw [returns_handle_of_raising] at hbody
    · have hend : AtEnd before.files.length []
          ⟨before.files ++ [⟨[], 0, true⟩], before.operations + 1⟩ := by
        simp [AtEnd]
      have htouches := stageBody_touches.of_returns hbody
      obtain ⟨hhandle, bytes, hheld, hrecords⟩ := stageBody_returns hend hbody
      refine ⟨hhandle, ?_, ?_, bytes, hheld, hrecords⟩
      · rw [htouches.count, List.length_append, List.length_singleton]
      · intro other hlt
        rw [htouches.others other (Nat.ne_of_lt hlt)]
        exact List.getElem?_append_left hlt
    · intro failure first last hhandled
      rw [returns_bind] at hhandled
      obtain ⟨_, _, _, hraised⟩ := hhandled
      cases failure with
      | interrupt => simp at hraised
      | rejected issue => simp at hraised
      | value => simp at hraised
      | error => simp at hraised
  · intro failure first last hhandled
    cases failure with
    | interrupt => simp at hhandled
    | rejected issue => simp at hhandled
    | value => simp at hhandled
    | error => simp at hhandled

end Entry

/-! ## The package -/

/-- Since a base only the files of a package were opened, and each is open at its start with the
bytes of its part. -/
structure HeldOpen (sha256 : Bytes → Text) (streams : ℕ → ByteStream) (base : World)
    (files : List StagedUploadFile) (world : World) : Prop where
  count : world.files.length = base.files.length + files.length
  kept : ∀ handle < base.files.length, world.files[handle]? = base.files[handle]?
  held : ∀ index file, files[index]? = some file → file.handle = base.files.length + index ∧
    ∃ bytes, world.files[file.handle]? = some ⟨bytes, 0, true⟩ ∧
      file.Records sha256 (streams index) bytes

section Package

variable {π : Type} {tables : UploadTables} {parser : HtmlParser π} {disk : Disk}
  {sha256 : Bytes → Text} {streams : ℕ → ByteStream} {artifactKinds : ArtifactKinds}
  {limits : UploadLimits} {base before after : World} {files : List StagedUploadFile}

theorem HeldOpen.start (base : World) : HeldOpen sha256 streams base [] base where
  count := rfl
  kept _ _ := rfl
  held index file hfile := by simp at hfile

theorem HeldOpen.mem_handles (hheld : HeldOpen sha256 streams base files before) {handle : ℕ}
    (hle : base.files.length ≤ handle) (hlt : handle < base.files.length + files.length) :
    handle ∈ files.map StagedUploadFile.handle := by
  have hindex : handle - base.files.length < files.length := by omega
  have hfile := List.getElem?_eq_getElem hindex
  have hsame := (hheld.held _ _ hfile).1
  apply List.mem_map.mpr
  refine ⟨files[handle - base.files.length], List.getElem_mem hindex, ?_⟩
  omega

theorem HeldOpen.le_of_mem (hheld : HeldOpen sha256 streams base files before) {handle : ℕ}
    (hmem : handle ∈ files.map StagedUploadFile.handle) :
    base.files.length ≤ handle ∧ handle < base.files.length + files.length := by
  obtain ⟨file, hfile, rfl⟩ := List.mem_map.mp hmem
  obtain ⟨index, hget⟩ := List.mem_iff_getElem?.mp hfile
  have hlt := (List.getElem?_eq_some_iff.mp hget).1
  have hsame := (hheld.held index file hget).1
  omega

theorem HeldOpen.concat (hheld : HeldOpen sha256 streams base files before)
    {totalSize : ℕ} {entry : ManifestEntry} {part : StagedPart}
    (hindex : entry.index = files.length)
    (hreturns : (stageEntry tables parser disk sha256 streams artifactKinds limits totalSize
      entry).Returns before part after) :
    HeldOpen sha256 streams base (files ++ [part.file]) after := by
  obtain ⟨hhandle, hcount, hkept, bytes, hopen, hrecords⟩ := stageEntry_returns hreturns
  have hlength := hheld.count
  constructor
  · rw [hcount, hlength, List.length_append, List.length_singleton, Nat.add_assoc]
  · intro handle hlt
    rw [hkept handle (by omega)]
    exact hheld.kept handle hlt
  · intro index file hfile
    rw [List.getElem?_append] at hfile
    split at hfile
    · obtain ⟨hsame, stored, hstored, hearlier⟩ := hheld.held index file hfile
      refine ⟨hsame, stored, ?_, hearlier⟩
      rw [hkept file.handle (by omega)]
      exact hstored
    · have hlast : index = files.length := by
        have hsingle := (List.getElem?_eq_some_iff.mp hfile).1
        simp only [List.length_singleton] at hsingle
        omega
      rw [hlast, Nat.sub_self] at hfile
      cases hfile
      rw [hlast, hhandle, hlength]
      refine ⟨rfl, bytes, ?_, ?_⟩
      · rw [← hlength]
        exact hopen
      · rw [← hindex]
        exact hrecords

theorem closeStagedSafely_returns {done : PUnit}
    (hreturns : (closeStagedSafely disk files).Returns before done after) :
    Closes (files.map StagedUploadFile.handle) before after := by
  induction files generalizing before with
  | nil =>
      rw [closeStagedSafely, returns_pure] at hreturns
      rw [← hreturns.2]
      exact .nil before
  | cons file rest ih =>
      rw [closeStagedSafely, returns_bind] at hreturns
      obtain ⟨_, middle, hclose, hrest⟩ := hreturns
      exact (closeOneSafely_returns hclose).append (ih hrest)

theorem closeStagedSafely_raises {raised : Raised} :
    ¬ (closeStagedSafely disk files).Raises before raised after := by
  induction files generalizing before with
  | nil => simp [closeStagedSafely]
  | cons file rest ih =>
      rw [closeStagedSafely, raises_bind]
      rintro (hclose | ⟨_, _, _, hrest⟩)
      · exact closeOneSafely_raises hclose
      · exact ih hrest

theorem HeldOpen.close (hheld : HeldOpen sha256 streams base files before) {middle : World}
    (hentry : LeavesNothingOpen before middle)
    (hcloses : Closes (files.map StagedUploadFile.handle) middle after) :
    LeavesNothingOpen base after := by
  have hlength := hheld.count
  constructor
  · intro handle hlt
    have hout : handle ∉ files.map StagedUploadFile.handle := by
      intro hmem
      have hbounds := hheld.le_of_mem hmem
      omega
    rw [hcloses.others handle hout, hentry.kept handle (by omega)]
    exact hheld.kept handle hlt
  · intro handle hle file hfile
    by_cases hmem : handle ∈ files.map StagedUploadFile.handle
    · exact hcloses.closed handle hmem file hfile
    · rw [hcloses.others handle hmem] at hfile
      apply hentry.closed handle
      · by_contra hlt
        exact hmem (hheld.mem_handles hle (by omega))
      · exact hfile

theorem stageEntries_raises {staged : StagedUpload} {entries : List ManifestEntry}
    {raised : Raised} (hheld : HeldOpen sha256 streams base staged.files before)
    (hindices : entries.map ManifestEntry.index =
      List.range' staged.files.length entries.length)
    (hraises : (stageEntries tables parser disk sha256 streams artifactKinds limits staged
      entries).Raises before raised after) :
    LeavesNothingOpen base after := by
  induction entries generalizing staged before with
  | nil => simp [stageEntries] at hraises
  | cons entry rest ih =>
      rw [List.map_cons, List.length_cons, List.range'_succ, List.cons.injEq] at hindices
      rw [stageEntries, raises_bind] at hraises
      rcases hraises with hentry | ⟨part, middle, hentry, hrest⟩
      · rw [raises_handle] at hentry
        obtain ⟨found, failed, hfailed, hhandler⟩ := hentry
        have hleaves := stageEntry_raises hfailed
        rw [raises_bind] at hhandler
        rcases hhandler with hclose | ⟨_, closed, hclose, hraise⟩
        · exact absurd hclose closeStagedSafely_raises
        · rw [raises_raising] at hraise
          rw [← hraise.2]
          exact hheld.close hleaves (closeStagedSafely_returns hclose)
      · rw [returns_handle_of_raising] at hentry
        · have hnext := hheld.concat hindices.1 hentry
          apply ih hnext _ hrest
          rw [List.length_append, List.length_singleton]
          exact hindices.2
        · intro failure first last hreturns
          simp at hreturns

theorem stageEntries_returns {staged package : StagedUpload} {entries : List ManifestEntry}
    (hheld : HeldOpen sha256 streams base staged.files before)
    (hindices : entries.map ManifestEntry.index =
      List.range' staged.files.length entries.length)
    (hopen : staged.closed = false)
    (hreturns : (stageEntries tables parser disk sha256 streams artifactKinds limits staged
      entries).Returns before package after) :
    HeldOpen sha256 streams base package.files after ∧ package.closed = false := by
  induction entries generalizing staged before with
  | nil =>
      rw [stageEntries, returns_pure] at hreturns
      obtain ⟨rfl, rfl⟩ := hreturns
      exact ⟨hheld, hopen⟩
  | cons entry rest ih =>
      rw [List.map_cons, List.length_cons, List.range'_succ, List.cons.injEq] at hindices
      rw [stageEntries, returns_bind] at hreturns
      obtain ⟨part, middle, hentry, hrest⟩ := hreturns
      rw [returns_handle_of_raising] at hentry
      · apply ih (hheld.concat hindices.1 hentry) _ rfl hrest
        rw [List.length_append, List.length_singleton]
        exact hindices.2
      · intro failure first last hhandled
        simp at hhandled

theorem raises_liftIssue {α : Type} {outcome : Except UploadIssue α} {raised : Raised}
    (hraises : (liftIssue outcome).Raises before raised after) : before = after := by
  rw [liftIssue, raises_lift] at hraises
  exact hraises.2

theorem manifest_indices {parts : List RawPart} {entries : List ManifestEntry}
    (hmanifest : buildManifest tables limits parts = .ok entries) :
    entries.map ManifestEntry.index = List.range' 0 entries.length := by
  rw [(manifest_of_buildManifest hmanifest).indices, List.range_eq_range']

theorem stageUpload_raises {parts : List RawPart} {raised : Raised}
    (hraises : (stageUpload tables parser disk sha256 streams limits parts).Raises before raised
      after) :
    LeavesNothingOpen before after := by
  rw [stageUpload, raises_bind] at hraises
  rcases hraises with hmanifest | ⟨entries, middle, hmanifest, hentries⟩
  · rw [← raises_liftIssue hmanifest]
    constructor
    · exact fun _ _ => rfl
    · intro handle hle file hfile
      rw [Option.mem_def, List.getElem?_eq_none hle] at hfile
      cases hfile
  · obtain ⟨haccepted, rfl⟩ := returns_liftIssue.mp hmanifest
    exact stageEntries_raises (.start before) (manifest_indices haccepted) hentries

theorem stageUpload_returns {parts : List RawPart} {package : StagedUpload}
    (hreturns : (stageUpload tables parser disk sha256 streams limits parts).Returns before package
      after) :
    HeldOpen sha256 streams before package.files after ∧ package.closed = false := by
  rw [stageUpload, returns_bind] at hreturns
  obtain ⟨entries, middle, hmanifest, hentries⟩ := hreturns
  obtain ⟨haccepted, rfl⟩ := returns_liftIssue.mp hmanifest
  exact stageEntries_returns (.start before) (manifest_indices haccepted) rfl hentries

end Package

/-! ## Replay -/

/-- A read or a seek of some file, whatever becomes of it. -/
def ReadsOnce (before after : World) : Prop :=
  ∃ disk handle, after = (rewind disk handle before).2 ∨
    ∃ count, after = (read disk handle count before).2

/-- Any replays, complete or abandoned, in any order. -/
abbrev Reads : World → World → Prop :=
  Relation.ReflTransGen ReadsOnce

/-- The file is open, wherever its next read begins. -/
def Holds (handle : ℕ) (bytes : Bytes) (world : World) : Prop :=
  ∃ position, world.files[handle]? = some ⟨bytes, position, true⟩

section Replay

variable {disk : Disk} {handle : ℕ} {before after : World} {bytes : Bytes}

theorem Holds.of_files (hholds : Holds handle bytes before) (hfiles : after.files = before.files) :
    Holds handle bytes after := by
  obtain ⟨position, hstored⟩ := hholds
  refine ⟨position, ?_⟩
  rw [hfiles]
  exact hstored

theorem Holds.move {other : ℕ} {file : TemporaryFile} {position operations : ℕ}
    (hholds : Holds handle bytes before) (hfile : before.files[other]? = some file) :
    Holds handle bytes
      ⟨before.files.set other { file with position := position }, operations⟩ := by
  obtain ⟨found, hstored⟩ := hholds
  by_cases hsame : other = handle
  · rw [hsame] at hfile ⊢
    have hlt := (List.getElem?_eq_some_iff.mp hstored).1
    cases Option.some.inj (hstored.symm.trans hfile)
    exact ⟨position, List.getElem?_set_self hlt⟩
  · refine ⟨found, ?_⟩
    rw [← hstored]
    exact List.getElem?_set_ne hsame

theorem rewind_holds {other : ℕ} :
    Respects (fun before after => Holds handle bytes before → Holds handle bytes after)
      (rewind disk other) := by
  apply respects_fileOperation
  · exact fun _ _ _ hfirst hsecond hholds => hsecond (hfirst hholds)
  · exact fun _ _ hfiles hholds => hholds.of_files hfiles
  · exact fun _ _ _ hfile hholds => hholds.move hfile

theorem read_holds {other count : ℕ} :
    Respects (fun before after => Holds handle bytes before → Holds handle bytes after)
      (read disk other count) := by
  apply respects_fileOperation
  · exact fun _ _ _ hfirst hsecond hholds => hsecond (hfirst hholds)
  · exact fun _ _ hfiles hholds => hholds.of_files hfiles
  · exact fun _ _ _ hfile hholds => hholds.move hfile

theorem Reads.holds (hreads : Reads before after) (hholds : Holds handle bytes before) :
    Holds handle bytes after := by
  induction hreads with
  | refl => exact hholds
  | tail _ honce ih =>
      obtain ⟨disk, other, rfl | ⟨count, rfl⟩⟩ := honce
      · exact rewind_holds _ ih
      · exact read_holds _ ih

theorem rewind_reads : Respects Reads (rewind disk handle) :=
  fun _ => .single ⟨disk, handle, .inl rfl⟩

theorem read_reads {count : ℕ} : Respects Reads (read disk handle count) :=
  fun _ => .single ⟨disk, handle, .inr ⟨count, rfl⟩⟩

theorem Reads.transitive : ∀ a b c : World, Reads a b → Reads b c → Reads a c :=
  fun _ _ _ => Relation.ReflTransGen.trans

theorem readChunks_reads {chunkSize fuel : ℕ} :
    Respects Reads (readChunks disk handle chunkSize fuel) := by
  induction fuel with
  | zero => exact respects_pure (fun _ => .refl) _
  | succ fuel ih =>
      apply read_reads.bind Reads.transitive
      intro chunk
      split
      · exact respects_pure (fun _ => .refl) _
      · apply ih.bind Reads.transitive
        intro rest
        exact respects_pure (fun _ => .refl) _

/-- A replay only reads, also where it fails or is given a chunk size that it refuses. -/
theorem iterChunks_reads {file : StagedUploadFile} {chunkSize : ℕ} :
    Respects Reads (file.iterChunks disk chunkSize) := by
  have hrefl : ∀ world : World, Reads world world := fun _ => .refl
  unfold StagedUploadFile.iterChunks
  split
  · exact respects_raising hrefl _
  · apply Respects.handle Reads.transitive
    · apply rewind_reads.bind Reads.transitive
      intro _
      apply Respects.bind Reads.transitive
      · intro world
        rw [openFile_world]
      · intro stored
        exact readChunks_reads
    · intro raised
      cases raised with
      | rejected issue => exact respects_raising hrefl _
      | interrupt => exact respects_raising hrefl _
      | value => exact respects_raising hrefl _
      | error => exact respects_raising hrefl _

theorem read_returns {count position : ℕ} {chunk : Bytes}
    (hstored : before.files[handle]? = some ⟨bytes, position, true⟩)
    (hreturns : (read disk handle count).Returns before chunk after) :
    chunk = (bytes.drop position).take count ∧
      after.files[handle]? = some ⟨bytes, position + chunk.length, true⟩ := by
  simp only [read, returns_bind, openFile_returns, operate_returns, setFile,
    returns_modifyState, returns_pure, and_assoc, exists_eq_left'] at hreturns
  obtain ⟨file, _, hfile, _, rfl, operation, _, _, _, rfl, _, rfl, rfl⟩ := hreturns
  have hlt := (List.getElem?_eq_some_iff.mp hstored).1
  cases Option.some.inj (hstored.symm.trans hfile)
  exact ⟨rfl, List.getElem?_set_self hlt⟩

/-- The pieces that are read make up the bytes from the position on. -/
theorem readChunks_returns {chunkSize fuel position : ℕ} {pieces : List Bytes}
    (hpositive : 0 < chunkSize) (hfuel : bytes.length < position + fuel)
    (hstored : before.files[handle]? = some ⟨bytes, position, true⟩)
    (hreturns : (readChunks disk handle chunkSize fuel).Returns before pieces after) :
    pieces.flatten = bytes.drop position := by
  induction fuel generalizing position pieces before with
  | zero =>
      rw [readChunks, returns_pure] at hreturns
      rw [← hreturns.1, List.drop_eq_nil_of_le (by omega)]
      rfl
  | succ fuel ih =>
      rw [readChunks, returns_bind] at hreturns
      obtain ⟨chunk, middle, hread, hrest⟩ := hreturns
      obtain ⟨hchunk, hmiddle⟩ := read_returns hstored hread
      split at hrest
      · rename_i hempty
        rw [returns_pure] at hrest
        rw [← hrest.1, List.flatten_nil]
        rw [hempty, eq_comm, List.take_eq_nil_iff] at hchunk
        cases hchunk with
        | inl hzero => omega
        | inr hdropped => exact hdropped.symm
      · rename_i hnonempty
        have hlength : 0 < chunk.length := List.length_pos_iff.mpr hnonempty
        rw [returns_bind] at hrest
        obtain ⟨rest, last, hread, hpure⟩ := hrest
        obtain ⟨rfl, rfl⟩ := returns_pure.mp hpure
        have hrest := ih (by omega) hmiddle hread
        rw [List.flatten_cons, hrest, ← List.drop_drop]
        nth_rewrite 1 [hchunk]
        have hdropped : (bytes.drop position).drop chunk.length =
            (bytes.drop position).drop chunkSize := by
          rw [hchunk, List.length_take, List.drop_eq_drop_iff]
          omega
        rw [hdropped, List.take_append_drop]

theorem iterChunks_returns {file : StagedUploadFile} {chunkSize : ℕ} {pieces : List Bytes}
    (hholds : Holds file.handle bytes before)
    (hreturns : (file.iterChunks disk chunkSize).Returns before pieces after) :
    pieces.flatten = bytes := by
  unfold StagedUploadFile.iterChunks at hreturns
  split at hreturns
  · simp at hreturns
  · rename_i hsize
    rw [returns_handle_of_raising] at hreturns
    · rw [returns_bind] at hreturns
      obtain ⟨_, middle, hrewind, hrest⟩ := hreturns
      obtain ⟨position, hstored⟩ := hholds
      have hcontent : before.files[file.handle]?.map TemporaryFile.content = some bytes := by
        rw [hstored]
        rfl
      have hrewound := rewind_returns hcontent hrewind
      rw [returns_bind] at hrest
      obtain ⟨stored, opened, hopen, hread⟩ := hrest
      obtain ⟨hfound, _, rfl⟩ := openFile_returns.mp hopen
      cases Option.some.inj (hrewound.symm.trans hfound)
      exact readChunks_returns (by omega) (by simp) hrewound hread
    · intro failure first last hhandled
      cases failure with
      | interrupt => simp at hhandled
      | rejected issue => simp at hhandled
      | value => simp at hhandled
      | error => simp at hhandled

theorem read_runs {count position : ℕ} (hquiet : ∀ operation, disk.raises operation = none)
    (hstored : before.files[handle]? = some ⟨bytes, position, true⟩) :
    ∃ chunk after, (read disk handle count).Returns before chunk after := by
  simp [read, setFile, hstored, hquiet]

theorem rewind_runs {position : ℕ} (hquiet : ∀ operation, disk.raises operation = none)
    (hstored : before.files[handle]? = some ⟨bytes, position, true⟩) :
    ∃ done after, (rewind disk handle).Returns before done after := by
  simp [rewind, setFile, hstored, hquiet]

theorem readChunks_runs {chunkSize fuel : ℕ} (hquiet : ∀ operation, disk.raises operation = none)
    (hholds : Holds handle bytes before) :
    ∃ pieces after, (readChunks disk handle chunkSize fuel).Returns before pieces after := by
  induction fuel generalizing before with
  | zero => exact ⟨[], before, returns_pure.mpr ⟨rfl, rfl⟩⟩
  | succ fuel ih =>
      obtain ⟨position, hstored⟩ := hholds
      obtain ⟨chunk, middle, hread⟩ := read_runs hquiet hstored
      have hmiddle : Holds handle bytes middle := read_holds.of_returns hread ⟨position, hstored⟩
      rw [readChunks]
      by_cases hempty : chunk = []
      · refine ⟨[], middle, returns_bind.mpr ⟨chunk, middle, hread, ?_⟩⟩
        rw [if_pos hempty]
        exact returns_pure.mpr ⟨rfl, rfl⟩
      · obtain ⟨rest, after, hrest⟩ := ih hmiddle
        refine ⟨chunk :: rest, after, returns_bind.mpr ⟨chunk, middle, hread, ?_⟩⟩
        rw [if_neg hempty]
        exact returns_bind.mpr ⟨rest, after, hrest, returns_pure.mpr ⟨rfl, rfl⟩⟩

/-- A replay of an open file can only fail where a read or a seek does. -/
theorem iterChunks_runs {file : StagedUploadFile} {chunkSize : ℕ} (hpositive : 0 < chunkSize)
    (hquiet : ∀ operation, disk.raises operation = none)
    (hholds : Holds file.handle bytes before) :
    ∃ pieces after, (file.iterChunks disk chunkSize).Returns before pieces after := by
  obtain ⟨position, hstored⟩ := hholds
  obtain ⟨_, middle, hrewind⟩ := rewind_runs hquiet hstored
  have hmiddle := rewind_holds.of_returns hrewind ⟨position, hstored⟩
  obtain ⟨pieces, after, hpieces⟩ :=
    @readChunks_runs disk file.handle middle bytes chunkSize (bytes.length + 1) hquiet hmiddle
  obtain ⟨found, hfound⟩ := hmiddle
  have hopened := openFile_returns.mpr ⟨hfound, rfl, rfl⟩
  refine ⟨pieces, after, ?_⟩
  rw [StagedUploadFile.iterChunks, if_neg (by omega), returns_handle_of_raising]
  · exact returns_bind.mpr ⟨_, middle, hrewind, returns_bind.mpr ⟨_, middle, hopened, hpieces⟩⟩
  · intro failure first last hhandled
    cases failure with
    | interrupt => simp at hhandled
    | rejected issue => simp at hhandled
    | value => simp at hhandled
    | error => simp at hhandled

end Replay

/-! ## Close -/

section Close

variable {disk : Disk} {before after : World} {files : List StagedUploadFile}

theorem close_caught {handle : ℕ} {caught : Option Raised}
    (hreturns : (RaisingProgram.handle (do close disk handle; pure none)
      fun raised => pure (some raised)).Returns before caught after) :
    Closes [handle] before after := by
  have hcloses := @close_closes disk handle before
  rw [returns_handle] at hreturns
  rcases hreturns with hclosed | ⟨found, middle, hraised, hcaught⟩
  · rw [returns_bind] at hclosed
    obtain ⟨_, middle, hclose, hpure⟩ := hclosed
    rw [hclose] at hcloses
    rw [← (returns_pure.mp hpure).2]
    exact hcloses
  · rw [raises_bind] at hraised
    rcases hraised with hclose | ⟨_, _, _, hpure⟩
    · rw [hclose] at hcloses
      rw [← (returns_pure.mp hcaught).2]
      exact hcloses
    · exact (raises_pure.mp hpure).elim

/-- The loop reaches every file: the exception of a close is kept for the end. -/
theorem closeFiles_returns {first last : Option Raised}
    (hreturns : (closeFiles disk first files).Returns before last after) :
    Closes (files.map StagedUploadFile.handle) before after := by
  induction files generalizing first before with
  | nil =>
      rw [closeFiles, returns_pure] at hreturns
      rw [← hreturns.2]
      exact .nil before
  | cons file rest ih =>
      rw [closeFiles, returns_bind] at hreturns
      obtain ⟨caught, middle, hclose, hrest⟩ := hreturns
      exact (close_caught hclose).append (ih hrest)

theorem closeFiles_raises {first : Option Raised} {raised : Raised} :
    ¬ (closeFiles disk first files).Raises before raised after := by
  induction files generalizing first before with
  | nil => simp [closeFiles]
  | cons file rest ih =>
      rw [closeFiles, raises_bind]
      rintro (hclose | ⟨_, _, _, hrest⟩)
      · simp at hclose
      · exact ih hrest

theorem close_package {package : StagedUpload} (hopen : package.closed = false) :
    Closes (package.files.map StagedUploadFile.handle) before (package.close disk before).2 := by
  have hloop : ∀ failure after,
      ¬ (closeFiles disk none package.files).Raises before failure after :=
    fun _ _ => closeFiles_raises
  have hnot : ¬ package.closed = true := by simp [hopen]
  rw [StagedUpload.close, if_neg hnot]
  simp only [Bind.bind]
  cases hrun : closeFiles disk none package.files before with
  | mk outcome middle =>
      cases outcome with
      | error raised => exact absurd hrun (hloop raised middle)
      | ok caught =>
          have hcloses := closeFiles_returns hrun
          cases caught with
          | none => exact hcloses
          | some raised => exact hcloses

end Close

/-! ## The whole life of the files -/

/-- From a later state on every file of the package can be replayed, and a close of the package
closes them all, whatever its closes raise. -/
structure StagedUpload.Available (sha256 : Bytes → Text) (streams : ℕ → ByteStream)
    (package : StagedUpload) (world : World) : Prop where
  replays : ∀ index (file : StagedUploadFile), package.files[index]? = some file →
    ∃ bytes, file.Records sha256 (streams index) bytes ∧ Holds file.handle bytes world ∧
      ∀ (disk : Disk) chunkSize, 0 < chunkSize →
        (∀ pieces after, (file.iterChunks disk chunkSize).Returns world pieces after →
          pieces.flatten = bytes) ∧
        ((∀ operation, disk.raises operation = none) →
          ∃ pieces after, (file.iterChunks disk chunkSize).Returns world pieces after)
  closes : ∀ disk : Disk,
    Closes (package.files.map StagedUploadFile.handle) world (package.close disk world).2

/-- A staging that fails leaves no file of its own open; one that succeeds holds every file that
it opened, and its package stays available until it is closed. -/
def LeaksNothing (sha256 : Bytes → Text) (streams : ℕ → ByteStream) (before : World) :
    Except Raised StagedUpload × World → Prop
  | (.error _, after) => LeavesNothingOpen before after
  | (.ok package, after) => HeldOpen sha256 streams before package.files after ∧
      ∀ later, Reads after later → package.Available sha256 streams later

section Life

variable {π : Type} (tables : UploadTables) (parser : HtmlParser π) (disk : Disk)
  {sha256 : Bytes → Text} {streams : ℕ → ByteStream} {before after later : World}

theorem HeldOpen.available {package : StagedUpload}
    (hheld : HeldOpen sha256 streams before package.files after) (hopen : package.closed = false)
    (hreads : Reads after later) : package.Available sha256 streams later where
  replays index file hfile := by
    obtain ⟨_, bytes, hstored, hrecords⟩ := hheld.held index file hfile
    have hholds := hreads.holds ⟨0, hstored⟩
    refine ⟨bytes, hrecords, hholds, ?_⟩
    intro disk chunkSize hpositive
    constructor
    · intro pieces last hreturns
      exact iterChunks_returns hholds hreturns
    · intro hquiet
      exact iterChunks_runs hpositive hquiet hholds
  closes _ := close_package hopen

/-- Whatever the streams yield or raise and whichever operation on a file fails, a staging
leaks no temporary file. -/
theorem staging_leaks_no_file (sha256 : Bytes → Text) (streams : ℕ → ByteStream)
    (limits : UploadLimits) (parts : List RawPart) (before : World) :
    LeaksNothing sha256 streams before
      (stageUpload tables parser disk sha256 streams limits parts before) := by
  cases hrun : stageUpload tables parser disk sha256 streams limits parts before with
  | mk outcome after =>
      cases outcome with
      | error raised => exact stageUpload_raises hrun
      | ok package =>
          obtain ⟨hheld, hopen⟩ := stageUpload_returns hrun
          exact ⟨hheld, fun later hreads => hheld.available hopen hreads⟩

end Life

end Agora.TemporaryStaging
