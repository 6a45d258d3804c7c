import Agora.StagedReferences

/-!
# What an accepted upload is

The postcondition of `stage_upload`: one HTML file, different names, sizes within the limits,
files that replay the bytes of their parts, and references to supporting files only.  How the
chunks of CSV and binary parts are cut does not matter.
-/

namespace Agora

section Packages

variable {π : Type} {tables : UploadTables} {parser : HtmlParser π} {device : StagingDevice}
  {sha256 : Bytes → Text} {limits : UploadLimits} {artifactKinds : ArtifactKinds}
  {entry : ManifestEntry} {total : ℕ}

/-! ## One part -/

/-- A staged part holds the bytes of its chunks under the name and types of its entry. -/
structure StagedPart.Holds (sha256 : Bytes → Text) (limits : UploadLimits) (total : ℕ)
    (entry : ManifestEntry) (part : StagedPart) : Prop where
  kind : part.file.kind = entry.kind
  name : part.file.logicalName = entry.name
  mediaType : part.file.mediaType = entry.mediaType
  stream : ∃ pieces : List Bytes, entry.part.chunks = some (pieces.map Chunk.bytes) ∧
    part.file.stream = pieces.flatten
  byteSize : part.file.byteSize = part.file.stream.length
  digest : part.file.sha256 = sha256 part.file.stream
  nonempty : 0 < part.file.byteSize
  fileBound : part.file.byteSize ≤ limits.maxFileBytes
  totalSize : part.totalSize = total + part.file.byteSize
  totalBound : total ≤ limits.maxTotalBytes → part.totalSize ≤ limits.maxTotalBytes

theorem stageEntry_ok_iff {part : StagedPart} :
    stageEntry tables parser device sha256 artifactKinds limits total entry = .ok part ↔
      device.opens entry.index = true ∧ ∃ chunks, entry.part.chunks = some chunks ∧
        ∃ staging,
          PartStaging.stageChunks tables parser device ⟨artifactKinds, limits, entry.index⟩ 0
            (.start parser entry.kind total) chunks = .ok staging ∧
          staging.finish tables parser device sha256 ⟨artifactKinds, limits, entry.index⟩ entry =
            .ok part := by
  simp only [stageEntry, bind_eq_ok_iff, refuse_eq_ok, Bool.not_eq_false]
  cases entry.part.chunks with
  | none => simp
  | some chunks => simp [bind_eq_ok_iff]

theorem finish_holds {context : PackageContext} {staging : PartStaging π} {part : StagedPart}
    {pieces : List Bytes} (hchunks : entry.part.chunks = some (pieces.map Chunk.bytes))
    (hmeasures : staging.Measures context.limits total pieces.flatten)
    (haccept : staging.finish tables parser device sha256 context entry = .ok part) :
    part.Holds sha256 context.limits total entry := by
  simp only [PartStaging.finish, bind_eq_ok_iff, refuse_eq_ok, Except.ok.injEq] at haccept
  obtain ⟨_, _, _, hsize, _, _, rfl⟩ := haccept
  have hbytes := hmeasures.byteSize
  constructor
  · rfl
  · rfl
  · rfl
  · exact ⟨pieces, hchunks, hmeasures.temporary⟩
  · simp only [hmeasures.byteSize, hmeasures.temporary]
  · simp only [hmeasures.digested, hmeasures.temporary]
  · exact Nat.pos_of_ne_zero hsize
  · simpa only [hmeasures.byteSize] using hmeasures.fileBound
  · simp only [hmeasures.byteSize, hmeasures.totalSize]
  · simpa only [hmeasures.totalSize] using hmeasures.totalBound

theorem finish_supports {context : PackageContext} {staging : PartStaging π} {part : StagedPart}
    (hstaging : staging.content.Supported context)
    (haccept : staging.finish tables parser device sha256 context entry = .ok part) :
    context.SupportsAll part.references := by
  simp only [PartStaging.finish, bind_eq_ok_iff, refuse_eq_ok, Except.ok.injEq] at haccept
  obtain ⟨content, hcontent, _, _, references, hreferences, rfl⟩ := haccept
  exact (hstaging.endText hcontent).finish hreferences

theorem stageEntry_ok {part : StagedPart}
    (haccept : stageEntry tables parser device sha256 artifactKinds limits total entry =
      .ok part) :
    part.Holds sha256 limits total entry ∧
      ∀ reference ∈ part.references, Supports artifactKinds reference := by
  obtain ⟨_, chunks, hchunks, staging, hstaging, hfinish⟩ := stageEntry_ok_iff.mp haccept
  obtain ⟨pieces, rfl, hmeasures⟩ :=
    (PartStaging.Measures.start limits entry.kind total).stageChunks hstaging
  rw [List.nil_append] at hmeasures
  refine ⟨finish_holds hchunks hmeasures hfinish, ?_⟩
  exact finish_supports (stageChunks_supported (.start entry.kind) hstaging) hfinish

/-! ## All parts -/

/-- The files of the entries staged so far, with the running total and the references. -/
structure StagedUpload.Holds (sha256 : Bytes → Text) (limits : UploadLimits)
    (artifactKinds : ArtifactKinds) (entries : List ManifestEntry) (staged : StagedUpload) :
    Prop where
  files : List.Forall₂ (fun entry file => ∃ total, ∃ part : StagedPart, part.file = file ∧
    part.Holds sha256 limits total entry) entries staged.files
  totalSize : staged.totalSize = (staged.files.map StagedUploadFile.byteSize).sum
  totalBound : staged.totalSize ≤ limits.maxTotalBytes
  references : ∀ reference ∈ staged.referencedArtifactNames, Supports artifactKinds reference

theorem StagedUpload.Holds.start :
    StagedUpload.Holds sha256 limits artifactKinds [] ⟨[], 0, []⟩ :=
  ⟨.nil, rfl, Nat.zero_le _, fun _ hmem => absurd hmem List.not_mem_nil⟩

theorem StagedUpload.Holds.append {entries : List ManifestEntry} {staged : StagedUpload}
    {part : StagedPart} (hstaged : staged.Holds sha256 limits artifactKinds entries)
    (hpart : part.Holds sha256 limits staged.totalSize entry)
    (hreferences : ∀ reference ∈ part.references, Supports artifactKinds reference) :
    StagedUpload.Holds sha256 limits artifactKinds (entries ++ [entry])
      { files := staged.files ++ [part.file]
        totalSize := part.totalSize
        referencedArtifactNames := staged.referencedArtifactNames ++ part.references } := by
  constructor
  · exact List.rel_append hstaged.files (.cons ⟨_, part, rfl, hpart⟩ .nil)
  · simp only [hpart.totalSize, hstaged.totalSize, List.map_append, List.map_cons, List.map_nil,
      List.sum_append, List.sum_cons, List.sum_nil, add_zero]
  · exact hpart.totalBound hstaged.totalBound
  · exact List.forall_mem_append.mpr ⟨hstaged.references, hreferences⟩

theorem StagedUpload.Holds.stageEntries {before entries : List ManifestEntry}
    {staged last : StagedUpload} (hstaged : staged.Holds sha256 limits artifactKinds before)
    (haccept : stageEntries tables parser device sha256 artifactKinds limits staged entries =
      .ok last) : last.Holds sha256 limits artifactKinds (before ++ entries) := by
  induction entries generalizing before staged with
  | nil =>
      obtain rfl := Except.ok.inj haccept
      rwa [List.append_nil]
  | cons entry rest ih =>
      simp only [Agora.stageEntries, bind_eq_ok_iff] at haccept
      obtain ⟨part, hpart, hrest⟩ := haccept
      obtain ⟨hholds, hreferences⟩ := stageEntry_ok hpart
      rw [List.append_cons]
      exact ih (hstaged.append hholds hreferences) hrest

/-- What `stage_upload` promises of a package that it accepts. -/
structure StagedPackage (sha256 : Bytes → Text) (limits : UploadLimits) (parts : List RawPart)
    (staged : StagedUpload) : Prop where
  oneHtml : staged.files.countP (fun file => file.kind = .html) = 1
  fileCount : staged.files.length ≤ limits.maxFiles
  distinct : (staged.files.map fun file => file.logicalName.comparisonKey).Nodup
  sized : ∀ file ∈ staged.files, 0 < file.byteSize ∧ file.byteSize ≤ limits.maxFileBytes
  totalSize : staged.totalSize = (staged.files.map StagedUploadFile.byteSize).sum
  totalBound : staged.totalSize ≤ limits.maxTotalBytes
  replayed : List.Forall₂ (fun raw file => ∃ part, ∃ pieces : List Bytes,
    raw = RawPart.part part ∧ part.chunks = some (pieces.map Chunk.bytes) ∧
      file.byteSize = pieces.flatten.length ∧ file.sha256 = sha256 pieces.flatten ∧
        ∀ chunkSize, 0 < chunkSize → (file.iterChunks chunkSize).flatten = pieces.flatten)
    parts staged.files
  referenced : ∀ reference ∈ staged.referencedArtifactNames,
    ∃ file ∈ staged.files, file.logicalName.comparisonKey = reference ∧ file.kind ≠ .html

theorem exists_of_forall₂ {α β : Type} {related : α → β → Prop} {as : List α} {bs : List β}
    (hrelated : List.Forall₂ related as bs) {b : β} (hmem : b ∈ bs) : ∃ a, related a b := by
  induction hrelated with
  | nil => cases hmem
  | cons hhead _ ih =>
      cases List.mem_cons.mp hmem with
      | inl hfirst => exact ⟨_, hfirst ▸ hhead⟩
      | inr hlater => exact ih hlater

theorem stagedPackage_of_holds {parts : List RawPart} {entries : List ManifestEntry}
    {staged : StagedUpload} (hmanifest : Manifest tables limits parts entries)
    (hholds : staged.Holds sha256 limits (artifactKindsOf entries) entries) :
    StagedPackage sha256 limits parts staged := by
  have hkinds : entries.map (fun entry => (entry.key, entry.kind)) =
      staged.files.map fun file => (file.logicalName.comparisonKey, file.kind) := by
    rw [← List.forall₂_eq_eq_eq]
    refine List.rel_map ?_ hholds.files
    rintro entry _ ⟨total, part, rfl, hpart⟩
    simp only [hpart.name, hpart.kind, ManifestEntry.key]
  have hkeys := congrArg (List.map Prod.fst) hkinds
  have hsorts := congrArg (List.map Prod.snd) hkinds
  simp only [List.map_map, Function.comp_def] at hkeys hsorts
  constructor
  · have hone := hmanifest.oneHtml
    have hsame := congrArg (List.countP fun kind : UploadKind => kind = .html) hsorts
    rw [List.countP_map, List.countP_map] at hsame
    exact hsame.symm.trans hone
  · rw [← hholds.files.length_eq]
    exact hmanifest.bounded
  · rw [← hkeys]
    exact hmanifest.distinct
  · intro file hfile
    obtain ⟨entry, total, part, rfl, hpart⟩ := exists_of_forall₂ hholds.files hfile
    exact ⟨hpart.nonempty, hpart.fileBound⟩
  · exact hholds.totalSize
  · exact hholds.totalBound
  · rw [hmanifest.parts_eq, List.forall₂_map_left_iff]
    refine hholds.files.imp ?_
    rintro entry _ ⟨total, part, rfl, hpart⟩
    obtain ⟨pieces, hchunks, hstream⟩ := hpart.stream
    refine ⟨entry.part, pieces, rfl, hchunks, ?_, ?_, ?_⟩
    · rw [hpart.byteSize, hstream]
    · rw [hpart.digest, hstream]
    · intro chunkSize hsize
      rw [iterChunks_flatten hsize, hstream]
  · intro reference hmem
    obtain ⟨kind, hkind, hother⟩ := hholds.references reference hmem
    have hentry := mem_of_artifactKindOf hkind
    rw [artifactKindsOf, hkinds, List.mem_map] at hentry
    obtain ⟨file, hfile, hsame⟩ := hentry
    rw [Prod.mk.injEq] at hsame
    exact ⟨file, hfile, hsame.1, by rwa [hsame.2]⟩

/-! ## Chunks that are cut differently -/

/-- The same part with other chunks. -/
def UploadPart.recut (part : UploadPart) (pieces : List Bytes) : UploadPart :=
  { part with chunks := some (pieces.map Chunk.bytes) }

def ManifestEntry.recut (entry : ManifestEntry) (pieces : List Bytes) : ManifestEntry :=
  { entry with part := entry.part.recut pieces }

/-- Whether the bytes of a kind are not validated as a text with references. -/
def UploadKind.isPlain : UploadKind → Bool
  | .html => false
  | .css => false
  | .csv => true
  | .image => true
  | .font => true

/-- The same part, or a CSV or binary part whose bytes are cut into other chunks, as many as
the limit allows. -/
inductive Recut (tables : UploadTables) (limits : UploadLimits) : RawPart → RawPart → Prop
  | same (raw : RawPart) : Recut tables limits raw raw
  | cut (part : UploadPart) (pieces others : List Bytes)
      (hplain : ∀ index entry, manifestEntry tables index (.part part) = .ok entry →
        UploadKind.isPlain entry.kind = true)
      (hchunks : part.chunks = some (pieces.map Chunk.bytes))
      (hbytes : others.flatten = pieces.flatten)
      (hpieces : pieces.length ≤ limits.maxChunksPerFile)
      (hothers : others.length ≤ limits.maxChunksPerFile) :
      Recut tables limits (.part part) (.part (part.recut others))

inductive EntryRecut (limits : UploadLimits) : ManifestEntry → ManifestEntry → Prop
  | same (entry : ManifestEntry) : EntryRecut limits entry entry
  | cut (entry : ManifestEntry) (pieces others : List Bytes)
      (hplain : UploadKind.isPlain entry.kind = true)
      (hchunks : entry.part.chunks = some (pieces.map Chunk.bytes))
      (hbytes : others.flatten = pieces.flatten)
      (hpieces : pieces.length ≤ limits.maxChunksPerFile)
      (hothers : others.length ≤ limits.maxChunksPerFile) :
      EntryRecut limits entry (entry.recut others)

theorem manifestEntry_recut {index : ℕ} {part : UploadPart} {others : List Bytes} :
    manifestEntry tables index (.part (part.recut others)) =
      (manifestEntry tables index (.part part)).map fun entry => entry.recut others := by
  simp only [manifestEntry, UploadPart.recut, bind, Except.bind]
  cases normalizePartFilename tables index part.filename with
  | error issue => rfl
  | ok name =>
      simp only
      cases classifyFilename tables index name.display with
      | error issue => rfl
      | ok kind =>
          simp only
          cases mediaTypeForFilename tables index name.display with
          | error issue => rfl
          | ok mediaType =>
              simp only
              cases validateDeclaredMediaType tables index part.mediaType kind mediaType with
              | error issue => rfl
              | ok done => rfl

theorem Recut.symm {raw replaced : RawPart} (hrecut : Recut tables limits raw replaced) :
    Recut tables limits replaced raw := by
  cases hrecut with
  | same => exact .same raw
  | cut part pieces others hplain hchunks hbytes hpieces hothers =>
      have hback : part = (part.recut others).recut pieces := by
        simp only [UploadPart.recut, ← hchunks]
      have hplainBack : ∀ index entry,
          manifestEntry tables index (.part (part.recut others)) = .ok entry →
            UploadKind.isPlain entry.kind = true := by
        intro index entry hentry
        rw [manifestEntry_recut] at hentry
        cases hfirst : manifestEntry tables index (.part part) with
        | error issue =>
            rw [hfirst] at hentry
            cases hentry
        | ok found =>
            rw [hfirst] at hentry
            obtain rfl := Except.ok.inj hentry
            exact hplain index found hfirst
      have hcut := Recut.cut (part.recut others) others pieces hplainBack rfl hbytes.symm hothers
        hpieces
      rwa [← hback] at hcut

theorem Recut.manifestEntry {raw replaced : RawPart} {index : ℕ}
    (hrecut : Recut tables limits raw replaced)
    (haccept : manifestEntry tables index raw = .ok entry) :
    ∃ changed, Agora.manifestEntry tables index replaced = .ok changed ∧
      EntryRecut limits entry changed := by
  cases hrecut with
  | same => exact ⟨entry, haccept, .same entry⟩
  | cut part pieces others hplain hchunks hbytes hpieces hothers =>
      refine ⟨entry.recut others, ?_, .cut entry pieces others (hplain index entry haccept) ?_
        hbytes hpieces hothers⟩
      · rw [manifestEntry_recut, haccept]
        rfl
      · obtain ⟨hpart, _, _⟩ := manifestEntry_ok haccept
        rw [← RawPart.part.inj hpart]
        exact hchunks

theorem EntryRecut.key_eq {changed : ManifestEntry} (hrecut : EntryRecut limits entry changed) :
    changed.key = entry.key ∧ changed.kind = entry.kind := by
  cases hrecut with
  | same => exact ⟨rfl, rfl⟩
  | cut => exact ⟨rfl, rfl⟩

theorem Recut.raises_iff {raw replaced : RawPart} (hrecut : Recut tables limits raw replaced) :
    raw = .raises ↔ replaced = .raises := by
  cases hrecut with
  | same => rfl
  | cut => simp

theorem manifestEntries_cons {index : ℕ} {seen : List Text} {raw : RawPart}
    {rest : List RawPart} {entries : List ManifestEntry} (hraw : raw ≠ .raises) :
    manifestEntries tables limits index seen (raw :: rest) = .ok entries ↔
      index < limits.maxFiles ∧ ∃ entry, manifestEntry tables index raw = .ok entry ∧
        entry.key ∉ seen ∧ ∃ later,
          manifestEntries tables limits (index + 1) (entry.key :: seen) rest = .ok later ∧
            entries = entry :: later := by
  have hunfolded : manifestEntries tables limits index seen (raw :: rest) = (do
      refuse (limits.maxFiles ≤ index) ⟨.tooManyFiles, some index, none⟩
      let entry ← manifestEntry tables index raw
      refuse (entry.name.comparisonKey ∈ seen) ⟨.duplicateFilename, some index, none⟩
      let entries ← manifestEntries tables limits (index + 1)
        (entry.name.comparisonKey :: seen) rest
      .ok (entry :: entries)) := by
    cases raw with
    | raises => exact absurd rfl hraw
    | other => rfl
    | part value => rfl
  simp only [hunfolded, bind_eq_ok_iff, refuse_eq_ok, not_le, Except.ok.injEq]
  constructor
  · rintro ⟨_, hindex, entry, hentry, _, hfresh, later, hlater, rfl⟩
    exact ⟨hindex, entry, hentry, hfresh, later, hlater, rfl⟩
  · rintro ⟨hindex, entry, hentry, hfresh, later, hlater, rfl⟩
    exact ⟨⟨⟩, hindex, entry, hentry, ⟨⟩, hfresh, later, hlater, rfl⟩

theorem manifestEntries_recut {index : ℕ} {seen : List Text} {parts others : List RawPart}
    {entries : List ManifestEntry} (hrecut : List.Forall₂ (Recut tables limits) parts others)
    (haccept : manifestEntries tables limits index seen parts = .ok entries) :
    ∃ changed, manifestEntries tables limits index seen others = .ok changed ∧
      List.Forall₂ (EntryRecut limits) entries changed := by
  induction hrecut generalizing index seen entries with
  | nil =>
      obtain rfl := Except.ok.inj haccept
      exact ⟨[], rfl, .nil⟩
  | @cons raw replaced parts others hraw _ ih =>
      by_cases hraises : raw = .raises
      · subst hraises
        cases haccept
      · obtain ⟨hindex, entry, hentry, hfresh, later, hlater, rfl⟩ :=
          (manifestEntries_cons hraises).mp haccept
        obtain ⟨changed, hchanged, hentryRecut⟩ := hraw.manifestEntry hentry
        obtain ⟨rest, hrest, hrestRecut⟩ := ih hlater
        rw [← hentryRecut.key_eq.1] at hfresh hrest
        refine ⟨changed :: rest, ?_, .cons hentryRecut hrestRecut⟩
        rw [manifestEntries_cons (hraw.raises_iff.not.mp hraises)]
        exact ⟨hindex, changed, hchanged, hfresh, rest, hrest, rfl⟩

/-- Recut entries have the same keys and kinds. -/
theorem artifactKindsOf_recut {entries changed : List ManifestEntry}
    (hrecut : List.Forall₂ (EntryRecut limits) entries changed) :
    artifactKindsOf changed = artifactKindsOf entries := by
  rw [artifactKindsOf, artifactKindsOf, ← List.forall₂_eq_eq_eq]
  refine List.rel_map ?_ hrecut.flip
  intro entry replaced hentry
  simp only [EntryRecut.key_eq hentry]

theorem countP_recut {entries changed : List ManifestEntry}
    (hrecut : List.Forall₂ (EntryRecut limits) entries changed) :
    changed.countP (fun entry => entry.kind = .html) =
      entries.countP (fun entry => entry.kind = .html) := by
  have hkinds := congrArg (List.countP fun entry : Text × UploadKind => entry.2 = .html)
    (artifactKindsOf_recut hrecut)
  rwa [artifactKindsOf, artifactKindsOf, List.countP_map, List.countP_map] at hkinds

theorem buildManifest_recut {parts others : List RawPart} {entries : List ManifestEntry}
    (hrecut : List.Forall₂ (Recut tables limits) parts others)
    (haccept : buildManifest tables limits parts = .ok entries) :
    ∃ changed, buildManifest tables limits others = .ok changed ∧
      List.Forall₂ (EntryRecut limits) entries changed := by
  simp only [buildManifest, bind_eq_ok_iff, refuse_eq_ok] at haccept
  obtain ⟨found, hentries, _, hsome, _, hone, hfound⟩ := haccept
  obtain rfl := Except.ok.inj hfound
  obtain ⟨changed, hchanged, hentriesRecut⟩ := manifestEntries_recut hrecut hentries
  refine ⟨changed, ?_, hentriesRecut⟩
  rw [← countP_recut hentriesRecut] at hsome hone
  simp only [buildManifest, bind_eq_ok_iff, refuse_eq_ok]
  exact ⟨changed, hchanged, ⟨⟩, hsome, ⟨⟩, hone, rfl⟩

theorem isPlain_start {kind : UploadKind} (hplain : UploadKind.isPlain kind = true) :
    (ContentValidator.initial parser kind).IsPlain := by
  cases kind with
  | html | css => cases hplain
  | csv | image | font => trivial

/-- The staging of a part does not notice how its chunks are cut. -/
theorem stageEntry_recut {changed : ManifestEntry} {part : StagedPart}
    (hrecut : EntryRecut limits entry changed) (htotal : total ≤ limits.maxTotalBytes)
    (haccept : stageEntry tables parser device sha256 artifactKinds limits total entry =
      .ok part) :
    stageEntry tables parser device sha256 artifactKinds limits total changed = .ok part := by
  cases hrecut with
  | same => exact haccept
  | cut pieces others hplain hchunks hbytes hpieces hothers =>
      obtain ⟨hopens, chunks, hfound, staging, hstaging, hfinish⟩ := stageEntry_ok_iff.mp haccept
      obtain rfl := Option.some.inj (hchunks.symm.trans hfound)
      have hwithin : (PartStaging.start parser entry.kind total).Within device
          ⟨artifactKinds, limits, entry.index⟩ := ⟨Nat.zero_le _, htotal, Nat.zero_le _⟩
      rw [stageChunks_plain_iff (isPlain_start hplain) hwithin (by simpa using hpieces),
        ← hbytes] at hstaging
      have hothersCount : 0 + others.length ≤ limits.maxChunksPerFile := by
        rwa [Nat.zero_add]
      refine stageEntry_ok_iff.mpr ⟨hopens, _, rfl, staging, ?_, hfinish⟩
      exact (stageChunks_plain_iff (isPlain_start hplain) hwithin hothersCount).mpr hstaging

theorem stageEntries_recut {entries changed : List ManifestEntry} {staged last : StagedUpload}
    (hrecut : List.Forall₂ (EntryRecut limits) entries changed)
    (htotal : staged.totalSize ≤ limits.maxTotalBytes)
    (haccept : stageEntries tables parser device sha256 artifactKinds limits staged entries =
      .ok last) :
    stageEntries tables parser device sha256 artifactKinds limits staged changed = .ok last := by
  induction hrecut generalizing staged with
  | nil => exact haccept
  | cons hentry _ ih =>
      simp only [stageEntries, bind_eq_ok_iff] at haccept ⊢
      obtain ⟨part, hpart, hrest⟩ := haccept
      refine ⟨part, stageEntry_recut hentry htotal hpart, ih ?_ hrest⟩
      exact (stageEntry_ok hpart).1.totalBound htotal

theorem stageUpload_recut {parts others : List RawPart} {staged : StagedUpload}
    (hrecut : List.Forall₂ (Recut tables limits) parts others)
    (haccept : stageUpload tables parser device sha256 limits parts = .ok staged) :
    stageUpload tables parser device sha256 limits others = .ok staged := by
  simp only [stageUpload, bind_eq_ok_iff] at haccept ⊢
  obtain ⟨entries, hmanifest, hstaged⟩ := haccept
  obtain ⟨changed, hchanged, hentries⟩ := buildManifest_recut hrecut hmanifest
  refine ⟨changed, hchanged, ?_⟩
  rw [artifactKindsOf_recut hentries]
  exact stageEntries_recut hentries (Nat.zero_le _) hstaged

/-- An accepted upload has a manifest, and its staged files hold the entries of it. -/
theorem stageUpload_holds {parts : List RawPart} {staged : StagedUpload}
    (haccept : stageUpload tables parser device sha256 limits parts = .ok staged) :
    ∃ entries, buildManifest tables limits parts = .ok entries ∧
      staged.Holds sha256 limits (artifactKindsOf entries) entries := by
  simp only [stageUpload, bind_eq_ok_iff] at haccept
  obtain ⟨entries, hmanifest, hstaged⟩ := haccept
  have hstart : StagedUpload.Holds sha256 limits (artifactKindsOf entries) [] ⟨[], 0, []⟩ :=
    .start
  have hholds := hstart.stageEntries hstaged
  rw [List.nil_append] at hholds
  exact ⟨entries, hmanifest, hholds⟩

theorem stagedPackage_of_stageUpload {parts : List RawPart} {staged : StagedUpload}
    (haccept : stageUpload tables parser device sha256 limits parts = .ok staged) :
    StagedPackage sha256 limits parts staged := by
  obtain ⟨entries, hmanifest, hholds⟩ := stageUpload_holds haccept
  exact stagedPackage_of_holds (manifest_of_buildManifest hmanifest) hholds

variable (tables parser device sha256 limits)

/-- The postcondition of `stage_upload`. -/
theorem staged_upload_is_package :
    (∀ parts staged, stageUpload tables parser device sha256 limits parts = .ok staged →
      StagedPackage sha256 limits parts staged) ∧
    ∀ parts others, List.Forall₂ (Recut tables limits) parts others →
      ∀ staged, stageUpload tables parser device sha256 limits parts = .ok staged ↔
        stageUpload tables parser device sha256 limits others = .ok staged := by
  constructor
  · intro parts staged haccept
    exact stagedPackage_of_stageUpload haccept
  · intro parts others hrecut staged
    have hback : List.Forall₂ (Recut tables limits) others parts :=
      (hrecut.imp fun _ _ hraw => hraw.symm).flip
    exact ⟨stageUpload_recut hrecut, stageUpload_recut hback⟩

end Packages

/-! ## A package with one data file -/

def asciiBytes (text : String) : Bytes :=
  text.toList.map fun c => UInt8.ofNat c.toNat

def emptyDocument : String := "<html></html>"

/-- The parser on an empty document, which it takes as a whole. -/
def emptyDocumentParser : HtmlParser Text where
  initial := []
  feed raw data :=
    if raw ++ data = emptyDocument.toList then ([.startTag htmlTag [], .endTag htmlTag], some [])
    else ([], some (raw ++ data))
  close raw := ([], some raw)
  rawdata raw := raw

/-- Files that take a kibibyte, one byte with every write. -/
def smallDevice : StagingDevice where
  opens _ := true
  readable _ := true
  capacity _ := 1024
  progress _ _ := 0

/-- SHA-256 on the bytes of the two files. -/
def smallDigest (bytes : Bytes) : Text :=
  if bytes = asciiBytes emptyDocument then
    "b633a587c652d02386c4f16f8c6f6aab7352d97f16367c3c40576214372dd628".toList
  else if bytes = asciiBytes "a\n" then
    "87428fc522803d31065e7bce3cf03fe475096631e5e07bbd7a0fde60c4cf25c7".toList
  else "e3b0c44298fc1c149afbf4c8996fb92427ae41e4649b934ca495991b7852b855".toList

def smallPart (filename : String) (pieces : List String) : UploadPart where
  filename := .text filename.toList
  chunks := some (pieces.map fun piece => .bytes (asciiBytes piece))
  mediaType := .absent

def smallUpload (pieces : List String) : List RawPart :=
  [.part (smallPart "index.html" [emptyDocument]), .part (smallPart "Sales.csv" pieces)]

def smallStaged : StagedUpload where
  files := [
    { kind := .html
      logicalName := ⟨"index.html".toList, "index.html".toList⟩
      byteSize := 13
      sha256 := smallDigest (asciiBytes emptyDocument)
      stream := asciiBytes emptyDocument
      mediaType := "text/html" },
    { kind := .csv
      logicalName := ⟨"Sales.csv".toList, "sales.csv".toList⟩
      byteSize := 2
      sha256 := smallDigest (asciiBytes "a\n")
      stream := asciiBytes "a\n"
      mediaType := "text/csv" }]
  totalSize := 15
  referencedArtifactNames := []

theorem stageUpload_small :
    stageUpload asciiUploadTables emptyDocumentParser smallDevice smallDigest .default
      (smallUpload ["a", "", "\n"]) = .ok smallStaged := by
  decide +kernel

theorem small_upload_is_package :
    StagedPackage smallDigest .default (smallUpload ["a", "", "\n"]) smallStaged ∧
      stageUpload asciiUploadTables emptyDocumentParser smallDevice smallDigest .default
        (smallUpload ["a\n"]) = .ok smallStaged := by
  obtain ⟨hpackage, hsame⟩ := staged_upload_is_package asciiUploadTables emptyDocumentParser
    smallDevice smallDigest .default
  refine ⟨hpackage _ _ stageUpload_small, ?_⟩
  have hrecut : Recut asciiUploadTables .default (.part (smallPart "Sales.csv" ["a", "", "\n"]))
      (.part (smallPart "Sales.csv" ["a\n"])) := by
    refine .cut _ (["a", "", "\n"].map asciiBytes) [asciiBytes "a\n"] ?_ rfl rfl
      (by decide) (by decide)
    intro index entry hentry
    have hcsv : manifestEntry asciiUploadTables index
        (.part (smallPart "Sales.csv" ["a", "", "\n"])) =
          .ok ⟨index, smallPart "Sales.csv" ["a", "", "\n"], .csv,
            ⟨"Sales.csv".toList, "sales.csv".toList⟩, "text/csv"⟩ := by
      rfl
    rw [hcsv] at hentry
    obtain rfl := Except.ok.inj hentry
    rfl
  exact (hsame _ _ (.cons (.same _) (.cons hrecut .nil)) _).mp stageUpload_small

end Agora
