import Agora.ComparisonKeyPolicy
import Agora.StagedPackages

/-!
# The agreement of the two upload validators

Names, kinds, media types and sizes are checked when a package is staged, again before a
revision reserves storage and once more when each artifact row is saved.  The first check
implies the later ones, and none of them renames a file.
-/

namespace Agora

open Transaction (Runs bind_check_of_pos bind_found_of_some bind_get bind_of_runs forEach runs_pure
  runs_check runs_forEach_nil runs_forEach_cons)

/-! ## The payloads of a package -/

/-- One payload of `_payloads`. -/
def StagedUploadFile.payload (file : StagedUploadFile) : ArtifactPayload where
  kind := file.kind
  logicalName := file.logicalName.display
  chunks := (file.iterChunks (1024 * 1024)).map Chunk.bytes
  expectedSize := file.byteSize
  expectedSha256 := file.sha256
  mediaType := some file.mediaType.toList

/-- `_payloads`. -/
def StagedUpload.payloads (staged : StagedUpload) : List ArtifactPayload :=
  staged.files.map StagedUploadFile.payload

/-- What Unicode says of composition, of empty texts and of ASCII letters. -/
structure NameLaws (tables : UnicodeTables) : Prop where
  nfc_nfc : ∀ text, tables.nfc (tables.nfc text) = tables.nfc text
  nfkc_ne_nil : ∀ text, text ≠ [] → tables.nfkc text ≠ []
  casefold_ne_nil : ∀ text, text ≠ [] → tables.casefold text ≠ []
  casefold_ascii : ∀ text, text.all isAscii = true →
    tables.casefold text = text.map Char.toLower

/-- What the later checks need of a staged file. -/
structure StagedUploadFile.Checked (tables : UnicodeTables) (file : StagedUploadFile) : Prop where
  normalized : normalizeLogicalName tables file.logicalName.display = .ok file.logicalName
  display_ne_nil : file.logicalName.display ≠ []
  key_ne_nil : file.logicalName.comparisonKey ≠ []
  mediaType : file.mediaType ∈ artifactMediaTypes file.kind
  digest : isHexDigest file.sha256 = true

section Names

variable {tables : UnicodeTables} {value : Text} {name : LogicalName}

theorem display_ne_nil_of_ok (haccept : normalizeLogicalName tables value = .ok name) :
    name.display ≠ [] := by
  rw [(normalizeLogicalName_ok haccept).1]
  intro hempty
  simp [normalizeLogicalName, hempty] at haccept

/-- A canonical name is accepted again and stays as it is. -/
theorem normalizeLogicalName_again (hlaws : NameLaws tables)
    (haccept : normalizeLogicalName tables value = .ok name) :
    normalizeLogicalName tables name.display = .ok name := by
  rw [← haccept, (normalizeLogicalName_ok haccept).1]
  simp only [normalizeLogicalName, hlaws.nfc_nfc]

theorem comparisonForm_ne_nil (hlaws : NameLaws tables) (hvalue : value ≠ []) :
    tables.comparisonForm value ≠ [] := by
  apply hlaws.nfkc_ne_nil
  apply hlaws.casefold_ne_nil
  exact hlaws.nfkc_ne_nil value hvalue

end Names

/-! ## The files of an accepted staging -/

section Files

variable {π : Type} {tables : UploadTables} {parser : HtmlParser π} {device : StagingDevice}
  {sha256 : Bytes → Text} {limits : UploadLimits} {parts : List RawPart} {staged : StagedUpload}

theorem checked_of_holds (hlaws : NameLaws tables.unicode)
    (hdigest : ∀ bytes, isHexDigest (sha256 bytes) = true) {entry : ManifestEntry} {total : ℕ}
    {part : StagedPart} (haccepted : entry.Accepted tables)
    (hholds : part.Holds sha256 limits total entry) : part.file.Checked tables.unicode := by
  obtain ⟨filename, _, hname⟩ := haccepted.named
  have hdisplay := display_ne_nil_of_ok hname
  constructor
  · rw [hholds.name]
    exact normalizeLogicalName_again hlaws hname
  · rw [hholds.name]
    exact hdisplay
  · rw [hholds.name, (normalizeLogicalName_ok hname).2]
    exact comparisonForm_ne_nil hlaws hdisplay
  · rw [hholds.mediaType, hholds.kind]
    exact haccepted.mediaType_mem
  · rw [hholds.digest]
    exact hdigest _

theorem staged_files_checked (hlaws : NameLaws tables.unicode)
    (hdigest : ∀ bytes, isHexDigest (sha256 bytes) = true)
    (haccept : stageUpload tables parser device sha256 limits parts = .ok staged) :
    ∀ file ∈ staged.files, file.Checked tables.unicode := by
  obtain ⟨entries, hmanifest, hholds⟩ := stageUpload_holds haccept
  have haccepted := (manifest_of_buildManifest hmanifest).accepted
  intro file hfile
  obtain ⟨entry, hentry, total, part, rfl, hpart⟩ := exists_of_forall₂
    ((List.forall₂_and_left entries staged.files).mpr ⟨haccepted, hholds.files⟩) hfile
  exact checked_of_holds hlaws hdigest hentry hpart

end Files

/-! ## The checks of the service -/

section Service

variable {tables : UnicodeTables} {file : StagedUploadFile} {files : List StagedUploadFile}

/-- The media types of the artifacts are bare and in lower case. -/
theorem mediaType_is_plain {kind : ArtifactKind} {mediaType : String}
    (hmem : mediaType ∈ artifactMediaTypes kind) :
    strip mediaType.toList ≠ [] ∧ (mediaType.toList.splitOn ';').map strip = [mediaType.toList] ∧
      mediaType.toList.all isAscii = true ∧
        mediaType.toList.map Char.toLower = mediaType.toList := by
  have hplain : ∀ kind : ArtifactKind, ∀ mediaType ∈ artifactMediaTypes kind,
      strip mediaType.toList ≠ [] ∧
        (mediaType.toList.splitOn ';').map strip = [mediaType.toList] ∧
          mediaType.toList.all isAscii = true ∧
            mediaType.toList.map Char.toLower = mediaType.toList := by
    intro kind
    cases kind with
    | html => decide +kernel
    | csv => decide +kernel
    | css => decide +kernel
    | image => decide +kernel
    | font => decide +kernel
  exact hplain kind mediaType hmem

theorem authoritativeMediaType_payload (hlaws : NameLaws tables)
    (hmem : file.mediaType ∈ artifactMediaTypes file.kind) :
    authoritativeMediaType tables file.payload = .ok file.mediaType := by
  obtain ⟨hstrip, hpieces, hascii, hlower⟩ := mediaType_is_plain hmem
  have hfold : tables.casefold file.mediaType.toList = file.mediaType.toList := by
    rw [hlaws.casefold_ascii _ hascii, hlower]
  have hfind : (artifactMediaTypes file.kind).find?
      (fun mediaType => mediaType.toList = file.mediaType.toList) = some file.mediaType := by
    cases hfound : (artifactMediaTypes file.kind).find?
        fun mediaType => mediaType.toList = file.mediaType.toList with
    | none =>
        have hnone := List.find?_eq_none.mp hfound file.mediaType hmem
        simp at hnone
    | some found =>
        have hsame := List.find?_some hfound
        rw [decide_eq_true_eq] at hsame
        rw [String.toList_injective hsame]
  simp only [authoritativeMediaType, StagedUploadFile.payload, if_neg hstrip, hpieces,
    List.headD_cons, hfold, hfind, List.tail_cons, List.all_nil, if_true]

theorem validatePayloads_staged (hlaws : NameLaws tables) {seen : List Text}
    (hchecked : ∀ file ∈ files, file.Checked tables)
    (hnodup : (files.map fun file => file.logicalName.comparisonKey).Nodup)
    (hunseen : ∀ file ∈ files, file.logicalName.comparisonKey ∉ seen) (db : Db) :
    (validatePayloads tables seen (files.map StagedUploadFile.payload)).Runs db
      (files.map StagedUploadFile.logicalName) db := by
  induction files generalizing seen with
  | nil => exact runs_pure.mpr ⟨rfl, rfl⟩
  | cons file rest ih =>
      rw [List.map_cons, List.nodup_cons] at hnodup
      have hfile := hchecked file List.mem_cons_self
      have hrest := @ih (file.logicalName.comparisonKey :: seen)
        (fun other hother => hchecked other (List.mem_cons_of_mem _ hother)) hnodup.2 (by
          intro other hother hmem
          cases List.mem_cons.mp hmem with
          | inl hsame => exact hnodup.1 (hsame ▸ List.mem_map_of_mem hother)
          | inr hseen => exact hunseen other (List.mem_cons_of_mem _ hother) hseen)
      have hsize : 0 ≤ file.payload.expectedSize := Int.natCast_nonneg _
      have hdigest : isHexDigest file.payload.expectedSha256 = true := hfile.digest
      have hmediaType := authoritativeMediaType_payload hlaws hfile.mediaType
      have hname : normalizeLogicalName tables file.payload.logicalName = .ok file.logicalName :=
        hfile.normalized
      have hunseenFile := hunseen file List.mem_cons_self
      rw [List.map_cons, validatePayloads, Runs, bind_check_of_pos hsize,
        bind_check_of_pos hdigest, bind_of_runs (runs_orFail.mpr ⟨hmediaType, rfl⟩),
        bind_of_runs (runs_orFail.mpr ⟨hname, rfl⟩), bind_check_of_pos hunseenFile,
        bind_of_runs hrest]
      rfl

theorem validatePayloadSet_staged (hlaws : NameLaws tables) {staged : StagedUpload}
    (hchecked : ∀ file ∈ staged.files, file.Checked tables)
    (hnodup : (staged.files.map fun file => file.logicalName.comparisonKey).Nodup)
    (hhtml : staged.files.countP (fun file => file.kind = .html) = 1) (db : Db) :
    (validatePayloadSet tables staged.payloads).Runs db
      (staged.files.map StagedUploadFile.logicalName) db := by
  have hcount : staged.payloads.countP (fun payload => payload.kind = .html) = 1 := by
    rw [StagedUpload.payloads, List.countP_map]
    exact hhtml
  rw [validatePayloadSet, Runs, bind_check_of_pos hcount]
  exact validatePayloads_staged hlaws hchecked hnodup (fun _ _ => List.not_mem_nil) db

end Service

/-! ## The rows of the artifacts -/

/-- A row that the checks of a single artifact accept as it is. -/
structure Artifact.Sound (tables : UnicodeTables) (row : Artifact) : Prop where
  normalized : normalizeLogicalName tables row.logicalName = .ok ⟨row.logicalName, row.nameKey⟩
  names_ne_nil : row.logicalName ≠ [] ∧ row.nameKey ≠ []
  mediaType : row.mediaType ∈ artifactMediaTypes row.kind
  digest : isHexDigest row.sha256 = true
  storageKey : isCanonicalKey row.storageKey = true

/-- Two rows that can be stored beside each other. -/
structure Artifact.Apart (first second : Artifact) : Prop where
  id : first.id ≠ second.id
  storageKey : first.storageKey ≠ second.storageKey
  nameKey : first.revisionId = second.revisionId → first.nameKey ≠ second.nameKey
  html : first.revisionId = second.revisionId → first.kind = .html → second.kind ≠ .html

section Rows

variable {platform : Platform} {context : CallContext} {revisionId : Uuid} {row : Artifact}
  {before : Db}

/-- A sound row is inserted beside rows that it is apart from. -/
theorem Artifact.insert_sound (hsound : row.Sound platform.unicode)
    (hopen : ∃ revision, before.revisions.get? row.revisionId = some revision ∧
      revision.artifactsLocked = false)
    (hapart : ∀ other ∈ before.artifacts, other.Apart row) :
    ∃ artifacts, before.artifacts.create row = some artifacts ∧
      (row.insert platform).Runs before row { before with artifacts := artifacts } := by
  obtain ⟨revision, hrevision, hunlocked⟩ := hopen
  have hfree : before.artifacts.get? (Keyed.key row) = none := by
    rw [Table.get?_eq_none_iff]
    exact fun other hother => (hapart other hother).id
  obtain ⟨artifacts, hcreate⟩ := Table.exists_create hfree
  have hnames : before.artifacts.any (fun other =>
      other.revisionId = row.revisionId ∧ other.nameKey = row.nameKey) = false := by
    rw [Table.any_eq_false_iff]
    intro other hother hsame
    rw [decide_eq_true_eq] at hsame
    exact (hapart other hother).nameKey hsame.1 hsame.2
  have hkeys : before.artifacts.any (fun other => other.storageKey = row.storageKey) = false := by
    rw [Table.any_eq_false_iff]
    intro other hother hsame
    rw [decide_eq_true_eq] at hsame
    exact (hapart other hother).storageKey hsame
  have hdocuments : row.kind = .html → before.artifacts.any (fun other =>
      other.revisionId = row.revisionId ∧ other.kind = .html) = false := by
    intro hkind
    rw [Table.any_eq_false_iff]
    intro other hother hsame
    rw [decide_eq_true_eq] at hsame
    exact (hapart other hother).html hsame.1 hsame.2 hkind
  refine ⟨artifacts, hcreate, ?_⟩
  have hclean : (row.clean platform).Runs before ⟨⟩ before := by
    rw [Artifact.clean, Runs, bind_get, bind_of_runs (runs_orFail.mpr ⟨hsound.normalized, rfl⟩),
      bind_check_of_pos ⟨rfl, rfl⟩, bind_check_of_pos hsound.mediaType,
      bind_found_of_some hrevision]
    exact runs_check.mpr ⟨hunlocked, rfl⟩
  rw [Artifact.insert, Runs, bind_of_runs (runs_orFail.mpr ⟨hsound.normalized, rfl⟩)]
  refine (bind_of_runs hclean).trans ?_
  rw [bind_get, bind_check_of_pos hsound.digest, bind_check_of_pos hsound.storageKey,
    bind_check_of_pos hsound.names_ne_nil, bind_check_of_pos hnames, bind_check_of_pos hkeys,
    bind_check_of_pos hdocuments, bind_found_of_some hcreate]
  rfl

/-- The rows of prepared payloads, each with the identifier of its position. -/
def artifactRows (context : CallContext) (revisionId : Uuid)
    (items : List (ℕ × PreparedArtifact)) : List Artifact :=
  items.map fun item => item.2.row (context.uuid (item.1 + 1)) revisionId

/-- Sound rows that are pairwise apart are all inserted. -/
theorem insertArtifacts_sound {items : List (ℕ × PreparedArtifact)}
    (hsound : ∀ row ∈ artifactRows context revisionId items, row.Sound platform.unicode)
    (hpairwise : (artifactRows context revisionId items).Pairwise Artifact.Apart)
    (hopen : ∃ revision, before.revisions.get? revisionId = some revision ∧
      revision.artifactsLocked = false)
    (hapart : ∀ other ∈ before.artifacts, ∀ row ∈ artifactRows context revisionId items,
      other.Apart row) :
    ∃ artifacts, (insertArtifacts platform context revisionId items).Runs before ⟨⟩
        { before with artifacts := artifacts } ∧
      artifacts.rows =
        (artifactRows context revisionId items).reverse ++ before.artifacts.rows := by
  induction items generalizing before with
  | nil => exact ⟨before.artifacts, runs_forEach_nil.mpr rfl, rfl⟩
  | cons item rest ih =>
      rw [artifactRows, List.map_cons, List.forall_mem_cons] at hsound
      rw [artifactRows, List.map_cons, List.pairwise_cons] at hpairwise
      have hfirst : ∀ other ∈ before.artifacts,
          other.Apart (item.2.row (context.uuid (item.1 + 1)) revisionId) :=
        fun other hother => hapart other hother _ List.mem_cons_self
      obtain ⟨created, hcreate, hinsert⟩ := Artifact.insert_sound hsound.1 hopen hfirst
      have hnext : ∀ other ∈ created, ∀ row ∈ artifactRows context revisionId rest,
          other.Apart row := by
        intro other hother row hrow
        cases (Table.mem_of_create hcreate).mp hother with
        | inl hsame =>
            rw [hsame]
            exact hpairwise.1 row hrow
        | inr hold => exact hapart other hold row (List.mem_cons_of_mem _ hrow)
      obtain ⟨artifacts, hruns, hrows⟩ := @ih { before with artifacts := created }
        hsound.2 hpairwise.2 hopen hnext
      refine ⟨artifacts, ?_, ?_⟩
      · apply runs_forEach_cons.mpr
        refine ⟨_, ?_, hruns⟩
        rw [Runs, bind_of_runs hinsert]
        rfl
      · rw [hrows, (Table.create_eq_some_iff.mp hcreate).2, artifactRows, artifactRows,
          List.map_cons, List.reverse_cons, List.append_assoc, List.singleton_append]

theorem pairwise_of_countP_le_one {α : Type} {selected : α → Bool} {items : List α}
    (hcount : items.countP selected ≤ 1) :
    items.Pairwise fun first second => selected first = true → ¬ selected second = true := by
  induction items with
  | nil => exact .nil
  | cons item rest ih =>
      rw [List.countP_cons] at hcount
      rw [List.pairwise_cons]
      constructor
      · intro other hother hitem
        rw [if_pos hitem] at hcount
        have hnone : rest.countP selected = 0 := by omega
        exact List.countP_eq_zero.mp hnone other hother
      · exact ih (by omega)

end Rows

/-! ## The agreement -/

/-- A stored payload goes into the revision under the name of the payload check, with the
authoritative media type and the size and digest that were expected. -/
structure PreparedFor (tables : UnicodeTables) (payload : ArtifactPayload) (name : LogicalName)
    (item : PreparedArtifact) : Prop where
  name : item.name = name
  kind : item.kind = payload.kind
  mediaType : authoritativeMediaType tables payload = .ok item.mediaType
  byteSize : (item.receipt.byteSize : ℤ) = payload.expectedSize
  digest : item.receipt.sha256 = payload.expectedSha256

/-- What a revision that was just inserted offers its artifacts: it is open and empty, and their
storage keys and identifiers are new. -/
structure RoomForArtifacts (context : CallContext) (revisionId : Uuid)
    (prepared : List PreparedArtifact) (db : Db) : Prop where
  unlocked : ∃ revision, db.revisions.get? revisionId = some revision ∧
    revision.artifactsLocked = false
  empty : ∀ other ∈ db.artifacts, other.revisionId ≠ revisionId
  keys : (prepared.map fun item => item.receipt.key.value).Nodup
  unowned : ∀ item ∈ prepared, db.artifactOwns item.receipt.key.value = false
  ids : ((List.range prepared.length).map fun position => context.uuid (position + 1)).Nodup
  unused : ∀ position < prepared.length, db.artifacts.get? (context.uuid (position + 1)) = none

/-- The row has the names, the kind, the media type and the size of the staged file. -/
structure StagedUploadFile.StoredAs (file : StagedUploadFile) (row : Artifact) : Prop where
  logicalName : row.logicalName = file.logicalName.display
  nameKey : row.nameKey = file.logicalName.comparisonKey
  kind : row.kind = file.kind
  mediaType : row.mediaType = file.mediaType
  byteSize : row.byteSize = file.byteSize
  digest : row.sha256 = file.sha256

/-- No later check refuses the package or changes a name, a kind or a media type of it. -/
structure StagedUpload.PassesLater (platform : Platform) (staged : StagedUpload) : Prop where
  payloadSet : ∀ db, (validatePayloadSet platform.unicode staged.payloads).Runs db
    (staged.files.map StagedUploadFile.logicalName) db
  mediaTypes : ∀ file ∈ staged.files,
    authoritativeMediaType platform.unicode file.payload = .ok file.mediaType
  artifacts : ∀ context revisionId prepared before,
    List.Forall₂ (fun file => PreparedFor platform.unicode file.payload file.logicalName)
      staged.files prepared → RoomForArtifacts context revisionId prepared before →
        ∃ artifacts rows,
          (insertArtifacts platform context revisionId (prepared.zipIdx.map Prod.swap)).Runs before
            ⟨⟩ { before with artifacts := artifacts } ∧
          artifacts.rows = rows.reverse ++ before.artifacts.rows ∧
            List.Forall₂ StagedUploadFile.StoredAs staged.files rows

section Agreement

variable {platform : Platform} {context : CallContext} {revisionId : Uuid} {before : Db}
  {files : List StagedUploadFile} {prepared : List PreparedArtifact}

theorem PreparedFor.storedAs {file : StagedUploadFile} {item : PreparedArtifact} {id : Uuid}
    (hlaws : NameLaws platform.unicode) (hchecked : file.Checked platform.unicode)
    (hprepared : PreparedFor platform.unicode file.payload file.logicalName item) :
    file.StoredAs (item.row id revisionId) where
  logicalName := congrArg LogicalName.display hprepared.name
  nameKey := congrArg LogicalName.comparisonKey hprepared.name
  kind := hprepared.kind
  mediaType := by
    have hmediaType := hprepared.mediaType
    rw [authoritativeMediaType_payload hlaws hchecked.mediaType, Except.ok.injEq] at hmediaType
    exact hmediaType.symm
  byteSize := Int.natCast_inj.mp hprepared.byteSize
  digest := hprepared.digest

theorem StagedUploadFile.StoredAs.sound {file : StagedUploadFile} {item : PreparedArtifact}
    {id : Uuid} (hchecked : file.Checked platform.unicode)
    (hstored : file.StoredAs (item.row id revisionId)) :
    (item.row id revisionId).Sound platform.unicode := by
  constructor
  · rw [hstored.logicalName, hstored.nameKey]
    exact hchecked.normalized
  · rw [hstored.logicalName, hstored.nameKey]
    exact ⟨hchecked.display_ne_nil, hchecked.key_ne_nil⟩
  · rw [hstored.mediaType, hstored.kind]
    exact hchecked.mediaType
  · rw [hstored.digest]
    exact hchecked.digest
  · exact item.receipt.key.canonical

/-- The rows of a revision, each at the position of its payload. -/
abbrev revisionRows (context : CallContext) (revisionId : Uuid)
    (prepared : List PreparedArtifact) : List Artifact :=
  artifactRows context revisionId (prepared.zipIdx.map Prod.swap)

theorem revisionRows_map {α : Type} (read : Artifact → α) (found : PreparedArtifact → α)
    (hread : ∀ item id, read (item.row id revisionId) = found item) :
    (revisionRows context revisionId prepared).map read = prepared.map found := by
  rw [revisionRows, artifactRows, List.map_map, List.map_map]
  have hsame : (read ∘ fun item : ℕ × PreparedArtifact =>
      item.2.row (context.uuid (item.1 + 1)) revisionId) ∘ Prod.swap = found ∘ Prod.fst := by
    funext pair
    exact hread pair.1 _
  rw [hsame, ← List.map_map, List.zipIdx_map_fst]

theorem revisionRows_ids :
    (revisionRows context revisionId prepared).map Artifact.id =
      (List.range prepared.length).map fun position => context.uuid (position + 1) := by
  rw [revisionRows, artifactRows, List.map_map, List.map_map, List.range_eq_range',
    ← List.zipIdx_map_snd, List.map_map]
  rfl

theorem revisionRows_storedAs (hlaws : NameLaws platform.unicode)
    (hchecked : ∀ file ∈ files, file.Checked platform.unicode)
    (hprepared : List.Forall₂ (fun file => PreparedFor platform.unicode file.payload
      file.logicalName) files prepared) :
    List.Forall₂ (fun file row => file.StoredAs row ∧ row.Sound platform.unicode) files
      (revisionRows context revisionId prepared) := by
  rw [revisionRows, artifactRows]
  generalize 0 = start
  induction hprepared generalizing start with
  | nil => exact .nil
  | @cons file item files prepared hitem _ ih =>
      have hfile := hchecked file List.mem_cons_self
      have hstored : file.StoredAs (item.row (context.uuid (start + 1)) revisionId) :=
        hitem.storedAs hlaws hfile
      rw [List.zipIdx_cons, List.map_cons, List.map_cons]
      refine .cons ⟨hstored, hstored.sound hfile⟩ ?_
      exact ih (fun other hother => hchecked other (List.mem_cons_of_mem _ hother)) (start + 1)

theorem revisionRows_pairwise (hstored : List.Forall₂ StagedUploadFile.StoredAs files
      (revisionRows context revisionId prepared))
    (hroom : RoomForArtifacts context revisionId prepared before)
    (hnodup : (files.map fun file => file.logicalName.comparisonKey).Nodup)
    (hhtml : files.countP (fun file => file.kind = .html) = 1) :
    (revisionRows context revisionId prepared).Pairwise Artifact.Apart := by
  have hids : ((revisionRows context revisionId prepared).map Artifact.id).Nodup := by
    rw [revisionRows_ids]
    exact hroom.ids
  have hkeys : ((revisionRows context revisionId prepared).map Artifact.storageKey).Nodup := by
    rw [revisionRows_map Artifact.storageKey (fun item => item.receipt.key.value) fun _ _ => rfl]
    exact hroom.keys
  have hnames : ((revisionRows context revisionId prepared).map Artifact.nameKey).Nodup := by
    have hsame : files.map (fun file => file.logicalName.comparisonKey) =
        (revisionRows context revisionId prepared).map Artifact.nameKey := by
      rw [← List.forall₂_eq_eq_eq]
      exact List.rel_map (fun _ _ hfile => hfile.nameKey.symm) hstored
    rw [← hsame]
    exact hnodup
  have hdocuments : (revisionRows context revisionId prepared).countP
      (fun row => row.kind = .html) ≤ 1 := by
    have hsame : files.map StagedUploadFile.kind =
        (revisionRows context revisionId prepared).map Artifact.kind := by
      rw [← List.forall₂_eq_eq_eq]
      exact List.rel_map (fun _ _ hfile => hfile.kind.symm) hstored
    have hcount := congrArg (List.countP fun kind : ArtifactKind => kind = .html) hsame
    rw [List.countP_map, List.countP_map] at hcount
    exact (hcount.symm.trans hhtml).le
  have hapart := (List.pairwise_map.mp hids).and ((List.pairwise_map.mp hkeys).and
    ((List.pairwise_map.mp hnames).and (pairwise_of_countP_le_one hdocuments)))
  refine hapart.imp ?_
  intro first second hfirst
  obtain ⟨hid, hkey, hname, hkind⟩ := hfirst
  exact ⟨hid, hkey, fun _ => hname, fun _ => by simpa using hkind⟩

theorem RoomForArtifacts.apart (hroom : RoomForArtifacts context revisionId prepared before) :
    ∀ other ∈ before.artifacts, ∀ row ∈ revisionRows context revisionId prepared,
      other.Apart row := by
  intro other hother row hrow
  have hrevision : other.revisionId ≠ row.revisionId := by
    obtain ⟨item, _, rfl⟩ := List.mem_map.mp hrow
    exact hroom.empty other hother
  constructor
  · have hid := List.mem_map_of_mem (f := Artifact.id) hrow
    rw [revisionRows_ids] at hid
    obtain ⟨position, hposition, hsame⟩ := List.mem_map.mp hid
    have hunused := hroom.unused position (List.mem_range.mp hposition)
    rw [hsame, Table.get?_eq_none_iff] at hunused
    exact hunused other hother
  · obtain ⟨item, hitem, rfl⟩ := List.mem_map.mp hrow
    obtain ⟨pair, hpair, rfl⟩ := List.mem_map.mp hitem
    have hmem : pair.1 ∈ prepared := by
      have hfirst := List.mem_map_of_mem (f := Prod.fst) hpair
      rwa [List.zipIdx_map_fst] at hfirst
    have hfree := Table.any_eq_false_iff.mp (hroom.unowned pair.1 hmem) other hother
    rw [decide_eq_true_eq] at hfree
    exact hfree
  · exact fun hsame => absurd hsame hrevision
  · exact fun hsame => absurd hsame hrevision

/-- A package that is staged passes every later check of its names, kinds, media types and
sizes, and each artifact is stored as its file was staged. -/
theorem staged_upload_passes_later {π : Type} (tables : UploadTables) (parser : HtmlParser π)
    (device : StagingDevice) (platform : Platform) (limits : UploadLimits) (parts : List RawPart)
    (staged : StagedUpload) (hsame : tables.unicode = platform.unicode)
    (hlaws : NameLaws platform.unicode)
    (haccept : stageUpload tables parser device platform.sha256 limits parts = .ok staged) :
    staged.PassesLater platform := by
  have hpackage := stagedPackage_of_stageUpload haccept
  have hchecked : ∀ file ∈ staged.files, file.Checked platform.unicode := by
    rw [← hsame] at hlaws ⊢
    exact staged_files_checked hlaws platform.sha256_hex haccept
  constructor
  · exact validatePayloadSet_staged hlaws hchecked hpackage.distinct hpackage.oneHtml
  · exact fun file hfile => authoritativeMediaType_payload hlaws (hchecked file hfile).mediaType
  · intro context revisionId prepared before hprepared hroom
    have hrows : List.Forall₂ (fun file row => file.StoredAs row ∧ row.Sound platform.unicode)
        staged.files (revisionRows context revisionId prepared) :=
      revisionRows_storedAs hlaws hchecked hprepared
    have hstored := hrows.imp fun _ _ hrow => hrow.1
    have hsound : ∀ row ∈ revisionRows context revisionId prepared,
        row.Sound platform.unicode := by
      intro row hrow
      obtain ⟨_, hfile⟩ := exists_of_forall₂ hrows hrow
      exact hfile.2
    have hpairwise := revisionRows_pairwise hstored hroom hpackage.distinct hpackage.oneHtml
    obtain ⟨artifacts, hruns, hafter⟩ :=
      insertArtifacts_sound hsound hpairwise hroom.unlocked hroom.apart
    exact ⟨artifacts, _, hruns, hafter, hstored⟩

end Agreement

/-! ## A package with one data file -/

theorem isHexDigest_smallDigest (bytes : Bytes) : isHexDigest (smallDigest bytes) = true := by
  unfold smallDigest
  split
  · decide +kernel
  · split
    · decide +kernel
    · decide +kernel

/-- The platform with SHA-256 on the bytes of the small package. -/
def smallPlatform : Platform where
  unicode := asciiTables
  sha256 := smallDigest
  sha256_hex := isHexDigest_smallDigest
  passwordErrors := asciiPlatform.passwordErrors
  makePassword := asciiPlatform.makePassword

theorem asciiTables_nameLaws : NameLaws asciiTables where
  nfc_nfc _ := rfl
  nfkc_ne_nil _ hne := hne
  casefold_ne_nil _ hne := by simpa [asciiTables] using hne
  casefold_ascii _ _ := rfl

theorem small_upload_passes_later : smallStaged.PassesLater smallPlatform :=
  staged_upload_passes_later asciiUploadTables emptyDocumentParser smallDevice smallPlatform
    .default
    (smallUpload ["a", "", "\n"]) smallStaged rfl asciiTables_nameLaws stageUpload_small

end Agora
