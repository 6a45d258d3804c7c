import Agora.StagedPackages
import Agora.UploadIntegrity

/-!
# From the parts of an upload to stored artifacts

`create_upload_revision` stages the parts of an upload and hands the staged files to the
revision service, which writes them to the storage.  The bytes are streamed three times on this
way; after it each part is one artifact of the revision, under its own name and with its own
bytes.
-/

namespace Agora

/-- The name that a part has from its filename, and the types that its extension has. -/
structure UploadPart.Names (tables : UnicodeTables) (part : UploadPart) (name : LogicalName)
    (kind : ArtifactKind) (mediaType : String) : Prop where
  filename : ∃ filename, part.filename.decoded = some filename ∧
    normalizeLogicalName tables filename = .ok name
  extension : ∃ stem suffix, splitExtension name.display = some (stem, suffix) ∧
    extensionEntry uploadExtensionToKind (tables.casefold suffix) = some kind ∧
      extensionEntry uploadExtensionToMediaType (tables.casefold suffix) = some mediaType

/-- An artifact has its names and types from the filename of a part and its bytes from the
chunks of the part. -/
structure Artifact.HoldsPart (platform : Platform) (files : StorageFiles) (part : UploadPart)
    (artifact : Artifact) : Prop where
  named : ∃ name, part.Names platform.unicode name artifact.kind artifact.mediaType ∧
    artifact.logicalName = name.display ∧ artifact.nameKey = name.comparisonKey
  stored : ∃ (key : StorageKey) (pieces : List Bytes), key.value = artifact.storageKey ∧
    part.chunks = some (pieces.map Chunk.bytes) ∧
      files.read key.finalPath = some pieces.flatten ∧
        artifact.byteSize = pieces.flatten.length ∧
          artifact.sha256 = platform.sha256 pieces.flatten

theorem manifestEntry_names {tables : UploadTables} {index : ℕ} {raw : RawPart}
    {entry : ManifestEntry} (haccept : manifestEntry tables index raw = .ok entry) :
    entry.part.Names tables.unicode entry.name entry.kind entry.mediaType := by
  cases raw with
  | other => simp [manifestEntry] at haccept
  | raises => simp [manifestEntry] at haccept
  | part part =>
      simp only [manifestEntry, bind_eq_ok_iff, Except.ok.injEq] at haccept
      obtain ⟨name, hname, kind, hkind, mediaType, hmediaType, _, _, rfl⟩ := haccept
      obtain ⟨stem, suffix, hsplit, hentry⟩ := classifyFilename_ok hkind
      exact ⟨normalizePartFilename_ok hname,
        stem, suffix, hsplit, hentry, mediaTypeForFilename_ok hmediaType hsplit⟩

theorem manifestEntries_names {tables : UploadTables} {limits : UploadLimits} {index : ℕ}
    {seen : List Text} {parts : List RawPart} {entries : List ManifestEntry}
    (haccept : manifestEntries tables limits index seen parts = .ok entries) :
    ∀ entry ∈ entries,
      entry.part.Names tables.unicode entry.name entry.kind entry.mediaType := by
  induction parts generalizing index seen entries with
  | nil =>
      rw [manifestEntries, Except.ok.injEq] at haccept
      rw [← haccept]
      simp
  | cons raw rest ih =>
      cases raw with
      | raises => simp [manifestEntries] at haccept
      | _ =>
          simp only [manifestEntries, bind_eq_ok_iff, Except.ok.injEq] at haccept
          obtain ⟨_, _, first, hfirst, _, _, later, hlater, rfl⟩ := haccept
          intro entry hentry
          cases List.mem_cons.mp hentry with
          | inl heq => exact heq ▸ manifestEntry_names hfirst
          | inr hmem => exact ih hlater entry hmem

theorem buildManifest_names {tables : UploadTables} {limits : UploadLimits}
    {parts : List RawPart} {entries : List ManifestEntry}
    (haccept : buildManifest tables limits parts = .ok entries) :
    ∀ entry ∈ entries,
      entry.part.Names tables.unicode entry.name entry.kind entry.mediaType := by
  simp only [buildManifest, bind_eq_ok_iff, Except.ok.injEq] at haccept
  obtain ⟨found, hentries, _, _, _, _, rfl⟩ := haccept
  exact manifestEntries_names hentries

theorem payloadOf_bytes (pieces : List Bytes) :
    payloadOf (pieces.map Chunk.bytes) = some pieces.flatten := by
  induction pieces with
  | nil => rfl
  | cons piece rest ih => rw [List.map_cons, payloadOf, ih, List.flatten_cons, Option.map_some]

/-- The replay of a staged file. -/
theorem payloadOf_payload (file : StagedUploadFile) :
    payloadOf file.payload.chunks = some file.stream := by
  change payloadOf ((file.iterChunks (1024 * 1024)).map Chunk.bytes) = _
  rw [payloadOf_bytes, iterChunks_flatten (by omega)]

section Parts

variable {π : Type} {tables : UploadTables} {parser : HtmlParser π} {device : StagingDevice}
  {platform : Platform} {limits : UploadLimits} {parts : List RawPart} {staged : StagedUpload}

/-- A staged file that is delivered holds its part. -/
theorem Artifact.Delivers.holdsPart {files : StorageFiles} {revisionId : Uuid} {total : ℕ}
    {entry : ManifestEntry} {part : StagedPart} {payload : ArtifactPayload × LogicalName}
    {artifact : Artifact} (hsame : tables.unicode = platform.unicode)
    (hlaws : NameLaws platform.unicode) (haccepted : entry.Accepted tables)
    (hnames : entry.part.Names tables.unicode entry.name entry.kind entry.mediaType)
    (hholds : part.Holds platform.sha256 limits total entry)
    (hpayload : payload.1 = part.file.payload)
    (hnamed : normalizeLogicalName platform.unicode payload.1.logicalName = .ok payload.2)
    (hdelivers : artifact.Delivers platform files revisionId payload) :
    artifact.HoldsPart platform files entry.part ∧ artifact.kind = entry.kind := by
  have hchecked : part.file.Checked platform.unicode := by
    rw [← hsame] at hlaws ⊢
    exact checked_of_holds hlaws platform.sha256_hex haccepted hholds
  have hname : payload.2 = part.file.logicalName := by
    have hagain := hchecked.normalized
    rw [hpayload] at hnamed
    exact Except.ok.inj (hnamed.symm.trans hagain)
  have hkind : artifact.kind = entry.kind := by
    rw [hdelivers.kind, hpayload]
    exact hholds.kind
  have hmedia : artifact.mediaType = entry.mediaType := by
    have hauthoritative := hdelivers.mediaType
    rw [hpayload, authoritativeMediaType_payload hlaws hchecked.mediaType] at hauthoritative
    rw [← hholds.mediaType]
    exact (Except.ok.inj hauthoritative).symm
  refine ⟨⟨?_, ?_⟩, hkind⟩
  · obtain ⟨normalized, hnormalized, hdisplay, hkey⟩ := hdelivers.named
    rw [hname, hchecked.normalized] at hnormalized
    cases hnormalized
    rw [hholds.name] at hdisplay hkey
    rw [hkind, hmedia, ← hsame]
    exact ⟨entry.name, hnames, hdisplay, hkey⟩
  · obtain ⟨pieces, hchunks, hstream⟩ := hholds.stream
    obtain ⟨key, bytes, hkey, hbytes, hread, hsize, hdigest⟩ := hdelivers.stored
    rw [hpayload, payloadOf_payload, hstream] at hbytes
    cases hbytes
    exact ⟨key, pieces, hkey, hchunks, hread, hsize, hdigest⟩

/-- The artifacts that deliver a staged upload hold its parts, and one of them is HTML. -/
theorem Artifact.Delivers.holdsParts {files : StorageFiles} {revisionId : Uuid}
    {payloads : List (ArtifactPayload × LogicalName)} {rows : List Artifact}
    (hsame : tables.unicode = platform.unicode) (hlaws : NameLaws platform.unicode)
    (haccept : stageUpload tables parser device platform.sha256 limits parts = .ok staged)
    (hpayloads : payloads.map Prod.fst = staged.payloads)
    (hnamed : ∀ payload ∈ payloads,
      normalizeLogicalName platform.unicode payload.1.logicalName = .ok payload.2)
    (hdelivered : List.Forall₂ (fun payload artifact =>
      artifact.Delivers platform files revisionId payload) payloads rows) :
    List.Forall₂ (fun raw artifact => ∃ part, raw = RawPart.part part ∧
        artifact.HoldsPart platform files part) parts rows ∧
      rows.countP (fun artifact => artifact.kind = .html) = 1 := by
  obtain ⟨entries, hmanifest, hstaged⟩ := stageUpload_holds haccept
  have haccepted := manifest_of_buildManifest hmanifest
  have hlength : payloads.length = staged.files.length := by
    have hsizes := congrArg List.length hpayloads
    rwa [List.length_map, StagedUpload.payloads, List.length_map] at hsizes
  have hrows : List.Forall₂ (fun entry artifact =>
      artifact.HoldsPart platform files entry.part ∧ artifact.kind = entry.kind)
        entries rows := by
    apply forall₂_of_getElem?
    · rw [hstaged.files.length_eq, ← hlength]
      exact hdelivered.length_eq
    · intro position entry artifact hentry hartifact
      have hbound : position < payloads.length := by
        rw [hdelivered.length_eq]
        exact (List.getElem?_eq_some_iff.mp hartifact).1
      have hpayload := List.getElem?_eq_getElem hbound
      rw [hlength] at hbound
      have hfile := List.getElem?_eq_getElem hbound
      obtain ⟨total, part, hpart, hholds⟩ := forall₂_getElem? hstaged.files hentry hfile
      have hhanded : (payloads[position]).1 = part.file.payload := by
        have hboth := congrArg (fun payloads => payloads[position]?) hpayloads
        simp only [StagedUpload.payloads, List.getElem?_map, hpayload, hfile, Option.map_some,
          Option.some.injEq] at hboth
        rw [hboth, hpart]
      exact (forall₂_getElem? hdelivered hpayload hartifact).holdsPart hsame hlaws
        (haccepted.accepted entry (List.mem_of_getElem? hentry))
        (buildManifest_names hmanifest entry (List.mem_of_getElem? hentry)) hholds hhanded
        (hnamed _ (List.mem_of_getElem? hpayload))
  constructor
  · rw [haccepted.parts_eq]
    exact List.forall₂_map_left_iff.mpr (hrows.imp fun entry _ hrow => ⟨entry.part, rfl, hrow.1⟩)
  · have hkinds : entries.map ManifestEntry.kind = rows.map Artifact.kind := by
      rw [← List.forall₂_eq_eq_eq]
      exact List.rel_map (fun _ _ hrow => hrow.2.symm) hrows
    have hcount := congrArg (List.countP fun kind : ArtifactKind => kind = .html) hkinds
    rw [List.countP_map, List.countP_map] at hcount
    exact hcount.symm.trans haccepted.oneHtml

/-- Once the revision service has answered `create_upload_revision`, each part of the upload is
one artifact of the revision, and stays so. -/
theorem uploaded_parts_are_stored {session : UploadSession}
    {first last : Configuration UploadStore UploadParty}
    {events : List (PartyEvent UploadStore UploadParty UploadLabel)} {index : ℕ}
    {revision : Revision} (hsame : tables.unicode = platform.unicode)
    (hlaws : NameLaws platform.unicode)
    (haccept : stageUpload tables parser device platform.sha256 limits parts = .ok staged)
    (hreach : ((uploadSystem platform).sparing (UploadStore.Spares platform)).Reachable first)
    (hpath : ((uploadSystem platform).sparing
      (UploadStore.Spares platform)).transitions.Path first events last)
    (hparty : first.parties[index]? = some (.upload session))
    (hpayloads : session.payloads.map Prod.fst = staged.payloads)
    (hfinished : session.phase = .finished revision) :
    ∃ rows : List Artifact,
      List.Forall₂ (fun raw artifact => ∃ part, raw = RawPart.part part ∧
        artifact.HoldsPart platform last.store.files part) parts rows ∧
          rows.countP (fun artifact => artifact.kind = .html) = 1 ∧
            rows.Pairwise (fun first second => first.nameKey ≠ second.nameKey) ∧
              ∀ artifact, artifact ∈ rows ↔ artifact ∈ last.store.db.artifacts ∧
                artifact.revisionId = revision.id := by
  have hdelivers := uploadSystem_keepsDelivered hreach hpath
    (delivers_of_answered hreach hparty hfinished)
  obtain ⟨rows, hdelivered, hdistinct, hmem⟩ := hdelivers.artifacts
  have hnamed := ((uploadSystem_intact.holds hreach).party index _ hparty).linked.named
  have hparts := Artifact.Delivers.holdsParts hsame hlaws haccept hpayloads hnamed hdelivered
  exact ⟨rows, hparts.1, hparts.2, hdistinct, hmem⟩

end Parts

/-! ## An upload of two parts -/

/-- The upload of the package with one document and one table. -/
def smallSession : UploadSession :=
  .start 3 1 (smallStaged.payloads.zip (smallStaged.files.map StagedUploadFile.logicalName))

def smallConfiguration : Configuration UploadStore UploadParty :=
  ⟨sampleUploadStore, [.upload smallSession]⟩

def smallSteps : List (ℕ × UploadLabel) :=
  [(0, .generate zeroKey .answered), (0, .transact (contextAt 3 4) .answered),
    (0, .store (List.replicate 40 (.succeeded 64))), (0, .transact (contextAt 4 5) .answered),
    (0, .generate sampleReceipt.key .answered), (0, .transact (contextAt 4 5) .answered),
    (0, .store (List.replicate 40 (.succeeded 64))), (0, .transact (contextAt 4 6) .answered),
    (0, .transact (contextAt 5 6) .answered)]

/-- The payloads that an upload was called with. -/
def UploadParty.requested : UploadParty → List ArtifactPayload
  | .upload session => session.payloads.map Prod.fst
  | .cleanup _ => []

theorem smallConfiguration_run {state : Configuration UploadStore UploadParty}
    (hrun : (uploadSystem smallPlatform).run smallConfiguration smallSteps = some state) :
    ((uploadSystem smallPlatform).sparing (UploadStore.Spares smallPlatform)).Reachable state := by
  have hstarts : UploadParty.Starts smallPlatform sampleUploadStore (.upload smallSession) :=
    .upload (by decide +kernel)
  have halone : ∀ event ∈ smallSteps, event.1 = 0 := by
    decide
  exact PartySystem.Reachable.run_alone (sampleUploadStore_initial smallPlatform) hstarts halone
    hrun

theorem small_upload_is_stored :
    ∃ state revision, (uploadSystem smallPlatform).run smallConfiguration smallSteps = some state ∧
      ∃ rows : List Artifact,
        List.Forall₂ (fun raw artifact => ∃ part, raw = RawPart.part part ∧
          artifact.HoldsPart smallPlatform state.store.files part) (smallUpload ["a", "", "\n"])
            rows ∧ rows.countP (fun artifact => artifact.kind = .html) = 1 ∧
              rows.Pairwise (fun first second => first.nameKey ≠ second.nameKey) ∧
                ∀ artifact, artifact ∈ rows ↔ artifact ∈ state.store.db.artifacts ∧
                  artifact.revisionId = revision := by
  have hresult : (((uploadSystem smallPlatform).run smallConfiguration smallSteps).bind
      fun state => state.parties[0]?.bind fun party => party.revision?.map fun revision =>
        (revision.id, party.requested)) = some (6, smallStaged.payloads) := by
    decide +kernel
  obtain ⟨state, hrun, hstate⟩ := Option.bind_eq_some_iff.mp hresult
  obtain ⟨party, hparty, hanswered⟩ := Option.bind_eq_some_iff.mp hstate
  obtain ⟨revision, hfinished, hboth⟩ := Option.map_eq_some_iff.mp hanswered
  obtain ⟨session, rfl, hphase⟩ := UploadParty.of_revision? hfinished
  have hstage : stageUpload asciiUploadTables emptyDocumentParser smallDevice smallPlatform.sha256
      .default (smallUpload ["a", "", "\n"]) = .ok smallStaged := stageUpload_small
  exact ⟨state, revision.id, hrun, uploaded_parts_are_stored rfl asciiTables_nameLaws hstage
    (smallConfiguration_run hrun) (.refl state) hparty (Prod.mk.inj hboth).2 hphase⟩

end Agora
