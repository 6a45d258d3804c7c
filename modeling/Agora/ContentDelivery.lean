import Agora.DeliveredParts
import Agora.ReferenceDelivery
import Agora.StagedParts

/-!
# Delivery of artifacts

The content service answers a request from its path, the database and the storage.  It reads
no portal state: the path names an audience, a token and perhaps a supporting file, the token
names a current authorization, and the authorization pins one revision.  Everything else is
refused.
-/

namespace Agora

open Transaction

/-! ## Requests and responses -/

structure ContentRequest where
  method : String
  /-- The decoded path. -/
  path : Text
  origin : Option Text

/-- The body of a response; a stream opens the artifact when it is first read. -/
inductive ContentBody where
  | empty
  | stream (key : StorageKey)
  deriving DecidableEq

/-- What the views set on a response, and the path that they leave for the request log. -/
structure ContentResponse where
  status : ℕ
  contentType : String
  contentLength : Option ℕ
  allow : List String
  allowOrigin : Option Text
  vary : List String
  body : ContentBody
  loggedPath : Text
  deriving DecidableEq

inductive ContentRoute where
  | html (audience : Audience) (token : Text)
  | artifact (audience : Audience) (token logicalName : Text)
  | unavailable
  deriving DecidableEq

def Audience.segment : Audience → Text
  | .preview => "preview".toList
  | .viewer => "viewer".toList

/-- `urlpatterns` of the content service. -/
def contentRoute (path : Text) : ContentRoute :=
  match path.splitOn '/' with
  | [root, render, audience, token, last] =>
      if root = [] ∧ render = "render".toList ∧ token ≠ [] then
        if audience = Audience.preview.segment then
          if last = [] then .html .preview token else .artifact .preview token last
        else if audience = Audience.viewer.segment then
          if last = [] then .html .viewer token else .artifact .viewer token last
        else .unavailable
      else .unavailable
  | _ => .unavailable

/-! ## The views -/

/-- `HttpResponseNotFound` and `HttpResponseNotAllowed`. -/
def refusal (status : ℕ) (allow : List String) (loggedPath : Text) : ContentResponse where
  status := status
  contentType := "text/html; charset=utf-8"
  contentLength := none
  allow := allow
  allowOrigin := none
  vary := []
  body := .empty
  loggedPath := loggedPath

/-- `_render_failure`. -/
def renderFailure (status : ℕ) (allow : List String) : ContentResponse :=
  refusal status allow "/render/<redacted>/".toList

def textMediaTypes : List String :=
  ["text/html", "text/csv", "text/css"]

def contentTypeOf (mediaType : String) : String :=
  if mediaType ∈ textMediaTypes then mediaType ++ "; charset=utf-8" else mediaType

/-- `_artifact_response`; the storage is opened once before the body is streamed. -/
def artifactResponse (files : StorageFiles) (request : ContentRequest) (artifact : Artifact) :
    ContentResponse :=
  match CleanupJob.storageKey? artifact.storageKey with
  | none => renderFailure 404 []
  | some key =>
      match files.read key.finalPath with
      | none => renderFailure 404 []
      | some _ => {
          status := 200
          contentType := contentTypeOf artifact.mediaType
          contentLength := some artifact.byteSize
          allow := []
          allowOrigin := none
          vary := []
          body := if request.method = "HEAD" then .empty else .stream key
          loggedPath := request.path }

def renderMethods : List String :=
  ["GET", "HEAD"]

/-- The artifacts of a revision. -/
def Db.artifactsOf (db : Db) (revisionId : Uuid) : List Artifact :=
  db.artifacts.where? fun artifact => artifact.revisionId = revisionId

/-- The authorization that a token is current for. -/
def Db.resolved (db : Db) (platform : Platform) (audience : Audience) (token : Text)
    (now : Time) : Option LoadedAuthorization :=
  (resolveRenderAuthorization platform token audience now).value? db

/-- `render_html`. -/
def renderHtml (platform : Platform) (db : Db) (files : StorageFiles) (now : Time)
    (request : ContentRequest) (audience : Audience) (token : Text) : ContentResponse :=
  if request.method ∉ renderMethods then renderFailure 405 renderMethods
  else
    match db.resolved platform audience token now with
    | none => renderFailure 404 []
    | some target =>
        match (db.artifactsOf target.revision.id).filter fun artifact =>
            artifact.kind = .html with
        | [artifact] => artifactResponse files request artifact
        | _ => renderFailure 404 []

/-- The headers of a supporting file for a frame without an origin. -/
def ContentResponse.forOrigin (response : ContentResponse) (origin : Option Text) :
    ContentResponse :=
  if response.status < 400 ∧ origin = some "null".toList then
    { response with allowOrigin := some "null".toList, vary := response.vary ++ ["Origin"] }
  else response

/-- `render_artifact`. -/
def renderArtifact (platform : Platform) (db : Db) (files : StorageFiles) (now : Time)
    (request : ContentRequest) (audience : Audience) (token logicalName : Text) :
    ContentResponse :=
  if request.method ∉ renderMethods then renderFailure 405 renderMethods
  else
    match db.resolved platform audience token now with
    | none => renderFailure 404 []
    | some target =>
        match supportingArtifact platform.unicode (db.artifactsOf target.revision.id)
            logicalName with
        | none => renderFailure 404 []
        | some (_, artifact) =>
            (artifactResponse files request artifact).forOrigin request.origin

/-- The content service. -/
def contentService (platform : Platform) (db : Db) (files : StorageFiles) (now : Time)
    (request : ContentRequest) : ContentResponse :=
  match contentRoute request.path with
  | .html audience token => renderHtml platform db files now request audience token
  | .artifact audience token logicalName =>
      renderArtifact platform db files now request audience token logicalName
  | .unavailable => refusal 404 [] request.path

def streamChunkSize : ℕ := 64 * 1024

/-- `_artifact_chunks`: the chunks of a body that is read from these files; none where opening
the artifact fails. -/
def ContentBody.chunks (files : StorageFiles) : ContentBody → Option (List Bytes)
  | .empty => some []
  | .stream key =>
      (files.read key.finalPath).map fun bytes =>
        iterChunksFrom streamChunkSize bytes.length bytes

theorem ContentBody.chunks_flatten {files : StorageFiles} {key : StorageKey} {bytes : Bytes}
    (hread : files.read key.finalPath = some bytes) :
    ((ContentBody.stream key).chunks files).map List.flatten = some bytes := by
  rw [chunks, hread, Option.map_some, Option.map_some,
    iterChunksFrom_flatten (by decide) le_rfl]

/-! ## One artifact -/

/-- A response delivers a part under its media type, when its body is read from these
files. -/
structure ContentResponse.Carries (files : StorageFiles) (part : UploadPart) (mediaType : String)
    (response : ContentResponse) : Prop where
  status : response.status = 200
  contentType : response.contentType = contentTypeOf mediaType
  body : ∃ pieces chunks : List Bytes, part.chunks = some (pieces.map Chunk.bytes) ∧
    response.body.chunks files = some chunks ∧ chunks.flatten = pieces.flatten ∧
      response.contentLength = some pieces.flatten.length

theorem storageKey?_value (key : StorageKey) : CleanupJob.storageKey? key.value = some key := by
  rw [CleanupJob.storageKey?, dif_pos key.canonical]

theorem ContentResponse.Carries.forOrigin {files : StorageFiles} {part : UploadPart}
    {mediaType : String} {response : ContentResponse}
    (hcarries : response.Carries files part mediaType) (origin : Option Text) :
    (response.forOrigin origin).Carries files part mediaType := by
  unfold ContentResponse.forOrigin
  split
  · exact ⟨hcarries.status, hcarries.contentType, hcarries.body⟩
  · exact hcarries

/-- An artifact that holds a part is delivered, also when its body is read later. -/
theorem artifactResponse_carries {platform : Platform} {files later : StorageFiles}
    {request : ContentRequest} {artifact : Artifact} {part : UploadPart}
    (hget : request.method = "GET") (hholds : artifact.HoldsPart platform files part)
    (hkept : ∀ (key : StorageKey) (bytes : Bytes), key.value = artifact.storageKey →
      files.read key.finalPath = some bytes → later.read key.finalPath = some bytes) :
    (artifactResponse files request artifact).Carries later part artifact.mediaType := by
  obtain ⟨key, pieces, hkey, hchunks, hread, hsize, _⟩ := hholds.stored
  have hbody : (if request.method = "HEAD" then ContentBody.empty else .stream key) =
      .stream key := by
    rw [hget]
    exact if_neg (by decide)
  have hlater := ContentBody.chunks_flatten (hkept key _ hkey hread)
  rcases Option.map_eq_some_iff.mp hlater with ⟨chunks, hstream, hflatten⟩
  unfold artifactResponse
  rw [← hkey, storageKey?_value]
  simp only [hread, hbody]
  exact ⟨rfl, rfl, pieces, chunks, hchunks, hstream, hflatten, congrArg some hsize⟩

/-! ## The artifacts of a revision -/

section Rows

variable {db : Db} {revisionId : Uuid} {rows : List Artifact}

theorem Db.artifactsOf_perm
    (hrows : rows.Pairwise fun first second => first.nameKey ≠ second.nameKey)
    (hmem : ∀ artifact, artifact ∈ rows ↔
      artifact ∈ db.artifacts ∧ artifact.revisionId = revisionId) :
    (db.artifactsOf revisionId).Perm rows := by
  have hnodup : rows.Nodup := by
    apply hrows.imp
    intro first second hne heq
    exact hne (congrArg Artifact.nameKey heq)
  have hselected : (db.artifactsOf revisionId).Nodup := db.artifacts.nodup_rows.filter _
  rw [List.perm_ext_iff_of_nodup hselected hnodup]
  intro artifact
  rw [hmem, Db.artifactsOf, Table.mem_where?_iff, decide_eq_true_eq]

/-- The one HTML artifact among those of the revision. -/
theorem Db.artifactsOf_html (hperm : (db.artifactsOf revisionId).Perm rows)
    (hone : rows.countP (fun artifact => artifact.kind = .html) = 1) :
    ∃ artifact ∈ rows, artifact.kind = .html ∧
      ((db.artifactsOf revisionId).filter fun artifact => artifact.kind = .html) = [artifact] := by
  have hcount := hperm.countP_eq fun artifact => decide (artifact.kind = .html)
  rw [hone, List.countP_eq_length_filter, List.length_eq_one_iff] at hcount
  obtain ⟨artifact, hartifact⟩ := hcount
  have hfound : artifact ∈ (db.artifactsOf revisionId).filter fun artifact =>
      decide (artifact.kind = .html) := by rw [hartifact]; exact List.mem_singleton_self _
  rw [List.mem_filter, decide_eq_true_eq] at hfound
  exact ⟨artifact, hperm.mem_iff.mp hfound.1, hfound.2, hartifact⟩

theorem Db.artifactsOf_names (hperm : (db.artifactsOf revisionId).Perm rows)
    (hrows : rows.Pairwise fun first second => first.nameKey ≠ second.nameKey) :
    ((db.artifactsOf revisionId).map Artifact.nameKey).Nodup := by
  rw [(hperm.map Artifact.nameKey).nodup_iff, List.nodup_iff_pairwise_ne, List.pairwise_map]
  exact hrows

end Rows

/-! ## An upload and its deliveries -/

/-- The filename of a part decides its name and its types. -/
theorem UploadPart.Names.unique {tables : UnicodeTables} {part : UploadPart}
    {name other : LogicalName} {kind otherKind : ArtifactKind} {mediaType otherType : String}
    (hfirst : part.Names tables name kind mediaType)
    (hsecond : part.Names tables other otherKind otherType) :
    name = other ∧ kind = otherKind ∧ mediaType = otherType := by
  rcases hfirst with ⟨⟨filename, hfilename, hname⟩, stem, suffix, hsplit, hkind, htype⟩
  rcases hsecond with ⟨⟨again, hagain, hother⟩, otherStem, otherSuffix, hotherSplit, hotherKind,
    hotherType⟩
  have hsame : filename = again := Option.some.inj (hfilename.symm.trans hagain)
  subst hsame
  have heq : name = other := Except.ok.inj (hname.symm.trans hother)
  subst heq
  have hboth := Prod.mk.inj (Option.some.inj (hsplit.symm.trans hotherSplit))
  rw [← hboth.2] at hotherKind hotherType
  exact ⟨rfl, Option.some.inj (hkind.symm.trans hotherKind),
    Option.some.inj (htype.symm.trans hotherType)⟩

/-- Whether a path name asks for a part: the part is a supporting file and the two names have
one comparison key. -/
def UploadPart.AskedFor (tables : UnicodeTables) (part : UploadPart) (mediaType : String)
    (logicalName : Text) : Prop :=
  ∃ name kind normalized, part.Names tables name kind mediaType ∧ kind ∈ supportingKinds ∧
    normalizeLogicalName tables logicalName = .ok normalized ∧
      name.comparisonKey = normalized.comparisonKey

/-- The answers to a token whose revision was made from the parts of an upload, when the bodies
are read from these files. -/
structure ContentResponse.Answers (platform : Platform) (parts : List RawPart)
    (files : StorageFiles) (audience : Audience) (token path : Text)
    (response : ContentResponse) : Prop where
  html : contentRoute path = .html audience token →
    ∃ part name mediaType, RawPart.part part ∈ parts ∧
      part.Names platform.unicode name .html mediaType ∧ response.Carries files part mediaType
  supporting : ∀ logicalName part mediaType,
    contentRoute path = .artifact audience token logicalName → RawPart.part part ∈ parts →
      part.AskedFor platform.unicode mediaType logicalName →
        response.Carries files part mediaType
  missing : ∀ logicalName, contentRoute path = .artifact audience token logicalName →
    (∀ part mediaType, RawPart.part part ∈ parts →
      ¬ part.AskedFor platform.unicode mediaType logicalName) → response.status = 404

section Answers

variable {platform : Platform} {db : Db} {files later : StorageFiles} {parts : List RawPart}
  {rows : List Artifact} {target : LoadedAuthorization} {audience : Audience} {token : Text}
  {now : Time} {request : ContentRequest}

theorem get_allowed (hget : request.method = "GET") : ¬ request.method ∉ renderMethods := by
  rw [hget]
  decide

/-- The HTML artifact is delivered under the token alone. -/
theorem contentService_html
    (hparts : List.Forall₂ (fun raw artifact => ∃ part, raw = RawPart.part part ∧
      artifact.HoldsPart platform files part) parts rows)
    (hone : rows.countP (fun artifact => artifact.kind = .html) = 1)
    (hperm : (db.artifactsOf target.revision.id).Perm rows)
    (hkept : ∀ artifact ∈ rows, ∀ (key : StorageKey) (bytes : Bytes),
      key.value = artifact.storageKey → files.read key.finalPath = some bytes →
        later.read key.finalPath = some bytes)
    (hget : request.method = "GET")
    (hresolved : db.resolved platform audience token now = some target)
    (hroute : contentRoute request.path = .html audience token) :
    ∃ part name mediaType, RawPart.part part ∈ parts ∧
      part.Names platform.unicode name .html mediaType ∧
        (contentService platform db files now request).Carries later part mediaType := by
  rcases Db.artifactsOf_html hperm hone with ⟨artifact, hartifact, hkind, hfilter⟩
  rcases Table.exists_related_of_mem hparts.flip hartifact with ⟨raw, hraw, part, rfl, hheld⟩
  rcases hheld.named with ⟨name, hnames, _⟩
  rw [hkind] at hnames
  refine ⟨part, name, artifact.mediaType, hraw, hnames, ?_⟩
  simp only [contentService, hroute, renderHtml, if_neg (get_allowed hget), hresolved, hfilter]
  exact artifactResponse_carries hget hheld (hkept artifact hartifact)

/-- The supporting artifact of a part that is asked for. -/
theorem supportingArtifact_of_asked {part : UploadPart} {mediaType : String} {logicalName : Text}
    (hparts : List.Forall₂ (fun raw artifact => ∃ part, raw = RawPart.part part ∧
      artifact.HoldsPart platform files part) parts rows)
    (hdistinct : rows.Pairwise fun first second => first.nameKey ≠ second.nameKey)
    (hperm : (db.artifactsOf target.revision.id).Perm rows)
    (hpart : RawPart.part part ∈ parts)
    (hasked : part.AskedFor platform.unicode mediaType logicalName) :
    ∃ key, ∃ artifact ∈ rows, artifact.HoldsPart platform files part ∧
      artifact.mediaType = mediaType ∧
        supportingArtifact platform.unicode (db.artifactsOf target.revision.id) logicalName =
          some (key, artifact) := by
  rcases hasked with ⟨name, kind, normalized, hnames, hkind, hnormalized, hkey⟩
  rcases Table.exists_related_of_mem hparts hpart with ⟨artifact, hartifact, held, heq, hheld⟩
  cases RawPart.part.inj heq
  rcases hheld.named with ⟨other, hother, _, hnameKey⟩
  rcases hnames.unique hother with ⟨rfl, rfl, rfl⟩
  let tables : UploadTables := ⟨platform.unicode, fun _ => false, fun _ => false⟩
  have hname : normalizeLogicalName tables.unicode logicalName = .ok normalized := hnormalized
  exact ⟨normalized.comparisonKey, artifact, hartifact, hheld, rfl,
    supportingArtifact_eq hname (Db.artifactsOf_names hperm hdistinct)
      (hperm.mem_iff.mpr hartifact) hkind (hnameKey.trans hkey)⟩

/-- No artifact answers a name that asks for no part. -/
theorem supportingArtifact_of_not_asked {logicalName : Text}
    (hparts : List.Forall₂ (fun raw artifact => ∃ part, raw = RawPart.part part ∧
      artifact.HoldsPart platform files part) parts rows)
    (hperm : (db.artifactsOf target.revision.id).Perm rows)
    (hnone : ∀ part mediaType, RawPart.part part ∈ parts →
      ¬ part.AskedFor platform.unicode mediaType logicalName) :
    supportingArtifact platform.unicode (db.artifactsOf target.revision.id) logicalName = none := by
  unfold supportingArtifact
  cases hnormalized : normalizeLogicalName platform.unicode logicalName with
  | error message => rfl
  | ok normalized =>
      have hempty : (db.artifactsOf target.revision.id).filter (fun artifact =>
          artifact.kind ∈ supportingKinds ∧
            artifact.nameKey = normalized.comparisonKey) = [] := by
        rw [List.filter_eq_nil_iff]
        intro artifact hartifact hselected
        rw [decide_eq_true_eq] at hselected
        rcases Table.exists_related_of_mem hparts.flip (hperm.mem_iff.mp hartifact) with
          ⟨raw, hraw, part, rfl, hheld⟩
        rcases hheld.named with ⟨name, hnames, _, hnameKey⟩
        apply hnone part artifact.mediaType hraw
        exact ⟨name, artifact.kind, normalized, hnames, hselected.1, hnormalized,
          hnameKey.symm.trans hselected.2⟩
      simp only [hempty]

/-- A revision that holds the parts of an upload answers for them. -/
theorem contentService_answers
    (hparts : List.Forall₂ (fun raw artifact => ∃ part, raw = RawPart.part part ∧
      artifact.HoldsPart platform files part) parts rows)
    (hone : rows.countP (fun artifact => artifact.kind = .html) = 1)
    (hdistinct : rows.Pairwise fun first second => first.nameKey ≠ second.nameKey)
    (hmem : ∀ artifact, artifact ∈ rows ↔
      artifact ∈ db.artifacts ∧ artifact.revisionId = target.revision.id)
    (hkept : ∀ artifact ∈ rows, ∀ (key : StorageKey) (bytes : Bytes),
      key.value = artifact.storageKey → files.read key.finalPath = some bytes →
        later.read key.finalPath = some bytes)
    (hget : request.method = "GET")
    (hresolved : db.resolved platform audience token now = some target) :
    (contentService platform db files now request).Answers platform parts later audience token
      request.path := by
  have hperm := Db.artifactsOf_perm hdistinct hmem
  constructor
  · exact contentService_html hparts hone hperm hkept hget hresolved
  · intro logicalName part mediaType hroute hpart hasked
    rcases supportingArtifact_of_asked hparts hdistinct hperm hpart hasked with
      ⟨key, artifact, hartifact, hheld, hmedia, hsupporting⟩
    subst hmedia
    simp only [contentService, hroute, renderArtifact, if_neg (get_allowed hget), hresolved,
      hsupporting]
    exact (artifactResponse_carries hget hheld (hkept artifact hartifact)).forOrigin _
  · intro logicalName hroute hnone
    have hsupporting := supportingArtifact_of_not_asked hparts hperm hnone
    simp only [contentService, hroute, renderArtifact, if_neg (get_allowed hget), hresolved,
      hsupporting]
    rfl

end Answers

section Uploads

variable {π : Type} {tables : UploadTables} {parser : HtmlParser π} {device : StagingDevice}
  {platform : Platform} {limits : UploadLimits} {parts : List RawPart} {staged : StagedUpload}

/-- Once `create_upload_revision` has been answered, a GET request under a token that is current
for the revision is answered with the part that the path names: the token alone with the HTML
part, a name with the supporting part of the same comparison key, any other name with 404.  The
body is the bytes of the part, whenever it is read after that. -/
theorem uploaded_parts_are_served {session : UploadSession}
    {first served last : Configuration UploadStore UploadParty}
    {events laterEvents : List (PartyEvent UploadStore UploadParty UploadLabel)} {index : ℕ}
    {revision : Revision} {request : ContentRequest} {audience : Audience} {token : Text}
    {now : Time} {target : LoadedAuthorization} (hsame : tables.unicode = platform.unicode)
    (hlaws : NameLaws platform.unicode)
    (haccept : stageUpload tables parser device platform.sha256 limits parts = .ok staged)
    (hreach : ((uploadSystem platform).sparing (UploadStore.Spares platform)).Reachable first)
    (hparty : first.parties[index]? = some (.upload session))
    (hpayloads : session.payloads.map Prod.fst = staged.payloads)
    (hfinished : session.phase = .finished revision)
    (hserved : ((uploadSystem platform).sparing
      (UploadStore.Spares platform)).transitions.Path first events served)
    (hlast : ((uploadSystem platform).sparing
      (UploadStore.Spares platform)).transitions.Path served laterEvents last)
    (hget : request.method = "GET")
    (hresolved : served.store.db.resolved platform audience token now = some target)
    (hpinned : target.revision.id = revision.id) :
    (contentService platform served.store.db served.store.files now request).Answers platform parts
      last.store.files audience token request.path := by
  have hdelivers := uploadSystem_keepsDelivered hreach hserved
    (delivers_of_answered hreach hparty hfinished)
  rcases hdelivers.artifacts with ⟨rows, hdelivered, hdistinct, hmem⟩
  have hnamed := ((uploadSystem_intact.holds hreach).party index _ hparty).linked.named
  rcases Artifact.Delivers.holdsParts hsame hlaws haccept hpayloads hnamed hdelivered with
    ⟨hparts, hone⟩
  have hkeeps := uploadSystem_keepsCommitted
    (PartySystem.Reachable.of_sparing (hreach.path hserved)) (PartySystem.Path.of_sparing hlast)
  apply contentService_answers hparts hone hdistinct
  · rw [hpinned]
    exact hmem
  · intro artifact hartifact key bytes hkey
    apply hkeeps.files key
    exact Db.artifactOwns_iff.mpr ⟨artifact, ((hmem artifact).mp hartifact).1, hkey.symm⟩
  · exact hget
  · exact hresolved

end Uploads

/-- The database after the owner has asked for a preview of the uploaded revision. -/
def smallPreview (db : Db) : Db :=
  { db with authorizations := ((issueOwnerPreview smallPlatform (contextAt 6 8) firstToken 3 6 1
    6).settle db).authorizations }

def smallRequest : ContentRequest :=
  ⟨"GET", "/render/preview/".toList ++ List.replicate 43 'A' ++ ['/'], none⟩

theorem small_upload_is_served :
    ∃ state, (uploadSystem smallPlatform).run smallConfiguration smallSteps = some state ∧
      contentRoute smallRequest.path = .html .preview (List.replicate 43 'A') ∧
        (contentService smallPlatform (smallPreview state.store.db) state.store.files 7
          smallRequest).Answers smallPlatform (smallUpload ["a", "", "\n"]) state.store.files
            .preview (List.replicate 43 'A') smallRequest.path := by
  have hresult : (((uploadSystem smallPlatform).run smallConfiguration smallSteps).bind
      fun state => state.parties[0]?.bind fun party => party.revision?.bind fun revision =>
        ((smallPreview state.store.db).resolved smallPlatform .preview (List.replicate 43 'A')
          7).map fun target => (revision.id, target.revision.id, party.requested)) =
            some (6, 6, smallStaged.payloads) := by
    decide +kernel
  rcases Option.bind_eq_some_iff.mp hresult with ⟨state, hrun, hstate⟩
  rcases Option.bind_eq_some_iff.mp hstate with ⟨party, hparty, hanswered⟩
  rcases Option.bind_eq_some_iff.mp hanswered with ⟨revision, hfinished, hlater⟩
  rcases Option.map_eq_some_iff.mp hlater with ⟨target, hresolved, hall⟩
  rcases UploadParty.of_revision? hfinished with ⟨session, rfl, hphase⟩
  rw [Prod.mk.injEq, Prod.mk.injEq] at hall
  have hstage : stageUpload asciiUploadTables emptyDocumentParser smallDevice smallPlatform.sha256
      .default (smallUpload ["a", "", "\n"]) = .ok smallStaged := stageUpload_small
  have hissued : ((uploadSystem smallPlatform).sparing
      (UploadStore.Spares smallPlatform)).environment state.store
        { state.store with db := smallPreview state.store.db } :=
    ⟨smallPreview state.store.db, rfl, rfl, rfl, rfl⟩
  have hget : smallRequest.method = "GET" := rfl
  have hserved := uploaded_parts_are_served rfl asciiTables_nameLaws hstage
    (smallConfiguration_run hrun) hparty
    hall.2.2 hphase (.single (.environment hissued)) (.refl _) hget hresolved
    (hall.2.1.trans hall.1.symm)
  exact ⟨state, hrun, by decide, hserved⟩

end Agora
