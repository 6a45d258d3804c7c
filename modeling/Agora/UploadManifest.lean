import Agora.RevisionServices
import Agora.TextPatterns
import Agora.UploadIssues
import Agora.Utf8Decoding

/-!
# The manifest of an upload

Each part of an upload gets a canonical name, a kind and a media type from its filename.  A
declared media type may agree with them, but decides nothing.
-/

namespace Agora

/-- The library functions of the upload validator that are not computed here: the Unicode
tables, `str.isalnum`, and the check that `urlsplit` makes of a network location. -/
structure UploadTables where
  unicode : UnicodeTables
  isAlnum : Char → Bool
  refusesNetloc : Text → Bool

/-- `\w` of a pattern. -/
def UploadTables.isWord (tables : UploadTables) (c : Char) : Bool :=
  tables.isAlnum c || c == '_'

/-! ## Parts -/

/-- The object that a part has as its filename. -/
inductive PartFilename where
  | text (value : Text)
  | bytes (value : Bytes)
  /-- A string that UTF-8 cannot encode, or an object of another type. -/
  | other

inductive DeclaredMediaType where
  | absent
  | text (value : Text)
  | other

structure UploadPart where
  filename : PartFilename
  /-- What the byte stream yields; none where it cannot be opened. -/
  chunks : Option (List Chunk)
  mediaType : DeclaredMediaType

/-- What the iterator of the parts yields next. -/
inductive RawPart where
  | part (value : UploadPart)
  | other
  | raises

structure ManifestEntry where
  index : ℕ
  part : UploadPart
  kind : UploadKind
  name : LogicalName
  mediaType : String

/-! ## Names, kinds and media types -/

def invalidFilename (index : ℕ) : UploadIssue :=
  ⟨.invalidFilename, some index, some .filename⟩

/-- The filename as a text. -/
def PartFilename.decoded : PartFilename → Option Text
  | .text value => some value
  | .bytes value => Utf8.decode value
  | .other => none

def normalizePartFilename (tables : UploadTables) (index : ℕ) (raw : PartFilename) :
    Except UploadIssue LogicalName :=
  match raw.decoded.map (normalizeLogicalName tables.unicode) with
  | some (.ok name) => .ok name
  | _ => .error (invalidFilename index)

/-- The text before the last dot and the text after it. -/
def splitExtension (filename : Text) : Option (Text × Text) :=
  if '.' ∈ filename then
    some ((filename.reverse.dropWhile (· ≠ '.')).tail.reverse,
      (filename.reverse.takeWhile (· ≠ '.')).reverse)
  else none

/-- A word of a pattern that ignores the case. -/
def patternWord (word : String) : TextPattern :=
  .text TextPattern.sameIgnoringCase word.toList

/-- `_KNOWN_EXTENSION_SEGMENT_RE`. -/
def knownExtensionSegment : TextPattern :=
  .all [patternWord ".",
    .any [patternWord "html", patternWord "csv", patternWord "css", patternWord "png",
      .all [patternWord "jp", .maybe (patternWord "e"), patternWord "g"], patternWord "gif",
      patternWord "webp", .all [patternWord "woff", .maybe (patternWord "2")]],
    .either (patternWord ".") .textEnd]

def extensionMismatch (index : ℕ) : UploadIssue :=
  ⟨.extensionMismatch, some index, some .filename⟩

/-- The entry of an extension table. -/
def extensionEntry {α : Type} (table : List (String × α)) (suffix : Text) : Option α :=
  (table.find? fun entry => entry.1.toList = suffix).map Prod.snd

def classifyFilename (tables : UploadTables) (index : ℕ) (filename : Text) :
    Except UploadIssue UploadKind := do
  match splitExtension filename with
  | none => .error (extensionMismatch index)
  | some (stem, suffix) =>
      refuse (stem = []) (extensionMismatch index)
      refuse (knownExtensionSegment.occursIn tables.isWord (tables.unicode.casefold stem) = true)
        (extensionMismatch index)
      match extensionEntry uploadExtensionToKind (tables.unicode.casefold suffix) with
      | none => .error (extensionMismatch index)
      | some kind => .ok kind

def mediaTypeForFilename (tables : UploadTables) (index : ℕ) (filename : Text) :
    Except UploadIssue String :=
  let suffix :=
    match splitExtension filename with
    | none => []
    | some (_, suffix) => tables.unicode.casefold suffix
  match extensionEntry uploadExtensionToMediaType suffix with
  | none => .error (extensionMismatch index)
  | some mediaType => .ok mediaType

/-- `_DECLARED_MEDIA_TYPE_ALIASES`. -/
def declaredMediaTypeAliases : UploadKind → List String
  | .html => []
  | .csv => ["application/vnd.ms-excel"]
  | .css => []
  | .image => ["application/octet-stream"]
  | .font => ["application/octet-stream", "application/font-woff"]

def mediaTypeMismatch (index : ℕ) : UploadIssue :=
  ⟨.mediaTypeMismatch, some index, some .mediaType⟩

/-- Whether a parameter of a declared media type is `charset=utf-8`. -/
def isUtf8Charset (tables : UnicodeTables) (parameter : Text) : Bool :=
  let key := parameter.takeWhile (· ≠ '=')
  let value := (parameter.dropWhile (· ≠ '=')).tail
  parameter.contains '=' && tables.casefold key == "charset".toList &&
    tables.casefold (removeQuotes (strip value)) == "utf-8".toList

def validateDeclaredMediaType (tables : UploadTables) (index : ℕ) (raw : DeclaredMediaType)
    (kind : UploadKind) (expected : String) : Except UploadIssue PUnit :=
  match raw with
  | .absent => .ok ⟨⟩
  | .other => .error (mediaTypeMismatch index)
  | .text value => do
      refuse (strip value = []) (mediaTypeMismatch index)
      let pieces := (value.splitOn ';').map strip
      let mediaType := tables.unicode.casefold (pieces.headD [])
      refuse (∀ accepted ∈ expected :: declaredMediaTypeAliases kind, accepted.toList ≠ mediaType)
        (mediaTypeMismatch index)
      refuse (kind ∉ textKinds ∧ 1 < pieces.length) (mediaTypeMismatch index)
      refuse (∃ parameter ∈ pieces.tail, isUtf8Charset tables.unicode parameter = false)
        (mediaTypeMismatch index)

/-! ## The manifest -/

/-- The entry of one part, before its name is compared with the others. -/
def manifestEntry (tables : UploadTables) (index : ℕ) (raw : RawPart) :
    Except UploadIssue ManifestEntry :=
  match raw with
  | .part part => do
      let name ← normalizePartFilename tables index part.filename
      let kind ← classifyFilename tables index name.display
      let mediaType ← mediaTypeForFilename tables index name.display
      validateDeclaredMediaType tables index part.mediaType kind mediaType
      .ok ⟨index, part, kind, name, mediaType⟩
  | _ => .error ⟨.malformedMultipart, some index, none⟩

/-- The entries of the parts from an index on, given the names seen before. -/
def manifestEntries (tables : UploadTables) (limits : UploadLimits) :
    ℕ → List Text → List RawPart → Except UploadIssue (List ManifestEntry)
  | _, _, [] => .ok []
  | index, _, .raises :: _ => .error ⟨.malformedMultipart, some index, none⟩
  | index, seen, raw :: rest => do
      refuse (limits.maxFiles ≤ index) ⟨.tooManyFiles, some index, none⟩
      let entry ← manifestEntry tables index raw
      refuse (entry.name.comparisonKey ∈ seen) ⟨.duplicateFilename, some index, none⟩
      let entries ←
        manifestEntries tables limits (index + 1) (entry.name.comparisonKey :: seen) rest
      .ok (entry :: entries)

def buildManifest (tables : UploadTables) (limits : UploadLimits) (parts : List RawPart) :
    Except UploadIssue (List ManifestEntry) := do
  let manifest ← manifestEntries tables limits 0 [] parts
  let htmlCount := manifest.countP fun entry => entry.kind = .html
  refuse (htmlCount = 0) ⟨.missingHtml, none, none⟩
  refuse (1 < htmlCount) ⟨.multipleHtml, none, none⟩
  .ok manifest

/-! ## What an accepted manifest is -/

def ManifestEntry.key (entry : ManifestEntry) : Text :=
  entry.name.comparisonKey

/-- The name comes from the filename, the kind and the media type from one extension. -/
structure ManifestEntry.Accepted (tables : UploadTables) (entry : ManifestEntry) : Prop where
  named : ∃ filename, entry.part.filename.decoded = some filename ∧
    normalizeLogicalName tables.unicode filename = .ok entry.name
  typed : ∃ suffix, extensionEntry uploadExtensionToKind suffix = some entry.kind ∧
    extensionEntry uploadExtensionToMediaType suffix = some entry.mediaType

structure Manifest (tables : UploadTables) (limits : UploadLimits) (parts : List RawPart)
    (entries : List ManifestEntry) : Prop where
  parts_eq : parts = entries.map fun entry => .part entry.part
  indices : entries.map ManifestEntry.index = List.range entries.length
  accepted : ∀ entry ∈ entries, entry.Accepted tables
  distinct : (entries.map ManifestEntry.key).Nodup
  bounded : entries.length ≤ limits.maxFiles
  oneHtml : entries.countP (fun entry => entry.kind = .html) = 1

section Accepted

variable {tables : UploadTables} {limits : UploadLimits} {index : ℕ} {seen : List Text}
  {raw : RawPart} {parts : List RawPart} {entry : ManifestEntry} {entries : List ManifestEntry}

theorem normalizePartFilename_ok {filename : PartFilename} {name : LogicalName}
    (haccept : normalizePartFilename tables index filename = .ok name) :
    ∃ value, filename.decoded = some value ∧
      normalizeLogicalName tables.unicode value = .ok name := by
  unfold normalizePartFilename at haccept
  cases hdecoded : filename.decoded with
  | none => simp [hdecoded] at haccept
  | some value =>
      cases hname : normalizeLogicalName tables.unicode value with
      | error message => simp [hdecoded, hname] at haccept
      | ok found =>
          simp only [hdecoded, hname, Option.map_some, Except.ok.injEq] at haccept
          exact ⟨value, rfl, by rw [hname, haccept]⟩

theorem classifyFilename_ok {filename : Text} {kind : UploadKind}
    (haccept : classifyFilename tables index filename = .ok kind) :
    ∃ stem suffix, splitExtension filename = some (stem, suffix) ∧
      extensionEntry uploadExtensionToKind (tables.unicode.casefold suffix) = some kind := by
  unfold classifyFilename at haccept
  cases hsplit : splitExtension filename with
  | none => simp [hsplit] at haccept
  | some parts =>
      simp only [hsplit, bind_eq_ok_iff] at haccept
      obtain ⟨_, _, _, _, hentry⟩ := haccept
      refine ⟨parts.1, parts.2, rfl, ?_⟩
      cases hkind : extensionEntry uploadExtensionToKind (tables.unicode.casefold parts.2) with
      | none => simp [hkind] at hentry
      | some found =>
          rw [hkind, Except.ok.injEq] at hentry
          rw [hentry]

theorem mediaTypeForFilename_ok {filename mediaType : _}
    (haccept : mediaTypeForFilename tables index filename = .ok mediaType) {stem suffix : Text}
    (hsplit : splitExtension filename = some (stem, suffix)) :
    extensionEntry uploadExtensionToMediaType (tables.unicode.casefold suffix) =
      some mediaType := by
  simp only [mediaTypeForFilename, hsplit] at haccept
  cases hentry : extensionEntry uploadExtensionToMediaType (tables.unicode.casefold suffix) with
  | none => simp [hentry] at haccept
  | some found =>
      rw [hentry, Except.ok.injEq] at haccept
      rw [haccept]

theorem manifestEntry_ok (haccept : manifestEntry tables index raw = .ok entry) :
    raw = .part entry.part ∧ entry.index = index ∧ entry.Accepted tables := by
  cases raw with
  | other => simp [manifestEntry] at haccept
  | raises => simp [manifestEntry] at haccept
  | part part =>
      simp only [manifestEntry, bind_eq_ok_iff, Except.ok.injEq] at haccept
      obtain ⟨name, hname, kind, hkind, mediaType, hmediaType, _, _, rfl⟩ := haccept
      obtain ⟨filename, hfilename, hnormalized⟩ := normalizePartFilename_ok hname
      obtain ⟨stem, suffix, hsplit, hentry⟩ := classifyFilename_ok hkind
      exact ⟨rfl, rfl, ⟨filename, hfilename, hnormalized⟩,
        ⟨_, hentry, mediaTypeForFilename_ok hmediaType hsplit⟩⟩

theorem manifestEntries_ok
    (haccept : manifestEntries tables limits index seen parts = .ok entries) :
    parts = entries.map (fun entry => .part entry.part) ∧
      entries.map ManifestEntry.index = List.range' index entries.length ∧
        (∀ entry ∈ entries, entry.Accepted tables) ∧
          (∀ entry ∈ entries, entry.key ∉ seen) ∧ (entries.map ManifestEntry.key).Nodup ∧
            (entries ≠ [] → index + entries.length ≤ limits.maxFiles) := by
  induction parts generalizing index seen entries with
  | nil =>
      rw [manifestEntries, Except.ok.injEq] at haccept
      rw [← haccept]
      simp
  | cons raw rest ih =>
      have hunfolded : (do
          refuse (limits.maxFiles ≤ index) ⟨.tooManyFiles, some index, none⟩
          let entry ← manifestEntry tables index raw
          refuse (entry.name.comparisonKey ∈ seen) ⟨.duplicateFilename, some index, none⟩
          let entries ← manifestEntries tables limits (index + 1)
            (entry.name.comparisonKey :: seen) rest
          .ok (entry :: entries)) = Except.ok entries := by
        cases raw with
        | raises => simp [manifestEntries] at haccept
        | other => exact haccept
        | part value => exact haccept
      simp only [bind_eq_ok_iff, refuse_eq_ok, not_le, Except.ok.injEq] at hunfolded
      obtain ⟨_, hindex, first, hfirst, _, hfresh, later, hlater, rfl⟩ := hunfolded
      obtain ⟨rfl, rfl, haccepted⟩ := manifestEntry_ok hfirst
      obtain ⟨rfl, hindices, hlaterAccepted, hunseen, hnodup, hbounded⟩ := ih hlater
      refine ⟨rfl, ?_, ?_, ?_, ?_, ?_⟩
      · rw [List.map_cons, hindices, List.length_cons, List.range'_succ]
      · intro entry hentry
        cases List.mem_cons.mp hentry with
        | inl heq => rwa [heq]
        | inr hlater => exact hlaterAccepted entry hlater
      · intro entry hentry
        cases List.mem_cons.mp hentry with
        | inl heq => rwa [heq]
        | inr hlater => exact fun hseen => hunseen entry hlater (List.mem_cons_of_mem _ hseen)
      · rw [List.map_cons, List.nodup_cons]
        refine ⟨?_, hnodup⟩
        intro hrepeated
        obtain ⟨entry, hentry, hkey⟩ := List.mem_map.mp hrepeated
        exact hunseen entry hentry (by rw [hkey]; exact List.mem_cons_self)
      · intro _
        rw [List.length_cons]
        cases later with
        | nil => simpa using hindex
        | cons _ _ =>
            have hrest := hbounded (List.cons_ne_nil _ _)
            omega

theorem manifest_of_buildManifest (haccept : buildManifest tables limits parts = .ok entries) :
    Manifest tables limits parts entries := by
  simp only [buildManifest, bind_eq_ok_iff, refuse_eq_ok, Except.ok.injEq, not_lt] at haccept
  obtain ⟨found, hentries, _, hsome, _, hone, rfl⟩ := haccept
  obtain ⟨hparts, hindices, haccepted, _, hnodup, hbounded⟩ := manifestEntries_ok hentries
  refine ⟨hparts, ?_, haccepted, hnodup, ?_, by omega⟩
  · rw [hindices, List.range_eq_range']
  · by_cases hempty : found = []
    · rw [hempty]
      exact Nat.zero_le _
    · simpa using hbounded hempty

/-- The two extension tables agree with the media types of the kinds. -/
theorem ManifestEntry.Accepted.mediaType_mem (haccepted : entry.Accepted tables) :
    entry.mediaType ∈ artifactMediaTypes entry.kind := by
  obtain ⟨suffix, hkind, hmediaType⟩ := haccepted.typed
  have hagree : ∀ found ∈ uploadExtensionToKind, ∀ mediaType,
      extensionEntry uploadExtensionToMediaType found.1.toList = some mediaType →
        mediaType ∈ artifactMediaTypes found.2 := by
    intro found hfound mediaType hentry
    have hall : ∀ found ∈ uploadExtensionToKind,
        (extensionEntry uploadExtensionToMediaType found.1.toList).all fun mediaType =>
          decide (mediaType ∈ artifactMediaTypes found.2) := by decide +kernel
    have hone := hall found hfound
    rw [hentry, Option.all_some] at hone
    exact of_decide_eq_true hone
  rw [extensionEntry, Option.map_eq_some_iff] at hkind
  obtain ⟨found, hfind, hfound⟩ := hkind
  have hsuffix : found.1.toList = suffix := by simpa using List.find?_some hfind
  rw [← hsuffix] at hmediaType
  rw [← hfound]
  exact hagree found (List.mem_of_find?_eq_some hfind) _ hmediaType

end Accepted

end Agora
