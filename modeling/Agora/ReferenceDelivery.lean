import Agora.AssetReferences
import Agora.ServiceRuns

/-!
# References at view time

A browser cleans a relative reference and escapes it, the content route decodes one segment
of the path, and the view looks its canonical name up among the artifacts of the revision.
A reference that was accepted at upload leads to the file that it was resolved to.
-/

namespace Agora

/-! ## The request of a browser -/

/-- The characters of a path that a browser escapes. -/
def browserEscapes (c : Char) : Bool :=
  c.toNat ≤ 32 || 126 < c.toNat || ['"', '#', '<', '>', '?', '^', '`', '{', '}'].contains c

def hexDigit (value : ℕ) : Char :=
  Char.ofNat (if value < 10 then 48 + value else 55 + value)

def escapeByte (byte : UInt8) : Text :=
  ['%', hexDigit (byte.toNat / 16), hexDigit (byte.toNat % 16)]

def escapeSegment (segment : Text) : Text :=
  segment.flatMap fun c =>
    if browserEscapes c then (String.utf8EncodeChar c).flatMap escapeByte else [c]

/-- The last segment of the path that a browser requests for a relative reference. -/
def requestedSegment (raw : Text) : Text :=
  escapeSegment (dropDotSlash (cleanUrl raw))

/-! ## The route and the view -/

/-- The logical name that the route `<str:logical_name>` takes from a segment; none where its
bytes are not UTF-8 or the decoded text is empty or has a slash. -/
def routedName (segment : Text) : Option Text :=
  (Utf8.decode (unquoteToBytes segment)).filter fun name => name ≠ [] ∧ '/' ∉ name

/-- The artifact of `_render_supporting_artifact`, and the key that it is looked up with. -/
def supportingArtifact (tables : UnicodeTables) (artifacts : List Artifact) (logicalName : Text) :
    Option (Text × Artifact) :=
  match normalizeLogicalName tables logicalName with
  | .error _ => none
  | .ok normalized =>
      match artifacts.filter fun artifact =>
          artifact.kind ∈ supportingKinds ∧ artifact.nameKey = normalized.comparisonKey with
      | [artifact] => some (normalized.comparisonKey, artifact)
      | _ => none

/-! ## Escapes are decoded once -/

theorem unquoteToBytes_escape {rest later : Text} {byte : UInt8}
    (hescape : percentEscape rest = some (byte, later)) :
    unquoteToBytes ('%' :: rest) = byte :: unquoteToBytes later := by
  have hlater : ∃ first second, rest = first :: second :: later := by
    match rest, hescape with
    | first :: second :: tail, hescape =>
        simp only [percentEscape] at hescape
        split at hescape
        · simp only [Option.some.injEq, Prod.mk.injEq] at hescape
          exact ⟨first, second, by rw [hescape.2]⟩
        · cases hescape
  obtain ⟨first, second, hrest⟩ := hlater
  simp only [unquoteToBytes, unquoteFrom, if_true, hescape]
  rw [hrest]
  rfl

theorem unquoteToBytes_plain {c : Char} {rest : Text}
    (hplain : c = '%' → percentEscape rest = none) :
    unquoteToBytes (c :: rest) = String.utf8EncodeChar c ++ unquoteToBytes rest := by
  have hnone : (if c = '%' then percentEscape rest else none) = none := by
    by_cases hpercent : c = '%'
    · rw [if_pos hpercent, hplain hpercent]
    · rw [if_neg hpercent]
  rw [unquoteToBytes, unquoteFrom, hnone]
  rfl

theorem hexValue_hexDigit {value : ℕ} (hvalue : value < 16) :
    hexValue (hexDigit value) = some value := by
  have hall : ∀ value < 16, hexValue (hexDigit value) = some value := by decide
  exact hall value hvalue

theorem percentEscape_digits {byte : UInt8} {rest : Text} :
    percentEscape (hexDigit (byte.toNat / 16) :: hexDigit (byte.toNat % 16) :: rest) =
      some (byte, rest) := by
  have hbyte : byte.toNat < 256 := byte.toNat_lt
  have hvalue : byte.toNat / 16 * 16 + byte.toNat % 16 = byte.toNat := by omega
  simp only [percentEscape, hexValue_hexDigit (show byte.toNat / 16 < 16 by omega),
    hexValue_hexDigit (show byte.toNat % 16 < 16 by omega), hvalue, UInt8.ofNat_toNat]

theorem unquoteToBytes_escapeBytes {bytes : Bytes} {rest : Text} :
    unquoteToBytes (bytes.flatMap escapeByte ++ rest) = bytes ++ unquoteToBytes rest := by
  induction bytes with
  | nil => rfl
  | cons byte bytes ih =>
      rw [List.flatMap_cons, List.append_assoc, escapeByte, List.cons_append, List.cons_append,
        List.cons_append, List.nil_append, unquoteToBytes_escape percentEscape_digits, ih,
        List.cons_append]

theorem browserEscapes_of_hexValue {c : Char} {value : ℕ} (hvalue : hexValue c = some value) :
    browserEscapes c = false := by
  have hrange : (48 ≤ c.toNat ∧ c.toNat ≤ 57) ∨ (97 ≤ c.toNat ∧ c.toNat ≤ 102) ∨
      (65 ≤ c.toNat ∧ c.toNat ≤ 70) := by
    simp only [hexValue, isAsciiDigit, Bool.and_eq_true, decide_eq_true_eq, Char.le_def] at hvalue
    split_ifs at hvalue with hdigit hlower hupper
    · left
      exact hdigit
    · right
      left
      exact hlower
    · right
      right
      exact hupper
  have hall : ∀ code < 128, ((48 ≤ code ∧ code ≤ 57) ∨ (97 ≤ code ∧ code ≤ 102) ∨
      (65 ≤ code ∧ code ≤ 70)) → browserEscapes (Char.ofNat code) = false := by
    decide
  have hchar := hall c.toNat (by omega) hrange
  rwa [Char.ofNat_toNat] at hchar

theorem hexValue_of_escapes {c : Char} (hescapes : browserEscapes c = true) :
    hexValue c = none := by
  cases hvalue : hexValue c with
  | none => rfl
  | some value =>
      rw [browserEscapes_of_hexValue hvalue] at hescapes
      cases hescapes

theorem escapeSegment_cons {c : Char} {rest : Text} :
    escapeSegment (c :: rest) =
      (if browserEscapes c then (String.utf8EncodeChar c).flatMap escapeByte else [c]) ++
        escapeSegment rest :=
  List.flatMap_cons ..

/-- An escaped character starts with a percent sign. -/
theorem escapeSegment_escaped {c : Char} {rest : Text} (hescapes : browserEscapes c = true) :
    ∃ later, escapeSegment (c :: rest) = '%' :: later := by
  rw [escapeSegment_cons, if_pos hescapes]
  cases hbytes : String.utf8EncodeChar c with
  | nil => exact absurd hbytes String.utf8EncodeChar_ne_nil
  | cons byte bytes => exact ⟨_, by rw [List.flatMap_cons]; rfl⟩

theorem escapeSegment_plain {c : Char} {rest : Text} (hplain : browserEscapes c = false) :
    escapeSegment (c :: rest) = c :: escapeSegment rest := by
  rw [escapeSegment_cons, hplain]
  rfl

/-- Escaping a segment keeps the escapes that it has, and makes no new ones of its own. -/
theorem percentEscape_escapeSegment {text : Text} :
    percentEscape (escapeSegment text) =
      (percentEscape text).map fun found => (found.1, escapeSegment found.2) := by
  have hnone : ∀ later : Text, percentEscape ('%' :: later) = none := by
    intro later
    have hpercent : hexValue '%' = none := by decide
    cases later with
    | nil => rfl
    | cons second tail => simp [percentEscape, hpercent]
  cases text with
  | nil => rfl
  | cons first rest =>
      by_cases hfirst : browserEscapes first = true
      · obtain ⟨later, hlater⟩ := @escapeSegment_escaped first rest hfirst
        rw [hlater, hnone]
        cases rest with
        | nil => rfl
        | cons second tail => simp [percentEscape, hexValue_of_escapes hfirst]
      · rw [Bool.not_eq_true] at hfirst
        rw [escapeSegment_plain hfirst]
        cases rest with
        | nil => rfl
        | cons second tail =>
            by_cases hsecond : browserEscapes second = true
            · obtain ⟨later, hlater⟩ := @escapeSegment_escaped second tail hsecond
              have hpercent : hexValue '%' = none := by decide
              rw [hlater]
              simp [percentEscape, hexValue_of_escapes hsecond, hpercent]
            · rw [Bool.not_eq_true] at hsecond
              rw [escapeSegment_plain hsecond]
              simp only [percentEscape]
              cases hexValue first with
              | none => rfl
              | some high =>
                  cases hexValue second with
                  | none => rfl
                  | some low => rfl

theorem length_of_percentEscape {rest later : Text} {byte : UInt8}
    (hescape : percentEscape rest = some (byte, later)) : later.length < rest.length := by
  match rest, hescape with
  | first :: second :: tail, hescape =>
      simp only [percentEscape] at hescape
      split at hescape
      · simp only [Option.some.injEq, Prod.mk.injEq] at hescape
        rw [← hescape.2, List.length_cons, List.length_cons]
        omega
      · cases hescape

/-- The server decodes from the escaped segment what the reference itself says. -/
theorem unquoteToBytes_escapeSegment (text : Text) :
    unquoteToBytes (escapeSegment text) = unquoteToBytes text := by
  induction hlength : text.length using Nat.strong_induction_on generalizing text with
  | _ length ih =>
      cases text with
      | nil => rfl
      | cons c rest =>
          rw [List.length_cons] at hlength
          have hrest := ih rest.length (by omega) rest rfl
          by_cases hescapes : browserEscapes c = true
          · have hpercent : c ≠ '%' := by
              rintro rfl
              revert hescapes
              decide
            rw [escapeSegment_cons, if_pos hescapes, unquoteToBytes_escapeBytes, hrest,
              unquoteToBytes_plain fun heq => absurd heq hpercent]
          · rw [Bool.not_eq_true] at hescapes
            rw [escapeSegment_plain hescapes]
            by_cases hpercent : c = '%'
            · rw [hpercent]
              cases hescape : percentEscape rest with
              | none =>
                  rw [unquoteToBytes_plain (fun _ => hescape),
                    unquoteToBytes_plain
                      (fun _ => by rw [percentEscape_escapeSegment, hescape]; rfl),
                    hrest]
              | some found =>
                  have hshorter := length_of_percentEscape hescape
                  have hlater := ih found.2.length (by omega) found.2 rfl
                  rw [unquoteToBytes_escape hescape,
                    @unquoteToBytes_escape _ (escapeSegment found.2) found.1
                      (by rw [percentEscape_escapeSegment, hescape]; rfl), hlater]
            · rw [unquoteToBytes_plain fun heq => absurd heq hpercent,
                unquoteToBytes_plain fun heq => absurd heq hpercent, hrest]

/-! ## What an accepted reference leads to -/

section Delivery

variable {tables : UploadTables} {limits : UploadLimits} {parts : List RawPart}
  {manifest : List ManifestEntry} {artifacts : List Artifact} {request : ReferenceRequest}
  {raw decoded key : Text}

theorem routedName_requestedSegment (hpath : ReferencePath raw decoded) :
    routedName (requestedSegment raw) = some decoded := by
  rw [routedName, requestedSegment, unquoteToBytes_escapeSegment, hpath.decoded_eq,
    Option.filter_some, if_pos]
  exact decide_eq_true ⟨hpath.nonempty, hpath.slash⟩

theorem filter_eq_singleton {ρ κ : Type} {rows : List ρ} {column : ρ → κ} {selected : ρ → Bool}
    {row : ρ} (hnodup : (rows.map column).Nodup) (hrow : row ∈ rows) (hselected : selected row)
    (honly : ∀ other ∈ rows, selected other → column other = column row) :
    rows.filter selected = [row] := by
  have hsame : ∀ other ∈ rows.filter selected, other = row := by
    intro other hother
    rw [List.mem_filter] at hother
    exact List.inj_on_of_nodup_map hnodup hother.1 hrow (honly other hother.1 hother.2)
  have hmem : row ∈ rows.filter selected := List.mem_filter.mpr ⟨hrow, hselected⟩
  have hfiltered : (rows.filter selected).Nodup := hnodup.of_map.filter _
  cases hrows : rows.filter selected with
  | nil => simp [hrows] at hmem
  | cons first rest =>
      rw [hrows] at hsame hfiltered
      have hfirst := hsame first List.mem_cons_self
      cases rest with
      | nil => rw [hfirst]
      | cons second tail =>
          have hsecond := hsame second (List.mem_cons_of_mem _ List.mem_cons_self)
          rw [hfirst, hsecond] at hfiltered
          simp at hfiltered

/-- The view finds the artifact whose name key a reference was resolved to. -/
theorem supportingArtifact_eq {name : Text} {normalized : LogicalName} {artifact : Artifact}
    (hnormalized : normalizeLogicalName tables.unicode name = .ok normalized)
    (hnames : (artifacts.map Artifact.nameKey).Nodup) (hartifact : artifact ∈ artifacts)
    (hkind : artifact.kind ∈ supportingKinds) (hkey : artifact.nameKey = normalized.comparisonKey) :
    supportingArtifact tables.unicode artifacts name =
      some (normalized.comparisonKey, artifact) := by
  have hfilter : (artifacts.filter fun artifact =>
      artifact.kind ∈ supportingKinds ∧ artifact.nameKey = normalized.comparisonKey) =
        [artifact] := by
    apply filter_eq_singleton hnames hartifact (decide_eq_true ⟨hkind, hkey⟩)
    intro other _ hselected
    rw [decide_eq_true_eq] at hselected
    rw [hselected.2, hkey]
  simp only [supportingArtifact, hnormalized, hfilter]

/-- A reference that is accepted for supporting files leads, as a browser requests it, to the
file with the key it was resolved to, by this key. -/
theorem accepted_reference_is_served
    (hmanifest : buildManifest tables limits parts = .ok manifest)
    (hartifacts : (artifacts.map fun artifact => (artifact.nameKey, artifact.kind)).Perm
      (artifactKindsOf manifest))
    (hallowed : ∀ kind ∈ request.allowedKinds, kind ∈ supportingKinds)
    (haccept : resolveAssetReference tables (artifactKindsOf manifest) request raw = .ok key) :
    ∃ name artifact, routedName (requestedSegment raw) = some name ∧
      supportingArtifact tables.unicode artifacts name = some (key, artifact) ∧
        artifact.nameKey = key ∧ (key, artifact.kind) ∈ artifactKindsOf manifest ∧
          artifact.kind ∈ request.allowedKinds ∧ ReferencePath raw name := by
  obtain ⟨decoded, normalized, kind, hpath, hnormalized, rfl, hkind, hrequested⟩ :=
    resolveAssetReference_ok haccept
  have hentry := mem_of_artifactKindOf hkind
  obtain ⟨artifact, hartifact, hpair⟩ := List.mem_map.mp (hartifacts.mem_iff.mpr hentry)
  obtain ⟨hkey, rfl⟩ := Prod.mk.inj hpair
  have hnames : (artifacts.map Artifact.nameKey).Nodup := by
    have hkeys := hartifacts.map Prod.fst
    rw [List.map_map, artifactKindsOf, List.map_map] at hkeys
    exact hkeys.nodup_iff.mpr (manifest_of_buildManifest hmanifest).distinct
  exact ⟨decoded, artifact, routedName_requestedSegment hpath,
    supportingArtifact_eq hnormalized hnames hartifact (hallowed _ hrequested) hkey, hkey, hentry,
    hrequested, hpath⟩

end Delivery

/-! ## A package with one image -/

def asciiUploadTables : UploadTables where
  unicode := asciiTables
  isAlnum c := isAsciiLetter c || isAsciiDigit c
  refusesNetloc _ := false

def samplePart (filename : String) : UploadPart where
  filename := .text filename.toList
  chunks := none
  mediaType := .absent

def sampleManifest : List ManifestEntry :=
  [⟨0, samplePart "index.html", .html, ⟨"index.html".toList, "index.html".toList⟩, "text/html"⟩,
    ⟨1, samplePart "Sales.png", .image, ⟨"Sales.png".toList, "sales.png".toList⟩, "image/png"⟩]

theorem buildManifest_sample :
    buildManifest asciiUploadTables .default
      [.part (samplePart "index.html"), .part (samplePart "Sales.png")] = .ok sampleManifest := by
  rfl

def sampleArtifact (kind : ArtifactKind) (nameKey : String) : Artifact where
  id := 0
  revisionId := 0
  kind := kind
  logicalName := nameKey.toList
  nameKey := nameKey.toList
  storageKey := []
  byteSize := 0
  mediaType := ""
  sha256 := []

theorem escaped_reference_is_served :
    ∃ artifact, supportingArtifact asciiTables
      [sampleArtifact .html "index.html", sampleArtifact .image "sales.png"] "SALES.png".toList =
        some ("sales.png".toList, artifact) := by
  have haccept : resolveAssetReference asciiUploadTables (artifactKindsOf sampleManifest)
      ⟨0, imageKinds, false, .externalReference⟩ "./SALES%2Epng".toList =
        .ok "sales.png".toList := by decide +kernel
  obtain ⟨name, artifact, hname, hfound, _⟩ := @accepted_reference_is_served _ _ _ _
    [sampleArtifact .html "index.html", sampleArtifact .image "sales.png"] _ _ _
    buildManifest_sample (List.Perm.refl _) (by decide) haccept
  have hrouted : routedName (requestedSegment "./SALES%2Epng".toList) =
      some "SALES.png".toList := by decide +kernel
  rw [hrouted, Option.some.injEq] at hname
  rw [← hname] at hfound
  exact ⟨artifact, hfound⟩

end Agora
