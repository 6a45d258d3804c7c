import Agora.UploadManifest

/-!
# References to the files of a package

`_resolve_asset_reference` splits a reference as a URL, decodes its path once and looks the
canonical name up among the names of the package.
-/

namespace Agora

/-! ## `urllib.parse` -/

structure SplitUrl where
  scheme : Text
  netloc : Text
  path : Text
  query : Text
  fragment : Text
  deriving DecidableEq, Repr

/-- The characters that `urlsplit` strips in front of a URL. -/
def isC0OrSpace (c : Char) : Bool :=
  c.toNat ≤ 32

/-- A URL without control characters and blanks in front and without tabs and line ends. -/
def cleanUrl (url : Text) : Text :=
  (url.dropWhile isC0OrSpace).filter fun c => c ∉ ['\t', '\r', '\n']

def isAsciiLetter (c : Char) : Bool :=
  ('a' ≤ c && c ≤ 'z') || ('A' ≤ c && c ≤ 'Z')

def isAsciiDigit (c : Char) : Bool :=
  '0' ≤ c && c ≤ '9'

/-- `scheme_chars`. -/
def isSchemeCharacter (c : Char) : Bool :=
  isAsciiLetter c || isAsciiDigit c || c == '+' || c == '-' || c == '.'

/-- The scheme of a URL and what follows its colon. -/
def splitScheme (url : Text) : Text × Text :=
  let scheme := url.takeWhile (· ≠ ':')
  if ':' ∈ url ∧ scheme.head?.any isAsciiLetter = true ∧ scheme.all isSchemeCharacter = true then
    (scheme.map Char.toLower, (url.dropWhile (· ≠ ':')).tail)
  else ([], url)

/-- The network location of a URL and what follows it. -/
def splitNetloc (url : Text) : Text × Text :=
  if url.take 2 = ['/', '/'] then
    (url.drop 2).span fun c => c ≠ '/' && c ≠ '?' && c ≠ '#'
  else ([], url)

/-- `url.split(delimiter, 1)`, with nothing after a delimiter that is absent. -/
def splitAtFirst (delimiter : Char) (url : Text) : Text × Text :=
  (url.takeWhile (· ≠ delimiter), (url.dropWhile (· ≠ delimiter)).tail)

/-- `urlsplit`; none where it refuses the network location. -/
def urlsplit (refusedNetloc : Text → Bool) (url : Text) : Option SplitUrl :=
  let (scheme, rest) := splitScheme (cleanUrl url)
  let (netloc, rest) := splitNetloc rest
  let (rest, fragment) := splitAtFirst '#' rest
  let (path, query) := splitAtFirst '?' rest
  if refusedNetloc netloc = true then none
  else some ⟨scheme, netloc, path, query, fragment⟩

def hexValue (c : Char) : Option ℕ :=
  if isAsciiDigit c then some (c.toNat - '0'.toNat)
  else if 'a' ≤ c ∧ c ≤ 'f' then some (c.toNat - 'a'.toNat + 10)
  else if 'A' ≤ c ∧ c ≤ 'F' then some (c.toNat - 'A'.toNat + 10)
  else none

/-- The byte of an escape and the text behind it. -/
def percentEscape : Text → Option (UInt8 × Text)
  | first :: second :: rest =>
      match hexValue first, hexValue second with
      | some high, some low => some (UInt8.ofNat (high * 16 + low), rest)
      | _, _ => none
  | _ => none

/-- `_INVALID_PERCENT_ESCAPE_RE`. -/
def hasInvalidEscape : Text → Bool
  | [] => false
  | c :: rest => (c == '%' && (percentEscape rest).isNone) || hasInvalidEscape rest

/-- `unquote_to_bytes`; the first argument counts the characters of an escape still to skip. -/
def unquoteFrom : ℕ → Text → Bytes
  | _, [] => []
  | skipped + 1, _ :: rest => unquoteFrom skipped rest
  | 0, c :: rest =>
      match if c = '%' then percentEscape rest else none with
      | some (byte, _) => byte :: unquoteFrom 2 rest
      | none => String.utf8EncodeChar c ++ unquoteFrom 0 rest

def unquoteToBytes (text : Text) : Bytes :=
  unquoteFrom 0 text

/-! ## The resolution of a reference -/

/-- The kinds of a package by the comparison keys of its names. -/
abbrev ArtifactKinds := List (Text × UploadKind)

/-- The kinds of the entries of a manifest. -/
def artifactKindsOf (manifest : List ManifestEntry) : ArtifactKinds :=
  manifest.map fun entry => (entry.key, entry.kind)

def artifactKindOf (artifactKinds : ArtifactKinds) (key : Text) : Option UploadKind :=
  (artifactKinds.find? fun entry => entry.1 = key).map Prod.snd

/-- What a call of `_resolve_asset_reference` asks for. -/
structure ReferenceRequest where
  index : ℕ
  allowedKinds : List UploadKind
  csvCompatibility : Bool
  externalField : UploadIssueField

def ReferenceRequest.invalid (request : ReferenceRequest) : UploadIssue :=
  ⟨if request.csvCompatibility then .invalidCsvReference else .invalidAssetReference,
    some request.index, none⟩

def ReferenceRequest.missing (request : ReferenceRequest) : UploadIssue :=
  ⟨if request.csvCompatibility then .missingCsvReference else .missingAssetReference,
    some request.index, none⟩

def ReferenceRequest.external (request : ReferenceRequest) : UploadIssue :=
  ⟨.externalDependency, some request.index, some request.externalField⟩

/-- `_CSV_SUFFIX_RE`. -/
def csvSuffix : TextPattern :=
  .both (patternWord ".csv") .textEnd

/-- Whether a text starts with two slashes and an alphanumeric character. -/
def startsExternal (tables : UploadTables) : Text → Bool
  | '/' :: '/' :: c :: _ => tables.isAlnum c
  | _ => false

/-- The path without a leading `./`. -/
def dropDotSlash : Text → Text
  | '.' :: '/' :: rest => rest
  | path => path

/-- The decoded path of a reference, which is one segment. -/
def referencePath (tables : UploadTables) (request : ReferenceRequest) (raw : Text) :
    Except UploadIssue Text := do
  refuse (startsExternal tables raw = true) request.external
  refuse (raw = [] ∨ raw.head? = some '/' ∨ raw.head? = some '\\' ∨ raw.head? = some '?')
    request.invalid
  refuse ('\\' ∈ raw ∨ hasInvalidEscape raw = true) request.invalid
  match urlsplit tables.refusesNetloc raw with
  | none => .error request.invalid
  | some parsed =>
      refuse (parsed.scheme ≠ [] ∨ parsed.netloc ≠ []) request.external
      refuse (parsed.query ≠ [] ∨ parsed.fragment ≠ [] ∨ '?' ∈ raw ∨ '#' ∈ raw) request.invalid
      match Utf8.decode (unquoteToBytes (dropDotSlash parsed.path)) with
      | none => .error request.invalid
      | some decoded =>
          refuse (decoded = [] ∨ '/' ∈ decoded ∨ '\\' ∈ decoded ∨ '%' ∈ decoded ∨
            decoded = ['.'] ∨ decoded = ['.', '.']) request.invalid
          .ok decoded

def resolveAssetReference (tables : UploadTables) (artifactKinds : ArtifactKinds)
    (request : ReferenceRequest) (raw : Text) : Except UploadIssue Text := do
  let decoded ← referencePath tables request raw
  refuse (request.csvCompatibility = true ∧ csvSuffix.occursIn tables.isWord decoded = false)
    request.invalid
  match normalizeLogicalName tables.unicode decoded with
  | .error _ => .error request.invalid
  | .ok normalized =>
      match artifactKindOf artifactKinds normalized.comparisonKey with
      | none => .error request.missing
      | some kind =>
          refuse (kind ∉ request.allowedKinds) request.invalid
          .ok normalized.comparisonKey

/-! ## What an accepted reference is -/

section Accepted

variable {tables : UploadTables} {request : ReferenceRequest} {artifactKinds : ArtifactKinds}
  {raw url decoded key : Text} {parsed : SplitUrl}

theorem splitAtFirst_of_notMem {delimiter : Char} (habsent : delimiter ∉ url) :
    splitAtFirst delimiter url = (url, []) := by
  unfold splitAtFirst
  induction url with
  | nil => rfl
  | cons c rest ih =>
      rw [List.mem_cons, not_or] at habsent
      have hother : c ≠ delimiter := Ne.symm habsent.1
      obtain ⟨htake, hdrop⟩ := Prod.mk.inj (ih habsent.2)
      simp only [List.takeWhile_cons, List.dropWhile_cons, hother, ne_eq, not_false_eq_true,
        decide_true, if_true] at htake hdrop ⊢
      rw [htake, hdrop]

theorem splitScheme_of_nil (hscheme : (splitScheme url).1 = []) : splitScheme url = ([], url) := by
  simp only [splitScheme] at hscheme ⊢
  by_cases hcondition : ':' ∈ url ∧ (url.takeWhile (· ≠ ':')).head?.any isAsciiLetter = true ∧
      (url.takeWhile (· ≠ ':')).all isSchemeCharacter = true
  · rw [if_pos hcondition, List.map_eq_nil_iff] at hscheme
    rw [hscheme] at hcondition
    cases hcondition.2.1
  · rw [if_neg hcondition]

theorem mem_of_mem_cleanUrl {c : Char} (hmem : c ∈ cleanUrl url) : c ∈ url :=
  (List.dropWhile_sublist _).mem (List.mem_of_mem_filter hmem)

/-- The path of a URL without a scheme, a network location, a query and a fragment. -/
theorem urlsplit_path {refusedNetloc : Text → Bool}
    (hparsed : urlsplit refusedNetloc url = some parsed)
    (hscheme : parsed.scheme = []) (hnetloc : parsed.netloc = [])
    (hquestion : '?' ∉ url) (hhash : '#' ∉ url) :
    parsed.path = cleanUrl url ∨ parsed.path = [] ∨ parsed.path.head? = some '/' := by
  have hcleanQuestion : '?' ∉ cleanUrl url := fun hmem => hquestion (mem_of_mem_cleanUrl hmem)
  have hcleanHash : '#' ∉ cleanUrl url := fun hmem => hhash (mem_of_mem_cleanUrl hmem)
  simp only [urlsplit, Option.ite_none_left_eq_some, Option.some.injEq] at hparsed
  obtain ⟨_, rfl⟩ := hparsed
  simp only at hscheme hnetloc ⊢
  rw [splitScheme_of_nil hscheme] at hnetloc ⊢
  simp only [splitNetloc] at hnetloc ⊢
  by_cases hslashes : (cleanUrl url).take 2 = ['/', '/']
  · right
    rw [if_pos hslashes, List.span_eq_takeWhile_dropWhile] at hnetloc ⊢
    have hafter : ∀ c ∈ (cleanUrl url).drop 2, c ∈ cleanUrl url := fun c hc =>
      List.mem_of_mem_drop hc
    cases hrest : (cleanUrl url).drop 2 with
    | nil => simp [splitAtFirst]
    | cons c rest =>
        right
        rw [hrest] at hnetloc hafter
        have hc := hafter c (List.mem_cons_self ..)
        have hslash : c = '/' := by
          by_contra hother
          have hquestionMark : c ≠ '?' := by
            rintro rfl
            exact hcleanQuestion hc
          have hhashMark : c ≠ '#' := by
            rintro rfl
            exact hcleanHash hc
          simp [hother, hquestionMark, hhashMark] at hnetloc
        simp [splitAtFirst, hslash]
  · left
    rw [if_neg hslashes]
    simp only
    rw [splitAtFirst_of_notMem hcleanHash]
    simp only
    rw [splitAtFirst_of_notMem hcleanQuestion]

theorem decode_slash {bytes : Bytes} (hdecode : Utf8.decode (47 :: bytes) = some decoded) :
    '/' ∈ decoded := by
  have hstep : Utf8.step .between 47 = some (.between, some '/') := by decide
  simp only [Utf8.decode, Utf8.decodeFrom, hstep] at hdecode
  cases hrest : Utf8.decodeFrom .between bytes with
  | none => simp [hrest] at hdecode
  | some result =>
      rw [hrest, Option.map_some] at hdecode
      split at hdecode
      · rename_i heq
        rw [Option.some.injEq, Prod.mk.injEq] at heq
        rw [Option.some.injEq] at hdecode
        rw [← hdecode, ← heq.2]
        exact List.mem_cons_self
      · cases hdecode

/-- The decoded path of an accepted reference: one segment, decoded once. -/
structure ReferencePath (raw decoded : Text) : Prop where
  decoded_eq : Utf8.decode (unquoteToBytes (dropDotSlash (cleanUrl raw))) = some decoded
  nonempty : decoded ≠ []
  slash : '/' ∉ decoded
  backslash : '\\' ∉ decoded
  percent : '%' ∉ decoded
  current : decoded ≠ ['.']
  parent : decoded ≠ ['.', '.']

theorem referencePath_ok (haccept : referencePath tables request raw = .ok decoded) :
    ReferencePath raw decoded := by
  simp only [referencePath, bind_eq_ok_iff, refuse_eq_ok] at haccept
  obtain ⟨_, _, _, _, _, _, hsplit⟩ := haccept
  cases hparsed : urlsplit tables.refusesNetloc raw with
  | none => simp [hparsed] at hsplit
  | some parsed =>
      simp only [hparsed, bind_eq_ok_iff, refuse_eq_ok, not_or, not_not] at hsplit
      obtain ⟨_, ⟨hscheme, hnetloc⟩, _, ⟨_, _, hquestion, hhash⟩, hdecode⟩ := hsplit
      cases hbytes : Utf8.decode (unquoteToBytes (dropDotSlash parsed.path)) with
      | none => simp [hbytes] at hdecode
      | some found =>
          simp only [hbytes, bind_eq_ok_iff, refuse_eq_ok, not_or, Except.ok.injEq] at hdecode
          obtain ⟨_, ⟨hnonempty, hslash, hbackslash, hpercent, hcurrent, hparent⟩, rfl⟩ := hdecode
          have hpath : parsed.path = cleanUrl raw := by
            obtain hclean | hempty | hhead :=
              urlsplit_path hparsed hscheme hnetloc hquestion hhash
            · exact hclean
            · rw [hempty] at hbytes
              exact absurd (Option.some.inj hbytes).symm hnonempty
            · obtain ⟨rest, hrest⟩ : ∃ rest, parsed.path = '/' :: rest :=
                ⟨parsed.path.tail, List.eq_cons_of_mem_head? hhead⟩
              rw [hrest] at hbytes
              exact absurd (decode_slash hbytes) hslash
          rw [hpath] at hbytes
          exact ⟨hbytes, hnonempty, hslash, hbackslash, hpercent, hcurrent, hparent⟩

theorem mem_of_artifactKindOf {kind : UploadKind}
    (hkind : artifactKindOf artifactKinds key = some kind) : (key, kind) ∈ artifactKinds := by
  rw [artifactKindOf, Option.map_eq_some_iff] at hkind
  obtain ⟨entry, hfind, rfl⟩ := hkind
  have hkey : entry.1 = key := by simpa using List.find?_some hfind
  rw [← hkey]
  exact List.mem_of_find?_eq_some hfind

/-- An accepted reference is resolved to a name of the package of an allowed kind. -/
theorem resolveAssetReference_ok
    (haccept : resolveAssetReference tables artifactKinds request raw = .ok key) :
    ∃ decoded normalized kind, ReferencePath raw decoded ∧
      normalizeLogicalName tables.unicode decoded = .ok normalized ∧
        normalized.comparisonKey = key ∧ artifactKindOf artifactKinds key = some kind ∧
          kind ∈ request.allowedKinds := by
  simp only [resolveAssetReference, bind_eq_ok_iff, refuse_eq_ok] at haccept
  obtain ⟨decoded, hpath, _, _, hname⟩ := haccept
  cases hnormalized : normalizeLogicalName tables.unicode decoded with
  | error message => simp [hnormalized] at hname
  | ok normalized =>
      cases hkind : artifactKindOf artifactKinds normalized.comparisonKey with
      | none => simp [hnormalized, hkind] at hname
      | some kind =>
          simp only [hnormalized, hkind, bind_eq_ok_iff, refuse_eq_ok, not_not,
            Except.ok.injEq] at hname
          obtain ⟨_, hallowed, rfl⟩ := hname
          exact ⟨decoded, normalized, kind, referencePath_ok hpath, hnormalized, rfl, hkind,
            hallowed⟩

end Accepted

end Agora
