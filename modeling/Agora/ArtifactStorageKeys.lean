import Agora.LinkedFileSystem

/-!
# Storage keys and the files they name

A storage key has the form `v1/ab/cd/token`, where the token is 64 lowercase
hexadecimal characters and the two shards repeat its first four.  The adapter
stores a key's bytes in the file `token` of the directory `v1/ab/cd` and stages
them under `.token.pending` beside it.  Distinct keys never share a file, and no
final file of any key is a pending file of another.
-/

namespace Agora

/-- Text is a list of characters; a character is a Unicode code point. -/
abbrev Text := List Char

/-- Named, so that deciding membership in a list of texts is one term in every module. -/
instance Text.lawfulBEq : LawfulBEq Text := inferInstance

def isLowerHex (c : Char) : Bool :=
  ('0' ≤ c && c ≤ '9') || ('a' ≤ c && c ≤ 'f')

/-- `_DIGEST_RE.fullmatch`. -/
def isHexDigest (value : Text) : Bool :=
  value.length == 64 && value.all isLowerHex

/-- `_KEY_RE.fullmatch` and the shard comparison of `StorageKey.__post_init__`. -/
def isCanonicalKey (value : Text) : Bool :=
  match value.splitOn '/' with
  | [version, firstShard, secondShard, token] =>
      version == ['v', '1'] && isHexDigest token &&
        firstShard == token.take 2 && secondShard == (token.drop 2).take 2
  | _ => false

structure StorageKey where
  value : Text
  canonical : isCanonicalKey value = true
  deriving DecidableEq

namespace StorageKey

/-- The key of a fresh `secrets.token_hex(32)`. -/
def generate (token : Text) (htoken : isHexDigest token = true) : StorageKey where
  value := ['/'].intercalate
    [['v', '1'], token.take 2, (token.drop 2).take 2, token]
  canonical := by
    have hslash : ∀ c ∈ token, c ≠ '/' := by
      intro c hc hslash
      simp only [isHexDigest, Bool.and_eq_true, List.all_eq_true] at htoken
      have hhex := htoken.2 c hc
      rw [hslash] at hhex
      contradiction
    have hcomponents : ∀ component ∈
        [['v', '1'], token.take 2, (token.drop 2).take 2, token], '/' ∉ component := by
      intro component hcomponent hmem
      simp only [List.mem_cons, List.not_mem_nil, or_false] at hcomponent
      rcases hcomponent with rfl | rfl | rfl | rfl
      · simp at hmem
      · exact hslash '/' (List.mem_of_mem_take hmem) rfl
      · exact hslash '/' (List.mem_of_mem_drop (List.mem_of_mem_take hmem)) rfl
      · exact hslash '/' hmem rfl
    unfold isCanonicalKey
    rw [List.splitOn_intercalate '/' hcomponents (by simp)]
    simp [htoken]

def components (key : StorageKey) : List Text :=
  key.value.splitOn '/'

def shards (key : StorageKey) : List Text :=
  key.components.dropLast

def token (key : StorageKey) : Text :=
  key.components.getLast?.getD []

theorem components_eq (key : StorageKey) :
    ∃ firstShard secondShard,
      key.components = [['v', '1'], firstShard, secondShard, key.token] ∧
        isHexDigest key.token = true := by
  have hcanonical := key.canonical
  unfold isCanonicalKey at hcanonical
  split at hcanonical
  · rename_i version firstShard secondShard last hsplit
    simp only [Bool.and_eq_true, beq_iff_eq] at hcanonical
    have hcomponents : key.components = [version, firstShard, secondShard, last] := hsplit
    have htoken : key.token = last := by
      rw [token, hcomponents]
      rfl
    refine ⟨firstShard, secondShard, ?_, ?_⟩
    · rw [hcomponents, htoken, hcanonical.1.1.1]
    · rw [htoken]
      exact hcanonical.1.1.2
  · contradiction

theorem length_token (key : StorageKey) : key.token.length = 64 := by
  rcases key.components_eq with ⟨_, _, _, hdigest⟩
  simp only [isHexDigest, Bool.and_eq_true, beq_iff_eq] at hdigest
  exact hdigest.1

theorem shards_append_token (key : StorageKey) :
    key.shards ++ [key.token] = key.components := by
  rcases key.components_eq with ⟨firstShard, secondShard, hcomponents, _⟩
  rw [shards, hcomponents]
  rfl

theorem eq_of_components {first second : StorageKey}
    (hcomponents : first.components = second.components) : first = second := by
  have hvalue : first.value = second.value := by
    have hfirst : ['/'].intercalate first.components = first.value :=
      List.intercalate_splitOn '/'
    have hsecond : ['/'].intercalate second.components = second.value :=
      List.intercalate_splitOn '/'
    rw [← hfirst, ← hsecond, hcomponents]
  cases first
  cases second
  simp only at hvalue
  subst hvalue
  rfl

end StorageKey

/-- A directory below the storage root, as its path components. -/
abbrev StorageDirectory := List Text

structure StoragePath where
  directory : StorageDirectory
  name : Text
  deriving DecidableEq

instance : Located StoragePath StorageDirectory where
  directory := StoragePath.directory
  parent := fun
    | [] => none
    | component :: rest => some (component :: rest).dropLast

abbrev StorageFiles := FileSystem StoragePath

namespace StorageKey

def finalPath (key : StorageKey) : StoragePath :=
  ⟨key.shards, key.token⟩

def pendingPath (key : StorageKey) : StoragePath :=
  ⟨key.shards, '.' :: key.token ++ ".pending".toList⟩

/-- The directories that `_paths` walks, from the root down. -/
def directories (key : StorageKey) : List StorageDirectory :=
  key.shards.inits.tail

theorem finalPath_injective : Function.Injective finalPath := by
  intro first second hpath
  simp only [finalPath, StoragePath.mk.injEq] at hpath
  apply eq_of_components
  rw [← first.shards_append_token, ← second.shards_append_token, hpath.1, hpath.2]

theorem pendingPath_injective : Function.Injective pendingPath := by
  intro first second hpath
  simp only [pendingPath, StoragePath.mk.injEq, List.cons_append, List.cons.injEq,
    true_and, List.append_cancel_right_eq] at hpath
  apply eq_of_components
  rw [← first.shards_append_token, ← second.shards_append_token, hpath.1, hpath.2]

theorem finalPath_ne_pendingPath (first second : StorageKey) :
    first.finalPath ≠ second.pendingPath := by
  intro hpath
  have hlength := congrArg (fun path => path.name.length) hpath
  simp [finalPath, pendingPath, length_token] at hlength

end StorageKey

/-- A verified durable-write receipt. -/
structure StoredArtifact where
  key : StorageKey
  byteSize : ℕ
  sha256 : Text
  deriving DecidableEq

/-- The receipt that names these bytes under this key. -/
def StoredArtifact.of (sha256 : Bytes → Text) (key : StorageKey) (bytes : Bytes) :
    StoredArtifact :=
  ⟨key, bytes.length, sha256 bytes⟩

/-- The subclasses of `ArtifactStorageError` other than `StorageWriteCommitted`. -/
inductive StorageErrorKind where
  | artifactStorageError
  | invalidStorageKey
  | storageCollision
  | storageIntegrityError
  | storageCleanupRequired
  | unsafeStorageEntry
  deriving DecidableEq, Repr

/-- What a storage call can raise: its own errors, an operating-system error it
does not wrap, a chunk that is not bytes, or an exception of the chunk source. -/
inductive StorageError where
  | storage (kind : StorageErrorKind) (message : String)
  | operatingSystem
  | notBytes
  | chunkSource
  deriving DecidableEq, Repr

end Agora
