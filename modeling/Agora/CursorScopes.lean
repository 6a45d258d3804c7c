import Agora.ArtifactNameGuard
import Agora.PaginationWalks
import Agora.UploadIssues

/-!
# Round trip and scope of the signed cursors

The listings of the portal order their rows by SOEIDs, integers, datetimes and UUIDs.  A cursor
that a listing issued is read back as the boundary it was issued for, until it expires, and no
other read path accepts it.
-/

namespace Agora

open Keyset (Direction)

/-! ## The listings of the portal -/

/-- The callers of `paginate_keyset`. -/
inductive Listing where
  | discovery
  | revisions
  | activeGrants
  | grantHistory
  | users
  | requests
  deriving DecidableEq, Repr

namespace Listing

def pathNamespace : Listing → Text
  | discovery => "dashboard-discovery".toList
  | revisions => "project-revisions".toList
  | activeGrants => "project-active-grants".toList
  | grantHistory => "project-grant-history".toList
  | users => "administrator-user-list".toList
  | requests => "project-access-requests".toList

/-- The ordering of a listing. -/
def columns : Listing → List CursorColumn
  | discovery =>
      [⟨"updated_at".toList, .datetime, true, by decide⟩, ⟨"id".toList, .uuid, false, by decide⟩]
  | revisions => [⟨"number".toList, .integer, true, by decide⟩]
  | activeGrants => [⟨"viewer__soeid".toList, .text, false, by decide⟩]
  | grantHistory =>
      [⟨"revoked_at".toList, .datetime, true, by decide⟩, ⟨"id".toList, .uuid, true, by decide⟩]
  | users => [soeidColumn]
  | requests =>
      [⟨"requested_at".toList, .datetime, true, by decide⟩,
        ⟨"id".toList, .integer, true, by decide⟩]

/-- The read path of a listing for a context and a page size. -/
def path (listing : Listing) (context : Text) (pageSize : ℤ) : ReadPath where
  columns := listing.columns
  pathNamespace := listing.pathNamespace
  context := context
  pageSize := pageSize
  maxAge := cursorMaxAgeSeconds

theorem columns_length (listing : Listing) : listing.columns.length ≤ 2 := by
  cases listing <;> decide

end Listing

/-- The values that the columns of the listings hold: canonical SOEIDs, database integers, aware
datetimes and UUIDs. -/
def CursorValue.Storable : CursorValue → Prop
  | .text value => isSoeid value = true
  | .integer value => -2 ^ 63 ≤ value ∧ value < 2 ^ 63
  | .datetime _ => True
  | .uuid _ => True

/-! ## Signatures -/

/-- The characters that JSON writes as they are. -/
def isPlainCharacter (c : Char) : Bool :=
  32 ≤ c.toNat && c.toNat < 127 && c != '"' && c != '\\'

def Json.IsPlain : Json → Prop
  | .text value => value.all isPlainCharacter = true
  | .number _ => True
  | _ => False

/-- The number of characters of the timestamp of a token. -/
def timestampWidth (issuedAt : Time) : ℕ :=
  (Nat.toDigits 62 (issuedAt / seconds 1).toNat).length

/-- What the signer does: a token is the base64 form of its JSON text, a timestamp and a signature
of 43 characters, and no token has a valid signature under another salt. -/
structure SigningLaws {τ : Type} (signer : CursorSigner τ) : Prop where
  length_dumps : ∀ direction values salt issuedAt, (∀ value ∈ values, Json.IsPlain value) →
    signer.length (signer.dumps (cursorObject direction values) salt issuedAt) =
      (4 * (cursorObject direction values).width + 2) / 3 + timestampWidth issuedAt + 45
  unforged : ∀ direction values salt other issuedAt maxAge checkedAt, other ≠ salt →
    signer.loads (signer.dumps (cursorObject direction values) salt issuedAt) other maxAge
      checkedAt = none

/-- The hexadecimal digest contains no colon, and different bytes have different digests. -/
structure DigestLaws (sha256 : Bytes → Text) : Prop where
  injective : sha256.Injective
  colon : ∀ bytes, ':' ∉ sha256 bytes

/-- The seconds that a clock can show. -/
def IsClockTime (now : Time) : Prop :=
  0 ≤ now ∧ now < seconds (2 ^ 63)

/-! ## Issued cursors -/

section Issued

variable {ρ τ : Type}

/-- The cursor of a page and its boundary in a direction. -/
def CursorPage.offer (page : CursorPage ρ τ)
    (boundaries : Option (List CursorValue) × Option (List CursorValue)) :
    Direction → Option τ × Option (List CursorValue)
  | .previous => (page.previousCursor, boundaries.1)
  | .next => (page.nextCursor, boundaries.2)

/-- Every value of the ordering that a row holds can be stored in its column. -/
def StorableRows (platform : PaginationPlatform ρ τ) (columns : List CursorColumn)
    (queryset : List ρ) : Prop :=
  ∀ row ∈ queryset, ∀ column ∈ columns, ∀ value, platform.valueAt row column.field = some value →
    value.Storable

/-- The cursors that a read path issues, with the boundary of the page that each one is for: the
first page is asked for without a cursor, every other one with a cursor that was issued. -/
inductive Issued (platform : PaginationPlatform ρ τ) (path : ReadPath) :
    Time → Direction → List CursorValue → τ → Prop where
  | first {queryset : List ρ} {now : Time} {page : CursorPage ρ τ}
      {boundaries : Option (List CursorValue) × Option (List CursorValue)}
      {direction : Direction} {values : List CursorValue} {cursor : τ}
      (hrows : StorableRows platform path.columns queryset) (hclock : IsClockTime now)
      (hpage : path.fetch platform queryset none now = .ok page)
      (hboundaries : pageBoundaries platform path.columns none page.items = .ok boundaries)
      (hoffer : page.offer boundaries direction = (some cursor, some values)) :
      Issued platform path now direction values cursor
  | later {queryset : List ρ} {now issuedAt : Time} {page : CursorPage ρ τ}
      {boundaries : Option (List CursorValue) × Option (List CursorValue)}
      {direction came : Direction} {values given : List CursorValue} {cursor old : τ}
      (hold : Issued platform path issuedAt came given old)
      (hrows : StorableRows platform path.columns queryset) (hclock : IsClockTime now)
      (hpage : path.fetch platform queryset (some old) now = .ok page)
      (hboundaries : pageBoundaries platform path.columns (some given) page.items =
        .ok boundaries)
      (hoffer : page.offer boundaries direction = (some cursor, some values)) :
      Issued platform path now direction values cursor

end Issued

/-! ## The length of a cursor -/

section Width

variable {value : CursorValue} {values : List CursorValue}

theorem isPlainCharacter_digitChar (digit : ℕ) : isPlainCharacter (Nat.digitChar digit) = true := by
  by_cases hsmall : digit < 16
  · interval_cases digit <;> decide
  · rw [Nat.digitChar_eq_star.mpr (Nat.not_lt.mp hsmall)]
    decide

theorem numeral_plain (base width number : ℕ) :
    (numeral base width number).all isPlainCharacter = true := by
  induction width generalizing number with
  | zero => rfl
  | succ width ih =>
      rw [numeral, List.all_cons, isPlainCharacter_digitChar, ih]
      rfl

theorem isPlainCharacter_soeid {c : Char} (hrest : isSoeidRest c = true) :
    isPlainCharacter c = true := by
  have hascii : c.toNat < 128 := by
    simp only [isSoeidRest, isSoeidStart, Bool.or_eq_true, Bool.and_eq_true, decide_eq_true_eq,
      beq_iff_eq, Char.le_def, UInt32.le_iff_toNat_le] at hrest
    have hvalue : c.toNat = c.val.toNat := rfl
    have hletter : 'Z'.val.toNat = 90 := rfl
    have hdigit : '9'.val.toNat = 57 := rfl
    rcases hrest with (((hstart | hstart) | hmark) | hmark) | hmark
    · omega
    · omega
    all_goals
      rw [hmark]
      decide
  have hall : ∀ n < 128, isSoeidRest (Char.ofNat n) = true →
      isPlainCharacter (Char.ofNat n) = true := by
    decide +kernel
  have hplain := hall c.toNat hascii
  rw [Char.ofNat_toNat] at hplain
  exact hplain hrest

theorem isSoeid_plain {text : Text} (hsoeid : isSoeid text = true) :
    text.all isPlainCharacter = true ∧ text.length ≤ 64 := by
  cases text with
  | nil => cases hsoeid
  | cons first rest =>
      simp only [isSoeid, Bool.and_eq_true, decide_eq_true_eq] at hsoeid
      obtain ⟨⟨hfirst, hlength⟩, hrest⟩ := hsoeid
      constructor
      · have hstart : isSoeidRest first = true := by
          simp [isSoeidRest, hfirst]
        rw [List.all_cons, isPlainCharacter_soeid hstart, Bool.true_and, List.all_eq_true]
        intro c hc
        exact isPlainCharacter_soeid (List.all_eq_true.mp hrest c hc)
      · rw [List.length_cons]
        omega

theorem isoFormat_plain (time : DateTime) :
    time.isoFormat.all isPlainCharacter = true ∧ time.isoFormat.length ≤ 32 := by
  have hmarks : isPlainCharacter '-' = true ∧ isPlainCharacter 'T' = true ∧
      isPlainCharacter ':' = true ∧ isPlainCharacter '.' = true ∧
        "+00:00".toList.all isPlainCharacter = true := by
    decide
  obtain ⟨hdash, hseparator, hcolon, hpoint, hzone⟩ := hmarks
  unfold DateTime.isoFormat
  constructor
  · split
    · simp only [List.all_append, List.all_cons, numeral_plain, hdash, hseparator, hcolon, hzone,
        List.all_nil, Bool.and_self]
    · simp only [List.all_append, List.all_cons, numeral_plain, hdash, hseparator, hcolon, hpoint,
        hzone, Bool.and_self]
  · split
    · simp [numeral_length]
    · simp [numeral_length]

theorem toText_plain (identifier : UuidValue) :
    identifier.toText.all isPlainCharacter = true ∧ identifier.toText.length ≤ 36 := by
  have hdash : isPlainCharacter '-' = true := by decide
  have hpart : ∀ part : Text, part.Sublist (numeral 16 32 identifier.1) →
      part.all isPlainCharacter = true := by
    intro part hsublist
    rw [List.all_eq_true]
    intro c hc
    exact List.all_eq_true.mp (numeral_plain 16 32 identifier.1) c (hsublist.mem hc)
  unfold UuidValue.toText
  constructor
  · simp only [List.all_append, List.all_cons, hdash, Bool.and_eq_true, true_and]
    refine ⟨⟨⟨⟨?_, ?_⟩, ?_⟩, ?_⟩, ?_⟩
    · exact hpart _ (List.take_sublist _ _)
    · exact hpart _ ((List.take_sublist _ _).trans (List.drop_sublist _ _))
    · exact hpart _ ((List.take_sublist _ _).trans (List.drop_sublist _ _))
    · exact hpart _ ((List.take_sublist _ _).trans (List.drop_sublist _ _))
    · exact hpart _ (List.drop_sublist _ _)
  · simp [numeral_length]

theorem toString_length {number : ℤ} (hlow : -2 ^ 63 ≤ number) (hhigh : number < 2 ^ 63) :
    (toString number).length ≤ 20 := by
  have hdigits : ∀ n : ℕ, n ≤ 2 ^ 63 → n.repr.length ≤ 19 := by
    intro n hn
    rw [Nat.length_repr_le_iff (by decide)]
    exact hn.trans_lt (by norm_num)
  rw [Int.toString_eq_repr, Int.repr_eq_if]
  split
  · exact (hdigits _ (by omega)).trans (by decide)
  · have hlength := hdigits (-number).toNat (by omega)
    have hsign : "-".length = 1 := rfl
    rw [String.length_append, hsign]
    omega

/-- What a stored value is written as: plain, and of at most 66 characters. -/
theorem CursorValue.Storable.toJson_plain (hstorable : value.Storable) :
    value.toJson.IsPlain ∧ value.toJson.width ≤ 66 := by
  cases value with
  | text text =>
      have hplain := isSoeid_plain hstorable
      refine ⟨hplain.1, ?_⟩
      simp only [CursorValue.toJson, Json.width]
      omega
  | integer number =>
      have hlength := toString_length hstorable.1 hstorable.2
      refine ⟨trivial, ?_⟩
      simp only [CursorValue.toJson, Json.width]
      omega
  | datetime time =>
      have hplain := isoFormat_plain time
      refine ⟨hplain.1, ?_⟩
      simp only [CursorValue.toJson, Json.width]
      omega
  | uuid identifier =>
      have hplain := toText_plain identifier
      refine ⟨hplain.1, ?_⟩
      simp only [CursorValue.toJson, Json.width]
      omega

theorem itemsWidth_le {items : List Json} (hitems : ∀ item ∈ items, item.width ≤ 66) :
    Json.itemsWidth items ≤ 67 * items.length + 1 := by
  induction items with
  | nil => simp [Json.itemsWidth]
  | cons item rest ih =>
      have hitem := hitems item List.mem_cons_self
      have hrest := ih fun other hother => hitems other (List.mem_cons_of_mem _ hother)
      cases rest with
      | nil =>
          simp only [Json.itemsWidth, List.length_cons, List.length_nil]
          omega
      | cons next others =>
          rw [Json.itemsWidth, List.length_cons]
          · omega
          · simp

theorem cursorObject_width (direction : Direction) {items : List Json}
    (hitems : ∀ item ∈ items, item.width ≤ 66) :
    (cursorObject direction items).width ≤ 67 * items.length + 40 := by
  have hwidth := itemsWidth_le hitems
  have hversion : (Int.repr 1).length = 1 := by decide
  have hv : "v".length = 1 := rfl
  have hd : "d".length = 1 := rfl
  have hp : "p".length = 1 := rfl
  have hnext : "next".length = 4 := rfl
  have hprevious : "previous".length = 8 := rfl
  cases direction <;>
    simp only [cursorObject, Json.width, Json.membersWidth, hv, hd, hp, Int.toString_eq_repr,
      hversion, String.length_toList, hnext, hprevious] <;>
    omega

/-- A timestamp has at most eleven characters. -/
theorem timestampWidth_le {issuedAt : Time} (hclock : IsClockTime issuedAt) :
    timestampWidth issuedAt ≤ 11 := by
  rw [timestampWidth, Nat.length_toDigits_le_iff (by decide) (by decide)]
  have hbelow : issuedAt / seconds 1 < (2 ^ 63 : ℤ) := by
    apply Int.ediv_lt_of_lt_mul (by decide)
    exact hclock.2
  have hpower : (issuedAt / seconds 1).toNat < 2 ^ 63 := by
    rw [Int.toNat_lt' (by decide)]
    exact hbelow
  exact hpower.trans (by norm_num)

end Width

/-! ## Salts -/

section Salts

variable {sha256 : Bytes → Text} {pathNamespace otherNamespace context otherContext : Text}

theorem append_colon_inj {first second last other : Text} (hlast : ':' ∉ last)
    (hother : ':' ∉ other) (heq : first ++ ':' :: last = second ++ ':' :: other) :
    first = second ∧ last = other := by
  have hstop : ∀ {text front : Text}, ':' ∉ text →
      (front ++ ':' :: text).reverse.takeWhile (· ≠ ':') = text.reverse := by
    intro text front habsent
    have hplain : ∀ c ∈ text.reverse, decide (c ≠ ':') = true := by
      intro c hc
      rw [decide_eq_true_eq]
      intro hcolon
      exact habsent (hcolon ▸ List.mem_reverse.mp hc)
    rw [List.reverse_append, List.reverse_cons, List.append_assoc,
      List.takeWhile_append_of_pos hplain]
    simp
  have hsuffix : last = other := by
    rw [← List.reverse_inj, ← @hstop last first hlast, heq, hstop hother]
  rw [hsuffix] at heq
  exact ⟨List.append_cancel_right heq, hsuffix⟩

theorem byteArray_toList_loop (bytes : ByteArray) (i : ℕ) (read : List UInt8) :
    i ≤ bytes.size →
      ByteArray.toList.loop bytes i read = read.reverse ++ bytes.data.toList.drop i := by
  fun_induction ByteArray.toList.loop bytes i read with
  | case1 i read hlt ih =>
      intro _
      have hlength : i < bytes.data.toList.length := by simpa using hlt
      have hget : bytes.get! i = bytes.data.toList[i] := by
        have hfound : bytes.data[i]! = bytes.data[i] :=
          getElem!_pos bytes.data i (by simpa using hlt)
        rw [Array.getElem_toList, ← hfound]
        rfl
      rw [ih hlt, List.reverse_cons, List.append_assoc, List.drop_eq_getElem_cons hlength, hget]
      rfl
  | case2 i read hge =>
      intro _
      have hall : bytes.data.toList.length ≤ i := by simpa using Nat.not_lt.mp hge
      rw [List.drop_eq_nil_of_le hall, List.append_nil]

theorem byteArray_toList_injective : ByteArray.toList.Injective := by
  intro first second heq
  have hdata : ∀ bytes : ByteArray, bytes.toList = bytes.data.toList := fun bytes =>
    byteArray_toList_loop bytes 0 [] (Nat.zero_le _)
  rw [hdata, hdata, Array.toList_inj] at heq
  exact ByteArray.ext heq

/-- The salt determines the namespace and the context. -/
theorem cursorSalt_inj (hdigest : DigestLaws sha256)
    (heq : cursorSalt sha256 pathNamespace context =
      cursorSalt sha256 otherNamespace otherContext) :
    pathNamespace = otherNamespace ∧ context = otherContext := by
  unfold cursorSalt at heq
  generalize "agora.pagination.v1:".toList = front at heq
  obtain ⟨hfront, hdigests⟩ := append_colon_inj (hdigest.colon _) (hdigest.colon _) heq
  have hbytes := byteArray_toList_injective (hdigest.injective hdigests)
  constructor
  · exact List.append_cancel_left hfront
  · exact String.ofList_inj.mp (String.toByteArray_inj.mp hbytes)

end Salts

/-! ## What an issued cursor stands for -/

/-- Boundary values that the columns can hold. -/
structure FitsColumns (columns : List CursorColumn) (values : List CursorValue) : Prop where
  kinds : List.Forall₂ (fun column value => CursorValue.kind value = column.kind) columns values
  storable : ∀ value ∈ values, value.Storable

section Boundaries

variable {ρ τ : Type} {platform : PaginationPlatform ρ τ} {path : ReadPath}
  {columns : List CursorColumn} {values : List CursorValue} {row : ρ} {queryset items : List ρ}

theorem validatedValue_ok {found : Option CursorValue} {kind : CursorValueKind}
    {value : CursorValue} (hvalue : validatedValue found kind = .ok value) :
    found = some value ∧ value.kind = kind := by
  unfold validatedValue at hvalue
  split at hvalue
  · rename_i hkept
    rw [Except.ok.injEq] at hvalue
    rw [Option.filter_eq_some_iff, hvalue] at hkept
    exact ⟨hkept.1, of_decide_eq_true hkept.2⟩
  · cases hvalue

theorem modelBoundary_fits (hrow : ∀ column ∈ columns, ∀ value,
      platform.valueAt row column.field = some value → value.Storable)
    (hboundary : modelBoundary platform row columns = .ok values) :
    FitsColumns columns values := by
  induction columns generalizing values with
  | nil =>
      rw [modelBoundary, List.mapM_nil] at hboundary
      cases hboundary
      exact ⟨.nil, by simp⟩
  | cons column rest ih =>
      rw [modelBoundary, List.mapM_cons] at hboundary
      obtain ⟨value, hvalue, hboundary⟩ := bind_eq_ok_iff.mp hboundary
      obtain ⟨others, hothers, hvalues⟩ := bind_eq_ok_iff.mp hboundary
      cases hvalues
      obtain ⟨hfound, hkind⟩ := validatedValue_ok hvalue
      have hfits := ih (fun other hother => hrow other (List.mem_cons_of_mem _ hother)) hothers
      constructor
      · exact .cons hkind hfits.kinds
      · rw [List.forall_mem_cons]
        exact ⟨hrow column List.mem_cons_self value hfound, hfits.storable⟩

theorem pageBoundaries_fits {boundary : Option (List CursorValue)}
    {boundaries : Option (List CursorValue) × Option (List CursorValue)}
    (hrows : StorableRows platform columns items)
    (hgiven : ∀ values, boundary = some values → FitsColumns columns values)
    (hboundaries : pageBoundaries platform columns boundary items = .ok boundaries) :
    (∀ values, boundaries.1 = some values → FitsColumns columns values) ∧
      ∀ values, boundaries.2 = some values → FitsColumns columns values := by
  unfold pageBoundaries at hboundaries
  split at hboundaries
  · rename_i first last hfirst hlast
    obtain ⟨previous, hprevious, hboundaries⟩ := bind_eq_ok_iff.mp hboundaries
    obtain ⟨next, hnext, hboundaries⟩ := bind_eq_ok_iff.mp hboundaries
    cases hboundaries
    constructor
    · intro values hvalues
      cases hvalues
      exact modelBoundary_fits (hrows first (List.mem_of_mem_head? hfirst)) hprevious
    · intro values hvalues
      cases hvalues
      exact modelBoundary_fits (hrows last (List.mem_of_getLast? hlast)) hnext
  · cases hboundaries
    exact ⟨hgiven, hgiven⟩

theorem mem_of_fetchRows {direction : Direction} {boundary : Option (List CursorValue)}
    {pageSize : ℕ} (hmem : row ∈ fetchRows platform queryset columns direction boundary pageSize) :
    row ∈ queryset := by
  have hsorted := List.mem_of_mem_take hmem
  rw [List.mem_insertionSort] at hsorted
  cases boundary with
  | none => exact hsorted
  | some values => exact List.mem_of_mem_filter hsorted

/-- What a page that is returned was made of. -/
structure PageMade (path : ReadPath) (platform : PaginationPlatform ρ τ) (queryset : List ρ)
    (given : Option τ) (now : Time) (page : CursorPage ρ τ)
    (decoded : Option (Direction × List CursorValue))
    (boundaries : Option (List CursorValue) × Option (List CursorValue)) : Prop where
  given_eq : decodeGiven platform path.columns path.pathNamespace path.context path.maxAge now
    given = .ok decoded
  rows : ∀ row ∈ page.items, row ∈ queryset
  boundaries_eq : pageBoundaries platform path.columns (decoded.map Prod.snd) page.items =
    .ok boundaries
  previous : ∃ offered, offeredCursor platform path.columns path.pathNamespace path.context now
    .previous offered boundaries.1 = .ok page.previousCursor
  next : ∃ offered, offeredCursor platform path.columns path.pathNamespace path.context now
    .next offered boundaries.2 = .ok page.nextCursor

theorem fetch_ok {given : Option τ} {now : Time} {page : CursorPage ρ τ}
    (hpage : path.fetch platform queryset given now = .ok page) :
    ∃ decoded boundaries, PageMade path platform queryset given now page decoded boundaries := by
  rw [ReadPath.fetch, paginateKeyset] at hpage
  by_cases hcolumns : path.columns = []
  · rw [if_pos hcolumns] at hpage
    cases hpage
  · rw [if_neg hcolumns] at hpage
    by_cases hsize : ¬ (1 ≤ path.pageSize ∧ path.pageSize ≤ 100)
    · rw [if_pos hsize] at hpage
      cases hpage
    · rw [if_neg hsize] at hpage
      by_cases hnamespace : path.pathNamespace = [] ∨ 100 < path.pathNamespace.length
      · rw [if_pos hnamespace] at hpage
        cases hpage
      · rw [if_neg hnamespace] at hpage
        obtain ⟨decoded, hdecoded, hpage⟩ := bind_eq_ok_iff.mp hpage
        obtain ⟨boundaries, hboundaries, hpage⟩ := bind_eq_ok_iff.mp hpage
        obtain ⟨previousCursor, hprevious, hpage⟩ := bind_eq_ok_iff.mp hpage
        obtain ⟨nextCursor, hnext, hpage⟩ := bind_eq_ok_iff.mp hpage
        cases hpage
        refine ⟨decoded, boundaries, hdecoded, ?_, hboundaries, ⟨_, hprevious⟩, ⟨_, hnext⟩⟩
        intro row hrow
        simp only at hrow
        split at hrow
        · exact mem_of_fetchRows (List.mem_of_mem_take (List.mem_reverse.mp hrow))
        · exact mem_of_fetchRows (List.mem_of_mem_take hrow)

/-- An offered cursor is the token of its boundary. -/
theorem offeredCursor_ok {direction : Direction} {offered : Bool}
    {boundary : Option (List CursorValue)} {now : Time} {cursor : τ}
    (hfits : ∀ values, boundary = some values → FitsColumns path.columns values)
    (hoffered : offeredCursor platform path.columns path.pathNamespace path.context now direction
      offered boundary = .ok (some cursor)) :
    ∃ place : Boundary platform.orders path.columns, boundary = some place.values ∧
      cursor = path.token platform direction place now := by
  cases boundary with
  | none => cases hoffered
  | some values =>
      let place : Boundary platform.orders path.columns := ⟨values, (hfits values rfl).kinds⟩
      have heq := offeredCursor_eq direction offered (some place) now
      rw [Option.map_some] at heq
      rw [heq, Except.ok.injEq] at hoffered
      refine ⟨place, rfl, ?_⟩
      cases offered with
      | false => cases hoffered
      | true => exact (Option.some.inj hoffered).symm

/-- An issued cursor is the token of a boundary that fits its columns. -/
structure IssuedToken (path : ReadPath) (platform : PaginationPlatform ρ τ) (issuedAt : Time)
    (direction : Direction) (values : List CursorValue) (cursor : τ) : Prop where
  clock : IsClockTime issuedAt
  fits : FitsColumns path.columns values
  token : ∃ place : Boundary platform.orders path.columns, place.values = values ∧
    cursor = path.token platform direction place issuedAt

theorem PageMade.offer_token {given : Option τ} {now : Time} {page : CursorPage ρ τ}
    {decoded : Option (Direction × List CursorValue)}
    {boundaries : Option (List CursorValue) × Option (List CursorValue)} {direction : Direction}
    {cursor : τ} (hmade : PageMade path platform queryset given now page decoded boundaries)
    (hrows : StorableRows platform path.columns queryset) (hclock : IsClockTime now)
    (hgiven : ∀ values, decoded.map Prod.snd = some values → FitsColumns path.columns values)
    (hoffer : page.offer boundaries direction = (some cursor, some values)) :
    IssuedToken path platform now direction values cursor := by
  have hitems : StorableRows platform path.columns page.items := fun row hrow =>
    hrows row (hmade.rows row hrow)
  have hfits := pageBoundaries_fits hitems hgiven hmade.boundaries_eq
  cases direction with
  | previous =>
      obtain ⟨offered, hoffered⟩ := hmade.previous
      simp only [CursorPage.offer, Prod.mk.injEq] at hoffer
      rw [hoffer.1] at hoffered
      obtain ⟨place, hplace, htoken⟩ := offeredCursor_ok hfits.1 hoffered
      rw [hoffer.2, Option.some.injEq] at hplace
      exact ⟨hclock, hfits.1 values hoffer.2, place, hplace.symm, htoken⟩
  | next =>
      obtain ⟨offered, hoffered⟩ := hmade.next
      simp only [CursorPage.offer, Prod.mk.injEq] at hoffer
      rw [hoffer.1] at hoffered
      obtain ⟨place, hplace, htoken⟩ := offeredCursor_ok hfits.2 hoffered
      rw [hoffer.2, Option.some.injEq] at hplace
      exact ⟨hclock, hfits.2 values hoffer.2, place, hplace.symm, htoken⟩

theorem decodeGiven_ok {issuedAt now : Time} {direction : Direction}
    {place : Boundary platform.orders path.columns}
    {decoded : Option (Direction × List CursorValue)}
    (hgiven : decodeGiven platform path.columns path.pathNamespace path.context path.maxAge now
      (some (path.token platform direction place issuedAt)) = .ok decoded) :
    decoded.map Prod.snd = some place.values := by
  have htoken := decodeCursor_token direction place issuedAt now
  rw [decodeGiven_token] at hgiven
  by_cases haccepts : path.Accepts platform (path.token platform direction place issuedAt)
      issuedAt now
  · rw [htoken.1 haccepts, Except.map, Except.ok.injEq] at hgiven
    rw [← hgiven]
    rfl
  · rw [htoken.2 haccepts] at hgiven
    cases hgiven

theorem Issued.isToken {issuedAt : Time} {direction : Direction} {cursor : τ}
    (hissued : Issued platform path issuedAt direction values cursor) :
    IssuedToken path platform issuedAt direction values cursor := by
  induction hissued with
  | first hrows hclock hpage hboundaries hoffer =>
      obtain ⟨decoded, boundaries, hmade⟩ := fetch_ok hpage
      have hnone : decoded = none := by
        have hgiven := hmade.given_eq
        simp only [decodeGiven, Option.filter_none] at hgiven
        exact (Except.ok.inj hgiven).symm
      have hsame := hmade.boundaries_eq
      rw [hnone, Option.map_none, hboundaries, Except.ok.injEq] at hsame
      rw [hsame] at hoffer
      apply hmade.offer_token hrows hclock ?_ hoffer
      intro values hvalues
      rw [hnone] at hvalues
      cases hvalues
  | later hold hrows hclock hpage hboundaries hoffer ih =>
      obtain ⟨decoded, boundaries, hmade⟩ := fetch_ok hpage
      obtain ⟨place, hplace, htoken⟩ := ih.token
      have hgiven := hmade.given_eq
      rw [htoken] at hgiven
      have hdecoded := decodeGiven_ok hgiven
      have hsame := hmade.boundaries_eq
      rw [hdecoded, hplace, hboundaries, Except.ok.injEq] at hsame
      rw [hsame] at hoffer
      apply hmade.offer_token hrows hclock ?_ hoffer
      intro values hvalues
      rw [hdecoded, hplace, Option.some.injEq] at hvalues
      rw [← hvalues]
      exact ih.fits

end Boundaries

/-! ## The cursors of the listings -/

section Listings

variable {ρ τ : Type} {platform : PaginationPlatform ρ τ} {path : ReadPath} {issuedAt : Time}
  {direction : Direction} {values : List CursorValue} {cursor : τ}

/-- The cursors of up to twenty columns stay below the length that is accepted. -/
theorem IssuedToken.short (hsigning : SigningLaws platform.signer)
    (htoken : IssuedToken path platform issuedAt direction values cursor)
    (hcolumns : path.columns.length ≤ 20) :
    platform.signer.length cursor ≤ cursorMaxLength := by
  obtain ⟨place, hplace, hcursor⟩ := htoken.token
  have hplain : ∀ item ∈ values.map CursorValue.toJson, item.IsPlain ∧ item.width ≤ 66 := by
    intro item hitem
    obtain ⟨value, hvalue, rfl⟩ := List.mem_map.mp hitem
    exact (htoken.fits.storable value hvalue).toJson_plain
  have hlength : (values.map CursorValue.toJson).length = path.columns.length := by
    rw [List.length_map, htoken.fits.kinds.length_eq]
  have hwidth := cursorObject_width direction fun item hitem => (hplain item hitem).2
  have htime := timestampWidth_le htoken.clock
  rw [hcursor, ReadPath.token, hplace,
    hsigning.length_dumps _ _ _ _ fun item hitem => (hplain item hitem).1, cursorMaxLength]
  rw [hlength] at hwidth
  omega

/-- A cursor that a listing issued is read back on the same path as it was issued for as long as it
is accepted, and no other namespace or context accepts it. -/
theorem listing_cursor_round_trip (hsigning : SigningLaws platform.signer)
    (hdigest : DigestLaws platform.sha256) {listing : Listing} {context : Text} {pageSize : ℤ}
    (hissued : Issued platform (listing.path context pageSize) issuedAt direction values cursor) :
    (∀ now, now - issuedAt.wholeSecond ≤ seconds cursorMaxAgeSeconds →
      decodeCursor platform listing.columns listing.pathNamespace context cursorMaxAgeSeconds now
        cursor = .ok (direction, values)) ∧
    ∀ columns pathNamespace otherContext maxAge now,
      (pathNamespace, otherContext) ≠ (listing.pathNamespace, context) →
        decodeCursor platform columns pathNamespace otherContext maxAge now cursor =
          .error invalidCursor := by
  have htoken := hissued.isToken
  have hshort := htoken.short hsigning (listing.columns_length.trans (by decide))
  obtain ⟨place, hplace, hcursor⟩ := htoken.token
  constructor
  · intro now hfresh
    rw [hcursor] at hshort ⊢
    rw [← hplace]
    exact (decodeCursor_token direction place issuedAt now).1 ⟨hshort, hfresh⟩
  · intro columns pathNamespace otherContext maxAge now hother
    have hsalt : cursorSalt platform.sha256 pathNamespace otherContext ≠
        cursorSalt platform.sha256 listing.pathNamespace context := by
      intro heq
      obtain ⟨hnamespace, hcontext⟩ := cursorSalt_inj hdigest heq
      apply hother
      rw [hnamespace, hcontext]
    have hrefused := hsigning.unforged direction (place.values.map CursorValue.toJson)
      (cursorSalt platform.sha256 listing.pathNamespace context)
      (cursorSalt platform.sha256 pathNamespace otherContext) issuedAt maxAge now hsalt
    rw [hcursor]
    unfold decodeCursor
    split
    · have hnone : platform.signer.loads
          ((listing.path context pageSize).token platform direction place issuedAt)
          (cursorSalt platform.sha256 pathNamespace otherContext) maxAge now = none := hrefused
      rw [hnone]
    · rfl

end Listings

/-! ## A listing of two users -/

/-- Tokens of the exact length. -/
def clockSigner : CursorSigner SignedToken :=
  { tokenSigner with
    length := fun token => (4 * token.payload.width + 2) / 3 + timestampWidth token.issuedAt + 45
    dumps_nonempty := fun _ _ _ => Nat.succ_pos _ }

theorem clockSigner_laws : SigningLaws clockSigner where
  length_dumps _ _ _ _ _ := rfl
  unforged direction values salt other issuedAt maxAge checkedAt hother := by
    have hrefused : ¬ (salt = other ∧ checkedAt - issuedAt.wholeSecond ≤ seconds maxAge) :=
      fun hboth => hother hboth.1.symm
    exact if_neg hrefused

/-- A digest with a character of its own for each byte. -/
def plainDigest (bytes : Bytes) : Text :=
  bytes.map fun byte => Char.ofNat (byte.toNat + 256)

theorem plainDigest_laws : DigestLaws plainDigest := by
  have hvalue : ∀ byte : UInt8, (Char.ofNat (byte.toNat + 256)).toNat = byte.toNat + 256 := by
    intro byte
    have hbyte := byte.toNat_lt
    exact toNat_ofNat_of_lt (by omega)
  constructor
  · apply List.map_injective_iff.mpr
    intro first second heq
    have hsame := congrArg Char.toNat heq
    simp only [hvalue] at hsame
    apply UInt8.toNat_inj.mp
    omega
  · intro bytes hcolon
    obtain ⟨byte, _, heq⟩ := List.mem_map.mp hcolon
    have hsame := congrArg Char.toNat heq
    have hpoint : ':'.toNat = 58 := rfl
    rw [hvalue, hpoint] at hsame
    omega

def soeidListing : PaginationPlatform Text SignedToken :=
  { userListing with signer := clockSigner, sha256 := plainDigest }

theorem soeid_cursor_issued : ∃ cursor, Issued soeidListing (Listing.users.path [] 1) 0 .next
    [.text "AB12345".toList] cursor := by
  have hcomputed : ((Listing.users.path [] 1).fetch soeidListing
      ["CD67890".toList, "AB12345".toList] none 0).toOption.map (fun page =>
        (page.items, page.nextCursor.isSome)) = some (["AB12345".toList], true) := by
    decide +kernel
  obtain ⟨page, hpage, hfound⟩ := Option.map_eq_some_iff.mp hcomputed
  rw [Prod.mk.injEq, Option.isSome_iff_exists] at hfound
  obtain ⟨hitems, cursor, hcursor⟩ := hfound
  have hboundaries : pageBoundaries soeidListing Listing.users.columns none page.items =
      .ok (some [.text "AB12345".toList], some [.text "AB12345".toList]) := by
    rw [hitems]
    rfl
  refine ⟨cursor, .first ?_ ?_ (ok_of_toOption hpage) hboundaries ?_⟩
  · intro row hrow column hcolumn value hvalue
    have hrows : ∀ soeid ∈ ["CD67890".toList, "AB12345".toList], isSoeid soeid = true := by
      decide
    cases hvalue
    exact hrows row hrow
  · exact ⟨le_rfl, by decide⟩
  · rw [CursorPage.offer, hcursor]

theorem soeid_cursor_round_trip : ∃ cursor,
    Issued soeidListing (Listing.users.path [] 1) 0 .next [.text "AB12345".toList] cursor ∧
      (∀ now, now - Time.wholeSecond 0 ≤ seconds cursorMaxAgeSeconds →
        decodeCursor soeidListing Listing.users.columns Listing.users.pathNamespace []
          cursorMaxAgeSeconds now cursor = .ok (.next, [.text "AB12345".toList])) ∧
      ∀ columns pathNamespace otherContext maxAge now,
        (pathNamespace, otherContext) ≠ (Listing.users.pathNamespace, []) →
          decodeCursor soeidListing columns pathNamespace otherContext maxAge now cursor =
            .error invalidCursor := by
  obtain ⟨cursor, hissued⟩ := soeid_cursor_issued
  exact ⟨cursor, hissued, listing_cursor_round_trip clockSigner_laws plainDigest_laws hissued⟩

/-- A cursor that was issued is refused a day and a second later. -/
theorem expired_cursor_is_refused : ∃ cursor now,
    Issued soeidListing (Listing.users.path [] 1) 0 .next [.text "AB12345".toList] cursor ∧
      decodeCursor soeidListing Listing.users.columns Listing.users.pathNamespace []
        cursorMaxAgeSeconds now cursor = .error invalidCursor := by
  obtain ⟨cursor, hissued⟩ := soeid_cursor_issued
  obtain ⟨place, _, hcursor⟩ := hissued.isToken.token
  refine ⟨cursor, seconds 86401, hissued, ?_⟩
  rw [hcursor]
  apply (decodeCursor_token .next place 0 (seconds 86401)).2
  intro haccepts
  exact absurd haccepts.2 (by decide)

end Agora
