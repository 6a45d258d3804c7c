import Agora.CursorEncoding
import Agora.KeysetEnumeration

/-!
# Signed keyset pagination

`paginate_keyset` fetches one page of a queryset in the order of fixed columns.  A cursor
holds a direction and the ordering values of a boundary row; it is signed for its read path
and expires.  The database compares and orders the values of each column by one total order.
-/

namespace Agora

open Keyset (Direction)

/-! ## Parameters -/

/-- The order in which the database compares the values of each field. -/
structure ColumnOrders where
  less : Text → CursorValue → CursorValue → Prop
  decidable : ∀ field, DecidableRel (less field)
  total : ∀ field, IsStrictTotalOrder CursorValue (less field)

/-- The object that `_encode_cursor` signs. -/
def cursorObject (direction : Direction) (values : List Json) : Json :=
  .object [("v", .number 1),
    ("d", .text (match direction with
      | .next => "next".toList
      | .previous => "previous".toList)),
    ("p", .list values)]

/-- The second in which a token is issued. -/
def Time.wholeSecond (time : Time) : Time := time / seconds 1 * seconds 1

/-- `django.core.signing` with its JSON serializer: tokens are strings of type `τ`. -/
structure CursorSigner (τ : Type) where
  length : τ → ℕ
  dumps : Json → Text → Time → τ
  dumps_nonempty : ∀ payload salt issuedAt, 0 < length (dumps payload salt issuedAt)
  loads : τ → Text → ℤ → Time → Option Json
  loads_dumps : ∀ direction values salt issuedAt maxAge checkedAt,
    loads (dumps (cursorObject direction values) salt issuedAt) salt maxAge checkedAt =
      if checkedAt - issuedAt.wholeSecond ≤ seconds maxAge then
        some (cursorObject direction values)
      else none

/-- Where a read path gets its rows and its signatures from. -/
structure PaginationPlatform (ρ τ : Type) where
  orders : ColumnOrders
  signer : CursorSigner τ
  sha256 : Bytes → Text
  valueAt : ρ → Text → Option CursorValue

instance (orders : ColumnOrders) (field : Text) : DecidableRel (orders.less field) :=
  orders.decidable field

/-! ## Cursors -/

/-- `_cursor_salt`. -/
def cursorSalt (sha256 : Bytes → Text) (pathNamespace context : Text) : Text :=
  "agora.pagination.v1:".toList ++ pathNamespace ++ ':' ::
    sha256 (String.ofList context).toUTF8.toList

def cursorMaxAgeSeconds : ℤ := 86400

def cursorMaxLength : ℕ := 2048

def invalidCursor : PaginationFailure := .invalidCursor "invalid pagination cursor"

def encodeValues (columns : List CursorColumn) (values : List CursorValue) :
    Except PaginationFailure (List Json) :=
  (columns.zip values).mapM fun entry => encodeValue entry.2 entry.1.kind

def decodeValues (columns : List CursorColumn) (values : List Json) :
    Except PaginationFailure (List CursorValue) :=
  (columns.zip values).mapM fun entry => decodeValue entry.2 entry.1.kind

/-- Equality with `_CURSOR_VERSION`; a true boolean equals one. -/
def Json.isCursorVersion : Json → Bool
  | .number value => value = 1
  | .bool value => value
  | _ => false

def Json.direction? : Json → Option Direction
  | .text value =>
      if value = "next".toList then some .next
      else if value = "previous".toList then some .previous
      else none
  | _ => none

/-- The checks of `_decode_cursor` on the loaded object. -/
def decodeObject (columns : List CursorColumn) (payload : Json) :
    Except PaginationFailure (Direction × List CursorValue) :=
  match payload with
  | .object members =>
      if members.map Prod.fst ⊆ ["v", "d", "p"] then
        match members.lookup "v", members.lookup "d", members.lookup "p" with
        | some version, some direction, some (.list values) =>
            match direction.direction? with
            | some direction =>
                if version.isCursorVersion = true ∧ values.length = columns.length then
                  match decodeValues columns values with
                  | .ok decoded => .ok (direction, decoded)
                  | .error _ => .error invalidCursor
                else .error invalidCursor
            | none => .error invalidCursor
        | _, _, _ => .error invalidCursor
      else .error invalidCursor
  | _ => .error invalidCursor

section Cursors

variable {ρ τ : Type} (platform : PaginationPlatform ρ τ)

/-- `_encode_cursor` at a time. -/
def encodeCursor (columns : List CursorColumn) (pathNamespace context : Text) (now : Time)
    (direction : Direction) (values : List CursorValue) : Except PaginationFailure τ := do
  let encoded ← encodeValues columns values
  pure (platform.signer.dumps (cursorObject direction encoded)
    (cursorSalt platform.sha256 pathNamespace context) now)

/-- `_decode_cursor` at a time. -/
def decodeCursor (columns : List CursorColumn) (pathNamespace context : Text) (maxAge : ℤ)
    (now : Time) (cursor : τ) : Except PaginationFailure (Direction × List CursorValue) :=
  if 1 ≤ platform.signer.length cursor ∧ platform.signer.length cursor ≤ cursorMaxLength then
    match platform.signer.loads cursor (cursorSalt platform.sha256 pathNamespace context)
        maxAge now with
    | some payload => decodeObject columns payload
    | none => .error invalidCursor
  else .error invalidCursor

/-! ## Queries -/

/-- A `Q` object as the rows it selects; the empty one selects all and is the unit of both
operators. -/
abbrev Q (ρ : Type) := Option (ρ → Bool)

namespace Q

def or : Q ρ → Q ρ → Q ρ
  | none, second => second
  | first, none => first
  | some first, some second => some fun row => first row || second row

def and : Q ρ → Q ρ → Q ρ
  | none, second => second
  | first, none => first
  | some first, some second => some fun row => first row && second row

def selects (query : Q ρ) (row : ρ) : Bool :=
  match query with
  | none => true
  | some condition => condition row

end Q

/-- `Q(field=value)`; a comparison with NULL selects nothing. -/
def equalTo (field : Text) (value : CursorValue) : Q ρ :=
  some fun row => (platform.valueAt row field).any fun found => found = value

/-- `Q(field__gt=value)`. -/
def greaterThan (field : Text) (value : CursorValue) : Q ρ :=
  some fun row => (platform.valueAt row field).any fun found =>
    platform.orders.less field value found

/-- `Q(field__lt=value)`. -/
def lessThan (field : Text) (value : CursorValue) : Q ρ :=
  some fun row => (platform.valueAt row field).any fun found =>
    platform.orders.less field found value

/-- The loop of `_boundary_filter` from its accumulators on. -/
def boundaryFilterFrom (previous : Bool) :
    List (CursorColumn × CursorValue) → Q ρ → Q ρ → Q ρ
  | [], result, _ => result
  | (column, value) :: rest, result, equalPrefix =>
      let comparison :=
        if column.descending = previous then greaterThan platform column.field value
        else lessThan platform column.field value
      boundaryFilterFrom previous rest (result.or (equalPrefix.and comparison))
        (equalPrefix.and (equalTo platform column.field value))

/-- `_boundary_filter`. -/
def boundaryFilter (columns : List CursorColumn) (values : List CursorValue)
    (previous : Bool) : Q ρ :=
  boundaryFilterFrom platform previous (columns.zip values) none none

/-- A field of `order_by`. -/
structure OrderTerm where
  field : Text
  descending : Bool

/-- `_ordering`. -/
def ordering (columns : List CursorColumn) (reverse : Bool) : List OrderTerm :=
  columns.map fun column => ⟨column.field, column.descending != reverse⟩

/-- The order of column values; NULL comes last. -/
def lessValue (field : Text) (first second : Option CursorValue) : Bool :=
  match first, second with
  | some first, some second => platform.orders.less field first second
  | some _, none => true
  | none, _ => false

/-- The order of `order_by`; rows that agree in all terms are not ordered by it. -/
def orderedBy : List OrderTerm → ρ → ρ → Bool
  | [], _, _ => true
  | term :: rest, first, second =>
      let firstValue := platform.valueAt first term.field
      let secondValue := platform.valueAt second term.field
      (if term.descending = true then lessValue platform term.field secondValue firstValue
        else lessValue platform term.field firstValue secondValue) ||
          (firstValue = secondValue && orderedBy rest first second)

/-- `_model_boundary`. -/
def modelBoundary (row : ρ) (columns : List CursorColumn) :
    Except PaginationFailure (List CursorValue) :=
  columns.mapM fun column => validatedValue (platform.valueAt row column.field) column.kind

/-! ## Pages -/

/-- The rows and cursors of a page. -/
structure CursorPage (ρ τ : Type) where
  items : List ρ
  previousCursor : Option τ
  nextCursor : Option τ

/-- A cursor for a boundary, if there is one and the page offers the direction. -/
def offeredCursor (columns : List CursorColumn) (pathNamespace context : Text) (now : Time)
    (direction : Direction) (offered : Bool) (boundary : Option (List CursorValue)) :
    Except PaginationFailure (Option τ) :=
  match boundary with
  | some values =>
      if offered = true then do
        let cursor ← encodeCursor platform columns pathNamespace context now direction values
        pure (some cursor)
      else pure none
  | none => pure none

/-- The decoded cursor; an empty one counts as none. -/
def decodeGiven (columns : List CursorColumn) (pathNamespace context : Text) (maxAge : ℤ)
    (now : Time) (cursor : Option τ) :
    Except PaginationFailure (Option (Direction × List CursorValue)) :=
  match cursor.filter fun cursor => platform.signer.length cursor ≠ 0 with
  | some cursor =>
      (decodeCursor platform columns pathNamespace context maxAge now cursor).map some
  | none => .ok none

/-- The rows beyond the boundary, if there is one. -/
def filterRows (queryset : List ρ) (columns : List CursorColumn) (direction : Direction) :
    Option (List CursorValue) → List ρ
  | some values => queryset.filter
      (boundaryFilter platform columns values (decide (direction = Direction.previous))).selects
  | none => queryset

/-- The filtered and ordered rows, one more than a page holds. -/
def fetchRows (queryset : List ρ) (columns : List CursorColumn) (direction : Direction)
    (boundary : Option (List CursorValue)) (pageSize : ℕ) : List ρ :=
  ((filterRows platform queryset columns direction boundary).insertionSort fun first second =>
    orderedBy platform (ordering columns (decide (direction = Direction.previous))) first
      second = true).take (pageSize + 1)

/-- The boundaries of the first and the last item, or the given one of an empty page. -/
def pageBoundaries (columns : List CursorColumn) (boundary : Option (List CursorValue))
    (items : List ρ) :
    Except PaginationFailure (Option (List CursorValue) × Option (List CursorValue)) :=
  match items.head?, items.getLast? with
  | some first, some last => do
      let previousBoundary ← modelBoundary platform first columns
      let nextBoundary ← modelBoundary platform last columns
      pure (some previousBoundary, some nextBoundary)
  | _, _ => pure (boundary, boundary)

/-- `paginate_keyset` on the rows of a queryset at a time. -/
def paginateKeyset (queryset : List ρ) (columns : List CursorColumn) (pathNamespace : Text)
    (cursor : Option τ) (context : Text) (pageSize maxAge : ℤ) (now : Time) :
    Except PaginationFailure (CursorPage ρ τ) := do
  if columns = [] then
    throw (.value "keyset pagination requires at least one ordering column")
  if ¬ (1 ≤ pageSize ∧ pageSize ≤ 100) then
    throw (.value "page_size must be between 1 and 100")
  if pathNamespace = [] ∨ 100 < pathNamespace.length then
    throw (.value "pagination namespace must be between 1 and 100 characters")
  let decoded ← decodeGiven platform columns pathNamespace context maxAge now cursor
  let direction := (decoded.map Prod.fst).getD .next
  let boundary := decoded.map Prod.snd
  let fetched := fetchRows platform queryset columns direction boundary pageSize.toNat
  let hasSentinel := decide (pageSize.toNat < fetched.length)
  let taken := fetched.take pageSize.toNat
  let items := if direction = Direction.previous then taken.reverse else taken
  let hasPrevious := (decoded.isSome && decide (direction = Direction.next)) ||
    (decide (direction = Direction.previous) && hasSentinel)
  let hasNext := (decide (direction = Direction.next) && hasSentinel) ||
    (decoded.isSome && decide (direction = Direction.previous))
  let boundaries ← pageBoundaries platform columns boundary items
  let previousCursor ← offeredCursor platform columns pathNamespace context now .previous
    hasPrevious boundaries.1
  let nextCursor ← offeredCursor platform columns pathNamespace context now .next hasNext
    boundaries.2
  pure ⟨items, previousCursor, nextCursor⟩

end Cursors

end Agora
