import Agora.KeysetPagination

/-!
# Walks over signed pages

The ordering values of a row are its key, and the mixed directions of the columns give the
keys one strict total order.  A page of `paginate_keyset` is the keyset page at the position
of its cursor, with its boundaries signed; so its walks enumerate the ordered rows.
-/

namespace Agora

open Keyset (Direction)

/-! ## The order of the columns -/

/-- The first column in which the values differ decides, in its direction. -/
def ColumnOrders.Precedes (orders : ColumnOrders) :
    List CursorColumn → List CursorValue → List CursorValue → Prop
  | column :: columns, first :: firsts, second :: seconds =>
      (if column.descending = true then orders.less column.field second first
        else orders.less column.field first second) ∨
          (first = second ∧ orders.Precedes columns firsts seconds)
  | _, _, _ => False

/-- Ordering values of the kinds of the columns. -/
@[ext] structure Boundary (orders : ColumnOrders) (columns : List CursorColumn) where
  values : List CursorValue
  kinds : List.Forall₂ (fun column value => CursorValue.kind value = column.kind) columns values

section Order

variable {orders : ColumnOrders} {columns : List CursorColumn}
  {first second third : List CursorValue}

theorem ColumnOrders.less_irrefl (field : Text) (value : CursorValue) :
    ¬ orders.less field value value := by
  have htotal := orders.total field
  exact irrefl_of (orders.less field) value

theorem ColumnOrders.less_trans {field : Text} {low middle high : CursorValue}
    (hlow : orders.less field low middle) (hhigh : orders.less field middle high) :
    orders.less field low high := by
  have htotal := orders.total field
  exact trans_of (orders.less field) hlow hhigh

theorem ColumnOrders.less_trichotomous (field : Text) (low high : CursorValue) :
    orders.less field low high ∨ low = high ∨ orders.less field high low := by
  have htotal := orders.total field
  exact trichotomous_of (orders.less field) low high

theorem ColumnOrders.precedes_irrefl (columns : List CursorColumn)
    (values : List CursorValue) : ¬ orders.Precedes columns values values := by
  induction columns generalizing values with
  | nil => simp [ColumnOrders.Precedes]
  | cons column columns ih =>
      cases values with
      | nil => simp [ColumnOrders.Precedes]
      | cons value values =>
          simp only [ColumnOrders.Precedes, true_and, ite_self, not_or]
          exact ⟨orders.less_irrefl column.field value, ih values⟩

theorem ColumnOrders.precedes_trans (hfirst : orders.Precedes columns first second)
    (hsecond : orders.Precedes columns second third) : orders.Precedes columns first third := by
  induction columns generalizing first second third with
  | nil => simp [ColumnOrders.Precedes] at hfirst
  | cons column columns ih =>
      cases first with
      | nil => simp [ColumnOrders.Precedes] at hfirst
      | cons low lows =>
      cases second with
      | nil => simp [ColumnOrders.Precedes] at hfirst
      | cons middle middles =>
      cases third with
      | nil => simp [ColumnOrders.Precedes] at hsecond
      | cons high highs =>
          simp only [ColumnOrders.Precedes] at hfirst hsecond ⊢
          cases hfirst with
          | inl hlow =>
              left
              cases hsecond with
              | inl hhigh =>
                  cases hdescending : column.descending with
                  | false =>
                      simp only [hdescending, Bool.false_eq_true, if_false] at hlow hhigh ⊢
                      exact orders.less_trans hlow hhigh
                  | true =>
                      simp only [hdescending, if_true] at hlow hhigh ⊢
                      exact orders.less_trans hhigh hlow
              | inr hhigh => rwa [← hhigh.1]
          | inr hlow =>
              rw [hlow.1]
              cases hsecond with
              | inl hhigh => exact .inl hhigh
              | inr hhigh => exact .inr ⟨hhigh.1, ih hlow.2 hhigh.2⟩

theorem ColumnOrders.precedes_trichotomous
    (hfirst : List.Forall₂ (fun column value => CursorValue.kind value = column.kind) columns
      first)
    (hsecond : List.Forall₂ (fun column value => CursorValue.kind value = column.kind) columns
      second) :
    orders.Precedes columns first second ∨ first = second ∨
      orders.Precedes columns second first := by
  induction hfirst generalizing second with
  | nil =>
      cases hsecond
      exact .inr (.inl rfl)
  | @cons column low columns lows hkind hrest ih =>
      cases hsecond with
      | @cons _ high _ highs hkind' hrest' =>
          simp only [ColumnOrders.Precedes]
          have hcolumn := @ColumnOrders.less_trichotomous orders column.field low high
          have htail := ih hrest'
          cases hdescending : column.descending with
          | false => grind
          | true => grind

instance decidablePrecedes (orders : ColumnOrders) : ∀ columns first second,
    Decidable (orders.Precedes columns first second)
  | [], _, _ => .isFalse (by simp [ColumnOrders.Precedes])
  | _ :: _, [], _ => .isFalse (by simp [ColumnOrders.Precedes])
  | _ :: _, _ :: _, [] => .isFalse (by simp [ColumnOrders.Precedes])
  | column :: columns, first :: firsts, second :: seconds =>
      have := decidablePrecedes orders columns firsts seconds
      inferInstanceAs (Decidable (_ ∨ _ ∧ _))

namespace Boundary

def Before (first second : Boundary orders columns) : Prop :=
  orders.Precedes columns first.values second.values

instance : DecidableRel (Before : Boundary orders columns → Boundary orders columns → Prop) :=
  fun first second => decidablePrecedes orders columns first.values second.values

instance : IsStrictTotalOrder (Boundary orders columns) Before where
  irrefl boundary := orders.precedes_irrefl columns boundary.values
  trans _ _ _ hfirst hsecond := orders.precedes_trans hfirst hsecond
  trichotomous first second hbefore hafter := by
    cases orders.precedes_trichotomous first.kinds second.kinds with
    | inl hless => exact absurd hless hbefore
    | inr hrest =>
        cases hrest with
        | inl hsame => exact Boundary.ext hsame
        | inr hmore => exact absurd hmore hafter

/-- The declared order. -/
instance : LinearOrder (Boundary orders columns) := linearOrderOfSTO Before

theorem lt_iff {first second : Boundary orders columns} :
    first < second ↔ orders.Precedes columns first.values second.values := Iff.rfl

theorem le_iff {first second : Boundary orders columns} :
    first ≤ second ↔ first.values = second.values ∨
      orders.Precedes columns first.values second.values := by
  rw [le_iff_eq_or_lt, lt_iff, Boundary.ext_iff]

end Boundary

end Order

/-! ## Rows and their keys -/

section Rows

variable {ρ τ : Type} (platform : PaginationPlatform ρ τ) (columns : List CursorColumn)

/-- A row whose ordering values are not null and have the kinds of their columns. -/
structure OrderedRow where
  row : ρ
  valued : ∀ column ∈ columns, ∃ value,
    platform.valueAt row column.field = some value ∧ value.kind = column.kind

variable {platform columns}

/-- The row has these values in the columns. -/
abbrev HasValues (platform : PaginationPlatform ρ τ) (row : ρ) (columns : List CursorColumn)
    (values : List CursorValue) : Prop :=
  List.Forall₂ (fun column value => platform.valueAt row column.field = some value) columns values

theorem modelBoundary_of_values {row : ρ} {values : List CursorValue}
    (hvalues : HasValues platform row columns values)
    (hkinds : List.Forall₂ (fun column value => CursorValue.kind value = column.kind) columns
      values) : modelBoundary platform row columns = .ok values := by
  induction hvalues with
  | nil => rfl
  | @cons column value columns values hvalue _ ih =>
      cases hkinds with
      | cons hkind hrest =>
          have hfirst := validatedValue_of_kind hkind
          rw [← hvalue] at hfirst
          have hlater := ih hrest
          rw [modelBoundary] at hlater ⊢
          rw [List.mapM_cons, hfirst, hlater]
          rfl

theorem orderedBy_iff {first second : ρ} {firsts seconds : List CursorValue} (reverse : Bool)
    (hfirst : HasValues platform first columns firsts)
    (hsecond : HasValues platform second columns seconds) :
    orderedBy platform (ordering columns reverse) first second = true ↔
      firsts = seconds ∨
        if reverse = true then platform.orders.Precedes columns seconds firsts
        else platform.orders.Precedes columns firsts seconds := by
  induction hfirst generalizing seconds with
  | nil =>
      cases hsecond
      simp [ordering, orderedBy]
  | @cons column low columns lows hlow _ ih =>
      cases hsecond with
      | @cons _ high _ highs hhigh hrest =>
          have hlater := ih hrest
          unfold ordering at hlater
          simp only [ordering, List.map_cons, orderedBy, hlow, hhigh, lessValue,
            ColumnOrders.Precedes, Bool.or_eq_true, Bool.and_eq_true, hlater,
            decide_eq_true_eq, Option.some.injEq, List.cons.injEq]
          cases reverse with
          | false =>
              cases hdescending : column.descending with
              | false => simp; tauto
              | true => simp; tauto
          | true =>
              cases hdescending : column.descending with
              | false => simp [eq_comm]; tauto
              | true => simp [eq_comm]; tauto

namespace OrderedRow

def key (found : OrderedRow platform columns) : Boundary platform.orders columns where
  values := columns.map fun column =>
    (platform.valueAt found.row column.field).getD (.integer 0)
  kinds := by
    rw [List.forall₂_map_right_iff, List.forall₂_same]
    intro column hcolumn
    obtain ⟨value, hvalue, hkind⟩ := found.valued column hcolumn
    rw [hvalue, Option.getD_some, hkind]

theorem hasValues_key (found : OrderedRow platform columns) :
    HasValues platform found.row columns found.key.values := by
  rw [key, HasValues, List.forall₂_map_right_iff, List.forall₂_same]
  intro column hcolumn
  obtain ⟨value, hvalue, _⟩ := found.valued column hcolumn
  rw [hvalue, Option.getD_some]

theorem modelBoundary_eq (found : OrderedRow platform columns) :
    modelBoundary platform found.row columns = .ok found.key.values :=
  modelBoundary_of_values found.hasValues_key found.key.kinds

end OrderedRow

namespace Q

/-- The rows of a nonempty disjunction. -/
def offers (query : Q ρ) (row : ρ) : Bool := query.any fun condition => condition row

theorem offers_or (first second : Q ρ) (row : ρ) :
    (first.or second).offers row = (first.offers row || second.offers row) := by
  cases first with
  | none => simp [Q.or, offers]
  | some first =>
      cases second with
      | none => simp [Q.or, offers]
      | some second => simp [Q.or, offers]

theorem selects_and (first second : Q ρ) (row : ρ) :
    (first.and second).selects row = (first.selects row && second.selects row) := by
  cases first with
  | none => simp [Q.and, selects]
  | some first =>
      cases second with
      | none => simp [Q.and, selects]
      | some second => simp [Q.and, selects]

theorem offers_and_some (first : Q ρ) (condition : ρ → Bool) (row : ρ) :
    (first.and (some condition)).offers row = (first.selects row && condition row) := by
  cases first with
  | none => simp [Q.and, selects, offers]
  | some first => simp [Q.and, selects, offers]

end Q

theorem boundaryFilterFrom_offers {row : ρ} {found values : List CursorValue} (previous : Bool)
    (hfound : HasValues platform row columns found) (hlength : values.length = columns.length)
    (result equalPrefix : Q ρ) :
    (boundaryFilterFrom platform previous (columns.zip values) result equalPrefix).offers row =
      (result.offers row || (equalPrefix.selects row &&
        decide (if previous = true then platform.orders.Precedes columns found values
          else platform.orders.Precedes columns values found))) := by
  induction hfound generalizing values result equalPrefix with
  | nil =>
      rw [List.length_nil, List.length_eq_zero_iff] at hlength
      simp [hlength, boundaryFilterFrom, ColumnOrders.Precedes]
  | @cons column value columns found hvalue _ ih =>
      cases values with
      | nil => simp at hlength
      | cons boundary values =>
          have hrest : values.length = columns.length := by simpa using hlength
          have hcomparison : ∀ greater : Bool,
              (equalPrefix.and (if greater = true then greaterThan platform column.field boundary
                else lessThan platform column.field boundary)).offers row =
                (equalPrefix.selects row &&
                  decide (if greater = true then platform.orders.less column.field boundary value
                    else platform.orders.less column.field value boundary)) := by
            intro greater
            cases greater with
            | false =>
                simp only [lessThan, Bool.false_eq_true, if_false, Q.offers_and_some, hvalue,
                  Option.any_some]
            | true =>
                simp only [greaterThan, if_true, Q.offers_and_some, hvalue, Option.any_some]
          have hequal : (equalTo platform column.field boundary).selects row =
              decide (value = boundary) := by
            simp [equalTo, Q.selects, hvalue]
          have hoffers := hcomparison (decide (column.descending = previous))
          simp only [decide_eq_true_eq] at hoffers
          rw [List.zip_cons_cons, boundaryFilterFrom, ih hrest, Q.offers_or, Q.selects_and, hoffers,
            hequal]
          rw [Bool.eq_iff_iff]
          simp only [ColumnOrders.Precedes, Bool.or_eq_true, Bool.and_eq_true, decide_eq_true_eq]
          by_cases hdescending : column.descending = true
          · cases previous with
            | false => simp [hdescending, @eq_comm _ boundary value]; tauto
            | true => simp [hdescending]; tauto
          · cases previous with
            | false => simp [hdescending, @eq_comm _ boundary value]; tauto
            | true => simp [hdescending]; tauto

theorem Q.isSome_or {first second : Q ρ} (hsome : first.isSome ∨ second.isSome) :
    (first.or second).isSome := by
  cases first with
  | none => simpa [Q.or] using hsome
  | some first =>
      cases second with
      | none => rfl
      | some second => rfl

theorem Q.isSome_and {first second : Q ρ} (hsome : second.isSome) :
    (first.and second).isSome := by
  cases first with
  | none => exact hsome
  | some first =>
      cases second with
      | none => contradiction
      | some second => rfl

theorem boundaryFilterFrom_isSome (previous : Bool) (entries : List (CursorColumn × CursorValue))
    {result equalPrefix : Q ρ} (hsome : result.isSome ∨ entries ≠ []) :
    (boundaryFilterFrom platform previous entries result equalPrefix).isSome := by
  induction entries generalizing result equalPrefix with
  | nil => simpa [boundaryFilterFrom] using hsome
  | cons entry entries ih =>
      obtain ⟨column, value⟩ := entry
      apply ih
      left
      apply Q.isSome_or
      right
      apply Q.isSome_and
      split
      · rfl
      · rfl

/-- The filter selects the rows beyond the boundary. -/
theorem boundaryFilter_selects {row : ρ} {found values : List CursorValue} (previous : Bool)
    (hcolumns : columns ≠ []) (hfound : HasValues platform row columns found)
    (hlength : values.length = columns.length) :
    (boundaryFilter platform columns values previous).selects row =
      decide (if previous = true then platform.orders.Precedes columns found values
        else platform.orders.Precedes columns values found) := by
  have hoffers := boundaryFilterFrom_offers previous hfound hlength none none
  have hentries : columns.zip values ≠ [] := by
    intro hnone
    have hzero := congrArg List.length hnone
    rw [List.length_zip, hlength, min_self] at hzero
    exact hcolumns (List.length_eq_zero_iff.mp hzero)
  have hsome := @boundaryFilterFrom_isSome _ _ platform previous _ none none (.inr hentries)
  obtain ⟨condition, hcondition⟩ := Option.isSome_iff_exists.mp hsome
  rw [hcondition] at hoffers
  rw [boundaryFilter, hcondition]
  simpa [Q.offers, Q.selects] using hoffers

end Rows

/-! ## Tokens -/

/-- The parameters of a read path. -/
structure ReadPath where
  columns : List CursorColumn
  pathNamespace : Text
  context : Text
  pageSize : ℤ
  maxAge : ℤ

structure ReadPath.Valid (path : ReadPath) : Prop where
  columns : path.columns ≠ []
  pageSize : 1 ≤ path.pageSize ∧ path.pageSize ≤ 100
  pathNamespace : path.pathNamespace ≠ [] ∧ path.pathNamespace.length ≤ 100

theorem ReadPath.Valid.namespace_accepted {path : ReadPath} (hpath : path.Valid) :
    ¬ (path.pathNamespace = [] ∨ 100 < path.pathNamespace.length) := by
  have hvalid := hpath.pathNamespace
  intro hbad
  cases hbad with
  | inl hempty => exact hvalid.1 hempty
  | inr hlong => omega

section Tokens

variable {ρ τ : Type} {platform : PaginationPlatform ρ τ} {path : ReadPath}

namespace ReadPath

def fetch (path : ReadPath) (platform : PaginationPlatform ρ τ) (queryset : List ρ)
    (cursor : Option τ) (now : Time) : Except PaginationFailure (CursorPage ρ τ) :=
  paginateKeyset platform queryset path.columns path.pathNamespace cursor path.context
    path.pageSize path.maxAge now

/-- The cursor for a boundary. -/
def token (path : ReadPath) (platform : PaginationPlatform ρ τ) (direction : Direction)
    (boundary : Boundary platform.orders path.columns) (now : Time) : τ :=
  platform.signer.dumps (cursorObject direction (boundary.values.map CursorValue.toJson))
    (cursorSalt platform.sha256 path.pathNamespace path.context) now

/-- A token is accepted unless it is too long or too old. -/
def Accepts (path : ReadPath) (platform : PaginationPlatform ρ τ) (cursor : τ)
    (issuedAt now : Time) : Prop :=
  platform.signer.length cursor ≤ cursorMaxLength ∧
    now - issuedAt.wholeSecond ≤ seconds path.maxAge

end ReadPath

theorem encodeValues_of_kinds {columns : List CursorColumn} {values : List CursorValue}
    (hkinds : List.Forall₂ (fun column value => CursorValue.kind value = column.kind) columns
      values) :
    encodeValues columns values = .ok (values.map CursorValue.toJson) := by
  induction hkinds with
  | nil => rfl
  | cons hkind _ ih =>
      rw [encodeValues] at ih ⊢
      rw [List.zip_cons_cons, List.mapM_cons, encodeValue_of_kind hkind, ih]
      rfl

theorem decodeValues_toJson {columns : List CursorColumn} {values : List CursorValue}
    (hkinds : List.Forall₂ (fun column value => CursorValue.kind value = column.kind) columns
      values) :
    decodeValues columns (values.map CursorValue.toJson) = .ok values := by
  induction hkinds with
  | nil => rfl
  | cons hkind _ ih =>
      rw [decodeValues] at ih ⊢
      rw [List.map_cons, List.zip_cons_cons, List.mapM_cons, decodeValue_toJson hkind, ih]
      rfl

theorem encodeCursor_eq (direction : Direction)
    (boundary : Boundary platform.orders path.columns) (now : Time) :
    encodeCursor platform path.columns path.pathNamespace path.context now direction
      boundary.values = .ok (path.token platform direction boundary now) := by
  rw [encodeCursor, encodeValues_of_kinds boundary.kinds]
  rfl

theorem decodeObject_cursorObject (direction : Direction)
    (boundary : Boundary platform.orders path.columns) :
    decodeObject path.columns
      (cursorObject direction (boundary.values.map CursorValue.toJson)) =
        .ok (direction, boundary.values) := by
  have hlength : (boundary.values.map CursorValue.toJson).length = path.columns.length := by
    rw [List.length_map, boundary.kinds.length_eq]
  simp only [decodeObject, cursorObject, List.map_cons, List.map_nil, List.lookup_cons]
  cases direction with
  | next =>
      simp [hlength, Json.isCursorVersion, Json.direction?, decodeValues_toJson boundary.kinds]
  | previous =>
      simp [hlength, Json.isCursorVersion, Json.direction?, decodeValues_toJson boundary.kinds]

/-- A token is read back as it was issued, unless it is refused. -/
theorem decodeCursor_token (direction : Direction)
    (boundary : Boundary platform.orders path.columns) (issuedAt now : Time) :
    (path.Accepts platform (path.token platform direction boundary issuedAt) issuedAt now →
      decodeCursor platform path.columns path.pathNamespace path.context path.maxAge now
        (path.token platform direction boundary issuedAt) = .ok (direction, boundary.values)) ∧
    (¬ path.Accepts platform (path.token platform direction boundary issuedAt) issuedAt now →
      decodeCursor platform path.columns path.pathNamespace path.context path.maxAge now
        (path.token platform direction boundary issuedAt) = .error invalidCursor) := by
  have hnonempty : 1 ≤ platform.signer.length (path.token platform direction boundary issuedAt) :=
    platform.signer.dumps_nonempty _ _ _
  have hloads := platform.signer.loads_dumps direction
    (boundary.values.map CursorValue.toJson)
    (cursorSalt platform.sha256 path.pathNamespace path.context) issuedAt path.maxAge now
  constructor
  · intro haccepts
    rw [if_pos haccepts.2] at hloads
    have hloaded : platform.signer.loads (path.token platform direction boundary issuedAt)
        (cursorSalt platform.sha256 path.pathNamespace path.context) path.maxAge now =
          some (cursorObject direction (boundary.values.map CursorValue.toJson)) := hloads
    rw [decodeCursor, if_pos ⟨hnonempty, haccepts.1⟩, hloaded]
    exact decodeObject_cursorObject direction boundary
  · intro hrefused
    rw [decodeCursor]
    by_cases hlength :
        platform.signer.length (path.token platform direction boundary issuedAt) ≤ cursorMaxLength
    · rw [if_pos ⟨hnonempty, hlength⟩]
      rw [if_neg fun hfresh => hrefused ⟨hlength, hfresh⟩] at hloads
      have hnone : platform.signer.loads (path.token platform direction boundary issuedAt)
          (cursorSalt platform.sha256 path.pathNamespace path.context) path.maxAge now =
            none := hloads
      rw [hnone]
    · rw [if_neg fun hboth => hlength hboth.2]

end Tokens

/-! ## Pages -/

section Pages

variable {ρ τ : Type} {platform : PaginationPlatform ρ τ} {columns : List CursorColumn}
  {rows : List (OrderedRow platform columns)}

theorem insertionSort_ordering (reverse : Bool) (hkeys : (rows.map OrderedRow.key).Nodup) :
    (rows.map OrderedRow.row).insertionSort
        (fun first second => orderedBy platform (ordering columns reverse) first second = true) =
      (if reverse = true then (Keyset.ordered OrderedRow.key rows).reverse
        else Keyset.ordered OrderedRow.key rows).map OrderedRow.row := by
  have hrelation : ∀ first second : OrderedRow platform columns,
      orderedBy platform (ordering columns reverse) first.row second.row = true ↔
        if reverse = true then second.key ≤ first.key else first.key ≤ second.key := by
    intro first second
    rw [orderedBy_iff reverse first.hasValues_key second.hasValues_key]
    cases reverse with
    | false => simp [Boundary.le_iff]
    | true => simp [Boundary.le_iff, eq_comm]
  cases reverse with
  | false =>
      have hmap := @List.map_insertionSort _ _
        (fun first second : OrderedRow platform columns => first.key ≤ second.key)
        (fun first second => orderedBy platform (ordering columns false) first second = true) _ _
        OrderedRow.row rows fun first _ second _ => by simpa using (hrelation first second).symm
      simpa [Keyset.ordered] using hmap.symm
  | true =>
      have hmap := @List.map_insertionSort _ _
        (fun first second : OrderedRow platform columns => second.key ≤ first.key)
        (fun first second => orderedBy platform (ordering columns true) first second = true) _ _
        OrderedRow.row rows fun first _ second _ => by simpa using (hrelation first second).symm
      have hlisted := Keyset.enumerates_ordered hkeys
      have hreverse : rows.insertionSort (fun first second => second.key ≤ first.key) =
          (Keyset.ordered OrderedRow.key rows).reverse := by
        have htotal : Std.Total fun first second : OrderedRow platform columns =>
            second.key ≤ first.key := ⟨fun first second => le_total second.key first.key⟩
        have htrans : IsTrans (OrderedRow platform columns) fun first second =>
            second.key ≤ first.key := ⟨fun _ _ _ hfirst hsecond => le_trans hsecond hfirst⟩
        have hsorted : (rows.insertionSort fun first second => second.key ≤ first.key).Pairwise
            fun first second => second.key ≤ first.key := List.pairwise_insertionSort _ rows
        have hdescending : (Keyset.ordered OrderedRow.key rows).reverse.Pairwise
            fun first second => second.key ≤ first.key := by
          rw [List.pairwise_reverse]
          exact hlisted.ascending.imp fun hless => hless.le
        refine List.Perm.eq_of_pairwise ?_ hsorted hdescending ?_
        · intro first second hfirst hsecond hle hge
          have hmem : ∀ row, row ∈ rows.insertionSort (fun first second => second.key ≤ first.key) →
              row ∈ rows := fun row => (List.perm_insertionSort _ rows).mem_iff.mp
          have hmem' : second ∈ rows := by
            rw [List.mem_reverse] at hsecond
            exact hlisted.perm.mem_iff.mp hsecond
          exact List.inj_on_of_nodup_map hkeys (hmem first hfirst) hmem' (le_antisymm hge hle)
        · exact (List.perm_insertionSort _ rows).trans
            ((List.reverse_perm _).trans hlisted.perm).symm
      rw [← hmap, hreverse]
      simp

theorem filter_boundary (hcolumns : columns ≠ []) (direction : Direction)
    (boundary : Boundary platform.orders columns) :
    (rows.map OrderedRow.row).filter
        (boundaryFilter platform columns boundary.values
          (decide (direction = Direction.previous))).selects =
      (Keyset.selected OrderedRow.key (some (direction, boundary)) rows).map OrderedRow.row := by
  rw [List.filter_map, Keyset.selected]
  congr 1
  apply List.filter_congr
  intro row _
  have hselects := boundaryFilter_selects (decide (direction = Direction.previous)) hcolumns
    row.hasValues_key (boundary.kinds.length_eq).symm
  rw [Function.comp_apply, hselects]
  cases direction with
  | next => simp [Boundary.lt_iff]
  | previous => simp [Boundary.lt_iff]

end Pages

section Fetches

variable {ρ τ : Type} {platform : PaginationPlatform ρ τ} {path : ReadPath}
  {rows : List (OrderedRow platform path.columns)}

/-- A keyset page of ordered rows. -/
abbrev RowPage (platform : PaginationPlatform ρ τ) (path : ReadPath) :=
  Keyset.Page (OrderedRow platform path.columns) (Boundary platform.orders path.columns)

/-- The keyset page at a position. -/
def ReadPath.shown (path : ReadPath) (platform : PaginationPlatform ρ τ)
    (rows : List (OrderedRow platform path.columns))
    (position : Keyset.Position (Boundary platform.orders path.columns)) :
    RowPage platform path :=
  Keyset.fetch OrderedRow.key path.pageSize.toNat position rows

/-- A keyset page with its boundaries signed. -/
def ReadPath.signed (path : ReadPath) (platform : PaginationPlatform ρ τ)
    (page : RowPage platform path) (now : Time) : CursorPage ρ τ where
  items := page.items.map OrderedRow.row
  previousCursor := page.previous.map fun boundary => path.token platform .previous boundary now
  nextCursor := page.next.map fun boundary => path.token platform .next boundary now

theorem offeredCursor_eq (direction : Direction) (offered : Bool)
    (boundary : Option (Boundary platform.orders path.columns)) (now : Time) :
    offeredCursor platform path.columns path.pathNamespace path.context now direction offered
        (boundary.map Boundary.values) =
      .ok ((if offered = true then boundary else none).map fun boundary =>
        path.token platform direction boundary now) := by
  cases boundary with
  | none => simp [offeredCursor]; rfl
  | some boundary =>
      cases offered with
      | false => rfl
      | true =>
          simp only [offeredCursor, Option.map_some, if_true, encodeCursor_eq]
          rfl

/-- What the cursor of a position decodes to. -/
def decodedPosition {columns : List CursorColumn}
    (position : Keyset.Position (Boundary platform.orders columns)) :
    Option (Direction × List CursorValue) :=
  position.map fun place => (place.1, place.2.values)

/-- The database returns the rows of the keyset page. -/
theorem fetchRows_eq {columns : List CursorColumn} {rows : List (OrderedRow platform columns)}
    (hcolumns : columns ≠ []) (hkeys : (rows.map OrderedRow.key).Nodup)
    (position : Keyset.Position (Boundary platform.orders columns)) (pageSize : ℕ) :
    fetchRows platform (rows.map OrderedRow.row) columns position.direction
        ((decodedPosition position).map Prod.snd) pageSize =
      ((Keyset.directed position (Keyset.ordered OrderedRow.key
        (Keyset.selected OrderedRow.key position rows))).take (pageSize + 1)).map
          OrderedRow.row := by
  have hselected : ((Keyset.selected OrderedRow.key position rows).map OrderedRow.key).Nodup :=
    hkeys.sublist (List.filter_sublist.map _)
  have hrows : filterRows platform (rows.map OrderedRow.row) columns position.direction
      ((decodedPosition position).map Prod.snd) =
        (Keyset.selected OrderedRow.key position rows).map OrderedRow.row := by
    cases position with
    | none => simp [Keyset.selected, decodedPosition, filterRows]
    | some place =>
        obtain ⟨direction, boundary⟩ := place
        exact filter_boundary hcolumns direction boundary
  rw [fetchRows, hrows, insertionSort_ordering _ hselected, Keyset.directed, List.map_take]
  cases hdirection : position.direction with
  | next => simp
  | previous => simp

theorem pageBoundaries_eq {columns : List CursorColumn}
    (position : Keyset.Position (Boundary platform.orders columns))
    (items : List (OrderedRow platform columns)) :
    pageBoundaries platform columns ((decodedPosition position).map Prod.snd)
        (items.map OrderedRow.row) =
      .ok (((items.head?.map OrderedRow.key).or (position.map Prod.snd)).map Boundary.values,
        ((items.getLast?.map OrderedRow.key).or (position.map Prod.snd)).map Boundary.values) := by
  have hboundary : (decodedPosition position).map Prod.snd =
      (position.map Prod.snd).map Boundary.values := by
    cases position with
    | none => rfl
    | some place => rfl
  rw [pageBoundaries, List.head?_map, List.getLast?_map, hboundary]
  cases items with
  | nil => rfl
  | cons first rest =>
      have hlast := List.getLast?_eq_some_getLast (List.cons_ne_nil first rest)
      rw [hlast]
      simp only [List.head?_cons, Option.map_some, OrderedRow.modelBoundary_eq]
      rfl

/-- A page is the signed keyset page at the position that its cursor decodes to. -/
theorem fetch_of_decoded (hpath : path.Valid) (hkeys : (rows.map OrderedRow.key).Nodup)
    {cursor : Option τ} {now : Time}
    {position : Keyset.Position (Boundary platform.orders path.columns)}
    (hdecoded : decodeGiven platform path.columns path.pathNamespace path.context path.maxAge
      now cursor = .ok (decodedPosition position)) :
    path.fetch platform (rows.map OrderedRow.row) cursor now =
      .ok (path.signed platform (path.shown platform rows position) now) := by
  have hdirection : (((decodedPosition position).map Prod.fst).getD .next : Direction) =
      position.direction := by
    cases position with
    | none => rfl
    | some place => rfl
  have hsome : (decodedPosition position).isSome = position.isSome := by
    cases position with
    | none => rfl
    | some place => rfl
  have hrows := fetchRows_eq hpath.columns hkeys position path.pageSize.toNat
  have hitems : ∀ found : List (OrderedRow platform path.columns),
      (if position.direction = Direction.previous then (found.map OrderedRow.row).reverse
        else found.map OrderedRow.row) =
          (Keyset.directed position found).map OrderedRow.row := by
    intro found
    rw [Keyset.directed]
    cases position.direction with
    | next => simp
    | previous => simp
  rw [ReadPath.fetch, paginateKeyset, if_neg hpath.columns, if_neg (not_not.mpr hpath.pageSize),
    if_neg hpath.namespace_accepted, hdecoded]
  simp only [bind, Except.bind, pure, Except.pure, hdirection, hsome, hrows, List.length_map,
    ← List.map_take, hitems, pageBoundaries_eq, offeredCursor_eq]
  simp only [ReadPath.signed, ReadPath.shown, Keyset.fetch, Bool.or_eq_true, Bool.and_eq_true,
    decide_eq_true_eq]

/-- The cursor stands for the position: no cursor for the first page, else a token. -/
inductive Represents (path : ReadPath) (platform : PaginationPlatform ρ τ) :
    Option τ → Keyset.Position (Boundary platform.orders path.columns) → Prop
  | start : Represents path platform none none
  | token (direction : Direction) (boundary : Boundary platform.orders path.columns)
      (issuedAt : Time) :
      Represents path platform (some (path.token platform direction boundary issuedAt))
        (some (direction, boundary))

theorem decodeGiven_token (direction : Direction)
    (boundary : Boundary platform.orders path.columns) (issuedAt now : Time) :
    decodeGiven platform path.columns path.pathNamespace path.context path.maxAge now
        (some (path.token platform direction boundary issuedAt)) =
      (decodeCursor platform path.columns path.pathNamespace path.context path.maxAge now
        (path.token platform direction boundary issuedAt)).map some := by
  have hnonempty : 0 < platform.signer.length (path.token platform direction boundary issuedAt) :=
    platform.signer.dumps_nonempty _ _ _
  have hkept : (some (path.token platform direction boundary issuedAt)).filter
      (fun cursor => decide (platform.signer.length cursor ≠ 0)) =
        some (path.token platform direction boundary issuedAt) := by
    simp [Nat.ne_of_gt hnonempty]
  rw [decodeGiven, hkept]

theorem fetch_start (hpath : path.Valid) (hkeys : (rows.map OrderedRow.key).Nodup)
    (now : Time) :
    path.fetch platform (rows.map OrderedRow.row) none now =
      .ok (path.signed platform (path.shown platform rows none) now) :=
  fetch_of_decoded hpath hkeys rfl

/-- A token that is accepted leads to the page at its boundary. -/
theorem fetch_token (hpath : path.Valid) (hkeys : (rows.map OrderedRow.key).Nodup)
    {direction : Direction} {boundary : Boundary platform.orders path.columns}
    {issuedAt now : Time}
    (haccepts : path.Accepts platform (path.token platform direction boundary issuedAt)
      issuedAt now) :
    path.fetch platform (rows.map OrderedRow.row)
        (some (path.token platform direction boundary issuedAt)) now =
      .ok (path.signed platform (path.shown platform rows (some (direction, boundary))) now) := by
  apply fetch_of_decoded hpath hkeys
  rw [decodeGiven_token, (decodeCursor_token direction boundary issuedAt now).1 haccepts]
  rfl

/-- A refused cursor gives no page. -/
theorem fetch_fails (hpath : path.Valid) (queryset : List ρ) {cursor : Option τ} {now : Time}
    {failure : PaginationFailure}
    (hdecoded : decodeGiven platform path.columns path.pathNamespace path.context path.maxAge
      now cursor = .error failure) :
    path.fetch platform queryset cursor now = .error failure := by
  rw [ReadPath.fetch, paginateKeyset, if_neg hpath.columns, if_neg (not_not.mpr hpath.pageSize),
    if_neg hpath.namespace_accepted, hdecoded]
  rfl

/-- Every page that a fetch returns is the signed page at the position of its cursor. -/
theorem fetch_represented (hpath : path.Valid) (hkeys : (rows.map OrderedRow.key).Nodup)
    {cursor : Option τ} {now : Time}
    {position : Keyset.Position (Boundary platform.orders path.columns)}
    (hcursor : Represents path platform cursor position) {page : CursorPage ρ τ}
    (hpage : path.fetch platform (rows.map OrderedRow.row) cursor now = .ok page) :
    page = path.signed platform (path.shown platform rows position) now := by
  cases hcursor with
  | start =>
      rw [fetch_start hpath hkeys] at hpage
      exact (Except.ok.inj hpage).symm
  | token direction boundary issuedAt =>
      by_cases haccepts : path.Accepts platform
          (path.token platform direction boundary issuedAt) issuedAt now
      · rw [fetch_token hpath hkeys haccepts] at hpage
        exact (Except.ok.inj hpage).symm
      · have hrefused := (decodeCursor_token direction boundary issuedAt now).2 haccepts
        have hdecoded := decodeGiven_token direction boundary issuedAt now
        rw [hrefused] at hdecoded
        rw [fetch_fails hpath (rows.map OrderedRow.row) hdecoded] at hpage
        contradiction

end Fetches

/-! ## Walks -/

/-- Pages that follow each other by their next cursors, each fetched from rows of its own at
a time of its own, until a page offers none. -/
inductive PageWalk {ρ τ : Type} (path : ReadPath) (platform : PaginationPlatform ρ τ) :
    List (List ρ × Time) → Option τ → List (CursorPage ρ τ) → Prop
  | last {queryset : List ρ} {now : Time} {cursor : Option τ} {page : CursorPage ρ τ}
      (hpage : path.fetch platform queryset cursor now = .ok page)
      (hend : page.nextCursor = none) : PageWalk path platform [(queryset, now)] cursor [page]
  | more {queryset : List ρ} {now : Time} {visits : List (List ρ × Time)} {cursor : Option τ}
      {page : CursorPage ρ τ} {pages : List (CursorPage ρ τ)} {next : τ}
      (hpage : path.fetch platform queryset cursor now = .ok page)
      (hnext : page.nextCursor = some next)
      (hrest : PageWalk path platform visits (some next) pages) :
      PageWalk path platform ((queryset, now) :: visits) cursor (page :: pages)

/-- The pages that next and previous cursors lead to from the first page. -/
inductive Reached {ρ τ : Type} (path : ReadPath) (platform : PaginationPlatform ρ τ)
    (queryset : List ρ) : Time → CursorPage ρ τ → Prop
  | start {now : Time} {page : CursorPage ρ τ}
      (hpage : path.fetch platform queryset none now = .ok page) :
      Reached path platform queryset now page
  | next {issuedAt now : Time} {earlier page : CursorPage ρ τ} {cursor : τ}
      (hreached : Reached path platform queryset issuedAt earlier)
      (hcursor : earlier.nextCursor = some cursor)
      (hpage : path.fetch platform queryset (some cursor) now = .ok page) :
      Reached path platform queryset now page
  | previous {issuedAt now : Time} {earlier page : CursorPage ρ τ} {cursor : τ}
      (hreached : Reached path platform queryset issuedAt earlier)
      (hcursor : earlier.previousCursor = some cursor)
      (hpage : path.fetch platform queryset (some cursor) now = .ok page) :
      Reached path platform queryset now page

section Walks

variable {ρ τ : Type} {platform : PaginationPlatform ρ τ} {path : ReadPath}
  {rows : List (OrderedRow platform path.columns)}

theorem ReadPath.Valid.pageSize_pos (hpath : path.Valid) : 0 < path.pageSize.toNat := by
  have hsize := hpath.pageSize
  omega

theorem flatMap_items {pages : List (CursorPage ρ τ)} {shown : List (RowPage platform path)}
    (hitems : pages.map CursorPage.items =
      shown.map fun page => page.items.map OrderedRow.row) :
    pages.flatMap CursorPage.items =
      (shown.flatMap Keyset.Page.items).map OrderedRow.row := by
  rw [List.flatMap_def, hitems, List.flatMap_def, List.map_flatten, List.map_map]
  rfl

/-- The signed pages of a keyset walk over fixed rows are a walk. -/
theorem pageWalk_of_walk (hpath : path.Valid) (hkeys : (rows.map OrderedRow.key).Nodup)
    {clock : ℕ → Time}
    (haccepts : ∀ visit, ∀ found ∈ rows,
      path.Accepts platform (path.token platform .next found.key (clock visit)) (clock visit)
        (clock (visit + 1)))
    {sources : List (List (OrderedRow platform path.columns))}
    {position : Keyset.Position (Boundary platform.orders path.columns)}
    {pages : List (RowPage platform path)}
    (hwalk : Keyset.Walk OrderedRow.key path.pageSize.toNat sources position pages)
    (hsources : ∀ source ∈ sources, source = rows) (hforward : position.direction = .next)
    {cursor : Option τ} {visit : ℕ}
    (hfetch : path.fetch platform (rows.map OrderedRow.row) cursor (clock visit) =
      .ok (path.signed platform (path.shown platform rows position) (clock visit))) :
    ∃ signed, PageWalk path platform
        ((List.range' visit pages.length).map fun visit =>
          (rows.map OrderedRow.row, clock visit)) cursor signed ∧
      signed.map CursorPage.items = pages.map fun page => page.items.map OrderedRow.row := by
  induction hwalk generalizing cursor visit with
  | @last source position hend =>
      have hsource : source = rows := hsources source (List.mem_singleton.mpr rfl)
      subst hsource
      refine ⟨_, .last hfetch ?_, rfl⟩
      exact congrArg (Option.map _) hend
  | @more source sources position boundary pages hnext hrest ih =>
      have hsource : source = rows := hsources source (List.mem_cons_self ..)
      subst hsource
      have hlisted := Keyset.enumerates_ordered hkeys
      obtain ⟨first, last, rest, hsplit, _, hboundary⟩ :=
        Keyset.fetch_next_boundary hlisted hpath.pageSize_pos hforward hnext
      have hlast : last ∈ source := by
        have hmem : last ∈ Keyset.selected OrderedRow.key position
            (Keyset.ordered OrderedRow.key source) := by simp [hsplit]
        exact hlisted.perm.mem_iff.mp ((Keyset.mem_selected_iff hforward).mp hmem).1
      have haccepted := haccepts visit last hlast
      rw [← hboundary] at haccepted
      obtain ⟨signed, hsigned, hitems⟩ :=
        ih (fun later hlater => hsources later (List.mem_cons_of_mem _ hlater)) rfl
          (fetch_token hpath hkeys haccepted)
      refine ⟨path.signed platform (path.shown platform source position) (clock visit) :: signed,
        ?_, ?_⟩
      · rw [List.length_cons, List.range'_succ, List.map_cons]
        refine .more hfetch ?_ hsigned
        exact congrArg (Option.map _) hnext
      · rw [List.map_cons, List.map_cons, hitems]
        rfl

/-- The rows of a walk are those of a keyset walk. -/
theorem walk_of_pageWalk (hpath : path.Valid)
    {visits : List (List (OrderedRow platform path.columns) × Time)} {cursor : Option τ}
    {pages : List (CursorPage ρ τ)}
    {position : Keyset.Position (Boundary platform.orders path.columns)}
    (hkeys : ∀ visit ∈ visits, (visit.1.map OrderedRow.key).Nodup)
    (hcursor : Represents path platform cursor position)
    (hwalk : PageWalk path platform
      (visits.map fun visit => (visit.1.map OrderedRow.row, visit.2)) cursor pages) :
    ∃ shown, Keyset.Walk OrderedRow.key path.pageSize.toNat (visits.map Prod.fst) position
        shown ∧
      pages.map CursorPage.items = shown.map fun page => page.items.map OrderedRow.row := by
  induction visits generalizing cursor pages position with
  | nil => cases hwalk
  | cons visit visits ih =>
      have hnodup := hkeys visit (List.mem_cons_self ..)
      have hlater : ∀ later ∈ visits, (later.1.map OrderedRow.key).Nodup :=
        fun later hmem => hkeys later (List.mem_cons_of_mem _ hmem)
      generalize hvisits : (visit :: visits).map (fun visit =>
        (visit.1.map OrderedRow.row, visit.2)) = given at hwalk
      rw [List.map_cons] at hvisits
      cases hwalk with
      | last hpage hend =>
          obtain ⟨hfirst, hnone⟩ := List.cons.inj hvisits
          cases hfirst
          rw [List.map_eq_nil_iff] at hnone
          have hsigned := fetch_represented hpath hnodup hcursor hpage
          rw [hsigned] at hend ⊢
          subst hnone
          exact ⟨_, .last (Option.map_eq_none_iff.mp hend), rfl⟩
      | @more _ _ _ _ page rest next hpage hnext hrest =>
          obtain ⟨hfirst, hothers⟩ := List.cons.inj hvisits
          cases hfirst
          have hsigned := fetch_represented hpath hnodup hcursor hpage
          rw [hsigned] at hnext ⊢
          obtain ⟨boundary, hboundary, htoken⟩ := Option.map_eq_some_iff.mp hnext
          rw [← hothers, ← htoken] at hrest
          obtain ⟨shown, hwalk, hitems⟩ := ih hlater (.token .next boundary visit.2) hrest
          refine ⟨_, .more hboundary hwalk, ?_⟩
          rw [List.map_cons, List.map_cons, hitems]
          rfl

/-- Every reached page is a signed page of a visited position. -/
theorem Reached.visited (hpath : path.Valid) (hkeys : (rows.map OrderedRow.key).Nodup)
    {now : Time} {page : CursorPage ρ τ}
    (hreached : Reached path platform (rows.map OrderedRow.row) now page) :
    ∃ position, Keyset.Visited OrderedRow.key path.pageSize.toNat rows position ∧
      page = path.signed platform (path.shown platform rows position) now := by
  induction hreached with
  | start hpage => exact ⟨none, .start, fetch_represented hpath hkeys .start hpage⟩
  | @next issuedAt now earlier page cursor hreached hcursor hpage ih =>
      obtain ⟨position, hvisited, hearlier⟩ := ih
      rw [hearlier] at hcursor
      obtain ⟨boundary, hboundary, htoken⟩ := Option.map_eq_some_iff.mp hcursor
      rw [← htoken] at hpage
      exact ⟨_, .next hvisited hboundary, fetch_represented hpath hkeys (.token ..) hpage⟩
  | @previous issuedAt now earlier page cursor hreached hcursor hpage ih =>
      obtain ⟨position, hvisited, hearlier⟩ := ih
      rw [hearlier] at hcursor
      obtain ⟨boundary, hboundary, htoken⟩ := Option.map_eq_some_iff.mp hcursor
      rw [← htoken] at hpage
      exact ⟨_, .previous hvisited hboundary, fetch_represented hpath hkeys (.token ..) hpage⟩

/-- Following the next cursors from the first page yields every row once in the declared
order, in pages that are full but the last; the previous cursor of the next page gives the
same page, signed anew; and a row that stays is yielded exactly once while others come and
go. -/
theorem keyset_pages_enumerate (hpath : path.Valid) :
    (∀ (rows : List (OrderedRow platform path.columns)) (clock : ℕ → Time),
      (rows.map OrderedRow.key).Nodup →
        (∀ visit, ∀ found ∈ rows,
          path.Accepts platform (path.token platform .next found.key (clock visit))
            (clock visit) (clock (visit + 1))) →
          ∃ pages, PageWalk path platform
              ((List.range' 0 pages.length).map fun visit =>
                (rows.map OrderedRow.row, clock visit)) none pages ∧
            pages.flatMap CursorPage.items =
              (Keyset.ordered OrderedRow.key rows).map OrderedRow.row ∧
            ∀ page ∈ pages.dropLast, page.items.length = path.pageSize) ∧
    (∀ (rows : List (OrderedRow platform path.columns)), (rows.map OrderedRow.key).Nodup →
      ∀ now page cursor, Reached path platform (rows.map OrderedRow.row) now page →
        page.nextCursor = some cursor → ∀ later following,
          path.fetch platform (rows.map OrderedRow.row) (some cursor) later = .ok following →
            ∃ back shown, following.previousCursor = some back ∧
              page = path.signed platform shown now ∧
                ∀ last, path.Accepts platform back later last →
                  path.fetch platform (rows.map OrderedRow.row) (some back) last =
                    .ok (path.signed platform shown last)) ∧
    ∀ (visits : List (List (OrderedRow platform path.columns) × Time)) (ι : Type)
      [DecidableEq ι] (identity : ρ → ι) (wanted : ι)
      (found : Boundary platform.orders path.columns),
      (∀ visit ∈ visits, Keyset.Holds OrderedRow.key (fun found => identity found.row) wanted
        found visit.1) →
        ∀ pages, PageWalk path platform
          (visits.map fun visit => (visit.1.map OrderedRow.row, visit.2)) none pages →
            (pages.flatMap CursorPage.items).countP (fun row => identity row = wanted) = 1 := by
  refine ⟨?_, ?_, ?_⟩
  · intro rows clock hkeys haccepts
    obtain ⟨shown, hwalk, hshown, hfull⟩ :=
      Keyset.walk_enumerates hpath.pageSize_pos hkeys
    obtain ⟨pages, hpages, hitems⟩ := pageWalk_of_walk hpath hkeys haccepts hwalk
      (fun source hsource => List.eq_of_mem_replicate hsource) rfl
      (fetch_start hpath hkeys (clock 0))
    have hlength : pages.length = shown.length := by
      simpa using congrArg List.length hitems
    rw [← hlength] at hpages
    refine ⟨pages, hpages, ?_, ?_⟩
    · rw [← hshown, flatMap_items hitems]
    · intro page hpage
      have hmem : page.items ∈ (pages.map CursorPage.items).dropLast := by
        rw [← List.map_dropLast]
        exact List.mem_map_of_mem hpage
      rw [hitems, ← List.map_dropLast] at hmem
      obtain ⟨source, hsource, hsame⟩ := List.mem_map.mp hmem
      have hsize := hpath.pageSize
      rw [← hsame, List.length_map, hfull source hsource]
      omega
  · intro rows hkeys now page cursor hreached hcursor later following hfollowing
    obtain ⟨position, hvisited, hpage⟩ := hreached.visited hpath hkeys
    rw [hpage] at hcursor
    obtain ⟨boundary, hboundary, htoken⟩ := Option.map_eq_some_iff.mp hcursor
    rw [← htoken] at hfollowing
    have hnext := fetch_represented hpath hkeys (.token ..) hfollowing
    obtain ⟨back, hback, hsame⟩ :=
      Keyset.previous_of_next hvisited hkeys hpath.pageSize_pos hboundary
    refine ⟨path.token platform .previous back later, path.shown platform rows position, ?_,
      hpage, ?_⟩
    · rw [hnext]
      exact congrArg (Option.map _) hback
    · intro last haccepts
      rw [fetch_token hpath hkeys haccepts]
      have hshown : path.shown platform rows (some (.previous, back)) =
          path.shown platform rows position := hsame
      rw [hshown]
  · intro visits ι _ identity wanted found hholds pages hpages
    obtain ⟨shown, hwalk, hitems⟩ := walk_of_pageWalk hpath
      (fun visit hvisit => (hholds visit hvisit).keys) .start hpages
    have hcount := hwalk.count_eq_one hpath.pageSize_pos rfl
      (fun rows hrows => by
        obtain ⟨visit, hvisit, hsame⟩ := List.mem_map.mp hrows
        rw [← hsame]
        exact hholds visit hvisit)
      ⟨rfl, by simp⟩
    rw [flatMap_items hitems, List.countP_map]
    exact hcount

end Walks

/-! ## A computed read path -/

/-- Values compare by their kinds and contents. -/
def CursorValue.rank : CursorValue → List ℤ
  | .text value => 0 :: value.map fun c => c.toNat
  | .integer value => [1, value]
  | .datetime value => [2, value.1.year, value.1.month, value.1.day, value.1.hour,
      value.1.minute, value.1.second, value.1.microsecond]
  | .uuid value => [3, value.1]

theorem CursorValue.rank_injective : CursorValue.rank.Injective := by
  intro first second hsame
  cases first with
  | text first =>
      cases second with
      | text second =>
          have hchars : first.map (fun c => (c.toNat : ℤ)) = second.map fun c => (c.toNat : ℤ) := by
            simpa [CursorValue.rank] using hsame
          have hinjective : (fun c : Char => (c.toNat : ℤ)).Injective := by
            intro one two hone
            have hvalue : (one.toNat : ℤ) = two.toNat := hone
            exact Char.toNat_inj.mp (by exact_mod_cast hvalue)
          rw [hinjective.list_map hchars]
      | _ => simp [CursorValue.rank] at hsame
  | integer first =>
      cases second with
      | integer second => simpa [CursorValue.rank] using hsame
      | _ => simp [CursorValue.rank] at hsame
  | datetime first =>
      cases second with
      | datetime second =>
          obtain ⟨⟨_, _, _, _, _, _, _⟩, _⟩ := first
          obtain ⟨⟨_, _, _, _, _, _, _⟩, _⟩ := second
          simpa [CursorValue.rank] using hsame
      | _ => simp [CursorValue.rank] at hsame
  | uuid first =>
      cases second with
      | uuid second =>
          have hvalue : (first.1 : ℤ) = second.1 := by simpa [CursorValue.rank] using hsame
          have hnumber : first.1 = second.1 := by exact_mod_cast hvalue
          rw [Fin.ext hnumber]
      | _ => simp [CursorValue.rank] at hsame

/-- One order for every column. -/
def rankOrders : ColumnOrders where
  less _ first second := first.rank < second.rank
  decidable _ first second := inferInstanceAs (Decidable (first.rank < second.rank))
  total _ :=
    { irrefl := fun value => lt_irrefl value.rank
      trans := fun _ _ _ hfirst hsecond => lt_trans hfirst hsecond
      trichotomous := fun _ _ hless hmore =>
        CursorValue.rank_injective (le_antisymm (not_lt.mp hmore) (not_lt.mp hless)) }

mutual

/-- The length of the compact JSON text of ASCII content. -/
def Json.width : Json → ℕ
  | .null => 4
  | .bool true => 4
  | .bool false => 5
  | .number value => (toString value).length
  | .text value => value.length + 2
  | .list items => Json.itemsWidth items + 1
  | .object members => Json.membersWidth members + 1

def Json.itemsWidth : List Json → ℕ
  | [] => 1
  | [item] => item.width + 1
  | item :: rest => item.width + 1 + Json.itemsWidth rest

def Json.membersWidth : List (String × Json) → ℕ
  | [] => 1
  | [(name, value)] => name.length + 3 + value.width + 1
  | (name, value) :: rest => name.length + 3 + value.width + 1 + Json.membersWidth rest

end

/-- What a signed token vouches for. -/
structure SignedToken where
  payload : Json
  salt : Text
  issuedAt : Time

/-- Signatures that nobody forges; a token is the base64 form of its JSON text, a timestamp of
six characters and a signature of 43 characters. -/
def tokenSigner : CursorSigner SignedToken where
  length token := (4 * token.payload.width + 2) / 3 + 51
  dumps payload salt issuedAt := ⟨payload, salt, issuedAt⟩
  dumps_nonempty _ _ _ := Nat.succ_pos _
  loads token salt maxAge now :=
    if token.salt = salt ∧ now - token.issuedAt.wholeSecond ≤ seconds maxAge then
      some token.payload
    else none
  loads_dumps := by
    intro direction values salt issuedAt maxAge checkedAt
    simp

/-- Users are listed by their SOEIDs. -/
def userListing : PaginationPlatform Text SignedToken where
  orders := rankOrders
  signer := tokenSigner
  sha256 bytes := (numeral 16 64 bytes.length)
  valueAt user _ := some (.text user)

def soeidColumn : CursorColumn where
  field := "soeid".toList
  kind := .text
  descending := false
  isPublic := by decide

def userPath (pageSize : ℤ) : ReadPath where
  columns := [soeidColumn]
  pathNamespace := "users".toList
  context := []
  pageSize := pageSize
  maxAge := cursorMaxAgeSeconds

def listedUser (soeid : Text) : OrderedRow userListing (userPath 2).columns where
  row := soeid
  valued column hcolumn := by
    have hsoeid : column = soeidColumn := List.mem_singleton.mp hcolumn
    exact ⟨.text soeid, rfl, by rw [hsoeid]; rfl⟩

theorem userPath_valid : (userPath 2).Valid where
  columns := by decide
  pageSize := by decide
  pathNamespace := by decide

theorem userPath_accepts (soeid : Text) (hshort : soeid.length ≤ 1000) :
    (userPath 2).Accepts userListing
      ((userPath 2).token userListing .next (listedUser soeid).key 0) 0 0 := by
  have hwidth : (cursorObject .next [.text soeid]).width = soeid.length + 27 := by
    have hversion : (Int.repr 1).length = 1 := by decide
    have hv : "v".length = 1 := rfl
    have hd : "d".length = 1 := rfl
    have hp : "p".length = 1 := rfl
    simp only [cursorObject, Json.width, Json.membersWidth, Json.itemsWidth, hv, hd, hp]
    simp [hversion]
    omega
  constructor
  · change (4 * (cursorObject .next [.text soeid]).width + 2) / 3 + 51 ≤ 2048
    rw [hwidth]
    omega
  · decide

theorem ok_of_toOption {ε α : Type} {outcome : Except ε α} {found : α}
    (hfound : outcome.toOption = some found) : outcome = .ok found := by
  cases outcome with
  | error failure => contradiction
  | ok value =>
      have hvalue : value = found := Option.some.inj hfound
      rw [hvalue]

theorem error_of_toOption_isNone {ε α : Type} {outcome : Except ε α}
    (hnone : outcome.toOption.isNone = true) : ∃ failure, outcome = .error failure := by
  cases outcome with
  | error failure => exact ⟨failure, rfl⟩
  | ok value => contradiction

/-- The page size, the number of columns and the length of a cursor are bounded. -/
theorem refused_pages :
    (userPath 101).fetch userListing ["A".toList] none 0 =
        .error (.value "page_size must be between 1 and 100") ∧
      ({ userPath 2 with columns := [] } : ReadPath).fetch userListing ["A".toList] none 0 =
        .error (.value "keyset pagination requires at least one ordering column") ∧
      ∃ page next, (userPath 1).fetch userListing
          [List.replicate 2000 'A', List.replicate 2000 'B'] none 0 = .ok page ∧
        page.nextCursor = some next ∧
          ∃ failure, (userPath 1).fetch userListing
            [List.replicate 2000 'A', List.replicate 2000 'B'] (some next) 0 =
              .error failure := by
  have hcomputed : ((userPath 1).fetch userListing
      [List.replicate 2000 'A', List.replicate 2000 'B'] none 0).toOption.map (fun page =>
        page.nextCursor.map fun next =>
          ((userPath 1).fetch userListing [List.replicate 2000 'A', List.replicate 2000 'B']
            (some next) 0).toOption.isNone) = some (some true) := by
    decide +kernel
  obtain ⟨page, hpage, hrefused⟩ := Option.map_eq_some_iff.mp hcomputed
  obtain ⟨next, hnext, hnone⟩ := Option.map_eq_some_iff.mp hrefused
  exact ⟨rfl, rfl, page, next, ok_of_toOption hpage, hnext, error_of_toOption_isNone hnone⟩

/-- Three users on two pages. -/
theorem three_users_enumerated :
    ∃ pages, PageWalk (userPath 2) userListing
        ((List.range' 0 pages.length).map fun _ =>
          (["B".toList, "C".toList, "A".toList], 0)) none pages ∧
      pages.flatMap CursorPage.items = ["A".toList, "B".toList, "C".toList] := by
  have henumerates := (@keyset_pages_enumerate _ _ userListing _ userPath_valid).1
    [listedUser "B".toList, listedUser "C".toList, listedUser "A".toList] (fun _ => 0)
  obtain ⟨pages, hwalk, hitems, _⟩ := henumerates (by decide +kernel) (by
    intro visit found hfound
    simp only [List.mem_cons, List.not_mem_nil, or_false] at hfound
    obtain rfl | rfl | rfl := hfound
    · exact userPath_accepts _ (by decide)
    · exact userPath_accepts _ (by decide)
    · exact userPath_accepts _ (by decide))
  refine ⟨pages, hwalk, ?_⟩
  rw [hitems]
  decide +kernel

end Agora
