import Mathlib.Data.List.Sort
import Mathlib.Tactic

/-!
# Enumeration by keysets

A keyset page holds the first rows beyond a boundary in the order of their keys, and one
more row is fetched to see whether the enumeration goes on.  Rows may come and go between
two pages: a page depends on its boundary only, never on the rows of the page before it.
-/

namespace Keyset

variable {ρ κ : Type}

inductive Direction where
  | next
  | previous
  deriving DecidableEq, Repr

/-- In a direction from a boundary, or at the first row. -/
abbrev Position (κ : Type) := Option (Direction × κ)

structure Page (ρ κ : Type) where
  items : List ρ
  previous : Option κ
  next : Option κ
  deriving DecidableEq

section Pages

variable [LinearOrder κ] (key : ρ → κ)

def ordered (rows : List ρ) : List ρ :=
  rows.insertionSort fun first second => key first ≤ key second

/-- The rows beyond the boundary of a position. -/
def selected (position : Position κ) (rows : List ρ) : List ρ :=
  rows.filter fun row =>
    match position with
    | none => true
    | some (.next, boundary) => boundary < key row
    | some (.previous, boundary) => key row < boundary

def Position.direction (position : Position κ) : Direction :=
  (position.map Prod.fst).getD .next

/-- The rows in the direction of a position. -/
def directed (position : Position κ) (rows : List ρ) : List ρ :=
  match position.direction with
  | .next => rows
  | .previous => rows.reverse

def fetch (size : ℕ) (position : Position κ) (rows : List ρ) : Page ρ κ :=
  let fetched := (directed position (ordered key (selected key position rows))).take (size + 1)
  let items := directed position (fetched.take size)
  let boundary := position.map Prod.snd
  { items := items
    previous :=
      if (position.isSome ∧ position.direction = .next) ∨
          (position.direction = .previous ∧ size < fetched.length) then
        (items.head?.map key).or boundary
      else none
    next :=
      if (position.direction = .next ∧ size < fetched.length) ∨
          (position.isSome ∧ position.direction = .previous) then
        (items.getLast?.map key).or boundary
      else none }

/-- The rows in the order of their keys. -/
structure Enumerates (rows listed : List ρ) : Prop where
  perm : listed.Perm rows
  ascending : listed.Pairwise fun first second => key first < key second

variable {key} {rows listed other : List ρ}

theorem Enumerates.unique (hlisted : Enumerates key rows listed)
    (hother : Enumerates key rows other) : listed = other := by
  refine List.Perm.eq_of_pairwise ?_ hlisted.ascending hother.ascending
    (hlisted.perm.trans hother.perm.symm)
  intro first second _ _ hless hmore
  exact absurd hless (lt_asymm hmore)

theorem enumerates_ordered (hkeys : (rows.map key).Nodup) :
    Enumerates key rows (ordered key rows) := by
  have htotal : Std.Total fun first second : ρ => key first ≤ key second :=
    ⟨fun first second => le_total (key first) (key second)⟩
  have htrans : IsTrans ρ fun first second => key first ≤ key second :=
    ⟨fun _ _ _ hfirst hsecond => le_trans hfirst hsecond⟩
  have hperm : (ordered key rows).Perm rows := List.perm_insertionSort _ rows
  have hsorted : (ordered key rows).Pairwise fun first second => key first ≤ key second :=
    List.pairwise_insertionSort _ rows
  have hdistinct : (ordered key rows).Pairwise fun first second => key first ≠ key second :=
    List.pairwise_map.mp ((hperm.map key).nodup_iff.mpr hkeys)
  refine ⟨hperm, (hsorted.and hdistinct).imp ?_⟩
  intro first second hboth
  exact lt_of_le_of_ne hboth.1 hboth.2

theorem Enumerates.keys_nodup (hlisted : Enumerates key rows listed) :
    (rows.map key).Nodup := by
  rw [← (hlisted.perm.map key).nodup_iff]
  apply List.pairwise_map.mpr
  exact hlisted.ascending.imp fun hless => ne_of_lt hless

theorem Enumerates.filter (hlisted : Enumerates key rows listed) (keep : ρ → Bool) :
    Enumerates key (rows.filter keep) (listed.filter keep) :=
  ⟨hlisted.perm.filter keep, hlisted.ascending.filter keep⟩

theorem Enumerates.ordered_eq (hlisted : Enumerates key rows listed) :
    ordered key rows = listed :=
  (enumerates_ordered hlisted.keys_nodup).unique hlisted

/-- Selection and ordering commute. -/
theorem Enumerates.ordered_selected (hlisted : Enumerates key rows listed)
    (position : Position κ) :
    ordered key (selected key position rows) = selected key position listed :=
  (hlisted.filter _).ordered_eq

theorem Enumerates.selected_ascending (hlisted : Enumerates key rows listed)
    (position : Position κ) :
    (selected key position listed).Pairwise fun first second => key first < key second :=
  hlisted.ascending.filter _

/-- A filter that keeps the first items keeps the first page. -/
theorem take_filter_eq_iff {α : Type} {kept : α → Bool} {items : List α} {count : ℕ} :
    (items.filter kept).take count = items.take count ↔
      ∀ item ∈ items.take count, kept item = true := by
  constructor
  · intro hsame item hitem
    rw [← hsame] at hitem
    exact (List.mem_filter.mp (List.mem_of_mem_take hitem)).2
  · intro hkept
    have hfirst : (items.take count).filter kept = items.take count :=
      List.filter_eq_self.mpr hkept
    have hsplit : items.filter kept = items.take count ++ (items.drop count).filter kept :=
      calc
        items.filter kept = (items.take count ++ items.drop count).filter kept := by
          rw [List.take_append_drop]
        _ = items.take count ++ (items.drop count).filter kept := by
          rw [List.filter_append, hfirst]
    rw [hsplit]
    by_cases hshort : items.length ≤ count
    · rw [List.drop_eq_nil_of_le hshort, List.filter_nil, List.append_nil, List.take_take,
        min_self]
    · rw [List.take_append_of_le_length, List.take_take, min_self]
      rw [List.length_take]
      omega

/-! ## Rows around a boundary -/

theorem selected_next {before after : List ρ} {row : ρ}
    (hascending : (before ++ row :: after).Pairwise fun first second => key first < key second) :
    selected key (some (.next, key row)) (before ++ row :: after) = after := by
  obtain ⟨_, hrest, hbefore⟩ := List.pairwise_append.mp hascending
  obtain ⟨hafter, _⟩ := List.pairwise_cons.mp hrest
  have hnone : before.filter (fun found => decide (key row < key found)) = [] := by
    rw [List.filter_eq_nil_iff]
    intro found hfound
    have hless := hbefore found hfound row (List.mem_cons_self ..)
    simpa using hless.le
  have hall : after.filter (fun found => decide (key row < key found)) = after := by
    rw [List.filter_eq_self]
    intro found hfound
    simpa using hafter found hfound
  simp [selected, hnone, hall]

theorem selected_previous {before after : List ρ} {row : ρ}
    (hascending : (before ++ row :: after).Pairwise fun first second => key first < key second) :
    selected key (some (.previous, key row)) (before ++ row :: after) = before := by
  obtain ⟨_, hrest, hbefore⟩ := List.pairwise_append.mp hascending
  obtain ⟨hafter, _⟩ := List.pairwise_cons.mp hrest
  have hall : before.filter (fun found => decide (key found < key row)) = before := by
    rw [List.filter_eq_self]
    intro found hfound
    simpa using hbefore found hfound row (List.mem_cons_self ..)
  have hnone : after.filter (fun found => decide (key found < key row)) = [] := by
    rw [List.filter_eq_nil_iff]
    intro found hfound
    have hless := hafter found hfound
    simpa using hless.le
  simp [selected, hall, hnone]

/-! ## The rank of a row -/

/-- A row is among the first ones iff fewer rows have smaller keys. -/
theorem mem_take_ordered_iff {count : ℕ} {row : ρ} (hkeys : (rows.map key).Nodup)
    (hrow : row ∈ rows) :
    row ∈ (ordered key rows).take count ↔
      rows.countP (fun other => key other < key row) < count := by
  have hlisted := enumerates_ordered hkeys
  obtain ⟨before, after, hsplit⟩ := List.append_of_mem (hlisted.perm.mem_iff.mpr hrow)
  have hascending := hlisted.ascending
  rw [hsplit, List.pairwise_append, List.pairwise_cons] at hascending
  obtain ⟨_, ⟨hafter, _⟩, hbefore⟩ := hascending
  have hrank : rows.countP (fun other => key other < key row) = before.length := by
    rw [← hlisted.perm.countP_eq, hsplit, List.countP_append, List.countP_cons]
    have hless : before.countP (fun other => key other < key row) = before.length := by
      rw [List.countP_eq_length]
      intro other hother
      simpa using hbefore other hother row (by simp)
    have hmore : after.countP (fun other => key other < key row) = 0 := by
      rw [List.countP_eq_zero]
      intro other hother
      simpa using (hafter other hother).le
    rw [hless, hmore]
    simp
  rw [hrank, hsplit]
  constructor
  · intro hmem
    by_contra hlong
    have htake : (before ++ row :: after).take count = before.take count :=
      List.take_append_of_le_length (Nat.not_lt.mp hlong)
    rw [htake] at hmem
    exact absurd (hbefore row (List.mem_of_mem_take hmem) row (by simp)) (lt_irrefl _)
  · intro hshort
    rw [List.mem_take_iff_getElem]
    refine ⟨before.length, ?_, ?_⟩
    · simp
      omega
    · simp

/-- The rows listed before the limit cuts a row off. -/
theorem before_cut {count : ℕ} {row : ρ} (hkeys : (rows.map key).Nodup) (hrow : row ∈ rows)
    (hcut : row ∉ (ordered key rows).take count) :
    ((ordered key rows).take count).length = count ∧
      ∀ other ∈ (ordered key rows).take count, key other < key row := by
  have hlisted := enumerates_ordered hkeys
  obtain ⟨before, after, hsplit⟩ := List.append_of_mem (hlisted.perm.mem_iff.mpr hrow)
  have hascending := hlisted.ascending
  rw [hsplit, List.pairwise_append] at hascending
  have hlong : count ≤ before.length := by
    by_contra hshort
    apply hcut
    rw [hsplit, List.take_append, List.mem_append]
    right
    obtain ⟨more, hmore⟩ := Nat.exists_eq_succ_of_ne_zero
      (Nat.sub_ne_zero_of_lt (Nat.not_le.mp hshort))
    rw [hmore]
    simp
  have htake : (ordered key rows).take count = before.take count := by
    rw [hsplit, List.take_append_of_le_length hlong]
  rw [htake]
  refine ⟨List.length_take_of_le hlong, ?_⟩
  intro other hother
  exact hascending.2.2 other (List.mem_of_mem_take hother) row (by simp)

end Pages

/-! ## Pages of a fixed list of rows -/

section Fixed

variable [LinearOrder κ] {key : ρ → κ} {size : ℕ} {rows listed before after : List ρ}

theorem fetch_start (hlisted : Enumerates key rows listed) :
    fetch key size none rows =
      { items := listed.take size
        previous := none
        next := if size < listed.length then (listed.take size).getLast?.map key else none } := by
  have hordered : ordered key (selected key none rows) = listed := by
    simpa [selected] using hlisted.ordered_eq
  simp [fetch, hordered, directed, Position.direction, List.take_take]

theorem fetch_next {row : ρ} (hlisted : Enumerates key rows (before ++ row :: after)) :
    fetch key size (some (.next, key row)) rows =
      { items := after.take size
        previous := ((after.take size).head?.map key).or (some (key row))
        next :=
          if size < after.length then ((after.take size).getLast?.map key).or (some (key row))
          else none } := by
  have hordered := hlisted.ordered_selected (some (.next, key row))
  rw [selected_next hlisted.ascending] at hordered
  simp [fetch, hordered, directed, Position.direction, List.take_take]

theorem fetch_previous {row : ρ} (hlisted : Enumerates key rows (before ++ row :: after)) :
    fetch key size (some (.previous, key row)) rows =
      { items := before.drop (before.length - size)
        previous :=
          if size < before.length then
            ((before.drop (before.length - size)).head?.map key).or (some (key row))
          else none
        next := ((before.drop (before.length - size)).getLast?.map key).or (some (key row)) } := by
  have hordered := hlisted.ordered_selected (some (.previous, key row))
  rw [selected_previous hlisted.ascending] at hordered
  have hitems : (before.reverse.take size).reverse = before.drop (before.length - size) := by
    rw [List.take_reverse, List.reverse_reverse]
  simp [fetch, hordered, directed, Position.direction, List.take_take, hitems]

/-! ## Walks over a fixed list of rows -/

/-- Pages that follow each other by their next boundaries, each fetched from rows of its
own. -/
inductive Walk (key : ρ → κ) (size : ℕ) :
    List (List ρ) → Position κ → List (Page ρ κ) → Prop
  | last {rows : List ρ} {position : Position κ}
      (hend : (fetch key size position rows).next = none) :
      Walk key size [rows] position [fetch key size position rows]
  | more {rows : List ρ} {sources : List (List ρ)} {position : Position κ} {boundary : κ}
      {pages : List (Page ρ κ)}
      (hnext : (fetch key size position rows).next = some boundary)
      (hrest : Walk key size sources (some (.next, boundary)) pages) :
      Walk key size (rows :: sources) position (fetch key size position rows :: pages)

theorem Walk.pages_ne_nil {sources : List (List ρ)} {position : Position κ}
    {pages : List (Page ρ κ)} (hwalk : Walk key size sources position pages) : pages ≠ [] := by
  cases hwalk with
  | last hend => exact List.cons_ne_nil _ _
  | more hnext hrest => exact List.cons_ne_nil _ _

/-- The pages from a position on show the remaining rows. -/
theorem walk_of_rest {position : Position κ} (hsize : 0 < size)
    (hlisted : Enumerates key rows (before ++ after))
    (hitems : (fetch key size position rows).items = after.take size)
    (hnext : (fetch key size position rows).next =
      if size < after.length then (after.take size).getLast?.map key else none) :
    ∃ pages, Walk key size (List.replicate pages.length rows) position pages ∧
      pages.flatMap Page.items = after ∧ ∀ page ∈ pages.dropLast, page.items.length = size := by
  induction hlength : after.length using Nat.strong_induction_on
    generalizing before after position with
  | h length ih =>
      by_cases hlonger : size < after.length
      · have htaken : after.take size ≠ [] := by
          rw [← List.length_pos_iff, List.length_take]
          omega
        obtain ⟨first, last, htake⟩ :=
          (List.eq_nil_or_concat' (after.take size)).resolve_left htaken
        have hafter : after = first ++ last :: after.drop size := by
          calc
            after = after.take size ++ after.drop size := (List.take_append_drop size after).symm
            _ = first ++ last :: after.drop size := by rw [htake]; simp
        have hrest : Enumerates key rows ((before ++ first) ++ last :: after.drop size) := by
          rw [List.append_assoc, ← hafter]
          exact hlisted
        have hboundary : (fetch key size position rows).next = some (key last) := by
          rw [hnext, if_pos hlonger, htake]
          simp
        have hlast : Enumerates key rows ((before ++ first ++ [last]) ++ after.drop size) := by
          simpa using hrest
        have hfetch := @fetch_next _ _ _ _ size _ _ _ _ hrest
        have hfetched : (fetch key size (some (.next, key last)) rows).next =
            if size < (after.drop size).length then
              ((after.drop size).take size).getLast?.map key else none := by
          rw [hfetch]
          by_cases hmore : size < (after.drop size).length
          · have hsome : ((after.drop size).take size) ≠ [] := by
              rw [← List.length_pos_iff, List.length_take]
              omega
            simp only [if_pos hmore, List.getLast?_eq_some_getLast hsome, Option.map_some,
              Option.some_or]
          · simp only [if_neg hmore]
        have hshorter : (after.drop size).length < length := by
          rw [List.length_drop]
          omega
        obtain ⟨pages, hwalk, hshown, hfull⟩ :=
          ih _ hshorter hlast (by rw [hfetch]) hfetched rfl
        refine ⟨fetch key size position rows :: pages, .more hboundary hwalk, ?_, ?_⟩
        · rw [List.flatMap_cons, hshown, hitems, List.take_append_drop]
        · intro page hpage
          rw [List.dropLast_cons_of_ne_nil hwalk.pages_ne_nil, List.mem_cons] at hpage
          cases hpage with
          | inl hfirst =>
              rw [hfirst, hitems, List.length_take]
              omega
          | inr hlater => exact hfull page hlater
      · have hall : after.take size = after := List.take_of_length_le (by omega)
        refine ⟨[fetch key size position rows], .last ?_, ?_, by simp⟩
        · rw [hnext, if_neg hlonger]
        · rw [List.flatMap_cons, hitems, hall]
          simp

/-- Following the next boundaries from the first page shows every row once, in order, and all
pages but the last are full. -/
theorem walk_enumerates (hsize : 0 < size) (hkeys : (rows.map key).Nodup) :
    ∃ pages, Walk key size (List.replicate pages.length rows) none pages ∧
      pages.flatMap Page.items = ordered key rows ∧
        ∀ page ∈ pages.dropLast, page.items.length = size := by
  have hlisted := enumerates_ordered hkeys
  have hfetch := @fetch_start _ _ _ _ size _ _ hlisted
  exact @walk_of_rest _ _ _ key size rows [] (ordered key rows) none hsize hlisted
    (by rw [hfetch]) (by rw [hfetch])

/-! ## The way back -/

/-- The positions that following next and previous boundaries from the first page leads to. -/
inductive Visited (key : ρ → κ) (size : ℕ) (rows : List ρ) : Position κ → Prop
  | start : Visited key size rows none
  | next {position : Position κ} {boundary : κ} (hvisited : Visited key size rows position)
      (hnext : (fetch key size position rows).next = some boundary) :
      Visited key size rows (some (.next, boundary))
  | previous {position : Position κ} {boundary : κ} (hvisited : Visited key size rows position)
      (hprevious : (fetch key size position rows).previous = some boundary) :
      Visited key size rows (some (.previous, boundary))

/-- The page shows these rows, between the ones before and after it. -/
structure Shows (key : ρ → κ) (size : ℕ) (listed : List ρ) (page : Page ρ κ)
    (before items after : List ρ) : Prop where
  split : listed = before ++ (items ++ after)
  bounded : items.length ≤ size
  nonempty : items = [] → before = [] ∧ after = []
  full : after = [] ∨ before = [] ∨ items.length = size
  page_eq : page =
    { items := items
      previous := if before = [] then none else items.head?.map key
      next := if after = [] then none else items.getLast?.map key }

theorem shows_start (hlisted : Enumerates key rows listed) (hsize : 0 < size) :
    Shows key size listed (fetch key size none rows) [] (listed.take size)
      (listed.drop size) where
  split := (List.take_append_drop size listed).symm
  bounded := List.length_take_le size listed
  nonempty hempty := by
    have hnone : listed = [] := by
      rw [List.take_eq_nil_iff] at hempty
      apply hempty.resolve_left
      omega
    simp [hnone]
  full := .inr (.inl rfl)
  page_eq := by
    rw [fetch_start hlisted]
    by_cases hlonger : size < listed.length
    · have hmore : listed.drop size ≠ [] := by
        rw [← List.length_pos_iff, List.length_drop]
        omega
      simp [hlonger, hmore]
    · have hend : listed.drop size = [] := List.drop_of_length_le (by omega)
      simp [hlonger, hend]

theorem shows_next {row : ρ} (hlisted : Enumerates key rows (before ++ row :: after))
    (hsize : 0 < size) (hafter : after ≠ []) :
    Shows key size (before ++ row :: after) (fetch key size (some (.next, key row)) rows)
      (before ++ [row]) (after.take size) (after.drop size) where
  split := by simp
  bounded := List.length_take_le size after
  nonempty hempty := by
    rw [List.take_eq_nil_iff] at hempty
    cases hempty with
    | inl hzero => omega
    | inr hnone => exact absurd hnone hafter
  full := by
    by_cases hlonger : size < after.length
    · right
      right
      rw [List.length_take]
      omega
    · exact .inl (List.drop_of_length_le (by omega))
  page_eq := by
    have htaken : after.take size ≠ [] := by
      rw [ne_eq, List.take_eq_nil_iff]
      simp only [hafter, or_false]
      omega
    rw [fetch_next hlisted]
    by_cases hlonger : size < after.length
    · have hmore : after.drop size ≠ [] := by
        rw [← List.length_pos_iff, List.length_drop]
        omega
      simp [hlonger, hmore, List.head?_eq_some_head htaken, List.getLast?_eq_some_getLast htaken]
    · have hend : after.drop size = [] := List.drop_of_length_le (by omega)
      simp [hlonger, hend, List.head?_eq_some_head htaken]

theorem shows_previous {row : ρ} (hlisted : Enumerates key rows (before ++ row :: after))
    (hsize : 0 < size) (hbefore : before ≠ []) :
    Shows key size (before ++ row :: after) (fetch key size (some (.previous, key row)) rows)
      (before.take (before.length - size)) (before.drop (before.length - size))
      (row :: after) where
  split := by
    rw [← List.append_assoc, List.take_append_drop]
  bounded := by
    rw [List.length_drop]
    omega
  nonempty hempty := by
    rw [List.drop_eq_nil_iff] at hempty
    have hlength := List.length_pos_iff.mpr hbefore
    omega
  full := by
    by_cases hlonger : size < before.length
    · right
      right
      rw [List.length_drop]
      omega
    · right
      left
      rw [List.take_eq_nil_iff]
      omega
  page_eq := by
    have hlength := List.length_pos_iff.mpr hbefore
    have hdropped : before.drop (before.length - size) ≠ [] := by
      rw [← List.length_pos_iff, List.length_drop]
      omega
    rw [fetch_previous hlisted]
    by_cases hlonger : size < before.length
    · have hmore : before.take (before.length - size) ≠ [] := by
        rw [← List.length_pos_iff, List.length_take]
        omega
      simp only [hlonger, hmore, if_true, if_false, List.head?_eq_some_head hdropped,
        List.getLast?_eq_some_getLast hdropped, Option.map_some, Option.some_or,
        List.cons_ne_nil]
    · have hend : before.take (before.length - size) = [] := by
        rw [List.take_eq_nil_iff]
        omega
      simp only [hlonger, hend, if_true, if_false, List.getLast?_eq_some_getLast hdropped,
        Option.map_some, Option.some_or, List.cons_ne_nil]

omit [LinearOrder κ] in
theorem Shows.next_boundary {page : Page ρ κ} {items : List ρ} {boundary : κ}
    (hshows : Shows key size listed page before items after)
    (hnext : page.next = some boundary) :
    ∃ first last, items = first ++ [last] ∧ boundary = key last ∧ after ≠ [] := by
  rw [hshows.page_eq] at hnext
  have hafter : after ≠ [] := by
    intro hnone
    simp [hnone] at hnext
  have hitems : items ≠ [] := fun hempty => hafter (hshows.nonempty hempty).2
  simp only [if_neg hafter, List.getLast?_eq_some_getLast hitems, Option.map_some,
    Option.some.injEq] at hnext
  exact ⟨_, _, (List.dropLast_append_getLast hitems).symm, hnext.symm, hafter⟩

omit [LinearOrder κ] in
theorem Shows.previous_boundary {page : Page ρ κ} {items : List ρ} {boundary : κ}
    (hshows : Shows key size listed page before items after)
    (hprevious : page.previous = some boundary) :
    ∃ first rest, items = first :: rest ∧ boundary = key first ∧ before ≠ [] := by
  rw [hshows.page_eq] at hprevious
  have hbefore : before ≠ [] := by
    intro hnone
    simp [hnone] at hprevious
  cases items with
  | nil => exact absurd (hshows.nonempty rfl).1 hbefore
  | cons first rest =>
      simp only [if_neg hbefore, List.head?_cons, Option.map_some, Option.some.injEq] at hprevious
      exact ⟨first, rest, rfl, hprevious.symm, hbefore⟩

/-- Every page on the way shows a stretch of the ordered rows. -/
theorem Visited.shows {position : Position κ} (hvisited : Visited key size rows position)
    (hlisted : Enumerates key rows listed) (hsize : 0 < size) :
    ∃ before items after,
      Shows key size listed (fetch key size position rows) before items after := by
  induction hvisited with
  | start => exact ⟨_, _, _, shows_start hlisted hsize⟩
  | next _ hnext ih =>
      obtain ⟨before, items, after, hshows⟩ := ih
      obtain ⟨first, last, hitems, hboundary, hafter⟩ := hshows.next_boundary hnext
      have hsplit : listed = (before ++ first) ++ last :: after := by
        rw [hshows.split, hitems]
        simp
      rw [hsplit] at hlisted
      rw [hboundary, hsplit]
      exact ⟨_, _, _, shows_next hlisted hsize hafter⟩
  | previous _ hprevious ih =>
      obtain ⟨before, items, after, hshows⟩ := ih
      obtain ⟨first, rest, hitems, hboundary, hbefore⟩ := hshows.previous_boundary hprevious
      have hsplit : listed = before ++ first :: (rest ++ after) := by
        rw [hshows.split, hitems]
        simp
      rw [hsplit] at hlisted
      rw [hboundary, hsplit]
      exact ⟨_, _, _, shows_previous hlisted hsize hbefore⟩

/-- The previous boundary of the next page leads back to the same page. -/
theorem previous_of_next {position : Position κ} {boundary : κ}
    (hvisited : Visited key size rows position) (hkeys : (rows.map key).Nodup)
    (hsize : 0 < size) (hnext : (fetch key size position rows).next = some boundary) :
    ∃ back, (fetch key size (some (.next, boundary)) rows).previous = some back ∧
      fetch key size (some (.previous, back)) rows = fetch key size position rows := by
  have hlisted := enumerates_ordered hkeys
  obtain ⟨before, items, after, hshows⟩ := hvisited.shows hlisted hsize
  obtain ⟨first, last, hitems, hboundary, hafter⟩ := hshows.next_boundary hnext
  obtain ⟨head, rest, hhead⟩ := List.exists_cons_of_ne_nil hafter
  have hsplit : ordered key rows = (before ++ first) ++ last :: after := by
    rw [hshows.split, hitems]
    simp
  have hsplitBack : ordered key rows = (before ++ items) ++ head :: rest := by
    rw [hshows.split, hhead]
    simp
  have hforth := hlisted
  rw [hsplit] at hforth
  have hback := hlisted
  rw [hsplitBack] at hback
  have hnextPage := shows_next hforth hsize hafter
  refine ⟨key head, ?_, ?_⟩
  · rw [hboundary, hnextPage.page_eq]
    have htaken : (after.take size).head? = some head := by
      rw [hhead, List.head?_take, if_neg (by omega)]
      rfl
    simp [htaken]
  · have hnonempty : before ++ items ≠ [] := by simp [hitems]
    have hreturned := shows_previous hback hsize hnonempty
    have hbounded := hshows.bounded
    have hstart : (before ++ items).length - size = before.length := by
      rw [List.length_append]
      cases hshows.full with
      | inl hnone => exact absurd hnone hafter
      | inr hfull =>
          cases hfull with
          | inl hnone =>
              rw [hnone, List.length_nil]
              omega
          | inr hlength => omega
    rw [hreturned.page_eq, hshows.page_eq, hstart, List.take_left', List.drop_left', hhead]
    · rfl
    · rfl

end Fixed

/-! ## Walks over changing rows -/

section Changing

variable [LinearOrder κ] {key : ρ → κ} {size : ℕ} {rows listed : List ρ} {position : Position κ}

/-- The key lies beyond the boundary of a position in the next direction. -/
def Position.Reaches (position : Position κ) (found : κ) : Prop :=
  position.direction = .next ∧ ∀ boundary ∈ position.map Prod.snd, boundary < found

theorem mem_selected_iff (hforward : position.direction = .next) {row : ρ} :
    row ∈ selected key position listed ↔ row ∈ listed ∧ position.Reaches (key row) := by
  unfold selected Position.Reaches
  rw [List.mem_filter]
  cases position with
  | none => simp [Position.direction]
  | some position =>
      obtain ⟨direction, boundary⟩ := position
      cases hforward
      simp [Position.direction]

theorem fetch_forward (hlisted : Enumerates key rows listed)
    (hforward : position.direction = .next) :
    (fetch key size position rows).items = (selected key position listed).take size ∧
      (fetch key size position rows).next =
        if size < (selected key position listed).length then
          (((selected key position listed).take size).getLast?.map key).or
            (position.map Prod.snd)
        else none := by
  have hordered := hlisted.ordered_selected position
  simp [fetch, hordered, directed, hforward, List.take_take]

/-- The boundary of the next page is the key of the last row of a full page. -/
theorem fetch_next_boundary (hlisted : Enumerates key rows listed) (hsize : 0 < size)
    (hforward : position.direction = .next) {boundary : κ}
    (hnext : (fetch key size position rows).next = some boundary) :
    ∃ first last rest, selected key position listed = first ++ last :: rest ∧
      (fetch key size position rows).items = first ++ [last] ∧ boundary = key last := by
  obtain ⟨hitems, hboundary⟩ := @fetch_forward _ _ _ _ size _ _ _ hlisted hforward
  rw [hnext] at hboundary
  by_cases hlonger : size < (selected key position listed).length
  · have htaken : (selected key position listed).take size ≠ [] := by
      rw [← List.length_pos_iff, List.length_take]
      omega
    obtain ⟨first, last, htake⟩ := (List.eq_nil_or_concat' _).resolve_left htaken
    rw [if_pos hlonger, htake, List.getLast?_concat, Option.map_some, Option.some_or] at hboundary
    refine ⟨first, last, (selected key position listed).drop size, ?_, hitems.trans htake,
      Option.some.inj hboundary⟩
    calc
      selected key position listed =
          (selected key position listed).take size ++
            (selected key position listed).drop size := (List.take_append_drop _ _).symm
      _ = first ++ last :: (selected key position listed).drop size := by
          rw [htake]
          simp
  · rw [if_neg hlonger] at hboundary
    contradiction

variable {ι : Type} [DecidableEq ι] {identity : ρ → ι} {wanted : ι} {found : κ}

/-- The rows hold the wanted row with this key, and no other row has its identity. -/
structure Holds (key : ρ → κ) (identity : ρ → ι) (wanted : ι) (found : κ) (rows : List ρ) :
    Prop where
  keys : (rows.map key).Nodup
  identities : (rows.map identity).Nodup
  present : ∃ row ∈ rows, identity row = wanted ∧ key row = found

omit [LinearOrder κ] [DecidableEq ι] in
theorem Holds.key_eq (hholds : Holds key identity wanted found rows) {row : ρ}
    (hrow : row ∈ rows) (hidentity : identity row = wanted) : key row = found := by
  obtain ⟨present, hpresent, hwanted, hkey⟩ := hholds.present
  have hsame : row = present :=
    List.inj_on_of_nodup_map hholds.identities hrow hpresent (hidentity.trans hwanted.symm)
  rw [hsame, hkey]

theorem Holds.count_eq (hholds : Holds key identity wanted found rows)
    (hlisted : Enumerates key rows listed) :
    listed.countP (fun row => identity row = wanted) = 1 := by
  obtain ⟨present, hpresent, hwanted, _⟩ := hholds.present
  have hcount : listed.countP (fun row => identity row = wanted) =
      (listed.map identity).count wanted := by
    rw [List.count_eq_countP, List.countP_map]
    congr 1
  rw [hcount]
  apply List.count_eq_one_of_mem
  · exact (hlisted.perm.map identity).nodup_iff.mpr hholds.identities
  · rw [← hwanted]
    exact List.mem_map_of_mem (hlisted.perm.mem_iff.mpr hpresent)

/-- A row behind the boundary is not shown again. -/
theorem Walk.count_eq_zero {sources : List (List ρ)} {pages : List (Page ρ κ)}
    (hwalk : Walk key size sources position pages) (hsize : 0 < size)
    (hforward : position.direction = .next)
    (hholds : ∀ rows ∈ sources, Holds key identity wanted found rows)
    (hbehind : ¬ position.Reaches found) :
    (pages.flatMap Page.items).countP (fun row => identity row = wanted) = 0 := by
  have hpage : ∀ {position : Position κ} {rows : List ρ}, position.direction = .next →
      ¬ position.Reaches found → Holds key identity wanted found rows →
        (fetch key size position rows).items.countP (fun row => identity row = wanted) = 0 := by
    intro position rows hforward hbehind hrows
    have hlisted := enumerates_ordered hrows.keys
    rw [List.countP_eq_zero]
    intro row hrow hidentity
    rw [(fetch_forward hlisted hforward).1] at hrow
    obtain ⟨hmem, hreaches⟩ := (mem_selected_iff hforward).mp (List.mem_of_mem_take hrow)
    have hkey := hrows.key_eq (hlisted.perm.mem_iff.mp hmem) (by simpa using hidentity)
    exact hbehind (hkey ▸ hreaches)
  induction hwalk with
  | last hend => simpa using hpage hforward hbehind (hholds _ (List.mem_singleton.mpr rfl))
  | @more rows sources position boundary pages hnext hrest ih =>
      have hrows := hholds rows (List.mem_cons_self ..)
      have hlisted := enumerates_ordered hrows.keys
      obtain ⟨first, last, rest, hsplit, _, hboundary⟩ :=
        fetch_next_boundary hlisted hsize hforward hnext
      have hlast : position.Reaches (key last) := by
        have hmem : last ∈ selected key position (ordered key rows) := by simp [hsplit]
        exact ((mem_selected_iff hforward).mp hmem).2
      rw [List.flatMap_cons, List.countP_append, hpage hforward hbehind hrows, Nat.zero_add]
      apply ih rfl fun rows hmem => hholds rows (List.mem_cons_of_mem _ hmem)
      intro hreaches
      apply hbehind
      have hbeyond : boundary < found := hreaches.2 boundary rfl
      rw [hboundary] at hbeyond
      exact ⟨hforward, fun earlier hearlier => (hlast.2 earlier hearlier).trans hbeyond⟩

/-- A row that stays beyond the boundary is shown exactly once. -/
theorem Walk.count_eq_one {sources : List (List ρ)} {pages : List (Page ρ κ)}
    (hwalk : Walk key size sources position pages) (hsize : 0 < size)
    (hforward : position.direction = .next)
    (hholds : ∀ rows ∈ sources, Holds key identity wanted found rows)
    (hreaches : position.Reaches found) :
    (pages.flatMap Page.items).countP (fun row => identity row = wanted) = 1 := by
  have hcount : ∀ {position : Position κ} {rows : List ρ}, position.direction = .next →
      position.Reaches found → Holds key identity wanted found rows →
        (selected key position (ordered key rows)).countP
          (fun row => identity row = wanted) = 1 := by
    intro position rows hforward hreaches hrows
    have hlisted := enumerates_ordered hrows.keys
    have hall : (ordered key rows).countP (fun row => identity row = wanted) =
        (selected key position (ordered key rows)).countP
          (fun row => identity row = wanted) := by
      unfold selected
      rw [List.countP_filter]
      apply List.countP_congr
      intro row hrow
      constructor
      · intro hidentity
        have hkey := hrows.key_eq (hlisted.perm.mem_iff.mp hrow) (by simpa using hidentity)
        have hmem : row ∈ selected key position (ordered key rows) :=
          (mem_selected_iff hforward).mpr ⟨hrow, hkey ▸ hreaches⟩
        unfold selected at hmem
        rw [Bool.and_eq_true]
        exact ⟨hidentity, (List.mem_filter.mp hmem).2⟩
      · intro hboth
        exact (Bool.and_eq_true _ _ ▸ hboth).1
    rw [← hall]
    exact hrows.count_eq hlisted
  induction hwalk with
  | @last rows position hend =>
      have hrows := hholds rows (List.mem_singleton.mpr rfl)
      have hlisted := enumerates_ordered hrows.keys
      obtain ⟨hitems, hnext⟩ := @fetch_forward _ _ _ _ size _ _ _ hlisted hforward
      have hall : (selected key position (ordered key rows)).length ≤ size := by
        by_contra hlonger
        rw [hend, if_pos (by omega)] at hnext
        have htaken : (selected key position (ordered key rows)).take size ≠ [] := by
          rw [← List.length_pos_iff, List.length_take]
          omega
        simp [List.getLast?_eq_some_getLast htaken] at hnext
      rw [List.flatMap_cons, List.flatMap_nil, List.append_nil, hitems,
        List.take_of_length_le hall]
      exact hcount hforward hreaches hrows
  | @more rows sources position boundary pages hnext hrest ih =>
      have hrows := hholds rows (List.mem_cons_self ..)
      have hlater : ∀ rows ∈ sources, Holds key identity wanted found rows :=
        fun rows hmem => hholds rows (List.mem_cons_of_mem _ hmem)
      have hlisted := enumerates_ordered hrows.keys
      obtain ⟨first, last, rest, hsplit, hitems, hboundary⟩ :=
        fetch_next_boundary hlisted hsize hforward hnext
      have hascending := hlisted.selected_ascending position
      have hone := hcount hforward hreaches hrows
      have hkey : ∀ row ∈ selected key position (ordered key rows), identity row = wanted →
          key row = found := by
        intro row hrow hidentity
        have hmem := ((mem_selected_iff hforward).mp hrow).1
        exact hrows.key_eq (hlisted.perm.mem_iff.mp hmem) hidentity
      rw [hsplit] at hascending hone hkey
      obtain ⟨_, hend, hfirst⟩ := List.pairwise_append.mp hascending
      have hrest' := (List.pairwise_cons.mp hend).1
      rw [List.flatMap_cons, List.countP_append, hitems]
      by_cases hbeyond : boundary < found
      · have hnone : (first ++ [last]).countP (fun row => identity row = wanted) = 0 := by
          rw [List.countP_eq_zero]
          intro row hrow hidentity
          have hfound := hkey row (by simp at hrow ⊢; tauto) (by simpa using hidentity)
          have hle : key row ≤ key last := by
            rw [List.mem_append, List.mem_singleton] at hrow
            cases hrow with
            | inl hbefore => exact (hfirst row hbefore last (List.mem_cons_self ..)).le
            | inr hsame => rw [hsame]
          rw [hboundary, ← hfound] at hbeyond
          exact absurd hbeyond (not_lt_of_ge hle)
        rw [hnone, Nat.zero_add]
        exact ih rfl hlater ⟨rfl, fun earlier hearlier => by cases hearlier; exact hbeyond⟩
      · have hzero : (pages.flatMap Page.items).countP (fun row => identity row = wanted) = 0 :=
          hrest.count_eq_zero hsize rfl hlater fun hreached => hbeyond (hreached.2 boundary rfl)
        have hafter : rest.countP (fun row => identity row = wanted) = 0 := by
          rw [List.countP_eq_zero]
          intro row hrow hidentity
          have hfound := hkey row (by simp [hrow]) (by simpa using hidentity)
          apply hbeyond
          rw [hboundary, ← hfound]
          exact hrest' row hrow
        have hcons : first ++ last :: rest = (first ++ [last]) ++ rest := by simp
        rw [hcons, List.countP_append, hafter, Nat.add_zero] at hone
        rw [hone, hzero]

end Changing

end Keyset
