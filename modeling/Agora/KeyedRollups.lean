import Agora.RowTable

/-!
# Rollups of a stream of events under keys

A summary condenses a list of events so that the summary of two lists together
is merged from their summaries.  A rollup holds one summary for each key.
Adding a batch group by group to the rollup of the earlier events gives the
rollup of all events, so how the stream is cut into batches does not matter.
The last section keeps a rollup in a table with one row for each key.
-/

universe u v w

section Grouping

variable {κ ρ : Type*} [DecidableEq κ]

/-- The distinct values of a list in the order of their first occurrences, as the
keys of a dictionary filled from it. -/
def firstSeen : List κ → List κ
  | [] => []
  | key :: rest => key :: (firstSeen rest).filter (· ≠ key)

/-- The rows of a list under each key. -/
def grouped (key : ρ → κ) (rows : List ρ) : List (κ × List ρ) :=
  (firstSeen (rows.map key)).map fun value => (value, rows.filter fun row => key row = value)

@[simp] theorem mem_firstSeen {keys : List κ} {key : κ} :
    key ∈ firstSeen keys ↔ key ∈ keys := by
  induction keys with
  | nil => simp [firstSeen]
  | cons first rest ih =>
      simp only [firstSeen, List.mem_cons, List.mem_filter, ih, decide_eq_true_eq]
      by_cases hfirst : key = first
      · simp [hfirst]
      · simp [hfirst]

theorem nodup_firstSeen (keys : List κ) : (firstSeen keys).Nodup := by
  induction keys with
  | nil => exact List.nodup_nil
  | cons first rest ih =>
      rw [firstSeen, List.nodup_cons]
      exact ⟨by simp, ih.filter _⟩

end Grouping

/-- How one event is measured and how measurements are merged. -/
structure Summary (ρ : Type u) (ν : Type v) where
  measure : ρ → ν
  merge : ν → ν → ν
  assoc : ∀ first second third,
    merge (merge first second) third = merge first (merge second third)
  comm : ∀ first second, merge first second = merge second first

namespace Summary

variable {ρ : Type u} {ν : Type v} {κ : Type w} [DecidableEq κ] (summary : Summary ρ ν)

/-- The merged measurement of a list of events, absent for the empty one. -/
def of : List ρ → Option ν
  | [] => none
  | event :: rest => Option.merge summary.merge (some (summary.measure event)) (of rest)

@[simp] theorem of_nil : summary.of [] = none := rfl

theorem of_cons (event : ρ) (rest : List ρ) :
    summary.of (event :: rest) =
      Option.merge summary.merge (some (summary.measure event)) (summary.of rest) :=
  rfl

theorem merge_assoc (first second third : Option ν) :
    Option.merge summary.merge (Option.merge summary.merge first second) third =
      Option.merge summary.merge first (Option.merge summary.merge second third) := by
  cases first <;> cases second <;> cases third <;> simp [Option.merge, summary.assoc]

theorem merge_comm (first second : Option ν) :
    Option.merge summary.merge first second = Option.merge summary.merge second first := by
  cases first <;> cases second <;> simp [Option.merge, summary.comm]

theorem of_append (first second : List ρ) :
    summary.of (first ++ second) =
      Option.merge summary.merge (summary.of first) (summary.of second) := by
  induction first with
  | nil =>
      rw [List.nil_append, of_nil]
      cases summary.of second <;> rfl
  | cons event rest ih => rw [List.cons_append, of_cons, of_cons, ih, summary.merge_assoc]

theorem of_perm {first second : List ρ} (hperm : first.Perm second) :
    summary.of first = summary.of second := by
  induction hperm with
  | nil => rfl
  | cons event hrest ih => rw [of_cons, of_cons, ih]
  | swap event other rest =>
      rw [of_cons, of_cons, of_cons, of_cons, ← summary.merge_assoc, ← summary.merge_assoc]
      congr 1
      exact summary.merge_comm _ _
  | trans hfirst hsecond ihfirst ihsecond => exact ihfirst.trans ihsecond

theorem of_eq_none_iff {events : List ρ} : summary.of events = none ↔ events = [] := by
  cases events with
  | nil => simp
  | cons event rest =>
      rw [of_cons]
      cases summary.of rest <;> simp [Option.merge]

/-- The summary of the events under each key. -/
def rollup (key : ρ → κ) (events : List ρ) (value : κ) : Option ν :=
  summary.of (events.filter fun event => key event = value)

/-- The rollup after one more group of events under a key. -/
def advance (view : κ → Option ν) (group : κ × List ρ) : κ → Option ν :=
  Function.update view group.1 (Option.merge summary.merge (view group.1) (summary.of group.2))

theorem advance_of_ne {view : κ → Option ν} {group : κ × List ρ} {value : κ}
    (hne : value ≠ group.1) : summary.advance view group value = view value :=
  Function.update_of_ne hne _ _

theorem foldl_advance_of_not_mem {groups : List (κ × List ρ)} {view : κ → Option ν}
    {value : κ} (hvalue : value ∉ groups.map Prod.fst) :
    groups.foldl summary.advance view value = view value := by
  induction groups generalizing view with
  | nil => rfl
  | cons group rest ih =>
      rw [List.map_cons, List.mem_cons, not_or] at hvalue
      rw [List.foldl_cons, ih hvalue.2, summary.advance_of_ne hvalue.1]

theorem foldl_advance_of_mem {groups : List (κ × List ρ)} {view : κ → Option ν}
    {group : κ × List ρ} (hnodup : (groups.map Prod.fst).Nodup) (hgroup : group ∈ groups) :
    groups.foldl summary.advance view group.1 =
      Option.merge summary.merge (view group.1) (summary.of group.2) := by
  induction groups generalizing view with
  | nil => simp at hgroup
  | cons first rest ih =>
      rw [List.map_cons, List.nodup_cons] at hnodup
      rw [List.foldl_cons]
      rcases List.mem_cons.mp hgroup with rfl | hrest
      · rw [summary.foldl_advance_of_not_mem hnodup.1]
        exact Function.update_self _ _ _
      · have hne : group.1 ≠ first.1 := by
          intro heq
          exact hnodup.1 (heq ▸ List.mem_map_of_mem hrest)
        rw [ih hnodup.2 hrest, summary.advance_of_ne hne]

/-- Adding a batch group by group. -/
theorem rollup_append {key : ρ → κ} {events batch : List ρ} :
    (grouped key batch).foldl summary.advance (summary.rollup key events) =
      summary.rollup key (events ++ batch) := by
  funext value
  have hfst : (grouped key batch).map Prod.fst = firstSeen (batch.map key) := by
    rw [grouped, List.map_map]
    exact List.map_id _
  have hmerged : (grouped key batch).foldl summary.advance (summary.rollup key events) value =
      Option.merge summary.merge (summary.rollup key events value)
        (summary.rollup key batch value) := by
    by_cases hvalue : value ∈ batch.map key
    · have hgroup : (value, batch.filter fun event => key event = value) ∈
          grouped key batch :=
        List.mem_map.mpr ⟨value, mem_firstSeen.mpr hvalue, rfl⟩
      refine summary.foldl_advance_of_mem ?_ hgroup
      rw [hfst]
      exact nodup_firstSeen _
    · have hempty : batch.filter (fun event => key event = value) = [] := by
        rw [List.filter_eq_nil_iff]
        intro event hevent hkey
        exact hvalue (List.mem_map.mpr ⟨event, hevent, by simpa using hkey⟩)
      have hnone : summary.rollup key batch value = none := by
        rw [rollup, hempty, summary.of_nil]
      have hnot : value ∉ (grouped key batch).map Prod.fst := by
        rw [hfst, mem_firstSeen]
        exact hvalue
      rw [summary.foldl_advance_of_not_mem hnot, hnone]
      cases summary.rollup key events value <;> rfl
  rw [hmerged, rollup, rollup, rollup, List.filter_append, summary.of_append]

/-- A rollup does not depend on the order of the events. -/
theorem rollup_perm {key : ρ → κ} {first second : List ρ} (hperm : first.Perm second) :
    summary.rollup key first = summary.rollup key second := by
  funext value
  exact summary.of_perm (hperm.filter _)

/-- Events are counted by measuring each as one. -/
def counting (ρ : Type u) : Summary ρ ℕ where
  measure _ := 1
  merge := (· + ·)
  assoc := Nat.add_assoc
  comm := Nat.add_comm

theorem counting_of (events : List ρ) :
    (counting ρ).of events = if events = [] then none else some events.length := by
  induction events with
  | nil => rfl
  | cons event rest ih =>
      rw [of_cons, ih]
      cases rest with
      | nil => rfl
      | cons other rest => simp [counting, Option.merge, Nat.add_comm]

end Summary

/-! ## Rollups kept in a table -/

section RollupTable

variable {ρ : Type u} {ι : Type v} {κ : Type w} {ν : Type*} [Keyed ρ ι] [DecidableEq ι]
  [DecidableEq κ]

/-- The value that a table holds for a rollup key. -/
def Table.viewed (table : Table ρ) (key : ρ → κ) (value : ρ → ν) (wanted : κ) : Option ν :=
  (table.rows.find? fun row => key row = wanted).map value

namespace Table

variable {table next : Table ρ} {row old : ρ} {key : ρ → κ} {value : ρ → ν}

omit [DecidableEq ι] in
theorem viewed_eq_none {wanted : κ} (hnone : table.where? (fun row => key row = wanted) = []) :
    table.viewed key value wanted = none := by
  unfold viewed
  rw [Option.map_eq_none_iff, List.find?_eq_none]
  exact List.filter_eq_nil_iff.mp hnone

omit [DecidableEq ι] in
theorem viewed_eq_some_iff (hnodup : (table.rows.map key).Nodup) {wanted : κ} {held : ν} :
    table.viewed key value wanted = some held ↔
      ∃ row ∈ table, key row = wanted ∧ value row = held := by
  unfold viewed
  rw [Option.map_eq_some_iff]
  constructor
  · rintro ⟨row, hfound, hvalue⟩
    exact ⟨row, List.mem_of_find?_eq_some hfound, by simpa using List.find?_some hfound, hvalue⟩
  · rintro ⟨row, hrow, hkey, hvalue⟩
    cases hfound : table.rows.find? fun other => key other = wanted with
    | none =>
        have hnone := List.find?_eq_none.mp hfound row hrow
        simp [hkey] at hnone
    | some found =>
        have hmem := List.mem_of_find?_eq_some hfound
        have hfoundKey : key found = wanted := by simpa using List.find?_some hfound
        have hsame := List.inj_on_of_nodup_map hnodup hmem hrow (hfoundKey.trans hkey.symm)
        exact ⟨found, rfl, hsame ▸ hvalue⟩

theorem viewed_create (hcreate : table.create row = some next) :
    next.viewed key value =
      Function.update (table.viewed key value) (key row) (some (value row)) := by
  funext wanted
  unfold viewed
  rw [(create_eq_some_iff.mp hcreate).2, List.find?_cons]
  by_cases hkey : key row = wanted
  · subst hkey
    simp
  · have hne : wanted ≠ key row := fun heq => hkey heq.symm
    simp [hkey, Function.update_of_ne hne]

theorem nodup_create (hcreate : table.create row = some next)
    (hnodup : (table.rows.map key).Nodup)
    (hnone : table.where? (fun other => key other = key row) = []) :
    (next.rows.map key).Nodup := by
  rw [(create_eq_some_iff.mp hcreate).2, List.map_cons, List.nodup_cons]
  refine ⟨?_, hnodup⟩
  intro hmem
  rcases List.mem_map.mp hmem with ⟨other, hother, hkey⟩
  have hselected : other ∈ table.where? fun other => key other = key row :=
    mem_where?_iff.mpr ⟨hother, by simpa using hkey⟩
  rw [hnone] at hselected
  simp at hselected

omit [DecidableEq κ] in
/-- Writing a row over the one with its identifier moves no rollup key. -/
theorem map_key_replace (hold : old ∈ table) (hid : Keyed.key row = Keyed.key old)
    (hkey : key row = key old) :
    (table.replace row).rows.map key = table.rows.map key := by
  unfold replace
  rw [List.map_map]
  apply List.map_congr_left
  intro other hother
  rw [Function.comp_apply]
  by_cases hsame : Keyed.key other = Keyed.key row
  · rw [if_pos hsame, hkey, eq_of_key_eq hother hold (hsame.trans hid)]
  · rw [if_neg hsame]

theorem viewed_replace (hold : old ∈ table) (hid : Keyed.key row = Keyed.key old)
    (hkey : key row = key old) (hnodup : (table.rows.map key).Nodup) :
    (table.replace row).viewed key value =
      Function.update (table.viewed key value) (key row) (some (value row)) := by
  have hget : table.get? (Keyed.key row) = some old := hid ▸ get?_of_mem hold
  have hafter : ((table.replace row).rows.map key).Nodup := by
    rwa [map_key_replace hold hid hkey]
  funext wanted
  ext held
  rw [viewed_eq_some_iff hafter]
  by_cases hwanted : wanted = key row
  · subst hwanted
    rw [Function.update_self]
    constructor
    · rintro ⟨other, hother, hsame, hvalue⟩
      have hwritten : row ∈ table.replace row := (mem_replace hget).mpr (.inl rfl)
      have heq := List.inj_on_of_nodup_map hafter hother hwritten hsame
      rw [← hvalue, heq]
    · intro hvalue
      exact ⟨row, (mem_replace hget).mpr (.inl rfl), rfl, Option.some.inj hvalue⟩
  · rw [Function.update_of_ne hwanted, viewed_eq_some_iff hnodup]
    constructor
    · rintro ⟨other, hother, hsame, hvalue⟩
      rcases (mem_replace hget).mp hother with rfl | ⟨hmem, _⟩
      · exact absurd hsame.symm hwanted
      · exact ⟨other, hmem, hsame, hvalue⟩
    · rintro ⟨other, hother, hsame, hvalue⟩
      refine ⟨other, (mem_replace hget).mpr (.inr ⟨hother, ?_⟩), hsame, hvalue⟩
      intro heq
      rw [eq_of_key_eq hother hold (heq.trans hid)] at hsame
      exact hwanted (hsame.symm.trans hkey.symm)

omit [DecidableEq ι] in
/-- The counts of the rows whose keys satisfy a predicate add up to the number of
events whose keys do. -/
theorem sum_viewed_counting {σ : Type*} {eventKey : σ → κ} {events : List σ} {count : ρ → ℕ}
    (hnodup : (table.rows.map key).Nodup)
    (hview : ∀ wanted, table.viewed key count wanted =
      (Summary.counting σ).rollup eventKey events wanted) (selected : κ → Bool) :
    ((table.rows.filter fun row => selected (key row)).map count).sum =
      (events.filter fun event => selected (eventKey event)).length := by
  have hcount : ∀ row ∈ table.rows, count row = (events.map eventKey).count (key row) ∧
      key row ∈ events.map eventKey := by
    intro row hrow
    have hsome := hview (key row)
    rw [(viewed_eq_some_iff hnodup).mpr ⟨row, hrow, rfl, rfl⟩, Summary.rollup,
      Summary.counting_of] at hsome
    split at hsome
    · simp at hsome
    · rename_i hnonempty
      rcases List.exists_mem_of_ne_nil _ hnonempty with ⟨event, hevent⟩
      rw [List.mem_filter, decide_eq_true_eq] at hevent
      refine ⟨?_, List.mem_map.mpr ⟨event, hevent⟩⟩
      rw [Option.some.inj hsome, List.count, List.countP_map, List.countP_eq_length_filter]
      rfl
  have hkeys : (table.rows.map key).Perm (events.map eventKey).dedup := by
    rw [List.perm_ext_iff_of_nodup hnodup (List.nodup_dedup _)]
    intro wanted
    rw [List.mem_dedup]
    constructor
    · intro hmem
      rcases List.mem_map.mp hmem with ⟨row, hrow, rfl⟩
      exact (hcount row hrow).2
    · intro hmem
      cases hheld : table.viewed key count wanted with
      | some held =>
          rcases (viewed_eq_some_iff hnodup).mp hheld with ⟨row, hrow, hkey, _⟩
          exact List.mem_map.mpr ⟨row, hrow, hkey⟩
      | none =>
          rw [hview, Summary.rollup, Summary.of_eq_none_iff, List.filter_eq_nil_iff] at hheld
          rcases List.mem_map.mp hmem with ⟨event, hevent, hkey⟩
          exact absurd (by simpa using hkey) (hheld event hevent)
  have hrows : (table.rows.filter fun row => selected (key row)).map count =
      ((table.rows.map key).filter selected).map (events.map eventKey).count := by
    rw [List.filter_map, List.map_map]
    apply List.map_congr_left
    intro row hrow
    exact (hcount row (List.mem_of_mem_filter hrow)).1
  rw [hrows, ((hkeys.filter selected).map _).sum_eq,
    List.sum_map_count_dedup_filter_eq_countP, List.countP_map, List.countP_eq_length_filter]
  rfl

end Table

end RollupTable
