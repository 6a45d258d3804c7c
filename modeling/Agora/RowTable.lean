import Mathlib.Data.List.Nodup
import Mathlib.Tactic

/-!
# Tables with a primary key

A relational table is a list of rows whose keys are pairwise different.  The
uniqueness proof is a field of the structure, so a table with two rows under
one key cannot be built.  Insertion is partial: it refuses a key that is
already present, as a primary-key constraint does.  Updates keep the key of
every row, and deletions keep a sublist.
-/

universe u v

/-- Rows of type `ρ` carry a primary key of type `κ`. -/
class Keyed (ρ : Type u) (κ : outParam (Type v)) where
  key : ρ → κ

structure Table (ρ : Type u) {κ : Type v} [Keyed ρ κ] where
  rows : List ρ
  nodupKeys : (rows.map Keyed.key).Nodup

namespace Table

variable {ρ : Type u} {κ : Type v} [Keyed ρ κ]

instance : Membership ρ (Table ρ) where
  mem table row := row ∈ table.rows

theorem mem_def {table : Table ρ} {row : ρ} :
    row ∈ table ↔ row ∈ table.rows :=
  Iff.rfl

theorem eq_of_key_eq {table : Table ρ} {first second : ρ}
    (hfirst : first ∈ table) (hsecond : second ∈ table)
    (hkey : Keyed.key first = Keyed.key second) : first = second :=
  List.inj_on_of_nodup_map table.nodupKeys hfirst hsecond hkey

def empty : Table ρ where
  rows := []
  nodupKeys := List.nodup_nil

@[simp] theorem not_mem_empty (row : ρ) : row ∉ (empty : Table ρ) := by
  simp [mem_def, empty]

@[simp] theorem rows_empty : (empty : Table ρ).rows = [] := rfl

/-- Delete every row that does not satisfy the predicate. -/
def keep (table : Table ρ) (retained : ρ → Bool) : Table ρ where
  rows := table.rows.filter retained
  nodupKeys := table.nodupKeys.sublist (List.filter_sublist.map _)

@[simp] theorem mem_keep_iff {table : Table ρ} {retained : ρ → Bool} {row : ρ} :
    row ∈ table.keep retained ↔ row ∈ table ∧ retained row := by
  simp [mem_def, keep]

theorem keep_all (table : Table ρ) : table.keep (fun _ => true) = table := by
  cases table
  simp [keep]

section Lookup

variable [DecidableEq κ]

/-- The row stored under a key, if there is one. -/
def get? (table : Table ρ) (key : κ) : Option ρ :=
  table.rows.find? fun row => Keyed.key row = key

theorem get?_eq_some_iff {table : Table ρ} {key : κ} {row : ρ} :
    table.get? key = some row ↔ row ∈ table ∧ Keyed.key row = key := by
  constructor
  · intro hget
    have hmem := List.mem_of_find?_eq_some hget
    have hkey := List.find?_some hget
    exact ⟨hmem, by simpa using hkey⟩
  · rintro ⟨hmem, hkey⟩
    cases hget : table.get? key with
    | none =>
        have hnone := List.find?_eq_none.mp hget row hmem
        simp [hkey] at hnone
    | some found =>
        have hfound := List.mem_of_find?_eq_some hget
        have hfoundKey : Keyed.key found = key := by
          simpa using List.find?_some hget
        rw [eq_of_key_eq hfound hmem (hfoundKey.trans hkey.symm)]

theorem get?_eq_none_iff {table : Table ρ} {key : κ} :
    table.get? key = none ↔ ∀ row ∈ table, Keyed.key row ≠ key := by
  unfold get?
  rw [List.find?_eq_none]
  simp [mem_def]

theorem mem_of_get? {table : Table ρ} {key : κ} {row : ρ}
    (hget : table.get? key = some row) : row ∈ table :=
  (get?_eq_some_iff.mp hget).1

theorem key_of_get? {table : Table ρ} {key : κ} {row : ρ}
    (hget : table.get? key = some row) : Keyed.key row = key :=
  (get?_eq_some_iff.mp hget).2

theorem get?_of_mem {table : Table ρ} {row : ρ} (hmem : row ∈ table) :
    table.get? (Keyed.key row) = some row :=
  get?_eq_some_iff.mpr ⟨hmem, rfl⟩

@[simp] theorem get?_empty (key : κ) : (empty : Table ρ).get? key = none := rfl

/-- Insert a row whose key is not yet in use. -/
def insert (table : Table ρ) (row : ρ)
    (hfresh : table.get? (Keyed.key row) = none) : Table ρ where
  rows := row :: table.rows
  nodupKeys := by
    rw [List.map_cons, List.nodup_cons]
    refine ⟨?_, table.nodupKeys⟩
    intro hmem
    rcases List.mem_map.mp hmem with ⟨other, hother, hkey⟩
    exact get?_eq_none_iff.mp hfresh other hother hkey

/-- The primary-key constraint: insertion fails on a key in use. -/
def create (table : Table ρ) (row : ρ) : Option (Table ρ) :=
  if hfresh : table.get? (Keyed.key row) = none then
    some (table.insert row hfresh)
  else
    none

theorem create_eq_some_iff {table next : Table ρ} {row : ρ} :
    table.create row = some next ↔
      table.get? (Keyed.key row) = none ∧ next.rows = row :: table.rows := by
  unfold create
  by_cases hfresh : table.get? (Keyed.key row) = none
  · rw [dif_pos hfresh]
    constructor
    · intro heq
      simp only [Option.some.injEq] at heq
      subst next
      exact ⟨hfresh, rfl⟩
    · rintro ⟨_, hrows⟩
      cases next
      simp only at hrows
      subst hrows
      rfl
  · rw [dif_neg hfresh]
    simp [hfresh]

theorem mem_of_create {table next : Table ρ} {row other : ρ}
    (hcreate : table.create row = some next) :
    other ∈ next ↔ other = row ∨ other ∈ table := by
  rw [mem_def, (create_eq_some_iff.mp hcreate).2, List.mem_cons, mem_def]

theorem fresh_of_create {table next : Table ρ} {row : ρ}
    (hcreate : table.create row = some next) :
    ∀ other ∈ table, Keyed.key other ≠ Keyed.key row :=
  get?_eq_none_iff.mp (create_eq_some_iff.mp hcreate).1

theorem get?_of_create {table next : Table ρ} {row : ρ}
    (hcreate : table.create row = some next) (key : κ) :
    next.get? key = if Keyed.key row = key then some row else table.get? key := by
  have hrows := (create_eq_some_iff.mp hcreate).2
  unfold get?
  rw [hrows, List.find?_cons]
  by_cases hkey : Keyed.key row = key
  · simp [hkey]
  · simp [hkey]

theorem exists_create {table : Table ρ} {row : ρ}
    (hfresh : table.get? (Keyed.key row) = none) :
    ∃ next, table.create row = some next :=
  ⟨table.insert row hfresh, dif_pos hfresh⟩

theorem create_eq_none_iff {table : Table ρ} {row : ρ} :
    table.create row = none ↔ ∃ other, table.get? (Keyed.key row) = some other := by
  unfold create
  by_cases hfresh : table.get? (Keyed.key row) = none
  · simp [hfresh]
  · simp [hfresh, ← Option.ne_none_iff_exists']

/-- Write a row over the one stored under its key, if there is one. -/
def replace (table : Table ρ) (row : ρ) : Table ρ where
  rows := table.rows.map fun old => if Keyed.key old = Keyed.key row then row else old
  nodupKeys := by
    have hkeys : (table.rows.map fun old =>
          if Keyed.key old = Keyed.key row then row else old).map Keyed.key =
        table.rows.map Keyed.key := by
      rw [List.map_map]
      apply List.map_congr_left
      intro old _
      by_cases hold : Keyed.key old = Keyed.key row
      · simp [hold]
      · simp [hold]
    rw [hkeys]
    exact table.nodupKeys

/-- Rewrite every row; no key changes. -/
def update (table : Table ρ) (change : ρ → ρ)
    (hkey : ∀ row, Keyed.key (change row) = Keyed.key row) : Table ρ where
  rows := table.rows.map change
  nodupKeys := by
    have hkeys : (table.rows.map change).map Keyed.key = table.rows.map Keyed.key := by
      rw [List.map_map]
      apply List.map_congr_left
      intro row _
      exact hkey row
    rw [hkeys]
    exact table.nodupKeys

section Update

variable {table : Table ρ} {row : ρ}

theorem get?_replace (key : κ) :
    (table.replace row).get? key =
      if Keyed.key row = key then (table.get? key).map fun _ => row
      else table.get? key := by
  unfold get? replace
  simp only [List.find?_map]
  have hpred : ((fun other : ρ => decide (Keyed.key other = key)) ∘
        fun old => if Keyed.key old = Keyed.key row then row else old) =
      fun old => decide (Keyed.key old = key) := by
    funext old
    by_cases hold : Keyed.key old = Keyed.key row
    · simp [hold]
    · simp [hold]
  rw [hpred]
  cases hfind : table.rows.find? fun old => decide (Keyed.key old = key) with
  | none => simp
  | some found =>
      have hfound : Keyed.key found = key := by
        simpa using List.find?_some hfind
      by_cases hkey : Keyed.key row = key
      · simp [hfound, hkey]
      · have hother : ¬ key = Keyed.key row := fun heq => hkey heq.symm
        simp [hfound, hkey, hother]

theorem get?_replace_of_ne {key : κ} (hne : Keyed.key row ≠ key) :
    (table.replace row).get? key = table.get? key := by
  rw [get?_replace, if_neg hne]

theorem get?_replace_self {old : ρ} (hold : table.get? (Keyed.key row) = some old) :
    (table.replace row).get? (Keyed.key row) = some row := by
  rw [get?_replace, if_pos rfl, hold]
  rfl

theorem eq_of_get?_replace {old read : ρ} {key : κ} (hold : table.get? key = some old)
    (hread : (table.replace row).get? key = some read) (hkey : Keyed.key row = key) :
    read = row := by
  rw [← hkey] at hold hread
  exact Option.some.inj (hread.symm.trans (get?_replace_self hold))

theorem mem_replace {old other : ρ} (hold : table.get? (Keyed.key row) = some old) :
    other ∈ table.replace row ↔
      other = row ∨ (other ∈ table ∧ Keyed.key other ≠ Keyed.key row) := by
  constructor
  · intro hmem
    have hget := get?_of_mem hmem
    rw [get?_replace] at hget
    by_cases hkey : Keyed.key row = Keyed.key other
    · rw [if_pos hkey, ← hkey, hold] at hget
      simp only [Option.map_some, Option.some.injEq] at hget
      exact .inl hget.symm
    · rw [if_neg hkey] at hget
      exact .inr ⟨mem_of_get? hget, fun heq => hkey heq.symm⟩
  · rintro (rfl | ⟨hmem, hne⟩)
    · exact mem_of_get? (get?_replace_self hold)
    · have hkept : (table.replace row).get? (Keyed.key other) = some other := by
        rw [get?_replace_of_ne hne.symm]
        exact get?_of_mem hmem
      exact mem_of_get? hkept

/-- Inserting a row and writing over it inserts the row written. -/
theorem create_replace {next : Table ρ} {later : ρ} (hcreate : table.create row = some next)
    (hkey : Keyed.key later = Keyed.key row) :
    table.create later = some (next.replace later) := by
  rcases create_eq_some_iff.mp hcreate with ⟨hfresh, hrows⟩
  refine create_eq_some_iff.mpr ⟨by rwa [hkey], ?_⟩
  have hothers : table.rows.map (fun old =>
      if Keyed.key old = Keyed.key later then later else old) = table.rows := by
    refine (List.map_congr_left ?_).trans (List.map_id _)
    intro other hother
    have hne := fresh_of_create hcreate other hother
    rw [if_neg (hkey ▸ hne)]
    rfl
  show next.rows.map _ = _
  rw [hrows, List.map_cons, if_pos hkey.symm, hothers]

omit [DecidableEq κ] in
theorem mem_update {change : ρ → ρ}
    {hkey : ∀ row, Keyed.key (change row) = Keyed.key row} {other : ρ} :
    other ∈ table.update change hkey ↔ ∃ old ∈ table, change old = other := by
  simp [mem_def, update]

omit [DecidableEq κ] in
theorem update_of_fixed {change : ρ → ρ}
    {hkey : ∀ row, Keyed.key (change row) = Keyed.key row}
    (hfixed : ∀ row, change row = row) : table.update change hkey = table := by
  have hrows : table.rows.map change = table.rows := by
    rw [List.map_congr_left fun row _ => hfixed row, List.map_id']
  cases table
  simp only [update, mk.injEq]
  exact hrows

end Update

theorem get?_keep {table : Table ρ} {retained : ρ → Bool} {key : κ} :
    (table.keep retained).get? key = (table.get? key).filter retained := by
  cases hget : (table.keep retained).get? key with
  | none =>
      cases hold : table.get? key with
      | none => rfl
      | some row =>
          have hrow := get?_eq_some_iff.mp hold
          have hnone := get?_eq_none_iff.mp hget row
          simp only [Option.filter]
          by_cases hretained : retained row
          · exact absurd hrow.2 (hnone (mem_keep_iff.mpr ⟨hrow.1, hretained⟩))
          · simp [hretained]
  | some row =>
      have hrow := get?_eq_some_iff.mp hget
      have hmem := mem_keep_iff.mp hrow.1
      have hold := get?_eq_some_iff.mpr ⟨hmem.1, hrow.2⟩
      simp [hold, Option.filter, hmem.2]

end Lookup

/-- The rows selected by a predicate, in storage order. -/
def where? (table : Table ρ) (selected : ρ → Bool) : List ρ :=
  table.rows.filter selected

@[simp] theorem mem_where?_iff {table : Table ρ} {selected : ρ → Bool} {row : ρ} :
    row ∈ table.where? selected ↔ row ∈ table ∧ selected row := by
  simp [where?, mem_def]

/-- Looking a key up among selected rows, in any order. -/
theorem find?_of_perm_where? [DecidableEq κ] {table : Table ρ} {selected : ρ → Bool}
    {rows : List ρ} (hrows : rows.Perm (table.where? selected)) (key : κ) :
    rows.find? (fun row => Keyed.key row = key) = (table.get? key).filter selected := by
  have hselected : ∀ row, row ∈ rows ↔ row ∈ table ∧ selected row := by
    intro row
    rw [hrows.mem_iff, mem_where?_iff]
  cases hfind : rows.find? fun row => Keyed.key row = key with
  | none =>
      symm
      rw [Option.filter_eq_none_iff]
      intro row hget hrow
      have hmem := (hselected row).mpr ⟨mem_of_get? hget, hrow⟩
      have hother := List.find?_eq_none.mp hfind row hmem
      simp [key_of_get? hget] at hother
  | some row =>
      have hmem := (hselected row).mp (List.mem_of_find?_eq_some hfind)
      have hkey : Keyed.key row = key := by
        simpa using List.find?_some hfind
      symm
      rw [Option.filter_eq_some_iff]
      exact ⟨get?_eq_some_iff.mpr ⟨hmem.1, hkey⟩, hmem.2⟩

/-- A predicate that holds of at most one row selects at most one. -/
theorem where?_eq_toList {table : Table ρ} {selected : ρ → Bool}
    (hunique : ∀ first ∈ table, ∀ second ∈ table, selected first → selected second →
      first = second) :
    ∃ result : Option ρ, table.where? selected = result.toList := by
  have hnodup : (table.where? selected).Nodup :=
    (List.Nodup.of_map _ table.nodupKeys).filter _
  have hsame : ∀ first ∈ table.where? selected, ∀ second ∈ table.where? selected,
      first = second := by
    intro first hfirst second hsecond
    rw [mem_where?_iff] at hfirst hsecond
    exact hunique first hfirst.1 second hsecond.1 hfirst.2 hsecond.2
  cases hrows : table.where? selected with
  | nil => exact ⟨none, rfl⟩
  | cons row rest =>
      rw [hrows] at hnodup hsame
      cases rest with
      | nil => exact ⟨some row, rfl⟩
      | cons other rest =>
          have hother := hsame row (by simp) other (by simp)
          simp [hother] at hnodup

theorem where?_eq_singleton {table : Table ρ} {selected : ρ → Bool} {row : ρ}
    (hrow : row ∈ table) (hselected : selected row)
    (honly : ∀ other ∈ table, selected other → other = row) :
    table.where? selected = [row] := by
  have hunique : ∀ first ∈ table, ∀ second ∈ table, selected first → selected second →
      first = second := by
    intro first hfirst second hsecond hone htwo
    rw [honly first hfirst hone, honly second hsecond htwo]
  rcases where?_eq_toList hunique with ⟨result, hresult⟩
  have hmem : row ∈ table.where? selected := mem_where?_iff.mpr ⟨hrow, hselected⟩
  rw [hresult, Option.mem_toList] at hmem
  rw [hresult, hmem]
  rfl

theorem nodup_rows (table : Table ρ) : table.rows.Nodup :=
  List.Nodup.of_map _ table.nodupKeys

/-- Whether some row satisfies the predicate. -/
def any (table : Table ρ) (selected : ρ → Bool) : Bool :=
  table.rows.any selected

theorem any_eq_true_iff {table : Table ρ} {selected : ρ → Bool} :
    table.any selected = true ↔ ∃ row ∈ table, selected row := by
  simp [any, mem_def]

theorem any_eq_false_iff {table : Table ρ} {selected : ρ → Bool} :
    table.any selected = false ↔ ∀ row ∈ table, ¬ selected row := by
  simp [any, mem_def]

theorem where?_eq_nil {table : Table ρ} {selected : ρ → Bool}
    (hnone : table.any selected = false) : table.where? selected = [] := by
  rw [any_eq_false_iff] at hnone
  rw [List.eq_nil_iff_forall_not_mem]
  intro row hrow
  rw [mem_where?_iff] at hrow
  exact hnone row hrow.1 hrow.2

/-! ## Tables over time -/

section Carries

variable [DecidableEq κ] {relation : ρ → ρ → Prop} {table next last : Table ρ}

/-- Every row of the first table has a related row under its key in the second. -/
def Carries (relation : ρ → ρ → Prop) (table next : Table ρ) : Prop :=
  ∀ key row, table.get? key = some row →
    ∃ later, next.get? key = some later ∧ relation row later

theorem Carries.refl (hrefl : ∀ row, relation row row) (table : Table ρ) :
    Carries relation table table :=
  fun _ row hget => ⟨row, hget, hrefl row⟩

theorem Carries.trans {second : ρ → ρ → Prop} {both : ρ → ρ → Prop}
    (hfirst : Carries relation table next) (hsecond : Carries second next last)
    (hboth : ∀ a b c, relation a b → second b c → both a c) : Carries both table last := by
  intro key row hget
  rcases hfirst key row hget with ⟨middle, hmiddle, hrelated⟩
  rcases hsecond key middle hmiddle with ⟨later, hlater, hlaterRelated⟩
  exact ⟨later, hlater, hboth row middle later hrelated hlaterRelated⟩

theorem Carries.of_create {row : ρ} (hrefl : ∀ other, relation other other)
    (hcreate : table.create row = some next) : Carries relation table next := by
  intro key other hget
  have hne := fresh_of_create hcreate other (mem_of_get? hget)
  rw [key_of_get? hget] at hne
  refine ⟨other, ?_, hrefl other⟩
  rw [get?_of_create hcreate, if_neg hne.symm]
  exact hget

theorem Carries.of_replace {row original : ρ} (hrefl : ∀ other, relation other other)
    (horiginal : table.get? (Keyed.key row) = some original)
    (hrelated : relation original row) : Carries relation table (table.replace row) := by
  intro key other hget
  by_cases hkey : Keyed.key row = key
  · subst hkey
    cases Option.some.inj (horiginal.symm.trans hget)
    exact ⟨row, get?_replace_self horiginal, hrelated⟩
  · exact ⟨other, by rwa [get?_replace_of_ne hkey], hrefl other⟩

end Carries

/-! ## Chains of rows -/

section Follows

variable [DecidableEq κ] {reference : ρ → Option κ} {table later : Table ρ}

/-- The rows met when a reference is followed from row to row until it is absent. -/
inductive Follows (reference : ρ → Option κ) (table : Table ρ) : Option κ → List ρ → Prop
  | stop : Follows reference table none []
  | step {key : κ} {row : ρ} {rest : List ρ} (hget : table.get? key = some row)
      (hrest : Follows reference table (reference row) rest) :
      Follows reference table (some key) (row :: rest)

theorem Follows.carried {start : Option κ} {rows : List ρ}
    (hfollows : Follows reference table start rows) (hcarries : Carries Eq table later) :
    Follows reference later start rows := by
  induction hfollows with
  | stop => exact .stop
  | step hget _ ih =>
      rcases hcarries _ _ hget with ⟨row, hrow, rfl⟩
      exact .step hrow ih

theorem Follows.unique {start : Option κ} {first second : List ρ}
    (hfirst : Follows reference table start first)
    (hsecond : Follows reference table start second) : first = second := by
  induction hfirst generalizing second with
  | stop =>
      cases hsecond
      rfl
  | step hget _ ih =>
      cases hsecond with
      | step hother hrest =>
          cases Option.some.inj (hget.symm.trans hother)
          rw [ih hrest]

theorem Follows.rest_of_mem {start : Option κ} {rows : List ρ} {row : ρ}
    (hfollows : Follows reference table start rows) (hrow : row ∈ rows) :
    ∃ passed rest, rows = passed ++ row :: rest ∧
      Follows reference table (reference row) rest := by
  induction hfollows with
  | stop => simp at hrow
  | step hget hrest ih =>
      rename_i first rows
      rcases List.mem_cons.mp hrow with heq | hlater
      · subst heq
        exact ⟨[], rows, rfl, hrest⟩
      · obtain ⟨passed, rest, hrows, hfrom⟩ := ih hlater
        exact ⟨first :: passed, rest, by simp [hrows], hfrom⟩

/-- No row of a chain refers back to its start. -/
theorem Follows.reference_ne {start : Option κ} {rows : List ρ} {row : ρ}
    (hfollows : Follows reference table start rows) (hrow : row ∈ rows) :
    reference row ≠ start := by
  obtain ⟨passed, rest, hrows, hafter⟩ := hfollows.rest_of_mem hrow
  intro hsame
  rw [hsame] at hafter
  have hlength := congrArg List.length (hfollows.unique hafter)
  rw [hrows, List.length_append, List.length_cons] at hlength
  omega

end Follows

/-! ## Rows related one by one -/

theorem exists_related_of_mem {σ : Type*} {related : ρ → σ → Prop} {first : List ρ}
    {second : List σ} (hrelated : List.Forall₂ related first second) {row : ρ}
    (hrow : row ∈ first) : ∃ other ∈ second, related row other := by
  induction hrelated with
  | nil => cases hrow
  | cons hhead _ ih =>
      rcases List.mem_cons.mp hrow with rfl | hmem
      · exact ⟨_, List.mem_cons_self, hhead⟩
      · rcases ih hmem with ⟨other, hother, hboth⟩
        exact ⟨other, List.mem_cons_of_mem _ hother, hboth⟩

end Table
