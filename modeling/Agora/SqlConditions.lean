import Mathlib.Tactic

/-!
# Conditions and row triggers of a database

The three truth values of a condition, the comparisons of nullable values, and
the statements of a row trigger that raises an error when a condition holds.  An
`IF` takes its branch only when the condition holds, and a check constraint
refuses a row only when the condition fails.  Both ways of reading a condition
distribute over the connectives, so a compound condition is read off its parts.
-/

namespace Sql

/-- The value of a condition. -/
inductive Truth where
  | holds
  | fails
  | unknown
  deriving DecidableEq, Repr

/-! ## Connectives -/

namespace Truth

protected def not : Truth → Truth
  | holds => fails
  | fails => holds
  | unknown => unknown

protected def or : Truth → Truth → Truth
  | holds, _ | _, holds => holds
  | fails, fails => fails
  | _, _ => unknown

protected def and : Truth → Truth → Truth
  | fails, _ | _, fails => fails
  | holds, holds => holds
  | _, _ => unknown

variable {first second : Truth}

@[simp] theorem not_eq_holds : first.not = holds ↔ first = fails := by
  cases first <;> decide

@[simp] theorem not_eq_fails : first.not = fails ↔ first = holds := by
  cases first <;> decide

@[simp] theorem or_eq_holds : first.or second = holds ↔ first = holds ∨ second = holds := by
  cases first <;> cases second <;> decide

@[simp] theorem or_eq_fails : first.or second = fails ↔ first = fails ∧ second = fails := by
  cases first <;> cases second <;> decide

@[simp] theorem and_eq_holds : first.and second = holds ↔ first = holds ∧ second = holds := by
  cases first <;> cases second <;> decide

@[simp] theorem and_eq_fails : first.and second = fails ↔ first = fails ∨ second = fails := by
  cases first <;> cases second <;> decide

end Truth

/-! ## Comparisons -/

variable {α : Type*}

/-- The truth value of a decided proposition. -/
def known (condition : Prop) [Decidable condition] : Truth :=
  if condition then .holds else .fails

@[simp] theorem known_eq_holds {condition : Prop} [Decidable condition] :
    known condition = .holds ↔ condition := by
  unfold known
  split <;> simp_all

@[simp] theorem known_eq_fails {condition : Prop} [Decidable condition] :
    known condition = .fails ↔ ¬ condition := by
  unfold known
  split <;> simp_all

/-- `value IS NULL`. -/
def isNull (value : Option α) : Truth :=
  known (value.isNone = true)

/-- `value IS NOT NULL`. -/
def isNotNull (value : Option α) : Truth :=
  known (value.isSome = true)

@[simp] theorem isNull_eq_holds {value : Option α} : isNull value = .holds ↔ value = none := by
  simp [isNull]

@[simp] theorem isNull_eq_fails {value : Option α} : isNull value = .fails ↔ value ≠ none := by
  simp [isNull]

@[simp] theorem isNotNull_eq_holds {value : Option α} :
    isNotNull value = .holds ↔ value ≠ none := by
  simp [isNotNull, Option.isSome_iff_ne_none]

@[simp] theorem isNotNull_eq_fails {value : Option α} :
    isNotNull value = .fails ↔ value = none := by
  simp [isNotNull]

/-- A comparison is unknown when either side is null. -/
def compare (relation : α → α → Prop) [DecidableRel relation] :
    Option α → Option α → Truth
  | some left, some right => known (relation left right)
  | _, _ => .unknown

theorem compare_eq_holds {relation : α → α → Prop} [DecidableRel relation]
    {first second : Option α} :
    compare relation first second = .holds ↔
      ∃ left ∈ first, ∃ right ∈ second, relation left right := by
  cases first with
  | none => simp [compare]
  | some left =>
      cases second with
      | none => simp [compare]
      | some right => simp [compare]

theorem compare_eq_fails {relation : α → α → Prop} [DecidableRel relation]
    {first second : Option α} :
    compare relation first second = .fails ↔
      ∃ left ∈ first, ∃ right ∈ second, ¬ relation left right := by
  cases first with
  | none => simp [compare]
  | some left =>
      cases second with
      | none => simp [compare]
      | some right => simp [compare]

section Equality

variable [DecidableEq α] {first second : Option α} {values : List α}

/-- `first = second`. -/
def equals (first second : Option α) : Truth :=
  compare (· = ·) first second

/-- `first <> second`. -/
def differs (first second : Option α) : Truth :=
  compare (· ≠ ·) first second

/-- `value IN (values)`. -/
def within (value : Option α) (values : List α) : Truth :=
  match value with
  | some found => known (found ∈ values)
  | none => .unknown

/-- `first <> second OR (first IS NULL AND second IS NOT NULL) OR
(first IS NOT NULL AND second IS NULL)`, in any order of the three. -/
def distinct (first second : Option α) : Truth :=
  (differs first second).or
    (((isNull first).and (isNotNull second)).or ((isNotNull first).and (isNull second)))

@[simp] theorem equals_eq_holds :
    equals first second = .holds ↔ ∃ right ∈ second, ∃ left ∈ first, left = right := by
  rw [equals, compare_eq_holds]
  grind

@[simp] theorem equals_eq_fails :
    equals first second = .fails ↔ ∃ left ∈ first, ∃ right ∈ second, left ≠ right :=
  compare_eq_fails

theorem differs_eq_holds :
    differs first second = .holds ↔ ∃ left ∈ first, ∃ right ∈ second, left ≠ right :=
  compare_eq_holds

@[simp] theorem differs_some {left right : α} :
    differs (some left) (some right) = .holds ↔ left ≠ right := by
  simp [differs_eq_holds]

@[simp] theorem differs_self : differs first first ≠ .holds := by
  cases first <;> simp [differs_eq_holds]

/-- A comparison with null shows no difference. -/
theorem differs_ne_holds :
    differs first second ≠ .holds ↔ first = none ∨ second = none ∨ first = second := by
  cases first with
  | none => simp [differs_eq_holds]
  | some left => cases second <;> simp [differs_eq_holds]

@[simp] theorem within_eq_holds :
    within first values = .holds ↔ ∃ found ∈ first, found ∈ values := by
  cases first with
  | none => simp [within]
  | some found => simp [within]

@[simp] theorem within_eq_fails :
    within first values = .fails ↔ ∃ found ∈ first, found ∉ values := by
  cases first with
  | none => simp [within]
  | some found => simp [within]

/-- The null-safe difference is never unknown when it matters. -/
@[simp] theorem distinct_eq_holds : distinct first second = .holds ↔ first ≠ second := by
  cases first with
  | none => cases second <;> simp [distinct, differs_eq_holds]
  | some left => cases second <;> simp [distinct]

end Equality

section Order

variable [LinearOrder α] {first second : Option α}

/-- `first < second`. -/
def less (first second : Option α) : Truth :=
  compare (· < ·) first second

/-- `first <= second`. -/
def atMost (first second : Option α) : Truth :=
  compare (· ≤ ·) first second

@[simp] theorem less_eq_holds :
    less first second = .holds ↔ ∃ left ∈ first, ∃ right ∈ second, left < right :=
  compare_eq_holds

@[simp] theorem atMost_eq_holds :
    atMost first second = .holds ↔ ∃ left ∈ first, ∃ right ∈ second, left ≤ right :=
  compare_eq_holds

end Order

/-- `NVL(value, default)`. -/
def nvl (value : Option α) (default : α) : Option α :=
  some (value.getD default)

/-- A text column stores the empty string as null. -/
def textColumn (text : List Char) : Option (List Char) :=
  if text = [] then none else some text

@[simp] theorem textColumn_nil : textColumn [] = none :=
  rfl

@[simp] theorem textColumn_eq_none {text : List Char} : textColumn text = none ↔ text = [] := by
  simp [textColumn]

@[simp] theorem textColumn_eq_some {text stored : List Char} :
    textColumn text = some stored ↔ text = stored ∧ stored ≠ [] := by
  unfold textColumn
  split <;> grind

section Texts

variable {text other : List Char} {values : List (List Char)}

theorem equals_textColumn (hother : other ≠ []) :
    equals (textColumn text) (some other) = .holds ↔ text = other := by
  unfold textColumn
  split
  · rename_i hempty
    simp [hempty, hother.symm]
  · simp

theorem equals_textColumn_fails :
    equals (textColumn text) (some other) = .fails ↔ text ≠ [] ∧ text ≠ other := by
  unfold textColumn
  split <;> simp_all

theorem differs_textColumn_some :
    differs (textColumn text) (some other) = .holds ↔ text ≠ [] ∧ text ≠ other := by
  unfold textColumn
  split <;> simp_all [differs_eq_holds]

theorem within_textColumn :
    within (textColumn text) values = .holds ↔ text ≠ [] ∧ text ∈ values := by
  unfold textColumn
  split <;> simp_all

theorem within_textColumn_fails :
    within (textColumn text) values = .fails ↔ text ≠ [] ∧ text ∉ values := by
  unfold textColumn
  split <;> simp_all

theorem differs_textColumn :
    differs (textColumn text) (textColumn other) = .holds ↔
      text ≠ [] ∧ other ≠ [] ∧ text ≠ other := by
  unfold textColumn
  split <;> split <;> simp_all [differs_eq_holds]

/-- The sentinel of `NVL` makes the empty text and the sentinel itself look the same. -/
theorem differs_nvl_textColumn {sentinel : List Char} :
    differs (nvl (textColumn text) sentinel) (nvl (textColumn other) sentinel) ≠ .holds ↔
      text = other ∨ (text = [] ∧ other = sentinel) ∨ (text = sentinel ∧ other = []) := by
  unfold textColumn nvl
  split <;> split <;> simp_all
  grind

end Texts

/-! ## Triggers -/

/-- `raise_application_error`. -/
structure Raised where
  code : ℤ
  message : String
  deriving DecidableEq, Repr

/-- The statement that fired a row trigger. -/
inductive RowEvent (ρ : Type*) where
  | inserting (new : ρ)
  | updating (old new : ρ)
  | deleting (old : ρ)

abbrev Guard := Except Raised Unit

/-- `IF condition THEN raise_application_error(code, message); END IF`. -/
def raiseWhen (condition : Truth) (code : ℤ) (message : String) : Guard :=
  if condition = .holds then .error ⟨code, message⟩ else .ok ⟨⟩

/-- `SELECT INTO`, with the handler of `NO_DATA_FOUND`. -/
def selectInto (row : Option α) (missing : Raised) : Except Raised α :=
  match row with
  | some found => .ok found
  | none => .error missing

/-- The trigger lets the statement pass. -/
def Accepts (guard : Guard) : Prop :=
  guard = .ok ⟨⟩

instance (guard : Guard) : Decidable (Accepts guard) :=
  match guard with
  | .ok _ => isTrue rfl
  | .error _ => isFalse (by simp [Accepts])

@[simp] theorem accepts_ok : Accepts (.ok ⟨⟩) :=
  rfl

@[simp] theorem accepts_error {raised : Raised} : ¬ Accepts (.error raised) := by
  simp [Accepts]

@[simp] theorem accepts_raiseWhen {condition : Truth} {code : ℤ} {message : String} :
    Accepts (raiseWhen condition code message) ↔ condition ≠ .holds := by
  unfold raiseWhen
  split <;> simp_all

@[simp] theorem accepts_bind {guard : Guard} {rest : Unit → Guard} :
    Accepts (guard >>= rest) ↔ Accepts guard ∧ Accepts (rest ⟨⟩) := by
  cases guard with
  | error raised => simp [Accepts, bind, Except.bind]
  | ok done => simp [Accepts, bind, Except.bind]

@[simp] theorem accepts_bind_selectInto {β : Type} {row : Option β} {missing : Raised}
    {rest : β → Guard} :
    Accepts (selectInto row missing >>= rest) ↔ ∃ found ∈ row, Accepts (rest found) := by
  cases row with
  | none => simp [selectInto, Accepts, bind, Except.bind]
  | some found => simp [selectInto, bind, Except.bind]

theorem accepts_ite {condition : Prop} [Decidable condition] {first second : Guard} :
    Accepts (if condition then first else second) ↔
      (condition → Accepts first) ∧ (¬ condition → Accepts second) := by
  split <;> simp_all

end Sql
