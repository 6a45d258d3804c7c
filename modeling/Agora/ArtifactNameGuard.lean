import Agora.ComparisonKeyPolicy
import Mathlib.Tactic

/-!
# The database guard of artifact names

The insert trigger of artifacts wants both names in composed form and the key equal to its
own lower-case form.  Case folding and lower case agree but for the Cherokee letters, which
fold to their capitals: a name with a Cherokee letter passes the Python layers and is then
refused by the trigger.
-/

namespace Agora

/-- The capital letters U+13A0 to U+13F5, to which Cherokee letters fold. -/
def isCherokeeCapital (c : Char) : Bool :=
  0x13A0 ≤ c.toNat && c.toNat ≤ 0x13F5

/-- The Cherokee letters of either case. -/
def isCherokee (c : Char) : Bool :=
  isCherokeeCapital c || (0x13F8 ≤ c.toNat && c.toNat ≤ 0x13FD) ||
    (0xAB70 ≤ c.toNat && c.toNat ≤ 0xABBF)

/-- The comparisons of names in `AGORA_ARTIFACT_INSERT_GUARD`, which refuse a row where they
fail: `COMPOSE` is the composed form, and `NLS_LOWER` lowers each character. -/
def passesNameGuard (tables : UnicodeTables) (lower : Char → Char) (name : LogicalName) : Prop :=
  name.display = tables.nfc name.display ∧
    name.comparisonKey = tables.nfc name.comparisonKey ∧
      name.comparisonKey = name.comparisonKey.map lower

instance (tables : UnicodeTables) (lower : Char → Char) (name : LogicalName) :
    Decidable (passesNameGuard tables lower name) :=
  inferInstanceAs (Decidable (_ ∧ _))

/-- What Unicode says of the normal forms, of case folding and of simple lower case. -/
structure CasingLaws (tables : UnicodeTables) (lower : Char → Char) : Prop where
  nfc_nfc : ∀ text, tables.nfc (tables.nfc text) = tables.nfc text
  nfc_nfkc : ∀ text, tables.nfc (tables.nfkc text) = tables.nfkc text
  nfc_cherokee : ∀ text, (tables.nfc text).any isCherokee = text.any isCherokee
  nfkc_cherokee : ∀ text, (tables.nfkc text).any isCherokee = text.any isCherokee
  nfkc_capital : ∀ text, (tables.nfkc text).any isCherokeeCapital = text.any isCherokeeCapital
  casefold_cherokee : ∀ text, (tables.casefold text).any isCherokeeCapital = text.any isCherokee
  lower_capital : ∀ c, isCherokeeCapital c = true → lower c ≠ c
  lower_folded : ∀ text, ∀ c ∈ tables.comparisonForm text, isCherokeeCapital c = false →
    lower c = c

section Guard

variable {tables : UnicodeTables} {lower : Char → Char} {value text : Text} {name : LogicalName}

/-- The key has a Cherokee capital exactly when the name has a Cherokee letter. -/
theorem comparisonForm_cherokee (hlaws : CasingLaws tables lower) :
    (tables.comparisonForm text).any isCherokeeCapital = text.any isCherokee := by
  rw [UnicodeTables.comparisonForm, hlaws.nfkc_capital, hlaws.casefold_cherokee,
    hlaws.nfkc_cherokee]

/-- A key is its own lower-case form exactly when it has no Cherokee capital. -/
theorem comparisonForm_lower_iff (hlaws : CasingLaws tables lower) :
    tables.comparisonForm text = (tables.comparisonForm text).map lower ↔
      (tables.comparisonForm text).any isCherokeeCapital = false := by
  have hfixed : tables.comparisonForm text = (tables.comparisonForm text).map lower ↔
      ∀ c ∈ tables.comparisonForm text, c = lower c := by
    rw [← List.map_eq_map_iff, List.map_id']
  rw [hfixed, List.any_eq_false]
  constructor
  · intro hsame c hc hcapital
    exact hlaws.lower_capital c hcapital (hsame c hc).symm
  · intro hplain c hc
    exact (hlaws.lower_folded text c hc (Bool.eq_false_iff.mpr (hplain c hc))).symm

/-- The trigger takes an accepted name exactly when the name has no Cherokee letter. -/
theorem name_guard_passes_iff (hlaws : CasingLaws tables lower)
    (haccept : normalizeLogicalName tables value = .ok name) :
    passesNameGuard tables lower name ↔ value.any isCherokee = false := by
  obtain ⟨hdisplay, hkey⟩ := normalizeLogicalName_ok haccept
  have hcomposed : name.display = tables.nfc name.display := by
    rw [hdisplay, hlaws.nfc_nfc]
  have hcomposedKey : name.comparisonKey = tables.nfc name.comparisonKey := by
    rw [hkey, UnicodeTables.comparisonForm, hlaws.nfc_nfkc]
  rw [passesNameGuard, and_iff_right hcomposed, and_iff_right hcomposedKey, hkey,
    comparisonForm_lower_iff hlaws, comparisonForm_cherokee hlaws, hdisplay, hlaws.nfc_cherokee]

end Guard

/-! ## ASCII and Cherokee -/

/-- The folding of ASCII letters and of Cherokee letters. -/
def foldCherokee (c : Char) : Char :=
  if 0xAB70 ≤ c.toNat ∧ c.toNat ≤ 0xABBF then Char.ofNat (c.toNat - 0x97D0)
  else if 0x13F8 ≤ c.toNat ∧ c.toNat ≤ 0x13FD then Char.ofNat (c.toNat - 8)
  else c.toLower

/-- The simple lower case of ASCII letters and of Cherokee letters. -/
def lowerCherokee (c : Char) : Char :=
  if 0x13A0 ≤ c.toNat ∧ c.toNat ≤ 0x13EF then Char.ofNat (c.toNat + 0x97D0)
  else if 0x13F0 ≤ c.toNat ∧ c.toNat ≤ 0x13F5 then Char.ofNat (c.toNat + 8)
  else c.toLower

def cherokeeTables : UnicodeTables :=
  { asciiTables with casefold := List.map foldCherokee }

theorem toNat_ofNat_of_lt {n : ℕ} (hsmall : n < 0xD800) : (Char.ofNat n).toNat = n := by
  have hvalid : n.isValidChar := .inl hsmall
  rw [Char.ofNat, dif_pos hvalid]
  rfl

theorem isAscii_toLower {c : Char} (hascii : isAscii c = true) : isAscii c.toLower = true := by
  have hall : ∀ n < 128, isAscii (Char.ofNat n).toLower = true := by
    decide +kernel
  have hlower := hall c.toNat (by simpa [isAscii] using hascii)
  rwa [Char.ofNat_toNat] at hlower

theorem toLower_toLower (c : Char) : c.toLower.toLower = c.toLower := by
  cases hascii : isAscii c with
  | false => rw [toLower_of_not_ascii hascii, toLower_of_not_ascii hascii]
  | true =>
      have hall : ∀ n < 128, (Char.ofNat n).toLower.toLower = (Char.ofNat n).toLower := by
        decide +kernel
      have hlower := hall c.toNat (by simpa [isAscii] using hascii)
      rwa [Char.ofNat_toNat] at hlower

theorem isCherokeeCapital_toLower (c : Char) :
    isCherokeeCapital c.toLower = isCherokeeCapital c := by
  cases hascii : isAscii c with
  | false => rw [toLower_of_not_ascii hascii]
  | true =>
      have hlower := isAscii_toLower hascii
      simp only [isAscii, decide_eq_true_eq] at hascii hlower
      have hplain : ¬ 0x13A0 ≤ c.toNat := by omega
      have hplainLower : ¬ 0x13A0 ≤ c.toLower.toNat := by omega
      simp [isCherokeeCapital, hplain, hplainLower]

theorem isCherokeeCapital_foldCherokee (c : Char) :
    isCherokeeCapital (foldCherokee c) = isCherokee c := by
  unfold foldCherokee
  split_ifs with hbig hsmall
  · rw [isCherokeeCapital, toNat_ofNat_of_lt (by omega)]
    rw [Bool.eq_iff_iff]
    simp only [isCherokee, isCherokeeCapital, Bool.or_eq_true, Bool.and_eq_true, decide_eq_true_eq]
    omega
  · rw [isCherokeeCapital, toNat_ofNat_of_lt (by omega)]
    rw [Bool.eq_iff_iff]
    simp only [isCherokee, isCherokeeCapital, Bool.or_eq_true, Bool.and_eq_true, decide_eq_true_eq]
    omega
  · rw [isCherokeeCapital_toLower]
    rw [Bool.eq_iff_iff]
    simp only [isCherokee, isCherokeeCapital, Bool.or_eq_true, Bool.and_eq_true, decide_eq_true_eq]
    omega

theorem lowerCherokee_ne {c : Char} (hcapital : isCherokeeCapital c = true) :
    lowerCherokee c ≠ c := by
  simp only [isCherokeeCapital, Bool.and_eq_true, decide_eq_true_eq] at hcapital
  intro hsame
  have hvalue := congrArg Char.toNat hsame
  unfold lowerCherokee at hvalue
  split_ifs at hvalue with hlow hhigh
  · rw [toNat_ofNat_of_lt (by omega)] at hvalue
    omega
  · rw [toNat_ofNat_of_lt (by omega)] at hvalue
    omega
  · omega

theorem lowerCherokee_foldCherokee {c : Char}
    (hplain : isCherokeeCapital (foldCherokee c) = false) :
    lowerCherokee (foldCherokee c) = foldCherokee c := by
  have hletter : isCherokee c = false := by
    rwa [isCherokeeCapital_foldCherokee] at hplain
  have hfold : foldCherokee c = c.toLower := by
    simp only [isCherokee, isCherokeeCapital, Bool.or_eq_false_iff, Bool.and_eq_false_iff,
      decide_eq_false_iff_not] at hletter
    unfold foldCherokee
    rw [if_neg (by omega), if_neg (by omega)]
  rw [hfold] at hplain ⊢
  simp only [isCherokeeCapital, Bool.and_eq_false_iff, decide_eq_false_iff_not] at hplain
  unfold lowerCherokee
  rw [if_neg (by omega), if_neg (by omega), toLower_toLower]

theorem cherokeeTables_laws : CasingLaws cherokeeTables lowerCherokee := by
  constructor
  · exact fun _ => rfl
  · exact fun _ => rfl
  · exact fun _ => rfl
  · exact fun _ => rfl
  · exact fun _ => rfl
  · intro text
    simp only [cherokeeTables, List.any_map]
    congr 1
    funext c
    exact isCherokeeCapital_foldCherokee c
  · exact fun _ hcapital => lowerCherokee_ne hcapital
  · intro text c hc hplain
    obtain ⟨d, _, rfl⟩ := List.mem_map.mp hc
    exact lowerCherokee_foldCherokee hplain

theorem ascii_name_passes_guard :
    passesNameGuard cherokeeTables lowerCherokee ⟨"Sales.CSV".toList, "sales.csv".toList⟩ ↔
      "Sales.CSV".toList.any isCherokee = false := by
  have haccept : normalizeLogicalName cherokeeTables "Sales.CSV".toList =
      .ok ⟨"Sales.CSV".toList, "sales.csv".toList⟩ := by
    rfl
  exact name_guard_passes_iff cherokeeTables_laws haccept

/-- The Cherokee letter A is accepted as a name, and the trigger refuses it. -/
theorem cherokee_name_fails_guard :
    ∃ name, normalizeLogicalName cherokeeTables [Char.ofNat 0x13A0] = .ok name ∧
      ¬ passesNameGuard cherokeeTables lowerCherokee name := by
  have haccept : normalizeLogicalName cherokeeTables [Char.ofNat 0x13A0] =
      .ok ⟨[Char.ofNat 0x13A0], [Char.ofNat 0x13A0]⟩ := by
    rfl
  exact ⟨_, haccept, by decide +kernel⟩

end Agora
