import Agora.ServiceRuns

/-!
# Loading the secret of a service

Each service loads its own secret key and refuses one that its sibling also has.
The own value is kept as the environment holds it, the sibling's is stripped.
-/

namespace Agora

inductive ServiceName where
  | portal
  | content
  deriving DecidableEq, Repr

abbrev Environ := String → Option Text

/-- `_SERVICE_SECRET_NAMES`. -/
def ServiceName.secretName : ServiceName → String
  | .portal => "AGORA_PORTAL_SECRET_KEY"
  | .content => "AGORA_CONTENT_SECRET_KEY"

def ServiceName.sibling : ServiceName → ServiceName
  | .portal => .content
  | .content => .portal

/-- `_PLACEHOLDERS`. -/
def placeholders : List Text :=
  ["CHANGEME", "GENERATE_LOCALLY", "GENERATE_WITH_BOOTSTRAP", "SET_BY_BOOTSTRAP", "SET_LOCALLY",
    "SET_TO_ABSOLUTE_PATH"].map String.toList

/-- `_required` for a value that may not be a placeholder: the value and the errors. -/
def requiredValue (tables : UnicodeTables) (environ : Environ) (name : String) :
    Text × List String :=
  let value := (environ name).getD []
  if strip value = [] then ([], [name ++ " is required"])
  else if tables.upper (strip value) ∈ placeholders then
    ([], [name ++ " still contains a placeholder"])
  else (value, [])

/-- `_parse_secret`. -/
def parseSecret (tables : UnicodeTables) (environ : Environ) (name : String) :
    Text × List String :=
  let (value, errors) := requiredValue tables environ name
  if value ≠ [] ∧ value.length < 50 then
    (value, errors ++ [name ++ " must contain at least 50 characters"])
  else (value, errors)

/-- The text of `ImproperlyConfigured`. -/
def invalidConfiguration (errors : List String) : String :=
  "Agora configuration is invalid:\n" ++ "\n".intercalate (errors.map fun error => "- " ++ error)

def loadServiceSecret (tables : UnicodeTables) (environ : Environ) (service : ServiceName) :
    Except String Text :=
  let (value, errors) := parseSecret tables environ service.secretName
  let siblingValue := strip ((environ service.sibling.secretName).getD [])
  let errors :=
    if value ≠ [] ∧ siblingValue ≠ [] ∧ value = siblingValue then
      errors ++ ["portal and content secret keys must be different"]
    else errors
  if errors = [] then .ok value else .error (invalidConfiguration errors)

/-! ## What a loaded secret is -/

/-- A value that a service accepts as far as its own checks go. -/
structure IsSecret (tables : UnicodeTables) (value : Text) : Prop where
  notBlank : strip value ≠ []
  notPlaceholder : tables.upper (strip value) ∉ placeholders
  long : 50 ≤ value.length

variable {tables : UnicodeTables} {environ : Environ} {service : ServiceName}
  {value sibling secret : Text}

theorem IsSecret.ne_nil (hsecret : IsSecret tables value) : value ≠ [] := by
  intro hempty
  have hlong := hsecret.long
  rw [hempty] at hlong
  simp at hlong

theorem parseSecret_of_isSecret (hvalue : environ service.secretName = some value)
    (hsecret : IsSecret tables value) :
    parseSecret tables environ service.secretName = (value, []) := by
  have hrequired : requiredValue tables environ service.secretName = (value, []) := by
    simp only [requiredValue, hvalue, Option.getD_some, hsecret.notBlank, if_false,
      hsecret.notPlaceholder]
  have hlong : ¬ (value ≠ [] ∧ value.length < 50) := fun hshort =>
    absurd hshort.2 (Nat.not_lt.mpr hsecret.long)
  simp only [parseSecret, hrequired, if_neg hlong]

theorem isSecret_of_parseSecret (hvalue : environ service.secretName = some value)
    (hparse : (parseSecret tables environ service.secretName).2 = []) :
    IsSecret tables value := by
  unfold parseSecret requiredValue at hparse
  rw [hvalue, Option.getD_some] at hparse
  by_cases hblank : strip value = []
  · simp [hblank] at hparse
  · by_cases hplaceholder : tables.upper (strip value) ∈ placeholders
    · simp [hblank, hplaceholder] at hparse
    · have hne : value ≠ [] := by
        intro hempty
        apply hblank
        rw [hempty]
        rfl
      refine ⟨hblank, hplaceholder, ?_⟩
      by_contra hshort
      simp [hblank, hplaceholder, hne, Nat.not_le.mp hshort] at hparse

theorem loadServiceSecret_of_isSecret (hvalue : environ service.secretName = some value)
    (hsibling : environ service.sibling.secretName = some sibling)
    (hsecret : IsSecret tables value) (hdifferent : value ≠ strip sibling) :
    loadServiceSecret tables environ service = .ok value := by
  unfold loadServiceSecret
  rw [parseSecret_of_isSecret hvalue hsecret, hsibling, Option.getD_some]
  simp [hdifferent]

theorem isSecret_of_loadServiceSecret (hvalue : environ service.secretName = some value)
    (hsibling : environ service.sibling.secretName = some sibling)
    (hload : loadServiceSecret tables environ service = .ok secret) :
    secret = value ∧ IsSecret tables value ∧ value ≠ strip sibling := by
  unfold loadServiceSecret at hload
  rw [hsibling, Option.getD_some] at hload
  have hparse : (parseSecret tables environ service.secretName).2 = [] := by
    by_contra herrors
    generalize parseSecret tables environ service.secretName = parsed at hload herrors
    obtain ⟨found, errors⟩ := parsed
    simp only at hload herrors
    split_ifs at hload with hshared hnone
    simp at hnone
  have hsecret := isSecret_of_parseSecret hvalue hparse
  rw [parseSecret_of_isSecret hvalue hsecret] at hload
  by_cases hshared : value = strip sibling
  · have hne : strip sibling ≠ [] := hshared ▸ hsecret.ne_nil
    simp [hshared, hne] at hload
  · simp only [hshared, and_false, if_false, if_true, Except.ok.injEq] at hload
    exact ⟨hload.symm, hsecret, hshared⟩

/-! ## Different secrets -/

/-- Whenever both services load a secret, the two secrets are different. -/
def SecretsDiffer (tables : UnicodeTables) (environ : Environ) : Prop :=
  ∀ portal content, loadServiceSecret tables environ .portal = .ok portal →
    loadServiceSecret tables environ .content = .ok content → portal ≠ content

/-- Two secrets are shared exactly when the variables hold the same text and stripping
changes that text. -/
theorem service_secrets_differ_iff {portal content : Text}
    (hportal : environ ServiceName.portal.secretName = some portal)
    (hcontent : environ ServiceName.content.secretName = some content) :
    SecretsDiffer tables environ ↔
      ¬ (portal = content ∧ strip portal ≠ portal ∧ IsSecret tables portal) := by
  constructor
  · rintro hdiffer ⟨rfl, hpadded, hsecret⟩
    have hfirst := loadServiceSecret_of_isSecret hportal hcontent hsecret hpadded.symm
    have hsecond := loadServiceSecret_of_isSecret hcontent hportal hsecret hpadded.symm
    exact hdiffer portal portal hfirst hsecond rfl
  · intro hunpadded first second hfirst hsecond hsame
    obtain ⟨hfirst, hsecret, hpadded⟩ := isSecret_of_loadServiceSecret hportal hcontent hfirst
    obtain ⟨hsecond, _, _⟩ := isSecret_of_loadServiceSecret hcontent hportal hsecond
    have hequal : portal = content := by rw [← hfirst, ← hsecond, hsame]
    apply hunpadded
    rw [← hequal] at hpadded
    exact ⟨hequal, hpadded.symm, hsecret⟩

/-- Both variables hold the same value. -/
def sharedEnviron (value : Text) : Environ := fun name =>
  if name = ServiceName.portal.secretName ∨ name = ServiceName.content.secretName then some value
  else none

/-- A secret of sixty letters after a blank. -/
def paddedSecret : Text := ' ' :: List.replicate 60 'k'

theorem padded_secret_is_shared :
    ¬ SecretsDiffer asciiTables (sharedEnviron paddedSecret) := by
  have hloaded : ∀ service : ServiceName,
      loadServiceSecret asciiTables (sharedEnviron paddedSecret) service = .ok paddedSecret := by
    intro service
    cases service with
    | portal => decide +kernel
    | content => decide +kernel
  intro hdiffer
  exact hdiffer paddedSecret paddedSecret (hloaded .portal) (hloaded .content) rfl

theorem unpadded_secrets_differ :
    SecretsDiffer asciiTables (sharedEnviron (List.replicate 60 'k')) := by
  have hvalue : ∀ service : ServiceName,
      sharedEnviron (List.replicate 60 'k') service.secretName =
        some (List.replicate 60 'k') := by
    intro service
    cases service with
    | portal => rfl
    | content => rfl
  apply (service_secrets_differ_iff (hvalue .portal) (hvalue .content)).mpr
  intro hshared
  exact hshared.2.1 (by decide +kernel)

end Agora
