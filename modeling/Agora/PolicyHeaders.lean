import Agora.DirectiveHeaders
import Agora.HttpOrigins

/-!
# The content security policies

Both policies are joined from texts, and one of them contains a configured origin.  The host name
of an accepted origin may contain a semicolon, which begins another directive.
-/

namespace Agora

/-! ## `agora.rendering.security` -/

/-- `_serialize_policy`. -/
def serializePolicy (directives : List Text) : Text :=
  joinDirectives directives

def contentIframeSandbox : Text :=
  "allow-scripts".toList

def portalContentSecurityPolicy (tables : OriginTables) (contentOrigin : Text)
    (allowScripts : Bool) : Except String Text := do
  let origin ← validatedOrigin tables contentOrigin
  let scriptSource := if allowScripts then "'self'".toList else "'none'".toList
  .ok (serializePolicy [
    "default-src 'self'".toList,
    "base-uri 'none'".toList,
    "object-src 'none'".toList,
    "script-src ".toList ++ scriptSource,
    "style-src 'self'".toList,
    "img-src 'self'".toList,
    "connect-src 'self'".toList,
    "frame-src ".toList ++ origin,
    "form-action 'self'".toList,
    "frame-ancestors 'none'".toList])

def contentSecurityPolicy (tables : OriginTables) (portalOrigin : Text) : Except String Text := do
  let origin ← validatedOrigin tables portalOrigin
  .ok (serializePolicy [
    "default-src 'none'".toList,
    "base-uri 'none'".toList,
    "object-src 'none'".toList,
    "script-src 'unsafe-inline'".toList,
    "style-src 'self' 'unsafe-inline'".toList,
    "img-src 'self' data: blob:".toList,
    "font-src 'self' data:".toList,
    "media-src data: blob:".toList,
    "connect-src 'self'".toList,
    "frame-src 'none'".toList,
    "worker-src 'none'".toList,
    "manifest-src 'none'".toList,
    "form-action 'none'".toList,
    "frame-ancestors ".toList ++ origin,
    "sandbox ".toList ++ contentIframeSandbox])

/-! ## The declared directives -/

def Directive.declare (name : String) (sources : List String) : Directive :=
  ⟨name.toList, sources.map String.toList⟩

def portalDirectives (origin : Text) (allowScripts : Bool) : List Directive :=
  [.declare "default-src" ["'self'"], .declare "base-uri" ["'none'"],
    .declare "object-src" ["'none'"],
    .declare "script-src" [if allowScripts then "'self'" else "'none'"],
    .declare "style-src" ["'self'"], .declare "img-src" ["'self'"],
    .declare "connect-src" ["'self'"], ⟨"frame-src".toList, [origin]⟩,
    .declare "form-action" ["'self'"], .declare "frame-ancestors" ["'none'"]]

def contentDirectives (origin : Text) : List Directive :=
  [.declare "default-src" ["'none'"], .declare "base-uri" ["'none'"],
    .declare "object-src" ["'none'"], .declare "script-src" ["'unsafe-inline'"],
    .declare "style-src" ["'self'", "'unsafe-inline'"],
    .declare "img-src" ["'self'", "data:", "blob:"], .declare "font-src" ["'self'", "data:"],
    .declare "media-src" ["data:", "blob:"], .declare "connect-src" ["'self'"],
    .declare "frame-src" ["'none'"], .declare "worker-src" ["'none'"],
    .declare "manifest-src" ["'none'"], .declare "form-action" ["'none'"],
    ⟨"frame-ancestors".toList, [origin]⟩, .declare "sandbox" ["allow-scripts"]]

/-- Both policies for an origin read back as they were declared. -/
structure PoliciesParseBack (tables : OriginTables) (origin : Text) : Prop where
  content : (contentSecurityPolicy tables origin).map parseDirectives =
    .ok (contentDirectives origin)
  portal : ∀ allowScripts, (portalContentSecurityPolicy tables origin allowScripts).map
    parseDirectives = .ok (portalDirectives origin allowScripts)

section Policies

variable {tables : OriginTables} {value origin : Text}

theorem validatedOrigin_ok (haccept : validatedOrigin tables value = .ok origin) :
    value ≠ [] ∧ value.any isPythonSpace = false ∧ origin = value := by
  unfold validatedOrigin at haccept
  split at haccept
  · cases haccept
  · rename_i hplain
    rw [not_or, Bool.not_eq_true] at hplain
    split at haccept
    · cases haccept
    · split at haccept
      · cases haccept
      · rename_i hparts
        simp only [not_or, not_not] at hparts
        rw [Except.ok.injEq] at haccept
        exact ⟨hplain.1, hplain.2, by rw [hparts.2.2.2.2.2, haccept]⟩

theorem isToken_of_validatedOrigin (haccept : validatedOrigin tables value = .ok origin)
    (hsemicolon : ';' ∉ value) : IsToken value := by
  have hvalue := validatedOrigin_ok haccept
  constructor
  · exact hvalue.1
  · intro hblank
    have hspace := List.any_eq_false.mp hvalue.2.1 ' ' hblank
    exact hspace (by decide)
  · exact hsemicolon

theorem declare_text_source (name : Text) : (Directive.mk name [origin]).text =
    name ++ ' ' :: origin := by
  simp [Directive.text, Directive.tokens, List.intercalate_cons_cons]

theorem portalDirectives_text (allowScripts : Bool) :
    (portalDirectives origin allowScripts).map Directive.text = [
      "default-src 'self'".toList,
      "base-uri 'none'".toList,
      "object-src 'none'".toList,
      "script-src ".toList ++ if allowScripts then "'self'".toList else "'none'".toList,
      "style-src 'self'".toList,
      "img-src 'self'".toList,
      "connect-src 'self'".toList,
      "frame-src ".toList ++ origin,
      "form-action 'self'".toList,
      "frame-ancestors 'none'".toList] := by
  cases allowScripts
  · simp only [portalDirectives, List.map_cons, declare_text_source]
    rfl
  · simp only [portalDirectives, List.map_cons, declare_text_source]
    rfl

theorem contentDirectives_text : (contentDirectives origin).map Directive.text = [
    "default-src 'none'".toList,
    "base-uri 'none'".toList,
    "object-src 'none'".toList,
    "script-src 'unsafe-inline'".toList,
    "style-src 'self' 'unsafe-inline'".toList,
    "img-src 'self' data: blob:".toList,
    "font-src 'self' data:".toList,
    "media-src data: blob:".toList,
    "connect-src 'self'".toList,
    "frame-src 'none'".toList,
    "worker-src 'none'".toList,
    "manifest-src 'none'".toList,
    "form-action 'none'".toList,
    "frame-ancestors ".toList ++ origin,
    "sandbox ".toList ++ contentIframeSandbox] := by
  simp only [contentDirectives, List.map_cons, declare_text_source]
  rfl

theorem plain_source {name : Text} (hname : IsToken name) (horigin : IsToken origin) :
    (Directive.mk name [origin]).Plain := by
  intro token htoken
  rw [Directive.tokens, List.mem_cons, List.mem_singleton] at htoken
  cases htoken with
  | inl heq => rwa [heq]
  | inr heq => rwa [heq]

theorem portalDirectives_plain (horigin : IsToken origin) (allowScripts : Bool) :
    ∀ d ∈ portalDirectives origin allowScripts, d.Plain := by
  have hname : IsToken "frame-src".toList := by decide
  have hframe := plain_source hname horigin
  unfold portalDirectives
  simp only [List.forall_mem_cons]
  cases allowScripts <;> refine ⟨?_, ?_, ?_, ?_, ?_, ?_, ?_, hframe, ?_, ?_, ?_⟩ <;> decide +kernel

theorem contentDirectives_plain (horigin : IsToken origin) :
    ∀ d ∈ contentDirectives origin, d.Plain := by
  have hname : IsToken "frame-ancestors".toList := by decide
  have hframe := plain_source hname horigin
  unfold contentDirectives
  simp only [List.forall_mem_cons]
  refine ⟨?_, ?_, ?_, ?_, ?_, ?_, ?_, ?_, ?_, ?_, ?_, ?_, ?_, hframe, ?_, ?_⟩ <;> decide +kernel

theorem contentSecurityPolicy_ok (haccept : validatedOrigin tables value = .ok origin) :
    contentSecurityPolicy tables value =
      .ok (joinDirectives ((contentDirectives value).map Directive.text)) := by
  have hvalue := (validatedOrigin_ok haccept).2.2
  rw [hvalue] at haccept
  rw [contentSecurityPolicy, haccept, contentDirectives_text]
  rfl

theorem portalContentSecurityPolicy_ok (haccept : validatedOrigin tables value = .ok origin)
    (allowScripts : Bool) :
    portalContentSecurityPolicy tables value allowScripts =
      .ok (joinDirectives ((portalDirectives value allowScripts).map Directive.text)) := by
  have hvalue := (validatedOrigin_ok haccept).2.2
  rw [hvalue] at haccept
  rw [portalContentSecurityPolicy, haccept, portalDirectives_text]
  rfl

/-- The policies of an accepted origin read back as declared iff it contains no semicolon. -/
theorem policies_parse_back_iff (haccept : validatedOrigin tables value = .ok origin) :
    PoliciesParseBack tables value ↔ ';' ∉ value := by
  constructor
  · intro hback
    have hcontent := hback.content
    rw [contentSecurityPolicy_ok haccept, Except.map, Except.ok.injEq] at hcontent
    have hdeclared : ⟨"frame-ancestors".toList, [value]⟩ ∈ contentDirectives value := by
      simp [contentDirectives]
    rw [← hcontent] at hdeclared
    apply semicolon_notMem_of_parse hdeclared
    simp [Directive.tokens]
  · intro hsemicolon
    have htoken := isToken_of_validatedOrigin haccept hsemicolon
    constructor
    · rw [contentSecurityPolicy_ok haccept, Except.map,
        parseDirectives_join _ (contentDirectives_plain htoken)]
    · intro allowScripts
      rw [portalContentSecurityPolicy_ok haccept, Except.map,
        parseDirectives_join _ (portalDirectives_plain htoken allowScripts)]

end Policies

/-- The tables on ASCII texts. -/
def asciiOriginTables : OriginTables where
  nfkc := id
  lower := List.map Char.toLower
  refusesBracketed := fun _ => false
  isUnspecified := fun hostname => hostname == "0.0.0.0".toList

theorem plain_origin_parses_back :
    PoliciesParseBack asciiOriginTables "https://portal.example:8443".toList ↔
      ';' ∉ "https://portal.example:8443".toList := by
  have haccept : validatedOrigin asciiOriginTables "https://portal.example:8443".toList =
      .ok "https://portal.example:8443".toList := by
    decide +kernel
  exact policies_parse_back_iff haccept

/-- An accepted host name adds an empty `sandbox` directive, which overrides the declared one. -/
theorem semicolon_origin_adds_directive :
    validatedOrigin asciiOriginTables "http://a;sandbox".toList = .ok "http://a;sandbox".toList ∧
      (contentSecurityPolicy asciiOriginTables "http://a;sandbox".toList).map
          (fun header => (parseDirectives header).drop 13) =
        .ok [.declare "frame-ancestors" ["http://a"], .declare "sandbox" [],
          .declare "sandbox" ["allow-scripts"]] ∧
      ¬ PoliciesParseBack asciiOriginTables "http://a;sandbox".toList := by
  have hpolicy : (contentSecurityPolicy asciiOriginTables "http://a;sandbox".toList).map
      (fun header => (parseDirectives header).drop 13) =
        .ok [.declare "frame-ancestors" ["http://a"], .declare "sandbox" [],
          .declare "sandbox" ["allow-scripts"]] := by
    decide +kernel
  have haccept : validatedOrigin asciiOriginTables "http://a;sandbox".toList =
      .ok "http://a;sandbox".toList := by
    decide +kernel
  constructor
  · exact haccept
  · constructor
    · exact hpolicy
    · intro hback
      have hcontent := hback.content
      revert hcontent
      decide +kernel

end Agora
