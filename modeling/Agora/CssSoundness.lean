import Agora.CodeSeams
import Agora.CssPlaces
import Agora.CssSearch
import Agora.ReferenceDelivery

/-!
# The references of an accepted stylesheet

The validator decodes the escapes of a text and searches the result for `url()`.  A URL of the
text is checked where its parenthesis is the first one behind it in the decoded text and no
earlier opener takes it.  Decoding an escaped parenthesis, for instance, cuts the target off.
-/

namespace Agora

open CssSyntax

section Soundness

variable {tables : UploadTables} {context : PackageContext} {text : Text}

/-- A data or blob URL, or a reference to an image or a font of the package. -/
def AllowedTarget (tables : UploadTables) (context : PackageContext) (target : Text) : Prop :=
  matchesStart tables safeDataUrl target = true ∨ startsWithBlob tables target = true ∨
    ∃ reference kind,
      resolveAssetReference tables context.artifactKinds context.cssRequest target =
        .ok reference ∧
      artifactKindOf context.artifactKinds reference = some kind ∧
      kind ∈ imageKinds ++ fontKinds

/-- The targets to which a stylesheet refers by the rules of CSS. -/
def cssTargets (text : Text) : List Text :=
  urlTargets (tokens text)

/-- The references of a stylesheet that arrives as one chunk. -/
def validateCss (tables : UploadTables) (context : PackageContext) (text : Text) :
    Except UploadIssue (List Text) := do
  let fed ← CssValidator.initial.feed tables context text
  fed.finish tables context

/-! ## Plain URLs -/

/-- The places of the tokens of a text. -/
def tokenPlaces (text : Text) : List Text :=
  tokenStarts (preprocess text).length (preprocess text)

/-- What the decoded text shows before a place. -/
def shownBefore (text place : Text) : Text :=
  (decodeCssEscapes (preprocess text)).take
    ((decodeCssEscapes (preprocess text)).length - (decodeCssEscapes place).length)

/-- A value without quotes that no stripping of white space and of quotes changes. -/
structure Unstripped (value : Text) : Prop where
  quotes : quotedTarget value = none
  first : value.head?.any isPythonSpace = false
  last : value.getLast?.any isPythonSpace = false

/-- Where the decoded text shows a URL, no null character stands before its parenthesis. -/
def NullFree (text place : Text) : Prop :=
  ∀ before rest, decodeCssEscapes text = before ++ rest → Alike rest (decodeCssEscapes place) →
    '\x00' ∉ rest.takeWhile (· ≠ ')')

instance (text place : Text) : Decidable (NullFree text place) :=
  decidable_of_iff (∀ index ≤ (decodeCssEscapes text).length,
      Alike ((decodeCssEscapes text).drop index) (decodeCssEscapes place) →
        '\x00' ∉ ((decodeCssEscapes text).drop index).takeWhile (· ≠ ')')) <| by
  constructor
  · intro hindices before rest hsplit
    have hindex := hindices before.length (by simp [hsplit])
    rwa [hsplit, List.drop_left] at hindex
  · intro hfree index _
    exact hfree _ _ (List.take_append_drop index _).symm

/-- A URL that the search of the decoded text finds as it stands: it is closed, no parenthesis
stands in its value, and it begins at the edge of a word, behind no opener that is left open. -/
structure PlainUrl (tables : UploadTables) (text place value : Text) : Prop where
  closed : closedUrl place = true
  parenthesis : ')' ∉ value
  unquoted : isQuoted (urlArgument place) = false → Unstripped value
  null : NullFree text place
  edge : (shownBefore text place).getLast?.any tables.isWord = false
  openers : OpenersClosed tables (shownBefore text place)

/-- Every URL of a stylesheet is plain. -/
def PlainUrls (tables : UploadTables) (text : Text) : Prop :=
  ∀ place ∈ tokenPlaces text, ∀ value ∈ urlAt place, PlainUrl tables text place value

instance (value : Text) : Decidable (Unstripped value) :=
  decidable_of_iff (_ ∧ _ ∧ _)
    ⟨fun ⟨hquotes, hfirst, hlast⟩ => ⟨hquotes, hfirst, hlast⟩,
      fun hvalue => ⟨hvalue.quotes, hvalue.first, hvalue.last⟩⟩

instance (place value : Text) : Decidable (PlainUrl tables text place value) :=
  decidable_of_iff (_ ∧ _ ∧ _ ∧ _ ∧ _ ∧ _)
    ⟨fun ⟨hclosed, hparenthesis, hunquoted, hnull, hedge, hopeners⟩ =>
      ⟨hclosed, hparenthesis, hunquoted, hnull, hedge, hopeners⟩,
      fun hplain => ⟨hplain.closed, hplain.parenthesis, hplain.unquoted, hplain.null, hplain.edge,
        hplain.openers⟩⟩

instance (tables : UploadTables) (text : Text) : Decidable (PlainUrls tables text) :=
  inferInstanceAs (Decidable (∀ place ∈ _, _))

/-! ## Checked targets -/

theorem inspectCssUrl_allowed {argument target : Text} {reference : Option Text}
    (haccept : inspectCssUrl tables context argument = .ok reference)
    (htarget : cssTarget context argument = .ok target) : AllowedTarget tables context target := by
  simp only [inspectCssUrl, htarget, bind_eq_ok_iff, refuse_eq_ok, Except.ok.injEq,
    exists_eq_left'] at haccept
  obtain ⟨_, _, hchecked⟩ := haccept
  split at hchecked
  · next hsafe => exact hsafe.imp_right Or.inl
  · simp only [bind_eq_ok_iff] at hchecked
    obtain ⟨key, hresolved, _⟩ := hchecked
    obtain ⟨_, _, kind, _, _, _, hkind, hallowed⟩ := resolveAssetReference_ok hresolved
    exact .inr (.inr ⟨key, kind, hresolved, hkind, hallowed⟩)

/-- No white space stands in a target that is accepted. -/
theorem inspectCssUrl_target {argument : Text} {reference : Option Text}
    (haccept : inspectCssUrl tables context argument = .ok reference) :
    ∃ target, cssTarget context argument = .ok target ∧
      ∀ c ∈ target, isPythonSpace c = false := by
  simp only [inspectCssUrl, bind_eq_ok_iff, refuse_eq_ok] at haccept
  obtain ⟨target, htarget, _, hspaces, _⟩ := haccept
  refine ⟨target, htarget, fun c hc => ?_⟩
  rw [← Bool.not_eq_true]
  exact fun hspace => hspaces (.inr (List.any_eq_true.mpr ⟨c, hc, hspace⟩))

/-- Everything that the search of an accepted stylesheet finds is checked. -/
theorem validateCss_ok {references : List Text}
    (haccept : validateCss tables context text = .ok references) :
    ∀ argument ∈ cssUrlArguments tables (decodeCssEscapes text),
      ∃ reference, inspectCssUrl tables context argument = .ok reference := by
  intro argument hargument
  simp only [validateCss, bind_eq_ok_iff] at haccept
  obtain ⟨fed, hfed, _⟩ := haccept
  by_cases hempty : text = []
  · subst hempty
    cases hargument
  · simp only [CssValidator.feed, if_neg hempty, bind_eq_ok_iff] at hfed
    obtain ⟨_, hinspect, _⟩ := hfed
    exact (inspect_ok_iff.mp hinspect).1.urls argument hargument

section Targets

variable {argument value body : Text} {quote : Char}

theorem quotedTarget_quoted (hquote : isQuote quote = true) :
    quotedTarget (quote :: (value ++ [quote])) = some value := by
  have hlast : (quote :: (value ++ [quote])).getLast? = some quote := by
    rw [← List.cons_append, List.getLast?_append]
    rfl
  rw [quotedTarget, hlast, if_pos]
  · simp
  · refine ⟨?_, rfl, hquote⟩
    rw [List.length_cons, List.length_append, List.length_singleton]
    omega

theorem quotedTarget_eq_some (hquoted : quotedTarget body = some value) :
    ∃ quote, isQuote quote = true ∧ body = quote :: (value ++ [quote]) := by
  rw [quotedTarget] at hquoted
  split at hquoted
  · rename_i hquotes
    obtain ⟨hlength, hends, hquote⟩ := hquotes
    cases body with
    | nil => cases hquote
    | cons quote rest =>
        refine ⟨quote, hquote, ?_⟩
        have hvalue : rest.dropLast = value := Option.some.inj hquoted
        have hrest : rest ≠ [] := by
          rintro rfl
          exact absurd hlength (by simp)
        have hlast : rest.getLast hrest = quote := by
          rw [List.head?_cons, List.getLast?_cons, List.getLast?_eq_some_getLast hrest] at hends
          exact (Option.some.inj hends).symm
        rw [← hvalue, ← hlast, List.dropLast_append_getLast]
  · cases hquoted

/-- A text without quotes is its own target. -/
theorem cssTarget_of_unquoted {target : Text} (hstrip : strip argument = body)
    (hbody : quotedTarget body = none) (htarget : cssTarget context argument = .ok target) :
    target = body := by
  rw [cssTarget] at htarget
  simp only [hstrip, hbody, bind_eq_ok_iff, refuse_eq_ok] at htarget
  obtain ⟨_, _, heq⟩ := htarget
  exact (Except.ok.inj heq).symm

theorem cssTarget_of_quoted {target : Text} (hquote : isQuote quote = true)
    (hstrip : strip argument = quote :: (value ++ [quote]))
    (htarget : cssTarget context argument = .ok target) : target = value := by
  rw [cssTarget] at htarget
  simp only [hstrip, quotedTarget_quoted hquote] at htarget
  exact (Except.ok.inj htarget).symm

/-- The quote at both ends is read as it is. -/
theorem Alike.quoted {shown : Text} (hquote : quote = '"' ∨ quote = '\'')
    (halike : Alike shown (quote :: (value ++ [quote]))) :
    ∃ inner, shown = quote :: (inner ++ [quote]) ∧ Alike inner value := by
  have hsingle : ∀ piece, Alike piece [quote] → piece = [quote] := by
    intro piece hpiece
    rcases hquote with rfl | rfl
    · exact hpiece.eq_of_right (by decide) (by decide)
    · exact hpiece.eq_of_right (by decide) (by decide)
  obtain ⟨first, rest, rfl, hfirst, hrest⟩ :=
    Alike.split (show Alike shown ([quote] ++ (value ++ [quote])) from halike)
  obtain ⟨inner, last, rfl, hinner, hlast⟩ := hrest.split
  rw [hsingle first hfirst, hsingle last hlast]
  exact ⟨inner, rfl, hinner⟩

/-- Quotes at both ends of a text stand at both ends of the one that is read. -/
theorem Alike.quotedTarget_none {shown : Text} (halike : Alike shown value)
    (hvalue : quotedTarget value = none) : quotedTarget shown = none := by
  cases hshown : quotedTarget shown with
  | none => rfl
  | some inner =>
      obtain ⟨quote, hquote, rfl⟩ := quotedTarget_eq_some hshown
      have hsame : ∀ c ∈ [quote], c ∉ ['\r', '\x0c', '\x00'] :=
        List.forall_mem_singleton.mpr (kept_of_class rfl rfl rfl hquote)
      have hbreak : quote ≠ '\n' := by
        rintro rfl
        cases hquote
      obtain ⟨first, rest, rfl, hfirst, hrest⟩ :=
        Alike.split_left (show Alike ([quote] ++ (inner ++ [quote])) value from halike)
          fun hlast => by
            have hreturn : quote = '\r' := Option.some.inj hlast
            rw [hreturn] at hquote
            cases hquote
      obtain ⟨read, last, rfl, _, hlast⟩ := hrest.split_left fun _ hhead =>
        hbreak (Option.some.inj hhead)
      rw [← hfirst.eq_of_left hsame, ← hlast.eq_of_left hsame, List.singleton_append,
        quotedTarget_quoted hquote] at hvalue
      cases hvalue

variable {quoted : Bool}

/-- White space and quotes at the ends of a URL are those that are stripped. -/
theorem UrlBody.ends (hbody : UrlBody value quoted body)
    (hvalue : quoted = false → Unstripped value) :
    body.head?.any isPythonSpace = false ∧ body.getLast?.any isPythonSpace = false := by
  cases hbody with
  | plain => exact ⟨(hvalue rfl).first, (hvalue rfl).last⟩
  | @quoted quote hquote =>
      have hspace : isPythonSpace quote = false := by
        rcases hquote with rfl | rfl
        · rfl
        · rfl
      rw [← List.cons_append, List.getLast?_append]
      exact ⟨hspace, hspace⟩

/-- The target of an accepted URL is its value. -/
theorem UrlBody.target {shown target : Text} (hbody : UrlBody value quoted body)
    (halike : Alike shown body) (hvalue : quoted = false → Unstripped value)
    (hnull : '\x00' ∉ shown) (hstrip : strip argument = shown)
    (htarget : cssTarget context argument = .ok target)
    (hspaces : ∀ c ∈ target, isPythonSpace c = false) : target = value := by
  cases hbody with
  | plain =>
      have hshown := halike.quotedTarget_none (hvalue rfl).quotes
      obtain rfl := cssTarget_of_unquoted hstrip hshown htarget
      exact halike.eq_of_spaceless hspaces hnull
  | @quoted quote hquote =>
      obtain ⟨inner, rfl, hinner⟩ := halike.quoted hquote
      have hmark : isQuote quote = true := by
        rcases hquote with rfl | rfl
        · rfl
        · rfl
      obtain rfl := cssTarget_of_quoted hmark hstrip htarget
      exact hinner.eq_of_spaceless hspaces fun hmem =>
        hnull (List.mem_cons_of_mem _ (List.mem_append_left _ hmem))

end Targets

/-! ## Sound stylesheets -/

theorem isPythonSpace_of_isSpace {c : Char} (hc : isSpace c = true) : isPythonSpace c = true := by
  simp only [isSpace, Bool.or_eq_true, beq_iff_eq] at hc
  rcases hc with (rfl | rfl) | rfl
  · rfl
  · rfl
  · rfl

/-- The place of a URL splits the decoded text. -/
theorem decodeCss_place {place value : Text} (hplace : place ∈ tokenPlaces text)
    (hurl : urlAt place = some value) :
    PlainBreaks place ∧
      decodeCssEscapes (preprocess text) = shownBefore text place ++ decodeCssEscapes place := by
  have hbreaks := plainBreaks_preprocess text
  have hreaches := reaches_tokenStarts hbreaks (.inl (.refl _)) hplace
  refine ⟨hbreaks.suffix hreaches.suffix, ?_⟩
  rcases hreaches with hskips | ⟨rest, hrest, _⟩
  · obtain ⟨shown, hshown⟩ := hskips.decoded
    rw [shownBefore, hshown, List.length_append, Nat.add_sub_cancel, List.take_left]
  · exact absurd (congrArg List.head? hrest) (urlAt_some hurl).1

/-- The name and the parentheses of a URL are read as they are. -/
theorem Alike.url {shown name inside more : Text} (hname : isUrlName name = true)
    (halike : Alike shown (name ++ '(' :: (inside ++ ')' :: more))) :
    ∃ inner later, shown = name ++ '(' :: (inner ++ ')' :: later) ∧ Alike inner inside := by
  have hletters := isAsciiLetter_of_url (urlName_matches hname)
  have hbreak : '\n' ∉ name := by
    intro hmem
    cases hletters _ hmem
  have hreplaced : Char.ofNat 0xFFFD ∉ name := by
    intro hmem
    cases hletters _ hmem
  obtain ⟨first, opened, rfl, hfirst, hopened⟩ := halike.split
  obtain ⟨second, inner, rfl, hsecond, hinner⟩ :=
    Alike.split (show Alike opened (['('] ++ (inside ++ ')' :: more)) from hopened)
  obtain ⟨third, closed, rfl, hthird, hclosed⟩ := hinner.split
  obtain ⟨fourth, later, rfl, hfourth, _⟩ :=
    Alike.split (show Alike closed ([')'] ++ more) from hclosed)
  rw [hfirst.eq_of_right hbreak hreplaced, hsecond.eq_of_right (by decide) (by decide),
    hfourth.eq_of_right (by decide) (by decide)]
  exact ⟨third, later, rfl, hthird⟩

/-- The text of a URL up to its parenthesis. -/
theorem takeWhile_url {name inside more : Text} (hname : isUrlName name = true)
    (hinside : ')' ∉ inside) :
    (name ++ '(' :: (inside ++ ')' :: more)).takeWhile (· ≠ ')') = name ++ '(' :: inside := by
  have hletters := isAsciiLetter_of_url (urlName_matches hname)
  have hfree : ∀ c ∈ name ++ '(' :: inside, decide (c ≠ ')') = true := by
    intro c hc
    refine decide_eq_true ?_
    rintro rfl
    rcases List.mem_append.mp hc with hmem | hmem
    · cases hletters _ hmem
    · rcases List.mem_cons.mp hmem with hopen | hmem
      · cases hopen
      · exact hinside hmem
  have hsplit : name ++ '(' :: (inside ++ ')' :: more) =
      (name ++ '(' :: inside) ++ ')' :: more := by
    simp
  rw [hsplit, List.takeWhile_append_of_pos hfree]
  simp

theorem UrlBody.not_mem_close {value body : Text} {quoted : Bool}
    (hbody : UrlBody value quoted body) (hvalue : ')' ∉ value) : ')' ∉ body := by
  cases hbody with
  | plain => exact hvalue
  | @quoted quote hquote =>
      have hclose : quote ≠ ')' := by
        rintro rfl
        revert hquote
        decide
      simp [hvalue, hclose.symm]

/-- A plain URL of an accepted stylesheet is checked. -/
theorem PlainUrl.allowed {references : List Text} {place value : Text} (hwords : WordLaws tables)
    (haccept : validateCss tables context text = .ok references)
    (hplace : place ∈ tokenPlaces text) (hurl : urlAt place = some value)
    (hplain : PlainUrl tables text place value) : AllowedTarget tables context value := by
  obtain ⟨hbreaks, hsplit⟩ := decodeCss_place hplace hurl
  obtain ⟨name, left, body, right, more, hname, hleft, hbody, hright, hshown⟩ :=
    decodeCss_url hbreaks hurl hplain.closed
  have halike := alike_decodeCss text
  rw [hsplit, hshown] at halike
  obtain ⟨before, rest, hdecoded, hbefore, hrest⟩ := halike.split
  obtain ⟨inner, later, rfl, hinner⟩ := hrest.url hname
  have hclose : ')' ∉ inner := by
    rw [hinner.mem_close_iff, List.mem_append, List.mem_append, not_or, not_or]
    refine ⟨⟨fun hmem => ?_, hbody.not_mem_close hplain.parenthesis⟩, fun hmem => ?_⟩
    · cases hleft _ hmem
    · cases hright _ hmem
  have hedge : before.getLast?.any tables.isWord = false :=
    (hbefore.last hwords.shared).trans hplain.edge
  have hargument := @mem_cssUrlArguments tables name inner later before
    (hplain.openers.alike hwords hbefore) hedge (hwords.head hname) hname hclose
  rw [← hdecoded] at hargument
  obtain ⟨reference, hreference⟩ := validateCss_ok haccept _ hargument
  obtain ⟨target, htarget, hspaces⟩ := inspectCssUrl_target hreference
  obtain ⟨surrounded, after, rfl, hsurrounded, hafter⟩ := hinner.split
  obtain ⟨blanks, shown, rfl, hblanks, hbodyShown⟩ := hsurrounded.split
  obtain ⟨hhead, hlast⟩ := hbody.ends hplain.unquoted
  have hstrip := strip_surrounded
    ((hblanks.forall_iff sharedClass_space).mpr fun c hc => isPythonSpace_of_isSpace (hleft c hc))
    ((hafter.forall_iff sharedClass_space).mpr fun c hc => isPythonSpace_of_isSpace (hright c hc))
    ((hbodyShown.head sharedClass_space).trans hhead)
    ((hbodyShown.last sharedClass_space).trans hlast)
  have hnull : '\x00' ∉ shown := by
    intro hmem
    refine hplain.null before _ hdecoded (by rw [hshown]; exact hrest) ?_
    rw [takeWhile_url hname hclose]
    simp [hmem]
  rw [← hbody.target hbodyShown hplain.unquoted hnull hstrip htarget hspaces]
  exact inspectCssUrl_allowed hreference htarget

/-- An accepted stylesheet whose URLs are plain refers to allowed targets only. -/
theorem plain_stylesheet_is_sound {references : List Text} (hwords : WordLaws tables)
    (haccept : validateCss tables context text = .ok references)
    (hplain : PlainUrls tables text) :
    ∀ target ∈ cssTargets text, AllowedTarget tables context target := by
  intro target htarget
  obtain ⟨place, hplace, hurl⟩ := mem_urlTargets htarget
  exact (hplain place hplace target hurl).allowed hwords haccept hplace hurl

end Soundness

/-! ## A package with one picture -/

/-- A package with one picture. -/
def picturePackage : PackageContext where
  artifactKinds := [("a.png".toList, .image)]
  limits := .default
  index := 0

theorem wordLaws_ascii : WordLaws asciiUploadTables := by
  constructor
  · intro c hc
    exact (Bool.or_eq_true _ _).mpr (.inl hc)
  · intro c hc
    simp only [List.mem_cons, List.not_mem_nil, or_false] at hc
    rcases hc with rfl | rfl | rfl | rfl | rfl
    · rfl
    · rfl
    · rfl
    · rfl
    · rfl

/-- Two URLs, one with an escape and one in quotes, and a carriage return between them. -/
def pictureStylesheet : Text :=
  "a\x7bb:url(a\\2e png);\r\nc:url( 'a.png' )\x7d".toList

theorem picture_stylesheet_is_sound :
    (∃ references, validateCss asciiUploadTables picturePackage pictureStylesheet =
      .ok references) ∧ PlainUrls asciiUploadTables pictureStylesheet ∧
      cssTargets pictureStylesheet = ["a.png".toList, "a.png".toList] ∧
      ∀ target ∈ cssTargets pictureStylesheet,
        AllowedTarget asciiUploadTables picturePackage target := by
  have haccept : validateCss asciiUploadTables picturePackage pictureStylesheet =
      .ok ["a.png".toList, "a.png".toList, "a.png".toList, "a.png".toList] := by
    decide +kernel
  have hplain : PlainUrls asciiUploadTables pictureStylesheet := by
    decide +kernel
  have htargets : cssTargets pictureStylesheet = ["a.png".toList, "a.png".toList] := by
    decide +kernel
  exact ⟨⟨_, haccept⟩, hplain, htargets, plain_stylesheet_is_sound wordLaws_ascii haccept hplain⟩

/-- The stylesheet whose URL goes on behind an escaped parenthesis. -/
def escapedStylesheet : Text :=
  "a\x7bb:url(a.png\\)b.png)\x7d".toList

/-- The search ends the target at the escaped parenthesis, which belongs to its name. -/
theorem escaped_parenthesis_is_unsound :
    ∃ references target,
      validateCss asciiUploadTables picturePackage escapedStylesheet = .ok references ∧
      target ∈ cssTargets escapedStylesheet ∧
        ¬ AllowedTarget asciiUploadTables picturePackage target := by
  have haccept : validateCss asciiUploadTables picturePackage escapedStylesheet =
      .ok ["a.png".toList, "a.png".toList] := by
    decide +kernel
  have htarget : cssTargets escapedStylesheet = ["a.png)b.png".toList] := by
    decide +kernel
  refine ⟨_, _, haccept, htarget ▸ List.mem_cons_self, ?_⟩
  have hsafe : matchesStart asciiUploadTables safeDataUrl "a.png)b.png".toList = false := by
    decide +kernel
  have hblob : startsWithBlob asciiUploadTables "a.png)b.png".toList = false := by
    decide +kernel
  have hmissing : resolveAssetReference asciiUploadTables picturePackage.artifactKinds
      picturePackage.cssRequest "a.png)b.png".toList =
        .error ⟨.missingAssetReference, some 0, none⟩ := by
    decide +kernel
  rintro (hdata | hblobbed | ⟨reference, kind, hresolved, _⟩)
  · rw [hsafe] at hdata
    cases hdata
  · rw [hblob] at hblobbed
    cases hblobbed
  · rw [hmissing] at hresolved
    cases hresolved

end Agora
