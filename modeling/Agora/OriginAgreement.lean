import Agora.ArtifactNameGuard
import Agora.PolicyHeaders
import Mathlib.Data.Bool.AllAny
import Mathlib.Data.List.TakeWhile

/-!
# Agreement of the two readers of an origin

An origin that the configuration accepts is canonical: reading its value again gives the same
origin, and the header policy accepts the value as it is.
-/

namespace Agora

/-- What the readers use of `str.lower` and of NFKC: the lower case of a text keeps the ASCII
characters that are no letters, does not reach across a percent sign, makes no white space and is
its own lower case; NFKC keeps ASCII texts and digits at the end, and a lower case brings no
delimiter of URLs into the compatibility form. -/
structure LowerCaseLaws (tables : OriginTables) : Prop where
  lower_lower : ∀ text, tables.lower (tables.lower text) = tables.lower text
  lower_eq_nil : ∀ text, tables.lower text = [] → text = []
  lower_percent : ∀ before after,
    tables.lower (before ++ '%' :: after) = tables.lower before ++ '%' :: tables.lower after
  count_lower : ∀ text c, isAscii c = true → isAsciiLetter c = false →
    (tables.lower text).count c = text.count c
  space_lower : ∀ text, text.any isPythonSpace = false →
    (tables.lower text).any isPythonSpace = false
  nfkc_ascii : ∀ text, text.all isAscii = true → tables.nfkc text = text
  nfkc_digits : ∀ text digits, digits.all isAsciiDigit = true →
    tables.nfkc (text ++ digits) = tables.nfkc text ++ digits
  nfkc_lower : ∀ text, ∀ c ∈ ['/', '?', '#', '@', ':'],
    c ∈ tables.nfkc (tables.lower text) → c ∈ tables.nfkc text

/-- The port of an origin as it stands behind the host name. -/
def portText : Option ℕ → Text
  | none => []
  | some port => ':' :: Nat.toDigits 10 port

theorem originText_eq (scheme hostname : Text) (port : Option ℕ) :
    originText scheme hostname port = scheme ++ "://".toList ++ (hostname ++ portText port) := by
  cases port with
  | none => simp [originText, portText]
  | some port => simp [originText, portText]

/-- The delimiters of a network location and of what follows it. -/
def originDelimiters : Text :=
  ['/', '?', '#', '@', ':', '[', ']']

/-! ## What the configuration accepts -/

/-- The checks of `_parse_origin` for the parts of a value. -/
structure AcceptedParts (tables : OriginTables) (value : Text) (parts : SplitUrl)
    (origin : Origin) : Prop where
  unspaced : value.any isPythonSpace = false
  split : urlsplit tables.refusesNetloc value = some parts
  port : parts.port = some origin.port
  scheme_mem : parts.scheme ∈ [httpScheme, httpsScheme]
  named : (parts.hostname tables).getD [] ≠ []
  userless : parts.hasUsername = false
  path : parts.path = []
  query : parts.query = []
  fragment : parts.fragment = []
  reachable : ¬ ('*' ∈ origin.hostname ∨ origin.hostname.head? = some '.' ∨
    tables.isUnspecified origin.hostname = true)
  custom : origin.port ≠ some (defaultPort parts.scheme)
  normal : tables.lower value = origin.value
  value_eq : origin.value = originText origin.scheme origin.hostname origin.port
  scheme_eq : origin.scheme = parts.scheme
  hostname_eq : origin.hostname = tables.lower ((parts.hostname tables).getD [])

section Reading

variable {tables : OriginTables} {name : String} {value hostname scheme : Text}
  {parts : SplitUrl} {origin : Origin} {port : Option ℕ}

theorem originOf_ok (haccept : originOf tables name value = .ok origin) :
    ∃ parts, AcceptedParts tables value parts origin := by
  unfold originOf at haccept
  split at haccept
  · cases haccept
  · rename_i hspace
    cases hsplit : urlsplit tables.refusesNetloc value with
    | none => simp [hsplit] at haccept
    | some parts =>
        cases hport : parts.port with
        | none => simp [hsplit, hport] at haccept
        | some port =>
            simp only [hsplit, hport, Option.bind_eq_bind, Option.bind_some] at haccept
            split_ifs at haccept with hparts hreachable hcustom hnormal
            simp only [not_or, not_not] at hparts
            rw [Except.ok.injEq] at haccept
            subst haccept
            exact ⟨parts, by simpa using hspace, hsplit, hport, hparts.1, hparts.2.1,
              by simpa using hparts.2.2.1, hparts.2.2.2.1, hparts.2.2.2.2.1, hparts.2.2.2.2.2,
              hreachable, hcustom, not_not.mp hnormal, rfl, rfl, rfl⟩

theorem AcceptedParts.originOf_eq (haccepted : AcceptedParts tables value parts origin) :
    originOf tables name value = .ok origin := by
  have hparts : ¬ (parts.scheme ∉ [httpScheme, httpsScheme] ∨
      (parts.hostname tables).getD [] = [] ∨ parts.hasUsername = true ∨ parts.path ≠ [] ∨
        parts.query ≠ [] ∨ parts.fragment ≠ []) := by
    simp only [not_or, not_not, Bool.not_eq_true]
    exact ⟨haccepted.scheme_mem, haccepted.named, haccepted.userless, haccepted.path,
      haccepted.query, haccepted.fragment⟩
  have hreachable := haccepted.reachable
  have hnormal := haccepted.normal
  rw [haccepted.value_eq, haccepted.scheme_eq] at hnormal
  rw [haccepted.hostname_eq] at hnormal hreachable
  unfold originOf
  rw [if_neg (by rw [haccepted.unspaced]; exact Bool.false_ne_true), haccepted.split]
  simp only [haccepted.port, Option.bind_eq_bind, Option.bind_some]
  rw [if_neg hparts, if_neg hreachable, if_neg haccepted.custom, if_neg (not_not.mpr hnormal),
    ← haccepted.hostname_eq, ← haccepted.scheme_eq, ← haccepted.value_eq]

end Reading

/-! ## Canonical origins -/

/-- A scheme, a host name and a port that can be read from their text. -/
structure CanonicalOrigin (tables : OriginTables) (scheme hostname : Text) (port : Option ℕ) :
    Prop where
  scheme_mem : scheme ∈ [httpScheme, httpsScheme]
  nonempty : hostname ≠ []
  plain : ∀ c ∈ hostname, c ∉ originDelimiters
  unspaced : (originText scheme hostname port).any isPythonSpace = false
  recased : tables.lower (tables.lower (hostname.takeWhile (· ≠ '%')) ++
    hostname.dropWhile (· ≠ '%')) = hostname
  renamed : tables.lower (hostname.takeWhile (· ≠ '%')) ++ hostname.dropWhile (· ≠ '%') ≠ []
  port_le : ∀ n, port = some n → n ≤ 65535
  kept : tables.expandsNetloc (hostname ++ portText port) = false

section Canonical

variable {tables : OriginTables} {scheme hostname : Text} {port : Option ℕ}

theorem mem_portText {c : Char} (hmem : c ∈ portText port) :
    c = ':' ∨ isAsciiDigit c = true := by
  cases port with
  | none => cases hmem
  | some n =>
      rw [portText, List.mem_cons] at hmem
      cases hmem with
      | inl hcolon => exact Or.inl hcolon
      | inr hdigit =>
          right
          have hisDigit := Nat.isDigit_of_mem_toDigits (by decide) (by decide) hdigit
          simp only [Char.isDigit, Bool.and_eq_true, decide_eq_true_eq] at hisDigit
          simp only [isAsciiDigit, Bool.and_eq_true, decide_eq_true_eq]
          exact hisDigit

theorem CanonicalOrigin.netloc_plain (horigin : CanonicalOrigin tables scheme hostname port) :
    ∀ c ∈ hostname ++ portText port, c ∉ ['/', '?', '#', '@', '[', ']'] := by
  intro c hc
  rw [List.mem_append] at hc
  cases hc with
  | inl hhost =>
      have hplain := horigin.plain c hhost
      simp only [originDelimiters, List.mem_cons, List.not_mem_nil, or_false, not_or] at hplain ⊢
      exact ⟨hplain.1, hplain.2.1, hplain.2.2.1, hplain.2.2.2.1, hplain.2.2.2.2.2⟩
  | inr hport =>
      intro hdelimiter
      simp only [List.mem_cons, List.not_mem_nil, or_false] at hdelimiter
      cases mem_portText hport with
      | inl hcolon =>
          subst hcolon
          revert hdelimiter
          decide
      | inr hdigit =>
          rcases hdelimiter with rfl | rfl | rfl | rfl | rfl | rfl <;> revert hdigit <;> decide

theorem CanonicalOrigin.refusesNetloc (horigin : CanonicalOrigin tables scheme hostname port) :
    tables.refusesNetloc (hostname ++ portText port) = false := by
  have hopen : '[' ∉ hostname ++ portText port := fun hmem =>
    horigin.netloc_plain '[' hmem (by decide)
  have hclose : ']' ∉ hostname ++ portText port := fun hmem =>
    horigin.netloc_plain ']' hmem (by decide)
  rw [OriginTables.refusesNetloc, decide_eq_false hopen, decide_eq_false hclose, horigin.kept]
  rfl

theorem cleanUrl_eq {url : Text} (hunspaced : url.any isPythonSpace = false)
    (hhead : ∀ c ∈ url.head?, isC0OrSpace c = false) : cleanUrl url = url := by
  have hdrop : url.dropWhile isC0OrSpace = url := by
    cases url with
    | nil => rfl
    | cons c rest =>
        apply List.dropWhile_cons_of_neg
        rw [hhead c rfl]
        exact Bool.false_ne_true
  rw [cleanUrl, hdrop, List.filter_eq_self]
  intro c hc
  have hspace := List.any_eq_false.mp hunspaced c hc
  rw [decide_eq_true_eq]
  intro hremoved
  simp only [List.mem_cons, List.not_mem_nil, or_false] at hremoved
  apply hspace
  rcases hremoved with rfl | rfl | rfl <;> decide

theorem splitScheme_originText {rest : Text} (hscheme : scheme ∈ [httpScheme, httpsScheme]) :
    splitScheme (scheme ++ ':' :: rest) = (scheme, rest) := by
  simp only [List.mem_cons, List.not_mem_nil, or_false] at hscheme
  cases hscheme with
  | inl hhttp =>
      rw [hhttp]
      rfl
  | inr hhttps =>
      rw [hhttps]
      rfl

/-- The text of a canonical origin is taken apart into what it was made of. -/
theorem CanonicalOrigin.urlsplit_eq (horigin : CanonicalOrigin tables scheme hostname port) :
    urlsplit tables.refusesNetloc (originText scheme hostname port) =
      some ⟨scheme, hostname ++ portText port, [], [], []⟩ := by
  have hclean : cleanUrl (originText scheme hostname port) = originText scheme hostname port := by
    apply cleanUrl_eq horigin.unspaced
    intro c hc
    have hscheme := horigin.scheme_mem
    simp only [List.mem_cons, List.not_mem_nil, or_false] at hscheme
    rw [originText_eq] at hc
    cases hscheme with
    | inl hhttp =>
        rw [hhttp] at hc
        cases hc
        decide
    | inr hhttps =>
        rw [hhttps] at hc
        cases hc
        decide
  have hscheme : splitScheme (originText scheme hostname port) =
      (scheme, '/' :: '/' :: (hostname ++ portText port)) := by
    rw [originText_eq, List.append_assoc]
    exact splitScheme_originText horigin.scheme_mem
  have hall : ∀ c ∈ hostname ++ portText port, (c ≠ '/' && c ≠ '?' && c ≠ '#') = true := by
    intro c hc
    have hplain := horigin.netloc_plain c hc
    simp only [List.mem_cons, List.not_mem_nil, or_false, not_or] at hplain
    simp [hplain.1, hplain.2.1, hplain.2.2.1]
  have hnetloc : splitNetloc ('/' :: '/' :: (hostname ++ portText port)) =
      (hostname ++ portText port, []) := by
    have hslashes : ('/' :: '/' :: (hostname ++ portText port)).take 2 = ['/', '/'] := rfl
    rw [splitNetloc, if_pos hslashes, List.span_eq_takeWhile_dropWhile]
    simp only [List.drop_succ_cons, List.drop_zero]
    rw [List.takeWhile_eq_self_iff.mpr hall, List.dropWhile_eq_nil_iff.mpr hall]
  rw [urlsplit, hclean, hscheme]
  simp only
  rw [hnetloc]
  simp only
  rw [splitAtFirst_of_notMem List.not_mem_nil, splitAtFirst_of_notMem List.not_mem_nil,
    horigin.refusesNetloc]
  rfl

/-- The parts of a canonical origin are what it was made of. -/
theorem CanonicalOrigin.hostAndPort (horigin : CanonicalOrigin tables scheme hostname port) :
    (SplitUrl.mk scheme (hostname ++ portText port) [] [] []).hostAndPort =
      (hostname, (portText port).tail) := by
  have hinfo : (SplitUrl.mk scheme (hostname ++ portText port) [] [] []).hostinfo =
      hostname ++ portText port := by
    have hall : ∀ c ∈ (hostname ++ portText port).reverse, decide (c ≠ '@') = true := by
      intro c hc
      have hplain := horigin.netloc_plain c (List.mem_reverse.mp hc)
      simp only [List.mem_cons, List.not_mem_nil, or_false, not_or] at hplain
      exact decide_eq_true hplain.2.2.2.1
    rw [SplitUrl.hostinfo, List.takeWhile_eq_self_iff.mpr hall, List.reverse_reverse]
  have hopen : '[' ∉ hostname ++ portText port := fun hmem =>
    horigin.netloc_plain '[' hmem (by decide)
  have hhost : ∀ c ∈ hostname, decide (c ≠ ':') = true := by
    intro c hc
    have hplain := horigin.plain c hc
    rw [decide_eq_true_eq]
    intro hcolon
    rw [hcolon] at hplain
    exact hplain (by decide)
  rw [SplitUrl.hostAndPort, hinfo, if_neg hopen, splitAtFirst,
    List.takeWhile_append_of_pos hhost, List.dropWhile_append_of_pos hhost]
  cases port with
  | none => simp [portText]
  | some n => simp [portText]

theorem portText_digits {n : ℕ} : (Nat.toDigits 10 n).all isAsciiDigit = true := by
  rw [List.all_eq_true]
  intro c hc
  have hmem : c ∈ portText (some n) := List.mem_cons_of_mem _ hc
  cases mem_portText hmem with
  | inl hcolon =>
      subst hcolon
      have hdigit := Nat.isDigit_of_mem_toDigits (by decide) (by decide) hc
      revert hdigit
      decide
  | inr hdigit => exact hdigit

theorem SplitUrl.port_of_portText {parts : SplitUrl}
    (hsecond : parts.hostAndPort.2 = (portText port).tail) (hle : ∀ n, port = some n → n ≤ 65535) :
    parts.port = some port := by
  cases port with
  | none =>
      rw [portText, List.tail_nil] at hsecond
      simp only [SplitUrl.port, hsecond, if_true]
  | some n =>
      rw [portText, List.tail_cons] at hsecond
      have hne : Nat.toDigits 10 n ≠ [] := Nat.toDigits_ne_nil
      simp only [SplitUrl.port, hsecond, hne, if_false, portText_digits,
        Nat.ofDigitChars_ten_toDigits, hle n rfl, and_self, if_true]

theorem CanonicalOrigin.port_eq (horigin : CanonicalOrigin tables scheme hostname port) :
    (SplitUrl.mk scheme (hostname ++ portText port) [] [] []).port = some port :=
  SplitUrl.port_of_portText (congrArg Prod.snd horigin.hostAndPort) horigin.port_le

/-- The host name is read in lower case, and lower case again it is the one that was written. -/
theorem CanonicalOrigin.hostname_eq (horigin : CanonicalOrigin tables scheme hostname port) :
    ∃ named, (SplitUrl.mk scheme (hostname ++ portText port) [] [] []).hostname tables =
      some named ∧ named ≠ [] ∧ tables.lower named = hostname := by
  have hfirst := congrArg Prod.fst horigin.hostAndPort
  refine ⟨_, ?_, horigin.renamed, horigin.recased⟩
  simp only [SplitUrl.hostname, hfirst, horigin.nonempty, if_false]

theorem CanonicalOrigin.userless (horigin : CanonicalOrigin tables scheme hostname port) :
    (SplitUrl.mk scheme (hostname ++ portText port) [] [] []).hasUsername = false := by
  rw [SplitUrl.hasUsername]
  apply decide_eq_false
  intro hmem
  exact horigin.netloc_plain '@' hmem (by decide)

/-- The header policy accepts a canonical origin as it is. -/
theorem CanonicalOrigin.validatedOrigin_eq
    (horigin : CanonicalOrigin tables scheme hostname port) :
    validatedOrigin tables (originText scheme hostname port) =
      .ok (originText scheme hostname port) := by
  obtain ⟨named, hnamed, hne, hlower⟩ := horigin.hostname_eq
  have hserialized : serializedOrigin tables ⟨scheme, hostname ++ portText port, [], [], []⟩ =
      some (originText scheme hostname port) := by
    have hknown : ¬ (scheme ∉ [httpScheme, httpsScheme] ∨ named = []) := by
      rw [not_or, not_not]
      exact ⟨horigin.scheme_mem, hne⟩
    simp only [serializedOrigin, hnamed, Option.bind_eq_bind, Option.bind_some, if_neg hknown,
      horigin.port_eq, hlower]
  have htext : ¬ (originText scheme hostname port = [] ∨
      (originText scheme hostname port).any isPythonSpace = true) := by
    rw [not_or, horigin.unspaced, originText_eq]
    exact ⟨by simp, Bool.false_ne_true⟩
  have hparts : ¬ (scheme ∉ [httpScheme, httpsScheme] ∨
      (SplitUrl.mk scheme (hostname ++ portText port) [] [] []).hasUsername = true ∨
        ([] : Text) ≠ [] ∨ ([] : Text) ≠ [] ∨ ([] : Text) ≠ [] ∨
          originText scheme hostname port ≠ originText scheme hostname port) := by
    simp only [horigin.userless, ne_eq, not_true_eq_false, or_false, Bool.false_eq_true, not_not]
    exact horigin.scheme_mem
  unfold validatedOrigin
  rw [if_neg htext, horigin.urlsplit_eq]
  simp only [Option.bind_eq_bind, Option.bind_some, horigin.port_eq, hserialized]
  exact if_neg hparts

end Canonical

/-! ## The origins of the configuration are canonical -/

section Configured

variable {tables : OriginTables} {value hostname scheme host suffix : Text} {parts : SplitUrl}
  {origin : Origin} {port : Option ℕ} {refused : Text → Bool}

theorem urlsplit_netloc (hsplit : urlsplit refused value = some parts) :
    parts.netloc.Sublist value ∧ (∀ c ∈ parts.netloc, c ∉ ['/', '?', '#']) ∧
      refused parts.netloc = false := by
  have hclean : (cleanUrl value).Sublist value :=
    List.filter_sublist.trans (List.dropWhile_sublist _)
  have hrest : (splitScheme (cleanUrl value)).2.Sublist (cleanUrl value) := by
    unfold splitScheme
    simp only
    split
    · exact (List.tail_sublist _).trans (List.dropWhile_sublist _)
    · exact List.Sublist.refl _
  simp only [urlsplit, Option.ite_none_left_eq_some, Bool.not_eq_true, Option.some.injEq] at hsplit
  obtain ⟨hkept, rfl⟩ := hsplit
  simp only
  generalize (splitScheme (cleanUrl value)).2 = rest at hkept hrest ⊢
  unfold splitNetloc at hkept ⊢
  by_cases hslashes : rest.take 2 = ['/', '/']
  · rw [if_pos hslashes, List.span_eq_takeWhile_dropWhile] at hkept ⊢
    have htake := List.takeWhile_sublist (l := rest.drop 2)
      (fun c : Char => decide (c ≠ '/') && decide (c ≠ '?') && decide (c ≠ '#'))
    refine ⟨htake.trans ((List.drop_sublist 2 rest).trans (hrest.trans hclean)), ?_, hkept⟩
    intro c hc
    have hplain := List.mem_takeWhile_imp hc
    simp only [Bool.and_eq_true, decide_eq_true_eq] at hplain
    simp only [List.mem_cons, List.not_mem_nil, or_false, not_or]
    exact ⟨hplain.1.1, hplain.1.2, hplain.2⟩
  · rw [if_neg hslashes] at hkept ⊢
    refine ⟨List.nil_sublist _, ?_, hkept⟩
    intro c hc
    cases hc

theorem LowerCaseLaws.lower_recased (hlaws : LowerCaseLaws tables) (text : Text) :
    tables.lower (tables.lower (text.takeWhile (· ≠ '%')) ++ text.dropWhile (· ≠ '%')) =
      tables.lower text := by
  have htext := List.takeWhile_append_dropWhile (p := fun c : Char => decide (c ≠ '%')) (l := text)
  cases hdrop : text.dropWhile (· ≠ '%') with
  | nil =>
      rw [hdrop, List.append_nil] at htext
      rw [List.append_nil, hlaws.lower_lower, htext]
  | cons c rest =>
      have hpercent : c = '%' := by
        have hhead := List.head?_dropWhile_not (fun c : Char => decide (c ≠ '%')) text
        rw [hdrop] at hhead
        simpa using hhead
      rw [hdrop, hpercent] at htext
      rw [hpercent, hlaws.lower_percent, hlaws.lower_lower, ← hlaws.lower_percent, htext]

theorem LowerCaseLaws.mem_lower (hlaws : LowerCaseLaws tables) {text : Text} {c : Char}
    (hascii : isAscii c = true) (hletter : isAsciiLetter c = false) :
    c ∈ tables.lower text ↔ c ∈ text := by
  rw [← List.count_pos_iff, ← List.count_pos_iff, hlaws.count_lower text c hascii hletter]

/-- A suffix of a network location that holds the port, if any. -/
def IsPortSuffix (suffix : Text) : Prop :=
  suffix = [] ∨ ∃ digits, suffix = ':' :: digits ∧ digits.all isAsciiDigit = true

theorem digit_ne_delimiter {c : Char} (hdigit : isAsciiDigit c = true) :
    c ∉ ['/', '?', '#', '@', ':'] := by
  intro hmem
  simp only [List.mem_cons, List.not_mem_nil, or_false] at hmem
  rcases hmem with rfl | rfl | rfl | rfl | rfl <;> revert hdigit <;> decide

/-- Whether a network location is refused for its compatibility form depends on its host. -/
theorem LowerCaseLaws.expandsNetloc_iff (hlaws : LowerCaseLaws tables)
    (hhost : ∀ c ∈ host, c ∉ ['/', '?', '#', '@', ':']) (hsuffix : IsPortSuffix suffix) :
    tables.expandsNetloc (host ++ suffix) = true ↔
      ∃ c ∈ ['/', '?', '#', '@', ':'], c ∈ tables.nfkc host := by
  have hplain : ∃ digits, (host ++ suffix).filter (fun c => c ∉ ['@', ':', '#', '?']) =
      host ++ digits ∧ digits.all isAsciiDigit = true := by
    have hkept : host.filter (fun c => c ∉ ['@', ':', '#', '?']) = host := by
      rw [List.filter_eq_self]
      intro c hc
      have hother := hhost c hc
      simp only [List.mem_cons, List.not_mem_nil, or_false, not_or] at hother
      simp [hother.2.2.2.1, hother.2.2.2.2, hother.2.2.1, hother.2.1]
    rw [List.filter_append, hkept]
    cases hsuffix with
    | inl hempty => exact ⟨[], by rw [hempty]; rfl, rfl⟩
    | inr hport =>
        obtain ⟨digits, hcolon, hdigits⟩ := hport
        refine ⟨digits, ?_, hdigits⟩
        rw [hcolon, List.filter_cons_of_neg (by decide), List.filter_eq_self.mpr]
        intro c hc
        have hother := digit_ne_delimiter (List.all_eq_true.mp hdigits c hc)
        simp only [List.mem_cons, List.not_mem_nil, or_false, not_or] at hother
        simp [hother.2.2.2.1, hother.2.2.2.2, hother.2.2.1, hother.2.1]
  obtain ⟨digits, hfilter, hdigits⟩ := hplain
  have hform := hlaws.nfkc_digits host digits hdigits
  have hmem : ∀ c ∈ ['/', '?', '#', '@', ':'], (c ∈ tables.nfkc (host ++ digits) ↔
      c ∈ tables.nfkc host) := by
    intro c hc
    rw [hform, List.mem_append, or_iff_left]
    intro hdigit
    exact digit_ne_delimiter (List.all_eq_true.mp hdigits c hdigit) hc
  simp only [OriginTables.expandsNetloc, hfilter, Bool.and_eq_true, List.any_eq_true,
    decide_eq_true_eq]
  constructor
  · intro hexpands
    obtain ⟨c, hc, hfound⟩ := hexpands.2
    exact ⟨c, hc, (hmem c hc).mp hfound⟩
  · intro hfound
    obtain ⟨c, hc, hform⟩ := hfound
    have hnew : c ∉ host := fun hold => hhost c hold hc
    refine ⟨⟨?_, ?_⟩, c, hc, (hmem c hc).mpr hform⟩
    · rw [Bool.not_eq_true', ← Bool.not_eq_true]
      intro hascii
      rw [List.all_append, Bool.and_eq_true] at hascii
      rw [hlaws.nfkc_ascii host hascii.1] at hform
      exact hnew hform
    · rw [bne_iff_ne]
      intro hsame
      have hold := (hmem c hc).mpr hform
      rw [hsame, List.mem_append] at hold
      cases hold with
      | inl hhost => exact hnew hhost
      | inr hdigit => exact digit_ne_delimiter (List.all_eq_true.mp hdigits c hdigit) hc

/-- In front of an opening bracket nothing of a host name is read. -/
theorem SplitUrl.count_bracket (hopen : '[' ∈ parts.hostinfo) :
    parts.hostAndPort.1.count '[' < parts.hostinfo.count '[' := by
  have hhost : parts.hostAndPort.1.Sublist (parts.hostinfo.dropWhile (· ≠ '[')).tail := by
    rw [SplitUrl.hostAndPort, if_pos hopen]
    exact List.takeWhile_sublist _
  have hinfo := List.takeWhile_append_dropWhile (p := fun c : Char => decide (c ≠ '['))
    (l := parts.hostinfo)
  cases hdrop : parts.hostinfo.dropWhile (· ≠ '[') with
  | nil =>
      have hnone := List.dropWhile_eq_nil_iff.mp hdrop '[' hopen
      simp at hnone
  | cons c rest =>
      have hhead := List.head?_dropWhile_not (fun c : Char => decide (c ≠ '[')) parts.hostinfo
      rw [hdrop] at hhead hhost hinfo
      have hbracket : c = '[' := by simpa using hhead
      rw [List.tail_cons] at hhost
      have hle := hhost.count_le '['
      have hcount := congrArg (List.count '[') hinfo
      rw [List.count_append, hbracket, List.count_cons_self] at hcount
      omega

theorem SplitUrl.hostinfo_eq (huserless : parts.hasUsername = false) :
    parts.hostinfo = parts.netloc := by
  have habsent : '@' ∉ parts.netloc := of_decide_eq_false huserless
  have hall : ∀ c ∈ parts.netloc.reverse, decide (c ≠ '@') = true := by
    intro c hc
    rw [decide_eq_true_eq]
    intro hat
    exact habsent (hat ▸ List.mem_reverse.mp hc)
  rw [SplitUrl.hostinfo, List.takeWhile_eq_self_iff.mpr hall, List.reverse_reverse]

theorem SplitUrl.hostname_eq_some (hnamed : (parts.hostname tables).getD [] ≠ []) :
    parts.hostname tables = some (tables.lower (parts.hostAndPort.1.takeWhile (· ≠ '%')) ++
      parts.hostAndPort.1.dropWhile (· ≠ '%')) := by
  unfold SplitUrl.hostname at hnamed ⊢
  by_cases hempty : parts.hostAndPort.1 = []
  · simp [hempty] at hnamed
  · simp only [hempty, if_false]

theorem AcceptedParts.hostname_eq_lower (hlaws : LowerCaseLaws tables)
    (haccepted : AcceptedParts tables value parts origin) :
    origin.hostname = tables.lower parts.hostAndPort.1 := by
  rw [haccepted.hostname_eq, SplitUrl.hostname_eq_some haccepted.named, Option.getD_some,
    hlaws.lower_recased]

theorem originText_count (hscheme : scheme ∈ [httpScheme, httpsScheme]) :
    (originText scheme hostname port).count '[' = hostname.count '[' := by
  have hfront : (scheme ++ "://".toList).count '[' = 0 := by
    simp only [List.mem_cons, List.not_mem_nil, or_false] at hscheme
    cases hscheme with
    | inl hhttp =>
        rw [hhttp]
        decide
    | inr hhttps =>
        rw [hhttps]
        decide
  have hport : (portText port).count '[' = 0 := by
    rw [List.count_eq_zero]
    intro hmem
    cases mem_portText hmem with
    | inl hcolon =>
        revert hcolon
        decide
    | inr hdigit =>
        revert hdigit
        decide
  rw [originText_eq, List.count_append, hfront, List.count_append, hport, Nat.zero_add,
    Nat.add_zero]

theorem AcceptedParts.bracket (hlaws : LowerCaseLaws tables)
    (haccepted : AcceptedParts tables value parts origin) : '[' ∉ parts.netloc := by
  intro hopen
  have hinfo := SplitUrl.hostinfo_eq haccepted.userless
  rw [← hinfo] at hopen
  have hfewer := SplitUrl.count_bracket hopen
  have hnetloc := (urlsplit_netloc haccepted.split).1.count_le '['
  have hlower := hlaws.count_lower value '[' (by decide) (by decide)
  have hhost := hlaws.count_lower parts.hostAndPort.1 '[' (by decide) (by decide)
  have hscheme := haccepted.scheme_mem
  rw [← haccepted.scheme_eq] at hscheme
  rw [haccepted.normal, haccepted.value_eq, originText_count hscheme,
    haccepted.hostname_eq_lower hlaws] at hlower
  rw [hinfo] at hfewer
  omega

theorem SplitUrl.port_eq_some (hport : parts.port = some port) :
    parts.hostAndPort.2.all isAsciiDigit = true ∧ ∀ n, port = some n → n ≤ 65535 := by
  unfold SplitUrl.port at hport
  simp only at hport
  split_ifs at hport with hempty hdigits
  · rw [Option.some.injEq] at hport
    rw [hempty, ← hport]
    exact ⟨rfl, fun n hn => nomatch hn⟩
  · rw [Option.some.injEq] at hport
    refine ⟨hdigits.1, ?_⟩
    intro n hn
    rw [← hport, Option.some.injEq] at hn
    rw [← hn]
    exact hdigits.2

/-- An accepted network location is a host name and a port, without any other delimiter. -/
theorem AcceptedParts.netloc (hlaws : LowerCaseLaws tables)
    (haccepted : AcceptedParts tables value parts origin) :
    ∃ suffix, parts.netloc = parts.hostAndPort.1 ++ suffix ∧ IsPortSuffix suffix ∧
      ∀ c ∈ parts.hostAndPort.1, c ∉ originDelimiters := by
  have hopen := haccepted.bracket hlaws
  have hsplit := urlsplit_netloc haccepted.split
  have huser : '@' ∉ parts.netloc := of_decide_eq_false haccepted.userless
  have hclose : ']' ∉ parts.netloc := by
    intro hclose
    have hkept := hsplit.2.2
    rw [OriginTables.refusesNetloc, decide_eq_false hopen, decide_eq_true hclose] at hkept
    simp at hkept
  have hparts : parts.hostAndPort = splitAtFirst ':' parts.netloc := by
    rw [SplitUrl.hostAndPort, SplitUrl.hostinfo_eq haccepted.userless, if_neg hopen]
  rw [hparts]
  refine ⟨parts.netloc.dropWhile (· ≠ ':'), ?_, ?_, ?_⟩
  · exact List.takeWhile_append_dropWhile.symm
  · cases hdrop : parts.netloc.dropWhile (· ≠ ':') with
    | nil => exact Or.inl rfl
    | cons c digits =>
        have hhead := List.head?_dropWhile_not (fun c : Char => decide (c ≠ ':')) parts.netloc
        rw [hdrop] at hhead
        have hcolon : c = ':' := by simpa using hhead
        have hsecond : parts.hostAndPort.2 = digits := by
          rw [hparts, splitAtFirst, hdrop, List.tail_cons]
        refine Or.inr ⟨digits, by rw [hcolon], ?_⟩
        rw [← hsecond]
        exact (SplitUrl.port_eq_some haccepted.port).1
  · intro c hc
    have hmem : c ∈ parts.netloc := (List.takeWhile_sublist _).mem hc
    have hcolon := List.mem_takeWhile_imp hc
    have hurl := hsplit.2.1 c hmem
    simp only [List.mem_cons, List.not_mem_nil, or_false, not_or] at hurl
    simp only [originDelimiters, List.mem_cons, List.not_mem_nil, or_false, not_or]
    refine ⟨hurl.1, hurl.2.1, hurl.2.2, ?_, of_decide_eq_true hcolon, ?_, ?_⟩
    · rintro rfl
      exact huser hmem
    · rintro rfl
      exact hopen hmem
    · rintro rfl
      exact hclose hmem

theorem isPortSuffix_portText : IsPortSuffix (portText port) := by
  cases port with
  | none => exact Or.inl rfl
  | some n => exact Or.inr ⟨_, rfl, portText_digits⟩

/-- What the configuration accepts is a canonical origin. -/
theorem AcceptedParts.canonical (hlaws : LowerCaseLaws tables)
    (haccepted : AcceptedParts tables value parts origin) :
    CanonicalOrigin tables origin.scheme origin.hostname origin.port := by
  obtain ⟨suffix, hnetloc, hsuffix, hhost⟩ := haccepted.netloc hlaws
  have hlower := haccepted.hostname_eq_lower hlaws
  have hplain : ∀ c ∈ origin.hostname, c ∉ originDelimiters := by
    intro c hc hdelimiter
    have hascii : ∀ d ∈ originDelimiters, isAscii d = true ∧ isAsciiLetter d = false := by
      rw [← List.all_iff_forall_prop]
      decide
    rw [hlower, hlaws.mem_lower (hascii c hdelimiter).1 (hascii c hdelimiter).2] at hc
    exact hhost c hc hdelimiter
  have hnonempty : origin.hostname ≠ [] := by
    intro hempty
    rw [haccepted.hostname_eq] at hempty
    exact haccepted.named (hlaws.lower_eq_nil _ hempty)
  have hdelimiters : ∀ {text : Text}, (∀ c ∈ text, c ∉ originDelimiters) →
      ∀ c ∈ text, c ∉ ['/', '?', '#', '@', ':'] := by
    intro text htext c hc hdelimiter
    apply htext c hc
    have hsubset : ∀ d ∈ ['/', '?', '#', '@', ':'], d ∈ originDelimiters := by
      rw [← List.all_iff_forall_prop]
      decide
    exact hsubset c hdelimiter
  constructor
  · rw [haccepted.scheme_eq]
    exact haccepted.scheme_mem
  · exact hnonempty
  · exact hplain
  · rw [← haccepted.value_eq, ← haccepted.normal]
    exact hlaws.space_lower value haccepted.unspaced
  · rw [hlaws.lower_recased, hlower, hlaws.lower_lower]
  · intro hempty
    rw [List.append_eq_nil_iff] at hempty
    apply hnonempty
    rw [← List.takeWhile_append_dropWhile (p := fun c : Char => decide (c ≠ '%'))
      (l := origin.hostname), hempty.2, hlaws.lower_eq_nil _ hempty.1, List.append_nil]
  · exact (SplitUrl.port_eq_some haccepted.port).2
  · rw [← Bool.not_eq_true, hlaws.expandsNetloc_iff (hdelimiters hplain) isPortSuffix_portText]
    intro hexpands
    obtain ⟨c, hc, hform⟩ := hexpands
    have hkept := (urlsplit_netloc haccepted.split).2.2
    rw [OriginTables.refusesNetloc, Bool.or_eq_false_iff, hnetloc] at hkept
    apply Bool.eq_false_iff.mp hkept.2
    rw [hlaws.expandsNetloc_iff (hdelimiters hhost) hsuffix]
    rw [hlower] at hform
    exact ⟨c, hc, hlaws.nfkc_lower _ c hc hform⟩

/-- The value of an accepted origin is accepted again, in every part as it was. -/
theorem AcceptedParts.again (hlaws : LowerCaseLaws tables)
    (haccepted : AcceptedParts tables value parts origin) :
    AcceptedParts tables origin.value
      ⟨origin.scheme, origin.hostname ++ portText origin.port, [], [], []⟩ origin := by
  have hcanonical := haccepted.canonical hlaws
  obtain ⟨named, hnamed, hne, hlower⟩ := hcanonical.hostname_eq
  have hcustom := haccepted.custom
  rw [← haccepted.scheme_eq] at hcustom
  constructor
  · rw [haccepted.value_eq]
    exact hcanonical.unspaced
  · rw [haccepted.value_eq]
    exact hcanonical.urlsplit_eq
  · exact hcanonical.port_eq
  · exact hcanonical.scheme_mem
  · rw [hnamed]
    exact hne
  · exact hcanonical.userless
  · rfl
  · rfl
  · rfl
  · exact haccepted.reachable
  · exact hcustom
  · rw [← haccepted.normal, hlaws.lower_lower]
  · exact haccepted.value_eq
  · rfl
  · rw [hnamed, Option.getD_some, hlower]

theorem strip_of_unspaced {text : Text} (hunspaced : text.any isPythonSpace = false) :
    strip text = text := by
  have hdrop : ∀ {characters : Text}, (∀ c ∈ characters, c ∈ text) →
      characters.dropWhile isPythonSpace = characters := by
    intro characters hmem
    cases characters with
    | nil => rfl
    | cons c rest =>
        apply List.dropWhile_cons_of_neg
        exact List.any_eq_false.mp hunspaced c (hmem c List.mem_cons_self)
  rw [strip, hdrop (fun _ hc => hc), hdrop (fun _ hc => List.mem_reverse.mp hc),
    List.reverse_reverse]

theorem parseOrigin_ok {environ : Environ} {name : String} {errors : List String}
    (haccept : parseOrigin tables environ name = (some origin, errors)) :
    ∃ value parts, AcceptedParts tables value parts origin := by
  unfold parseOrigin at haccept
  simp only at haccept
  split at haccept
  · cases haccept
  · split at haccept
    · rename_i hfound
      simp only [Prod.mk.injEq, Option.some.injEq] at haccept
      rw [haccept.1] at hfound
      exact ⟨_, originOf_ok hfound⟩
    · cases haccept

theorem AcceptedParts.parseOrigin_eq {environ : Environ} {name : String}
    (haccepted : AcceptedParts tables value parts origin) (hne : value ≠ [])
    (hvalue : environ name = some value) :
    parseOrigin tables environ name = (some origin, []) := by
  have hstrip := strip_of_unspaced haccepted.unspaced
  have hrequired : requiredText environ name = (value, []) := by
    simp only [requiredText, hvalue, Option.getD_some, hstrip, hne, if_false]
  simp only [parseOrigin, hrequired, hstrip, hne, if_false, haccepted.originOf_eq]

/-- An origin of the configuration is canonical: its value is read as the same origin, and the
header policies accept it as it is. -/
theorem configured_origin_is_canonical (hlaws : LowerCaseLaws tables) {environ : Environ}
    {name : String} {errors : List String}
    (haccept : parseOrigin tables environ name = (some origin, errors)) :
    (∀ environ name, environ name = some origin.value →
      parseOrigin tables environ name = (some origin, [])) ∧
    validatedOrigin tables origin.value = .ok origin.value ∧
    (contentSecurityPolicy tables origin.value).isOk = true ∧
    ∀ allowScripts, (portalContentSecurityPolicy tables origin.value allowScripts).isOk = true := by
  obtain ⟨value, parts, haccepted⟩ := parseOrigin_ok haccept
  have hcanonical := haccepted.canonical hlaws
  have hvalid : validatedOrigin tables origin.value = .ok origin.value := by
    rw [haccepted.value_eq]
    exact hcanonical.validatedOrigin_eq
  have hne := (validatedOrigin_ok hvalid).1
  constructor
  · intro environ name hvalue
    exact (haccepted.again hlaws).parseOrigin_eq hne hvalue
  · refine ⟨hvalid, ?_, ?_⟩
    · rw [contentSecurityPolicy_ok hvalid]
      rfl
    · intro allowScripts
      rw [portalContentSecurityPolicy_ok hvalid]
      rfl

end Configured

/-! ## An origin in capitals -/

/-- Lower case changes letters only, and only to letters. -/
theorem toLower_cases (c : Char) :
    c.toLower = c ∨ isAsciiLetter c.toLower = true ∧ isAsciiLetter c = true ∧
      isPythonSpace c.toLower = false := by
  cases hascii : isAscii c with
  | false => exact Or.inl (toLower_of_not_ascii hascii)
  | true =>
      have hall : ∀ n < 128, (Char.ofNat n).toLower = Char.ofNat n ∨
          isAsciiLetter (Char.ofNat n).toLower = true ∧ isAsciiLetter (Char.ofNat n) = true ∧
            isPythonSpace (Char.ofNat n).toLower = false := by
        decide +kernel
      have hlower := hall c.toNat (by simpa [isAscii] using hascii)
      rwa [Char.ofNat_toNat] at hlower

theorem toLower_eq_iff {c d : Char} (hletter : isAsciiLetter d = false) :
    c.toLower = d ↔ c = d := by
  cases toLower_cases c with
  | inl hsame => rw [hsame]
  | inr hletters =>
      constructor
      · intro heq
        rw [heq, hletter] at hletters
        cases hletters.1
      · intro heq
        rw [heq, hletter] at hletters
        cases hletters.2.1

theorem asciiOriginTables_laws : LowerCaseLaws asciiOriginTables := by
  constructor
  · intro text
    simp only [asciiOriginTables, List.map_map]
    congr 1
    funext c
    exact toLower_toLower c
  · intro text hempty
    exact List.map_eq_nil_iff.mp hempty
  · intro before after
    simp [asciiOriginTables]
  · intro text c _ hletter
    induction text with
    | nil => rfl
    | cons d rest ih =>
        have hhead : (d.toLower == c) = (d == c) := by
          rw [Bool.eq_iff_iff, beq_iff_eq, beq_iff_eq]
          exact toLower_eq_iff hletter
        simp only [asciiOriginTables, List.map_cons, List.count_cons] at ih ⊢
        rw [ih, hhead]
  · intro text hspace
    simp only [asciiOriginTables, List.any_map, List.any_eq_false] at hspace ⊢
    intro c hc hlower
    apply hspace c hc
    cases toLower_cases c with
    | inl hsame => simpa [hsame] using hlower
    | inr hletters =>
        rw [Function.comp_apply, hletters.2.2] at hlower
        cases hlower
  · exact fun _ _ => rfl
  · exact fun _ _ _ => rfl
  · intro text c hc hmem
    have hletter : ∀ d ∈ ['/', '?', '#', '@', ':'], isAsciiLetter d = false := by
      rw [← List.all_iff_forall_prop]
      decide
    obtain ⟨d, hd, heq⟩ := List.mem_map.mp hmem
    rw [toLower_eq_iff (hletter c hc)] at heq
    exact heq ▸ hd

theorem capital_origin_is_canonical :
    (∀ environ name, environ name = some "http://agora.example:8443".toList →
      parseOrigin asciiOriginTables environ name =
        (some ⟨"http://agora.example:8443".toList, httpScheme, "agora.example".toList, some 8443⟩,
          [])) ∧
    validatedOrigin asciiOriginTables "http://agora.example:8443".toList =
      .ok "http://agora.example:8443".toList ∧
    (contentSecurityPolicy asciiOriginTables "http://agora.example:8443".toList).isOk = true ∧
    ∀ allowScripts, (portalContentSecurityPolicy asciiOriginTables
      "http://agora.example:8443".toList allowScripts).isOk = true := by
  have haccept : parseOrigin asciiOriginTables
      (fun _ => some " HTTP://Agora.Example:8443\n".toList) "AGORA_PORTAL_ORIGIN" =
        (some ⟨"http://agora.example:8443".toList, httpScheme, "agora.example".toList, some 8443⟩,
          []) := by
    decide +kernel
  exact configured_origin_is_canonical asciiOriginTables_laws haccept

end Agora
