import Agora.CssDecoding
import Mathlib.Data.List.TakeWhile

/-!
# The URLs in a decoded text

At the place of a token the decoded text goes on with what the rest decodes to.  A URL that is
closed shows there its name, a parenthesis, its value and a parenthesis again.
-/

namespace Agora

open CssSyntax

section Places

variable {c : Char} {text behind rest place value : Text} {fuel : ℕ}

theorem reaches_tokenStarts {whole : Text} (hbreaks : PlainBreaks whole)
    (hreaches : Reaches whole text) (hplace : place ∈ tokenStarts fuel text) :
    Reaches whole place := by
  induction fuel generalizing text with
  | zero => cases hplace
  | succ fuel ih =>
      cases text with
      | nil => cases hplace
      | cons c rest =>
          rw [tokenStarts, List.mem_cons] at hplace
          rcases hplace with rfl | hplace
          · exact hreaches
          · refine ih ?_ hplace
            rcases hreaches with hskips | ⟨later, hlater, hskips⟩
            · exact hskips.reaches (reaches_consumeToken (hbreaks.suffix hskips.suffix))
            · obtain ⟨rfl, rfl⟩ := List.cons.inj hlater
              exact .inl ((hskips.trans .break).trans (skips_dropWhile rfl))

/-! ## What a token decodes to -/

theorem decodeCss_append {word : Text} (hword : '\\' ∉ word) :
    decodeCssEscapes (word ++ rest) = word ++ decodeCssEscapes rest := by
  induction word with
  | nil => rfl
  | cons c word ih =>
      rw [List.mem_cons, not_or] at hword
      rw [List.cons_append, decodeCss_cons (Ne.symm hword.1), ih hword.2, List.cons_append]

theorem decodeCss_spaces (text : Text) :
    decodeCssEscapes text =
      text.takeWhile isSpace ++ decodeCssEscapes (text.dropWhile isSpace) := by
  have hspaces : '\\' ∉ text.takeWhile isSpace := by
    intro hmem
    have hspace := List.mem_takeWhile_imp hmem
    cases hspace
  rw [← decodeCss_append hspaces, List.takeWhile_append_dropWhile]

theorem decodeCss_consumeName (hbreaks : PlainBreaks text)
    (hbehind : (consumeName fuel text).2 ≠ []) :
    decodeCssEscapes text =
      (consumeName fuel text).1 ++ decodeCssEscapes (consumeName fuel text).2 := by
  induction fuel generalizing text with
  | zero => rfl
  | succ fuel ih =>
      cases text with
      | nil => rfl
      | cons c rest =>
          rw [consumeName] at hbehind ⊢
          by_cases hname : isNameChar c = true
          · rw [if_pos hname] at hbehind ⊢
            rw [decodeCss_cons (ne_backslash rfl hname), ih hbreaks.tail hbehind]
            rfl
          · rw [if_neg hname] at hbehind ⊢
            by_cases hstarts : startsEscape (c :: rest) = true
            · rw [if_pos hstarts] at hbehind ⊢
              obtain ⟨rfl, hbreak⟩ := startsEscape_cons.mp hstarts
              cases rest with
              | nil => cases fuel <;> exact absurd rfl hbehind
              | cons d rest =>
                  have hd : d ≠ '\n' := fun hd => hbreak (congrArg some hd)
                  have hsuffix := (consumeEscape_suffix (d :: rest)).trans
                    (List.suffix_cons '\\' (d :: rest))
                  rw [decodeCss_escape hd hbreaks.tail, ih (hbreaks.suffix hsuffix) hbehind]
                  rfl
            · rw [if_neg hstarts]
              rfl

section Strings

variable {quote : Char}

theorem consumeString_quote :
    consumeString quote (fuel + 1) (quote :: rest) = (some [], rest) := by
  unfold consumeString
  exact if_pos rfl

theorem consumeString_break (hquote : quote ≠ '\\') :
    consumeString quote (fuel + 1) ('\\' :: '\n' :: rest) = consumeString quote fuel rest := by
  conv_lhs => unfold consumeString
  rw [if_neg (Ne.symm hquote), if_neg (by decide), if_pos rfl]
  rfl

theorem consumeString_escape (hquote : quote ≠ '\\') (hc : c ≠ '\n') :
    consumeString quote (fuel + 1) ('\\' :: c :: rest) =
      ((consumeString quote fuel (consumeEscape (c :: rest)).2).1.map
        ((consumeEscape (c :: rest)).1 :: ·),
        (consumeString quote fuel (consumeEscape (c :: rest)).2).2) := by
  conv_lhs => unfold consumeString
  rw [if_neg (Ne.symm hquote), if_neg (by decide), if_pos rfl]
  split
  · rename_i heq
    cases heq
  · rename_i later heq
    exact absurd (List.cons.inj heq).1 hc
  · rfl

theorem consumeString_char (hquote : c ≠ quote) (hbreak : c ≠ '\n') (hc : c ≠ '\\') :
    consumeString quote (fuel + 1) (c :: rest) =
      ((consumeString quote fuel rest).1.map (c :: ·), (consumeString quote fuel rest).2) := by
  conv_lhs => unfold consumeString
  rw [if_neg hquote, if_neg hbreak, if_neg hc]

/-- A string that is closed decodes to its value and the quote. -/
theorem decodeCss_consumeString (hquote : quote ≠ '\\') (hbreaks : PlainBreaks text)
    (hfuel : text.length ≤ fuel) (hvalue : (consumeString quote fuel text).1 = some value)
    (hbehind : (consumeString quote fuel text).2 ≠ []) :
    decodeCssEscapes text =
      value ++ quote :: decodeCssEscapes (consumeString quote fuel text).2 := by
  induction fuel generalizing text value with
  | zero =>
      rw [List.length_eq_zero_iff.mp (Nat.le_zero.mp hfuel)] at hbehind
      exact absurd rfl hbehind
  | succ fuel ih =>
      cases text with
      | nil => exact absurd rfl hbehind
      | cons c rest =>
          have hlength : rest.length ≤ fuel := Nat.le_of_succ_le_succ hfuel
          by_cases hc : c = quote
          · rw [hc, consumeString_quote] at hvalue ⊢
            obtain rfl := Option.some.inj hvalue
            exact decodeCss_cons hquote
          · by_cases hbreak : c = '\n'
            · unfold consumeString at hvalue
              rw [if_neg hc, if_pos hbreak] at hvalue
              cases hvalue
            · by_cases hbackslash : c = '\\'
              · rw [hbackslash] at hvalue hbehind hbreaks ⊢
                cases rest with
                | nil =>
                    unfold consumeString at hbehind
                    rw [if_neg (Ne.symm hquote)] at hbehind
                    exact absurd rfl hbehind
                | cons d later =>
                    have hlater : later.length ≤ fuel := Nat.le_of_succ_le hlength
                    by_cases hd : d = '\n'
                    · rw [hd, consumeString_break hquote] at hvalue hbehind ⊢
                      rw [decodeCss_break]
                      exact ih hbreaks.tail.tail hlater hvalue hbehind
                    · rw [consumeString_escape hquote hd] at hvalue hbehind ⊢
                      obtain ⟨inner, hinner, rfl⟩ := Option.map_eq_some_iff.mp hvalue
                      have hsuffix := consumeEscape_suffix (d :: later)
                      have hnext := ih (hbreaks.tail.suffix hsuffix)
                        (hsuffix.length_le.trans hlength) hinner hbehind
                      rw [decodeCss_escape hd hbreaks.tail, hnext]
                      rfl
              · rw [consumeString_char hc hbreak hbackslash] at hvalue hbehind ⊢
                obtain ⟨inner, hinner, rfl⟩ := Option.map_eq_some_iff.mp hvalue
                rw [decodeCss_cons hbackslash, ih hbreaks.tail hlength hinner hbehind]
                rfl

end Strings

section Urls

theorem closesUrl_spaces (hspaces : ∀ c ∈ text, isSpace c = true) :
    closesUrl fuel text = false := by
  induction fuel generalizing text with
  | zero => rfl
  | succ fuel ih =>
      cases text with
      | nil => rfl
      | cons c rest =>
          obtain ⟨hc, hrest⟩ := List.forall_mem_cons.mp hspaces
          have hclose : c ≠ ')' := by
            rintro rfl
            cases hc
          rw [closesUrl, if_neg hclose, if_neg (not_startsEscape (ne_backslash rfl hc))]
          exact ih hrest

/-- A URL that is closed decodes to its value, some space and the parenthesis. -/
theorem decodeCss_consumeUrl (hbreaks : PlainBreaks text)
    (hvalue : (consumeUrl fuel text).1 = some value) (hclosed : closesUrl fuel text = true) :
    ∃ right more, (∀ c ∈ right, isSpace c = true) ∧
      decodeCssEscapes text = value ++ right ++ ')' :: more := by
  induction fuel generalizing text value with
  | zero => cases hclosed
  | succ fuel ih =>
      cases text with
      | nil => cases hclosed
      | cons c rest =>
          unfold consumeUrl at hvalue
          rw [closesUrl] at hclosed
          by_cases hc : c = ')'
          · rw [if_pos hc] at hvalue
            obtain rfl := Option.some.inj hvalue
            refine ⟨[], decodeCssEscapes rest, by simp, ?_⟩
            rw [hc, decodeCss_cons (by decide)]
            rfl
          · rw [if_neg hc] at hvalue hclosed
            by_cases hspace : isSpace c = true
            · rw [if_pos hspace] at hvalue
              have hbackslash : c ≠ '\\' := ne_backslash rfl hspace
              split at hvalue
              · rename_i hdrop
                rw [if_neg (not_startsEscape hbackslash),
                  closesUrl_spaces (List.dropWhile_eq_nil_iff.mp hdrop)] at hclosed
                cases hclosed
              · rename_i behind hdrop
                obtain rfl := Option.some.inj hvalue
                refine ⟨c :: rest.takeWhile isSpace, decodeCssEscapes behind, ?_, ?_⟩
                · exact List.forall_mem_cons.mpr ⟨hspace, fun d hd => List.mem_takeWhile_imp hd⟩
                · rw [decodeCss_cons hbackslash, decodeCss_spaces rest, hdrop,
                    decodeCss_cons (by decide)]
                  rfl
              · cases hvalue
            · rw [if_neg hspace] at hvalue
              split at hvalue
              · cases hvalue
              · split at hvalue
                · rename_i hbackslash
                  rw [hbackslash] at hvalue hclosed hbreaks ⊢
                  split at hvalue
                  · rename_i hstarts
                    rw [if_pos hstarts] at hclosed
                    obtain ⟨_, hbreak⟩ := startsEscape_cons.mp hstarts
                    cases rest with
                    | nil => cases fuel <;> cases hclosed
                    | cons d later =>
                        have hd : d ≠ '\n' := fun hd => hbreak (congrArg some hd)
                        obtain ⟨inner, hinner, rfl⟩ := Option.map_eq_some_iff.mp hvalue
                        obtain ⟨right, more, hright, hmore⟩ :=
                          ih (hbreaks.tail.suffix (consumeEscape_suffix _)) hinner hclosed
                        refine ⟨right, more, hright, ?_⟩
                        rw [decodeCss_escape hd hbreaks.tail, hmore]
                        rfl
                  · cases hvalue
                · rename_i hbackslash
                  rw [if_neg (not_startsEscape hbackslash)] at hclosed
                  obtain ⟨inner, hinner, rfl⟩ := Option.map_eq_some_iff.mp hvalue
                  obtain ⟨right, more, hright, hmore⟩ := ih hbreaks.tail hinner hclosed
                  refine ⟨right, more, hright, ?_⟩
                  rw [decodeCss_cons hbackslash, hmore]
                  rfl

/-! ## Places of URLs -/

/-- Only a name starts a URL or a function. -/
theorem consumeToken_cases (c : Char) (rest : Text) :
    (startsName (c :: rest) = true ∧ consumeToken c rest = consumeNamed (c :: rest)) ∨
      ((∀ value, (consumeToken c rest).1 ≠ .url value) ∧
        ∀ name, (consumeToken c rest).1 ≠ .function name) := by
  unfold consumeToken
  dsimp only
  split
  · exact .inr ⟨nofun, nofun⟩
  · split
    · exact .inr ⟨nofun, nofun⟩
    · split
      · split
        · exact .inr ⟨nofun, nofun⟩
        · exact .inr ⟨nofun, nofun⟩
      · split
        · exact .inr ⟨nofun, nofun⟩
        · split
          · exact .inr ⟨nofun, nofun⟩
          · split
            · exact .inr ⟨nofun, nofun⟩
            · split
              · exact .inr ⟨nofun, nofun⟩
              · split
                · exact .inr ⟨nofun, nofun⟩
                · split
                  · rename_i hname
                    exact .inl ⟨hname, rfl⟩
                  · exact .inr ⟨nofun, nofun⟩

/-- The name of a URL stands before a parenthesis, and its value in quotes or not. -/
structure NamesUrl (text name rest : Text) : Prop where
  named : consumeName text.length text = (name, '(' :: rest)
  url : isUrlName name = true

theorem NamesUrl.argument {name : Text} (hnames : NamesUrl text name rest) :
    urlArgument text = rest.dropWhile isSpace := by
  rw [urlArgument, hnames.named]
  rfl

theorem consumeNamed_open {name : Text}
    (hparts : consumeName text.length text = (name, '(' :: rest)) :
    consumeNamed text =
      if isUrlName name then
        if isQuoted (rest.dropWhile isSpace) then (.function name, rest)
        else
          match consumeUrl (rest.dropWhile isSpace).length (rest.dropWhile isSpace) with
          | (some value, behind) => (.url value, behind)
          | (none, behind) => (.badUrl, behind)
      else (.function name, rest) := by
  unfold consumeNamed
  rw [hparts]
  rfl

theorem consumeNamed_cases (text : Text) :
    (∃ name rest, NamesUrl text name rest ∧ isQuoted (urlArgument text) = true ∧
        consumeNamed text = (.function name, rest)) ∨
      (∃ name rest value, NamesUrl text name rest ∧ isQuoted (urlArgument text) = false ∧
        (consumeUrl (urlArgument text).length (urlArgument text)).1 = some value ∧
        (consumeNamed text).1 = .url value) ∨
      ((∀ value, (consumeNamed text).1 ≠ .url value) ∧
        ∀ name, (consumeNamed text).1 = .function name → isUrlName name = false) := by
  cases hparts : consumeName text.length text with
  | mk name behind =>
      by_cases hopened : ∃ rest, behind = '(' :: rest
      · obtain ⟨rest, rfl⟩ := hopened
        rw [consumeNamed_open hparts]
        cases hname : isUrlName name with
        | false =>
            rw [if_neg Bool.false_ne_true]
            right
            right
            refine ⟨nofun, fun other hother => ?_⟩
            rw [← CssToken.function.inj hother]
            exact hname
        | true =>
            have hnames : NamesUrl text name rest := ⟨hparts, hname⟩
            rw [if_pos rfl, hnames.argument]
            cases hquoted : isQuoted (rest.dropWhile isSpace) with
            | true =>
                rw [if_pos rfl]
                exact .inl ⟨name, rest, hnames, rfl, rfl⟩
            | false =>
                rw [if_neg Bool.false_ne_true]
                right
                cases hurl : consumeUrl (rest.dropWhile isSpace).length
                    (rest.dropWhile isSpace) with
                | mk result later =>
                    cases result with
                    | some value => exact .inl ⟨name, rest, value, hnames, rfl, rfl, rfl⟩
                    | none => exact .inr ⟨nofun, nofun⟩
      · unfold consumeNamed
        rw [hparts]
        right
        right
        split
        · rename_i rest heq
          exact absurd ⟨rest, (Prod.mk.inj heq).2⟩ hopened
        · exact ⟨nofun, nofun⟩

/-- What stands at the place of a URL: the name, a parenthesis and the argument with the value. -/
theorem urlAt_some (hurl : urlAt place = some value) :
    place.head? ≠ some '\n' ∧ ∃ name rest, NamesUrl place name rest ∧
      if isQuoted (urlArgument place) then (quotedString (urlArgument place)).1 = some value
      else (consumeUrl (urlArgument place).length (urlArgument place)).1 = some value := by
  cases place with
  | nil => cases hurl
  | cons c rest =>
      rw [urlAt] at hurl
      rcases consumeToken_cases c rest with ⟨hname, htoken⟩ | ⟨hnourl, hnofunction⟩
      · constructor
        · intro hhead
          rw [Option.some.inj hhead] at hname
          cases hname
        · rw [htoken] at hurl
          rcases consumeNamed_cases (c :: rest) with ⟨name, later, hnames, hquoted, hnamed⟩ |
            ⟨name, later, found, hnames, hquoted, hread, hnamed⟩ | ⟨hnourl, hnofunction⟩
          · rw [hnamed] at hurl
            dsimp only at hurl
            rw [if_pos hnames.url] at hurl
            exact ⟨name, later, hnames, by rwa [if_pos hquoted]⟩
          · rw [hnamed] at hurl
            dsimp only at hurl
            refine ⟨name, later, hnames, ?_⟩
            rw [hquoted, if_neg Bool.false_ne_true, hread, hurl]
          · split at hurl
            · rename_i found hfound
              exact absurd hfound (hnourl found)
            · rename_i name hfound
              rw [hnofunction name hfound, if_neg Bool.false_ne_true] at hurl
              cases hurl
            · cases hurl
      · split at hurl
        · rename_i found hfound
          exact absurd hfound (hnourl found)
        · rename_i name hfound
          exact absurd hfound (hnofunction name)
        · cases hurl

theorem consumeToken_space (hc : isSpace c = true) :
    consumeToken c rest = (.space, rest.dropWhile isSpace) := by
  have hslash : c ≠ '/' := by
    rintro rfl
    cases hc
  unfold consumeToken
  dsimp only
  rw [if_neg fun hcomment => hslash hcomment.1, if_pos hc]

theorem consumeToken_quote (hc : c = '"' ∨ c = '\'') :
    (consumeToken c rest).1 =
      match (consumeString c rest.length rest).1 with
      | some value => .string value
      | none => .badString := by
  have hslash : c ≠ '/' := by
    rintro rfl
    revert hc
    decide
  have hspace : isSpace c = false := by
    rcases hc with rfl | rfl
    · rfl
    · rfl
  unfold consumeToken
  dsimp only
  rw [if_neg fun hcomment => hslash hcomment.1, hspace, if_neg Bool.false_ne_true, if_pos hc]
  split
  · rename_i value behind hread
    rw [hread]
  · rename_i behind hread
    rw [hread]

theorem stringArgument_quoted {argument : Text} (hquoted : isQuoted argument = true)
    (hstring : stringArgument (tokensFrom fuel argument) = some value) :
    (quotedString argument).1 = some value := by
  cases fuel with
  | zero => cases hstring
  | succ fuel =>
      cases argument with
      | nil => cases hquoted
      | cons quote later =>
          have hquote : quote = '"' ∨ quote = '\'' := by
            simpa [isQuoted] using hquoted
          rw [tokensFrom] at hstring
          dsimp only at hstring
          rw [consumeToken_quote hquote] at hstring
          rw [quotedString]
          cases hread : (consumeString quote later.length later).1 with
          | none =>
              rw [hread] at hstring
              cases hstring
          | some found =>
              rw [hread] at hstring
              exact hstring

/-- The string of a URL function stands at the place of its argument. -/
theorem stringArgument_tokens (hquoted : isQuoted (text.dropWhile isSpace) = true)
    (hstring : stringArgument (tokensFrom fuel text) = some value) :
    (quotedString (text.dropWhile isSpace)).1 = some value := by
  cases text with
  | nil => cases hquoted
  | cons c rest =>
      by_cases hc : isSpace c = true
      · rw [List.dropWhile_cons_of_pos hc] at hquoted ⊢
        cases fuel with
        | zero => cases hstring
        | succ fuel =>
            rw [tokensFrom, consumeToken_space hc] at hstring
            exact stringArgument_quoted hquoted hstring
      · rw [List.dropWhile_cons_of_neg hc] at hquoted ⊢
        exact stringArgument_quoted hquoted hstring

theorem mem_urlTargets_cons {token : CssToken} {later : List CssToken} {target : Text} :
    target ∈ urlTargets (token :: later) ↔
      token = .url target ∨
        (∃ name, token = .function name ∧ isUrlName name = true ∧
          stringArgument later = some target) ∨
        target ∈ urlTargets later := by
  cases token with
  | url value =>
      rw [urlTargets, List.mem_cons, CssToken.url.injEq]
      constructor
      · rintro (rfl | hlater)
        · exact .inl rfl
        · exact .inr (.inr hlater)
      · rintro (rfl | ⟨_, hfunction, _⟩ | hlater)
        · exact .inl rfl
        · cases hfunction
        · exact .inr hlater
  | function name => cases hname : isUrlName name <;> simp [urlTargets, hname]
  | _ => simp [urlTargets]

/-- Each target stands at the place of a token. -/
theorem mem_urlTargets {target : Text} (htarget : target ∈ urlTargets (tokensFrom fuel text)) :
    ∃ place ∈ tokenStarts fuel text, urlAt place = some target := by
  induction fuel generalizing text with
  | zero => cases htarget
  | succ fuel ih =>
      cases text with
      | nil => cases htarget
      | cons c rest =>
          rw [tokenStarts]
          rw [tokensFrom] at htarget
          dsimp only at htarget
          rcases mem_urlTargets_cons.mp htarget with hurl | ⟨name, hfunction, hname, hstring⟩ |
            hlater
          · refine ⟨c :: rest, List.mem_cons_self, ?_⟩
            rw [urlAt, hurl]
          · refine ⟨c :: rest, List.mem_cons_self, ?_⟩
            rw [urlAt, hfunction]
            dsimp only
            rw [if_pos hname]
            rcases consumeToken_cases c rest with ⟨_, htoken⟩ | ⟨_, hnofunction⟩
            · rw [htoken] at hfunction hstring
              rcases consumeNamed_cases (c :: rest) with
                ⟨found, later, hnames, hquoted, hnamed⟩ |
                ⟨found, later, value, _, _, _, hnamed⟩ | ⟨_, hnofunction⟩
              · rw [hnamed] at hstring
                rw [hnames.argument] at hquoted ⊢
                exact stringArgument_tokens hquoted hstring
              · rw [hnamed] at hfunction
                cases hfunction
              · rw [hnofunction name hfunction] at hname
                cases hname
            · exact absurd hfunction (hnofunction name)
          · obtain ⟨place, hplace, hurl⟩ := ih hlater
            exact ⟨place, List.mem_cons_of_mem _ hplace, hurl⟩

/-! ## What a URL shows -/

/-- The text of a value between the parentheses, in quotes or not. -/
inductive UrlBody (value : Text) : Bool → Text → Prop where
  | plain : UrlBody value false value
  | quoted {quote : Char} (hquote : quote = '"' ∨ quote = '\'') :
      UrlBody value true (quote :: (value ++ [quote]))

theorem decodeCss_urlArgument (hbreaks : PlainBreaks place)
    (hvalue : if isQuoted (urlArgument place) then
        (quotedString (urlArgument place)).1 = some value
      else (consumeUrl (urlArgument place).length (urlArgument place)).1 = some value)
    (hclosed : closedUrl place = true) (hsuffix : urlArgument place <:+ place) :
    ∃ body right more, UrlBody value (isQuoted (urlArgument place)) body ∧
      (∀ c ∈ right, isSpace c = true) ∧
      decodeCssEscapes (urlArgument place) = body ++ right ++ ')' :: more := by
  have hargument := hbreaks.suffix hsuffix
  unfold closedUrl at hclosed
  generalize urlArgument place = argument at *
  dsimp only at hclosed
  cases hquoted : isQuoted argument with
  | false =>
      rw [hquoted, if_neg Bool.false_ne_true] at hvalue hclosed
      obtain ⟨right, more, hright, hmore⟩ := decodeCss_consumeUrl hargument hvalue hclosed
      exact ⟨value, right, more, .plain, hright, hmore⟩
  | true =>
      rw [hquoted, if_pos rfl] at hvalue hclosed
      cases argument with
      | nil => cases hquoted
      | cons quote later =>
          have hquote : quote = '"' ∨ quote = '\'' := by
            simpa [isQuoted] using hquoted
          have hbackslash : quote ≠ '\\' := by
            rintro rfl
            revert hquote
            decide
          rw [quotedString] at hvalue hclosed
          obtain ⟨behind, hbehind⟩ := List.head?_eq_some_iff.mp (of_decide_eq_true hclosed)
          have hnonempty : (consumeString quote later.length later).2 ≠ [] := by
            intro hnil
            rw [hnil] at hbehind
            cases hbehind
          refine ⟨_, (consumeString quote later.length later).2.takeWhile isSpace,
            decodeCssEscapes behind, .quoted hquote, fun c hc => List.mem_takeWhile_imp hc, ?_⟩
          rw [decodeCss_cons hbackslash, decodeCss_consumeString hbackslash hargument.tail
            (Nat.le_refl _) hvalue hnonempty, decodeCss_spaces, hbehind, decodeCss_cons (by decide)]
          simp

/-- A URL that is closed shows its name, a parenthesis, its value and a parenthesis again. -/
theorem decodeCss_url (hbreaks : PlainBreaks place) (hurl : urlAt place = some value)
    (hclosed : closedUrl place = true) :
    ∃ name left body right more, isUrlName name = true ∧ (∀ c ∈ left, isSpace c = true) ∧
      UrlBody value (isQuoted (urlArgument place)) body ∧ (∀ c ∈ right, isSpace c = true) ∧
      decodeCssEscapes place = name ++ '(' :: (left ++ body ++ right ++ ')' :: more) := by
  obtain ⟨_, name, rest, hnames, hvalue⟩ := urlAt_some hurl
  have hname := hnames.named
  have hskips := skips_consumeName place.length hbreaks
  have hdecoded := @decodeCss_consumeName place place.length hbreaks
  rw [hname] at hskips hdecoded
  have hsuffix : urlArgument place <:+ place := by
    rw [hnames.argument]
    exact ((List.dropWhile_suffix isSpace).trans (List.suffix_cons '(' rest)).trans hskips.suffix
  obtain ⟨body, right, more, hbody, hright, hmore⟩ :=
    decodeCss_urlArgument hbreaks hvalue hclosed hsuffix
  refine ⟨name, rest.takeWhile isSpace, body, right, more, hnames.url,
    fun c hc => List.mem_takeWhile_imp hc, hbody, hright, ?_⟩
  rw [hdecoded (List.cons_ne_nil _ _), decodeCss_cons (by decide), decodeCss_spaces rest,
    ← hnames.argument, hmore]
  simp

end Urls

end Places

end Agora
