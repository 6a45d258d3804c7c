import Agora.CssSyntax
import Agora.CssValidation

/-!
# Decoded escapes and tokens

The validator decodes the escapes of the whole text, and the tokenizer those of one token after
another.  At the place where a token starts the decoder stands outside an escape, apart from a
line break that it skips, and a name, a string and a URL decode to what the tokenizer reads.
-/

namespace Agora

open CssSyntax

/-! ## Text with one kind of line break -/

/-- The line breaks of a text are line feeds. -/
def PlainBreaks (text : Text) : Prop :=
  '\r' ∉ text ∧ '\x0c' ∉ text

section Decoding

variable {c : Char} {text behind rest : Text}

theorem PlainBreaks.suffix (hbreaks : PlainBreaks text) (hsuffix : behind <:+ text) :
    PlainBreaks behind :=
  ⟨fun hmem => hbreaks.1 (hsuffix.subset hmem), fun hmem => hbreaks.2 (hsuffix.subset hmem)⟩

theorem PlainBreaks.tail (hbreaks : PlainBreaks (c :: rest)) : PlainBreaks rest :=
  hbreaks.suffix (List.suffix_cons c rest)

theorem PlainBreaks.head (hbreaks : PlainBreaks (c :: rest)) : c ≠ '\r' ∧ c ≠ '\x0c' :=
  ⟨fun hc => hbreaks.1 (hc ▸ List.mem_cons_self), fun hc => hbreaks.2 (hc ▸ List.mem_cons_self)⟩

theorem plainBreaks_preprocess (text : Text) : PlainBreaks (preprocess text) := by
  fun_induction preprocess text with
  | case1 rest ih =>
      exact ⟨by simpa using ih.1, by simpa using ih.2⟩
  | case2 c rest hbreak ih =>
      constructor
      · rw [List.mem_cons, not_or]
        refine ⟨?_, ih.1⟩
        split
        · decide
        · split
          · decide
          · rename_i hplain _
            exact fun hc => hplain (.inl hc.symm)
      · rw [List.mem_cons, not_or]
        refine ⟨?_, ih.2⟩
        split
        · decide
        · split
          · decide
          · rename_i hplain _
            exact fun hc => hplain (.inr hc.symm)
  | case3 => exact ⟨List.not_mem_nil, List.not_mem_nil⟩

/-! ## Escapes -/

theorem decodeCss_cons (hc : c ≠ '\\') :
    decodeCssEscapes (c :: rest) = c :: decodeCssEscapes rest := by
  simp [decodeCssEscapes, decodeCssFrom, cssEscapeStep, cssPlainStep, hc]

theorem decodeCss_break : decodeCssEscapes ('\\' :: '\n' :: rest) = decodeCssEscapes rest := by
  rfl

theorem hexValue_eq (c : Char) :
    hexValue c = if isHexDigit c then some (digitValue c) else none := by
  have hdigit : isAsciiDigit c = c.isDigit := rfl
  unfold hexValue isHexDigit digitValue
  rw [hdigit]
  by_cases hascii : c.isDigit = true
  · simp [hascii]
  · by_cases hlower : 'a' ≤ c ∧ c ≤ 'f'
    · simp [hascii, hlower]
    · by_cases hupper : 'A' ≤ c ∧ c ≤ 'F'
      · simp [hascii, hlower, hupper]
      · simp [hascii, hlower, hupper]

/-- A hexadecimal escape is read as the tokenizer reads it. -/
theorem decodeCssFrom_hexadecimal {count value : ℕ} (hcount : count ≤ 6)
    (hbreaks : PlainBreaks text) :
    decodeCssFrom (.hexadecimal count value) text =
      escapedCharacter ((((text.take (6 - count)).takeWhile isHexDigit).foldl
        (fun value digit => value * 16 + digitValue digit) value)) ::
        decodeCssEscapes (dropSpace
          (text.drop ((text.take (6 - count)).takeWhile isHexDigit).length)) := by
  induction text generalizing count value with
  | nil =>
      rw [List.take_nil, List.takeWhile_nil]
      rfl
  | cons c rest ih =>
      by_cases hdigit : count < 6 ∧ isHexDigit c = true
      · obtain ⟨hless, hhex⟩ := hdigit
        have htake : 6 - count = 6 - (count + 1) + 1 := by omega
        have hnext := @ih (count + 1) (value * 16 + digitValue c) hless hbreaks.tail
        rw [htake, List.take_succ_cons, List.takeWhile_cons_of_pos hhex, List.foldl_cons,
          List.length_cons, List.drop_succ_cons, ← hnext]
        simp [decodeCssFrom, cssEscapeStep, hless, hexValue_eq, hhex]
      · have hnone : (if count < 6 then hexValue c else none) = none := by
          rw [hexValue_eq]
          split
          · rename_i hless
            rw [if_neg fun hhex => hdigit ⟨hless, hhex⟩]
          · rfl
        have hdigits : ((c :: rest).take (6 - count)).takeWhile isHexDigit = [] := by
          cases hleft : 6 - count with
          | zero => rfl
          | succ left =>
              rw [List.take_succ_cons, List.takeWhile_cons_of_neg]
              exact fun hhex => hdigit ⟨by omega, hhex⟩
        rw [hdigits]
        simp only [decodeCssFrom, cssEscapeStep, hnone, List.foldl_nil, List.length_nil,
          List.drop_zero, List.cons_append]
        congr 1
        obtain ⟨hreturn, hfeed⟩ := hbreaks.head
        by_cases hspace : c = ' ' ∨ c = '\t' ∨ c = '\n' ∨ c = '\x0c'
        · have hdrop : dropSpace (c :: rest) = rest := by
            rw [dropSpace, if_pos]
            simp only [isSpace, Bool.or_eq_true, beq_iff_eq]
            tauto
          rw [cssAfterEscape, if_neg hreturn, if_pos hspace, hdrop]
          rfl
        · have hdrop : dropSpace (c :: rest) = c :: rest := by
            rw [dropSpace, if_neg]
            simp only [isSpace, Bool.or_eq_true, beq_iff_eq]
            tauto
          rw [cssAfterEscape, if_neg hreturn, if_neg hspace, hdrop]
          rfl

theorem dropSpace_suffix (text : Text) : dropSpace text <:+ text := by
  cases text with
  | nil => exact List.suffix_rfl
  | cons c rest =>
      rw [dropSpace]
      split
      · exact List.suffix_cons c rest
      · exact List.suffix_rfl

theorem consumeEscape_suffix (text : Text) : (consumeEscape text).2 <:+ text := by
  cases text with
  | nil => exact List.suffix_rfl
  | cons c rest =>
      rw [consumeEscape]
      split
      · exact (dropSpace_suffix _).trans (List.drop_suffix _ _)
      · exact List.suffix_cons c rest

/-- An escape decodes to the character that the tokenizer reads. -/
theorem decodeCss_escape (hc : c ≠ '\n') (hbreaks : PlainBreaks (c :: rest)) :
    decodeCssEscapes ('\\' :: c :: rest) =
      (consumeEscape (c :: rest)).1 :: decodeCssEscapes (consumeEscape (c :: rest)).2 := by
  obtain ⟨hreturn, hfeed⟩ := hbreaks.head
  have hopened : decodeCssEscapes ('\\' :: c :: rest) = decodeCssFrom .opened (c :: rest) := by
    rfl
  rw [hopened, decodeCssFrom, cssEscapeStep, hexValue_eq]
  by_cases hhex : isHexDigit c = true
  · have hrest := @decodeCssFrom_hexadecimal rest 1 (digitValue c) (by decide) hbreaks.tail
    simp only [if_pos hhex, consumeEscape, List.nil_append, hrest, List.take_succ_cons,
      List.takeWhile_cons_of_pos hhex, List.foldl_cons, List.length_cons, List.drop_succ_cons,
      Nat.zero_mul, Nat.zero_add]
  · have hplain : ¬ (c = '\n' ∨ c = '\x0c') := not_or.mpr ⟨hc, hfeed⟩
    simp only [if_neg hhex, if_neg hreturn, if_neg hplain, consumeEscape, List.singleton_append]
    rfl

/-! ## Skipped text -/

theorem ne_backslash {accepts : Char → Bool} (hnone : accepts '\\' = false)
    (hc : accepts c = true) : c ≠ '\\' := by
  rintro rfl
  rw [hnone] at hc
  cases hc

theorem startsEscape_cons :
    startsEscape (c :: rest) = true ↔ c = '\\' ∧ rest.head? ≠ some '\n' := by
  unfold startsEscape
  split
  · rename_i heq
    obtain ⟨rfl, rfl⟩ := List.cons.inj heq
    simp
  · rename_i hother heq
    obtain ⟨rfl, rfl⟩ := List.cons.inj heq
    simp only [true_and, true_iff]
    intro hbreak
    obtain ⟨more, rfl⟩ := List.head?_eq_some_iff.mp hbreak
    exact hother _ rfl
  · rename_i hother
    refine iff_of_false Bool.false_ne_true fun hescape => ?_
    exact hother rest (congrArg (· :: rest) hescape.1)

theorem not_startsEscape (hc : c ≠ '\\') : startsEscape (c :: rest) ≠ true := by
  intro hstarts
  exact hc (startsEscape_cons.mp hstarts).1

/-- The text decodes to something and the rest. -/
structure Skips (text behind : Text) : Prop where
  suffix : behind <:+ text
  decoded : ∃ shown, decodeCssEscapes text = shown ++ decodeCssEscapes behind

theorem Skips.refl (text : Text) : Skips text text :=
  ⟨List.suffix_rfl, [], rfl⟩

theorem Skips.trans (hfirst : Skips text behind) {later : Text} (hsecond : Skips behind later) :
    Skips text later := by
  obtain ⟨shown, hshown⟩ := hfirst.decoded
  obtain ⟨more, hmore⟩ := hsecond.decoded
  refine ⟨hsecond.suffix.trans hfirst.suffix, shown ++ more, ?_⟩
  rw [hshown, hmore, List.append_assoc]

theorem Skips.end : Skips text [] :=
  ⟨List.nil_suffix, _, (List.append_nil _).symm⟩

theorem Skips.char (hc : c ≠ '\\') : Skips (c :: rest) rest :=
  ⟨List.suffix_cons c rest, [c], decodeCss_cons hc⟩

theorem Skips.break : Skips ('\\' :: '\n' :: rest) rest :=
  ⟨(List.suffix_cons _ rest).trans (List.suffix_cons _ _), [], decodeCss_break⟩

theorem Skips.escape (hstarts : startsEscape ('\\' :: rest) = true)
    (hbreaks : PlainBreaks ('\\' :: rest)) : Skips ('\\' :: rest) (consumeEscape rest).2 := by
  cases rest with
  | nil => exact .end
  | cons c rest =>
      have hc : c ≠ '\n' := by
        rintro rfl
        cases hstarts
      exact ⟨(consumeEscape_suffix _).trans (List.suffix_cons _ _), [_],
        decodeCss_escape hc hbreaks.tail⟩

/-- The rest is left to decode, with a backslash before it where it starts with a line break. -/
def Reaches (text behind : Text) : Prop :=
  Skips text behind ∨ ∃ rest, behind = '\n' :: rest ∧ Skips text ('\\' :: behind)

theorem Reaches.suffix (hreaches : Reaches text behind) : behind <:+ text := by
  rcases hreaches with hskips | ⟨rest, _, hskips⟩
  · exact hskips.suffix
  · exact (List.suffix_cons _ behind).trans hskips.suffix

theorem Skips.reaches (hskips : Skips text behind) {later : Text}
    (hreaches : Reaches behind later) : Reaches text later :=
  hreaches.imp hskips.trans fun ⟨rest, hlater, hrest⟩ => ⟨rest, hlater, hskips.trans hrest⟩

theorem skips_dropWhile {accepts : Char → Bool} (haccepts : accepts '\\' = false) :
    Skips text (text.dropWhile accepts) := by
  induction text with
  | nil => exact .refl []
  | cons c rest ih =>
      by_cases hc : accepts c = true
      · rw [List.dropWhile_cons_of_pos hc]
        exact (Skips.char (ne_backslash haccepts hc)).trans ih
      · rw [List.dropWhile_cons_of_neg hc]
        exact .refl _

theorem skips_consumeName (fuel : ℕ) (hbreaks : PlainBreaks text) :
    Skips text (consumeName fuel text).2 := by
  induction fuel generalizing text with
  | zero => exact .refl _
  | succ fuel ih =>
      cases text with
      | nil => exact .refl _
      | cons c rest =>
          rw [consumeName]
          split
          · rename_i hname
            exact (Skips.char (ne_backslash rfl hname)).trans (ih hbreaks.tail)
          · split
            · rename_i hstarts
              obtain rfl := (startsEscape_cons.mp hstarts).1
              have hskips := Skips.escape hstarts hbreaks
              exact hskips.trans (ih (hbreaks.suffix hskips.suffix))
            · exact .refl _

/-- A backslash that starts no escape stands before a line break. -/
theorem exists_break (hstarts : startsEscape ('\\' :: rest) ≠ true) :
    ∃ later, rest = '\n' :: later := by
  apply List.head?_eq_some_iff.mp
  by_contra hbreak
  exact hstarts (startsEscape_cons.mpr ⟨rfl, hbreak⟩)

theorem skips_consumeString {quote : Char} (hquote : quote ≠ '\\') (fuel : ℕ)
    (hbreaks : PlainBreaks text) : Skips text (consumeString quote fuel text).2 := by
  induction fuel generalizing text with
  | zero => exact .refl _
  | succ fuel ih =>
      cases text with
      | nil => exact .refl _
      | cons c rest =>
          unfold consumeString
          split
          · rename_i hc
            rw [hc]
            exact .char hquote
          · split
            · exact .refl _
            · split
              · rename_i hbackslash
                rw [hbackslash] at hbreaks ⊢
                split
                · exact .end
                · exact Skips.break.trans (ih hbreaks.tail.tail)
                · rename_i hother
                  have hstarts : startsEscape ('\\' :: rest) = true := by
                    refine startsEscape_cons.mpr ⟨rfl, fun hhead => ?_⟩
                    obtain ⟨later, hrest⟩ := List.head?_eq_some_iff.mp hhead
                    exact hother later hrest
                  have hskips := Skips.escape hstarts hbreaks
                  exact hskips.trans (ih (hbreaks.suffix hskips.suffix))
              · rename_i hplain
                exact (Skips.char hplain).trans (ih hbreaks.tail)

/-- Behind a URL that is none, the decoder stands outside an escape or before the line break that
it skips. -/
theorem reaches_consumeBadUrl (fuel : ℕ) (hbreaks : PlainBreaks text) :
    Reaches text (consumeBadUrl fuel text) ∧
      ∀ rest, text = '\n' :: rest → Reaches ('\\' :: text) (consumeBadUrl fuel text) := by
  induction fuel generalizing text with
  | zero =>
      exact ⟨.inl (.refl text), fun rest hrest => .inr ⟨rest, hrest, .refl _⟩⟩
  | succ fuel ih =>
      cases text with
      | nil => exact ⟨.inl (.refl _), fun rest hrest => nomatch hrest⟩
      | cons c rest =>
          rw [consumeBadUrl]
          constructor
          · split
            · rename_i hc
              rw [hc]
              exact .inl (.char (by decide))
            · split
              · rename_i hstarts
                obtain rfl := (startsEscape_cons.mp hstarts).1
                have hskips := Skips.escape hstarts hbreaks
                exact hskips.reaches (ih (hbreaks.suffix hskips.suffix)).1
              · rename_i hstarts
                by_cases hbackslash : c = '\\'
                · rw [hbackslash] at hstarts ⊢
                  obtain ⟨later, hrest⟩ := exists_break hstarts
                  exact (ih hbreaks.tail).2 later hrest
                · exact (Skips.char hbackslash).reaches (ih hbreaks.tail).1
          · intro later hlater
            obtain ⟨rfl, rfl⟩ := List.cons.inj hlater
            exact Skips.break.reaches (ih hbreaks.tail).1

theorem reaches_consumeUrl (fuel : ℕ) (hbreaks : PlainBreaks text) :
    Reaches text (consumeUrl fuel text).2 := by
  induction fuel generalizing text with
  | zero => exact .inl (.refl _)
  | succ fuel ih =>
      cases text with
      | nil => exact .inl (.refl _)
      | cons c rest =>
          unfold consumeUrl
          split
          · rename_i hc
            rw [hc]
            exact .inl (.char (by decide))
          · split
            · rename_i hspace
              have hskips : Skips (c :: rest) (rest.dropWhile isSpace) :=
                (Skips.char (ne_backslash rfl hspace)).trans (skips_dropWhile rfl)
              split
              · exact .inl .end
              · rename_i behind hdrop
                rw [hdrop] at hskips
                exact .inl (hskips.trans (.char (by decide)))
              · exact hskips.reaches (reaches_consumeBadUrl fuel (hbreaks.suffix hskips.suffix)).1
            · split
              · rename_i hbad
                have hc : c ≠ '\\' := by
                  rintro rfl
                  revert hbad
                  decide
                exact (Skips.char hc).reaches (reaches_consumeBadUrl fuel hbreaks.tail).1
              · split
                · rename_i hbackslash
                  rw [hbackslash] at hbreaks ⊢
                  split
                  · rename_i hstarts
                    have hskips := Skips.escape hstarts hbreaks
                    exact hskips.reaches (ih (hbreaks.suffix hskips.suffix))
                  · rename_i hstarts
                    obtain ⟨later, hrest⟩ := exists_break hstarts
                    exact (reaches_consumeBadUrl fuel hbreaks.tail).2 later hrest
                · rename_i hplain
                  exact (Skips.char hplain).reaches (ih hbreaks.tail)

theorem dropComment_suffix (text : Text) : dropComment text <:+ text := by
  fun_induction dropComment text with
  | case1 rest => exact (List.suffix_cons _ rest).trans (List.suffix_cons _ _)
  | case2 c rest _ ih => exact ih.trans (List.suffix_cons c rest)
  | case3 => exact List.suffix_rfl

/-- The slash that ends a comment ends every escape before it. -/
theorem decodeCss_dropComment (state : CssEscapeState) (text : Text) :
    ∃ shown, decodeCssFrom state text = shown ++ decodeCssEscapes (dropComment text) := by
  fun_induction dropComment text generalizing state with
  | case1 rest =>
      have hstar : ∃ shown, cssEscapeStep state '*' = (.plain, shown) := by
        cases state with
        | plain => exact ⟨_, rfl⟩
        | opened => exact ⟨_, rfl⟩
        | hexadecimal count value =>
            have hnone : (if count < 6 then hexValue '*' else none) = none := ite_self _
            simp only [cssEscapeStep, hnone]
            exact ⟨_, rfl⟩
        | returned => exact ⟨_, rfl⟩
      obtain ⟨shown, hshown⟩ := hstar
      refine ⟨shown ++ ['/'], ?_⟩
      rw [decodeCssFrom, hshown, List.append_assoc]
      rfl
  | case2 c rest _ ih =>
      obtain ⟨shown, hshown⟩ := ih (cssEscapeStep state c).1
      refine ⟨(cssEscapeStep state c).2 ++ shown, ?_⟩
      rw [decodeCssFrom, hshown, List.append_assoc]
  | case3 => exact ⟨_, (List.append_nil _).symm⟩

theorem skips_dropFraction (text : Text) : Skips text (dropFraction text) := by
  fun_cases dropFraction text with
  | case1 c rest hdigit =>
      have hdot : Skips ('.' :: c :: rest) rest :=
        (Skips.char (by decide)).trans (.char (ne_backslash rfl hdigit))
      exact hdot.trans (skips_dropWhile rfl)
  | case2 => exact .refl _
  | case3 => exact .refl _

theorem skips_sign (text : Text) :
    Skips text (match text with
      | '+' :: rest => rest
      | '-' :: rest => rest
      | rest => rest) := by
  split
  · exact .char (by decide)
  · exact .char (by decide)
  · exact .refl _

theorem Skips.exponent (hsign : Skips rest behind) :
    Skips (c :: rest)
      (if (c = 'e' ∨ c = 'E') ∧ behind.head?.any Char.isDigit = true then
        behind.dropWhile Char.isDigit
      else c :: rest) := by
  split
  · rename_i hexponent
    have hc : c ≠ '\\' := by
      rintro rfl
      have hletter := hexponent.1
      revert hletter
      decide
    exact ((Skips.char hc).trans hsign).trans (skips_dropWhile rfl)
  · exact .refl _

theorem skips_dropExponent (text : Text) : Skips text (dropExponent text) := by
  cases text with
  | nil => exact .refl _
  | cons c rest => exact (skips_sign rest).exponent

theorem Skips.unit (hskips : Skips text behind) (hbreaks : PlainBreaks text) :
    Skips text (if startsName behind then (consumeName behind.length behind).2
      else if behind.head? = some '%' then behind.tail
      else behind) := by
  split
  · exact hskips.trans (skips_consumeName _ (hbreaks.suffix hskips.suffix))
  · split
    · rename_i hpercent
      obtain ⟨rest, rfl⟩ := List.head?_eq_some_iff.mp hpercent
      exact hskips.trans (.char (by decide))
    · exact hskips

theorem skips_consumeNumeric (hbreaks : PlainBreaks text) : Skips text (consumeNumeric text) := by
  have hdigits := (skips_sign text).trans (@skips_dropWhile _ Char.isDigit rfl)
  have hnumber := (hdigits.trans (skips_dropFraction _)).trans (skips_dropExponent _)
  exact hnumber.unit hbreaks

/-! ## Tokens -/

theorem reaches_consumeNamed (hbreaks : PlainBreaks text) : Reaches text (consumeNamed text).2 := by
  have hname := skips_consumeName text.length hbreaks
  unfold consumeNamed
  split
  · rename_i name rest hparts
    rw [hparts] at hname
    have hopened : Skips text rest := hname.trans (.char (by decide))
    dsimp only
    split
    · split
      · exact .inl hopened
      · have hargument := hopened.trans (@skips_dropWhile rest isSpace rfl)
        have hurl := hargument.reaches
          (reaches_consumeUrl (rest.dropWhile isSpace).length (hbreaks.suffix hargument.suffix))
        split
        · rename_i hread
          rw [hread] at hurl
          exact hurl
        · rename_i hread
          rw [hread] at hurl
          exact hurl
    · exact .inl hopened
  · rename_i hparts
    rw [hparts] at hname
    exact .inl hname

/-- Behind a token, the decoder stands outside an escape or before the line break that it skips. -/
theorem reaches_consumeToken (hbreaks : PlainBreaks (c :: rest)) :
    Reaches (c :: rest) (consumeToken c rest).2 := by
  unfold consumeToken
  dsimp only
  split
  · rename_i hcomment
    obtain ⟨rfl, hstar⟩ := hcomment
    obtain ⟨more, rfl⟩ := List.head?_eq_some_iff.mp hstar
    obtain ⟨shown, hshown⟩ := decodeCss_dropComment .plain more
    have hinner : Skips more (dropComment more) := ⟨dropComment_suffix more, shown, hshown⟩
    exact .inl (((Skips.char (by decide)).trans (.char (by decide))).trans hinner)
  · split
    · rename_i hspace
      exact .inl ((Skips.char (ne_backslash rfl hspace)).trans (skips_dropWhile rfl))
    · split
      · rename_i hquote
        have hc : c ≠ '\\' := by
          rintro rfl
          revert hquote
          decide
        have hstring := (Skips.char hc).trans (skips_consumeString hc rest.length hbreaks.tail)
        split
        · rename_i hread
          rw [hread] at hstring
          exact .inl hstring
        · rename_i hread
          rw [hread] at hstring
          exact .inl hstring
      · split
        · rename_i hhash
          rw [hhash.1]
          exact .inl ((Skips.char (by decide)).trans (skips_consumeName _ hbreaks.tail))
        · split
          · exact .inl (skips_consumeNumeric hbreaks)
          · split
            · rename_i harrow
              obtain ⟨more, hmore⟩ := List.isPrefixOf_iff_prefix.mp harrow
              rw [← hmore]
              exact .inl (((Skips.char (by decide)).trans (.char (by decide))).trans
                (.char (by decide)))
            · split
              · rename_i harrow
                obtain ⟨more, hmore⟩ := List.isPrefixOf_iff_prefix.mp harrow
                rw [← hmore]
                exact .inl (((Skips.char (by decide)).trans (.char (by decide))).trans
                  ((Skips.char (by decide)).trans (.char (by decide))))
              · split
                · rename_i hat
                  rw [hat.1]
                  exact .inl ((Skips.char (by decide)).trans (skips_consumeName _ hbreaks.tail))
                · split
                  · exact reaches_consumeNamed hbreaks
                  · rename_i hname
                    by_cases hbackslash : c = '\\'
                    · rw [hbackslash] at hname ⊢
                      have hstarts : startsEscape ('\\' :: rest) ≠ true := by
                        intro hstarts
                        apply hname
                        rw [startsName.eq_2 _ _ (by decide), hstarts, Bool.or_true]
                      obtain ⟨later, hrest⟩ := exists_break hstarts
                      exact .inr ⟨later, hrest, .refl _⟩
                    · exact .inl (.char hbackslash)

end Decoding

end Agora
