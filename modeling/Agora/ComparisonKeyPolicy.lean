import Agora.PatternSearch
import Agora.ReferenceDelivery
import Mathlib.Data.List.TakeWhile

/-!
# The extension of a comparison key

A filename is classified by its composed form, but it is compared and served by a key of
compatibility characters.  The key ends in the extension that was classified.  Its stem may
contain a further extension, which the check of the composed stem does not see: some of its
characters have forms that spell one.
-/

namespace Agora

/-- `NFKC(casefold(NFKC(text)))`, the comparison key of a display name. -/
def UnicodeTables.comparisonForm (tables : UnicodeTables) (text : Text) : Text :=
  tables.nfkc (tables.casefold (tables.nfkc text))

/-- The form of one character. -/
def UnicodeTables.formOf (tables : UnicodeTables) (c : Char) : Text :=
  tables.comparisonForm [c]

/-- An ASCII character, or one that matches an ASCII letter when the case is ignored. -/
def isAsciiVariant (c : Char) : Bool :=
  isAscii c ||
    ['i', 's', 'k'].any fun letter => (TextPattern.foreignVariants letter).contains c

/-- What Unicode says of compatibility forms and of case folding.  A full stop neither composes
with its neighbours nor changes, folding goes character by character, and the characters that
fold to ASCII keep their folding in compatibility form.  A form begins anew at each character
whose own form is ASCII, the full stops of a form come from single characters, whose forms are
ASCII, and only such characters make up a form in ASCII. -/
structure CompatibilityLaws (tables : UnicodeTables) : Prop where
  nfkc_stop : ∀ before after,
    tables.nfkc (before ++ '.' :: after) = tables.nfkc before ++ '.' :: tables.nfkc after
  casefold_stop : ∀ before after,
    tables.casefold (before ++ '.' :: after) =
      tables.casefold before ++ '.' :: tables.casefold after
  folds_to_ascii : ∀ text, (tables.casefold text).all isAscii = true →
    tables.comparisonForm text = tables.casefold text
  splits : ∀ before c after, (tables.formOf c).all isAsciiVariant = true →
    tables.comparisonForm (before ++ c :: after) =
      tables.comparisonForm before ++ tables.comparisonForm (c :: after)
  stops : ∀ text shown, (∃ rest, tables.comparisonForm text = shown ++ '.' :: rest) ↔
    ∃ before c after first second, text = before ++ c :: after ∧
      tables.formOf c = first ++ '.' :: second ∧ tables.comparisonForm before ++ first = shown
  stop_variant : ∀ c, '.' ∈ tables.formOf c → (tables.formOf c).all isAsciiVariant = true
  variants : ∀ text, (tables.comparisonForm text).all isAsciiVariant = true →
    ∀ c ∈ text, (tables.formOf c).all isAsciiVariant = true

/-- The key has the extension of the kind and no other known extension before it. -/
def KeyPolicy (tables : UploadTables) (kind : UploadKind) (key : Text) : Prop :=
  ∃ stem suffix, splitExtension key = some (stem, suffix) ∧
    extensionEntry uploadExtensionToKind suffix = some kind ∧
      knownExtensionSegment.occursIn tables.isWord stem = false

/-- An extension of the table, in letters of either case. -/
def KnownExtension (suffix : Text) : Prop :=
  ∃ entry ∈ uploadExtensionToKind,
    List.Forall₂ (fun expected c => TextPattern.sameIgnoringCase expected c = true)
      entry.1.toList suffix

/-- Some neighbouring characters of a stem have forms in ASCII which, one after the other, spell
a full stop and a known extension, up to a further stop or to the end of the stem. -/
def HidesExtension (tables : UnicodeTables) (stem : Text) : Prop :=
  ∃ before chosen after, stem = before ++ chosen ++ after ∧
    (∀ c ∈ chosen, (tables.formOf c).all isAsciiVariant = true) ∧
    ∃ first suffix rest, chosen.flatMap tables.formOf = first ++ '.' :: (suffix ++ rest) ∧
      KnownExtension suffix ∧
        (rest.head? = some '.' ∨ (after = [] ∧ (rest = [] ∨ rest = ['\n'])))

section Policy

variable {tables : UploadTables} {index : ℕ} {stem suffix text : Text} {kind : UploadKind}

theorem splitExtension_append (hsuffix : '.' ∉ suffix) :
    splitExtension (stem ++ '.' :: suffix) = some (stem, suffix) := by
  have hreverse : (stem ++ '.' :: suffix).reverse = suffix.reverse ++ '.' :: stem.reverse := by
    simp
  have hplain : ∀ c ∈ suffix.reverse, decide (c ≠ '.') = true := by
    intro c hc
    rw [decide_eq_true_eq]
    rintro rfl
    exact hsuffix (List.mem_reverse.mp hc)
  rw [splitExtension, if_pos (by simp), hreverse, List.takeWhile_append_of_pos hplain,
    List.dropWhile_append_of_pos hplain]
  simp

theorem splitExtension_eq_some (hsplit : splitExtension text = some (stem, suffix)) :
    text = stem ++ '.' :: suffix ∧ '.' ∉ suffix := by
  unfold splitExtension at hsplit
  split at hsplit
  · rename_i hstop
    rw [Option.some.injEq, Prod.mk.injEq] at hsplit
    obtain ⟨hstem, hsuffix⟩ := hsplit
    have hrest : ∃ rest, text.reverse.dropWhile (· ≠ '.') = '.' :: rest := by
      cases hdropped : text.reverse.dropWhile (· ≠ '.') with
      | nil =>
          have hnone := List.dropWhile_eq_nil_iff.mp hdropped '.' (List.mem_reverse.mpr hstop)
          simp at hnone
      | cons c rest =>
          have hhead := List.head?_dropWhile_not (fun c : Char => decide (c ≠ '.')) text.reverse
          rw [hdropped] at hhead
          have hstop : c = '.' := by simpa using hhead
          exact ⟨rest, by rw [hstop]⟩
    obtain ⟨rest, hrest⟩ := hrest
    rw [hrest, List.tail_cons] at hstem
    have htext := List.takeWhile_append_dropWhile (p := fun c : Char => decide (c ≠ '.'))
      (l := text.reverse)
    rw [hrest] at htext
    have hback := congrArg List.reverse htext
    rw [List.reverse_reverse, List.reverse_append, List.reverse_cons, hstem, hsuffix] at hback
    refine ⟨by simpa using hback.symm, ?_⟩
    rw [← hsuffix, List.mem_reverse]
    intro hmem
    have hfalse := List.mem_takeWhile_imp hmem
    simp at hfalse
  · cases hsplit

/-- The entries of the extension table are ASCII and contain no full stop. -/
theorem extensionEntry_plain (hentry : extensionEntry uploadExtensionToKind suffix = some kind) :
    suffix.all isAscii = true ∧ '.' ∉ suffix := by
  rw [extensionEntry, Option.map_eq_some_iff] at hentry
  obtain ⟨entry, hfind, _⟩ := hentry
  have hsuffix : entry.1.toList = suffix := by simpa using List.find?_some hfind
  have hmem := List.mem_of_find?_eq_some hfind
  rw [← hsuffix]
  have hall : ∀ entry ∈ uploadExtensionToKind,
      entry.1.toList.all isAscii = true ∧ '.' ∉ entry.1.toList := by
    decide
  exact hall entry hmem

/-- The key ends in the extension by which the name was classified. -/
theorem splitExtension_comparisonForm (hlaws : CompatibilityLaws tables.unicode)
    (hsplit : splitExtension text = some (stem, suffix))
    (hentry : extensionEntry uploadExtensionToKind (tables.unicode.casefold suffix) = some kind) :
    splitExtension (tables.unicode.comparisonForm text) =
      some (tables.unicode.comparisonForm stem, tables.unicode.casefold suffix) := by
  obtain ⟨rfl, _⟩ := splitExtension_eq_some hsplit
  obtain ⟨hascii, hstop⟩ := extensionEntry_plain hentry
  have hsuffix : tables.unicode.comparisonForm suffix = tables.unicode.casefold suffix :=
    hlaws.folds_to_ascii suffix hascii
  have hkey : tables.unicode.comparisonForm (stem ++ '.' :: suffix) =
      tables.unicode.comparisonForm stem ++ '.' :: tables.unicode.comparisonForm suffix := by
    simp only [UnicodeTables.comparisonForm, hlaws.nfkc_stop, hlaws.casefold_stop]
  rw [hkey, hsuffix]
  exact splitExtension_append hstop

theorem normalizeLogicalName_ok {tables : UnicodeTables} {value : Text} {name : LogicalName}
    (haccept : normalizeLogicalName tables value = .ok name) :
    name.display = tables.nfc value ∧ name.comparisonKey = tables.comparisonForm name.display := by
  unfold normalizeLogicalName at haccept
  simp only at haccept
  split_ifs at haccept
  obtain rfl := Except.ok.inj haccept
  exact ⟨rfl, rfl⟩

end Policy

/-! ## Extensions in a form -/

section Forms

variable {tables : UnicodeTables} {isWord : Char → Bool} {position stop : TextPosition}
  {text suffix : Text}

theorem knownExtension_iff :
    (∃ suffix, KnownExtension suffix ∧ position.Reads stop suffix ∧
      stop.groups = position.groups) ↔
        ∃ entry ∈ uploadExtensionToKind, stop ∈ (patternWord entry.1).ends isWord position := by
  simp only [KnownExtension, patternWord, TextPattern.mem_ends_text]
  constructor
  · rintro ⟨suffix, ⟨entry, hentry, hspelled⟩, hreads⟩
    exact ⟨entry, hentry, suffix, hspelled, hreads⟩
  · rintro ⟨entry, hentry, suffix, hspelled, hreads⟩
    exact ⟨suffix, ⟨entry, hentry, hspelled⟩, hreads⟩

/-- An optional part of a word is left out or read. -/
theorem mem_ends_optional {first second third : TextPattern} :
    stop ∈ (TextPattern.both first (.both second.maybe third)).ends isWord position ↔
      stop ∈ (TextPattern.both first third).ends isWord position ∨
        stop ∈ (TextPattern.both first (.both second third)).ends isWord position := by
  simp only [TextPattern.mem_ends_both, TextPattern.mem_ends_maybe, or_and_right, exists_or,
    exists_eq_left, and_or_left]
  exact or_comm

theorem mem_ends_patternWord_append {first second : String} :
    stop ∈ (patternWord (first ++ second)).ends isWord position ↔
      stop ∈ (TextPattern.both (patternWord first) (patternWord second)).ends isWord position := by
  rw [patternWord, String.toList_append]
  exact TextPattern.mem_ends_text_append

theorem mem_ends_jpeg :
    stop ∈ (TextPattern.both (patternWord "jp")
      (.both (patternWord "e").maybe (patternWord "g"))).ends isWord position ↔
        stop ∈ (patternWord "jpg").ends isWord position ∨
          stop ∈ (patternWord "jpeg").ends isWord position := by
  have hshort : "jpg" = "jp" ++ "g" := by
    decide
  have hlong : "jpeg" = "jp" ++ ("e" ++ "g") := by
    decide
  rw [mem_ends_optional, hshort, hlong, mem_ends_patternWord_append, mem_ends_patternWord_append]
  exact or_congr_right (TextPattern.mem_ends_both_congr fun middle =>
    mem_ends_patternWord_append.symm)

theorem mem_ends_woff :
    stop ∈ (TextPattern.both (patternWord "woff") (patternWord "2").maybe).ends isWord position ↔
      stop ∈ (patternWord "woff").ends isWord position ∨
        stop ∈ (patternWord "woff2").ends isWord position := by
  have hlong : "woff2" = "woff" ++ "2" := by
    decide
  rw [hlong, mem_ends_patternWord_append]
  simp only [TextPattern.mem_ends_both, TextPattern.mem_ends_maybe, and_or_left, exists_or,
    exists_eq_right']
  exact or_comm

/-- The extensions of `_KNOWN_EXTENSION_SEGMENT_RE`. -/
def extensionWords : TextPattern :=
  .any [patternWord "html", patternWord "csv", patternWord "css", patternWord "png",
    .all [patternWord "jp", .maybe (patternWord "e"), patternWord "g"], patternWord "gif",
    patternWord "webp", .all [patternWord "woff", .maybe (patternWord "2")]]

theorem knownExtensionSegment_eq : knownExtensionSegment =
    .both (patternWord ".") (.both extensionWords (.either (patternWord ".") .textEnd)) :=
  rfl

theorem mem_ends_extensionWords : stop ∈ extensionWords.ends isWord position ↔
    ∃ suffix, KnownExtension suffix ∧ position.Reads stop suffix ∧
      stop.groups = position.groups := by
  rw [@knownExtension_iff isWord, extensionWords]
  simp only [TextPattern.any, TextPattern.all, TextPattern.mem_ends_either, mem_ends_jpeg,
    mem_ends_woff, uploadExtensionToKind, List.mem_cons, List.not_mem_nil, or_false,
    exists_eq_or_imp, exists_eq_left, or_assoc]

theorem mem_ends_stop : stop ∈ (patternWord ".").ends isWord position ↔
    position.Reads stop ['.'] ∧ stop.groups = position.groups := by
  have hword : ".".toList = ['.'] := by
    decide
  have hvariants : TextPattern.caseVariants '.' = ['.', '.'] := by
    decide
  rw [patternWord, TextPattern.mem_ends_text, hword]
  constructor
  · rintro ⟨piece, hpiece, hreads, hgroups⟩
    obtain ⟨c, rest, hsame, hrest, rfl⟩ := List.forall₂_cons_left_iff.mp hpiece
    cases hrest
    have hstop : c = '.' := by
      rw [TextPattern.sameIgnoringCase, hvariants] at hsame
      simpa using hsame
    rw [hstop] at hreads
    exact ⟨hreads, hgroups⟩
  · rintro ⟨hreads, hgroups⟩
    exact ⟨['.'], .cons (by decide) .nil, hreads, hgroups⟩

/-- An extension ends at a stop or at the end of the text. -/
theorem exists_ends_boundary_iff :
    (∃ stop, stop ∈ (TextPattern.either (patternWord ".") .textEnd).ends isWord position) ↔
      (position.after.head? = some '.' ∨ position.after = [] ∨ position.after = ['\n']) := by
  constructor
  · rintro ⟨stop, hstop⟩
    cases TextPattern.mem_ends_either.mp hstop with
    | inl hstop =>
        left
        rw [(mem_ends_stop.mp hstop).1.after]
        rfl
    | inr hstop => exact .inr (TextPattern.mem_ends_textEnd.mp hstop).2
  · rintro (hstop | hend)
    · rcases position with ⟨before, after, groups⟩
      obtain ⟨rest, rfl⟩ := List.head?_eq_some_iff.mp hstop
      refine ⟨⟨'.' :: before, rest, groups⟩, TextPattern.mem_ends_either.mpr (.inl ?_)⟩
      exact mem_ends_stop.mpr ⟨⟨rfl, rfl⟩, rfl⟩
    · refine ⟨position, TextPattern.mem_ends_either.mpr (.inr ?_)⟩
      exact TextPattern.mem_ends_textEnd.mpr ⟨rfl, hend⟩

/-- The pattern matches a full stop, a known extension, and a stop or the end. -/
theorem knownExtensionSegment_ends_iff : knownExtensionSegment.ends isWord position ≠ [] ↔
    ∃ suffix rest, position.after = '.' :: (suffix ++ rest) ∧ KnownExtension suffix ∧
      (rest.head? = some '.' ∨ rest = [] ∨ rest = ['\n']) := by
  rw [knownExtensionSegment_eq]
  constructor
  · intro hends
    obtain ⟨stop, hstop⟩ := List.exists_mem_of_ne_nil _ hends
    obtain ⟨first, hfirst, hlater⟩ := TextPattern.mem_ends_both.mp hstop
    obtain ⟨middle, hmiddle, hlast⟩ := TextPattern.mem_ends_both.mp hlater
    obtain ⟨hdot, _⟩ := mem_ends_stop.mp hfirst
    obtain ⟨suffix, hknown, hreads, _⟩ := mem_ends_extensionWords.mp hmiddle
    exact ⟨suffix, middle.after, (hdot.trans hreads).after, hknown,
      exists_ends_boundary_iff.mp ⟨stop, hlast⟩⟩
  · rintro ⟨suffix, rest, hafter, hknown, hrest⟩
    have hreads : position.Reads ⟨(['.'] ++ suffix).reverse ++ position.before, rest,
        position.groups⟩ (['.'] ++ suffix) := ⟨hafter, rfl⟩
    obtain ⟨first, hdot, hsuffix, hgroups⟩ := hreads.split
    have hfirst := (@mem_ends_stop isWord position first).mpr ⟨hdot, hgroups⟩
    have hmiddle := (@mem_ends_extensionWords isWord first _).mpr
      ⟨suffix, hknown, hsuffix, hgroups.symm⟩
    obtain ⟨stop, hstop⟩ := (@exists_ends_boundary_iff isWord
      ⟨(['.'] ++ suffix).reverse ++ position.before, rest, position.groups⟩).mpr hrest
    exact List.ne_nil_of_mem (TextPattern.mem_ends_both.mpr
      ⟨first, hfirst, TextPattern.mem_ends_both.mpr ⟨_, hmiddle, hstop⟩⟩)

theorem knownExtensionSegment_occursIn_iff :
    knownExtensionSegment.occursIn isWord text = true ↔
      ∃ earlier suffix rest, text = earlier ++ '.' :: (suffix ++ rest) ∧ KnownExtension suffix ∧
        (rest.head? = some '.' ∨ rest = [] ∨ rest = ['\n']) := by
  simp only [TextPattern.occursIn_iff, knownExtensionSegment_ends_iff]
  constructor
  · rintro ⟨earlier, later, rfl, suffix, rest, hlater, hrest⟩
    exact ⟨earlier, suffix, rest, congrArg (earlier ++ ·) hlater, hrest⟩
  · rintro ⟨earlier, suffix, rest, htext, hrest⟩
    exact ⟨earlier, _, htext, suffix, rest, rfl, hrest⟩

theorem KnownExtension.variants (hknown : KnownExtension suffix) :
    suffix.all isAsciiVariant = true := by
  obtain ⟨entry, hentry, hspelled⟩ := hknown
  have htable : (uploadExtensionToKind.all fun entry => entry.1.toList.all fun expected =>
      (TextPattern.caseVariants expected).all isAsciiVariant) = true := by
    decide +kernel
  simp only [List.all_eq_true] at htable ⊢
  intro c hc
  obtain ⟨expected, hexpected, hsame⟩ := Table.exists_related_of_mem hspelled.flip hc
  exact htable entry hentry expected hexpected c (List.contains_iff_mem.mp hsame)

theorem comparisonForm_eq_flatMap (hlaws : CompatibilityLaws tables) {c : Char}
    (hvariant : (tables.formOf c).all isAsciiVariant = true)
    (hall : ∀ other ∈ text, (tables.formOf other).all isAsciiVariant = true) :
    tables.comparisonForm text = text.flatMap tables.formOf := by
  induction text with
  | nil =>
      have hsplit := hlaws.splits [] c [] hvariant
      exact List.self_eq_append_left.mp hsplit
  | cons d rest ih =>
      have hrest := fun other hother => hall other (List.mem_cons_of_mem _ hother)
      rw [List.flatMap_cons, ← ih hrest]
      cases rest with
      | nil =>
          rw [ih hrest]
          exact (List.append_nil _).symm
      | cons e rest => exact hlaws.splits [d] e rest (hrest e List.mem_cons_self)

/-- A character in the middle of a joined text comes from one of its parts. -/
theorem flatMap_eq_append_cons {f : Char → Text} {first second : Text} {c : Char}
    (hsplit : text.flatMap f = first ++ c :: second) :
    ∃ before d after left right, text = before ++ d :: after ∧ f d = left ++ c :: right ∧
      before.flatMap f ++ left = first := by
  induction text generalizing first with
  | nil =>
      rw [List.flatMap_nil] at hsplit
      exact absurd hsplit.symm (List.append_ne_nil_of_right_ne_nil _ (List.cons_ne_nil _ _))
  | cons a rest ih =>
      rw [List.flatMap_cons] at hsplit
      obtain ⟨more, hfirst, hmore⟩ | ⟨more, hform, hmore⟩ := List.append_eq_append_iff.mp hsplit
      · obtain ⟨before, d, after, left, right, rfl, hd, hleft⟩ := ih hmore
        refine ⟨a :: before, d, after, left, right, rfl, hd, ?_⟩
        rw [List.flatMap_cons, List.append_assoc, hleft, hfirst]
      · cases more with
        | nil =>
            obtain ⟨before, d, after, left, right, rfl, hd, hleft⟩ := @ih [] hmore.symm
            refine ⟨a :: before, d, after, left, right, rfl, hd, ?_⟩
            rw [List.flatMap_cons, List.append_assoc, hleft, hform, List.append_nil,
              List.append_nil]
        | cons e more =>
            rw [List.cons_append, List.cons.injEq] at hmore
            refine ⟨[], a, rest, first, more, rfl, ?_, rfl⟩
            rw [hform, hmore.1]

/-- An extension that the form shows comes from characters that spell it. -/
theorem hidesExtension_of_comparisonForm {earlier rest : Text} (hlaws : CompatibilityLaws tables)
    (hform : tables.comparisonForm text = earlier ++ '.' :: (suffix ++ rest))
    (hknown : KnownExtension suffix)
    (hrest : rest.head? = some '.' ∨ rest = [] ∨ rest = ['\n']) : HidesExtension tables text := by
  -- The stop comes from one character, at which the form begins anew.
  obtain ⟨before, c, after, left, right, rfl, hc, hleft⟩ :=
    (hlaws.stops text earlier).mp ⟨_, hform⟩
  have hvariant := hlaws.stop_variant c (hc ▸ List.mem_append_right left List.mem_cons_self)
  have hleftVariant : left.all isAsciiVariant = true := by
    rw [hc, List.all_append, Bool.and_eq_true] at hvariant
    exact hvariant.1
  have hshown : (left ++ '.' :: suffix).all isAsciiVariant = true := by
    rw [List.all_append, List.all_cons, hleftVariant, hknown.variants]
    rfl
  rw [hlaws.splits before c after hvariant, ← hleft, List.append_assoc,
    List.append_cancel_left_eq] at hform
  cases hrest with
  | inl hstop =>
      obtain ⟨rest, rfl⟩ := List.head?_eq_some_iff.mp hstop
      rw [← List.cons_append, ← List.append_assoc] at hform
      obtain ⟨middle, d, later, inner, outer, hmiddle, hd, hinner⟩ :=
        (hlaws.stops (c :: after) (left ++ '.' :: suffix)).mp ⟨_, hform⟩
      have hlast := hlaws.stop_variant d (hd ▸ List.mem_append_right inner List.mem_cons_self)
      have hprefix : (tables.comparisonForm middle).all isAsciiVariant = true := by
        rw [← hinner, List.all_append, Bool.and_eq_true] at hshown
        exact hshown.1
      have hall := hlaws.variants middle hprefix
      refine ⟨before, middle ++ [d], later, ?_, ?_, left, suffix, '.' :: outer, ?_, hknown,
        .inl rfl⟩
      · rw [hmiddle]
        simp
      · intro e he
        cases List.mem_append.mp he with
        | inl he => exact hall e he
        | inr he => rwa [List.mem_singleton.mp he]
      · rw [List.flatMap_append, ← comparisonForm_eq_flatMap hlaws hvariant hall,
          List.flatMap_singleton, hd, ← List.append_assoc, hinner]
        simp
  | inr hend =>
      have hform' : (tables.comparisonForm (c :: after)).all isAsciiVariant = true := by
        have hend' : rest.all isAsciiVariant = true := by
          obtain rfl | rfl := hend
          · rfl
          · rfl
        rw [hform, ← List.cons_append, ← List.append_assoc, List.all_append, hshown, hend']
        rfl
      have hall := hlaws.variants (c :: after) hform'
      refine ⟨before, c :: after, [], (List.append_nil _).symm, hall, left, suffix, rest, ?_,
        hknown, .inr ⟨rfl, hend⟩⟩
      rw [← comparisonForm_eq_flatMap hlaws hvariant hall, hform]

/-- An extension that characters of a text spell is shown by the form. -/
theorem HidesExtension.comparisonForm (hlaws : CompatibilityLaws tables)
    (hhides : HidesExtension tables text) :
    ∃ earlier suffix rest, tables.comparisonForm text = earlier ++ '.' :: (suffix ++ rest) ∧
      KnownExtension suffix ∧ (rest.head? = some '.' ∨ rest = [] ∨ rest = ['\n']) := by
  obtain ⟨before, chosen, after, rfl, hall, first, suffix, rest, hshown, hknown, hrest⟩ := hhides
  obtain ⟨c, others, rfl⟩ : ∃ c others, chosen = c :: others := by
    cases chosen with
    | nil => exact absurd hshown.symm (by simp)
    | cons c others => exact ⟨c, others, rfl⟩
  have hvariant := hall c List.mem_cons_self
  have hsplit : tables.comparisonForm (before ++ (c :: others) ++ after) =
      tables.comparisonForm before ++ tables.comparisonForm (c :: others ++ after) := by
    rw [List.append_assoc, List.cons_append]
    exact hlaws.splits before c (others ++ after) hvariant
  rcases hrest with hstop | ⟨rfl, hend⟩
  · obtain ⟨rest, rfl⟩ := List.head?_eq_some_iff.mp hstop
    rw [← List.cons_append, ← List.append_assoc] at hshown
    obtain ⟨middle, d, later, inner, outer, hmiddle, hd, hinner⟩ := flatMap_eq_append_cons hshown
    have hmiddleAll : ∀ e ∈ middle, (tables.formOf e).all isAsciiVariant = true := by
      intro e he
      exact hall e (hmiddle ▸ List.mem_append_left _ he)
    rw [← comparisonForm_eq_flatMap hlaws hvariant hmiddleAll] at hinner
    obtain ⟨more, hmore⟩ := (hlaws.stops (c :: others ++ after) (first ++ '.' :: suffix)).mpr
      ⟨middle, d, later ++ after, inner, outer, by rw [hmiddle]; simp, hd, hinner⟩
    refine ⟨tables.comparisonForm before ++ first, suffix, '.' :: more, ?_, hknown, .inl rfl⟩
    rw [hsplit, hmore]
    simp
  · refine ⟨tables.comparisonForm before ++ first, suffix, rest, ?_, hknown, .inr hend⟩
    rw [hsplit, List.append_nil, comparisonForm_eq_flatMap hlaws hvariant hall, hshown,
      List.append_assoc]

/-- The form of a stem shows an extension exactly when some of its characters spell one. -/
theorem occursIn_comparisonForm_iff (hlaws : CompatibilityLaws tables) :
    knownExtensionSegment.occursIn isWord (tables.comparisonForm text) = true ↔
      HidesExtension tables text := by
  rw [knownExtensionSegment_occursIn_iff]
  constructor
  · rintro ⟨earlier, suffix, rest, hform, hknown, hrest⟩
    exact hidesExtension_of_comparisonForm hlaws hform hknown hrest
  · exact HidesExtension.comparisonForm hlaws

end Forms

/-- The key of an accepted filename keeps the policy exactly when no characters of the stem have
forms that spell an extension. -/
theorem key_policy_iff {tables : UploadTables} {index : ℕ} {kind : UploadKind}
    {filename : PartFilename} {name : LogicalName} (hlaws : CompatibilityLaws tables.unicode)
    (hname : normalizePartFilename tables index filename = .ok name)
    (hkind : classifyFilename tables index name.display = .ok kind) :
    ∃ stem suffix, splitExtension name.display = some (stem, suffix) ∧
      (KeyPolicy tables kind name.comparisonKey ↔ ¬ HidesExtension tables.unicode stem) := by
  obtain ⟨value, _, hnormalized⟩ := normalizePartFilename_ok hname
  obtain ⟨stem, suffix, hsplit, hentry⟩ := classifyFilename_ok hkind
  have hkey := splitExtension_comparisonForm hlaws hsplit hentry
  rw [← (normalizeLogicalName_ok hnormalized).2] at hkey
  refine ⟨stem, suffix, hsplit, ?_⟩
  rw [← @occursIn_comparisonForm_iff tables.unicode tables.isWord stem hlaws]
  constructor
  · rintro ⟨keyStem, keySuffix, hfound, _, hplain⟩
    rw [hkey, Option.some.injEq, Prod.mk.injEq] at hfound
    rw [hfound.1, hplain]
    exact Bool.false_ne_true
  · intro hplain
    exact ⟨_, _, hkey, hentry, Bool.not_eq_true _ ▸ hplain⟩

/-! ## A name with a full-width stop -/

def fullWidthStop : Char := Char.ofNat 0xFF0E

def narrowStop (c : Char) : Char :=
  if c = fullWidthStop then '.' else c

/-- ASCII text, and a full-width stop with its compatibility mapping. -/
def stopTables : UploadTables where
  unicode := { asciiTables with nfkc := List.map narrowStop }
  isAlnum c := isAsciiLetter c || isAsciiDigit c
  refusesNetloc _ := false

theorem narrowStop_of_ascii {c : Char} (hascii : isAscii c = true) : narrowStop c = c := by
  unfold narrowStop
  rw [if_neg]
  rintro rfl
  cases hascii

theorem stopTables_comparisonForm (text : Text) : stopTables.unicode.comparisonForm text =
    text.map fun c => narrowStop (narrowStop c).toLower := by
  simp only [UnicodeTables.comparisonForm, stopTables, asciiTables, List.map_map]
  rfl

theorem stopTables_laws : CompatibilityLaws stopTables.unicode where
  nfkc_stop before after := by
    simp [stopTables, narrowStop, fullWidthStop]
  casefold_stop before after := by
    simp [stopTables, asciiTables]
  folds_to_ascii text hascii := by
    simp only [UnicodeTables.comparisonForm, stopTables, asciiTables, List.map_map,
      List.all_map] at hascii ⊢
    refine List.map_congr_left fun c hc => ?_
    have hlower : isAscii c.toLower = true := List.all_eq_true.mp hascii c hc
    have hplain : isAscii c = true := by
      cases hcase : isAscii c with
      | true => rfl
      | false => rw [← hcase, ← hlower, toLower_of_not_ascii hcase]
    simp only [Function.comp_apply, narrowStop_of_ascii hplain, narrowStop_of_ascii hlower]
  splits before c after _ := by
    simp only [stopTables_comparisonForm, List.map_append]
  stops text shown := by
    simp only [UnicodeTables.formOf, stopTables_comparisonForm]
    constructor
    · rintro ⟨rest, hshown⟩
      obtain ⟨before, later, rfl, hbefore, hlater⟩ := List.map_eq_append_iff.mp hshown
      obtain ⟨c, after, rfl, hc, _⟩ := List.map_eq_cons_iff.mp hlater
      exact ⟨before, c, after, [], [], rfl, by rw [List.map_singleton, hc]; rfl,
        by rw [List.append_nil, hbefore]⟩
    · rintro ⟨before, c, after, first, second, rfl, hc, hshown⟩
      rw [List.map_singleton] at hc
      obtain ⟨rfl, hc⟩ | ⟨_, hnil⟩ := List.append_eq_singleton_iff.mp hc.symm
      · rw [List.append_nil] at hshown
        refine ⟨after.map fun c => narrowStop (narrowStop c).toLower, ?_⟩
        rw [List.map_append, hshown, List.map_cons, (List.cons.inj hc).1]
      · cases hnil
  stop_variant c hc := by
    rw [UnicodeTables.formOf, stopTables_comparisonForm, List.map_singleton,
      List.mem_singleton] at hc
    rw [UnicodeTables.formOf, stopTables_comparisonForm, List.map_singleton, ← hc]
    decide
  variants text hall c hc := by
    rw [stopTables_comparisonForm, List.all_map, List.all_eq_true] at hall
    rw [UnicodeTables.formOf, stopTables_comparisonForm, List.map_singleton, List.all_cons,
      List.all_nil, Bool.and_true]
    exact hall c hc

theorem plain_key_keeps_policy :
    ∃ stem suffix, splitExtension "Sales.CSV".toList = some (stem, suffix) ∧
      (KeyPolicy stopTables .csv "sales.csv".toList ↔
        ¬ HidesExtension stopTables.unicode stem) := by
  have hname : normalizePartFilename stopTables 0 (.text "Sales.CSV".toList) =
      .ok ⟨"Sales.CSV".toList, "sales.csv".toList⟩ := by
    rfl
  have hkind : classifyFilename stopTables 0 "Sales.CSV".toList = .ok .csv := by
    rfl
  exact key_policy_iff stopTables_laws hname hkind

/-- The stop hides an extension from the classification, and the key shows it. -/
theorem hidden_extension_breaks_policy :
    ∃ name, normalizePartFilename stopTables 0
        (.text ('a' :: fullWidthStop :: "csv.html".toList)) = .ok name ∧
      classifyFilename stopTables 0 name.display = .ok .html ∧
        ¬ KeyPolicy stopTables .html name.comparisonKey := by
  have hname : normalizePartFilename stopTables 0
      (.text ('a' :: fullWidthStop :: "csv.html".toList)) =
        .ok ⟨'a' :: fullWidthStop :: "csv.html".toList, "a.csv.html".toList⟩ := by
    rfl
  have hkind : classifyFilename stopTables 0 ('a' :: fullWidthStop :: "csv.html".toList) =
      .ok .html := by
    rfl
  refine ⟨_, hname, hkind, ?_⟩
  rintro ⟨stem, suffix, hsplit, _, hplain⟩
  have hkey : splitExtension "a.csv.html".toList = some ("a.csv".toList, "html".toList) := by
    rfl
  rw [hkey, Option.some.injEq, Prod.mk.injEq] at hsplit
  have hsegment : knownExtensionSegment.occursIn stopTables.isWord "a.csv".toList = true := by
    decide +kernel
  rw [← hsplit.1, hsegment] at hplain
  cases hplain

end Agora
