import Agora.CssPreprocessing
import Agora.PatternSearch
import Mathlib.Data.List.DropRight
import Mathlib.Data.List.TakeWhile

/-!
# The search for URLs

Where no opener before a URL is left open, the search finds the URL, and the text between its
parentheses.
-/

namespace Agora

open CssSyntax TextPattern

/-- What the search uses of `str.isalnum`. -/
structure WordLaws (tables : UploadTables) : Prop where
  letter : ∀ c, isAsciiLetter c = true → tables.isAlnum c = true
  control : ∀ c ∈ ['\n', '\r', '\x0c', '\x00', Char.ofNat 0xFFFD], tables.isAlnum c = false

/-- `_CSS_URL_RE` up to its first parenthesis. -/
def urlOpener : TextPattern :=
  .all [.wordEdge, patternWord "url", patternSpaces, patternWord "("]

/-- Behind each opener of a URL there is a parenthesis that closes it. -/
def OpenersClosed (tables : UploadTables) (shown : Text) : Prop :=
  ∀ earlier later, shown = earlier ++ later →
    ∀ stop ∈ urlOpener.ends tables.isWord ⟨earlier.reverse, later, []⟩, ')' ∈ stop.after

instance (tables : UploadTables) (shown : Text) : Decidable (OpenersClosed tables shown) :=
  decidable_of_iff (∀ place ≤ shown.length, ∀ stop ∈ urlOpener.ends tables.isWord
      ⟨(shown.take place).reverse, shown.drop place, []⟩, ')' ∈ stop.after) <| by
  constructor
  · rintro hplaces earlier later rfl
    have hplace := hplaces earlier.length (by simp)
    rwa [List.take_left, List.drop_left] at hplace
  · intro hclosed place _
    exact hclosed _ _ (List.take_append_drop place shown).symm

section Search

variable {tables : UploadTables} {before name left text more : Text}

theorem sameIgnoringCase_toLower (c : Char) : sameIgnoringCase c.toLower c = true := by
  cases hascii : isAscii c with
  | false =>
      have hlower := toLower_of_not_ascii hascii
      rw [hlower, sameIgnoringCase, caseVariants, hlower]
      simp
  | true =>
      have hall : ∀ n < 128, sameIgnoringCase (Char.ofNat n).toLower (Char.ofNat n) = true := by
        decide +kernel
      have hsame := hall c.toNat (by simpa [isAscii] using hascii)
      rwa [Char.ofNat_toNat] at hsame

theorem urlName_matches (hname : isUrlName name = true) :
    List.Forall₂ (fun expected c => sameIgnoringCase expected c = true) "url".toList name := by
  rw [isUrlName, decide_eq_true_eq] at hname
  rw [← hname, List.forall₂_map_left_iff, List.forall₂_same]
  exact fun c _ => sameIgnoringCase_toLower c

/-- The match of a URL goes from its name to the first parenthesis, and its group is the text
between the parentheses without the space at its start. -/
theorem matchAt_cssUrl (hedge : before.head?.any tables.isWord = false)
    (hletter : name.head?.any tables.isWord = true) (hname : isUrlName name = true)
    (htext : ')' ∉ text) :
    ∃ stop, cssUrl.matchAt tables.isWord ⟨before, name ++ '(' :: (text ++ ')' :: more), []⟩ =
        some stop ∧
      stop.after = more ∧ stop.group 1 = text.dropWhile isPythonSpace := by
  have hsplit : text = text.takeWhile isPythonSpace ++ text.dropWhile isPythonSpace :=
    List.takeWhile_append_dropWhile.symm
  have hspaces : ∀ c ∈ text.takeWhile isPythonSpace, isPythonSpace c = true := fun c hc =>
    List.mem_takeWhile_imp hc
  have hargument : ∀ c ∈ text.dropWhile isPythonSpace, (decide (c ≠ ')')) = true := by
    intro c hc
    refine decide_eq_true ?_
    rintro rfl
    exact htext ((List.dropWhile_suffix _).subset hc)
  have hhead : (text.dropWhile isPythonSpace ++ ')' :: more).head?.any isPythonSpace = false := by
    cases hdrop : text.dropWhile isPythonSpace with
    | nil => rfl
    | cons c rest =>
        have hc := List.head_dropWhile_not isPythonSpace (l := text) (by simp [hdrop])
        simpa [hdrop] using hc
  generalize text.takeWhile isPythonSpace = spaces at hsplit hspaces
  generalize text.dropWhile isPythonSpace = argument at hsplit hargument hhead
  have hstart : ∀ rest : Text, (before.head?.any tables.isWord !=
      (name ++ rest).head?.any tables.isWord) = true := by
    intro rest
    rw [hedge]
    cases name with
    | nil => cases hletter
    | cons c name => simpa using hletter
  have hopen : List.Forall₂ (fun expected c => sameIgnoringCase expected c = true)
      "(".toList ['('] := .cons rfl .nil
  have hclose : List.Forall₂ (fun expected c => sameIgnoringCase expected c = true)
      ")".toList [')'] := .cons rfl .nil
  have hbody : ∀ place, (TextPattern.many (· ≠ ')')).matchAt tables.isWord
      ⟨place, argument ++ ')' :: more, []⟩ = some ⟨argument.reverse ++ place, ')' :: more, []⟩ :=
    fun place => matchAt_many hargument rfl
  have hnone : ∀ place rest, (TextPattern.many isPythonSpace).matchAt tables.isWord
      ⟨place, '(' :: rest, []⟩ = some ⟨place, '(' :: rest, []⟩ := fun place rest =>
    @matchAt_many tables.isWord place [] ('(' :: rest) [] isPythonSpace (by simp) rfl
  rw [hsplit, List.append_assoc]
  refine ⟨_, matchAt_both (matchAt_wordEdge (hstart _)) (matchAt_both
    (matchAt_text (urlName_matches hname)) (matchAt_both (hnone _ _)
    (matchAt_both (matchAt_text hopen) (matchAt_both (matchAt_many hspaces hhead)
    (matchAt_both (matchAt_group (hbody _)) (matchAt_text hclose)))))), rfl, ?_⟩
  simp [TextPosition.group, TextPosition.textTo]

/-! ## Openers -/

section Openers

variable {position stop : TextPosition}

/-- The edge of a word lies at a position. -/
def AtWordEdge (tables : UploadTables) (position : TextPosition) : Prop :=
  (position.before.head?.any tables.isWord != position.after.head?.any tables.isWord) = true

theorem sameIgnoringCase_cases {expected lower upper c : Char}
    (hvariants : caseVariants expected = [lower, upper])
    (hsame : sameIgnoringCase expected c = true) : c = lower ∨ c = upper := by
  rw [sameIgnoringCase, hvariants] at hsame
  simpa using hsame

/-- A parenthesis matches itself only. -/
theorem parenthesis_of_forall₂ {c : Char} {piece : Text}
    (hpiece : List.Forall₂ (fun expected c => sameIgnoringCase expected c = true) [c] piece)
    (hvariants : caseVariants c = [c, c]) : piece = [c] := by
  cases hpiece with
  | cons hsame hrest =>
      cases hrest
      rw [(or_self_iff).mp (sameIgnoringCase_cases hvariants hsame)]

theorem mem_urlOpener : stop ∈ urlOpener.ends tables.isWord position ↔
    AtWordEdge tables position ∧ ∃ word spaces,
      List.Forall₂ (fun expected c => sameIgnoringCase expected c = true) "url".toList word ∧
      (∀ c ∈ spaces, isPythonSpace c = true) ∧
      position.Reads stop (word ++ spaces ++ ['(']) ∧ stop.groups = position.groups := by
  constructor
  · intro hstop
    obtain ⟨_, hedge, hrest⟩ := mem_ends_both.mp hstop
    obtain ⟨rfl, hedge⟩ := mem_ends_wordEdge.mp hedge
    obtain ⟨first, hword, hrest⟩ := mem_ends_both.mp hrest
    obtain ⟨word, hword, hreadsWord, hgroupsWord⟩ := mem_ends_text.mp hword
    obtain ⟨second, hspaces, hopen⟩ := mem_ends_both.mp hrest
    obtain ⟨spaces, hspaces, hreadsSpaces, hgroupsSpaces⟩ := mem_ends_many.mp hspaces
    obtain ⟨piece, hpiece, hreadsOpen, hgroupsOpen⟩ := mem_ends_text.mp hopen
    rw [parenthesis_of_forall₂ hpiece (by decide)] at hreadsOpen
    exact ⟨hedge, word, spaces, hword, hspaces, (hreadsWord.trans hreadsSpaces).trans hreadsOpen,
      hgroupsOpen.trans (hgroupsSpaces.trans hgroupsWord)⟩
  · rintro ⟨hedge, word, spaces, hword, hspaces, hreads, hgroups⟩
    obtain ⟨second, hsecond, hopen, hgroupsSecond⟩ := TextPosition.Reads.split hreads
    obtain ⟨first, hfirst, hmiddle, hgroupsFirst⟩ := TextPosition.Reads.split hsecond
    refine mem_ends_both.mpr ⟨position, mem_ends_wordEdge.mpr ⟨rfl, hedge⟩, ?_⟩
    refine mem_ends_both.mpr ⟨first, mem_ends_text.mpr ⟨word, hword, hfirst, hgroupsFirst⟩, ?_⟩
    refine mem_ends_both.mpr ⟨second, mem_ends_many.mpr ⟨spaces, hspaces, hmiddle,
      hgroupsSecond.trans hgroupsFirst.symm⟩, ?_⟩
    exact mem_ends_text.mpr ⟨['('], .cons rfl .nil, hopen, hgroups.trans hgroupsSecond.symm⟩

/-- A match of a URL goes from an opener to the first parenthesis behind it. -/
theorem opener_of_cssUrl (hstop : stop ∈ cssUrl.ends tables.isWord position) :
    ∃ middle ∈ urlOpener.ends tables.isWord position, ∃ inner, ')' ∉ inner ∧
      middle.after = inner ++ ')' :: stop.after := by
  obtain ⟨edge, hedge, hstop⟩ := mem_ends_both.mp hstop
  obtain ⟨named, hnamed, hstop⟩ := mem_ends_both.mp hstop
  obtain ⟨spaced, hspaced, hstop⟩ := mem_ends_both.mp hstop
  obtain ⟨opened, hopened, hstop⟩ := mem_ends_both.mp hstop
  obtain ⟨reached, hreached, hstop⟩ := mem_ends_both.mp hstop
  obtain ⟨grouped, hgrouped, hclosed⟩ := mem_ends_both.mp hstop
  obtain ⟨spaces, hspaces, hreadsSpaces, _⟩ := mem_ends_many.mp hreached
  obtain ⟨found, hfound, rfl⟩ := mem_ends_group.mp hgrouped
  obtain ⟨body, hbody, hreadsBody, _⟩ := mem_ends_many.mp hfound
  obtain ⟨piece, hpiece, hreadsClose, _⟩ := mem_ends_text.mp hclosed
  rw [parenthesis_of_forall₂ hpiece (by decide)] at hreadsClose
  have hopener : opened ∈ urlOpener.ends tables.isWord position :=
    mem_ends_both.mpr ⟨edge, hedge, mem_ends_both.mpr ⟨named, hnamed, mem_ends_both.mpr
      ⟨spaced, hspaced, hopened⟩⟩⟩
  refine ⟨opened, hopener, spaces ++ body, ?_, ?_⟩
  · rw [List.mem_append, not_or]
    constructor
    · intro hmem
      cases hspaces _ hmem
    · exact fun hmem => of_decide_eq_true (hbody _ hmem) rfl
  · rw [hreadsSpaces.after, hreadsBody.after, List.append_assoc]
    exact congrArg (fun rest => spaces ++ (body ++ rest)) hreadsClose.after

end Openers

/-- The first letter of an opener is no white space, and the others are not the first. -/
theorem urlLetters {word : Text}
    (hword : List.Forall₂ (fun expected c => sameIgnoringCase expected c = true)
      "url".toList word) :
    ∃ first second third, word = [first, second, third] ∧ (first = 'u' ∨ first = 'U') ∧
      (second = 'r' ∨ second = 'R') ∧ (third = 'l' ∨ third = 'L') := by
  have hletters : List.Forall₂ (fun expected c => sameIgnoringCase expected c = true)
      ['u', 'r', 'l'] word := hword
  rcases hletters with _ | ⟨hfirst, _ | ⟨hsecond, _ | ⟨hthird, hrest⟩⟩⟩
  cases hrest
  exact ⟨_, _, _, rfl, sameIgnoringCase_cases rfl hfirst, sameIgnoringCase_cases rfl hsecond,
    sameIgnoringCase_cases rfl hthird⟩

theorem isAsciiLetter_of_url {word : Text}
    (hword : List.Forall₂ (fun expected c => sameIgnoringCase expected c = true)
      "url".toList word) : ∀ c ∈ word, isAsciiLetter c = true := by
  obtain ⟨first, second, third, rfl, hfirst, hsecond, hthird⟩ := urlLetters hword
  have hletter : ∀ {c lower upper : Char}, c = lower ∨ c = upper → isAsciiLetter lower = true →
      isAsciiLetter upper = true → isAsciiLetter c = true := by
    rintro c lower upper (rfl | rfl) hlower hupper
    · exact hlower
    · exact hupper
  exact List.forall_mem_cons.mpr ⟨hletter hfirst rfl rfl, List.forall_mem_cons.mpr
    ⟨hletter hsecond rfl rfl, List.forall_mem_singleton.mpr (hletter hthird rfl rfl)⟩⟩

theorem WordLaws.shared (hwords : WordLaws tables) : SharedClass tables.isWord := by
  have hnone : ∀ c ∈ ['\n', '\r', '\x0c', '\x00', Char.ofNat 0xFFFD], tables.isWord c = false := by
    intro c hc
    rw [UploadTables.isWord, hwords.control c hc, Bool.false_or]
    simp only [List.mem_cons, List.not_mem_nil, or_false] at hc
    rcases hc with rfl | rfl | rfl | rfl | rfl
    · rfl
    · rfl
    · rfl
    · rfl
    · rfl
  apply sharedClass_of_breaks
  · rw [hnone '\r' (by simp), hnone '\n' (by simp)]
  · rw [hnone '\x0c' (by simp), hnone '\n' (by simp)]
  · rw [hnone '\x00' (by simp), hnone (Char.ofNat 0xFFFD) (by simp)]

theorem WordLaws.head (hwords : WordLaws tables) (hname : isUrlName name = true) :
    name.head?.any tables.isWord = true := by
  have hletters := isAsciiLetter_of_url (urlName_matches hname)
  obtain ⟨first, second, third, rfl, _⟩ := urlLetters (urlName_matches hname)
  have hfirst := hwords.letter first (hletters first List.mem_cons_self)
  rw [List.head?_cons, Option.any_some, UploadTables.isWord, hfirst, Bool.true_or]

theorem sharedClass_space : SharedClass isPythonSpace :=
  sharedClass_of_breaks rfl rfl rfl

theorem sharedClass_open : SharedClass (· ≠ ')') :=
  sharedClass_of_breaks rfl rfl rfl

theorem Alike.mem_close_iff {shown other : Text} (halike : Alike shown other) :
    ')' ∈ shown ↔ ')' ∈ other := by
  have hall := halike.forall_iff sharedClass_open
  rw [← not_iff_not]
  constructor
  · intro hmem hother
    have hkept := hall.mp (fun c hc => decide_eq_true fun hclose => hmem (hclose ▸ hc)) _ hother
    exact of_decide_eq_true hkept rfl
  · intro hmem hother
    have hkept := hall.mpr (fun c hc => decide_eq_true fun hclose => hmem (hclose ▸ hc)) _ hother
    exact of_decide_eq_true hkept rfl

/-- The openers of a text are closed where those of the text that is read are. -/
theorem OpenersClosed.alike {shown other : Text} (hwords : WordLaws tables)
    (halike : Alike shown other) (hclosed : OpenersClosed tables other) :
    OpenersClosed tables shown := by
  rintro earlier later rfl stop hstop
  obtain ⟨hedge, word, spaces, hword, hspaces, hreads, _⟩ := mem_urlOpener.mp hstop
  have hletters := isAsciiLetter_of_url hword
  obtain ⟨first, second, third, rfl, _⟩ := urlLetters hword
  have hafter : later = [first, second, third] ++ (spaces ++ '(' :: stop.after) := by
    rw [show later = _ from hreads.after]
    simp
  rw [hafter] at halike hedge
  obtain ⟨before, rest, rfl, hbefore, hrest⟩ := halike.split_left fun _ hhead => by
    have hfirst := hletters first List.mem_cons_self
    rw [Option.some.inj hhead] at hfirst
    cases hfirst
  obtain ⟨named, opened, rfl, hnamed, hopened⟩ := hrest.split_left fun hlast => by
    have hreturn : third = '\r' := Option.some.inj hlast
    have hthird := hletters third (by simp)
    rw [hreturn] at hthird
    cases hthird
  obtain ⟨blanks, inner, rfl, hblanks, hinner⟩ := hopened.split_left fun _ hhead => by
    cases hhead
  have hsame : [first, second, third] = named := by
    apply hnamed.eq_of_left
    exact fun c hc => kept_of_class rfl rfl rfl (hletters c hc)
  rw [← hsame] at hclosed
  cases hinner with
  | @char _ read _ inner hread hinside =>
      have hopen : '(' = read := by
        rcases hread with hopen | ⟨_, hbreak | hbreak⟩ | ⟨hnull, _⟩
        · exact hopen
        · cases hbreak
        · cases hbreak
        · cases hnull
      rw [← hopen] at hclosed
      have hend := hclosed before ([first, second, third] ++ (blanks ++ '(' :: inner)) rfl
        ⟨([first, second, third] ++ blanks ++ ['(']).reverse ++ before.reverse, inner, []⟩
      rw [hinside.mem_close_iff]
      refine hend (mem_urlOpener.mpr ⟨?_, _, blanks, hword, ?_, ⟨?_, rfl⟩, rfl⟩)
      · unfold AtWordEdge at hedge ⊢
        rw [List.head?_reverse] at hedge ⊢
        rw [← hbefore.last hwords.shared]
        exact hedge
      · exact (hblanks.forall_iff sharedClass_space).mp hspaces
      · simp

/-- An opener that begins before a URL ends before it. -/
theorem exists_tail {word spaces later rest behind : Text}
    (hword : List.Forall₂ (fun expected c => sameIgnoringCase expected c = true)
      "url".toList word) (hspaces : ∀ c ∈ spaces, isPythonSpace c = true)
    (hname : isUrlName name = true) (hlater : later ≠ [])
    (hsplit : later ++ (name ++ rest) = (word ++ spaces ++ ['(']) ++ behind) :
    ∃ tail, later = (word ++ spaces ++ ['(']) ++ tail := by
  rcases List.append_eq_append_iff.mp hsplit with ⟨extra, hextra, hrest⟩ | ⟨tail, htail, _⟩
  · cases extra with
    | nil => exact ⟨[], by rw [List.append_nil, hextra, List.append_nil]⟩
    | cons c extra =>
        -- The piece would reach the first letter of the name, which only starts an opener.
        obtain ⟨first, second, third, rfl, _, hsecond, hthird⟩ := urlLetters hword
        obtain ⟨letter, _, _, rfl, hletter, _⟩ := urlLetters (urlName_matches hname)
        obtain ⟨d, later, rfl⟩ := List.exists_cons_of_ne_nil hlater
        obtain rfl : letter = c := (List.cons.inj hrest).1
        have hmem : letter ∈ [second, third] ++ spaces ++ ['('] := by
          have htails : [second, third] ++ spaces ++ ['('] = later ++ letter :: extra :=
            (List.cons.inj hextra).2
          rw [htails]
          simp
        simp only [List.mem_append, List.mem_cons, List.not_mem_nil, or_false] at hmem
        exfalso
        rcases hmem with ((rfl | rfl) | hspace) | rfl
        · rcases hletter with rfl | rfl
          · revert hsecond
            decide
          · revert hsecond
            decide
        · rcases hletter with rfl | rfl
          · revert hthird
            decide
          · revert hthird
            decide
        · have hblank := hspaces letter hspace
          rcases hletter with rfl | rfl
          · cases hblank
          · cases hblank
        · revert hletter
          decide
  · exact ⟨tail, htail⟩

/-- No match that begins before a URL ends behind its start. -/
theorem OpenersClosed.uncrossed {shown rest : Text} (hclosed : OpenersClosed tables shown)
    (hname : isUrlName name = true) :
    Uncrossed tables.isWord cssUrl [] shown (name ++ rest) := by
  rintro earlier later rfl hlater stop hstop
  obtain ⟨middle, hmiddle, inner, hinner, hafter⟩ := opener_of_cssUrl hstop
  obtain ⟨hedge, word, spaces, hword, hspaces, hreads, _⟩ := mem_urlOpener.mp hmiddle
  have hpiece : later ++ (name ++ rest) = (word ++ spaces ++ ['(']) ++ middle.after := hreads.after
  obtain ⟨tail, htail⟩ := exists_tail hword hspaces hname hlater hpiece
  have hbehind : tail ++ (name ++ rest) = inner ++ ')' :: stop.after := by
    rw [← hafter]
    rw [htail, List.append_assoc] at hpiece
    exact List.append_cancel_left hpiece
  have hclose : ')' ∈ tail := by
    refine hclosed earlier later rfl
      ⟨(word ++ spaces ++ ['(']).reverse ++ earlier.reverse, tail, []⟩
      (mem_urlOpener.mpr ⟨?_, word, spaces, hword, hspaces, ⟨htail, rfl⟩, rfl⟩)
    obtain ⟨c, later, rfl⟩ := List.exists_cons_of_ne_nil hlater
    unfold AtWordEdge at hedge ⊢
    rwa [List.append_nil] at hedge
  rcases List.append_eq_append_iff.mp hbehind with ⟨extra, hextra, _⟩ | ⟨extra, hextra, hrest⟩
  · rw [hextra] at hinner
    exact absurd (List.mem_append_left extra hclose) hinner
  · cases extra with
    | nil =>
        rw [hextra, List.append_nil] at hclose
        exact absurd hclose hinner
    | cons d extra =>
        have hbehind : stop.after = extra ++ (name ++ rest) := (List.cons.inj hrest).2
        rw [hbehind]
        exact (List.suffix_append extra (name ++ rest)).length_le

/-! ## Arguments -/

/-- The search finds a URL behind a text that leaves no opener open. -/
theorem mem_cssUrlArguments {shown : Text} (hopeners : OpenersClosed tables shown)
    (hedge : shown.getLast?.any tables.isWord = false)
    (hletter : name.head?.any tables.isWord = true) (hname : isUrlName name = true)
    (htext : ')' ∉ text) :
    text.dropWhile isPythonSpace ∈
      cssUrlArguments tables (shown ++ (name ++ '(' :: (text ++ ')' :: more))) := by
  rw [← List.head?_reverse] at hedge
  obtain ⟨stop, hmatch, _, hgroup⟩ :=
    @matchAt_cssUrl tables shown.reverse name text more hedge hletter hname htext
  have hleading : cssUrl.leading = true := by
    decide +kernel
  have hconsumes : cssUrl.consumes = true := by
    decide +kernel
  rw [cssUrlArguments, findAll_eq_search,
    (hopeners.uncrossed hname).search_append hleading hconsumes, List.append_nil, List.map_append,
    List.mem_append, List.mem_map, List.mem_map]
  right
  obtain ⟨first, second, third, rfl, _⟩ := urlLetters (urlName_matches hname)
  rw [List.cons_append] at hmatch ⊢
  rw [search_cons_of_some hmatch]
  exact ⟨_, List.mem_cons_self, hgroup⟩

section Strip

variable {body right : Text} {accepts : Char → Bool}

theorem dropWhile_of_head (hhead : text.head?.any accepts = false) :
    text.dropWhile accepts = text := by
  cases text with
  | nil => rfl
  | cons c rest =>
      have hc : accepts c = false := hhead
      exact List.dropWhile_cons_of_neg (by rw [hc]; exact Bool.false_ne_true)

/-- White space around a text is stripped. -/
theorem strip_surrounded (hleft : ∀ c ∈ left, isPythonSpace c = true)
    (hright : ∀ c ∈ right, isPythonSpace c = true)
    (hhead : body.head?.any isPythonSpace = false)
    (hlast : body.getLast?.any isPythonSpace = false) :
    strip ((left ++ body ++ right).dropWhile isPythonSpace) = body := by
  have hreverse : ∀ c ∈ right.reverse, isPythonSpace c = true := fun c hc =>
    hright c (List.mem_reverse.mp hc)
  rw [strip, List.dropWhile_idempotent, List.append_assoc, List.dropWhile_append_of_pos hleft]
  cases body with
  | nil =>
      rw [List.nil_append, List.dropWhile_eq_nil_iff.mpr hright]
      rfl
  | cons c rest =>
      have hfirst : (c :: rest ++ right).dropWhile isPythonSpace = c :: rest ++ right :=
        dropWhile_of_head hhead
      have hend : (c :: rest).reverse.dropWhile isPythonSpace = (c :: rest).reverse :=
        dropWhile_of_head (by rwa [List.head?_reverse])
      rw [hfirst, List.reverse_append, List.dropWhile_append_of_pos hreverse, hend,
        List.reverse_reverse]

end Strip

end Search

end Agora
