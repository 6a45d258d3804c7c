import Agora.ArtifactStorageKeys

/-!
# Tracking unterminated comments

The tracker reads the last four characters again with every chunk.  Dashes of an
opener that are read again count as dashes of a closer, so a cut next to `<!-->` or
`<!--->` closes the comment that the whole text leaves open there.  Later markers
make the difference vanish, unless they are such abrupt comments themselves.
-/

namespace Agora

/-! ## The tracker -/

/-- The search for the next closer or opener, and the flag at the end of the text. -/
@[grind =] def commentOpenAfter : Bool → Text → Bool
  | commentOpen, [] => commentOpen
  | true, '-' :: '-' :: '>' :: rest => commentOpenAfter false rest
  | false, '<' :: '!' :: '-' :: '-' :: rest => commentOpenAfter true rest
  | commentOpen, _ :: rest => commentOpenAfter commentOpen rest

structure CommentTracker where
  commentOpen : Bool
  markupTail : Text
  deriving DecidableEq, Repr

def CommentTracker.initial : CommentTracker :=
  ⟨false, []⟩

/-- `text[-4:]`. -/
def lastFour (text : Text) : Text :=
  text.drop (text.length - 4)

/-- `_track_unterminated_comment`. -/
def CommentTracker.trackUnterminatedComment (tracker : CommentTracker) (data : Text) :
    CommentTracker :=
  let combined := tracker.markupTail ++ data
  ⟨commentOpenAfter tracker.commentOpen combined, lastFour combined⟩

def CommentTracker.trackChunks (tracker : CommentTracker) (chunks : List Text) :
    CommentTracker :=
  chunks.foldl CommentTracker.trackUnterminatedComment tracker

/-! ## Markers -/

/-- An abrupt comment is an opener that a `>` or a `->` follows directly. -/
inductive CommentMarker where
  | opener
  | closer
  | abrupt
  deriving DecidableEq, Repr

@[grind =] def commentMarkers : Text → List CommentMarker
  | '<' :: '!' :: '-' :: '-' :: '>' :: rest => .abrupt :: commentMarkers rest
  | '<' :: '!' :: '-' :: '-' :: '-' :: '>' :: rest => .abrupt :: commentMarkers rest
  | '<' :: '!' :: '-' :: '-' :: rest => .opener :: commentMarkers rest
  | '-' :: '-' :: '>' :: rest => .closer :: commentMarkers rest
  | _ :: rest => commentMarkers rest
  | [] => []

/-- The flag after a marker of a text that is read as a whole. -/
def CommentMarker.openAfter (commentOpen : Bool) : CommentMarker → Bool
  | .opener => true
  | .closer => false
  | .abrupt => !commentOpen

def openAfterMarkers : Bool → List CommentMarker → Bool :=
  List.foldl CommentMarker.openAfter

variable {commentOpen last : Bool} {text rest word : Text} {markers : List CommentMarker}

theorem commentOpenAfter_eq (commentOpen : Bool) (text : Text) :
    commentOpenAfter commentOpen text =
      openAfterMarkers commentOpen (commentMarkers text) := by
  induction text using commentMarkers.induct generalizing commentOpen with
  | case1 rest ih | case2 rest ih | case4 rest ih =>
      cases commentOpen <;>
        simp [commentOpenAfter, commentMarkers, ih, openAfterMarkers, CommentMarker.openAfter]
  | case3 rest hshort hlong ih =>
      rw [commentMarkers.eq_3 rest hshort hlong]
      cases commentOpen with
      | false =>
          simp [commentOpenAfter, ih, openAfterMarkers, CommentMarker.openAfter]
      | true =>
          have hsecond : commentOpenAfter true ('-' :: rest) = commentOpenAfter true rest := by
            apply commentOpenAfter.eq_4
            · intro later _ _ hrest
              exact hlong later hrest
            · simp
          have hfirst : commentOpenAfter true ('-' :: '-' :: rest) =
              commentOpenAfter true ('-' :: rest) := by
            apply commentOpenAfter.eq_4
            · intro later _ _ hrest
              exact hshort later (List.cons.inj hrest).2
            · simp
          simp [commentOpenAfter, hfirst, hsecond, ih, openAfterMarkers, CommentMarker.openAfter]
  | case5 head rest hshort hlong hopener hcloser ih =>
      rw [commentMarkers.eq_5 head rest hshort hlong hopener hcloser, ← ih]
      apply commentOpenAfter.eq_4
      · intro later _ hhead hrest
        exact hcloser later hhead hrest
      · intro later _ hhead hrest
        exact hopener later hhead hrest
  | case6 => rfl

/-! ## Flags that some cutting reaches -/

/-- A cut next to an abrupt comment may close it; every other marker sets the flag. -/
def MayLeave : Bool → List CommentMarker → Bool → Prop
  | commentOpen, [], last => commentOpen = last
  | _, .opener :: rest, last => MayLeave true rest last
  | _, .closer :: rest, last => MayLeave false rest last
  | commentOpen, .abrupt :: rest, last =>
      MayLeave false rest last ∨ MayLeave (!commentOpen) rest last

theorem mayLeave_openAfterMarkers (commentOpen : Bool) (markers : List CommentMarker) :
    MayLeave commentOpen markers (openAfterMarkers commentOpen markers) := by
  induction markers generalizing commentOpen with
  | nil => rfl
  | cons marker rest ih =>
      cases marker with
      | opener => exact ih true
      | closer => exact ih false
      | abrupt => exact .inr (ih (!commentOpen))

theorem mayLeave_append {first second : List CommentMarker} :
    MayLeave commentOpen (first ++ second) last ↔
      ∃ middle, MayLeave commentOpen first middle ∧ MayLeave middle second last := by
  induction first generalizing commentOpen with
  | nil => simp [MayLeave]
  | cons marker rest ih =>
      cases marker with
      | opener => exact ih
      | closer => exact ih
      | abrupt =>
          simp only [List.cons_append, MayLeave, ih]
          constructor
          · rintro (⟨middle, hfirst, hsecond⟩ | ⟨middle, hfirst, hsecond⟩)
            · exact ⟨middle, .inl hfirst, hsecond⟩
            · exact ⟨middle, .inr hfirst, hsecond⟩
          · rintro ⟨middle, hfirst | hfirst, hsecond⟩
            · exact .inl ⟨middle, hfirst, hsecond⟩
            · exact .inr ⟨middle, hfirst, hsecond⟩

theorem mayLeave_abrupt_flip {rest : List CommentMarker}
    (hleave : MayLeave (!commentOpen) rest last) :
    MayLeave commentOpen (.abrupt :: rest) last :=
  .inr hleave

theorem mayLeave_abrupt_closed {rest : List CommentMarker} (hleave : MayLeave false rest last) :
    MayLeave commentOpen (.abrupt :: rest) last :=
  .inl hleave

/-! ## Reading the tail again -/

@[simp] theorem commentMarkers_one (first : Char) : commentMarkers [first] = [] := by
  simp [commentMarkers]

@[simp] theorem commentMarkers_two (first second : Char) :
    commentMarkers [first, second] = [] := by
  simp [commentMarkers]

theorem commentMarkers_three (first second third : Char) :
    commentMarkers [first, second, third] = [] ∨ [first, second, third] = ['-', '-', '>'] := by
  by_cases hcloser : [first, second, third] = ['-', '-', '>']
  · exact .inr hcloser
  · left
    rw [commentMarkers.eq_5]
    · exact commentMarkers_two second third
    · simp
    · simp
    · simp
    · intro later hfirst hrest
      apply hcloser
      simp only [List.cons.injEq] at hrest
      rw [hfirst, hrest.1, hrest.2.1]

/-- A word of three characters may be read again. -/
theorem mayLeave_three {first second third : Char} {text : Text}
    (hleave : MayLeave (openAfterMarkers commentOpen (commentMarkers [first, second, third]))
      (commentMarkers (first :: second :: third :: text)) last) :
    MayLeave commentOpen (commentMarkers (first :: second :: third :: text)) last := by
  cases commentMarkers_three first second third with
  | inl hnone =>
      rw [hnone] at hleave
      exact hleave
  | inr hcloser =>
      simp only [List.cons.injEq, and_true] at hcloser
      obtain ⟨rfl, rfl, rfl⟩ := hcloser
      simpa only [commentMarkers, MayLeave] using hleave

/-- An opener that is read again counts as before, unless its comment is abrupt. -/
theorem mayLeave_opener {text : Text}
    (hleave : MayLeave true (commentMarkers ('<' :: '!' :: '-' :: '-' :: text)) last) :
    MayLeave commentOpen (commentMarkers ('<' :: '!' :: '-' :: '-' :: text)) last := by
  have habrupt : ∀ markers, MayLeave true (.abrupt :: markers) last →
      MayLeave commentOpen (.abrupt :: markers) last := by
    intro markers hleave
    cases hleave with
    | inl hclosed => exact mayLeave_abrupt_closed hclosed
    | inr hflip => exact mayLeave_abrupt_closed hflip
  by_cases hshort : ∃ later, text = '>' :: later
  · obtain ⟨later, rfl⟩ := hshort
    rw [commentMarkers] at hleave ⊢
    exact habrupt _ hleave
  · by_cases hlong : ∃ later, text = '-' :: '>' :: later
    · obtain ⟨later, rfl⟩ := hlong
      rw [commentMarkers] at hleave ⊢
      exact habrupt _ hleave
    · rw [commentMarkers.eq_3] at hleave ⊢
      · exact hleave
      · intro later htext
        exact hshort ⟨later, htext⟩
      · intro later htext
        exact hlong ⟨later, htext⟩
      · intro later htext
        exact hshort ⟨later, htext⟩
      · intro later htext
        exact hlong ⟨later, htext⟩

/-- A word of four characters may be read again. -/
theorem mayLeave_four {first second third fourth : Char} {text : Text}
    (hleave : MayLeave
      (openAfterMarkers commentOpen (commentMarkers [first, second, third, fourth]))
      (commentMarkers (first :: second :: third :: fourth :: text)) last) :
    MayLeave commentOpen (commentMarkers (first :: second :: third :: fourth :: text)) last := by
  by_cases hopener : [first, second, third, fourth] = ['<', '!', '-', '-']
  · simp only [List.cons.injEq, and_true] at hopener
    obtain ⟨rfl, rfl, rfl, rfl⟩ := hopener
    have hopen : openAfterMarkers commentOpen (commentMarkers ['<', '!', '-', '-']) = true := by
      simp [commentMarkers, openAfterMarkers, CommentMarker.openAfter]
    rw [hopen] at hleave
    exact mayLeave_opener hleave
  · by_cases hcloser : [first, second, third] = ['-', '-', '>']
    · simp only [List.cons.injEq, and_true] at hcloser
      obtain ⟨rfl, rfl, rfl⟩ := hcloser
      simpa only [commentMarkers, MayLeave] using hleave
    · have hrest : commentMarkers [first, second, third, fourth] =
          commentMarkers [second, third, fourth] := by
        apply commentMarkers.eq_5
        · simp
        · simp
        · intro later hfirst hrest
          apply hopener
          simp only [List.cons.injEq] at hrest
          rw [hfirst, hrest.1, hrest.2.1, hrest.2.2.1]
        · intro later hfirst hrest
          apply hcloser
          simp only [List.cons.injEq] at hrest
          rw [hfirst, hrest.1, hrest.2.1]
      cases commentMarkers_three second third fourth with
      | inl hnone =>
          rw [hrest, hnone] at hleave
          exact hleave
      | inr hlater =>
          simp only [List.cons.injEq, and_true] at hlater
          obtain ⟨rfl, rfl, rfl⟩ := hlater
          have hmarkers : commentMarkers (first :: '-' :: '-' :: '>' :: text) =
              .closer :: commentMarkers text := by
            rw [commentMarkers.eq_5]
            · exact commentMarkers.eq_4 text
            · simp
            · simp
            · simp
            · simp
          rw [hmarkers] at hleave ⊢
          exact hleave

/-- An opener before this text does not open an abrupt comment. -/
structure NotAbrupt (text : Text) : Prop where
  short : ∀ later, text = '>' :: later → False
  long : ∀ later, text = '-' :: '>' :: later → False

theorem NotAbrupt.of_append {first second : Text} (hplain : NotAbrupt (first ++ second)) :
    NotAbrupt first := by
  constructor
  · rintro later rfl
    exact hplain.short (later ++ second) rfl
  · rintro later rfl
    exact hplain.long (later ++ second) rfl

theorem NotAbrupt.opener (hplain : NotAbrupt rest) :
    commentMarkers ('<' :: '!' :: '-' :: '-' :: rest) = .opener :: commentMarkers rest :=
  commentMarkers.eq_3 rest hplain.short hplain.long

theorem NotAbrupt.dash (hplain : NotAbrupt rest) :
    commentMarkers ('-' :: rest) = commentMarkers rest := by
  apply commentMarkers.eq_5
  · simp
  · simp
  · simp
  · intro later _ hrest
    exact hplain.long later hrest

theorem NotAbrupt.dashes (hplain : NotAbrupt rest) :
    commentMarkers ('-' :: '-' :: rest) = commentMarkers rest := by
  rw [commentMarkers.eq_5, hplain.dash]
  · simp
  · simp
  · simp
  · intro later _ hrest
    exact hplain.short later (List.cons.inj hrest).2

/-- No marker begins with this character. -/
structure NoMarkerAt (head : Char) (rest : Text) : Prop where
  short : ∀ later, head = '<' → rest = '!' :: '-' :: '-' :: '>' :: later → False
  long : ∀ later, head = '<' → rest = '!' :: '-' :: '-' :: '-' :: '>' :: later → False
  opener : ∀ later, head = '<' → rest = '!' :: '-' :: '-' :: later → False
  closer : ∀ later, head = '-' → rest = '-' :: '>' :: later → False

theorem NoMarkerAt.skip {head : Char} (hskip : NoMarkerAt head rest) :
    commentMarkers (head :: rest) = commentMarkers rest :=
  commentMarkers.eq_5 head rest hskip.short hskip.long hskip.opener hskip.closer

theorem NoMarkerAt.of_append {head : Char} {first second : Text}
    (hskip : NoMarkerAt head (first ++ second)) : NoMarkerAt head first := by
  constructor
  · rintro later hhead rfl
    exact hskip.short (later ++ second) hhead rfl
  · rintro later hhead rfl
    exact hskip.long (later ++ second) hhead rfl
  · rintro later hhead rfl
    exact hskip.opener (later ++ second) hhead rfl
  · rintro later hhead rfl
    exact hskip.closer (later ++ second) hhead rfl

theorem commentMarkers_bang (rest : Text) :
    commentMarkers ('!' :: rest) = commentMarkers rest := by
  simp [commentMarkers]

section Reread

variable {first second third fourth : Char} {before text : Text}

/-- The last four characters begin inside an abrupt comment `<!-->`. -/
theorem mayLeave_of_short_abrupt
    (hspan : before ++ first :: second :: third :: fourth :: text =
      '<' :: '!' :: '-' :: '-' :: '>' :: rest) (hlength : before.length < 5)
    (hleave : MayLeave (openAfterMarkers commentOpen
        (commentMarkers (before ++ [first, second, third, fourth])))
      (commentMarkers (first :: second :: third :: fourth :: text)) last) :
    MayLeave commentOpen (.abrupt :: commentMarkers rest) last := by
  match before with
  | [] =>
      have hfour := mayLeave_four hleave
      rw [show first :: second :: third :: fourth :: text = _ from hspan, commentMarkers] at hfour
      exact hfour
  | [_] =>
      simp only [List.cons_append, List.nil_append, List.cons.injEq] at hspan
      obtain ⟨rfl, rfl, rfl, rfl, rfl, rfl⟩ := hspan
      rw [commentMarkers_bang, commentMarkers] at hleave
      exact mayLeave_abrupt_closed hleave
  | [_, _] =>
      simp only [List.cons_append, List.nil_append, List.cons.injEq] at hspan
      obtain ⟨rfl, rfl, rfl, rfl, rfl, rfl⟩ := hspan
      rw [commentMarkers.eq_4] at hleave
      exact mayLeave_abrupt_closed hleave
  | [_, _, _] =>
      simp only [List.cons_append, List.nil_append, List.cons.injEq] at hspan
      obtain ⟨rfl, rfl, rfl, rfl, rfl, rfl⟩ := hspan
      simp [commentMarkers, openAfterMarkers, CommentMarker.openAfter] at hleave
      exact mayLeave_abrupt_flip hleave
  | [_, _, _, _] =>
      simp only [List.cons_append, List.nil_append, List.cons.injEq] at hspan
      obtain ⟨rfl, rfl, rfl, rfl, rfl, rfl⟩ := hspan
      simp [commentMarkers, openAfterMarkers, CommentMarker.openAfter] at hleave
      exact mayLeave_abrupt_flip (mayLeave_three hleave)
  | _ :: _ :: _ :: _ :: _ :: _ => simp at hlength; omega

/-- The last four characters begin inside an abrupt comment `<!--->`. -/
theorem mayLeave_of_long_abrupt
    (hspan : before ++ first :: second :: third :: fourth :: text =
      '<' :: '!' :: '-' :: '-' :: '-' :: '>' :: rest) (hlength : before.length < 6)
    (hleave : MayLeave (openAfterMarkers commentOpen
        (commentMarkers (before ++ [first, second, third, fourth])))
      (commentMarkers (first :: second :: third :: fourth :: text)) last) :
    MayLeave commentOpen (.abrupt :: commentMarkers rest) last := by
  match before with
  | [] =>
      have hfour := mayLeave_four hleave
      rw [show first :: second :: third :: fourth :: text = _ from hspan, commentMarkers] at hfour
      exact hfour
  | [_] =>
      simp only [List.cons_append, List.nil_append, List.cons.injEq] at hspan
      obtain ⟨rfl, rfl, rfl, rfl, rfl, rfl⟩ := hspan
      simp [commentMarkers, MayLeave] at hleave
      exact mayLeave_abrupt_closed hleave
  | [_, _] =>
      simp only [List.cons_append, List.nil_append, List.cons.injEq] at hspan
      obtain ⟨rfl, rfl, rfl, rfl, rfl, rfl, rfl⟩ := hspan
      simp [commentMarkers, MayLeave] at hleave
      exact mayLeave_abrupt_closed hleave
  | [_, _, _] =>
      simp only [List.cons_append, List.nil_append, List.cons.injEq] at hspan
      obtain ⟨rfl, rfl, rfl, rfl, rfl, rfl, rfl⟩ := hspan
      rw [commentMarkers.eq_4] at hleave
      exact mayLeave_abrupt_closed hleave
  | [_, _, _, _] =>
      simp only [List.cons_append, List.nil_append, List.cons.injEq] at hspan
      obtain ⟨rfl, rfl, rfl, rfl, rfl, rfl, rfl⟩ := hspan
      simp [commentMarkers, openAfterMarkers, CommentMarker.openAfter] at hleave
      exact mayLeave_abrupt_flip hleave
  | [_, _, _, _, _] =>
      simp only [List.cons_append, List.nil_append, List.cons.injEq] at hspan
      obtain ⟨rfl, rfl, rfl, rfl, rfl, rfl, rfl⟩ := hspan
      simp [commentMarkers, openAfterMarkers, CommentMarker.openAfter] at hleave
      exact mayLeave_abrupt_flip (mayLeave_three hleave)
  | _ :: _ :: _ :: _ :: _ :: _ :: _ => simp at hlength; omega

/-- The last four characters begin inside a plain opener. -/
theorem mayLeave_of_plain_opener
    (hspan : before ++ first :: second :: third :: fourth :: text =
      '<' :: '!' :: '-' :: '-' :: rest) (hplain : NotAbrupt rest) (hlength : before.length < 4)
    (hleave : MayLeave (openAfterMarkers commentOpen
        (commentMarkers (before ++ [first, second, third, fourth])))
      (commentMarkers (first :: second :: third :: fourth :: text)) last) :
    MayLeave true (commentMarkers rest) last := by
  have hopened : ∀ {word : Text}, NotAbrupt word →
      openAfterMarkers commentOpen (commentMarkers ('<' :: '!' :: '-' :: '-' :: word)) =
        openAfterMarkers true (commentMarkers word) := by
    intro word hword
    rw [hword.opener]
    rfl
  match before with
  | [] =>
      have hfour := mayLeave_four hleave
      rw [show first :: second :: third :: fourth :: text = _ from hspan, hplain.opener] at hfour
      exact hfour
  | [_] =>
      simp only [List.cons_append, List.nil_append, List.cons.injEq] at hspan
      obtain ⟨rfl, rfl, rfl, rfl, rfl⟩ := hspan
      have hword : NotAbrupt [fourth] := @NotAbrupt.of_append [fourth] text hplain
      rw [commentMarkers_bang, hplain.dashes] at hleave
      rw [List.cons_append, List.nil_append, hopened hword, commentMarkers_one] at hleave
      exact hleave
  | [_, _] =>
      simp only [List.cons_append, List.nil_append, List.cons.injEq] at hspan
      obtain ⟨rfl, rfl, rfl, rfl, rfl⟩ := hspan
      have hword : NotAbrupt [third, fourth] := @NotAbrupt.of_append [third, fourth] text hplain
      rw [hplain.dashes] at hleave
      rw [List.cons_append, List.cons_append, List.nil_append, hopened hword,
        commentMarkers_two] at hleave
      exact hleave
  | [_, _, _] =>
      simp only [List.cons_append, List.nil_append, List.cons.injEq] at hspan
      obtain ⟨rfl, rfl, rfl, rfl, rfl⟩ := hspan
      have hword : NotAbrupt [second, third, fourth] :=
        @NotAbrupt.of_append [second, third, fourth] text hplain
      rw [hplain.dash] at hleave
      rw [List.cons_append, List.cons_append, List.cons_append, List.nil_append,
        hopened hword] at hleave
      exact mayLeave_three hleave
  | _ :: _ :: _ :: _ :: _ => simp at hlength; omega

/-- The last four characters begin inside a plain closer. -/
theorem mayLeave_of_plain_closer
    (hspan : before ++ first :: second :: third :: fourth :: text = '-' :: '-' :: '>' :: rest)
    (hlength : before.length < 3)
    (hleave : MayLeave (openAfterMarkers commentOpen
        (commentMarkers (before ++ [first, second, third, fourth])))
      (commentMarkers (first :: second :: third :: fourth :: text)) last) :
    MayLeave false (commentMarkers rest) last := by
  match before with
  | [] =>
      have hfour := mayLeave_four hleave
      rw [show first :: second :: third :: fourth :: text = _ from hspan, commentMarkers] at hfour
      exact hfour
  | [_] =>
      simp only [List.cons_append, List.nil_append, List.cons.injEq] at hspan
      obtain ⟨rfl, rfl, rfl, rfl⟩ := hspan
      simpa [commentMarkers, openAfterMarkers, CommentMarker.openAfter] using hleave
  | [_, _] =>
      simp only [List.cons_append, List.nil_append, List.cons.injEq] at hspan
      obtain ⟨rfl, rfl, rfl, rfl⟩ := hspan
      simp [commentMarkers, openAfterMarkers, CommentMarker.openAfter] at hleave
      exact mayLeave_three hleave
  | _ :: _ :: _ :: _ => simp at hlength; omega

theorem exists_append_of_length_le {tail marker : Text}
    (hwhole : before ++ tail = marker ++ rest) (hlength : marker.length ≤ before.length) :
    ∃ later, before = marker ++ later ∧ later ++ tail = rest := by
  cases List.append_eq_append_iff.mp hwhole with
  | inl hinside =>
      obtain ⟨middle, rfl, rfl⟩ := hinside
      have hempty : middle = [] := by
        rw [List.length_append] at hlength
        exact List.length_eq_zero_iff.mp (by omega)
      subst hempty
      exact ⟨[], by simp, rfl⟩
  | inr hoverlap =>
      obtain ⟨later, rfl, rfl⟩ := hoverlap
      exact ⟨later, rfl, rfl⟩

/-- The last four characters of a longer word may be read again. -/
theorem mayLeave_of_reread
    (hleave : MayLeave (openAfterMarkers commentOpen
        (commentMarkers (before ++ [first, second, third, fourth])))
      (commentMarkers (first :: second :: third :: fourth :: text)) last) :
    MayLeave commentOpen
      (commentMarkers (before ++ first :: second :: third :: fourth :: text)) last := by
  generalize hwhole : before ++ first :: second :: third :: fourth :: text = whole
  induction whole using commentMarkers.induct generalizing before commentOpen with
  | case1 rest ih =>
      rw [commentMarkers]
      by_cases hlength : before.length < 5
      · exact mayLeave_of_short_abrupt hwhole hlength hleave
      · obtain ⟨later, rfl, hlater⟩ := @exists_append_of_length_le rest before _
          ['<', '!', '-', '-', '>'] hwhole (Nat.not_lt.mp hlength)
        simp only [List.cons_append, List.nil_append, commentMarkers] at hleave
        exact mayLeave_abrupt_flip (ih hleave hlater)
  | case2 rest ih =>
      rw [commentMarkers]
      by_cases hlength : before.length < 6
      · exact mayLeave_of_long_abrupt hwhole hlength hleave
      · obtain ⟨later, rfl, hlater⟩ := @exists_append_of_length_le rest before _
          ['<', '!', '-', '-', '-', '>'] hwhole (Nat.not_lt.mp hlength)
        simp only [List.cons_append, List.nil_append, commentMarkers] at hleave
        exact mayLeave_abrupt_flip (ih hleave hlater)
  | case3 rest hshort hlong ih =>
      have hplain : NotAbrupt rest := ⟨hshort, hlong⟩
      rw [hplain.opener]
      by_cases hlength : before.length < 4
      · exact mayLeave_of_plain_opener hwhole hplain hlength hleave
      · obtain ⟨later, rfl, hlater⟩ := @exists_append_of_length_le rest before _
          ['<', '!', '-', '-'] hwhole (Nat.not_lt.mp hlength)
        rw [← hlater] at hplain
        have hword : NotAbrupt (later ++ [first, second, third, fourth]) := by
          apply @NotAbrupt.of_append _ text
          simpa using hplain
        simp only [List.cons_append, List.nil_append] at hleave
        rw [hword.opener] at hleave
        exact ih hleave hlater
  | case4 rest ih =>
      rw [commentMarkers]
      by_cases hlength : before.length < 3
      · exact mayLeave_of_plain_closer hwhole hlength hleave
      · obtain ⟨later, rfl, hlater⟩ := @exists_append_of_length_le rest before _
          ['-', '-', '>'] hwhole (Nat.not_lt.mp hlength)
        simp only [List.cons_append, List.nil_append, commentMarkers] at hleave
        exact ih hleave hlater
  | case5 head rest hshort hlong hopener hcloser ih =>
      cases before with
      | nil =>
          rw [← hwhole]
          exact mayLeave_four hleave
      | cons leading later =>
          simp only [List.cons_append, List.cons.injEq] at hwhole
          obtain ⟨rfl, rfl⟩ := hwhole
          have hskip : NoMarkerAt leading
              (later ++ first :: second :: third :: fourth :: text) :=
            ⟨hshort, hlong, hopener, hcloser⟩
          have hword : NoMarkerAt leading (later ++ [first, second, third, fourth]) := by
            apply @NoMarkerAt.of_append leading _ text
            simpa using hskip
          rw [hskip.skip]
          rw [List.cons_append, hword.skip] at hleave
          exact ih hleave rfl
  | case6 => simp at hwhole

end Reread

/-! ## Every cutting of a text -/

theorem mayLeave_of_short (hlength : word.length ≤ 4)
    (hleave : MayLeave (openAfterMarkers commentOpen (commentMarkers word))
      (commentMarkers (word ++ text)) last) :
    MayLeave commentOpen (commentMarkers (word ++ text)) last := by
  match word with
  | [] => exact hleave
  | [_] =>
      rw [commentMarkers_one] at hleave
      exact hleave
  | [_, _] =>
      rw [commentMarkers_two] at hleave
      exact hleave
  | [_, _, _] => exact mayLeave_three hleave
  | [_, _, _, _] => exact mayLeave_four hleave
  | _ :: _ :: _ :: _ :: _ :: _ =>
      simp only [List.length_cons] at hlength
      omega

/-- A cut of the text only adds to the flags that it may leave. -/
theorem mayLeave_lastFour (hleave : MayLeave (commentOpenAfter commentOpen word)
    (commentMarkers (lastFour word ++ text)) last) :
    MayLeave commentOpen (commentMarkers (word ++ text)) last := by
  rw [commentOpenAfter_eq] at hleave
  by_cases hlength : word.length ≤ 4
  · have hall : lastFour word = word := by
      rw [lastFour, Nat.sub_eq_zero_of_le hlength, List.drop_zero]
    rw [hall] at hleave
    exact mayLeave_of_short hlength hleave
  · have htail : (lastFour word).length = 4 := by
      rw [lastFour, List.length_drop]
      omega
    have hsplit : word.take (word.length - 4) ++ lastFour word = word :=
      List.take_append_drop _ _
    generalize lastFour word = tail at htail hsplit hleave
    match tail with
    | [first, second, third, fourth] =>
        rw [← hsplit] at hleave ⊢
        rw [List.append_assoc]
        exact mayLeave_of_reread hleave

theorem mayLeave_trackChunks (tracker : CommentTracker) (first : Text) (chunks : List Text) :
    MayLeave tracker.commentOpen
      (commentMarkers (tracker.markupTail ++ (first :: chunks).flatten))
      (tracker.trackChunks (first :: chunks)).commentOpen := by
  induction chunks generalizing tracker first with
  | nil =>
      have hwhole := mayLeave_openAfterMarkers tracker.commentOpen
        (commentMarkers (tracker.markupTail ++ first))
      rw [← commentOpenAfter_eq] at hwhole
      rw [List.flatten_cons, List.flatten_nil, List.append_nil]
      exact hwhole
  | cons second chunks ih =>
      have hcut := mayLeave_lastFour (ih (tracker.trackUnterminatedComment first) second)
      rw [List.append_assoc] at hcut
      exact hcut

/-- The last marker is plain, or an abrupt comment directly after a plain opener. -/
def SettledMarkers (markers : List CommentMarker) : Prop :=
  markers.getLast? ≠ some .abrupt ∨ [.opener, .abrupt] <:+ markers

instance (markers : List CommentMarker) : Decidable (SettledMarkers markers) := by
  unfold SettledMarkers
  infer_instance

theorem mayLeave_plain {marker : CommentMarker} (hplain : marker ≠ .abrupt)
    (hleave : MayLeave commentOpen (markers ++ [marker]) last) : last = (marker = .opener) := by
  obtain ⟨middle, _, hmarker⟩ := mayLeave_append.mp hleave
  cases marker with
  | opener => simpa [MayLeave] using hmarker.symm
  | closer => simpa [MayLeave] using hmarker.symm
  | abrupt => exact absurd rfl hplain

theorem openAfterMarkers_append {first second : List CommentMarker} :
    openAfterMarkers commentOpen (first ++ second) =
      openAfterMarkers (openAfterMarkers commentOpen first) second :=
  List.foldl_append

/-- Settled markers leave one flag only. -/
theorem SettledMarkers.unique (hsettled : SettledMarkers markers)
    (hleave : MayLeave false markers last) : last = openAfterMarkers false markers := by
  cases hsettled with
  | inl hplain =>
      cases markers using List.reverseRecOn with
      | nil => exact hleave.symm
      | append_singleton markers marker =>
          rw [List.getLast?_concat, ne_eq, Option.some.injEq] at hplain
          rw [Bool.eq_iff_iff, ← eq_iff_iff, mayLeave_plain hplain hleave,
            mayLeave_plain hplain (mayLeave_openAfterMarkers _ _)]
  | inr habrupt =>
      obtain ⟨markers, rfl⟩ := habrupt
      obtain ⟨middle, _, hmarkers⟩ := mayLeave_append.mp hleave
      rw [openAfterMarkers_append]
      simpa [MayLeave, openAfterMarkers, CommentMarker.openAfter] using hmarkers.symm

/-- The two spellings of an abrupt comment. -/
def AbruptComment (comment : Text) : Prop :=
  comment = ['<', '!', '-', '-', '>'] ∨ comment = ['<', '!', '-', '-', '-', '>']

theorem AbruptComment.isMarker {comment : Text} (hcomment : AbruptComment comment) (rest : Text) :
    commentMarkers (comment ++ rest) = .abrupt :: commentMarkers rest := by
  cases hcomment with
  | inl hshort =>
      rw [hshort]
      exact commentMarkers.eq_1 rest
  | inr hlong =>
      rw [hlong]
      exact commentMarkers.eq_2 rest

theorem lastFour_append (before : Text) {tail : Text} (hlength : 4 ≤ tail.length) :
    lastFour (before ++ tail) = lastFour tail := by
  rw [lastFour, lastFour, List.length_append, Nat.add_sub_assoc hlength, List.drop_append,
    List.drop_eq_nil_of_le (Nat.le_add_right ..), List.nil_append, Nat.add_sub_cancel_left]

/-- The tail behind an abrupt comment is read again as a closer. -/
theorem AbruptComment.reread {comment : Text} (hcomment : AbruptComment comment)
    (before rest : Text) :
    commentMarkers (lastFour (before ++ comment) ++ rest) = .closer :: commentMarkers rest := by
  cases hcomment with
  | inl hshort =>
      rw [hshort, lastFour_append before (by simp)]
      exact (commentMarkers_bang _).trans (commentMarkers.eq_4 rest)
  | inr hlong =>
      rw [hlong, lastFour_append before (by simp)]
      have htail : commentMarkers ('-' :: '-' :: '-' :: '>' :: rest) =
          commentMarkers ('-' :: '-' :: '>' :: rest) := by
        apply commentMarkers.eq_5 <;> simp
      exact htail.trans (commentMarkers.eq_4 rest)

/-- The text around an abrupt comment among its markers. -/
theorem exists_abrupt {before after : List CommentMarker}
    (hmarkers : commentMarkers text = before ++ .abrupt :: after) :
    ∃ word comment rest, AbruptComment comment ∧ text = word ++ comment ++ rest ∧
      commentMarkers (word ++ comment) = before ++ [.abrupt] ∧ commentMarkers rest = after := by
  have hfirst : ∀ {comment rest : Text}, AbruptComment comment → ∀ {after},
      commentMarkers rest = after →
        ∃ word found later, AbruptComment found ∧ comment ++ rest = word ++ found ++ later ∧
          commentMarkers (word ++ found) = [] ++ [.abrupt] ∧ commentMarkers later = after := by
    intro comment rest hcomment after hrest
    refine ⟨[], comment, rest, hcomment, rfl, ?_, hrest⟩
    have hmarker := hcomment.isMarker []
    rw [List.append_nil] at hmarker
    exact hmarker
  induction text using commentMarkers.induct generalizing before with
  | case1 rest ih =>
      rw [commentMarkers] at hmarkers
      cases before with
      | nil => exact hfirst (.inl rfl) (List.cons.inj hmarkers).2
      | cons marker before =>
          obtain ⟨rfl, hrest⟩ := List.cons.inj hmarkers
          obtain ⟨word, comment, later, hcomment, rfl, hword, hlater⟩ := ih hrest
          refine ⟨'<' :: '!' :: '-' :: '-' :: '>' :: word, comment, later, hcomment, rfl, ?_,
            hlater⟩
          simp only [List.cons_append, commentMarkers, hword]
  | case2 rest ih =>
      rw [commentMarkers] at hmarkers
      cases before with
      | nil => exact hfirst (.inr rfl) (List.cons.inj hmarkers).2
      | cons marker before =>
          obtain ⟨rfl, hrest⟩ := List.cons.inj hmarkers
          obtain ⟨word, comment, later, hcomment, rfl, hword, hlater⟩ := ih hrest
          refine ⟨'<' :: '!' :: '-' :: '-' :: '-' :: '>' :: word, comment, later, hcomment, rfl,
            ?_, hlater⟩
          simp only [List.cons_append, commentMarkers, hword]
  | case3 rest hshort hlong ih =>
      have hplain : NotAbrupt rest := ⟨hshort, hlong⟩
      rw [hplain.opener] at hmarkers
      cases before with
      | nil => cases (List.cons.inj hmarkers).1
      | cons marker before =>
          obtain ⟨rfl, hrest⟩ := List.cons.inj hmarkers
          obtain ⟨word, comment, later, hcomment, rfl, hword, hlater⟩ := ih hrest
          refine ⟨'<' :: '!' :: '-' :: '-' :: word, comment, later, hcomment, rfl, ?_, hlater⟩
          rw [List.cons_append, List.cons_append, List.cons_append, List.cons_append,
            hplain.of_append.opener, hword, List.cons_append]
  | case4 rest ih =>
      rw [commentMarkers] at hmarkers
      cases before with
      | nil => cases (List.cons.inj hmarkers).1
      | cons marker before =>
          obtain ⟨rfl, hrest⟩ := List.cons.inj hmarkers
          obtain ⟨word, comment, later, hcomment, rfl, hword, hlater⟩ := ih hrest
          refine ⟨'-' :: '-' :: '>' :: word, comment, later, hcomment, rfl, ?_, hlater⟩
          simp only [List.cons_append, commentMarkers, hword]
  | case5 head rest hshort hlong hopener hcloser ih =>
      have hskip : NoMarkerAt head rest := ⟨hshort, hlong, hopener, hcloser⟩
      rw [hskip.skip] at hmarkers
      obtain ⟨word, comment, later, hcomment, rfl, hword, hlater⟩ := ih hmarkers
      refine ⟨head :: word, comment, later, hcomment, rfl, ?_, hlater⟩
      rw [List.cons_append, hskip.of_append.skip, hword]
  | case6 => simp [commentMarkers] at hmarkers

/-- A cut right behind an abrupt comment that closes it. -/
theorem cut_closes {before after : List CommentMarker}
    (hmarkers : commentMarkers text = before ++ .abrupt :: after)
    (hclosed : openAfterMarkers false before = false) :
    ∃ chunks : List Text, chunks.flatten = text ∧
      (CommentTracker.initial.trackChunks chunks).commentOpen = openAfterMarkers false after := by
  obtain ⟨word, comment, rest, hcomment, rfl, hword, hrest⟩ := exists_abrupt hmarkers
  refine ⟨[word ++ comment, rest], by simp, ?_⟩
  have hopen : commentOpenAfter false (word ++ comment) = true := by
    rw [commentOpenAfter_eq, hword, openAfterMarkers_append, hclosed]
    rfl
  have hfirst : CommentTracker.initial.trackUnterminatedComment (word ++ comment) =
      ⟨true, lastFour (word ++ comment)⟩ :=
    congrArg (fun flag => CommentTracker.mk flag (lastFour (word ++ comment))) hopen
  show ((CommentTracker.initial.trackUnterminatedComment
    (word ++ comment)).trackUnterminatedComment rest).commentOpen = _
  rw [hfirst, CommentTracker.trackUnterminatedComment, commentOpenAfter_eq, hcomment.reread,
    hrest]
  rfl

/-- The flag at the end does not depend on how the text is cut into chunks. -/
def CutFree (text : Text) : Prop :=
  ∀ chunks : List Text, chunks.flatten = text →
    (CommentTracker.initial.trackChunks chunks).commentOpen =
      (CommentTracker.initial.trackChunks [text]).commentOpen

theorem trackChunks_whole (text : Text) :
    (CommentTracker.initial.trackChunks [text]).commentOpen =
      openAfterMarkers false (commentMarkers text) :=
  commentOpenAfter_eq false text

/-- Cuts do not matter exactly when the markers of the text are settled. -/
theorem comment_tracking_cutFree_iff (text : Text) :
    CutFree text ↔ SettledMarkers (commentMarkers text) := by
  constructor
  · intro hfree
    by_contra hunsettled
    rw [SettledMarkers, not_or, ne_eq, not_not] at hunsettled
    obtain ⟨hlast, hopener⟩ := hunsettled
    obtain ⟨markers, hmarkers⟩ := List.getLast?_eq_some_iff.mp hlast
    have hflag : openAfterMarkers false (commentMarkers text) =
        !openAfterMarkers false markers := by
      rw [hmarkers, openAfterMarkers_append]
      rfl
    cases hbefore : openAfterMarkers false markers with
    | false =>
        obtain ⟨chunks, hflatten, hclosed⟩ := cut_closes hmarkers hbefore
        have hsame := hfree chunks hflatten
        rw [trackChunks_whole, hflag, hbefore, hclosed] at hsame
        cases hsame
    | true =>
        cases markers using List.reverseRecOn with
        | nil => cases hbefore
        | append_singleton markers marker =>
            rw [openAfterMarkers_append] at hbefore
            cases marker with
            | opener =>
                apply hopener
                rw [hmarkers]
                exact ⟨markers, by simp⟩
            | closer => cases hbefore
            | abrupt =>
                have hclosed : openAfterMarkers false markers = false := by
                  simpa [openAfterMarkers, CommentMarker.openAfter] using hbefore
                rw [List.append_assoc] at hmarkers
                obtain ⟨chunks, hflatten, hopen⟩ := cut_closes hmarkers hclosed
                have hsame := hfree chunks hflatten
                rw [trackChunks_whole, hmarkers, openAfterMarkers_append, hclosed, hopen] at hsame
                cases hsame
  · intro hsettled chunks hflatten
    rw [trackChunks_whole]
    cases chunks with
    | nil =>
        rw [← hflatten]
        rfl
    | cons first chunks =>
        have hleave := mayLeave_trackChunks .initial first chunks
        rw [hflatten] at hleave
        exact hsettled.unique hleave

/-- The two chunks `<!--` and `>` close the comment that `<!-->` leaves open. -/
theorem abrupt_comment_depends_on_chunks : ¬ CutFree "<!-->".toList := by
  intro hfree
  have hsame := hfree ["<!--".toList, ">".toList] (by decide)
  exact absurd hsame (by decide)

end Agora
