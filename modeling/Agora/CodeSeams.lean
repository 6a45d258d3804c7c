import Agora.CodeInspection
import Agora.PatternSearch

/-!
# The seams of inspected texts

A text is searched together with the end of the texts before it.  Its inspection adds to theirs
what it would find alone, as long as no match takes characters of both, none of the first
character depends on what stands before it, no data call is covered by an earlier literal, and
the end that is kept shows nothing that the texts did not show.
-/

namespace Agora

section Scripts

variable (tables : UploadTables) (context : PackageContext)

/-- The text that `lastCharacters` leaves out. -/
def droppedCharacters (text : Text) : Text :=
  text.take (text.length - codeTailLength)

/-- The patterns of which no match is allowed in a script. -/
def refusedInScripts : List TextPattern :=
  [externalUrlToken, dynamicNetwork]

/-- The patterns of the data calls with a literal argument. -/
def literalForms : List TextPattern :=
  [csvCall, csvTemplateCall]

/-- The patterns of all data calls. -/
def dataCallForms : List TextPattern :=
  [fetchCall, d3Csv]

/-- No characters of a script combine with those of the kept text before it. -/
structure ScriptSeam (tail text : Text) : Prop where
  unformed : ∀ pattern ∈ refusedInScripts, pattern.Unformed tables.isWord tail text
  uncrossed : ∀ pattern ∈ literalForms ++ dataCallForms,
    pattern.Uncrossed tables.isWord [] tail text
  starts : ∀ pattern ∈ refusedInScripts ++ literalForms ++ dataCallForms,
    pattern.StartsAlike tables.isWord tail text
  cover : ∀ pattern ∈ dataCallForms, ∀ call ∈ pattern.findAll tables.isWord text,
    isCovered (literalCalls tables text) call = false →
      isCovered (literalCalls tables tail) (call.prepend tail) = false

/-- The kept end of a text shows no match that the text does not show, and covers its calls. -/
structure ScriptCut (text : Text) : Prop where
  refused : ∀ pattern ∈ refusedInScripts,
    pattern.occursIn tables.isWord (lastCharacters text) = true →
      pattern.occursIn tables.isWord text = true
  shown : ∀ pattern ∈ literalForms ++ dataCallForms,
    ∀ found ∈ pattern.findAll tables.isWord (lastCharacters text),
      found.prepend (droppedCharacters text) ∈ pattern.findAll tables.isWord text
  cover : ∀ pattern ∈ dataCallForms,
    ∀ call ∈ pattern.findAll tables.isWord (lastCharacters text),
      isCovered (literalCalls tables text) (call.prepend (droppedCharacters text)) = true →
        isCovered (literalCalls tables (lastCharacters text)) call = true

instance (tail text : Text) : Decidable (ScriptSeam tables tail text) :=
  decidable_of_iff (_ ∧ _ ∧ _ ∧ _)
    ⟨fun ⟨hunformed, huncrossed, hstarts, hcover⟩ => ⟨hunformed, huncrossed, hstarts, hcover⟩,
      fun hseam => ⟨hseam.unformed, hseam.uncrossed, hseam.starts, hseam.cover⟩⟩

instance (text : Text) : Decidable (ScriptCut tables text) :=
  decidable_of_iff (_ ∧ _ ∧ _)
    ⟨fun ⟨hrefused, hshown, hcover⟩ => ⟨hrefused, hshown, hcover⟩,
      fun hcut => ⟨hcut.refused, hcut.shown, hcut.cover⟩⟩

/-- The scripts of a list do not combine, after an inspected text. -/
def ScriptSeams : Text → List Text → Prop
  | _, [] => True
  | inspected, text :: rest =>
      ScriptCut tables inspected ∧ ScriptSeam tables (lastCharacters inspected) text ∧
        ScriptSeams (lastCharacters inspected ++ text) rest

instance decidableScriptSeams : (inspected : Text) → (texts : List Text) →
    Decidable (ScriptSeams tables inspected texts)
  | _, [] => .isTrue trivial
  | inspected, text :: rest =>
      have := decidableScriptSeams (lastCharacters inspected ++ text) rest
      inferInstanceAs (Decidable (_ ∧ _ ∧ _))

/-- What the inspection of a script asks of it. -/
structure AcceptsScript (text : Text) : Prop where
  refused : ∀ pattern ∈ refusedInScripts, pattern.occursIn tables.isWord text = false
  literals : ∀ call ∈ literalCalls tables text,
    ∃ reference, inspectLiteralCall tables context call = .ok reference
  cover : ∀ pattern ∈ dataCallForms, ∀ call ∈ pattern.findAll tables.isWord text,
    isCovered (literalCalls tables text) call = true

/-- A script records a reference. -/
def RecordsScript (text reference : Text) : Prop :=
  ∃ call ∈ literalCalls tables text, inspectLiteralCall tables context call = .ok (some reference)

variable {tables context}

theorem inspectLiteralCalls_ok_iff {known own : List Text} {calls : List TextPattern.Found} :
    inspectLiteralCalls tables context known calls = .ok own ↔
      (∀ call ∈ calls, ∃ reference, inspectLiteralCall tables context call = .ok reference) ∧
        own = known ++ calls.flatMap fun call =>
          ((inspectLiteralCall tables context call).toOption.bind id).toList := by
  induction calls generalizing known with
  | nil => simp [inspectLiteralCalls, eq_comm]
  | cons call rest ih =>
      simp only [inspectLiteralCalls, bind_eq_ok_iff, ih, List.forall_mem_cons,
        List.flatMap_cons]
      cases inspectLiteralCall tables context call with
      | error issue => simp
      | ok reference => simp [Except.toOption]

theorem inspectCallCover_ok_iff {literals calls : List TextPattern.Found} {done : PUnit.{1}} :
    inspectCallCover tables context literals calls = .ok done ↔
      ∀ call ∈ calls, isCovered literals call = true := by
  induction calls with
  | nil => simp [inspectCallCover]
  | cons call rest ih => simp [inspectCallCover, bind_eq_ok_iff, ih]

/-- A script is accepted exactly when it meets the conditions, and then it records the references
of its literal calls. -/
theorem inspectScriptText_ok_iff {text : Text} {known own : List Text} :
    inspectScriptText tables context known text = .ok own ↔
      AcceptsScript tables context text ∧
        own = known ++ (literalCalls tables text).flatMap fun call =>
          ((inspectLiteralCall tables context call).toOption.bind id).toList := by
  simp only [inspectScriptText, bind_eq_ok_iff, refuse_eq_ok, inspectLiteralCalls_ok_iff,
    inspectCallCover_ok_iff, exists_const, Except.ok.injEq, Bool.not_eq_true]
  constructor
  · rintro ⟨hexternal, hnetwork, recorded, ⟨hliterals, rfl⟩, hfetch, hd3, rfl⟩
    refine ⟨⟨?_, hliterals, ?_⟩, rfl⟩
    · exact List.forall_mem_cons.mpr ⟨hexternal, List.forall_mem_singleton.mpr hnetwork⟩
    · exact List.forall_mem_cons.mpr ⟨hfetch, List.forall_mem_singleton.mpr hd3⟩
  · rintro ⟨haccepts, rfl⟩
    exact ⟨haccepts.refused _ List.mem_cons_self,
      haccepts.refused _ (List.mem_cons_of_mem _ List.mem_cons_self), _,
      ⟨haccepts.literals, rfl⟩, haccepts.cover _ List.mem_cons_self,
      haccepts.cover _ (List.mem_cons_of_mem _ List.mem_cons_self), rfl⟩

theorem mem_inspectScriptText {text reference : Text} {known own : List Text}
    (haccept : inspectScriptText tables context known text = .ok own) :
    reference ∈ own ↔ reference ∈ known ∨ RecordsScript tables context text reference := by
  obtain ⟨_, rfl⟩ := inspectScriptText_ok_iff.mp haccept
  rw [List.mem_append, List.mem_flatMap]
  apply or_congr_right
  apply exists_congr
  intro call
  apply and_congr_right
  intro _
  cases inspectLiteralCall tables context call with
  | error issue => simp [Except.toOption]
  | ok found => simp [Except.toOption]

theorem mem_literalCalls {text : Text} {call : TextPattern.Found} :
    call ∈ literalCalls tables text ↔
      ∃ pattern ∈ literalForms, call ∈ pattern.findAll tables.isWord text := by
  rw [literalCalls, List.mem_insertionSort, List.mem_append, literalForms, List.exists_mem_cons_iff,
    List.exists_mem_cons_iff]
  simp

/-! ## Patterns of scripts -/

theorem searched_forms : ∀ pattern ∈ literalForms ++ dataCallForms,
    pattern.leading = true ∧ pattern.consumes = true := by
  decide +kernel

variable {tail text : Text}

/-- The matches of the joined text are those of the two texts. -/
theorem ScriptSeam.findAll {pattern : TextPattern} (hseam : ScriptSeam tables tail text)
    (hpattern : pattern ∈ literalForms ++ dataCallForms) :
    pattern.findAll tables.isWord (tail ++ text) =
      (pattern.findAll tables.isWord tail).map (fun found => found.append text) ++
        (pattern.findAll tables.isWord text).map fun found => found.prepend tail := by
  obtain ⟨hleading, hconsumes⟩ := searched_forms pattern hpattern
  apply TextPattern.findAll_append hleading hconsumes (hseam.uncrossed pattern hpattern)
  apply hseam.starts
  rw [List.append_assoc]
  exact List.mem_append_right _ hpattern

theorem ScriptSeam.mem_findAll {pattern : TextPattern} {found : TextPattern.Found}
    (hseam : ScriptSeam tables tail text) (hpattern : pattern ∈ literalForms ++ dataCallForms) :
    found ∈ pattern.findAll tables.isWord (tail ++ text) ↔
      (∃ own ∈ pattern.findAll tables.isWord tail, own.append text = found) ∨
        ∃ own ∈ pattern.findAll tables.isWord text, own.prepend tail = found := by
  rw [hseam.findAll hpattern, List.mem_append, List.mem_map, List.mem_map]

theorem ScriptSeam.mem_literalCalls {call : TextPattern.Found}
    (hseam : ScriptSeam tables tail text) :
    call ∈ literalCalls tables (tail ++ text) ↔
      (∃ own ∈ literalCalls tables tail, own.append text = call) ∨
        ∃ own ∈ literalCalls tables text, own.prepend tail = call := by
  have hforms : ∀ pattern ∈ literalForms,
      (call ∈ pattern.findAll tables.isWord (tail ++ text) ↔
        (∃ own ∈ pattern.findAll tables.isWord tail, own.append text = call) ∨
          ∃ own ∈ pattern.findAll tables.isWord text, own.prepend tail = call) :=
    fun pattern hpattern => hseam.mem_findAll (List.mem_append_left _ hpattern)
  simp only [Agora.mem_literalCalls]
  constructor
  · rintro ⟨pattern, hpattern, hcall⟩
    obtain ⟨own, hown, rfl⟩ | ⟨own, hown, rfl⟩ := (hforms pattern hpattern).mp hcall
    · exact .inl ⟨own, ⟨pattern, hpattern, hown⟩, rfl⟩
    · exact .inr ⟨own, ⟨pattern, hpattern, hown⟩, rfl⟩
  · rintro (⟨own, ⟨pattern, hpattern, hown⟩, hcall⟩ | ⟨own, ⟨pattern, hpattern, hown⟩, hcall⟩)
    · exact ⟨pattern, hpattern, (hforms pattern hpattern).mpr (.inl ⟨own, hown, hcall⟩)⟩
    · exact ⟨pattern, hpattern, (hforms pattern hpattern).mpr (.inr ⟨own, hown, hcall⟩)⟩

/-- A literal call of the later text is checked as without the earlier one. -/
theorem inspectLiteralCall_prepend (call : TextPattern.Found) :
    inspectLiteralCall tables context (call.prepend tail) =
      inspectLiteralCall tables context call :=
  rfl

/-- More text does not undo the parenthesis or the comma behind a literal. -/
theorem matchesStart_append {source : Text}
    (hstart : matchesStart tables afterLiteral source = true) :
    matchesStart tables afterLiteral (source ++ text) = true := by
  have hforward : afterLiteral.forward = true := by
    decide +kernel
  have hends := @TextPattern.ends_append tables.isWord afterLiteral (.start source) text
    (.inl hforward)
  rw [matchesStart, TextPattern.matchAt, List.isSome_head?] at hstart ⊢
  intro hnil
  have hjoined : afterLiteral.ends tables.isWord ((TextPosition.start source).append text) = [] :=
    hnil
  rw [hjoined, List.filter_nil] at hends
  exact hstart (List.map_eq_nil_iff.mp hends.symm)

theorem inspectLiteralCall_append {call : TextPattern.Found} {reference : Option Text}
    (haccept : inspectLiteralCall tables context call = .ok reference) :
    inspectLiteralCall tables context (call.append text) = .ok reference := by
  simp only [inspectLiteralCall, bind_eq_ok_iff, refuse_eq_ok, exists_const,
    Bool.not_eq_false] at haccept ⊢
  exact ⟨matchesStart_append haccept.1, haccept.2⟩

theorem isCovered_iff {literals : List TextPattern.Found} {call : TextPattern.Found} :
    isCovered literals call = true ↔ ∃ literal ∈ literals,
      offsetOf literal.start ≤ offsetOf call.start ∧
        offsetOf call.start < offsetOf literal.start + codeTailLength := by
  simp [isCovered, List.any_eq_true]

theorem offsetOf_prepend (call : TextPattern.Found) :
    offsetOf (call.prepend tail).start = offsetOf call.start + tail.length := by
  simp [offsetOf, TextPattern.Found.prepend, TextPosition.prepend]

theorem mem_dataCallForms {pattern : TextPattern} (hpattern : pattern ∈ dataCallForms) :
    pattern ∈ literalForms ++ dataCallForms :=
  List.mem_append_right _ hpattern

/-- A data call of the later text is covered as without the earlier one. -/
theorem ScriptSeam.cover_prepend (hseam : ScriptSeam tables tail text) {pattern : TextPattern}
    (hpattern : pattern ∈ dataCallForms) {call : TextPattern.Found}
    (hcall : call ∈ pattern.findAll tables.isWord text) :
    isCovered (literalCalls tables (tail ++ text)) (call.prepend tail) = true ↔
      isCovered (literalCalls tables text) call = true := by
  constructor
  · intro hcovered
    by_contra hbare
    have hearlier := hseam.cover pattern hpattern call hcall (Bool.not_eq_true _ ▸ hbare)
    obtain ⟨literal, hliteral, hstart, hnear⟩ := isCovered_iff.mp hcovered
    obtain ⟨own, hown, rfl⟩ | ⟨own, hown, rfl⟩ := hseam.mem_literalCalls.mp hliteral
    · have hcovers := isCovered_iff.mpr ⟨own, hown, hstart, hnear⟩
      rw [hearlier] at hcovers
      cases hcovers
    · rw [offsetOf_prepend, offsetOf_prepend] at hstart hnear
      exact hbare (isCovered_iff.mpr ⟨own, hown, by omega, by omega⟩)
  · intro hcovered
    obtain ⟨literal, hliteral, hstart, hnear⟩ := isCovered_iff.mp hcovered
    refine isCovered_iff.mpr ⟨literal.prepend tail,
      hseam.mem_literalCalls.mpr (.inr ⟨literal, hliteral, rfl⟩), ?_, ?_⟩
    · rw [offsetOf_prepend, offsetOf_prepend]
      omega
    · rw [offsetOf_prepend, offsetOf_prepend]
      omega

/-- A covered data call of the earlier text stays covered. -/
theorem ScriptSeam.cover_append (hseam : ScriptSeam tables tail text) {call : TextPattern.Found}
    (hcovered : isCovered (literalCalls tables tail) call = true) :
    isCovered (literalCalls tables (tail ++ text)) (call.append text) = true := by
  obtain ⟨literal, hliteral, hstart, hnear⟩ := isCovered_iff.mp hcovered
  exact isCovered_iff.mpr ⟨literal.append text,
    hseam.mem_literalCalls.mpr (.inl ⟨literal, hliteral, rfl⟩), hstart, hnear⟩

/-- Behind an accepted text, a text is accepted as it is alone. -/
theorem ScriptSeam.accepts_iff (hseam : ScriptSeam tables tail text)
    (htail : AcceptsScript tables context tail) :
    AcceptsScript tables context (tail ++ text) ↔ AcceptsScript tables context text := by
  have hrefused : ∀ pattern ∈ refusedInScripts,
      (pattern.occursIn tables.isWord (tail ++ text) = false ↔
        pattern.occursIn tables.isWord text = false) := by
    intro pattern hpattern
    have hoccurs := TextPattern.occursIn_append (htail.refused pattern hpattern)
      (hseam.unformed pattern hpattern)
      (hseam.starts pattern (List.mem_append_left _ (List.mem_append_left _ hpattern)))
    rw [← Bool.not_eq_true, ← Bool.not_eq_true, hoccurs]
  constructor
  · intro hjoined
    refine ⟨fun pattern hpattern =>
        (hrefused pattern hpattern).mp (hjoined.refused pattern hpattern),
      fun call hcall => ?_, fun pattern hpattern call hcall => ?_⟩
    · rw [← @inspectLiteralCall_prepend tables context tail]
      exact hjoined.literals _ (hseam.mem_literalCalls.mpr (.inr ⟨call, hcall, rfl⟩))
    · apply (hseam.cover_prepend hpattern hcall).mp
      apply hjoined.cover pattern hpattern
      exact (hseam.mem_findAll (mem_dataCallForms hpattern)).mpr (.inr ⟨call, hcall, rfl⟩)
  · intro htext
    refine ⟨fun pattern hpattern =>
        (hrefused pattern hpattern).mpr (htext.refused pattern hpattern),
      fun call hcall => ?_, fun pattern hpattern call hcall => ?_⟩
    · obtain ⟨own, hown, rfl⟩ | ⟨own, hown, rfl⟩ := hseam.mem_literalCalls.mp hcall
      · obtain ⟨reference, haccept⟩ := htail.literals own hown
        exact ⟨reference, inspectLiteralCall_append haccept⟩
      · exact htext.literals own hown
    · obtain ⟨own, hown, rfl⟩ | ⟨own, hown, rfl⟩ :=
        (hseam.mem_findAll (mem_dataCallForms hpattern)).mp hcall
      · exact hseam.cover_append (htail.cover pattern hpattern own hown)
      · exact (hseam.cover_prepend hpattern hown).mpr (htext.cover pattern hpattern own hown)

/-- The joined text records what the two texts record. -/
theorem ScriptSeam.records_iff (hseam : ScriptSeam tables tail text)
    (htail : AcceptsScript tables context tail) (reference : Text) :
    RecordsScript tables context (tail ++ text) reference ↔
      RecordsScript tables context tail reference ∨
        RecordsScript tables context text reference := by
  constructor
  · rintro ⟨call, hcall, hrecords⟩
    obtain ⟨own, hown, rfl⟩ | ⟨own, hown, rfl⟩ := hseam.mem_literalCalls.mp hcall
    · obtain ⟨found, haccept⟩ := htail.literals own hown
      rw [inspectLiteralCall_append haccept] at hrecords
      exact .inl ⟨own, hown, haccept.trans hrecords⟩
    · exact .inr ⟨own, hown, hrecords⟩
  · rintro (⟨call, hcall, hrecords⟩ | ⟨call, hcall, hrecords⟩)
    · exact ⟨_, hseam.mem_literalCalls.mpr (.inl ⟨call, hcall, rfl⟩),
        inspectLiteralCall_append hrecords⟩
    · exact ⟨_, hseam.mem_literalCalls.mpr (.inr ⟨call, hcall, rfl⟩), hrecords⟩

theorem ScriptCut.mem_literalCalls (hcut : ScriptCut tables text) {call : TextPattern.Found}
    (hcall : call ∈ literalCalls tables (lastCharacters text)) :
    call.prepend (droppedCharacters text) ∈ literalCalls tables text := by
  obtain ⟨pattern, hpattern, hfound⟩ := Agora.mem_literalCalls.mp hcall
  exact Agora.mem_literalCalls.mpr
    ⟨pattern, hpattern, hcut.shown pattern (List.mem_append_left _ hpattern) call hfound⟩

/-- The kept end of an accepted text is accepted. -/
theorem ScriptCut.accepts (hcut : ScriptCut tables text)
    (haccepts : AcceptsScript tables context text) :
    AcceptsScript tables context (lastCharacters text) := by
  refine ⟨fun pattern hpattern => ?_, fun call hcall => ?_, fun pattern hpattern call hcall => ?_⟩
  · rw [← Bool.not_eq_true]
    intro hoccurs
    have hshown := hcut.refused pattern hpattern hoccurs
    rw [haccepts.refused pattern hpattern] at hshown
    cases hshown
  · have hshown := haccepts.literals _ (hcut.mem_literalCalls hcall)
    exact hshown
  · apply hcut.cover pattern hpattern call hcall
    apply haccepts.cover pattern hpattern
    exact hcut.shown pattern (mem_dataCallForms hpattern) call hcall

theorem ScriptCut.records (hcut : ScriptCut tables text) {reference : Text}
    (hrecords : RecordsScript tables context (lastCharacters text) reference) :
    RecordsScript tables context text reference := by
  obtain ⟨call, hcall, hfound⟩ := hrecords
  exact ⟨_, hcut.mem_literalCalls hcall, hfound⟩

end Scripts

section Styles

variable (tables : UploadTables) (context : PackageContext)

/-- The patterns of which no match is allowed in a style. -/
def refusedInStyles : List TextPattern :=
  [cssImport, externalUrlToken]

/-- No characters of a style combine with those of the kept text before it. -/
structure StyleSeam (tail text : Text) : Prop where
  splits : decodeCssEscapes (tail ++ text) = decodeCssEscapes tail ++ decodeCssEscapes text
  unformed : ∀ pattern ∈ refusedInStyles,
    pattern.Unformed tables.isWord (decodeCssEscapes tail) (decodeCssEscapes text)
  uncrossed : cssUrl.Uncrossed tables.isWord [] (decodeCssEscapes tail) (decodeCssEscapes text)
  starts : ∀ pattern ∈ cssUrl :: refusedInStyles,
    pattern.StartsAlike tables.isWord (decodeCssEscapes tail) (decodeCssEscapes text)

/-- The kept end of a style shows nothing that the style does not show. -/
structure StyleCut (text : Text) : Prop where
  refused : ∀ pattern ∈ refusedInStyles,
    pattern.occursIn tables.isWord (decodeCssEscapes (lastCharacters text)) = true →
      pattern.occursIn tables.isWord (decodeCssEscapes text) = true
  shown : ∀ argument ∈ cssUrlArguments tables (decodeCssEscapes (lastCharacters text)),
    argument ∈ cssUrlArguments tables (decodeCssEscapes text)

instance (tail text : Text) : Decidable (StyleSeam tables tail text) :=
  decidable_of_iff (_ ∧ _ ∧ _ ∧ _)
    ⟨fun ⟨hsplits, hunformed, huncrossed, hstarts⟩ => ⟨hsplits, hunformed, huncrossed, hstarts⟩,
      fun hseam => ⟨hseam.splits, hseam.unformed, hseam.uncrossed, hseam.starts⟩⟩

instance (text : Text) : Decidable (StyleCut tables text) :=
  decidable_of_iff (_ ∧ _)
    ⟨fun ⟨hrefused, hshown⟩ => ⟨hrefused, hshown⟩, fun hcut => ⟨hcut.refused, hcut.shown⟩⟩

/-- The styles of a list do not combine, after an inspected text.  An empty style is skipped, and
the end of a long one is searched alone as well. -/
def StyleSeams : Text → List Text → Prop
  | _, [] => True
  | inspected, text :: rest =>
      if text = [] then StyleSeams inspected rest
      else
        StyleCut tables inspected ∧ StyleSeam tables (lastCharacters inspected) text ∧
          (text.length < codeTailLength →
            StyleCut tables (lastCharacters inspected ++ text)) ∧
          StyleSeams (lastCharacters inspected ++ text) rest

instance decidableStyleSeams : (inspected : Text) → (texts : List Text) →
    Decidable (StyleSeams tables inspected texts)
  | _, [] => .isTrue trivial
  | inspected, text :: rest =>
      have := decidableStyleSeams inspected rest
      have := decidableStyleSeams (lastCharacters inspected ++ text) rest
      decidable_of_iff (if text = [] then _ else _) (iff_of_eq (StyleSeams.eq_2 ..).symm)

/-- What the inspection of a style asks of it. -/
structure AcceptsStyle (text : Text) : Prop where
  refused : ∀ pattern ∈ refusedInStyles,
    pattern.occursIn tables.isWord (decodeCssEscapes text) = false
  urls : ∀ argument ∈ cssUrlArguments tables (decodeCssEscapes text),
    ∃ reference, inspectCssUrl tables context argument = .ok reference

/-- A style records a reference. -/
def RecordsStyle (text reference : Text) : Prop :=
  ∃ argument ∈ cssUrlArguments tables (decodeCssEscapes text),
    inspectCssUrl tables context argument = .ok (some reference)

variable {tables context}

theorem inspectCssUrls_ok_iff {known own arguments : List Text} :
    inspectCssUrls tables context known arguments = .ok own ↔
      (∀ argument ∈ arguments, ∃ reference,
        inspectCssUrl tables context argument = .ok reference) ∧
        own = known ++ arguments.flatMap fun argument =>
          ((inspectCssUrl tables context argument).toOption.bind id).toList := by
  induction arguments generalizing known with
  | nil => simp [inspectCssUrls, eq_comm]
  | cons argument rest ih =>
      simp only [inspectCssUrls, bind_eq_ok_iff, ih, List.forall_mem_cons, List.flatMap_cons]
      cases inspectCssUrl tables context argument with
      | error issue => simp
      | ok reference => simp [Except.toOption]

/-- A style is accepted exactly when it meets the conditions, and then it records the references
of its URLs. -/
theorem inspect_ok_iff {state next : CssValidator} {text : Text} :
    state.inspect tables context text = .ok next ↔
      AcceptsStyle tables context text ∧
        next = { state with references := state.references ++
          (cssUrlArguments tables (decodeCssEscapes text)).flatMap fun argument =>
            ((inspectCssUrl tables context argument).toOption.bind id).toList } := by
  simp only [CssValidator.inspect, bind_eq_ok_iff, refuse_eq_ok, inspectCssUrls_ok_iff,
    exists_const, Except.ok.injEq, Bool.not_eq_true]
  constructor
  · rintro ⟨himport, hexternal, references, ⟨hurls, rfl⟩, rfl⟩
    refine ⟨⟨?_, hurls⟩, rfl⟩
    exact List.forall_mem_cons.mpr ⟨himport, List.forall_mem_singleton.mpr hexternal⟩
  · rintro ⟨haccepts, rfl⟩
    exact ⟨haccepts.refused _ List.mem_cons_self,
      haccepts.refused _ (List.mem_cons_of_mem _ List.mem_cons_self), _,
      ⟨haccepts.urls, rfl⟩, rfl⟩

theorem mem_inspect {state next : CssValidator} {text reference : Text}
    (haccept : state.inspect tables context text = .ok next) :
    reference ∈ next.references ↔
      reference ∈ state.references ∨ RecordsStyle tables context text reference := by
  obtain ⟨_, rfl⟩ := inspect_ok_iff.mp haccept
  rw [List.mem_append, List.mem_flatMap]
  apply or_congr_right
  apply exists_congr
  intro argument
  apply and_congr_right
  intro _
  cases inspectCssUrl tables context argument with
  | error issue => simp [Except.toOption]
  | ok found => simp [Except.toOption]

variable {tail text : Text}

theorem StyleSeam.arguments (hseam : StyleSeam tables tail text) :
    cssUrlArguments tables (decodeCssEscapes (tail ++ text)) =
      cssUrlArguments tables (decodeCssEscapes tail) ++
        cssUrlArguments tables (decodeCssEscapes text) := by
  have hleading : cssUrl.leading = true := by
    decide +kernel
  have hconsumes : cssUrl.consumes = true := by
    decide +kernel
  rw [hseam.splits, cssUrlArguments, TextPattern.findAll_append hleading hconsumes hseam.uncrossed
    (hseam.starts _ List.mem_cons_self), List.map_append, List.map_map, List.map_map]
  rfl

/-- Behind an accepted text, a style is accepted as it is alone. -/
theorem StyleSeam.accepts_iff (hseam : StyleSeam tables tail text)
    (htail : AcceptsStyle tables context tail) :
    AcceptsStyle tables context (tail ++ text) ↔ AcceptsStyle tables context text := by
  have hrefused : ∀ pattern ∈ refusedInStyles,
      (pattern.occursIn tables.isWord (decodeCssEscapes (tail ++ text)) = false ↔
        pattern.occursIn tables.isWord (decodeCssEscapes text) = false) := by
    intro pattern hpattern
    have hoccurs := TextPattern.occursIn_append (htail.refused pattern hpattern)
      (hseam.unformed pattern hpattern) (hseam.starts pattern (List.mem_cons_of_mem _ hpattern))
    rw [hseam.splits, ← Bool.not_eq_true, ← Bool.not_eq_true, hoccurs]
  constructor
  · intro hjoined
    refine ⟨fun pattern hpattern =>
        (hrefused pattern hpattern).mp (hjoined.refused pattern hpattern),
      fun argument hargument => hjoined.urls argument ?_⟩
    rw [hseam.arguments]
    exact List.mem_append_right _ hargument
  · intro htext
    refine ⟨fun pattern hpattern =>
        (hrefused pattern hpattern).mpr (htext.refused pattern hpattern),
      fun argument hargument => ?_⟩
    rw [hseam.arguments] at hargument
    cases List.mem_append.mp hargument with
    | inl hearlier => exact htail.urls argument hearlier
    | inr hlater => exact htext.urls argument hlater

theorem StyleSeam.records_iff (hseam : StyleSeam tables tail text) (reference : Text) :
    RecordsStyle tables context (tail ++ text) reference ↔
      RecordsStyle tables context tail reference ∨ RecordsStyle tables context text reference := by
  simp only [RecordsStyle, hseam.arguments, List.mem_append, or_and_right, exists_or]

/-- The kept end of an accepted style is accepted. -/
theorem StyleCut.accepts (hcut : StyleCut tables text)
    (haccepts : AcceptsStyle tables context text) :
    AcceptsStyle tables context (lastCharacters text) := by
  refine ⟨fun pattern hpattern => ?_, fun argument hargument =>
    haccepts.urls argument (hcut.shown argument hargument)⟩
  rw [← Bool.not_eq_true]
  intro hoccurs
  have hshown := hcut.refused pattern hpattern hoccurs
  rw [haccepts.refused pattern hpattern] at hshown
  cases hshown

theorem StyleCut.records (hcut : StyleCut tables text) {reference : Text}
    (hrecords : RecordsStyle tables context (lastCharacters text) reference) :
    RecordsStyle tables context text reference := by
  obtain ⟨argument, hargument, hfound⟩ := hrecords
  exact ⟨argument, hcut.shown argument hargument, hfound⟩

end Styles

end Agora
