import Agora.CodeSeams
import Agora.ReferenceDelivery

/-!
# Inline texts that are inspected one after another

The tails that the validator keeps are not tied to an element.  Texts are inspected as if
each stood alone as long as no characters of one combine with those of an earlier one of
its language; where they do, a call is formed or hidden that is in neither text.
-/

namespace Agora

/-! ## Outcomes that combine -/

section Unions

variable {ε α : Type}

/-- The whole is accepted if all parts are, and then it records what the parts record. -/
structure IsUnion (whole : Except ε (List α)) (parts : List (Except ε (List α))) : Prop where
  accepted : whole.isOk = true ↔ ∀ part ∈ parts, part.isOk = true
  recorded : ∀ all, whole = .ok all →
    ∀ a, a ∈ all ↔ ∃ part ∈ parts, ∃ own, part = .ok own ∧ a ∈ own

theorem IsUnion.single (part : Except ε (List α)) : IsUnion part [part] := by
  constructor
  · simp
  · intro all hall a
    simp [hall]

theorem isOk_iff {outcome : Except ε α} : outcome.isOk = true ↔ ∃ a, outcome = .ok a := by
  cases outcome with
  | error issue => simp [Except.isOk, Except.toBool]
  | ok a => simp [Except.isOk, Except.toBool]

/-- What an outcome depends on, and what it records. -/
structure Yields (outcome : Except ε (List α)) (accepts : Prop) (records : α → Prop) : Prop where
  accepted : outcome.isOk = true ↔ accepts
  recorded : ∀ all, outcome = .ok all → ∀ a, a ∈ all ↔ records a

theorem Yields.mono {outcome : Except ε (List α)} {accepts other : Prop} {records found : α → Prop}
    (hyields : Yields outcome accepts records) (haccepts : accepts ↔ other)
    (hrecords : accepts → ∀ a, records a ↔ found a) : Yields outcome other found := by
  refine ⟨hyields.accepted.trans haccepts, fun all hall a => ?_⟩
  have hok : outcome.isOk = true := by
    rw [hall]
    rfl
  exact (hyields.recorded all hall a).trans (hrecords (hyields.accepted.mp hok) a)

theorem Yields.isUnion {whole first second : Except ε (List α)} {accepts earlier later : Prop}
    {records own other : α → Prop} (hwhole : Yields whole accepts records)
    (hfirst : Yields first earlier own) (hsecond : Yields second later other)
    (haccepts : accepts ↔ earlier ∧ later)
    (hrecords : accepts → ∀ a, records a ↔ own a ∨ other a) : IsUnion whole [first, second] := by
  constructor
  · rw [hwhole.accepted, haccepts, List.forall_mem_cons, List.forall_mem_singleton,
      hfirst.accepted, hsecond.accepted]
  · intro all hall a
    have hok : whole.isOk = true := by
      rw [hall]
      rfl
    have hparts := hwhole.accepted.mp hok
    obtain ⟨hearlier, hlater⟩ := haccepts.mp hparts
    obtain ⟨found, hfound⟩ := isOk_iff.mp (hfirst.accepted.mpr hearlier)
    obtain ⟨rest, hrest⟩ := isOk_iff.mp (hsecond.accepted.mpr hlater)
    rw [hwhole.recorded all hall, hrecords hparts, ← hfirst.recorded found hfound,
      ← hsecond.recorded rest hrest]
    simp [hfound, hrest]

/-- The first part may itself be taken apart. -/
theorem IsUnion.split {whole first second part : Except ε (List α)}
    {parts : List (Except ε (List α))} (hwhole : IsUnion whole (part :: parts))
    (hpart : IsUnion part [first, second]) : IsUnion whole (first :: second :: parts) := by
  constructor
  · rw [hwhole.accepted, List.forall_mem_cons, hpart.accepted]
    simp [and_assoc]
  · intro all hall a
    have hok : ∀ found ∈ part :: parts, found.isOk = true := by
      rw [← hwhole.accepted, hall]
      rfl
    cases part with
    | error issue => cases hok _ List.mem_cons_self
    | ok own =>
        have hown := hpart.recorded own rfl a
        rw [hwhole.recorded all hall]
        simp only [List.mem_cons, List.not_mem_nil, or_false, exists_eq_or_imp, exists_eq_left,
          Except.ok.injEq, exists_eq_left'] at hown ⊢
        rw [hown, or_assoc]

/-- A whole that is refused together with one of its parts. -/
theorem IsUnion.refused {issue : ε} {parts : List (Except ε (List α))}
    (hpart : ∃ part ∈ parts, part.isOk = false) : IsUnion (.error issue) parts := by
  constructor
  · constructor
    · intro hok
      cases hok
    · intro hparts
      obtain ⟨part, hmem, hfailed⟩ := hpart
      rw [hparts part hmem] at hfailed
      cases hfailed
  · intro all hall
    cases hall

end Unions

/-! ## One text after another -/

/-- The text of a script, of a handler or of a style, as one event or attribute delivers it. -/
structure InlineText where
  text : Text
  css : Bool
  deriving DecidableEq, Repr

/-- The texts of one language. -/
def textsOf (css : Bool) (texts : List InlineText) : List Text :=
  (texts.filter fun inline => inline.css = css).map InlineText.text

section Sequences

variable (tables : UploadTables) (context : PackageContext)

/-- The inspection of inline texts, followed by the end of the document. -/
def inspectTexts (state : CodeInspection) : List InlineText → Except UploadIssue (List Text)
  | [] => state.finish tables context
  | inline :: rest => do
      let inspected ← state.inspectCode tables context inline.text inline.css
      inspectTexts inspected rest

/-- What one text records, apart from the others. -/
def InlineText.alone (inline : InlineText) : Except UploadIssue (List Text) :=
  inspectTexts tables context .initial [inline]

variable {tables context} {state : CodeInspection} {text : Text}

theorem finish_ok_iff {all : List Text} : state.finish tables context = .ok all ↔
    ∃ next, state.css.inspect tables context state.css.tail = .ok next ∧
      all = state.references ++ next.references := by
  simp only [CodeInspection.finish, CssValidator.finish, bind_eq_ok_iff, Except.ok.injEq]
  constructor
  · rintro ⟨found, ⟨next, hnext, rfl⟩, rfl⟩
    exact ⟨next, hnext, rfl⟩
  · rintro ⟨next, hnext, rfl⟩
    exact ⟨_, ⟨next, hnext, rfl⟩, rfl⟩

/-- The end of the document searches the kept end of the styles. -/
theorem finish_yields : Yields (state.finish tables context)
    (AcceptsStyle tables context state.css.tail) fun reference =>
      reference ∈ state.references ∨ reference ∈ state.css.references ∨
        RecordsStyle tables context state.css.tail reference := by
  constructor
  · rw [isOk_iff]
    constructor
    · rintro ⟨all, hall⟩
      obtain ⟨next, hnext, _⟩ := finish_ok_iff.mp hall
      exact (inspect_ok_iff.mp hnext).1
    · intro haccepts
      exact ⟨_, finish_ok_iff.mpr ⟨_, inspect_ok_iff.mpr ⟨haccepts, rfl⟩, rfl⟩⟩
  · intro all hall reference
    obtain ⟨next, hnext, rfl⟩ := finish_ok_iff.mp hall
    rw [List.mem_append, mem_inspect hnext]

theorem inspectCode_script_ok_iff {next : CodeInspection} :
    state.inspectCode tables context text false = .ok next ↔
      ∃ references, inspectScriptText tables context state.references
          (state.scriptTail ++ text) = .ok references ∧
        next = { state with
          references := references
          scriptTail := lastCharacters (state.scriptTail ++ text) } := by
  simp only [CodeInspection.inspectCode, Bool.false_eq_true, if_false, bind_eq_ok_iff,
    Except.ok.injEq]
  exact exists_congr fun references => and_congr_right fun _ => eq_comm

theorem script_yields :
    Yields (state.inspectCode tables context text false >>= CodeInspection.finish tables context)
      (AcceptsScript tables context (state.scriptTail ++ text) ∧
        AcceptsStyle tables context state.css.tail) fun reference =>
      (reference ∈ state.references ∨
        RecordsScript tables context (state.scriptTail ++ text) reference) ∨
        reference ∈ state.css.references ∨
          RecordsStyle tables context state.css.tail reference := by
  constructor
  · rw [isOk_iff]
    constructor
    · rintro ⟨all, hall⟩
      obtain ⟨next, hnext, hfinish⟩ := bind_eq_ok_iff.mp hall
      obtain ⟨references, hscript, rfl⟩ := inspectCode_script_ok_iff.mp hnext
      have hstyle := finish_yields.accepted.mp (isOk_iff.mpr ⟨all, hfinish⟩)
      exact ⟨(inspectScriptText_ok_iff.mp hscript).1, hstyle⟩
    · rintro ⟨hscript, hstyle⟩
      obtain ⟨next, hnext, hcss⟩ : ∃ next,
          state.inspectCode tables context text false = .ok next ∧ next.css = state.css :=
        ⟨_, inspectCode_script_ok_iff.mpr
          ⟨_, inspectScriptText_ok_iff.mpr ⟨hscript, rfl⟩, rfl⟩, rfl⟩
      rw [← hcss] at hstyle
      obtain ⟨all, hall⟩ := isOk_iff.mp (finish_yields.accepted.mpr hstyle)
      exact ⟨all, bind_eq_ok_iff.mpr ⟨next, hnext, hall⟩⟩
  · intro all hall reference
    obtain ⟨next, hnext, hfinish⟩ := bind_eq_ok_iff.mp hall
    obtain ⟨references, hscript, rfl⟩ := inspectCode_script_ok_iff.mp hnext
    rw [finish_yields.recorded all hfinish, mem_inspectScriptText hscript]

theorem inspectCode_style_ok_iff {next : CodeInspection} (hdata : text ≠ []) :
    state.inspectCode tables context text true = .ok next ↔
      ∃ css, state.css.inspect tables context (state.css.tail ++ text) = .ok css ∧
        next = { state with
          css := { css with tail := lastCharacters (state.css.tail ++ text) } } := by
  simp only [CodeInspection.inspectCode, if_true, CssValidator.feed, if_neg hdata, bind_eq_ok_iff,
    Except.ok.injEq]
  constructor
  · rintro ⟨fed, ⟨css, hcss, rfl⟩, rfl⟩
    exact ⟨css, hcss, rfl⟩
  · rintro ⟨css, hcss, rfl⟩
    exact ⟨_, ⟨css, hcss, rfl⟩, rfl⟩

/-- A style is searched behind the kept end, and then the new end is searched. -/
theorem style_yields (hdata : text ≠ []) :
    Yields (state.inspectCode tables context text true >>= CodeInspection.finish tables context)
      (AcceptsStyle tables context (state.css.tail ++ text) ∧
        AcceptsStyle tables context (lastCharacters (state.css.tail ++ text))) fun reference =>
      reference ∈ state.references ∨
        (reference ∈ state.css.references ∨
          RecordsStyle tables context (state.css.tail ++ text) reference) ∨
          RecordsStyle tables context (lastCharacters (state.css.tail ++ text)) reference := by
  constructor
  · rw [isOk_iff]
    constructor
    · rintro ⟨all, hall⟩
      obtain ⟨next, hnext, hfinish⟩ := bind_eq_ok_iff.mp hall
      obtain ⟨css, hcss, rfl⟩ := (inspectCode_style_ok_iff hdata).mp hnext
      have hend := finish_yields.accepted.mp (isOk_iff.mpr ⟨all, hfinish⟩)
      exact ⟨(inspect_ok_iff.mp hcss).1, hend⟩
    · rintro ⟨hstyle, hend⟩
      obtain ⟨next, hnext, htail⟩ : ∃ next,
          state.inspectCode tables context text true = .ok next ∧
            next.css.tail = lastCharacters (state.css.tail ++ text) :=
        ⟨_, (inspectCode_style_ok_iff hdata).mpr ⟨_, inspect_ok_iff.mpr ⟨hstyle, rfl⟩, rfl⟩, rfl⟩
      rw [← htail] at hend
      obtain ⟨all, hall⟩ := isOk_iff.mp (finish_yields.accepted.mpr hend)
      exact ⟨all, bind_eq_ok_iff.mpr ⟨next, hnext, hall⟩⟩
  · intro all hall reference
    obtain ⟨next, hnext, hfinish⟩ := bind_eq_ok_iff.mp hall
    obtain ⟨css, hcss, rfl⟩ := (inspectCode_style_ok_iff hdata).mp hnext
    rw [finish_yields.recorded all hfinish, mem_inspect hcss]

/-! ## Texts alone -/

theorem acceptsStyle_nil : AcceptsStyle tables context [] := by
  have haccept : CssValidator.initial.inspect tables context [] = .ok .initial := by
    rfl
  exact (inspect_ok_iff.mp haccept).1

theorem not_recordsStyle_nil {reference : Text} : ¬ RecordsStyle tables context [] reference := by
  rintro ⟨argument, hargument, _⟩
  cases hargument

theorem script_alone_yields :
    Yields (InlineText.alone tables context ⟨text, false⟩) (AcceptsScript tables context text)
      (RecordsScript tables context text) := by
  have hyields := @script_yields tables context .initial text
  refine hyields.mono (and_iff_left acceptsStyle_nil) fun _ reference => ?_
  simp [CodeInspection.initial, CssValidator.initial, not_recordsStyle_nil]

theorem style_alone_yields (hdata : text ≠ []) :
    Yields (InlineText.alone tables context ⟨text, true⟩)
      (AcceptsStyle tables context text ∧ AcceptsStyle tables context (lastCharacters text))
      fun reference => RecordsStyle tables context text reference ∨
        RecordsStyle tables context (lastCharacters text) reference := by
  have hyields := @style_yields tables context .initial text hdata
  refine hyields.mono Iff.rfl fun _ reference => ?_
  simp [CodeInspection.initial, CssValidator.initial]

/-! ## Runs -/

/-- The tails of a state are the ends of accepted texts, whose references it keeps. -/
structure Tracks (tables : UploadTables) (context : PackageContext) (state : CodeInspection)
    (script style : Text) : Prop where
  scriptTail : state.scriptTail = lastCharacters script
  scriptAccepted : AcceptsScript tables context script
  scriptKept : ∀ reference, RecordsScript tables context script reference →
    reference ∈ state.references
  styleTail : state.css.tail = lastCharacters style
  styleAccepted : AcceptsStyle tables context style
  styleKept : ∀ reference, RecordsStyle tables context style reference →
    reference ∈ state.css.references

variable {script style : Text} {next : CodeInspection}

/-- A script behind the scripts of a state. -/
theorem Tracks.script_isUnion (htracks : Tracks tables context state script style)
    (hcut : ScriptCut tables script) (hseam : ScriptSeam tables (lastCharacters script) text) :
    IsUnion (state.inspectCode tables context text false >>= CodeInspection.finish tables context)
      [state.finish tables context, InlineText.alone tables context ⟨text, false⟩] := by
  have htail := hcut.accepts htracks.scriptAccepted
  have hkept : ∀ reference, RecordsScript tables context (lastCharacters script) reference →
      reference ∈ state.references :=
    fun reference hrecords => htracks.scriptKept reference (hcut.records hrecords)
  have hwhole := @script_yields tables context state text
  rw [htracks.scriptTail] at hwhole
  refine hwhole.isUnion finish_yields script_alone_yields ?_ fun _ reference => ?_
  · rw [hseam.accepts_iff htail]
    exact and_comm
  · rw [hseam.records_iff htail]
    constructor
    · rintro ((hknown | hearlier | hlater) | hstyle)
      · exact .inl (.inl hknown)
      · exact .inl (.inl (hkept reference hearlier))
      · exact .inr hlater
      · exact .inl (.inr hstyle)
    · rintro ((hknown | hstyle) | hlater)
      · exact .inl (.inl hknown)
      · exact .inr hstyle
      · exact .inl (.inr (.inr hlater))

theorem Tracks.script_next (htracks : Tracks tables context state script style)
    (haccept : state.inspectCode tables context text false = .ok next) :
    Tracks tables context next (lastCharacters script ++ text) style := by
  obtain ⟨references, hscript, rfl⟩ := inspectCode_script_ok_iff.mp haccept
  rw [htracks.scriptTail] at hscript ⊢
  refine ⟨rfl, (inspectScriptText_ok_iff.mp hscript).1, fun reference hrecords => ?_,
    htracks.styleTail, htracks.styleAccepted, htracks.styleKept⟩
  exact (mem_inspectScriptText hscript).mpr (.inr hrecords)

theorem lastCharacters_of_le (hlength : text.length ≤ codeTailLength) :
    lastCharacters text = text := by
  rw [lastCharacters, List.take_of_length_le (by rwa [List.length_reverse]), List.reverse_reverse]

theorem lastCharacters_append {tail : Text} (hlength : codeTailLength ≤ text.length) :
    lastCharacters (tail ++ text) = lastCharacters text := by
  rw [lastCharacters, lastCharacters, List.reverse_append,
    List.take_append_of_le_length (by rwa [List.length_reverse])]

/-- The end of a joined style is accepted as the end of the later style is. -/
theorem StyleSeam.end_accepts_iff {tail : Text} (hseam : StyleSeam tables tail text)
    (htail : AcceptsStyle tables context tail)
    (hcut : text.length < codeTailLength → StyleCut tables (tail ++ text))
    (haccepts : AcceptsStyle tables context text) :
    AcceptsStyle tables context (lastCharacters (tail ++ text)) ↔
      AcceptsStyle tables context (lastCharacters text) := by
  by_cases hshort : text.length < codeTailLength
  · rw [lastCharacters_of_le hshort.le]
    exact iff_of_true ((hcut hshort).accepts ((hseam.accepts_iff htail).mpr haccepts)) haccepts
  · rw [lastCharacters_append (not_lt.mp hshort)]

theorem StyleSeam.end_records_iff {tail : Text} (hseam : StyleSeam tables tail text)
    (hcut : text.length < codeTailLength → StyleCut tables (tail ++ text)) (reference : Text) :
    (RecordsStyle tables context (tail ++ text) reference ∨
        RecordsStyle tables context (lastCharacters (tail ++ text)) reference) ↔
      RecordsStyle tables context tail reference ∨
        RecordsStyle tables context text reference ∨
          RecordsStyle tables context (lastCharacters text) reference := by
  by_cases hshort : text.length < codeTailLength
  · rw [lastCharacters_of_le hshort.le, or_self, ← hseam.records_iff]
    exact or_iff_left_of_imp (hcut hshort).records
  · rw [lastCharacters_append (not_lt.mp hshort), hseam.records_iff, or_assoc]

/-- A style behind the styles of a state. -/
theorem Tracks.style_isUnion (htracks : Tracks tables context state script style)
    (hdata : text ≠ []) (hcut : StyleCut tables style)
    (hseam : StyleSeam tables (lastCharacters style) text)
    (hend : text.length < codeTailLength → StyleCut tables (lastCharacters style ++ text)) :
    IsUnion (state.inspectCode tables context text true >>= CodeInspection.finish tables context)
      [state.finish tables context, InlineText.alone tables context ⟨text, true⟩] := by
  have htail := hcut.accepts htracks.styleAccepted
  have hkept : ∀ reference, RecordsStyle tables context (lastCharacters style) reference →
      reference ∈ state.css.references :=
    fun reference hrecords => htracks.styleKept reference (hcut.records hrecords)
  have hwhole := @style_yields tables context state text hdata
  have hfinish := @finish_yields tables context state
  rw [htracks.styleTail] at hwhole hfinish
  refine hwhole.isUnion hfinish (style_alone_yields hdata) ?_ fun _ reference => ?_
  · rw [hseam.accepts_iff htail, and_iff_right htail]
    exact and_congr_right (hseam.end_accepts_iff htail hend)
  · have hrecords := @StyleSeam.end_records_iff tables context text _ hseam hend reference
    rw [or_assoc (a := reference ∈ state.css.references), hrecords]
    constructor
    · rintro (hknown | hstyle | hearlier | hlater)
      · exact .inl (.inl hknown)
      · exact .inl (.inr (.inl hstyle))
      · exact .inl (.inr (.inl (hkept reference hearlier)))
      · exact .inr hlater
    · rintro ((hknown | hstyle | hearlier) | hlater)
      · exact .inl hknown
      · exact .inr (.inl hstyle)
      · exact .inr (.inr (.inl hearlier))
      · exact .inr (.inr (.inr hlater))

theorem Tracks.style_next (htracks : Tracks tables context state script style)
    (hdata : text ≠ []) (haccept : state.inspectCode tables context text true = .ok next) :
    Tracks tables context next script (lastCharacters style ++ text) := by
  obtain ⟨css, hstyle, rfl⟩ := (inspectCode_style_ok_iff hdata).mp haccept
  rw [htracks.styleTail] at hstyle ⊢
  refine ⟨htracks.scriptTail, htracks.scriptAccepted, htracks.scriptKept, rfl,
    (inspect_ok_iff.mp hstyle).1, fun reference hrecords => ?_⟩
  exact (mem_inspect hstyle).mpr (.inr hrecords)

/-- An empty style is skipped. -/
theorem inspectCode_style_nil : state.inspectCode tables context [] true = .ok state := by
  rfl

theorem style_isUnion_nil :
    IsUnion (state.inspectCode tables context [] true >>= CodeInspection.finish tables context)
      [state.finish tables context, InlineText.alone tables context ⟨[], true⟩] := by
  have halone : Yields (InlineText.alone tables context ⟨[], true⟩) True fun _ => False := by
    refine ⟨iff_true_intro rfl, fun all hall reference => ?_⟩
    have hnil : InlineText.alone tables context ⟨[], true⟩ = .ok [] := by
      rfl
    rw [hnil, Except.ok.injEq] at hall
    rw [← hall]
    exact iff_of_false List.not_mem_nil id
  rw [inspectCode_style_nil]
  exact finish_yields.isUnion finish_yields halone (and_iff_left trivial).symm
    fun _ reference => (or_iff_left id).symm

/-- The first text of a run, and what is known of the state behind it. -/
theorem Tracks.step {inline : InlineText} {rest : List InlineText}
    (htracks : Tracks tables context state script style)
    (hscripts : ScriptSeams tables script (textsOf false (inline :: rest)))
    (hstyles : StyleSeams tables style (textsOf true (inline :: rest))) :
    IsUnion (state.inspectCode tables context inline.text inline.css >>=
        CodeInspection.finish tables context)
      [state.finish tables context, inline.alone tables context] ∧
      ∀ next, state.inspectCode tables context inline.text inline.css = .ok next →
        ∃ laterScript laterStyle, Tracks tables context next laterScript laterStyle ∧
          ScriptSeams tables laterScript (textsOf false rest) ∧
            StyleSeams tables laterStyle (textsOf true rest) := by
  obtain ⟨text, css⟩ := inline
  cases css with
  | false =>
      obtain ⟨hcut, hseam, hlater⟩ := hscripts
      exact ⟨htracks.script_isUnion hcut hseam, fun next haccept =>
        ⟨_, _, htracks.script_next haccept, hlater, hstyles⟩⟩
  | true =>
      change StyleSeams tables style (text :: textsOf true rest) at hstyles
      rw [StyleSeams] at hstyles
      by_cases hempty : text = []
      · rw [if_pos hempty] at hstyles
        subst hempty
        refine ⟨style_isUnion_nil, fun next haccept => ?_⟩
        obtain rfl := Except.ok.inj haccept
        exact ⟨_, _, htracks, hscripts, hstyles⟩
      · rw [if_neg hempty] at hstyles
        obtain ⟨hcut, hseam, hend, hlater⟩ := hstyles
        exact ⟨htracks.style_isUnion hempty hcut hseam hend, fun next haccept =>
          ⟨_, _, htracks.style_next hempty haccept, hscripts, hlater⟩⟩

/-- A run from a state amounts to the end of the state and to each text alone. -/
theorem Tracks.isUnion {texts : List InlineText}
    (htracks : Tracks tables context state script style)
    (hscripts : ScriptSeams tables script (textsOf false texts))
    (hstyles : StyleSeams tables style (textsOf true texts)) :
    IsUnion (inspectTexts tables context state texts)
      (state.finish tables context :: texts.map (InlineText.alone tables context)) := by
  induction texts generalizing state script style with
  | nil => exact .single _
  | cons inline rest ih =>
      obtain ⟨hfirst, hnext⟩ := htracks.step hscripts hstyles
      rw [inspectTexts]
      cases hcode : state.inspectCode tables context inline.text inline.css with
      | error issue =>
          have hfailed : ¬ ∀ part ∈ [state.finish tables context, inline.alone tables context],
              part.isOk = true := by
            rw [← hfirst.accepted, hcode]
            exact Bool.false_ne_true
          push Not at hfailed
          obtain ⟨part, hmem, hpart⟩ := hfailed
          refine .refused ⟨part, ?_, Bool.eq_false_iff.mpr hpart⟩
          rw [List.mem_cons, List.mem_singleton] at hmem
          cases hmem with
          | inl hfinish => exact hfinish ▸ List.mem_cons_self
          | inr halone => exact halone ▸ List.mem_cons_of_mem _ List.mem_cons_self
      | ok next =>
          rw [hcode] at hfirst
          obtain ⟨laterScript, laterStyle, hlater, hrestScripts, hrestStyles⟩ := hnext next hcode
          exact (ih hlater hrestScripts hrestStyles).split hfirst

end Sequences

end Agora
