import Agora.ServiceRuns
import Agora.UploadIssues

/-!
# The structure of accepted HTML

The handlers of the HTML validator keep a stack of open elements and a few flags.
What they accept is a document: blank text around one `html` element whose elements
are balanced, with at most one head before at most one body, within the limits.
The inspections of attributes and code are a parameter, since they only refuse more.
-/

namespace Agora

/-! ## Events and handlers -/

abbrev HtmlAttributes := List (Text × Option Text)

/-- The events of the parser; it leaves character and entity references to the browser. -/
inductive HtmlEvent where
  | startTag (tag : Text) (attributes : HtmlAttributes)
  | startEndTag (tag : Text) (attributes : HtmlAttributes)
  | endTag (tag : Text)
  | data (text : Text)
  | comment (text : Text)
  | reference (text : Text)
  | declaration (text : Text)
  | unknownDeclaration (text : Text)
  | processingInstruction (text : Text)
  deriving DecidableEq

/-- The inspections of a validator: of attributes, of inline code, and at the end. -/
structure HtmlInspections (σ ρ : Type) where
  validateAttributes : Text → HtmlAttributes → σ → Except UploadIssue σ
  inspectCode : Text → Bool → σ → Except UploadIssue σ
  finish : σ → Except UploadIssue ρ

/-- The open elements, innermost first, and the flags of `_HtmlValidator`. -/
structure HtmlValidator (σ : Type) where
  stack : List Text
  rootSeen : Bool
  rootClosed : Bool
  doctypeSeen : Bool
  headSeen : Bool
  bodySeen : Bool
  tokenCount : ℕ
  inspected : σ

/-- `_HTML_VOID_ELEMENTS`. -/
def htmlVoidElements : List Text :=
  ["area", "br", "col", "hr", "img", "input", "link", "meta", "param", "source", "track",
    "wbr"].map String.toList

/-- `_HTML_FORBIDDEN_ELEMENTS`. -/
def htmlForbiddenElements : List Text :=
  ["applet", "base", "embed", "frame", "frameset", "iframe", "object", "portal"].map
    String.toList

def htmlTag : Text := "html".toList
def headTag : Text := "head".toList
def bodyTag : Text := "body".toList

section Handlers

variable {σ ρ : Type} (tables : UnicodeTables) (limits : UploadLimits) (index : ℕ)
  (inspections : HtmlInspections σ ρ)

def htmlMalformed : UploadIssue :=
  ⟨.htmlMalformed, some index, none⟩

namespace HtmlValidator

def initial (inspected : σ) : HtmlValidator σ :=
  ⟨[], false, false, false, false, false, 0, inspected⟩

/-- `_token`. -/
def token (state : HtmlValidator σ) : Except UploadIssue (HtmlValidator σ) := do
  refuse (limits.maxHtmlTokens < state.tokenCount + 1) ⟨.htmlTooComplex, some index, none⟩
  pure { state with tokenCount := state.tokenCount + 1 }

/-- The root check of `_start_tag`. -/
def placeRoot (lowered : Text) (state : HtmlValidator σ) :
    Except UploadIssue (HtmlValidator σ) :=
  if state.stack = [] then do
    refuse (lowered ≠ htmlTag ∨ state.rootSeen = true ∨ state.rootClosed = true)
      (htmlMalformed index)
    pure { state with rootSeen := true }
  else do
    refuse (lowered = htmlTag) (htmlMalformed index)
    pure state

/-- The head check of `_start_tag`. -/
def placeHead (lowered : Text) (state : HtmlValidator σ) :
    Except UploadIssue (HtmlValidator σ) :=
  if lowered = headTag then do
    refuse (state.stack ≠ [htmlTag] ∨ state.headSeen = true ∨ state.bodySeen = true)
      (htmlMalformed index)
    pure { state with headSeen := true }
  else pure state

/-- The body check of `_start_tag`. -/
def placeBody (lowered : Text) (state : HtmlValidator σ) :
    Except UploadIssue (HtmlValidator σ) :=
  if lowered = bodyTag then do
    refuse (state.stack ≠ [htmlTag] ∨ state.bodySeen = true) (htmlMalformed index)
    pure { state with bodySeen := true }
  else pure state

/-- The end of `_start_tag`. -/
def openElement (lowered : Text) (selfClosing : Bool) (state : HtmlValidator σ) :
    Except UploadIssue (HtmlValidator σ) :=
  if lowered ∈ htmlVoidElements then pure state
  else do
    refuse (selfClosing = true) (htmlMalformed index)
    refuse (limits.maxHtmlNesting ≤ state.stack.length) ⟨.htmlTooComplex, some index, none⟩
    pure { state with stack := lowered :: state.stack }

/-- `_start_tag`. -/
def startTag (tag : Text) (attributes : HtmlAttributes) (selfClosing : Bool)
    (state : HtmlValidator σ) : Except UploadIssue (HtmlValidator σ) := do
  let state ← state.token limits index
  let lowered := tables.casefold tag
  refuse (lowered ∈ htmlForbiddenElements)
    ⟨.externalDependency, some index, some .htmlEmbeddedContent⟩
  refuse (lowered = "form".toList) ⟨.externalDependency, some index, some .htmlFormAction⟩
  let state ← state.placeRoot index lowered
  let state ← state.placeHead index lowered
  let state ← state.placeBody index lowered
  let inspected ← inspections.validateAttributes lowered attributes state.inspected
  openElement limits index lowered selfClosing { state with inspected := inspected }

/-- `handle_endtag`. -/
def handleEndtag (tag : Text) (state : HtmlValidator σ) :
    Except UploadIssue (HtmlValidator σ) := do
  let state ← state.token limits index
  let lowered := tables.casefold tag
  refuse (lowered ∈ htmlVoidElements ∨ state.stack.head? ≠ some lowered) (htmlMalformed index)
  pure { state with
    stack := state.stack.tail
    rootClosed := state.rootClosed || lowered == htmlTag }

/-- `handle_data`. -/
def handleData (text : Text) (state : HtmlValidator σ) :
    Except UploadIssue (HtmlValidator σ) :=
  if text = [] then pure state
  else
    match state.stack with
    | [] => do
        refuse (strip text ≠ []) (htmlMalformed index)
        pure state
    | element :: _ =>
        if element = "script".toList ∨ element = "style".toList then do
          let inspected ← inspections.inspectCode text (element = "style".toList) state.inspected
          pure { state with inspected := inspected }
        else do
          refuse ('<' ∈ text) (htmlMalformed index)
          pure state

/-- `handle_decl`. -/
def handleDecl (text : Text) (state : HtmlValidator σ) :
    Except UploadIssue (HtmlValidator σ) := do
  let state ← state.token limits index
  refuse (state.stack ≠ [] ∨ state.doctypeSeen = true ∨
      tables.casefold text ≠ "doctype html".toList) (htmlMalformed index)
  pure { state with doctypeSeen := true }

def handle (state : HtmlValidator σ) : HtmlEvent → Except UploadIssue (HtmlValidator σ)
  | .startTag tag attributes => state.startTag tables limits index inspections tag attributes false
  | .startEndTag tag attributes =>
      state.startTag tables limits index inspections tag attributes true
  | .endTag tag => state.handleEndtag tables limits index tag
  | .data text => state.handleData index inspections text
  | .comment _ | .reference _ => pure state
  | .declaration text => state.handleDecl tables limits index text
  | .unknownDeclaration _ => .error (htmlMalformed index)
  | .processingInstruction _ =>
      .error ⟨.externalDependency, some index, some .htmlProcessingInstruction⟩

def handleAll (state : HtmlValidator σ) (events : List HtmlEvent) :
    Except UploadIssue (HtmlValidator σ) :=
  events.foldlM (handle tables limits index inspections) state

/-- `finish`; the parser may end with unparsed text or inside a comment. -/
def finish (unfinished : Bool) (state : HtmlValidator σ) : Except UploadIssue ρ := do
  refuse (unfinished = true) (htmlMalformed index)
  refuse (state.rootSeen = false ∨ state.rootClosed = false ∨ state.stack ≠ [])
    (htmlMalformed index)
  inspections.finish state.inspected

/-! ## What a handler accepts -/

variable {tables limits index inspections} {tag lowered text : Text} {attributes : HtmlAttributes}
  {selfClosing : Bool} {state next : HtmlValidator σ}

theorem token_ok (haccept : state.token limits index = .ok next) :
    state.tokenCount + 1 ≤ limits.maxHtmlTokens ∧
      next = { state with tokenCount := state.tokenCount + 1 } := by
  simp only [token, bind_eq_ok_iff, refuse_eq_ok] at haccept
  obtain ⟨_, hcount, hnext⟩ := haccept
  exact ⟨Nat.not_lt.mp hcount, (Except.ok.inj hnext).symm⟩

theorem placeRoot_ok (haccept : state.placeRoot index lowered = .ok next) :
    (state.stack = [] → lowered = htmlTag ∧ state.rootSeen = false ∧ state.rootClosed = false) ∧
      (state.stack ≠ [] → lowered ≠ htmlTag) ∧
        next = { state with rootSeen := state.rootSeen || state.stack.isEmpty } := by
  unfold placeRoot at haccept
  split at haccept
  · rename_i hempty
    simp only [bind_eq_ok_iff, refuse_eq_ok, not_or, ne_eq, not_not, Bool.not_eq_true] at haccept
    obtain ⟨_, hroot, hnext⟩ := haccept
    refine ⟨fun _ => hroot, fun hne => absurd hempty hne, ?_⟩
    rw [← Except.ok.inj hnext, hempty]
    simp
  · rename_i hne
    simp only [bind_eq_ok_iff, refuse_eq_ok] at haccept
    obtain ⟨_, hroot, hnext⟩ := haccept
    refine ⟨fun hempty => absurd hempty hne, fun _ => hroot, ?_⟩
    rw [← Except.ok.inj hnext, List.isEmpty_eq_false_iff.mpr hne, Bool.or_false]

theorem placeHead_ok (haccept : state.placeHead index lowered = .ok next) :
    (lowered = headTag → state.stack = [htmlTag] ∧ state.headSeen = false ∧
        state.bodySeen = false) ∧
      next = { state with headSeen := state.headSeen || lowered == headTag } := by
  unfold placeHead at haccept
  split at haccept
  · rename_i hhead
    simp only [bind_eq_ok_iff, refuse_eq_ok, not_or, ne_eq, not_not, Bool.not_eq_true] at haccept
    obtain ⟨_, hplace, hnext⟩ := haccept
    refine ⟨fun _ => hplace, ?_⟩
    rw [← Except.ok.inj hnext]
    simp [hhead]
  · rename_i hother
    refine ⟨fun hhead => absurd hhead hother, ?_⟩
    rw [← Except.ok.inj haccept, beq_false_of_ne hother, Bool.or_false]

theorem placeBody_ok (haccept : state.placeBody index lowered = .ok next) :
    (lowered = bodyTag → state.stack = [htmlTag] ∧ state.bodySeen = false) ∧
      next = { state with bodySeen := state.bodySeen || lowered == bodyTag } := by
  unfold placeBody at haccept
  split at haccept
  · rename_i hbody
    simp only [bind_eq_ok_iff, refuse_eq_ok, not_or, ne_eq, not_not, Bool.not_eq_true] at haccept
    obtain ⟨_, hplace, hnext⟩ := haccept
    refine ⟨fun _ => hplace, ?_⟩
    rw [← Except.ok.inj hnext]
    simp [hbody]
  · rename_i hother
    refine ⟨fun hbody => absurd hbody hother, ?_⟩
    rw [← Except.ok.inj haccept, beq_false_of_ne hother, Bool.or_false]

theorem openElement_ok (haccept : state.openElement limits index lowered selfClosing = .ok next) :
    (lowered ∈ htmlVoidElements ∧ next = state) ∨
      (lowered ∉ htmlVoidElements ∧ selfClosing = false ∧
        state.stack.length < limits.maxHtmlNesting ∧
          next = { state with stack := lowered :: state.stack }) := by
  unfold openElement at haccept
  split at haccept
  · rename_i hvoid
    exact .inl ⟨hvoid, (Except.ok.inj haccept).symm⟩
  · rename_i hother
    simp only [bind_eq_ok_iff, refuse_eq_ok, Bool.not_eq_true, Nat.not_le] at haccept
    obtain ⟨_, hopen, _, hdepth, hnext⟩ := haccept
    exact .inr ⟨hother, hopen, hdepth, (Except.ok.inj hnext).symm⟩

/-- The flags after an accepted start tag. -/
def afterStart (lowered : Text) (inspected : σ) (state : HtmlValidator σ) : HtmlValidator σ where
  stack := state.stack
  rootSeen := state.rootSeen || state.stack.isEmpty
  rootClosed := state.rootClosed
  doctypeSeen := state.doctypeSeen
  headSeen := state.headSeen || lowered == headTag
  bodySeen := state.bodySeen || lowered == bodyTag
  tokenCount := state.tokenCount + 1
  inspected := inspected

/-- What the handler of a start tag has checked. -/
structure StartTag (limits : UploadLimits) (lowered : Text) (state : HtmlValidator σ) : Prop where
  counted : state.tokenCount + 1 ≤ limits.maxHtmlTokens
  root : state.stack = [] →
    lowered = htmlTag ∧ state.rootSeen = false ∧ state.rootClosed = false
  inner : state.stack ≠ [] → lowered ≠ htmlTag
  head : lowered = headTag →
    state.stack = [htmlTag] ∧ state.headSeen = false ∧ state.bodySeen = false
  body : lowered = bodyTag → state.stack = [htmlTag] ∧ state.bodySeen = false

theorem startTag_ok (haccept : state.startTag tables limits index inspections tag attributes
      selfClosing = .ok next) :
    StartTag limits (tables.casefold tag) state ∧
      ∃ inspected,
        (tables.casefold tag ∈ htmlVoidElements ∧
          next = state.afterStart (tables.casefold tag) inspected) ∨
        (tables.casefold tag ∉ htmlVoidElements ∧ selfClosing = false ∧
          state.stack.length < limits.maxHtmlNesting ∧
            next = { state.afterStart (tables.casefold tag) inspected with
              stack := tables.casefold tag :: state.stack }) := by
  simp only [startTag, bind_eq_ok_iff, refuse_eq_ok] at haccept
  obtain ⟨counted, hcounted, _, _, _, _, rooted, hrooted, headed, hheaded, bodied, hbodied,
    inspected, _, hopened⟩ := haccept
  obtain ⟨hcount, rfl⟩ := token_ok hcounted
  obtain ⟨hroot, hinner, rfl⟩ := placeRoot_ok hrooted
  obtain ⟨hhead, rfl⟩ := placeHead_ok hheaded
  obtain ⟨hbody, rfl⟩ := placeBody_ok hbodied
  exact ⟨⟨hcount, hroot, hinner, hhead, hbody⟩, inspected, openElement_ok hopened⟩

theorem handleEndtag_ok (haccept : state.handleEndtag tables limits index tag = .ok next) :
    state.tokenCount + 1 ≤ limits.maxHtmlTokens ∧ tables.casefold tag ∉ htmlVoidElements ∧
      ∃ rest, state.stack = tables.casefold tag :: rest ∧
        next = { state with
          stack := rest
          rootClosed := state.rootClosed || tables.casefold tag == htmlTag
          tokenCount := state.tokenCount + 1 } := by
  simp only [handleEndtag, bind_eq_ok_iff, refuse_eq_ok, not_or, ne_eq, not_not] at haccept
  obtain ⟨counted, hcounted, _, ⟨hvoid, hhead⟩, hnext⟩ := haccept
  obtain ⟨hcount, rfl⟩ := token_ok hcounted
  obtain ⟨rest, hstack⟩ := List.head?_eq_some_iff.mp hhead
  simp only at hstack hnext
  refine ⟨hcount, hvoid, rest, hstack, ?_⟩
  rw [← Except.ok.inj hnext, hstack]
  rfl

theorem handleData_ok (haccept : state.handleData index inspections text = .ok next) :
    (state.stack = [] → strip text = []) ∧
      ∃ inspected, next = { state with inspected := inspected } := by
  unfold handleData at haccept
  split at haccept
  · rename_i hempty
    refine ⟨fun _ => ?_, state.inspected, (Except.ok.inj haccept).symm⟩
    rw [hempty]
    rfl
  · split at haccept
    · simp only [bind_eq_ok_iff, refuse_eq_ok, ne_eq, not_not] at haccept
      obtain ⟨_, hblank, hnext⟩ := haccept
      exact ⟨fun _ => hblank, state.inspected, (Except.ok.inj hnext).symm⟩
    · rename_i hstack
      have hopen : state.stack = [] → strip text = [] := by
        intro hempty
        rw [hempty] at hstack
        cases hstack
      split at haccept
      · simp only [bind_eq_ok_iff] at haccept
        obtain ⟨inspected, _, hnext⟩ := haccept
        exact ⟨hopen, inspected, (Except.ok.inj hnext).symm⟩
      · simp only [bind_eq_ok_iff, refuse_eq_ok] at haccept
        obtain ⟨_, _, hnext⟩ := haccept
        exact ⟨hopen, state.inspected, (Except.ok.inj hnext).symm⟩

theorem handleDecl_ok (haccept : state.handleDecl tables limits index text = .ok next) :
    state.tokenCount + 1 ≤ limits.maxHtmlTokens ∧ state.stack = [] ∧ state.doctypeSeen = false ∧
      tables.casefold text = "doctype html".toList ∧
        next = { state with doctypeSeen := true, tokenCount := state.tokenCount + 1 } := by
  simp only [handleDecl, bind_eq_ok_iff, refuse_eq_ok, not_or, ne_eq, not_not,
    Bool.not_eq_true] at haccept
  obtain ⟨counted, hcounted, _, ⟨hstack, hdoctype, htext⟩, hnext⟩ := haccept
  obtain ⟨hcount, rfl⟩ := token_ok hcounted
  exact ⟨hcount, hstack, hdoctype, htext, (Except.ok.inj hnext).symm⟩

end HtmlValidator

end Handlers

/-! ## Documents -/

section Documents

variable (tables : UnicodeTables)

/-- Balanced content whose elements are nested at most as deep as the depth says. -/
inductive Flow : ℕ → List HtmlEvent → Prop
  | nil {depth : ℕ} : Flow depth []
  | data {depth : ℕ} (text : Text) : Flow depth [.data text]
  | comment {depth : ℕ} (text : Text) : Flow depth [.comment text]
  | reference {depth : ℕ} (text : Text) : Flow depth [.reference text]
  | void {depth : ℕ} {tag : Text} (attributes : HtmlAttributes)
      (hvoid : tables.casefold tag ∈ htmlVoidElements) : Flow depth [.startTag tag attributes]
  | selfClosed {depth : ℕ} {tag : Text} (attributes : HtmlAttributes)
      (hvoid : tables.casefold tag ∈ htmlVoidElements) : Flow depth [.startEndTag tag attributes]
  | element {depth : ℕ} {opening closing : Text} (attributes : HtmlAttributes)
      {inner : List HtmlEvent} (hname : tables.casefold closing = tables.casefold opening)
      (hvoid : tables.casefold opening ∉ htmlVoidElements) (hinner : Flow depth inner) :
      Flow (depth + 1) (.startTag opening attributes :: (inner ++ [.endTag closing]))
  | append {depth : ℕ} {first second : List HtmlEvent} (hfirst : Flow depth first)
      (hsecond : Flow depth second) : Flow depth (first ++ second)

/-- The event starts an element with this name. -/
def HtmlEvent.Starts (name : Text) : HtmlEvent → Prop
  | .startTag tag _ | .startEndTag tag _ => tables.casefold tag = name
  | _ => False

/-- What may stand outside the root. -/
def HtmlEvent.IsBlank : HtmlEvent → Prop
  | .data text => strip text = []
  | .comment _ | .reference _ => True
  | .declaration text => tables.casefold text = "doctype html".toList
  | _ => False

def HtmlEvent.isDeclaration : HtmlEvent → Bool
  | .declaration _ => true
  | _ => false

/-- The events that count as tokens. -/
def HtmlEvent.isToken : HtmlEvent → Bool
  | .startTag _ _ | .startEndTag _ _ | .endTag _ | .declaration _ => true
  | _ => false

/-- Whenever the event starts an element with this name, the events before it satisfy the
condition. -/
def Placed (name : Text) (condition : List HtmlEvent → Prop) (events : List HtmlEvent) : Prop :=
  ∀ before event after, events = before ++ event :: after → event.Starts tables name →
    condition before

/-- Nothing before starts an element with this name. -/
def Unstarted (name : Text) (before : List HtmlEvent) : Prop :=
  ∀ event ∈ before, ¬ event.Starts tables name

/-- Where a head or a body may stand among the events of the root. -/
structure Sections (inner : List HtmlEvent) : Prop where
  root : Unstarted tables htmlTag inner
  head : Placed tables headTag (fun before => (∃ depth, Flow tables depth before) ∧
    Unstarted tables headTag before ∧ Unstarted tables bodyTag before) inner
  body : Placed tables bodyTag (fun before => (∃ depth, Flow tables depth before) ∧
    Unstarted tables bodyTag before) inner

/-- A document with the given parts around and in its root. -/
structure HtmlDocument (limits : UploadLimits) (events prolog inner epilog : List HtmlEvent)
    (opening closing : Text) (attributes : HtmlAttributes) : Prop where
  shape : events = prolog ++ .startTag opening attributes :: (inner ++ .endTag closing :: epilog)
  root : tables.casefold opening = htmlTag ∧ tables.casefold closing = htmlTag
  blank : ∀ event ∈ prolog ++ epilog, event.IsBlank tables
  doctype : (prolog ++ epilog).countP HtmlEvent.isDeclaration ≤ 1
  nesting : Flow tables (limits.maxHtmlNesting - 1) inner
  sections : Sections tables inner
  tokens : events.countP HtmlEvent.isToken ≤ limits.maxHtmlTokens

/-- The events since the start of the root while the elements of the stack are open. -/
inductive OpenFlow (limits : UploadLimits) : List Text → List HtmlEvent → Prop
  | root {inner : List HtmlEvent} (hinner : Flow tables (limits.maxHtmlNesting - 1) inner) :
      OpenFlow limits [htmlTag] inner
  | nested {stack : List Text} {before inner : List HtmlEvent} {tag : Text}
      (attributes : HtmlAttributes) (hbefore : OpenFlow limits stack before)
      (hroot : tables.casefold tag ≠ htmlTag) (hvoid : tables.casefold tag ∉ htmlVoidElements)
      (hdepth : stack.length < limits.maxHtmlNesting)
      (hinner : Flow tables (limits.maxHtmlNesting - (stack.length + 1)) inner) :
      OpenFlow limits (tables.casefold tag :: stack)
        (before ++ .startTag tag attributes :: inner)

end Documents

section Traces

variable {tables : UnicodeTables} {limits : UploadLimits} {stack : List Text} {name tag : Text}
  {events before inner : List HtmlEvent} {event : HtmlEvent} {attributes : HtmlAttributes}
  {condition : List HtmlEvent → Prop}

theorem placed_nil : Placed tables name condition [] := by
  intro before event after hsplit
  simp at hsplit

theorem placed_concat (hplaced : Placed tables name condition events)
    (hlast : event.Starts tables name → condition events) :
    Placed tables name condition (events ++ [event]) := by
  intro before found after hsplit hstarts
  cases after using List.reverseRecOn with
  | nil =>
      obtain ⟨rfl, hfound⟩ := List.append_inj' hsplit rfl
      obtain ⟨rfl, _⟩ := List.cons.inj hfound
      exact hlast hstarts
  | append_singleton after last =>
      rw [← List.cons_append, ← List.append_assoc] at hsplit
      obtain ⟨rfl, _⟩ := List.append_inj' hsplit rfl
      exact hplaced before found after rfl hstarts

theorem unstarted_concat (hevents : Unstarted tables name events)
    (hlast : ¬ event.Starts tables name) : Unstarted tables name (events ++ [event]) := by
  intro found hfound
  cases List.mem_append.mp hfound with
  | inl hold => exact hevents found hold
  | inr hnew =>
      rw [List.mem_singleton.mp hnew]
      exact hlast

theorem Sections.concat (hsections : Sections tables inner)
    (hroot : ¬ event.Starts tables htmlTag)
    (hhead : event.Starts tables headTag → (∃ depth, Flow tables depth inner) ∧
      Unstarted tables headTag inner ∧ Unstarted tables bodyTag inner)
    (hbody : event.Starts tables bodyTag → (∃ depth, Flow tables depth inner) ∧
      Unstarted tables bodyTag inner) : Sections tables (inner ++ [event]) :=
  ⟨unstarted_concat hsections.root hroot, placed_concat hsections.head hhead,
    placed_concat hsections.body hbody⟩

/-- An event that starts neither of the three special elements. -/
theorem Sections.concat_plain (hsections : Sections tables inner)
    (hplain : ∀ name ∈ [htmlTag, headTag, bodyTag], ¬ event.Starts tables name) :
    Sections tables (inner ++ [event]) :=
  hsections.concat (hplain htmlTag (by simp)) (fun hhead => absurd hhead (hplain headTag (by simp)))
    fun hbody => absurd hbody (hplain bodyTag (by simp))

theorem OpenFlow.stack_ne_nil (hopen : OpenFlow tables limits stack events) : stack ≠ [] := by
  cases hopen with
  | root hinner => simp
  | nested attributes hbefore hroot hvoid hdepth hinner => simp

/-- Balanced content may follow. -/
theorem OpenFlow.append (hopen : OpenFlow tables limits stack before)
    (hinner : Flow tables (limits.maxHtmlNesting - stack.length) inner) :
    OpenFlow tables limits stack (before ++ inner) := by
  cases hopen with
  | root hfirst => exact .root (hfirst.append hinner)
  | nested attributes hbefore hroot hvoid hdepth hfirst =>
      rw [List.append_assoc, List.cons_append]
      exact .nested attributes hbefore hroot hvoid hdepth (hfirst.append hinner)

theorem OpenFlow.push (hopen : OpenFlow tables limits stack before)
    (hroot : tables.casefold tag ≠ htmlTag) (hvoid : tables.casefold tag ∉ htmlVoidElements)
    (hdepth : stack.length < limits.maxHtmlNesting) :
    OpenFlow tables limits (tables.casefold tag :: stack)
      (before ++ [.startTag tag attributes]) :=
  .nested attributes hopen hroot hvoid hdepth .nil

/-- The end tag of an inner element. -/
theorem OpenFlow.pop (hopen : OpenFlow tables limits (tables.casefold tag :: stack) events)
    (hroot : tables.casefold tag ≠ htmlTag) :
    OpenFlow tables limits stack (events ++ [.endTag tag]) := by
  generalize hstack : tables.casefold tag :: stack = whole at hopen
  cases hopen with
  | root hinner => exact absurd (List.cons.inj hstack).1 hroot
  | @nested below before inner opening attributes hbefore _ hvoid hdepth hinner =>
      obtain ⟨hname, rfl⟩ := List.cons.inj hstack
      have helement := Flow.element attributes hname hvoid hinner
      rw [show limits.maxHtmlNesting - (stack.length + 1) + 1 =
        limits.maxHtmlNesting - stack.length by omega] at helement
      rw [List.append_assoc, List.cons_append]
      exact hbefore.append helement

/-- The end tag of the root. -/
theorem OpenFlow.close (hopen : OpenFlow tables limits (htmlTag :: stack) events) :
    stack = [] ∧ Flow tables (limits.maxHtmlNesting - 1) events := by
  generalize hstack : htmlTag :: stack = whole at hopen
  cases hopen with
  | root hinner => exact ⟨(List.cons.inj hstack).2, hinner⟩
  | nested attributes hbefore hroot hvoid hdepth hinner =>
      exact absurd (List.cons.inj hstack).1.symm hroot

/-! ## The invariant of a run -/

variable {σ ρ : Type} {index : ℕ} {inspections : HtmlInspections σ ρ}
  {state next : HtmlValidator σ}

namespace HtmlValidator

/-- Where a run stands: before, inside or after the root. -/
inductive Phase (tables : UnicodeTables) (limits : UploadLimits) (state : HtmlValidator σ)
    (events : List HtmlEvent) : Prop
  | before (hstack : state.stack = []) (hseen : state.rootSeen = false)
      (hclosed : state.rootClosed = false) (hblank : ∀ event ∈ events, event.IsBlank tables)
  | inside (prolog inner : List HtmlEvent) (opening : Text) (attributes : HtmlAttributes)
      (hshape : events = prolog ++ .startTag opening attributes :: inner)
      (hname : tables.casefold opening = htmlTag)
      (hblank : ∀ event ∈ prolog, event.IsBlank tables)
      (hopen : OpenFlow tables limits state.stack inner) (hseen : state.rootSeen = true)
      (hclosed : state.rootClosed = false) (hsections : Sections tables inner)
      (hhead : state.headSeen = false → Unstarted tables headTag inner)
      (hbody : state.bodySeen = false → Unstarted tables bodyTag inner)
  | after (prolog inner epilog : List HtmlEvent) (opening closing : Text)
      (attributes : HtmlAttributes)
      (hshape : events =
        prolog ++ .startTag opening attributes :: (inner ++ .endTag closing :: epilog))
      (hname : tables.casefold opening = htmlTag ∧ tables.casefold closing = htmlTag)
      (hblank : ∀ event ∈ prolog ++ epilog, event.IsBlank tables)
      (hflow : Flow tables (limits.maxHtmlNesting - 1) inner) (hstack : state.stack = [])
      (hseen : state.rootSeen = true) (hclosed : state.rootClosed = true)
      (hsections : Sections tables inner)

/-- The parts of the state that a phase speaks of. -/
structure SamePlace (state next : HtmlValidator σ) : Prop where
  stack : next.stack = state.stack
  rootSeen : next.rootSeen = state.rootSeen
  rootClosed : next.rootClosed = state.rootClosed
  headSeen : next.headSeen = state.headSeen
  bodySeen : next.bodySeen = state.bodySeen

/-- A blank event outside the root. -/
theorem Phase.blank (hphase : state.Phase tables limits events) (hstack : state.stack = [])
    (hsame : state.SamePlace next) (hblank : event.IsBlank tables) :
    next.Phase tables limits (events ++ [event]) := by
  have hextended : ∀ {others : List HtmlEvent}, (∀ other ∈ others, other.IsBlank tables) →
      ∀ other ∈ others ++ [event], other.IsBlank tables := by
    intro others hothers other hother
    cases List.mem_append.mp hother with
    | inl hold => exact hothers other hold
    | inr hnew =>
        rw [List.mem_singleton.mp hnew]
        exact hblank
  cases hphase with
  | before _ hseen hclosed hevents =>
      exact .before (hsame.stack.trans hstack) (hsame.rootSeen.trans hseen)
        (hsame.rootClosed.trans hclosed) (hextended hevents)
  | inside prolog inner opening attributes hshape hname _ hopen =>
      exact absurd hstack hopen.stack_ne_nil
  | after prolog inner epilog opening closing attributes hshape hname hothers hflow _ hseen hclosed
      hsections =>
      refine .after prolog inner (epilog ++ [event]) opening closing attributes ?_ hname ?_ hflow
        (hsame.stack.trans hstack) (hsame.rootSeen.trans hseen) (hsame.rootClosed.trans hclosed)
        hsections
      · rw [hshape]
        simp
      · rw [← List.append_assoc]
        exact hextended hothers

/-- A leaf of the content of an open element. -/
theorem Phase.leaf (hphase : state.Phase tables limits events) (hstack : state.stack ≠ [])
    (hsame : state.SamePlace next) (hleaf : ∀ depth, Flow tables depth [event])
    (hplain : ∀ name ∈ [htmlTag, headTag, bodyTag], ¬ event.Starts tables name) :
    next.Phase tables limits (events ++ [event]) := by
  cases hphase with
  | before hempty => exact absurd hempty hstack
  | after _ _ _ _ _ _ _ _ _ _ hempty => exact absurd hempty hstack
  | inside prolog inner opening attributes hshape hname hblank hopen hseen hclosed hsections hhead
      hbody =>
      refine .inside prolog (inner ++ [event]) opening attributes ?_ hname hblank ?_
        (hsame.rootSeen.trans hseen) (hsame.rootClosed.trans hclosed)
        (hsections.concat_plain hplain) ?_ ?_
      · rw [hshape]
        simp
      · rw [hsame.stack]
        exact hopen.append (hleaf _)
      · intro hunseen
        rw [hsame.headSeen] at hunseen
        exact unstarted_concat (hhead hunseen) (hplain headTag (by simp))
      · intro hunseen
        rw [hsame.bodySeen] at hunseen
        exact unstarted_concat (hbody hunseen) (hplain bodyTag (by simp))

theorem void_plain {lowered : Text} (hvoid : lowered ∈ htmlVoidElements) :
    ∀ name ∈ [htmlTag, headTag, bodyTag], lowered ≠ name := by
  rintro name hname rfl
  simp only [List.mem_cons, List.not_mem_nil, or_false] at hname
  rcases hname with rfl | rfl | rfl <;> exact absurd hvoid (by decide)

theorem samePlace_afterStart {lowered : Text} {inspected : σ} (hstack : state.stack ≠ [])
    (hplain : ∀ name ∈ [htmlTag, headTag, bodyTag], lowered ≠ name) :
    state.SamePlace (state.afterStart lowered inspected) := by
  refine ⟨rfl, ?_, rfl, ?_, ?_⟩
  · rw [afterStart, List.isEmpty_eq_false_iff.mpr hstack, Bool.or_false]
  · rw [afterStart, beq_false_of_ne (hplain headTag (by simp)), Bool.or_false]
  · rw [afterStart, beq_false_of_ne (hplain bodyTag (by simp)), Bool.or_false]

/-- A start tag that opens an element. -/
theorem Phase.opened {inspected : σ} (hphase : state.Phase tables limits events)
    (hstart : StartTag limits (tables.casefold tag) state)
    (hvoid : tables.casefold tag ∉ htmlVoidElements)
    (hdepth : state.stack.length < limits.maxHtmlNesting) :
    { state.afterStart (tables.casefold tag) inspected with
      stack := tables.casefold tag :: state.stack : HtmlValidator σ }.Phase tables limits
        (events ++ [.startTag tag attributes]) := by
  cases hphase with
  | after _ _ _ _ _ _ _ _ _ _ hempty hseen =>
      rw [(hstart.root hempty).2.1] at hseen
      cases hseen
  | before hempty hseen hclosed hblank =>
      have hname := (hstart.root hempty).1
      refine .inside events [] tag attributes rfl hname hblank ?_ ?_ hclosed ?_ ?_ ?_
      · rw [hname, hempty]
        exact .root .nil
      · rw [afterStart, hempty]
        exact Bool.or_true _
      · exact ⟨fun _ hmem => absurd hmem List.not_mem_nil, placed_nil, placed_nil⟩
      · exact fun _ _ hmem => absurd hmem List.not_mem_nil
      · exact fun _ _ hmem => absurd hmem List.not_mem_nil
  | inside prolog inner opening rootAttributes hshape hname hblank hopen hseen hclosed hsections
      hhead
      hbody =>
      have hinner := hstart.inner hopen.stack_ne_nil
      have hchild : state.stack = [htmlTag] → ∃ depth, Flow tables depth inner := by
        intro hstack
        rw [hstack] at hopen
        exact ⟨_, hopen.close.2⟩
      refine .inside prolog (inner ++ [.startTag tag attributes]) opening rootAttributes ?_ hname
        hblank
        (hopen.push hinner hvoid hdepth) ?_ hclosed ?_ ?_ ?_
      · rw [hshape]
        simp
      · rw [afterStart, hseen]
        rfl
      · refine hsections.concat hinner ?_ ?_
        · intro hstarts
          obtain ⟨hstack, hunseen, hunbodied⟩ := hstart.head hstarts
          exact ⟨hchild hstack, hhead hunseen, hbody hunbodied⟩
        · intro hstarts
          obtain ⟨hstack, hunbodied⟩ := hstart.body hstarts
          exact ⟨hchild hstack, hbody hunbodied⟩
      · intro hunseen
        rw [afterStart, Bool.or_eq_false_iff] at hunseen
        exact unstarted_concat (hhead hunseen.1) fun hstarts => by
          rw [show tables.casefold tag = headTag from hstarts] at hunseen
          cases hunseen.2
      · intro hunseen
        rw [afterStart, Bool.or_eq_false_iff] at hunseen
        exact unstarted_concat (hbody hunseen.1) fun hstarts => by
          rw [show tables.casefold tag = bodyTag from hstarts] at hunseen
          cases hunseen.2

/-- An end tag that closes the innermost element. -/
theorem Phase.closed {rest : List Text} (hphase : state.Phase tables limits events)
    (hstack : state.stack = tables.casefold tag :: rest) {count : ℕ} :
    { state with
      stack := rest
      rootClosed := state.rootClosed || tables.casefold tag == htmlTag
      tokenCount := count : HtmlValidator σ }.Phase tables limits (events ++ [.endTag tag]) := by
  cases hphase with
  | before hempty =>
      rw [hempty] at hstack
      cases hstack
  | after _ _ _ _ _ _ _ _ _ _ hempty =>
      rw [hempty] at hstack
      cases hstack
  | inside prolog inner opening attributes hshape hname hblank hopen hseen hclosed hsections hhead
      hbody =>
      rw [hstack] at hopen
      by_cases hroot : tables.casefold tag = htmlTag
      · rw [hroot] at hopen
        obtain ⟨hempty, hflow⟩ := hopen.close
        refine .after prolog inner [] opening tag attributes ?_ ⟨hname, hroot⟩ ?_ hflow hempty
          hseen ?_ hsections
        · rw [hshape]
          simp
        · rw [List.append_nil]
          exact hblank
        · rw [hroot]
          exact Bool.or_true _
      · have hplain : ∀ name ∈ [htmlTag, headTag, bodyTag],
            ¬ (HtmlEvent.endTag tag).Starts tables name := fun _ _ hstarts => hstarts
        refine .inside prolog (inner ++ [.endTag tag]) opening attributes ?_ hname hblank
          (hopen.pop hroot) hseen ?_ (hsections.concat_plain hplain) ?_ ?_
        · rw [hshape]
          simp
        · rw [hclosed, beq_false_of_ne hroot]
          rfl
        · intro hunseen
          exact unstarted_concat (hhead hunseen) (hplain headTag (by simp))
        · intro hunseen
          exact unstarted_concat (hbody hunseen) (hplain bodyTag (by simp))

/-- The phase and the counters of a run that has handled these events. -/
structure Trace (tables : UnicodeTables) (limits : UploadLimits) (state : HtmlValidator σ)
    (events : List HtmlEvent) : Prop where
  phase : state.Phase tables limits events
  counted : events.countP HtmlEvent.isToken = state.tokenCount
  tokens : state.tokenCount ≤ limits.maxHtmlTokens
  doctypes : events.countP HtmlEvent.isDeclaration = state.doctypeSeen.toNat

theorem trace_initial (inspected : σ) : (initial inspected).Trace tables limits [] :=
  ⟨.before rfl rfl rfl fun _ hmem => absurd hmem List.not_mem_nil, rfl, Nat.zero_le _, rfl⟩

/-- The counters after an event that is a token, but no declaration. -/
theorem Trace.counting (htrace : state.Trace tables limits events)
    (hphase : next.Phase tables limits (events ++ [event]))
    (hcount : state.tokenCount + 1 ≤ limits.maxHtmlTokens)
    (hnext : next.tokenCount = state.tokenCount + 1)
    (hdoctype : next.doctypeSeen = state.doctypeSeen)
    (htoken : event.isToken = true) (hdeclaration : event.isDeclaration = false) :
    next.Trace tables limits (events ++ [event]) := by
  refine ⟨hphase, ?_, ?_, ?_⟩
  · rw [List.countP_append, htrace.counted, hnext, List.countP_singleton, htoken]
    rfl
  · rw [hnext]
    exact hcount
  · rw [List.countP_append, htrace.doctypes, hdoctype, List.countP_singleton, hdeclaration]
    rfl

/-- The counters after an event that is no token. -/
theorem Trace.skipping (htrace : state.Trace tables limits events)
    (hphase : next.Phase tables limits (events ++ [event]))
    (hnext : next.tokenCount = state.tokenCount) (hdoctype : next.doctypeSeen = state.doctypeSeen)
    (htoken : event.isToken = false) (hdeclaration : event.isDeclaration = false) :
    next.Trace tables limits (events ++ [event]) := by
  refine ⟨hphase, ?_, ?_, ?_⟩
  · rw [List.countP_append, htrace.counted, hnext, List.countP_singleton, htoken]
    rfl
  · rw [hnext]
    exact htrace.tokens
  · rw [List.countP_append, htrace.doctypes, hdoctype, List.countP_singleton, hdeclaration]
    rfl

/-- A leaf inside the root, or blank text outside of it. -/
theorem Phase.leafOrBlank (hphase : state.Phase tables limits events)
    (hsame : state.SamePlace next) (hleaf : ∀ depth, Flow tables depth [event])
    (hplain : ∀ name ∈ [htmlTag, headTag, bodyTag], ¬ event.Starts tables name)
    (hblank : state.stack = [] → event.IsBlank tables) :
    next.Phase tables limits (events ++ [event]) := by
  by_cases hstack : state.stack = []
  · exact hphase.blank hstack hsame (hblank hstack)
  · exact hphase.leaf hstack hsame hleaf hplain

/-- A void element, spelled either way. -/
theorem Trace.void {inspected : σ} (htrace : state.Trace tables limits events)
    (hstart : StartTag limits (tables.casefold tag) state)
    (hvoid : tables.casefold tag ∈ htmlVoidElements)
    (hevent : event = .startTag tag attributes ∨ event = .startEndTag tag attributes) :
    (state.afterStart (tables.casefold tag) inspected).Trace tables limits (events ++ [event]) := by
  have hplain := void_plain hvoid
  have hstack : state.stack ≠ [] := fun hempty =>
    hplain htmlTag (by simp) (hstart.root hempty).1
  have hsame : state.SamePlace (state.afterStart (tables.casefold tag) inspected) :=
    samePlace_afterStart hstack hplain
  cases hevent with
  | inl hevent =>
      subst hevent
      exact htrace.counting
        (htrace.phase.leaf hstack hsame (fun _ => .void attributes hvoid) hplain)
        hstart.counted rfl rfl rfl rfl
  | inr hevent =>
      subst hevent
      exact htrace.counting
        (htrace.phase.leaf hstack hsame (fun _ => .selfClosed attributes hvoid) hplain)
        hstart.counted rfl rfl rfl rfl

/-- Every accepted event keeps the invariant. -/
theorem Trace.handle (htrace : state.Trace tables limits events)
    (haccept : state.handle tables limits index inspections event = .ok next) :
    next.Trace tables limits (events ++ [event]) := by
  cases event with
  | startTag tag attributes =>
      obtain ⟨hstart, inspected, hopened⟩ := startTag_ok haccept
      cases hopened with
      | inl hvoid =>
          rw [hvoid.2]
          exact htrace.void hstart hvoid.1 (.inl rfl)
      | inr hopened =>
          obtain ⟨hvoid, _, hdepth, rfl⟩ := hopened
          exact htrace.counting (htrace.phase.opened hstart hvoid hdepth) hstart.counted rfl rfl rfl
            rfl
  | startEndTag tag attributes =>
      obtain ⟨hstart, inspected, hopened⟩ := startTag_ok haccept
      cases hopened with
      | inl hvoid =>
          rw [hvoid.2]
          exact htrace.void hstart hvoid.1 (.inr rfl)
      | inr hopened => cases hopened.2.1
  | endTag tag =>
      obtain ⟨hcount, _, rest, hstack, rfl⟩ := handleEndtag_ok haccept
      exact htrace.counting (htrace.phase.closed hstack) hcount rfl rfl rfl rfl
  | data text =>
      obtain ⟨hblank, inspected, rfl⟩ := handleData_ok haccept
      exact htrace.skipping (htrace.phase.leafOrBlank ⟨rfl, rfl, rfl, rfl, rfl⟩
        (fun _ => .data text) (fun _ _ hstarts => hstarts) hblank) rfl rfl rfl rfl
  | comment text =>
      obtain rfl := Except.ok.inj haccept
      exact htrace.skipping (htrace.phase.leafOrBlank ⟨rfl, rfl, rfl, rfl, rfl⟩
        (fun _ => .comment text) (fun _ _ hstarts => hstarts) fun _ => trivial) rfl rfl rfl rfl
  | reference text =>
      obtain rfl := Except.ok.inj haccept
      exact htrace.skipping (htrace.phase.leafOrBlank ⟨rfl, rfl, rfl, rfl, rfl⟩
        (fun _ => .reference text) (fun _ _ hstarts => hstarts) fun _ => trivial) rfl rfl rfl rfl
  | declaration text =>
      obtain ⟨hcount, hstack, hdoctype, htext, rfl⟩ := handleDecl_ok haccept
      refine ⟨htrace.phase.blank hstack ⟨rfl, rfl, rfl, rfl, rfl⟩ htext, ?_, hcount, ?_⟩
      · rw [List.countP_append, htrace.counted]
        rfl
      · rw [List.countP_append, htrace.doctypes, hdoctype]
        rfl
  | unknownDeclaration text => cases haccept
  | processingInstruction text => cases haccept

/-- Every accepted run keeps the invariant. -/
theorem Trace.handleAll {later : List HtmlEvent} (htrace : state.Trace tables limits events)
    (haccept : state.handleAll tables limits index inspections later = .ok next) :
    next.Trace tables limits (events ++ later) := by
  induction later generalizing state events with
  | nil =>
      obtain rfl := Except.ok.inj haccept
      rwa [List.append_nil]
  | cons event later ih =>
      unfold HtmlValidator.handleAll at haccept
      rw [List.foldlM_cons, bind_eq_ok_iff] at haccept
      obtain ⟨middle, hfirst, hrest⟩ := haccept
      rw [List.append_cons]
      exact ih (htrace.handle hfirst) hrest

end HtmlValidator

/-- Accepted HTML is one well-formed document. -/
theorem accepted_html_is_document {inspected : σ} {unfinished : Bool} {references : ρ}
    (hevents : (HtmlValidator.initial inspected).handleAll tables limits index inspections events =
      .ok state)
    (hfinish : state.finish index inspections unfinished = .ok references) :
    ∃ prolog inner epilog opening closing attributes,
      HtmlDocument tables limits events prolog inner epilog opening closing attributes := by
  have htrace := (HtmlValidator.trace_initial inspected).handleAll hevents
  rw [List.nil_append] at htrace
  simp only [HtmlValidator.finish, bind_eq_ok_iff, refuse_eq_ok, not_or, Bool.not_eq_false, ne_eq,
    not_not] at hfinish
  obtain ⟨_, _, _, ⟨hseen, hclosed, hstack⟩, _⟩ := hfinish
  cases htrace.phase with
  | before _ hunseen =>
      rw [hunseen] at hseen
      cases hseen
  | inside _ _ _ _ _ _ _ _ _ hunclosed =>
      rw [hunclosed] at hclosed
      cases hclosed
  | after prolog inner epilog opening closing attributes hshape hname hblank hflow _ _ _
      hsections =>
      refine ⟨prolog, inner, epilog, opening, closing, attributes, hshape, hname, hblank, ?_, hflow,
        hsections, ?_⟩
      · have hdoctypes := htrace.doctypes
        rw [hshape, List.countP_append, List.countP_cons, List.countP_append,
          List.countP_cons] at hdoctypes
        rw [List.countP_append]
        have hflag := Bool.toNat_le state.doctypeSeen
        omega
      · rw [htrace.counted]
        exact htrace.tokens

end Traces

/-- Inspections that accept everything. -/
def permissiveInspections : HtmlInspections PUnit PUnit where
  validateAttributes := fun _ _ _ => .ok ⟨⟩
  inspectCode := fun _ _ _ => .ok ⟨⟩
  finish := fun _ => .ok ⟨⟩

def smallDocument : List HtmlEvent :=
  [.declaration "DOCTYPE html".toList, .data "\n".toList, .startTag htmlTag [],
    .startTag headTag [], .endTag headTag, .startTag bodyTag [], .startEndTag "br".toList [],
    .data "text".toList, .endTag bodyTag, .endTag htmlTag]

theorem small_document_is_document :
    ∃ state : HtmlValidator PUnit,
      (HtmlValidator.initial ⟨⟩).handleAll asciiTables .default 0 permissiveInspections
        smallDocument = .ok state ∧
      state.finish 0 permissiveInspections false = .ok ⟨⟩ ∧
        ∃ prolog inner epilog opening closing attributes,
          HtmlDocument asciiTables .default smallDocument prolog inner epilog opening closing
            attributes := by
  let last : HtmlValidator PUnit := ⟨[], true, true, true, true, true, 8, ⟨⟩⟩
  have hevents : (HtmlValidator.initial ⟨⟩).handleAll asciiTables .default 0
      permissiveInspections smallDocument = .ok last := by
    rfl
  have hfinish : last.finish 0 permissiveInspections false = .ok ⟨⟩ := by
    rfl
  exact ⟨last, hevents, hfinish, accepted_html_is_document hevents hfinish⟩

end Agora
