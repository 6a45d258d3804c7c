import Agora.CssSoundness
import Agora.StagedParts

/-!
# The references that a validator records

No caller of `_resolve_asset_reference` allows a reference to HTML.  So whatever a validator
records is the name of a supporting file of the package, through all events of a document and
all chunks of a stylesheet.
-/

namespace Agora

section References

variable {π : Type} {tables : UploadTables} {parser : HtmlParser π} {device : StagingDevice}
  {context : PackageContext} {reference : Text} {references known : List Text}

/-- A key of a package that is not the name of its HTML file. -/
def Supports (artifactKinds : ArtifactKinds) (reference : Text) : Prop :=
  ∃ kind, artifactKindOf artifactKinds reference = some kind ∧ kind ≠ .html

def PackageContext.Supports (context : PackageContext) (reference : Text) : Prop :=
  Agora.Supports context.artifactKinds reference

def PackageContext.SupportsAll (context : PackageContext) (references : List Text) : Prop :=
  ∀ reference ∈ references, context.Supports reference

theorem supportsAll_append {first second : List Text} (hfirst : context.SupportsAll first)
    (hsecond : context.SupportsAll second) : context.SupportsAll (first ++ second) :=
  List.forall_mem_append.mpr ⟨hfirst, hsecond⟩

theorem supportsAll_toList {found : Option Text}
    (hfound : ∀ reference, found = some reference → context.Supports reference) :
    context.SupportsAll found.toList := by
  intro reference hmem
  exact hfound reference (Option.mem_toList.mp hmem)

theorem resolve_supports {request : ReferenceRequest} {raw : Text}
    (haccept : resolveAssetReference tables context.artifactKinds request raw = .ok reference)
    (hhtml : ArtifactKind.html ∉ request.allowedKinds) : context.Supports reference := by
  obtain ⟨_, _, kind, _, _, _, hkind, hallowed⟩ := resolveAssetReference_ok haccept
  refine ⟨kind, hkind, ?_⟩
  rintro rfl
  exact hhtml hallowed

/-! ## Stylesheets -/

theorem inspectCssUrl_supports {argument : Text} {found : Option Text}
    (haccept : inspectCssUrl tables context argument = .ok found) :
    context.SupportsAll found.toList := by
  simp only [inspectCssUrl, bind_eq_ok_iff] at haccept
  obtain ⟨target, _, _, _, hchecked⟩ := haccept
  split at hchecked
  · obtain rfl := Except.ok.inj hchecked
    exact fun _ hmem => absurd hmem List.not_mem_nil
  · simp only [bind_eq_ok_iff, Except.ok.injEq] at hchecked
    obtain ⟨key, hresolved, rfl⟩ := hchecked
    apply supportsAll_toList
    intro reference hsome
    obtain rfl := Option.some.inj hsome
    exact resolve_supports hresolved (by simp [PackageContext.cssRequest, imageKinds, fontKinds])

theorem inspectCssUrls_supports {arguments : List Text} (hknown : context.SupportsAll known)
    (haccept : inspectCssUrls tables context known arguments = .ok references) :
    context.SupportsAll references := by
  induction arguments generalizing known with
  | nil =>
      obtain rfl := Except.ok.inj haccept
      exact hknown
  | cons argument rest ih =>
      simp only [inspectCssUrls, bind_eq_ok_iff] at haccept
      obtain ⟨found, hfirst, hrest⟩ := haccept
      exact ih (supportsAll_append hknown (inspectCssUrl_supports hfirst)) hrest

theorem css_inspect_supports {state next : CssValidator} {combined : Text}
    (hstate : context.SupportsAll state.references)
    (haccept : state.inspect tables context combined = .ok next) :
    context.SupportsAll next.references := by
  simp only [CssValidator.inspect, bind_eq_ok_iff, Except.ok.injEq] at haccept
  obtain ⟨_, _, _, _, found, hurls, rfl⟩ := haccept
  exact inspectCssUrls_supports hstate hurls

theorem css_feed_supports {state next : CssValidator} {data : Text}
    (hstate : context.SupportsAll state.references)
    (haccept : state.feed tables context data = .ok next) :
    context.SupportsAll next.references := by
  unfold CssValidator.feed at haccept
  split at haccept
  · obtain rfl := Except.ok.inj haccept
    exact hstate
  · simp only [bind_eq_ok_iff, Except.ok.injEq] at haccept
    obtain ⟨inspected, hinspect, rfl⟩ := haccept
    have hinspected := css_inspect_supports hstate hinspect
    exact hinspected

theorem css_finish_supports {state : CssValidator} (hstate : context.SupportsAll state.references)
    (haccept : state.finish tables context = .ok references) :
    context.SupportsAll references := by
  simp only [CssValidator.finish, bind_eq_ok_iff, Except.ok.injEq] at haccept
  obtain ⟨inspected, hinspect, rfl⟩ := haccept
  exact css_inspect_supports hstate hinspect

/-! ## Inline code and attributes -/

theorem inspectLiteralCall_supports {call : TextPattern.Found} {found : Option Text}
    (haccept : inspectLiteralCall tables context call = .ok found) :
    context.SupportsAll found.toList := by
  simp only [inspectLiteralCall, bind_eq_ok_iff] at haccept
  obtain ⟨_, _, hcall⟩ := haccept
  split at hcall
  · obtain rfl := Except.ok.inj hcall
    exact fun _ hmem => absurd hmem List.not_mem_nil
  · simp only [bind_eq_ok_iff, Except.ok.injEq] at hcall
    obtain ⟨key, hresolved, rfl⟩ := hcall
    apply supportsAll_toList
    intro reference hsome
    obtain rfl := Option.some.inj hsome
    exact resolve_supports hresolved (by simp [PackageContext.csvRequest])

theorem inspectLiteralCalls_supports {calls : List TextPattern.Found}
    (hknown : context.SupportsAll known)
    (haccept : inspectLiteralCalls tables context known calls = .ok references) :
    context.SupportsAll references := by
  induction calls generalizing known with
  | nil =>
      obtain rfl := Except.ok.inj haccept
      exact hknown
  | cons call rest ih =>
      simp only [inspectLiteralCalls, bind_eq_ok_iff] at haccept
      obtain ⟨found, hfirst, hrest⟩ := haccept
      exact ih (supportsAll_append hknown (inspectLiteralCall_supports hfirst)) hrest

theorem inspectScriptText_supports {combined : Text} (hknown : context.SupportsAll known)
    (haccept : inspectScriptText tables context known combined = .ok references) :
    context.SupportsAll references := by
  simp only [inspectScriptText, bind_eq_ok_iff, Except.ok.injEq] at haccept
  obtain ⟨_, _, _, _, found, hcalls, _, _, _, _, rfl⟩ := haccept
  exact inspectLiteralCalls_supports hknown hcalls

/-- Everything that the inspections have recorded so far names a supporting file. -/
structure CodeInspection.Supported (context : PackageContext) (state : CodeInspection) : Prop where
  references : context.SupportsAll state.references
  css : context.SupportsAll state.css.references

theorem CodeInspection.Supported.initial : CodeInspection.initial.Supported context :=
  ⟨fun _ hmem => absurd hmem List.not_mem_nil, fun _ hmem => absurd hmem List.not_mem_nil⟩

variable {state next : CodeInspection}

theorem CodeInspection.Supported.inspectCode {data : Text} {css : Bool}
    (hstate : state.Supported context)
    (haccept : state.inspectCode tables context data css = .ok next) :
    next.Supported context := by
  unfold CodeInspection.inspectCode at haccept
  split at haccept
  · simp only [bind_eq_ok_iff, Except.ok.injEq] at haccept
    obtain ⟨fed, hfed, rfl⟩ := haccept
    exact ⟨hstate.references, css_feed_supports hstate.css hfed⟩
  · simp only [bind_eq_ok_iff, Except.ok.injEq] at haccept
    obtain ⟨found, hscript, rfl⟩ := haccept
    exact ⟨inspectScriptText_supports hstate.references hscript, hstate.css⟩

theorem inspectUrlAttribute_supports {value tag name : Text} {allowedKinds : List UploadKind}
    {found : Option Text} (hhtml : ArtifactKind.html ∉ allowedKinds)
    (haccept : inspectUrlAttribute tables context value tag name allowedKinds = .ok found) :
    context.SupportsAll found.toList := by
  simp only [inspectUrlAttribute, bind_eq_ok_iff] at haccept
  obtain ⟨_, _, _, _, hvalue⟩ := haccept
  have hnone : context.SupportsAll (none : Option Text).toList :=
    fun _ hmem => absurd hmem List.not_mem_nil
  split at hvalue
  · simp only [bind_eq_ok_iff, Except.ok.injEq] at hvalue
    obtain ⟨_, _, rfl⟩ := hvalue
    exact hnone
  · split at hvalue
    · obtain rfl := Except.ok.inj hvalue
      exact hnone
    · simp only [bind_eq_ok_iff, Except.ok.injEq] at hvalue
      obtain ⟨key, hresolved, rfl⟩ := hvalue
      apply supportsAll_toList
      intro reference hsome
      obtain rfl := Option.some.inj hsome
      exact resolve_supports hresolved hhtml

/-- No attribute may refer to HTML. -/
theorem html_not_mem_allowedAttributeKinds (tag name : Text) :
    ArtifactKind.html ∉ allowedAttributeKinds tag name := by
  unfold allowedAttributeKinds
  split_ifs <;> decide

theorem html_not_mem_linkKinds {values : List (Text × Text)} :
    ArtifactKind.html ∉ (linkKinds tables values).getD [] := by
  unfold linkKinds
  simp only
  split_ifs <;> decide

theorem CodeInspection.Supported.inspectAttribute {tag : Text} {link : Option (List UploadKind)}
    {entry : Text × Text} (hstate : state.Supported context)
    (hlink : ArtifactKind.html ∉ link.getD [])
    (haccept : inspectAttribute tables context tag link entry state = .ok next) :
    next.Supported context := by
  simp only [Agora.inspectAttribute, bind_eq_ok_iff] at haccept
  obtain ⟨_, _, _, _, _, _, _, _, hvalue⟩ := haccept
  split at hvalue
  · simp only [bind_eq_ok_iff, Except.ok.injEq] at hvalue
    obtain ⟨found, hfound, rfl⟩ := hvalue
    refine ⟨supportsAll_append hstate.references (inspectUrlAttribute_supports ?_ hfound),
      hstate.css⟩
    split
    · exact hlink
    · exact html_not_mem_allowedAttributeKinds _ _
  · split at hvalue
    · exact hstate.inspectCode hvalue
    · split at hvalue
      · exact hstate.inspectCode hvalue
      · simp only [bind_eq_ok_iff, Except.ok.injEq] at hvalue
        obtain ⟨_, _, _, _, rfl⟩ := hvalue
        exact hstate

theorem CodeInspection.Supported.validateAttributes {tag : Text} {attributes : HtmlAttributes}
    (hstate : state.Supported context)
    (haccept : state.validateAttributes tables context tag attributes = .ok next) :
    next.Supported context := by
  simp only [CodeInspection.validateAttributes, bind_eq_ok_iff] at haccept
  obtain ⟨values, _, _, _, hfold⟩ := haccept
  refine foldlM_ok_induction ?_ hstate hfold
  intro middle entry after hmiddle hentry
  apply hmiddle.inspectAttribute _ hentry
  split
  · exact html_not_mem_linkKinds
  · simp

theorem code_finish_supports (hstate : state.Supported context)
    (haccept : state.finish tables context = .ok references) :
    context.SupportsAll references := by
  simp only [CodeInspection.finish, bind_eq_ok_iff, Except.ok.injEq] at haccept
  obtain ⟨found, hfinish, rfl⟩ := haccept
  exact supportsAll_append hstate.references (css_finish_supports hstate.css hfinish)

/-! ## Documents -/

variable {handlers after : HtmlValidator CodeInspection} {limits : UploadLimits} {index : ℕ}

theorem startTag_supported {tag : Text} {attributes : HtmlAttributes} {selfClosing : Bool}
    (haccept : handlers.startTag tables.unicode limits index (packageInspections tables context) tag
      attributes selfClosing = .ok after) (hstate : handlers.inspected.Supported context) :
    after.inspected.Supported context := by
  simp only [HtmlValidator.startTag, bind_eq_ok_iff] at haccept
  obtain ⟨counted, hcounted, _, _, _, _, rooted, hrooted, headed, hheaded, bodied, hbodied,
    inspected, hinspected, hopened⟩ := haccept
  obtain ⟨_, rfl⟩ := HtmlValidator.token_ok hcounted
  obtain ⟨_, _, rfl⟩ := HtmlValidator.placeRoot_ok hrooted
  obtain ⟨_, rfl⟩ := HtmlValidator.placeHead_ok hheaded
  obtain ⟨_, rfl⟩ := HtmlValidator.placeBody_ok hbodied
  have hafter : inspected.Supported context := hstate.validateAttributes hinspected
  cases HtmlValidator.openElement_ok hopened with
  | inl hvoid =>
      rw [hvoid.2]
      exact hafter
  | inr hpushed =>
      rw [hpushed.2.2.2]
      exact hafter

theorem handleData_supported {text : Text}
    (haccept : handlers.handleData index (packageInspections tables context) text = .ok after)
    (hstate : handlers.inspected.Supported context) : after.inspected.Supported context := by
  unfold HtmlValidator.handleData at haccept
  split at haccept
  · obtain rfl := Except.ok.inj haccept
    exact hstate
  · split at haccept
    · simp only [bind_eq_ok_iff] at haccept
      obtain ⟨_, _, hnext⟩ := haccept
      obtain rfl := Except.ok.inj hnext
      exact hstate
    · split at haccept
      · simp only [bind_eq_ok_iff] at haccept
        obtain ⟨inspected, hinspected, hnext⟩ := haccept
        obtain rfl := Except.ok.inj hnext
        exact hstate.inspectCode hinspected
      · simp only [bind_eq_ok_iff] at haccept
        obtain ⟨_, _, hnext⟩ := haccept
        obtain rfl := Except.ok.inj hnext
        exact hstate

theorem handle_supported {event : HtmlEvent}
    (haccept : handlers.handle tables.unicode limits index (packageInspections tables context)
      event = .ok after) (hstate : handlers.inspected.Supported context) :
    after.inspected.Supported context := by
  cases event with
  | startTag tag attributes => exact startTag_supported haccept hstate
  | startEndTag tag attributes => exact startTag_supported haccept hstate
  | endTag tag =>
      obtain ⟨_, _, rest, _, rfl⟩ := HtmlValidator.handleEndtag_ok haccept
      exact hstate
  | data text => exact handleData_supported haccept hstate
  | comment text =>
      obtain rfl := Except.ok.inj haccept
      exact hstate
  | reference text =>
      obtain rfl := Except.ok.inj haccept
      exact hstate
  | declaration text =>
      obtain ⟨_, _, _, _, rfl⟩ := HtmlValidator.handleDecl_ok haccept
      exact hstate
  | unknownDeclaration text => cases haccept
  | processingInstruction text => cases haccept

theorem handle_reading_supported {reading read : HtmlReading π}
    {released : List HtmlEvent × Option π}
    (haccept : reading.handle tables context released = .ok read)
    (hreading : reading.handlers.inspected.Supported context) :
    read.handlers.inspected.Supported context := by
  simp only [HtmlReading.handle, bind_eq_ok_iff] at haccept
  obtain ⟨handled, hhandled, hparsed⟩ := haccept
  have hafter : handled.inspected.Supported context := by
    refine @foldlM_ok_induction _ _ _ _ (fun handlers => handlers.inspected.Supported context)
      ?_ _ _ _ hreading hhandled
    intro handlers event next hhandlers hevent
    exact handle_supported hevent hhandlers
  cases hnext : released.2 with
  | none => simp [hnext] at hparsed
  | some parsed =>
      rw [hnext] at hparsed
      obtain rfl := Except.ok.inj hparsed
      exact hafter

theorem reading_finish_supports {reading : HtmlReading π}
    (hreading : reading.handlers.inspected.Supported context)
    (haccept : reading.finish tables parser context = .ok references) :
    context.SupportsAll references := by
  simp only [HtmlReading.finish, HtmlValidator.finish, bind_eq_ok_iff] at haccept
  obtain ⟨closed, hclosed, _, _, _, _, hfinish⟩ := haccept
  exact code_finish_supports (handle_reading_supported hclosed hreading) hfinish

/-! ## Parts -/

/-- What the validators of a part have recorded so far. -/
def ContentValidator.Supported (context : PackageContext) : ContentValidator π → Prop
  | .html _ reading => reading.handlers.inspected.Supported context
  | .css _ validator => context.SupportsAll validator.references
  | .csv _ => True
  | .binary => True

variable {content fed : ContentValidator π}

theorem ContentValidator.Supported.start (kind : UploadKind) :
    (ContentValidator.initial parser kind).Supported context := by
  cases kind with
  | html => exact CodeInspection.Supported.initial
  | css => exact fun _ hmem => absurd hmem List.not_mem_nil
  | csv | image | font => trivial

theorem ContentValidator.Supported.feed {chunk : Bytes} (hcontent : content.Supported context)
    (haccept : content.feed tables parser context chunk = .ok fed) : fed.Supported context := by
  cases content with
  | html decoder reading =>
      simp only [ContentValidator.feed, bind_eq_ok_iff] at haccept
      obtain ⟨decoded, _, next, hnext, hfed⟩ := haccept
      obtain rfl := Except.ok.inj hfed
      exact handle_reading_supported hnext hcontent
  | css decoder validator =>
      simp only [ContentValidator.feed, bind_eq_ok_iff] at haccept
      obtain ⟨decoded, _, next, hnext, hfed⟩ := haccept
      obtain rfl := Except.ok.inj hfed
      exact css_feed_supports hcontent hnext
  | csv decoder =>
      obtain ⟨next, rfl, _⟩ := feed_csv_ok_iff.mp haccept
      trivial
  | binary =>
      obtain rfl := Except.ok.inj haccept
      trivial

theorem ContentValidator.Supported.endText (hcontent : content.Supported context)
    (haccept : content.endText tables parser context = .ok fed) : fed.Supported context := by
  cases content with
  | html decoder reading =>
      simp only [ContentValidator.endText, bind_eq_ok_iff] at haccept
      obtain ⟨_, _, next, hnext, hfed⟩ := haccept
      obtain rfl := Except.ok.inj hfed
      exact handle_reading_supported hnext hcontent
  | css decoder validator =>
      simp only [ContentValidator.endText, bind_eq_ok_iff] at haccept
      obtain ⟨_, _, next, hnext, hfed⟩ := haccept
      obtain rfl := Except.ok.inj hfed
      exact css_feed_supports hcontent hnext
  | csv decoder =>
      simp only [ContentValidator.endText, bind_eq_ok_iff] at haccept
      obtain ⟨_, _, hfed⟩ := haccept
      obtain rfl := Except.ok.inj hfed
      trivial
  | binary =>
      obtain rfl := Except.ok.inj haccept
      trivial

theorem ContentValidator.Supported.finish {file : Bytes} {mediaType : String}
    (hcontent : content.Supported context)
    (haccept : content.finish tables parser device context file mediaType = .ok references) :
    context.SupportsAll references := by
  cases content with
  | html decoder reading => exact reading_finish_supports hcontent haccept
  | css decoder validator => exact css_finish_supports hcontent haccept
  | csv decoder =>
      simp only [ContentValidator.finish, bind_eq_ok_iff] at haccept
      obtain ⟨_, _, _, _, hnone⟩ := haccept
      obtain rfl := Except.ok.inj hnone
      exact fun _ hmem => absurd hmem List.not_mem_nil
  | binary =>
      simp only [ContentValidator.finish, bind_eq_ok_iff] at haccept
      obtain ⟨_, _, hnone⟩ := haccept
      obtain rfl := Except.ok.inj hnone
      exact fun _ hmem => absurd hmem List.not_mem_nil

theorem stageChunks_supported {staging last : PartStaging π} {count : ℕ} {chunks : List Chunk}
    (hstaging : staging.content.Supported context)
    (haccept : PartStaging.stageChunks tables parser device context count staging chunks =
      .ok last) : last.content.Supported context := by
  induction chunks generalizing count staging with
  | nil =>
      obtain rfl := Except.ok.inj haccept
      exact hstaging
  | cons chunk rest ih =>
      obtain ⟨piece, rfl, _, next, hnext, hrest⟩ := stageChunks_cons_ok_iff.mp haccept
      obtain ⟨_, _, _, content, hcontent, rfl⟩ := stageBytes_ok_iff.mp hnext
      exact ih (hstaging.feed hcontent) hrest

end References

end Agora
