import Agora.ContentDelivery

/-!
# Redaction of logged request targets

A request target of the content service holds a bearer token, and the service logs its
targets.  The log filter rewrites the segment that follows the route of an audience.  Two
records that differ in such tokens alone are logged alike, whether the tokens stand in the
message or in its arguments.
-/

namespace Agora

/-! ## The filter -/

/-- A character of `[^/?\s]`. -/
def isTargetCharacter (c : Char) : Bool :=
  c ≠ '/' && c ≠ '?' && !isPythonSpace c

/-- The route of an audience, up to the token. -/
def Audience.opening (audience : Audience) : Text :=
  "/render/".toList ++ audience.segment ++ ['/']

/-- The text after a match of `_CONTENT_TOKEN_SEGMENT` for one audience at the start of a
text. -/
def Audience.afterSegment? (audience : Audience) (text : Text) : Option Text :=
  if audience.opening <+: text ∧
      (text.drop audience.opening.length).takeWhile isTargetCharacter ≠ [] then
    some ((text.drop audience.opening.length).dropWhile isTargetCharacter)
  else none

/-- A match at the start of a text: the first group and the text after the match. -/
def contentTokenSegment (text : Text) : Option (Text × Text) :=
  match Audience.preview.afterSegment? text with
  | some later => some (Audience.preview.opening, later)
  | none => (Audience.viewer.afterSegment? text).map fun later => (Audience.viewer.opening, later)

/-- The segment of a token: the longest run of target characters. -/
structure IsSegment (token later : Text) : Prop where
  nonempty : token ≠ []
  characters : ∀ c ∈ token, isTargetCharacter c = true
  stops : ∀ c ∈ later.head?, isTargetCharacter c = false

theorem IsSegment.takeWhile {token later : Text} (hsegment : IsSegment token later) :
    (token ++ later).takeWhile isTargetCharacter = token ∧
      (token ++ later).dropWhile isTargetCharacter = later := by
  rw [List.takeWhile_append_of_pos hsegment.characters,
    List.dropWhile_append_of_pos hsegment.characters]
  cases later with
  | nil => simp
  | cons c rest =>
      have hstops := hsegment.stops c rfl
      simp [hstops]

theorem isSegment_takeWhile {text : Text} (hne : text.takeWhile isTargetCharacter ≠ []) :
    IsSegment (text.takeWhile isTargetCharacter) (text.dropWhile isTargetCharacter) where
  nonempty := hne
  characters _ hc := List.mem_takeWhile_imp hc
  stops c hc := by
    have hhead := List.head?_dropWhile_not isTargetCharacter text
    rw [Option.mem_def.mp hc] at hhead
    exact hhead

theorem Audience.afterSegment?_eq_some_iff {audience : Audience} {text later : Text} :
    audience.afterSegment? text = some later ↔
      ∃ token, IsSegment token later ∧ text = audience.opening ++ (token ++ later) := by
  unfold Audience.afterSegment?
  constructor
  · intro hsome
    split at hsome
    · rename_i hmatch
      rcases hmatch with ⟨⟨rest, rfl⟩, hne⟩
      rw [List.drop_left] at hne hsome
      cases hsome
      exact ⟨_, isSegment_takeWhile hne, by rw [List.takeWhile_append_dropWhile]⟩
    · contradiction
  · rintro ⟨token, hsegment, rfl⟩
    rw [List.drop_left, hsegment.takeWhile.1, hsegment.takeWhile.2]
    exact if_pos ⟨List.prefix_append _ _, hsegment.nonempty⟩

/-- The routes of two audiences overlap in one slash only. -/
theorem opening_overlap (first second : Audience) :
    ∀ length < 16, 0 < length → length + 1 < first.opening.length →
      ¬ first.opening.drop length <+: second.opening ∧
        ¬ second.opening <+: first.opening.drop length := by
  cases first
  · cases second
    · decide +kernel
    · decide +kernel
  · cases second
    · decide +kernel
    · decide +kernel

theorem opening_unique {first second : Audience} {text : Text} (hfirst : first.opening <+: text)
    (hsecond : second.opening <+: text) : first = second := by
  have hcompare := List.prefix_or_prefix_of_prefix hfirst hsecond
  cases first
  · cases second
    · rfl
    · exact absurd hcompare (by decide +kernel)
  · cases second
    · exact absurd hcompare (by decide +kernel)
    · rfl

theorem contentTokenSegment_eq_some_iff {text opening later : Text} :
    contentTokenSegment text = some (opening, later) ↔
      ∃ audience : Audience, opening = audience.opening ∧
        audience.afterSegment? text = some later := by
  unfold contentTokenSegment
  constructor
  · intro hsome
    split at hsome
    · rename_i later hlater
      cases hsome
      exact ⟨.preview, rfl, hlater⟩
    · rcases Option.map_eq_some_iff.mp hsome with ⟨later, hlater, heq⟩
      cases heq
      exact ⟨.viewer, rfl, hlater⟩
  · rintro ⟨audience, rfl, hlater⟩
    cases audience with
    | preview => rw [hlater]
    | viewer =>
        rcases Audience.afterSegment?_eq_some_iff.mp hlater with ⟨token, _, htext⟩
        have hpreview : Audience.preview.afterSegment? text = none := by
          rw [Option.eq_none_iff_forall_not_mem]
          intro other hother
          rcases Audience.afterSegment?_eq_some_iff.mp hother with ⟨_, _, hagain⟩
          have hsame : Audience.preview = .viewer :=
            opening_unique ⟨_, hagain.symm⟩ ⟨_, htext.symm⟩
          contradiction
        rw [hpreview, hlater]
        rfl

theorem contentTokenSegment_length {text opening later : Text}
    (hmatch : contentTokenSegment text = some (opening, later)) : later.length < text.length := by
  rcases contentTokenSegment_eq_some_iff.mp hmatch with ⟨audience, _, hlater⟩
  rcases Audience.afterSegment?_eq_some_iff.mp hlater with ⟨token, hsegment, rfl⟩
  have hpositive := List.length_pos_iff.mpr hsegment.nonempty
  simp only [List.length_append]
  omega

/-- `_CONTENT_TOKEN_SEGMENT.sub`. -/
def subContentTokenSegment : Text → Text
  | [] => []
  | c :: rest =>
      match _hmatch : contentTokenSegment (c :: rest) with
      | some (opening, later) =>
          opening ++ "[REDACTED]".toList ++ subContentTokenSegment later
      | none => c :: subContentTokenSegment rest
termination_by text => text.length
decreasing_by
  · exact contentTokenSegment_length _hmatch
  · exact Nat.lt_succ_self _

theorem subContentTokenSegment_of_some {text opening later : Text}
    (hmatch : contentTokenSegment text = some (opening, later)) :
    subContentTokenSegment text =
      opening ++ "[REDACTED]".toList ++ subContentTokenSegment later := by
  cases text with
  | nil =>
      have hlength := contentTokenSegment_length hmatch
      contradiction
  | cons c rest =>
      rw [subContentTokenSegment]
      split
      · rename_i found
        rw [hmatch] at found
        cases found
        rfl
      · rename_i found
        rw [hmatch] at found
        contradiction

theorem subContentTokenSegment_of_none {c : Char} {rest : Text}
    (hmatch : contentTokenSegment (c :: rest) = none) :
    subContentTokenSegment (c :: rest) = c :: subContentTokenSegment rest := by
  rw [subContentTokenSegment]
  split
  · rename_i found
    rw [hmatch] at found
    contradiction
  · rfl

/-- A value of a log record. -/
inductive LogValue (ω : Type) where
  | text (value : Text)
  | object (value : ω)

/-- The arguments of a log record: a tuple, a mapping or any other object. -/
inductive LogArguments (ω : Type) where
  | positional (values : List (LogValue ω))
  | named (values : List (LogValue ω × LogValue ω))
  | other (value : ω)

@[ext]
structure LogRecord (ω : Type) where
  msg : LogValue ω
  args : LogArguments ω

variable {ω : Type}

def redactContentRequestTarget : LogValue ω → LogValue ω
  | .text value => .text (subContentTokenSegment value)
  | .object value => .object value

/-- `ContentRequestTargetFilter.filter`. -/
def LogRecord.filter (record : LogRecord ω) : LogRecord ω where
  msg := redactContentRequestTarget record.msg
  args :=
    match record.args with
    | .positional values => .positional (values.map redactContentRequestTarget)
    | .named values =>
        .named (values.map fun entry => (entry.1, redactContentRequestTarget entry.2))
    | .other value => .other value

/-! ## Tokens in a text -/

/-- A text that does not end in a route whose last slash is missing; after such a text the
filter takes the first segment of a target for the token. -/
def EndsApart (before : Text) : Prop :=
  ∀ audience : Audience, ¬ audience.opening.dropLast <:+ before

theorem EndsApart.of_suffix {before later : Text} (hapart : EndsApart before)
    (hsuffix : later <:+ before) : EndsApart later :=
  fun audience hends => hapart audience (hends.trans hsuffix)

/-- The target of a request, after its token. -/
def Audience.target (audience : Audience) (token after : Text) : Text :=
  audience.opening ++ (token ++ '/' :: after)

theorem Audience.target_segments (audience : Audience) (token after : Text) :
    audience.target token after =
      '/' :: ("render".toList ++ '/' :: (audience.segment ++ '/' :: (token ++ '/' :: after))) := by
  have hrender : "/render/".toList = '/' :: ("render".toList ++ ['/']) := by
    decide +kernel
  unfold Audience.target Audience.opening
  rw [hrender, List.append_assoc, List.append_assoc, List.cons_append, List.append_assoc]
  rfl

theorem Audience.target_eq (audience : Audience) (token after : Text) :
    ∃ rest, audience.target token after = '/' :: rest :=
  ⟨_, audience.target_segments token after⟩

theorem slash_not_target : isTargetCharacter '/' = false := by
  decide

theorem isSegment_slash {token after : Text} (hne : token ≠ [])
    (hcharacters : ∀ c ∈ token, isTargetCharacter c = true) :
    IsSegment token ('/' :: after) where
  nonempty := hne
  characters := hcharacters
  stops c hc := by
    cases hc
    exact slash_not_target

section Targets

variable {audience : Audience} {before token after : Text}

theorem IsSegment.ne_slash {found later rest : Text} (hsegment : IsSegment found later) :
    found ++ later ≠ '/' :: rest := by
  intro heq
  cases found with
  | nil => exact hsegment.nonempty rfl
  | cons c tail =>
      rw [List.cons_append, List.cons.injEq] at heq
      have htarget := hsegment.characters c List.mem_cons_self
      rw [heq.1, slash_not_target] at htarget
      contradiction

/-- The route of a match does not reach into a target. -/
theorem opening_before {first : Audience} {right found later : Text} (hne : before ≠ [])
    (hapart : EndsApart before) (hsegment : IsSegment found later)
    (htarget : audience.target token after = right ++ (found ++ later)) :
    first.opening ≠ before ++ right := by
  intro hopening
  rcases audience.target_eq token after with ⟨rest, hrest⟩
  by_cases hright : right = []
  · subst hright
    exact hsegment.ne_slash (htarget.symm.trans hrest)
  · have hcompare : right <+: audience.opening ∨ audience.opening <+: right :=
      List.prefix_or_prefix_of_prefix ⟨_, htarget.symm⟩ (List.prefix_append _ _)
    have hlengths := congrArg List.length hopening
    rw [List.length_append] at hlengths
    have hbefore := List.length_pos_iff.mpr hne
    have hpositive := List.length_pos_iff.mpr hright
    have hdrop : first.opening.drop before.length = right := by
      rw [hopening, List.drop_left]
    have hbound : first.opening.length ≤ 16 := by
      cases first
      · decide +kernel
      · decide +kernel
    by_cases hshort : before.length + 1 < first.opening.length
    · have hoverlap := opening_overlap first audience before.length (by omega) hbefore hshort
      rw [hdrop] at hoverlap
      exact hcompare.elim hoverlap.1 hoverlap.2
    · apply hapart first
      have hone : right.length = 1 := by omega
      rcases List.length_eq_one_iff.mp hone with ⟨c, rfl⟩
      rw [hopening, List.dropLast_concat]

/-- The segment of a match that starts before a target ends before it. -/
theorem segment_before {found later left : Text} (hsegment : IsSegment found later)
    (hboth : found ++ later = left ++ audience.target token after) :
    ∃ rest, IsSegment found rest ∧ left = found ++ rest := by
  rcases List.append_eq_append_iff.mp hboth with
    ⟨tail, hleft, hlater⟩ | ⟨tail, hfound, htarget⟩
  · refine ⟨tail, ⟨hsegment.nonempty, hsegment.characters, ?_⟩, hleft⟩
    intro c hc
    apply hsegment.stops c
    rw [hlater, List.head?_append, Option.mem_def.mp hc]
    rfl
  · have htail : tail = [] := by
      cases tail with
      | nil => rfl
      | cons c tail =>
          rcases audience.target_eq token after with ⟨rest, hrest⟩
          rw [hrest, List.cons_append, List.cons.injEq] at htarget
          have hcharacter := hsegment.characters c (by rw [hfound]; simp)
          rw [← htarget.1, slash_not_target] at hcharacter
          contradiction
    rw [htail, List.append_nil] at hfound
    refine ⟨[], ⟨hsegment.nonempty, hsegment.characters, fun c hc => by cases hc⟩, ?_⟩
    rw [List.append_nil, hfound]

/-- A match that starts before a target ends before it. -/
theorem afterSegment?_before {first : Audience} {later : Text} (hne : before ≠ [])
    (hapart : EndsApart before)
    (hmatch : first.afterSegment? (before ++ audience.target token after) = some later) :
    ∃ left, first.afterSegment? before = some left := by
  rcases Audience.afterSegment?_eq_some_iff.mp hmatch with ⟨found, hsegment, htext⟩
  rcases List.append_eq_append_iff.mp htext with
    ⟨right, hopening, htarget⟩ | ⟨left, hbefore, hboth⟩
  · exact absurd hopening (opening_before hne hapart hsegment htarget)
  · rcases segment_before hsegment hboth with ⟨rest, hrest, hleft⟩
    refine ⟨rest, Audience.afterSegment?_eq_some_iff.mpr ⟨found, hrest, ?_⟩⟩
    rw [hbefore, hleft]

/-- A match in the text before a target does not see the target. -/
theorem afterSegment?_append {first : Audience} {left : Text}
    (hmatch : first.afterSegment? before = some left) :
    first.afterSegment? (before ++ audience.target token after) =
      some (left ++ audience.target token after) := by
  rcases Audience.afterSegment?_eq_some_iff.mp hmatch with ⟨found, hsegment, hbefore⟩
  apply Audience.afterSegment?_eq_some_iff.mpr
  refine ⟨found, ⟨hsegment.nonempty, hsegment.characters, ?_⟩, ?_⟩
  · intro c hc
    cases left with
    | nil =>
        rcases audience.target_eq token after with ⟨rest, hrest⟩
        rw [List.nil_append, hrest] at hc
        cases hc
        exact slash_not_target
    | cons d tail => exact hsegment.stops c hc
  · rw [hbefore, List.append_assoc, List.append_assoc]

theorem contentTokenSegment_append (hne : before ≠ []) (hapart : EndsApart before) :
    contentTokenSegment (before ++ audience.target token after) =
      (contentTokenSegment before).map fun found =>
        (found.1, found.2 ++ audience.target token after) := by
  cases hbefore : contentTokenSegment before with
  | some found =>
      rcases contentTokenSegment_eq_some_iff.mp hbefore with ⟨first, hopening, hmatch⟩
      exact contentTokenSegment_eq_some_iff.mpr ⟨first, hopening, afterSegment?_append hmatch⟩
  | none =>
      rw [Option.map_none, Option.eq_none_iff_forall_not_mem]
      intro found hfound
      rcases contentTokenSegment_eq_some_iff.mp hfound with ⟨first, _, hmatch⟩
      rcases afterSegment?_before hne hapart hmatch with ⟨left, hleft⟩
      have hsome := contentTokenSegment_eq_some_iff.mpr ⟨first, rfl, hleft⟩
      rw [hbefore] at hsome
      contradiction

/-- At a target the token is replaced. -/
theorem subContentTokenSegment_target (hsegment : IsSegment token ('/' :: after)) :
    subContentTokenSegment (audience.target token after) =
      audience.opening ++ "[REDACTED]".toList ++ subContentTokenSegment ('/' :: after) := by
  apply subContentTokenSegment_of_some
  apply contentTokenSegment_eq_some_iff.mpr
  exact ⟨audience, rfl, Audience.afterSegment?_eq_some_iff.mpr ⟨token, hsegment, rfl⟩⟩

/-- What is left of a text does not depend on the token of a target in it. -/
theorem subContentTokenSegment_congr {other : Text} (hapart : EndsApart before)
    (htoken : IsSegment token ('/' :: after)) (hother : IsSegment other ('/' :: after)) :
    subContentTokenSegment (before ++ audience.target token after) =
      subContentTokenSegment (before ++ audience.target other after) := by
  induction hlength : before.length using Nat.strong_induction_on generalizing before with
  | _ length ih =>
      cases before with
      | nil =>
          rw [List.nil_append, List.nil_append, subContentTokenSegment_target htoken,
            subContentTokenSegment_target hother]
      | cons c rest =>
          have hfirst : contentTokenSegment (c :: rest ++ audience.target token after) = _ :=
            contentTokenSegment_append (List.cons_ne_nil c rest) hapart
          have hsecond : contentTokenSegment (c :: rest ++ audience.target other after) = _ :=
            contentTokenSegment_append (List.cons_ne_nil c rest) hapart
          cases hfound : contentTokenSegment (c :: rest) with
          | some found =>
              rcases found with ⟨opening, left⟩
              have hshorter := contentTokenSegment_length hfound
              rw [hfound] at hfirst hsecond
              rw [subContentTokenSegment_of_some hfirst, subContentTokenSegment_of_some hsecond]
              rw [ih left.length (hlength ▸ hshorter) (hapart.of_suffix ?_) rfl]
              rcases contentTokenSegment_eq_some_iff.mp hfound with ⟨first, _, hmatch⟩
              rcases Audience.afterSegment?_eq_some_iff.mp hmatch with ⟨passed, _, htext⟩
              rw [htext, ← List.append_assoc]
              exact List.suffix_append _ _
          | none =>
              rw [hfound] at hfirst hsecond
              have hrest := ih rest.length (hlength ▸ Nat.lt_succ_self _)
                (hapart.of_suffix (List.suffix_cons c rest)) rfl
              have hleft : subContentTokenSegment (c :: rest ++ audience.target token after) = _ :=
                subContentTokenSegment_of_none hfirst
              have hright : subContentTokenSegment (c :: rest ++ audience.target other after) = _ :=
                subContentTokenSegment_of_none hsecond
              exact hleft.trans (hrest ▸ hright.symm)

end Targets

/-! ## Records -/

/-- Two values that differ in the token of one request target. -/
inductive LogValue.Retokened : LogValue ω → LogValue ω → Prop
  | token {audience : Audience} {before token other after : Text} (hapart : EndsApart before)
      (htoken : IsSegment token ('/' :: after)) (hother : IsSegment other ('/' :: after)) :
      LogValue.Retokened (.text (before ++ audience.target token after))
        (.text (before ++ audience.target other after))

/-- Two values that differ in tokens of request targets alone. -/
def LogValue.SameButTokens : LogValue ω → LogValue ω → Prop :=
  Relation.ReflTransGen LogValue.Retokened

inductive LogArguments.SameButTokens : LogArguments ω → LogArguments ω → Prop
  | positional {values others : List (LogValue ω)}
      (hvalues : List.Forall₂ LogValue.SameButTokens values others) :
      LogArguments.SameButTokens (.positional values) (.positional others)
  | named {values others : List (LogValue ω × LogValue ω)}
      (hvalues : List.Forall₂ (fun first second =>
        first.1 = second.1 ∧ first.2.SameButTokens second.2) values others) :
      LogArguments.SameButTokens (.named values) (.named others)
  | other (value : ω) : LogArguments.SameButTokens (.other value) (.other value)

theorem LogValue.SameButTokens.redacted {first second : LogValue ω}
    (hsame : first.SameButTokens second) :
    redactContentRequestTarget first = redactContentRequestTarget second := by
  induction hsame with
  | refl => rfl
  | tail _ hlast ih =>
      rw [ih]
      cases hlast with
      | token hapart htoken hother =>
          exact congrArg LogValue.text (subContentTokenSegment_congr hapart htoken hother)

theorem LogRecord.filter_eq {record other : LogRecord ω}
    (hmsg : record.msg.SameButTokens other.msg) (hargs : record.args.SameButTokens other.args) :
    record.filter = other.filter := by
  have hvalues : ∀ values others : List (LogValue ω),
      List.Forall₂ LogValue.SameButTokens values others →
        values.map redactContentRequestTarget = others.map redactContentRequestTarget := by
    intro values others hboth
    rw [← List.forall₂_eq_eq_eq]
    exact List.rel_map (fun _ _ hsame => LogValue.SameButTokens.redacted hsame) hboth
  rcases record with ⟨msg, args⟩
  rcases other with ⟨otherMsg, otherArgs⟩
  apply LogRecord.ext
  · exact hmsg.redacted
  · cases hargs with
    | positional hpositional =>
        exact congrArg LogArguments.positional (hvalues _ _ hpositional)
    | named hnamed =>
        apply congrArg LogArguments.named
        rw [← List.forall₂_eq_eq_eq]
        apply List.rel_map ?_ hnamed
        intro first second hentry
        exact Prod.ext hentry.1 hentry.2.redacted
    | other value => rfl

/-! ## The targets of the content service -/

/-- What a route reads in a path: the audience, the token and what follows its slash. -/
def ContentRoute.read? : ContentRoute → Option (Audience × Text × Text)
  | .html audience token => some (audience, token, [])
  | .artifact audience token logicalName => some (audience, token, logicalName)
  | .unavailable => none

theorem intercalate_segments (first second third last : Text) :
    ['/'].intercalate [[], first, second, third, last] =
      '/' :: (first ++ '/' :: (second ++ '/' :: (third ++ '/' :: last))) := by
  simp [List.intercalate, List.intersperse]

/-- A path with a route is the target of its token. -/
theorem target_of_route {path token after : Text} {audience : Audience}
    (hroute : (contentRoute path).read? = some (audience, token, after)) :
    token ≠ [] ∧ path = audience.target token after := by
  have hjoined : ['/'].intercalate (path.splitOn '/') = path := List.intercalate_splitOn '/'
  unfold contentRoute at hroute
  split at hroute
  · rename_i root render segment found last hparts
    rw [hparts] at hjoined
    split at hroute
    · rename_i hsegments
      rcases hsegments with ⟨hroot, hrender, hne⟩
      rw [hroot, hrender] at hjoined
      split at hroute
      · rename_i hpreview
        rw [hpreview, intercalate_segments, ← Audience.target_segments] at hjoined
        split at hroute
        · rename_i hlast
          cases hroute
          rw [hlast] at hjoined
          exact ⟨hne, hjoined.symm⟩
        · cases hroute
          exact ⟨hne, hjoined.symm⟩
      · split at hroute
        · rename_i hviewer
          rw [hviewer, intercalate_segments, ← Audience.target_segments] at hjoined
          split at hroute
          · rename_i hlast
            cases hroute
            rw [hlast] at hjoined
            exact ⟨hne, hjoined.symm⟩
          · cases hroute
            exact ⟨hne, hjoined.symm⟩
        · contradiction
    · contradiction
  · contradiction

theorem isTargetCharacter_of_urlSafe {c : Char} (hsafe : isUrlSafe c = true) :
    isTargetCharacter c = true := by
  have hrange : 33 ≤ c.toNat ∧ c.toNat ≤ 127 ∧ c.toNat ≠ 47 ∧ c.toNat ≠ 63 := by
    simp only [isUrlSafe, Bool.or_eq_true, Bool.and_eq_true, decide_eq_true_eq, beq_iff_eq,
      Char.le_def, UInt32.le_iff_toNat_le] at hsafe
    rcases hsafe with (((hupper | hlower) | hdigit) | rfl) | rfl
    · change 65 ≤ c.toNat ∧ c.toNat ≤ 90 at hupper
      omega
    · change 97 ≤ c.toNat ∧ c.toNat ≤ 122 at hlower
      omega
    · change 48 ≤ c.toNat ∧ c.toNat ≤ 57 at hdigit
      omega
    · decide
    · decide
  have hspace : isPythonSpace c = false := by
    have hlist : ∀ space ∈ [9, 10, 11, 12, 13, 28, 29, 30, 31, 32, 133, 160, 5760, 8232, 8233,
        8239, 8287, 12288], space ≠ c.toNat := by
      intro space hspace
      have hbound : space < 33 ∨ 127 < space := by
        revert space
        decide
      omega
    rw [isPythonSpace, Bool.or_eq_false_iff, Bool.and_eq_false_iff, decide_eq_false_iff_not,
      List.contains_eq_mem, decide_eq_false_iff_not]
    refine ⟨fun hmem => hlist _ hmem rfl, .inl ?_⟩
    omega
  have hslash : c ≠ '/' := fun heq => hrange.2.2.1 (heq ▸ rfl)
  have hquestion : c ≠ '?' := fun heq => hrange.2.2.2 (heq ▸ rfl)
  simp [isTargetCharacter, hspace, hslash, hquestion]

/-- An issued token is a segment. -/
theorem BearerToken.isSegment (token : BearerToken) (after : Text) :
    IsSegment token.value ('/' :: after) := by
  have hcanonical := token.canonical
  rw [isToken, Bool.and_eq_true, beq_iff_eq, List.all_eq_true] at hcanonical
  apply isSegment_slash
  · intro hempty
    rw [hempty] at hcanonical
    exact absurd hcanonical.1 (by decide)
  · exact fun c hc => isTargetCharacter_of_urlSafe (hcanonical.2 c hc)

/-- Two records that differ in tokens of request targets alone leave one log record.  Every path
with a route is a target, and every issued token is a segment. -/
theorem logged_tokens_are_hidden :
    (∀ record other : LogRecord ω, record.msg.SameButTokens other.msg →
      record.args.SameButTokens other.args → record.filter = other.filter) ∧
    (∀ (path token after : Text) (audience : Audience),
      (contentRoute path).read? = some (audience, token, after) →
        token ≠ [] ∧ path = audience.target token after) ∧
    ∀ (token : BearerToken) (after : Text), IsSegment token.value ('/' :: after) := by
  refine ⟨?_, ?_, BearerToken.isSegment⟩
  · intro record other hmsg hargs
    exact LogRecord.filter_eq hmsg hargs
  · intro path token after audience hroute
    exact target_of_route hroute

theorem endsApart_nil : EndsApart [] := by
  intro audience hsuffix
  have hnil := List.suffix_nil.mp hsuffix
  cases audience
  · exact absurd hnil (by decide +kernel)
  · exact absurd hnil (by decide +kernel)

/-- The record of a request for a path. -/
def requestRecord (path : Text) : LogRecord Unit where
  msg := .text "GET %s".toList
  args := .positional [.text path]

theorem two_requests_logged_alike :
    (requestRecord ("/render/preview/".toList ++ (firstToken 0).value ++ ['/'])).filter =
      (requestRecord ("/render/preview/".toList ++ (secondToken 0).value ++ ['/'])).filter := by
  have hfirst :
      (contentRoute ("/render/preview/".toList ++ (firstToken 0).value ++ ['/'])).read? =
        some (.preview, (firstToken 0).value, []) := by
    decide +kernel
  have hsecond :
      (contentRoute ("/render/preview/".toList ++ (secondToken 0).value ++ ['/'])).read? =
        some (.preview, (secondToken 0).value, []) := by
    decide +kernel
  rw [(target_of_route hfirst).2, (target_of_route hsecond).2]
  have hretokened :
      (LogValue.text (Audience.preview.target (firstToken 0).value []) : LogValue Unit).Retokened
        (.text (Audience.preview.target (secondToken 0).value [])) :=
    .token endsApart_nil ((firstToken 0).isSegment []) ((secondToken 0).isSegment [])
  apply logged_tokens_are_hidden.1
  · exact .refl
  · exact .positional (.cons (.single hretokened) .nil)

end Agora
