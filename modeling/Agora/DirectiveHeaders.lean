import Agora.ArtifactStorageKeys
import Mathlib.Data.List.Basic

/-!
# Headers of directives

A header lists directives between semicolons; a directive is a name and its sources between
blanks.  Reading a written header gives the directives back, as long as no token contains a
semicolon or a blank.
-/

namespace Agora

structure Directive where
  name : Text
  sources : List Text
  deriving DecidableEq, Repr

def Directive.tokens (directive : Directive) : List Text :=
  directive.name :: directive.sources

/-- The name and the sources with a blank between any two. -/
def Directive.text (directive : Directive) : Text :=
  [' '].intercalate directive.tokens

/-- The texts of a header between blanks. -/
def splitBlanks (text : Text) : List Text :=
  (text.splitOn ' ').filter (· ≠ [])

def Directive.ofTokens : List Text → Option Directive
  | [] => none
  | name :: sources => some ⟨name, sources⟩

/-- The directives of a header: split at semicolons, then at blanks. -/
def parseDirectives (header : Text) : List Directive :=
  (header.splitOn ';').filterMap fun piece => Directive.ofTokens (splitBlanks piece)

def joinDirectives (directives : List Text) : Text :=
  "; ".toList.intercalate directives

/-- A text that stays one token of a header. -/
structure IsToken (text : Text) : Prop where
  nonempty : text ≠ []
  blank : ' ' ∉ text
  semicolon : ';' ∉ text

instance : DecidablePred IsToken := fun text =>
  decidable_of_iff (text ≠ [] ∧ ' ' ∉ text ∧ ';' ∉ text)
    ⟨fun h => ⟨h.1, h.2.1, h.2.2⟩, fun h => ⟨h.nonempty, h.blank, h.semicolon⟩⟩

def Directive.Plain (directive : Directive) : Prop :=
  ∀ token ∈ directive.tokens, IsToken token

instance : DecidablePred Directive.Plain := fun directive =>
  inferInstanceAs (Decidable (∀ token ∈ directive.tokens, IsToken token))

section Splitting

variable {text piece token header : Text} {directive : Directive}

theorem subset_of_mem_splitOn {delimiter : Char} (hpiece : piece ∈ text.splitOn delimiter) :
    ∀ c ∈ piece, c ∈ text ∧ c ≠ delimiter := by
  induction text generalizing piece with
  | nil =>
      rw [List.splitOn_nil, List.mem_singleton] at hpiece
      simp [hpiece]
  | cons c rest ih =>
      rw [List.splitOn_cons_eq_if_modifyHead] at hpiece
      by_cases hdelimiter : c == delimiter
      · rw [if_pos hdelimiter, List.mem_cons] at hpiece
        intro d hd
        cases hpiece with
        | inl hempty =>
            rw [hempty] at hd
            cases hd
        | inr hrest =>
            have hfound := ih hrest d hd
            exact ⟨List.mem_cons_of_mem _ hfound.1, hfound.2⟩
      · rw [if_neg hdelimiter] at hpiece
        have hne : c ≠ delimiter := by simpa using hdelimiter
        cases hsplit : rest.splitOn delimiter with
        | nil =>
            rw [hsplit] at hpiece
            cases hpiece
        | cons first others =>
            rw [hsplit, List.modifyHead_cons, List.mem_cons] at hpiece
            intro d hd
            cases hpiece with
            | inl hfirst =>
                rw [hfirst, List.mem_cons] at hd
                cases hd with
                | inl hhead =>
                    rw [hhead]
                    exact ⟨List.mem_cons_self, hne⟩
                | inr htail =>
                    have hmem : first ∈ rest.splitOn delimiter := by
                      rw [hsplit]
                      exact List.mem_cons_self
                    have hfound := ih hmem d htail
                    exact ⟨List.mem_cons_of_mem _ hfound.1, hfound.2⟩
            | inr hother =>
                have hmem : piece ∈ rest.splitOn delimiter := by
                  rw [hsplit]
                  exact List.mem_cons_of_mem _ hother
                have hfound := ih hmem d hd
                exact ⟨List.mem_cons_of_mem _ hfound.1, hfound.2⟩

/-- No token of a header that was read contains a semicolon. -/
theorem semicolon_notMem_of_parse (hparsed : directive ∈ parseDirectives header)
    (htoken : token ∈ directive.tokens) : ';' ∉ token := by
  rw [parseDirectives, List.mem_filterMap] at hparsed
  obtain ⟨piece, hpiece, htokens⟩ := hparsed
  have hmem : token ∈ splitBlanks piece := by
    cases hsplit : splitBlanks piece with
    | nil =>
        rw [hsplit] at htokens
        cases htokens
    | cons name sources =>
        rw [hsplit, Directive.ofTokens, Option.some.injEq] at htokens
        rw [← htokens] at htoken
        exact htoken
  intro hsemicolon
  have hinner := subset_of_mem_splitOn (List.mem_of_mem_filter hmem) ';' hsemicolon
  exact (subset_of_mem_splitOn hpiece ';' hinner.1).2 rfl

theorem splitBlanks_blank_cons : splitBlanks (' ' :: text) = splitBlanks text := by
  rw [splitBlanks, List.splitOn_cons_eq_if_modifyHead, if_pos (by decide), List.filter_cons_of_neg
    (by simp)]
  rfl

theorem splitBlanks_text (hplain : directive.Plain) :
    splitBlanks directive.text = directive.tokens := by
  rw [splitBlanks, Directive.text, List.splitOn_intercalate ' ' (fun token htoken =>
    (hplain token htoken).blank) (by simp [Directive.tokens]), List.filter_eq_self]
  intro token htoken
  rw [decide_eq_true_eq]
  exact (hplain token htoken).nonempty

theorem mem_intercalate {separator : Text} {parts : List Text} {c : Char}
    (hmem : c ∈ separator.intercalate parts) : c ∈ separator ∨ ∃ part ∈ parts, c ∈ part := by
  induction parts with
  | nil =>
      rw [List.intercalate_nil] at hmem
      cases hmem
  | cons part rest ih =>
      cases rest with
      | nil =>
          rw [List.intercalate_singleton] at hmem
          exact Or.inr ⟨part, List.mem_cons_self, hmem⟩
      | cons next others =>
          rw [List.intercalate_cons_cons, List.append_assoc, List.mem_append,
            List.mem_append] at hmem
          rcases hmem with hpart | hseparator | hrest
          · exact Or.inr ⟨part, List.mem_cons_self, hpart⟩
          · exact Or.inl hseparator
          · cases ih hrest with
            | inl hseparator => exact Or.inl hseparator
            | inr hfound =>
                obtain ⟨found, hmem, hc⟩ := hfound
                exact Or.inr ⟨found, List.mem_cons_of_mem _ hmem, hc⟩

theorem semicolon_notMem_text (hplain : directive.Plain) : ';' ∉ directive.text := by
  intro hmem
  cases mem_intercalate hmem with
  | inl hblank => simp at hblank
  | inr hfound =>
      obtain ⟨token, htoken, hsemicolon⟩ := hfound
      exact (hplain token htoken).semicolon hsemicolon

theorem parseDirectives_blank_cons : parseDirectives (' ' :: text) = parseDirectives text := by
  rw [parseDirectives, List.splitOn_cons_eq_if_modifyHead, if_neg (by decide), parseDirectives]
  cases hsplit : text.splitOn ';' with
  | nil => rfl
  | cons first others =>
      rw [List.modifyHead_cons, List.filterMap_cons, List.filterMap_cons, splitBlanks_blank_cons]

theorem parseDirectives_text (hplain : directive.Plain) :
    parseDirectives directive.text = [directive] := by
  have hwhole : directive.text.splitOn ';' = [directive.text] := by
    apply List.splitOnP_eq_singleton
    intro c hc
    rw [beq_eq_false_iff_ne]
    intro hsemicolon
    exact semicolon_notMem_text hplain (hsemicolon ▸ hc)
  rw [parseDirectives, hwhole, List.filterMap_cons, splitBlanks_text hplain]
  rfl

theorem parseDirectives_semicolon (hplain : directive.Plain) :
    parseDirectives (directive.text ++ ';' :: text) = directive :: parseDirectives text := by
  have hfirst : (directive.text ++ ';' :: text).splitOn ';' =
      directive.text :: text.splitOn ';' := by
    apply List.splitOnP_append_cons_of_forall_mem
    · intro c hc
      rw [beq_eq_false_iff_ne]
      intro hsemicolon
      exact semicolon_notMem_text hplain (hsemicolon ▸ hc)
    · exact beq_self_eq_true ';'
  rw [parseDirectives, hfirst, List.filterMap_cons, splitBlanks_text hplain]
  rfl

/-- Reading what was written gives the directives back. -/
theorem parseDirectives_join (directives : List Directive) (hplain : ∀ d ∈ directives, d.Plain) :
    parseDirectives (joinDirectives (directives.map Directive.text)) = directives := by
  induction directives with
  | nil => rfl
  | cons directive rest ih =>
      have hdirective := hplain directive List.mem_cons_self
      have hrest := ih fun d hd => hplain d (List.mem_cons_of_mem _ hd)
      cases rest with
      | nil =>
          rw [joinDirectives, List.map_cons, List.map_nil, List.intercalate_singleton]
          exact parseDirectives_text hdirective
      | cons next others =>
          rw [joinDirectives, List.map_cons, List.map_cons, List.intercalate_cons_cons,
            List.append_assoc]
          rw [joinDirectives, List.map_cons] at hrest
          exact (parseDirectives_semicolon hdirective).trans
            (congrArg (directive :: ·) (parseDirectives_blank_cons.trans hrest))

end Splitting

end Agora
