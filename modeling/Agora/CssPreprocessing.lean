import Agora.CssDecoding

/-!
# Decoded texts before and after preprocessing

The validator decodes a text as it is, and the tokenizer reads it with line feeds as its only
line breaks and without null characters.  The decoded texts differ in these characters only.
-/

namespace Agora

open CssSyntax

/-- A character of a text, and the one that the tokenizer reads for it. -/
def ReadsAs (c read : Char) : Prop :=
  c = read ∨ (read = '\n' ∧ (c = '\r' ∨ c = '\x0c')) ∨ (c = '\x00' ∧ read = Char.ofNat 0xFFFD)

/-- Texts that differ as a text differs from the one that the tokenizer reads. -/
inductive Alike : Text → Text → Prop where
  | nil : Alike [] []
  | char {c read : Char} {text other : Text} (hread : ReadsAs c read) (hrest : Alike text other) :
      Alike (c :: text) (read :: other)
  | feed {text other : Text} (hrest : Alike text other) :
      Alike ('\r' :: '\n' :: text) ('\n' :: other)

instance (c read : Char) : Decidable (ReadsAs c read) :=
  inferInstanceAs (Decidable (_ ∨ _))

instance decidableAlike : (other text : Text) → Decidable (Alike text other)
  | [], [] => .isTrue .nil
  | [], _ :: _ => .isFalse fun halike => by cases halike
  | _ :: _, [] => .isFalse fun halike => by cases halike
  | read :: other, c :: text =>
      have := decidableAlike other text
      have := decidableAlike other text.tail
      decidable_of_iff ((ReadsAs c read ∧ Alike text other) ∨
        (c = '\r' ∧ read = '\n' ∧ text.head? = some '\n' ∧ Alike text.tail other)) <| by
      constructor
      · rintro (⟨hread, hrest⟩ | ⟨rfl, rfl, hhead, hrest⟩)
        · exact .char hread hrest
        · obtain ⟨rest, rfl⟩ := List.head?_eq_some_iff.mp hhead
          exact .feed hrest
      · intro halike
        cases halike with
        | char hread hrest => exact .inl ⟨hread, hrest⟩
        | feed hrest => exact .inr ⟨rfl, rfl, rfl, hrest⟩

section Preprocessing

variable {c read : Char} {text other first second : Text}

theorem ReadsAs.refl (c : Char) : ReadsAs c c :=
  .inl rfl

theorem ReadsAs.feed : ReadsAs '\r' '\n' :=
  .inr (.inl ⟨rfl, .inl rfl⟩)

theorem Alike.refl (text : Text) : Alike text text := by
  induction text with
  | nil => exact .nil
  | cons c rest ih => exact .char (.refl c) ih

theorem Alike.append (hfirst : Alike text other) (hsecond : Alike first second) :
    Alike (text ++ first) (other ++ second) := by
  induction hfirst with
  | nil => exact hsecond
  | char hread _ ih => exact .char hread ih
  | feed _ ih => exact .feed ih

/-! ## Decoding -/

theorem decodeCssFrom_returned (hhead : text.head? ≠ some '\n') :
    decodeCssFrom .returned text = decodeCssEscapes text := by
  cases text with
  | nil => rfl
  | cons c rest =>
      have hc : c ≠ '\n' := fun hc => hhead (congrArg some hc)
      simp only [decodeCssEscapes, decodeCssFrom, cssEscapeStep, if_neg hc]

theorem plain_ne_returned : CssEscapeState.plain ≠ .returned := by
  decide

theorem cssPlainStep_returned : (cssPlainStep c).1 ≠ .returned := by
  unfold cssPlainStep
  split
  · intro heq
    cases heq
  · intro heq
    cases heq

theorem cssAfterEscape_returned (hc : c ≠ '\r') : (cssAfterEscape c).1 ≠ .returned := by
  rw [cssAfterEscape, if_neg hc]
  split
  · intro heq
    cases heq
  · exact cssPlainStep_returned

/-- Only a carriage return leads to the state after one. -/
theorem cssEscapeStep_returned {state : CssEscapeState} (hc : c ≠ '\r') :
    (cssEscapeStep state c).1 ≠ .returned := by
  cases state with
  | plain => exact cssPlainStep_returned
  | opened =>
      simp only [cssEscapeStep, if_neg hc]
      split
      · intro heq
        cases heq
      · split
        · intro heq
          cases heq
        · intro heq
          cases heq
  | hexadecimal count value =>
      simp only [cssEscapeStep]
      split
      · intro heq
        cases heq
      · exact cssAfterEscape_returned hc
  | returned =>
      simp only [cssEscapeStep]
      split
      · intro heq
        cases heq
      · exact cssPlainStep_returned

/-- Behind a hexadecimal escape that a character ends. -/
theorem decodeCssFrom_ended {count value : ℕ} (hdigit : hexValue c = none) :
    decodeCssFrom (.hexadecimal count value) (c :: text) =
      cssCharacter value :: ((cssAfterEscape c).2 ++ decodeCssFrom (cssAfterEscape c).1 text) := by
  have hnone : (if count < 6 then hexValue c else none) = none := by
    rw [hdigit]
    exact ite_self _
  simp only [decodeCssFrom, cssEscapeStep, hnone]
  rfl

/-- A character decodes as the one does that is read for it. -/
theorem decodeCssFrom_reads {state : CssEscapeState} (hstate : state ≠ .returned)
    (hread : ReadsAs c read) (hplainRead : read ≠ '\r')
    (hreturn : c = '\r' → text.head? ≠ some '\n')
    (hrest : ∀ later, later ≠ .returned → Alike (decodeCssFrom later text)
      (decodeCssFrom later other)) :
    Alike (decodeCssFrom state (c :: text)) (decodeCssFrom state (read :: other)) := by
  have hplain := hrest .plain plain_ne_returned
  rcases hread with rfl | ⟨rfl, rfl | rfl⟩ | ⟨rfl, rfl⟩
  · exact (Alike.refl _).append (hrest _ (cssEscapeStep_returned hplainRead))
  · have hreturned : Alike (decodeCssFrom .returned text) (decodeCssFrom .plain other) := by
      rw [decodeCssFrom_returned (hreturn rfl)]
      exact hplain
    cases state with
    | plain => exact .char .feed hplain
    | opened => exact hreturned
    | hexadecimal count value =>
        rw [decodeCssFrom_ended rfl, decodeCssFrom_ended rfl]
        exact .char (.refl _) hreturned
    | returned => exact absurd rfl hstate
  · cases state with
    | plain => exact .char (.inr (.inl ⟨rfl, .inr rfl⟩)) hplain
    | opened => exact hplain
    | hexadecimal count value =>
        rw [decodeCssFrom_ended rfl, decodeCssFrom_ended rfl]
        exact .char (.refl _) hplain
    | returned => exact absurd rfl hstate
  · have hnull : ReadsAs '\x00' (Char.ofNat 0xFFFD) := .inr (.inr ⟨rfl, rfl⟩)
    cases state with
    | plain => exact .char hnull hplain
    | opened => exact .char hnull hplain
    | hexadecimal count value =>
        rw [decodeCssFrom_ended rfl, decodeCssFrom_ended rfl]
        exact .char (.refl _) (.char hnull hplain)
    | returned => exact absurd rfl hstate

/-- What the tokenizer reads for a character. -/
theorem readsAs_preprocess (c : Char) :
    ReadsAs c (if c = '\r' ∨ c = '\x0c' then '\n'
        else if c = '\x00' then Char.ofNat 0xFFFD else c) ∧
      (if c = '\r' ∨ c = '\x0c' then '\n'
        else if c = '\x00' then Char.ofNat 0xFFFD else c) ≠ '\r' := by
  by_cases hbreak : c = '\r' ∨ c = '\x0c'
  · rw [if_pos hbreak]
    exact ⟨.inr (.inl ⟨rfl, hbreak⟩), by decide⟩
  · rw [if_neg hbreak]
    by_cases hnull : c = '\x00'
    · rw [if_pos hnull]
      exact ⟨.inr (.inr ⟨hnull, rfl⟩), by decide⟩
    · rw [if_neg hnull]
      exact ⟨.inl rfl, fun hc => hbreak (.inl hc)⟩

theorem alike_decodeCssFrom {state : CssEscapeState} (hstate : state ≠ .returned) (text : Text) :
    Alike (decodeCssFrom state text) (decodeCssFrom state (preprocess text)) := by
  fun_induction preprocess text generalizing state with
  | case1 rest ih =>
      have hplain := ih plain_ne_returned
      cases state with
      | plain => exact .feed hplain
      | opened => exact hplain
      | hexadecimal count value =>
          rw [decodeCssFrom_ended rfl, decodeCssFrom_ended rfl]
          exact .char (.refl _) hplain
      | returned => exact absurd rfl hstate
  | case2 c rest hbreak ih =>
      have hread := readsAs_preprocess c
      refine decodeCssFrom_reads hstate hread.1 hread.2 ?_ fun later hlater => ih hlater
      intro hc hhead
      obtain ⟨more, hmore⟩ := List.head?_eq_some_iff.mp hhead
      exact hbreak more hc hmore
  | case3 => exact .refl _

theorem alike_decodeCss (text : Text) :
    Alike (decodeCssEscapes text) (decodeCssEscapes (preprocess text)) :=
  alike_decodeCssFrom plain_ne_returned text

/-! ## Alike texts -/

theorem Alike.split (halike : Alike text (first ++ second)) :
    ∃ earlier later, text = earlier ++ later ∧ Alike earlier first ∧ Alike later second := by
  induction first generalizing text with
  | nil => exact ⟨[], text, rfl, .nil, halike⟩
  | cons read first ih =>
      cases halike with
      | char hread hrest =>
          obtain ⟨earlier, later, rfl, hearlier, hlater⟩ := ih hrest
          exact ⟨_ :: earlier, later, rfl, .char hread hearlier, hlater⟩
      | feed hrest =>
          obtain ⟨earlier, later, rfl, hearlier, hlater⟩ := ih hrest
          exact ⟨'\r' :: '\n' :: earlier, later, rfl, .feed hearlier, hlater⟩

theorem getLast?_cons_of_some (hlast : text.getLast? = some read) :
    (c :: text).getLast? = some read := by
  rw [List.getLast?_cons, hlast]
  rfl

/-- A text is split anywhere but between a carriage return and a line feed. -/
theorem Alike.split_left (halike : Alike (first ++ second) other)
    (hfeed : first.getLast? = some '\r' → second.head? ≠ some '\n') :
    ∃ earlier later, other = earlier ++ later ∧ Alike first earlier ∧ Alike second later := by
  generalize hwhole : first ++ second = whole at halike
  induction halike generalizing first with
  | nil =>
      obtain ⟨rfl, rfl⟩ := List.append_eq_nil_iff.mp hwhole
      exact ⟨[], [], rfl, .nil, .nil⟩
  | @char c read rest other hread hrest ih =>
      cases first with
      | nil =>
          rw [List.nil_append] at hwhole
          exact ⟨[], read :: other, rfl, .nil, hwhole ▸ .char hread hrest⟩
      | cons d first =>
          obtain ⟨rfl, hfirst⟩ := List.cons.inj hwhole
          obtain ⟨earlier, later, rfl, hearlier, hlater⟩ :=
            ih (fun hlast => hfeed (getLast?_cons_of_some hlast)) hfirst
          exact ⟨read :: earlier, later, rfl, .char hread hearlier, hlater⟩
  | @feed rest other hrest ih =>
      cases first with
      | nil =>
          rw [List.nil_append] at hwhole
          exact ⟨[], '\n' :: other, rfl, .nil, hwhole ▸ .feed hrest⟩
      | cons d first =>
          obtain ⟨rfl, hfirst⟩ := List.cons.inj hwhole
          cases first with
          | nil =>
              have hsecond : second = '\n' :: rest := hfirst
              rw [hsecond] at hfeed
              exact absurd rfl (hfeed rfl)
          | cons e first =>
              obtain ⟨rfl, hlast⟩ := List.cons.inj hfirst
              obtain ⟨earlier, later, rfl, hearlier, hlater⟩ :=
                ih (fun hreturn => hfeed (getLast?_cons_of_some (getLast?_cons_of_some hreturn)))
                  hlast
              exact ⟨'\n' :: earlier, later, rfl, .feed hearlier, hlater⟩

/-- A property that a character shares with the one that is read for it. -/
def SharedClass (accepts : Char → Bool) : Prop :=
  ∀ c read, ReadsAs c read → accepts c = accepts read

section Classes

variable {accepts : Char → Bool}

theorem sharedClass_of_breaks (hreturn : accepts '\r' = accepts '\n')
    (hfeed : accepts '\x0c' = accepts '\n')
    (hnull : accepts '\x00' = accepts (Char.ofNat 0xFFFD)) : SharedClass accepts := by
  rintro c read (rfl | ⟨rfl, rfl | rfl⟩ | ⟨rfl, rfl⟩)
  · rfl
  · exact hreturn
  · exact hfeed
  · exact hnull

theorem Alike.all (hshared : SharedClass accepts) (halike : Alike text other) :
    text.all accepts = other.all accepts := by
  induction halike with
  | nil => rfl
  | char hread _ ih => rw [List.all_cons, List.all_cons, hshared _ _ hread, ih]
  | feed _ ih =>
      rw [List.all_cons, List.all_cons, List.all_cons, hshared _ _ .feed, ih, ← Bool.and_assoc,
        Bool.and_self]

theorem Alike.forall_iff (hshared : SharedClass accepts) (halike : Alike text other) :
    (∀ c ∈ text, accepts c = true) ↔ ∀ c ∈ other, accepts c = true := by
  rw [← List.all_eq_true, ← List.all_eq_true, halike.all hshared]

theorem Alike.head (hshared : SharedClass accepts) (halike : Alike text other) :
    text.head?.any accepts = other.head?.any accepts := by
  cases halike with
  | nil => rfl
  | char hread _ => exact hshared _ _ hread
  | feed _ => exact hshared _ _ .feed

theorem Alike.last (hshared : SharedClass accepts) (halike : Alike text other) :
    text.getLast?.any accepts = other.getLast?.any accepts := by
  cases other using List.reverseRecOn with
  | nil => cases halike; rfl
  | append_singleton earlier read =>
      obtain ⟨first, second, rfl, _, hlast⟩ := halike.split
      rw [List.getLast?_append, List.getLast?_append]
      cases hlast with
      | char hread hrest =>
          cases hrest
          exact hshared _ _ hread
      | feed hrest =>
          cases hrest
          rfl

end Classes

theorem Alike.eq_of_right (halike : Alike text other) (hbreak : '\n' ∉ other)
    (hreplaced : Char.ofNat 0xFFFD ∉ other) : text = other := by
  induction halike with
  | nil => rfl
  | char hread _ ih =>
      rw [List.mem_cons, not_or] at hbreak hreplaced
      rw [ih hbreak.2 hreplaced.2]
      rcases hread with rfl | ⟨rfl, _⟩ | ⟨_, rfl⟩
      · rfl
      · exact absurd rfl hbreak.1
      · exact absurd rfl hreplaced.1
  | feed => exact absurd List.mem_cons_self hbreak

/-- The characters of a class without the replaced ones are read as they are. -/
theorem kept_of_class {accepts : Char → Bool} (hreturn : accepts '\r' = false)
    (hfeed : accepts '\x0c' = false) (hnull : accepts '\x00' = false) (hc : accepts c = true) :
    c ∉ ['\r', '\x0c', '\x00'] := by
  intro hmem
  simp only [List.mem_cons, List.not_mem_nil, or_false] at hmem
  rcases hmem with rfl | rfl | rfl
  · rw [hreturn] at hc
    cases hc
  · rw [hfeed] at hc
    cases hc
  · rw [hnull] at hc
    cases hc

theorem Alike.eq_of_left (halike : Alike text other)
    (hkept : ∀ c ∈ text, c ∉ ['\r', '\x0c', '\x00']) : text = other := by
  induction halike with
  | nil => rfl
  | @char c read rest other hread _ ih =>
      obtain ⟨hc, hrest⟩ := List.forall_mem_cons.mp hkept
      rw [ih hrest]
      rcases hread with rfl | ⟨_, rfl | rfl⟩ | ⟨rfl, _⟩
      · rfl
      · exact absurd (by decide) hc
      · exact absurd (by decide) hc
      · exact absurd (by decide) hc
  | feed => exact absurd (by decide) (hkept '\r' List.mem_cons_self)

/-- Texts without white space and null characters are the same. -/
theorem Alike.eq_of_spaceless (halike : Alike text other)
    (hspaces : ∀ c ∈ text, isPythonSpace c = false) (hnull : '\x00' ∉ text) : text = other := by
  induction halike with
  | nil => rfl
  | @char c read rest other hread hrest ih =>
      obtain ⟨hc, hlater⟩ := List.forall_mem_cons.mp hspaces
      have hsame := ih hlater fun hmem => hnull (List.mem_cons_of_mem _ hmem)
      rcases hread with rfl | ⟨rfl, rfl | rfl⟩ | ⟨rfl, rfl⟩
      · rw [hsame]
      · cases hc
      · cases hc
      · exact absurd List.mem_cons_self hnull
  | feed => cases hspaces '\r' List.mem_cons_self

end Preprocessing

end Agora
