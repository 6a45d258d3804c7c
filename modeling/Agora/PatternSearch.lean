import Agora.PatternMatches

/-!
# Searches that are taken apart

Where no match crosses the seam of two texts, the search of the joined text goes through the
first one and then through the second.
-/

namespace TextPattern

open TextPosition

variable {isWord : Char → Bool} {pattern : TextPattern} {position stop : TextPosition}
variable {before after : List Char}

/-! ## Searches -/

/-- The search of the text behind a position. -/
def search (isWord : Char → Bool) (pattern : TextPattern) (before after : List Char) :
    List Found :=
  pattern.findFrom isWord (after.length + 1) ⟨before, after, []⟩

theorem findAll_eq_search (text : List Char) :
    pattern.findAll isWord text = pattern.search isWord [] text :=
  rfl

theorem findFrom_fuel {fuel : ℕ} (hfuel : after.length < fuel) :
    pattern.findFrom isWord fuel ⟨before, after, []⟩ = pattern.search isWord before after := by
  unfold search
  generalize hlength : after.length + 1 = enough
  have henough : after.length < enough := by omega
  clear hlength
  induction fuel generalizing enough before after with
  | zero => exact absurd hfuel (Nat.not_lt_zero _)
  | succ fuel ih =>
      cases enough with
      | zero => exact absurd henough (Nat.not_lt_zero _)
      | succ enough =>
          have hnext : ∀ c rest, after = c :: rest →
              pattern.findFrom isWord fuel ⟨c :: before, rest, []⟩ =
                pattern.findFrom isWord enough ⟨c :: before, rest, []⟩ := by
            intro c rest hafter
            rw [hafter, List.length_cons] at hfuel henough
            exact ih (by omega) enough (by omega)
          rw [findFrom, findFrom]
          cases hmatch : pattern.matchAt isWord ⟨before, after, []⟩ with
          | none =>
              cases after with
              | nil => rfl
              | cons c rest => exact hnext c rest rfl
          | some stop =>
              dsimp only
              congr 1
              by_cases hprogress : stop.after.length < after.length
              · rw [if_pos hprogress]
                exact ih (by omega) enough (by omega)
              · rw [if_neg hprogress]
                cases after with
                | nil => rfl
                | cons c rest => exact hnext c rest rfl

theorem search_nil :
    pattern.search isWord before [] =
      ((pattern.matchAt isWord ⟨before, [], []⟩).map (Found.mk ⟨before, [], []⟩)).toList := by
  unfold search findFrom
  cases pattern.matchAt isWord ⟨before, [], []⟩ with
  | none => rfl
  | some stop =>
      have hless : ¬ stop.after.length < ([] : List Char).length := Nat.not_lt_zero _
      dsimp only
      rw [if_neg hless]
      rfl

theorem search_cons_of_none {c : Char} {rest : List Char}
    (hnone : pattern.matchAt isWord ⟨before, c :: rest, []⟩ = none) :
    pattern.search isWord before (c :: rest) = pattern.search isWord (c :: before) rest := by
  rw [search, findFrom, hnone]
  rfl

/-- After a match, the search goes on behind it, or behind the next character where the match is
empty. -/
theorem search_cons_of_some {c : Char} {rest : List Char} {stop : TextPosition}
    (hsome : pattern.matchAt isWord ⟨before, c :: rest, []⟩ = some stop) :
    pattern.search isWord before (c :: rest) = ⟨⟨before, c :: rest, []⟩, stop⟩ ::
      if stop.after.length ≤ rest.length then pattern.search isWord stop.before stop.after
      else pattern.search isWord (c :: before) rest := by
  rw [search, findFrom, hsome]
  dsimp only
  congr 1
  by_cases hprogress : stop.after.length ≤ rest.length
  · have hless : stop.after.length < (c :: rest).length := Nat.lt_succ_of_le hprogress
    rw [if_pos hless, if_pos hprogress]
    exact findFrom_fuel hless
  · have hless : ¬ stop.after.length < (c :: rest).length := fun hless =>
      hprogress (Nat.le_of_lt_succ hless)
    rw [if_neg hless, if_neg hprogress]
    rfl

theorem reads_of_matchAt (hmatch : pattern.matchAt isWord position = some stop) :
    ∃ piece, position.Reads stop piece :=
  reads_of_ends (List.mem_of_mem_head? hmatch)

/-- A pattern occurs where it matches at some place. -/
theorem search_ne_nil_iff : pattern.search isWord before after ≠ [] ↔
    ∃ earlier later, after = earlier ++ later ∧
      pattern.ends isWord ⟨earlier.reverse ++ before, later, []⟩ ≠ [] := by
  induction after generalizing before with
  | nil =>
      rw [search_nil]
      constructor
      · intro hfound
        refine ⟨[], [], rfl, fun hnil => hfound ?_⟩
        have hmatch : pattern.matchAt isWord ⟨before, [], []⟩ = none := congrArg List.head? hnil
        rw [hmatch]
        rfl
      · rintro ⟨earlier, later, hsplit, hends⟩
        obtain ⟨rfl, rfl⟩ := List.append_eq_nil_iff.mp hsplit.symm
        obtain ⟨stop, rest, hcons⟩ := List.exists_cons_of_ne_nil hends
        have hmatch : pattern.matchAt isWord ⟨before, [], []⟩ = some stop :=
          congrArg List.head? hcons
        rw [hmatch]
        exact List.cons_ne_nil _ _
  | cons c rest ih =>
      cases hmatch : pattern.matchAt isWord ⟨before, c :: rest, []⟩ with
      | none =>
          have hnil := List.head?_eq_none_iff.mp hmatch
          rw [search_cons_of_none hmatch, ih]
          constructor
          · rintro ⟨earlier, later, hsplit, hends⟩
            refine ⟨c :: earlier, later, congrArg (c :: ·) hsplit, ?_⟩
            rwa [List.reverse_cons, List.append_assoc]
          · rintro ⟨earlier, later, hsplit, hends⟩
            cases earlier with
            | nil =>
                rw [List.nil_append] at hsplit
                rw [← hsplit] at hends
                exact absurd hnil hends
            | cons d earlier =>
                rw [List.cons_append, List.cons.injEq] at hsplit
                refine ⟨earlier, later, hsplit.2, ?_⟩
                rwa [hsplit.1, ← List.singleton_append, ← List.append_assoc, ← List.reverse_cons]
      | some stop =>
          rw [search_cons_of_some hmatch]
          constructor
          · intro _
            refine ⟨[], c :: rest, rfl, fun hnil => ?_⟩
            have hnone : pattern.matchAt isWord ⟨before, c :: rest, []⟩ = none :=
              congrArg List.head? hnil
            rw [hmatch] at hnone
            cases hnone
          · exact fun _ => List.cons_ne_nil _ _

theorem occursIn_iff {text : List Char} : pattern.occursIn isWord text = true ↔
    ∃ earlier later, text = earlier ++ later ∧
      pattern.ends isWord ⟨earlier.reverse, later, []⟩ ≠ [] := by
  have hfound := @search_ne_nil_iff isWord pattern [] text
  simp only [List.append_nil] at hfound
  rw [← hfound, occursIn, findAll_eq_search, Bool.not_eq_true', List.isEmpty_eq_false_iff]

theorem search_end (hconsumes : pattern.consumes = true) :
    pattern.search isWord before [] = [] := by
  rw [search_nil, matchAt, ends_end hconsumes]
  rfl

/-! ## Seams -/

def Found.append (found : Found) (more : List Char) : Found :=
  ⟨found.start.append more, found.stop.append more⟩

def Found.prepend (found : Found) (earlier : List Char) : Found :=
  ⟨found.start.prepend earlier, found.stop.prepend earlier⟩

/-- No match that begins in the first text ends in the second. -/
def Uncrossed (isWord : Char → Bool) (pattern : TextPattern) (before text more : List Char) :
    Prop :=
  ∀ earlier later, text = earlier ++ later → later ≠ [] →
    ∀ stop ∈ pattern.ends isWord ⟨earlier.reverse ++ before, later ++ more, []⟩,
      more.length ≤ stop.after.length

theorem Uncrossed.suffix {earlier later more : List Char}
    (huncrossed : Uncrossed isWord pattern before (earlier ++ later) more) :
    Uncrossed isWord pattern (earlier.reverse ++ before) later more := by
  intro first rest hsplit hrest
  have hwhole := huncrossed (earlier ++ first) rest
  rw [hsplit, List.append_assoc, List.reverse_append, List.append_assoc] at hwhole
  exact hwhole rfl hrest

instance (more : List Char) (text : List Char) :
    Decidable (Uncrossed isWord pattern before text more) :=
  decidable_of_iff (∀ place < text.length, ∀ stop ∈ pattern.ends isWord
      ⟨(text.take place).reverse ++ before, text.drop place ++ more, []⟩,
    more.length ≤ stop.after.length) <| by
  constructor
  · rintro hplaces earlier later rfl hlater stop hstop
    have hplace : earlier.length < (earlier ++ later).length := by
      have hpositive := List.length_pos_of_ne_nil hlater
      rw [List.length_append]
      omega
    have hbound := hplaces earlier.length hplace stop
    rw [List.take_left, List.drop_left] at hbound
    exact hbound hstop
  · intro huncrossed place hplace
    refine huncrossed (text.take place) (text.drop place) (List.take_append_drop ..).symm ?_
    exact List.ne_nil_of_length_pos (by rw [List.length_drop]; omega)

/-- A match from the first text is one of the joined text. -/
theorem Uncrossed.matchAt {text more : List Char}
    (huncrossed : Uncrossed isWord pattern before text more) (hleading : pattern.leading = true)
    (htext : text ≠ []) :
    pattern.matchAt isWord ⟨before, text ++ more, []⟩ =
      (pattern.matchAt isWord ⟨before, text, []⟩).map fun stop => stop.append more := by
  have hends := @ends_append isWord pattern ⟨before, text, []⟩ more (.inr ⟨hleading, htext⟩)
  rw [List.filter_eq_self.mpr] at hends
  · exact (congrArg List.head? hends).trans List.head?_map
  · intro stop hstop
    exact decide_eq_true (huncrossed [] text rfl htext stop hstop)

/-- Where no match crosses the seam, the search goes through the first text and then through the
second. -/
theorem Uncrossed.search_append {text more : List Char} (hleading : pattern.leading = true)
    (hconsumes : pattern.consumes = true)
    (huncrossed : Uncrossed isWord pattern before text more) :
    pattern.search isWord before (text ++ more) =
      (pattern.search isWord before text).map (fun found => found.append more) ++
        pattern.search isWord (text.reverse ++ before) more := by
  generalize hlength : text.length = length
  induction length using Nat.strongRecOn generalizing text before with
  | ind length ih =>
      cases text with
      | nil => rw [search_end hconsumes, List.map_nil]; rfl
      | cons c rest =>
          have hmatch := huncrossed.matchAt hleading (List.cons_ne_nil c rest)
          rw [List.length_cons] at hlength
          cases hfound : pattern.matchAt isWord ⟨before, c :: rest, []⟩ with
          | none =>
              rw [hfound, Option.map_none, List.cons_append] at hmatch
              have hrest : Uncrossed isWord pattern ([c].reverse ++ before) rest more :=
                @Uncrossed.suffix isWord pattern before [c] rest more huncrossed
              have hnext := ih rest.length (by omega) hrest rfl
              rw [List.cons_append, search_cons_of_none hmatch, search_cons_of_none hfound,
                List.reverse_cons, List.append_assoc]
              exact hnext
          | some stop =>
              rw [hfound, Option.map_some, List.cons_append] at hmatch
              obtain ⟨piece, hreads⟩ := reads_of_matchAt hfound
              have hpiece : c :: rest = piece ++ stop.after := hreads.after
              have hless := length_of_matchAt hconsumes hfound
              have hprogress : stop.after.length ≤ rest.length := Nat.le_of_lt_succ hless
              have hbefore : stop.before = piece.reverse ++ before := hreads.before
              rw [hpiece] at huncrossed
              have hnext := ih stop.after.length (by omega) huncrossed.suffix rfl
              have hjoined : (stop.append more).after.length ≤ (rest ++ more).length := by
                rw [append, List.length_append, List.length_append]
                omega
              rw [List.cons_append, search_cons_of_some hmatch, search_cons_of_some hfound,
                if_pos hprogress, if_pos hjoined, List.map_cons, List.cons_append]
              congr 1
              rw [hpiece, List.reverse_append, List.append_assoc, ← hbefore]
              rw [← hbefore] at hnext
              exact hnext

/-- Text in front of a place is seen at the very start only. -/
theorem search_prepend {earlier : List Char} (hbefore : before ≠ []) :
    pattern.search isWord (before ++ earlier.reverse) after =
      (pattern.search isWord before after).map fun found => found.prepend earlier := by
  generalize hlength : after.length = length
  induction length using Nat.strongRecOn generalizing before after with
  | ind length ih =>
      have hmatch : pattern.matchAt isWord ⟨before ++ earlier.reverse, after, []⟩ =
          (pattern.matchAt isWord ⟨before, after, []⟩).map fun stop => stop.prepend earlier := by
        have hends := @ends_prepend isWord pattern ⟨before, after, []⟩ earlier (.inl hbefore)
        exact (congrArg List.head? hends).trans List.head?_map
      cases after with
      | nil =>
          rw [search_nil, search_nil, hmatch]
          cases pattern.matchAt isWord ⟨before, [], []⟩ with
          | none => rfl
          | some stop => rfl
      | cons c rest =>
          rw [List.length_cons] at hlength
          have hskipped := ih rest.length (by omega) (List.cons_ne_nil c before) rfl
          cases hfound : pattern.matchAt isWord ⟨before, c :: rest, []⟩ with
          | none =>
              rw [hfound, Option.map_none] at hmatch
              rw [search_cons_of_none hmatch, search_cons_of_none hfound]
              exact hskipped
          | some stop =>
              rw [hfound, Option.map_some] at hmatch
              rw [search_cons_of_some hmatch, search_cons_of_some hfound, List.map_cons]
              have hafter : (stop.prepend earlier).after = stop.after := rfl
              obtain ⟨piece, hreads⟩ := reads_of_matchAt hfound
              have hstop : stop.before ≠ [] := by
                rw [hreads.before]
                exact List.append_ne_nil_of_right_ne_nil _ hbefore
              rw [hafter]
              by_cases hprogress : stop.after.length ≤ rest.length
              · have hlater := ih stop.after.length (by omega) hstop rfl
                rw [if_pos hprogress, if_pos hprogress]
                exact congrArg _ hlater
              · rw [if_neg hprogress, if_neg hprogress]
                exact congrArg _ hskipped

/-- At its first character the text matches as it does without the text before it. -/
def StartsAlike (isWord : Char → Bool) (pattern : TextPattern) (earlier text : List Char) : Prop :=
  pattern.matchAt isWord ⟨earlier.reverse, text, []⟩ =
    (pattern.matchAt isWord ⟨[], text, []⟩).map fun stop => stop.prepend earlier

instance (earlier text : List Char) : Decidable (StartsAlike isWord pattern earlier text) :=
  inferInstanceAs (Decidable (_ = _))

theorem StartsAlike.search {earlier text : List Char} (hconsumes : pattern.consumes = true)
    (hstarts : StartsAlike isWord pattern earlier text) :
    pattern.search isWord earlier.reverse text =
      (pattern.search isWord [] text).map fun found => found.prepend earlier := by
  unfold StartsAlike at hstarts
  cases text with
  | nil => rw [search_end hconsumes, search_end hconsumes, List.map_nil]
  | cons c rest =>
      cases hfound : pattern.matchAt isWord ⟨[], c :: rest, []⟩ with
      | none =>
          rw [hfound, Option.map_none] at hstarts
          rw [search_cons_of_none hstarts, search_cons_of_none hfound]
          exact search_prepend (List.cons_ne_nil c [])
      | some stop =>
          rw [hfound, Option.map_some] at hstarts
          obtain ⟨piece, hreads⟩ := reads_of_matchAt hfound
          have hprogress : stop.after.length ≤ rest.length :=
            Nat.le_of_lt_succ (length_of_matchAt hconsumes hfound)
          have hstop : stop.before ≠ [] := by
            intro hnil
            have hbefore : stop.before = piece.reverse ++ [] := hreads.before
            have hafter : c :: rest = piece ++ stop.after := hreads.after
            rw [hnil, List.append_nil, List.nil_eq, List.reverse_eq_nil_iff] at hbefore
            rw [hbefore, List.nil_append] at hafter
            rw [← hafter, List.length_cons] at hprogress
            omega
          have hafter : (stop.prepend earlier).after = stop.after := rfl
          rw [search_cons_of_some hstarts, search_cons_of_some hfound, hafter,
            if_pos hprogress, if_pos hprogress, List.map_cons]
          exact congrArg _ (search_prepend hstop)

/-- The matches of two texts that do not meet. -/
theorem findAll_append {first second : List Char} (hleading : pattern.leading = true)
    (hconsumes : pattern.consumes = true) (huncrossed : Uncrossed isWord pattern [] first second)
    (hstarts : StartsAlike isWord pattern first second) :
    pattern.findAll isWord (first ++ second) =
      (pattern.findAll isWord first).map (fun found => found.append second) ++
        (pattern.findAll isWord second).map fun found => found.prepend first := by
  rw [findAll_eq_search, findAll_eq_search, findAll_eq_search,
    huncrossed.search_append hleading hconsumes, List.append_nil, hstarts.search hconsumes]

/-- No match of the joined text begins in the first text, unless one does without the second. -/
def Unformed (isWord : Char → Bool) (pattern : TextPattern) (first second : List Char) : Prop :=
  pattern.occursIn isWord first = false → ∀ place < first.length,
    pattern.ends isWord ⟨(first.take place).reverse, first.drop place ++ second, []⟩ = []

instance (first second : List Char) : Decidable (Unformed isWord pattern first second) :=
  inferInstanceAs (Decidable (_ → _))

/-- Where the first character matches alike, every place does. -/
theorem StartsAlike.ends_ne_nil_iff {first earlier later : List Char}
    (hstarts : StartsAlike isWord pattern first (earlier ++ later)) :
    pattern.ends isWord ⟨(first ++ earlier).reverse, later, []⟩ ≠ [] ↔
      pattern.ends isWord ⟨earlier.reverse, later, []⟩ ≠ [] := by
  apply not_congr
  cases earlier with
  | nil =>
      unfold StartsAlike matchAt at hstarts
      rw [List.nil_append] at hstarts
      rw [List.append_nil, ← List.head?_eq_none_iff, hstarts, Option.map_eq_none_iff,
        List.head?_eq_none_iff]
      rfl
  | cons c earlier =>
      have hbefore : (c :: earlier).reverse ≠ [] := by simp
      have hends := @ends_prepend isWord pattern ⟨(c :: earlier).reverse, later, []⟩ first
        (.inl hbefore)
      rw [List.reverse_append,
        show pattern.ends isWord ⟨(c :: earlier).reverse ++ first.reverse, later, []⟩ = _
          from hends,
        List.map_eq_nil_iff]

/-- A pattern that the first text does not show occurs in the joined text exactly when it occurs
in the second. -/
theorem occursIn_append {first second : List Char} (hfirst : pattern.occursIn isWord first = false)
    (hunformed : Unformed isWord pattern first second)
    (hstarts : StartsAlike isWord pattern first second) :
    pattern.occursIn isWord (first ++ second) = true ↔ pattern.occursIn isWord second = true := by
  rw [occursIn_iff, occursIn_iff]
  constructor
  · rintro ⟨earlier, later, hsplit, hends⟩
    obtain ⟨more, rfl, rfl⟩ | ⟨more, rfl, rfl⟩ := List.append_eq_append_iff.mp hsplit
    · exact ⟨more, later, rfl, hstarts.ends_ne_nil_iff.mp hends⟩
    · cases more with
      | nil =>
          rw [List.append_nil] at hstarts
          refine ⟨[], second, rfl, ?_⟩
          rw [← @StartsAlike.ends_ne_nil_iff isWord pattern earlier [] second hstarts,
            List.append_nil]
          exact hends
      | cons c more =>
          have hplace := hunformed hfirst earlier.length (by simp)
          rw [List.take_left, List.drop_left] at hplace
          exact absurd hplace hends
  · rintro ⟨earlier, later, rfl, hends⟩
    exact ⟨first ++ earlier, later, (List.append_assoc ..).symm,
      hstarts.ends_ne_nil_iff.mpr hends⟩

end TextPattern
