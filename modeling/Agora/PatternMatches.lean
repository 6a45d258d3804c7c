import Agora.TextPatterns

/-!
# What a match reads

A match reads a piece of the text from its start on, and only the assertions of a pattern look
at what surrounds the piece.
-/

namespace TextPosition

/-- The position with more text at the end. -/
def append (position : TextPosition) (more : List Char) : TextPosition :=
  { position with after := position.after ++ more }

/-- The position with more text at the start. -/
def prepend (position : TextPosition) (earlier : List Char) : TextPosition :=
  { position with before := position.before ++ earlier.reverse }

/-- The text between a position and a later one. -/
structure Reads (position later : TextPosition) (piece : List Char) : Prop where
  after : position.after = piece ++ later.after
  before : later.before = piece.reverse ++ position.before

theorem Reads.refl (position : TextPosition) : position.Reads position [] :=
  ⟨rfl, rfl⟩

theorem Reads.trans {position middle later : TextPosition} {first second : List Char}
    (hfirst : position.Reads middle first) (hsecond : middle.Reads later second) :
    position.Reads later (first ++ second) := by
  constructor
  · rw [hfirst.after, hsecond.after, List.append_assoc]
  · rw [hsecond.before, hfirst.before, List.reverse_append, List.append_assoc]

theorem Reads.length {position later : TextPosition} {piece : List Char}
    (hreads : position.Reads later piece) :
    position.after.length = piece.length + later.after.length := by
  rw [hreads.after, List.length_append]

/-- A position inside a piece that is read. -/
theorem Reads.split {position later : TextPosition} {first second : List Char}
    (hreads : position.Reads later (first ++ second)) :
    ∃ middle, position.Reads middle first ∧ middle.Reads later second ∧
      middle.groups = position.groups := by
  refine ⟨⟨first.reverse ++ position.before, second ++ later.after, position.groups⟩,
    ⟨?_, rfl⟩, ⟨rfl, ?_⟩, rfl⟩
  · rw [hreads.after, List.append_assoc]
  · rw [hreads.before, List.reverse_append, List.append_assoc]

/-- What a position reads, and its groups, determine the later position. -/
theorem Reads.unique {position later other : TextPosition} {piece : List Char}
    (hlater : position.Reads later piece) (hother : position.Reads other piece)
    (hgroups : later.groups = other.groups) : later = other := by
  rcases later with ⟨laterBefore, laterAfter, laterGroups⟩
  rcases other with ⟨otherBefore, otherAfter, otherGroups⟩
  have hbefore : laterBefore = otherBefore := hlater.before.trans hother.before.symm
  have hafter : laterAfter = otherAfter :=
    List.append_cancel_left (hlater.after.symm.trans hother.after)
  rw [hbefore, hafter, show laterGroups = otherGroups from hgroups]

theorem mem_runEnds {accepts : Char → Bool} {groups : List (ℕ × List Char)}
    {before after : List Char} {stop : TextPosition} :
    stop ∈ runEnds accepts groups before after ↔
      ∃ piece, (∀ c ∈ piece, accepts c = true) ∧ TextPosition.Reads ⟨before, after, groups⟩ stop
        piece ∧ stop.groups = groups := by
  induction after generalizing before with
  | nil =>
      rw [runEnds, List.mem_singleton]
      constructor
      · rintro rfl
        exact ⟨[], by simp, .refl _, rfl⟩
      · rintro ⟨piece, _, hreads, hgroups⟩
        obtain ⟨hpiece, hafter⟩ := List.append_eq_nil_iff.mp hreads.after.symm
        have hbefore := hreads.before
        rw [hpiece] at hbefore
        rcases stop with ⟨stopBefore, stopAfter, stopGroups⟩
        simp only [List.reverse_nil, List.nil_append] at hbefore hafter hgroups
        rw [hbefore, hafter, hgroups]
  | cons c rest ih =>
      rw [runEnds]
      by_cases haccepts : accepts c = true
      · rw [if_pos haccepts, List.mem_append, ih, List.mem_singleton]
        constructor
        · rintro (⟨piece, hpiece, hreads, hgroups⟩ | rfl)
          · refine ⟨c :: piece, List.forall_mem_cons.mpr ⟨haccepts, hpiece⟩, ⟨?_, ?_⟩, hgroups⟩
            · exact congrArg (c :: ·) hreads.after
            · rw [hreads.before, List.reverse_cons, List.append_assoc]
              rfl
          · exact ⟨[], by simp, .refl _, rfl⟩
        · rintro ⟨piece, hpiece, hreads, hgroups⟩
          cases piece with
          | nil =>
              right
              rcases stop with ⟨stopBefore, stopAfter, stopGroups⟩
              have hafter : c :: rest = stopAfter := hreads.after
              have hbefore : stopBefore = before := hreads.before
              rw [hbefore, ← hafter, ← hgroups]
          | cons d piece =>
              left
              have hafter : c :: rest = d :: (piece ++ stop.after) := hreads.after
              rw [List.cons.injEq] at hafter
              refine ⟨piece, (List.forall_mem_cons.mp hpiece).2, ⟨hafter.2, ?_⟩, hgroups⟩
              rw [hreads.before, hafter.1, List.reverse_cons, List.append_assoc]
              rfl
      · rw [if_neg haccepts, List.mem_singleton]
        constructor
        · rintro rfl
          exact ⟨[], by simp, .refl _, rfl⟩
        · rintro ⟨piece, hpiece, hreads, hgroups⟩
          cases piece with
          | nil =>
              rcases stop with ⟨stopBefore, stopAfter, stopGroups⟩
              have hafter : c :: rest = stopAfter := hreads.after
              have hbefore : stopBefore = before := hreads.before
              rw [hbefore, ← hafter, ← hgroups]
          | cons d piece =>
              have hafter : c :: rest = d :: (piece ++ stop.after) := hreads.after
              rw [List.cons.injEq] at hafter
              rw [hafter.1] at haccepts
              exact absurd (hpiece d List.mem_cons_self) haccepts

theorem behind_eq_some {position stop : TextPosition} {word : List Char}
    (hbehind : position.behind word = some stop) :
    position.Reads stop word ∧ stop.groups = position.groups := by
  induction word generalizing position with
  | nil =>
      obtain rfl := Option.some.inj hbehind
      exact ⟨.refl _, rfl⟩
  | cons c rest ih =>
      rcases position with ⟨before, after, groups⟩
      cases after with
      | nil => cases hbehind
      | cons found after =>
          simp only [behind] at hbehind
          split at hbehind
          · rename_i hfound
            obtain ⟨hreads, hgroups⟩ := ih hbehind
            have hstep : TextPosition.Reads ⟨before, found :: after, groups⟩
                ⟨found :: before, after, groups⟩ [c] := by
              rw [hfound]
              exact ⟨rfl, rfl⟩
            exact ⟨hstep.trans hreads, hgroups⟩
          · cases hbehind

end TextPosition

namespace TextPattern

open TextPosition

variable {isWord : Char → Bool} {pattern first second : TextPattern} {position stop : TextPosition}

/-! ## What a match reads -/

theorem mem_ends_both : stop ∈ (TextPattern.both first second).ends isWord position ↔
    ∃ middle ∈ first.ends isWord position, stop ∈ second.ends isWord middle := by
  rw [ends, List.mem_flatMap]

theorem mem_ends_both_congr {other : TextPattern}
    (hsame : ∀ middle, stop ∈ second.ends isWord middle ↔ stop ∈ other.ends isWord middle) :
    stop ∈ (TextPattern.both first second).ends isWord position ↔
      stop ∈ (TextPattern.both first other).ends isWord position := by
  rw [mem_ends_both, mem_ends_both]
  exact exists_congr fun middle => and_congr_right fun _ => hsame middle

theorem mem_ends_either : stop ∈ (TextPattern.either first second).ends isWord position ↔
    stop ∈ first.ends isWord position ∨ stop ∈ second.ends isWord position := by
  rw [ends, List.mem_append]

theorem mem_ends_nothing : stop ∈ TextPattern.nothing.ends isWord position ↔ stop = position := by
  rw [ends, List.mem_singleton]

theorem mem_ends_textEnd : stop ∈ TextPattern.textEnd.ends isWord position ↔
    stop = position ∧ (position.after = [] ∨ position.after = ['\n']) := by
  rw [ends]
  split
  · rename_i hend
    rw [Bool.or_eq_true, List.isEmpty_iff, beq_iff_eq] at hend
    rw [List.mem_singleton]
    exact (and_iff_left hend).symm
  · rename_i hend
    rw [Bool.or_eq_true, List.isEmpty_iff, beq_iff_eq] at hend
    exact iff_of_false List.not_mem_nil fun hstop => hend hstop.2

theorem mem_ends_maybe : stop ∈ pattern.maybe.ends isWord position ↔
    stop ∈ pattern.ends isWord position ∨ stop = position := by
  rw [maybe, mem_ends_either, mem_ends_nothing]

theorem mem_ends_one {accepts : Char → Bool} :
    stop ∈ (TextPattern.one accepts).ends isWord position ↔
      ∃ c, accepts c = true ∧ position.Reads stop [c] ∧ stop.groups = position.groups := by
  rcases position with ⟨before, after, groups⟩
  cases after with
  | nil =>
      constructor
      · intro hstop
        cases hstop
      · rintro ⟨c, _, hreads, _⟩
        cases hreads.after
  | cons c rest =>
      simp only [ends]
      constructor
      · intro hstop
        split at hstop
        · rename_i haccepts
          rw [List.mem_singleton.mp hstop]
          exact ⟨c, haccepts, ⟨rfl, rfl⟩, rfl⟩
        · cases hstop
      · rintro ⟨d, haccepts, hreads, hgroups⟩
        have hafter : c :: rest = d :: stop.after := hreads.after
        rw [List.cons.injEq] at hafter
        have hstep : TextPosition.Reads ⟨before, c :: rest, groups⟩ ⟨c :: before, rest, groups⟩
            [d] := by
          rw [hafter.1]
          exact ⟨rfl, rfl⟩
        rw [hafter.1, if_pos haccepts, List.mem_singleton, ← hafter.1]
        exact hreads.unique hstep hgroups

theorem mem_ends_many {accepts : Char → Bool} :
    stop ∈ (TextPattern.many accepts).ends isWord position ↔
      ∃ piece, (∀ c ∈ piece, accepts c = true) ∧ position.Reads stop piece ∧
        stop.groups = position.groups := by
  rcases position with ⟨before, after, groups⟩
  exact mem_runEnds

theorem mem_ends_wordEdge : stop ∈ TextPattern.wordEdge.ends isWord position ↔
    stop = position ∧
      (position.before.head?.any isWord != position.after.head?.any isWord) = true := by
  rw [ends]
  split
  · rename_i hedge
    rw [List.mem_singleton]
    exact (and_iff_left hedge).symm
  · rename_i hedge
    exact iff_of_false List.not_mem_nil fun hstop => hedge hstop.2

theorem mem_ends_group {index : ℕ} :
    stop ∈ (TextPattern.group index pattern).ends isWord position ↔
      ∃ found ∈ pattern.ends isWord position,
        stop = { found with groups := (index, position.textTo found) :: found.groups } := by
  rw [ends, List.mem_map]
  exact exists_congr fun found => and_congr_right fun _ => eq_comm

/-- A word matches the texts whose characters are accepted for its own. -/
theorem mem_ends_text {same : Char → Char → Bool} {word : List Char} :
    stop ∈ (TextPattern.text same word).ends isWord position ↔
      ∃ piece, List.Forall₂ (fun expected c => same expected c = true) word piece ∧
        position.Reads stop piece ∧ stop.groups = position.groups := by
  induction word generalizing position with
  | nil =>
      rw [TextPattern.text, mem_ends_nothing]
      constructor
      · rintro rfl
        exact ⟨[], .nil, .refl _, rfl⟩
      · rintro ⟨piece, hpiece, hreads, hgroups⟩
        cases hpiece
        exact hreads.unique (.refl position) hgroups
  | cons expected word ih =>
      rw [TextPattern.text, mem_ends_both]
      constructor
      · rintro ⟨middle, hmiddle, hstop⟩
        obtain ⟨c, hsame, hfirst, hgroups⟩ := mem_ends_one.mp hmiddle
        obtain ⟨piece, hpiece, hreads, hlater⟩ := ih.mp hstop
        exact ⟨c :: piece, .cons hsame hpiece, hfirst.trans hreads, hlater.trans hgroups⟩
      · rintro ⟨piece, hpiece, hreads, hgroups⟩
        cases hpiece with
        | @cons _ c _ piece hsame hrest =>
            obtain ⟨middle, hfirst, hsecond, hmiddle⟩ :=
              Reads.split (show position.Reads stop ([c] ++ piece) from hreads)
            refine ⟨middle, mem_ends_one.mpr ⟨c, hsame, hfirst, hmiddle⟩, ih.mpr ?_⟩
            exact ⟨piece, hrest, hsecond, hgroups.trans hmiddle.symm⟩

theorem mem_ends_text_append {same : Char → Char → Bool} {word more : List Char} :
    stop ∈ (TextPattern.text same (word ++ more)).ends isWord position ↔
      stop ∈ (TextPattern.both (.text same word) (.text same more)).ends isWord position := by
  induction word generalizing position with
  | nil => simp only [List.nil_append, TextPattern.text, mem_ends_both, mem_ends_nothing,
      exists_eq_left]
  | cons expected word ih =>
      simp only [List.cons_append, TextPattern.text, mem_ends_both, ih]
      constructor
      · rintro ⟨first, hfirst, second, hsecond, hstop⟩
        exact ⟨second, ⟨first, hfirst, hsecond⟩, hstop⟩
      · rintro ⟨second, ⟨first, hfirst, hsecond⟩, hstop⟩
        exact ⟨first, hfirst, second, hsecond, hstop⟩

/-- A match reads a piece of the text. -/
theorem reads_of_ends (hstop : stop ∈ pattern.ends isWord position) :
    ∃ piece, position.Reads stop piece := by
  induction pattern generalizing position stop with
  | nothing =>
      rw [ends, List.mem_singleton] at hstop
      exact ⟨[], hstop ▸ .refl position⟩
  | one accepts =>
      rcases position with ⟨before, after, groups⟩
      cases after with
      | nil => cases hstop
      | cons c rest =>
          simp only [ends] at hstop
          split at hstop
          · rw [List.mem_singleton] at hstop
            exact ⟨[c], hstop ▸ ⟨rfl, rfl⟩⟩
          · cases hstop
  | many accepts =>
      obtain ⟨piece, _, hreads, _⟩ := mem_runEnds.mp hstop
      exact ⟨piece, hreads⟩
  | both first second ihFirst ihSecond =>
      obtain ⟨middle, hmiddle, hlater⟩ := mem_ends_both.mp hstop
      obtain ⟨piece, hreads⟩ := ihFirst hmiddle
      obtain ⟨other, hother⟩ := ihSecond hlater
      exact ⟨piece ++ other, hreads.trans hother⟩
  | either first second ihFirst ihSecond =>
      cases mem_ends_either.mp hstop with
      | inl hfirst => exact ihFirst hfirst
      | inr hsecond => exact ihSecond hsecond
  | group index body ih =>
      rw [ends, List.mem_map] at hstop
      obtain ⟨found, hfound, rfl⟩ := hstop
      obtain ⟨piece, hreads⟩ := ih hfound
      exact ⟨piece, hreads.after, hreads.before⟩
  | again index =>
      rw [ends, Option.mem_toList] at hstop
      exact ⟨_, (behind_eq_some hstop).1⟩
  | wordEdge =>
      rw [ends] at hstop
      split at hstop
      · rw [List.mem_singleton] at hstop
        exact ⟨[], hstop ▸ .refl position⟩
      · cases hstop
  | textStart =>
      rw [ends] at hstop
      split at hstop
      · rw [List.mem_singleton] at hstop
        exact ⟨[], hstop ▸ .refl position⟩
      · cases hstop
  | textEnd =>
      rw [ends] at hstop
      split at hstop
      · rw [List.mem_singleton] at hstop
        exact ⟨[], hstop ▸ .refl position⟩
      · cases hstop

theorem length_of_ends (hstop : stop ∈ pattern.ends isWord position) :
    stop.after.length ≤ position.after.length := by
  obtain ⟨piece, hreads⟩ := reads_of_ends hstop
  rw [hreads.length]
  exact Nat.le_add_left _ _

/-! ## Patterns without assertions -/

/-- A pattern without assertions about the text around a match. -/
def forward : TextPattern → Bool
  | .wordEdge => false
  | .textStart => false
  | .textEnd => false
  | .both first second => first.forward && second.forward
  | .either first second => first.forward && second.forward
  | .group _ body => body.forward
  | _ => true

theorem behind_prepend (earlier word : List Char) :
    (position.prepend earlier).behind word =
      (position.behind word).map fun stop => stop.prepend earlier := by
  induction word generalizing position with
  | nil => rfl
  | cons c rest ih =>
      rcases position with ⟨before, after, groups⟩
      cases after with
      | nil => rfl
      | cons found after =>
          simp only [behind, prepend]
          by_cases hfound : found = c
          · rw [if_pos hfound, if_pos hfound]
            exact @ih ⟨found :: before, after, groups⟩
          · rw [if_neg hfound, if_neg hfound]
            rfl

theorem runEnds_prepend (accepts : Char → Bool) (groups : List (ℕ × List Char))
    (before after earlier : List Char) :
    runEnds accepts groups (before ++ earlier.reverse) after =
      (runEnds accepts groups before after).map fun stop => stop.prepend earlier := by
  induction after generalizing before with
  | nil => rfl
  | cons c rest ih =>
      rw [runEnds, runEnds]
      by_cases haccepts : accepts c = true
      · rw [if_pos haccepts, if_pos haccepts, List.map_append, ← ih (c :: before)]
        rfl
      · rw [if_neg haccepts, if_neg haccepts]
        rfl

/-- Text in front of a position is seen by assertions at the very start only. -/
theorem ends_prepend (earlier : List Char)
    (hseen : position.before ≠ [] ∨ pattern.forward = true) :
    pattern.ends isWord (position.prepend earlier) =
      (pattern.ends isWord position).map fun stop => stop.prepend earlier := by
  induction pattern generalizing position with
  | nothing => rfl
  | one accepts =>
      rcases position with ⟨before, after, groups⟩
      cases after with
      | nil => rfl
      | cons c rest =>
          simp only [ends, prepend]
          split
          · rfl
          · rfl
  | many accepts =>
      exact runEnds_prepend accepts position.groups position.before position.after earlier
  | both first second ihFirst ihSecond =>
      have hparts := hseen.imp_right fun hforward => (Bool.and_eq_true _ _).mp hforward
      rw [ends, ends, ihFirst (hparts.imp_right And.left), List.flatMap_map, List.map_flatMap]
      apply List.flatMap_congr
      intro middle hmiddle
      apply ihSecond
      cases hparts with
      | inl hbefore =>
          left
          obtain ⟨piece, hreads⟩ := reads_of_ends hmiddle
          rw [hreads.before]
          exact List.append_ne_nil_of_right_ne_nil _ hbefore
      | inr hforward => exact .inr hforward.2
  | either first second ihFirst ihSecond =>
      have hparts := hseen.imp_right fun hforward => (Bool.and_eq_true _ _).mp hforward
      rw [ends, ends, ihFirst (hparts.imp_right And.left), ihSecond (hparts.imp_right And.right),
        List.map_append]
  | group index body ih =>
      rw [ends, ends, ih hseen, List.map_map, List.map_map]
      rfl
  | again index =>
      rw [ends, ends]
      have hbehind := @behind_prepend position earlier (position.group index)
      rw [show (position.prepend earlier).group index = position.group index from rfl, hbehind]
      cases position.behind (position.group index) with
      | none => rfl
      | some stop => rfl
  | wordEdge =>
      rcases position with ⟨before, after, groups⟩
      cases before with
      | nil => exact absurd rfl (hseen.resolve_right fun hforward => nomatch hforward)
      | cons c rest =>
          rw [ends, ends, prepend, List.cons_append, List.head?_cons, List.head?_cons]
          split
          · rfl
          · rfl
  | textStart =>
      rcases position with ⟨before, after, groups⟩
      cases before with
      | nil => exact absurd rfl (hseen.resolve_right fun hforward => nomatch hforward)
      | cons c rest => rfl
  | textEnd =>
      rw [ends, ends, show (position.prepend earlier).after = position.after from rfl]
      by_cases hend : (position.after.isEmpty || position.after == ['\n']) = true
      · rw [if_pos hend, if_pos hend, List.map_singleton]
      · rw [if_neg hend, if_neg hend, List.map_nil]

/-- The assertions of a pattern stand before all that it reads. -/
def leading : TextPattern → Bool
  | .textEnd => false
  | .both first second => first.leading && second.forward
  | .either first second => first.leading && second.leading
  | .group _ body => body.leading
  | _ => true

/-- A position from which at least this text is left. -/
def leaves (more : List Char) (stop : TextPosition) : Bool :=
  decide (more.length ≤ stop.after.length)

theorem leaves_append {more : List Char} : leaves more (position.append more) = true := by
  rw [leaves, append, List.length_append]
  exact decide_eq_true (Nat.le_add_left _ _)

theorem leaves_of_ends {more : List Char} (hstop : stop ∈ pattern.ends isWord position)
    (hleaves : leaves more stop = true) : leaves more position = true := by
  rw [leaves, decide_eq_true_eq] at hleaves ⊢
  exact Nat.le_trans hleaves (length_of_ends hstop)

theorem filter_leaves {more : List Char} (hleaves : leaves more stop = true) :
    [stop].filter (leaves more) = [stop] := by
  rw [List.filter_cons_of_pos hleaves, List.filter_nil]

theorem flatMap_of_filter {α β : Type} {l : List α} {f : α → List β} {selected : α → Bool}
    (hnil : ∀ a ∈ l, selected a = false → f a = []) :
    l.flatMap f = (l.filter selected).flatMap f := by
  induction l with
  | nil => rfl
  | cons a rest ih =>
      have hrest := ih fun other hother => hnil other (List.mem_cons_of_mem _ hother)
      cases hselected : selected a with
      | true => rw [List.filter_cons_of_pos hselected, List.flatMap_cons, List.flatMap_cons, hrest]
      | false =>
          rw [List.filter_cons_of_neg (by simp [hselected]), List.flatMap_cons,
            hnil a List.mem_cons_self hselected, List.nil_append, hrest]

theorem behind_append (more word : List Char) :
    ((position.append more).behind word).toList.filter (leaves more) =
      (position.behind word).toList.map fun stop => stop.append more := by
  induction word generalizing position with
  | nil =>
      simp only [behind, Option.toList_some, List.map_singleton]
      exact filter_leaves leaves_append
  | cons c rest ih =>
      rcases position with ⟨before, after, groups⟩
      cases after with
      | nil =>
          apply List.filter_eq_nil_iff.mpr
          intro stop hstop hleaves
          obtain ⟨hreads, _⟩ := behind_eq_some (Option.mem_toList.mp hstop)
          rw [leaves, decide_eq_true_eq] at hleaves
          have hlength := hreads.length
          have hsame : (TextPosition.append ⟨before, [], groups⟩ more).after.length =
              more.length := rfl
          rw [hsame, List.length_cons] at hlength
          omega
      | cons found after =>
          simp only [append, List.cons_append, behind]
          by_cases hfound : found = c
          · rw [if_pos hfound, if_pos hfound]
            exact @ih ⟨found :: before, after, groups⟩
          · rw [if_neg hfound, if_neg hfound]
            rfl

theorem runEnds_append (accepts : Char → Bool) (groups : List (ℕ × List Char))
    (before after more : List Char) :
    (runEnds accepts groups before (after ++ more)).filter (leaves more) =
      (runEnds accepts groups before after).map fun stop => stop.append more := by
  induction after generalizing before with
  | nil =>
      cases more with
      | nil => rfl
      | cons c rest =>
          have hlast : leaves (c :: rest) ⟨before, c :: rest, groups⟩ = true :=
            decide_eq_true (Nat.le_refl _)
          rw [List.nil_append, runEnds.eq_2, runEnds.eq_1]
          by_cases haccepts : accepts c = true
          · rw [if_pos haccepts, List.filter_append, filter_leaves hlast,
              List.filter_eq_nil_iff.mpr]
            · rfl
            · intro stop hstop hleaves
              obtain ⟨piece, _, hreads, _⟩ := mem_runEnds.mp hstop
              have hlength := hreads.length
              rw [leaves, decide_eq_true_eq, List.length_cons] at hleaves
              have hrest : rest.length = piece.length + stop.after.length := hlength
              omega
          · rw [if_neg haccepts, filter_leaves hlast]
            rfl
  | cons c rest ih =>
      have hlast : leaves more ⟨before, c :: (rest ++ more), groups⟩ = true :=
        @leaves_append ⟨before, c :: rest, groups⟩ more
      rw [List.cons_append, runEnds, runEnds]
      by_cases haccepts : accepts c = true
      · rw [if_pos haccepts, if_pos haccepts, List.filter_append, ih, filter_leaves hlast,
          List.map_append]
        rfl
      · rw [if_neg haccepts, if_neg haccepts, filter_leaves hlast]
        rfl

theorem textTo_append (more : List Char) :
    (position.append more).textTo (stop.append more) = position.textTo stop := by
  simp only [textTo, append, List.length_append]
  rw [Nat.add_sub_add_right, List.take_append_of_le_length (Nat.sub_le _ _)]

/-- Text behind a position adds only matches that read some of it. -/
theorem ends_append (more : List Char)
    (hseen : pattern.forward = true ∨ (pattern.leading = true ∧ position.after ≠ [])) :
    (pattern.ends isWord (position.append more)).filter (leaves more) =
      (pattern.ends isWord position).map fun stop => stop.append more := by
  induction pattern generalizing position with
  | nothing => exact @behind_append position more []
  | one accepts =>
      rcases position with ⟨before, after, groups⟩
      cases after with
      | nil =>
          apply List.filter_eq_nil_iff.mpr
          intro stop hstop hleaves
          cases more with
          | nil => cases hstop
          | cons c rest =>
              rw [leaves, decide_eq_true_eq, List.length_cons] at hleaves
              simp only [ends, append, List.nil_append] at hstop
              split at hstop
              · rw [List.mem_singleton.mp hstop] at hleaves
                exact absurd hleaves (Nat.not_succ_le_self _)
              · cases hstop
      | cons c rest =>
          have hlast : leaves more ⟨c :: before, rest ++ more, groups⟩ = true :=
            @leaves_append ⟨c :: before, rest, groups⟩ more
          simp only [ends, append, List.cons_append]
          split
          · rw [filter_leaves hlast]
            rfl
          · rfl
  | many accepts =>
      exact runEnds_append accepts position.groups position.before position.after more
  | both first second ihFirst ihSecond =>
      have hfirst : first.forward = true ∨ (first.leading = true ∧ position.after ≠ []) := by
        cases hseen with
        | inl hforward => exact .inl ((Bool.and_eq_true _ _).mp hforward).1
        | inr hleading => exact .inr ⟨((Bool.and_eq_true _ _).mp hleading.1).1, hleading.2⟩
      have hsecond : second.forward = true := by
        cases hseen with
        | inl hforward => exact ((Bool.and_eq_true _ _).mp hforward).2
        | inr hleading => exact ((Bool.and_eq_true _ _).mp hleading.1).2
      have hnil : ∀ middle ∈ first.ends isWord (position.append more), leaves more middle = false →
          (second.ends isWord middle).filter (leaves more) = [] := by
        intro middle _ hcrossed
        apply List.filter_eq_nil_iff.mpr
        intro stop hstop hleaves
        rw [leaves_of_ends hstop hleaves] at hcrossed
        cases hcrossed
      rw [ends, ends, List.filter_flatMap, flatMap_of_filter hnil, ihFirst hfirst,
        List.flatMap_map, List.map_flatMap]
      apply List.flatMap_congr
      exact fun middle _ => ihSecond (.inl hsecond)
  | either first second ihFirst ihSecond =>
      have hfirst : first.forward = true ∨ (first.leading = true ∧ position.after ≠ []) := by
        cases hseen with
        | inl hforward => exact .inl ((Bool.and_eq_true _ _).mp hforward).1
        | inr hleading => exact .inr ⟨((Bool.and_eq_true _ _).mp hleading.1).1, hleading.2⟩
      have hsecond : second.forward = true ∨ (second.leading = true ∧ position.after ≠ []) := by
        cases hseen with
        | inl hforward => exact .inl ((Bool.and_eq_true _ _).mp hforward).2
        | inr hleading => exact .inr ⟨((Bool.and_eq_true _ _).mp hleading.1).2, hleading.2⟩
      rw [ends, ends, List.filter_append, ihFirst hfirst, ihSecond hsecond, List.map_append]
  | group index body ih =>
      rw [ends, ends, List.filter_map]
      change List.map _ ((body.ends isWord (position.append more)).filter (leaves more)) = _
      rw [ih hseen, List.map_map, List.map_map]
      apply List.map_congr_left
      intro found _
      simp only [Function.comp_apply, textTo_append]
      rfl
  | again index => exact behind_append more (position.group index)
  | wordEdge =>
      have hafter := (hseen.resolve_left fun hforward => nomatch hforward).2
      rcases position with ⟨before, after, groups⟩
      cases after with
      | nil => exact absurd rfl hafter
      | cons c rest =>
          have hlast : leaves more ⟨before, c :: (rest ++ more), groups⟩ = true :=
            @leaves_append ⟨before, c :: rest, groups⟩ more
          rw [ends, ends, append, List.cons_append, List.head?_cons, List.head?_cons]
          by_cases hedge : (before.head?.any isWord != (some c).any isWord) = true
          · rw [if_pos hedge, if_pos hedge, filter_leaves hlast]
            rfl
          · rw [if_neg hedge, if_neg hedge]
            rfl
  | textStart =>
      rw [ends, ends, show (position.append more).before = position.before from rfl]
      by_cases hstart : position.before.isEmpty = true
      · rw [if_pos hstart, if_pos hstart, filter_leaves leaves_append]
        rfl
      · rw [if_neg hstart, if_neg hstart]
        rfl
  | textEnd =>
      cases hseen with
      | inl hforward => cases hforward
      | inr hleading => cases hleading.1

variable {before after : List Char}

/-! ## Patterns that read something -/

/-- Each match reads at least one character. -/
def consumes : TextPattern → Bool
  | .one _ => true
  | .both first second => first.consumes || second.consumes
  | .either first second => first.consumes && second.consumes
  | .group _ body => body.consumes
  | _ => false

theorem length_of_consumes (hconsumes : pattern.consumes = true)
    (hstop : stop ∈ pattern.ends isWord position) :
    stop.after.length < position.after.length := by
  induction pattern generalizing position stop with
  | one accepts =>
      obtain ⟨c, _, hreads, _⟩ := mem_ends_one.mp hstop
      rw [hreads.length, List.length_singleton]
      omega
  | both first second ihFirst ihSecond =>
      obtain ⟨middle, hmiddle, hlater⟩ := mem_ends_both.mp hstop
      have hfirst := length_of_ends hmiddle
      have hsecond := length_of_ends hlater
      cases (Bool.or_eq_true _ _).mp hconsumes with
      | inl hleft => exact Nat.lt_of_le_of_lt hsecond (ihFirst hleft hmiddle)
      | inr hright => exact Nat.lt_of_lt_of_le (ihSecond hright hlater) hfirst
  | either first second ihFirst ihSecond =>
      obtain ⟨hleft, hright⟩ := (Bool.and_eq_true _ _).mp hconsumes
      cases mem_ends_either.mp hstop with
      | inl hfirst => exact ihFirst hleft hfirst
      | inr hsecond => exact ihSecond hright hsecond
  | group index body ih =>
      rw [ends, List.mem_map] at hstop
      obtain ⟨found, hfound, rfl⟩ := hstop
      exact @ih position found hconsumes hfound
  | _ => cases hconsumes

theorem length_of_matchAt (hconsumes : pattern.consumes = true)
    (hmatch : pattern.matchAt isWord position = some stop) :
    stop.after.length < position.after.length :=
  length_of_consumes hconsumes (List.mem_of_mem_head? hmatch)

theorem ends_end {groups : List (ℕ × List Char)} (hconsumes : pattern.consumes = true) :
    pattern.ends isWord ⟨before, [], groups⟩ = [] :=
  List.eq_nil_iff_forall_not_mem.mpr fun _ hstop =>
    Nat.not_lt_zero _ (length_of_consumes hconsumes hstop)

/-! ## Matches piece by piece -/

theorem matchAt_both {middle : TextPosition} (hfirst : first.matchAt isWord position = some middle)
    (hsecond : second.matchAt isWord middle = some stop) :
    (TextPattern.both first second).matchAt isWord position = some stop := by
  obtain ⟨others, hothers⟩ := List.head?_eq_some_iff.mp hfirst
  obtain ⟨more, hmore⟩ := List.head?_eq_some_iff.mp hsecond
  rw [matchAt, ends, hothers, List.flatMap_cons, hmore]
  rfl

theorem matchAt_wordEdge
    (hedge : (position.before.head?.any isWord != position.after.head?.any isWord) = true) :
    TextPattern.wordEdge.matchAt isWord position = some position := by
  rw [matchAt, ends, if_pos hedge]
  rfl

section Pieces

variable {piece rest : List Char} {groups : List (ℕ × List Char)}

theorem matchAt_text {same : Char → Char → Bool} {word : List Char}
    (hpiece : List.Forall₂ (fun expected c => same expected c = true) word piece) :
    (TextPattern.text same word).matchAt isWord ⟨before, piece ++ rest, groups⟩ =
      some ⟨piece.reverse ++ before, rest, groups⟩ := by
  induction hpiece generalizing before with
  | nil => rfl
  | @cons expected c word piece hsame _ ih =>
      have hone : (TextPattern.one (same expected)).matchAt isWord
          ⟨before, c :: (piece ++ rest), groups⟩ = some ⟨c :: before, piece ++ rest, groups⟩ := by
        rw [matchAt, ends]
        simp only [hsame]
        rfl
      have hmatch := matchAt_both hone (@ih (c :: before))
      rw [List.reverse_cons, List.append_assoc]
      exact hmatch

/-- The longest run is read. -/
theorem matchAt_many {accepts : Char → Bool} (hpiece : ∀ c ∈ piece, accepts c = true)
    (hrest : rest.head?.any accepts = false) :
    (TextPattern.many accepts).matchAt isWord ⟨before, piece ++ rest, groups⟩ =
      some ⟨piece.reverse ++ before, rest, groups⟩ := by
  rw [matchAt, ends]
  induction piece generalizing before with
  | nil =>
      cases rest with
      | nil => rfl
      | cons c rest =>
          have hc : accepts c = false := hrest
          rw [List.nil_append, runEnds, hc, if_neg Bool.false_ne_true]
          rfl
  | cons c piece ih =>
      obtain ⟨hc, hlater⟩ := List.forall_mem_cons.mp hpiece
      have hrun := @ih (c :: before) hlater
      rw [List.cons_append, runEnds, if_pos hc, List.reverse_cons, List.append_assoc]
      rw [List.head?_append, show (runEnds accepts groups (c :: before) (piece ++ rest)).head? = _
        from hrun]
      rfl

theorem matchAt_group {index : ℕ} (hbody : pattern.matchAt isWord position = some stop) :
    (TextPattern.group index pattern).matchAt isWord position =
      some { stop with groups := (index, position.textTo stop) :: stop.groups } := by
  rw [matchAt, ends, List.head?_map, show (pattern.ends isWord position).head? = _ from hbody]
  rfl

end Pieces

end TextPattern
