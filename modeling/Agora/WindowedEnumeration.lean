import Agora.KeysetEnumeration

/-!
# Enumeration by capped windows

A windowed reader takes the first rows beyond a boundary, up to the size of its window,
keeps the ones that it can show and returns the first of them, up to its limit.  The last
shown row is the next boundary, so the enumeration stops for good as soon as a whole
window shows nothing.
-/

namespace Keyset

variable {ρ σ κ γ ε : Type} [LinearOrder κ]

/-- The first rows of the window beyond the boundary that can be shown. -/
def windowed (key : ρ → κ) (window limit : ℕ) (shown : ρ → Option σ) (boundary : Option κ)
    (rows : List ρ) : List σ :=
  (((ordered key (selected key (boundary.map (Prod.mk .next)) rows)).take window).filterMap
    shown).take limit

/-- Calls of a reader, each with the boundary of the last item before it, until a result
is empty. -/
inductive Listing (reader : Option γ → Except ε (List σ)) (cursor : σ → γ) :
    Option γ → List σ → Prop
  | done {boundary : Option γ} (hread : reader boundary = .ok []) :
      Listing reader cursor boundary []
  | more {boundary : Option γ} {items rest : List σ} {last : σ}
      (hread : reader boundary = .ok (items ++ [last]))
      (hrest : Listing reader cursor (some (cursor last)) rest) :
      Listing reader cursor boundary (items ++ last :: rest)

/-- The shown rows before the first whole window of rows that cannot be shown; `skipped`
rows were not shown just before. -/
def shownBeforeGap (window : ℕ) (shown : ρ → Option σ) : ℕ → List ρ → List σ
  | _, [] => []
  | skipped, row :: rest =>
      match shown row with
      | some item => item :: shownBeforeGap window shown 0 rest
      | none =>
          if skipped + 1 < window then shownBeforeGap window shown (skipped + 1) rest else []

section Gaps

variable {window limit skipped : ℕ} {shown : ρ → Option σ} {rows before rest : List ρ} {row : ρ}
  {item : σ}

theorem shownBeforeGap_of_none (hnone : rows.filterMap shown = []) :
    shownBeforeGap window shown skipped (rows ++ rest) =
      if skipped + rows.length < window ∨ rows = [] then
        shownBeforeGap window shown (skipped + rows.length) rest
      else [] := by
  induction rows generalizing skipped with
  | nil => simp
  | cons row rows ih =>
      rw [List.filterMap_cons] at hnone
      cases hshown : shown row with
      | some item =>
          rw [hshown] at hnone
          cases hnone
      | none =>
          rw [hshown] at hnone
          rw [List.cons_append, shownBeforeGap, hshown]
          simp only [ih hnone, List.length_cons, reduceCtorEq, or_false]
          by_cases hlast : rows = []
          · simp [hlast]
          · simp only [hlast, or_false]
            have hlength : 0 < rows.length := List.length_pos_iff.mpr hlast
            split_ifs <;> first | omega | rfl | (congr 1; omega)

/-- Rows that end in a shown row, with no gap before it. -/
theorem shownBeforeGap_append (hitem : shown row = some item)
    (hlength : skipped + before.length < window) :
    shownBeforeGap window shown skipped (before ++ row :: rest) =
      before.filterMap shown ++ item :: shownBeforeGap window shown 0 rest := by
  induction before generalizing skipped with
  | nil => rw [List.nil_append, shownBeforeGap, hitem, List.filterMap_nil, List.nil_append]
  | cons first before ih =>
      rw [List.length_cons] at hlength
      rw [List.cons_append, shownBeforeGap, List.filterMap_cons]
      cases hfirst : shown first with
      | some shownFirst =>
          simp only
          rw [ih (by omega), List.cons_append]
      | none =>
          simp only
          rw [if_pos (by omega), ih (by omega)]

/-- Without a gap every row that can be shown is shown. -/
theorem shownBeforeGap_of_noGap {pending : List ρ} (hpending : pending.filterMap shown = [])
    (hskipped : pending.length < window)
    (hgap : ∀ gap : List ρ, gap <:+: pending ++ rows → gap.length = window →
      gap.filterMap shown ≠ []) :
    shownBeforeGap window shown pending.length rows = rows.filterMap shown := by
  induction rows generalizing pending with
  | nil => rfl
  | cons row rows ih =>
      rw [shownBeforeGap, List.filterMap_cons]
      cases hshown : shown row with
      | some item =>
          simp only [List.cons.injEq, true_and]
          apply @ih [] rfl (Nat.lt_of_le_of_lt (Nat.zero_le _) hskipped)
          intro gap hinfix
          apply hgap gap
          apply hinfix.trans
          exact ⟨pending ++ [row], [], by simp⟩
      | none =>
          have hextended : (pending ++ [row]).filterMap shown = [] := by
            rw [List.filterMap_append, hpending, List.filterMap_cons, hshown]
            rfl
          have hlength : (pending ++ [row]).length = pending.length + 1 := by
            rw [List.length_append, List.length_singleton]
          have hroom : pending.length + 1 < window := by
            by_contra hfull
            apply hgap (pending ++ [row]) ⟨[], rows, by simp⟩ _ hextended
            omega
          simp only [if_pos hroom]
          rw [← hlength]
          apply ih hextended (by omega)
          intro gap hinfix
          apply hgap gap
          rwa [List.append_cons]

theorem shownBeforeGap_initial :
    shownBeforeGap window shown skipped rows <+: rows.filterMap shown := by
  induction rows generalizing skipped with
  | nil => exact List.prefix_rfl
  | cons row rows ih =>
      rw [shownBeforeGap, List.filterMap_cons]
      cases shown row with
      | some item => exact List.prefix_cons_inj item |>.mpr ih
      | none =>
          by_cases hmore : skipped + 1 < window
          · simp only [if_pos hmore]
            exact ih
          · simp only [if_neg hmore]
            exact List.nil_prefix

/-- A page that is not empty ends in a shown row of the window. -/
theorem exists_split_of_page {items : List σ}
    (hpage : ((rows.take window).filterMap shown).take limit = items ++ [item]) :
    ∃ before row rest, rows = before ++ row :: rest ∧ before.filterMap shown = items ∧
      shown row = some item ∧ before.length < window := by
  have hprefix : ∃ later, (rows.take window).filterMap shown = items ++ item :: later := by
    refine ⟨((rows.take window).filterMap shown).drop limit, ?_⟩
    rw [List.append_cons, ← hpage, List.take_append_drop]
  obtain ⟨later, hlater⟩ := hprefix
  obtain ⟨before, others, htaken, hbefore, hothers⟩ := List.filterMap_eq_append_iff.mp hlater
  obtain ⟨hidden, row, rest, rfl, hhidden, hrow, _⟩ := List.filterMap_eq_cons_iff.mp hothers
  refine ⟨before ++ hidden, row, rest ++ rows.drop window, ?_, ?_, hrow, ?_⟩
  · calc rows = rows.take window ++ rows.drop window := (List.take_append_drop window rows).symm
      _ = _ := by rw [htaken]; simp
  · rw [List.filterMap_append, hbefore, List.filterMap_eq_nil_iff.mpr hhidden, List.append_nil]
  · have hlength := congrArg List.length htaken
    rw [List.length_take, List.length_append, List.length_append, List.length_cons] at hlength
    rw [List.length_append]
    omega

end Gaps

theorem Enumerates.ordered_nodup {key : ρ → κ} (hlisted : Enumerates key rows (ordered key rows)) :
    (ordered key rows).Nodup := by
  apply hlisted.ascending.imp
  intro first second hless heq
  exact absurd (congrArg key heq) (ne_of_lt hless)

/-- Lists with the same rows are ordered alike. -/
theorem ordered_congr {key : ρ → κ} {first second : List ρ} (hfirst : (first.map key).Nodup)
    (hsecond : (second.map key).Nodup) (hsame : ∀ row, row ∈ first ↔ row ∈ second) :
    ordered key first = ordered key second := by
  have hperm : first.Perm second := by
    rw [List.perm_ext_iff_of_nodup hfirst.of_map hsecond.of_map]
    exact hsame
  have hlisted := enumerates_ordered hfirst
  exact Enumerates.unique ⟨hlisted.perm.trans hperm, hlisted.ascending⟩
    (enumerates_ordered hsecond)

/-! ## What an enumeration yields -/

section Enumeration

variable {key : ρ → κ} {cursor : σ → γ} {position : γ → κ} {window limit : ℕ}
  {shown : ρ → Option σ} {rows listed : List ρ} {reader : Option γ → Except ε (List σ)}

/-- From the rest of the rows behind a boundary the enumeration yields what is shown before
the first gap. -/
theorem listing_of_rest (hlisted : Enumerates key rows listed)
    (hreader : ∀ boundary, reader boundary =
      .ok (windowed key window limit shown (boundary.map position) rows))
    (hcursor : ∀ row item, shown row = some item → position (cursor item) = key row)
    (hwindow : 0 < window) (hlimit : 0 < limit) {boundary : Option γ} {rest : List ρ}
    (hrest : ordered key (selected key ((boundary.map position).map (Prod.mk .next)) rows) = rest)
    (hsplit : ∃ before, listed = before ++ rest) (yielded : List σ) :
    Listing reader cursor boundary yielded ↔ yielded = shownBeforeGap window shown 0 rest := by
  induction hcount : rest.length using Nat.strong_induction_on
    generalizing boundary rest yielded with
  | _ count ih =>
      have hread : reader boundary = .ok (((rest.take window).filterMap shown).take limit) := by
        rw [hreader, windowed, hrest]
      cases hpage : (((rest.take window).filterMap shown).take limit) using List.reverseRecOn with
      | nil =>
          have hnone : (rest.take window).filterMap shown = [] := by
            rw [List.take_eq_nil_iff] at hpage
            cases hpage with
            | inl hzero => omega
            | inr hempty => exact hempty
          have hend : shownBeforeGap window shown 0 rest = [] := by
            have hsplit := @shownBeforeGap_of_none ρ σ window 0 shown _ (rest.drop window) hnone
            rw [List.take_append_drop] at hsplit
            rw [hsplit]
            split_ifs with hshort
            · rw [List.drop_eq_nil_of_le, shownBeforeGap]
              rw [List.length_take] at hshort
              cases hshort with
              | inl hless => omega
              | inr hempty =>
                  rw [List.take_eq_nil_iff] at hempty
                  cases hempty with
                  | inl hzero => omega
                  | inr hempty =>
                      rw [hempty]
                      exact Nat.zero_le _
            · rfl
          rw [hend]
          constructor
          · intro hlisting
            cases hlisting with
            | done => rfl
            | more hmore =>
                rw [hread, hpage] at hmore
                simp at hmore
          · intro hempty
            rw [hempty]
            apply Listing.done
            rw [hread, hpage]
      | append_singleton items last =>
          obtain ⟨before, row, later, rfl, rfl, hrow, hlength⟩ := exists_split_of_page hpage
          obtain ⟨earlier, hearlier⟩ := hsplit
          have hlater : ordered key (selected key
              (((some (cursor last)).map position).map (Prod.mk .next)) rows) = later := by
            rw [Option.map_some, hcursor row last hrow, Option.map_some,
              hlisted.ordered_selected]
            rw [← List.append_assoc] at hearlier
            have hascending := hlisted.ascending
            rw [hearlier] at hascending ⊢
            exact selected_next hascending
          have hnext := fun later' => ih later.length (by
            rw [← hcount, List.length_append, List.length_cons]
            omega) hlater ⟨earlier ++ (before ++ [row]), by rw [hearlier]; simp⟩ later' rfl
          rw [shownBeforeGap_append hrow (by omega)]
          constructor
          · intro hlisting
            cases hlisting with
            | done hdone =>
                rw [hread, hpage] at hdone
                simp at hdone
            | more hmore hrest =>
                rw [hread, hpage, Except.ok.injEq] at hmore
                obtain ⟨rfl, hlast⟩ := List.append_inj' hmore rfl
                obtain ⟨rfl, _⟩ := List.cons.inj hlast
                rw [(hnext _).mp hrest]
          · intro hyielded
            rw [hyielded]
            apply Listing.more
            · rw [hread, hpage]
            · exact (hnext _).mpr rfl

/-- The whole enumeration. -/
theorem listing_iff (hkeys : (rows.map key).Nodup)
    (hreader : ∀ boundary, reader boundary =
      .ok (windowed key window limit shown (boundary.map position) rows))
    (hcursor : ∀ row item, shown row = some item → position (cursor item) = key row)
    (hwindow : 0 < window) (hlimit : 0 < limit) (yielded : List σ) :
    Listing reader cursor none yielded ↔
      yielded = shownBeforeGap window shown 0 (ordered key rows) := by
  apply listing_of_rest (enumerates_ordered hkeys) hreader hcursor hwindow hlimit
  · simp [selected]
  · exact ⟨[], rfl⟩

end Enumeration

end Keyset
