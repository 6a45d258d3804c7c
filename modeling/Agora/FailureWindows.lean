import Mathlib.Tactic

/-!
# Counting failures in windows

A bucket counts the failures of one subject in windows of fixed length.  The
counter saturates at a limit, and a failure at the limit closes the bucket for
the length of a lockout.  A visit first starts a new window or lifts an expired
lockout, and then may register a failure if the bucket is not closed.

Two failures after the limit lie at least one lockout apart, so a window holds
the limit and as many failures as whole lockouts fit strictly inside it.
-/

namespace Throttle

structure Limits where
  limit : ℕ
  window : ℤ
  lockout : ℤ
  limit_pos : 0 < limit
  window_pos : 0 < window
  lockout_pos : 0 < lockout

structure Bucket where
  started : ℤ
  failures : ℕ
  blocked : Option ℤ
  deriving DecidableEq

namespace Bucket

def opened (now : ℤ) : Bucket where
  started := now
  failures := 0
  blocked := none

/-- The bucket refuses at this time. -/
def Closed (bucket : Bucket) (now : ℤ) : Prop :=
  ∃ moment ∈ bucket.blocked, now < moment

/-- A new window, or a lockout that has passed. -/
def refresh (limits : Limits) (now : ℤ) (bucket : Bucket) : Bucket :=
  if limits.window ≤ now - bucket.started then opened now
  else if ∃ moment ∈ bucket.blocked, moment ≤ now then { bucket with blocked := none }
  else bucket

def register (limits : Limits) (now : ℤ) (bucket : Bucket) : Bucket where
  started := bucket.started
  failures := min (bucket.failures + 1) limits.limit
  blocked :=
    if limits.limit ≤ min (bucket.failures + 1) limits.limit then some (now + limits.lockout)
    else bucket.blocked

end Bucket

/-- What happens to a bucket at a time: it is looked at, and perhaps a failure is registered. -/
structure Visit where
  now : ℤ
  failed : Bool

section Histories

variable (limits : Limits)

/-- The bucket as a visit finds it. -/
def Visit.finds (visit : Visit) (bucket : Option Bucket) : Bucket :=
  (bucket.getD (.opened visit.now)).refresh limits visit.now

def Visit.leaves (visit : Visit) (bucket : Option Bucket) : Bucket :=
  if visit.failed then (visit.finds limits bucket).register limits visit.now
  else visit.finds limits bucket

/-- The visit and the window it falls in. -/
structure Record where
  now : ℤ
  failed : Bool
  started : ℤ

def history : Option Bucket → List Visit → List Record
  | _, [] => []
  | bucket, visit :: rest =>
      ⟨visit.now, visit.failed, (visit.leaves limits bucket).started⟩ ::
        history (some (visit.leaves limits bucket)) rest

/-- A failure is registered only where the bucket is not closed. -/
def Permitted : Option Bucket → List Visit → Prop
  | _, [] => True
  | bucket, visit :: rest =>
      (visit.failed = true → ¬ (visit.finds limits bucket).Closed visit.now) ∧
        Permitted (some (visit.leaves limits bucket)) rest

end Histories

/-- What holds of a bucket between visits, the last of them no later than `last`. -/
structure Bucket.Sound (limits : Limits) (last : ℤ) (bucket : Bucket) : Prop where
  started : bucket.started ≤ last
  bounded : bucket.failures ≤ limits.limit
  unblocked : bucket.failures < limits.limit → bucket.blocked = none
  lockout : bucket.failures = limits.limit →
    bucket.started + limits.lockout ≤ max last (bucket.blocked.getD last)

section Steps

variable {limits : Limits} {last now window : ℤ} {bucket : Bucket} {visit : Visit}

/-! ## One visit -/

@[simp] theorem Bucket.refresh_opened : (Bucket.opened now).refresh limits now = .opened now := by
  have hwindow := limits.window_pos
  simp [Bucket.refresh, Bucket.opened]

theorem Bucket.opened_sound : (Bucket.opened now).Sound limits now where
  started := le_rfl
  bounded := Nat.zero_le _
  unblocked _ := rfl
  lockout hfull := absurd hfull limits.limit_pos.ne

@[simp] theorem Bucket.register_started :
    (bucket.register limits now).started = bucket.started :=
  rfl

theorem Visit.leaves_started {bucket : Option Bucket} :
    (visit.leaves limits bucket).started = (visit.finds limits bucket).started := by
  unfold Visit.leaves
  split
  · exact Bucket.register_started
  · rfl

/-- In its window a bucket keeps its start and its counter. -/
theorem Bucket.refresh_within (hwithin : now < bucket.started + limits.window) :
    (bucket.refresh limits now).started = bucket.started ∧
      (bucket.refresh limits now).failures = bucket.failures := by
  unfold Bucket.refresh
  rw [if_neg (by omega)]
  split
  · exact ⟨rfl, rfl⟩
  · exact ⟨rfl, rfl⟩

theorem Bucket.refresh_expired (hexpired : bucket.started + limits.window ≤ now) :
    bucket.refresh limits now = .opened now := by
  unfold Bucket.refresh
  rw [if_pos (by omega)]

/-- Within its window a bucket is open only after its lockout. -/
theorem Bucket.open_after (hwithin : now < bucket.started + limits.window) (hlast : last ≤ now)
    (hopen : ¬ (bucket.refresh limits now).Closed now) :
    (bucket.refresh limits now).blocked = none ∧ max last (bucket.blocked.getD last) ≤ now := by
  unfold Bucket.refresh at hopen ⊢
  rw [if_neg (by omega)] at hopen ⊢
  split
  · rename_i hpassed
    obtain ⟨moment, hblocked, hmoment⟩ := hpassed
    rw [Option.mem_def] at hblocked
    simp [hblocked, hlast, hmoment]
  · rename_i hnot
    rw [if_neg hnot] at hopen
    cases hblocked : bucket.blocked with
    | none => simp [hlast]
    | some moment =>
        refine absurd ⟨moment, hblocked, ?_⟩ hopen
        by_contra hpassed
        exact hnot ⟨moment, hblocked, by omega⟩

/-- Looking at a bucket does not bring its next failure forward. -/
theorem Bucket.earliest_refresh (hwithin : now < bucket.started + limits.window)
    (hlast : last ≤ now) :
    max last (bucket.blocked.getD last) ≤
      max now ((bucket.refresh limits now).blocked.getD now) := by
  unfold Bucket.refresh
  rw [if_neg (by omega)]
  split
  · rename_i hpassed
    obtain ⟨moment, hblocked, hmoment⟩ := hpassed
    rw [Option.mem_def] at hblocked
    simp only [hblocked, Option.getD_some, Option.getD_none]
    omega
  · cases hblocked : bucket.blocked with
    | none =>
        simp only [Option.getD_none]
        omega
    | some moment =>
        simp only [Option.getD_some]
        omega

theorem Bucket.Sound.mono (hsound : bucket.Sound limits last) (hlast : last ≤ now) :
    bucket.Sound limits now where
  started := hsound.started.trans hlast
  bounded := hsound.bounded
  unblocked := hsound.unblocked
  lockout hfull := by
    have hlockout := hsound.lockout hfull
    cases hblocked : bucket.blocked with
    | none =>
        simp only [hblocked, Option.getD_none] at hlockout ⊢
        omega
    | some moment =>
        simp only [hblocked, Option.getD_some] at hlockout ⊢
        omega

theorem Bucket.Sound.refresh (hsound : bucket.Sound limits last) (hlast : last ≤ now) :
    (bucket.refresh limits now).Sound limits now := by
  by_cases hexpired : bucket.started + limits.window ≤ now
  · rw [Bucket.refresh_expired hexpired]
    exact Bucket.opened_sound
  · have hstarted := hsound.started
    have hfull := hsound.lockout
    unfold Bucket.refresh
    rw [if_neg (by omega)]
    split
    · rename_i hpassed
      obtain ⟨moment, hblocked, hmoment⟩ := hpassed
      rw [Option.mem_def] at hblocked
      refine ⟨hstarted.trans hlast, hsound.bounded, fun _ => rfl, fun hcount => ?_⟩
      have hlockout := hfull hcount
      simp only [hblocked, Option.getD_some, Option.getD_none] at hlockout ⊢
      omega
    · exact hsound.mono hlast

theorem Bucket.Sound.register (hsound : bucket.Sound limits now) :
    (bucket.register limits now).Sound limits now := by
  have hstarted := hsound.started
  have hlockout := limits.lockout_pos
  constructor
  · exact hstarted
  · exact min_le_right _ _
  · intro hbelow
    have hnot : ¬ limits.limit ≤ min (bucket.failures + 1) limits.limit := not_le.mpr hbelow
    simp only [Bucket.register, if_neg hnot]
    apply hsound.unblocked
    omega
  · intro hfull
    have hreached : limits.limit ≤ min (bucket.failures + 1) limits.limit := hfull.ge
    simp only [Bucket.register, if_pos hreached, Option.getD_some]
    omega

theorem Visit.leaves_sound {found : Option Bucket} (hlast : last ≤ visit.now)
    (hsound : ∀ bucket ∈ found, bucket.Sound limits last) :
    (visit.leaves limits found).Sound limits visit.now := by
  have hfinds : (visit.finds limits found).Sound limits visit.now := by
    cases found with
    | none =>
        rw [Visit.finds, Option.getD_none, Bucket.refresh_opened]
        exact Bucket.opened_sound
    | some bucket => exact (hsound bucket rfl).refresh hlast
  unfold Visit.leaves
  split
  · exact hfinds.register
  · exact hfinds

/-- A visit within the window stays in it, and a later one starts a new window. -/
theorem Visit.leaves_started_cases :
    (visit.now < bucket.started + limits.window ∧
        (visit.leaves limits (some bucket)).started = bucket.started) ∨
      (bucket.started + limits.window ≤ visit.now ∧
        (visit.leaves limits (some bucket)).started = visit.now) := by
  rw [Visit.leaves_started, Visit.finds, Option.getD_some]
  by_cases hexpired : bucket.started + limits.window ≤ visit.now
  · rw [Bucket.refresh_expired hexpired]
    exact .inr ⟨hexpired, rfl⟩
  · have hwithin : visit.now < bucket.started + limits.window := by omega
    exact .inl ⟨hwithin, (Bucket.refresh_within hwithin).1⟩

end Steps

/-! ## Failures in one window -/

/-- The failures registered in the window with this start. -/
def failuresUnder (window : ℤ) (records : List Record) : ℕ :=
  records.countP fun record => record.failed && decide (record.started = window)

/-- How many failures may still be registered in the window of a bucket. -/
def Bucket.Spares (limits : Limits) (last : ℤ) (bucket : Bucket) (count : ℕ) : Prop :=
  (bucket.failures < limits.limit →
    ∃ extra : ℕ, bucket.failures + count ≤ limits.limit + extra ∧
      (extra = 0 ∨ extra * limits.lockout < limits.window)) ∧
    (bucket.failures = limits.limit → count = 0 ∨
      max last (bucket.blocked.getD last) + (count - 1) * limits.lockout <
        bucket.started + limits.window)

section Counting

variable {limits : Limits} {last now window : ℤ} {bucket : Bucket} {visits : List Visit}

theorem failuresUnder_cons {visit : Visit} {found : Option Bucket} :
    failuresUnder window (history limits found (visit :: visits)) =
      failuresUnder window (history limits (some (visit.leaves limits found)) visits) +
        if visit.failed = true ∧ (visit.leaves limits found).started = window then 1 else 0 := by
  simp [failuresUnder, history, List.countP_cons]

/-- Windows are never taken up again. -/
theorem failuresUnder_of_passed (hpassed : window < bucket.started)
    (hstarted : bucket.started ≤ last)
    (hordered : (last :: visits.map Visit.now).Pairwise (· ≤ ·)) :
    failuresUnder window (history limits (some bucket) visits) = 0 := by
  induction visits generalizing bucket last with
  | nil => rfl
  | cons visit rest ih =>
      obtain ⟨hfirst, hrest⟩ := List.pairwise_cons.mp hordered
      have hnow : last ≤ visit.now := hfirst _ List.mem_cons_self
      have hlater : window < (visit.leaves limits (some bucket)).started ∧
          (visit.leaves limits (some bucket)).started ≤ visit.now := by
        obtain ⟨-, hsame⟩ | ⟨-, hnew⟩ := @Visit.leaves_started_cases limits bucket visit
        · omega
        · omega
      rw [failuresUnder_cons, ih hlater.1 hlater.2 hrest, if_neg]
      rintro ⟨-, hsame⟩
      omega

theorem Bucket.Spares.zero : bucket.Spares limits last 0 := by
  constructor
  · intro hbelow
    exact ⟨0, by omega, .inl rfl⟩
  · exact fun _ => .inl rfl

/-- A failure takes one from what the bucket spares. -/
theorem Bucket.Spares.register {found : Bucket} {count : ℕ}
    (hstarted : found.started ≤ now) (hwithin : now < found.started + limits.window)
    (hblocked : found.blocked = none)
    (hspares : (found.register limits now).Spares limits now count) :
    (found.failures < limits.limit →
      ∃ extra : ℕ, found.failures + (count + 1) ≤ limits.limit + extra ∧
        (extra = 0 ∨ extra * limits.lockout < limits.window)) ∧
      (found.failures = limits.limit →
        now + count * limits.lockout < found.started + limits.window) := by
  obtain ⟨hbelow, hfull⟩ := hspares
  have hlockout := limits.lockout_pos
  simp only [Bucket.register, hblocked] at hbelow hfull
  constructor
  · intro hless
    obtain hnext | hnext : found.failures + 1 < limits.limit ∨
        found.failures + 1 = limits.limit := by omega
    · have hmin : min (found.failures + 1) limits.limit = found.failures + 1 :=
        min_eq_left hnext.le
      rw [hmin] at hbelow
      obtain ⟨extra, hcount, hextra⟩ := hbelow hnext
      exact ⟨extra, by omega, hextra⟩
    · have hmin : min (found.failures + 1) limits.limit = limits.limit := by omega
      rw [hmin, if_pos le_rfl, Option.getD_some] at hfull
      refine ⟨count, by omega, ?_⟩
      obtain hzero | htime := hfull rfl
      · exact .inl hzero
      · right
        rw [max_eq_right (by omega)] at htime
        linarith
  · intro hlimit
    have hmin : min (found.failures + 1) limits.limit = limits.limit := by omega
    rw [hmin, if_pos le_rfl, Option.getD_some] at hfull
    obtain hzero | htime := hfull rfl
    · simpa [hzero] using hwithin
    · rw [max_eq_right (by omega)] at htime
      linarith

theorem failuresUnder_spares (hsound : bucket.Sound limits last)
    (hordered : (last :: visits.map Visit.now).Pairwise (· ≤ ·))
    (hpermitted : Permitted limits (some bucket) visits) :
    bucket.Spares limits last
      (failuresUnder bucket.started (history limits (some bucket) visits)) := by
  induction visits generalizing bucket last with
  | nil => exact .zero
  | cons visit rest ih =>
      obtain ⟨hfirst, hrest⟩ := List.pairwise_cons.mp hordered
      obtain ⟨hopen, hpermitted⟩ := hpermitted
      have hnow : last ≤ visit.now := hfirst _ List.mem_cons_self
      have hstarted := hsound.started
      have hwindow := limits.window_pos
      have hleft : (visit.leaves limits (some bucket)).Sound limits visit.now :=
        Visit.leaves_sound hnow (by simpa using hsound)
      rw [failuresUnder_cons]
      obtain ⟨hwithin, hsame⟩ | ⟨hexpired, hnew⟩ := @Visit.leaves_started_cases limits bucket visit
      · have hspares := ih hleft hrest hpermitted
        obtain ⟨hkept, hcounter⟩ := Bucket.refresh_within hwithin
        rw [hsame] at hspares ⊢
        generalize failuresUnder bucket.started (history limits
          (some (visit.leaves limits (some bucket))) rest) = count at hspares ⊢
        by_cases hfailed : visit.failed = true
        · have hafter : visit.leaves limits (some bucket) =
              (bucket.refresh limits visit.now).register limits visit.now := by
            simp [Visit.leaves, Visit.finds, hfailed]
          obtain ⟨hblocked, hearliest⟩ := Bucket.open_after hwithin hnow (hopen hfailed)
          rw [hafter] at hspares
          have hspent := hspares.register (by omega) (by omega) hblocked
          rw [hkept, hcounter] at hspent
          simp only [hfailed, true_and, if_true]
          refine ⟨hspent.1, fun hlimit => .inr ?_⟩
          have hcount := hspent.2 hlimit
          push_cast
          linarith
        · have hafter : visit.leaves limits (some bucket) = bucket.refresh limits visit.now := by
            simp [Visit.leaves, Visit.finds, hfailed]
          have hearliest := Bucket.earliest_refresh hwithin hnow
          simp only [hfailed, false_and, if_false, add_zero, Bool.false_eq_true]
          rw [hafter, Bucket.Spares, hkept, hcounter] at hspares
          refine ⟨hspares.1, fun hlimit => ?_⟩
          obtain hzero | htime := hspares.2 hlimit
          · exact .inl hzero
          · exact .inr (by omega)
      · have hpassed : bucket.started < (visit.leaves limits (some bucket)).started := by omega
        have hnone : failuresUnder bucket.started
            (history limits (some (visit.leaves limits (some bucket))) rest) = 0 :=
          failuresUnder_of_passed hpassed hleft.started hrest
        rw [hnone, if_neg (fun hboth => by omega)]
        exact .zero

/-- The most failures that one window holds. -/
def Limits.most (limits : Limits) : ℕ :=
  limits.limit + ((limits.window - 1) / limits.lockout).toNat

theorem Limits.limit_add_le_most {extra : ℕ}
    (hextra : extra = 0 ∨ extra * limits.lockout < limits.window) :
    limits.limit + extra ≤ limits.most := by
  unfold Limits.most
  obtain hzero | hfits := hextra
  · omega
  · have hquotient : (extra : ℤ) ≤ (limits.window - 1) / limits.lockout :=
      (Int.le_ediv_iff_mul_le limits.lockout_pos).mpr (by omega)
    omega

theorem Bucket.Spares.le_most {count : ℕ} (hsound : bucket.Sound limits last)
    (hspares : bucket.Spares limits last count) : count ≤ limits.most := by
  obtain ⟨hbelow, hfull⟩ := hspares
  obtain hless | hlimit : bucket.failures < limits.limit ∨ bucket.failures = limits.limit := by
    have hbounded := hsound.bounded
    omega
  · obtain ⟨extra, hcount, hextra⟩ := hbelow hless
    have hmost := limits.limit_add_le_most hextra
    omega
  · have hlockout := hsound.lockout hlimit
    have hmost : limits.limit + count ≤ limits.most := by
      apply limits.limit_add_le_most
      obtain hzero | htime := hfull hlimit
      · exact .inl hzero
      · right
        linarith
    omega

theorem failuresUnder_le_of_some (hsound : bucket.Sound limits last)
    (hordered : (last :: visits.map Visit.now).Pairwise (· ≤ ·))
    (hpermitted : Permitted limits (some bucket) visits) :
    failuresUnder bucket.started (history limits (some bucket) visits) ≤ limits.most :=
  (failuresUnder_spares hsound hordered hpermitted).le_most hsound

/-- A visit that starts a window finds what it would find in a bucket opened then. -/
theorem Visit.leaves_opened {visit : Visit} {found : Option Bucket}
    (hopened : visit.finds limits found = .opened visit.now) :
    visit.leaves limits found = visit.leaves limits (some (.opened visit.now)) := by
  have hsame : visit.finds limits (some (.opened visit.now)) = .opened visit.now :=
    Bucket.refresh_opened
  unfold Visit.leaves
  rw [hopened, hsame]

/-- The failures registered in one window are bounded. -/
theorem failuresUnder_le {found : Option Bucket}
    (hsound : ∀ bucket ∈ found, bucket.Sound limits last)
    (hordered : (last :: visits.map Visit.now).Pairwise (· ≤ ·))
    (hpermitted : Permitted limits found visits) :
    failuresUnder window (history limits found visits) ≤ limits.most := by
  induction visits generalizing found last with
  | nil => exact Nat.zero_le _
  | cons visit rest ih =>
      obtain ⟨hfirst, hrest⟩ := List.pairwise_cons.mp hordered
      have hnow : last ≤ visit.now := hfirst _ List.mem_cons_self
      by_cases hstart : (visit.leaves limits found).started = window
      · obtain ⟨bucket, rfl, hsame⟩ | hopened : (∃ bucket, found = some bucket ∧
            bucket.started = window) ∨ visit.finds limits found = .opened visit.now := by
          cases found with
          | none => exact .inr Bucket.refresh_opened
          | some bucket =>
              obtain ⟨-, hsame⟩ | ⟨hexpired, -⟩ := @Visit.leaves_started_cases limits bucket visit
              · exact .inl ⟨bucket, rfl, by omega⟩
              · exact .inr (Bucket.refresh_expired hexpired)
        · rw [← hsame]
          exact failuresUnder_le_of_some (hsound bucket rfl) hordered hpermitted
        · have hleaves := Visit.leaves_opened hopened
          have hwindow : (Bucket.opened visit.now).started = window := by
            rw [← hstart, Visit.leaves_started, hopened]
          have hsame :
              visit.finds limits (some (.opened visit.now)) = visit.finds limits found := by
            rw [hopened]
            exact Bucket.refresh_opened
          have hopenedOrder : (visit.now :: (visit :: rest).map Visit.now).Pairwise (· ≤ ·) := by
            refine List.pairwise_cons.mpr ⟨fun time htime => ?_, hrest⟩
            obtain hhead | htail := List.mem_cons.mp htime
            · exact hhead.ge
            · exact (List.pairwise_cons.mp hrest).1 time htail
          have hmost := failuresUnder_le_of_some Bucket.opened_sound hopenedOrder
            (by rwa [Permitted, hsame, ← hleaves])
          rwa [hwindow, failuresUnder_cons, ← hleaves, ← failuresUnder_cons] at hmost
      · rw [failuresUnder_cons, if_neg (fun hboth => hstart hboth.2), add_zero]
        apply ih _ hrest hpermitted.2
        simpa using Visit.leaves_sound hnow hsound

/-! ## Failures in an interval of time -/

/-- The failures registered in the window's interval of time. -/
def failuresWithin (limits : Limits) (window : ℤ) (records : List Record) : ℕ :=
  records.countP fun record => record.failed &&
    decide (window ≤ record.now ∧ record.now < window + limits.window)

theorem failuresWithin_cons {visit : Visit} {found : Option Bucket} :
    failuresWithin limits window (history limits found (visit :: visits)) =
      failuresWithin limits window (history limits (some (visit.leaves limits found)) visits) +
        if visit.failed = true ∧ window ≤ visit.now ∧ visit.now < window + limits.window
          then 1 else 0 := by
  simp [failuresWithin, history, List.countP_cons]

/-- Every record lies in its own window. -/
theorem record_within {found : Option Bucket}
    (hsound : ∀ bucket ∈ found, bucket.Sound limits last)
    (hordered : (last :: visits.map Visit.now).Pairwise (· ≤ ·)) :
    ∀ record ∈ history limits found visits,
      record.started ≤ record.now ∧ record.now < record.started + limits.window := by
  induction visits generalizing found last with
  | nil => simp [history]
  | cons visit rest ih =>
      obtain ⟨hfirst, hrest⟩ := List.pairwise_cons.mp hordered
      have hnow : last ≤ visit.now := hfirst _ List.mem_cons_self
      have hleft := Visit.leaves_sound hnow hsound
      have hwindow := limits.window_pos
      intro record hrecord
      obtain hhead | htail := List.mem_cons.mp hrecord
      · subst hhead
        refine ⟨hleft.started, ?_⟩
        cases found with
        | none =>
            rw [Visit.leaves_started, Visit.finds, Option.getD_none, Bucket.refresh_opened]
            exact Int.lt_add_of_pos_right _ hwindow
        | some bucket =>
            dsimp only
            obtain ⟨hwithin, hsame⟩ | ⟨-, hnew⟩ := @Visit.leaves_started_cases limits bucket visit
            · omega
            · omega
      · exact ih (by simpa using hleft) hrest record htail

/-- Later windows start after earlier ones have ended. -/
theorem windows_apart (hstarted : bucket.started ≤ last)
    (hordered : (last :: visits.map Visit.now).Pairwise (· ≤ ·)) :
    ∀ record ∈ history limits (some bucket) visits,
      record.started = bucket.started ∨ bucket.started + limits.window ≤ record.started := by
  induction visits generalizing bucket last with
  | nil => simp [history]
  | cons visit rest ih =>
      obtain ⟨hfirst, hrest⟩ := List.pairwise_cons.mp hordered
      have hnow : last ≤ visit.now := hfirst _ List.mem_cons_self
      have hwindow := limits.window_pos
      have hcases := @Visit.leaves_started_cases limits bucket visit
      intro record hrecord
      obtain hhead | htail := List.mem_cons.mp hrecord
      · subst hhead
        dsimp only
        omega
      · have hlater := ih (by omega) hrest record htail
        omega

/-- The starts of the windows of a bucket, from the state it is found in. -/
def windows (limits : Limits) (found : Option Bucket) (visits : List Visit) : List ℤ :=
  (found.map Bucket.started).toList ++ (history limits found visits).map Record.started

theorem windows_cons {visit : Visit} {found : Option Bucket} :
    windows limits found (visit :: visits) =
      (found.map Bucket.started).toList ++
        windows limits (some (visit.leaves limits found)) visits :=
  rfl

theorem windows_pairwise {found : Option Bucket}
    (hsound : ∀ bucket ∈ found, bucket.Sound limits last)
    (hordered : (last :: visits.map Visit.now).Pairwise (· ≤ ·)) :
    (windows limits found visits).Pairwise fun first second =>
      second = first ∨ first + limits.window ≤ second := by
  induction visits generalizing found last with
  | nil => cases found <;> simp [windows, history]
  | cons visit rest ih =>
      obtain ⟨hfirst, hrest⟩ := List.pairwise_cons.mp hordered
      have hnow : last ≤ visit.now := hfirst _ List.mem_cons_self
      have hleft := Visit.leaves_sound hnow hsound
      have hfound : ∀ bucket ∈ some (visit.leaves limits found), bucket.Sound limits visit.now := by
        simpa using hleft
      have htail := ih hfound hrest
      cases found with
      | none => exact htail
      | some bucket =>
          refine List.pairwise_cons.mpr ⟨?_, htail⟩
          intro started hstarted
          obtain ⟨record, hrecord, rfl⟩ := List.mem_map.mp hstarted
          exact windows_apart (hsound bucket rfl).started hordered record hrecord

/-- Two windows are the same or do not overlap. -/
def Limits.Apart (limits : Limits) (first second : ℤ) : Prop :=
  second = first ∨ first + limits.window ≤ second ∨ second + limits.window ≤ first

instance : Std.Symm limits.Apart where
  symm first second hapart := by
    unfold Limits.Apart at hapart ⊢
    omega

theorem windows_disjoint {found : Option Bucket}
    (hsound : ∀ bucket ∈ found, bucket.Sound limits last)
    (hordered : (last :: visits.map Visit.now).Pairwise (· ≤ ·)) {first second : ℤ}
    (hfirst : first ∈ windows limits found visits)
    (hsecond : second ∈ windows limits found visits) : limits.Apart first second := by
  have hpairwise : (windows limits found visits).Pairwise limits.Apart := by
    apply (windows_pairwise hsound hordered).imp
    intro earlier later hlater
    unfold Limits.Apart
    omega
  exact hpairwise.forall_of_forall (fun _ _ => .inl rfl) hfirst hsecond

/-- In the interval of one of its windows a bucket registers a bounded number of failures. -/
theorem failuresWithin_le {found : Option Bucket}
    (hsound : ∀ bucket ∈ found, bucket.Sound limits last)
    (hordered : (last :: visits.map Visit.now).Pairwise (· ≤ ·))
    (hpermitted : Permitted limits found visits) (hwindow : window ∈ windows limits found visits) :
    failuresWithin limits window (history limits found visits) ≤ limits.most := by
  refine le_trans ?_ (@failuresUnder_le limits last window visits found hsound hordered
    hpermitted)
  apply List.countP_mono_left
  intro record hrecord hcounted
  simp only [Bool.and_eq_true, decide_eq_true_eq] at hcounted ⊢
  obtain ⟨hfailed, hfrom, hto⟩ := hcounted
  refine ⟨hfailed, ?_⟩
  obtain ⟨hbefore, hafter⟩ := record_within hsound hordered record hrecord
  have hlisted : record.started ∈ windows limits found visits :=
    List.mem_append_right _ (List.mem_map_of_mem hrecord)
  have hapart := windows_disjoint hsound hordered hwindow hlisted
  unfold Limits.Apart at hapart
  omega

end Counting

end Throttle
