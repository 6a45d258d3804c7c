import Agora.RowLocking
import Mathlib.Logic.Relation

/-!
# Waiting for row locks

A session waits for another when the first key of its locking statement is held by
that one; sessions deadlock when they wait in a cycle.  A discipline says after which
keys a key may be requested.  Programs that obey it keep the keys of every session in
a permitted order in all runs whose locking statements ascend, and sessions that wait
only for keys above the ones they hold never deadlock.
-/

variable {ι σ κ ρ ε : Type}

namespace LockingState

variable {state : LockingState ι σ κ ρ ε}

theorem take_holder [DecidableEq κ] {index other : ℕ} {key found : κ} :
    (state.take index key).holder found = some other ↔
      (found = key ∧ other = index) ∨ (found ≠ key ∧ state.holder found = some other) := by
  change Function.update state.holder key (some index) found = some other ↔ _
  by_cases hfound : found = key
  · subst hfound
    simp [eq_comm]
  · simp [hfound]

theorem close_holder {index other : ℕ} (call : ι) {key : κ} :
    (state.close index call).holder key = some other ↔
      state.holder key = some other ∧ other ≠ index := by
  change (if state.holder key = some index then none else state.holder key) = some other ↔ _
  by_cases hown : state.holder key = some index
  · simp [hown, eq_comm]
  · rw [if_neg hown]
    constructor
    · intro hholder
      refine ⟨hholder, ?_⟩
      rintro rfl
      exact hown hholder
    · exact And.left

/-- The session waits for a lock that another one holds. -/
inductive Waits (state : LockingState ι σ κ ρ ε) (index other : ℕ) : Prop
  | intro {call : ι} {key : κ} {waiting : List κ} {rows : List ρ} {matching : ρ → Bool}
      {next : List ρ → LockingProgram σ κ ρ ε}
      (hsession : state.sessions index =
        some (call, .locking (key :: waiting) rows matching next))
      (hholder : state.holder key = some other) (hother : other ≠ index)

/-- The key that the session acquires next. -/
def requested? (state : LockingState ι σ κ ρ ε) (index : ℕ) : Option κ :=
  match state.sessions index with
  | some (_, .locking (key :: _) _ _ _) => some key
  | _ => none

theorem waits_of_requested? {index other : ℕ} {key : κ}
    (hrequested : state.requested? index = some key) (hholder : state.holder key = some other)
    (hother : other ≠ index) : state.Waits index other := by
  unfold requested? at hrequested
  split at hrequested
  · rename_i hsession
    cases hrequested
    exact .intro hsession hholder hother
  · contradiction

/-- Sessions wait for each other in a cycle. -/
def Deadlocked (state : LockingState ι σ κ ρ ε) : Prop :=
  ∃ index, Relation.TransGen state.Waits index index

/-- Every wait is for a key above the keys that the session holds. -/
def Ascending (below : κ → κ → Prop) (state : LockingState ι σ κ ρ ε) : Prop :=
  ∀ index other call key waiting rows matching next,
    state.sessions index = some (call, .locking (key :: waiting) rows matching next) →
      state.holder key = some other → other ≠ index →
        ∀ held, state.holder held = some index → below held key

theorem not_deadlocked_of_ascending {below : κ → κ → Prop} {state : LockingState ι σ κ ρ ε}
    (hirrefl : ∀ key, ¬ below key key)
    (htrans : ∀ {first second third}, below first second → below second third →
      below first third)
    (hascending : state.Ascending below) : ¬ state.Deadlocked := by
  rintro ⟨start, hcycle⟩
  have hfirst : ∃ key other call waiting rows matching next, state.sessions start =
      some (call, .locking (key :: waiting) rows matching next) ∧
        state.holder key = some other ∧ other ≠ start := by
    rcases Relation.TransGen.head'_iff.mp hcycle with ⟨other, hwaits, _⟩
    obtain ⟨hsession, hholder, hother⟩ := hwaits
    exact ⟨_, other, _, _, _, _, _, hsession, hholder, hother⟩
  obtain ⟨key, other, call, waiting, rows, matching, next, hsession, hholder, hother⟩ := hfirst
  have hreached : ∀ last, Relation.TransGen state.Waits start last →
      ∃ held, state.holder held = some last ∧ (held = key ∨ below key held) := by
    intro last hpath
    induction hpath with
    | single hwaits =>
        obtain ⟨hsame, hheld, _⟩ := hwaits
        rw [hsession] at hsame
        cases hsame
        exact ⟨key, hheld, .inl rfl⟩
    | tail _ hwaits ih =>
        obtain ⟨held, hheld, horder⟩ := ih
        obtain ⟨hmiddle, hnext, hne⟩ := hwaits
        have habove := hascending _ _ _ _ _ _ _ _ hmiddle hnext hne held hheld
        refine ⟨_, hnext, .inr ?_⟩
        rcases horder with rfl | hbelow
        · exact habove
        · exact htrans hbelow habove
  obtain ⟨held, hheld, horder⟩ := hreached start hcycle
  have habove := hascending _ _ _ _ _ _ _ _ hsession hholder hother held hheld
  rcases horder with rfl | hbelow
  · exact hirrefl _ habove
  · exact hirrefl _ (htrans hbelow habove)

end LockingState

/-! ## Disciplines -/

/-- What programs may rely on about the committed states, and after which keys a call may
request a key. -/
structure LockDiscipline (ι σ κ : Type) where
  good : σ → Prop
  evolves : σ → σ → Prop
  refl : ∀ state, evolves state state
  trans : ∀ {first second third}, evolves first second → evolves second third →
    evolves first third
  ascends : κ → κ → Prop
  lockable : ι → σ → List κ → κ → Prop
  carried : ∀ {call before after held key}, evolves before after →
    lockable call before held key → lockable call after held key

namespace LockDiscipline

variable (discipline : LockDiscipline ι σ κ)

/-- Every key may be requested after the keys before it. -/
def Admits (call : ι) (state : σ) (keys : List κ) : Prop :=
  ∀ earlier key later, keys = earlier ++ key :: later → discipline.lockable call state earlier key

variable {discipline}

theorem Admits.append {call : ι} {state : σ} {held asked : List κ}
    (hheld : discipline.Admits call state held)
    (hasked : ∀ earlier key later, asked = earlier ++ key :: later →
      discipline.lockable call state (held ++ earlier) key) :
    discipline.Admits call state (held ++ asked) := by
  intro earlier key later hsplit
  rcases List.append_eq_append_iff.mp hsplit with ⟨passed, hearlier, hrest⟩ | ⟨rest, hrest, hlater⟩
  · rw [hearlier]
    exact hasked passed key later hrest
  · cases rest with
    | nil =>
        rw [List.append_nil] at hrest
        subst hrest
        have hfirst := hasked [] key later hlater.symm
        rwa [List.append_nil] at hfirst
    | cons first rest =>
        cases hlater
        exact hheld earlier key rest hrest

variable (discipline)

/-- New keys ascend from the keys that are held. -/
def Ascends (held asked : List κ) : Prop :=
  ∀ first ∈ held, ∀ second ∈ asked, second ∉ held → discipline.ascends first second

end LockDiscipline

namespace LockingProgram

/-- Locking statements request permitted keys if they ascend, and commits keep what programs
rely on. -/
def Obeys [Keyed ρ κ] (discipline : LockDiscipline ι σ κ) (call : ι) :
    LockingProgram σ κ ρ ε → List κ → σ → Prop
  | .lock candidates matching next, held, past =>
      ∀ now, discipline.good now → discipline.evolves past now →
        (discipline.Admits call now held → discipline.Ascends held (candidates now) →
          discipline.Admits call now (held ++ candidates now)) ∧
        ∀ rows : List ρ, (∀ row ∈ rows, matching row = true ∧
            Keyed.key row ∈ held ++ candidates now) →
          (next rows).Obeys discipline call (held ++ candidates now) now
  | .commit body, _, past =>
      ∀ now after, discipline.good now → discipline.evolves past now →
        body.Runs now ⟨⟩ after → discipline.evolves now after ∧ discipline.good after

end LockingProgram

namespace LockingPhase

/-- The keys of the current statement that the session still waits for. -/
def waiting : LockingPhase σ κ ρ ε → List κ
  | .locking waiting _ _ _ => waiting
  | _ => []

/-- The rest of the program obeys the discipline. -/
def Obeys [Keyed ρ κ] (discipline : LockDiscipline ι σ κ) (call : ι) (held : List κ) (past : σ) :
    LockingPhase σ κ ρ ε → Prop
  | .running program => program.Obeys discipline call held past
  | .locking waiting rows matching next =>
      (∀ row ∈ rows, matching row = true ∧ Keyed.key row ∈ held) ∧
        ∀ all : List ρ, (∀ row ∈ all, matching row = true ∧ Keyed.key row ∈ held ++ waiting) →
          (next all).Obeys discipline call (held ++ waiting) past
  | .closed => held = []

end LockingPhase

namespace LockingState

variable [Keyed ρ κ] {state : LockingState ι σ κ ρ ε} {discipline : LockDiscipline ι σ κ}

/-- The keys that a session holds, in the order of its requests. -/
structure Disciplined (discipline : LockDiscipline ι σ κ) (state : LockingState ι σ κ ρ ε)
    (index : ℕ) (call : ι) (phase : LockingPhase σ κ ρ ε) (held : List κ) (past : σ) : Prop where
  holds : ∀ key, state.holder key = some index ↔ key ∈ held
  evolved : discipline.evolves past state.shared
  admits : discipline.Admits call state.shared (held ++ phase.waiting)
  obeys : phase.Obeys discipline call held past

/-- The invariant of all sessions. -/
structure Orderly (discipline : LockDiscipline ι σ κ) (state : LockingState ι σ κ ρ ε) :
    Prop where
  good : discipline.good state.shared
  idle : ∀ index, state.sessions index = none → ∀ key, state.holder key ≠ some index
  session : ∀ index call phase, state.sessions index = some (call, phase) →
    ∃ held past, state.Disciplined discipline index call phase held past

theorem Disciplined.transfer {later : LockingState ι σ κ ρ ε} {index : ℕ} {call : ι}
    {phase : LockingPhase σ κ ρ ε} {held : List κ} {past : σ}
    (hdisciplined : state.Disciplined discipline index call phase held past)
    (hholder : ∀ key, later.holder key = some index ↔ state.holder key = some index)
    (hevolves : discipline.evolves state.shared later.shared) :
    later.Disciplined discipline index call phase held past where
  holds key := (hholder key).trans (hdisciplined.holds key)
  evolved := discipline.trans hdisciplined.evolved hevolves
  admits earlier key later hsplit :=
    discipline.carried hevolves (hdisciplined.admits earlier key later hsplit)
  obeys := hdisciplined.obeys

/-- A session moves on while the others keep their locks. -/
theorem Orderly.moved (horderly : state.Orderly discipline) {later : LockingState ι σ κ ρ ε}
    {index : ℕ} {call : ι} {phase : LockingPhase σ κ ρ ε} {held : List κ} {past : σ}
    (hshared : later.shared = state.shared) (hsessions : later.sessions = state.sessions)
    (hothers : ∀ other, other ≠ index → ∀ key,
      later.holder key = some other ↔ state.holder key = some other)
    (hdisciplined : later.Disciplined discipline index call phase held past) :
    (later.update index call phase).Orderly discipline where
  good := by
    change discipline.good later.shared
    rw [hshared]
    exact horderly.good
  idle other hidle key := by
    by_cases hother : other = index
    · rw [hother, update_sessions_self] at hidle
      contradiction
    · rw [update_sessions_of_ne _ hother, hsessions] at hidle
      exact fun hholder => horderly.idle other hidle key ((hothers other hother key).mp hholder)
  session other found otherPhase hfound := by
    by_cases hother : other = index
    · subst hother
      rw [update_sessions_self] at hfound
      cases hfound
      exact ⟨held, past, hdisciplined.transfer (fun _ => Iff.rfl) (discipline.refl _)⟩
    · rw [update_sessions_of_ne _ hother, hsessions] at hfound
      obtain ⟨otherHeld, otherPast, hkept⟩ := horderly.session other found otherPhase hfound
      refine ⟨otherHeld, otherPast, hkept.transfer (hothers other hother) ?_⟩
      change discipline.evolves state.shared later.shared
      rw [hshared]
      exact discipline.refl _

theorem Orderly.update (horderly : state.Orderly discipline) {index : ℕ} {call : ι}
    {phase : LockingPhase σ κ ρ ε} {held : List κ} {past : σ}
    (hdisciplined : state.Disciplined discipline index call phase held past) :
    (state.update index call phase).Orderly discipline :=
  horderly.moved rfl rfl (fun _ _ _ => Iff.rfl) hdisciplined

/-- The end of a session leaves the others as they are. -/
theorem Orderly.close (horderly : state.Orderly discipline) {index : ℕ} (call : ι) {shared : σ}
    (hevolves : discipline.evolves state.shared shared) (hgood : discipline.good shared) :
    ({ state.close index call with shared := shared } : LockingState ι σ κ ρ ε).Orderly
      discipline where
  good := hgood
  idle other hidle key hholder := by
    have hkept : (state.update index call .closed).sessions other = none := hidle
    have hheld := (close_holder call).mp hholder
    rw [update_sessions_of_ne _ hheld.2] at hkept
    exact horderly.idle other hkept key hheld.1
  session other found phase hfound := by
    have hkept : (state.update index call .closed).sessions other = some (found, phase) := hfound
    by_cases hother : other = index
    · subst hother
      rw [update_sessions_self] at hkept
      cases hkept
      refine ⟨[], shared, ?_, discipline.refl _, ?_, rfl⟩
      · intro key
        have hheld := @close_holder _ _ _ _ _ state other other call key
        simpa using hheld
      · intro earlier key later hsplit
        simp [LockingPhase.waiting] at hsplit
    · rw [update_sessions_of_ne _ hother] at hkept
      obtain ⟨held, past, hdisciplined⟩ := horderly.session other found phase hkept
      refine ⟨held, past, hdisciplined.transfer (fun key => ?_) hevolves⟩
      exact (close_holder call).trans (and_iff_left hother)

/-- A key that is held was permitted when it was requested. -/
theorem Orderly.locked (horderly : state.Orderly discipline) {index : ℕ} {key : κ}
    (hholder : state.holder key = some index) :
    ∃ call phase earlier, state.sessions index = some (call, phase) ∧
      discipline.lockable call state.shared earlier key ∧
        ∀ first ∈ earlier, state.holder first = some index := by
  cases hsession : state.sessions index with
  | none => exact absurd hholder (horderly.idle index hsession key)
  | some session =>
      obtain ⟨call, phase⟩ := session
      obtain ⟨held, past, hdisciplined⟩ := horderly.session index call phase hsession
      obtain ⟨earlier, later, hsplit⟩ :=
        List.append_of_mem ((hdisciplined.holds key).mp hholder)
      refine ⟨call, phase, earlier, rfl,
        hdisciplined.admits earlier key (later ++ phase.waiting) (by simp [hsplit]), ?_⟩
      intro first hfirst
      rw [hdisciplined.holds, hsplit]
      exact List.mem_append_left _ hfirst

/-- A key that a session waits for is permitted after the keys it holds. -/
theorem Orderly.requested (horderly : state.Orderly discipline) {index : ℕ} {call : ι}
    {key : κ} {waiting : List κ} {rows : List ρ} {matching : ρ → Bool}
    {next : List ρ → LockingProgram σ κ ρ ε}
    (hsession : state.sessions index =
      some (call, .locking (key :: waiting) rows matching next)) :
    ∃ held, (∀ first, state.holder first = some index ↔ first ∈ held) ∧
      discipline.lockable call state.shared held key := by
  obtain ⟨held, past, hdisciplined⟩ := horderly.session _ _ _ hsession
  exact ⟨held, hdisciplined.holds, hdisciplined.admits held key waiting rfl⟩

end LockingState

/-! ## Runs -/

namespace LockingSystem

open LockingState

variable [Keyed ρ κ] [DecidableEq κ]

/-- A locking statement requests only keys that ascend from the keys its session holds. -/
def AscendingStep (discipline : LockDiscipline ι σ κ) (state : LockingState ι σ κ ρ ε)
    (event : LockingEvent ι) : Prop :=
  ∀ index call candidates matching next, event = .select index →
    state.sessions index = some (call, .running (.lock candidates matching next)) →
      ∀ first, state.holder first = some index → ∀ second ∈ candidates state.shared,
        state.holder second ≠ some index → discipline.ascends first second

variable {system : LockingSystem ι σ ρ ε} {discipline : LockDiscipline ι σ κ}
  {before after : LockingState ι σ κ ρ ε}

theorem orderly_step {event : LockingEvent ι}
    (hprograms : ∀ call now, discipline.good now →
      (system.program call).Obeys discipline call [] now)
    (horderly : before.Orderly discipline) (hascending : AscendingStep discipline before event)
    (hstep : system.Step before event after) : after.Orderly discipline := by
  cases hstep with
  | @begun index call hnew =>
      have hnone : ∀ key, before.holder key = some index ↔ key ∈ ([] : List κ) := by
        intro key
        simpa using horderly.idle index hnew key
      refine horderly.update ⟨hnone, discipline.refl _, ?_, hprograms call _ horderly.good⟩
      intro earlier key later hsplit
      simp [LockingPhase.waiting] at hsplit
  | @selecting index call candidates matching next hsession =>
      obtain ⟨held, past, hdisciplined⟩ := horderly.session _ _ _ hsession
      have hadmits : discipline.Admits call before.shared held := by
        simpa [LockingPhase.waiting] using hdisciplined.admits
      obtain ⟨hpermitted, hnext⟩ := hdisciplined.obeys _ horderly.good hdisciplined.evolved
      refine horderly.update ⟨hdisciplined.holds, discipline.refl _, hpermitted hadmits ?_,
        by simp, hnext⟩
      intro first hfirst second hsecond hfresh
      refine hascending index call candidates matching next rfl hsession first
        ((hdisciplined.holds first).mpr hfirst) second hsecond ?_
      exact fun hholder => hfresh ((hdisciplined.holds second).mp hholder)
  | @acquired index call key waiting rows matching next hsession hfree =>
      obtain ⟨held, past, hdisciplined⟩ := horderly.session _ _ _ hsession
      obtain ⟨hrows, hnext⟩ := hdisciplined.obeys
      have hsplit : (held ++ [key]) ++ waiting = held ++ key :: waiting := by simp
      have hmoved : (before.take index key).Disciplined discipline index call
          (.locking waiting (rows ++ (system.store.matching? matching before.shared key).toList)
            matching next) (held ++ [key]) past := by
        refine ⟨?_, hdisciplined.evolved, ?_, ?_, ?_⟩
        · intro found
          rw [take_holder, List.mem_append, List.mem_singleton, ← hdisciplined.holds found]
          tauto
        · change discipline.Admits call before.shared ((held ++ [key]) ++ waiting)
          rw [hsplit]
          exact hdisciplined.admits
        · intro row hrow
          rcases List.mem_append.mp hrow with hold | hnew
          · exact ⟨(hrows row hold).1, List.mem_append_left _ (hrows row hold).2⟩
          · obtain ⟨hread, hmatches⟩ := Option.filter_eq_some_iff.mp (Option.mem_toList.mp hnew)
            refine ⟨hmatches, List.mem_append_right _ ?_⟩
            rw [system.store.key_row hread]
            exact List.mem_singleton.mpr rfl
        · rw [hsplit]
          exact hnext
      refine horderly.moved rfl rfl ?_ hmoved
      intro other hother found
      rw [take_holder]
      constructor
      · rintro (⟨_, hsame⟩ | ⟨_, hholder⟩)
        · exact absurd hsame hother
        · exact hholder
      · intro hholder
        refine .inr ⟨?_, hholder⟩
        rintro rfl
        rcases hfree with hnone | hown
        · rw [hnone] at hholder
          contradiction
        · rw [hown] at hholder
          exact hother (Option.some.inj hholder).symm
  | @selected index call rows matching next hsession =>
      obtain ⟨held, past, hdisciplined⟩ := horderly.session _ _ _ hsession
      obtain ⟨hrows, hnext⟩ := hdisciplined.obeys
      have hrest := hnext rows (by simpa using hrows)
      rw [List.append_nil] at hrest
      refine horderly.update ⟨hdisciplined.holds, hdisciplined.evolved, ?_, hrest⟩
      simpa [LockingPhase.waiting] using hdisciplined.admits
  | @finished index call body hsession =>
      obtain ⟨held, past, hdisciplined⟩ := horderly.session _ _ _ hsession
      have hboth : discipline.evolves before.shared (body.settle before.shared) ∧
          discipline.good (body.settle before.shared) :=
        Transaction.settle_induction (motive := fun committed =>
          discipline.evolves before.shared committed ∧ discipline.good committed)
          ⟨discipline.refl _, horderly.good⟩ fun _ committed hruns =>
            hdisciplined.obeys _ committed horderly.good hdisciplined.evolved hruns
      exact horderly.close call hboth.1 hboth.2
  | @aborted index call phase hsession =>
      exact horderly.close call (discipline.refl _) horderly.good

/-- A session keeps its call. -/
theorem call_of_step {event : LockingEvent ι} (hstep : system.Step before event after)
    {index : ℕ} {call : ι} {phase : LockingPhase σ κ ρ ε}
    (hsession : after.sessions index = some (call, phase)) :
    (∃ earlier, before.sessions index = some (call, earlier)) ∨ event = .begin index call := by
  have hupdated : ∀ (state : LockingState ι σ κ ρ ε) changed found earlier
      (later : LockingPhase σ κ ρ ε), before.sessions changed = some (found, earlier) →
        state.sessions = before.sessions →
          (state.update changed found later).sessions index = some (call, phase) →
            ∃ earlier, before.sessions index = some (call, earlier) := by
    intro state changed found earlier later hbefore hsame hafter
    by_cases hindex : index = changed
    · rw [hindex, update_sessions_self] at hafter
      cases hafter
      exact ⟨earlier, hindex ▸ hbefore⟩
    · rw [update_sessions_of_ne _ hindex, hsame] at hafter
      exact ⟨phase, hafter⟩
  cases hstep with
  | @begun changed found hnew =>
      by_cases hindex : index = changed
      · rw [hindex, update_sessions_self] at hsession
        cases hsession
        exact .inr (hindex ▸ rfl)
      · rw [update_sessions_of_ne _ hindex] at hsession
        exact .inl ⟨phase, hsession⟩
  | selecting hbefore => exact .inl (hupdated _ _ _ _ _ hbefore rfl hsession)
  | acquired hbefore _ => exact .inl (hupdated _ _ _ _ _ hbefore rfl hsession)
  | selected hbefore => exact .inl (hupdated _ _ _ _ _ hbefore rfl hsession)
  | finished hbefore => exact .inl (hupdated _ _ _ _ _ hbefore rfl hsession)
  | aborted hbefore => exact .inl (hupdated _ _ _ _ _ hbefore rfl hsession)

/-- The invariant rule of disciplined programs. -/
theorem orderly_of_reachable
    (hprograms : ∀ call now, discipline.good now →
      (system.program call).Obeys discipline call [] now)
    {condition : LockingState ι σ κ ρ ε → LockingEvent ι → Prop}
    (hcondition : ∀ state event, condition state event → AscendingStep discipline state event)
    {start : LockingState ι σ κ ρ ε} {events : List (LockingEvent ι)}
    (hstart : system.transitions.initial start) (hgood : discipline.good start.shared)
    (hpath : (system.transitions.guarded condition).Path start events after) :
    after.Orderly discipline := by
  refine hpath.preserves (motive := fun state => state.Orderly discipline) ?_ ?_
  · refine ⟨hgood, fun index _ key hholder => ?_, fun index call phase hsession => ?_⟩
    · rw [hstart.1 key] at hholder
      contradiction
    · rw [hstart.2 index] at hsession
      contradiction
  · intro state event next horderly hstep
    exact orderly_step hprograms horderly (hcondition state event hstep.1) hstep.2

end LockingSystem
