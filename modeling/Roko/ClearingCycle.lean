import Roko.Schedules
import Mathlib.Tactic.IntervalCases

/-!
# Phases of a clearing epoch

`ClearingCycleState` of `isfr.rs`: an epoch runs through six phases, and a tick starts
the next phase once the present one has lasted its time.  The durations that the source
takes as fractions of an epoch are any natural numbers here.

Each transition restarts the clock of a phase at the time of the tick.  A state that is
ticked every second therefore follows the schedule of its phases, while `catchUp` makes
one transition and then waits for the whole next phase.
-/

namespace Roko

inductive ClearingPhase
  | commit
  | reveal
  | solve
  | certificate
  | verify
  | settle
  deriving DecidableEq, Repr

/-- `ClearingPhase::next`. -/
def ClearingPhase.next : ClearingPhase → Option ClearingPhase
  | commit => some reveal
  | reveal => some solve
  | solve => some certificate
  | certificate => some verify
  | verify => some settle
  | settle => none

/-- `allocations.phase_duration_secs(phase, epoch_duration_secs)` is `durations phase`. -/
structure ClearingCycleState where
  epoch : UInt64
  phase : ClearingPhase
  phaseStartedAt : Nat
  epochStartedAt : Nat
  durations : ClearingPhase → Nat

namespace ClearingCycleState

variable (state : ClearingCycleState) (now : Nat)

def currentPhaseDuration : Nat :=
  state.durations state.phase

def phaseDeadline : Nat :=
  state.phaseStartedAt + state.currentPhaseDuration

def isPhaseExpired : Bool :=
  state.phaseDeadline ≤ now

/-- Whether a transition occurred, and the state after it. -/
def tick : Bool × ClearingCycleState :=
  if !state.isPhaseExpired now then (false, state)
  else
    match state.phase.next with
    | some nextPhase => (true, { state with phase := nextPhase, phaseStartedAt := now })
    | none =>
        (true,
          { state with
            epoch := state.epoch + 1
            phase := .commit
            phaseStartedAt := now
            epochStartedAt := now })

/-- The loop of `catch_up`, with the number of transitions after which it breaks. -/
def catchUpLoop (now : Nat) : Nat → ClearingCycleState → Nat × ClearingCycleState
  | 0, state => (0, state)
  | left + 1, state =>
      if (state.tick now).1 then
        let (transitions, last) := catchUpLoop now left (state.tick now).2
        (transitions + 1, last)
      else (0, (state.tick now).2)

/-- `catch_up` breaks when it has made more than 12 transitions. -/
def catchUp : Nat × ClearingCycleState :=
  catchUpLoop now 13 state

/-- The epoch and the phase. -/
def position : UInt64 × ClearingPhase :=
  (state.epoch, state.phase)

def epochDuration : Nat :=
  state.durations .commit + state.durations .reveal + state.durations .solve +
    state.durations .certificate + state.durations .verify + state.durations .settle

/-- The epoch and the phase after these. -/
def advance (position : UInt64 × ClearingPhase) : UInt64 × ClearingPhase :=
  match position.2.next with
  | some nextPhase => (position.1, nextPhase)
  | none => (position.1 + 1, .commit)

/-- The epoch and the phase that many transitions later. -/
def scheduled (index : Nat) : UInt64 × ClearingPhase :=
  advance^[index] state.position

/-- The time that the scheduled phase of this index lasts. -/
def scheduledLength (index : Nat) : Nat :=
  state.durations (state.scheduled index).2

/-- When the scheduled phase of this index starts. -/
def scheduledStart (index : Nat) : Nat :=
  Schedule.boundary state.phaseStartedAt state.scheduledLength index

/-- The time lies in the interval of the scheduled phase of this index. -/
def InPhase (index : Nat) : Prop :=
  Schedule.Contains state.phaseStartedAt state.scheduledLength index now

/-- The state after a tick at every second from the start of the phase to the time. -/
def tickEach : ClearingCycleState :=
  (List.range' state.phaseStartedAt (now + 1 - state.phaseStartedAt)).foldl
    (fun state second => (state.tick second).2) state

/-- Catching up leads where ticking every second leads, which is the phase whose
scheduled interval contains the time. -/
def CatchesUp : Prop :=
  (state.catchUp now).2.position = (state.tickEach now).position ∧
    ∃ index, state.InPhase now index ∧
      (state.catchUp now).2.position = state.scheduled index

theorem tick_of_waiting {state : ClearingCycleState} {now : Nat}
    (waiting : now < state.phaseDeadline) : state.tick now = (false, state) := by
  unfold tick isPhaseExpired
  rw [decide_eq_false (Nat.not_le.mpr waiting)]
  rfl

theorem tick_of_expired {state : ClearingCycleState} {now : Nat}
    (expired : state.phaseDeadline ≤ now) :
    (state.tick now).1 = true ∧ (state.tick now).2.position = advance state.position ∧
      (state.tick now).2.phaseStartedAt = now ∧
      (state.tick now).2.durations = state.durations := by
  unfold tick isPhaseExpired advance position
  rw [decide_eq_true expired]
  cases state.phase <;> exact ⟨rfl, rfl, rfl, rfl⟩

/-- The phase of the schedule that a state has reached at a time. -/
structure Follows (state : ClearingCycleState) (index time : Nat)
    (reached : ClearingCycleState) : Prop where
  position : reached.position = state.scheduled index
  startedAt : reached.phaseStartedAt = state.scheduledStart index
  durations : reached.durations = state.durations
  inPhase : state.InPhase time index

variable {state : ClearingCycleState} {now : Nat}

theorem Follows.phaseDeadline {index time : Nat} {reached : ClearingCycleState}
    (follows : Follows state index time reached) :
    reached.phaseDeadline = state.scheduledStart (index + 1) := by
  have phase : reached.phase = (state.scheduled index).2 :=
    congrArg Prod.snd follows.position
  unfold ClearingCycleState.phaseDeadline currentPhaseDuration
  rw [follows.startedAt, follows.durations, phase]
  rfl

theorem Follows.tick (positive : ∀ phase, 0 < state.durations phase) {index time : Nat}
    {reached : ClearingCycleState} (follows : Follows state index time reached) :
    ∃ later, Follows state later (time + 1) (reached.tick (time + 1)).2 := by
  have deadline := follows.phaseDeadline
  rcases follows.inPhase.succ fun index => positive _ with
    ⟨waiting, inPhase⟩ | ⟨ends, inPhase⟩
  · refine ⟨index, ?_⟩
    rw [tick_of_waiting (deadline ▸ waiting)]
    exact ⟨follows.position, follows.startedAt, follows.durations, inPhase⟩
  · obtain ⟨-, position, startedAt, durations⟩ :=
      tick_of_expired (deadline.trans ends.symm).le
    refine ⟨index + 1, ?_, startedAt.trans ends, durations.trans follows.durations, inPhase⟩
    rw [position, follows.position]
    exact (Function.iterate_succ_apply' advance index state.position).symm

theorem follows_start (positive : ∀ phase, 0 < state.durations phase) :
    Follows state 0 state.phaseStartedAt (state.tick state.phaseStartedAt).2 := by
  rw [tick_of_waiting (Nat.lt_add_of_pos_right (positive state.phase))]
  exact ⟨rfl, rfl, rfl, Schedule.contains_start fun index => positive _⟩

/-- Ticked every second, a state is always in the scheduled phase. -/
theorem follows_tickEach (positive : ∀ phase, 0 < state.durations phase)
    (notBefore : state.phaseStartedAt ≤ now) :
    ∃ index, Follows state index now (state.tickEach now) := by
  induction now, notBefore using Nat.le_induction with
  | base =>
      refine ⟨0, ?_⟩
      unfold tickEach
      rw [Nat.add_sub_cancel_left]
      exact follows_start positive
  | succ now notBefore ih =>
      obtain ⟨index, follows⟩ := ih
      have seconds : now + 1 + 1 - state.phaseStartedAt =
          now + 1 - state.phaseStartedAt + 1 := by omega
      have last : state.phaseStartedAt + (now + 1 - state.phaseStartedAt) = now + 1 := by
        omega
      unfold tickEach at follows ⊢
      rw [seconds, List.range'_1_concat, List.foldl_append, List.foldl_cons,
        List.foldl_nil, last]
      exact follows.tick positive

theorem catchUp_position (positive : ∀ phase, 0 < state.durations phase) :
    (state.catchUp now).2.position =
      if now < state.phaseDeadline then state.position else advance state.position := by
  split
  case isTrue waiting =>
    unfold catchUp catchUpLoop
    rw [tick_of_waiting waiting]
    rfl
  case isFalse ended =>
    obtain ⟨moved, position, startedAt, durations⟩ := tick_of_expired (Nat.not_lt.mp ended)
    have waits : now < (state.tick now).2.phaseDeadline := by
      unfold phaseDeadline currentPhaseDuration
      rw [startedAt, durations]
      exact Nat.lt_add_of_pos_right (positive _)
    unfold catchUp catchUpLoop
    rw [if_pos moved]
    unfold catchUpLoop
    rw [tick_of_waiting waits]
    exact position

/-- Later phases of the next two epochs differ from the one after the present. -/
theorem scheduled_ne {index : Nat} (later : 1 < index) (bounded : index ≤ 12) :
    state.scheduled index ≠ state.scheduled 1 := by
  intro same
  have wraps : ∀ epoch : UInt64, epoch + 1 ≠ epoch := by
    intro epoch
    simp
  unfold scheduled position at same
  generalize state.epoch = epoch at same
  generalize state.phase = phase at same
  cases phase <;> interval_cases index <;>
    simp [advance, ClearingPhase.next, wraps] at same

theorem scheduledStart_twelve (state : ClearingCycleState) :
    state.scheduledStart 12 = state.phaseStartedAt + 2 * state.epochDuration := by
  unfold scheduledStart scheduledLength scheduled position epochDuration
  cases state.phase <;>
    simp only [Schedule.boundary, Function.iterate_succ, Function.iterate_zero,
      Function.comp_apply, id_eq, advance, ClearingPhase.next] <;> omega

/-- Within two epochs a state catches up exactly when no more than one phase has ended. -/
theorem catchesUp_iff (state : ClearingCycleState) (now : Nat)
    (positive : ∀ phase, 0 < state.durations phase) (notBefore : state.phaseStartedAt ≤ now)
    (near : now ≤ state.phaseStartedAt + 2 * state.epochDuration) :
    state.CatchesUp now ↔
      now < state.phaseDeadline + state.durations (advance state.position).2 := by
  obtain ⟨index, follows⟩ := follows_tickEach positive notBefore
  have lengths : ∀ index, 0 < state.scheduledLength index := fun index => positive _
  have ended := follows.inPhase.lt_iff lengths
  have once : now < state.phaseDeadline ↔ index < 1 := ended 1
  have twice : now < state.phaseDeadline + state.durations (advance state.position).2 ↔
      index < 2 := ended 2
  have bounded : index ≤ 12 := by
    have later : state.scheduledStart 12 < state.scheduledStart 13 :=
      Schedule.boundary_strictMono lengths (by omega)
    rw [scheduledStart_twelve] at later
    exact Nat.lt_succ_iff.mp ((ended 13).mp (near.trans_lt later))
  have caught : (state.catchUp now).2.position = _ := catchUp_position positive
  rw [twice]
  constructor
  · rintro ⟨agrees, -⟩
    by_contra several
    have notFirst : ¬ now < state.phaseDeadline := by omega
    rw [follows.position, caught, if_neg notFirst] at agrees
    exact scheduled_ne (by omega) bounded agrees.symm
  · intro few
    have reached : (state.catchUp now).2.position = state.scheduled index := by
      rw [caught]
      by_cases first : index < 1
      · rw [if_pos (once.mpr first), Nat.lt_one_iff.mp first]
        rfl
      · rw [if_neg fun waiting => first (once.mp waiting), show index = 1 by omega]
        rfl
    exact ⟨reached.trans follows.position.symm, index, follows.inPhase, reached⟩

/-- `ClearingCycleState::new(10, 0)` with the default allocations. -/
def tenSeconds : ClearingCycleState where
  epoch := 0
  phase := .commit
  phaseStartedAt := 0
  epochStartedAt := 0
  durations
    | .commit => 4
    | _ => 1

theorem tenSeconds_positive (phase : ClearingPhase) : 0 < tenSeconds.durations phase := by
  cases phase <;> decide

theorem catchesUp_tenSeconds :
    0 < tenSeconds.epochDuration ∧ tenSeconds.CatchesUp 4 := by
  refine ⟨by decide, ?_⟩
  exact (catchesUp_iff tenSeconds 4 tenSeconds_positive (by decide) (by decide)).mpr
    (by decide)

/-- Polled at second six, the cycle is in its second phase instead of its fourth. -/
theorem tenSeconds_falls_behind :
    (∀ phase, 0 < tenSeconds.durations phase) ∧
      (tenSeconds.catchUp 6).2.position = (0, .reveal) ∧
      (tenSeconds.tickEach 6).position = (0, .certificate) ∧ ¬ tenSeconds.CatchesUp 6 := by
  refine ⟨tenSeconds_positive, by decide, by decide, ?_⟩
  rintro ⟨agrees, -⟩
  exact absurd agrees (by decide)

end ClearingCycleState

end Roko
