import Roko.ParallelExecutorEvents

/-!
# How often a plan enters auto-fixing

`apply_event` compares the iteration counter of a plan with a constant and never
increments it, so between two restarts the gate can fail and be fixed without
bound.  The configured limit is kept only by plans whose counter is already at
the constant, and by plans that cannot come back to the gates.
-/

namespace Roko

namespace PlanState

open PlanStateMachine

/-- The phases from which no sequence of events leads back to the gates. -/
def PastGating (state : PlanState) : Prop :=
  state.currentPhase.kind ∈
    [PhaseKind.docRevision, .merging, .done, .complete, .failed, .skipped]

/-- How often a run of events on one plan enters `AutoFixing`. -/
def autoFixEntries (state : PlanState) : List ExecutorEvent → Nat
  | [] => 0
  | event :: events =>
      (if transition state event = .ok .autoFixing then 1 else 0) +
        (state.afterEvent event).autoFixEntries events

theorem autoFixEntries_append (state : PlanState)
    (first second : List ExecutorEvent) :
    state.autoFixEntries (first ++ second) =
      state.autoFixEntries first +
        (state.afterEvents first).autoFixEntries second := by
  induction first generalizing state with
  | nil => simp [autoFixEntries, afterEvents]
  | cons event first ih =>
      simp only [List.cons_append, autoFixEntries, ih, afterEvents,
        List.foldl_cons]
      omega

/-- Only a gate failure below the limit enters `AutoFixing`. -/
theorem gating_of_transition_autoFixing {state : PlanState}
    {event : ExecutorEvent} (entered : transition state event = .ok .autoFixing) :
    state.currentPhase = .gating ∧ state.iteration < maxAutoFixIterations := by
  have legal := kind_mem_validTransitions_of_transition entered
  have atGating : state.currentPhase = .gating := by
    revert legal
    cases state.currentPhase <;> simp [PlanPhase.kind, validTransitions]
  refine ⟨atGating, ?_⟩
  by_contra exhausted
  rw [UInt32.not_lt] at exhausted
  cases event <;>
    simp [transition, proposedPhase, atGating, PlanPhase.kind, exhausted,
      validTransitions, bind, Except.bind] at entered

theorem PastGating.afterEvent {state : PlanState} (past : state.PastGating)
    (event : ExecutorEvent) : (state.afterEvent event).PastGating := by
  rcases state.afterEvent_kind event with same | legal
  · rw [PastGating, same]
    exact past
  · revert past legal
    unfold PastGating
    cases state.currentPhase <;>
      cases (state.afterEvent event).currentPhase <;>
        simp [PlanPhase.kind, validTransitions]

theorem autoFixEntries_eq_zero_of_pastGating {state : PlanState}
    (past : state.PastGating) (events : List ExecutorEvent) :
    state.autoFixEntries events = 0 := by
  induction events generalizing state with
  | nil => rfl
  | cons event events ih =>
      have notEntered : transition state event ≠ .ok .autoFixing := by
        intro entered
        rw [PastGating, (gating_of_transition_autoFixing entered).1] at past
        simp [PlanPhase.kind] at past
      rw [autoFixEntries, if_neg notEntered, ih (past.afterEvent event)]

theorem autoFixEntries_eq_zero_of_iteration {state : PlanState}
    (exhausted : maxAutoFixIterations ≤ state.iteration)
    (events : List ExecutorEvent) : state.autoFixEntries events = 0 := by
  induction events generalizing state with
  | nil => rfl
  | cons event events ih =>
      have notEntered : transition state event ≠ .ok .autoFixing := by
        intro entered
        exact UInt32.not_lt.mpr exhausted
          (gating_of_transition_autoFixing entered).2
      have sameIteration := (state.afterEvent_frame event).2.1
      rw [autoFixEntries, if_neg notEntered,
        ih (by rw [sameIteration]; exact exhausted)]

/-- A plan that is not past the gates can be driven to them. -/
theorem exists_gating_of_not_pastGating {state : PlanState}
    (early : ¬ state.PastGating) :
    ∃ events, (state.afterEvents events).currentPhase = .gating := by
  obtain ⟨planId, phase, agents, gates, iteration, started, files, attempts,
    error, paused, priority⟩ := state
  cases phase with
  | queued => exact ⟨[.start, .enrichmentDone, .implementationDone], rfl⟩
  | enriching => exact ⟨[.enrichmentDone, .implementationDone], rfl⟩
  | implementing => exact ⟨[.implementationDone], rfl⟩
  | gating => exact ⟨[], rfl⟩
  | autoFixing => exact ⟨[.autoFixDone], rfl⟩
  | verifying =>
      exact ⟨[.verifyPassed, .reviewRejected, .implementationDone], rfl⟩
  | regeneratingVerify =>
      exact ⟨[.verifyRegenDone, .verifyPassed, .reviewRejected,
        .implementationDone], rfl⟩
  | reviewing => exact ⟨[.reviewRejected, .implementationDone], rfl⟩
  | _ => simp [PastGating, PlanPhase.kind] at early

/-- At the gates and below the limit, the fix loop can be run any number of
times: it comes back with the same counter. -/
theorem exists_autoFixEntries_eq (state : PlanState)
    (atGating : state.currentPhase = .gating)
    (below : state.iteration < maxAutoFixIterations) (count : Nat) :
    ∃ events, state.autoFixEntries events = count := by
  induction count generalizing state with
  | zero => exact ⟨[], rfl⟩
  | succ count ih =>
      have entered : transition state .gateFailed = .ok .autoFixing := by
        simp [transition, proposedPhase, atGating, PlanPhase.kind,
          UInt32.not_le.mpr below, validTransitions, bind, Except.bind]
      have fixing : (state.afterEvent .gateFailed).currentPhase = .autoFixing := by
        rw [afterEvent_of_transition entered, enterPhase_currentPhase]
      have fixed : transition (state.afterEvent .gateFailed) .autoFixDone =
          .ok .gating := by
        simp [transition, proposedPhase, fixing, PlanPhase.kind,
          validTransitions, bind, Except.bind]
      have sameIteration :
          ((state.afterEvent .gateFailed).afterEvent .autoFixDone).iteration =
            state.iteration :=
        ((state.afterEvent .gateFailed).afterEvent_frame _).2.1.trans
          (state.afterEvent_frame _).2.1
      obtain ⟨events, counted⟩ := ih
        ((state.afterEvent .gateFailed).afterEvent .autoFixDone)
        (by rw [afterEvent_of_transition fixed, enterPhase_currentPhase])
        (by rw [sameIteration]; exact below)
      refine ⟨.gateFailed :: .autoFixDone :: events, ?_⟩
      simp only [autoFixEntries, entered, fixed, counted]
      simp
      omega

/-- A run of events can enter `AutoFixing` more than `bound` times exactly when
the plan can reach the gates with its counter below the constant. -/
theorem autoFixEntries_le_iff (state : PlanState) (bound : Nat) :
    (∀ events, state.autoFixEntries events ≤ bound) ↔
      maxAutoFixIterations ≤ state.iteration ∨ state.PastGating := by
  constructor
  · intro bounded
    by_contra unsettled
    obtain ⟨below, early⟩ := not_or.mp unsettled
    obtain ⟨toGating, atGating⟩ := exists_gating_of_not_pastGating early
    have sameIteration := (state.afterEvents_frame toGating).2.1
    obtain ⟨events, counted⟩ := exists_autoFixEntries_eq _ atGating
      (by rw [sameIteration]; exact UInt32.not_le.mp below) (bound + 1)
    have total := bounded (toGating ++ events)
    rw [autoFixEntries_append, counted] at total
    omega
  · rintro (exhausted | past) events
    · rw [autoFixEntries_eq_zero_of_iteration exhausted]
      exact Nat.zero_le bound
    · rw [autoFixEntries_eq_zero_of_pastGating past]
      exact Nat.zero_le bound

end PlanState

namespace ParallelExecutor

/-- How often a run of `apply_event` calls moves the given plan into
`AutoFixing`. -/
def autoFixEntries (executor : ParallelExecutor) (planId : String) :
    List (String × ExecutorEvent) → Nat
  | [] => 0
  | (target, event) :: calls =>
      (if target = planId ∧
          (executor.applyEvent target event).2.toOption = some .autoFixing
        then 1 else 0) +
        (executor.applyEvent target event).1.autoFixEntries planId calls

/-- The count of a plan is decided by its own events. -/
theorem autoFixEntries_eq (executor : ParallelExecutor) (planId : String)
    (calls : List (String × ExecutorEvent)) :
    executor.autoFixEntries planId calls =
      (executor.plans[planId]?.map fun state =>
        state.autoFixEntries (eventsFor planId calls)).getD 0 := by
  induction calls generalizing executor with
  | nil => cases executor.plans[planId]? <;> rfl
  | cons call calls ih =>
      obtain ⟨target, event⟩ := call
      rw [autoFixEntries, ih, getElem?_applyEvent]
      by_cases same : target = planId
      · subst same
        rw [if_pos rfl, eventsFor_cons_self]
        cases found : executor.plans[target]? with
        | none => simp [applyEvent, found, Except.toOption]
        | some state =>
            cases accepted : PlanStateMachine.transition state event with
            | error failure =>
                simp [applyEvent, found, accepted, Except.toOption,
                  PlanState.autoFixEntries]
            | ok phase =>
                simp [applyEvent, found, accepted, Except.toOption,
                  PlanState.autoFixEntries]
      · rw [if_neg same, eventsFor_cons_of_ne same, if_neg (by simp [same]),
          Nat.zero_add]

/-- The executor has a run of `apply_event` calls for every list of events of
one plan. -/
theorem eventsFor_map (planId : String) (events : List ExecutorEvent) :
    eventsFor planId (events.map fun event => (planId, event)) = events := by
  induction events with
  | nil => rfl
  | cons event events ih => rw [List.map_cons, eventsFor_cons_self, ih]

/-- Every run of `apply_event` calls keeps a plan within the configured number
of auto-fix entries exactly when the plan's iteration counter has already
reached the constant, or the plan is past the gates. -/
theorem autoFixEntries_le_config_iff (executor : ParallelExecutor)
    (planId : String) :
    (∀ calls, executor.autoFixEntries planId calls ≤
      executor.config.maxAutoFixIterations.toNat) ↔
    ∀ state, executor.plans[planId]? = some state →
      PlanStateMachine.maxAutoFixIterations ≤ state.iteration ∨
        state.PastGating := by
  simp only [autoFixEntries_eq]
  cases found : executor.plans[planId]? with
  | none => simp
  | some state =>
      have planIff := state.autoFixEntries_le_iff
        executor.config.maxAutoFixIterations.toNat
      constructor
      · intro bounded other same
        rw [← Option.some.inj same, ← planIff]
        intro events
        simpa [eventsFor_map] using
          bounded (events.map fun event => (planId, event))
      · intro settled calls
        exact planIff.mpr (settled state rfl) (eventsFor planId calls)

/-- With the default limit of five, a fresh plan enters auto-fixing six times
and goes on. -/
theorem autoFixEntries_exceed_default_limit :
    ¬ ((new .standard).addPlan (.new "plan-a")).1.autoFixEntries "plan-a"
        ([.start, .enrichmentDone, .implementationDone,
          .gateFailed, .autoFixDone, .gateFailed, .autoFixDone,
          .gateFailed, .autoFixDone, .gateFailed, .autoFixDone,
          .gateFailed, .autoFixDone, .gateFailed, .autoFixDone].map
            fun event => ("plan-a", event)) ≤
      ExecutorConfig.standard.maxAutoFixIterations.toNat := by
  decide

end ParallelExecutor

end Roko
