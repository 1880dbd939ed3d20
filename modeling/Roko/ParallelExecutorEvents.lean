import Roko.ParallelExecutor

/-!
# Runs of events on the parallel executor

An event changes the phase of one plan and nothing else, so a run of events
splits into one independent run for each plan: the state of a plan after the run
is its old state after the events that name it, in their order.
-/

namespace Roko

namespace PlanState

/-- The state of a plan after one event, accepted or rejected. -/
def afterEvent (state : PlanState) (event : ExecutorEvent) : PlanState :=
  match PlanStateMachine.transition state event with
  | .error _ => state
  | .ok phase => ParallelExecutor.enterPhase state phase

def afterEvents (state : PlanState) (events : List ExecutorEvent) : PlanState :=
  events.foldl afterEvent state

@[simp]
theorem enterPhase_currentPhase (state : PlanState) (phase : PlanPhase) :
    (ParallelExecutor.enterPhase state phase).currentPhase = phase := by
  cases phase <;> rfl

theorem afterEvent_of_transition {state : PlanState} {event : ExecutorEvent}
    {phase : PlanPhase}
    (accepted : PlanStateMachine.transition state event = .ok phase) :
    state.afterEvent event = ParallelExecutor.enterPhase state phase := by
  rw [afterEvent, accepted]

/-- An event writes the phase and the error text only. -/
theorem afterEvent_frame (state : PlanState) (event : ExecutorEvent) :
    (state.afterEvent event).planId = state.planId ∧
      (state.afterEvent event).iteration = state.iteration ∧
      (state.afterEvent event).paused = state.paused := by
  unfold afterEvent
  split
  · exact ⟨rfl, rfl, rfl⟩
  · unfold ParallelExecutor.enterPhase
    split <;> exact ⟨rfl, rfl, rfl⟩

theorem afterEvents_frame (state : PlanState) (events : List ExecutorEvent) :
    (state.afterEvents events).planId = state.planId ∧
      (state.afterEvents events).iteration = state.iteration ∧
      (state.afterEvents events).paused = state.paused := by
  induction events generalizing state with
  | nil => exact ⟨rfl, rfl, rfl⟩
  | cons event events ih =>
      obtain ⟨sameId, sameIteration, samePaused⟩ := state.afterEvent_frame event
      obtain ⟨restId, restIteration, restPaused⟩ := ih (state.afterEvent event)
      exact ⟨restId.trans sameId, restIteration.trans sameIteration,
        restPaused.trans samePaused⟩

/-- An event moves a plan along the transition table or leaves its phase. -/
theorem afterEvent_kind (state : PlanState) (event : ExecutorEvent) :
    (state.afterEvent event).currentPhase = state.currentPhase ∨
      (state.afterEvent event).currentPhase.kind ∈
        validTransitions state.currentPhase.kind := by
  cases accepted : PlanStateMachine.transition state event with
  | error failure =>
      left
      rw [afterEvent, accepted]
  | ok phase =>
      right
      rw [afterEvent_of_transition accepted, enterPhase_currentPhase]
      exact PlanStateMachine.kind_mem_validTransitions_of_transition accepted

/-- Events never change a terminal plan. -/
theorem afterEvent_of_isTerminal {state : PlanState}
    (terminal : state.isTerminal = true) (event : ExecutorEvent) :
    state.afterEvent event = state := by
  cases accepted : PlanStateMachine.transition state event with
  | error failure => rw [afterEvent, accepted]
  | ok phase =>
      have active := PlanStateMachine.not_isTerminal_of_transition accepted
      rw [terminal] at active
      cases active

theorem afterEvents_of_isTerminal {state : PlanState}
    (terminal : state.isTerminal = true) (events : List ExecutorEvent) :
    state.afterEvents events = state := by
  induction events with
  | nil => rfl
  | cons event events ih =>
      have unchanged := afterEvent_of_isTerminal terminal event
      have unfolded : state.afterEvents (event :: events) =
          (state.afterEvent event).afterEvents events := rfl
      rw [unfolded, unchanged, ih]

end PlanState

/-- The events of a run that name the given plan, in order. -/
def eventsFor (planId : String) (calls : List (String × ExecutorEvent)) :
    List ExecutorEvent :=
  (calls.filter fun call => call.1 == planId).map Prod.snd

theorem eventsFor_cons_self (planId : String) (event : ExecutorEvent)
    (calls : List (String × ExecutorEvent)) :
    eventsFor planId ((planId, event) :: calls) =
      event :: eventsFor planId calls := by
  simp [eventsFor]

theorem eventsFor_cons_of_ne {planId target : String} (other : target ≠ planId)
    (event : ExecutorEvent) (calls : List (String × ExecutorEvent)) :
    eventsFor planId ((target, event) :: calls) = eventsFor planId calls := by
  simp [eventsFor, other]

theorem mem_eventsFor {planId : String} {event : ExecutorEvent}
    {calls : List (String × ExecutorEvent)} :
    event ∈ eventsFor planId calls ↔ (planId, event) ∈ calls := by
  simp [eventsFor]

theorem eventsFor_append (planId : String)
    (first second : List (String × ExecutorEvent)) :
    eventsFor planId (first ++ second) =
      eventsFor planId first ++ eventsFor planId second := by
  simp [eventsFor]

namespace ParallelExecutor

open PlanStateMachine

theorem getElem?_updatePlan (executor : ParallelExecutor)
    (target planId : String) (state : PlanState) :
    (executor.updatePlan target state).plans[planId]? =
      if target = planId then some state else executor.plans[planId]? := by
  simp [updatePlan, Std.ExtTreeMap.getElem?_insert]

/-- The state of a plan after one event on the executor. -/
theorem getElem?_applyEvent (executor : ParallelExecutor)
    (target planId : String) (event : ExecutorEvent) :
    (executor.applyEvent target event).1.plans[planId]? =
      if target = planId then
        executor.plans[planId]?.map fun state => state.afterEvent event
      else executor.plans[planId]? := by
  unfold applyEvent
  cases found : executor.plans[target]? with
  | none =>
      by_cases same : target = planId
      · subst same
        simp [found]
      · rw [if_neg same]
  | some state =>
      by_cases same : target = planId
      · subst same
        cases accepted : transition state event with
        | error failure => simp [found, PlanState.afterEvent, accepted]
        | ok phase =>
            simp [found, PlanState.afterEvent, accepted, getElem?_updatePlan]
      · rw [if_neg same]
        cases accepted : transition state event with
        | error failure => simp only [accepted]
        | ok phase => simp only [accepted, getElem?_updatePlan, if_neg same]

/-- An event leaves everything but the plan states alone. -/
theorem applyEvent_frame (executor : ParallelExecutor) (planId : String)
    (event : ExecutorEvent) :
    (executor.applyEvent planId event).1.config = executor.config ∧
      (executor.applyEvent planId event).1.queue = executor.queue ∧
      (executor.applyEvent planId event).1.planDeps = executor.planDeps := by
  unfold applyEvent
  split
  · exact ⟨rfl, rfl, rfl⟩
  · split <;> exact ⟨rfl, rfl, rfl⟩

theorem applyEvents_cons (executor : ParallelExecutor)
    (call : String × ExecutorEvent) (calls : List (String × ExecutorEvent)) :
    executor.applyEvents (call :: calls) =
      (executor.applyEvent call.1 call.2).1.applyEvents calls :=
  rfl

theorem applyEvents_frame (executor : ParallelExecutor)
    (calls : List (String × ExecutorEvent)) :
    (executor.applyEvents calls).config = executor.config ∧
      (executor.applyEvents calls).queue = executor.queue ∧
      (executor.applyEvents calls).planDeps = executor.planDeps := by
  induction calls generalizing executor with
  | nil => exact ⟨rfl, rfl, rfl⟩
  | cons call calls ih =>
      obtain ⟨sameConfig, sameQueue, sameDeps⟩ :=
        executor.applyEvent_frame call.1 call.2
      obtain ⟨restConfig, restQueue, restDeps⟩ :=
        ih (executor.applyEvent call.1 call.2).1
      rw [applyEvents_cons]
      exact ⟨restConfig.trans sameConfig, restQueue.trans sameQueue,
        restDeps.trans sameDeps⟩

/-- The state of a plan after a run of events is decided by its own events. -/
theorem getElem?_applyEvents (executor : ParallelExecutor) (planId : String)
    (calls : List (String × ExecutorEvent)) :
    (executor.applyEvents calls).plans[planId]? =
      executor.plans[planId]?.map fun state =>
        state.afterEvents (eventsFor planId calls) := by
  induction calls generalizing executor with
  | nil => simp [applyEvents, eventsFor, PlanState.afterEvents]
  | cons call calls ih =>
      obtain ⟨target, event⟩ := call
      rw [applyEvents_cons, ih, getElem?_applyEvent]
      by_cases same : target = planId
      · subst same
        rw [if_pos rfl, eventsFor_cons_self, Option.map_map]
        rfl
      · rw [if_neg same, eventsFor_cons_of_ne same]

end ParallelExecutor

end Roko
