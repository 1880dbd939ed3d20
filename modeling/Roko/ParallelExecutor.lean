import Roko.ExecutorSnapshotDelta

/-!
# The parallel executor

The model of `ParallelExecutor` in `roko-orchestrator/src/executor/mod.rs` and of
the queue reordering in `reorder.rs`.  The optional audit chain is written and
never read, so it is not part of the state.
-/

namespace Roko

/-- The fields of `ExecutorConfig` that bound plans and their retries. -/
structure ExecutorConfig where
  maxConcurrentPlans : Nat
  maxAutoFixIterations : UInt32
deriving DecidableEq

/-- `ExecutorConfig::default`. -/
def ExecutorConfig.standard : ExecutorConfig where
  maxConcurrentPlans := 4
  maxAutoFixIterations := 5

/-- `reorder_queue`: move a failed plan to the back of the queue. -/
def reorderQueue (queue : List String) (failedPlanId : String) : List String :=
  let others := queue.filter fun planId => planId != failedPlanId
  if queue.contains failedPlanId then others ++ [failedPlanId] else others

/-- The sort key of `priority_reorder`: higher priority first, then the
original position. -/
def priorityBefore (priorities : Std.ExtTreeMap String UInt32)
    (first second : String × Nat) : Prop :=
  priorities[second.1]?.getD 0 < priorities[first.1]?.getD 0 ∨
    (priorities[first.1]?.getD 0 = priorities[second.1]?.getD 0 ∧
      first.2 ≤ second.2)

instance (priorities : Std.ExtTreeMap String UInt32) :
    DecidableRel (priorityBefore priorities) :=
  fun _ _ => inferInstanceAs (Decidable (_ ∨ _))

/-- `priority_reorder`. -/
def priorityReorder (queue : List String)
    (priorities : Std.ExtTreeMap String UInt32) : List String :=
  (queue.zipIdx.insertionSort (priorityBefore priorities)).map Prod.fst

/-- The main orchestration engine. -/
structure ParallelExecutor where
  config : ExecutorConfig
  plans : Std.ExtTreeMap String PlanState
  queue : List String
  planDeps : Std.ExtTreeMap String (List String)
  speculativeExecutions : Std.ExtTreeMap String SpeculativeExecution

namespace ParallelExecutor

open PlanStateMachine

/-- `ParallelExecutor::new`. -/
def new (config : ExecutorConfig) : ParallelExecutor :=
  ⟨config, ∅, [], ∅, ∅⟩

/-- `ParallelExecutor::from_snapshot`: the snapshot has no plan dependencies, so
the restored executor starts without any. -/
def fromSnapshot (config : ExecutorConfig) (snapshot : ExecutorSnapshot) :
    ParallelExecutor where
  config := config
  plans := snapshot.planStates
  queue := snapshot.queueOrder
  planDeps := ∅
  speculativeExecutions := snapshot.speculativeExecutions

/-- `ParallelExecutor::snapshot`. -/
def snapshot (executor : ParallelExecutor) (timestampMs : UInt64) :
    ExecutorSnapshot where
  schemaVersion := ExecutorSnapshot.currentSchemaVersion
  planStates := executor.plans
  queueOrder := executor.queue
  conductorCircuitBreaker := none
  speculativeExecutions := executor.speculativeExecutions
  timestampMs := timestampMs

def addPlan (executor : ParallelExecutor) (state : PlanState) :
    ParallelExecutor × Bool :=
  if executor.plans.contains state.planId then (executor, false)
  else
    ({ executor with
        plans := executor.plans.insert state.planId state
        queue := executor.queue ++ [state.planId] }, true)

def setPlanDependencies (executor : ParallelExecutor)
    (deps : Std.ExtTreeMap String (List String)) : ParallelExecutor :=
  { executor with planDeps := deps }

/-- `ParallelExecutor::deps_satisfied`: every declared dependency is a known
plan in a terminal phase. -/
def depsSatisfied (executor : ParallelExecutor) (planId : String) : Bool :=
  match executor.planDeps[planId]? with
  | none => true
  | some deps => deps.all fun dep =>
      (executor.plans[dep]?.map PlanState.isTerminal).getD false

/-- The loop of `tick`, with the number of active plans met so far. -/
def tickLoop (executor : ParallelExecutor) :
    List String → Nat → List ExecutorAction
  | [], _ => []
  | planId :: rest, activeCount =>
      match executor.plans[planId]? with
      | none => executor.tickLoop rest activeCount
      | some state =>
          if state.isTerminal then executor.tickLoop rest activeCount
          else if state.paused then executor.tickLoop rest activeCount
          else if !executor.depsSatisfied planId then
            executor.tickLoop rest activeCount
          else if executor.config.maxConcurrentPlans < activeCount + 1 then []
          else
            (nextAction state).toList ++ executor.tickLoop rest (activeCount + 1)

/-- `ParallelExecutor::tick`. -/
def tick (executor : ParallelExecutor) : List ExecutorAction :=
  executor.tickLoop executor.queue 0

/-- Replace the state of a plan that is already known. -/
def updatePlan (executor : ParallelExecutor) (planId : String)
    (state : PlanState) : ParallelExecutor :=
  { executor with plans := executor.plans.insert planId state }

/-- The plan state after an accepted event: the new phase, and the failure text
when it failed.  No other field is written. -/
def enterPhase (state : PlanState) (phase : PlanPhase) : PlanState :=
  match phase with
  | .failed reason =>
      { state with currentPhase := phase, lastError := some reason.toText }
  | _ => { state with currentPhase := phase }

/-- `ParallelExecutor::apply_event`. -/
def applyEvent (executor : ParallelExecutor) (planId : String)
    (event : ExecutorEvent) :
    ParallelExecutor × Except TransitionError PlanPhase :=
  match executor.plans[planId]? with
  | none =>
      (executor, .error ⟨.queued, .failed, "plan '" ++ planId ++ "' not found"⟩)
  | some state =>
      match transition state event with
      | .error failure => (executor, .error failure)
      | .ok phase => (executor.updatePlan planId (enterPhase state phase), .ok phase)

def pausePlan (executor : ParallelExecutor) (planId : String) :
    ParallelExecutor × Bool :=
  match executor.plans[planId]? with
  | none => (executor, false)
  | some state =>
      if state.paused || state.isTerminal then (executor, false)
      else (executor.updatePlan planId { state with paused := true }, true)

def resumePlan (executor : ParallelExecutor) (planId : String) :
    ParallelExecutor × Bool :=
  match executor.plans[planId]? with
  | none => (executor, false)
  | some state =>
      if !state.paused then (executor, false)
      else (executor.updatePlan planId { state with paused := false }, true)

def restartPlan (executor : ParallelExecutor) (planId : String)
    (nowMs : UInt64) : ParallelExecutor × Option PlanPhase :=
  match executor.plans[planId]? with
  | none => (executor, none)
  | some state =>
      (executor.updatePlan planId (state.restartForReplan nowMs),
        some state.currentPhase)

/-- `ParallelExecutor::requeue_retryable_terminal`. -/
def requeueRetryableTerminal (executor : ParallelExecutor) (planId : String)
    (nowMs : UInt64) : ParallelExecutor × Option PlanResumeDirective :=
  match executor.plans[planId]? with
  | none => (executor, none)
  | some state =>
      match state.requeueRetryableTerminal nowMs with
      | (_, none) => (executor, none)
      | (requeued, some directive) =>
          let updated := executor.updatePlan planId requeued
          if executor.queue.contains planId then (updated, some directive)
          else
            ({ updated with queue := executor.queue ++ [planId] }, some directive)

def demoteFailed (executor : ParallelExecutor) (planId : String) :
    ParallelExecutor :=
  { executor with queue := reorderQueue executor.queue planId }

def reorderByPriority (executor : ParallelExecutor) : ParallelExecutor :=
  { executor with
    queue := priorityReorder executor.queue
      (executor.plans.map fun _ state => state.priority) }

/-- `ParallelExecutor::reorder_plan`. -/
def reorderPlan (executor : ParallelExecutor) (planId : String)
    (newPosition : Nat) : ParallelExecutor × Bool :=
  match executor.queue.idxOf? planId with
  | none => (executor, false)
  | some index =>
      let rest := executor.queue.eraseIdx index
      ({ executor with
          queue := rest.insertIdx (min newPosition rest.length) planId }, true)

/-- The operations that change a running executor. -/
inductive Op where
  | addPlan (state : PlanState)
  | setPlanDependencies (deps : Std.ExtTreeMap String (List String))
  | applyEvent (planId : String) (event : ExecutorEvent)
  | pausePlan (planId : String)
  | resumePlan (planId : String)
  | restartPlan (planId : String) (nowMs : UInt64)
  | requeueRetryableTerminal (planId : String) (nowMs : UInt64)
  | demoteFailed (planId : String)
  | reorderByPriority
  | reorderPlan (planId : String) (newPosition : Nat)

/-- The executor after one operation. -/
def step (executor : ParallelExecutor) : Op → ParallelExecutor
  | .addPlan state => (executor.addPlan state).1
  | .setPlanDependencies deps => executor.setPlanDependencies deps
  | .applyEvent planId event => (executor.applyEvent planId event).1
  | .pausePlan planId => (executor.pausePlan planId).1
  | .resumePlan planId => (executor.resumePlan planId).1
  | .restartPlan planId nowMs => (executor.restartPlan planId nowMs).1
  | .requeueRetryableTerminal planId nowMs =>
      (executor.requeueRetryableTerminal planId nowMs).1
  | .demoteFailed planId => executor.demoteFailed planId
  | .reorderByPriority => executor.reorderByPriority
  | .reorderPlan planId newPosition => (executor.reorderPlan planId newPosition).1

/-- A list of `apply_event` calls, whatever each of them returns. -/
def applyEvents (executor : ParallelExecutor)
    (calls : List (String × ExecutorEvent)) : ParallelExecutor :=
  calls.foldl (fun current call => (current.applyEvent call.1 call.2).1) executor

end ParallelExecutor

end Roko
