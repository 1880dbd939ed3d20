import Roko.ParallelExecutorEvents
import Mathlib.Data.List.Perm.Basic

/-!
# What a tick dispatches

`tick` walks the queue, keeps the plans that are eligible and whose
dependencies are met, and asks the first `max_concurrent_plans` of them for
their next action.  The second half of the module shows that every operation
keeps the executor well formed.
-/

namespace Roko

namespace ParallelExecutor

open PlanStateMachine

/-- A known plan that is neither terminal nor paused. -/
def isEligible (executor : ParallelExecutor) (planId : String) : Bool :=
  match executor.plans[planId]? with
  | none => false
  | some state => !state.isTerminal && !state.paused

def actionOf (executor : ParallelExecutor) (planId : String) :
    Option ExecutorAction :=
  executor.plans[planId]?.bind nextAction

/-- The eligible plans of the queue whose dependencies are met, in order. -/
def readyPlans (executor : ParallelExecutor) (queue : List String) :
    List String :=
  queue.filter fun planId =>
    executor.isEligible planId && executor.depsSatisfied planId

theorem isEligible_iff (executor : ParallelExecutor) (planId : String) :
    executor.isEligible planId = true ↔
      ∃ state, executor.plans[planId]? = some state ∧
        state.isTerminal = false ∧ state.paused = false := by
  unfold isEligible
  cases executor.plans[planId]? with
  | none => simp
  | some state => simp

theorem depsSatisfied_iff (executor : ParallelExecutor) (planId : String) :
    executor.depsSatisfied planId = true ↔
      ∀ deps, executor.planDeps[planId]? = some deps → ∀ dep ∈ deps,
        ∃ state, executor.plans[dep]? = some state ∧ state.isTerminal = true := by
  unfold depsSatisfied
  cases executor.planDeps[planId]? with
  | none => simp
  | some deps => simp [Option.getD_eq_iff]

theorem tickLoop_eq (executor : ParallelExecutor) (queue : List String)
    (activeCount : Nat) :
    executor.tickLoop queue activeCount =
      ((executor.readyPlans queue).take
        (executor.config.maxConcurrentPlans - activeCount)).filterMap
          executor.actionOf := by
  induction queue generalizing activeCount with
  | nil => simp [tickLoop, readyPlans]
  | cons planId queue ih =>
      cases found : executor.plans[planId]? with
      | none => simp [tickLoop, readyPlans, isEligible, found, ih]
      | some state =>
          by_cases waiting : state.isTerminal = true ∨ state.paused = true ∨
              executor.depsSatisfied planId = false
          · have skipped : executor.readyPlans (planId :: queue) =
                executor.readyPlans queue := by
              rcases waiting with terminal | paused | unmet
              · simp [readyPlans, isEligible, found, terminal]
              · simp [readyPlans, isEligible, found, paused]
              · simp [readyPlans, unmet]
            rw [skipped, ← ih]
            rcases waiting with terminal | paused | unmet
            · simp [tickLoop, found, terminal]
            · simp [tickLoop, found, paused]
            · simp [tickLoop, found, unmet]
          · push Not at waiting
            obtain ⟨active, running, met⟩ := waiting
            have kept : executor.readyPlans (planId :: queue) =
                planId :: executor.readyPlans queue := by
              simp_all [readyPlans, isEligible]
            rw [kept]
            by_cases full :
                executor.config.maxConcurrentPlans < activeCount + 1
            · have none : executor.config.maxConcurrentPlans - activeCount = 0 := by
                omega
              simp_all [tickLoop]
            · have room : executor.config.maxConcurrentPlans - activeCount =
                  (executor.config.maxConcurrentPlans - (activeCount + 1)) + 1 := by
                omega
              rw [room, List.take_succ_cons]
              cases suggested : nextAction state with
              | none => simp_all [tickLoop, actionOf]
              | some action => simp_all [tickLoop, actionOf]

theorem tick_eq (executor : ParallelExecutor) :
    executor.tick =
      ((executor.readyPlans executor.queue).take
        executor.config.maxConcurrentPlans).filterMap executor.actionOf :=
  executor.tickLoop_eq executor.queue 0

/-- The states are stored under their own plan id, and the queue lists known
plans, each at most once. -/
structure WellFormed (executor : ParallelExecutor) : Prop where
  keyed : ∀ (planId : String) (state : PlanState),
    executor.plans[planId]? = some state → state.planId = planId
  known : ∀ planId ∈ executor.queue, planId ∈ executor.plans
  nodup : executor.queue.Nodup

/-- The plans a tick acts on are, in order, among the first ready plans of the
queue. -/
theorem tick_planIds_sublist {executor : ParallelExecutor}
    (keyed : ∀ (planId : String) (state : PlanState),
      executor.plans[planId]? = some state → state.planId = planId) :
    (executor.tick.map ExecutorAction.planId).Sublist
      ((executor.readyPlans executor.queue).take
        executor.config.maxConcurrentPlans) := by
  rw [tick_eq]
  generalize (executor.readyPlans executor.queue).take _ = ids
  induction ids with
  | nil => simp
  | cons planId ids ih =>
      cases acts : executor.actionOf planId with
      | none =>
          rw [List.filterMap_cons_none acts]
          exact ih.cons planId
      | some action =>
          obtain ⟨state, found, suggested⟩ := Option.bind_eq_some_iff.mp acts
          rw [List.filterMap_cons_some acts, List.map_cons,
            planId_of_nextAction suggested, keyed planId state found]
          exact ih.cons_cons planId

theorem wellFormed_new (config : ExecutorConfig) : (new config).WellFormed where
  keyed := by simp [new]
  known := by simp [new]
  nodup := List.nodup_nil

/-- Storing a state under its own id keeps the executor well formed. -/
theorem WellFormed.updatePlan {executor : ParallelExecutor}
    (wellFormed : executor.WellFormed) {planId : String} {state : PlanState}
    (own : state.planId = planId) :
    (executor.updatePlan planId state).WellFormed where
  keyed := by
    intro other stored found
    rw [getElem?_updatePlan] at found
    split at found
    case isTrue same =>
      rw [← Option.some.inj found, own, same]
    case isFalse => exact wellFormed.keyed other stored found
  known := by
    intro other queued
    have present := wellFormed.known other queued
    simp [ParallelExecutor.updatePlan, present]
  nodup := wellFormed.nodup

/-- A queue that lists the same plans in another order is as well formed. -/
theorem WellFormed.reorder {executor : ParallelExecutor}
    (wellFormed : executor.WellFormed) {queue : List String}
    (permuted : queue.Perm executor.queue) :
    WellFormed { executor with queue := queue } where
  keyed := wellFormed.keyed
  known := fun planId queued =>
    wellFormed.known planId (permuted.mem_iff.mp queued)
  nodup := permuted.nodup_iff.mpr wellFormed.nodup

/-- A known plan that is not queued yet can be queued. -/
theorem WellFormed.enqueue {executor : ParallelExecutor}
    (wellFormed : executor.WellFormed) {planId : String}
    (present : planId ∈ executor.plans) (fresh : planId ∉ executor.queue) :
    WellFormed { executor with queue := executor.queue ++ [planId] } where
  keyed := wellFormed.keyed
  known := by
    intro other queued
    rcases List.mem_append.mp queued with old | new
    · exact wellFormed.known other old
    · rw [List.mem_singleton.mp new]
      exact present
  nodup := by
    rw [← List.concat_eq_append]
    exact wellFormed.nodup.concat fresh

theorem reorderQueue_perm {queue : List String} (nodup : queue.Nodup)
    (planId : String) : (reorderQueue queue planId).Perm queue := by
  unfold reorderQueue
  have erased : (queue.filter fun other => other != planId) =
      queue.erase planId := (nodup.erase_eq_filter planId).symm
  by_cases present : planId ∈ queue
  · simp only [List.contains_iff_mem, present, if_true, erased]
    exact (List.perm_append_singleton planId _).trans
      (List.perm_cons_erase present).symm
  · simp only [List.contains_iff_mem, present, if_false, erased]
    rw [List.erase_of_not_mem present]

theorem priorityReorder_perm (queue : List String)
    (priorities : Std.ExtTreeMap String UInt32) :
    (priorityReorder queue priorities).Perm queue := by
  have sorted := (List.perm_insertionSort (priorityBefore priorities)
    queue.zipIdx).map Prod.fst
  rw [List.zipIdx_map_fst] at sorted
  exact sorted

theorem insertIdx_eraseIdx_perm {queue : List String} {planId : String}
    {index : Nat} (found : queue.idxOf? planId = some index) (position : Nat) :
    ((queue.eraseIdx index).insertIdx
      (min position (queue.eraseIdx index).length) planId).Perm queue := by
  obtain ⟨inside, atIndex, -⟩ := List.idxOf?_eq_some_iff.mp found
  have inserted := List.perm_insertIdx planId (queue.eraseIdx index)
    (Nat.min_le_right position (queue.eraseIdx index).length)
  have restored := List.getElem_cons_eraseIdx_perm inside
  rw [atIndex] at restored
  exact inserted.trans restored

theorem wellFormed_addPlan {executor : ParallelExecutor}
    (wellFormed : executor.WellFormed) (state : PlanState) :
    (executor.addPlan state).1.WellFormed := by
  unfold addPlan
  split
  case isTrue => exact wellFormed
  case isFalse absent =>
    have stored := wellFormed.updatePlan (rfl : state.planId = state.planId)
    refine stored.enqueue (by simp [ParallelExecutor.updatePlan]) ?_
    intro queued
    exact absent (by simpa using wellFormed.known _ queued)

theorem wellFormed_applyEvent {executor : ParallelExecutor}
    (wellFormed : executor.WellFormed) (planId : String)
    (event : ExecutorEvent) :
    (executor.applyEvent planId event).1.WellFormed := by
  unfold applyEvent
  split
  · exact wellFormed
  case _ state found =>
    have own := wellFormed.keyed planId state found
    cases accepted : transition state event with
    | error failure => exact wellFormed
    | ok phase =>
        have sameId := (state.afterEvent_frame event).1
        rw [PlanState.afterEvent_of_transition accepted] at sameId
        exact wellFormed.updatePlan (sameId.trans own)

theorem wellFormed_applyEvents {executor : ParallelExecutor}
    (wellFormed : executor.WellFormed) (calls : List (String × ExecutorEvent)) :
    (executor.applyEvents calls).WellFormed := by
  induction calls generalizing executor with
  | nil => exact wellFormed
  | cons call calls ih =>
      exact ih (wellFormed_applyEvent wellFormed call.1 call.2)

theorem wellFormed_requeue {executor : ParallelExecutor}
    (wellFormed : executor.WellFormed) (planId : String) (nowMs : UInt64) :
    (executor.requeueRetryableTerminal planId nowMs).1.WellFormed := by
  unfold requeueRetryableTerminal
  split
  · exact wellFormed
  case _ state found =>
    have own := wellFormed.keyed planId state found
    have sameId := state.requeueRetryableTerminal_planId nowMs
    split
    · exact wellFormed
    case _ requeued directive result =>
      rw [result] at sameId
      have stored := wellFormed.updatePlan (sameId.trans own)
      split
      case isTrue => exact stored
      case isFalse absent =>
        have fresh : planId ∉ executor.queue := by simpa using absent
        exact stored.enqueue (by simp [ParallelExecutor.updatePlan]) fresh

/-- Every operation keeps the executor well formed. -/
theorem wellFormed_step {executor : ParallelExecutor}
    (wellFormed : executor.WellFormed) (op : Op) :
    (executor.step op).WellFormed := by
  cases op with
  | addPlan state => exact wellFormed_addPlan wellFormed state
  | setPlanDependencies deps =>
      exact ⟨wellFormed.keyed, wellFormed.known, wellFormed.nodup⟩
  | applyEvent planId event => exact wellFormed_applyEvent wellFormed planId event
  | pausePlan planId =>
      simp only [step, pausePlan]
      split
      · exact wellFormed
      case _ state found =>
        split
        · exact wellFormed
        · exact wellFormed.updatePlan (wellFormed.keyed planId state found)
  | resumePlan planId =>
      simp only [step, resumePlan]
      split
      · exact wellFormed
      case _ state found =>
        split
        · exact wellFormed
        · exact wellFormed.updatePlan (wellFormed.keyed planId state found)
  | restartPlan planId nowMs =>
      simp only [step, restartPlan]
      split
      · exact wellFormed
      case _ state found =>
        exact wellFormed.updatePlan (wellFormed.keyed planId state found)
  | requeueRetryableTerminal planId nowMs =>
      exact wellFormed_requeue wellFormed planId nowMs
  | demoteFailed planId =>
      exact wellFormed.reorder (reorderQueue_perm wellFormed.nodup planId)
  | reorderByPriority => exact wellFormed.reorder (priorityReorder_perm _ _)
  | reorderPlan planId newPosition =>
      simp only [step, reorderPlan]
      split
      · exact wellFormed
      case _ index found =>
        exact wellFormed.reorder (insertIdx_eraseIdx_perm found newPosition)

/-- Every executor reached from the empty one is well formed. -/
theorem wellFormed_run (config : ExecutorConfig) (ops : List Op) :
    (ops.foldl step (new config)).WellFormed := by
  suffices kept : ∀ executor : ParallelExecutor, executor.WellFormed →
      (ops.foldl step executor).WellFormed from kept _ (wellFormed_new config)
  induction ops with
  | nil => exact fun _ wellFormed => wellFormed
  | cons op ops ih =>
      intro executor wellFormed
      exact ih _ (wellFormed_step wellFormed op)

end ParallelExecutor

/-!
# Active plans and the plans of a tick

`active_plans` counts the concurrency limit over the plans that are neither terminal nor
paused.  `tick` counts it over those of them whose dependencies are met.
-/

namespace ParallelExecutor

/-- The loop of `active_plans`. -/
def activeLoop (executor : ParallelExecutor) : List String → List String → List String
  | [], result => result
  | planId :: queue, result =>
      match executor.plans[planId]? with
      | none => executor.activeLoop queue result
      | some state =>
          if !state.isTerminal && !state.paused then
            let result := result ++ [planId]
            if executor.config.maxConcurrentPlans ≤ result.length then result
            else executor.activeLoop queue result
          else executor.activeLoop queue result

def activePlans (executor : ParallelExecutor) : List String :=
  executor.activeLoop executor.queue []

/-- The plans that a tick treats as active: it asks each for its next action. -/
def tickedPlans (executor : ParallelExecutor) : List String :=
  (executor.readyPlans executor.queue).take executor.config.maxConcurrentPlans

/-- The eligible plans of the queue, in order. -/
def eligiblePlans (executor : ParallelExecutor) : List String :=
  executor.queue.filter executor.isEligible

/-- Every plan with an action is listed, and only plans of the tick are. -/
structure ActiveLawful (executor : ParallelExecutor) : Prop where
  listed : ∀ planId ∈ executor.tickedPlans, (executor.actionOf planId).isSome →
    planId ∈ executor.activePlans
  ticked : ∀ planId ∈ executor.activePlans, planId ∈ executor.tickedPlans

/-- The limit is met by plans whose dependencies are met, or by none at all. -/
def LimitSettled (executor : ParallelExecutor) : Prop :=
  executor.eligiblePlans = [] ∨
    0 < executor.config.maxConcurrentPlans ∧
      ∀ planId ∈ executor.eligiblePlans.take executor.config.maxConcurrentPlans,
        executor.depsSatisfied planId = true

variable {executor : ParallelExecutor}

theorem activeLoop_eq (queue result : List String)
    (room : result.length < max executor.config.maxConcurrentPlans 1) :
    executor.activeLoop queue result =
      result ++ (queue.filter executor.isEligible).take
        (max executor.config.maxConcurrentPlans 1 - result.length) := by
  induction queue generalizing result with
  | nil => simp [activeLoop]
  | cons planId queue ih =>
      cases found : executor.plans[planId]? with
      | none =>
          have skipped : executor.isEligible planId = false := by
            simp [isEligible, found]
          simp [activeLoop, found, skipped, ih result room]
      | some state =>
          have status : executor.isEligible planId = (!state.isTerminal && !state.paused) := by
            simp [isEligible, found]
          unfold activeLoop
          rw [found]
          dsimp only
          rw [← status]
          by_cases eligible : executor.isEligible planId = true
          · have next : max executor.config.maxConcurrentPlans 1 - result.length =
                (max executor.config.maxConcurrentPlans 1 - (result ++ [planId]).length) +
                  1 := by
              rw [List.length_append, List.length_singleton]
              omega
            rw [if_pos eligible, List.filter_cons_of_pos eligible, next,
              List.take_succ_cons]
            by_cases full : executor.config.maxConcurrentPlans ≤ (result ++ [planId]).length
            · have none : max executor.config.maxConcurrentPlans 1 -
                  (result ++ [planId]).length = 0 := by
                rw [List.length_append, List.length_singleton] at full ⊢
                omega
              rw [if_pos full, none, List.take_zero]
            · rw [if_neg full, ih _ (lt_max_of_lt_left (not_le.mp full)),
                List.append_assoc, List.singleton_append]
          · rw [if_neg eligible, List.filter_cons_of_neg eligible]
            exact ih result room

theorem activePlans_eq (executor : ParallelExecutor) :
    executor.activePlans =
      executor.eligiblePlans.take (max executor.config.maxConcurrentPlans 1) := by
  unfold activePlans
  rw [activeLoop_eq _ _ (by simp)]
  simp [eligiblePlans]

/-- A filter that keeps what stands in front keeps the front. -/
theorem take_filter {Item : Type} {keep : Item → Bool} {items : List Item} {count : Nat}
    (kept : ∀ item ∈ items.take count, keep item = true) :
    (items.filter keep).take count = items.take count := by
  induction items generalizing count with
  | nil => simp
  | cons item items ih =>
      cases count with
      | zero => rfl
      | succ count =>
          rw [List.take_succ_cons, List.forall_mem_cons] at kept
          rw [List.filter_cons_of_pos kept.1, List.take_succ_cons, List.take_succ_cons,
            ih kept.2]

theorem readyPlans_eq (executor : ParallelExecutor) :
    executor.readyPlans executor.queue =
      executor.eligiblePlans.filter executor.depsSatisfied := by
  unfold readyPlans eligiblePlans
  rw [List.filter_filter]
  simp [Bool.and_comm]

/-- Active plans and the plans of a tick agree exactly when the plans that fill the limit
have their dependencies met. -/
theorem activeLawful_iff (executor : ParallelExecutor) :
    executor.ActiveLawful ↔ executor.LimitSettled := by
  constructor
  · intro lawful
    by_cases none : executor.eligiblePlans = []
    · exact Or.inl none
    obtain ⟨first, others, eligible⟩ := List.exists_cons_of_ne_nil none
    have positive : 0 < executor.config.maxConcurrentPlans := by
      have active : first ∈ executor.activePlans := by
        rw [activePlans_eq, eligible]
        exact List.mem_take_iff_getElem.mpr ⟨0, by simp, by simp⟩
      have asked := lawful.ticked first active
      by_contra idle
      simp [tickedPlans, Nat.eq_zero_of_not_pos idle] at asked
    refine Or.inr ⟨positive, fun planId front => ?_⟩
    have active : planId ∈ executor.activePlans := by
      rwa [activePlans_eq, max_eq_left positive]
    have asked := List.mem_of_mem_take (lawful.ticked planId active)
    rw [readyPlans_eq] at asked
    exact (List.mem_filter.mp asked).2
  · rintro (none | ⟨positive, settled⟩)
    · have idle : executor.tickedPlans = [] := by
        unfold tickedPlans
        rw [readyPlans_eq, none, List.filter_nil, List.take_nil]
      have inactive : executor.activePlans = [] := by
        rw [activePlans_eq, none, List.take_nil]
      exact ⟨by simp [idle], by simp [inactive]⟩
    · have same : executor.tickedPlans = executor.activePlans := by
        unfold tickedPlans
        rw [readyPlans_eq, take_filter settled, activePlans_eq, max_eq_left positive]
      exact ⟨fun planId asked _ => same ▸ asked, fun planId active => same ▸ active⟩

/-- With room for one plan, the first one waits for the second: the tick asks the second,
and the first is listed. -/
theorem not_activeLawful_waiting :
    let executor := [Op.addPlan (.new "plan-a"), .addPlan (.new "plan-b"),
      .setPlanDependencies ((∅ : Std.ExtTreeMap String (List String)).insert
        "plan-a" ["plan-b"])].foldl step (new ⟨1, 5⟩)
    executor.tick = [.dispatchPlan "plan-b"] ∧ executor.activePlans = ["plan-a"] ∧
      ¬ executor.ActiveLawful := by
  intro executor
  have asked : executor.tickedPlans = ["plan-b"] := by decide
  have active : executor.activePlans = ["plan-a"] := by decide
  refine ⟨by decide, active, fun lawful => ?_⟩
  have listed := lawful.ticked "plan-a" (by simp [active])
  rw [asked] at listed
  exact absurd listed (by decide)

end ParallelExecutor

end Roko
