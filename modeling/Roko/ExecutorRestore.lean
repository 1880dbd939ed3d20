import Roko.ParallelExecutorTick

/-!
# Restoring the executor from its snapshot

The snapshot holds every field of the executor except the cross-plan
dependencies, so the restored executor treats every plan as free of them.  The
original and the restored executor dispatch the same actions, now and after any
further events, exactly when no dependency can still hold a plan back.
-/

namespace Roko

namespace ParallelExecutor

open PlanStateMachine

/-- `from_snapshot(config, ex.snapshot(t))`. -/
def restore (executor : ParallelExecutor) (timestampMs : UInt64) :
    ParallelExecutor :=
  fromSnapshot executor.config (executor.snapshot timestampMs)

/-- Every dependency of every eligible queued plan is a terminal plan, or, when
only one plan runs at a time, an eligible plan that is served first anyway. -/
def DependenciesSettled (executor : ParallelExecutor) : Prop :=
  ∀ planId ∈ executor.queue, executor.isEligible planId = true →
    ∀ deps, executor.planDeps[planId]? = some deps → ∀ dep ∈ deps,
      (∃ state, executor.plans[dep]? = some state ∧ state.isTerminal = true) ∨
        (executor.config.maxConcurrentPlans = 1 ∧
          executor.isEligible dep = true ∧
          dep ∈ executor.queue.takeWhile fun other => other != planId)

theorem restore_eq (executor : ParallelExecutor) (timestampMs : UInt64) :
    executor.restore timestampMs = { executor with planDeps := ∅ } :=
  rfl

/-- An event does not see the dependencies. -/
theorem applyEvent_restore (executor : ParallelExecutor) (timestampMs : UInt64)
    (planId : String) (event : ExecutorEvent) :
    ((executor.restore timestampMs).applyEvent planId event).1 =
      ((executor.applyEvent planId event).1).restore timestampMs := by
  simp only [restore_eq, applyEvent]
  cases executor.plans[planId]? with
  | none => rfl
  | some state =>
      cases accepted : transition state event with
      | error failure => simp only [accepted]
      | ok phase => simp only [accepted, updatePlan]

theorem applyEvents_restore (executor : ParallelExecutor) (timestampMs : UInt64)
    (calls : List (String × ExecutorEvent)) :
    (executor.restore timestampMs).applyEvents calls =
      (executor.applyEvents calls).restore timestampMs := by
  induction calls generalizing executor with
  | nil => rfl
  | cons call calls ih =>
      rw [applyEvents_cons, applyEvent_restore, ih, applyEvents_cons]

theorem readyPlans_restore (executor : ParallelExecutor) (timestampMs : UInt64)
    (queue : List String) :
    (executor.restore timestampMs).readyPlans queue =
      queue.filter executor.isEligible := by
  simp only [readyPlans, restore_eq]
  apply List.filter_congr
  intro planId _
  simp [isEligible, depsSatisfied]

/-- With one slot, only the first eligible plan of the queue counts. -/
theorem take_one_filter_eq {queue : List String} {eligible ready : String → Bool}
    (firstReady : ∀ planId ∈ queue, eligible planId = true →
      (∀ other ∈ queue.takeWhile fun other => other != planId,
        eligible other = false) → ready planId = true) :
    (queue.filter eligible).take 1 =
      (queue.filter fun planId => eligible planId && ready planId).take 1 := by
  rw [List.take_one, List.take_one, List.head?_filter, List.head?_filter]
  congr 1
  cases search : queue.find? eligible with
  | none =>
      rw [eq_comm, List.find?_eq_none]
      intro planId member both
      have eligibleHere := List.find?_eq_none.mp search planId member
      simp_all
  | some planId =>
      obtain ⟨accepted, before, after, split, noneBefore⟩ :=
        List.find?_eq_some_iff_append.mp search
      have skipped : queue.takeWhile (fun other => other != planId) = before := by
        rw [split, List.takeWhile_append_of_pos, List.takeWhile_cons_of_neg]
        · simp
        · simp
        · intro other member
          have rejected := noneBefore other member
          simp only [bne_iff_ne]
          rintro rfl
          simp [accepted] at rejected
      have isReady : ready planId = true := by
        apply firstReady planId (by simp [split]) accepted
        rw [skipped]
        intro other member
        simpa using noneBefore other member
      rw [eq_comm, List.find?_eq_some_iff_append]
      refine ⟨by simp [accepted, isReady], before, after, split, ?_⟩
      intro other member
      have rejected := noneBefore other member
      simp_all

theorem tick_restore_of_settled {executor : ParallelExecutor}
    (settled : executor.DependenciesSettled) (timestampMs : UInt64) :
    (executor.restore timestampMs).tick = executor.tick := by
  rw [tick_eq, tick_eq, readyPlans_restore]
  have sameAction : (executor.restore timestampMs).actionOf =
      executor.actionOf := rfl
  have sameConfig : (executor.restore timestampMs).config =
      executor.config := rfl
  have sameQueue : (executor.restore timestampMs).queue =
      executor.queue := rfl
  rw [sameAction, sameConfig, sameQueue, readyPlans]
  congr 1
  by_cases single : executor.config.maxConcurrentPlans = 1
  · rw [single]
    apply take_one_filter_eq
    intro planId queued eligible noneBefore
    rw [depsSatisfied_iff]
    intro deps declared dep member
    rcases settled planId queued eligible deps declared dep member with
      terminal | ⟨-, eligibleDep, before⟩
    · exact terminal
    · rw [noneBefore dep before] at eligibleDep
      cases eligibleDep
  · congr 1
    apply List.filter_congr
    intro planId queued
    by_cases eligible : executor.isEligible planId = true
    · have met : executor.depsSatisfied planId = true := by
        rw [depsSatisfied_iff]
        intro deps declared dep member
        rcases settled planId queued eligible deps declared dep member with
          terminal | ⟨one, -⟩
        · exact terminal
        · exact absurd one single
      simp [met]
    · simp [eligible]

theorem terminal_applyEvents {executor : ParallelExecutor} {planId : String}
    (terminal : ∃ state, executor.plans[planId]? = some state ∧
      state.isTerminal = true) (calls : List (String × ExecutorEvent)) :
    ∃ state, (executor.applyEvents calls).plans[planId]? = some state ∧
      state.isTerminal = true := by
  obtain ⟨state, found, ended⟩ := terminal
  refine ⟨state, ?_, ended⟩
  rw [getElem?_applyEvents, found, Option.map_some,
    PlanState.afterEvents_of_isTerminal ended]

theorem isEligible_of_applyEvents {executor : ParallelExecutor}
    {planId : String} {calls : List (String × ExecutorEvent)}
    (eligible : (executor.applyEvents calls).isEligible planId = true) :
    executor.isEligible planId = true := by
  obtain ⟨after, found, active, running⟩ := (isEligible_iff _ _).mp eligible
  rw [getElem?_applyEvents] at found
  obtain ⟨before, foundBefore, rfl⟩ := Option.map_eq_some_iff.mp found
  refine (isEligible_iff _ _).mpr ⟨before, foundBefore, ?_, ?_⟩
  · rw [Bool.eq_false_iff]
    intro ended
    rw [PlanState.afterEvents_of_isTerminal ended, ended] at active
    cases active
  · rw [← (before.afterEvents_frame _).2.2]
    exact running

/-- An eligible plan stays eligible or becomes terminal. -/
theorem eligible_or_terminal_applyEvents {executor : ParallelExecutor}
    {planId : String} (eligible : executor.isEligible planId = true)
    (calls : List (String × ExecutorEvent)) :
    (∃ state, (executor.applyEvents calls).plans[planId]? = some state ∧
        state.isTerminal = true) ∨
      (executor.applyEvents calls).isEligible planId = true := by
  obtain ⟨before, found, -, running⟩ := (isEligible_iff _ _).mp eligible
  have foundAfter := executor.getElem?_applyEvents planId calls
  rw [found, Option.map_some] at foundAfter
  cases ended : (before.afterEvents (eventsFor planId calls)).isTerminal with
  | true => exact .inl ⟨_, foundAfter, ended⟩
  | false =>
      refine .inr ((isEligible_iff _ _).mpr ⟨_, foundAfter, ended, ?_⟩)
      rw [(before.afterEvents_frame _).2.2]
      exact running

/-- Events cannot make a settled dependency matter again. -/
theorem DependenciesSettled.applyEvents {executor : ParallelExecutor}
    (settled : executor.DependenciesSettled)
    (calls : List (String × ExecutorEvent)) :
    (executor.applyEvents calls).DependenciesSettled := by
  obtain ⟨sameConfig, sameQueue, sameDeps⟩ := executor.applyEvents_frame calls
  intro planId queued eligible deps declared dep member
  rw [sameQueue] at queued ⊢
  rw [sameDeps] at declared
  rw [sameConfig]
  rcases settled planId queued (isEligible_of_applyEvents eligible) deps declared
    dep member with terminal | ⟨one, eligibleDep, before⟩
  · exact .inl (terminal_applyEvents terminal calls)
  · rcases eligible_or_terminal_applyEvents eligibleDep calls with
      terminal | stillEligible
    · exact .inl terminal
    · exact .inr ⟨one, stillEligible, before⟩

/-- Fail every queued plan but the two given ones, and start the merge of the
first one if it waits for the operator. -/
def isolatingCalls (executor : ParallelExecutor) (planId dep : String) :
    List (String × ExecutorEvent) :=
  ((executor.queue.filter fun other => other != planId && other != dep).map
      fun other => (other, .fatal "isolated")) ++
    [(planId, .operatorMerge)]

theorem eventsFor_isolatingCalls (executor : ParallelExecutor)
    (planId dep : String) :
    eventsFor planId (executor.isolatingCalls planId dep) = [.operatorMerge] := by
  rw [isolatingCalls, eventsFor_append]
  have others : eventsFor planId
      ((executor.queue.filter fun other => other != planId && other != dep).map
        fun other => (other, ExecutorEvent.fatal "isolated")) = [] := by
    rw [List.eq_nil_iff_forall_not_mem]
    intro event member
    simp [mem_eventsFor] at member
  rw [others, List.nil_append, eventsFor_cons_self]
  rfl

theorem eventsFor_isolatingCalls_dep {executor : ParallelExecutor}
    {planId dep : String} (distinct : dep ≠ planId) :
    eventsFor dep (executor.isolatingCalls planId dep) = [] := by
  rw [List.eq_nil_iff_forall_not_mem]
  intro event member
  simp [mem_eventsFor, isolatingCalls, distinct] at member

/-- Every other queued plan has failed after the isolating calls. -/
theorem isEligible_isolatingCalls {executor : ParallelExecutor}
    {planId dep other : String} (queued : other ∈ executor.queue)
    (eligible : (executor.applyEvents
      (executor.isolatingCalls planId dep)).isEligible other = true) :
    other = planId ∨ other = dep := by
  by_contra neither
  obtain ⟨notPlan, notDep⟩ := not_or.mp neither
  have onlyFatal : ∀ event ∈
      eventsFor other (executor.isolatingCalls planId dep),
      event = .fatal "isolated" := by
    intro event member
    simp [mem_eventsFor, isolatingCalls, notPlan] at member
    exact member.2.symm
  have fatalSent : ExecutorEvent.fatal "isolated" ∈
      eventsFor other (executor.isolatingCalls planId dep) := by
    simp [mem_eventsFor, isolatingCalls, queued, notPlan, notDep]
  obtain ⟨after, found, active, -⟩ := (isEligible_iff _ _).mp eligible
  rw [getElem?_applyEvents] at found
  obtain ⟨before, -, rfl⟩ := Option.map_eq_some_iff.mp found
  cases events : eventsFor other (executor.isolatingCalls planId dep) with
  | nil =>
      rw [events] at fatalSent
      cases fatalSent
  | cons event rest =>
      rw [events] at onlyFatal active
      rw [onlyFatal event List.mem_cons_self] at active
      have ended : (before.afterEvent (.fatal "isolated")).isTerminal = true := by
        cases stillActive : before.isTerminal with
        | true =>
            rw [PlanState.afterEvent_of_isTerminal stillActive, stillActive]
        | false =>
            rw [PlanState.afterEvent_of_transition
              (transition_fatal stillActive _)]
            rfl
      have unfolded : before.afterEvents (.fatal "isolated" :: rest) =
          (before.afterEvent (.fatal "isolated")).afterEvents rest := rfl
      rw [unfolded, PlanState.afterEvents_of_isTerminal ended, ended] at active
      cases active

/-- The operator's merge leaves no active plan waiting in `Done`. -/
theorem afterEvent_operatorMerge {state : PlanState}
    (active : state.isTerminal = false) :
    (state.afterEvent .operatorMerge).isTerminal = false ∧
      (state.afterEvent .operatorMerge).currentPhase ≠ .done := by
  obtain ⟨planId, phase, agents, gates, iteration, started, files, attempts,
    error, paused, priority⟩ := state
  cases phase with
  | complete => cases active
  | failed reason => cases active
  | skipped => cases active
  | _ => exact ⟨rfl, fun waits => by cases waits⟩

theorem takeWhile_ne_append_cons {before rest : List String} {planId : String}
    (absent : planId ∉ before) :
    (before ++ planId :: rest).takeWhile (fun other => other != planId) = before := by
  rw [List.takeWhile_append_of_pos, List.takeWhile_cons_of_neg]
  · simp
  · simp
  · intro other member
    simp only [bne_iff_ne]
    rintro rfl
    exact absent member

theorem mem_take_append_cons {before rest : List String} {planId : String}
    {limit : Nat} (short : before.length < limit) :
    planId ∈ (before ++ planId :: rest).take limit := by
  obtain ⟨room, rfl⟩ := Nat.exists_eq_add_of_lt short
  have left : before.length + room + 1 - before.length = room + 1 := by omega
  rw [List.take_append, left]
  apply List.mem_append_right
  simp

/-- After the isolating calls, the plan is among the first eligible plans of
the queue unless its dependency alone takes the only slot. -/
theorem mem_take_isolatingCalls {executor : ParallelExecutor}
    (wellFormed : executor.WellFormed) {planId dep : String}
    (queued : planId ∈ executor.queue)
    (eligible : (executor.applyEvents
      (executor.isolatingCalls planId dep)).isEligible planId = true)
    {limit : Nat} (positive : limit ≠ 0)
    (unserved : ¬ (limit = 1 ∧ executor.isEligible dep = true ∧
      dep ∈ executor.queue.takeWhile fun other => other != planId)) :
    planId ∈ (executor.queue.filter (executor.applyEvents
      (executor.isolatingCalls planId dep)).isEligible).take limit := by
  generalize isolated : executor.applyEvents
    (executor.isolatingCalls planId dep) = after at *
  obtain ⟨before, rest, split⟩ := List.append_of_mem queued
  have nodup := wellFormed.nodup
  rw [split] at nodup
  have notBefore : planId ∉ before := by
    intro member
    exact (List.nodup_append.mp nodup).2.2 planId member planId
      List.mem_cons_self rfl
  have skipped : executor.queue.takeWhile (fun other => other != planId) =
      before := by
    rw [split]
    exact takeWhile_ne_append_cons notBefore
  -- Only the dependency can still be eligible in front of the plan.
  have onlyDep : ∀ other ∈ before.filter after.isEligible, other = dep := by
    intro other member
    obtain ⟨inside, eligibleOther⟩ := List.mem_filter.mp member
    rw [← isolated] at eligibleOther
    rcases isEligible_isolatingCalls (by simp [split, inside]) eligibleOther with
      rfl | same
    · exact absurd inside notBefore
    · exact same
  have short : (before.filter after.isEligible).length < limit := by
    have atMostOne : (before.filter after.isEligible).length ≤ 1 := by
      have filtered : (before.filter after.isEligible).Nodup :=
        (List.nodup_append.mp nodup).1.filter _
      rw [List.eq_replicate_of_mem onlyDep, List.nodup_replicate] at filtered
      exact filtered
    by_contra long
    have single : limit = 1 := by omega
    have depFirst : dep ∈ before.filter after.isEligible := by
      obtain ⟨other, member⟩ := List.exists_mem_of_length_pos
        (by omega : 0 < (before.filter after.isEligible).length)
      rw [← onlyDep other member]
      exact member
    obtain ⟨inside, eligibleDep⟩ := List.mem_filter.mp depFirst
    rw [← isolated] at eligibleDep
    exact unserved ⟨single, isEligible_of_applyEvents eligibleDep, by
      rw [skipped]
      exact inside⟩
  rw [split, List.filter_append, List.filter_cons_of_pos eligible]
  exact mem_take_append_cons short

/-- The restored executor acts on the isolated plan. -/
theorem mem_tick_restore_isolatingCalls {executor : ParallelExecutor}
    (wellFormed : executor.WellFormed) (timestampMs : UInt64)
    {planId dep : String} (queued : planId ∈ executor.queue)
    (eligible : executor.isEligible planId = true)
    (positive : executor.config.maxConcurrentPlans ≠ 0)
    (unserved : ¬ (executor.config.maxConcurrentPlans = 1 ∧
      executor.isEligible dep = true ∧
      dep ∈ executor.queue.takeWhile fun other => other != planId)) :
    planId ∈ ((executor.applyEvents (executor.isolatingCalls planId dep)).restore
      timestampMs).tick.map ExecutorAction.planId := by
  obtain ⟨sameConfig, sameQueue, -⟩ :=
    executor.applyEvents_frame (executor.isolatingCalls planId dep)
  obtain ⟨state, found, active, running⟩ := (isEligible_iff _ _).mp eligible
  obtain ⟨stillActive, notDone⟩ := afterEvent_operatorMerge active
  have stillRunning := (state.afterEvent_frame .operatorMerge).2.2.trans running
  have foundAfter := executor.getElem?_applyEvents planId
    (executor.isolatingCalls planId dep)
  rw [found, eventsFor_isolatingCalls, Option.map_some] at foundAfter
  have first := mem_take_isolatingCalls wellFormed queued
    ((isEligible_iff _ _).mpr ⟨_, foundAfter, stillActive, stillRunning⟩)
    positive unserved
  obtain ⟨action, suggested⟩ : ∃ action,
      nextAction (state.afterEvent .operatorMerge) = some action := by
    rw [← Option.ne_none_iff_exists', ne_eq, nextAction_eq_none_iff]
    simp [stillActive, notDone, stillRunning]
  rw [tick_eq, readyPlans_restore, List.mem_map]
  refine ⟨action, List.mem_filterMap.mpr ⟨planId, ?_, ?_⟩, ?_⟩
  · rw [restore_eq, sameConfig, sameQueue]
    exact first
  · exact Option.bind_eq_some_iff.mpr ⟨_, foundAfter, suggested⟩
  · rw [planId_of_nextAction suggested, (state.afterEvent_frame _).1,
      wellFormed.keyed planId state found]

/-- The original executor still holds the isolated plan back. -/
theorem not_mem_tick_isolatingCalls {executor : ParallelExecutor}
    (wellFormed : executor.WellFormed) {planId dep : String}
    (eligible : executor.isEligible planId = true) {deps : List String}
    (declared : executor.planDeps[planId]? = some deps) (member : dep ∈ deps)
    (unmet : ∀ state, executor.plans[dep]? = some state →
      state.isTerminal ≠ true) :
    planId ∉ (executor.applyEvents
      (executor.isolatingCalls planId dep)).tick.map ExecutorAction.planId := by
  obtain ⟨-, -, sameDeps⟩ :=
    executor.applyEvents_frame (executor.isolatingCalls planId dep)
  have keyedAfter := (wellFormed_applyEvents wellFormed
    (executor.isolatingCalls planId dep)).keyed
  intro acts
  have ready := List.mem_of_mem_take
    ((tick_planIds_sublist keyedAfter).subset acts)
  have met := (List.mem_filter.mp ready).2
  rw [Bool.and_eq_true, depsSatisfied_iff, sameDeps] at met
  obtain ⟨after, foundAfter, ended⟩ := met.2 deps declared dep member
  rw [getElem?_applyEvents] at foundAfter
  obtain ⟨before, found, rfl⟩ := Option.map_eq_some_iff.mp foundAfter
  by_cases distinct : dep = planId
  · subst distinct
    obtain ⟨state, foundState, active, -⟩ := (isEligible_iff _ _).mp eligible
    have same : before = state := Option.some.inj (found.symm.trans foundState)
    rw [eventsFor_isolatingCalls, same] at ended
    have stillActive := (afterEvent_operatorMerge active).1
    exact absurd ended (by simpa [PlanState.afterEvents] using stillActive)
  · rw [eventsFor_isolatingCalls_dep distinct] at ended
    exact unmet before found ended

/-- An unmet dependency that can still hold a plan back is lost by the restore:
after the isolating calls only the restored executor acts on the plan. -/
theorem tick_restore_ne {executor : ParallelExecutor}
    (wellFormed : executor.WellFormed) (timestampMs : UInt64)
    (positive : executor.config.maxConcurrentPlans ≠ 0)
    (unsettled : ¬ executor.DependenciesSettled) :
    ∃ calls, ((executor.restore timestampMs).applyEvents calls).tick ≠
      (executor.applyEvents calls).tick := by
  unfold DependenciesSettled at unsettled
  push Not at unsettled
  obtain ⟨planId, queued, eligible, deps, declared, dep, member, unmet,
    unserved⟩ := unsettled
  refine ⟨executor.isolatingCalls planId dep, ?_⟩
  intro sameTicks
  have restoredActs := mem_tick_restore_isolatingCalls wellFormed timestampMs
    queued eligible positive
    (fun served : _ ∧ _ ∧ dep ∈ _ => unserved served.1 served.2.1 served.2.2)
  rw [← applyEvents_restore, sameTicks] at restoredActs
  exact not_mem_tick_isolatingCalls wellFormed eligible declared member unmet
    restoredActs

/-- For every executor reached from the empty one, the executor restored from
its snapshot dispatches the same actions, now and after any further events,
exactly when no plan may run at all or every dependency is settled. -/
theorem tick_restore_iff_dependenciesSettled (config : ExecutorConfig)
    (ops : List Op) (timestampMs : UInt64) :
    (∀ calls,
      (((ops.foldl step (new config)).restore timestampMs).applyEvents calls).tick =
        ((ops.foldl step (new config)).applyEvents calls).tick) ↔
    (ops.foldl step (new config)).config.maxConcurrentPlans = 0 ∨
      (ops.foldl step (new config)).DependenciesSettled := by
  have wellFormed := wellFormed_run config ops
  generalize ops.foldl step (new config) = executor at *
  constructor
  · intro sameTicks
    by_contra neither
    obtain ⟨positive, unsettled⟩ := not_or.mp neither
    obtain ⟨calls, differ⟩ :=
      tick_restore_ne wellFormed timestampMs positive unsettled
    exact differ (sameTicks calls)
  · rintro (idle | settled) calls
    · have sameConfig := (executor.applyEvents_frame calls).1
      rw [applyEvents_restore, tick_eq, tick_eq]
      have restoredConfig : ((executor.applyEvents calls).restore timestampMs).config =
          (executor.applyEvents calls).config := rfl
      rw [restoredConfig, sameConfig, idle]
      rfl
    · rw [applyEvents_restore]
      exact tick_restore_of_settled (settled.applyEvents calls) timestampMs

/-- The restored executor dispatches a plan whose dependency has not finished;
the original one waits. -/
theorem tick_restore_drops_dependencies :
    let executor := [Op.addPlan (.new "plan-a"), .addPlan (.new "plan-b"),
      .setPlanDependencies ((∅ : Std.ExtTreeMap String (List String)).insert
        "plan-b" ["plan-a"])].foldl step (new .standard)
    ¬ ∀ calls, ((executor.restore 0).applyEvents calls).tick =
      (executor.applyEvents calls).tick := by
  intro executor sameTicks
  have original : executor.tick = [.dispatchPlan "plan-a"] := by decide
  have restored : (executor.restore 0).tick =
      [.dispatchPlan "plan-a", .dispatchPlan "plan-b"] := by decide
  have same : (executor.restore 0).tick = executor.tick := sameTicks []
  rw [original, restored] at same
  exact absurd same (by decide)

end ParallelExecutor

end Roko
