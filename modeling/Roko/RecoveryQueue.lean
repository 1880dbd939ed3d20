import Roko.OrderedMaps
import Roko.ParallelExecutorTick
import Roko.Recovery
import Mathlib.Data.Finset.Lattice.Lemmas

/-!
# The queue of a recovered executor

`resume_plan` and `from_recovered_state` walk the persisted queue order
separately.  The first one skips an id it has seen; the second one pushes every
known id it meets.  The two agree, and every recovered plan is dispatched once,
exactly when the persisted order repeats no recovered plan.
-/

namespace Roko

/-- The plan ids of the five lists, one list after the other. -/
def RecoveryResumePlan.planIds (plan : RecoveryResumePlan) : List String :=
  plan.active.map RecoveredPlanResume.planId ++
    (plan.retryableTerminal.map RecoveredPlanResume.planId ++
      (plan.manualRepair.map RecoveredPlanResume.planId ++
        (plan.completed ++ plan.skipped)))

namespace RecoveredState

/-- The entries of a queue order that name a recovered plan. -/
def knownOrder (recovered : RecoveredState) (order : List String) :
    List String :=
  order.filter fun planId => recovered.planStates.contains planId

/-- Every entry carries its own key as plan id. -/
def OwnKeys (recovered : RecoveredState) : Prop :=
  ∀ (planId : String) (info : PlanPhaseInfo),
    recovered.planStates[planId]? = some info → info.planId = planId

theorem ownKeys_empty (nowMs : UInt64) : (empty nowMs).OwnKeys := by
  simp [OwnKeys, empty]

/-- An event changes the information of a plan, never its id. -/
theorem planId_replay (phaseFromValue : JsonValue → Option PlanPhase)
    (event : EventEntry) (info : PlanPhaseInfo) :
    (bumpIteration event.payload
      (applyEventKind phaseFromValue event info)).planId = info.planId := by
  have bumped : ∀ other : PlanPhaseInfo,
      (bumpIteration event.payload other).planId = other.planId := by
    intro other
    unfold bumpIteration
    split
    · rfl
    · dsimp only
      split <;> split <;> rfl
  rw [bumped, applyEventKind]
  split
  · rfl
  · split <;> rfl
  · rfl
  · rfl
  · rfl
  · rfl
  · rfl
  · split <;> rfl
  · rfl

theorem ownKeys_insert {recovered : RecoveredState} (ownKeys : recovered.OwnKeys)
    {planId : String} {info : PlanPhaseInfo} (own : info.planId = planId)
    (other : String) (stored : PlanPhaseInfo)
    (found : (recovered.planStates.insert planId info)[other]? = some stored) :
    stored.planId = other := by
  rw [Std.ExtTreeMap.getElem?_insert] at found
  split at found
  case isTrue same =>
    rw [← Option.some.inj found, own]
    exact Std.LawfulEqOrd.eq_of_compare same
  case isFalse => exact ownKeys other stored found

theorem ownKeys_replayEvent {recovered : RecoveredState}
    (ownKeys : recovered.OwnKeys)
    (phaseFromValue : JsonValue → Option PlanPhase) (event : EventEntry) :
    (recovered.replayEvent phaseFromValue event).OwnKeys := by
  unfold replayEvent
  split
  · exact ownKeys
  case _ planId named =>
    apply ownKeys_insert ownKeys
    rw [planId_replay]
    cases found : recovered.planStates[planId]? with
    | none => rfl
    | some info => exact ownKeys planId info found

theorem ownKeys_replay (phaseFromValue : JsonValue → Option PlanPhase)
    (events : List EventEntry) {start : RecoveredState}
    (ownKeys : start.OwnKeys) :
    (events.foldl (replayEvent phaseFromValue) start).OwnKeys := by
  induction events generalizing start with
  | nil => exact ownKeys
  | cons event events ih =>
      exact ih (ownKeys_replayEvent ownKeys phaseFromValue event)

/-- What a log says of one plan: its own events, one after the other. -/
def replayPlan (phaseFromValue : JsonValue → Option PlanPhase) (planId : String)
    (events : List EventEntry) : Option PlanPhaseInfo :=
  (events.filter fun event => extractPlanId event.payload = some planId).foldl
    (fun found event => some (bumpIteration event.payload
      (applyEventKind phaseFromValue event (found.getD ⟨planId, .queued, 1, none, []⟩))))
    none

theorem getElem?_replay (phaseFromValue : JsonValue → Option PlanPhase) (planId : String)
    (events : List EventEntry) (start : RecoveredState) :
    (events.foldl (replayEvent phaseFromValue) start).planStates[planId]? =
      (events.filter fun event => extractPlanId event.payload = some planId).foldl
        (fun found event => some (bumpIteration event.payload
          (applyEventKind phaseFromValue event (found.getD ⟨planId, .queued, 1, none, []⟩))))
        start.planStates[planId]? := by
  induction events generalizing start with
  | nil => rfl
  | cons event events ih =>
      rw [List.foldl_cons, ih, List.filter_cons, replayEvent]
      cases named : extractPlanId event.payload with
      | none => rfl
      | some other =>
          dsimp only
          by_cases own : other = planId
          · subst own
            simp
          · simp [own, Std.ExtTreeMap.getElem?_insert]

theorem validateEventSequence_spec (index : Nat) (events : List EventEntry) :
    match validateEventSequence index events with
    | .error _ => ∃ (place : Nat) (event : EventEntry),
        events[place]? = some event ∧ event.sequenceNumber ≠ UInt64.ofNat (index + place)
    | .ok _ => ∀ (place : Nat) (event : EventEntry), events[place]? = some event →
        event.sequenceNumber = UInt64.ofNat (index + place) := by
  induction events generalizing index with
  | nil => simp [validateEventSequence]
  | cons first events ih =>
      by_cases numbered : first.sequenceNumber = UInt64.ofNat index
      · have rest := ih (index + 1)
        rw [validateEventSequence, if_pos numbered]
        revert rest
        cases validateEventSequence (index + 1) events with
        | error text =>
            rintro ⟨place, event, found, wrong⟩
            refine ⟨place + 1, event, by simpa using found, ?_⟩
            rwa [Nat.add_right_comm, Nat.add_assoc] at wrong
        | ok =>
            intro right place event found
            cases place with
            | zero => simp_all
            | succ place =>
                rw [← Nat.add_assoc, Nat.add_right_comm]
                exact right place event (by simpa using found)
      · rw [validateEventSequence, if_neg numbered]
        split
        case h_1 => exact ⟨0, first, rfl, numbered⟩
        case h_2 refused => split at refused <;> cases refused

/-- A log is accepted when it is numbered without gaps.  Beside any snapshot it then tells of
each plan what the events of this plan alone add up to, however events of other plans were
written between them, and only of plans without events the snapshot tells. -/
theorem recoverFromEventLog_spec (phaseFromValue : JsonValue → Option PlanPhase)
    (events : List EventEntry) (nowMs : UInt64) :
    match recoverFromEventLog phaseFromValue events nowMs with
    | .error _ => ∃ (index : Nat) (event : EventEntry),
        events[index]? = some event ∧ event.sequenceNumber ≠ UInt64.ofNat index
    | .ok recovered =>
        (∀ (index : Nat) (event : EventEntry), events[index]? = some event →
          event.sequenceNumber = UInt64.ofNat index) ∧
        recovered.OwnKeys ∧
        ∀ (snapshot : Option RecoveredState) (planId : String),
          (mergeRecovery snapshot (some recovered) nowMs).planStates[planId]? =
            (replayPlan phaseFromValue planId events).or
              (snapshot.bind fun snap => snap.planStates[planId]?) := by
  have plans : ∀ (recovered : RecoveredState) (snapshot : Option RecoveredState)
      (planId : String), recovered.planStates[planId]? = replayPlan phaseFromValue planId events →
      (mergeRecovery snapshot (some recovered) nowMs).planStates[planId]? =
        (replayPlan phaseFromValue planId events).or
          (snapshot.bind fun snap => snap.planStates[planId]?) := by
    intro recovered snapshot planId replayed
    rw [← replayed]
    cases snapshot with
    | none => exact (Option.or_none).symm
    | some snap => exact KeyedFold.getElem?_foldl_insert ..
  unfold recoverFromEventLog
  cases events with
  | nil => exact ⟨nofun, ownKeys_empty nowMs, fun snapshot planId => plans _ snapshot planId rfl⟩
  | cons event events =>
      have checked := validateEventSequence_spec 0 (event :: events)
      simp only [List.isEmpty_cons, Bool.false_eq_true, if_false]
      cases valid : validateEventSequence 0 (event :: events) with
      | error text =>
          simp only [valid, Nat.zero_add] at checked
          exact checked
      | ok =>
          simp only [valid, Nat.zero_add] at checked
          exact ⟨checked, ownKeys_replay phaseFromValue _ (ownKeys_empty nowMs),
            fun snapshot planId => plans _ snapshot planId
              (getElem?_replay phaseFromValue planId _ _)⟩

variable (recovered : RecoveredState)

theorem visit_fold_seen (order : List String)
    (visited : Finset String × List String) :
    (order.foldl recovered.visit visited).1 =
      visited.1 ∪ (recovered.knownOrder order).toFinset := by
  induction order generalizing visited with
  | nil => simp [knownOrder]
  | cons planId order ih =>
      rw [List.foldl_cons, ih]
      ext other
      by_cases known : recovered.planStates.contains planId = true
      · by_cases seen : planId ∈ visited.1
        · simp [visit, knownOrder, known, seen]
        · simp [visit, knownOrder, known, seen]
      · simp [visit, knownOrder, known]

/-- The visited ids are the seen ids, each once. -/
theorem visit_fold_nodup (order : List String)
    (visited : Finset String × List String)
    (same : ∀ planId, planId ∈ visited.2 ↔ planId ∈ visited.1)
    (nodup : visited.2.Nodup) :
    (∀ planId, planId ∈ (order.foldl recovered.visit visited).2 ↔
        planId ∈ (order.foldl recovered.visit visited).1) ∧
      (order.foldl recovered.visit visited).2.Nodup := by
  induction order generalizing visited with
  | nil => exact ⟨same, nodup⟩
  | cons planId order ih =>
      rw [List.foldl_cons]
      apply ih
      · intro other
        unfold visit
        split
        · simp [same other, or_comm]
        · exact same other
      · unfold visit
        split
        case isTrue fresh =>
          rw [← List.concat_eq_append]
          exact nodup.concat (fun member => fresh.2 ((same planId).mp member))
        case isFalse => exact nodup

/-- Without repetition, every known id of the order is visited in place. -/
theorem visit_fold_eq (order : List String)
    (visited : Finset String × List String)
    (same : ∀ planId, planId ∈ visited.2 ↔ planId ∈ visited.1)
    (nodup : (visited.2 ++ recovered.knownOrder order).Nodup) :
    (order.foldl recovered.visit visited).2 =
      visited.2 ++ recovered.knownOrder order := by
  induction order generalizing visited with
  | nil => simp [knownOrder]
  | cons planId order ih =>
      rw [List.foldl_cons]
      by_cases known : recovered.planStates.contains planId = true
      · have knownCons : recovered.knownOrder (planId :: order) =
            planId :: recovered.knownOrder order := by
          rw [knownOrder, List.filter_cons_of_pos known]
          rfl
        rw [knownCons] at nodup ⊢
        have fresh : planId ∉ visited.1 := by
          intro seen
          exact (List.nodup_append.mp nodup).2.2 planId ((same planId).mpr seen)
            planId List.mem_cons_self rfl
        have visitedStep : recovered.visit visited planId =
            (insert planId visited.1, visited.2 ++ [planId]) :=
          if_pos ⟨known, fresh⟩
        rw [visitedStep, ih]
        · simp
        · intro other
          simp [same other, or_comm]
        · simpa using nodup
      · have knownCons : recovered.knownOrder (planId :: order) =
            recovered.knownOrder order := by
          rw [knownOrder, List.filter_cons_of_neg known]
          rfl
        have visitedStep : recovered.visit visited planId = visited :=
          if_neg fun both => known both.1
        rw [knownCons] at nodup ⊢
        rw [visitedStep, ih visited same nodup]

theorem nodup_keys : recovered.planStates.keys.Nodup := by
  have ordered := recovered.planStates.ordered_keys
  exact ordered.imp fun before same => by simp [same] at before

theorem mem_missing {seen : Finset String} {planId : String} :
    planId ∈ recovered.missing seen ↔
      planId ∈ recovered.planStates ∧ planId ∉ seen := by
  rw [missing, (List.perm_insertionSort _ _).mem_iff, List.mem_filter,
    Std.ExtTreeMap.mem_keys, decide_eq_true_iff]

theorem nodup_missing (seen : Finset String) : (recovered.missing seen).Nodup :=
  (List.perm_insertionSort _ _).nodup_iff.mpr (recovered.nodup_keys.filter _)

/-- `resume_plan` visits every recovered plan, each once. -/
theorem resumeOrder_perm : recovered.resumeOrder.Perm recovered.planStates.keys := by
  obtain ⟨same, nodup⟩ := recovered.visit_fold_nodup recovered.queueOrder (∅, [])
    (by simp) List.nodup_nil
  have seen := recovered.visit_fold_seen recovered.queueOrder (∅, [])
  unfold resumeOrder
  generalize recovered.queueOrder.foldl recovered.visit (∅, []) = visited at *
  apply (List.perm_ext_iff_of_nodup _ recovered.nodup_keys).mpr
  · intro planId
    rw [List.mem_append, same, mem_missing, Std.ExtTreeMap.mem_keys]
    constructor
    · rintro (inSeen | ⟨known, -⟩)
      · rw [seen, Finset.empty_union, List.mem_toFinset] at inSeen
        exact Std.ExtTreeMap.contains_iff_mem.mp (List.mem_filter.mp inSeen).2
      · exact known
    · intro known
      by_cases inSeen : planId ∈ visited.1
      · exact .inl inSeen
      · exact .inr ⟨known, inSeen⟩
  · refine List.nodup_append.mpr ⟨nodup, recovered.nodup_missing _, ?_⟩
    rintro planId visitedMem other missingMem rfl
    exact ((recovered.mem_missing).mp missingMem).2 ((same planId).mp visitedMem)

theorem sortIntoList_planIds (nowMs : UInt64) (plan : RecoveryResumePlan)
    (info : PlanPhaseInfo) :
    (sortIntoList nowMs plan info).planIds.Perm (plan.planIds ++ [info.planId]) := by
  rw [List.perm_iff_count]
  intro planId
  unfold sortIntoList
  cases info.phase.resumeDirective <;>
    simp only [RecoveryResumePlan.planIds, List.map_append, List.map_cons,
      List.map_nil, List.count_append] <;> omega

theorem sortIntoList_fold_planIds (nowMs : UInt64) (infos : List PlanPhaseInfo)
    (plan : RecoveryResumePlan) :
    (infos.foldl (sortIntoList nowMs) plan).planIds.Perm
      (plan.planIds ++ infos.map PlanPhaseInfo.planId) := by
  induction infos generalizing plan with
  | nil => simp
  | cons info infos ih =>
      have sorted := (sortIntoList_planIds nowMs plan info).append_right
        (infos.map PlanPhaseInfo.planId)
      rw [List.append_assoc] at sorted
      exact (ih (sortIntoList nowMs plan info)).trans sorted

/-- `resume_plan` puts every recovered plan in one of its lists, once. -/
theorem resumePlan_planIds_perm (ownKeys : recovered.OwnKeys) (nowMs : UInt64) :
    (recovered.resumePlan nowMs).planIds.Perm recovered.planStates.keys := by
  have visited : ∀ order : List String, (∀ planId ∈ order,
      planId ∈ recovered.planStates) →
      (order.filterMap fun planId => recovered.planStates[planId]?).map
        PlanPhaseInfo.planId = order := by
    intro order known
    induction order with
    | nil => rfl
    | cons planId order ih =>
        obtain ⟨info, found⟩ := Option.isSome_iff_exists.mp
          (Std.ExtTreeMap.mem_iff_isSome_getElem?.mp
            (known planId List.mem_cons_self))
        rw [List.filterMap_cons_some found, List.map_cons,
          ownKeys planId info found,
          ih fun other member => known other (List.mem_cons_of_mem _ member)]
  have sorted := sortIntoList_fold_planIds nowMs
    (recovered.resumeOrder.filterMap fun planId => recovered.planStates[planId]?)
    ⟨[], [], [], [], [], recovered.validateRecovery⟩
  rw [visited recovered.resumeOrder] at sorted
  · exact sorted.trans recovered.resumeOrder_perm
  · intro planId member
    rw [recovered.resumeOrder_perm.mem_iff, Std.ExtTreeMap.mem_keys] at member
    exact member

end RecoveredState

namespace ParallelExecutor

variable (config : ExecutorConfig) (recovered : RecoveredState)

theorem adoptPlan_queue (executor : ParallelExecutor) (planId : String) :
    (adoptPlan recovered executor planId).queue =
      executor.queue ++ recovered.knownOrder [planId] := by
  unfold adoptPlan RecoveredState.knownOrder
  cases found : recovered.planStates[planId]? with
  | none =>
      have absent : recovered.planStates.contains planId = false := by
        rw [Std.ExtTreeMap.contains_eq_isSome_getElem?, found]
        rfl
      simp [absent]
  | some info =>
      have present : recovered.planStates.contains planId = true := by
        rw [Std.ExtTreeMap.contains_eq_isSome_getElem?, found]
        rfl
      simp [present]

theorem adoptPlan_fold_queue (order : List String) (executor : ParallelExecutor) :
    (order.foldl (adoptPlan recovered) executor).queue =
      executor.queue ++ recovered.knownOrder order := by
  induction order generalizing executor with
  | nil => simp [RecoveredState.knownOrder]
  | cons planId order ih =>
      rw [List.foldl_cons, ih, adoptPlan_queue, List.append_assoc,
        RecoveredState.knownOrder, RecoveredState.knownOrder,
        RecoveredState.knownOrder, ← List.filter_append]
      rfl

/-- The loop over the queue order adopts the known ids, and remembers them. -/
theorem adoptQueued_fold (order : List String)
    (adopted : ParallelExecutor × Finset String) :
    order.foldl (adoptQueued recovered) adopted =
      (order.foldl (adoptPlan recovered) adopted.1,
        adopted.2 ∪ (recovered.knownOrder order).toFinset) := by
  induction order generalizing adopted with
  | nil => simp [RecoveredState.knownOrder]
  | cons planId order ih =>
      rw [List.foldl_cons, ih, List.foldl_cons]
      by_cases known : recovered.planStates.contains planId = true
      · simp [adoptQueued, RecoveredState.knownOrder, known]
      · have unknown : recovered.planStates[planId]? = none := by
          rw [Std.ExtTreeMap.contains_eq_isSome_getElem?] at known
          simpa using known
        simp [adoptQueued, adoptPlan, RecoveredState.knownOrder, known, unknown]

/-- The queue holds every known entry of the persisted order, repetitions
included, and then the plans that the order does not name. -/
theorem fromRecoveredState_queue :
    (fromRecoveredState config recovered).queue =
      recovered.knownOrder recovered.queueOrder ++
        recovered.missing (recovered.knownOrder recovered.queueOrder).toFinset := by
  unfold fromRecoveredState
  simp only [adoptQueued_fold, adoptPlan_fold_queue, Finset.empty_union]
  have allKnown : recovered.knownOrder (recovered.missing
      (recovered.knownOrder recovered.queueOrder).toFinset) =
      recovered.missing (recovered.knownOrder recovered.queueOrder).toFinset := by
    apply List.filter_eq_self.mpr
    intro planId member
    exact Std.ExtTreeMap.contains_iff_mem.mpr (recovered.mem_missing.mp member).1
  rw [allKnown]
  rfl

theorem adoptPlan_fold_keyed (order : List String) (executor : ParallelExecutor)
    (keyed : ∀ (planId : String) (state : PlanState),
      executor.plans[planId]? = some state → state.planId = planId) :
    ∀ (planId : String) (state : PlanState),
      (order.foldl (adoptPlan recovered) executor).plans[planId]? = some state →
        state.planId = planId := by
  induction order generalizing executor with
  | nil => exact keyed
  | cons adopted order ih =>
      apply ih
      intro planId state found
      unfold adoptPlan at found
      split at found
      · exact keyed planId state found
      · rw [Std.ExtTreeMap.getElem?_insert] at found
        split at found
        case isTrue same =>
          rw [← Option.some.inj found]
          exact Std.LawfulEqOrd.eq_of_compare same
        case isFalse => exact keyed planId state found

theorem fromRecoveredState_keyed :
    ∀ (planId : String) (state : PlanState),
      (fromRecoveredState config recovered).plans[planId]? = some state →
        state.planId = planId := by
  unfold fromRecoveredState
  simp only [adoptQueued_fold]
  apply adoptPlan_fold_keyed
  apply adoptPlan_fold_keyed
  simp [new]

/-- What recovery owes to every plan: one place in the queue, in the order of
`resume_plan`, at most one action in a tick, and one of the five lists. -/
structure RecoversEachPlanOnce (nowMs : UInt64) : Prop where
  queueOnce : (fromRecoveredState config recovered).queue.Perm
    recovered.planStates.keys
  queueOrder : (fromRecoveredState config recovered).queue =
    recovered.resumeOrder
  tickOnce : ((fromRecoveredState config recovered).tick.map
    ExecutorAction.planId).Nodup
  listedOnce : (recovered.resumePlan nowMs).planIds.Perm
    recovered.planStates.keys

/-- Recovery keeps this promise exactly when the persisted queue order repeats
no recovered plan. -/
theorem recoversEachPlanOnce_iff_nodup (nowMs : UInt64)
    (ownKeys : recovered.OwnKeys) :
    RecoversEachPlanOnce config recovered nowMs ↔
      (recovered.knownOrder recovered.queueOrder).Nodup := by
  constructor
  · intro once
    have nodup := once.queueOnce.nodup_iff.mpr recovered.nodup_keys
    rw [fromRecoveredState_queue] at nodup
    exact (List.nodup_append.mp nodup).1
  · intro nodup
    have visited := recovered.visit_fold_eq recovered.queueOrder (∅, [])
      (by simp) (by simpa using nodup)
    have seen := recovered.visit_fold_seen recovered.queueOrder (∅, [])
    have sameOrder : (fromRecoveredState config recovered).queue =
        recovered.resumeOrder := by
      rw [fromRecoveredState_queue, RecoveredState.resumeOrder]
      simp only [visited, seen, List.nil_append, Finset.empty_union]
    have queueOnce := recovered.resumeOrder_perm
    rw [← sameOrder] at queueOnce
    have acts := tick_planIds_sublist (fromRecoveredState_keyed config recovered)
    have ofQueue := (acts.trans (List.take_sublist _ _)).trans List.filter_sublist
    exact {
      queueOnce := queueOnce
      queueOrder := sameOrder
      tickOnce := ofQueue.nodup (queueOnce.nodup_iff.mpr recovered.nodup_keys)
      listedOnce := recovered.resumePlan_planIds_perm ownKeys nowMs }

/-- A persisted order that repeats a plan makes a tick dispatch it twice. -/
theorem repeated_plan_is_dispatched_twice :
    let recovered : RecoveredState :=
      ⟨(∅ : Std.ExtTreeMap String PlanPhaseInfo).insert "plan-a"
        ⟨"plan-a", .queued, 1, none, []⟩, ["plan-a", "plan-a"], 0, 0⟩
    ¬ RecoversEachPlanOnce .standard recovered 0 := by
  intro recovered once
  have twice : (fromRecoveredState .standard recovered).tick =
      [.dispatchPlan "plan-a", .dispatchPlan "plan-a"] := by decide
  have nodup := once.tickOnce
  rw [twice] at nodup
  exact absurd nodup (by decide)

/-- An order that names each plan once, besides an unknown one, is kept. -/
theorem recoversEachPlanOnce_of_distinct_order :
    RecoversEachPlanOnce .standard
      ⟨((∅ : Std.ExtTreeMap String PlanPhaseInfo).insert "plan-a"
        ⟨"plan-a", .queued, 1, none, []⟩).insert "plan-b"
        ⟨"plan-b", .complete, 2, none, ["src/lib.rs"]⟩,
        ["plan-b", "plan-x", "plan-a"], 0, 0⟩ 0 := by
  refine (recoversEachPlanOnce_iff_nodup _ _ _ ?_).mpr (by decide)
  intro planId info found
  simp only [Std.ExtTreeMap.getElem?_insert] at found
  split at found
  case isTrue same =>
    rw [← Option.some.inj found]
    exact Std.LawfulEqOrd.eq_of_compare same
  case isFalse =>
    split at found
    case isTrue same =>
      rw [← Option.some.inj found]
      exact Std.LawfulEqOrd.eq_of_compare same
    case isFalse => simp at found

end ParallelExecutor

end Roko
