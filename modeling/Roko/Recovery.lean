import Roko.EventLog
import Roko.ParallelExecutor
import Mathlib.Data.Finset.Basic

/-!
# Crash recovery

The model of `roko-orchestrator/src/executor/recovery.rs` and of
`ParallelExecutor::from_recovered_state`.  The clock and the deserializer of
phases are arguments.  Where the code iterates over a hash map, the model takes
the keys in ascending order.
-/

namespace Roko

inductive WarningSeverity where
  | info
  | warning
  | critical
deriving DecidableEq

/-- A non-fatal inconsistency found by `validate_recovery`. -/
structure RecoveryWarning where
  planId : String
  message : String
  severity : WarningSeverity
deriving DecidableEq

/-- Per-plan information reconstructed during recovery. -/
structure PlanPhaseInfo where
  planId : String
  phase : PlanPhase
  iteration : UInt32
  lastGateResult : Option String
  filesChanged : List String
deriving DecidableEq

/-- A recovered plan with its resume directive. -/
structure RecoveredPlanResume where
  planId : String
  phase : PlanPhase
  iteration : UInt32
  directive : PlanResumeDirective
  retryAfterMs : Option UInt64
deriving DecidableEq

/-- The five lists of plans, and the warnings. -/
structure RecoveryResumePlan where
  active : List RecoveredPlanResume
  retryableTerminal : List RecoveredPlanResume
  manualRepair : List RecoveredPlanResume
  completed : List String
  skipped : List String
  warnings : List RecoveryWarning
deriving DecidableEq

/-- The state reconstructed by crash recovery. -/
structure RecoveredState where
  planStates : Std.ExtTreeMap String PlanPhaseInfo
  queueOrder : List String
  lastSequence : UInt64
  recoveryTimestampMs : UInt64

/-- `u64::saturating_add`. -/
def saturatingAdd64 (left right : UInt64) : UInt64 :=
  if left.toNat + right.toNat < 2 ^ 64 then left + right else 0xFFFFFFFFFFFFFFFF

/-- `u64::saturating_mul`. -/
def saturatingMul64 (left right : UInt64) : UInt64 :=
  if left.toNat * right.toNat < 2 ^ 64 then left * right else 0xFFFFFFFFFFFFFFFF

namespace RecoveredState

def empty (timestampMs : UInt64) : RecoveredState :=
  ⟨∅, [], 0, timestampMs⟩

/-- One step of the loop of `resume_plan` over the queue order: the ids seen so
far, and the ids to visit. -/
def visit (recovered : RecoveredState)
    (visited : Finset String × List String) (planId : String) :
    Finset String × List String :=
  if recovered.planStates.contains planId ∧ planId ∉ visited.1 then
    (insert planId visited.1, visited.2 ++ [planId])
  else visited

/-- The recovered plans that are not in the given set, sorted. -/
def missing (recovered : RecoveredState) (seen : Finset String) : List String :=
  (recovered.planStates.keys.filter fun planId =>
    planId ∉ seen).insertionSort (· ≤ ·)

/-- The order in which `resume_plan` visits the recovered plans. -/
def resumeOrder (recovered : RecoveredState) : List String :=
  let visited := recovered.queueOrder.foldl recovered.visit (∅, [])
  visited.2 ++ recovered.missing visited.1

/-- `RecoveryEngine::validate_recovery`. -/
def validateRecovery (recovered : RecoveredState) : List RecoveryWarning :=
  let unknown := (recovered.queueOrder.filter fun planId =>
    !recovered.planStates.contains planId).map fun planId =>
      ⟨planId, "plan in queue_order but missing from plan_states", .critical⟩
  let orphans := (recovered.planStates.keys.filter fun planId =>
    !recovered.queueOrder.contains planId).map fun planId =>
      ⟨planId, "plan in plan_states but missing from queue_order", .warning⟩
  let infos := recovered.planStates.toList.map Prod.snd
  let unstarted := (infos.filter fun info => info.iteration == 0).map fun info =>
    ⟨info.planId, "iteration is 0 (should be >= 1)", .warning⟩
  let unrecorded := (infos.filter fun info =>
    info.phase.kind == .complete && info.filesChanged.isEmpty).map fun info =>
      ⟨info.planId, "completed plan has no files_changed recorded", .info⟩
  let repeated := (recovered.queueOrder.zipIdx.filter fun pair =>
    (recovered.queueOrder.take pair.2).contains pair.1).map fun pair =>
      ⟨pair.1, "duplicate entry in queue_order", .critical⟩
  unknown ++ orphans ++ unstarted ++ unrecorded ++ repeated

/-- One step of the second loop of `resume_plan`: the plan goes to the list of
its directive. -/
def sortIntoList (nowMs : UInt64) (plan : RecoveryResumePlan)
    (info : PlanPhaseInfo) : RecoveryResumePlan :=
  let directive := info.phase.resumeDirective
  let resume : RecoveredPlanResume := {
    planId := info.planId
    phase := info.phase
    iteration := info.iteration
    directive := directive
    retryAfterMs := directive.cooldownSecs.map fun secs =>
      saturatingAdd64 nowMs (saturatingMul64 secs 1000) }
  match directive with
  | .continueActive => { plan with active := plan.active ++ [resume] }
  | .retryTerminalFailure _ _ =>
      { plan with retryableTerminal := plan.retryableTerminal ++ [resume] }
  | .awaitManualRepair _ =>
      { plan with manualRepair := plan.manualRepair ++ [resume] }
  | .terminalComplete =>
      { plan with completed := plan.completed ++ [info.planId] }
  | .terminalSkipped => { plan with skipped := plan.skipped ++ [info.planId] }

/-- `RecoveredState::resume_plan`. -/
def resumePlan (recovered : RecoveredState) (nowMs : UInt64) :
    RecoveryResumePlan :=
  (recovered.resumeOrder.filterMap fun planId =>
    recovered.planStates[planId]?).foldl (sortIntoList nowMs)
      ⟨[], [], [], [], [], recovered.validateRecovery⟩

/-- `RecoveryEngine::recover_from_executor_snapshot`. -/
def recoverFromExecutorSnapshot (snapshot : ExecutorSnapshot) (nowMs : UInt64) :
    RecoveredState where
  planStates := snapshot.planStates.map fun planId state => {
    planId := planId
    phase := state.currentPhase
    iteration := state.iteration
    lastGateResult := state.gateResults.getLast?.map fun gate =>
      gate.gateName ++ ": " ++ gate.summary
    filesChanged := state.filesChanged }
  queueOrder := snapshot.queueOrder
  lastSequence := 0
  recoveryTimestampMs := nowMs

/-- `extract_plan_id`. -/
def extractPlanId (payload : JsonValue) : Option String :=
  ((payload.get "plan_id").or (payload.get "plan")).bind JsonValue.asStr

/-- `apply_gate_result`. -/
def applyGateResult (payload : JsonValue) (info : PlanPhaseInfo) : PlanPhaseInfo :=
  let gateName := ((payload.get "gate").bind JsonValue.asStr).getD "unknown"
  let passed := ((payload.get "passed").bind JsonValue.asBool).getD false
  let summary := ((payload.get "summary").bind JsonValue.asStr).getD ""
  let status := if passed then "passed" else "failed"
  let detail := if summary.isEmpty then "" else " - " ++ summary
  { info with lastGateResult := some (gateName ++ ": " ++ status ++ detail) }

/-- The file names of a payload, added without repetition. -/
def addFiles (payload : JsonValue) (info : PlanPhaseInfo) : PlanPhaseInfo :=
  let names := (((payload.get "files").bind JsonValue.asArray).getD []).filterMap
    JsonValue.asStr
  let addFile := fun (files : List String) name =>
    if files.contains name then files else files ++ [name]
  { info with filesChanged := names.foldl addFile info.filesChanged }

/-- The `match` of `apply_event_to_plan`, on the information of the plan. -/
def applyEventKind (phaseFromValue : JsonValue → Option PlanPhase)
    (event : EventEntry) (info : PlanPhaseInfo) : PlanPhaseInfo :=
  match event.eventKind with
  | .planStarted => { info with phase := .enriching }
  | .phaseTransition =>
      match (event.payload.get "phase").bind phaseFromValue with
      | none => info
      | some phase => { info with phase := phase }
  | .taskAssigned | .agentSpawned => addFiles event.payload info
  | .gateResult => applyGateResult event.payload info
  | .planCompleted => { info with phase := .complete }
  | .planFailed =>
      let reason :=
        ((event.payload.get "reason").bind JsonValue.asStr).getD "unknown"
      { info with phase := .failed (.other reason) }
  | .mergeAttempted =>
      if info.phase.kind ≠ .complete ∧ info.phase.kind ≠ .failed then
        { info with phase := .merging }
      else info
  | _ => info

/-- The iteration bump at the end of `apply_event_to_plan`. -/
def bumpIteration (payload : JsonValue) (info : PlanPhaseInfo) : PlanPhaseInfo :=
  match (payload.get "iteration").bind JsonValue.asU64 with
  | none => info
  | some iteration =>
      let bounded : UInt32 :=
        if iteration.toNat < 2 ^ 32 then iteration.toUInt32 else 0xFFFFFFFF
      if info.iteration < bounded then { info with iteration := bounded } else info

/-- The replay step of `recover_from_event_log`. -/
def replayEvent (phaseFromValue : JsonValue → Option PlanPhase)
    (recovered : RecoveredState) (event : EventEntry) : RecoveredState :=
  let numbered := { recovered with lastSequence := event.sequenceNumber }
  match extractPlanId event.payload with
  | none => numbered
  | some planId =>
      let info := (recovered.planStates[planId]?).getD
        ⟨planId, .queued, 1, none, []⟩
      { numbered with
        planStates := recovered.planStates.insert planId
          (bumpIteration event.payload (applyEventKind phaseFromValue event info))
        queueOrder :=
          if event.eventKind = .planStarted ∧
              !recovered.queueOrder.contains planId then
            recovered.queueOrder ++ [planId]
          else recovered.queueOrder }

/-- `validate_event_sequence` from a given index on; an error carries the text
of `RecoveryError::InvalidEventSequence`. -/
def validateEventSequence : Nat → List EventEntry → Except String Unit
  | _, [] => .ok ()
  | index, event :: events =>
      let expected := UInt64.ofNat index
      if event.sequenceNumber = expected then
        validateEventSequence (index + 1) events
      else if expected = 0 then
        .error ("sequence " ++ toString event.sequenceNumber ++
          " starts event log (expected 0)")
      else
        .error ("sequence " ++ toString event.sequenceNumber ++ " follows " ++
          toString (expected - 1) ++ " (expected " ++ toString expected ++ ")")

/-- `RecoveryEngine::recover_from_event_log`. -/
def recoverFromEventLog (phaseFromValue : JsonValue → Option PlanPhase)
    (events : List EventEntry) (nowMs : UInt64) : Except String RecoveredState :=
  if events.isEmpty then .ok (empty nowMs)
  else do
    validateEventSequence 0 events
    .ok (events.foldl (replayEvent phaseFromValue) (empty nowMs))

/-- `RecoveryEngine::merge_recovery`: the event log wins. -/
def mergeRecovery (snapshot eventLog : Option RecoveredState) (nowMs : UInt64) :
    RecoveredState :=
  match snapshot, eventLog with
  | none, none => empty nowMs
  | some snap, none => snap
  | none, some log => log
  | some snap, some log => {
      planStates := log.planStates.toList.foldl
        (fun plans pair => plans.insert pair.1 pair.2) snap.planStates
      queueOrder :=
        if log.queueOrder.isEmpty then snap.queueOrder else log.queueOrder
      lastSequence := max snap.lastSequence log.lastSequence
      recoveryTimestampMs := nowMs }

end RecoveredState

namespace ParallelExecutor

/-- The plan state that `from_recovered_state` builds; the fields that recovery
does not have take the defaults. -/
def recoveredPlanState (planId : String) (info : PlanPhaseInfo) : PlanState :=
  { PlanState.new planId with
    currentPhase := info.phase
    iteration := max info.iteration 1
    filesChanged := info.filesChanged }

/-- Store a recovered plan and push its id to the queue. -/
def adoptPlan (recovered : RecoveredState) (executor : ParallelExecutor)
    (planId : String) : ParallelExecutor :=
  match recovered.planStates[planId]? with
  | none => executor
  | some info =>
      { executor with
        plans := executor.plans.insert planId (recoveredPlanState planId info)
        queue := executor.queue ++ [planId] }

/-- One step of the loop of `from_recovered_state` over the queue order: the
executor, and the ids that were queued. -/
def adoptQueued (recovered : RecoveredState)
    (adopted : ParallelExecutor × Finset String) (planId : String) :
    ParallelExecutor × Finset String :=
  if recovered.planStates.contains planId then
    (adoptPlan recovered adopted.1 planId, insert planId adopted.2)
  else adopted

/-- `ParallelExecutor::from_recovered_state`. -/
def fromRecoveredState (config : ExecutorConfig) (recovered : RecoveredState) :
    ParallelExecutor :=
  let adopted := recovered.queueOrder.foldl (adoptQueued recovered) (new config, ∅)
  (recovered.missing adopted.2).foldl (adoptPlan recovered) adopted.1

end ParallelExecutor

end Roko
