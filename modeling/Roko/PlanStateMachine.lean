import Roko.PlanPhase
import Mathlib.Algebra.Group.Nat.Defs

/-!
# Per-plan mutable state of the executor

The model of `roko-orchestrator/src/executor/plan_state.rs`.  The clock that
`current_timestamp_ms` reads is an argument of the operations that call it.
-/

namespace Roko

/-- Structured counts of a test gate. -/
structure TestCount where
  passed : UInt32
  failed : UInt32
  ignored : UInt32
deriving DecidableEq

/-- A gate verdict recorded against a plan. -/
structure GateResult where
  gateName : String
  rung : UInt32
  passed : Bool
  summary : String
  durationMs : UInt64
  testCount : Option TestCount
deriving DecidableEq

/-- What a runner does with a plan when it resumes. -/
inductive PlanResumeDirective where
  | continueActive
  | terminalComplete
  | terminalSkipped
  | retryTerminalFailure (failure : FailureKind) (cooldownSecs : UInt64)
  | awaitManualRepair (failure : FailureKind)
deriving DecidableEq

namespace PlanResumeDirective

def isRetryableTerminal : PlanResumeDirective → Bool
  | .retryTerminalFailure _ _ => true
  | _ => false

def cooldownSecs : PlanResumeDirective → Option UInt64
  | .retryTerminalFailure _ secs => some secs
  | _ => none

end PlanResumeDirective

/-- The classification that `PlanState::resume_directive` and
`PlanPhaseInfo::resume_directive` share. -/
def PlanPhase.resumeDirective (phase : PlanPhase) : PlanResumeDirective :=
  match phase with
  | .failed reason =>
      if reason.requiresManualRepair then .awaitManualRepair reason
      else if reason.autoRetryOnResume then
        .retryTerminalFailure reason reason.retryCooldownSecs
      else .continueActive
  | .complete => .terminalComplete
  | .skipped => .terminalSkipped
  | _ => .continueActive

/-- Mutable per-plan state held by the executor. -/
structure PlanState where
  planId : String
  currentPhase : PlanPhase
  assignedAgents : List String
  gateResults : List GateResult
  iteration : UInt32
  startedAtMs : UInt64
  filesChanged : List String
  mergeAttempts : UInt32
  lastError : Option String
  paused : Bool
  priority : UInt32
deriving DecidableEq

namespace PlanState

/-- `PlanState::new`: a queued plan in its first iteration. -/
def new (planId : String) : PlanState where
  planId := planId
  currentPhase := .queued
  assignedAgents := []
  gateResults := []
  iteration := 1
  startedAtMs := 0
  filesChanged := []
  mergeAttempts := 0
  lastError := none
  paused := false
  priority := 0

def isTerminal (state : PlanState) : Bool :=
  state.currentPhase.isTerminal

def resumeDirective (state : PlanState) : PlanResumeDirective :=
  state.currentPhase.resumeDirective

/-- `PlanState::reset_for_retry`; the `u32` counter wraps, as it does in a
release build. -/
def resetForRetry (state : PlanState) : PlanState :=
  { state with
    gateResults := []
    iteration := state.iteration + 1
    lastError := none }

def restartForReplan (state : PlanState) (nowMs : UInt64) : PlanState :=
  { state.resetForRetry with
    currentPhase := .queued
    assignedAgents := []
    mergeAttempts := 0
    paused := false
    startedAtMs := nowMs }

def requeueRetryableTerminal (state : PlanState) (nowMs : UInt64) :
    PlanState × Option PlanResumeDirective :=
  if state.resumeDirective.isRetryableTerminal then
    (state.restartForReplan nowMs, some state.resumeDirective)
  else (state, none)

@[simp]
theorem requeueRetryableTerminal_planId (state : PlanState) (nowMs : UInt64) :
    (state.requeueRetryableTerminal nowMs).1.planId = state.planId := by
  unfold requeueRetryableTerminal
  split <;> rfl

end PlanState

/-!
The model of `roko-orchestrator/src/executor/state_machine.rs`, with the actions
of `action.rs` that it suggests.  `transition` reads a plan state and an event;
it never writes the state.
-/

/-- The agent roles of `roko-core/src/agent.rs`. -/
inductive AgentRole where
  | conductor
  | strategist
  | implementer
  | architect
  | researcher
  | auditor
  | quickReviewer
  | scribe
  | critic
  | autoFixer
  | refactorer
  | prePlanner
  | docVerifier
  | integrationTester
  | mergeResolver
  | terminalValidator
  | golemLifecycleTester
  | specDriftDetector
  | regressionDetector
  | performanceSentinel
  | coverageTracker
  | planLifecycleManager
  | crossSystemTester
  | errorDiagnoser
  | dependencyValidator
  | patternExtractor
  | snapshotComparator
  | fullLoopValidator
deriving DecidableEq

/-- The actions `next_action` can suggest. -/
inductive ExecutorAction where
  | dispatchPlan (planId : String)
  | spawnAgent (planId : String) (role : AgentRole) (task : String)
  | runGate (planId : String) (rung : UInt32)
  | runVerify (planId : String)
  | mergeBranch (planId : String)
deriving DecidableEq

/-- The plan an action is about. -/
def ExecutorAction.planId : ExecutorAction → String
  | .dispatchPlan planId => planId
  | .spawnAgent planId _ _ => planId
  | .runGate planId _ => planId
  | .runVerify planId => planId
  | .mergeBranch planId => planId

/-- Events fed into the state machine. -/
inductive ExecutorEvent where
  | start
  | enrichmentDone
  | implementationDone
  | gatePassed
  | gateFailed
  | autoFixDone
  | verifyPassed
  | verifyFailed
  | verifyRegenDone
  | reviewApproved
  | reviewRejected
  | docRevisionDone
  | mergeSucceeded
  | mergeFailed
  | operatorMerge
  | skip
  | fatal (reason : String)
deriving DecidableEq

namespace ExecutorEvent

/-- The derived `Debug` text.  The message that uses it is never built for
`Fatal`, which has an arm of its own in `transition`. -/
def debugText : ExecutorEvent → String
  | .start => "Start"
  | .enrichmentDone => "EnrichmentDone"
  | .implementationDone => "ImplementationDone"
  | .gatePassed => "GatePassed"
  | .gateFailed => "GateFailed"
  | .autoFixDone => "AutoFixDone"
  | .verifyPassed => "VerifyPassed"
  | .verifyFailed => "VerifyFailed"
  | .verifyRegenDone => "VerifyRegenDone"
  | .reviewApproved => "ReviewApproved"
  | .reviewRejected => "ReviewRejected"
  | .docRevisionDone => "DocRevisionDone"
  | .mergeSucceeded => "MergeSucceeded"
  | .mergeFailed => "MergeFailed"
  | .operatorMerge => "OperatorMerge"
  | .skip => "Skip"
  | .fatal reason => "Fatal(" ++ reason.quote ++ ")"

/-- `event_target_kind`, read by error messages only. -/
def targetKind : ExecutorEvent → PhaseKind
  | .start => .enriching
  | .enrichmentDone | .reviewRejected => .implementing
  | .implementationDone | .autoFixDone => .gating
  | .gatePassed | .verifyRegenDone => .verifying
  | .gateFailed => .autoFixing
  | .verifyPassed => .reviewing
  | .verifyFailed => .regeneratingVerify
  | .reviewApproved => .docRevision
  | .docRevisionDone | .operatorMerge => .merging
  | .mergeSucceeded => .complete
  | .mergeFailed | .fatal _ => .failed
  | .skip => .skipped

end ExecutorEvent

/-- The error of a rejected phase transition. -/
structure TransitionError where
  source : PhaseKind
  target : PhaseKind
  reason : String
deriving DecidableEq

namespace PlanStateMachine

/-- `MAX_AUTO_FIX_ITERATIONS`, that is
`roko_core::defaults::DEFAULT_MAX_AUTO_FIX_ITERATIONS`. -/
def maxAutoFixIterations : UInt32 := 5

def maxMergeAttempts : UInt32 := 3

/-- The first `match` of `PlanStateMachine::transition`: the phase an event
leads to, before it is checked against the transition table. -/
def proposedPhase (state : PlanState) (event : ExecutorEvent) :
    Except TransitionError PlanPhase :=
  match state.currentPhase.kind, event with
  | .queued, .start => .ok .enriching
  | .queued, .skip => .ok .skipped
  | .enriching, .enrichmentDone => .ok .implementing
  | .enriching, .skip => .ok .skipped
  | .implementing, .implementationDone => .ok .gating
  | .implementing, .skip => .ok .skipped
  | .gating, .gatePassed => .ok .verifying
  | .gating, .gateFailed =>
      if maxAutoFixIterations ≤ state.iteration then
        .ok (.failed .autoFixExhausted)
      else .ok .autoFixing
  | .gating, .skip => .ok .skipped
  | .autoFixing, .autoFixDone => .ok .gating
  | .autoFixing, .skip => .ok .skipped
  | .verifying, .verifyPassed => .ok .reviewing
  | .verifying, .verifyFailed => .ok .regeneratingVerify
  | .verifying, .skip => .ok .skipped
  | .regeneratingVerify, .verifyRegenDone => .ok .verifying
  | .regeneratingVerify, .skip => .ok .skipped
  | .reviewing, .reviewApproved => .ok .docRevision
  | .reviewing, .reviewRejected => .ok .implementing
  | .reviewing, .skip => .ok .skipped
  | .docRevision, .docRevisionDone => .ok .merging
  | .docRevision, .skip => .ok .skipped
  | .merging, .mergeSucceeded => .ok .complete
  | .merging, .mergeFailed =>
      if maxMergeAttempts ≤ state.mergeAttempts then .ok (.failed .deadlock)
      else .ok (.failed (.other "merge conflict — retry"))
  | .merging, .skip => .ok .skipped
  | .done, .operatorMerge => .ok .merging
  | .done, .skip => .ok .skipped
  | kind, .fatal reason =>
      if .failed ∈ validTransitions kind then .ok (.failed (.other reason))
      else .error ⟨kind, .failed, "cannot fail from " ++ kind.debugText⟩
  | kind, other =>
      .error ⟨kind, other.targetKind,
        "no transition for event " ++ other.debugText ++ " in phase " ++
          kind.debugText⟩

/-- `PlanStateMachine::transition`. -/
def transition (state : PlanState) (event : ExecutorEvent) :
    Except TransitionError PlanPhase := do
  let next ← proposedPhase state event
  let currentKind := state.currentPhase.kind
  if next.kind ∈ validTransitions currentKind then .ok next
  else
    .error ⟨currentKind, next.kind,
      "transition " ++ currentKind.debugText ++ " -> " ++ next.kind.debugText ++
        " not in valid_transitions table"⟩

/-- `u32::try_from(len).unwrap_or(u32::MAX)`. -/
def rungOfLength (length : Nat) : UInt32 :=
  if length < 2 ^ 32 then .ofNat length else 0xFFFFFFFF

/-- `PlanStateMachine::next_action`. -/
def nextAction (state : PlanState) : Option ExecutorAction :=
  if state.paused || state.isTerminal then none
  else
    match state.currentPhase.kind with
    | .queued => some (.dispatchPlan state.planId)
    | .implementing => some (.spawnAgent state.planId .implementer "next")
    | .gating => some (.runGate state.planId (rungOfLength state.gateResults.length))
    | .autoFixing => some (.spawnAgent state.planId .autoFixer "fix")
    | .verifying => some (.runVerify state.planId)
    | .reviewing => some (.spawnAgent state.planId .auditor "review")
    | .docRevision => some (.spawnAgent state.planId .scribe "docs")
    | .merging => some (.mergeBranch state.planId)
    | .enriching => some (.spawnAgent state.planId .strategist "enrich")
    | .regeneratingVerify =>
        some (.spawnAgent state.planId .autoFixer "regen-verify")
    | _ => none

/-- A transition only leads to a legal successor of the current phase. -/
theorem kind_mem_validTransitions_of_transition {state : PlanState}
    {event : ExecutorEvent} {next : PlanPhase}
    (accepted : transition state event = .ok next) :
    next.kind ∈ validTransitions state.currentPhase.kind := by
  unfold transition at accepted
  cases proposed : proposedPhase state event with
  | error failure => simp [proposed, bind, Except.bind] at accepted
  | ok phase =>
      simp only [proposed, bind, Except.bind] at accepted
      split at accepted
      case isTrue legal =>
        rw [← Except.ok.inj accepted]
        exact legal
      case isFalse => cases accepted

/-- A terminal plan accepts no event. -/
theorem not_isTerminal_of_transition {state : PlanState}
    {event : ExecutorEvent} {next : PlanPhase}
    (accepted : transition state event = .ok next) :
    state.isTerminal = false := by
  have legal := kind_mem_validTransitions_of_transition accepted
  rw [PlanState.isTerminal, Bool.eq_false_iff]
  intro terminal
  rw [(isTerminal_iff_validTransitions_eq_nil _).mp terminal] at legal
  cases legal

/-- `Fatal` fails every plan that is not terminal. -/
theorem transition_fatal {state : PlanState} (active : state.isTerminal = false)
    (reason : String) :
    transition state (.fatal reason) = .ok (.failed (.other reason)) := by
  have legal : PhaseKind.failed ∈ validTransitions state.currentPhase.kind :=
    (failed_mem_validTransitions_iff _).mpr active
  have proposed : proposedPhase state (.fatal reason) =
      .ok (.failed (.other reason)) := by
    unfold proposedPhase
    split <;> simp_all
  rw [transition, proposed]
  exact if_pos legal

/-- The state machine suggests no action exactly for paused plans, terminal
plans and plans that wait for the operator's merge decision. -/
theorem nextAction_eq_none_iff (state : PlanState) :
    nextAction state = none ↔
      state.paused = true ∨ state.isTerminal = true ∨
        state.currentPhase = .done := by
  unfold nextAction PlanState.isTerminal PlanPhase.isTerminal
  cases state.paused <;> cases state.currentPhase <;> simp [PlanPhase.kind]

/-- A suggested action is about the plan it was asked for. -/
theorem planId_of_nextAction {state : PlanState} {action : ExecutorAction}
    (suggested : nextAction state = some action) :
    action.planId = state.planId := by
  unfold nextAction at suggested
  split at suggested
  · cases suggested
  · split at suggested <;> cases suggested <;> rfl

end PlanStateMachine

end Roko
