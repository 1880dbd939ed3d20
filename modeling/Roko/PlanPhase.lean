import Mathlib.Data.List.Infix

/-!
# Plan phases, failure kinds and the table of legal transitions

The model of `roko-core/src/phase.rs`.
-/

namespace Roko

/-- `str::contains` for a string pattern. -/
def containsText (text pattern : String) : Bool :=
  decide (pattern.toList <:+: text.toList)

/-- Structured classification of why a plan failed. -/
inductive FailureKind where
  | autoFixExhausted
  | allTasksFailed
  | taskRetriesExhausted
  | setupFailed
  | maxIterations
  | spawnFailures
  | deadlock
  | worktreeMissing
  | vacuousImplementation
  | verifyScriptBroken
  | other (text : String)
deriving DecidableEq

namespace FailureKind

def requiresManualRepair : FailureKind → Bool
  | .other text => containsText text "manual repair"
  | _ => false

def autoRetryOnResume (failure : FailureKind) : Bool :=
  !failure.requiresManualRepair

def retryCooldownSecs : FailureKind → UInt64
  | .other text => if containsText text "startup reconciliation" then 30 else 180
  | .spawnFailures | .setupFailed | .worktreeMissing | .deadlock => 120
  | .autoFixExhausted | .taskRetriesExhausted | .allTasksFailed => 300
  | .vacuousImplementation | .verifyScriptBroken | .maxIterations => 600

/-- The `Display` text, which `apply_event` stores as the last error. -/
def toText : FailureKind → String
  | .autoFixExhausted => "auto-fix attempts exhausted"
  | .allTasksFailed => "all tasks failed"
  | .taskRetriesExhausted => "task retries exhausted"
  | .setupFailed => "setup failed"
  | .maxIterations => "exceeded max iterations"
  | .spawnFailures => "spawn failures"
  | .deadlock => "deadlock"
  | .worktreeMissing => "worktree missing"
  | .vacuousImplementation =>
      "vacuous implementation (no code written after retries)"
  | .verifyScriptBroken =>
      "verify script broken (impossible conditions after regen)"
  | .other text => text

end FailureKind

/-- The discriminant of a `PlanPhase`. -/
inductive PhaseKind where
  | queued
  | enriching
  | implementing
  | gating
  | verifying
  | reviewing
  | docRevision
  | autoFixing
  | regeneratingVerify
  | merging
  | complete
  | done
  | failed
  | skipped
deriving DecidableEq

/-- The derived `Debug` text, which the error messages use. -/
def PhaseKind.debugText : PhaseKind → String
  | .queued => "Queued"
  | .enriching => "Enriching"
  | .implementing => "Implementing"
  | .gating => "Gating"
  | .verifying => "Verifying"
  | .reviewing => "Reviewing"
  | .docRevision => "DocRevision"
  | .autoFixing => "AutoFixing"
  | .regeneratingVerify => "RegeneratingVerify"
  | .merging => "Merging"
  | .complete => "Complete"
  | .done => "Done"
  | .failed => "Failed"
  | .skipped => "Skipped"

/-- The executor's phase of a plan, with a failure payload when it failed. -/
inductive PlanPhase where
  | queued
  | enriching
  | implementing
  | gating
  | verifying
  | reviewing
  | docRevision
  | autoFixing
  | regeneratingVerify
  | merging
  | complete
  | done
  | failed (reason : FailureKind)
  | skipped
deriving DecidableEq

namespace PlanPhase

def kind : PlanPhase → PhaseKind
  | .queued => .queued
  | .enriching => .enriching
  | .implementing => .implementing
  | .gating => .gating
  | .verifying => .verifying
  | .reviewing => .reviewing
  | .docRevision => .docRevision
  | .autoFixing => .autoFixing
  | .regeneratingVerify => .regeneratingVerify
  | .merging => .merging
  | .complete => .complete
  | .done => .done
  | .failed _ => .failed
  | .skipped => .skipped

def isTerminal (phase : PlanPhase) : Bool :=
  match phase.kind with
  | .complete | .failed | .skipped => true
  | _ => false

end PlanPhase

/-- The legal successors of a phase. -/
def validTransitions : PhaseKind → List PhaseKind
  | .queued => [.enriching, .skipped, .failed]
  | .enriching => [.implementing, .failed, .skipped]
  | .implementing => [.gating, .failed, .skipped]
  | .gating => [.verifying, .autoFixing, .failed, .skipped]
  | .autoFixing => [.gating, .failed, .skipped]
  | .verifying => [.reviewing, .regeneratingVerify, .failed, .skipped]
  | .regeneratingVerify => [.verifying, .failed, .skipped]
  | .reviewing => [.docRevision, .implementing, .failed, .skipped]
  | .docRevision => [.merging, .done, .failed, .skipped]
  | .merging => [.complete, .failed, .skipped]
  | .done => [.merging, .skipped, .failed]
  | .complete | .failed | .skipped => []

/-- The terminal phases are exactly the phases without a legal successor. -/
theorem isTerminal_iff_validTransitions_eq_nil (phase : PlanPhase) :
    phase.isTerminal = true ↔ validTransitions phase.kind = [] := by
  cases phase <;> simp [PlanPhase.isTerminal, PlanPhase.kind, validTransitions]

/-- Every phase that is not terminal can fail. -/
theorem failed_mem_validTransitions_iff (phase : PlanPhase) :
    PhaseKind.failed ∈ validTransitions phase.kind ↔
      phase.isTerminal = false := by
  cases phase <;> simp [PlanPhase.isTerminal, PlanPhase.kind, validTransitions]

end Roko
