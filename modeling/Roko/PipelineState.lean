import Roko.GuardedRuns

/-!
# The workflow pipeline

The model of `roko-runtime/src/pipeline_state.rs`: a state machine without side
effects that reads one event and answers with one action.  The configuration
says whether there is a strategy and a review phase and limits the two retry
loops.
-/

namespace Roko

inductive WorkflowOutcome
  | success (commitHash : Option String)
  | halted (reason : String)
  | cancelled
  deriving DecidableEq

inductive CommitOutcome
  | created (hash : String)
  | noChanges
  | rejected (reason : String)
  | failed (error : String)
  deriving DecidableEq

structure WorkflowConfig where
  hasStrategy : Bool
  hasReview : Bool
  maxIterations : UInt32
  maxAutofixAttempts : UInt32
  deriving DecidableEq

namespace WorkflowConfig

def express : WorkflowConfig := ⟨false, false, 1, 1⟩

def standard : WorkflowConfig := ⟨false, true, 2, 2⟩

def full : WorkflowConfig := ⟨true, true, 3, 2⟩

end WorkflowConfig

inductive Phase
  | pending
  | strategizing
  | implementing
  | gating
  | autoFixing
  | reviewing
  | committing
  | complete
  | halted (reason : String)
  | cancelled
  deriving DecidableEq

inductive PipelineInput
  | start
  | strategyComplete (brief : String)
  | strategySkipped
  | agentCompleted (output : String) (filesChanged : UInt32)
  | agentFailed (error : String)
  | gatesPassed
  | gateFailed (gate output : String)
  | reviewApproved (summary : String)
  | reviewRejected (reason : String)
  | reviewUnclear (summary : String)
  | reviewRevise (findings : List String)
  | commitFinished (outcome : CommitOutcome)
  | commitDone (hash : String)
  | commitFailed (error : String)
  | userCancel
  | resourceExhausted (reason : String)
  deriving DecidableEq

inductive PipelineOutput
  | spawnStrategist (prompt : String)
  | spawnImplementer (prompt : String) (context : Option String)
  | spawnAutoFixer (errorOutput : String)
  | runGates
  | spawnReviewer (diffContext : Option String)
  | commit
  | done (outcome : WorkflowOutcome)
  | halt (reason : String)
  deriving DecidableEq

/-- `char::escape_debug` inside a string.  Which other characters are written as
a Unicode escape is decided by tables of the standard library. -/
def escapeDebug (unicodeEscaped : Char → Bool) (character : Char) : List Char :=
  if character = '\x00' then ['\\', '0']
  else if character = '\t' then ['\\', 't']
  else if character = '\r' then ['\\', 'r']
  else if character = '\n' then ['\\', 'n']
  else if character = '"' || character = '\\' then ['\\', character]
  else if unicodeEscaped character then
    ['\\', 'u', '\x7b'] ++ Nat.toDigits 16 character.toNat ++ ['\x7d']
  else [character]

def debugText (unicodeEscaped : Char → Bool) (text : String) : String :=
  String.ofList ('"' :: text.toList.flatMap (escapeDebug unicodeEscaped) ++ ['"'])

namespace Phase

def isTerminal : Phase → Bool
  | .complete | .halted _ | .cancelled => true
  | _ => false

def debugText (unicodeEscaped : Char → Bool) : Phase → String
  | .pending => "Pending"
  | .strategizing => "Strategizing"
  | .implementing => "Implementing"
  | .gating => "Gating"
  | .autoFixing => "AutoFixing"
  | .reviewing => "Reviewing"
  | .committing => "Committing"
  | .complete => "Complete"
  | .halted reason =>
      "Halted \x7b reason: " ++ Roko.debugText unicodeEscaped reason ++ " \x7d"
  | .cancelled => "Cancelled"

end Phase

/-- The position of the variant, as `std::mem::discriminant` prints it. -/
def PipelineInput.discriminant : PipelineInput → Nat
  | .start => 0
  | .strategyComplete _ => 1
  | .strategySkipped => 2
  | .agentCompleted .. => 3
  | .agentFailed _ => 4
  | .gatesPassed => 5
  | .gateFailed .. => 6
  | .reviewApproved _ => 7
  | .reviewRejected _ => 8
  | .reviewUnclear _ => 9
  | .reviewRevise _ => 10
  | .commitFinished _ => 11
  | .commitDone _ => 12
  | .commitFailed _ => 13
  | .userCancel => 14
  | .resourceExhausted _ => 15

/-- The source's `PipelineStateV2`. -/
structure PipelineState where
  phase : Phase
  config : WorkflowConfig
  iteration : UInt32
  autofixAttempts : UInt32
  originalPrompt : String
  strategistBrief : Option String
  reviewFindings : List String
  lastGateFailure : Option String
  filesChanged : UInt32
  commitHash : Option String
  deriving DecidableEq

namespace PipelineState

def new (config : WorkflowConfig) (prompt : String) : PipelineState where
  phase := .pending
  config
  iteration := 0
  autofixAttempts := 0
  originalPrompt := prompt
  strategistBrief := none
  reviewFindings := []
  lastGateFailure := none
  filesChanged := 0
  commitHash := none

/-- Stop with a reason. -/
def halt (state : PipelineState) (reason : String) :
    PipelineState × PipelineOutput :=
  ({ state with phase := .halted reason }, .halt reason)

/-- The next iteration of the implementation. -/
def reimplement (state : PipelineState) (context : Option String) :
    PipelineState × PipelineOutput :=
  ({ state with
      iteration := state.iteration + 1, autofixAttempts := 0,
      phase := .implementing },
    .spawnImplementer state.originalPrompt context)

def finishCommit (state : PipelineState) :
    CommitOutcome → PipelineState × PipelineOutput
  | .created hash =>
      ({ state with commitHash := some hash, phase := .complete },
        .done (.success (some hash)))
  | .noChanges =>
      ({ state with commitHash := none, phase := .complete },
        .done (.success none))
  | .rejected reason | .failed reason => state.halt reason

def requestReviewRevision (state : PipelineState) (findings : List String) :
    PipelineState × PipelineOutput :=
  let state := { state with reviewFindings := state.reviewFindings ++ findings }
  if state.iteration < state.config.maxIterations then
    let feedback := "\n- ".intercalate state.reviewFindings
    state.reimplement (some s!"Review findings:\n- {feedback}")
  else ({ state with phase := .committing }, .commit)

def invalidTransition (unicodeEscaped : Char → Bool) (phase : Phase)
    (input : PipelineInput) : String :=
  s!"Invalid transition: Discriminant({input.discriminant}) in phase " ++
    phase.debugText unicodeEscaped

/-- The only way to drive the machine. -/
def step (unicodeEscaped : Char → Bool) (state : PipelineState)
    (input : PipelineInput) : PipelineState × PipelineOutput :=
  match state.phase, input with
  | .pending, .start =>
      if state.config.hasStrategy then
        ({ state with phase := .strategizing },
          .spawnStrategist state.originalPrompt)
      else
        ({ state with phase := .implementing, iteration := 1 },
          .spawnImplementer state.originalPrompt none)
  | .strategizing, .strategyComplete brief =>
      ({ state with
          strategistBrief := some brief, phase := .implementing, iteration := 1 },
        .spawnImplementer state.originalPrompt (some brief))
  | .strategizing, .strategySkipped =>
      ({ state with phase := .implementing, iteration := 1 },
        .spawnImplementer state.originalPrompt none)
  | .implementing, .agentCompleted _ filesChanged =>
      ({ state with filesChanged, phase := .gating, autofixAttempts := 0 },
        .runGates)
  | .implementing, .agentFailed error => state.halt error
  | .gating, .gatesPassed =>
      if state.config.hasReview then
        ({ state with phase := .reviewing }, .spawnReviewer none)
      else ({ state with phase := .committing }, .commit)
  | .gating, .gateFailed gate output =>
      let state := { state with lastGateFailure := some output }
      if state.autofixAttempts < state.config.maxAutofixAttempts then
        ({ state with
            autofixAttempts := state.autofixAttempts + 1, phase := .autoFixing },
          .spawnAutoFixer output)
      else if state.iteration < state.config.maxIterations then
        state.reimplement
          (some s!"Previous attempt failed gate '{gate}'. Error:\n{output}")
      else
        state.halt s!"Gate '{gate}' failed after {state.iteration} iterations"
  | .autoFixing, .agentCompleted _ _ =>
      ({ state with phase := .gating }, .runGates)
  | .autoFixing, .agentFailed error =>
      if state.iteration < state.config.maxIterations then
        state.reimplement state.lastGateFailure
      else state.halt s!"Autofix failed: {error}"
  | .reviewing, .reviewApproved _ =>
      ({ state with phase := .committing }, .commit)
  | .reviewing, .reviewRevise findings => state.requestReviewRevision findings
  | .reviewing, .reviewRejected reason => state.requestReviewRevision [reason]
  | .reviewing, .reviewUnclear summary =>
      state.requestReviewRevision [s!"Unclear review outcome: {summary}"]
  | .committing, .commitFinished outcome => state.finishCommit outcome
  | .committing, .commitDone hash => state.finishCommit (.created hash)
  | .committing, .commitFailed error => state.finishCommit (.failed error)
  -- The last three arms apply in every phase, the terminal ones included.
  | _, .userCancel => ({ state with phase := .cancelled }, .done .cancelled)
  | _, .resourceExhausted reason => state.halt reason
  | phase, input => state.halt (invalidTransition unicodeEscaped phase input)

/-!
`Move` lists the transitions of the pipeline with the phases and counters they
read and write.  Every step is a move, so a law of the pipeline is proved once
for each move.
-/

open GuardedRun

/-- A review that asks for another iteration. -/
def RequestsRevision : PipelineInput → Prop
  | .reviewRevise _ | .reviewRejected _ | .reviewUnclear _ => True
  | _ => False

/-- A step from a state on an input: the next phase and counters and the action.
The configuration stays the same. -/
inductive Move (state : PipelineState) (input : PipelineInput) :
    PipelineState → PipelineOutput → Prop
  | strategize (phase : state.phase = .pending) (prompt : String) :
      Move state input { state with phase := .strategizing }
        (.spawnStrategist prompt)
  | implement (phase : state.phase = .pending ∨ state.phase = .strategizing)
      (brief : Option String) (prompt : String) (context : Option String) :
      Move state input
        { state with
          strategistBrief := brief, phase := .implementing, iteration := 1 }
        (.spawnImplementer prompt context)
  | runGates (phase : state.phase = .implementing) (filesChanged : UInt32) :
      Move state input
        { state with filesChanged, phase := .gating, autofixAttempts := 0 }
        .runGates
  | rerunGates (phase : state.phase = .autoFixing) :
      Move state input { state with phase := .gating } .runGates
  | review (phase : state.phase = .gating) (passed : input = .gatesPassed)
      (reviewed : state.config.hasReview = true) (context : Option String) :
      Move state input { state with phase := .reviewing } (.spawnReviewer context)
  | autofix (phase : state.phase = .gating)
      (left : state.autofixAttempts < state.config.maxAutofixAttempts)
      (failure : String) :
      Move state input
        { state with
          lastGateFailure := some failure
          autofixAttempts := state.autofixAttempts + 1, phase := .autoFixing }
        (.spawnAutoFixer failure)
  | reimplement
      (phase : state.phase = .gating ∨ state.phase = .autoFixing ∨
        state.phase = .reviewing)
      (left : state.iteration < state.config.maxIterations)
      (failure : Option String) (findings : List String) (prompt : String)
      (context : Option String) :
      Move state input
        { state with
          lastGateFailure := failure, reviewFindings := findings
          iteration := state.iteration + 1, autofixAttempts := 0
          phase := .implementing }
        (.spawnImplementer prompt context)
  | commitUnreviewed (phase : state.phase = .gating)
      (unreviewed : state.config.hasReview = false) :
      Move state input { state with phase := .committing } .commit
  | commitReviewed (phase : state.phase = .reviewing)
      (accepted : (∃ summary, input = .reviewApproved summary) ∨
        (RequestsRevision input ∧ state.config.maxIterations ≤ state.iteration))
      (findings : List String) :
      Move state input
        { state with reviewFindings := findings, phase := .committing } .commit
  | complete (phase : state.phase = .committing) (hash : Option String) :
      Move state input { state with commitHash := hash, phase := .complete }
        (.done (.success hash))
  | halt (failure : Option String) (reason : String) :
      Move state input
        { state with lastGateFailure := failure, phase := .halted reason }
        (.halt reason)
  | cancel (cancelled : input = .userCancel) :
      Move state input { state with phase := .cancelled } (.done .cancelled)

variable {unicodeEscaped : Char → Bool}

theorem Move.config {state following : PipelineState} {input : PipelineInput}
    {action : PipelineOutput} (move : Move state input following action) :
    following.config = state.config := by
  cases move <;> rfl

theorem move_requestReviewRevision {state : PipelineState}
    {input : PipelineInput} (phase : state.phase = .reviewing)
    (requests : RequestsRevision input) (findings : List String) :
    Move state input (state.requestReviewRevision findings).1
      (state.requestReviewRevision findings).2 := by
  unfold requestReviewRevision
  dsimp only
  split
  case isTrue left => exact .reimplement (Or.inr (Or.inr phase)) left _ _ _ _
  case isFalse exhausted =>
    exact .commitReviewed phase
      (Or.inr ⟨requests, UInt32.not_lt.mp exhausted⟩) _

theorem move_finishCommit {state : PipelineState} {input : PipelineInput}
    (phase : state.phase = .committing) (outcome : CommitOutcome) :
    Move state input (state.finishCommit outcome).1
      (state.finishCommit outcome).2 := by
  cases outcome with
  | created hash => exact .complete phase _
  | noChanges => exact .complete phase _
  | rejected reason => exact .halt _ _
  | failed error => exact .halt _ _

theorem move_step (state : PipelineState) (input : PipelineInput) :
    Move state input (step unicodeEscaped state input).1
      (step unicodeEscaped state input).2 := by
  unfold step
  split
  case h_1 phase =>
    split
    · exact .strategize phase _
    · exact .implement (Or.inl phase) _ _ _
  case h_2 phase => exact .implement (Or.inr phase) _ _ _
  case h_3 phase => exact .implement (Or.inr phase) _ _ _
  case h_4 phase => exact .runGates phase _
  case h_5 => exact .halt _ _
  case h_6 phase =>
    split
    case isTrue reviewed => exact .review phase rfl reviewed _
    case isFalse unreviewed =>
      exact .commitUnreviewed phase (Bool.eq_false_iff.mpr unreviewed)
  case h_7 phase =>
    dsimp only
    split
    case isTrue left => exact .autofix phase left _
    case isFalse =>
      split
      case isTrue left => exact .reimplement (Or.inl phase) left _ _ _ _
      case isFalse => exact .halt _ _
  case h_8 phase => exact .rerunGates phase
  case h_9 phase =>
    split
    case isTrue left =>
      exact .reimplement (Or.inr (Or.inl phase)) left _ _ _ _
    case isFalse => exact .halt _ _
  case h_10 phase => exact .commitReviewed phase (Or.inl ⟨_, rfl⟩) _
  case h_11 phase => exact move_requestReviewRevision phase (by trivial) _
  case h_12 phase => exact move_requestReviewRevision phase (by trivial) _
  case h_13 phase => exact move_requestReviewRevision phase (by trivial) _
  case h_14 phase => exact move_finishCommit phase _
  case h_15 phase => exact move_finishCommit phase _
  case h_16 phase => exact move_finishCommit phase _
  case h_17 => exact .cancel rfl
  case h_18 => exact .halt _ _
  case h_19 => exact .halt _ _

def next (unicodeEscaped : Char → Bool) (state : PipelineState)
    (input : PipelineInput) : PipelineState :=
  (step unicodeEscaped state input).1

def output (unicodeEscaped : Char → Bool) (state : PipelineState)
    (input : PipelineInput) : PipelineOutput :=
  (step unicodeEscaped state input).2

/-- The actions of a run, in order. -/
def outputs (unicodeEscaped : Char → Bool) (state : PipelineState)
    (inputs : List PipelineInput) : List PipelineOutput :=
  (steps (next unicodeEscaped) state inputs).map fun taken =>
    output unicodeEscaped taken.1 taken.2

theorem move_next (state : PipelineState) (input : PipelineInput) :
    Move state input (next unicodeEscaped state input)
      (output unicodeEscaped state input) :=
  move_step state input

theorem next_config (state : PipelineState) (input : PipelineInput) :
    (next unicodeEscaped state input).config = state.config :=
  (move_next state input).config

theorem foldl_next_config (state : PipelineState) (inputs : List PipelineInput) :
    (inputs.foldl (next unicodeEscaped) state).config = state.config := by
  induction inputs generalizing state with
  | nil => rfl
  | cons input inputs ih => rw [List.foldl_cons, ih, next_config]

end PipelineState

end Roko
