import Roko.PipelineState
import Mathlib.Algebra.BigOperators.Group.List.Basic
import Mathlib.Algebra.Order.Ring.Nat

/-!
# Bounds on a run of the pipeline

The two retry loops count their attempts.  For each kind of action there is a
budget, computed from the phase and the counters, that every such action lowers
and no step raises.
-/

namespace Roko

def PipelineOutput.isSpawnImplementer : PipelineOutput → Bool
  | .spawnImplementer .. => true
  | _ => false

def PipelineOutput.isSpawnAutoFixer : PipelineOutput → Bool
  | .spawnAutoFixer _ => true
  | _ => false

def PipelineOutput.isCommit : PipelineOutput → Bool
  | .commit => true
  | _ => false

/-- At least one iteration is started, whatever the configuration says. -/
def WorkflowConfig.iterations (config : WorkflowConfig) : Nat :=
  max config.maxIterations.toNat 1

/-- The steps of one iteration: the implementation, the gates with the repairs
between them, and the review. -/
def WorkflowConfig.iterationSteps (config : WorkflowConfig) : Nat :=
  2 * config.maxAutofixAttempts.toNat + 3

/-- The start, the strategy, the iterations and the end of the commit. -/
def WorkflowConfig.stepBound (config : WorkflowConfig) : Nat :=
  config.iterations * config.iterationSteps + 3

theorem WorkflowConfig.iterations_started (config : WorkflowConfig) :
    config.maxIterations.toNat - 1 + 1 = config.iterations := by
  unfold iterations
  omega

namespace PipelineState

open GuardedRun

def iterationsLeft (state : PipelineState) : Nat :=
  state.config.maxIterations.toNat - state.iteration.toNat

def autofixesLeft (state : PipelineState) : Nat :=
  state.config.maxAutofixAttempts.toNat - state.autofixAttempts.toNat

def implementBudget (state : PipelineState) : Nat :=
  match state.phase with
  | .pending | .strategizing => state.config.iterations
  | .committing | .complete | .halted _ | .cancelled => 0
  | _ => state.iterationsLeft

def autofixBudget (state : PipelineState) : Nat :=
  let perIteration := state.config.maxAutofixAttempts.toNat
  match state.phase with
  | .pending | .strategizing => state.config.iterations * perIteration
  | .implementing => (state.iterationsLeft + 1) * perIteration
  | .gating | .autoFixing =>
      state.iterationsLeft * perIteration + state.autofixesLeft
  | .reviewing => state.iterationsLeft * perIteration
  | .committing | .complete | .halted _ | .cancelled => 0

def commitBudget (state : PipelineState) : Nat :=
  match state.phase with
  | .committing | .complete | .halted _ | .cancelled => 0
  | _ => 1

def stepBudget (state : PipelineState) : Nat :=
  let perIteration := state.config.iterationSteps
  match state.phase with
  | .pending => state.config.iterations * perIteration + 3
  | .strategizing => state.config.iterations * perIteration + 2
  | .implementing => (state.iterationsLeft + 1) * perIteration + 1
  | .gating => state.iterationsLeft * perIteration + 2 * state.autofixesLeft + 3
  | .autoFixing =>
      state.iterationsLeft * perIteration + 2 * state.autofixesLeft + 4
  | .reviewing => state.iterationsLeft * perIteration + 2
  | .committing => 1
  | .complete | .halted _ | .cancelled => 0

theorem toNat_add_one_of_lt {count limit : UInt32} (left : count < limit) :
    (count + 1).toNat = count.toNat + 1 := by
  have bound := limit.toNat_lt
  rw [UInt32.lt_iff_toNat_lt] at left
  rw [UInt32.toNat_add, UInt32.toNat_one, Nat.mod_eq_of_lt]
  omega

theorem iterationsLeft_spent (state : PipelineState)
    (left : state.iteration < state.config.maxIterations) :
    state.config.maxIterations.toNat - (state.iteration + 1).toNat + 1 =
      state.iterationsLeft := by
  rw [toNat_add_one_of_lt left]
  rw [UInt32.lt_iff_toNat_lt] at left
  unfold iterationsLeft
  omega

variable {state following : PipelineState} {input : PipelineInput}
  {action : PipelineOutput}

theorem implementBudget_move (move : Move state input following action) :
    action.isSpawnImplementer.toNat + following.implementBudget ≤
      state.implementBudget := by
  cases move with
  | implement phase =>
      rcases phase with phase | phase <;>
        simp [implementBudget, phase, iterationsLeft, WorkflowConfig.iterations,
          PipelineOutput.isSpawnImplementer] <;> omega
  | reimplement phase left =>
      have advanced := toNat_add_one_of_lt left
      rw [UInt32.lt_iff_toNat_lt] at left
      rcases phase with phase | phase | phase <;>
        simp [implementBudget, phase, iterationsLeft, advanced,
          PipelineOutput.isSpawnImplementer] <;> omega
  | halt => simp [implementBudget, PipelineOutput.isSpawnImplementer]
  | cancel => simp [implementBudget, PipelineOutput.isSpawnImplementer]
  | strategize phase | runGates phase | rerunGates phase | review phase
  | autofix phase | commitUnreviewed phase | commitReviewed phase
  | complete phase =>
      simp [implementBudget, phase, iterationsLeft,
        PipelineOutput.isSpawnImplementer]

theorem commitBudget_move (move : Move state input following action) :
    action.isCommit.toNat + following.commitBudget ≤ state.commitBudget := by
  cases move with
  | implement phase =>
      rcases phase with phase | phase <;>
        simp [commitBudget, phase, PipelineOutput.isCommit]
  | reimplement phase left =>
      rcases phase with phase | phase | phase <;>
        simp [commitBudget, phase, PipelineOutput.isCommit]
  | halt => simp [commitBudget, PipelineOutput.isCommit]
  | cancel => simp [commitBudget, PipelineOutput.isCommit]
  | strategize phase | runGates phase | rerunGates phase | review phase
  | autofix phase | commitUnreviewed phase | commitReviewed phase
  | complete phase =>
      simp [commitBudget, phase, PipelineOutput.isCommit]

theorem autofixBudget_move (move : Move state input following action) :
    action.isSpawnAutoFixer.toNat + following.autofixBudget ≤
      state.autofixBudget := by
  cases move with
  | implement phase =>
      have started := state.config.iterations_started
      rcases phase with phase | phase <;>
        simp [autofixBudget, phase, iterationsLeft, started,
          PipelineOutput.isSpawnAutoFixer]
  | reimplement phase left =>
      have spent := state.iterationsLeft_spent left
      rcases phase with phase | phase | phase <;>
        simp [autofixBudget, phase, spent, iterationsLeft, -UInt32.toNat_add,
          PipelineOutput.isSpawnAutoFixer]
  | autofix phase left =>
      have advanced := toNat_add_one_of_lt left
      rw [UInt32.lt_iff_toNat_lt] at left
      simp [autofixBudget, phase, iterationsLeft, autofixesLeft, advanced,
        PipelineOutput.isSpawnAutoFixer]
      omega
  | runGates phase =>
      simp [autofixBudget, phase, iterationsLeft, autofixesLeft, Nat.add_mul,
        PipelineOutput.isSpawnAutoFixer]
  | halt => simp [autofixBudget, PipelineOutput.isSpawnAutoFixer]
  | cancel => simp [autofixBudget, PipelineOutput.isSpawnAutoFixer]
  | strategize phase | rerunGates phase | review phase
  | commitUnreviewed phase | commitReviewed phase | complete phase =>
      simp [autofixBudget, phase, iterationsLeft, autofixesLeft,
        PipelineOutput.isSpawnAutoFixer]

theorem stepBudget_pos (state : PipelineState) :
    (!state.phase.isTerminal).toNat ≤ state.stepBudget := by
  unfold stepBudget
  cases state.phase <;> simp [Phase.isTerminal]

theorem stepBudget_move (move : Move state input following action) :
    (!state.phase.isTerminal).toNat + following.stepBudget ≤ state.stepBudget := by
  have perIteration : state.config.iterationSteps =
      2 * state.config.maxAutofixAttempts.toNat + 3 := rfl
  cases move with
  | implement phase =>
      have started := state.config.iterations_started
      rcases phase with phase | phase <;>
        simp [stepBudget, phase, iterationsLeft, started, Phase.isTerminal] <;>
        omega
  | reimplement phase left =>
      have spent := state.iterationsLeft_spent left
      rcases phase with phase | phase | phase <;>
        simp [stepBudget, phase, spent, iterationsLeft, -UInt32.toNat_add,
          Phase.isTerminal] <;>
        omega
  | autofix phase left =>
      have advanced := toNat_add_one_of_lt left
      rw [UInt32.lt_iff_toNat_lt] at left
      simp [stepBudget, phase, iterationsLeft, autofixesLeft, advanced,
        Phase.isTerminal]
      omega
  | runGates phase =>
      simp [stepBudget, phase, iterationsLeft, autofixesLeft, Phase.isTerminal]
      rw [Nat.add_mul]
      omega
  | halt => simpa [stepBudget] using state.stepBudget_pos
  | cancel => simpa [stepBudget] using state.stepBudget_pos
  | strategize phase | rerunGates phase | review phase
  | commitUnreviewed phase | commitReviewed phase | complete phase =>
      simp [stepBudget, phase, iterationsLeft, autofixesLeft, Phase.isTerminal] <;> omega

/-- Along every sequence of inputs the pipeline starts at most
`max(max_iterations, 1)` implementations, at most that many times
`max_autofix_attempts` repairs and at most one commit, and it takes a bounded
number of steps in phases that are not terminal. -/
theorem outputs_bounded (unicodeEscaped : Char → Bool) (config : WorkflowConfig)
    (prompt : String) (inputs : List PipelineInput) :
    (outputs unicodeEscaped (new config prompt) inputs).countP
        PipelineOutput.isSpawnImplementer ≤ config.iterations ∧
    (outputs unicodeEscaped (new config prompt) inputs).countP
        PipelineOutput.isSpawnAutoFixer ≤
      config.iterations * config.maxAutofixAttempts.toNat ∧
    (outputs unicodeEscaped (new config prompt) inputs).countP
        PipelineOutput.isCommit ≤ 1 ∧
    (steps (next unicodeEscaped) (new config prompt) inputs).countP
        (fun taken => !taken.1.phase.isTerminal) ≤ config.stepBound := by
  unfold outputs
  simp only [List.countP_map, Function.comp_def]
  refine ⟨?_, ?_, ?_, ?_⟩
  · exact countP_le_budget implementBudget
      (fun state input => implementBudget_move (move_next state input)) _ inputs
  · exact countP_le_budget autofixBudget
      (fun state input => autofixBudget_move (move_next state input)) _ inputs
  · exact countP_le_budget commitBudget
      (fun state input => commitBudget_move (move_next state input)) _ inputs
  · exact countP_le_budget stepBudget
      (fun state input => stepBudget_move (move_next state input)) _ inputs

end PipelineState

/-!
# What a commit needs

With a review phase, the pipeline commits only out of a review that directly
follows passed gates.  A review that asks for another iteration also commits
when there is no iteration left.
-/

/-- An agent changes the work tree. -/
def PipelineOutput.SpawnsWorker : PipelineOutput → Prop
  | .spawnImplementer .. | .spawnAutoFixer _ => True
  | _ => False

namespace PipelineState

open GuardedRun

variable {unicodeEscaped : Char → Bool}

/-- The input of a review that lets the pipeline commit: an approval, or a
review of any other outcome when no iteration is left. -/
def AcceptsReview (state : PipelineState) (input : PipelineInput) : Prop :=
  (∃ summary, input = .reviewApproved summary) ∨
    (RequestsRevision input ∧ state.config.maxIterations ≤ state.iteration)

theorem accepted_of_commit {state following : PipelineState}
    {input : PipelineInput} (move : Move state input following .commit)
    (reviewed : state.config.hasReview = true) :
    state.phase = .reviewing ∧ state.AcceptsReview input := by
  cases move with
  | commitUnreviewed phase unreviewed =>
      rw [reviewed] at unreviewed
      cases unreviewed
  | commitReviewed phase accepted => exact ⟨phase, accepted⟩

/-- Only passed gates lead into a review. -/
theorem passed_of_reviewing {state following : PipelineState}
    {input : PipelineInput} {action : PipelineOutput}
    (move : Move state input following action)
    (phase : following.phase = .reviewing) :
    state.phase = .gating ∧ input = .gatesPassed ∧ ¬ action.SpawnsWorker := by
  cases move with
  | review gating passed => exact ⟨gating, passed, id⟩
  | _ => cases phase

/-- The commit follows passed gates and the given kind of review, and since then
no agent has changed the work tree. -/
def CommitsAfter (unicodeEscaped : Char → Bool)
    (review : PipelineState → PipelineInput → Prop)
    (taken : List (PipelineState × PipelineInput)) : Prop :=
  ∃ before gates between verdict after,
    taken = before ++ gates :: between ++ verdict :: after ∧
    gates.1.phase = .gating ∧ gates.2 = .gatesPassed ∧
    verdict.1.phase = .reviewing ∧ review verdict.1 verdict.2 ∧
    ∀ worked ∈ gates :: between ++ verdict :: after,
      ¬ (output unicodeEscaped worked.1 worked.2).SpawnsWorker

theorem steps_dropLast_of_reviewing (config : WorkflowConfig) (prompt : String)
    (earlier : List PipelineInput)
    (phase : (earlier.foldl (next unicodeEscaped) (new config prompt)).phase =
      .reviewing) :
    ∃ before gates, steps (next unicodeEscaped) (new config prompt) earlier =
        before ++ [gates] ∧
      gates.1.phase = .gating ∧ gates.2 = .gatesPassed ∧
      ¬ (output unicodeEscaped gates.1 gates.2).SpawnsWorker := by
  induction earlier using List.reverseRecOn with
  | nil => cases phase
  | append_singleton earlier input _ =>
      rw [List.foldl_append] at phase
      obtain ⟨gating, passed, idle⟩ := passed_of_reviewing (move_next _ input) phase
      rw [steps_append]
      exact ⟨_, _, rfl, gating, passed, idle⟩

/-- With a review phase, a commit answers a review that approved, or asked for a
revision when no iteration was left, and that review follows passed gates. -/
theorem commit_follows_review (unicodeEscaped : Char → Bool)
    (config : WorkflowConfig) (prompt : String) (inputs : List PipelineInput)
    (input : PipelineInput) (reviewed : config.hasReview = true)
    (committed : output unicodeEscaped
      (inputs.foldl (next unicodeEscaped) (new config prompt)) input = .commit) :
    (inputs.foldl (next unicodeEscaped) (new config prompt)).AcceptsReview input ∧
    CommitsAfter unicodeEscaped AcceptsReview
      (steps (next unicodeEscaped) (new config prompt) (inputs ++ [input])) := by
  set state := inputs.foldl (next unicodeEscaped) (new config prompt) with reached
  have same : state.config = config := foldl_next_config _ inputs
  have move : Move state input (next unicodeEscaped state input)
      (output unicodeEscaped state input) := move_next state input
  rw [committed] at move
  obtain ⟨reviewing, accepted⟩ := accepted_of_commit move (by rw [same, reviewed])
  obtain ⟨before, gates, earlier, gating, passed, idle⟩ :=
    steps_dropLast_of_reviewing config prompt inputs reviewing
  refine ⟨accepted, before, gates, [], (state, input), [], ?_, gating, passed,
    reviewing, accepted, ?_⟩
  · rw [steps_append, earlier]
    simp [steps, reached]
  · intro worked member
    simp only [List.cons_append, List.nil_append, List.mem_cons,
      List.not_mem_nil, or_false] at member
    rcases member with rfl | rfl
    · exact idle
    · rw [committed]
      exact id

/-- The standard workflow, up to the approval of its first review. -/
def approvedRun : List PipelineInput :=
  [.start, .agentCompleted "" 1, .gatesPassed]

theorem commit_follows_review_standard :
    CommitsAfter (fun _ => false) AcceptsReview
      (steps (next fun _ => false) (new .standard "")
        (approvedRun ++ [.reviewApproved ""])) :=
  (commit_follows_review (fun _ => false) .standard "" approvedRun
    (.reviewApproved "") (by decide +kernel) (by decide +kernel)).2

/-- A rejection is committed when no iteration is left. -/
theorem commit_of_rejected_review :
    WorkflowConfig.hasReview ⟨false, true, 1, 1⟩ = true ∧
    output (fun _ => false)
      (approvedRun.foldl (next fun _ => false) (new ⟨false, true, 1, 1⟩ ""))
      (.reviewRejected "") = .commit ∧
    ¬ CommitsAfter (fun _ => false)
      (fun _ input => ∃ summary, input = .reviewApproved summary)
      (steps (next fun _ => false) (new ⟨false, true, 1, 1⟩ "")
        (approvedRun ++ [.reviewRejected ""])) := by
  refine ⟨rfl, by decide +kernel, ?_⟩
  rintro ⟨before, gates, between, verdict, after, taken, -, -, -, ⟨summary, approved⟩, -⟩
  have member : verdict.2 ∈ approvedRun ++ [.reviewRejected ""] := by
    rw [← map_snd_steps (next fun _ => false) (new ⟨false, true, 1, 1⟩ "")
      (approvedRun ++ _), taken]
    simp
  rw [approved] at member
  simp [approvedRun] at member

end PipelineState

/-!
The terminal phases are meant to accept no further transition.  The arms for
cancellation, for exhausted resources and for any other input apply in them too,
so only an input that writes the same phase again leaves the phase as it is.
-/

theorem one_le_length_escapeDebug (unicodeEscaped : Char → Bool)
    (character : Char) : 1 ≤ (escapeDebug unicodeEscaped character).length := by
  unfold escapeDebug
  repeat' split
  all_goals simp

theorem length_le_length_append (before text after : String) :
    text.length ≤ (before ++ text ++ after).length := by
  simp only [String.length_append]
  omega

/-- No character is dropped by quoting. -/
theorem length_lt_debugText (unicodeEscaped : Char → Bool) (text : String) :
    text.length < (debugText unicodeEscaped text).length := by
  have kept : text.toList.length ≤
      (text.toList.flatMap (escapeDebug unicodeEscaped)).length := by
    rw [List.length_flatMap]
    have each := List.length_le_sum_of_one_le
      (text.toList.map fun character => (escapeDebug unicodeEscaped character).length)
      (by simpa using fun character _ =>
        one_le_length_escapeDebug unicodeEscaped character)
    simpa using each
  rw [String.length_toList] at kept
  simp only [debugText, String.length_ofList, List.length_append,
    List.length_cons, List.length_nil]
  omega

namespace PipelineState

open GuardedRun

variable {unicodeEscaped : Char → Bool}

/-- The reason of an invalid transition quotes the reason of the halt before. -/
theorem invalidTransition_halted_ne (reason : String) (input : PipelineInput) :
    invalidTransition unicodeEscaped (.halted reason) input ≠ reason := by
  unfold invalidTransition Phase.debugText
  generalize s!"Invalid transition: Discriminant({input.discriminant}) in phase " =
    opening
  intro same
  have quoted := length_lt_debugText unicodeEscaped reason
  have inside := length_le_length_append "Halted \x7b reason: "
    (debugText unicodeEscaped reason) " \x7d"
  have whole := congrArg String.length same
  rw [String.length_append] at whole
  exact absurd (quoted.trans_le inside)
    (Nat.not_lt.mpr (Nat.le.intro ((Nat.add_comm _ _).trans whole)))

/-- The input writes the terminal phase that is already there.  Nothing writes
`complete` again. -/
def Repeats : Phase → PipelineInput → Prop
  | .cancelled, .userCancel => True
  | .halted reason, .resourceExhausted again => again = reason
  | _, _ => False

theorem next_phase_of_terminal (state : PipelineState) (input : PipelineInput)
    (terminal : state.phase.isTerminal = true) :
    (next unicodeEscaped state input).phase =
      match input with
      | .userCancel => .cancelled
      | .resourceExhausted reason => .halted reason
      | _ => .halted (invalidTransition unicodeEscaped state.phase input) := by
  unfold next step
  cases phase : state.phase with
  | complete | halted _ | cancelled => cases input <;> simp [halt]
  | _ => simp [phase, Phase.isTerminal] at terminal

theorem next_phase_eq_iff_repeats (state : PipelineState) (input : PipelineInput)
    (terminal : state.phase.isTerminal = true) :
    (next unicodeEscaped state input).phase = state.phase ↔
      Repeats state.phase input := by
  rw [next_phase_of_terminal state input terminal]
  cases phase : state.phase with
  | complete | halted _ | cancelled =>
      cases input <;> simp [Repeats, invalidTransition_halted_ne]
  | _ => simp [phase, Phase.isTerminal] at terminal

/-- Every input read in a terminal phase writes that phase again. -/
def SettledRun (unicodeEscaped : Char → Bool) (start : PipelineState)
    (inputs : List PipelineInput) : Prop :=
  Guarded (next unicodeEscaped)
    (fun state input => state.phase.isTerminal = true → Repeats state.phase input)
    start inputs

/-- From a terminal phase on the phase stays the same, and nothing but success
is reported after completion. -/
def TerminalIsFinal (unicodeEscaped : Char → Bool) (start : PipelineState)
    (inputs : List PipelineInput) : Prop :=
  ∀ earlier later rest, inputs = earlier ++ later ++ rest →
    let reached := earlier.foldl (next unicodeEscaped) start
    (reached.phase.isTerminal = true →
      (later.foldl (next unicodeEscaped) reached).phase = reached.phase) ∧
    (reached.phase = .complete → ∀ action ∈ outputs unicodeEscaped reached later,
      action ≠ .done .cancelled ∧ ∀ reason, action ≠ .halt reason)

theorem settledRun_of_append {start : PipelineState}
    {earlier later rest : List PipelineInput}
    (settled : SettledRun unicodeEscaped start (earlier ++ later ++ rest)) :
    SettledRun unicodeEscaped (earlier.foldl (next unicodeEscaped) start) later := by
  intro taken member
  apply settled
  rw [steps_append, steps_append]
  exact List.mem_append_left _ (List.mem_append_right _ member)

theorem phase_foldl_of_settledRun {state : PipelineState}
    {inputs : List PipelineInput} (terminal : state.phase.isTerminal = true)
    (settled : SettledRun unicodeEscaped state inputs) :
    (inputs.foldl (next unicodeEscaped) state).phase = state.phase := by
  induction inputs generalizing state with
  | nil => rfl
  | cons input inputs ih =>
      obtain ⟨repeats, later⟩ := (guarded_cons _ _ _).mp settled
      have kept : (next unicodeEscaped state input).phase = state.phase :=
        (next_phase_eq_iff_repeats state input terminal).mpr (repeats terminal)
      rw [List.foldl_cons, ih (by rwa [kept]) later, kept]

/-- A completed run that is settled reads no further input. -/
theorem eq_nil_of_settledRun {state : PipelineState} {inputs : List PipelineInput}
    (complete : state.phase = .complete)
    (settled : SettledRun unicodeEscaped state inputs) : inputs = [] := by
  cases inputs with
  | nil => rfl
  | cons input inputs =>
      have repeats := ((guarded_cons _ _ _).mp settled).1 (by rw [complete]; rfl)
      rw [complete] at repeats
      exact repeats.elim

/-- A terminal phase is final in exactly the settled runs. -/
theorem terminalIsFinal_iff (unicodeEscaped : Char → Bool)
    (config : WorkflowConfig) (prompt : String) (inputs : List PipelineInput) :
    TerminalIsFinal unicodeEscaped (new config prompt) inputs ↔
      SettledRun unicodeEscaped (new config prompt) inputs := by
  constructor
  · rintro final ⟨state, input⟩ member terminal
    obtain ⟨earlier, rest, split, reached⟩ := mem_steps_iff.mp member
    dsimp only at split reached terminal
    subst reached
    have kept := (final earlier [input] rest (by simpa using split)).1 terminal
    exact (next_phase_eq_iff_repeats _ input terminal).mp kept
  · intro settled earlier later rest split
    rw [split] at settled
    have after := settledRun_of_append settled
    refine ⟨fun terminal => phase_foldl_of_settledRun terminal after, ?_⟩
    intro complete action member
    rw [eq_nil_of_settledRun complete after] at member
    cases member

/-- A run of the express workflow up to its commit. -/
def completedRun : List PipelineInput :=
  [.start, .agentCompleted "" 1, .gatesPassed, .commitDone ""]

/-- A cancellation that arrives after completion is carried out. -/
theorem not_terminalIsFinal_of_late_cancel :
    ¬ TerminalIsFinal (fun _ => false) (new .express "")
      (completedRun ++ [.userCancel]) := by
  intro final
  have kept := (final completedRun [.userCancel] [] rfl).1 (by decide +kernel)
  revert kept
  decide +kernel

end PipelineState

end Roko
