import Mathlib.Algebra.Group.Int.Defs
import Mathlib.Algebra.GroupWithZero.Nat
import Mathlib.Data.List.Destutter
import Mathlib.Data.List.Sort
import Roko.RingBuffers

/-!
# The loop guard

The model of `roko-orchestrator/src/safety/loop_guard.rs`: a window of the last
fingerprints, and a verdict on what it holds.  Actions come with their fingerprints.  The
verdict is compared with the one that the whole history since the last reset asks for.
-/

namespace Roko

structure LoopGuardConfig where
  maxIterations : UInt32
  windowSize : Nat
  progressBudgetMs : UInt64
  deriving DecidableEq, Repr

/-- The verdicts; `proceed` is `Continue`. -/
inductive LoopVerdict
  | proceed
  | stall
  | repeatLoop
  | maxIters
  deriving DecidableEq, Repr

/-- A fingerprint and the milliseconds of its time. -/
abbrev GuardedAction := UInt64 × Int64

/-- `Inner`. -/
structure LoopGuard where
  config : LoopGuardConfig
  window : List GuardedAction
  total : Nat
  deriving DecidableEq, Repr

/-- `config.window_size.max(2)`. -/
def LoopGuardConfig.cap (config : LoopGuardConfig) : Nat :=
  max config.windowSize 2

namespace LoopGuard

def new (config : LoopGuardConfig) : LoopGuard :=
  ⟨config, [], 0⟩

/-- The total is a `u32`, which saturates. -/
def push (guard : LoopGuard) (action : GuardedAction) : LoopGuard :=
  let window := if guard.window.length = guard.config.cap then guard.window.tail
    else guard.window
  { guard with window := window ++ [action], total := min (guard.total + 1) (2 ^ 32 - 1) }

/-- `newest_ts.saturating_sub(oldest_ts)`. -/
def spanMs (oldest newest : Int64) : Int :=
  max (-2 ^ 63) (min (2 ^ 63 - 1) (newest.toInt - oldest.toInt))

/-- The number of different fingerprints, counted after `sort_unstable` and `dedup`. -/
def uniqueFps (window : List GuardedAction) : Nat :=
  (((window.map Prod.fst).mergeSort (· ≤ ·)).destutter (· ≠ ·)).length

def repeats (window : List GuardedAction) : Bool :=
  match window.head? with
  | some first => window.all fun action => action.1 = first.1
  | none => false

def stalls (config : LoopGuardConfig) (window : List GuardedAction) : Bool :=
  match window.head?, window.getLast? with
  | some oldest, some newest =>
      let span := spanMs oldest.2 newest.2
      0 ≤ span && (uniqueFps window < config.cap && config.progressBudgetMs.toNat ≤ span.toNat)
  | _, _ => false

def evaluate (guard : LoopGuard) : LoopVerdict :=
  if guard.config.maxIterations.toNat < guard.total then .maxIters
  else if guard.config.cap ≤ guard.window.length then
    if repeats guard.window then .repeatLoop
    else if stalls guard.config guard.window then .stall
    else .proceed
  else .proceed

def reset (guard : LoopGuard) : LoopGuard :=
  { guard with window := [], total := 0 }

end LoopGuard

/-- A call that changes a guard. -/
inductive GuardStep
  | record (action : GuardedAction)
  | reset
  deriving DecidableEq, Repr

def LoopGuard.step (guard : LoopGuard) : GuardStep → LoopGuard
  | .record action => guard.push action
  | .reset => guard.reset

/-- What was recorded since the last reset. -/
def sinceReset (steps : List GuardStep) : List GuardedAction :=
  steps.foldl (fun history step => match step with
    | .record action => history ++ [action]
    | .reset => []) []

namespace LoopGuard

/-- The newest fingerprint differs from all others in the window. -/
def NewestIsNew (config : LoopGuardConfig) (history : List GuardedAction) : Prop :=
  ∃ newest, history.getLast? = some newest ∧
    ∀ other ∈ (history.rtake config.cap).dropLast, other.1 ≠ newest.1

/-- The last actions fill the window, and are all equal. -/
def AllRepeated (config : LoopGuardConfig) (history : List GuardedAction) : Prop :=
  config.cap ≤ history.length ∧
    ∃ fingerprint, ∀ action ∈ history.rtake config.cap, action.1 = fingerprint

/-- The verdict is the one that a history asks for. -/
structure RightVerdict (config : LoopGuardConfig) (history : List GuardedAction)
    (verdict : LoopVerdict) : Prop where
  maxIters : verdict = .maxIters ↔ config.maxIterations.toNat < history.length
  repeatLoop : verdict = .repeatLoop ↔
    history.length ≤ config.maxIterations.toNat ∧ AllRepeated config history
  stall : NewestIsNew config history → verdict ≠ .stall

/-- The actions can be counted, and a fingerprint that is new in the window comes too late
or too early for a stall, or to a window without repetitions before it. -/
structure Unstalled (config : LoopGuardConfig) (history : List GuardedAction) : Prop where
  counted : history.length ≤ config.maxIterations.toNat ∨
    config.maxIterations.toNat < 2 ^ 32 - 1
  moving : NewestIsNew config history →
    config.maxIterations.toNat < history.length ∨ history.length < config.cap ∨
    ((history.rtake config.cap).dropLast.map Prod.fst).Nodup ∨
    ∀ oldest newest, (history.rtake config.cap).head? = some oldest →
      history.getLast? = some newest →
      spanMs oldest.2 newest.2 < config.progressBudgetMs.toNat

theorem two_le_cap (config : LoopGuardConfig) : 2 ≤ config.cap :=
  Nat.le_max_right _ _

/-- The guard whose history is this. -/
def ofHistory (config : LoopGuardConfig) (history : List GuardedAction) : LoopGuard :=
  ⟨config, history.rtake config.cap, min history.length (2 ^ 32 - 1)⟩

theorem push_ofHistory (config : LoopGuardConfig) (history : List GuardedAction)
    (action : GuardedAction) :
    (ofHistory config history).push action = ofHistory config (history ++ [action]) := by
  have positive : 0 < config.cap := Nat.lt_of_lt_of_le Nat.zero_lt_two (two_le_cap config)
  have full : config.cap ≤ (history.rtake config.cap).length ↔
      (history.rtake config.cap).length = config.cap := by
    rw [RingBuffers.length_rtake]
    omega
  have pushed := RingBuffers.push_rtake positive history action
  simp only [RingBuffers.push, full] at pushed
  have counted : min (min history.length (2 ^ 32 - 1) + 1) (2 ^ 32 - 1) =
      min (history ++ [action]).length (2 ^ 32 - 1) := by
    rw [List.length_append, List.length_singleton]
    omega
  exact congrArg₂ (LoopGuard.mk config) pushed counted

theorem foldl_step (config : LoopGuardConfig) (steps : List GuardStep) :
    steps.foldl step (new config) = ofHistory config (sinceReset steps) := by
  induction steps using List.reverseRecOn with
  | nil => simp [new, ofHistory, sinceReset]
  | append_singleton steps last ih =>
      have later : sinceReset (steps ++ [last]) = match last with
          | .record action => sinceReset steps ++ [action]
          | .reset => [] := by
        rw [sinceReset, List.foldl_append]
        rfl
      rw [List.foldl_append, List.foldl_cons, List.foldl_nil, ih, later]
      cases last with
      | record action => exact push_ofHistory config _ action
      | reset => simp [step, reset, ofHistory]

/-- Fewer fingerprints are counted than there are actions if one is repeated. -/
theorem uniqueFps_lt_iff (window : List GuardedAction) :
    uniqueFps window < window.length ↔ ¬ (window.map Prod.fst).Nodup := by
  have sorted := List.pairwise_mergeSort' (fun first second : UInt64 => first ≤ second)
    (window.map Prod.fst)
  have perm := List.mergeSort_perm (window.map Prod.fst) (· ≤ ·)
  have length_eq := perm.length_eq
  rw [List.length_map] at length_eq
  rw [uniqueFps, ← perm.nodup_iff, ← length_eq]
  generalize (window.map Prod.fst).mergeSort (· ≤ ·) = fingerprints at sorted
  have shorter := List.destutter_sublist (· ≠ ·) fingerprints
  have distinct : fingerprints.IsChain (· ≠ ·) ↔ fingerprints.Nodup := by
    constructor
    · intro chain
      have increasing : fingerprints.IsChain (· < ·) := by
        rw [List.isChain_iff_getElem] at chain ⊢
        intro index inside
        have ordered := List.pairwise_iff_getElem.mp sorted index (index + 1) (by omega) inside
          (Nat.lt_succ_self index)
        exact UInt64.lt_of_le_of_ne ordered (chain index inside)
      exact (List.isChain_iff_pairwise.mp increasing).imp fun below => UInt64.ne_of_lt below
    · exact List.Pairwise.isChain
  rw [← distinct, ← List.destutter_eq_self_iff]
  constructor
  · intro fewer same
    rw [same] at fewer
    exact lt_irrefl _ fewer
  · intro changed
    refine lt_of_le_of_ne shorter.length_le fun same => changed ?_
    exact shorter.eq_of_length same

theorem repeats_iff {window : List GuardedAction} (filled : window ≠ []) :
    repeats window = true ↔ ∃ fingerprint, ∀ action ∈ window, action.1 = fingerprint := by
  obtain ⟨first, rest, rfl⟩ := List.exists_cons_of_ne_nil filled
  simp only [repeats, List.head?_cons, List.all_eq_true, decide_eq_true_eq]
  constructor
  · intro same
    exact ⟨first.1, same⟩
  · rintro ⟨fingerprint, same⟩ action member
    rw [same action member, same first List.mem_cons_self]

theorem stalls_iff {config : LoopGuardConfig} {window : List GuardedAction}
    {oldest newest : GuardedAction} (head : window.head? = some oldest)
    (last : window.getLast? = some newest) (full : window.length = config.cap) :
    stalls config window = true ↔ ¬ (window.map Prod.fst).Nodup ∧
      (config.progressBudgetMs.toNat : Int) ≤ spanMs oldest.2 newest.2 := by
  rw [← uniqueFps_lt_iff, full]
  simp only [stalls, head, last, Bool.and_eq_true, decide_eq_true_eq]
  omega

variable {config : LoopGuardConfig} {history : List GuardedAction}

theorem evaluate_eq_maxIters_iff :
    (ofHistory config history).evaluate = .maxIters ↔
      config.maxIterations.toNat < min history.length (2 ^ 32 - 1) := by
  unfold evaluate
  split
  case isTrue many => simpa [ofHistory] using many
  case isFalse few =>
    refine iff_of_false ?_ few
    split <;> [split <;> [skip; split]; skip] <;> nofun

theorem length_window (full : config.cap ≤ history.length) :
    (history.rtake config.cap).length = config.cap := by
  rw [RingBuffers.length_rtake, Nat.min_eq_left full]

theorem window_ne_nil (full : config.cap ≤ history.length) : history.rtake config.cap ≠ [] := by
  have two := two_le_cap config
  have length_eq := length_window full
  exact List.ne_nil_of_length_pos (by omega)

/-- The verdict of a guard that has not counted too many actions. -/
theorem evaluate_of_few (few : history.length ≤ config.maxIterations.toNat) :
    (ofHistory config history).evaluate =
      if config.cap ≤ history.length then
        if repeats (history.rtake config.cap) then .repeatLoop
        else if stalls config (history.rtake config.cap) then .stall
        else .proceed
      else .proceed := by
  have uncounted : ¬ config.maxIterations.toNat < min history.length (2 ^ 32 - 1) := by omega
  have full : config.cap ≤ (history.rtake config.cap).length ↔ config.cap ≤ history.length := by
    rw [RingBuffers.length_rtake]
    omega
  change (if config.maxIterations.toNat < min history.length (2 ^ 32 - 1) then _ else _) = _
  rw [if_neg uncounted]
  exact if_congr full rfl rfl

theorem evaluate_eq_repeatLoop_iff (few : history.length ≤ config.maxIterations.toNat) :
    (ofHistory config history).evaluate = .repeatLoop ↔ AllRepeated config history := by
  rw [evaluate_of_few few, AllRepeated]
  split
  case isTrue full =>
    have same := repeats_iff (window_ne_nil full)
    split
    case isTrue repeated => exact iff_of_true rfl ⟨full, same.mp repeated⟩
    case isFalse different =>
      refine iff_of_false ?_ fun all => different (same.mpr all.2)
      split <;> nofun
  case isFalse short => simp [short]

theorem getLast?_window (full : config.cap ≤ history.length) :
    (history.rtake config.cap).getLast? = history.getLast? := by
  have two := two_le_cap config
  rw [List.rtake, List.getLast?_drop, if_neg (by omega)]

/-- A new fingerprint stands behind others. -/
theorem not_repeated_of_new (isNew : NewestIsNew config history)
    (full : config.cap ≤ history.length) :
    ¬ ∃ fingerprint, ∀ action ∈ history.rtake config.cap, action.1 = fingerprint := by
  rintro ⟨fingerprint, same⟩
  obtain ⟨newest, last, differs⟩ := isNew
  rw [← getLast?_window full] at last
  have two := two_le_cap config
  have others : (history.rtake config.cap).dropLast ≠ [] := by
    apply List.ne_nil_of_length_pos
    rw [List.length_dropLast, length_window full]
    omega
  obtain ⟨other, rest, split⟩ := List.exists_cons_of_ne_nil others
  have member : other ∈ (history.rtake config.cap).dropLast := by
    rw [split]
    exact List.mem_cons_self
  apply differs other member
  rw [same other (List.dropLast_subset _ member), same newest (List.mem_of_getLast? last)]

/-- With a new fingerprint in front, only the others can repeat each other. -/
theorem nodup_window_iff (isNew : NewestIsNew config history)
    (full : config.cap ≤ history.length) :
    ((history.rtake config.cap).map Prod.fst).Nodup ↔
      ((history.rtake config.cap).dropLast.map Prod.fst).Nodup := by
  obtain ⟨newest, last, differs⟩ := isNew
  rw [← getLast?_window full] at last
  have split := List.dropLast_append_getLast? newest last
  have apart : newest.1 ∉ (history.rtake config.cap).dropLast.map Prod.fst := by
    rw [List.mem_map]
    rintro ⟨other, member, same⟩
    exact differs other member same
  generalize (history.rtake config.cap).dropLast = others at split apart
  rw [← split, List.map_append, List.map_singleton, List.nodup_append']
  simpa using fun _ => apart

theorem evaluate_eq_stall_iff (few : history.length ≤ config.maxIterations.toNat)
    (isNew : NewestIsNew config history) (full : config.cap ≤ history.length)
    {oldest newest : GuardedAction} (head : (history.rtake config.cap).head? = some oldest)
    (last : history.getLast? = some newest) :
    (ofHistory config history).evaluate = .stall ↔
      ¬ ((history.rtake config.cap).dropLast.map Prod.fst).Nodup ∧
        (config.progressBudgetMs.toNat : Int) ≤ spanMs oldest.2 newest.2 := by
  have different : ¬ repeats (history.rtake config.cap) = true := by
    rw [repeats_iff (window_ne_nil full)]
    exact not_repeated_of_new isNew full
  rw [← getLast?_window full] at last
  rw [evaluate_of_few few, if_pos full, if_neg different, ← nodup_window_iff isNew full,
    ← stalls_iff head last (length_window full)]
  split
  case isTrue stalled => simp [stalled]
  case isFalse moving => simp [moving]

theorem counted_of_right
    (right : RightVerdict config history (ofHistory config history).evaluate) :
    history.length ≤ config.maxIterations.toNat ∨ config.maxIterations.toNat < 2 ^ 32 - 1 := by
  rcases Nat.lt_or_ge config.maxIterations.toNat history.length with many | few
  · have counted := evaluate_eq_maxIters_iff.mp (right.maxIters.mpr many)
    omega
  · exact Or.inl few

theorem moving_of_right
    (right : RightVerdict config history (ofHistory config history).evaluate)
    (isNew : NewestIsNew config history) :
    config.maxIterations.toNat < history.length ∨ history.length < config.cap ∨
      ((history.rtake config.cap).dropLast.map Prod.fst).Nodup ∨
      ∀ oldest newest, (history.rtake config.cap).head? = some oldest →
        history.getLast? = some newest →
        spanMs oldest.2 newest.2 < config.progressBudgetMs.toNat := by
  by_contra stalled
  push Not at stalled
  obtain ⟨few, full, repeated, oldest, newest, head, last, late⟩ := stalled
  exact right.stall isNew
    ((evaluate_eq_stall_iff few isNew full head last).mpr ⟨repeated, late⟩)

theorem maxIters_of_unstalled (unstalled : Unstalled config history) :
    (ofHistory config history).evaluate = .maxIters ↔
      config.maxIterations.toNat < history.length := by
  have counted := unstalled.counted
  rw [evaluate_eq_maxIters_iff]
  omega

theorem not_stall_of_unstalled (unstalled : Unstalled config history)
    (isNew : NewestIsNew config history) : (ofHistory config history).evaluate ≠ .stall := by
  intro stalled
  rcases Nat.lt_or_ge config.maxIterations.toNat history.length with many | few
  · rw [(maxIters_of_unstalled unstalled).mpr many] at stalled
    cases stalled
  rcases Nat.lt_or_ge history.length config.cap with short | full
  · rw [evaluate_of_few few, if_neg (Nat.not_le_of_lt short)] at stalled
    cases stalled
  obtain ⟨newest, last⟩ : ∃ newest, history.getLast? = some newest :=
    isNew.imp fun _ both => both.1
  obtain ⟨oldest, head⟩ : ∃ oldest, (history.rtake config.cap).head? = some oldest := by
    obtain ⟨oldest, rest, split⟩ := List.exists_cons_of_ne_nil (window_ne_nil full)
    exact ⟨oldest, by rw [split]; rfl⟩
  obtain ⟨repeated, late⟩ := (evaluate_eq_stall_iff few isNew full head last).mp stalled
  rcases unstalled.moving isNew with many | short | distinct | early
  · omega
  · omega
  · exact repeated distinct
  · have soon := early oldest newest head last
    omega

/-- The verdict is right after any calls if and only if the actions since the last reset
can be counted and do not stall at a fingerprint that is new. -/
theorem rightVerdict_iff (config : LoopGuardConfig) (steps : List GuardStep) :
    RightVerdict config (sinceReset steps) (steps.foldl step (new config)).evaluate ↔
      Unstalled config (sinceReset steps) := by
  rw [foldl_step]
  constructor
  · intro right
    exact ⟨counted_of_right right, moving_of_right right⟩
  · intro unstalled
    have maxIters := maxIters_of_unstalled unstalled
    refine ⟨maxIters, ?_, not_stall_of_unstalled unstalled⟩
    rcases Nat.lt_or_ge config.maxIterations.toNat (sinceReset steps).length with many | few
    · rw [maxIters.mpr many]
      refine iff_of_false nofun fun both => ?_
      omega
    · rw [evaluate_eq_repeatLoop_iff few]
      exact (and_iff_right few).symm

/-- A new action after two equal ones is taken for a stall. -/
theorem new_action_stalled :
    let steps := [.record (1, 0), .record (1, 300), .record (2, 700)]
    (steps.foldl step (new ⟨100, 3, 500⟩)).evaluate = .stall ∧
      ¬ RightVerdict ⟨100, 3, 500⟩ (sinceReset steps)
        (steps.foldl step (new ⟨100, 3, 500⟩)).evaluate := by
  intro steps
  have others : ((sinceReset steps).rtake (LoopGuardConfig.cap ⟨100, 3, 500⟩)).dropLast =
      [(1, 0), (1, 300)] := by decide
  have isNew : NewestIsNew ⟨100, 3, 500⟩ (sinceReset steps) := by
    refine ⟨(2, 700), rfl, fun other member => ?_⟩
    rw [others, List.mem_pair] at member
    rcases member with rfl | rfl <;> decide
  have stalled : (steps.foldl step (new ⟨100, 3, 500⟩)).evaluate = .stall := by
    rw [foldl_step]
    have stalls := evaluate_eq_stall_iff (by decide) isNew (by decide) rfl rfl
    exact stalls.mpr ⟨by decide, by decide⟩
  exact ⟨stalled, fun right => right.stall isNew stalled⟩

end LoopGuard

end Roko
