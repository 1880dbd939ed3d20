import Mathlib.Data.List.Induction

/-!
# Runs of a step function under a guard

A run applies a list of operations to a start state.  A guard is a condition on
one operation and the state it is applied to.  The two rules below turn a fact
about a single step into a fact about every state of every guarded run; the
second one also recovers the guard from the invariant.
-/

namespace GuardedRun

variable {State Op : Type*}

/-- Each operation of a run, paired with the state it is applied to. -/
def steps (step : State → Op → State) : State → List Op → List (State × Op)
  | _, [] => []
  | state, op :: ops => (state, op) :: steps step (step state op) ops

/-- Every state of a run, the start state included. -/
def states (step : State → Op → State) (start : State) (ops : List Op) :
    List State :=
  start :: (steps step start ops).map fun pair => step pair.1 pair.2

/-- Every operation of a run meets the guard in the state it is applied to. -/
def Guarded (step : State → Op → State) (guard : State → Op → Prop)
    (start : State) (ops : List Op) : Prop :=
  ∀ pair ∈ steps step start ops, guard pair.1 pair.2

variable {step : State → Op → State} {guard : State → Op → Prop}

@[simp]
theorem states_nil (start : State) : states step start [] = [start] :=
  rfl

theorem states_cons (start : State) (op : Op) (ops : List Op) :
    states step start (op :: ops) =
      start :: states step (step start op) ops :=
  rfl

@[simp]
theorem guarded_nil (start : State) : Guarded step guard start [] := by
  simp [Guarded, steps]

theorem guarded_cons (start : State) (op : Op) (ops : List Op) :
    Guarded step guard start (op :: ops) ↔
      guard start op ∧ Guarded step guard (step start op) ops := by
  simp [Guarded, steps]

theorem start_mem_states (start : State) (ops : List Op) :
    start ∈ states step start ops := by
  simp [states]

/-- The state an operation of the run is applied to is a state of the run, and
so is the state it leads to. -/
theorem mem_states_of_mem_steps {start : State} {ops : List Op}
    {pair : State × Op} (member : pair ∈ steps step start ops) :
    pair.1 ∈ states step start ops ∧
      step pair.1 pair.2 ∈ states step start ops := by
  induction ops generalizing start with
  | nil => simp [steps] at member
  | cons op ops ih =>
      rw [states_cons]
      rcases List.mem_cons.mp member with rfl | later
      · exact ⟨List.mem_cons_self, List.mem_cons_of_mem _ (start_mem_states _ _)⟩
      · exact ⟨List.mem_cons_of_mem _ (ih later).1,
          List.mem_cons_of_mem _ (ih later).2⟩

theorem foldl_mem_states (start : State) (ops : List Op) :
    ops.foldl step start ∈ states step start ops := by
  induction ops generalizing start with
  | nil => simp
  | cons op ops ih =>
      rw [states_cons, List.foldl_cons]
      exact List.mem_cons_of_mem _ (ih (step start op))

/-- The states of a run are those that its first operations lead to. -/
theorem mem_states_iff {start state : State} {ops : List Op} :
    state ∈ states step start ops ↔
      ∃ earlier, earlier <+: ops ∧ state = earlier.foldl step start := by
  induction ops generalizing start with
  | nil => simp
  | cons op ops ih =>
      rw [states_cons, List.mem_cons, ih]
      constructor
      · rintro (rfl | ⟨earlier, isPrefix, rfl⟩)
        · exact ⟨[], List.nil_prefix, rfl⟩
        · exact ⟨op :: earlier, List.cons_prefix_cons.mpr ⟨rfl, isPrefix⟩, rfl⟩
      · rintro ⟨earlier, isPrefix, rfl⟩
        cases earlier with
        | nil => exact Or.inl rfl
        | cons first earlier =>
            obtain ⟨rfl, rest⟩ := List.cons_prefix_cons.mp isPrefix
            exact Or.inr ⟨earlier, rest, rfl⟩

/-- A property that every guarded step preserves holds in every state of a
guarded run. -/
theorem invariant_of_guarded (step : State → Op → State)
    (guard : State → Op → Prop) (invariant : State → Prop)
    (preserved : ∀ state op, invariant state → guard state op →
      invariant (step state op))
    {start : State} {ops : List Op} (initial : invariant start)
    (guarded : Guarded step guard start ops) :
    ∀ state ∈ states step start ops, invariant state := by
  induction ops generalizing start with
  | nil => simpa using initial
  | cons op ops ih =>
      rw [guarded_cons] at guarded
      rw [states_cons]
      intro state member
      rcases List.mem_cons.mp member with rfl | later
      · exact initial
      · exact ih (preserved start op initial guarded.1) guarded.2 state later

/-- A property that every step preserves holds in every state of a run. -/
theorem invariant_of_preserved (step : State → Op → State) (invariant : State → Prop)
    (preserved : ∀ state op, invariant state → invariant (step state op))
    {start : State} (ops : List Op) (initial : invariant start) :
    ∀ state ∈ states step start ops, invariant state :=
  invariant_of_guarded step (fun _ _ => True) invariant
    (fun state op holds _ => preserved state op holds) initial (fun _ _ => trivial)

/-- When the guard says exactly which steps preserve the invariant, the guarded
runs are exactly the runs along which the invariant holds. -/
theorem guarded_iff_invariant (step : State → Op → State)
    (guard : State → Op → Prop) (invariant : State → Prop)
    (exact : ∀ state op, invariant state →
      (guard state op ↔ invariant (step state op)))
    {start : State} {ops : List Op} (initial : invariant start) :
    Guarded step guard start ops ↔
      ∀ state ∈ states step start ops, invariant state := by
  induction ops generalizing start with
  | nil => simpa using initial
  | cons op ops ih =>
      rw [guarded_cons, states_cons, List.forall_mem_cons]
      constructor
      · rintro ⟨stepGuarded, restGuarded⟩
        have next := (exact start op initial).mp stepGuarded
        exact ⟨initial, (ih next).mp restGuarded⟩
      · rintro ⟨-, later⟩
        have next := later _ (start_mem_states _ _)
        exact ⟨(exact start op initial).mpr next, (ih next).mpr later⟩

/-- When the guard says exactly which steps lead to an invariant state and keep a
promise, the guarded runs are those along which the invariant holds and every step keeps
its promise.  The steps may be judged in states with an inner property that every
guarded step preserves. -/
theorem guarded_iff_kept (step : State → Op → State) (guard kept : State → Op → Prop)
    (inner invariant : State → Prop)
    (exact : ∀ state op, inner state →
      (guard state op ↔ invariant (step state op) ∧ kept state op))
    (next : ∀ state op, inner state → guard state op → inner (step state op))
    {start : State} {ops : List Op} (initialInner : inner start)
    (initial : invariant start) :
    Guarded step guard start ops ↔
      (∀ state ∈ states step start ops, invariant state) ∧
        Guarded step kept start ops := by
  induction ops generalizing start with
  | nil => simpa using initial
  | cons op ops ih =>
      rw [guarded_cons, guarded_cons, states_cons, List.forall_mem_cons]
      have exactHere := exact start op initialInner
      constructor
      · rintro ⟨safe, rest⟩
        obtain ⟨after, stepKept⟩ := exactHere.mp safe
        have later := (ih (next start op initialInner safe) after).mp rest
        exact ⟨⟨initial, later.1⟩, stepKept, later.2⟩
      · rintro ⟨⟨-, later⟩, stepKept, restKept⟩
        have after := later _ (start_mem_states _ _)
        have safe := exactHere.mpr ⟨after, stepKept⟩
        exact ⟨safe, (ih (next start op initialInner safe) after).mpr ⟨later, restKept⟩⟩

/-- An operation of a run is applied to the state that the operations before it
lead to. -/
theorem mem_steps_iff {start : State} {ops : List Op}
    {pair : State × Op} : pair ∈ steps step start ops ↔
      ∃ earlier later, ops = earlier ++ pair.2 :: later ∧
        pair.1 = earlier.foldl step start := by
  induction ops generalizing start with
  | nil => simp [steps]
  | cons op ops ih =>
      simp only [steps, List.mem_cons, ih]
      constructor
      · rintro (rfl | ⟨earlier, later, rfl, same⟩)
        · exact ⟨[], ops, rfl, rfl⟩
        · exact ⟨op :: earlier, later, rfl, same⟩
      · rintro ⟨earlier, later, split, same⟩
        cases earlier with
        | nil =>
            obtain ⟨rfl, rfl⟩ := List.cons_eq_cons.mp split
            left
            exact Prod.ext same rfl
        | cons first earlier =>
            obtain ⟨rfl, rfl⟩ := List.cons_eq_cons.mp split
            exact Or.inr ⟨earlier, later, rfl, same⟩

theorem map_snd_steps (step : State → Op → State) (start : State) (ops : List Op) :
    (steps step start ops).map Prod.snd = ops := by
  induction ops generalizing start with
  | nil => rfl
  | cons op ops ih => simp [steps, ih]

theorem mem_of_mem_steps {start : State} {ops : List Op} {pair : State × Op}
    (member : pair ∈ steps step start ops) : pair.2 ∈ ops := by
  have mapped := List.mem_map_of_mem (f := Prod.snd) member
  rwa [map_snd_steps] at mapped

/-- A guard may be told that the operation is one of the run. -/
theorem guarded_and_mem (start : State) (ops : List Op) :
    Guarded step (fun state op => guard state op ∧ op ∈ ops) start ops ↔
      Guarded step guard start ops :=
  ⟨fun guarded pair member => (guarded pair member).1,
    fun guarded pair member => ⟨guarded pair member, mem_of_mem_steps member⟩⟩

theorem steps_append (start : State) (first second : List Op) :
    steps step start (first ++ second) =
      steps step start first ++ steps step (first.foldl step start) second := by
  induction first generalizing start with
  | nil => rfl
  | cons op first ih => simp [steps, ih]

theorem guarded_append (start : State) (first second : List Op) :
    Guarded step guard start (first ++ second) ↔
      Guarded step guard start first ∧
        Guarded step guard (first.foldl step start) second := by
  unfold Guarded
  rw [steps_append]
  exact List.forall_mem_append

theorem states_concat (start : State) (ops : List Op) (op : Op) :
    states step start (ops ++ [op]) =
      states step start ops ++ [step (ops.foldl step start) op] := by
  simp [states, steps_append, steps]

/-- What is read at the end of a run has been there from the start, or since the last
step that changed it. -/
theorem last_change {Value : Type*} (step : State → Op → State) (read : State → Value)
    (start : State) (ops : List Op) :
    (∀ state ∈ states step start ops, read state = read (ops.foldl step start)) ∨
      ∃ first op middle, ops = first ++ op :: middle ∧
        read (first.foldl step start) ≠ read (ops.foldl step start) ∧
        ∀ state ∈ states step (step (first.foldl step start) op) middle,
          read state = read (ops.foldl step start) := by
  induction ops using List.reverseRecOn with
  | nil => exact Or.inl (by simp)
  | append_singleton ops op ih =>
      rw [List.foldl_append, List.foldl_cons, List.foldl_nil]
      by_cases changed :
          read (ops.foldl step start) = read (step (ops.foldl step start) op)
      · rw [changed] at ih
        rcases ih with always | ⟨first, last, middle, rfl, before, since⟩
        · left
          intro state member
          rw [states_concat, List.mem_append, List.mem_singleton] at member
          rcases member with earlier | rfl
          · exact always state earlier
          · rfl
        · right
          refine ⟨first, last, middle ++ [op], by simp, before, ?_⟩
          intro state member
          rw [states_concat, List.mem_append, List.mem_singleton] at member
          rcases member with earlier | rfl
          · exact since state earlier
          · rw [List.foldl_append, List.foldl_cons]
      · right
        refine ⟨ops, op, [], rfl, changed, ?_⟩
        intro state member
        rw [states_nil, List.mem_singleton] at member
        rw [member]

/-- A run is cut at one of its steps: what comes before is the run of the
operations before, and leads to the state the step is applied to. -/
theorem steps_eq_append {start state : State} {op : Op} {ops : List Op}
    {earlier later : List (State × Op)}
    (cut : steps step start ops = earlier ++ (state, op) :: later) :
    earlier = steps step start (earlier.map Prod.snd) ∧
      state = (earlier.map Prod.snd).foldl step start := by
  induction earlier generalizing start ops with
  | nil =>
      cases ops with
      | nil => cases cut
      | cons head ops =>
          simp only [steps, List.nil_append, List.cons.injEq, Prod.mk.injEq] at cut
          exact ⟨rfl, cut.1.1.symm⟩
  | cons taken earlier ih =>
      cases ops with
      | nil => cases cut
      | cons head ops =>
          simp only [steps, List.cons_append, List.cons.injEq] at cut
          obtain ⟨rfl, rest⟩ := cut
          obtain ⟨same, reached⟩ := ih rest
          exact ⟨congrArg _ same, reached⟩

/-- What comes after the cut is the run of the operations after, from the state that
the step leads to. -/
theorem steps_after_cut {start state : State} {op : Op} {ops : List Op}
    {earlier later : List (State × Op)}
    (cut : steps step start ops = earlier ++ (state, op) :: later) :
    later = steps step (step state op) (later.map Prod.snd) := by
  obtain ⟨same, reached⟩ := steps_eq_append cut
  have ops_eq : ops = earlier.map Prod.snd ++ op :: later.map Prod.snd := by
    rw [← map_snd_steps step start ops, cut, List.map_append, List.map_cons]
  rw [ops_eq, steps_append, ← same, ← reached, List.append_cancel_left_eq] at cut
  exact (List.cons.inj cut).2.symm

/-- Where each counted step lowers a budget, a run has no more counted steps
than the budget it starts with. -/
theorem countP_le_budget {counted : State → Op → Bool} (budget : State → Nat)
    (pays : ∀ state op,
      (counted state op).toNat + budget (step state op) ≤ budget state)
    (start : State) (ops : List Op) :
    (steps step start ops).countP (fun taken => counted taken.1 taken.2) ≤
      budget start := by
  induction ops generalizing start with
  | nil => simp [steps]
  | cons op ops ih =>
      have paid := pays start op
      have later := ih (step start op)
      rw [steps, List.countP_cons]
      cases count : counted start op <;> simp [count] at paid ⊢ <;> omega

end GuardedRun
