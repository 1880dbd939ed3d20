import Mathlib.Data.List.Basic

/-!
# Loops and computations that can fail

A successful sequence of fallible steps splits into its successful parts.  A
loop with early return keeps the state it has reached; when no step fails, it
is the plain loop of the state changes.  A fact that only ever becomes true is
true after a loop exactly when it was true before or some step made it true.
-/

namespace FallibleSteps

variable {Failure Value Result State Item : Type}

/-- A successful sequence has a successful first step. -/
theorem bind_ok {first : Except Failure Value}
    {rest : Value → Except Failure Result} {result : Result}
    (succeeded : (first >>= rest) = .ok result) :
    ∃ value, first = .ok value ∧ rest value = .ok result := by
  cases first with
  | error failure => cases succeeded
  | ok value => exact ⟨value, rfl, succeeded⟩

/-- What a result reads as determines that there is one. -/
theorem ok_of_map_toOption {result : Except Failure Value} {read : Value → Result}
    {expected : Result} (ran : result.toOption.map read = some expected) :
    ∃ value, result = .ok value ∧ read value = expected := by
  cases result with
  | error failure => cases ran
  | ok value => exact ⟨value, rfl, Option.some.inj ran⟩

/-- What is said of every entry that was found is said of the one that was found. -/
theorem forall_found_iff {entry : Option Value} {value : Value}
    (found : entry = some value) (holds : Value → Prop) :
    (∀ other, entry = some other → holds other) ↔ holds value := by
  subst found
  constructor
  · exact fun all => all value rfl
  · rintro here other same
    cases same
    exact here

theorem foldl_adds_iff {step : State → Item → State} (holds : State → Prop)
    (adds : Item → Prop) {items : List Item}
    (holds_step : ∀ state, ∀ item ∈ items,
      holds (step state item) ↔ holds state ∨ adds item)
    (state : State) :
    holds (items.foldl step state) ↔
      holds state ∨ ∃ item ∈ items, adds item := by
  induction items generalizing state with
  | nil => simp
  | cons item items ih =>
      have later : ∀ state, ∀ item ∈ items,
          holds (step state item) ↔ holds state ∨ adds item :=
        fun state other member =>
          holds_step state other (List.mem_cons_of_mem _ member)
      rw [List.foldl_cons, ih later, holds_step state item List.mem_cons_self]
      simp [or_assoc]

/-- Run a step on each item until one fails.  The state is returned also when a
step fails. -/
def forEach (step : State → Item → State × Except Failure Unit) :
    State → List Item → State × Except Failure Unit
  | state, [] => (state, .ok ())
  | state, item :: items =>
      match step state item with
      | (state, .ok ()) => forEach step state items
      | (state, .error failure) => (state, .error failure)

/-- When the outcome of a step depends on the item only, the loop succeeds
exactly when every step does. -/
theorem forEach_ok_iff {step : State → Item → State × Except Failure Unit}
    (check : Item → Prop)
    (checked : ∀ state item, (step state item).2 = .ok () ↔ check item)
    (state : State) (items : List Item) :
    (forEach step state items).2 = .ok () ↔ ∀ item ∈ items, check item := by
  induction items generalizing state with
  | nil => simp [forEach]
  | cons item items ih =>
      have here := checked state item
      rw [forEach, List.forall_mem_cons, ← here]
      split
      case h_1 next stepped => simp [stepped, ih]
      case h_2 next failure stepped => simp [stepped]

theorem forEach_eq_foldl {step : State → Item → State × Except Failure Unit}
    {state : State} {items : List Item}
    (succeeded : (forEach step state items).2 = .ok ()) :
    (forEach step state items).1 =
      items.foldl (fun state item => (step state item).1) state := by
  induction items generalizing state with
  | nil => rfl
  | cons item items ih =>
      rw [forEach] at succeeded ⊢
      split at succeeded
      case h_1 next stepped => simp [stepped, ih succeeded]
      case h_2 => cases succeeded

/-- A loop fails with what one of its steps fails with. -/
theorem exists_of_forEach_error {step : State → Item → State × Except Failure Unit}
    {state : State} {items : List Item} {failure : Failure}
    (failed : (forEach step state items).2 = .error failure) :
    ∃ reached, ∃ item ∈ items, (step reached item).2 = .error failure := by
  induction items generalizing state with
  | nil => cases failed
  | cons item items ih =>
      rw [forEach] at failed
      split at failed
      case h_1 next stepped =>
        obtain ⟨reached, other, member, stopped⟩ := ih failed
        exact ⟨reached, other, List.mem_cons_of_mem _ member, stopped⟩
      case h_2 next first stepped =>
        refine ⟨state, item, List.mem_cons_self, ?_⟩
        rw [stepped]
        exact failed

theorem forM_cons (check : Item → Except Failure Unit) (item : Item) (items : List Item) :
    (item :: items).forM check = check item >>= fun _ => items.forM check :=
  rfl

theorem forM_ok_iff {check : Item → Except Failure Unit} {items : List Item} :
    items.forM check = .ok () ↔ ∀ item ∈ items, check item = .ok () := by
  induction items with
  | nil => simp [pure, Except.pure]
  | cons item items ih =>
      rw [forM_cons, List.forall_mem_cons, ← ih]
      cases checked : check item with
      | error failure => simp [bind, Except.bind]
      | ok value => simp [bind, Except.bind]

theorem exists_of_forM_error {check : Item → Except Failure Unit} {items : List Item}
    {failure : Failure} (failed : items.forM check = .error failure) :
    ∃ item ∈ items, check item = .error failure := by
  induction items with
  | nil => cases failed
  | cons item items ih =>
      rw [forM_cons] at failed
      cases checked : check item with
      | error first =>
          rw [checked] at failed
          exact ⟨item, List.mem_cons_self, by rw [checked]; exact failed⟩
      | ok value =>
          rw [checked] at failed
          obtain ⟨other, member, stopped⟩ := ih failed
          exact ⟨other, List.mem_cons_of_mem _ member, stopped⟩

/-- When a step can only return one value, so can the steps over a list. -/
theorem mapM_ok_iff {step : Item → Except Failure Value} {effect : Item → Value}
    (returns : ∀ item value, step item = .ok value → value = effect item)
    {items : List Item} {values : List Value} :
    items.mapM step = .ok values ↔
      values = items.map effect ∧ ∀ item ∈ items, step item = .ok (effect item) := by
  induction items generalizing values with
  | nil =>
      simp only [List.mapM_nil, List.map_nil, List.not_mem_nil, false_implies,
        implies_true, and_true]
      exact ⟨fun same => (Except.ok.inj same).symm, fun same => same ▸ rfl⟩
  | cons item items ih =>
      rw [List.mapM_cons, List.forall_mem_cons, List.map_cons]
      constructor
      · intro ran
        obtain ⟨value, stepped, ran⟩ := bind_ok ran
        obtain ⟨rest, ran, returned⟩ := bind_ok ran
        obtain ⟨rfl, others⟩ := ih.mp ran
        have same := returns item value stepped
        cases returned
        rw [same] at stepped ⊢
        exact ⟨rfl, stepped, others⟩
      · rintro ⟨rfl, stepped, others⟩
        rw [stepped, ih.mpr ⟨rfl, others⟩]
        rfl

/-- A successful loop over a longer list is one over the shorter list and a last step. -/
theorem foldlM_concat_ok_iff {step : State → Item → Except Failure State}
    {items : List Item} {last : Item} {state result : State} :
    (items ++ [last]).foldlM step state = .ok result ↔
      ∃ reached, items.foldlM step state = .ok reached ∧ step reached last = .ok result := by
  rw [List.foldlM_append]
  constructor
  · intro ran
    obtain ⟨reached, before, ran⟩ := bind_ok ran
    obtain ⟨final, stepped, returned⟩ := bind_ok ran
    cases returned
    exact ⟨reached, before, stepped⟩
  · rintro ⟨reached, before, stepped⟩
    rw [before]
    change (step reached last >>= fun final => pure final) = _
    rw [stepped]
    rfl

end FallibleSteps
