import Roko.PlanPhase
import Roko.PathPolicy
import Roko.GuardedRuns
import Mathlib.Data.List.Forall2

/-!
# The temporal monitor

The model of `TemporalMonitor` in `roko-agent/src/safety/temporal.rs`: properties of tool
calls, what a monitor remembers of each of them, and the check of one call.
-/

namespace Roko

inductive LtlProperty
  | never (pattern description : String)
  | always (predicate description : String)
  | eventually (predicate : String) (deadlineTurns : UInt32) (description : String)
  deriving DecidableEq

inductive MonitorState
  | satisfied
  | pending (sinceTurn : Nat)
  | violated (turn : Nat) (detail : String)
  deriving DecidableEq

structure Violation where
  propertyIndex : Nat
  property : LtlProperty
  turn : Nat
  detail : String

/-- The source keeps the properties and their states in two parallel vectors. -/
structure TemporalMonitor where
  entries : List (LtlProperty × MonitorState)
  turnCount : Nat

/-- Check a call against a pattern: the name, or the argument `command` in any case. -/
def matchesPattern (call : ToolCall) (pattern : String) : Bool :=
  if call.name = pattern then true
  else if containsText call.name pattern then true
  else match (call.arguments.get "command").bind JsonValue.asStr with
    | some command => containsText command.toLower pattern.toLower
    | none => false

namespace TemporalMonitor

/-- The state of a property that is registered at the given turn. -/
def initialState (turnCount : Nat) : LtlProperty → MonitorState
  | .never _ _ | .always _ _ => .satisfied
  | .eventually _ _ _ => .pending turnCount

def withProperties (properties : List LtlProperty) : TemporalMonitor where
  entries := properties.map fun property => (property, initialState 0 property)
  turnCount := 0

def addProperty (monitor : TemporalMonitor) (property : LtlProperty) : TemporalMonitor :=
  { monitor with
    entries := monitor.entries ++ [(property, initialState monitor.turnCount property)] }

def neverDetail (call : ToolCall) (pattern description : String) : String :=
  if description.isEmpty then
    "Never property violated: pattern `" ++ pattern ++ "` matched tool call `" ++
      call.name ++ "`"
  else
    "Never: " ++ description ++ " (pattern `" ++ pattern ++ "` matched `" ++ call.name ++ "`)"

def alwaysDetail (call : ToolCall) (predicate description : String) : String :=
  if description.isEmpty then
    "Always property violated: predicate `" ++ predicate ++ "` not satisfied by `" ++
      call.name ++ "`"
  else "Always: " ++ description ++ " (not satisfied by `" ++ call.name ++ "`)"

def eventuallyDetail (predicate : String) (deadlineTurns : UInt32) (description : String) :
    String :=
  if description.isEmpty then
    "Eventually property violated: predicate `" ++ predicate ++ "` not satisfied within " ++
      toString deadlineTurns ++ " turns"
  else
    "Eventually: " ++ description ++ " (not satisfied within " ++ toString deadlineTurns ++
      " turns)"

/-- A property becomes violated. -/
def violate (turn index : Nat) (property : LtlProperty) (detail : String) :
    MonitorState × Option Violation :=
  (.violated turn detail, some { propertyIndex := index, property, turn, detail })

/-- The body of the loop of `check`. -/
def checkProperty (turn : Nat) (call : ToolCall) (index : Nat) (property : LtlProperty)
    (state : MonitorState) : MonitorState × Option Violation :=
  match state with
  | .violated _ _ => (state, none)
  | .satisfied | .pending _ =>
    match property with
    | .never pattern description =>
        if matchesPattern call pattern then
          violate turn index property (neverDetail call pattern description)
        else (state, none)
    | .always predicate description =>
        if matchesPattern call predicate then (state, none)
        else violate turn index property (alwaysDetail call predicate description)
    | .eventually predicate deadlineTurns description =>
        if matchesPattern call predicate then (.satisfied, none)
        else match state with
          | .pending sinceTurn =>
              if turn - sinceTurn ≥ deadlineTurns.toNat then
                violate turn index property
                  (eventuallyDetail predicate deadlineTurns description)
              else (state, none)
          | _ => (state, none)

/-- The loop of `check`, from the property with the given index on. -/
def checkFrom (turn : Nat) (call : ToolCall) :
    Nat → List (LtlProperty × MonitorState) →
      List (LtlProperty × MonitorState) × List Violation
  | _, [] => ([], [])
  | index, (property, state) :: entries =>
      let (state, violation) := checkProperty turn call index property state
      let (entries, violations) := checkFrom turn call (index + 1) entries
      ((property, state) :: entries, violation.toList ++ violations)

def check (monitor : TemporalMonitor) (call : ToolCall) : TemporalMonitor × List Violation :=
  let turn := monitor.turnCount + 1
  let (entries, violations) := checkFrom turn call 0 monitor.entries
  ({ entries, turnCount := turn }, violations)

def checkAsToolError (monitor : TemporalMonitor) (call : ToolCall) :
    TemporalMonitor × Except ToolError Unit :=
  let (monitor, violations) := monitor.check call
  if violations.isEmpty then (monitor, .ok ())
  else
    (monitor, .error (.permissionDenied ("temporal property violation: " ++
      "; ".intercalate (violations.map (·.detail)))))

/-!
A monitor reports an unmet deadline once, at the right turn.  What a property forbids it
reports only the first time: a call that is forbidden again is denied only when another
property has something to report on it.
-/

/-- The property forbids the call. -/
def Forbids (property : LtlProperty) (call : ToolCall) : Prop :=
  match property with
  | .never pattern _ => matchesPattern call pattern = true
  | .always predicate _ => matchesPattern call predicate = false
  | .eventually _ _ _ => False

/-- The call is the one at which the deadline of the property has passed without a match;
the calls since its registration are given. -/
def Due (property : LtlProperty) (earlier : List ToolCall) (call : ToolCall) : Prop :=
  match property with
  | .never _ _ | .always _ _ => False
  | .eventually predicate deadlineTurns _ =>
      earlier.length + 1 = max 1 deadlineTurns.toNat ∧
        ∀ other ∈ earlier ++ [call], matchesPattern other predicate = false

/-- The property forbids the call and has forbidden none before, or its deadline is due. -/
def Reports (property : LtlProperty) (earlier : List ToolCall) (call : ToolCall) : Prop :=
  (Forbids property call ∧ ∀ other ∈ earlier, ¬ Forbids property other) ∨
    Due property earlier call

/-- A monitor, and its properties with the calls that were checked since they were
registered. -/
structure Watch where
  monitor : TemporalMonitor
  registered : List (LtlProperty × List ToolCall)

inductive WatchOp
  | addProperty (property : LtlProperty)
  | check (call : ToolCall)

namespace Watch

def start (properties : List LtlProperty) : Watch where
  monitor := withProperties properties
  registered := properties.map fun property => (property, [])

def step (watch : Watch) : WatchOp → Watch
  | .addProperty property =>
      { monitor := watch.monitor.addProperty property
        registered := watch.registered ++ [(property, [])] }
  | .check call =>
      { monitor := (watch.monitor.checkAsToolError call).1
        registered := watch.registered.map fun entry => (entry.1, entry.2 ++ [call]) }

/-- What the check of a call is meant to do. -/
structure CheckLaw (watch : Watch) (call : ToolCall) : Prop where
  denied : (∃ entry ∈ watch.registered, Forbids entry.1 call) →
    ∃ error, (watch.monitor.checkAsToolError call).2 = .error error
  reported : ∀ index property earlier, watch.registered[index]? = some (property, earlier) →
    Due property earlier call →
    ((watch.monitor.check call).2.filter fun violation =>
      violation.propertyIndex = index).length = 1
  /-- There are no other reports of a liveness property. -/
  silent : ∀ index predicate deadlineTurns description earlier,
    watch.registered[index]? =
      some (.eventually predicate deadlineTurns description, earlier) →
    ¬ Due (.eventually predicate deadlineTurns description) earlier call →
    ∀ violation ∈ (watch.monitor.check call).2, violation.propertyIndex ≠ index

def Lawful (watch : Watch) : WatchOp → Prop
  | .addProperty _ => True
  | .check call => watch.CheckLaw call

/-- Where a call is forbidden, some property has something to report on it: one that has
forbidden no earlier call, or one whose deadline is due. -/
def Fresh (watch : Watch) : WatchOp → Prop
  | .addProperty _ => True
  | .check call => (∃ entry ∈ watch.registered, Forbids entry.1 call) →
      ∃ entry ∈ watch.registered, Reports entry.1 entry.2 call

end Watch

/-- What the state of a property says of the calls since its registration. -/
def StateFits (turnCount : Nat) (property : LtlProperty) (calls : List ToolCall) :
    MonitorState → Prop
  | .satisfied => match property with
      | .never _ _ | .always _ _ => ∀ call ∈ calls, ¬ Forbids property call
      | .eventually predicate _ _ => ∃ call ∈ calls, matchesPattern call predicate = true
  | .pending sinceTurn => match property with
      | .never _ _ | .always _ _ => False
      | .eventually predicate deadlineTurns _ =>
          turnCount = sinceTurn + calls.length ∧
            (calls = [] ∨ calls.length < deadlineTurns.toNat) ∧
            ∀ call ∈ calls, matchesPattern call predicate = false
  | .violated _ _ => match property with
      | .never _ _ | .always _ _ => ∃ call ∈ calls, Forbids property call
      | .eventually _ deadlineTurns _ => max 1 deadlineTurns.toNat ≤ calls.length

theorem stateFits_initialState (turnCount : Nat) (property : LtlProperty) :
    StateFits turnCount property [] (initialState turnCount property) := by
  cases property <;> simp [initialState, StateFits]

section Property

variable {turnCount : Nat} {calls : List ToolCall} {state : MonitorState} (call : ToolCall)
  (index : Nat)

/-- The check of one property: its state fits the calls again, and it reports what it has to
report. -/
def Answers (turnCount : Nat) (calls : List ToolCall) (call : ToolCall) (index : Nat)
    (property : LtlProperty) (state : MonitorState) : Prop :=
  StateFits (turnCount + 1) property (calls ++ [call])
      (checkProperty (turnCount + 1) call index property state).1 ∧
    ((checkProperty (turnCount + 1) call index property state).2.isSome ↔
      Reports property calls call)

/-- A call that a safety property forbids for the first time is reported, and no other. -/
theorem safety_answers {property : LtlProperty} (detail : String)
    (safety : ∀ earlier, ¬ Due property earlier call)
    (satisfied : ∀ turn calls, StateFits turn property calls .satisfied ↔
      ∀ call ∈ calls, ¬ Forbids property call)
    (pending : ∀ turn calls since, ¬ StateFits turn property calls (.pending since))
    (violated : ∀ turn calls when detail, StateFits turn property calls (.violated when detail) ↔
      ∃ call ∈ calls, Forbids property call)
    (forbidden : Forbids property call →
      checkProperty (turnCount + 1) call index property .satisfied =
        violate (turnCount + 1) index property detail)
    (allowed : ¬ Forbids property call →
      checkProperty (turnCount + 1) call index property .satisfied = (.satisfied, none))
    (fits : StateFits turnCount property calls state) :
    Answers turnCount calls call index property state := by
  rw [Answers]
  cases state with
  | satisfied =>
      rw [satisfied] at fits
      by_cases forbids : Forbids property call
      · rw [forbidden forbids]
        exact ⟨(violated _ _ _ _).mpr ⟨call, by simp, forbids⟩,
          iff_of_true rfl (Or.inl ⟨forbids, fits⟩)⟩
      · rw [allowed forbids]
        refine ⟨(satisfied _ _).mpr ?_, iff_of_false (by simp) ?_⟩
        · intro other member
          rcases List.mem_append.mp member with earlier | last
          · exact fits other earlier
          · rwa [List.mem_singleton.mp last]
        · rintro (⟨now, -⟩ | due)
          · exact forbids now
          · exact safety calls due
  | pending since => exact absurd fits (pending _ _ _)
  | violated turn message =>
      obtain ⟨other, member, forbids⟩ := (violated _ _ _ _).mp fits
      refine ⟨(violated _ _ _ _).mpr ⟨other, List.mem_append_left _ member, forbids⟩,
        iff_of_false (by simp [checkProperty]) ?_⟩
      rintro (⟨-, first⟩ | due)
      · exact first other member forbids
      · exact safety calls due

section Liveness

variable {predicate description : String} {deadlineTurns : UInt32}

theorem reports_eventually_iff :
    Reports (.eventually predicate deadlineTurns description) calls call ↔
      calls.length + 1 = max 1 deadlineTurns.toNat ∧
        ∀ other ∈ calls ++ [call], matchesPattern other predicate = false := by
  simp [Reports, Forbids, Due]

/-- After a match there is nothing to report. -/
theorem satisfied_answers {other : ToolCall} (member : other ∈ calls)
    (hit : matchesPattern other predicate = true) :
    Answers turnCount calls call index (.eventually predicate deadlineTurns description)
      .satisfied := by
  have notDue : ¬ Reports (.eventually predicate deadlineTurns description) calls call := by
    rw [reports_eventually_iff]
    rintro ⟨-, unmatched⟩
    rw [unmatched other (List.mem_append_left _ member)] at hit
    cases hit
  rw [Answers]
  by_cases now : matchesPattern call predicate = true
  · simp only [checkProperty, now, ↓reduceIte]
    exact ⟨⟨call, by simp, now⟩, iff_of_false (by simp) notDue⟩
  · simp only [checkProperty, now, Bool.false_eq_true, ↓reduceIte]
    exact ⟨⟨other, List.mem_append_left _ member, hit⟩, iff_of_false (by simp) notDue⟩

theorem matched_answers (since : Nat) (now : matchesPattern call predicate = true) :
    Answers turnCount calls call index (.eventually predicate deadlineTurns description)
      (.pending since) := by
  rw [Answers, reports_eventually_iff]
  simp only [checkProperty, now, ↓reduceIte]
  refine ⟨⟨call, by simp, now⟩, iff_of_false (by simp) ?_⟩
  rintro ⟨-, none⟩
  rw [none call (by simp)] at now
  cases now

/-- Without a match, the deadline is reported at the turn at which it is due. -/
theorem unmatched_answers {since : Nat} (turns : turnCount = since + calls.length)
    (early : calls = [] ∨ calls.length < deadlineTurns.toNat)
    (unmatched : ∀ other ∈ calls ++ [call], matchesPattern other predicate = false) :
    Answers turnCount calls call index (.eventually predicate deadlineTurns description)
      (.pending since) := by
  have elapsed : turnCount + 1 - since = calls.length + 1 := by omega
  rw [Answers, reports_eventually_iff]
  simp only [checkProperty, unmatched call (by simp), Bool.false_eq_true, ↓reduceIte, elapsed]
  by_cases late : calls.length + 1 ≥ deadlineTurns.toNat
  · have due : calls.length + 1 = max 1 deadlineTurns.toNat := by
      rcases early with rfl | before
      · simp only [List.length_nil] at late ⊢
        omega
      · omega
    rw [if_pos late]
    refine ⟨?_, iff_of_true rfl ⟨due, unmatched⟩⟩
    simp only [violate, StateFits, List.length_append, List.length_singleton]
    omega
  · rw [if_neg late]
    refine ⟨⟨?_, Or.inr ?_, unmatched⟩, iff_of_false (by simp) ?_⟩
    · rw [List.length_append, List.length_singleton]
      omega
    · rw [List.length_append, List.length_singleton]
      omega
    · rintro ⟨due, -⟩
      omega

/-- A deadline that has been reported is not due again. -/
theorem violated_answers (turn : Nat) (detail : String)
    (past : max 1 deadlineTurns.toNat ≤ calls.length) :
    Answers turnCount calls call index (.eventually predicate deadlineTurns description)
      (.violated turn detail) := by
  rw [Answers, reports_eventually_iff]
  refine ⟨?_, iff_of_false (by simp [checkProperty]) ?_⟩
  · simp only [checkProperty, StateFits, List.length_append, List.length_singleton]
    omega
  · rintro ⟨due, -⟩
    omega

theorem liveness_answers
    (fits : StateFits turnCount (.eventually predicate deadlineTurns description) calls
      state) :
    Answers turnCount calls call index (.eventually predicate deadlineTurns description)
      state := by
  cases state with
  | satisfied =>
      obtain ⟨other, member, hit⟩ := fits
      exact satisfied_answers call index member hit
  | pending since =>
      obtain ⟨turns, early, unmatched⟩ := fits
      by_cases now : matchesPattern call predicate = true
      · exact matched_answers call index since now
      · refine unmatched_answers call index turns early ?_
        intro other member
        rcases List.mem_append.mp member with earlier | last
        · exact unmatched other earlier
        · rw [List.mem_singleton.mp last]
          simpa using now
  | violated turn detail => exact violated_answers call index turn detail fits

end Liveness

theorem checkProperty_answers {property : LtlProperty}
    (fits : StateFits turnCount property calls state) :
    Answers turnCount calls call index property state := by
  cases property with
  | never pattern description =>
      refine safety_answers call index (neverDetail call pattern description)
        (fun _ due => due) (fun _ _ => Iff.rfl) (fun _ _ _ none => none)
        (fun _ _ _ _ => Iff.rfl) ?_ ?_ fits
      · exact fun forbids => if_pos forbids
      · exact fun allowed => if_neg allowed
  | always predicate description =>
      refine safety_answers call index (alwaysDetail call predicate description)
        (fun _ due => due) (fun _ _ => Iff.rfl) (fun _ _ _ none => none)
        (fun _ _ _ _ => Iff.rfl) ?_ ?_ fits
      · exact fun forbids => if_neg (by simpa [Forbids] using forbids)
      · exact fun allowed => if_pos (by simpa [Forbids] using allowed)
  | eventually predicate deadlineTurns description =>
      exact liveness_answers call index fits

end Property

/-- The entries of a monitor fit the calls since their registrations. -/
def EntriesFit (turnCount : Nat) : List (LtlProperty × MonitorState) →
    List (LtlProperty × List ToolCall) → Prop :=
  List.Forall₂ fun entry registered =>
    entry.1 = registered.1 ∧ StateFits turnCount registered.1 registered.2 entry.2

theorem checkProperty_index {turn : Nat} {call : ToolCall} {index : Nat}
    {property : LtlProperty} {state : MonitorState} {violation : Violation}
    (reported : (checkProperty turn call index property state).2 = some violation) :
    violation.propertyIndex = index := by
  unfold checkProperty at reported
  repeat' split at reported
  all_goals cases reported <;> rfl

variable {turnCount : Nat} {entries : List (LtlProperty × MonitorState)}
  {registered : List (LtlProperty × List ToolCall)} (call : ToolCall)

theorem checkFrom_entries (fits : EntriesFit turnCount entries registered) (index : Nat) :
    EntriesFit (turnCount + 1) (checkFrom (turnCount + 1) call index entries).1
      (registered.map fun entry => (entry.1, entry.2 ++ [call])) := by
  induction fits generalizing index with
  | nil => exact .nil
  | @cons entry watched entries registered first _ ih =>
      obtain ⟨property, state⟩ := entry
      obtain ⟨same, fits⟩ := first
      dsimp only at same
      subst same
      exact .cons ⟨rfl, (checkProperty_answers call index fits).1⟩ (ih (index + 1))

theorem le_of_mem_checkFrom (turn index : Nat) {violation : Violation}
    (member : violation ∈ (checkFrom turn call index entries).2) :
    index ≤ violation.propertyIndex := by
  induction entries generalizing index with
  | nil => cases member
  | cons entry entries ih =>
      rcases List.mem_append.mp member with first | later
      · rw [Option.mem_toList] at first
        exact (checkProperty_index first).ge
      · exact (Nat.le_succ index).trans (ih (index + 1) later)

/-- What is reported under an index is what the check of the property there reports. -/
theorem filter_checkFrom (turn index : Nat) {offset : Nat} {property : LtlProperty}
    {state : MonitorState} (found : entries[offset]? = some (property, state)) :
    ((checkFrom turn call index entries).2.filter fun violation =>
        violation.propertyIndex = index + offset) =
      (checkProperty turn call (index + offset) property state).2.toList := by
  induction entries generalizing index offset with
  | nil => cases found
  | cons entry entries ih =>
      obtain ⟨first, firstState⟩ := entry
      rw [checkFrom]
      dsimp only
      rw [List.filter_append]
      cases offset with
      | zero =>
          rw [List.getElem?_cons_zero, Option.some.injEq] at found
          cases found
          have rest : ((checkFrom turn call (index + 1) entries).2.filter fun violation =>
              violation.propertyIndex = index + 0) = [] := by
            rw [List.filter_eq_nil_iff]
            intro violation member
            have above := le_of_mem_checkFrom call turn (index + 1) member
            simp only [decide_eq_true_eq]
            omega
          rw [rest, List.append_nil, Nat.add_zero, List.filter_eq_self]
          intro violation member
          rw [Option.mem_toList] at member
          simpa using checkProperty_index member
      | succ offset =>
          rw [List.getElem?_cons_succ] at found
          have shift : index + (offset + 1) = index + 1 + offset := by omega
          have head : ((checkProperty turn call index first firstState).2.toList.filter
              fun violation => violation.propertyIndex = index + 1 + offset) = [] := by
            rw [List.filter_eq_nil_iff]
            intro violation member
            rw [Option.mem_toList] at member
            have here := checkProperty_index member
            simp only [decide_eq_true_eq]
            omega
          rw [shift, head, List.nil_append]
          exact ih (index + 1) found

theorem EntriesFit.entry (fits : EntriesFit turnCount entries registered) {offset : Nat}
    {property : LtlProperty} {calls : List ToolCall}
    (found : registered[offset]? = some (property, calls)) :
    ∃ state, entries[offset]? = some (property, state) ∧
      StateFits turnCount property calls state := by
  induction fits generalizing offset with
  | nil => cases found
  | @cons entry watched entries registered first _ ih =>
      cases offset with
      | zero =>
          rw [List.getElem?_cons_zero, Option.some.injEq] at found
          subst found
          obtain ⟨own, state⟩ := entry
          obtain ⟨rfl, fits⟩ := first
          exact ⟨state, rfl, fits⟩
      | succ offset => exact ih found

/-- Each property reports at most once on a call, and exactly when it has something to
report. -/
theorem checkFrom_violations (fits : EntriesFit turnCount entries registered) (index : Nat)
    {offset : Nat} {property : LtlProperty} {calls : List ToolCall}
    (found : registered[offset]? = some (property, calls)) :
    (Reports property calls call →
      ((checkFrom (turnCount + 1) call index entries).2.filter fun violation =>
        violation.propertyIndex = index + offset).length = 1) ∧
    (¬ Reports property calls call →
      ∀ violation ∈ (checkFrom (turnCount + 1) call index entries).2,
        violation.propertyIndex ≠ index + offset) := by
  obtain ⟨state, entry, stateFits⟩ := fits.entry found
  have answers := (checkProperty_answers call (index + offset) stateFits).2
  have reported := filter_checkFrom call (turnCount + 1) index entry
  constructor
  · intro reports
    obtain ⟨violation, hit⟩ := Option.isSome_iff_exists.mp (answers.mpr reports)
    rw [reported, hit]
    rfl
  · intro quiet
    rw [Option.not_isSome_iff_eq_none.mp (mt answers.mp quiet), Option.toList_none,
      List.filter_eq_nil_iff] at reported
    intro violation member
    simpa using reported violation member

/-- A check reports something exactly when one of its properties does. -/
theorem checkFrom_ne_nil_iff (fits : EntriesFit turnCount entries registered) (index : Nat) :
    (checkFrom (turnCount + 1) call index entries).2 ≠ [] ↔
      ∃ entry ∈ registered, Reports entry.1 entry.2 call := by
  induction fits generalizing index with
  | nil => simp [checkFrom]
  | @cons entry watched entries registered first _ ih =>
      obtain ⟨own, state⟩ := entry
      obtain ⟨same, fits⟩ := first
      dsimp only at same
      have checked := (checkProperty_answers call index fits).2
      rw [← same] at checked
      have rest := ih (index + 1)
      rw [checkFrom]
      dsimp only
      rw [List.exists_mem_cons_iff, ← rest, ← same, ← checked]
      cases (checkProperty (turnCount + 1) call index own state).2 <;> simp

namespace Watch

variable {watch : Watch}

/-- The entries of the monitor fit its history. -/
def Fits (watch : Watch) : Prop :=
  EntriesFit watch.monitor.turnCount watch.monitor.entries watch.registered

theorem fits_start (properties : List LtlProperty) : (start properties).Fits := by
  simp only [Fits, start, withProperties, EntriesFit]
  rw [List.forall₂_map_left_iff, List.forall₂_map_right_iff, List.forall₂_same]
  exact fun property _ => ⟨rfl, stateFits_initialState 0 property⟩

theorem checkAsToolError_fst (monitor : TemporalMonitor) (call : ToolCall) :
    (monitor.checkAsToolError call).1 = (monitor.check call).1 := by
  unfold checkAsToolError
  dsimp only
  split <;> rfl

theorem checkAsToolError_snd (monitor : TemporalMonitor) (call : ToolCall) :
    (∃ error, (monitor.checkAsToolError call).2 = .error error) ↔
      (monitor.check call).2 ≠ [] := by
  unfold checkAsToolError
  dsimp only
  split
  case isTrue empty => simpa using empty
  case isFalse some' => simpa using some'

theorem Fits.step (fits : watch.Fits) (op : WatchOp) : (watch.step op).Fits := by
  cases op with
  | addProperty property =>
      exact List.rel_append fits (.cons ⟨rfl, stateFits_initialState _ property⟩ .nil)
  | check call =>
      rw [Fits, Watch.step, checkAsToolError_fst]
      exact checkFrom_entries call fits 0

/-- A check keeps its promises exactly when a forbidden call gives some property something
to report. -/
theorem Fits.fresh_iff (fits : watch.Fits) (op : WatchOp) :
    watch.Fresh op ↔ watch.Lawful op := by
  cases op with
  | addProperty property => exact Iff.rfl
  | check call =>
      have denies := checkAsToolError_snd watch.monitor call
      have reporting := checkFrom_ne_nil_iff call fits 0
      constructor
      · intro fresh
        constructor
        · intro forbidden
          exact denies.mpr (reporting.mpr (fresh forbidden))
        · intro index property earlier found due
          have once := (checkFrom_violations call fits 0 found).1 (Or.inr due)
          rwa [Nat.zero_add] at once
        · intro index predicate deadlineTurns description earlier found notDue
          have never := (checkFrom_violations call fits 0 found).2 (by
            rintro (⟨forbids, -⟩ | due)
            · exact forbids
            · exact notDue due)
          rwa [Nat.zero_add] at never
      · intro law forbidden
        exact reporting.mp (denies.mp (law.denied forbidden))

end Watch

/-- Every call of a run is checked as it is meant to be exactly when each forbidden call
gives some property something to report. -/
theorem watch_lawful_iff (properties : List LtlProperty) (ops : List WatchOp) :
    GuardedRun.Guarded Watch.step Watch.Lawful (.start properties) ops ↔
      GuardedRun.Guarded Watch.step Watch.Fresh (.start properties) ops := by
  have start := Watch.fits_start properties
  rw [GuardedRun.guarded_iff_kept Watch.step Watch.Fresh Watch.Lawful Watch.Fits
    (fun _ => True)
    (fun watch op fits => (fits.fresh_iff op).trans (true_and _).symm.to_iff)
    (fun watch op fits _ => fits.step op) start trivial]
  exact (and_iff_right fun _ _ => trivial).symm

/-- A call that is named by a pattern. -/
def named (name : String) : ToolCall where
  name
  arguments := .object []

/-- A forbidden call is denied once; the retry passes. -/
theorem retry_passes :
    let watch := (Watch.start [.never "bad" ""]).step (.check (named "bad"))
    (((Watch.start [.never "bad" ""]).monitor.checkAsToolError (named "bad")).2 =
        .error (.permissionDenied ("temporal property violation: " ++
          "Never property violated: pattern `bad` matched tool call `bad`"))) ∧
      (watch.monitor.checkAsToolError (named "bad")).2 = .ok () ∧
      ¬ watch.CheckLaw (named "bad") := by
  have passes : (((Watch.start [.never "bad" ""]).step
      (.check (named "bad"))).monitor.checkAsToolError (named "bad")).2 = .ok () := rfl
  refine ⟨rfl, passes, ?_⟩
  intro law
  obtain ⟨error, denied⟩ := law.denied
    ⟨_, List.mem_cons_self, (rfl : matchesPattern (named "bad") "bad" = true)⟩
  rw [passes] at denied
  cases denied

end TemporalMonitor

end Roko
