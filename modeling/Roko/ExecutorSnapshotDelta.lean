import Roko.PlanStateMachine
import Roko.ContentHash
import Roko.JsonValue
import Roko.FallibleSteps
import Std.Data.ExtTreeMap
import Mathlib.Data.List.Sort

/-!
# The crash-recovery snapshot of the executor

The record types of `roko-orchestrator/src/executor/snapshot.rs`.  Hash maps are
finite maps keyed by plan id; an `f64` is its 64-bit pattern.
-/

namespace Roko

/-- A speculative execution branch of a slow task. -/
structure SpeculativeExecution where
  planId : String
  task : String
  expectedMinutes : UInt32
  elapsedMinutes : UInt32
  backupRole : AgentRole
  projectedCostUsd : UInt64
  startedAtMs : UInt64
deriving DecidableEq

/-- Failure record of one plan in the conductor's circuit breaker. -/
structure PersistedCircuitBreakerFailureRecord where
  count : UInt32
  lastFailureMs : Option Int64
  reasons : List String
deriving DecidableEq

/-- Circuit-breaker state carried alongside the executor state. -/
structure PersistedCircuitBreakerState where
  maxFailures : UInt32
  records : Std.ExtTreeMap String PersistedCircuitBreakerFailureRecord
deriving DecidableEq

/-- Serializable snapshot of the whole executor state. -/
structure ExecutorSnapshot where
  schemaVersion : UInt32
  planStates : Std.ExtTreeMap String PlanState
  queueOrder : List String
  conductorCircuitBreaker : Option PersistedCircuitBreakerState
  speculativeExecutions : Std.ExtTreeMap String SpeculativeExecution
  timestampMs : UInt64
deriving DecidableEq

namespace ExecutorSnapshot

def currentSchemaVersion : UInt32 := 1

/-- `ExecutorSnapshot::new`. -/
def new (timestampMs : UInt64) : ExecutorSnapshot where
  schemaVersion := currentSchemaVersion
  planStates := ∅
  queueOrder := []
  conductorCircuitBreaker := none
  speculativeExecutions := ∅
  timestampMs := timestampMs

end ExecutorSnapshot

/-!
The model of `delta_from` and `apply_delta` in
`roko-orchestrator/src/executor/snapshot.rs`.  Serialization and BLAKE3 come from
other crates; `SnapshotSerde` collects the functions the code calls.

The delta has an entry for the plan states, the queue, the time and the schema
version.  The circuit breaker and the speculative executions have none, so a
delta rebuilds a snapshot exactly when it does not change these two.
-/

/-- The serialization and hash functions that the delta code calls.  An error is
the text of the `serde_json::Error`. -/
structure SnapshotSerde where
  planStateToValue : PlanState → Except String JsonValue
  planStateFromValue : JsonValue → Except String PlanState
  queueToValue : List String → Except String JsonValue
  queueFromValue : JsonValue → Except String (List String)
  snapshotToValue : ExecutorSnapshot → Except String JsonValue
  toVec : JsonValue → Except String (List UInt8)
  hash : List UInt8 → Digest

/-- The errors of `load_verified` and `apply_delta`. -/
inductive SnapshotIntegrityError where
  | badMagic
  | badTrailer
  | tooShort
  | lengthMismatch (declared : UInt64) (available : Nat)
  | checksumMismatch (expected actual : Digest)
  | baseHashMismatch (expected actual : Digest)
  | resultHashMismatch (expected actual : Digest)
  | serializationFailed (message : String)
deriving DecidableEq

/-- An incremental delta between two snapshots. -/
structure DeltaSnapshot where
  baseHash : Digest
  expectedHash : Digest
  changed : JsonValue
  removedPlanIds : List String
  addedPlanIds : List String
  sequence : UInt64
deriving DecidableEq

namespace ExecutorSnapshot

open JsonValue

variable (serde : SnapshotSerde)

/-- `ExecutorSnapshot::compute_hash`. -/
def computeHash (snapshot : ExecutorSnapshot) : Except String Digest := do
  let value ← serde.snapshotToValue snapshot
  let canonical ← serde.toVec value.sortJsonObjects
  .ok (serde.hash canonical)

/-- Whether a plan state serializes to the same value as the one in the base; a
state the base does not have, or that does not serialize, counts as changed. -/
def sameAsBase (base : ExecutorSnapshot) (planId : String)
    (state : PlanState) : Bool :=
  match base.planStates[planId]? with
  | none => false
  | some baseState =>
      match serde.planStateToValue baseState, serde.planStateToValue state with
      | .ok baseValue, .ok value => baseValue == value
      | _, _ => false

/-- The first loop of `build_delta_changed`. -/
def changedPlans (base : ExecutorSnapshot) : List (String × PlanState) →
    List (String × JsonValue) → Except String (List (String × JsonValue))
  | [], members => .ok members
  | (planId, state) :: states, members =>
      if sameAsBase serde base planId state then
        changedPlans base states members
      else
        match serde.planStateToValue state with
        | .error message => .error message
        | .ok value => changedPlans base states (insertMember planId value members)

/-- Insert a member when a condition holds. -/
def insertIf (condition : Bool) (key : String) (value : JsonValue)
    (members : List (String × JsonValue)) : List (String × JsonValue) :=
  if condition then insertMember key value members else members

/-- Insert the queue when it differs from the base. -/
def insertQueue (snapshot base : ExecutorSnapshot)
    (members : List (String × JsonValue)) :
    Except String (List (String × JsonValue)) :=
  if snapshot.queueOrder = base.queueOrder then .ok members
  else
    match serde.queueToValue snapshot.queueOrder with
    | .error message => .error message
    | .ok queue => .ok (insertMember "queue_order" queue members)

/-- `ExecutorSnapshot::build_delta_changed`. -/
def buildDeltaChanged (snapshot base : ExecutorSnapshot) :
    Except String JsonValue := do
  let plans ← changedPlans serde base snapshot.planStates.toList []
  let members ← insertQueue serde snapshot base
    (insertIf (!plans.isEmpty) "plan_states" (.object plans) [])
  let members := insertIf (snapshot.timestampMs != base.timestampMs)
    "timestamp_ms" (.number (.posInt snapshot.timestampMs)) members
  let members := insertIf (snapshot.schemaVersion != base.schemaVersion)
    "schema_version" (.number (.posInt snapshot.schemaVersion.toUInt64)) members
  .ok (.object members)

/-- The plan ids of the first snapshot that the second does not have, sorted. -/
def planIdsNotIn (first second : ExecutorSnapshot) : List String :=
  (first.planStates.keys.filter fun planId =>
    !second.planStates.contains planId).insertionSort (· ≤ ·)

/-- `ExecutorSnapshot::delta_from`. -/
def deltaFrom (snapshot base : ExecutorSnapshot) : Except String DeltaSnapshot := do
  let baseHash ← base.computeHash serde
  let expectedHash ← snapshot.computeHash serde
  let changed ← snapshot.buildDeltaChanged serde base
  .ok {
    baseHash := baseHash
    expectedHash := expectedHash
    changed := changed
    removedPlanIds := base.planIdsNotIn snapshot
    addedPlanIds := snapshot.planIdsNotIn base
    sequence := 0 }

/-- The plan-state loop of `apply_changed_fields`. -/
def applyChangedPlans : List (String × JsonValue) → ExecutorSnapshot →
    Except SnapshotIntegrityError ExecutorSnapshot
  | [], result => .ok result
  | (planId, value) :: members, result =>
      match serde.planStateFromValue value with
      | .error message => .error (.serializationFailed message)
      | .ok state =>
          applyChangedPlans members
            { result with planStates := result.planStates.insert planId state }

def applyPlanStatesField (members : List (String × JsonValue))
    (result : ExecutorSnapshot) :
    Except SnapshotIntegrityError ExecutorSnapshot :=
  match lookupMember "plan_states" members with
  | some (.object plans) => applyChangedPlans serde plans result
  | _ => .ok result

def applyQueueField (members : List (String × JsonValue))
    (result : ExecutorSnapshot) :
    Except SnapshotIntegrityError ExecutorSnapshot :=
  match lookupMember "queue_order" members with
  | none => .ok result
  | some value =>
      match serde.queueFromValue value with
      | .error message => .error (.serializationFailed message)
      | .ok queue => .ok { result with queueOrder := queue }

def applyTimeField (members : List (String × JsonValue))
    (result : ExecutorSnapshot) : ExecutorSnapshot :=
  match (lookupMember "timestamp_ms" members).bind asU64 with
  | none => result
  | some timestampMs => { result with timestampMs := timestampMs }

/-- The schema version is truncated to 32 bits. -/
def applyVersionField (members : List (String × JsonValue))
    (result : ExecutorSnapshot) : ExecutorSnapshot :=
  match (lookupMember "schema_version" members).bind asU64 with
  | none => result
  | some version => { result with schemaVersion := version.toUInt32 }

/-- `apply_changed_fields`. -/
def applyChangedFields (members : List (String × JsonValue))
    (result : ExecutorSnapshot) :
    Except SnapshotIntegrityError ExecutorSnapshot := do
  let planned ← applyPlanStatesField serde members result
  let queued ← applyQueueField serde members planned
  .ok (applyVersionField members (applyTimeField members queued))

/-- `compute_hash` with its error wrapped. -/
def checkedHash (snapshot : ExecutorSnapshot) :
    Except SnapshotIntegrityError Digest :=
  match snapshot.computeHash serde with
  | .error message => .error (.serializationFailed message)
  | .ok digest => .ok digest

def removePlans (snapshot : ExecutorSnapshot) (planIds : List String) :
    ExecutorSnapshot :=
  { snapshot with
    planStates := planIds.foldl (fun states planId => states.erase planId)
      snapshot.planStates }

/-- The changes of a delta; a delta whose changes are not an object has none. -/
def applyChanged (changed : JsonValue) (result : ExecutorSnapshot) :
    Except SnapshotIntegrityError ExecutorSnapshot :=
  match changed with
  | .object members => applyChangedFields serde members result
  | _ => .ok result

/-- `ExecutorSnapshot::apply_delta`. -/
def applyDelta (snapshot : ExecutorSnapshot) (delta : DeltaSnapshot) :
    Except SnapshotIntegrityError ExecutorSnapshot := do
  let ourHash ← snapshot.checkedHash serde
  if ourHash ≠ delta.baseHash then
    .error (.baseHashMismatch delta.baseHash ourHash)
  else do
    let result ← applyChanged serde delta.changed
      (snapshot.removePlans delta.removedPlanIds)
    let resultHash ← result.checkedHash serde
    if resultHash ≠ delta.expectedHash then
      .error (.resultHashMismatch delta.expectedHash resultHash)
    else .ok result

end ExecutorSnapshot

/-!
Every plan entry of a delta carries the state of its plan in the target
snapshot, and every plan whose state differs from the base has an entry.  So
applying a delta gives the target snapshot with the circuit breaker and the
speculative executions of the base.
-/

open JsonValue

/-- The serialization of the two snapshots succeeds and can be read back. -/
structure SnapshotSerde.RoundTrips (serde : SnapshotSerde)
    (base target : ExecutorSnapshot) : Prop where
  basePlans : ∀ (planId : String) (state : PlanState),
    base.planStates[planId]? = some state →
      ∃ value, serde.planStateToValue state = .ok value ∧
        serde.planStateFromValue value = .ok state
  targetPlans : ∀ (planId : String) (state : PlanState),
    target.planStates[planId]? = some state →
      ∃ value, serde.planStateToValue state = .ok value ∧
        serde.planStateFromValue value = .ok state
  targetQueue : ∃ value, serde.queueToValue target.queueOrder = .ok value ∧
    serde.queueFromValue value = .ok target.queueOrder
  baseHash : ∃ digest, base.computeHash serde = .ok digest
  targetHash : ∃ digest, target.computeHash serde = .ok digest

namespace ExecutorSnapshot

variable {serde : SnapshotSerde} {base target : ExecutorSnapshot}

/-- A state that serializes like the base state is the base state. -/
theorem eq_of_sameAsBase (roundTrips : serde.RoundTrips base target)
    {planId : String} {state : PlanState}
    (found : target.planStates[planId]? = some state)
    (same : sameAsBase serde base planId state = true) :
    base.planStates[planId]? = some state := by
  unfold sameAsBase at same
  cases foundBase : base.planStates[planId]? with
  | none => simp [foundBase] at same
  | some baseState =>
      obtain ⟨baseValue, baseTo, baseFrom⟩ :=
        roundTrips.basePlans planId baseState foundBase
      obtain ⟨value, stateTo, stateFrom⟩ :=
        roundTrips.targetPlans planId state found
      simp only [foundBase, baseTo, stateTo, beq_iff_eq] at same
      rw [same, stateFrom] at baseFrom
      rw [Except.ok.inj baseFrom]

/-- Every member of the plan part of the delta holds the target's state. -/
def CarriesTarget (serde : SnapshotSerde) (target : ExecutorSnapshot)
    (members : List (String × JsonValue)) : Prop :=
  ∀ member ∈ members, ∃ state, target.planStates[member.1]? = some state ∧
    serde.planStateFromValue member.2 = .ok state

/-- Every plan whose state differs from the base has a member. -/
def CoversChanges (serde : SnapshotSerde) (base : ExecutorSnapshot)
    (states : List (String × PlanState)) (members : List (String × JsonValue)) :
    Prop :=
  ∀ pair ∈ states, sameAsBase serde base pair.1 pair.2 = true ∨
    pair.1 ∈ members.map Prod.fst

theorem changedPlans_spec (roundTrips : serde.RoundTrips base target)
    (states : List (String × PlanState)) (members : List (String × JsonValue))
    (ofTarget : ∀ pair ∈ states,
      target.planStates[pair.1]? = some pair.2)
    (carries : CarriesTarget serde target members) :
    ∃ result, changedPlans serde base states members = .ok result ∧
      CarriesTarget serde target result ∧
      CoversChanges serde base states result ∧
      ∀ key ∈ members.map Prod.fst, key ∈ result.map Prod.fst := by
  induction states generalizing members with
  | nil => exact ⟨members, rfl, carries, by simp [CoversChanges], fun _ h => h⟩
  | cons pair states ih =>
      obtain ⟨planId, state⟩ := pair
      have found := ofTarget _ List.mem_cons_self
      have rest := fun other member =>
        ofTarget other (List.mem_cons_of_mem _ member)
      by_cases same : sameAsBase serde base planId state = true
      · obtain ⟨result, built, carried, covered, kept⟩ := ih members rest carries
        refine ⟨result, by rw [changedPlans, if_pos same, built], carried, ?_, kept⟩
        intro other member
        rcases List.mem_cons.mp member with rfl | later
        · exact .inl same
        · exact covered other later
      · obtain ⟨value, stateTo, stateFrom⟩ :=
          roundTrips.targetPlans planId state found
        have inserted : CarriesTarget serde target
            (insertMember planId value members) := by
          intro member inside
          rcases mem_insertMember inside with rfl | old
          · exact ⟨state, found, stateFrom⟩
          · exact carries member old
        obtain ⟨result, built, carried, covered, kept⟩ :=
          ih (insertMember planId value members) rest inserted
        refine ⟨result, ?_, carried, ?_, ?_⟩
        · rw [changedPlans, if_neg same, stateTo]
          exact built
        · intro other member
          rcases List.mem_cons.mp member with rfl | later
          · exact .inr (kept planId (mem_keys_insertMember.mpr (.inl rfl)))
          · exact covered other later
        · intro key inside
          exact kept key (mem_keys_insertMember.mpr (.inr inside))

/-- Applying members that carry the target's states moves their plans to the
target and leaves every other plan and field alone. -/
theorem applyChangedPlans_spec (members : List (String × JsonValue))
    (result : ExecutorSnapshot)
    (carries : CarriesTarget serde target members) :
    ∃ states, applyChangedPlans serde members result =
        .ok { result with planStates := states } ∧
      ∀ planId : String, states[planId]? =
        if planId ∈ members.map Prod.fst then target.planStates[planId]?
        else result.planStates[planId]? := by
  induction members generalizing result with
  | nil => exact ⟨result.planStates, rfl, by simp⟩
  | cons member members ih =>
      obtain ⟨planId, value⟩ := member
      obtain ⟨state, found, decoded⟩ := carries _ List.mem_cons_self
      obtain ⟨states, applied, lookups⟩ := ih
        { result with planStates := result.planStates.insert planId state }
        (fun other member => carries other (List.mem_cons_of_mem _ member))
      refine ⟨states, ?_, ?_⟩
      · rw [applyChangedPlans, decoded]
        exact applied
      · intro other
        rw [lookups other, Std.ExtTreeMap.getElem?_insert, List.map_cons]
        by_cases later : other ∈ members.map Prod.fst
        · rw [if_pos later, if_pos (List.mem_cons_of_mem _ later)]
        · rw [if_neg later]
          by_cases same : planId = other
          · subst same
            simp [found]
          · rw [if_neg (by simpa using same), if_neg]
            exact List.not_mem_cons_of_ne_of_not_mem (Ne.symm same) later

theorem getElem?_removePlans (snapshot : ExecutorSnapshot)
    (planIds : List String) (planId : String) :
    (snapshot.removePlans planIds).planStates[planId]? =
      if planId ∈ planIds then none else snapshot.planStates[planId]? := by
  unfold removePlans
  generalize snapshot.planStates = states
  induction planIds generalizing states with
  | nil => simp
  | cons removed planIds ih =>
      simp only [List.foldl_cons] at ih ⊢
      rw [ih, Std.ExtTreeMap.getElem?_erase]
      by_cases same : removed = planId
      · simp [same]
      · simp [same, Ne.symm same]

theorem mem_planIdsNotIn {first second : ExecutorSnapshot} {planId : String} :
    planId ∈ first.planIdsNotIn second ↔
      planId ∈ first.planStates ∧ planId ∉ second.planStates := by
  rw [planIdsNotIn, (List.perm_insertionSort _ _).mem_iff, List.mem_filter,
    Std.ExtTreeMap.mem_keys, Bool.not_eq_true', Bool.eq_false_iff, ne_eq,
    Std.ExtTreeMap.contains_iff_mem]

/-- The plan states after applying the delta are those of the target. -/
theorem planStates_eq_of_delta (roundTrips : serde.RoundTrips base target)
    {members : List (String × JsonValue)}
    {states : Std.ExtTreeMap String PlanState}
    (covers : CoversChanges serde base target.planStates.toList members)
    (lookups : ∀ planId : String, states[planId]? =
      if planId ∈ members.map Prod.fst then target.planStates[planId]?
      else (base.removePlans (base.planIdsNotIn target)).planStates[planId]?) :
    states = target.planStates := by
  apply Std.ExtTreeMap.ext_getElem?
  intro planId
  rw [lookups planId]
  split
  · rfl
  case isFalse unlisted =>
    rw [getElem?_removePlans]
    cases found : target.planStates[planId]? with
    | none =>
        have absent : planId ∉ target.planStates := by simpa using found
        rw [ite_eq_left_iff]
        intro kept
        by_contra present
        exact kept (Iff.mpr mem_planIdsNotIn ⟨by simpa using present, absent⟩)
    | some state =>
        have present : planId ∈ target.planStates := by
          rw [Std.ExtTreeMap.mem_iff_isSome_getElem?, found]
          rfl
        rw [if_neg (by simp [mem_planIdsNotIn, present])]
        have listed := Std.ExtTreeMap.mem_toList_iff_getElem?_eq_some.mpr found
        rcases covers _ listed with same | member
        · exact eq_of_sameAsBase roundTrips found same
        · exact absurd member unlisted

theorem lookupMember_insertIf (condition : Bool) (key other : String)
    (value : JsonValue) (members : List (String × JsonValue)) :
    lookupMember other (insertIf condition key value members) =
      if condition = true ∧ key = other then some value
      else lookupMember other members := by
  unfold insertIf
  split
  case isTrue holds => simp [lookupMember_insertMember, holds]
  case isFalse fails => simp [fails]

/-- The members of the delta, field by field. -/
structure DeltaMembers (serde : SnapshotSerde) (base target : ExecutorSnapshot)
    (members : List (String × JsonValue)) : Prop where
  plans : ∃ plans, CarriesTarget serde target plans ∧
    CoversChanges serde base target.planStates.toList plans ∧
    lookupMember "plan_states" members =
      if plans = [] then none else some (.object plans)
  queue : ∃ value, serde.queueFromValue value = .ok target.queueOrder ∧
    lookupMember "queue_order" members =
      if target.queueOrder = base.queueOrder then none else some value
  time : lookupMember "timestamp_ms" members =
    if target.timestampMs = base.timestampMs then none
    else some (.number (.posInt target.timestampMs))
  version : lookupMember "schema_version" members =
    if target.schemaVersion = base.schemaVersion then none
    else some (.number (.posInt target.schemaVersion.toUInt64))

theorem buildDeltaChanged_spec (roundTrips : serde.RoundTrips base target) :
    ∃ members, target.buildDeltaChanged serde base = .ok (.object members) ∧
      DeltaMembers serde base target members := by
  obtain ⟨plans, built, carries, covers, -⟩ := changedPlans_spec roundTrips
    target.planStates.toList []
    (fun pair listed => Std.ExtTreeMap.mem_toList_iff_getElem?_eq_some.mp listed)
    (fun member inside => by simp at inside)
  obtain ⟨value, queueTo, queueFrom⟩ := roundTrips.targetQueue
  by_cases sameQueue : target.queueOrder = base.queueOrder
  · refine ⟨_, by
      simp only [buildDeltaChanged, built, insertQueue, sameQueue, bind,
        Except.bind, if_true]
      rfl, ?_⟩
    exact {
      plans := ⟨plans, carries, covers, by simp [lookupMember_insertIf]⟩
      queue := ⟨value, queueFrom, by simp [lookupMember_insertIf, sameQueue]⟩
      time := by simp [lookupMember_insertIf]
      version := by simp [lookupMember_insertIf] }
  · refine ⟨_, by
      simp only [buildDeltaChanged, built, insertQueue, sameQueue, queueTo,
        bind, Except.bind, if_false]
      rfl, ?_⟩
    exact {
      plans := ⟨plans, carries, covers, by
        simp [lookupMember_insertIf, lookupMember_insertMember]⟩
      queue := ⟨value, queueFrom, by
        simp [lookupMember_insertIf, lookupMember_insertMember, sameQueue]⟩
      time := by simp [lookupMember_insertIf, lookupMember_insertMember]
      version := by simp [lookupMember_insertIf, lookupMember_insertMember] }

theorem applyPlanStatesField_spec (roundTrips : serde.RoundTrips base target)
    {members : List (String × JsonValue)}
    (delta : DeltaMembers serde base target members) :
    applyPlanStatesField serde members
        (base.removePlans (base.planIdsNotIn target)) =
      .ok { base with planStates := target.planStates } := by
  obtain ⟨plans, carries, covers, plansLookup⟩ := delta.plans
  obtain ⟨states, applied, lookups⟩ := applyChangedPlans_spec plans
    (base.removePlans (base.planIdsNotIn target)) carries
  rw [planStates_eq_of_delta roundTrips covers lookups] at applied
  rw [applyPlanStatesField, plansLookup]
  by_cases noPlans : plans = []
  · rw [noPlans] at applied
    rw [if_pos noPlans]
    exact applied
  · rw [if_neg noPlans]
    exact applied

theorem applyQueueField_spec {members : List (String × JsonValue)}
    (delta : DeltaMembers serde base target members) (result : ExecutorSnapshot)
    (untouched : result.queueOrder = base.queueOrder) :
    applyQueueField serde members result =
      .ok { result with queueOrder := target.queueOrder } := by
  obtain ⟨value, queueFrom, queueLookup⟩ := delta.queue
  rw [applyQueueField, queueLookup]
  by_cases sameQueue : target.queueOrder = base.queueOrder
  · simp [sameQueue, ← untouched]
  · simp [sameQueue, queueFrom]

theorem applyTimeField_spec {members : List (String × JsonValue)}
    (delta : DeltaMembers serde base target members) (result : ExecutorSnapshot)
    (untouched : result.timestampMs = base.timestampMs) :
    applyTimeField members result =
      { result with timestampMs := target.timestampMs } := by
  rw [applyTimeField, delta.time]
  by_cases sameTime : target.timestampMs = base.timestampMs
  · simp [sameTime, ← untouched]
  · simp [sameTime, asU64]

theorem applyVersionField_spec {members : List (String × JsonValue)}
    (delta : DeltaMembers serde base target members) (result : ExecutorSnapshot)
    (untouched : result.schemaVersion = base.schemaVersion) :
    applyVersionField members result =
      { result with schemaVersion := target.schemaVersion } := by
  rw [applyVersionField, delta.version]
  by_cases sameVersion : target.schemaVersion = base.schemaVersion
  · simp [sameVersion, ← untouched]
  · simp [sameVersion, asU64]

/-- Applying the members of the delta to the base gives the target, with the two
fields the delta does not mention taken from the base. -/
theorem applyChangedFields_spec (roundTrips : serde.RoundTrips base target)
    {members : List (String × JsonValue)}
    (delta : DeltaMembers serde base target members) :
    applyChangedFields serde members
        (base.removePlans (base.planIdsNotIn target)) =
      .ok { target with
        conductorCircuitBreaker := base.conductorCircuitBreaker
        speculativeExecutions := base.speculativeExecutions } := by
  simp only [applyChangedFields, applyPlanStatesField_spec roundTrips delta,
    bind, Except.bind]
  simp only [applyQueueField_spec delta
    { base with planStates := target.planStates } rfl]
  rw [applyTimeField_spec delta, applyVersionField_spec delta]
  · rfl
  · rfl

/-- The two snapshots agree on the fields that no delta mentions. -/
def SameOmitted (first second : ExecutorSnapshot) : Prop :=
  first.conductorCircuitBreaker = second.conductorCircuitBreaker ∧
    first.speculativeExecutions = second.speculativeExecutions

theorem applyChangedPlans_sameOmitted {members : List (String × JsonValue)}
    {start result : ExecutorSnapshot}
    (applied : applyChangedPlans serde members start = .ok result) :
    SameOmitted result start := by
  induction members generalizing start with
  | nil =>
      rw [← Except.ok.inj applied]
      exact ⟨rfl, rfl⟩
  | cons member members ih =>
      rw [applyChangedPlans] at applied
      split at applied
      · cases applied
      · have kept := ih applied
        exact kept

theorem applyQueueField_sameOmitted {members : List (String × JsonValue)}
    {start result : ExecutorSnapshot}
    (applied : applyQueueField serde members start = .ok result) :
    SameOmitted result start := by
  unfold applyQueueField at applied
  split at applied
  · rw [← Except.ok.inj applied]
    exact ⟨rfl, rfl⟩
  · split at applied
    · cases applied
    · rw [← Except.ok.inj applied]
      exact ⟨rfl, rfl⟩

theorem applyChanged_sameOmitted {changed : JsonValue}
    {start result : ExecutorSnapshot}
    (applied : applyChanged serde changed start = .ok result) :
    SameOmitted result start := by
  unfold applyChanged at applied
  split at applied
  case h_2 =>
    rw [← Except.ok.inj applied]
    exact ⟨rfl, rfl⟩
  case h_1 members =>
    obtain ⟨planned, plansApplied, rest⟩ := FallibleSteps.bind_ok applied
    obtain ⟨queued, queueApplied, finished⟩ := FallibleSteps.bind_ok rest
    have plansKept : SameOmitted planned start := by
      unfold applyPlanStatesField at plansApplied
      split at plansApplied
      · exact applyChangedPlans_sameOmitted plansApplied
      · rw [← Except.ok.inj plansApplied]
        exact ⟨rfl, rfl⟩
    have queueKept := applyQueueField_sameOmitted queueApplied
    have scalarsKept : SameOmitted result queued := by
      rw [← Except.ok.inj finished]
      unfold applyVersionField applyTimeField
      split <;> split <;> exact ⟨rfl, rfl⟩
    exact ⟨scalarsKept.1.trans (queueKept.1.trans plansKept.1),
      scalarsKept.2.trans (queueKept.2.trans plansKept.2)⟩

/-- `apply_delta` never writes the circuit breaker or the speculative
executions. -/
theorem applyDelta_sameOmitted {delta : DeltaSnapshot} {result : ExecutorSnapshot}
    (applied : base.applyDelta serde delta = .ok result) :
    SameOmitted result base := by
  obtain ⟨ourHash, -, checked⟩ := FallibleSteps.bind_ok applied
  split at checked
  · cases checked
  · obtain ⟨changed, changedApplied, verified⟩ := FallibleSteps.bind_ok checked
    obtain ⟨resultHash, -, accepted⟩ := FallibleSteps.bind_ok verified
    split at accepted
    · cases accepted
    · rw [← Except.ok.inj accepted]
      have changedKept := applyChanged_sameOmitted changedApplied
      exact changedKept

/-- The delta from the base rebuilds the snapshot exactly when the snapshot has
the circuit breaker and the speculative executions of the base. -/
theorem applyDelta_deltaFrom_iff (serde : SnapshotSerde)
    (base target : ExecutorSnapshot)
    (roundTrips : serde.RoundTrips base target) :
    (∃ delta, target.deltaFrom serde base = .ok delta ∧
      base.applyDelta serde delta = .ok target) ↔
    target.conductorCircuitBreaker = base.conductorCircuitBreaker ∧
      target.speculativeExecutions = base.speculativeExecutions := by
  constructor
  · rintro ⟨delta, -, applied⟩
    exact applyDelta_sameOmitted applied
  · rintro ⟨sameBreaker, sameSpeculative⟩
    obtain ⟨baseDigest, baseHashed⟩ := roundTrips.baseHash
    obtain ⟨targetDigest, targetHashed⟩ := roundTrips.targetHash
    obtain ⟨members, built, delta⟩ := buildDeltaChanged_spec roundTrips
    have rebuilt := applyChangedFields_spec roundTrips delta
    rw [← sameBreaker, ← sameSpeculative] at rebuilt
    refine ⟨⟨baseDigest, targetDigest, .object members,
      base.planIdsNotIn target, target.planIdsNotIn base, 0⟩, ?_, ?_⟩
    · simp only [deltaFrom, baseHashed, targetHashed, built, bind, Except.bind]
    · simp [applyDelta, applyChanged, checkedHash, baseHashed, targetHashed,
        rebuilt, bind, Except.bind]

/-- A snapshot with its JSON value, its canonical text and the BLAKE3 digest of
that text. -/
structure SampleRow where
  snapshot : ExecutorSnapshot
  value : JsonValue
  text : String
  digest : Digest

def samplePlanValue : JsonValue :=
  .object [("assigned_agents", .array []),
    ("current_phase", .object [("kind", .string "queued")]),
    ("files_changed", .array []), ("gate_results", .array []),
    ("iteration", .number (.posInt 1)), ("last_error", .null),
    ("merge_attempts", .number (.posInt 0)), ("paused", .bool false),
    ("plan_id", .string "p"), ("priority", .number (.posInt 0)),
    ("started_at_ms", .number (.posInt 0))]

def sampleTarget : ExecutorSnapshot :=
  { ExecutorSnapshot.new 1 with
    planStates := (∅ : Std.ExtTreeMap String PlanState).insert "p" (.new "p")
    queueOrder := ["p"] }

def sampleTripped : ExecutorSnapshot :=
  { ExecutorSnapshot.new 0 with conductorCircuitBreaker := some ⟨3, ∅⟩ }

def sampleBaseDigest : Digest :=
  #v[70, 126, 210, 30, 28, 178, 130, 107, 171, 61, 145, 252, 236,
    122, 169, 109, 52, 75, 177, 150, 31, 98, 127, 18, 63, 35, 20, 66, 122, 202,
    198, 213]

def sampleTrippedDigest : Digest :=
  #v[148, 92, 13, 45, 14, 225, 176, 91, 15, 196, 60, 99, 47, 181,
    173, 177, 190, 148, 152, 105, 179, 130, 121, 27, 184, 114, 203, 73, 204,
    113, 35, 18]

def sampleRows : List SampleRow :=
  [{ snapshot := .new 0
     value := .object [("plan_states", .object []), ("queue_order", .array []),
      ("schema_version", .number (.posInt 1)),
      ("speculative_executions", .object []),
      ("timestamp_ms", .number (.posInt 0))]
     text := "\x7b\"plan_states\":\x7b\x7d,\"queue_order\":[],\"schema_version\":1,\"speculative_executions\":\x7b\x7d,\"timestamp_ms\":0\x7d"
     digest := sampleBaseDigest },
   { snapshot := sampleTarget
     value := .object [("plan_states", .object [("p", samplePlanValue)]),
      ("queue_order", .array [.string "p"]),
      ("schema_version", .number (.posInt 1)),
      ("speculative_executions", .object []),
      ("timestamp_ms", .number (.posInt 1))]
     text := "\x7b\"plan_states\":\x7b\"p\":\x7b\"assigned_agents\":[],\"current_phase\":\x7b\"kind\":\"queued\"\x7d,\"files_changed\":[],\"gate_results\":[],\"iteration\":1,\"last_error\":null,\"merge_attempts\":0,\"paused\":false,\"plan_id\":\"p\",\"priority\":0,\"started_at_ms\":0\x7d\x7d,\"queue_order\":[\"p\"],\"schema_version\":1,\"speculative_executions\":\x7b\x7d,\"timestamp_ms\":1\x7d"
     digest := #v[10, 123, 249, 254, 193, 80, 92, 60, 250, 216, 236, 244, 165, 4,
      190, 69, 216, 205, 166, 224, 133, 58, 20, 5, 99, 223, 126, 171, 86, 68, 12,
      181] },
   { snapshot := sampleTripped
     value := .object [("conductor_circuit_breaker",
        .object [("max_failures", .number (.posInt 3)), ("records", .object [])]),
      ("plan_states", .object []), ("queue_order", .array []),
      ("schema_version", .number (.posInt 1)),
      ("speculative_executions", .object []),
      ("timestamp_ms", .number (.posInt 0))]
     text := "\x7b\"conductor_circuit_breaker\":\x7b\"max_failures\":3,\"records\":\x7b\x7d\x7d,\"plan_states\":\x7b\x7d,\"queue_order\":[],\"schema_version\":1,\"speculative_executions\":\x7b\x7d,\"timestamp_ms\":0\x7d"
     digest := sampleTrippedDigest }]

/-- Serialization and hashing as they are on the snapshots of `sampleRows`. -/
def sampleSerde : SnapshotSerde where
  planStateToValue state :=
    if state = .new "p" then .ok samplePlanValue else .error "not a sample"
  planStateFromValue value :=
    if value = samplePlanValue then .ok (.new "p") else .error "not a sample"
  queueToValue queue := .ok (.array (queue.map .string))
  queueFromValue
    | .array values => .ok (values.filterMap asStr)
    | _ => .error "invalid type: expected a sequence"
  snapshotToValue snapshot :=
    match sampleRows.find? fun row => row.snapshot = snapshot with
    | some row => .ok row.value
    | none => .error "not a sample"
  toVec value :=
    match sampleRows.find? fun row => row.value = value with
    | some row => .ok (textBytes row.text)
    | none => .error "not a sample"
  hash bytes :=
    match sampleRows.find? fun row => textBytes row.text = bytes with
    | some row => row.digest
    | none => zeroHash

/-- A delta that adds a plan, queues it and moves the time rebuilds its target. -/
theorem sample_delta_rebuilds :
    ∃ delta, sampleTarget.deltaFrom sampleSerde (.new 0) = .ok delta ∧
      (ExecutorSnapshot.new 0).applyDelta sampleSerde delta = .ok sampleTarget := by
  refine (applyDelta_deltaFrom_iff sampleSerde (.new 0) sampleTarget ?_).mpr
    ⟨rfl, rfl⟩
  constructor
  · intro planId state found
    simp [ExecutorSnapshot.new] at found
  · intro planId state found
    simp only [sampleTarget, Std.ExtTreeMap.getElem?_insert] at found
    split at found
    · rw [← Option.some.inj found]
      exact ⟨samplePlanValue, by decide, by decide⟩
    · simp at found
  · exact ⟨.array [.string "p"], by decide, by decide⟩
  · exact ⟨_, by rfl⟩
  · exact ⟨_, by rfl⟩

/-- A delta that trips the circuit breaker does not rebuild its target: it is
empty, and applying it fails on the hash of the result. -/
theorem tripped_breaker_is_lost :
    ∃ delta, sampleTripped.deltaFrom sampleSerde (.new 0) = .ok delta ∧
      (ExecutorSnapshot.new 0).applyDelta sampleSerde delta =
        .error (.resultHashMismatch sampleTrippedDigest sampleBaseDigest) :=
  ⟨⟨sampleBaseDigest, sampleTrippedDigest, .object [], [], [], 0⟩,
    by decide +kernel, by decide +kernel⟩

end ExecutorSnapshot

end Roko
