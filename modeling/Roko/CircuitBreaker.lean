import Roko.GuardedRuns
import Mathlib.Algebra.Order.Field.Rat
import Mathlib.Data.UInt
import Std.Data.ExtTreeMap

/-!
# The circuit breaker of the conductor

A breaker counts the failures of every plan and, in predictive mode, also forecasts the
error rate from failures and successes.  The count only rises until it is reset, and a
snapshot keeps it; the forecast can fall again and is in no snapshot.
-/

namespace Roko

/-- Counters of 32 bits start over after this value, as in a release build. -/
def u32Max : UInt32 :=
  4294967295

structure FailureRecord where
  count : UInt32 := 0
  lastFailureMs : Option Int := none
  reasons : List String := []

structure HoltForecaster where
  level : ℚ := 0
  trend : ℚ := 0
  alpha : ℚ := 3 / 10
  beta : ℚ := 1 / 10
  observations : UInt32 := 0

namespace HoltForecaster

def update (forecaster : HoltForecaster) (observation : ℚ) : HoltForecaster :=
  if forecaster.observations = 0 then
    { forecaster with
      level := observation
      trend := 0
      observations := forecaster.observations + 1 }
  else
    let level := forecaster.alpha * observation +
      (1 - forecaster.alpha) * (forecaster.level + forecaster.trend)
    { forecaster with
      level := level
      trend := forecaster.beta * (level - forecaster.level) +
        (1 - forecaster.beta) * forecaster.trend
      observations := forecaster.observations + 1 }

def forecast (forecaster : HoltForecaster) (horizon : Nat) : ℚ :=
  forecaster.level + horizon * forecaster.trend

/-- The test that `record_failure` and `is_tripped` make of a forecaster. -/
def Trips (forecaster : HoltForecaster) (threshold : ℚ) : Prop :=
  2 ≤ forecaster.observations ∧ threshold ≤ forecaster.forecast 1

instance (forecaster : HoltForecaster) (threshold : ℚ) :
    Decidable (forecaster.Trips threshold) :=
  inferInstanceAs (Decidable (_ ∧ _))

end HoltForecaster

/-- What is kept across restarts. -/
structure CircuitBreakerState where
  maxFailures : UInt32
  records : Std.ExtTreeMap String FailureRecord

structure CircuitBreaker where
  maxFailures : UInt32
  records : Std.ExtTreeMap String FailureRecord := ∅
  forecasters : Std.ExtTreeMap String HoltForecaster := ∅
  evalCounts : Std.ExtTreeMap String (UInt32 × UInt32) := ∅
  predictive : Bool := false
  forecastTripThreshold : ℚ := 1 / 2

namespace CircuitBreaker

def new (maxFailures : UInt32) : CircuitBreaker :=
  { maxFailures }

def withPredictive (breaker : CircuitBreaker) (tripThreshold : ℚ) : CircuitBreaker :=
  { breaker with
    predictive := true
    forecastTripThreshold := max (1 / 100) (min tripThreshold 1) }

def fromState (state : CircuitBreakerState) : CircuitBreaker :=
  { new state.maxFailures with records := state.records }

def snapshotState (breaker : CircuitBreaker) : CircuitBreakerState where
  maxFailures := breaker.maxFailures
  records := breaker.records

def updateForecaster (breaker : CircuitBreaker) (planId : String) (observation : ℚ) :
    CircuitBreaker :=
  let (failures, total) := breaker.evalCounts[planId]?.getD (0, 0)
  let failures := if 1 / 2 < observation then failures + 1 else failures
  { breaker with
    evalCounts := breaker.evalCounts.insert planId (failures, total + 1)
    forecasters := breaker.forecasters.insert planId
      ((breaker.forecasters[planId]?.getD {}).update observation) }

/-- The forecast of the plan has reached the threshold. -/
def ForecastTrips (breaker : CircuitBreaker) (planId : String) : Prop :=
  breaker.predictive = true ∧ ∃ forecaster ∈ breaker.forecasters[planId]?,
    forecaster.Trips breaker.forecastTripThreshold

instance (breaker : CircuitBreaker) (planId : String) :
    Decidable (breaker.ForecastTrips planId) :=
  inferInstanceAs (Decidable (_ ∧ ∃ forecaster ∈ breaker.forecasters[planId]?, _))

/-- The counted failures of the plan have reached the maximum. -/
def CountTrips (breaker : CircuitBreaker) (planId : String) : Prop :=
  ∃ record ∈ breaker.records[planId]?, breaker.maxFailures ≤ record.count

instance (breaker : CircuitBreaker) (planId : String) :
    Decidable (breaker.CountTrips planId) :=
  inferInstanceAs (Decidable (∃ record ∈ breaker.records[planId]?, _))

/-- The answer, and the breaker with the failure recorded. -/
def recordFailure (breaker : CircuitBreaker) (planId reason : String) (nowMs : Int) :
    Bool × CircuitBreaker :=
  let entry := breaker.records[planId]?.getD {}
  let entry : FailureRecord :=
    { count := entry.count + 1
      lastFailureMs := some nowMs
      reasons := entry.reasons ++ [reason] }
  let breaker := { breaker with records := breaker.records.insert planId entry }
  let breaker := if breaker.predictive then breaker.updateForecaster planId 1 else breaker
  if breaker.maxFailures ≤ entry.count then (true, breaker)
  else if breaker.ForecastTrips planId then (true, breaker)
  else (false, breaker)

def recordSuccess (breaker : CircuitBreaker) (planId : String) : CircuitBreaker :=
  if breaker.predictive then breaker.updateForecaster planId 0 else breaker

def isTripped (breaker : CircuitBreaker) (planId : String) : Bool :=
  if breaker.CountTrips planId then true
  else if breaker.ForecastTrips planId then true
  else false

def failureCount (breaker : CircuitBreaker) (planId : String) : UInt32 :=
  (breaker.records[planId]?.map FailureRecord.count).getD 0

def reset (breaker : CircuitBreaker) (planId : String) : CircuitBreaker :=
  { breaker with
    records := breaker.records.erase planId
    forecasters := breaker.forecasters.erase planId
    evalCounts := breaker.evalCounts.erase planId }

/-- The calls of a history. -/
inductive Call where
  | recordFailure (planId reason : String) (nowMs : Int)
  | recordSuccess (planId : String)
  | reset (planId : String)
deriving DecidableEq

def Call.planId : Call → String
  | .recordFailure planId _ _ => planId
  | .recordSuccess planId => planId
  | .reset planId => planId

def step (breaker : CircuitBreaker) : Call → CircuitBreaker
  | .recordFailure planId reason nowMs => (breaker.recordFailure planId reason nowMs).2
  | .recordSuccess planId => breaker.recordSuccess planId
  | .reset planId => breaker.reset planId

/-- Only `record_failure` answers. -/
def answer (breaker : CircuitBreaker) : Call → Option Bool
  | .recordFailure planId reason nowMs =>
      some (breaker.recordFailure planId reason nowMs).1
  | .recordSuccess _ => none
  | .reset _ => none

/-- A breaker as it is built, in predictive mode when a threshold is given. -/
def built (maxFailures : UInt32) : Option ℚ → CircuitBreaker
  | none => new maxFailures
  | some tripThreshold => (new maxFailures).withPredictive tripThreshold

/-- The observation that a failure or a success is for the forecast. -/
def observe (breaker : CircuitBreaker) (planId : String) (observation : ℚ) :
    CircuitBreaker :=
  if breaker.predictive then breaker.updateForecaster planId observation else breaker

/-- The breaker with the failure counted. -/
def counted (breaker : CircuitBreaker) (planId reason : String) (nowMs : Int) :
    CircuitBreaker :=
  { breaker with
    records := breaker.records.insert planId
      { count := breaker.failureCount planId + 1
        lastFailureMs := some nowMs
        reasons := (breaker.records[planId]?.getD {}).reasons ++ [reason] } }

section Entries

variable (breaker : CircuitBreaker) (planId reason : String) (nowMs : Int)

@[simp]
theorem observe_records (observation : ℚ) :
    (breaker.observe planId observation).records = breaker.records := by
  unfold observe
  split <;> rfl

@[simp]
theorem observe_maxFailures (observation : ℚ) :
    (breaker.observe planId observation).maxFailures = breaker.maxFailures := by
  unfold observe
  split <;> rfl

@[simp]
theorem observe_predictive (observation : ℚ) :
    (breaker.observe planId observation).predictive = breaker.predictive := by
  unfold observe
  split <;> rfl

@[simp]
theorem observe_threshold (observation : ℚ) :
    (breaker.observe planId observation).forecastTripThreshold =
      breaker.forecastTripThreshold := by
  unfold observe
  split <;> rfl

theorem getElem?_observe (observation : ℚ) (other : String) :
    (breaker.observe planId observation).forecasters[other]? =
      if breaker.predictive = true ∧ planId = other then
        some ((breaker.forecasters[planId]?.getD {}).update observation)
      else breaker.forecasters[other]? := by
  unfold observe
  split
  case isTrue on =>
    unfold updateForecaster
    simp only [Std.ExtTreeMap.getElem?_insert, on, true_and]
    simp
  case isFalse off => simp [off]

theorem getElem?_observe_evalCounts (observation : ℚ) (other : String)
    (different : planId ≠ other) :
    (breaker.observe planId observation).evalCounts[other]? = breaker.evalCounts[other]? := by
  unfold observe
  split
  · unfold updateForecaster
    simp [Std.ExtTreeMap.getElem?_insert, different]
  · rfl

theorem getElem?_counted (other : String) :
    (breaker.counted planId reason nowMs).records[other]? =
      if planId = other then
        some
          { count := breaker.failureCount planId + 1
            lastFailureMs := some nowMs
            reasons := (breaker.records[planId]?.getD {}).reasons ++ [reason] }
      else breaker.records[other]? := by
  unfold counted
  simp [Std.ExtTreeMap.getElem?_insert]

theorem isTripped_iff :
    breaker.isTripped planId = true ↔
      breaker.CountTrips planId ∨ breaker.ForecastTrips planId := by
  unfold isTripped
  split
  · simp [*]
  · split <;> simp [*]

/-- The breaker after a failure. -/
def failed : CircuitBreaker :=
  (breaker.counted planId reason nowMs).observe planId 1

theorem recordFailure_eq :
    breaker.recordFailure planId reason nowMs =
      if (breaker.failed planId reason nowMs).maxFailures ≤ breaker.failureCount planId + 1 then
        (true, breaker.failed planId reason nowMs)
      else if (breaker.failed planId reason nowMs).ForecastTrips planId then
        (true, breaker.failed planId reason nowMs)
      else (false, breaker.failed planId reason nowMs) := by
  have count : (breaker.records[planId]?.getD {}).count = breaker.failureCount planId := by
    unfold failureCount
    cases breaker.records[planId]? <;> rfl
  unfold recordFailure
  simp only [count]
  rfl

theorem recordFailure_snd :
    (breaker.recordFailure planId reason nowMs).2 = breaker.failed planId reason nowMs := by
  rw [recordFailure_eq]
  split
  · rfl
  · split <;> rfl

theorem countTrips_failed :
    (breaker.failed planId reason nowMs).CountTrips planId ↔
      breaker.maxFailures ≤ breaker.failureCount planId + 1 := by
  unfold CountTrips failed
  simp [counted]

/-- The answer to a failure is what the breaker says afterwards. -/
theorem recordFailure_fst :
    (breaker.recordFailure planId reason nowMs).1 =
      (breaker.failed planId reason nowMs).isTripped planId := by
  rw [recordFailure_eq, Bool.eq_iff_iff, isTripped_iff, countTrips_failed]
  have same : (breaker.failed planId reason nowMs).maxFailures = breaker.maxFailures :=
    observe_maxFailures _ _ _
  rw [same]
  split
  · simp [*]
  · split <;> simp [*]

@[simp]
theorem step_recordFailure :
    breaker.step (.recordFailure planId reason nowMs) = breaker.failed planId reason nowMs :=
  recordFailure_snd breaker planId reason nowMs

@[simp]
theorem step_recordSuccess :
    breaker.step (.recordSuccess planId) = breaker.observe planId 0 :=
  rfl

theorem answer_recordFailure :
    breaker.answer (.recordFailure planId reason nowMs) =
      some ((breaker.failed planId reason nowMs).isTripped planId) :=
  congrArg some (recordFailure_fst breaker planId reason nowMs)

end Entries

/-- Two breakers agree on a plan. -/
structure Alike (planId : String) (left right : CircuitBreaker) : Prop where
  maxFailures : left.maxFailures = right.maxFailures
  predictive : left.predictive = right.predictive
  threshold : left.forecastTripThreshold = right.forecastTripThreshold
  record : left.records[planId]? = right.records[planId]?
  forecaster : left.forecasters[planId]? = right.forecasters[planId]?
  evals : left.evalCounts[planId]? = right.evalCounts[planId]?

variable {left right breaker : CircuitBreaker} {planId : String}

theorem Alike.refl (planId : String) (breaker : CircuitBreaker) :
    Alike planId breaker breaker :=
  ⟨rfl, rfl, rfl, rfl, rfl, rfl⟩

theorem Alike.trans {third : CircuitBreaker} (first : Alike planId left right)
    (second : Alike planId right third) : Alike planId left third :=
  ⟨first.maxFailures.trans second.maxFailures, first.predictive.trans second.predictive,
    first.threshold.trans second.threshold, first.record.trans second.record,
    first.forecaster.trans second.forecaster, first.evals.trans second.evals⟩

theorem Alike.isTripped (alike : Alike planId left right) :
    left.isTripped planId = right.isTripped planId := by
  rw [Bool.eq_iff_iff, isTripped_iff, isTripped_iff]
  unfold CountTrips ForecastTrips
  rw [alike.maxFailures, alike.predictive, alike.threshold, alike.record,
    alike.forecaster]

theorem Alike.observe (alike : Alike planId left right) (observation : ℚ) :
    Alike planId (left.observe planId observation) (right.observe planId observation) where
  maxFailures := by simp [alike.maxFailures]
  predictive := by simp [alike.predictive]
  threshold := by simp [alike.threshold]
  record := by simp [alike.record]
  forecaster := by simp [getElem?_observe, alike.predictive, alike.forecaster]
  evals := by
    unfold CircuitBreaker.observe
    rw [alike.predictive]
    split
    · unfold updateForecaster
      simp [alike.evals]
    · exact alike.evals

theorem Alike.failed (alike : Alike planId left right) (reason : String) (nowMs : Int) :
    Alike planId (left.failed planId reason nowMs) (right.failed planId reason nowMs) := by
  apply Alike.observe
  refine ⟨alike.maxFailures, alike.predictive, alike.threshold, ?_, alike.forecaster,
    alike.evals⟩
  have count : left.failureCount planId = right.failureCount planId := by
    unfold failureCount
    rw [alike.record]
  simp [getElem?_counted, count, alike.record]

theorem Alike.reset (alike : Alike planId left right) :
    Alike planId (left.reset planId) (right.reset planId) :=
  ⟨alike.maxFailures, alike.predictive, alike.threshold, by simp [CircuitBreaker.reset],
    by simp [CircuitBreaker.reset], by simp [CircuitBreaker.reset]⟩

/-- The same call on the plan keeps two breakers alike, and is answered alike. -/
theorem Alike.step (alike : Alike planId left right) {call : Call}
    (same : call.planId = planId) :
    Alike planId (left.step call) (right.step call) ∧ left.answer call = right.answer call := by
  cases call with
  | recordFailure plan reason nowMs =>
      obtain rfl : plan = planId := same
      have after := alike.failed reason nowMs
      rw [step_recordFailure, step_recordFailure, answer_recordFailure, answer_recordFailure]
      exact ⟨after, congrArg some after.isTripped⟩
  | recordSuccess plan =>
      obtain rfl : plan = planId := same
      exact ⟨alike.observe 0, rfl⟩
  | reset plan =>
      obtain rfl : plan = planId := same
      exact ⟨alike.reset, rfl⟩

/-- A call on another plan leaves the plan alone. -/
theorem alike_step_other (breaker : CircuitBreaker) {call : Call}
    (other : call.planId ≠ planId) : Alike planId (breaker.step call) breaker := by
  cases call with
  | recordFailure plan reason nowMs =>
      have different : plan ≠ planId := other
      rw [step_recordFailure, CircuitBreaker.failed]
      exact ⟨by simp [counted], by simp [counted], by simp [counted],
        by simp [getElem?_counted, different], by simp [getElem?_observe, different, counted],
        getElem?_observe_evalCounts _ _ _ _ different⟩
  | recordSuccess plan =>
      have different : plan ≠ planId := other
      exact ⟨observe_maxFailures _ _ _, observe_predictive _ _ _, observe_threshold _ _ _,
        by simp, by simp [getElem?_observe, different],
        getElem?_observe_evalCounts _ _ _ _ different⟩
  | reset plan =>
      have different : plan ≠ planId := other
      unfold CircuitBreaker.step CircuitBreaker.reset
      exact ⟨rfl, rfl, rfl, by simp [Std.ExtTreeMap.getElem?_erase, different],
        by simp [Std.ExtTreeMap.getElem?_erase, different],
        by simp [Std.ExtTreeMap.getElem?_erase, different]⟩

/-- The answers that the calls on a plan are given. -/
def answersTo (planId : String) : CircuitBreaker → List Call → List (Option Bool)
  | _, [] => []
  | breaker, call :: calls =>
      if call.planId = planId then
        breaker.answer call :: answersTo planId (breaker.step call) calls
      else answersTo planId (breaker.step call) calls

/-- A plan fares as if only the calls on it were made. -/
theorem Alike.run (alike : Alike planId left right) (calls : List Call) :
    Alike planId (calls.foldl CircuitBreaker.step left)
        ((calls.filter (·.planId = planId)).foldl CircuitBreaker.step right) ∧
      answersTo planId left calls =
        answersTo planId right (calls.filter (·.planId = planId)) := by
  induction calls generalizing left right with
  | nil => exact ⟨alike, rfl⟩
  | cons call calls ih =>
      by_cases same : call.planId = planId
      · obtain ⟨next, answered⟩ := alike.step same
        obtain ⟨later, answers⟩ := ih next
        simp only [List.filter_cons, same, decide_true, if_true, List.foldl_cons]
        exact ⟨later, by simp [answersTo, same, answered, answers]⟩
      · have unmoved := (alike_step_other left same).trans alike
        simpa [same, answersTo] using ih unmoved

/-- No forecast has tripped a plan before its count did. -/
def CountOnly (breaker : CircuitBreaker) : Prop :=
  ∀ planId, breaker.ForecastTrips planId → breaker.CountTrips planId

/-- The call leaves tripped what the count has tripped, unless it is the reset of it. -/
def KeepsTripped (breaker : CircuitBreaker) (call : Call) : Prop :=
  ∀ planId, call ≠ .reset planId → breaker.CountTrips planId →
    (breaker.step call).CountTrips planId

/-- The condition on a call: the counter of the plan is not at its end, and the forecast
does not trip the plan before the count does. -/
def CountsFirst (breaker : CircuitBreaker) : Call → Prop
  | .recordFailure planId _ _ =>
      (breaker.maxFailures = 0 ∨ breaker.failureCount planId ≠ u32Max) ∧
        (breaker.predictive = true →
          breaker.maxFailures ≤ breaker.failureCount planId + 1 ∨
            ¬ ((breaker.forecasters[planId]?.getD {}).update 1).Trips
              breaker.forecastTripThreshold)
  | .recordSuccess planId =>
      breaker.predictive = true →
        breaker.CountTrips planId ∨
          ¬ ((breaker.forecasters[planId]?.getD {}).update 0).Trips
            breaker.forecastTripThreshold
  | .reset _ => True

theorem le_succ_of_ne_max {least count : UInt32} (reached : least ≤ count)
    (below : count ≠ u32Max) : least ≤ count + 1 := by
  have bound : count.toNat ≠ 4294967295 := fun same => below (UInt32.toNat_inj.mp same)
  have limit := count.toNat_lt
  rw [UInt32.le_iff_toNat_le] at reached ⊢
  rw [UInt32.toNat_add]
  have one : (1 : UInt32).toNat = 1 := rfl
  omega

theorem le_u32Max (count : UInt32) : count ≤ u32Max := by
  have limit := count.toNat_lt
  have last : u32Max.toNat = 4294967295 := rfl
  rw [UInt32.le_iff_toNat_le]
  omega

theorem countTrips_iff :
    breaker.CountTrips planId ↔
      planId ∈ breaker.records ∧ breaker.maxFailures ≤ breaker.failureCount planId := by
  unfold CountTrips failureCount
  rw [Std.ExtTreeMap.mem_iff_isSome_getElem?]
  cases breaker.records[planId]? <;> simp

theorem Alike.countTrips (alike : Alike planId left right) :
    left.CountTrips planId ↔ right.CountTrips planId := by
  unfold CountTrips
  rw [alike.maxFailures, alike.record]

theorem Alike.forecastTrips (alike : Alike planId left right) :
    left.ForecastTrips planId ↔ right.ForecastTrips planId := by
  unfold ForecastTrips
  rw [alike.predictive, alike.threshold, alike.forecaster]

theorem forecastTrips_observe (breaker : CircuitBreaker) (planId : String)
    (observation : ℚ) :
    (breaker.observe planId observation).ForecastTrips planId ↔
      breaker.predictive = true ∧
        ((breaker.forecasters[planId]?.getD {}).update observation).Trips
          breaker.forecastTripThreshold := by
  unfold ForecastTrips
  simp only [observe_predictive, observe_threshold, getElem?_observe]
  constructor
  · rintro ⟨on, forecaster, found, trips⟩
    simp only [on, and_self, if_true, Option.mem_some_iff] at found
    rw [found]
    exact ⟨on, trips⟩
  · rintro ⟨on, trips⟩
    exact ⟨on, _, by simp [on], trips⟩

theorem countTrips_observe (breaker : CircuitBreaker) (planId other : String)
    (observation : ℚ) :
    (breaker.observe planId observation).CountTrips other ↔ breaker.CountTrips other := by
  unfold CountTrips
  rw [observe_maxFailures, observe_records]

/-- What a call does to other plans keeps both conditions. -/
theorem exact_of_plan (only : CountOnly breaker) {call : Call} (planId : String)
    (same : call.planId = planId) :
    (CountOnly (breaker.step call) ∧ KeepsTripped breaker call) ↔
      ((breaker.step call).ForecastTrips planId → (breaker.step call).CountTrips planId) ∧
        (call ≠ .reset planId → breaker.CountTrips planId →
          (breaker.step call).CountTrips planId) := by
  constructor
  · rintro ⟨next, keeps⟩
    exact ⟨next planId, keeps planId⟩
  · rintro ⟨next, keeps⟩
    have others : ∀ other, other ≠ planId → Alike other (breaker.step call) breaker :=
      fun other different => alike_step_other breaker (same.trans_ne different.symm)
    constructor
    · intro other trips
      by_cases this : other = planId
      · rw [this] at trips ⊢
        exact next trips
      · rw [(others other this).countTrips]
        exact only other ((others other this).forecastTrips.mp trips)
    · intro other notReset counts
      by_cases this : other = planId
      · rw [this] at notReset counts ⊢
        exact keeps notReset counts
      · exact (others other this).countTrips.mpr counts

/-- A failure keeps both when the counter of the plan is not at its end and the forecast
does not come first. -/
theorem countsFirst_recordFailure_iff (breaker : CircuitBreaker) (planId reason : String)
    (nowMs : Int) :
    CountsFirst breaker (.recordFailure planId reason nowMs) ↔
      ((breaker.failed planId reason nowMs).ForecastTrips planId →
          (breaker.failed planId reason nowMs).CountTrips planId) ∧
        (breaker.CountTrips planId →
          (breaker.failed planId reason nowMs).CountTrips planId) := by
  have forecast := forecastTrips_observe (breaker.counted planId reason nowMs) planId 1
  simp only [countTrips_failed, CountsFirst]
  unfold failed
  rw [forecast, countTrips_iff]
  simp only [counted]
  constructor
  · rintro ⟨below, behind⟩
    refine ⟨fun trips => (behind trips.1).resolve_right (not_not.mpr trips.2), ?_⟩
    rintro ⟨-, reached⟩
    rcases below with zero | below
    · rw [zero]
      exact UInt32.zero_le
    · exact le_succ_of_ne_max reached below
  · rintro ⟨behind, keeps⟩
    constructor
    · by_contra wraps
      rw [not_or, not_not] at wraps
      have recorded : planId ∈ breaker.records := by
        by_contra absent
        have none := wraps.2
        rw [failureCount, Std.ExtTreeMap.getElem?_eq_none absent] at none
        cases none
      have reached := keeps ⟨recorded, by rw [wraps.2]; exact le_u32Max _⟩
      rw [wraps.2] at reached
      exact wraps.1 (UInt32.le_zero_iff.mp reached)
    · intro on
      rw [or_iff_not_imp_right, not_not]
      exact fun trips => behind ⟨on, trips⟩

/-- A success changes no count, so it must not bring the forecast up. -/
theorem countsFirst_recordSuccess_iff (breaker : CircuitBreaker) (planId : String) :
    CountsFirst breaker (.recordSuccess planId) ↔
      ((breaker.observe planId 0).ForecastTrips planId →
        (breaker.observe planId 0).CountTrips planId) := by
  simp only [CountsFirst, forecastTrips_observe, countTrips_observe]
  constructor
  · exact fun behind trips => (behind trips.1).resolve_right (not_not.mpr trips.2)
  · intro behind on
    rw [or_iff_not_imp_right, not_not]
    exact fun trips => behind ⟨on, trips⟩

/-- The condition says exactly which calls keep forecasts behind counts and counts
tripped. -/
theorem countsFirst_iff (only : CountOnly breaker) (call : Call) :
    CountsFirst breaker call ↔
      CountOnly (breaker.step call) ∧ KeepsTripped breaker call := by
  rw [exact_of_plan only call.planId rfl]
  cases call with
  | recordFailure planId reason nowMs =>
      rw [countsFirst_recordFailure_iff, step_recordFailure]
      simp [Call.planId]
  | recordSuccess planId =>
      rw [countsFirst_recordSuccess_iff, step_recordSuccess]
      simp [Call.planId, countTrips_observe]
  | reset planId =>
      simp [CountsFirst, Call.planId, CircuitBreaker.step, CircuitBreaker.reset, ForecastTrips]

/-- A breaker that was rebuilt from a snapshot of another one. -/
structure Rebuilt (original rebuilt : CircuitBreaker) : Prop where
  maxFailures : rebuilt.maxFailures = original.maxFailures
  records : rebuilt.records = original.records
  notPredictive : rebuilt.predictive = false

theorem rebuilt_fromState (breaker : CircuitBreaker) :
    Rebuilt breaker (fromState breaker.snapshotState) :=
  ⟨rfl, rfl, rfl⟩

variable {original rebuilt : CircuitBreaker}

/-- The rebuilt breaker goes by the counts of the original one. -/
theorem Rebuilt.isTripped (same : Rebuilt original rebuilt) (planId : String) :
    rebuilt.isTripped planId = true ↔ original.CountTrips planId := by
  rw [isTripped_iff]
  unfold CountTrips ForecastTrips
  simp [same.maxFailures, same.records, same.notPredictive]

theorem CountOnly.isTripped (only : CountOnly breaker) (planId : String) :
    breaker.isTripped planId = true ↔ breaker.CountTrips planId := by
  rw [isTripped_iff]
  exact or_iff_left_of_imp (only planId)

theorem Rebuilt.isTripped_eq (same : Rebuilt original rebuilt) (only : CountOnly original) :
    rebuilt.isTripped = original.isTripped := by
  funext planId
  rw [Bool.eq_iff_iff, same.isTripped, only.isTripped]

theorem Rebuilt.step (same : Rebuilt original rebuilt) (call : Call) :
    Rebuilt (original.step call) (rebuilt.step call) := by
  cases call with
  | recordFailure planId reason nowMs =>
      rw [step_recordFailure, step_recordFailure, failed, failed]
      refine ⟨?_, ?_, ?_⟩
      · simp [counted, same.maxFailures]
      · simp [counted, failureCount, same.records]
      · simp [counted, same.notPredictive]
  | recordSuccess planId =>
      rw [step_recordSuccess, step_recordSuccess]
      exact ⟨by simp [same.maxFailures], by simp [same.records], by simp [same.notPredictive]⟩
  | reset planId =>
      unfold CircuitBreaker.step reset
      exact ⟨same.maxFailures, by simp [same.records], same.notPredictive⟩

/-- As long as the forecasts stay behind the counts, the answers are the same. -/
theorem Rebuilt.answer (same : Rebuilt original rebuilt) {call : Call}
    (only : CountOnly (original.step call)) :
    rebuilt.answer call = original.answer call := by
  cases call with
  | recordFailure planId reason nowMs =>
      have after := (same.step (.recordFailure planId reason nowMs)).isTripped_eq only
      rw [step_recordFailure, step_recordFailure] at after
      rw [answer_recordFailure, answer_recordFailure, after]
  | recordSuccess planId => rfl
  | reset planId => rfl

/-- What a breaker can be seen to do along the calls: which plans are tripped before and
after each of them, and its answers. -/
def seen (breaker : CircuitBreaker) (calls : List Call) :
    List (String → Bool) × List (Option Bool) :=
  ((GuardedRun.states step breaker calls).map isTripped,
    (GuardedRun.steps step breaker calls).map fun taken => taken.1.answer taken.2)

theorem Rebuilt.seen (same : Rebuilt original rebuilt) {calls : List Call}
    (only : ∀ state ∈ GuardedRun.states CircuitBreaker.step original calls,
      CountOnly state) :
    rebuilt.seen calls = original.seen calls := by
  unfold CircuitBreaker.seen
  induction calls generalizing original rebuilt with
  | nil =>
      simpa [GuardedRun.steps] using same.isTripped_eq (only original (by simp))
  | cons call calls ih =>
      rw [GuardedRun.states_cons, List.forall_mem_cons] at only
      have here := same.isTripped_eq only.1
      have answered := same.answer (only.2 _ (GuardedRun.start_mem_states _ _))
      have later := ih (same.step call) only.2
      rw [Prod.mk.injEq] at later ⊢
      simp [GuardedRun.states_cons, GuardedRun.steps, here, answered, later]

/-- What a history of calls promises. -/
structure Lawful (start : CircuitBreaker) (calls : List Call) : Prop where
  /-- A plan that a failure tripped stays tripped until it is reset. -/
  latched : ∀ before planId reason nowMs after rest,
    calls = before ++ .recordFailure planId reason nowMs :: (after ++ rest) →
      ((before.foldl step start).recordFailure planId reason nowMs).1 = true →
      .reset planId ∉ after →
      ((before ++ .recordFailure planId reason nowMs :: after).foldl step start).isTripped
        planId = true
  /-- The answer to a failure is what the breaker says right after it. -/
  answered : ∀ before planId reason nowMs rest,
    calls = before ++ .recordFailure planId reason nowMs :: rest →
      ((before.foldl step start).recordFailure planId reason nowMs).1 =
        ((before ++ [.recordFailure planId reason nowMs]).foldl step start).isTripped planId
  /-- A plan fares as if the calls on other plans were not made. -/
  independent : ∀ before rest planId, calls = before ++ rest →
    (before.foldl step start).isTripped planId =
        ((before.filter (·.planId = planId)).foldl step start).isTripped planId ∧
      answersTo planId start before =
        answersTo planId start (before.filter (·.planId = planId))
  /-- A breaker rebuilt from a snapshot goes on like the one it was taken from. -/
  restored : ∀ before after, calls = before ++ after →
    (fromState (before.foldl step start).snapshotState).seen after =
      (before.foldl step start).seen after

/-- What the count tripped stays tripped over calls that keep it and do not reset it. -/
theorem CountTrips.run {calls : List Call} (trips : breaker.CountTrips planId)
    (keeps : GuardedRun.Guarded step KeepsTripped breaker calls)
    (noReset : .reset planId ∉ calls) : (calls.foldl step breaker).CountTrips planId := by
  induction calls generalizing breaker with
  | nil => exact trips
  | cons call calls ih =>
      rw [List.mem_cons, not_or] at noReset
      rw [GuardedRun.guarded_cons] at keeps
      exact ih (keeps.1 planId (Ne.symm noReset.1) trips) keeps.2 noReset.2

theorem step_eq_failed (before : List Call) (start : CircuitBreaker) (planId reason : String)
    (nowMs : Int) (after : List Call) :
    (before ++ .recordFailure planId reason nowMs :: after).foldl step start =
      after.foldl step ((before.foldl step start).failed planId reason nowMs) := by
  rw [List.foldl_append, List.foldl_cons, step_recordFailure]

/-- A history in which the forecasts stay behind the counts keeps its promises. -/
theorem lawful_of_countOnly {start : CircuitBreaker} {calls : List Call}
    (only : ∀ state ∈ GuardedRun.states step start calls, CountOnly state)
    (keeps : GuardedRun.Guarded step KeepsTripped start calls) : Lawful start calls where
  latched := by
    intro before planId reason nowMs after rest split tripped noReset
    have reached : ∀ earlier, earlier <+: calls → CountOnly (earlier.foldl step start) :=
      fun earlier isPrefix => only _ (GuardedRun.mem_states_iff.mpr ⟨earlier, isPrefix, rfl⟩)
    have counts : ((before.foldl step start).failed planId reason nowMs).CountTrips planId := by
      have here := reached (before ++ [.recordFailure planId reason nowMs])
        ⟨after ++ rest, by simp [split]⟩
      rw [step_eq_failed, List.foldl_nil] at here
      rw [recordFailure_fst] at tripped
      exact (here.isTripped planId).mp tripped
    have whole := reached (before ++ .recordFailure planId reason nowMs :: after)
      ⟨rest, by simp [split]⟩
    rw [split, GuardedRun.guarded_append, GuardedRun.guarded_cons, step_recordFailure,
      GuardedRun.guarded_append] at keeps
    rw [whole.isTripped, step_eq_failed]
    exact counts.run keeps.2.2.1 noReset
  answered := by
    intro before planId reason nowMs rest _
    rw [recordFailure_fst, step_eq_failed, List.foldl_nil]
  independent := by
    intro before rest planId _
    obtain ⟨alike, answers⟩ := (Alike.refl planId start).run before
    exact ⟨alike.isTripped, answers⟩
  restored := by
    intro before after split
    refine (rebuilt_fromState _).seen ?_
    intro state member
    obtain ⟨earlier, isPrefix, rfl⟩ := GuardedRun.mem_states_iff.mp member
    refine only _ (GuardedRun.mem_states_iff.mpr ⟨before ++ earlier, ?_, ?_⟩)
    · rw [split]
      exact (List.prefix_append_right_inj before).mpr isPrefix
    · rw [List.foldl_append]

/-- A history that keeps its promises never has a forecast ahead of the count. -/
theorem Lawful.countOnly {start : CircuitBreaker} {calls : List Call}
    (lawful : Lawful start calls) :
    ∀ state ∈ GuardedRun.states step start calls, CountOnly state := by
  intro state member planId trips
  obtain ⟨earlier, ⟨rest, split⟩, rfl⟩ := GuardedRun.mem_states_iff.mp member
  have same := congrArg Prod.fst (lawful.restored earlier rest split.symm)
  have heads : (fromState (earlier.foldl step start).snapshotState).isTripped =
      (earlier.foldl step start).isTripped := (List.cons_eq_cons.mp same).1
  rw [← (rebuilt_fromState _).isTripped, heads, isTripped_iff]
  exact Or.inr trips

theorem records_built (maxFailures : UInt32) (mode : Option ℚ) :
    (built maxFailures mode).records = ∅ := by
  cases mode <;> rfl

theorem maxFailures_step (breaker : CircuitBreaker) (call : Call) :
    (breaker.step call).maxFailures = breaker.maxFailures := by
  cases call with
  | recordFailure planId reason nowMs => simp [failed, counted]
  | recordSuccess planId => simp
  | reset planId => rfl

theorem maxFailures_run (breaker : CircuitBreaker) (calls : List Call) :
    (calls.foldl step breaker).maxFailures = breaker.maxFailures := by
  induction calls generalizing breaker with
  | nil => rfl
  | cons call calls ih => rw [List.foldl_cons, ih, maxFailures_step]

/-- A record is there since a failure after which the plan was not reset. -/
theorem last_failure {start : CircuitBreaker} (empty : start.records = ∅) {calls : List Call}
    {record : FailureRecord} (found : (calls.foldl step start).records[planId]? = some record) :
    ∃ before reason nowMs after,
      calls = before ++ .recordFailure planId reason nowMs :: after ∧
        .reset planId ∉ after ∧
        ((before.foldl step start).failed planId reason nowMs).records[planId]? =
          some record := by
  rcases GuardedRun.last_change step (fun breaker => breaker.records[planId]?) start calls with
    always | ⟨before, call, after, split, changed, since⟩
  · have none := always start (GuardedRun.start_mem_states _ _)
    rw [found, empty] at none
    simp at none
  · have next := since _ (GuardedRun.start_mem_states _ _)
    rw [found] at next changed since
    have mine : call.planId = planId := by
      by_contra other
      exact changed ((alike_step_other _ other).record.symm.trans next)
    have noReset : .reset planId ∉ after := by
      intro member
      obtain ⟨first, last, rfl⟩ := List.append_of_mem member
      have cleared := since ((first ++ [Call.reset planId]).foldl step
        ((before.foldl step start).step call))
        (GuardedRun.mem_states_iff.mpr ⟨first ++ [.reset planId], ⟨last, by simp⟩, rfl⟩)
      rw [List.foldl_append, List.foldl_cons] at cleared
      simp [step, reset] at cleared
    cases call with
    | recordFailure plan reason nowMs =>
        obtain rfl : plan = planId := mine
        rw [step_recordFailure] at next
        exact ⟨before, reason, nowMs, after, split, noReset, next⟩
    | recordSuccess plan =>
        rw [step_recordSuccess, observe_records] at next
        exact absurd next changed
    | reset plan =>
        obtain rfl : plan = planId := mine
        simp [step, reset] at next

/-- A history that keeps its promises keeps tripped what the counts have tripped. -/
theorem Lawful.keepsTripped {start : CircuitBreaker} (empty : start.records = ∅)
    {calls : List Call} (lawful : Lawful start calls) :
    GuardedRun.Guarded step KeepsTripped start calls := by
  intro pair member planId notReset counts
  have only := lawful.countOnly _ (GuardedRun.mem_states_of_mem_steps member).2
  obtain ⟨earlier, later, split, same⟩ := GuardedRun.mem_steps_iff.mp member
  obtain ⟨record, found, reached⟩ := id counts
  rw [same] at found
  obtain ⟨before, reason, nowMs, after, rfl, noReset, kept⟩ := last_failure empty found
  have tripped : ((before.foldl step start).recordFailure planId reason nowMs).1 = true := by
    rw [recordFailure_fst, isTripped_iff]
    left
    refine ⟨record, kept, ?_⟩
    rw [same, maxFailures_run] at reached
    rw [← step_recordFailure, maxFailures_step, maxFailures_run]
    exact reached
  have still := lawful.latched before planId reason nowMs (after ++ [pair.2]) later
    (by simp [split]) tripped (by simp [noReset, notReset.symm])
  rw [← only.isTripped]
  convert still using 2
  rw [same]
  simp [List.foldl_append]

theorem countOnly_built (maxFailures : UInt32) (mode : Option ℚ) :
    CountOnly (built maxFailures mode) := by
  rintro planId ⟨-, forecaster, found, -⟩
  cases mode with
  | none => simp [built, new] at found
  | some threshold => simp [built, new, withPredictive] at found

/-- A history of calls keeps its promises exactly when no counter is at its end and no
forecast trips a plan before the count does. -/
theorem lawful_iff (maxFailures : UInt32) (mode : Option ℚ) (calls : List Call) :
    Lawful (built maxFailures mode) calls ↔
      GuardedRun.Guarded step CountsFirst (built maxFailures mode) calls := by
  have start := countOnly_built maxFailures mode
  rw [GuardedRun.guarded_iff_kept step CountsFirst KeepsTripped CountOnly CountOnly
    (fun _ call only => countsFirst_iff only call)
    (fun _ call only first => ((countsFirst_iff only call).mp first).1) start start]
  constructor
  · exact fun lawful =>
      ⟨lawful.countOnly, lawful.keepsTripped (records_built maxFailures mode)⟩
  · rintro ⟨only, keeps⟩
    exact lawful_of_countOnly only keeps

/-- Two failures trip the plan by its forecast, and two successes untrip it. -/
theorem successes_untrip :
    ¬ Lawful (built 3 (some (1 / 2)))
      [.recordFailure "plan" "compile" 0, .recordFailure "plan" "compile" 1,
        .recordSuccess "plan", .recordSuccess "plan"] := by
  intro lawful
  have still := lawful.latched [.recordFailure "plan" "compile" 0] "plan" "compile" 1
    [.recordSuccess "plan", .recordSuccess "plan"] [] rfl (by decide +kernel) (by decide)
  revert still
  decide +kernel

end CircuitBreaker

end Roko
