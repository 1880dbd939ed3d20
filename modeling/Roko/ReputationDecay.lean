import Roko.WorkerArithmetic

/-!
# Decay over whole periods

The loops that decay a reputation make one halving for each whole period since the last
update, and at most 64.  The cap is invisible: no distance within a scale survives that
many halvings.  A loop keeps the order of two scores.
-/

namespace Roko

open Contracts

/-- What decays the scores up to `top` towards `mid` makes this many halvings. -/
structure DecaysBy (mid top periods : Nat) (decayed : Nat → Except Revert Nat) : Prop where
  uncapped : ∀ score, score ≤ top →
    decayed score = .ok ((LazyDecay.halve mid)^[periods] score)
  distance : ∀ score after, score ≤ top → decayed score = .ok after →
    Nat.dist after mid = Nat.dist score mid / 2 ^ periods
  monotone : ∀ low high lowAfter highAfter, low ≤ high → high ≤ top →
    decayed low = .ok lowAfter → decayed high = .ok highAfter → lowAfter ≤ highAfter

theorem decaysBy_of_uncapped {mid top periods : Nat} {decayed : Nat → Except Revert Nat}
    (uncapped : ∀ score, score ≤ top →
      decayed score = .ok ((LazyDecay.halve mid)^[periods] score)) :
    DecaysBy mid top periods decayed where
  uncapped := uncapped
  distance score after within result := by
    rw [uncapped score within] at result
    rw [← Except.ok.inj result, LazyDecay.dist_iterate_halve]
  monotone low high lowAfter highAfter order within lowResult highResult := by
    rw [uncapped low (order.trans within)] at lowResult
    rw [uncapped high within] at highResult
    rw [← Except.ok.inj lowResult, ← Except.ok.inj highResult]
    exact (LazyDecay.halve_mono mid).iterate periods order

theorem dist_half_lt {top score : Nat} (small : top < 2 ^ 64) (within : score ≤ top) :
    Nat.dist score (top / 2) < 2 ^ 64 := by
  unfold Nat.dist
  omega

/-- The halvings of a registry that makes at most 64 of them. -/
theorem halvings_of_elapsed {top score : Nat} (small : top < 2 ^ 64) (within : score ≤ top)
    (periods : Nat) :
    (if periods = 0 then score
      else (LazyDecay.halve (top / 2))^[min periods 64] score) =
      (LazyDecay.halve (top / 2))^[periods] score := by
  split
  case isTrue none => rw [none, Function.iterate_zero, id_eq]
  case isFalse => exact LazyDecay.iterate_halve_min (dist_half_lt small within) periods

namespace WorkerRegistry

/-- The whole periods since the last update. -/
def elapsedPeriods (now lastUpdated : Nat) : Nat :=
  (toUint64 now - lastUpdated) / decayPeriod

theorem loop_decays (periods : Nat) :
    DecaysBy (scale / 2) scale periods (checkedHalvings (min periods 64)) := by
  apply decaysBy_of_uncapped
  intro score within
  rw [checkedHalvings_eq _ within,
    LazyDecay.iterate_halve_min (dist_half_lt (by decide) within)]

theorem effectiveReputation_eq (now : Nat) {worker : Worker}
    (within : worker.reputation ≤ scale) :
    effectiveReputation now worker =
      (LazyDecay.halve (scale / 2))^[elapsedPeriods now worker.lastUpdated]
        worker.reputation := by
  rw [← halvings_of_elapsed (by decide) within]
  unfold effectiveReputation elapsedPeriods
  dsimp only
  split
  case isTrue early => rw [Nat.sub_eq_zero_of_le early, Nat.zero_div, if_pos rfl]
  case isFalse => rfl

theorem checkedEffectiveReputation_decays (now : Nat) (worker : Worker) :
    DecaysBy (scale / 2) scale (elapsedPeriods now worker.lastUpdated) fun reputation =>
      checkedEffectiveReputation now { worker with reputation } := by
  apply decaysBy_of_uncapped
  intro score within
  have bounded : ({ worker with reputation := score } : Worker).reputation ≤ scale := within
  rw [checkedEffectiveReputation_eq now bounded, effectiveReputation_eq now bounded]

theorem applyDecay_reputation (now : Nat) (worker : Worker) :
    (applyDecay now worker).reputation = effectiveReputation now worker := by
  unfold applyDecay effectiveReputation
  dsimp only
  split
  · rfl
  · split <;> rfl

theorem checkedApplyDecay_decays (now : Nat) (worker : Worker) :
    DecaysBy (scale / 2) scale (elapsedPeriods now worker.lastUpdated) fun reputation =>
      (checkedApplyDecay now { worker with reputation }).map Worker.reputation := by
  apply decaysBy_of_uncapped
  intro score within
  have bounded : ({ worker with reputation := score } : Worker).reputation ≤ scale := within
  rw [checkedApplyDecay_eq now bounded, ← effectiveReputation_eq now bounded,
    ← applyDecay_reputation]
  rfl

/-- Workers that were updated equally many whole periods ago stay in their order. -/
def KeepsOrder (now : Nat) (low high : Worker) : Prop :=
  elapsedPeriods now low.lastUpdated = elapsedPeriods now high.lastUpdated →
  low.reputation ≤ high.reputation → high.reputation ≤ scale →
  effectiveReputation now low ≤ effectiveReputation now high

theorem keepsOrder (now : Nat) (low high : Worker) : KeepsOrder now low high := by
  intro sameElapsed order within
  rw [effectiveReputation_eq now (order.trans within), effectiveReputation_eq now within,
    sameElapsed]
  exact (LazyDecay.halve_mono _).iterate _ order

end WorkerRegistry

namespace ReputationRegistry

/-- One round of the loop of `_decay`. -/
def checkedHalve (current : Nat) : Except Revert Nat :=
  let mid := scale / 2
  if mid < current then do
    let up ← checkedSub current mid
    checkedAdd 256 mid (up / 2)
  else do
    let down ← checkedSub mid current
    checkedSub mid (down / 2)

def checkedHalvings : Nat → Nat → Except Revert Nat
  | 0, current => .ok current
  | rounds + 1, current => do
      let current ← checkedHalve current
      checkedHalvings rounds current

/-- `_decay`, with all of its checks. -/
def checkedDecay (now score lastUpdate : Nat) : Except Revert Nat :=
  if lastUpdate = 0 ∨ now ≤ lastUpdate then .ok score
  else do
    let elapsed ← checkedSub now lastUpdate
    let halvings := elapsed / decayPeriod
    if halvings = 0 then .ok score
    else checkedHalvings (min halvings 64) score

/-- The whole periods since the last update.  A score that has never been updated does
not decay. -/
def elapsedPeriods (now lastUpdate : Nat) : Nat :=
  if lastUpdate = 0 then 0 else (now - lastUpdate) / decayPeriod

theorem checkedHalvings_eq (rounds : Nat) {current : Nat} (bounded : current ≤ scale) :
    checkedHalvings rounds current = .ok ((LazyDecay.halve (scale / 2))^[rounds] current) := by
  induction rounds generalizing current with
  | zero => rfl
  | succ rounds ih =>
      have next := LazyDecay.iterate_halve_le 1 (Nat.div_le_self scale 2) bounded
      have small : scale / 2 + (current - scale / 2) / 2 < 2 ^ 256 := by
        simp only [scale] at bounded ⊢
        omega
      rw [checkedHalvings, bind_ok_iff]
      exact ⟨_, WorkerRegistry.checked_halve small, ih next⟩

theorem loop_decays (periods : Nat) :
    DecaysBy (scale / 2) scale periods (checkedHalvings (min periods 64)) := by
  apply decaysBy_of_uncapped
  intro score within
  rw [checkedHalvings_eq _ within,
    LazyDecay.iterate_halve_min (dist_half_lt (by decide) within)]

theorem decay_eq (now : Nat) {score : Nat} (lastUpdate : Nat) (within : score ≤ scale) :
    decay now score lastUpdate =
      (LazyDecay.halve (scale / 2))^[elapsedPeriods now lastUpdate] score := by
  rw [← halvings_of_elapsed (by decide) within]
  unfold decay elapsedPeriods
  by_cases never : lastUpdate = 0
  · rw [if_pos (Or.inl never), if_pos never, if_pos rfl]
  · rw [if_neg never]
    by_cases early : now ≤ lastUpdate
    · rw [if_pos (Or.inr early), Nat.sub_eq_zero_of_le early, Nat.zero_div, if_pos rfl]
    · rw [if_neg (by tauto)]

theorem checkedDecay_eq (now : Nat) {score : Nat} (lastUpdate : Nat)
    (within : score ≤ scale) :
    checkedDecay now score lastUpdate = .ok (decay now score lastUpdate) := by
  unfold checkedDecay decay
  split
  case isTrue => rfl
  case isFalse later =>
    rw [bind_ok_iff]
    refine ⟨_, checkedSub_ok_iff.mpr ⟨by omega, rfl⟩, ?_⟩
    dsimp only
    split
    case isTrue => rfl
    case isFalse => exact checkedHalvings_eq _ within

theorem checkedDecay_decays (now lastUpdate : Nat) :
    DecaysBy (scale / 2) scale (elapsedPeriods now lastUpdate) fun score =>
      checkedDecay now score lastUpdate := by
  apply decaysBy_of_uncapped
  intro score within
  rw [checkedDecay_eq now lastUpdate within, decay_eq now lastUpdate within]

end ReputationRegistry

/-- Every decay of the two registries makes one halving for each whole period, in the
loops for every number of periods and in the functions for those that have elapsed. -/
theorem decays_by_periods :
    (∀ periods,
      DecaysBy (WorkerRegistry.scale / 2) WorkerRegistry.scale periods
          (WorkerRegistry.checkedHalvings (min periods 64)) ∧
        DecaysBy (ReputationRegistry.scale / 2) ReputationRegistry.scale periods
          (ReputationRegistry.checkedHalvings (min periods 64))) ∧
    (∀ (now : Nat) (worker : Worker),
      DecaysBy (WorkerRegistry.scale / 2) WorkerRegistry.scale
          (WorkerRegistry.elapsedPeriods now worker.lastUpdated)
          (fun reputation =>
            WorkerRegistry.checkedEffectiveReputation now { worker with reputation }) ∧
        DecaysBy (WorkerRegistry.scale / 2) WorkerRegistry.scale
          (WorkerRegistry.elapsedPeriods now worker.lastUpdated)
          (fun reputation =>
            (WorkerRegistry.checkedApplyDecay now { worker with reputation }).map
              Worker.reputation)) ∧
    (∀ now low high, WorkerRegistry.KeepsOrder now low high) ∧
    ∀ now lastUpdate,
      DecaysBy (ReputationRegistry.scale / 2) ReputationRegistry.scale
        (ReputationRegistry.elapsedPeriods now lastUpdate)
        (fun score => ReputationRegistry.checkedDecay now score lastUpdate) :=
  ⟨fun periods =>
      ⟨WorkerRegistry.loop_decays periods, ReputationRegistry.loop_decays periods⟩,
    fun now worker => ⟨WorkerRegistry.checkedEffectiveReputation_decays now worker,
      WorkerRegistry.checkedApplyDecay_decays now worker⟩,
    WorkerRegistry.keepsOrder, ReputationRegistry.checkedDecay_decays⟩

end Roko
