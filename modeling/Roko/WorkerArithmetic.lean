import Roko.MarketEffects

/-!
# The arithmetic of the worker registry

Every addition and subtraction of the contract is checked.  Here decay, the views and
`updateReputation` are written with all of their checks.  While a reputation stays within
the scale the checks pass, and the results are those of the plain arithmetic.
-/

namespace Roko

open Contracts

namespace WorkerRegistry

/-- One round of the loop of `_applyDecay`. -/
def checkedHalve (reputation : Nat) : Except Revert Nat :=
  let mid := scale / 2
  if mid < reputation then do
    let up ← checkedSub reputation mid
    checkedAdd 256 mid (up / 2)
  else do
    let down ← checkedSub mid reputation
    checkedSub mid (down / 2)

def checkedHalvings : Nat → Nat → Except Revert Nat
  | 0, reputation => .ok reputation
  | rounds + 1, reputation => do
      let reputation ← checkedHalve reputation
      checkedHalvings rounds reputation

def checkedApplyDecay (now : Nat) (worker : Worker) : Except Revert Worker :=
  let nowTs := toUint64 now
  if nowTs ≤ worker.lastUpdated then .ok worker
  else do
    let elapsed ← checkedSub nowTs worker.lastUpdated
    let halvings := elapsed / decayPeriod
    if halvings = 0 then .ok worker
    else do
      let reputation ← checkedHalvings (min halvings 64) worker.reputation
      pure { worker with reputation, lastUpdated := nowTs }

def checkedEffectiveReputation (now : Nat) (worker : Worker) : Except Revert Nat :=
  let nowTs := toUint64 now
  if nowTs ≤ worker.lastUpdated then .ok worker.reputation
  else do
    let elapsed ← checkedSub nowTs worker.lastUpdated
    let halvings := elapsed / decayPeriod
    if halvings = 0 then .ok worker.reputation
    else checkedHalvings (min halvings 64) worker.reputation

/-- The record after one outcome. -/
def checkedObserved (now : Nat) (worker : Worker) (outcome : Bool) : Except Revert Worker := do
  let worker ← checkedApplyDecay now worker
  let observation := if outcome then scale else 0
  let new ← checkedMul 256 alphaNum observation
  let weight ← checkedSub scale alphaNum
  let old ← checkedMul 256 weight worker.reputation
  let sum ← checkedAdd 256 new old
  let jobsCompleted ← counted worker.jobsCompleted outcome
  let jobsSlashed ← counted worker.jobsSlashed (!outcome)
  pure
    { worker with
      reputation := sum / scale
      jobsCompleted
      jobsSlashed
      lastUpdated := toUint64 now }

section Calls

variable (registry : WorkerRegistry)

def checkedUpdateReputation (msg : Msg) (worker : Address) (outcome : Bool) :
    Except Revert WorkerRegistry := do
  ensure (registry.authorized msg.sender) .notAuthorized
  ensure (registry.workers worker).existing .notRegistered
  let record ← checkedObserved msg.timestamp (registry.workers worker) outcome
  pure (registry.setWorker worker record)

def checkedDecay (msg : Msg) (worker : Address) : Except Revert WorkerRegistry := do
  ensure (registry.workers worker).existing .notRegistered
  let record ← checkedApplyDecay msg.timestamp (registry.workers worker)
  pure (registry.setWorker worker record)

def checkedTier (now : Nat) (worker : Address) : Except Revert Tier :=
  let record := registry.workers worker
  if !record.existing then .ok .unregistered
  else do
    let reputation ← checkedEffectiveReputation now record
    pure (tierOf reputation)

def checkedCanAccept (now : Nat) (worker : Address) (minTier : Tier) : Except Revert Bool :=
  let record := registry.workers worker
  if !record.existing then .ok false
  else do
    let reputation ← checkedEffectiveReputation now record
    pure (decide (minTier.toNat ≤ (tierOf reputation).toNat))

def checkedReputationOf (now : Nat) (worker : Address) : Except Revert Nat :=
  let record := registry.workers worker
  if !record.existing then .ok 0 else checkedEffectiveReputation now record

end Calls

/-- The checked arithmetic of one halving, when the sum fits. -/
theorem checked_halve {mid value : Nat} (small : mid + (value - mid) / 2 < 2 ^ 256) :
    (if mid < value then do
      let up ← checkedSub value mid
      checkedAdd 256 mid (up / 2)
    else do
      let down ← checkedSub mid value
      checkedSub mid (down / 2)) = .ok (LazyDecay.halve mid value) := by
  unfold LazyDecay.halve
  split
  case isTrue above =>
    rw [bind_ok_iff]
    exact ⟨_, checkedSub_ok_iff.mpr ⟨above.le, rfl⟩, checkedAdd_ok_iff.mpr ⟨small, rfl⟩⟩
  case isFalse below =>
    have part : (mid - value) / 2 ≤ mid := by omega
    rw [bind_ok_iff]
    exact ⟨_, checkedSub_ok_iff.mpr ⟨Nat.not_lt.mp below, rfl⟩,
      checkedSub_ok_iff.mpr ⟨part, rfl⟩⟩

theorem checkedHalve_eq {reputation : Nat} (bounded : reputation ≤ scale) :
    checkedHalve reputation = .ok (LazyDecay.halve (scale / 2) reputation) := by
  apply checked_halve
  simp only [scale] at bounded ⊢
  omega

theorem checkedHalvings_eq (rounds : Nat) {reputation : Nat} (bounded : reputation ≤ scale) :
    checkedHalvings rounds reputation =
      .ok ((LazyDecay.halve (scale / 2))^[rounds] reputation) := by
  induction rounds generalizing reputation with
  | zero => rfl
  | succ rounds ih =>
      have next := LazyDecay.iterate_halve_le 1 (Nat.div_le_self scale 2) bounded
      rw [checkedHalvings, bind_ok_iff]
      exact ⟨_, checkedHalve_eq bounded, ih next⟩

theorem checkedApplyDecay_eq (now : Nat) {worker : Worker}
    (bounded : worker.reputation ≤ scale) :
    checkedApplyDecay now worker = .ok (applyDecay now worker) := by
  unfold checkedApplyDecay applyDecay
  dsimp only
  split
  case isTrue => rfl
  case isFalse later =>
    rw [bind_ok_iff]
    refine ⟨_, checkedSub_ok_iff.mpr ⟨by omega, rfl⟩, ?_⟩
    split
    case isTrue => rfl
    case isFalse =>
      rw [checkedHalvings_eq _ bounded]
      rfl

theorem checkedEffectiveReputation_eq (now : Nat) {worker : Worker}
    (bounded : worker.reputation ≤ scale) :
    checkedEffectiveReputation now worker = .ok (effectiveReputation now worker) := by
  unfold checkedEffectiveReputation effectiveReputation
  dsimp only
  split
  case isTrue => rfl
  case isFalse later =>
    rw [bind_ok_iff]
    refine ⟨_, checkedSub_ok_iff.mpr ⟨by omega, rfl⟩, ?_⟩
    split
    case isTrue => rfl
    case isFalse => exact checkedHalvings_eq _ bounded

theorem checkedObserved_eq (now : Nat) {worker : Worker} (bounded : worker.reputation ≤ scale)
    (outcome : Bool) : checkedObserved now worker outcome = observed now worker outcome := by
  have weight : checkedSub scale alphaNum = .ok (scale - alphaNum) := by decide
  unfold checkedObserved observed
  rw [checkedApplyDecay_eq now bounded, weight]
  rfl

variable {registry : WorkerRegistry} {worker : Address}

theorem checkedUpdateReputation_eq (msg : Msg) (outcome : Bool)
    (bounded : (registry.workers worker).reputation ≤ scale) :
    registry.checkedUpdateReputation msg worker outcome =
      registry.updateReputation msg worker outcome := by
  unfold checkedUpdateReputation updateReputation
  rw [checkedObserved_eq msg.timestamp bounded]

theorem checkedDecay_eq (msg : Msg) (bounded : (registry.workers worker).reputation ≤ scale) :
    registry.checkedDecay msg worker = registry.decay msg worker := by
  unfold checkedDecay decay
  rw [checkedApplyDecay_eq msg.timestamp bounded]
  rfl

theorem checkedTier_eq (now : Nat) (bounded : (registry.workers worker).reputation ≤ scale) :
    registry.checkedTier now worker = .ok (registry.tier now worker) := by
  unfold checkedTier tier
  dsimp only
  rw [checkedEffectiveReputation_eq now bounded]
  split <;> rfl

theorem checkedCanAccept_eq (now : Nat) (minTier : Tier)
    (bounded : (registry.workers worker).reputation ≤ scale) :
    registry.checkedCanAccept now worker minTier =
      .ok (registry.canAccept now worker minTier) := by
  unfold checkedCanAccept canAccept
  dsimp only
  rw [checkedEffectiveReputation_eq now bounded]
  split <;> rfl

theorem checkedReputationOf_eq (now : Nat)
    (bounded : (registry.workers worker).reputation ≤ scale) :
    registry.checkedReputationOf now worker = .ok (registry.reputationOf now worker) := by
  unfold checkedReputationOf reputationOf
  dsimp only
  rw [checkedEffectiveReputation_eq now bounded]
  split <;> rfl

end WorkerRegistry

end Roko
