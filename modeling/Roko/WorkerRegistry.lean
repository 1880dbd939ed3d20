import Roko.Contracts
import Roko.LazyDecay
import Mathlib.Tactic.IntervalCases

/-!
# The worker registry

`WorkerRegistry.sol`: bonds, reputations and tiers of workers.  A reputation is an
exponential average of outcomes and decays towards one half while its worker is
inactive.
-/

namespace Roko

open Contracts

/-- `WorkerRegistry.Tier`. -/
inductive Tier
  | unregistered
  | probation
  | standard
  | trusted
  | elite
  deriving DecidableEq, Repr

namespace Tier

def toNat : Tier → Nat
  | unregistered => 0
  | probation => 1
  | standard => 2
  | trusted => 3
  | elite => 4

/-- The conversion `WorkerRegistry.Tier(value)`, which panics beyond the last tier. -/
def ofByte (value : Nat) : Except Revert Tier :=
  match value with
  | 0 => .ok unregistered
  | 1 => .ok probation
  | 2 => .ok standard
  | 3 => .ok trusted
  | 4 => .ok elite
  | _ => .error (.panic 0x21)

theorem toNat_le (tier : Tier) : tier.toNat ≤ 4 := by
  cases tier <;> decide

theorem toNat_of_ofByte {value : Nat} {tier : Tier} (converted : ofByte value = .ok tier) :
    tier.toNat = value := by
  unfold ofByte at converted
  split at converted <;> cases converted <;> rfl

theorem exists_ofByte_iff {value : Nat} : (∃ tier, ofByte value = .ok tier) ↔ value ≤ 4 := by
  constructor
  · rintro ⟨tier, converted⟩
    rw [← toNat_of_ofByte converted]
    exact toNat_le tier
  · intro bounded
    interval_cases value
    · exact ⟨unregistered, rfl⟩
    · exact ⟨probation, rfl⟩
    · exact ⟨standard, rfl⟩
    · exact ⟨trusted, rfl⟩
    · exact ⟨elite, rfl⟩

end Tier

/-- A worker's record.  `existing` is the field `exists`. -/
structure Worker where
  bond : Nat
  reputation : Nat
  jobsCompleted : Nat
  jobsSlashed : Nat
  lastUpdated : Nat
  existing : Bool
  deriving DecidableEq, Repr

structure WorkerRegistry where
  stakeToken : Address
  owner : Address
  authorized : Address → Bool
  workers : Address → Worker
  registered : List Address

namespace WorkerRegistry

def scale : Nat := 1_000_000

def alphaNum : Nat := 200_000

def minBond : Nat := 1_000 * 10 ^ 18

/-- 30 days. -/
def decayPeriod : Nat := 30 * 24 * 60 * 60

/-- The record that the mapping holds for an address nobody registered. -/
def noWorker : Worker := ⟨0, 0, 0, 0, 0, false⟩

/-- `constructor(stakeToken_)`, called by `sender`. -/
def deployed (stakeToken sender : Address) : WorkerRegistry :=
  ⟨stakeToken, sender, fun _ => false, fun _ => noWorker, []⟩

/-- `_applyDecay`.  At most 64 halvings are made. -/
def applyDecay (now : Nat) (worker : Worker) : Worker :=
  let nowTs := toUint64 now
  if nowTs ≤ worker.lastUpdated then worker
  else
    let halvings := (nowTs - worker.lastUpdated) / decayPeriod
    if halvings = 0 then worker
    else
      { worker with
        reputation := (LazyDecay.halve (scale / 2))^[min halvings 64] worker.reputation
        lastUpdated := nowTs }

/-- `_effectiveReputation`. -/
def effectiveReputation (now : Nat) (worker : Worker) : Nat :=
  let nowTs := toUint64 now
  if nowTs ≤ worker.lastUpdated then worker.reputation
  else
    let halvings := (nowTs - worker.lastUpdated) / decayPeriod
    if halvings = 0 then worker.reputation
    else (LazyDecay.halve (scale / 2))^[min halvings 64] worker.reputation

variable (registry : WorkerRegistry)

def tierOf (reputation : Nat) : Tier :=
  if reputation < 350_000 then .probation
  else if reputation < 550_000 then .standard
  else if reputation < 800_000 then .trusted
  else .elite

def tier (now : Nat) (worker : Address) : Tier :=
  let record := registry.workers worker
  if !record.existing then .unregistered
  else tierOf (effectiveReputation now record)

def canAccept (now : Nat) (worker : Address) (minTier : Tier) : Bool :=
  let record := registry.workers worker
  if !record.existing then false
  else decide (minTier.toNat ≤ (tierOf (effectiveReputation now record)).toNat)

def reputationOf (now : Nat) (worker : Address) : Nat :=
  let record := registry.workers worker
  if !record.existing then 0 else effectiveReputation now record

def setWorker (worker : Address) (record : Worker) : WorkerRegistry :=
  { registry with workers := Function.update registry.workers worker record }

def setAuthorized (msg : Msg) (caller : Address) (allowed : Bool) :
    Except Revert WorkerRegistry := do
  ensure (msg.sender = registry.owner) .notAuthorized
  pure { registry with authorized := Function.update registry.authorized caller allowed }

section Bonds

variable {Ledger : Type} (erc20 : Erc20 Ledger) (this : Address) (msg : Msg)
  (tokens : Tokens Ledger)

def pull (sender : Address) (amount : Nat) : Except Revert (Tokens Ledger) :=
  tokens.transferFrom erc20 registry.stakeToken this sender amount "transferFrom failed"

def register (amount : Nat) : Except Revert (WorkerRegistry × Tokens Ledger) := do
  ensure (!(registry.workers msg.sender).existing) .alreadyRegistered
  ensure (minBond ≤ amount) .insufficientBond
  let tokens ← registry.pull erc20 this tokens msg.sender amount
  let registry := registry.setWorker msg.sender
    { bond := amount
      reputation := scale / 2
      jobsCompleted := 0
      jobsSlashed := 0
      lastUpdated := toUint64 msg.timestamp
      existing := true }
  pure ({ registry with registered := registry.registered ++ [msg.sender] }, tokens)

/-- `bond(amount)`. -/
def addBond (amount : Nat) : Except Revert (WorkerRegistry × Tokens Ledger) := do
  let worker := registry.workers msg.sender
  ensure worker.existing .notRegistered
  let tokens ← registry.pull erc20 this tokens msg.sender amount
  let bond ← checkedAdd 256 worker.bond amount
  pure (registry.setWorker msg.sender { worker with bond }, tokens)

def unbond (amount : Nat) : Except Revert (WorkerRegistry × Tokens Ledger) := do
  let worker := registry.workers msg.sender
  ensure worker.existing .notRegistered
  ensure (¬ (worker.bond < amount ∨ worker.bond - amount < minBond)) .belowMinBond
  let bond ← checkedSub worker.bond amount
  let tokens ← tokens.transfer erc20 registry.stakeToken this msg.sender amount
    "transfer failed"
  pure (registry.setWorker msg.sender { worker with bond }, tokens)

end Bonds

/-- `count += 1` where the outcome counts. -/
def counted (count : Nat) (counts : Bool) : Except Revert Nat :=
  if counts then checkedAdd 64 count 1 else .ok count

/-- The record after `_applyDecay` and one observed outcome. -/
def observed (now : Nat) (worker : Worker) (outcome : Bool) : Except Revert Worker := do
  let worker := applyDecay now worker
  let observation := if outcome then scale else 0
  let new ← checkedMul 256 alphaNum observation
  let old ← checkedMul 256 (scale - alphaNum) worker.reputation
  let sum ← checkedAdd 256 new old
  let jobsCompleted ← counted worker.jobsCompleted outcome
  let jobsSlashed ← counted worker.jobsSlashed (!outcome)
  pure
    { worker with
      reputation := sum / scale
      jobsCompleted
      jobsSlashed
      lastUpdated := toUint64 now }

def updateReputation (msg : Msg) (worker : Address) (outcome : Bool) :
    Except Revert WorkerRegistry := do
  ensure (registry.authorized msg.sender) .notAuthorized
  ensure (registry.workers worker).existing .notRegistered
  let record ← observed msg.timestamp (registry.workers worker) outcome
  pure (registry.setWorker worker record)

/-- `slash`.  The reason code only appears in its event. -/
def slash (msg : Msg) (worker : Address) (bpsAmount : Nat) :
    Except Revert WorkerRegistry := do
  let record := registry.workers worker
  ensure (registry.authorized msg.sender) .notAuthorized
  ensure record.existing .notRegistered
  let product ← checkedMul 256 record.bond bpsAmount
  let amount := min (product / 10_000) record.bond
  let bond ← checkedSub record.bond amount
  pure (registry.setWorker worker { record with bond })

def decay (msg : Msg) (worker : Address) : Except Revert WorkerRegistry := do
  ensure (registry.workers worker).existing .notRegistered
  pure (registry.setWorker worker (applyDecay msg.timestamp (registry.workers worker)))

end WorkerRegistry

end Roko
