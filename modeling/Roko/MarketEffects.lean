import Roko.BountyMarket
import Roko.DecayPokes

/-!
# What a call of the market or its registry does

A call that does not revert has one of a few effects on the two contracts.  The
invariants of whole histories are derived from these effects alone.
-/

namespace Roko

open Contracts

namespace WorkerRegistry

/-- The number of outcomes of this kind. -/
def count (worker : Worker) (outcome : Bool) : Nat :=
  if outcome then worker.jobsCompleted else worker.jobsSlashed

/-- What a call can do to the record of a registered worker. -/
structure RecordStep (before after : Worker) : Prop where
  existed : before.existing = true
  existing : after.existing = true
  bounded : before.reputation ≤ scale → after.reputation ≤ scale
  bond : after.bond ≤ before.bond
  counts : ∀ outcome, count before outcome ≤ count after outcome

theorem applyDecay_reputation_le (now : Nat) {worker : Worker}
    (bounded : worker.reputation ≤ scale) : (applyDecay now worker).reputation ≤ scale := by
  unfold applyDecay
  dsimp only
  split
  · exact bounded
  · split
    · exact bounded
    · exact LazyDecay.iterate_halve_le _ (Nat.div_le_self _ _) bounded

theorem applyDecay_counters (now : Nat) (worker : Worker) :
    (applyDecay now worker).jobsCompleted = worker.jobsCompleted ∧
      (applyDecay now worker).jobsSlashed = worker.jobsSlashed ∧
      (applyDecay now worker).bond = worker.bond := by
  unfold applyDecay
  dsimp only
  split
  · exact ⟨rfl, rfl, rfl⟩
  · split <;> exact ⟨rfl, rfl, rfl⟩

theorem applyDecay_recordStep (now : Nat) {worker : Worker}
    (existed : worker.existing = true) : RecordStep worker (applyDecay now worker) := by
  obtain ⟨completed, slashed, bond⟩ := applyDecay_counters now worker
  refine ⟨existed, ?_, applyDecay_reputation_le now, bond.le, fun outcome => ?_⟩
  · rw [applyDecay_existing, existed]
  · unfold count
    rw [completed, slashed]

/-- The new reputation after an outcome. -/
def averaged (reputation : Nat) (outcome : Bool) : Nat :=
  (alphaNum * (if outcome then scale else 0) + (scale - alphaNum) * reputation) / scale

theorem averaged_le {reputation : Nat} (bounded : reputation ≤ scale) (outcome : Bool) :
    averaged reputation outcome ≤ scale := by
  unfold averaged
  refine Nat.div_le_of_le_mul ?_
  simp only [scale, alphaNum] at bounded ⊢
  cases outcome <;> simp <;> omega

theorem counted_ok_iff {count after : Nat} {counts : Bool} :
    counted count counts = .ok after ↔
      (counts = true → count + 1 < 2 ^ 64) ∧ after = count + counts.toNat := by
  cases counts with
  | true => simp [counted, checkedAdd_ok_iff]
  | false => simp [counted, eq_comm]

/-- The record after an outcome. -/
def afterOutcome (now : Nat) (worker : Worker) (outcome : Bool) : Worker :=
  { applyDecay now worker with
    reputation := averaged (applyDecay now worker).reputation outcome
    jobsCompleted := worker.jobsCompleted + outcome.toNat
    jobsSlashed := worker.jobsSlashed + (!outcome).toNat
    lastUpdated := toUint64 now }

theorem observed_ok {now : Nat} {worker after : Worker} {outcome : Bool}
    (called : observed now worker outcome = .ok after) :
    count worker outcome + 1 < 2 ^ 64 ∧ after = afterOutcome now worker outcome := by
  obtain ⟨completed, slashed, -⟩ := applyDecay_counters now worker
  simp only [observed, bind_ok_iff, checkedMul_ok_iff, checkedAdd_ok_iff, counted_ok_iff,
    pure_ok_iff] at called
  obtain ⟨new, ⟨-, rfl⟩, old, ⟨-, rfl⟩, sum, ⟨-, rfl⟩, done, ⟨doneFits, rfl⟩, lost,
    ⟨lostFits, rfl⟩, rfl⟩ := called
  rw [completed] at doneFits ⊢
  rw [slashed] at lostFits ⊢
  refine ⟨?_, rfl⟩
  cases outcome with
  | true => exact doneFits rfl
  | false => exact lostFits rfl

/-- An outcome of a record in its bounds is observed, as long as the counter fits. -/
theorem observed_eq {now : Nat} {worker : Worker} {outcome : Bool}
    (bounded : worker.reputation ≤ scale) (fits : count worker outcome + 1 < 2 ^ 64) :
    observed now worker outcome = .ok (afterOutcome now worker outcome) := by
  obtain ⟨completed, slashed, -⟩ := applyDecay_counters now worker
  have decayed := applyDecay_reputation_le now bounded
  simp only [observed, bind_ok_iff, checkedMul_ok_iff, checkedAdd_ok_iff, counted_ok_iff,
    pure_ok_iff]
  rw [completed, slashed]
  simp only [scale, alphaNum] at decayed ⊢
  refine ⟨_, ⟨?_, rfl⟩, _, ⟨by omega, rfl⟩, _, ⟨?_, rfl⟩, _, ⟨fun counts => ?_, rfl⟩, _,
    ⟨fun counts => ?_, rfl⟩, rfl⟩
  · split <;> omega
  · split <;> omega
  · rw [counts] at fits
    exact fits
  · rw [Bool.not_eq_true'] at counts
    rw [counts] at fits
    exact fits

theorem observed_recordStep {now : Nat} {worker after : Worker} {outcome : Bool}
    (existed : worker.existing = true) (called : observed now worker outcome = .ok after) :
    RecordStep worker after := by
  rw [(observed_ok called).2]
  refine ⟨existed, ?_, fun bounded => ?_, ?_, fun kind => ?_⟩
  · exact (applyDecay_existing now worker).trans existed
  · exact averaged_le (applyDecay_reputation_le now bounded) outcome
  · exact (applyDecay_counters now worker).2.2.le
  · cases kind with
    | true => exact Nat.le_add_right _ _
    | false => exact Nat.le_add_right _ _

variable {registry after : WorkerRegistry} {msg : Msg} {worker : Address}

theorem updateReputation_ok {outcome : Bool}
    (called : registry.updateReputation msg worker outcome = .ok after) :
    registry.authorized msg.sender = true ∧ ∃ record,
      observed msg.timestamp (registry.workers worker) outcome = .ok record ∧
      RecordStep (registry.workers worker) record ∧
      after = registry.setWorker worker record := by
  simp only [updateReputation, bind_ok_iff, ensure_ok_iff, pure_ok_iff] at called
  obtain ⟨-, authorized, -, existed, record, observing, rfl⟩ := called
  exact ⟨authorized, record, observing, observed_recordStep existed observing, rfl⟩

theorem updateReputation_eq {outcome : Bool}
    (authorized : registry.authorized msg.sender = true)
    (existing : (registry.workers worker).existing = true)
    (bounded : (registry.workers worker).reputation ≤ scale)
    (fits : count (registry.workers worker) outcome + 1 < 2 ^ 64) :
    registry.updateReputation msg worker outcome = .ok (registry.setWorker worker
      (afterOutcome msg.timestamp (registry.workers worker) outcome)) := by
  simp only [updateReputation, bind_ok_iff, ensure_ok_iff, pure_ok_iff]
  exact ⟨(), authorized, (), existing, _, observed_eq bounded fits, rfl⟩

theorem slash_ok {bpsAmount : Nat} (called : registry.slash msg worker bpsAmount = .ok after) :
    registry.authorized msg.sender = true ∧ (registry.workers worker).existing = true ∧
      ∃ bond ≤ (registry.workers worker).bond,
        after = registry.setWorker worker { registry.workers worker with bond } := by
  simp only [slash, bind_ok_iff, ensure_ok_iff, checkedMul_ok_iff, checkedSub_ok_iff,
    pure_ok_iff] at called
  obtain ⟨-, authorized, -, existed, product, -, bond, ⟨-, rfl⟩, rfl⟩ := called
  exact ⟨authorized, existed, _, Nat.sub_le _ _, rfl⟩

theorem slash_recordStep {bpsAmount : Nat}
    (called : registry.slash msg worker bpsAmount = .ok after) :
    ∃ record, RecordStep (registry.workers worker) record ∧
      after = registry.setWorker worker record := by
  obtain ⟨-, existed, bond, smaller, rfl⟩ := slash_ok called
  exact ⟨{ registry.workers worker with bond },
    ⟨existed, existed, id, smaller, fun _ => le_rfl⟩, rfl⟩

theorem decay_ok (called : registry.decay msg worker = .ok after) :
    ∃ record, RecordStep (registry.workers worker) record ∧
      after = registry.setWorker worker record := by
  simp only [decay, bind_ok_iff, ensure_ok_iff, pure_ok_iff] at called
  obtain ⟨-, existed, rfl⟩ := called
  exact ⟨_, applyDecay_recordStep msg.timestamp existed, rfl⟩

section Bonds

variable {Ledger : Type} {erc20 : Erc20 Ledger} {this : Address} {tokens : Tokens Ledger}
  {amount : Nat} {pair : WorkerRegistry × Tokens Ledger}

/-- The registry after a registration. -/
def registeredWith (registry : WorkerRegistry) (msg : Msg) (amount : Nat) :
    WorkerRegistry :=
  { registry.setWorker msg.sender
      ⟨amount, scale / 2, 0, 0, toUint64 msg.timestamp, true⟩ with
    registered := registry.registered ++ [msg.sender] }

theorem register_ok
    (called : registry.register erc20 this msg tokens amount = .ok pair) :
    (registry.workers msg.sender).existing = false ∧ minBond ≤ amount ∧
      tokens.After erc20 pair.2 ⟨registry.stakeToken, msg.sender, this, amount⟩ ∧
      pair.1 = registry.registeredWith msg amount := by
  simp only [register, pull, bind_ok_iff, ensure_ok_iff, pure_ok_iff, Bool.not_eq_true']
    at called
  obtain ⟨-, new, -, enough, paid, moved, rfl⟩ := called
  exact ⟨new, enough, Tokens.after_transferFrom moved, rfl⟩

theorem addBond_ok (called : registry.addBond erc20 this msg tokens amount = .ok pair) :
    (registry.workers msg.sender).existing = true ∧
      tokens.After erc20 pair.2 ⟨registry.stakeToken, msg.sender, this, amount⟩ ∧
      (registry.workers msg.sender).bond + amount < 2 ^ 256 ∧
      pair.1 = registry.setWorker msg.sender
        { registry.workers msg.sender with
          bond := (registry.workers msg.sender).bond + amount } := by
  simp only [addBond, pull, bind_ok_iff, ensure_ok_iff, checkedAdd_ok_iff, pure_ok_iff]
    at called
  obtain ⟨-, existed, paid, moved, bond, ⟨fits, rfl⟩, rfl⟩ := called
  exact ⟨existed, Tokens.after_transferFrom moved, fits, rfl⟩

theorem unbond_ok (called : registry.unbond erc20 this msg tokens amount = .ok pair) :
    (registry.workers msg.sender).existing = true ∧
      amount ≤ (registry.workers msg.sender).bond ∧
      tokens.After erc20 pair.2 ⟨registry.stakeToken, this, msg.sender, amount⟩ ∧
      pair.1 = registry.setWorker msg.sender
        { registry.workers msg.sender with
          bond := (registry.workers msg.sender).bond - amount } := by
  simp only [unbond, bind_ok_iff, ensure_ok_iff, checkedSub_ok_iff, pure_ok_iff] at called
  obtain ⟨-, existed, -, -, bond, ⟨enough, rfl⟩, paid, moved, rfl⟩ := called
  exact ⟨existed, enough, Tokens.after_transfer moved, rfl⟩

end Bonds

end WorkerRegistry

namespace Marketplace

open WorkerRegistry

variable {Ledger : Type}

/-- The account that a resolved job pays. -/
def payee (job : Job) (accepted : Bool) : Address :=
  if accepted then job.worker else job.poster

/-- What a call that does not revert does. -/
inductive Effect (chain : MarketChain Ledger) (msg : Msg) (state : Marketplace Ledger) :
    Call Ledger → Marketplace Ledger → Prop
  | setAuthorized {caller : Address} {allowed : Bool}
      (byOwner : msg.sender = state.registry.owner) :
      Effect chain msg state (.setAuthorized caller allowed)
        { state with
          registry := { state.registry with
            authorized := Function.update state.registry.authorized caller allowed } }
  | register {amount : U256} {tokens : Tokens Ledger}
      (new : (state.registry.workers msg.sender).existing = false)
      (enough : minBond ≤ amount.toNat)
      (paid : state.tokens.After chain.erc20 tokens
        ⟨state.registry.stakeToken, msg.sender, chain.registryAddress, amount.toNat⟩) :
      Effect chain msg state (.register amount)
        { state with
          registry := state.registry.registeredWith msg amount.toNat
          tokens }
  | bond {amount : U256} {tokens : Tokens Ledger}
      (existed : (state.registry.workers msg.sender).existing = true)
      (paid : state.tokens.After chain.erc20 tokens
        ⟨state.registry.stakeToken, msg.sender, chain.registryAddress, amount.toNat⟩)
      (fits : (state.registry.workers msg.sender).bond + amount.toNat < 2 ^ 256) :
      Effect chain msg state (.bond amount)
        { state with
          registry := state.registry.setWorker msg.sender
            { state.registry.workers msg.sender with
              bond := (state.registry.workers msg.sender).bond + amount.toNat }
          tokens }
  | unbond {amount : U256} {tokens : Tokens Ledger}
      (existed : (state.registry.workers msg.sender).existing = true)
      (enough : amount.toNat ≤ (state.registry.workers msg.sender).bond)
      (paid : state.tokens.After chain.erc20 tokens
        ⟨state.registry.stakeToken, chain.registryAddress, msg.sender, amount.toNat⟩) :
      Effect chain msg state (.unbond amount)
        { state with
          registry := state.registry.setWorker msg.sender
            { state.registry.workers msg.sender with
              bond := (state.registry.workers msg.sender).bond - amount.toNat }
          tokens }
  | record {call : Call Ledger} {worker : Address} {record : Worker}
      (kind : (∃ outcome, call = .updateReputation worker outcome) ∨
        (∃ reasonCode bpsAmount, call = .slash worker reasonCode bpsAmount) ∨
        call = .decay worker)
      (change : RecordStep (state.registry.workers worker) record) :
      Effect chain msg state call
        { state with registry := state.registry.setWorker worker record }
  | setResolver {newResolver : Address} (byResolver : msg.sender = state.market.resolver) :
      Effect chain msg state (.setResolver newResolver)
        { state with
          market := { state.market with resolver := newResolver }
          events := state.events ++ [.resolverSet newResolver] }
  | postJob {specHash : B256} {bounty : U256} {deadline : UInt64} {minTier : UInt8}
      {tokens : Tokens Ledger}
      (paid : state.tokens.After chain.erc20 tokens
        ⟨state.market.bountyToken, msg.sender, chain.marketAddress, bounty.toNat⟩) :
      Effect chain msg state (.postJob specHash bounty deadline minTier)
        { state with
          tokens
          market := { state.market.setJob state.market.nextJobId
              ⟨msg.sender, bounty.toNat, deadline.toNat, minTier.toNat, specHash, 0, 0,
                .funded, false⟩ with
            nextJobId := state.market.nextJobId + 1 }
          events := state.events ++
            [.jobOpen state.market.nextJobId msg.sender bounty.toNat deadline.toNat specHash,
              .jobFunded state.market.nextJobId bounty.toNat] }
  | assign {id : U256} {worker : Address} {minTier : Tier}
      (funded : (state.market.jobs id.toNat).state = .funded)
      (tier : Tier.ofByte (state.market.jobs id.toNat).minTier = .ok minTier)
      (accepts : state.registry.canAccept msg.timestamp worker minTier = true) :
      Effect chain msg state (.assign id worker)
        { state with
          market := state.market.setJob id.toNat
            { state.market.jobs id.toNat with worker, state := .assigned }
          events := state.events ++ [.jobAssigned id.toNat worker] }
  | submit {id : U256} {resultHash : B256}
      (assigned : (state.market.jobs id.toNat).state = .assigned)
      (byWorker : (state.market.jobs id.toNat).worker = msg.sender) :
      Effect chain msg state (.submit id resultHash)
        { state with
          market := state.market.setJob id.toNat
            { state.market.jobs id.toNat with resultHash, state := .submitted }
          events := state.events ++ [.jobSubmitted id.toNat resultHash] }
  | resolve {id : U256} {accepted : Bool} {tokens : Tokens Ledger}
      {registry : WorkerRegistry}
      (byResolver : msg.sender = state.market.resolver)
      (submitted : (state.market.jobs id.toNat).state = .submitted)
      (paid : state.tokens.After chain.erc20 tokens
        ⟨state.market.bountyToken, chain.marketAddress,
          payee (state.market.jobs id.toNat) accepted,
          (state.market.jobs id.toNat).bounty⟩)
      (change : ∃ record,
        RecordStep (state.registry.workers (state.market.jobs id.toNat).worker) record ∧
        registry = state.registry.setWorker (state.market.jobs id.toNat).worker record)
      (countable : count (state.registry.workers (state.market.jobs id.toNat).worker)
        accepted + 1 < 2 ^ 64) :
      Effect chain msg state (.resolve id accepted)
        { tokens
          registry
          market := state.market.setJob id.toNat
            { state.market.jobs id.toNat with state := .terminal, accepted }
          events := state.events ++
            [.jobResolved id.toNat accepted (state.market.jobs id.toNat).worker] }
  | token {ledger : Ledger}
      (market : chain.erc20.balanceOf state.tokens.ledger state.market.bountyToken
          chain.marketAddress ≤
        chain.erc20.balanceOf ledger state.market.bountyToken chain.marketAddress)
      (registry : chain.erc20.balanceOf state.tokens.ledger state.registry.stakeToken
          chain.registryAddress ≤
        chain.erc20.balanceOf ledger state.registry.stakeToken chain.registryAddress) :
      Effect chain msg state (.token ledger)
        { state with tokens := { state.tokens with ledger } }

variable {chain : MarketChain Ledger} {msg : Msg} {state after : Marketplace Ledger}

theorem quiet_ok {call : Except Revert WorkerRegistry} :
    state.quiet call = .ok after ↔
      ∃ registry, call = .ok registry ∧ after = { state with registry } := by
  simp only [quiet, bind_ok_iff, pure_ok_iff, eq_comm (a := after)]

theorem withTokens_ok {call : Except Revert (WorkerRegistry × Tokens Ledger)} :
    state.withTokens call = .ok after ↔
      ∃ pair, call = .ok pair ∧
        after = { state with registry := pair.1, tokens := pair.2 } := by
  simp only [withTokens, bind_ok_iff, pure_ok_iff, eq_comm (a := after)]

/-- The record of a worker after the two calls of a rejection. -/
theorem rejected_recordStep {registry updated slashed : WorkerRegistry} {worker : Address}
    {bpsAmount : Nat}
    (updating : registry.updateReputation msg worker false = .ok updated)
    (slashing : updated.slash msg worker bpsAmount = .ok slashed) :
    ∃ record, RecordStep (registry.workers worker) record ∧
      slashed = registry.setWorker worker record := by
  obtain ⟨-, record, observing, change, rfl⟩ := updateReputation_ok updating
  obtain ⟨-, -, bond, smaller, rfl⟩ := slash_ok slashing
  simp only [setWorker, Function.update_self, Function.update_idem] at smaller ⊢
  exact ⟨{ record with bond }, ⟨change.existed, change.existing, change.bounded,
    smaller.trans change.bond, change.counts⟩, rfl⟩

theorem effect_of_resolve {id : U256} {accepted : Bool}
    (called : state.resolve chain msg id.toNat accepted = .ok after) :
    Effect chain msg state (.resolve id accepted) after := by
  simp only [resolve, bind_ok_iff, ensure_ok_iff] at called
  obtain ⟨-, byResolver, -, submitted, called⟩ := called
  cases accepted with
  | true =>
      simp only [if_true, bind_ok_iff, pure_ok_iff] at called
      obtain ⟨tokens, moved, registry, updating, rfl⟩ := called
      obtain ⟨-, record, observing, change, rfl⟩ := updateReputation_ok updating
      exact .resolve byResolver submitted (Tokens.after_transfer moved)
        ⟨record, change, rfl⟩ (observed_ok observing).1
  | false =>
      simp only [Bool.false_eq_true, if_false, bind_ok_iff, pure_ok_iff] at called
      obtain ⟨tokens, moved, updated, updating, registry, slashing, rfl⟩ := called
      obtain ⟨-, record, observing, -⟩ := updateReputation_ok updating
      exact .resolve byResolver submitted (Tokens.after_transfer moved)
        (rejected_recordStep updating slashing) (observed_ok observing).1

theorem effect_of_execute {call : Call Ledger}
    (executed : state.execute chain msg call = .ok after) :
    Effect chain msg state call after := by
  cases call with
  | setAuthorized caller allowed =>
      obtain ⟨registry, called, rfl⟩ := quiet_ok.mp executed
      simp only [WorkerRegistry.setAuthorized, bind_ok_iff, ensure_ok_iff, pure_ok_iff]
        at called
      obtain ⟨-, byOwner, rfl⟩ := called
      exact .setAuthorized byOwner
  | register amount =>
      obtain ⟨⟨registry, tokens⟩, called, rfl⟩ := withTokens_ok.mp executed
      obtain ⟨new, enough, paid, rfl⟩ := register_ok called
      exact .register new enough paid
  | bond amount =>
      obtain ⟨⟨registry, tokens⟩, called, rfl⟩ := withTokens_ok.mp executed
      obtain ⟨existed, paid, fits, rfl⟩ := addBond_ok called
      exact .bond existed paid fits
  | unbond amount =>
      obtain ⟨⟨registry, tokens⟩, called, rfl⟩ := withTokens_ok.mp executed
      obtain ⟨existed, enough, paid, rfl⟩ := unbond_ok called
      exact .unbond existed enough paid
  | updateReputation worker outcome =>
      obtain ⟨registry, called, rfl⟩ := quiet_ok.mp executed
      obtain ⟨-, record, -, change, rfl⟩ := updateReputation_ok called
      exact .record (Or.inl ⟨outcome, rfl⟩) change
  | slash worker reasonCode bpsAmount =>
      obtain ⟨registry, called, rfl⟩ := quiet_ok.mp executed
      obtain ⟨record, change, rfl⟩ := slash_recordStep called
      exact .record (Or.inr (Or.inl ⟨reasonCode, bpsAmount, rfl⟩)) change
  | decay worker =>
      obtain ⟨registry, called, rfl⟩ := quiet_ok.mp executed
      obtain ⟨record, change, rfl⟩ := decay_ok called
      exact .record (Or.inr (Or.inr rfl)) change
  | setResolver newResolver =>
      simp only [execute, Marketplace.setResolver, bind_ok_iff, ensure_ok_iff, pure_ok_iff]
        at executed
      obtain ⟨-, byResolver, rfl⟩ := executed
      exact .setResolver byResolver
  | postJob specHash bounty deadline minTier =>
      simp only [execute, Marketplace.postJob, bind_ok_iff, ensure_ok_iff,
        checkedAdd_ok_iff, pure_ok_iff] at executed
      obtain ⟨-, -, next, ⟨-, rfl⟩, tokens, moved, rfl⟩ := executed
      exact .postJob (Tokens.after_transferFrom moved)
  | assign id worker =>
      simp only [execute, Marketplace.assign, bind_ok_iff, ensure_ok_iff, pure_ok_iff]
        at executed
      obtain ⟨-, funded, minTier, tier, -, accepts, rfl⟩ := executed
      exact .assign funded tier accepts
  | submit id resultHash =>
      simp only [execute, Marketplace.submit, bind_ok_iff, ensure_ok_iff, pure_ok_iff]
        at executed
      obtain ⟨-, assigned, -, byWorker, rfl⟩ := executed
      exact .submit assigned byWorker
  | resolve id accepted => exact effect_of_resolve executed
  | token ledger =>
      simp only [execute, bind_ok_iff, ensure_ok_iff, pure_ok_iff] at executed
      obtain ⟨-, ⟨market, registry⟩, rfl⟩ := executed
      exact .token market registry

/-- A step changes nothing, or is a call by an outside account that has an effect. -/
theorem step_cases (chain : MarketChain Ledger) (state : Marketplace Ledger)
    (call : Msg × Call Ledger) :
    state.step chain call = state ∨
      chain.Outside call.1.sender ∧
        Effect chain call.1 state call.2 (state.step chain call) := by
  unfold step
  split
  case isTrue outside =>
    cases executed : state.execute chain call.1 call.2 with
    | error revert => exact Or.inl rfl
    | ok after => exact Or.inr ⟨outside, effect_of_execute executed⟩
  case isFalse => exact Or.inl rfl

end Marketplace

end Roko
