import Roko.GuardedRuns
import Roko.WorkerRegistry

/-!
# The bounty market

`BountyMarket.sol`: an escrow for jobs.  A job is posted with its bounty, assigned to a
worker of a sufficient tier, submitted by that worker and resolved by the resolver, who
pays the worker or refunds the poster.
-/

namespace Roko

open Contracts

/-- `BountyMarket.State`.  `opened` is `Open`, a state that no job is ever in. -/
inductive JobState
  | none
  | opened
  | funded
  | assigned
  | submitted
  | terminal
  deriving DecidableEq, Repr

structure Job where
  poster : Address
  bounty : Nat
  deadline : Nat
  minTier : Nat
  specHash : B256
  worker : Address
  resultHash : B256
  state : JobState
  accepted : Bool
  deriving DecidableEq, Repr

structure BountyMarket where
  bountyToken : Address
  resolver : Address
  nextJobId : Nat
  jobs : Nat → Job

/-- The events of the market. -/
inductive MarketEvent
  | jobOpen (jobId : Nat) (poster : Address) (bounty deadline : Nat) (specHash : B256)
  | jobFunded (jobId bounty : Nat)
  | jobAssigned (jobId : Nat) (worker : Address)
  | jobSubmitted (jobId : Nat) (resultHash : B256)
  | jobResolved (jobId : Nat) (accepted : Bool) (worker : Address)
  | resolverSet (resolver : Address)
  deriving DecidableEq, Repr

namespace BountyMarket

/-- The record that the mapping holds for an id that was not given out. -/
def noJob : Job := ⟨0, 0, 0, 0, 0, 0, 0, .none, false⟩

/-- `constructor(bountyToken_, workerRegistry_)`, called by `sender`. -/
def deployed (bountyToken sender : Address) : BountyMarket :=
  ⟨bountyToken, sender, 0, fun _ => noJob⟩

def setJob (market : BountyMarket) (id : Nat) (job : Job) : BountyMarket :=
  { market with jobs := Function.update market.jobs id job }

end BountyMarket

/-- A market, its registry and their tokens. -/
structure Marketplace (Ledger : Type) where
  tokens : Tokens Ledger
  registry : WorkerRegistry
  market : BountyMarket
  events : List MarketEvent

/-- Where the two contracts are deployed, and the tokens they call. -/
structure MarketChain (Ledger : Type) where
  erc20 : Erc20 Ledger
  marketAddress : Address
  registryAddress : Address
  distinct : marketAddress ≠ registryAddress

namespace MarketChain

variable {Ledger : Type}

/-- An account that can call the contracts: not one of them, and not the zero address. -/
def Outside (chain : MarketChain Ledger) (account : Address) : Prop :=
  account ≠ 0 ∧ account ≠ chain.marketAddress ∧ account ≠ chain.registryAddress

instance (chain : MarketChain Ledger) (account : Address) :
    Decidable (chain.Outside account) :=
  inferInstanceAs (Decidable (_ ∧ _ ∧ _))

end MarketChain

namespace Marketplace

variable {Ledger : Type} (chain : MarketChain Ledger) (state : Marketplace Ledger)

def setResolver (msg : Msg) (newResolver : Address) : Except Revert (Marketplace Ledger) := do
  ensure (msg.sender = state.market.resolver) .notAuthorized
  pure { state with
    market := { state.market with resolver := newResolver }
    events := state.events ++ [.resolverSet newResolver] }

def postJob (msg : Msg) (specHash : B256) (bounty deadline minTier : Nat) :
    Except Revert (Marketplace Ledger) := do
  ensure (¬ deadline ≤ msg.timestamp) .deadlinePassed
  let id := state.market.nextJobId
  let nextJobId ← checkedAdd 256 id 1
  let job : Job :=
    { poster := msg.sender
      bounty
      deadline
      minTier
      specHash
      worker := 0
      resultHash := 0
      state := .funded
      accepted := false }
  let tokens ← state.tokens.transferFrom chain.erc20 state.market.bountyToken
    chain.marketAddress msg.sender bounty "transferFrom failed"
  pure { state with
    tokens
    market := { state.market.setJob id job with nextJobId }
    events := state.events ++
      [.jobOpen id msg.sender bounty deadline specHash, .jobFunded id bounty] }

def assign (msg : Msg) (id : Nat) (worker : Address) : Except Revert (Marketplace Ledger) := do
  let job := state.market.jobs id
  ensure (job.state = .funded) .wrongState
  let minTier ← Tier.ofByte job.minTier
  ensure (state.registry.canAccept msg.timestamp worker minTier) .workerTierTooLow
  pure { state with
    market := state.market.setJob id { job with worker, state := .assigned }
    events := state.events ++ [.jobAssigned id worker] }

def submit (msg : Msg) (id : Nat) (resultHash : B256) :
    Except Revert (Marketplace Ledger) := do
  let job := state.market.jobs id
  ensure (job.state = .assigned) .wrongState
  ensure (job.worker = msg.sender) .notAuthorized
  pure { state with
    market := state.market.setJob id { job with resultHash, state := .submitted }
    events := state.events ++ [.jobSubmitted id resultHash] }

/-- The message of a call that the market makes itself. -/
def fromMarket (msg : Msg) : Msg :=
  { msg with sender := chain.marketAddress }

def resolve (msg : Msg) (id : Nat) (accepted : Bool) : Except Revert (Marketplace Ledger) := do
  ensure (msg.sender = state.market.resolver) .notAuthorized
  let job := state.market.jobs id
  ensure (job.state = .submitted) .wrongState
  let market := state.market.setJob id { job with state := .terminal, accepted }
  let events := state.events ++ [.jobResolved id accepted job.worker]
  if accepted then
    let tokens ← state.tokens.transfer chain.erc20 market.bountyToken chain.marketAddress
      job.worker job.bounty "bounty transfer"
    let registry ← state.registry.updateReputation (fromMarket chain msg) job.worker true
    pure { tokens, registry, market, events }
  else
    let tokens ← state.tokens.transfer chain.erc20 market.bountyToken chain.marketAddress
      job.poster job.bounty "refund transfer"
    let registry ← state.registry.updateReputation (fromMarket chain msg) job.worker false
    let registry ← registry.slash (fromMarket chain msg) job.worker 500
    pure { tokens, registry, market, events }

/-- The calls that change the two contracts, and the calls that others make of the
tokens. -/
inductive Call (Ledger : Type)
  | setAuthorized (caller : Address) (allowed : Bool)
  | register (amount : U256)
  | bond (amount : U256)
  | unbond (amount : U256)
  | updateReputation (worker : Address) (outcome : Bool)
  | slash (worker : Address) (reasonCode : UInt8) (bpsAmount : U256)
  | decay (worker : Address)
  | setResolver (newResolver : Address)
  | postJob (specHash : B256) (bounty : U256) (deadline : UInt64) (minTier : UInt8)
  | assign (id : U256) (worker : Address)
  | submit (id : U256) (resultHash : B256)
  | resolve (id : U256) (accepted : Bool)
  | token (after : Ledger)

/-- A call of the registry that touches no token. -/
def quiet (call : Except Revert WorkerRegistry) : Except Revert (Marketplace Ledger) := do
  let registry ← call
  pure { state with registry }

def withTokens (call : Except Revert (WorkerRegistry × Tokens Ledger)) :
    Except Revert (Marketplace Ledger) := do
  let (registry, tokens) ← call
  pure { state with registry, tokens }

def execute (msg : Msg) : Call Ledger → Except Revert (Marketplace Ledger)
  | .setAuthorized caller allowed =>
      state.quiet (state.registry.setAuthorized msg caller allowed)
  | .register amount =>
      state.withTokens (state.registry.register chain.erc20 chain.registryAddress msg
        state.tokens amount.toNat)
  | .bond amount =>
      state.withTokens (state.registry.addBond chain.erc20 chain.registryAddress msg
        state.tokens amount.toNat)
  | .unbond amount =>
      state.withTokens (state.registry.unbond chain.erc20 chain.registryAddress msg
        state.tokens amount.toNat)
  | .updateReputation worker outcome =>
      state.quiet (state.registry.updateReputation msg worker outcome)
  | .slash worker _ bpsAmount =>
      state.quiet (state.registry.slash msg worker bpsAmount.toNat)
  | .decay worker => state.quiet (state.registry.decay msg worker)
  | .setResolver newResolver => state.setResolver msg newResolver
  | .postJob specHash bounty deadline minTier =>
      state.postJob chain msg specHash bounty.toNat deadline.toNat minTier.toNat
  | .assign id worker => state.assign msg id.toNat worker
  | .submit id resultHash => state.submit msg id.toNat resultHash
  | .resolve id accepted => state.resolve chain msg id.toNat accepted
  | .token after => do
      -- nobody else can spend what the contracts hold
      let held := fun ledger =>
        (chain.erc20.balanceOf ledger state.market.bountyToken chain.marketAddress,
          chain.erc20.balanceOf ledger state.registry.stakeToken chain.registryAddress)
      ensure ((held state.tokens.ledger).1 ≤ (held after).1 ∧
        (held state.tokens.ledger).2 ≤ (held after).2) .token
      pure { state with tokens := { state.tokens with ledger := after } }

/-- A call by an outside account; a reverted call changes nothing. -/
def step (state : Marketplace Ledger) (call : Msg × Call Ledger) : Marketplace Ledger :=
  if chain.Outside call.1.sender then settle state (state.execute chain call.1 call.2)
  else state

/-- Newly deployed contracts, each by its own deployer. -/
def deployed (bountyToken stakeToken resolver owner : Address) (ledger : Ledger) :
    Marketplace Ledger where
  tokens := ⟨ledger, []⟩
  registry := .deployed stakeToken owner
  market := .deployed bountyToken resolver
  events := []

end Marketplace

end Roko
