import Roko.BountyMarket

/-!
# The validation committee

`ConsortiumValidator.sol`: for a job a committee of three trusted workers is drawn by a
hash, each member votes once, and the second vote for an outcome resolves the job.
-/

namespace Roko

open Contracts

/-- The members are the elements of `address[3]`. -/
structure Committee where
  members : List Address
  approves : Nat
  rejects : Nat
  tallied : Bool
  existing : Bool
  voted : Address → Bool

namespace Committee

/-- What the mapping holds for a job without a committee. -/
def none : Committee := ⟨[0, 0, 0], 0, 0, false, false, fun _ => false⟩

/-- The committee with one more vote. -/
def counted (committee : Committee) (validator : Address) (approve : Bool) :
    Except Revert Committee := do
  let voted := Function.update committee.voted validator true
  if approve then
    let approves ← checkedAdd 8 committee.approves 1
    pure { committee with voted, approves }
  else
    let rejects ← checkedAdd 8 committee.rejects 1
    pure { committee with voted, rejects }

end Committee

/-- The events of the validator. -/
inductive ValidatorEvent
  | committeeAssembled (jobId : Nat) (members : List Address)
  | voteCast (jobId : Nat) (validator : Address) (approve : Bool)
  | tallied (jobId : Nat) (accepted : Bool)
  deriving DecidableEq, Repr

/-- The validator and the market that it resolves. -/
structure Consortium (Ledger : Type) where
  place : Marketplace Ledger
  committees : Nat → Committee
  log : List ValidatorEvent

/-- Where the three contracts are deployed, and what they call. -/
structure ConsortiumChain (Ledger : Type) extends MarketChain Ledger where
  validatorAddress : Address
  separate : toMarketChain.Outside validatorAddress
  keccak256 : Bytes → B256
  blockhash : Nat → B256

namespace ConsortiumChain

variable {Ledger : Type}

/-- An account that can call the three contracts. -/
def External (chain : ConsortiumChain Ledger) (account : Address) : Prop :=
  chain.Outside account ∧ account ≠ chain.validatorAddress

instance (chain : ConsortiumChain Ledger) (account : Address) :
    Decidable (chain.External account) :=
  inferInstanceAs (Decidable (_ ∧ _))

end ConsortiumChain

namespace Consortium

def committeeSize : Nat := 3

/-- The trusted workers of the registry, in the order of their registration. -/
def candidates (registry : WorkerRegistry) (now : Nat) : List Address :=
  registry.registered.filter fun worker => registry.canAccept now worker .trusted

/-- `candidates[uint256(keccak256(abi.encode(seed, round, jobId))) % ncand]`. -/
def pick (keccak256 : Bytes → B256) (seed : B256) (jobId : Nat) (candidates : List Address)
    (round : Nat) : Address :=
  let encoded := u256Bytes seed ++ ByteEncoding.bigEndian 32 round ++
    ByteEncoding.bigEndian 32 jobId
  candidates.getD ((keccak256 encoded).toNat % candidates.length) 0

/-- The loop over the rounds.  It stops when the committee is complete, and a round that
draws a member again adds nobody. -/
def draw (picked : Nat → Address) : List Nat → List Address → List Address
  | [], chosen => chosen
  | round :: rounds, chosen =>
      if committeeSize ≤ chosen.length then chosen
      else if picked round = 0 then draw picked rounds chosen
      else if picked round ∈ chosen then draw picked rounds chosen
      else draw picked rounds (chosen ++ [picked round])

variable {Ledger : Type} (chain : ConsortiumChain Ledger) (state : Consortium Ledger)

/-- The seed of the draw: the hash of the last block, or a number when there is none. -/
def seed (msg : Msg) (jobId : Nat) : Except Revert B256 := do
  let previous ← checkedSub msg.number 1
  if chain.blockhash previous = 0 then
    let number ← checkedAdd 256 jobId msg.timestamp
    pure (BitVec.ofNat 256 number)
  else pure (chain.blockhash previous)

def setCommittee (jobId : Nat) (committee : Committee) : Consortium Ledger :=
  { state with committees := Function.update state.committees jobId committee }

def assembleCommittee (msg : Msg) (jobId : Nat) : Except Revert (Consortium Ledger) := do
  let committee := state.committees jobId
  ensure (!committee.existing) .alreadyAssembled
  let candidates := candidates state.place.registry msg.timestamp
  ensure (committeeSize ≤ candidates.length) .insufficientTrustedWorkers
  let seed ← seed chain msg jobId
  let chosen := draw (pick chain.keccak256 seed jobId candidates) (List.range 32) []
  ensure (chosen.length = committeeSize) (.require "assembly failed")
  pure { state.setCommittee jobId { committee with existing := true, members := chosen } with
    log := state.log ++ [.committeeAssembled jobId chosen] }

def vote (msg : Msg) (jobId : Nat) (approve : Bool) : Except Revert (Consortium Ledger) := do
  let committee := state.committees jobId
  ensure committee.existing .notAssembled
  ensure (!committee.tallied) .alreadyTallied
  ensure (!committee.voted msg.sender) .alreadyVoted
  ensure (msg.sender ∈ committee.members) .notAMember
  let committee ← committee.counted msg.sender approve
  let log := state.log ++ [.voteCast jobId msg.sender approve]
  if 2 ≤ committee.approves ∨ 2 ≤ committee.rejects then
    let accepted := decide (2 ≤ committee.approves)
    let place ← state.place.resolve chain.toMarketChain
      { msg with sender := chain.validatorAddress } jobId accepted
    pure { (state.setCommittee jobId { committee with tallied := true }) with
      place
      log := log ++ [.tallied jobId accepted] }
  else
    pure { state.setCommittee jobId committee with log }

/-- The calls of the three contracts. -/
inductive Call (Ledger : Type)
  | market (call : Marketplace.Call Ledger)
  | assembleCommittee (jobId : U256)
  | vote (jobId : U256) (approve : Bool)

def execute (msg : Msg) : Call Ledger → Except Revert (Consortium Ledger)
  | .market call => do
      let place ← state.place.execute chain.toMarketChain msg call
      pure { state with place }
  | .assembleCommittee jobId => state.assembleCommittee chain msg jobId.toNat
  | .vote jobId approve => state.vote chain msg jobId.toNat approve

/-- A call by an account that is none of the contracts; a reverted call changes nothing. -/
def step (state : Consortium Ledger) (call : Msg × Call Ledger) : Consortium Ledger :=
  if chain.External call.1.sender then settle state (state.execute chain call.1 call.2)
  else state

/-- A newly deployed validator before a market. -/
def deployed (place : Marketplace Ledger) : Consortium Ledger :=
  ⟨place, fun _ => .none, []⟩

end Consortium

end Roko
