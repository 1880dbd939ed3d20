import Roko.EvmExecutor

/-!
# Speculative execution

The model of `SpeculativeExecutor` in `mirage-rs/src/replay.rs` and of `CowState` in
`mirage-rs/src/cow.rs`.  A request is executed on a copy of the fork whose storage comes
from a shared baseline, and its outcome is kept under the hash of the request and the
block number until it is invalidated.
-/

namespace Roko

namespace TransactionRequest

/-- A missing gas limit is that of a block. -/
def gasLimit (request : TransactionRequest) : UInt64 :=
  request.gas.getD 30000000

/-- Execute the request on a fork, as `TxReplay::execute` does. -/
def transact (ext : Externals) (state : ForkState) (request : TransactionRequest) :
    Executed :=
  match request.sender with
  | none => .error (.invalidParams "missing from")
  | some sender =>
      (EvmExecutor.transact ext state sender request.recipient (request.data.getD [])
        (request.value.getD 0) request.gasLimit).2

end TransactionRequest

/-- The values of slots, by account. -/
abbrev SlotValues := Std.ExtTreeMap Address (Std.ExtTreeMap U256 U256)

def SlotValues.find (values : SlotValues) (address : Address) (slot : U256) :
    Option U256 :=
  values[address]?.bind (·[slot]?)

structure CowState where
  baseline : SlotValues
  overlay : SlotValues
  deriving DecidableEq

namespace CowState

def branch (baseline : SlotValues) : CowState :=
  { baseline, overlay := ∅ }

def read (cow : CowState) (address : Address) (slot : U256) : Option U256 :=
  (cow.overlay.find address slot).or (cow.baseline.find address slot)

end CowState

/-- Slots of accounts; slot zero also stands for the account data. -/
abbrev SlotRefs := List (Address × U256)

structure SpeculativeResult where
  result : ExecutionResult
  stateDiff : StateDiff
  readSet : SlotRefs
  deriving DecidableEq

structure SpeculativeContext where
  blockNumber : UInt64
  timestamp : UInt64
  deriving DecidableEq

structure SpeculativeExecutor where
  cache : List ((B256 × UInt64) × SpeculativeResult) := []
  cacheContext : Option SpeculativeContext := none
  cowBaseline : Option (SpeculativeContext × SlotValues) := none
  deriving DecidableEq

/-- The bytes that `speculative_key` hashes. -/
def speculativeKeyBytes (sender : Address) (recipient : Option Address) (value : U256)
    (gas : UInt64) (data : Bytes) : Bytes :=
  addressBytes sender ++ addressBytes (recipient.getD 0) ++ u256Bytes value ++
    u64Bytes gas ++ data

def speculativeKey (ext : Externals) (sender : Address) (recipient : Option Address)
    (value : U256) (gas : UInt64) (data : Bytes) : B256 :=
  ext.keccak256 (speculativeKeyBytes sender recipient value gas data)

/-- The slots that a diff reads or writes, and slot zero of each account whose data it
changes. -/
def readSetOf (diff : StateDiff) : SlotRefs :=
  diff.accounts.toList.flatMap fun entry =>
    (entry.2.storageRead.toList ++ entry.2.storageWritten.keys).map (entry.1, ·) ++
      if entry.2.infoChanged then [(entry.1, 0)] else []

def currentContext (state : ForkState) : SpeculativeContext :=
  { blockNumber := state.localBlockNumber, timestamp := state.timestamp }

/-- The fork with the storage of the copy-on-write branch, for the slots that the write
layer has. -/
def buildSpeculativeState (state : ForkState) (cow : CowState) : ForkState :=
  let accounts := state.db.dirty.accounts.map fun address account =>
    { account with storage := account.storage.filterMap fun slot _ => cow.read address slot }
  let dirty : DirtyStore :=
    { accounts
      watchList := state.db.dirty.watchList
      unwatchList := state.db.dirty.unwatchList
      totalDirtySlots := state.db.dirty.totalDirtySlots
      demoteProtocolsToSlotOnly := state.db.dirty.demoteProtocolsToSlotOnly }
  let db : HybridDb :=
    { dirty, pinnedBlock := state.db.pinnedBlock, chainId := state.db.chainId }
  { ForkState.new db state.localBlockNumber state.chainId state.timestamp with
    nextBaseFeePerGas := state.nextBaseFeePerGas
    coinbase := state.coinbase
    prevRandao := state.prevRandao }

namespace SpeculativeExecutor

/-- Another block number or timestamp than the last one clears both caches. -/
def prepareContext (executor : SpeculativeExecutor) (state : ForkState) :
    SpeculativeExecutor :=
  let context := currentContext state
  { cache :=
      if executor.cacheContext.any (· ≠ context) then [] else executor.cache
    cowBaseline := executor.cowBaseline.filter fun cached => cached.1 = context
    cacheContext := some context }

def ensureCowBaseline (executor : SpeculativeExecutor) (state : ForkState) :
    SpeculativeExecutor × SlotValues :=
  let context := currentContext state
  match executor.cowBaseline.filter fun cached => cached.1 = context with
  | some (_, baseline) => (executor, baseline)
  | none =>
      let baseline := state.db.dirty.accounts.map fun _ account => account.storage
      ({ executor with cowBaseline := some (context, baseline) }, baseline)

def execute (ext : Externals) (executor : SpeculativeExecutor) (state : ForkState)
    (request : TransactionRequest) :
    SpeculativeExecutor × Except MirageError SpeculativeResult :=
  let executor := executor.prepareContext state
  match request.sender with
  | none => (executor, .error (.invalidParams "missing from"))
  | some sender =>
      let value := request.value.getD 0
      let data := request.data.getD []
      let hash :=
        speculativeKey ext sender request.recipient value request.gasLimit data
      match executor.cache.lookup (hash, state.localBlockNumber) with
      | some cached => (executor, .ok cached)
      | none =>
          let (executor, baseline) := executor.ensureCowBaseline state
          let speculative := buildSpeculativeState state (CowState.branch baseline)
          match (EvmExecutor.transact ext speculative sender request.recipient data value
              request.gasLimit).2 with
          | .error failure => (executor, .error failure)
          | .ok (result, stateDiff) =>
              let kept := { result, stateDiff, readSet := readSetOf stateDiff }
              -- The key is not in the cache, so the insertion replaces nothing.
              ({ executor with
                  cache := ((hash, state.localBlockNumber), kept) :: executor.cache },
                .ok kept)

/-- Remove the results that read what was written. -/
def invalidateForWrites (executor : SpeculativeExecutor) (writes : SlotRefs) :
    SpeculativeExecutor :=
  { executor with
    cache := executor.cache.filter fun entry =>
      !entry.2.readSet.any fun location => writes.contains location }

def invalidateForBlock (executor : SpeculativeExecutor) (blockNumber : UInt64) :
    SpeculativeExecutor :=
  { cache := executor.cache.filter fun entry => entry.1.2 ≠ blockNumber
    cacheContext := executor.cacheContext.filter fun context =>
      context.blockNumber ≠ blockNumber
    cowBaseline := executor.cowBaseline.filter fun cached =>
      cached.1.blockNumber ≠ blockNumber }

def invalidateForRequest (ext : Externals) (executor : SpeculativeExecutor)
    (request : TransactionRequest) : SpeculativeExecutor :=
  match request.sender with
  | none => executor
  | some sender =>
      let hash := speculativeKey ext sender request.recipient (request.value.getD 0)
        request.gasLimit (request.data.getD [])
      { executor with cache := executor.cache.filter fun entry => entry.1.1 ≠ hash }

end SpeculativeExecutor

end Roko
