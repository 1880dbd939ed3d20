import Roko.EvmExecutor
import Roko.ForkIndexes
import Roko.ForkWatchers

/-!
# The live fork and its writers

The model of `TargetedFollower::replay_block` in `mirage-rs/src/replay.rs` and of the
writers in `mirage-rs/src/rpc.rs`.  A section that runs under the lock of the live fork
is one step.  The follower and the requests that commit a transaction clone the fork in
one section, execute on the clone without a lock, and write in another section; the
other requests write in a single section.
-/

namespace Roko

/-- Put a write layer in place. -/
def ForkState.withDirty (state : ForkState) (dirty : DirtyStore) : ForkState :=
  { state with db := { state.db with dirty } }

theorem ForkState.sameIndexes_withDirty (state : ForkState) (dirty : DirtyStore) :
    SameIndexes state (state.withDirty dirty) :=
  ⟨rfl, rfl, rfl, rfl⟩

/-- Execute the request that the upstream node has for a transaction. -/
def TxReplay.execute (ext : Externals)
    (fetched : Except MirageError TransactionRequest) (state : ForkState) :
    ForkState × Executed :=
  match fetched with
  | .error failure => (state, .error failure)
  | .ok request =>
      match request.sender with
      | none => (state, .error (.invalidParams "missing from"))
      | some sender =>
          EvmExecutor.transact ext state sender request.recipient
            (request.data.getD []) (request.value.getD 0) (request.gas.getD 30000000)

namespace TargetedFollower

/-- A transaction of an upstream block, with the orders in which the classified
accounts are visited. -/
structure ReplayTurn where
  ext : Externals
  fetched : Except MirageError TransactionRequest
  number : UInt64
  parent : Option Address
  contagionOrder : List (Address × Classification) → List (Address × Classification)
  classifierOrder : List (Address × Classification) → List (Address × Classification)

/-- The transaction is passed over, ends the replay of the block, or has a branch to
adopt. -/
inductive Replayed
  | skipped
  | stopped (failure : MirageError)
  | executed (branch : ForkState)

/-- What the follower does on its clone. -/
def replayOnClone (config : ClassificationConfig) (turn : ReplayTurn)
    (fork : ForkState) : Replayed :=
  match TxReplay.execute turn.ext turn.fetched fork.snapshot.1 with
  | (_, .error _) => .skipped
  | (fork, .ok (_, diff)) =>
      if !diff.success then .skipped
      else
        let classified := DiffClassifier.classify config diff
        match applyContagionWatchers config fork.db.dirty diff turn.number turn.parent
            (turn.contagionOrder classified) with
        | (_, .error failure) => .stopped failure
        | (dirty, .ok ()) =>
            match DiffClassifier.apply config dirty diff turn.number
                (turn.classifierOrder classified) with
            | (_, .error failure) => .stopped failure
            | (dirty, .ok ()) => .executed (fork.withDirty dirty)

/-- What the follower reads off a block of the upstream node. -/
structure UpstreamBlock where
  number : UInt64
  hash : Option B256
  timestamp : Option UInt64
  baseFeePerGas : Option (BitVec 128)
  coinbase : Option Address
  prevRandao : Option B256
  gasUsed : Option UInt64
  gasLimit : Option UInt64
  transactions : List B256
  deriving DecidableEq

/-- The block that is indexed after its transactions were replayed. -/
def localBlock (block : UpstreamBlock) (live : ForkState) : LocalBlock :=
  { hash := block.hash.getD 0, number := block.number, timestamp := live.timestamp
    gasUsed := block.gasUsed.getD 0, gasLimit := block.gasLimit.getD 30000000
    baseFeePerGas := live.nextBaseFeePerGas, coinbase := live.coinbase
    prevRandao := live.prevRandao, transactions := block.transactions }

def updateEnvironment (block : UpstreamBlock) (live : ForkState) : ForkState :=
  { live with
    timestamp := block.timestamp.getD live.timestamp
    nextBaseFeePerGas := block.baseFeePerGas.getD live.nextBaseFeePerGas
    coinbase := block.coinbase.getD live.coinbase
    prevRandao := block.prevRandao.getD live.prevRandao }

/-- Under its own number and hash only, before pruning. -/
def fileUpstream (block : UpstreamBlock) (live : ForkState) : ForkState :=
  let live := updateEnvironment block live
  let filed := localBlock block live
  { live with
    localBlockNumber := block.number
    blocksByHash := live.blocksByHash.insert filed.hash filed
    blocksByNumber := live.blocksByNumber.insert block.number filed }

/-- The end of a block: the miner keeps the block number when only the state follows. -/
def finishBlock (syncStateOnly : Bool) (block : UpstreamBlock) (live : ForkState) :
    ForkState :=
  if syncStateOnly then updateEnvironment block live
  else (fileUpstream block live).pruneOldBlocks

end TargetedFollower

structure CommittedTransaction where
  txHash : B256
  blockNumber : UInt64
  diff : StateDiff
  transaction : LocalTransaction
  receipt : LocalReceipt
  block : LocalBlock
  deriving DecidableEq

/-- A request to commit, with the orders in which its maps are visited. -/
structure CommitTurn where
  ext : Externals
  request : TransactionRequest
  overrideHash : Option B256
  transactionOrder : List (B256 × LocalTransaction) → List (B256 × LocalTransaction)
  classifierOrder : List (Address × Classification) → List (Address × Classification)

/-- The last of the transactions with the largest block number. -/
def latestLocalTxHash
    (order : List (B256 × LocalTransaction) → List (B256 × LocalTransaction))
    (state : ForkState) : Except MirageError B256 :=
  let latest := (order state.transactions.toList).foldl (fun latest entry =>
    match latest with
    | none => some entry
    | some found =>
        if found.2.blockNumber ≤ entry.2.blockNumber then some entry else some found) none
  match latest with
  | none => .error (.unsupported "missing tx after commit")
  | some (hash, _) => .ok hash

/-- The blocks by hash of the clone are not read afterwards. -/
def adoptLatestTransactionHash (state : ForkState) (currentHash newHash : B256) :
    Except MirageError ForkState :=
  if currentHash = newHash then .ok state
  else
    match state.transactions[currentHash]? with
    | none => .error (.unsupported "latest transaction missing from store")
    | some transaction =>
        match state.receipts[currentHash]? with
        | none => .error (.unsupported "latest receipt missing from store")
        | some receipt =>
            let renamed (block : LocalBlock) : LocalBlock :=
              { block with transactions := block.transactions.map fun hash =>
                  if hash = currentHash then newHash else hash }
            .ok { state with
              transactions := (state.transactions.erase currentHash).insert newHash
                { transaction with hash := newHash }
              receipts := (state.receipts.erase currentHash).insert newHash
                { receipt with transactionHash := newHash }
              blocksByNumber :=
                match state.blocksByNumber[transaction.blockNumber]? with
                | none => state.blocksByNumber
                | some block =>
                    state.blocksByNumber.insert transaction.blockNumber (renamed block) }

def commitTransactionOnSnapshot (turn : CommitTurn) (fork : ForkState) :
    Except MirageError CommittedTransaction :=
  match turn.request.sender with
  | none => .error (.invalidParams "missing from")
  | some sender => do
      let (fork, executed) := EvmExecutor.transact turn.ext fork sender
        turn.request.recipient (turn.request.data.getD []) (turn.request.value.getD 0)
        (turn.request.gas.getD 21000)
      let (_, diff) ← executed
      let currentHash ← latestLocalTxHash turn.transactionOrder fork
      let fork ← match turn.overrideHash with
        | some expectedHash => adoptLatestTransactionHash fork currentHash expectedHash
        | none => .ok fork
      let txHash := turn.overrideHash.getD currentHash
      match fork.transactions[txHash]? with
      | none => .error (.unsupported "missing tx after commit")
      | some transaction =>
          match fork.receipts[txHash]? with
          | none => .error (.unsupported "missing receipt after commit")
          | some receipt =>
              match fork.blocksByNumber[transaction.blockNumber]? with
              | none => .error (.unsupported "missing block after commit")
              | some block =>
                  .ok { txHash, blockNumber := transaction.blockNumber, diff, transaction
                        receipt, block }

/-- The write section of a request: the transaction stays committed when the watch list
is full. -/
def commitTransaction (turn : CommitTurn) (live : ForkState)
    (committed : CommittedTransaction) : ForkState :=
  let live := live.commitLocalTransaction turn.ext committed.diff committed.transaction
    committed.receipt committed.block
  let classified := DiffClassifier.classify {} committed.diff
  let watched := DiffClassifier.apply {} live.db.dirty committed.diff
    committed.blockNumber (turn.classifierOrder classified)
  live.withDirty watched.1

/-- The requests that write one field of an account. -/
inductive AccountWrite
  | setBalance (address : Address) (balance : U256)
  | setNonce (address : Address) (nonce : UInt64)
  | setCode (ext : Externals) (address : Address) (code : Bytecode)
  | setStorage (address : Address) (slot value : U256)

def AccountWrite.apply (db : HybridDb) : AccountWrite → HybridDb
  | .setBalance address balance => db.setBalance address balance
  | .setNonce address nonce => db.setNonce address nonce
  | .setCode ext address code => HybridDb.setCode ext db address code
  | .setStorage address slot value => db.setStorage address slot value

/-- One turn of the loop of `evm_mine`; its blocks are hashed over the number with the
low byte first. -/
def mineEmptyBlock (ext : Externals) (state : ForkState) (timestamp : UInt64) :
    ForkState :=
  let number := saturatingSucc state.localBlockNumber
  ForkState.fileBlock ext { state with localBlockNumber := number, timestamp }
    { hash := ext.keccak256 (u64Bytes number).reverse, number, timestamp, gasUsed := 0
      gasLimit := 30000000, baseFeePerGas := state.nextBaseFeePerGas
      coinbase := state.coinbase, prevRandao := state.prevRandao, transactions := [] }

/-- The clock is read once for every block. -/
def evmMine (ext : Externals) (state : ForkState) (clock : List UInt64) : ForkState :=
  (clock.foldl (mineEmptyBlock ext) state).pruneOldBlocks

/-- The live fork, the clone the follower works on, and the clones of the requests that
are being executed. -/
structure ForkSystem where
  live : ForkState
  follower : Option ForkState
  writers : Std.ExtTreeMap Nat ForkState

inductive ForkAction
  | followerClone
  | followerAdopt (config : ClassificationConfig) (turn : TargetedFollower.ReplayTurn)
  | followerFinish (syncStateOnly : Bool) (block : TargetedFollower.UpstreamBlock)
  | writerClone (writer : Nat)
  | writerCommit (writer : Nat) (turn : CommitTurn)
  | write (change : AccountWrite)
  | mine (ext : Externals) (clock : List UInt64)

namespace ForkSystem

/-- A fork that nobody is working on. -/
def idle (live : ForkState) : ForkSystem :=
  { live, follower := none, writers := ∅ }

/-- The clone of the follower and the branch to adopt. -/
def replayed (system : ForkSystem) (config : ClassificationConfig)
    (turn : TargetedFollower.ReplayTurn) : Option (ForkState × ForkState) :=
  system.follower.bind fun fork =>
    match TargetedFollower.replayOnClone config turn fork with
    | .executed branch => some (fork, branch)
    | _ => none

/-- The clone of a request and the transaction to commit. -/
def executed (system : ForkSystem) (writer : Nat) (turn : CommitTurn) :
    Option (ForkState × CommittedTransaction) :=
  system.writers[writer]?.bind fun fork =>
    match commitTransactionOnSnapshot turn fork with
    | .ok committed => some (fork, committed)
    | .error _ => none

def step (system : ForkSystem) : ForkAction → ForkSystem
  | .followerClone => { system with follower := some system.live }
  | .followerAdopt config turn =>
      { system with
        live := (system.replayed config turn).elim system.live fun replayed =>
          system.live.adoptExecutedBranch replayed.2
        follower := none }
  | .followerFinish syncStateOnly block =>
      { system with live := TargetedFollower.finishBlock syncStateOnly block system.live }
  | .writerClone writer =>
      { system with writers := system.writers.insert writer system.live }
  | .writerCommit writer turn =>
      { system with
        live := (system.executed writer turn).elim system.live fun executed =>
          commitTransaction turn system.live executed.2
        writers := system.writers.erase writer }
  | .write change =>
      { system with live := { system.live with db := change.apply system.live.db } }
  | .mine ext clock => { system with live := evmMine ext system.live clock }

end ForkSystem

end Roko
