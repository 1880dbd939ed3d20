import Roko.ContentHash
import Roko.ForkDatabase

/-!
# Executing a transaction on a fork

The model of `EvmExecutor::transact` in `mirage-rs/src/fork.rs`.  Empty data is a
value transfer, some selectors and the token transfer are simulated by writing the
database directly, and everything else goes through the EVM, for which the whole
database is taken out of the state and put back afterwards.
-/

namespace Roko

/-- The outcome of a transaction. -/
abbrev Executed := Except MirageError (ExecutionResult × StateDiff)

def StateDiff.ofSuccess (gasUsed : UInt64) (output : Bytes) : StateDiff :=
  { gasUsed, success := true, output }

def decodeErc20Transfer (data : Bytes) : Option (Address × U256) :=
  if data.length ≠ 68 ∨ data.take 4 ≠ [0xa9, 0x05, 0x9c, 0xbb] then none
  else
    some (ofBytes 160 ((data.drop 16).take 20), ofBytes 256 ((data.drop 36).take 32))

def transactionSelector (data : Bytes) : Option Bytes :=
  if data.length < 4 then none else some (data.take 4)

def isProtocolSelector (selector : Bytes) : Bool :=
  [[0x41, 0x4b, 0xf3, 0x89], [0xc0, 0x4b, 0x8d, 0x59], [0xdb, 0x3e, 0x21, 0x98],
    [0xf2, 0x8c, 0x04, 0x98], [0x88, 0x31, 0x64, 0x56], [0x21, 0x9f, 0x5d, 0x17],
    [0x0c, 0x49, 0xcc, 0xbe], [0xfc, 0x6f, 0x78, 0x65], [0x61, 0x7b, 0xa0, 0x37],
    [0x69, 0x32, 0x8d, 0xec], [0xa4, 0x15, 0xbc, 0xad], [0x57, 0x3a, 0xde, 0x81],
    [0x00, 0xa7, 0x18, 0xa9]].contains selector

def isProtocolMintSelector (selector : Bytes) : Bool :=
  [[0x88, 0x31, 0x64, 0x56], [0x21, 0x9f, 0x5d, 0x17]].contains selector

def topicForAddress (address : Address) : B256 :=
  address.setWidth 256

def transferEventTopic (ext : Externals) : B256 :=
  ext.keccak256 (textBytes "Transfer(address,address,uint256)")

def nextTransactionHash (ext : Externals) (sender : Address)
    (recipient : Option Address) (value : U256) (nonce blockNumber : UInt64) :
    B256 :=
  ext.keccak256 (addressBytes sender ++ addressBytes (recipient.getD 0) ++
    u256Bytes value ++ u64Bytes nonce ++ u64Bytes blockNumber)

/-- What an account's entry has that the entry before did not have. -/
def accountDiffFromDirtyChange (before : Option DirtyAccount)
    (after : DirtyAccount) : Option AccountDiff :=
  let storageWritten := after.storage.filter fun slot value =>
    before.bind (·.storage[slot]?) ≠ some value
  let newBalance :=
    if after.balance ≠ before.bind (·.balance) then after.balance else none
  let newNonce :=
    if after.nonce ≠ before.bind (·.nonce) then after.nonce else none
  let newCode := if after.code = before.bind (·.code) then none else after.code
  let infoChanged := newBalance.isSome || newNonce.isSome || newCode.isSome
  if storageWritten.isEmpty && !infoChanged then none
  else some { infoChanged, newBalance, newNonce, newCode, storageWritten }

def logsOf (result : EvmResult) : List LogEntry :=
  result.logs.zipIdx.map fun entry =>
    { address := entry.1.1, topics := entry.1.2.1, data := entry.1.2.2
      logIndex := UInt32.ofNat entry.2 }

/-- Entries that the execution removed are left out. -/
def stateDiffFromDirtyMaps (before after : Std.ExtTreeMap Address DirtyAccount)
    (result : EvmResult) : StateDiff :=
  { accounts := after.filterMap fun address account =>
      accountDiffFromDirtyChange before[address]? account
    logs := logsOf result, gasUsed := result.gasUsed, success := result.success
    output := result.output.getD [] }

namespace EvmExecutor

/-- Index the transaction in a block of its own. -/
def finalizeTransaction (ext : Externals) (state : ForkState) (sender : Address)
    (recipient : Option Address) (value : U256) (input : Bytes)
    (gasLimit nonce : UInt64) (diff : StateDiff) : ForkState × Executed :=
  let hash := nextTransactionHash ext sender recipient value nonce
    (state.localBlockNumber + 1)
  let number := saturatingSucc state.localBlockNumber
  let blockHash := ext.keccak256 (u64Bytes number)
  let transaction : LocalTransaction :=
    { hash, sender, recipient, value, input, gas := gasLimit, nonce
      blockNumber := number }
  let receipt : LocalReceipt :=
    { transactionHash := hash, blockHash, blockNumber := number, sender, recipient
      gasUsed := diff.gasUsed, success := diff.success, logs := diff.logs
      stateDiff := diff }
  let block : LocalBlock :=
    { hash := blockHash, number, timestamp := state.timestamp
      gasUsed := diff.gasUsed, gasLimit := 30000000
      baseFeePerGas := state.nextBaseFeePerGas, coinbase := state.coinbase
      prevRandao := state.prevRandao, transactions := [hash] }
  (ForkState.insertLocal ext { state with localBlockNumber := number }
      transaction receipt block,
    .ok (⟨diff.success, diff.gasUsed, diff.output⟩, diff))

/-- Where a value transfer without a recipient goes. -/
def burnAddress : Address := 0xdead

def writeValueTransfer (db : HybridDb) (sender target : Address)
    (senderBalance targetBalance : U256) (nextNonce : UInt64) : HybridDb :=
  ((db.setBalance sender senderBalance).setNonce sender nextNonce).setBalance target
    targetBalance

/-- The second entry replaces the first when the addresses are equal. -/
def valueTransferDiff (sender target : Address) (senderBalance targetBalance : U256)
    (nextNonce gasLimit : UInt64) : StateDiff :=
  let diff := StateDiff.ofSuccess (min 21000 gasLimit) []
  { diff with
    accounts := (diff.accounts.insert sender
      { infoChanged := true, newBalance := some senderBalance
        newNonce := some nextNonce }).insert target
      { infoChanged := true, newBalance := some targetBalance } }

def transactValueTransfer (ext : Externals) (state : ForkState) (sender : Address)
    (recipient : Option Address) (value : U256) (gasLimit : UInt64) :
    ForkState × Executed :=
  match HybridDb.basic ext state.db sender with
  | .error failure => (state, .error failure)
  | .ok senderFound =>
      let target := recipient.getD burnAddress
      match HybridDb.basic ext state.db target with
      | .error failure => (state, .error failure)
      | .ok targetFound =>
          let senderInfo := senderFound.getD {}
          let targetInfo := targetFound.getD {}
          if state.strictBalance && senderInfo.balance < value then
            (state, .error (.unsupported "insufficient balance"))
          else
            let senderBalance := (U256.checkedSub senderInfo.balance value).getD 0
            let targetBalance := U256.saturatingAdd targetInfo.balance value
            let nextNonce := saturatingSucc senderInfo.nonce
            let db := writeValueTransfer state.db sender target senderBalance
              targetBalance nextNonce
            finalizeTransaction ext { state with db } sender recipient value []
              gasLimit nextNonce
              (valueTransferDiff sender target senderBalance targetBalance nextNonce
                gasLimit)

/-- Count the transaction in the sender's nonce and finalize it.  A sender that
cannot be read stops it after the writes so far. -/
def finishSimulated (ext : Externals) (state : ForkState) (sender contract : Address)
    (input : Bytes) (gasLimit : UInt64) (diff : StateDiff) : ForkState × Executed :=
  match HybridDb.basic ext state.db sender with
  | .error failure => (state, .error failure)
  | .ok info =>
      let nextNonce := saturatingSucc (info.getD {}).nonce
      let accounts := diff.accounts.insert sender
        { infoChanged := true, newNonce := some nextNonce }
      finalizeTransaction ext
        { state with db := state.db.setNonce sender nextNonce } sender (some contract)
        0 input gasLimit nextNonce { diff with accounts }

/-- The mapping slots of the given owners that the token's entry holds, with the
balance of each owner. -/
def writtenBalances (ext : Externals) (token : DirtyAccount) (slot : U256)
    (balances : List (Address × U256)) : List (U256 × U256) :=
  (balances.map fun entry => (erc20MappingSlot ext entry.1 slot, entry.2)).filter
    fun entry => token.storage.contains entry.1

/-- Read the two balances and check that the sender's is large enough. -/
def transferBalances (ext : Externals) (db : HybridDb) (strict : Bool)
    (token sender recipient : Address) (amount : U256) :
    HybridDb × Except MirageError (U256 × U256) :=
  match HybridDb.erc20BalanceOf ext db token sender with
  | (db, .error failure) => (db, .error failure)
  | (db, .ok senderBalance) =>
      if strict && senderBalance < amount then
        (db, .error (.unsupported "insufficient token balance"))
      else
        match HybridDb.erc20BalanceOf ext db token recipient with
        | (db, .error failure) => (db, .error failure)
        | (db, .ok recipientBalance) => (db, .ok (senderBalance, recipientBalance))

def writeTransfer (ext : Externals) (db : HybridDb)
    (token sender recipient : Address) (nextSender nextRecipient : U256) :
    HybridDb :=
  let db := (HybridDb.setErc20Balance ext db token sender nextSender).1
  (HybridDb.setErc20Balance ext db token recipient nextRecipient).1

/-- The diff of a token transfer, read off the token's entry after the writes. -/
def transferDiff (ext : Externals) (account : DirtyAccount)
    (token sender recipient : Address) (amount nextSender nextRecipient : U256)
    (gasLimit : UInt64) : StateDiff :=
  let written := account.erc20BalanceSlot.elim [] fun slot =>
    writtenBalances ext account slot
      [(sender, nextSender), (recipient, nextRecipient)]
  let diff := StateDiff.ofSuccess (min 50000 gasLimit) []
  { diff with
    logs :=
      [{ address := token
         topics := [transferEventTopic ext, topicForAddress sender,
           topicForAddress recipient]
         data := u256Bytes amount, logIndex := 0 }]
    accounts := diff.accounts.insert token
      { storageWritten := written.foldl
          (fun map entry => map.insert entry.1 entry.2) ∅
        storageRead := written.foldl (fun read entry => read.insert entry.1) ∅ } }

def transactErc20Transfer (ext : Externals) (state : ForkState)
    (sender token recipient : Address) (amount : U256) (gasLimit : UInt64)
    (input : Bytes) : ForkState × Executed :=
  match transferBalances ext state.db state.strictBalance token sender recipient
      amount with
  | (db, .error failure) => ({ state with db }, .error failure)
  | (db, .ok (senderBalance, recipientBalance)) =>
      let nextSender := (U256.checkedSub senderBalance amount).getD 0
      let nextRecipient := U256.saturatingAdd recipientBalance amount
      let db := writeTransfer ext db token sender recipient nextSender nextRecipient
      finishSimulated ext { state with db } sender token input gasLimit
        (transferDiff ext (db.dirty.account token) token sender recipient amount
          nextSender nextRecipient gasLimit)

/-- The three slots that every simulated protocol call writes. -/
def markContract (db : HybridDb) (contract : Address)
    (marker callerMarker calldataMarker : U256) : HybridDb :=
  ((db.setStorage contract 0 marker).setStorage contract 1
    callerMarker).setStorage contract 2 calldataMarker

/-- The writes of a simulated protocol call, and what the diff says about the
contract's storage. -/
def touchContract (ext : Externals) (db : HybridDb) (sender contract : Address)
    (selector input : Bytes) : HybridDb × Std.ExtTreeMap U256 U256 :=
  let marker := ext.keccak256 selector
  let callerMarker := ext.keccak256 (addressBytes sender)
  let calldataMarker := BitVec.ofNat 256 input.length
  let db := markContract db contract marker callerMarker calldataMarker
  let written := (((∅ : Std.ExtTreeMap U256 U256).insert 0 marker).insert 1
    callerMarker).insert 2 calldataMarker
  if isProtocolMintSelector selector then
    let (db, read) := HybridDb.erc20BalanceOf ext db contract sender
    let balance := U256.saturatingAdd (read.toOption.getD 0) 1
    let (db, slot) := HybridDb.setErc20Balance ext db contract sender balance
    let mappingSlot := erc20MappingSlot ext sender slot
    if (db.dirty.account contract).storage.contains mappingSlot then
      (db, written.insert mappingSlot balance)
    else (db, written)
  else (db, written)

def transactProtocolTouch (ext : Externals) (state : ForkState)
    (sender contract : Address) (selector : Bytes) (gasLimit : UInt64)
    (input : Bytes) : ForkState × Executed :=
  let (db, storageWritten) := touchContract ext state.db sender contract selector
    input
  let diff := StateDiff.ofSuccess (min 120000 gasLimit) []
  let log : LogEntry :=
    { address := contract
      topics := [ofBytes 256 (selector ++ List.replicate 28 0)]
      data := input, logIndex := 0 }
  let accounts := diff.accounts.insert contract
    { storageWritten
      storageRead :=
        (((∅ : Std.ExtTreeSet U256).insert 0).insert 1).insert 2 }
  finishSimulated ext { state with db } sender contract input gasLimit
    { diff with logs := [log], accounts }

/-- The environment of a call, or of a creation without a target. -/
def evmCall (state : ForkState) (caller : Address) (target : Option Address)
    (data : Bytes) (value : U256) (gasLimit nonce : UInt64) : EvmCall :=
  let baseFee := UInt64.ofNat (min state.nextBaseFeePerGas.toNat 0xFFFFFFFFFFFFFFFF)
  { caller, target, data, value, gasLimit := max gasLimit 25000, nonce
    chainId := state.chainId, gasPrice := max baseFee 1
    blockNumber := state.localBlockNumber, beneficiary := state.coinbase
    timestamp := state.timestamp, baseFee, prevRandao := state.prevRandao }

def evmDiff (before after : Std.ExtTreeMap Address DirtyAccount)
    (result : EvmResult) (gasLimit : UInt64) (output : Bytes) : StateDiff :=
  let diff := stateDiffFromDirtyMaps before after result
  { diff with gasUsed := min diff.gasUsed gasLimit, output }

/-- The common part of the two EVM paths.  An error of the EVM leaves the
placeholder in the state. -/
def transactEvm (ext : Externals) (state : ForkState) (sender : Address)
    (target : Option Address) (data : Bytes) (value : U256) (gasLimit : UInt64)
    (output : EvmResult → Bytes) : ForkState × Executed :=
  match HybridDb.basic ext state.db sender with
  | .error failure => (state, .error failure)
  | .ok info =>
      let info := info.getD {}
      if state.strictBalance && info.balance < value then
        (state, .error (.unsupported "insufficient balance"))
      else
        let call := evmCall state sender target data value gasLimit info.nonce
        match ext.buildTx call with
        | .error failure => (state, .error failure)
        | .ok () =>
            match ext.transact call state.db with
            | .error failure =>
                ({ state with db := state.db.hollowHybrid }, .error failure)
            | .ok (result, changes) =>
                let db := HybridDb.commit ext state.db changes
                finalizeTransaction ext { state with db } sender target value data
                  gasLimit (saturatingSucc info.nonce)
                  (evmDiff state.db.dirty.accounts db.dirty.accounts result gasLimit
                    (output result))

def transactGenericContractCall (ext : Externals) (state : ForkState)
    (sender contract : Address) (input : Bytes) (value : U256)
    (gasLimit : UInt64) : ForkState × Executed :=
  transactEvm ext state sender (some contract) input value gasLimit
    fun result => result.output.getD []

/-- The output of a creation is the address of the new contract. -/
def transactContractCreate (ext : Externals) (state : ForkState)
    (sender : Address) (initCode : Bytes) (value : U256) (gasLimit : UInt64) :
    ForkState × Executed :=
  transactEvm ext state sender none initCode value gasLimit
    fun result => result.createdAddress.elim (result.output.getD []) addressBytes

def transact (ext : Externals) (state : ForkState) (sender : Address)
    (recipient : Option Address) (data : Bytes) (value : U256)
    (gasLimit : UInt64) : ForkState × Executed :=
  if data.isEmpty then
    transactValueTransfer ext state sender recipient value gasLimit
  else
    match recipient with
    | none => transactContractCreate ext state sender data value gasLimit
    | some target =>
        match (transactionSelector data).filter isProtocolSelector with
        | some selector =>
            transactProtocolTouch ext state sender target selector gasLimit data
        | none =>
            match decodeErc20Transfer data with
            | some (receiver, amount) =>
                transactErc20Transfer ext state sender target receiver amount
                  gasLimit data
            | none =>
                transactGenericContractCall ext state sender target data value
                  gasLimit

variable (ext : Externals) (state : ForkState) (sender : Address)

/-- The account data of the sender is read and covers the value where balances are
checked. -/
structure SenderCovers (ext : Externals) (state : ForkState) (sender : Address)
    (value : U256) (found : Option AccountInfo) : Prop where
  read : HybridDb.basic ext state.db sender = .ok found
  enough : state.strictBalance = true → value ≤ (found.getD {}).balance

theorem finalizeTransaction_db (recipient : Option Address) (value : U256)
    (input : Bytes) (gasLimit nonce : UInt64) (diff : StateDiff) :
    (finalizeTransaction ext state sender recipient value input gasLimit nonce
      diff).1.db = state.db := by
  unfold finalizeTransaction
  dsimp only
  rw [(ForkState.sameChain_insertLocal ext _ _ _ _).db]

theorem valueTransfer_cases (recipient : Option Address) (value : U256)
    (gasLimit : UInt64) :
    (∃ failure, transactValueTransfer ext state sender recipient value gasLimit =
      (state, .error failure)) ∨
    ∃ senderFound targetFound,
      SenderCovers ext state sender value senderFound ∧
      HybridDb.basic ext state.db (recipient.getD burnAddress) = .ok targetFound ∧
      let target := recipient.getD burnAddress
      let senderBalance := U256.saturatingSub (senderFound.getD {}).balance value
      let targetBalance := U256.saturatingAdd (targetFound.getD {}).balance value
      let nextNonce := saturatingSucc (senderFound.getD {}).nonce
      transactValueTransfer ext state sender recipient value gasLimit =
        finalizeTransaction ext
          { state with
            db := writeValueTransfer state.db sender target senderBalance
              targetBalance nextNonce }
          sender recipient value [] gasLimit nextNonce
          (valueTransferDiff sender target senderBalance targetBalance nextNonce
            gasLimit) := by
  unfold transactValueTransfer
  cases senderRead : HybridDb.basic ext state.db sender with
  | error failure => exact Or.inl ⟨failure, rfl⟩
  | ok senderFound =>
      dsimp only
      cases targetRead : HybridDb.basic ext state.db (recipient.getD burnAddress) with
      | error failure => exact Or.inl ⟨failure, rfl⟩
      | ok targetFound =>
          dsimp only
          split
          case isTrue => exact Or.inl ⟨_, rfl⟩
          case isFalse covered =>
            refine Or.inr ⟨senderFound, targetFound, ⟨senderRead, fun strict => ?_⟩,
              rfl, rfl⟩
            simpa [strict] using covered

theorem finishSimulated_cases (contract : Address) (input : Bytes)
    (gasLimit : UInt64) (diff : StateDiff) :
    (∃ failure, HybridDb.basic ext state.db sender = .error failure ∧
      finishSimulated ext state sender contract input gasLimit diff =
        (state, .error failure)) ∨
    ∃ found, HybridDb.basic ext state.db sender = .ok found ∧
      let nextNonce := saturatingSucc (found.getD {}).nonce
      finishSimulated ext state sender contract input gasLimit diff =
        finalizeTransaction ext
          { state with db := state.db.setNonce sender nextNonce } sender
          (some contract) 0 input gasLimit nextNonce
          { diff with
            accounts := diff.accounts.insert sender
              { infoChanged := true, newNonce := some nextNonce } } := by
  unfold finishSimulated
  cases HybridDb.basic ext state.db sender with
  | error failure => exact Or.inl ⟨failure, rfl, rfl⟩
  | ok found => exact Or.inr ⟨found, rfl, rfl⟩

/-- The EVM is not reached, fails, or returns changes that are committed. -/
theorem transactEvm_cases (target : Option Address) (data : Bytes) (value : U256)
    (gasLimit : UInt64) (output : EvmResult → Bytes) :
    (∃ failure, transactEvm ext state sender target data value gasLimit output =
        (state, .error failure) ∧
      ∀ found, SenderCovers ext state sender value found →
        ext.buildTx (evmCall state sender target data value gasLimit
          (found.getD {}).nonce) ≠ .ok ()) ∨
    ∃ found, SenderCovers ext state sender value found ∧
      let call := evmCall state sender target data value gasLimit (found.getD {}).nonce
      ext.buildTx call = .ok () ∧
      ((∃ failure, ext.transact call state.db = .error failure ∧
          transactEvm ext state sender target data value gasLimit output =
            ({ state with db := state.db.hollowHybrid }, .error failure)) ∨
        ∃ result changes, ext.transact call state.db = .ok (result, changes) ∧
          transactEvm ext state sender target data value gasLimit output =
            finalizeTransaction ext
              { state with db := HybridDb.commit ext state.db changes }
              sender target value data gasLimit
              (saturatingSucc (found.getD {}).nonce)
              (evmDiff state.db.dirty.accounts
                (HybridDb.commit ext state.db changes).dirty.accounts result gasLimit
                (output result))) := by
  unfold transactEvm
  cases read : HybridDb.basic ext state.db sender with
  | error failure =>
      refine Or.inl ⟨failure, rfl, fun found covers => ?_⟩
      rw [covers.read] at read
      cases read
  | ok found =>
      have unique : ∀ other, SenderCovers ext state sender value other →
          other = found := by
        intro other covers
        rw [covers.read] at read
        exact Except.ok.inj read
      dsimp only
      split
      case isTrue short =>
        refine Or.inl ⟨_, rfl, fun other covers => ?_⟩
        rw [Bool.and_eq_true, decide_eq_true_eq] at short
        have enough := covers.enough short.1
        rw [unique other covers] at enough
        exact absurd short.2 (BitVec.not_lt.mpr enough)
      case isFalse covered =>
        have covers : SenderCovers ext state sender value found :=
          ⟨read, fun strict => by simpa [strict] using covered⟩
        split
        case h_1 failure rejected =>
          refine Or.inl ⟨failure, rfl, fun other otherCovers => ?_⟩
          rw [unique other otherCovers, rejected]
          exact fun same => by cases same
        case h_2 built =>
          refine Or.inr ⟨found, covers, built, ?_⟩
          split
          case h_1 failure failed => exact Or.inl ⟨failure, failed, rfl⟩
          case h_2 result changes executed =>
            exact Or.inr ⟨result, changes, executed, rfl⟩

end EvmExecutor

end Roko
