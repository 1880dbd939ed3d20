import Roko.ForkCommits
import Roko.SpeculativeExecutor

/-!
# What the outcome of a transaction depends on

The result and the diff of a transaction depend on the block environment and on the
entries of the write layer, and on nothing else of the fork.  Where the sender covers
what is moved, they do not depend on whether balances are checked.
-/

namespace Roko

open HybridDb

variable {ext : Externals}

/-- The EVM depends on what it can read from the database. -/
def DependsOnReads (ext : Externals) : Prop :=
  ∀ call left right, (∀ address, basic ext left address = basic ext right address) →
    (∀ address index, storage ext left address index = storage ext right address index) →
      ext.transact call left = ext.transact call right

namespace HybridDb

/-- The entries of the write layer and the upstream block are the same. -/
structure SameEntries (left right : HybridDb) : Prop where
  accounts : right.dirty.accounts = left.dirty.accounts
  pinnedBlock : right.pinnedBlock = left.pinnedBlock

namespace SameEntries

variable {left right : HybridDb}

theorem refl (db : HybridDb) : SameEntries db db :=
  ⟨rfl, rfl⟩

theorem entry (same : SameEntries left right) (address : Address) :
    right.dirty.account address = left.dirty.account address := by
  unfold DirtyStore.account
  rw [same.accounts]

theorem account (same : SameEntries left right) (address : Address) :
    right.account address = left.account address :=
  same.entry address

theorem resolveBlock (same : SameEntries left right) :
    right.resolveBlock = left.resolveBlock := by
  unfold HybridDb.resolveBlock
  rw [same.pinnedBlock]

theorem basic (same : SameEntries left right) (address : Address) :
    HybridDb.basic ext right address = HybridDb.basic ext left address := by
  unfold HybridDb.basic
  rw [same.accounts, same.resolveBlock]

theorem storage (same : SameEntries left right) (address : Address) (index : U256) :
    HybridDb.storage ext right address index = HybridDb.storage ext left address index := by
  unfold HybridDb.storage
  rw [same.entry, same.resolveBlock]

theorem modify (same : SameEntries left right) (address : Address)
    (change : DirtyAccount → DirtyAccount) :
    SameEntries (left.modify address change) (right.modify address change) := by
  refine ⟨?_, same.pinnedBlock⟩
  unfold HybridDb.modify DirtyStore.modify
  dsimp only
  rw [same.entry, same.accounts]

theorem setStorage (same : SameEntries left right) (address : Address)
    (slot value : U256) :
    SameEntries (left.setStorage address slot value)
      (right.setStorage address slot value) := by
  refine ⟨?_, same.pinnedBlock⟩
  unfold HybridDb.setStorage
  dsimp only
  rw [DirtyStore.accounts_setStorage, DirtyStore.accounts_setStorage]
  exact (same.modify address fun account =>
    { account with storage := account.storage.insert slot value }).accounts

theorem probeBalanceSlot (same : SameEntries left right) (token owner : Address)
    (slots : List U256) :
    HybridDb.probeBalanceSlot ext right token owner slots =
      HybridDb.probeBalanceSlot ext left token owner slots := by
  induction slots with
  | nil => rfl
  | cons slot slots ih =>
      unfold HybridDb.probeBalanceSlot
      rw [same.storage, ih]

theorem balanceSlot (same : SameEntries left right) (token owner : Address) :
    HybridDb.balanceSlot ext right token owner =
      HybridDb.balanceSlot ext left token owner := by
  unfold HybridDb.balanceSlot findBalanceSlot
  rw [same.account, same.probeBalanceSlot]

theorem erc20BalanceSlot (ext : Externals) (same : SameEntries left right) (token owner : Address) :
    SameEntries (HybridDb.erc20BalanceSlot ext left token owner).1
      (HybridDb.erc20BalanceSlot ext right token owner).1 := by
  unfold HybridDb.erc20BalanceSlot findBalanceSlot
  rw [same.entry, same.probeBalanceSlot]
  cases (left.dirty.account token).erc20BalanceSlot with
  | some slot => exact same
  | none =>
      dsimp only
      cases knownErc20BalanceSlot token with
      | some slot => exact same.modify token _
      | none =>
          dsimp only
          cases HybridDb.probeBalanceSlot ext left token owner [0, 1, 2, 3, 4, 5, 6, 7] with
          | error failure => exact same
          | ok slot => exact same.modify token _

theorem tokenBalance (ext : Externals) (same : SameEntries left right) (token owner : Address) :
    HybridDb.tokenBalance ext right token owner =
      HybridDb.tokenBalance ext left token owner := by
  rw [tokenBalance_eq, tokenBalance_eq, same.account, same.balanceSlot]
  cases (left.account token).erc20Balances[owner]? with
  | some balance => rfl
  | none =>
      dsimp only
      cases HybridDb.balanceSlot ext left token owner with
      | ok slot => exact same.storage _ _
      | error failure =>
          dsimp only
          unfold upstreamBalanceOf
          rw [same.basic, same.resolveBlock]

theorem erc20BalanceOf (ext : Externals) (same : SameEntries left right) (token owner : Address) :
    SameEntries (HybridDb.erc20BalanceOf ext left token owner).1
      (HybridDb.erc20BalanceOf ext right token owner).1 := by
  rw [erc20BalanceOf_fst, erc20BalanceOf_fst, same.account]
  split
  · exact same
  · exact same.erc20BalanceSlot ext token owner

theorem writtenSlot (same : SameEntries left right) (token owner : Address) :
    HybridDb.writtenSlot ext right token owner =
      HybridDb.writtenSlot ext left token owner := by
  unfold HybridDb.writtenSlot
  rw [same.balanceSlot]

theorem setErc20Balance (ext : Externals) (same : SameEntries left right) (token owner : Address)
    (balance : U256) :
    SameEntries (HybridDb.setErc20Balance ext left token owner balance).1
      (HybridDb.setErc20Balance ext right token owner balance).1 := by
  have reads : SameEntries
      (HybridDb.erc20BalanceSlot ext (HybridDb.erc20BalanceOf ext left token owner).1 token
        owner).1
      (HybridDb.erc20BalanceSlot ext (HybridDb.erc20BalanceOf ext right token owner).1 token
        owner).1 :=
    (same.erc20BalanceOf ext token owner).erc20BalanceSlot ext token owner
  have previous : (HybridDb.erc20BalanceOf ext right token owner).2 =
      (HybridDb.erc20BalanceOf ext left token owner).2 := same.tokenBalance ext token owner
  have slot : (HybridDb.erc20BalanceSlot ext (HybridDb.erc20BalanceOf ext right token
      owner).1 token owner).2 =
        (HybridDb.erc20BalanceSlot ext (HybridDb.erc20BalanceOf ext left token owner).1 token
          owner).2 := by
    rw [erc20BalanceSlot_snd, erc20BalanceSlot_snd, balanceSlot_erc20BalanceOf,
      balanceSlot_erc20BalanceOf, same.balanceSlot]
  unfold HybridDb.setErc20Balance
  dsimp only
  rw [previous, slot]
  have written := reads.setStorage token (erc20MappingSlot ext owner
    ((HybridDb.erc20BalanceSlot ext (HybridDb.erc20BalanceOf ext left token owner).1 token
      owner).2.toOption.getD 0)) balance
  rw [written.storage]
  exact (written.setStorage token 1 _).modify token _

theorem commit (same : SameEntries left right)
    (changes : Std.ExtTreeMap Address EvmAccount) :
    SameEntries (HybridDb.commit ext left changes) (HybridDb.commit ext right changes) := by
  constructor
  · apply Std.ExtTreeMap.ext_getElem?
    intro address
    rw [getElem?_commit, getElem?_commit, same.accounts]
  · rw [pinnedBlock_commit, pinnedBlock_commit, same.pinnedBlock]

end SameEntries

end HybridDb

/-- The fields of a fork besides the write layer that an execution reads. -/
structure Environment where
  pinnedBlock : Option UInt64
  localBlockNumber : UInt64
  chainId : UInt64
  timestamp : UInt64
  nextBaseFeePerGas : BitVec 128
  coinbase : Address
  prevRandao : B256
  strictBalance : Bool
  deriving DecidableEq

def ForkState.environment (state : ForkState) : Environment :=
  { pinnedBlock := state.db.pinnedBlock
    localBlockNumber := state.localBlockNumber
    chainId := state.chainId
    timestamp := state.timestamp
    nextBaseFeePerGas := state.nextBaseFeePerGas
    coinbase := state.coinbase
    prevRandao := state.prevRandao
    strictBalance := state.strictBalance }

/-- A fork with some entries and nothing else in its write layer. -/
def Environment.fork (environment : Environment)
    (entries : Std.ExtTreeMap Address DirtyAccount) : ForkState :=
  { ForkState.new ⟨{ accounts := entries }, environment.pinnedBlock, environment.chainId⟩
      environment.localBlockNumber environment.chainId environment.timestamp with
    nextBaseFeePerGas := environment.nextBaseFeePerGas
    coinbase := environment.coinbase
    prevRandao := environment.prevRandao
    strictBalance := environment.strictBalance }

namespace EvmExecutor

variable {left right : ForkState} {sender : Address}

theorem finalizeTransaction_snd (ext : Externals) (state : ForkState)
    (recipient : Option Address) (value : U256) (input : Bytes)
    (gasLimit nonce : UInt64) (diff : StateDiff) :
    (finalizeTransaction ext state sender recipient value input gasLimit nonce diff).2 =
      .ok (⟨diff.success, diff.gasUsed, diff.output⟩, diff) :=
  rfl

/-- A value transfer depends on the account data of the two accounts. -/
theorem transactValueTransfer_snd (ext : Externals) (state : ForkState) (sender : Address)
    (recipient : Option Address) (value : U256) (gasLimit : UInt64) :
    (transactValueTransfer ext state sender recipient value gasLimit).2 =
      (info ext state.db sender).bind fun senderInfo =>
        (info ext state.db (recipient.getD burnAddress)).bind fun targetInfo =>
          if state.strictBalance && senderInfo.balance < value then
            .error (.unsupported "insufficient balance")
          else
            let diff := valueTransferDiff sender (recipient.getD burnAddress)
              ((U256.checkedSub senderInfo.balance value).getD 0)
              (U256.saturatingAdd targetInfo.balance value)
              (saturatingSucc senderInfo.nonce) gasLimit
            .ok (⟨diff.success, diff.gasUsed, diff.output⟩, diff) := by
  unfold transactValueTransfer
  rw [← basic_map_getD, ← basic_map_getD]
  cases basic ext state.db sender with
  | error failure => rfl
  | ok senderFound =>
      dsimp only [Except.map, Except.bind]
      cases basic ext state.db (recipient.getD burnAddress) with
      | error failure => rfl
      | ok targetFound =>
          dsimp only
          split <;> rfl

theorem finishSimulated_congr {left right : ForkState} (same : SameEntries left.db right.db)
    (contract : Address) (input : Bytes) (gasLimit : UInt64) (diff : StateDiff) :
    (finishSimulated ext right sender contract input gasLimit diff).2 =
      (finishSimulated ext left sender contract input gasLimit diff).2 := by
  unfold finishSimulated
  rw [same.basic]
  cases basic ext left.db sender with
  | error failure => rfl
  | ok info =>
      dsimp only
      rw [finalizeTransaction_snd, finalizeTransaction_snd]

theorem transferBalances_congr (ext : Externals) {left right : HybridDb}
    (same : SameEntries left right) (strict : Bool) (token sender recipient : Address)
    (amount : U256) :
    SameEntries (transferBalances ext left strict token sender recipient amount).1
        (transferBalances ext right strict token sender recipient amount).1 ∧
      (transferBalances ext right strict token sender recipient amount).2 =
        (transferBalances ext left strict token sender recipient amount).2 := by
  have afterSender : SameEntries (erc20BalanceOf ext left token sender).1
      (erc20BalanceOf ext right token sender).1 := same.erc20BalanceOf ext token sender
  have senderRead : (erc20BalanceOf ext right token sender).2 =
      (erc20BalanceOf ext left token sender).2 := same.tokenBalance ext token sender
  unfold transferBalances
  generalize erc20BalanceOf ext right token sender = readRight at *
  generalize erc20BalanceOf ext left token sender = readLeft at *
  obtain ⟨nextRight, rightBalance⟩ := readRight
  obtain ⟨nextLeft, leftBalance⟩ := readLeft
  dsimp only at afterSender senderRead
  subst senderRead
  cases rightBalance with
  | error failure => exact ⟨afterSender, rfl⟩
  | ok senderBalance =>
      dsimp only
      split
      case isTrue => exact ⟨afterSender, rfl⟩
      case isFalse =>
        have afterRecipient : SameEntries (erc20BalanceOf ext nextLeft token recipient).1
            (erc20BalanceOf ext nextRight token recipient).1 :=
          afterSender.erc20BalanceOf ext token recipient
        have recipientRead : (erc20BalanceOf ext nextRight token recipient).2 =
            (erc20BalanceOf ext nextLeft token recipient).2 :=
          afterSender.tokenBalance ext token recipient
        generalize erc20BalanceOf ext nextRight token recipient = readRight at *
        generalize erc20BalanceOf ext nextLeft token recipient = readLeft at *
        obtain ⟨lastRight, rightBalance⟩ := readRight
        obtain ⟨lastLeft, leftBalance⟩ := readLeft
        dsimp only at afterRecipient recipientRead
        subst recipientRead
        cases rightBalance with
        | error failure => exact ⟨afterRecipient, rfl⟩
        | ok recipientBalance => exact ⟨afterRecipient, rfl⟩

theorem erc20Transfer_congr (same : SameEntries left.db right.db)
    (strict : right.strictBalance = left.strictBalance) (token recipient : Address)
    (amount : U256) (gasLimit : UInt64) (input : Bytes) :
    (transactErc20Transfer ext right sender token recipient amount gasLimit input).2 =
      (transactErc20Transfer ext left sender token recipient amount gasLimit input).2 := by
  obtain ⟨after, balances⟩ := transferBalances_congr ext same left.strictBalance token
    sender recipient amount
  unfold transactErc20Transfer
  rw [strict]
  generalize transferBalances ext right.db left.strictBalance token sender recipient
    amount = readRight at *
  generalize transferBalances ext left.db left.strictBalance token sender recipient
    amount = readLeft at *
  obtain ⟨nextRight, rightBalances⟩ := readRight
  obtain ⟨nextLeft, leftBalances⟩ := readLeft
  dsimp only at after balances
  subst balances
  cases rightBalances with
  | error failure => rfl
  | ok balances =>
      dsimp only
      have written : SameEntries
          (writeTransfer ext nextLeft token sender recipient
            ((U256.checkedSub balances.1 amount).getD 0)
            (U256.saturatingAdd balances.2 amount))
          (writeTransfer ext nextRight token sender recipient
            ((U256.checkedSub balances.1 amount).getD 0)
            (U256.saturatingAdd balances.2 amount)) :=
        (after.setErc20Balance ext token sender _).setErc20Balance ext token recipient _
      rw [written.entry]
      exact finishSimulated_congr written token input gasLimit _

theorem touchContract_congr (ext : Externals) {left right : HybridDb}
    (same : SameEntries left right) (sender contract : Address) (selector input : Bytes) :
    SameEntries (touchContract ext left sender contract selector input).1
        (touchContract ext right sender contract selector input).1 ∧
      (touchContract ext right sender contract selector input).2 =
        (touchContract ext left sender contract selector input).2 := by
  have marked : SameEntries
      (markContract left contract (ext.keccak256 selector)
        (ext.keccak256 (addressBytes sender)) (BitVec.ofNat 256 input.length))
      (markContract right contract (ext.keccak256 selector)
        (ext.keccak256 (addressBytes sender)) (BitVec.ofNat 256 input.length)) :=
    ((same.setStorage contract 0 _).setStorage contract 1 _).setStorage contract 2 _
  unfold touchContract
  dsimp only
  split
  case isFalse => exact ⟨marked, rfl⟩
  case isTrue =>
    have afterRead := marked.erc20BalanceOf ext contract sender
    have minted := fun balance => afterRead.setErc20Balance ext contract sender balance
    have read := marked.tokenBalance ext contract sender
    unfold tokenBalance at read
    rw [setErc20Balance_snd, setErc20Balance_snd, afterRead.writtenSlot, read,
      (minted _).entry]
    split
    case isTrue => exact ⟨minted _, rfl⟩
    case isFalse => exact ⟨minted _, rfl⟩

theorem protocolTouch_congr (same : SameEntries left.db right.db) (contract : Address)
    (selector : Bytes) (gasLimit : UInt64) (input : Bytes) :
    (transactProtocolTouch ext right sender contract selector gasLimit input).2 =
      (transactProtocolTouch ext left sender contract selector gasLimit input).2 := by
  obtain ⟨touched, written⟩ := touchContract_congr ext same sender contract selector
    input
  unfold transactProtocolTouch
  dsimp only
  rw [written]
  exact finishSimulated_congr touched contract input gasLimit _

theorem evm_congr (reads : DependsOnReads ext) (same : SameEntries left.db right.db)
    (environment : right.environment = left.environment) (target : Option Address)
    (data : Bytes) (value : U256) (gasLimit : UInt64) (output : EvmResult → Bytes) :
    (transactEvm ext right sender target data value gasLimit output).2 =
      (transactEvm ext left sender target data value gasLimit output).2 := by
  have strict : right.strictBalance = left.strictBalance :=
    congrArg Environment.strictBalance environment
  have call : ∀ nonce, evmCall right sender target data value gasLimit nonce =
      evmCall left sender target data value gasLimit nonce := by
    intro nonce
    unfold ForkState.environment at environment
    simp only [Environment.mk.injEq] at environment
    obtain ⟨-, number, chain, timestamp, baseFee, coinbase, randao, -⟩ := environment
    unfold evmCall
    rw [number, chain, timestamp, baseFee, coinbase, randao]
  have execution : ∀ call, ext.transact call right.db = ext.transact call left.db :=
    fun call => reads call right.db left.db (fun address => same.basic address)
      fun address index => same.storage address index
  unfold transactEvm
  rw [same.basic, strict]
  cases basic ext left.db sender with
  | error failure => rfl
  | ok found =>
      dsimp only
      rw [call]
      split
      case isTrue => rfl
      case isFalse =>
        cases ext.buildTx (evmCall left sender target data value gasLimit
            (found.getD {}).nonce) with
        | error failure => rfl
        | ok built =>
            dsimp only
            rw [execution]
            cases ext.transact (evmCall left sender target data value gasLimit
                (found.getD {}).nonce) left.db with
            | error failure => rfl
            | ok executed =>
                dsimp only
                rw [finalizeTransaction_snd, finalizeTransaction_snd,
                  (same.commit executed.2).accounts, same.accounts]

/-- The outcome depends on the entries of the write layer and on the environment. -/
theorem transact_congr (reads : DependsOnReads ext) (same : SameEntries left.db right.db)
    (environment : right.environment = left.environment) (recipient : Option Address)
    (data : Bytes) (value : U256) (gasLimit : UInt64) :
    (transact ext right sender recipient data value gasLimit).2 =
      (transact ext left sender recipient data value gasLimit).2 := by
  have strict : right.strictBalance = left.strictBalance :=
    congrArg Environment.strictBalance environment
  unfold transact
  split
  case isTrue =>
    have pinned := same.pinnedBlock
    have infos : ∀ address, info ext right.db address = info ext left.db address :=
      fun address => info_congr ext pinned (by rw [same.account])
    rw [transactValueTransfer_snd, transactValueTransfer_snd, infos, infos, strict]
  case isFalse =>
    cases recipient with
    | none => exact evm_congr reads same environment none data value gasLimit _
    | some target =>
        dsimp only
        cases (transactionSelector data).filter isProtocolSelector with
        | some selector => exact protocolTouch_congr same target selector gasLimit data
        | none =>
            dsimp only
            cases decodeErc20Transfer data with
            | some decoded =>
                exact erc20Transfer_congr same strict target decoded.1 decoded.2 gasLimit
                  data
            | none => exact evm_congr reads same environment _ data value gasLimit _

/-- The sender covers what a request moves, where that is checked. -/
def CoversRequest (ext : Externals) (db : HybridDb) (sender : Address)
    (recipient : Option Address) (data : Bytes) (value : U256) : Prop :=
  let coversValue := ∀ data, info ext db sender = .ok data → value ≤ data.balance
  if data.isEmpty then coversValue
  else
    match recipient with
    | none => coversValue
    | some target =>
        match (transactionSelector data).filter isProtocolSelector with
        | some _ => True
        | none =>
            match decodeErc20Transfer data with
            | some (_, amount) =>
                ∀ balance, tokenBalance ext db target sender = .ok balance →
                  amount ≤ balance
            | none => coversValue

theorem covered_of_info {db : HybridDb} {value : U256} {strict : Bool}
    (covers : ∀ data, info ext db sender = .ok data → value ≤ data.balance)
    {found : Option AccountInfo} (read : basic ext db sender = .ok found) :
    (strict && decide ((found.getD {}).balance < value)) = false := by
  have enough := covers _ (info_of_basic read)
  have covered : ¬ (found.getD {}).balance < value := BitVec.not_lt.mpr enough
  rw [decide_eq_false covered, Bool.and_false]

theorem valueTransfer_lenient (state : ForkState) (recipient : Option Address)
    (value : U256) (gasLimit : UInt64) (strict : Bool)
    (covers : ∀ data, info ext state.db sender = .ok data → value ≤ data.balance) :
    (transactValueTransfer ext { state with strictBalance := strict } sender recipient value
        gasLimit).2 =
      (transactValueTransfer ext state sender recipient value gasLimit).2 := by
  rw [transactValueTransfer_snd, transactValueTransfer_snd]
  dsimp only
  cases read : info ext state.db sender with
  | error failure => rfl
  | ok senderInfo =>
      have covered : ¬ senderInfo.balance < value := BitVec.not_lt.mpr (covers _ read)
      dsimp only [Except.bind]
      rw [decide_eq_false covered, Bool.and_false, Bool.and_false]

theorem evm_lenient (state : ForkState) (target : Option Address) (data : Bytes)
    (value : U256) (gasLimit : UInt64) (output : EvmResult → Bytes) (strict : Bool)
    (covers : ∀ data, info ext state.db sender = .ok data → value ≤ data.balance) :
    (transactEvm ext { state with strictBalance := strict } sender target data value gasLimit
        output).2 =
      (transactEvm ext state sender target data value gasLimit output).2 := by
  unfold transactEvm
  dsimp only
  cases read : basic ext state.db sender with
  | error failure => rfl
  | ok found =>
      dsimp only
      rw [covered_of_info covers read, covered_of_info covers read, if_neg Bool.false_ne_true,
        if_neg Bool.false_ne_true]
      have call : ∀ nonce, evmCall { state with strictBalance := strict } sender target data
          value gasLimit nonce = evmCall state sender target data value gasLimit nonce :=
        fun nonce => rfl
      rw [call]
      cases ext.buildTx (evmCall state sender target data value gasLimit
          (found.getD {}).nonce) with
      | error failure => rfl
      | ok built =>
          dsimp only
          cases ext.transact (evmCall state sender target data value gasLimit
              (found.getD {}).nonce) state.db with
          | error failure => rfl
          | ok executed => rfl

theorem transferBalances_lenient (ext : Externals) (db : HybridDb) (first second : Bool)
    (token sender recipient : Address) (amount : U256)
    (covers : ∀ balance, tokenBalance ext db token sender = .ok balance →
      amount ≤ balance) :
    transferBalances ext db first token sender recipient amount =
      transferBalances ext db second token sender recipient amount := by
  unfold transferBalances
  unfold tokenBalance at covers
  generalize erc20BalanceOf ext db token sender = read at *
  obtain ⟨next, failure | balance⟩ := read
  · rfl
  · have covered : ¬ balance < amount := BitVec.not_lt.mpr (covers balance rfl)
    dsimp only
    rw [decide_eq_false covered, Bool.and_false, Bool.and_false]

theorem erc20Transfer_lenient (state : ForkState) (token recipient : Address)
    (amount : U256) (gasLimit : UInt64) (input : Bytes) (strict : Bool)
    (covers : ∀ balance, tokenBalance ext state.db token sender = .ok balance →
      amount ≤ balance) :
    (transactErc20Transfer ext { state with strictBalance := strict } sender token recipient
        amount gasLimit input).2 =
      (transactErc20Transfer ext state sender token recipient amount gasLimit input).2 := by
  unfold transactErc20Transfer
  dsimp only
  rw [transferBalances_lenient ext state.db strict state.strictBalance token sender
    recipient amount covers]
  rcases transferBalances ext state.db state.strictBalance token sender recipient amount with
    ⟨db, failure | balances⟩
  · rfl
  · apply finishSimulated_congr
    exact SameEntries.refl _

/-- A covered request has the same outcome whether balances are checked or not. -/
theorem transact_lenient (state : ForkState) (recipient : Option Address) (data : Bytes)
    (value : U256) (gasLimit : UInt64) (strict : Bool)
    (covers : CoversRequest ext state.db sender recipient data value) :
    (transact ext { state with strictBalance := strict } sender recipient data value
        gasLimit).2 =
      (transact ext state sender recipient data value gasLimit).2 := by
  unfold CoversRequest at covers
  dsimp only at covers
  unfold transact
  split at covers
  case isTrue empty =>
    rw [if_pos empty, if_pos empty]
    exact valueTransfer_lenient state recipient value gasLimit strict covers
  case isFalse filled =>
    rw [if_neg filled, if_neg filled]
    cases recipient with
    | none => exact evm_lenient state none data value gasLimit _ strict covers
    | some target =>
        dsimp only at covers ⊢
        cases selected : (transactionSelector data).filter isProtocolSelector with
        | some selector =>
            unfold transactProtocolTouch
            dsimp only
            apply finishSimulated_congr
            exact SameEntries.refl _
        | none =>
            rw [selected] at covers
            dsimp only at covers ⊢
            cases decoded : decodeErc20Transfer data with
            | some call =>
                rw [decoded] at covers
                exact erc20Transfer_lenient state target call.1 call.2 gasLimit data strict
                  covers
            | none =>
                rw [decoded] at covers
                exact evm_lenient state _ data value gasLimit _ strict covers

end EvmExecutor

end Roko
