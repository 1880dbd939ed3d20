import Roko.ForkTransfers
import Roko.OrderedMaps

/-!
# Carrying an execution over to the fork

A transaction is executed on a clone and its state diff is applied to the fork.  The
reads of the fork then agree with those of the clone where the diff says everything
that the execution wrote.
-/

namespace Roko

open HybridDb

namespace DirtyAccount

variable {ext : Externals}

/-- The overrides of a diff win over those of the account. -/
theorem storage_applyDiff (account : DirtyAccount) (diff : AccountDiff)
    (slot : U256) :
    (account.applyDiff ext diff).storage[slot]? =
      diff.storageWritten[slot]?.or account.storage[slot]? :=
  KeyedFold.getElem?_foldl_insert diff.storageWritten account.storage slot

theorem applyDiff_of_unwritten (account : DirtyAccount) {diff : AccountDiff}
    (unwritten : diff.storageWritten = ∅) :
    account.applyDiff ext diff =
      { account with
        balance := diff.newBalance.or account.balance
        nonce := diff.newNonce.or account.nonce
        code := diff.newCode.or account.code
        codeHash := (diff.newCode.map ext.keccak256).or account.codeHash } := by
  have storage : (account.applyDiff ext diff).storage = account.storage := by
    apply Std.ExtTreeMap.ext_getElem?
    intro slot
    rw [storage_applyDiff, unwritten, Std.ExtTreeMap.getElem?_empty, Option.none_or]
  unfold applyDiff at storage ⊢
  dsimp only at storage
  rw [storage]

end DirtyAccount

namespace DirtyStore

variable {ext : Externals}

theorem ownKey_applyAccountDiff (ext : Externals) :
    KeyedFold.OwnKey (fun (store : DirtyStore) address => store.accounts[address]?)
      (applyAccountDiff ext) fun _ diff entry =>
        some ((entry.getD {}).applyDiff ext diff) := by
  constructor
  · intro store entry
    unfold applyAccountDiff
    dsimp only
    rw [getElem?_modify, if_pos rfl]
    rfl
  · intro store entry address other
    unfold applyAccountDiff
    dsimp only
    rw [getElem?_modify, if_neg other]

/-- Each account of the diff gets what the diff says about it. -/
theorem getElem?_applyStateDiff (store : DirtyStore) (diff : StateDiff)
    (address : Address) :
    (store.applyStateDiff ext diff).accounts[address]? =
      match diff.accounts[address]? with
      | none => store.accounts[address]?
      | some change => some ((store.account address).applyDiff ext change) := by
  unfold applyStateDiff
  refine (KeyedFold.look_foldl_toList (ownKey_applyAccountDiff ext) diff.accounts store
    address).trans ?_
  cases diff.accounts[address]? <;> rfl

end DirtyStore

namespace HybridDb

variable {ext : Externals}

/-- The fork after the diff of an execution is applied. -/
def applyStateDiff (ext : Externals) (db : HybridDb) (diff : StateDiff) : HybridDb :=
  { db with dirty := db.dirty.applyStateDiff ext diff }

/-- The two databases return the same to every read of account data, of storage and
of the balances of a token. -/
structure ReadsAgree (ext : Externals) (left right : HybridDb) : Prop where
  basic : ∀ address, basic ext left address = basic ext right address
  storage : ∀ address index, storage ext left address index =
    storage ext right address index
  tokenBalance : ∀ token owner, tokenBalance ext left token owner =
    tokenBalance ext right token owner

/-- What is in the write layer about an account, as far as a read of its data can
tell. -/
theorem basic_congr {left right : HybridDb} {address : Address}
    (pinned : left.pinnedBlock = right.pinnedBlock)
    (present : left.present address = right.present address)
    (fields : (left.account address).infoFields =
      (right.account address).infoFields) :
    basic ext left address = basic ext right address := by
  unfold account DirtyStore.account at fields
  unfold HybridDb.present at present
  unfold basic resolveBlock
  rw [pinned]
  cases leftEntry : left.dirty.accounts[address]? with
  | none =>
      cases rightEntry : right.dirty.accounts[address]? with
      | none => rfl
      | some entry =>
          rw [leftEntry, rightEntry] at present
          cases present
  | some entry =>
      cases rightEntry : right.dirty.accounts[address]? with
      | none =>
          rw [leftEntry, rightEntry] at present
          cases present
      | some other =>
          rw [leftEntry, rightEntry] at fields
          simp only [Option.getD_some, DirtyAccount.infoFields, Prod.mk.injEq] at fields
          obtain ⟨balance, nonce, code, codeHash⟩ := fields
          dsimp only
          unfold DirtyAccount.needsUpstream DirtyAccount.overlay
          rw [balance, nonce, code, codeHash]

theorem probeBalanceSlot_congr {left right : HybridDb} {token owner : Address}
    (slots : ∀ index, storage ext left token index = storage ext right token index)
    (candidates : List U256) :
    probeBalanceSlot ext left token owner candidates =
      probeBalanceSlot ext right token owner candidates := by
  induction candidates with
  | nil => rfl
  | cons slot candidates ih =>
      unfold probeBalanceSlot
      rw [slots, ih]

theorem balanceSlot_congr {left right : HybridDb} {token owner : Address}
    (recorded : (left.account token).erc20BalanceSlot =
      (right.account token).erc20BalanceSlot)
    (slots : ∀ index, storage ext left token index = storage ext right token index) :
    balanceSlot ext left token owner = balanceSlot ext right token owner := by
  unfold balanceSlot findBalanceSlot
  rw [recorded, probeBalanceSlot_congr slots]

theorem tokenBalance_congr {left right : HybridDb} {token owner : Address}
    (pinned : left.pinnedBlock = right.pinnedBlock)
    (known : basic ext left token = basic ext right token)
    (override : (left.account token).erc20Balances[owner]? =
      (right.account token).erc20Balances[owner]?)
    (recorded : (left.account token).erc20BalanceSlot =
      (right.account token).erc20BalanceSlot)
    (slots : ∀ index, storage ext left token index = storage ext right token index) :
    tokenBalance ext left token owner = tokenBalance ext right token owner := by
  have upstream : upstreamBalanceOf ext left token owner =
      upstreamBalanceOf ext right token owner := by
    unfold upstreamBalanceOf resolveBlock
    rw [known, pinned]
  rw [tokenBalance_eq, tokenBalance_eq, override, balanceSlot_congr recorded slots, upstream]
  simp only [slots]

/-- Where account data and what is recorded of tokens are the same, storage
decides. -/
theorem readsAgree_iff_storage {left right : HybridDb}
    (pinned : left.pinnedBlock = right.pinnedBlock)
    (basics : ∀ address, basic ext left address = basic ext right address)
    (overrides : ∀ token, (left.account token).erc20Balances =
      (right.account token).erc20Balances)
    (recorded : ∀ token, (left.account token).erc20BalanceSlot =
      (right.account token).erc20BalanceSlot) :
    ReadsAgree ext left right ↔ ∀ address index,
      HybridDb.storage ext left address index =
        HybridDb.storage ext right address index := by
  refine ⟨ReadsAgree.storage, fun slots => ⟨basics, slots, fun token owner => ?_⟩⟩
  exact tokenBalance_congr pinned (basics token) (by rw [overrides]) (recorded token)
    (slots token)

/-- Where storage and the token fields are the same, account data decides. -/
theorem readsAgree_iff_basic {left right : HybridDb}
    (pinned : left.pinnedBlock = right.pinnedBlock)
    (fields : ∀ address, (left.account address).tokenFields =
      (right.account address).tokenFields) :
    ReadsAgree ext left right ↔
      ∀ address, HybridDb.basic ext left address = HybridDb.basic ext right address := by
  refine ⟨ReadsAgree.basic, fun basics => ?_⟩
  simp only [DirtyAccount.tokenFields, Prod.mk.injEq] at fields
  rw [readsAgree_iff_storage pinned basics (fun token => (fields token).2.1)
    fun token => (fields token).1]
  exact fun address index => storage_congr ext pinned (by rw [(fields address).2.2])

theorem account_applyStateDiff (ext : Externals) (db : HybridDb) (diff : StateDiff)
    (address : Address) :
    (db.applyStateDiff ext diff).account address =
      match diff.accounts[address]? with
      | none => db.account address
      | some change => (db.account address).applyDiff ext change := by
  unfold account DirtyStore.account applyStateDiff
  rw [DirtyStore.getElem?_applyStateDiff]
  cases diff.accounts[address]? <;> rfl

/-- A diff says nothing about what is recorded of a token. -/
theorem overrides_applyStateDiff (ext : Externals) (db : HybridDb) (diff : StateDiff)
    (token : Address) :
    ((db.applyStateDiff ext diff).account token).erc20Balances =
        (db.account token).erc20Balances ∧
      ((db.applyStateDiff ext diff).account token).erc20BalanceSlot =
        (db.account token).erc20BalanceSlot := by
  rw [account_applyStateDiff]
  cases diff.accounts[token]? <;> exact ⟨rfl, rfl⟩

theorem storage_applyStateDiff (db : HybridDb) (diff : StateDiff) (address : Address)
    (index : U256) :
    storage ext (db.applyStateDiff ext diff) address index =
      match diff.accounts[address]?.bind (·.storageWritten[index]?) with
      | some value => .ok value
      | none => storage ext db address index := by
  have entry := account_applyStateDiff ext db diff address
  unfold account at entry
  unfold storage
  rw [entry]
  cases diff.accounts[address]? with
  | none => rfl
  | some change =>
      dsimp only [Option.bind_some]
      rw [DirtyAccount.storage_applyDiff]
      cases change.storageWritten[index]? <;> rfl

theorem present_applyStateDiff (db : HybridDb) (diff : StateDiff) (address : Address) :
    (db.applyStateDiff ext diff).present address =
      (diff.accounts[address]?.isSome || db.present address) := by
  unfold present applyStateDiff
  rw [DirtyStore.getElem?_applyStateDiff]
  cases diff.accounts[address]? <;> rfl

end HybridDb

namespace EvmExecutor

variable {ext : Externals} {state : ForkState} {sender : Address}

theorem except_map_some_inj {Value : Type*} {left right : Except MirageError Value}
    (same : left.map some = right.map some) : left = right := by
  cases left <;> cases right <;> cases same <;> rfl

theorem eq_saturatingSucc_iff (count : UInt64) :
    count = saturatingSucc count ↔ count = 0xFFFFFFFFFFFFFFFF := by
  constructor
  · intro same
    by_contra below
    have grows := (toNat_saturatingSucc count).mpr below
    rw [← same] at grows
    omega
  · intro last
    unfold saturatingSucc
    rw [if_pos last, last]

/-- What is read of the sender does not change when its nonce is counted up. -/
def NonceSettled (ext : Externals) (db : HybridDb) (sender : Address) : Prop :=
  ∃ data, info ext db sender = .ok data ∧ data.nonce = 0xFFFFFFFFFFFFFFFF ∧
    ((db.account sender).nonce.isSome = true ∨ (db.account sender).code = none ∨
      data.codeHash = (db.account sender).codeHash.getD 0)

theorem getElem?_valueTransferDiff (sender target address : Address)
    (senderBalance targetBalance : U256) (nextNonce gasLimit : UInt64) :
    (valueTransferDiff sender target senderBalance targetBalance nextNonce
        gasLimit).accounts[address]? =
      if address = target then
        some { infoChanged := true, newBalance := some targetBalance }
      else if address = sender then
        some { infoChanged := true, newBalance := some senderBalance
               newNonce := some nextNonce }
      else none := by
  unfold valueTransferDiff StateDiff.ofSuccess
  dsimp only
  rw [getElem?_insert, getElem?_insert, Std.ExtTreeMap.getElem?_empty]

theorem present_writeValueTransfer (db : HybridDb) (sender target address : Address)
    (senderBalance targetBalance : U256) (nextNonce : UInt64) :
    (writeValueTransfer db sender target senderBalance targetBalance
        nextNonce).present address =
      (decide (address = target) || decide (address = sender) || db.present address) := by
  unfold writeValueTransfer setBalance setNonce
  rw [present_modify, present_modify, present_modify]
  cases decide (address = target) <;> cases decide (address = sender) <;> rfl

theorem present_valueTransferDiff (db : HybridDb) (target address : Address)
    (senderBalance targetBalance : U256) (nextNonce gasLimit : UInt64) :
    (db.applyStateDiff ext (valueTransferDiff sender target senderBalance targetBalance
        nextNonce gasLimit)).present address =
      (writeValueTransfer db sender target senderBalance targetBalance
        nextNonce).present address := by
  rw [present_applyStateDiff, getElem?_valueTransferDiff, present_writeValueTransfer]
  by_cases isTarget : address = target
  · simp [isTarget]
  · by_cases isSender : address = sender
    · subst isSender
      simp [isTarget]
    · simp [isTarget, isSender]

theorem account_valueTransferDiff (db : HybridDb) (target address : Address)
    (senderBalance targetBalance : U256) (nextNonce gasLimit : UInt64) :
    (db.applyStateDiff ext (valueTransferDiff sender target senderBalance targetBalance
        nextNonce gasLimit)).account address =
      { db.account address with
        balance :=
          if address = target then some targetBalance
          else if address = sender then some senderBalance
          else (db.account address).balance
        nonce :=
          if address ≠ target ∧ address = sender then some nextNonce
          else (db.account address).nonce } := by
  rw [account_applyStateDiff, getElem?_valueTransferDiff]
  by_cases isTarget : address = target
  · simp only [isTarget, if_true, ne_eq, not_true_eq_false, false_and, if_false]
    rw [DirtyAccount.applyDiff_of_unwritten _ rfl]
    rfl
  · by_cases isSender : address = sender
    · subst isSender
      simp only [isTarget, if_false, if_true, ne_eq, not_false_eq_true, and_self]
      rw [DirtyAccount.applyDiff_of_unwritten _ rfl]
      rfl
    · simp [isTarget, isSender]

theorem info_nonceCounted_iff {db live executed : HybridDb} {sender : Address}
    {data : AccountInfo} (balance : U256) (read : info ext db sender = .ok data)
    (livePinned : live.pinnedBlock = db.pinnedBlock)
    (executedPinned : executed.pinnedBlock = db.pinnedBlock)
    (liveEntry : live.account sender =
      { db.account sender with balance := some balance })
    (executedEntry : executed.account sender =
      { db.account sender with
        balance := some balance, nonce := some (saturatingSucc data.nonce) }) :
    info ext live sender = info ext executed sender ↔ NonceSettled ext db sender := by
  have settled : NonceSettled ext db sender ↔ data.nonce = 0xFFFFFFFFFFFFFFFF ∧
      ((db.account sender).nonce.isSome = true ∨ (db.account sender).code = none ∨
        data.codeHash = (db.account sender).codeHash.getD 0) := by
    unfold NonceSettled
    rw [read]
    constructor
    · rintro ⟨other, same, rest⟩
      cases same
      exact rest
    · exact fun rest => ⟨data, rfl, rest⟩
  rw [settled]
  unfold info resolveBlock at read ⊢
  rw [livePinned, executedPinned, liveEntry, executedEntry]
  clear settled liveEntry executedEntry
  generalize db.account sender = entry at *
  obtain ⟨before, nonce, code, codeHash, _, _, _⟩ := entry
  cases fetched : ext.accountInfo sender (db.pinnedBlock.elim .latest .number) <;>
    cases before <;> cases nonce <;> cases code <;>
    simp [fetched, DirtyAccount.needsUpstream, DirtyAccount.overlay, Except.map]
      at read ⊢ <;>
    subst read <;> grind [eq_saturatingSucc_iff]

theorem readsAgree_valueTransfer_iff (db : HybridDb) {target : Address}
    {senderData : AccountInfo} (senderRead : info ext db sender = .ok senderData)
    (senderBalance targetBalance : U256) (gasLimit : UInt64) :
    ReadsAgree ext
        (db.applyStateDiff ext (valueTransferDiff sender target senderBalance
          targetBalance (saturatingSucc senderData.nonce) gasLimit))
        (writeValueTransfer db sender target senderBalance targetBalance
          (saturatingSucc senderData.nonce)) ↔
      sender ≠ target ∨ NonceSettled ext db sender := by
  set nextNonce := saturatingSucc senderData.nonce
  set live := db.applyStateDiff ext (valueTransferDiff sender target senderBalance
    targetBalance nextNonce gasLimit)
  set executed := writeValueTransfer db sender target senderBalance targetBalance nextNonce
  have present : ∀ address, live.present address = executed.present address :=
    fun address => present_valueTransferDiff db target address senderBalance
      targetBalance nextNonce gasLimit
  have carried : ∀ address, live.account address = _ :=
    fun address => account_valueTransferDiff db target address senderBalance
      targetBalance nextNonce gasLimit
  have written : ∀ address, executed.account address = _ :=
    fun address => account_writeValueTransfer db sender target address senderBalance
      targetBalance nextNonce
  have pinned : live.pinnedBlock = executed.pinnedBlock := rfl
  rw [readsAgree_iff_basic pinned fun address => by rw [carried, written]; rfl]
  by_cases same : sender = target
  · subst same
    have settled : info ext live sender = info ext executed sender ↔
        NonceSettled ext db sender :=
      info_nonceCounted_iff targetBalance senderRead rfl rfl
        (by rw [carried]; simp) (by rw [written]; simp [nextNonce])
    have entry : executed.present sender = true := by
      rw [present_writeValueTransfer]
      simp
    have atSender : basic ext live sender = basic ext executed sender ↔
        info ext live sender = info ext executed sender := by
      rw [basic_of_present entry, basic_of_present ((present sender).trans entry)]
      exact ⟨except_map_some_inj, fun same => by rw [same]⟩
    rw [or_iff_right fun distinct => distinct rfl, ← settled, ← atSender]
    refine ⟨fun agree => agree sender, fun agree address => ?_⟩
    by_cases isSender : address = sender
    · rw [isSender]
      exact agree
    · apply basic_congr pinned (present address)
      rw [carried, written]
      simp [DirtyAccount.infoFields, isSender]
  · refine iff_of_true (fun address => ?_) (Or.inl same)
    apply basic_congr pinned (present address)
    rw [carried, written]
    by_cases isTarget : address = target
    · simp [DirtyAccount.infoFields, isTarget, Ne.symm same]
    · by_cases isSender : address = sender <;>
        simp [DirtyAccount.infoFields, isTarget, isSender, same]

/-- The diff of a simulated call: the sender's nonce, and the storage that is said to be
written.  The first entry replaces the second when the addresses are equal. -/
structure SimulatedDiff (diff : StateDiff) (sender contract : Address)
    (nextNonce : UInt64) (storageWritten : Std.ExtTreeMap U256 U256) : Prop where
  atSender : diff.accounts[sender]? =
    some { infoChanged := true, newNonce := some nextNonce }
  atContract : contract ≠ sender → ∃ storageRead,
    diff.accounts[contract]? = some { storageWritten, storageRead }
  elsewhere : ∀ other, other ≠ sender → other ≠ contract → diff.accounts[other]? = none

theorem simulatedDiff_insert (sender : Address) (nextNonce : UInt64)
    {diff : StateDiff} {contract : Address} {storageWritten : Std.ExtTreeMap U256 U256}
    {storageRead : Std.ExtTreeSet U256}
    (entry : diff.accounts =
      (∅ : Std.ExtTreeMap Address AccountDiff).insert contract
        { storageWritten, storageRead }) :
    SimulatedDiff
      { diff with
        accounts := diff.accounts.insert sender
          { infoChanged := true, newNonce := some nextNonce } }
      sender contract nextNonce storageWritten := by
  refine ⟨Std.ExtTreeMap.getElem?_insert_self, fun apart => ⟨storageRead, ?_⟩,
    fun other notSender notContract => ?_⟩
  · dsimp only
    rw [getElem?_insert_of_ne apart, entry, Std.ExtTreeMap.getElem?_insert_self]
  · dsimp only
    rw [getElem?_insert_of_ne notSender, entry, getElem?_insert_of_ne notContract,
      Std.ExtTreeMap.getElem?_empty]

/-- A simulated call counts the nonce of the sender and otherwise leaves account data
alone, and so does its diff. -/
theorem basic_simulated (ext : Externals) {db written : HybridDb} {contract : Address}
    {nextNonce : UInt64} {diff : StateDiff}
    {storageWritten : Std.ExtTreeMap U256 U256}
    (simulated : SimulatedDiff diff sender contract nextNonce storageWritten)
    (same : SameInfo db written)
    (present : ∀ address, written.present address =
      (decide (address = contract) || db.present address)) (address : Address) :
    basic ext (db.applyStateDiff ext diff) address =
      basic ext (written.setNonce sender nextNonce) address := by
  apply basic_congr
  · exact same.pinnedBlock.symm
  · rw [present_applyStateDiff, present_setNonce, present]
    by_cases isSender : address = sender
    · simp [isSender, simulated.atSender]
    · by_cases isContract : address = contract
      · obtain ⟨storageRead, entry⟩ := simulated.atContract (isContract ▸ isSender)
        simp [isContract, entry]
      · simp [isSender, isContract, simulated.elsewhere address isSender isContract]
  · have fields := same.infoFields
    rw [account_applyStateDiff, account_setNonce]
    by_cases isSender : address = sender
    · have unchanged := fields sender
      simp only [DirtyAccount.infoFields, Prod.mk.injEq] at unchanged
      rw [isSender, simulated.atSender]
      simp [DirtyAccount.infoFields, DirtyAccount.applyDiff, unchanged]
    · rw [if_neg isSender, fields]
      by_cases isContract : address = contract
      · obtain ⟨storageRead, entry⟩ := simulated.atContract (isContract ▸ isSender)
        rw [isContract, entry]
        rfl
      · rw [simulated.elsewhere address isSender isContract]

theorem storage_simulated {db : HybridDb} {contract : Address} {nextNonce : UInt64}
    {diff : StateDiff} {storageWritten : Std.ExtTreeMap U256 U256}
    (simulated : SimulatedDiff diff sender contract nextNonce storageWritten)
    (address : Address) (index : U256) :
    storage ext (db.applyStateDiff ext diff) address index =
      if address = contract ∧ contract ≠ sender then
        match storageWritten[index]? with
        | some value => .ok value
        | none => storage ext db address index
      else storage ext db address index := by
  rw [storage_applyStateDiff]
  by_cases isSender : address = sender
  · subst isSender
    rw [simulated.atSender, if_neg fun both => both.2 both.1.symm]
    rfl
  · by_cases isContract : address = contract
    · subst isContract
      obtain ⟨storageRead, entry⟩ := simulated.atContract isSender
      rw [entry, if_pos ⟨rfl, isSender⟩]
      rfl
    · rw [simulated.elsewhere address isSender isContract, if_neg fun both => isContract both.1]
      rfl

theorem storage_setNonce (db : HybridDb) (address : Address) (index : U256)
    (nextNonce : UInt64) :
    storage ext (db.setNonce sender nextNonce) address index =
      storage ext db address index := by
  have fields := tokenFields_setNonce db sender address nextNonce
  simp only [DirtyAccount.tokenFields, Prod.mk.injEq] at fields
  exact storage_congr ext rfl (by rw [fields.2.2])

/-- The contract's first three slots already hold what the call writes there. -/
structure AlreadyMarked (ext : Externals) (db : HybridDb)
    (sender contract : Address) (selector input : Bytes) : Prop where
  selector : storage ext db contract 0 = .ok (ext.keccak256 selector)
  caller : storage ext db contract 1 = .ok (ext.keccak256 (addressBytes sender))
  calldata : storage ext db contract 2 = .ok (BitVec.ofNat 256 input.length)

/-- The storages agree after a call that marks a contract exactly when the sender is not
the contract, whose storage no diff carries, or the marks were there before. -/
theorem storagesAgree_iff (db : HybridDb) {contract : Address}
    {marker callerMarker calldataMarker : U256} {nextNonce : UInt64} {diff : StateDiff}
    (simulated : SimulatedDiff diff sender contract nextNonce
      ((((∅ : Std.ExtTreeMap U256 U256).insert 0 marker).insert 1 callerMarker).insert 2
        calldataMarker)) :
    (∀ address index, storage ext (db.applyStateDiff ext diff) address index =
      storage ext ((markContract db contract marker callerMarker calldataMarker).setNonce
        sender nextNonce) address index) ↔
      sender ≠ contract ∨ (storage ext db contract 0 = .ok marker ∧
        storage ext db contract 1 = .ok callerMarker ∧
          storage ext db contract 2 = .ok calldataMarker) := by
  simp only [storage_simulated simulated, storage_setNonce, storage_markContract ext db contract,
    getElem?_insert, Std.ExtTreeMap.getElem?_empty]
  by_cases isContract : sender = contract
  · subst isContract
    rw [or_iff_right fun distinct => distinct rfl]
    constructor
    · intro agree
      have first := agree sender 0
      have second := agree sender 1
      have third := agree sender 2
      refine ⟨?_, ?_, ?_⟩
      · simpa using first
      · simpa using second
      · simpa using third
    · rintro ⟨first, second, third⟩ address index
      rw [if_neg fun both => both.2 rfl]
      split
      case isTrue both => rw [both.1, both.2, third]
      case isFalse =>
        split
        case isTrue both => rw [both.1, both.2, second]
        case isFalse =>
          split
          case isTrue both => rw [both.1, both.2, first]
          case isFalse => rfl
  · refine iff_of_true (fun address index => ?_) (Or.inl isContract)
    by_cases atContract : address = contract
    · simp only [atContract, true_and, ne_eq, Ne.symm isContract, not_false_eq_true, if_true]
      by_cases third : index = 2
      · simp only [if_pos third]
      · by_cases second : index = 1
        · simp only [if_neg third, if_pos second]
        · by_cases first : index = 0
          · simp only [if_neg third, if_neg second, if_pos first]
          · simp only [if_neg third, if_neg second, if_neg first]
    · simp [atContract]

theorem readsAgree_touch_iff (db : HybridDb) {contract : Address}
    {selector input : Bytes} {nextNonce : UInt64} {diff : StateDiff}
    (unminted : isProtocolMintSelector selector = false)
    (simulated : SimulatedDiff diff sender contract nextNonce
      (touchContract ext db sender contract selector input).2) :
    ReadsAgree ext (db.applyStateDiff ext diff)
        ((touchContract ext db sender contract selector input).1.setNonce sender
          nextNonce) ↔
      sender ≠ contract ∨ AlreadyMarked ext db sender contract selector input := by
  set marker := ext.keccak256 selector with markerIs
  set callerMarker := ext.keccak256 (addressBytes sender) with callerMarkerIs
  set calldataMarker := BitVec.ofNat 256 input.length with calldataMarkerIs
  have touched : touchContract ext db sender contract selector input =
      (markContract db contract marker callerMarker calldataMarker,
        (((∅ : Std.ExtTreeMap U256 U256).insert 0 marker).insert 1
          callerMarker).insert 2 calldataMarker) := by
    unfold touchContract
    dsimp only
    rw [unminted]
    rfl
  rw [touched] at simulated ⊢
  have overrides := fun token => overrides_markContract db contract token marker
    callerMarker calldataMarker
  have basics := basic_simulated ext simulated
    (sameInfo_markContract db contract marker callerMarker calldataMarker)
    fun address => present_markContract db contract address marker callerMarker
      calldataMarker
  set written := markContract db contract marker callerMarker calldataMarker
  have counted := fun token => tokenFields_setNonce written sender token nextNonce
  simp only [DirtyAccount.tokenFields, Prod.mk.injEq] at counted
  have pinned : (db.applyStateDiff ext diff).pinnedBlock =
      (written.setNonce sender nextNonce).pinnedBlock := rfl
  rw [readsAgree_iff_storage pinned basics
    (fun token => by
      rw [(counted token).2.1, (overrides token).1, (overrides_applyStateDiff _ _ _ _).1])
    fun token => by
      rw [(counted token).1, (overrides token).2, (overrides_applyStateDiff _ _ _ _).2]]
  rw [storagesAgree_iff db simulated]
  refine or_congr_right ?_
  constructor
  · rintro ⟨selectorMark, caller, calldata⟩
    exact ⟨selectorMark, caller, calldata⟩
  · exact fun marked => ⟨marked.selector, marked.caller, marked.calldata⟩

end EvmExecutor

end Roko
