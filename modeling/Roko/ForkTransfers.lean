import Roko.ForkWrites

/-!
# What a transfer moves

A value transfer and a token transfer take an amount from one balance and add it to
another.  Both balances are read before either is written, so a transfer of an
account to itself creates the amount.  A token transfer also records the mapping
slot that it found for one owner for all owners.
-/

namespace Roko

namespace U256

theorem toNat_saturatingAdd (first second : U256) :
    (saturatingAdd first second).toNat =
      min (first.toNat + second.toNat) (2 ^ 256 - 1) := by
  unfold saturatingAdd
  have bound := (first + second).isLt
  rw [BitVec.toNat_add] at bound
  split
  case isTrue overflow =>
    rw [BitVec.uaddOverflow, decide_eq_true_eq] at overflow
    rw [BitVec.toNat_allOnes]
    omega
  case isFalse fits =>
    rw [BitVec.uaddOverflow, decide_eq_true_eq] at fits
    rw [BitVec.toNat_add, Nat.mod_eq_of_lt (by omega)]
    omega

theorem toNat_saturatingSub (first second : U256) :
    (saturatingSub first second).toNat = first.toNat - second.toNat := by
  unfold saturatingSub checkedSub
  split
  case isTrue covered => exact BitVec.toNat_sub_of_le covered
  case isFalse short =>
    have less : first.toNat < second.toNat := BitVec.lt_def.mp (BitVec.not_le.mp short)
    simp only [Option.getD_none]
    exact (Nat.sub_eq_zero_of_le (by omega)).symm

theorem saturatingAdd_zero (value : U256) : saturatingAdd value 0 = value := by
  apply BitVec.eq_of_toNat_eq
  have bound := value.isLt
  have zero : (0 : U256).toNat = 0 := rfl
  rw [toNat_saturatingAdd, zero]
  omega

theorem saturatingSub_zero (value : U256) : saturatingSub value 0 = value := by
  apply BitVec.eq_of_toNat_eq
  rw [toNat_saturatingSub]
  rfl

end U256

theorem toNat_saturatingSucc (count : UInt64) :
    (saturatingSucc count).toNat = count.toNat + 1 ↔
      count ≠ 0xFFFFFFFFFFFFFFFF := by
  unfold saturatingSucc
  split
  case isTrue last =>
    rw [last]
    decide
  case isFalse other =>
    refine iff_of_true ?_ other
    have below : count.toNat < 2 ^ 64 := count.toNat_lt
    have apart : count.toNat ≠ 2 ^ 64 - 1 := fun same =>
      other (UInt64.toNat.inj same)
    rw [UInt64.toNat_add, UInt64.toNat_one, Nat.mod_eq_of_lt (by omega)]

/-- The amount moves from the sender to the recipient and no other balance changes.
An account that sends to itself keeps its balance. -/
structure MovesAmount (before after : Address → Except MirageError U256)
    (sender recipient : Address) (amount : U256) : Prop where
  parties : ∃ senderBefore recipientBefore senderAfter recipientAfter : U256,
    before sender = .ok senderBefore ∧ before recipient = .ok recipientBefore ∧
    after sender = .ok senderAfter ∧ after recipient = .ok recipientAfter ∧
    senderAfter.toNat + recipientAfter.toNat =
      senderBefore.toNat + recipientBefore.toNat ∧
    (sender ≠ recipient →
      senderAfter.toNat + amount.toNat = senderBefore.toNat ∧
      recipientAfter.toNat = recipientBefore.toNat + amount.toNat)
  others : ∀ other, other ≠ sender → other ≠ recipient →
    after other = before other

/-- The recipient's new balance is written last, computed from a balance that was
read first. -/
theorem movesAmount_iff {before after : Address → Except MirageError U256}
    {sender recipient : Address} {amount senderBalance recipientAfter : U256}
    (senderBefore : before sender = .ok senderBalance)
    (covered : amount ≤ senderBalance) (bounded : senderBalance.toNat ≤ 2 ^ 255)
    (senderAfter : sender ≠ recipient →
      after sender = .ok (U256.saturatingSub senderBalance amount))
    (afterRecipient : after recipient = .ok recipientAfter)
    (toItself : sender = recipient →
      recipientAfter = U256.saturatingAdd senderBalance amount) :
    MovesAmount before after sender recipient amount ↔
      (sender ≠ recipient ∨ amount = 0) ∧
      (∃ recipientBalance, before recipient = .ok recipientBalance ∧
        recipientAfter.toNat = recipientBalance.toNat + amount.toNat) ∧
      ∀ other, other ≠ sender → other ≠ recipient → after other = before other := by
  have covers : amount.toNat ≤ senderBalance.toNat := BitVec.le_def.mp covered
  by_cases same : sender = recipient
  · subst same
    have next := U256.toNat_saturatingAdd senderBalance amount
    rw [← toItself rfl] at next
    constructor
    · rintro ⟨⟨first, second, third, fourth, readFirst, readSecond, readThird,
        readFourth, kept, -⟩, others⟩
      rw [senderBefore] at readFirst readSecond
      rw [afterRecipient] at readThird readFourth
      cases readFirst
      cases readSecond
      cases readThird
      cases readFourth
      have zero : amount.toNat = 0 := by omega
      refine ⟨Or.inr (BitVec.eq_of_toNat_eq zero), ⟨senderBalance, senderBefore, ?_⟩,
        others⟩
      omega
    · rintro ⟨distinct | zero, ⟨recipientBalance, read, increased⟩, others⟩
      · exact absurd rfl distinct
      · rw [senderBefore] at read
        cases read
        rw [zero] at increased
        refine ⟨⟨_, _, _, _, senderBefore, senderBefore, afterRecipient,
          afterRecipient, ?_, fun distinct => absurd rfl distinct⟩, others⟩
        simp only [BitVec.toNat_zero, BitVec.ofNat_eq_ofNat] at increased
        omega
  · have fell := U256.toNat_saturatingSub senderBalance amount
    constructor
    · rintro ⟨⟨first, second, third, fourth, readFirst, readSecond, readThird,
        readFourth, kept, moved⟩, others⟩
      rw [afterRecipient] at readFourth
      cases readFourth
      exact ⟨Or.inl same, ⟨second, readSecond, (moved same).2⟩, others⟩
    · rintro ⟨-, ⟨recipientBalance, read, increased⟩, others⟩
      refine ⟨⟨_, _, _, _, senderBefore, read, senderAfter same, afterRecipient, ?_,
        fun _ => ⟨?_, increased⟩⟩, others⟩ <;> omega

namespace EvmExecutor

open HybridDb

variable {ext : Externals} {state : ForkState} {sender : Address}

/-- What a transfer moves. -/
inductive Asset
  | native
  | token (address : Address)
  deriving DecidableEq

/-- The balance of an owner, as the fork reads it. -/
def Asset.balance (ext : Externals) (asset : Asset) (db : HybridDb)
    (owner : Address) : Except MirageError U256 :=
  match asset with
  | native => (info ext db owner).map (·.balance)
  | token address => tokenBalance ext db address owner

structure Transfer where
  asset : Asset
  recipient : Address
  amount : U256
  deriving DecidableEq

/-- The transfer that a transaction asks for: a plain one without data, or a call of
a token's `transfer`. -/
def transferOf (recipient : Option Address) (data : Bytes) (value : U256) :
    Option Transfer :=
  if data.isEmpty then some ⟨.native, recipient.getD burnAddress, value⟩
  else
    recipient.bind fun token => (decodeErc20Transfer data).map fun decoded =>
      ⟨.token token, decoded.1, decoded.2⟩

/-- The nonce of the account grows by one. -/
def NonceGrows (ext : Externals) (before after : HybridDb) (owner : Address) :
    Prop :=
  ∃ dataBefore dataAfter, info ext before owner = .ok dataBefore ∧
    info ext after owner = .ok dataAfter ∧
    dataAfter.nonce.toNat = dataBefore.nonce.toNat + 1

/-- The nonce can be counted up. -/
def NonceBelowMax (ext : Externals) (db : HybridDb) (owner : Address) : Prop :=
  ∃ data, info ext db owner = .ok data ∧ data.nonce ≠ 0xFFFFFFFFFFFFFFFF

theorem decodeErc20Transfer_selector {data : Bytes} {decoded : Address × U256}
    (isTransfer : decodeErc20Transfer data = some decoded) :
    (transactionSelector data).filter isProtocolSelector = none := by
  unfold decodeErc20Transfer at isTransfer
  split at isTransfer
  case isTrue => cases isTransfer
  case isFalse wellFormed =>
    obtain ⟨length, selector⟩ := not_or.mp wellFormed
    rw [not_not] at length selector
    unfold transactionSelector
    rw [if_neg (by omega), selector]
    decide

theorem transact_native (recipient : Option Address) {data : Bytes} (value : U256)
    (gasLimit : UInt64) (plain : data.isEmpty = true) :
    transact ext state sender recipient data value gasLimit =
      transactValueTransfer ext state sender recipient value gasLimit := by
  unfold transact
  rw [if_pos plain]

theorem transact_token {token : Address} {data : Bytes} {decoded : Address × U256}
    (value : U256) (gasLimit : UInt64)
    (isTransfer : decodeErc20Transfer data = some decoded) :
    transact ext state sender (some token) data value gasLimit =
      transactErc20Transfer ext state sender token decoded.1 decoded.2 gasLimit
        data := by
  have called : data.isEmpty = false := by
    cases data with
    | nil => cases isTransfer
    | cons => rfl
  unfold transact
  rw [called, decodeErc20Transfer_selector isTransfer, isTransfer]
  rfl

/-- The balances after a plain transfer. -/
theorem native_writeValueTransfer {db : HybridDb} {target : Address}
    {senderData targetData : AccountInfo} (senderBalance targetBalance : U256)
    (nextNonce : UInt64) (senderRead : info ext db sender = .ok senderData)
    (targetRead : info ext db target = .ok targetData) :
    let after := writeValueTransfer db sender target senderBalance targetBalance
      nextNonce
    (∃ data, info ext after sender = .ok data ∧ data.nonce = nextNonce ∧
      (sender ≠ target → data.balance = senderBalance)) ∧
    (∃ data, info ext after target = .ok data ∧ data.balance = targetBalance) ∧
    ∀ other, other ≠ sender → other ≠ target →
      info ext after other = info ext db other := by
  intro after
  have entry := fun other => account_writeValueTransfer db sender target other
    senderBalance targetBalance nextNonce
  have pinned : after.pinnedBlock = db.pinnedBlock := rfl
  have fewer : ∀ other, (after.account other).needsUpstream = true →
      (db.account other).needsUpstream = true := by
    intro other
    apply DirtyAccount.needsUpstream_of_overrides <;> rw [entry other] <;> dsimp only
    · split
      · simp
      · split <;> simp
    · split <;> simp
  refine ⟨?_, ?_, fun other notSender notTarget => ?_⟩
  · obtain ⟨data, read⟩ := info_readable pinned (fewer sender) senderRead
    refine ⟨data, read, nonce_of_info read ?_, fun distinct => balance_of_info read ?_⟩
    · rw [entry sender]
      simp
    · rw [entry sender]
      simp [distinct]
  · obtain ⟨data, read⟩ := info_readable pinned (fewer target) targetRead
    refine ⟨data, read, balance_of_info read ?_⟩
    rw [entry target]
    simp
  · apply info_congr ext pinned
    rw [entry other]
    simp [DirtyAccount.infoFields, notSender, notTarget]

/-- The transfer moves its amount and counts the sender's nonce up. -/
def Transfers (ext : Externals) (before after : HybridDb) (sender : Address)
    (transfer : Transfer) : Prop :=
  MovesAmount (transfer.asset.balance ext before) (transfer.asset.balance ext after)
      sender transfer.recipient transfer.amount ∧
    NonceGrows ext before after sender

/-- The recipient's balance has room for the amount. -/
def HasRoom (ext : Externals) (db : HybridDb) (recipient : Address)
    (amount : U256) : Prop :=
  ∃ balance, Asset.native.balance ext db recipient = .ok balance ∧
    balance.toNat + amount.toNat < 2 ^ 256

theorem nonceGrows_iff {before after : HybridDb} {owner : Address}
    {dataBefore dataAfter : AccountInfo}
    (readBefore : info ext before owner = .ok dataBefore)
    (readAfter : info ext after owner = .ok dataAfter)
    (counted : dataAfter.nonce = saturatingSucc dataBefore.nonce) :
    NonceGrows ext before after owner ↔ NonceBelowMax ext before owner := by
  unfold NonceGrows NonceBelowMax
  rw [readBefore, readAfter]
  constructor
  · rintro ⟨first, second, readFirst, readSecond, grows⟩
    cases readFirst
    cases readSecond
    rw [counted, toNat_saturatingSucc] at grows
    exact ⟨dataBefore, rfl, grows⟩
  · rintro ⟨data, read, below⟩
    cases read
    refine ⟨dataBefore, dataAfter, rfl, rfl, ?_⟩
    rw [counted, toNat_saturatingSucc]
    exact below

theorem nonceCounted_setNonce {db : HybridDb} {owner : Address} {data : AccountInfo}
    (read : info ext db owner = .ok data) (nonce : UInt64) :
    ∃ counted, info ext (db.setNonce owner nonce) owner = .ok counted ∧
      counted.nonce = nonce := by
  have entry := account_setNonce db owner owner nonce
  rw [if_pos rfl] at entry
  have fewer : ((db.setNonce owner nonce).account owner).needsUpstream = true →
      (db.account owner).needsUpstream = true := by
    rw [entry]
    apply DirtyAccount.needsUpstream_of_overrides <;> simp
  obtain ⟨counted, readAfter⟩ :=
    info_readable (pinnedBlock_setNonce db owner nonce) fewer read
  refine ⟨counted, readAfter, nonce_of_info readAfter ?_⟩
  rw [entry]

theorem native_of_info {db : HybridDb} {owner : Address} {data : AccountInfo}
    (read : info ext db owner = .ok data) :
    Asset.native.balance ext db owner = .ok data.balance := by
  unfold Asset.balance
  rw [read]
  rfl

/-- There is room for an amount exactly when adding it does not saturate. -/
theorem hasRoom_iff {db : HybridDb} {target : Address} {found : U256} (value : U256)
    (before : Asset.native.balance ext db target = .ok found) :
    (∃ balance, Asset.native.balance ext db target = .ok balance ∧
      (U256.saturatingAdd found value).toNat = balance.toNat + value.toNat) ↔
        HasRoom ext db target value := by
  unfold HasRoom
  rw [before]
  have total := U256.toNat_saturatingAdd found value
  constructor
  · rintro ⟨balance, read, sum⟩
    cases read
    exact ⟨_, rfl, by omega⟩
  · rintro ⟨balance, read, below⟩
    cases read
    exact ⟨_, rfl, by omega⟩

theorem transfers_native_iff {recipient : Option Address} {value : U256}
    {gasLimit : UInt64} {outcome : ExecutionResult × StateDiff}
    (strict : state.strictBalance = true)
    (completes : (transactValueTransfer ext state sender recipient value gasLimit).2 =
      .ok outcome)
    (bounded : ∀ balance, Asset.native.balance ext state.db sender = .ok balance →
      balance.toNat ≤ 2 ^ 255) :
    Transfers ext state.db
        (transactValueTransfer ext state sender recipient value gasLimit).1.db sender
        ⟨.native, recipient.getD burnAddress, value⟩ ↔
      (sender ≠ recipient.getD burnAddress ∨ value = 0) ∧
        NonceBelowMax ext state.db sender ∧
        HasRoom ext state.db (recipient.getD burnAddress) value := by
  rcases valueTransfer_cases ext state sender recipient value gasLimit with
    ⟨failure, stopped⟩ | ⟨senderFound, targetFound, covers, targetRead, executed⟩
  · rw [stopped] at completes
    cases completes
  rw [executed, finalizeTransaction_db]
  set target := recipient.getD burnAddress with targetIs
  dsimp only
  set senderBalance := U256.saturatingSub (senderFound.getD {}).balance value
  set targetBalance := U256.saturatingAdd (targetFound.getD {}).balance value
    with increased
  set nextNonce := saturatingSucc (senderFound.getD {}).nonce with counted
  have senderInfo := info_of_basic covers.read
  have targetInfo := info_of_basic targetRead
  obtain ⟨⟨senderAfter, senderRead, nonceAfter, balanceAfter⟩,
    ⟨targetAfter, targetReadAfter, targetIncreased⟩, others⟩ :=
    native_writeValueTransfer senderBalance targetBalance nextNonce senderInfo targetInfo
  set after := writeValueTransfer state.db sender target senderBalance targetBalance
    nextNonce
  have senderBefore := native_of_info senderInfo
  have targetBefore := native_of_info targetInfo
  have senderAfterBalance : sender ≠ target →
      Asset.native.balance ext after sender = .ok senderBalance :=
    fun distinct => by rw [native_of_info senderRead, balanceAfter distinct]
  have targetAfterBalance : Asset.native.balance ext after target = .ok targetBalance := by
    rw [native_of_info targetReadAfter, targetIncreased]
  have toItself : sender = target →
      targetBalance = U256.saturatingAdd (senderFound.getD {}).balance value := by
    intro same
    rw [← same, senderBefore] at targetBefore
    rw [increased, ← Except.ok.inj targetBefore]
  have unmoved : ∀ other, other ≠ sender → other ≠ target →
      Asset.native.balance ext after other = Asset.native.balance ext state.db other := by
    intro other notSender notTarget
    unfold Asset.balance
    rw [others other notSender notTarget]
  have room := hasRoom_iff value targetBefore
  rw [← increased] at room
  unfold Transfers
  rw [movesAmount_iff senderBefore (covers.enough strict) (bounded _ senderBefore)
      senderAfterBalance targetAfterBalance toItself,
    nonceGrows_iff senderInfo senderRead nonceAfter, room]
  constructor
  · rintro ⟨⟨distinct, fits, -⟩, below⟩
    exact ⟨distinct, below, fits⟩
  · rintro ⟨distinct, below, fits⟩
    exact ⟨⟨distinct, fits, unmoved⟩, below⟩

/-- The mapping slot that the writes of a transfer use. -/
def transferSlot (ext : Externals) (db : HybridDb) (token sender recipient : Address) :
    U256 :=
  writtenSlot ext (transferReads ext db token sender recipient) token sender

/-- The owners' slots in a balance mapping are apart from each other and from the
slot of the total supply. -/
structure MappingApart (ext : Externals) (slot : U256) : Prop where
  injective : Function.Injective fun owner => erc20MappingSlot ext owner slot
  notTotal : ∀ owner, erc20MappingSlot ext owner slot ≠ 1

/-- The slot that a transfer records is the one where the balances of the recipient
and of all other owners are found. -/
structure SharesSlot (ext : Externals) (db : HybridDb)
    (token sender recipient : Address) (amount : U256) : Prop where
  received : ∃ balance found, tokenBalance ext db token recipient = .ok balance ∧
    tokenBalance ext (erc20BalanceOf ext db token sender).1 token recipient =
      .ok found ∧
    (U256.saturatingAdd found amount).toNat = balance.toNat + amount.toNat
  others : ∀ other, other ≠ sender → other ≠ recipient →
    (db.account token).erc20Balances[other]? = none →
    storage ext db token
        (erc20MappingSlot ext other (transferSlot ext db token sender recipient)) =
      tokenBalance ext db token other

theorem tokenBalance_writeTransfer (db : HybridDb) (token recipient : Address)
    (nextSender nextRecipient : U256) (nextNonce : UInt64)
    (apart : MappingApart ext (writtenSlot ext db token sender)) :
    let after := (writeTransfer ext db token sender recipient nextSender
      nextRecipient).setNonce sender nextNonce
    (sender ≠ recipient → tokenBalance ext after token sender = .ok nextSender) ∧
    tokenBalance ext after token recipient = .ok nextRecipient ∧
    ∀ other, other ≠ sender → other ≠ recipient →
      tokenBalance ext after token other =
        match (db.account token).erc20Balances[other]? with
        | some balance => .ok balance
        | none =>
            storage ext db token
              (erc20MappingSlot ext other (writtenSlot ext db token sender)) := by
  intro after
  have written := account_writeTransfer ext db token sender recipient token nextSender
    nextRecipient
  dsimp only at written
  rw [if_pos rfl] at written
  have fields : (after.account token).tokenFields = _ :=
    (tokenFields_setNonce _ sender token nextNonce).trans
      (congrArg DirtyAccount.tokenFields written)
  simp only [DirtyAccount.tokenFields, Prod.mk.injEq] at fields
  obtain ⟨recorded, balances, slots⟩ := fields
  refine ⟨fun distinct => ?_, ?_, fun other notSender notRecipient => ?_⟩
  · rw [tokenBalance_recorded recorded, balances, Std.ExtTreeMap.getElem?_insert,
      if_neg (by simpa using Ne.symm distinct), Std.ExtTreeMap.getElem?_insert_self]
  · rw [tokenBalance_recorded recorded, balances,
      Std.ExtTreeMap.getElem?_insert_self]
  · rw [tokenBalance_recorded recorded, balances,
      Std.ExtTreeMap.getElem?_insert, if_neg (by simpa using Ne.symm notRecipient),
      Std.ExtTreeMap.getElem?_insert, if_neg (by simpa using Ne.symm notSender)]
    cases (db.account token).erc20Balances[other]? with
    | some balance => rfl
    | none =>
        have pinned : after.pinnedBlock = db.pinnedBlock :=
          (pinnedBlock_setNonce _ sender nextNonce).trans
            (sameInfo_writeTransfer db token recipient nextSender
              nextRecipient).pinnedBlock
        apply storage_congr ext pinned
        have total := apart.notTotal other
        have fromSender := apart.injective.ne notSender
        have fromRecipient := apart.injective.ne notRecipient
        rw [slots, getElem?_insert_of_ne total, getElem?_insert_of_ne fromRecipient,
          getElem?_insert_of_ne total, getElem?_insert_of_ne fromSender]

theorem tokenBalance_of_override {db : HybridDb} {token owner : Address}
    {balance : U256}
    (override : (db.account token).erc20Balances[owner]? = some balance) :
    tokenBalance ext db token owner = .ok balance := by
  rw [tokenBalance_eq, override]

/-- The balance of another owner is unmoved exactly when it was recorded, or is found at
the slot that the transfer writes. -/
theorem otherUnmoved_iff {db after : HybridDb} {token recipient other : Address}
    (read : tokenBalance ext after token other =
      match ((transferReads ext db token sender recipient).account
        token).erc20Balances[other]? with
      | some balance => .ok balance
      | none => storage ext (transferReads ext db token sender recipient) token
          (erc20MappingSlot ext other (transferSlot ext db token sender recipient))) :
    tokenBalance ext after token other = tokenBalance ext db token other ↔
      ((db.account token).erc20Balances[other]? = none →
        storage ext db token
          (erc20MappingSlot ext other (transferSlot ext db token sender recipient)) =
          tokenBalance ext db token other) := by
  obtain ⟨recorded, entry⟩ := account_transferReads ext sender db token recipient token
  rw [if_pos rfl] at entry
  rw [read, entry]
  dsimp only
  cases override : (db.account token).erc20Balances[other]? with
  | some balance =>
      refine iff_of_true (tokenBalance_of_override override).symm fun missing => ?_
      cases missing
  | none =>
      rw [storage_transferReads]
      exact ⟨fun same _ => same, fun same => same rfl⟩

/-- The recipient receives the amount exactly when its balance is the one that the transfer
finds. -/
theorem received_iff {db : HybridDb} {token recipient : Address} {found : U256} (amount : U256)
    (foundFirst : tokenBalance ext (erc20BalanceOf ext db token sender).1 token recipient =
      .ok found) :
    (∃ balance, tokenBalance ext db token recipient = .ok balance ∧
      (U256.saturatingAdd found amount).toNat = balance.toNat + amount.toNat) ↔
        ∃ balance found, tokenBalance ext db token recipient = .ok balance ∧
          tokenBalance ext (erc20BalanceOf ext db token sender).1 token recipient =
            .ok found ∧
          (U256.saturatingAdd found amount).toNat = balance.toNat + amount.toNat := by
  rw [foundFirst]
  constructor
  · rintro ⟨balance, read, sum⟩
    exact ⟨balance, found, read, rfl, sum⟩
  · rintro ⟨balance, other, read, same, sum⟩
    cases same
    exact ⟨balance, read, sum⟩

theorem transfers_token_iff {token recipient : Address} {amount : U256}
    {gasLimit : UInt64} {input : Bytes} {outcome : ExecutionResult × StateDiff}
    (strict : state.strictBalance = true)
    (completes : (transactErc20Transfer ext state sender token recipient amount
      gasLimit input).2 = .ok outcome)
    (bounded : ∀ balance, tokenBalance ext state.db token sender = .ok balance →
      balance.toNat ≤ 2 ^ 255)
    (apart : MappingApart ext (transferSlot ext state.db token sender recipient)) :
    Transfers ext state.db
        (transactErc20Transfer ext state sender token recipient amount gasLimit
          input).1.db sender ⟨.token token, recipient, amount⟩ ↔
      (sender ≠ recipient ∨ amount = 0) ∧
        NonceBelowMax ext state.db sender ∧
        SharesSlot ext state.db token sender recipient amount := by
  rcases erc20Transfer_cases ext state sender token recipient amount gasLimit input with
    ⟨db, failure, stopped⟩ |
    ⟨senderBalance, found, senderBefore, enough, foundFirst, executed⟩
  · rw [stopped] at completes
    cases completes
  rw [executed] at completes ⊢
  set reads := transferReads ext state.db token sender recipient
  set nextSender := U256.saturatingSub senderBalance amount
  set nextRecipient := U256.saturatingAdd found amount with increased
  rcases finishSimulated_cases ext
    { state with
      db := writeTransfer ext reads token sender recipient nextSender nextRecipient }
    sender token input gasLimit _ with
    ⟨failure, -, stopped⟩ | ⟨senderFound, senderRead, finished⟩
  · rw [stopped] at completes
    cases completes
  rw [finished, finalizeTransaction_db]
  dsimp only
  set nextNonce := saturatingSucc (senderFound.getD {}).nonce with counted
  set written := writeTransfer ext reads token sender recipient nextSender nextRecipient
  have sameInfo : SameInfo state.db written :=
    (sameInfo_transferReads state.db token recipient).trans
      (sameInfo_writeTransfer reads token recipient nextSender nextRecipient)
  have senderInfo := info_of_basic senderRead
  have senderInfoBefore : info ext state.db sender = .ok (senderFound.getD {}) :=
    (sameInfo.info ext sender).symm.trans senderInfo
  obtain ⟨senderAfter, senderAfterRead, counts⟩ :=
    nonceCounted_setNonce senderInfo nextNonce
  obtain ⟨senderAfterBalance, recipientAfterBalance, othersAfter⟩ :=
    tokenBalance_writeTransfer reads token recipient nextSender nextRecipient nextNonce
      apart
  have toItself : sender = recipient →
      nextRecipient = U256.saturatingAdd senderBalance amount := by
    intro same
    rw [← same, tokenBalance_erc20BalanceOf, senderBefore] at foundFirst
    rw [increased, Except.ok.inj foundFirst]
  have received := received_iff amount foundFirst
  rw [← increased] at received
  have unmoved := fun other notSender notRecipient =>
    otherUnmoved_iff (othersAfter other notSender notRecipient)
  unfold Transfers Asset.balance
  rw [movesAmount_iff senderBefore (enough strict) (bounded _ senderBefore)
      senderAfterBalance recipientAfterBalance toItself, received,
    nonceGrows_iff senderInfoBefore senderAfterRead counts]
  constructor
  · rintro ⟨⟨distinct, gained, others⟩, below⟩
    refine ⟨distinct, below, gained, fun other notSender notRecipient => ?_⟩
    exact (unmoved other notSender notRecipient).mp (others other notSender notRecipient)
  · rintro ⟨distinct, below, shares⟩
    refine ⟨⟨distinct, shares.received, fun other notSender notRecipient => ?_⟩, below⟩
    exact (unmoved other notSender notRecipient).mpr
      (shares.others other notSender notRecipient)

/-- Sender and recipient differ or nothing is sent, the nonce can be counted up, and
there is room for the amount where the recipient's balance is found. -/
def TransferSafe (ext : Externals) (db : HybridDb) (sender : Address)
    (transfer : Transfer) : Prop :=
  (sender ≠ transfer.recipient ∨ transfer.amount = 0) ∧
    NonceBelowMax ext db sender ∧
    match transfer.asset with
    | .native => HasRoom ext db transfer.recipient transfer.amount
    | .token token => SharesSlot ext db token sender transfer.recipient transfer.amount

/-- A hash that returns the owner of a mapping slot behind a one. -/
def mappingExternals : Externals where
  keccak256 bytes := 1#96 ++ ofBytes 160 ((bytes.drop 12).take 20)
  accountInfo _ _ := .ok none
  storageAt _ _ _ := .ok 0
  ethCall _ _ _ _ := .ok []
  buildTx _ := .ok ()
  transact _ _ := .error (.upstream "lack of funds")

theorem erc20MappingSlot_mappingExternals (owner : Address) (slot : U256) :
    erc20MappingSlot mappingExternals owner slot = 1#96 ++ owner := by
  unfold erc20MappingSlot mappingExternals
  dsimp only
  rw [List.append_assoc, List.drop_left' (by simp), List.take_left' (by simp [addressBytes]),
    ofBytes_addressBytes]

/-- No mapping slot is a small number. -/
theorem mappingSlot_ne {owner : Address} {slot index : U256}
    (small : index.extractLsb' 160 96 = 0#96) :
    erc20MappingSlot mappingExternals owner slot ≠ index := by
  rw [erc20MappingSlot_mappingExternals]
  rintro rfl
  rw [BitVec.extractLsb'_append_eq_left] at small
  exact absurd small (by decide)

theorem mappingApart_mappingExternals (slot : U256) :
    MappingApart mappingExternals slot := by
  constructor
  · intro first second same
    dsimp only at same
    rw [erc20MappingSlot_mappingExternals, erc20MappingSlot_mappingExternals] at same
    exact (BitVec.append_right_inj 1#96).mp same
  · exact fun owner => mappingSlot_ne (by decide)

/-- A fork that knows the balances of two owners of a token. -/
def tokenFork : ForkState :=
  { ForkState.new
      ⟨{ accounts := (∅ : Std.ExtTreeMap Address DirtyAccount).insert 9
          { erc20BalanceSlot := some 0
            erc20Balances := ((∅ : Std.ExtTreeMap Address U256).insert 1 10).insert 2 4 } },
        some 100, 1⟩ 100 1 0 with
    strictBalance := true }

/-- The call `transfer(2, 3)`. -/
def transferCall : Bytes :=
  [0xa9, 0x05, 0x9c, 0xbb] ++ List.replicate 12 0 ++ addressBytes 2 ++ u256Bytes 3

theorem tokenBalance_tokenFork (owner : Address) :
    tokenBalance mappingExternals tokenFork.db 9 owner =
      .ok (if owner = 2 then 4 else if owner = 1 then 10 else 0) := by
  have recorded : (tokenFork.db.account 9).erc20BalanceSlot = some 0 := by rfl
  have balances : (tokenFork.db.account 9).erc20Balances =
      ((∅ : Std.ExtTreeMap Address U256).insert 1 10).insert 2 4 := by rfl
  have slots : ∀ index, storage mappingExternals tokenFork.db 9 index = .ok 0 := by
    intro index
    rfl
  rw [tokenBalance_recorded recorded, balances, slots]
  by_cases isRecipient : owner = 2
  · subst isRecipient
    rfl
  · by_cases isSender : owner = 1
    · subst isSender
      rfl
    · rw [Std.ExtTreeMap.getElem?_insert, Std.ExtTreeMap.getElem?_insert,
        if_neg (fun same => isRecipient (Std.compare_eq_iff_eq.mp same).symm),
        if_neg (fun same => isSender (Std.compare_eq_iff_eq.mp same).symm),
        if_neg isRecipient, if_neg isSender]
      rfl

/-- A fork in which one account was given a balance, with balances checked. -/
def strictFork : ForkState :=
  { ForkState.new (setBalance ⟨{}, some 100, 1⟩ 1 5) 100 1 0 with
    strictBalance := true }

theorem native_strictFork (owner : Address) :
    Asset.native.balance mappingExternals strictFork.db owner =
      .ok (if owner = 1 then 5 else 0) := by
  by_cases funded : owner = 1
  · subst funded
    rfl
  · have entry : strictFork.db.account owner = {} := by
      have change := account_modify ⟨{}, some 100, 1⟩ 1 owner
        fun account => { account with balance := some (5 : U256) }
      rw [if_neg funded] at change
      exact change
    unfold Asset.balance info
    rw [entry, if_neg funded]
    rfl

end EvmExecutor

end Roko
