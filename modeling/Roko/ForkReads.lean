import Roko.ForkDatabase

/-!
# What the reads of a fork depend on

The account data of an address depends on four fields of its entry and on the
upstream node, and a storage slot on the entry of its account.  Each write is
described by the entry it changes, so that later proofs read entries and never
unfold the maps.
-/

namespace Roko

section Lookup

variable {Key Value : Type*} [Ord Key] [Std.TransOrd Key] [Std.LawfulEqOrd Key]
  [DecidableEq Key]

theorem getElem?_insert (map : Std.ExtTreeMap Key Value) (key other : Key)
    (value : Value) :
    (map.insert key value)[other]? = if other = key then some value else map[other]? := by
  rw [Std.ExtTreeMap.getElem?_insert]
  by_cases same : other = key
  · rw [if_pos same, if_pos (by rw [same]; exact Std.ReflCmp.compare_self)]
  · rw [if_neg same, if_neg fun equal => same (Std.compare_eq_iff_eq.mp equal).symm]

theorem getElem?_insert_of_ne {key other : Key} (apart : other ≠ key)
    (map : Std.ExtTreeMap Key Value) (value : Value) :
    (map.insert key value)[other]? = map[other]? := by
  rw [getElem?_insert, if_neg apart]

theorem getElem?_erase (map : Std.ExtTreeMap Key Value) (key other : Key) :
    (map.erase key)[other]? = if other = key then none else map[other]? := by
  rw [Std.ExtTreeMap.getElem?_erase]
  by_cases same : other = key
  · rw [if_pos same, if_pos (by rw [same]; exact Std.ReflCmp.compare_self)]
  · rw [if_neg same, if_neg fun equal => same (Std.compare_eq_iff_eq.mp equal).symm]

end Lookup

namespace DirtyAccount

/-- The overrides that account data is read from. -/
def infoFields (account : DirtyAccount) :
    Option U256 × Option UInt64 × Option Bytecode × Option B256 :=
  (account.balance, account.nonce, account.code, account.codeHash)

/-- The overrides that storage and the balances of a token are read from. -/
def tokenFields (account : DirtyAccount) :
    Option U256 × Std.ExtTreeMap Address U256 × Std.ExtTreeMap U256 U256 :=
  (account.erc20BalanceSlot, account.erc20Balances, account.storage)

theorem needsUpstream_of_overrides {before after : DirtyAccount}
    (balance : after.balance.isNone = true → before.balance.isNone = true)
    (nonce : after.nonce.isNone = true → before.nonce.isNone = true)
    (code : after.code = before.code) (needs : after.needsUpstream = true) :
    before.needsUpstream = true := by
  unfold needsUpstream at needs ⊢
  rw [code] at needs
  simp only [Bool.or_eq_true] at needs ⊢
  exact needs.imp (Or.imp balance nonce) id

end DirtyAccount

namespace DirtyStore

theorem getElem?_modify (store : DirtyStore) (address other : Address)
    (change : DirtyAccount → DirtyAccount) :
    (store.modify address change).accounts[other]? =
      if other = address then some (change (store.account address))
      else store.accounts[other]? := by
  unfold modify
  dsimp only
  rw [Std.ExtTreeMap.getElem?_insert]
  by_cases same : other = address
  · simp [same]
  · simp [same, Ne.symm same]

@[simp]
theorem account_modify (store : DirtyStore) (address other : Address)
    (change : DirtyAccount → DirtyAccount) :
    (store.modify address change).account other =
      if other = address then change (store.account address)
      else store.account other := by
  unfold account
  rw [getElem?_modify]
  by_cases same : other = address <;> simp [same, account]

theorem accounts_setStorage (store : DirtyStore) (address : Address)
    (slot value : U256) :
    (store.setStorage address slot value).accounts =
      (store.modify address fun account =>
        { account with storage := account.storage.insert slot value }).accounts := by
  unfold setStorage
  dsimp only
  split <;> rfl

@[simp]
theorem account_setStorage (store : DirtyStore) (address other : Address)
    (slot value : U256) :
    (store.setStorage address slot value).account other =
      if other = address then
        { store.account address with
          storage := (store.account address).storage.insert slot value }
      else store.account other := by
  have change := account_modify store address other fun account =>
    { account with storage := account.storage.insert slot value }
  unfold account at change ⊢
  rw [accounts_setStorage]
  exact change

end DirtyStore

namespace HybridDb

/-- The entry of an account in the write layer, or an empty one. -/
abbrev account (db : HybridDb) (address : Address) : DirtyAccount :=
  db.dirty.account address

@[simp]
theorem account_modify (db : HybridDb) (address other : Address)
    (change : DirtyAccount → DirtyAccount) :
    (db.modify address change).account other =
      if other = address then change (db.account address) else db.account other :=
  DirtyStore.account_modify db.dirty address other change

@[simp]
theorem account_setStorage (db : HybridDb) (address other : Address)
    (slot value : U256) :
    (db.setStorage address slot value).account other =
      if other = address then
        { db.account address with
          storage := (db.account address).storage.insert slot value }
      else db.account other :=
  DirtyStore.account_setStorage db.dirty address other slot value

theorem account_setNonce (db : HybridDb) (address other : Address) (nonce : UInt64) :
    (db.setNonce address nonce).account other =
      if other = address then { db.account address with nonce := some nonce }
      else db.account other :=
  account_modify db address other _

theorem tokenFields_setNonce (db : HybridDb) (address other : Address)
    (nonce : UInt64) :
    ((db.setNonce address nonce).account other).tokenFields =
      (db.account other).tokenFields := by
  rw [account_setNonce]
  split
  case isTrue same =>
    rw [same]
    rfl
  case isFalse => rfl

@[simp]
theorem pinnedBlock_setNonce (db : HybridDb) (address : Address) (nonce : UInt64) :
    (db.setNonce address nonce).pinnedBlock = db.pinnedBlock :=
  rfl

@[simp]
theorem pinnedBlock_setStorage (db : HybridDb) (address : Address)
    (slot value : U256) :
    (db.setStorage address slot value).pinnedBlock = db.pinnedBlock :=
  rfl

/-- The write layer has an entry of the account. -/
def present (db : HybridDb) (address : Address) : Bool :=
  db.dirty.accounts[address]?.isSome

@[simp]
theorem present_modify (db : HybridDb) (address other : Address)
    (change : DirtyAccount → DirtyAccount) :
    (db.modify address change).present other =
      (decide (other = address) || db.present other) := by
  unfold present modify
  rw [DirtyStore.getElem?_modify]
  by_cases same : other = address <;> simp [same]

@[simp]
theorem present_setNonce (db : HybridDb) (address other : Address) (nonce : UInt64) :
    (db.setNonce address nonce).present other =
      (decide (other = address) || db.present other) :=
  present_modify db address other _

@[simp]
theorem present_setStorage (db : HybridDb) (address other : Address)
    (slot value : U256) :
    (db.setStorage address slot value).present other =
      (decide (other = address) || db.present other) := by
  have change := present_modify db address other fun account =>
    { account with storage := account.storage.insert slot value }
  unfold present setStorage at *
  rw [DirtyStore.accounts_setStorage]
  exact change

/-- The account data of an address; a missing account counts as an empty one. -/
def info (ext : Externals) (db : HybridDb) (address : Address) :
    Except MirageError AccountInfo :=
  let account := db.account address
  if account.needsUpstream then
    (ext.accountInfo address db.resolveBlock).map fun fetched =>
      account.overlay (fetched.getD {})
  else .ok (account.overlay {})

theorem basic_map_getD (ext : Externals) (db : HybridDb) (address : Address) :
    (basic ext db address).map (fun info => info.getD {}) = info ext db address := by
  unfold basic info account DirtyStore.account
  cases found : db.dirty.accounts[address]? with
  | none =>
      cases ext.accountInfo address db.resolveBlock <;> rfl
  | some dirty =>
      simp only [Option.getD_some]
      split
      · cases ext.accountInfo address db.resolveBlock <;> rfl
      · rfl

theorem basic_of_present {ext : Externals} {db : HybridDb} {address : Address}
    (entry : db.present address = true) :
    basic ext db address = (info ext db address).map some := by
  unfold present at entry
  unfold basic info account DirtyStore.account
  cases found : db.dirty.accounts[address]? with
  | none =>
      rw [found] at entry
      cases entry
  | some dirty =>
      simp only [Option.getD_some]
      split
      · cases ext.accountInfo address db.resolveBlock <;> rfl
      · rfl

theorem info_of_basic {ext : Externals} {db : HybridDb} {address : Address}
    {found : Option AccountInfo} (read : basic ext db address = .ok found) :
    info ext db address = .ok (found.getD {}) := by
  rw [← basic_map_getD, read]
  rfl

theorem info_error_of_basic {ext : Externals} {db : HybridDb} {address : Address}
    {failure : MirageError} (read : basic ext db address = .error failure) :
    info ext db address = .error failure := by
  rw [← basic_map_getD, read]
  rfl

theorem basic_ok_iff (ext : Externals) (db : HybridDb) (address : Address) :
    (∃ found, basic ext db address = .ok found) ↔
      ∃ data, info ext db address = .ok data := by
  constructor
  · rintro ⟨found, read⟩
    exact ⟨_, info_of_basic read⟩
  · rintro ⟨data, read⟩
    cases found : basic ext db address with
    | ok result => exact ⟨result, rfl⟩
    | error failure =>
        rw [info_error_of_basic found] at read
        cases read

theorem info_congr (ext : Externals) {before after : HybridDb} {address : Address}
    (pinned : after.pinnedBlock = before.pinnedBlock)
    (fields : (after.account address).infoFields =
      (before.account address).infoFields) :
    info ext after address = info ext before address := by
  simp only [DirtyAccount.infoFields, Prod.mk.injEq] at fields
  obtain ⟨balance, nonce, code, codeHash⟩ := fields
  unfold info DirtyAccount.needsUpstream DirtyAccount.overlay resolveBlock
  dsimp only
  rw [pinned, balance, nonce, code, codeHash]

/-- An account with more overrides stays readable. -/
theorem info_readable {ext : Externals} {before after : HybridDb} {address : Address}
    (pinned : after.pinnedBlock = before.pinnedBlock)
    (fewer : (after.account address).needsUpstream = true →
      (before.account address).needsUpstream = true)
    {data : AccountInfo} (read : info ext before address = .ok data) :
    ∃ changed, info ext after address = .ok changed := by
  unfold info resolveBlock at read ⊢
  dsimp only at read ⊢
  rw [pinned]
  split
  case isFalse => exact ⟨_, rfl⟩
  case isTrue needs =>
    rw [if_pos (fewer needs)] at read
    cases fetched : ext.accountInfo address (before.pinnedBlock.elim .latest .number) with
    | error failure =>
        rw [fetched] at read
        cases read
    | ok found => exact ⟨_, rfl⟩

/-- What is read is the overlay of the entry over some base. -/
theorem overlay_of_info {ext : Externals} {db : HybridDb} {address : Address}
    {data : AccountInfo} (read : info ext db address = .ok data) :
    ∃ base, data = (db.account address).overlay base := by
  unfold info at read
  dsimp only at read
  split at read
  case isFalse =>
    cases read
    exact ⟨_, rfl⟩
  case isTrue =>
    cases fetched : ext.accountInfo address db.resolveBlock with
    | error failure =>
        rw [fetched] at read
        cases read
    | ok found =>
        rw [fetched] at read
        cases read
        exact ⟨_, rfl⟩

theorem balance_of_info {ext : Externals} {db : HybridDb} {address : Address}
    {data : AccountInfo} {balance : U256} (read : info ext db address = .ok data)
    (override : (db.account address).balance = some balance) :
    data.balance = balance := by
  obtain ⟨base, rfl⟩ := overlay_of_info read
  simp [DirtyAccount.overlay, override]

theorem nonce_of_info {ext : Externals} {db : HybridDb} {address : Address}
    {data : AccountInfo} {nonce : UInt64} (read : info ext db address = .ok data)
    (override : (db.account address).nonce = some nonce) : data.nonce = nonce := by
  obtain ⟨base, rfl⟩ := overlay_of_info read
  simp [DirtyAccount.overlay, override]

/-- The two databases read the same account data everywhere. -/
structure SameInfo (before after : HybridDb) : Prop where
  pinnedBlock : after.pinnedBlock = before.pinnedBlock
  infoFields : ∀ address,
    (after.account address).infoFields = (before.account address).infoFields

namespace SameInfo

theorem refl (db : HybridDb) : SameInfo db db :=
  ⟨rfl, fun _ => rfl⟩

theorem trans {first second third : HybridDb} (left : SameInfo first second)
    (right : SameInfo second third) : SameInfo first third :=
  ⟨right.pinnedBlock.trans left.pinnedBlock,
    fun address => (right.infoFields address).trans (left.infoFields address)⟩

theorem info {before after : HybridDb} (same : SameInfo before after)
    (ext : Externals) (address : Address) :
    HybridDb.info ext after address = HybridDb.info ext before address :=
  info_congr ext same.pinnedBlock (same.infoFields address)

theorem modify (db : HybridDb) (address : Address)
    {change : DirtyAccount → DirtyAccount}
    (keeps : ∀ account, (change account).infoFields = account.infoFields) :
    SameInfo db (db.modify address change) := by
  refine ⟨rfl, fun other => ?_⟩
  rw [account_modify]
  split
  case isTrue same => rw [keeps, same]
  case isFalse => rfl

theorem setStorage (db : HybridDb) (address : Address) (slot value : U256) :
    SameInfo db (db.setStorage address slot value) := by
  refine ⟨rfl, fun other => ?_⟩
  rw [account_setStorage]
  split
  case isTrue same => rw [same]; rfl
  case isFalse => rfl

end SameInfo

theorem storage_congr (ext : Externals) {before after : HybridDb} {address : Address}
    {index : U256} (pinned : after.pinnedBlock = before.pinnedBlock)
    (slot : (after.account address).storage[index]? =
      (before.account address).storage[index]?) :
    storage ext after address index = storage ext before address index := by
  unfold storage resolveBlock
  rw [pinned, slot]

theorem storage_setStorage (ext : Externals) (db : HybridDb)
    (address other : Address) (slot index value : U256) :
    storage ext (db.setStorage address slot value) other index =
      if other = address ∧ index = slot then .ok value
      else storage ext db other index := by
  split
  case isTrue both =>
    unfold storage
    simp [both.1, both.2]
  case isFalse apart =>
    apply storage_congr ext (pinnedBlock_setStorage db address slot value)
    by_cases same : other = address
    · have other_slot : slot ≠ index := fun equal => apart ⟨same, equal.symm⟩
      simp [same, Std.ExtTreeMap.getElem?_insert, other_slot]
    · simp [same]

/-- The slot of the balance mapping that a read of an owner uses. -/
def balanceSlot (ext : Externals) (db : HybridDb) (token owner : Address) :
    Except MirageError U256 :=
  match (db.account token).erc20BalanceSlot with
  | some slot => .ok slot
  | none => findBalanceSlot ext db token owner

/-- A lookup of the slot finds one that is not recorded yet. -/
def FindsNewSlot (ext : Externals) (db : HybridDb) (token owner : Address) :
    Prop :=
  (db.account token).erc20BalanceSlot = none ∧
    ∃ slot, findBalanceSlot ext db token owner = .ok slot

theorem erc20BalanceSlot_snd (ext : Externals) (db : HybridDb)
    (token owner : Address) :
    (erc20BalanceSlot ext db token owner).2 = balanceSlot ext db token owner := by
  unfold erc20BalanceSlot balanceSlot
  cases (db.account token).erc20BalanceSlot with
  | some slot => rfl
  | none =>
      dsimp only
      split
      case h_1 failure found => exact found.symm
      case h_2 slot found => exact found.symm

/-- A lookup records what it finds and nothing else. -/
theorem erc20BalanceSlot_fst (ext : Externals) (db : HybridDb)
    (token owner : Address) :
    (erc20BalanceSlot ext db token owner).1 = db ∧
        ¬ FindsNewSlot ext db token owner ∨
      ∃ slot, findBalanceSlot ext db token owner = .ok slot ∧
        (db.account token).erc20BalanceSlot = none ∧
        (erc20BalanceSlot ext db token owner).1 = db.recordBalanceSlot token slot := by
  unfold erc20BalanceSlot FindsNewSlot
  cases recorded : (db.account token).erc20BalanceSlot with
  | some slot => simp
  | none =>
      cases found : findBalanceSlot ext db token owner with
      | error failure => simp
      | ok slot => exact Or.inr ⟨slot, rfl, rfl, rfl⟩

theorem recordBalanceSlot_ne (db : HybridDb) (token : Address) (slot : U256)
    (missing : (db.account token).erc20BalanceSlot = none) :
    db.recordBalanceSlot token slot ≠ db := by
  intro same
  have recorded := congrArg (fun db => (db.account token).erc20BalanceSlot) same
  simp [recordBalanceSlot, missing] at recorded

theorem erc20BalanceSlot_fst_eq_iff (ext : Externals) (db : HybridDb)
    (token owner : Address) :
    (erc20BalanceSlot ext db token owner).1 = db ↔
      ¬ FindsNewSlot ext db token owner := by
  rcases erc20BalanceSlot_fst ext db token owner with
    ⟨same, known⟩ | ⟨slot, found, missing, recorded⟩
  · simp [same, known]
  · rw [recorded]
    constructor
    · exact fun same => absurd same (recordBalanceSlot_ne db token slot missing)
    · exact fun known => absurd ⟨missing, slot, found⟩ known

/-- A lookup changes the recorded slot to the one that it finds. -/
theorem account_erc20BalanceSlot (ext : Externals) (db : HybridDb)
    (token owner other : Address) :
    (erc20BalanceSlot ext db token owner).1.account other =
      if other = token then
        { db.account token with
          erc20BalanceSlot := (balanceSlot ext db token owner).toOption }
      else db.account other := by
  unfold erc20BalanceSlot balanceSlot
  cases recorded : (db.account token).erc20BalanceSlot with
  | some slot =>
      dsimp only [Except.toOption]
      rw [← recorded]
      split
      case isTrue same => rw [same]
      case isFalse => rfl
  | none =>
      cases findBalanceSlot ext db token owner with
      | error failure =>
          dsimp only [Except.toOption]
          rw [← recorded]
          split
          case isTrue same => rw [same]
          case isFalse => rfl
      | ok slot => simp [recordBalanceSlot, Except.toOption]

theorem sameInfo_erc20BalanceSlot (ext : Externals) (db : HybridDb)
    (token owner : Address) :
    SameInfo db (erc20BalanceSlot ext db token owner).1 := by
  rcases erc20BalanceSlot_fst ext db token owner with
    ⟨same, -⟩ | ⟨slot, -, -, recorded⟩
  · rw [same]
    exact SameInfo.refl db
  · rw [recorded]
    exact SameInfo.modify db token fun _ => rfl

/-- The balance that a read of an owner returns. -/
def tokenBalance (ext : Externals) (db : HybridDb) (token owner : Address) :
    Except MirageError U256 :=
  (erc20BalanceOf ext db token owner).2

/-- A read records a new slot only when it has no override to return. -/
theorem erc20BalanceOf_fst (ext : Externals) (db : HybridDb)
    (token owner : Address) :
    (erc20BalanceOf ext db token owner).1 =
      if (db.account token).erc20Balances[owner]?.isSome then db
      else (erc20BalanceSlot ext db token owner).1 := by
  unfold erc20BalanceOf
  cases (db.account token).erc20Balances[owner]? with
  | some balance => rfl
  | none =>
      rcases erc20BalanceSlot ext db token owner with ⟨next, failure | slot⟩ <;> rfl

/-- The slot that is recorded after a read of an owner. -/
def slotAfterRead (ext : Externals) (db : HybridDb) (token owner : Address) :
    Option U256 :=
  if (db.account token).erc20Balances[owner]?.isSome then
    (db.account token).erc20BalanceSlot
  else (balanceSlot ext db token owner).toOption

theorem account_erc20BalanceOf (ext : Externals) (db : HybridDb)
    (token owner other : Address) :
    (erc20BalanceOf ext db token owner).1.account other =
      if other = token then
        { db.account token with
          erc20BalanceSlot := slotAfterRead ext db token owner }
      else db.account other := by
  rw [erc20BalanceOf_fst]
  unfold slotAfterRead
  split
  case isFalse => exact account_erc20BalanceSlot ext db token owner other
  case isTrue =>
    split
    case isTrue same => rw [same]
    case isFalse => rfl

/-- A balance is an override, or it is read through the slot that a lookup finds,
or the upstream node is asked. -/
theorem tokenBalance_eq (ext : Externals) (db : HybridDb) (token owner : Address) :
    tokenBalance ext db token owner =
      match (db.account token).erc20Balances[owner]? with
      | some balance => .ok balance
      | none =>
          match balanceSlot ext db token owner with
          | .ok slot => storage ext db token (erc20MappingSlot ext owner slot)
          | .error _ => upstreamBalanceOf ext db token owner := by
  unfold tokenBalance erc20BalanceOf
  cases (db.account token).erc20Balances[owner]? with
  | some balance => rfl
  | none =>
      dsimp only
      unfold erc20BalanceSlot balanceSlot
      cases (db.account token).erc20BalanceSlot with
      | some slot => rfl
      | none =>
          cases findBalanceSlot ext db token owner with
          | error failure => rfl
          | ok slot =>
              dsimp only
              unfold storage
              have unchanged : ((db.recordBalanceSlot token slot).account token).storage =
                  (db.account token).storage := by
                simp [recordBalanceSlot]
              rw [unchanged]
              rfl

theorem sameInfo_erc20BalanceOf (ext : Externals) (db : HybridDb)
    (token owner : Address) :
    SameInfo db (erc20BalanceOf ext db token owner).1 := by
  rw [erc20BalanceOf_fst]
  split
  · exact SameInfo.refl db
  · exact sameInfo_erc20BalanceSlot ext db token owner

theorem sameInfo_setErc20Balance (ext : Externals) (db : HybridDb)
    (token owner : Address) (balance : U256) :
    SameInfo db (setErc20Balance ext db token owner balance).1 := by
  have reads := (sameInfo_erc20BalanceOf ext db token owner).trans
    (sameInfo_erc20BalanceSlot ext _ token owner)
  unfold setErc20Balance
  exact ((reads.trans (SameInfo.setStorage _ token _ _)).trans
    (SameInfo.setStorage _ token _ _)).trans (SameInfo.modify _ token fun _ => rfl)

/-- After a read of an owner a lookup still finds the same slot. -/
theorem balanceSlot_erc20BalanceOf (ext : Externals) (db : HybridDb)
    (token owner : Address) :
    balanceSlot ext (erc20BalanceOf ext db token owner).1 token owner =
      balanceSlot ext db token owner := by
  rw [erc20BalanceOf_fst]
  split
  case isTrue => rfl
  case isFalse =>
    rcases erc20BalanceSlot_fst ext db token owner with
      ⟨same, -⟩ | ⟨slot, found, missing, recorded⟩
    · rw [same]
    · rw [recorded]
      unfold balanceSlot
      simp [recordBalanceSlot, missing, found]

theorem storage_erc20BalanceOf (ext : Externals) (db : HybridDb)
    (token owner address : Address) (index : U256) :
    storage ext (erc20BalanceOf ext db token owner).1 address index =
      storage ext db address index := by
  apply storage_congr ext (sameInfo_erc20BalanceOf ext db token owner).pinnedBlock
  rw [account_erc20BalanceOf]
  split
  case isTrue same => rw [same]
  case isFalse => rfl

/-- A second read of an owner returns the same balance. -/
theorem tokenBalance_erc20BalanceOf (ext : Externals) (db : HybridDb)
    (token owner : Address) :
    tokenBalance ext (erc20BalanceOf ext db token owner).1 token owner =
      tokenBalance ext db token owner := by
  by_cases records : FindsNewSlot ext db token owner
  · obtain ⟨missing, slot, found⟩ := records
    have lookup : balanceSlot ext db token owner = .ok slot := by
      unfold balanceSlot
      rw [missing, found]
    rw [tokenBalance_eq, tokenBalance_eq, balanceSlot_erc20BalanceOf, lookup,
      account_erc20BalanceOf, if_pos rfl]
    dsimp only
    rw [storage_erc20BalanceOf]
  · have same : (erc20BalanceOf ext db token owner).1 = db := by
      rw [erc20BalanceOf_fst, (erc20BalanceSlot_fst_eq_iff ext db token owner).mpr records,
        ite_self]
    rw [same]

/-- The slot that a write of a balance uses. -/
def writtenSlot (ext : Externals) (db : HybridDb) (token owner : Address) : U256 :=
  (balanceSlot ext db token owner).toOption.getD 0

theorem setErc20Balance_snd (ext : Externals) (db : HybridDb)
    (token owner : Address) (balance : U256) :
    (setErc20Balance ext db token owner balance).2 =
      writtenSlot ext db token owner := by
  unfold setErc20Balance writtenSlot
  dsimp only
  rw [erc20BalanceSlot_snd, balanceSlot_erc20BalanceOf]

/-- The total supply after a write of a balance. -/
def writtenTotal (ext : Externals) (db : HybridDb) (token owner : Address)
    (balance : U256) : U256 :=
  let mappingSlot := erc20MappingSlot ext owner (writtenSlot ext db token owner)
  let total :=
    if mappingSlot = 1 then balance else (storage ext db token 1).toOption.getD 0
  nextTotalSupply total ((tokenBalance ext db token owner).toOption.getD 0) balance

/-- A write changes the mapping slot, the slot of the total supply, the recorded slot
and the override of the owner. -/
theorem account_setErc20Balance (ext : Externals) (db : HybridDb)
    (token owner other : Address) (balance : U256) :
    (setErc20Balance ext db token owner balance).1.account other =
      if other = token then
        { db.account token with
          erc20BalanceSlot := some (writtenSlot ext db token owner)
          erc20Balances := (db.account token).erc20Balances.insert owner balance
          storage := ((db.account token).storage.insert
            (erc20MappingSlot ext owner (writtenSlot ext db token owner))
            balance).insert 1 (writtenTotal ext db token owner balance) }
      else db.account other := by
  have slot := setErc20Balance_snd ext db token owner balance
  have total : (storage ext
      ((erc20BalanceSlot ext (erc20BalanceOf ext db token owner).1 token owner).1.setStorage
        token (erc20MappingSlot ext owner (writtenSlot ext db token owner)) balance)
      token 1).toOption.getD 0 =
      if erc20MappingSlot ext owner (writtenSlot ext db token owner) = 1 then balance
      else (storage ext db token 1).toOption.getD 0 := by
    rw [storage_setStorage]
    by_cases first : erc20MappingSlot ext owner (writtenSlot ext db token owner) = 1
    · simp [first, Except.toOption]
    · rw [if_neg (fun both => first both.2.symm), if_neg first]
      congr 2
      have same := (sameInfo_erc20BalanceOf ext db token owner).trans
        (sameInfo_erc20BalanceSlot ext _ token owner)
      exact storage_congr ext same.pinnedBlock
        (by simp [account_erc20BalanceSlot, account_erc20BalanceOf])
  unfold setErc20Balance at slot ⊢
  dsimp only at slot ⊢
  rw [slot, total]
  by_cases same : other = token
  · simp [same, account_erc20BalanceSlot, account_erc20BalanceOf]
    rfl
  · simp [same, account_erc20BalanceSlot, account_erc20BalanceOf]

end HybridDb

end Roko
