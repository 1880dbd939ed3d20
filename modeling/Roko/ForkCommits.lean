import Roko.ForkTokenDiffs

/-!
# Carrying an execution of the EVM over

The committed changes are turned into a diff by comparing the entries before and
after.  Applied to the entries before, it gives the entries after, unless an entry was
removed: a destroyed account keeps its overrides and a recreated one its old slots.
-/

namespace Roko

open HybridDb

/-- The entry after extends the entry before, with hashes of the codes it sets. -/
structure EntryGrows (ext : Externals) (before after : DirtyAccount) : Prop where
  balance : after.balance.isSome = true
  nonce : after.nonce.isSome = true
  code : after.code = none → before.code = none
  codeHash : after.codeHash =
    if after.code = before.code then before.codeHash
    else after.code.map ext.keccak256
  erc20BalanceSlot : after.erc20BalanceSlot = before.erc20BalanceSlot
  erc20Balances : after.erc20Balances = before.erc20Balances
  storage : ∀ slot : U256, before.storage[slot]?.isSome = true →
    after.storage[slot]?.isSome = true

/-- The entry after a diff that may say nothing about it. -/
def applyChange (ext : Externals) (before : Option DirtyAccount)
    (diff : Option AccountDiff) : Option DirtyAccount :=
  match diff with
  | none => before
  | some change => some ((before.getD {}).applyDiff ext change)

theorem writtenStorage_or (before : Option DirtyAccount) (after : DirtyAccount)
    (slot : U256)
    (kept : (before.getD {}).storage[slot]?.isSome = true →
      after.storage[slot]?.isSome = true) :
    (after.storage.filter fun slot value =>
        before.bind (·.storage[slot]?) ≠ some value)[slot]?.or
      (before.getD {}).storage[slot]? = after.storage[slot]? := by
  have old : (before.getD {}).storage[slot]? = before.bind (·.storage[slot]?) := by
    cases before with
    | none => exact Std.ExtTreeMap.getElem?_empty
    | some entry => rfl
  rw [old] at kept ⊢
  rw [Std.ExtTreeMap.getElem?_filter']
  cases found : after.storage[slot]? with
  | none =>
      rw [found] at kept
      cases known : before.bind (·.storage[slot]?) with
      | none => rfl
      | some value =>
          rw [known] at kept
          exact absurd (kept rfl) (by simp)
  | some value =>
      by_cases same : before.bind (·.storage[slot]?) = some value
      · simp [Option.filter, same]
      · simp [Option.filter, same]

theorem changed_or {Value : Type*} [DecidableEq Value] {before after : Option Value}
    (kept : after = none → before = none) :
    (if after ≠ before then after else none).or before = after := by
  by_cases same : after = before
  · simp [same]
  · rw [if_pos same]
    cases after with
    | none => rw [kept rfl, Option.none_or]
    | some value => rfl

theorem eq_of_isSome_changed {Value : Type*} [DecidableEq Value]
    {before after : Option Value} (kept : after = none → before = none)
    (unchanged : (if after ≠ before then after else none).isSome = false) :
    after = before := by
  by_contra different
  rw [if_pos different] at unchanged
  cases after with
  | none => exact different (kept rfl).symm
  | some value => cases unchanged

theorem eq_of_unchanged {ext : Externals} {entry after : DirtyAccount}
    (grows : EntryGrows ext entry after)
    (balance : after.balance = entry.balance) (nonce : after.nonce = entry.nonce)
    (code : after.code = entry.code)
    (storage : after.storage.filter (fun slot value =>
      (some entry).bind (·.storage[slot]?) ≠ some value) = ∅) : entry = after := by
  have codeHash := grows.codeHash
  rw [if_pos code] at codeHash
  have slots : after.storage = entry.storage := by
    apply Std.ExtTreeMap.ext_getElem?
    intro slot
    have either := writtenStorage_or (some entry) after slot (grows.storage slot)
    rw [storage, Std.ExtTreeMap.getElem?_empty, Option.none_or] at either
    exact either.symm
  cases entry
  cases after
  simp only at balance nonce code codeHash slots
  have recorded := grows.erc20BalanceSlot
  have overrides := grows.erc20Balances
  simp only at recorded overrides
  rw [balance, nonce, code, codeHash, slots, recorded, overrides]

/-- The diff of an entry that did not change says nothing. -/
theorem accountDiff_self (entry : DirtyAccount) :
    accountDiffFromDirtyChange (some entry) entry = none := by
  have unwritten : entry.storage.filter (fun slot value =>
      (some entry).bind (·.storage[slot]?) ≠ some value) = ∅ := by
    apply Std.ExtTreeMap.ext_getElem?
    intro slot
    rw [Std.ExtTreeMap.getElem?_filter', Std.ExtTreeMap.getElem?_empty]
    cases found : entry.storage[slot]? with
    | none => rfl
    | some value => simp [Option.filter, found]
  unfold accountDiffFromDirtyChange
  dsimp only
  rw [unwritten]
  simp

section Grown

variable {ext : Externals} {entry after : DirtyAccount} (grows : EntryGrows ext entry after)

include grows

theorem EntryGrows.keepsBalance (missing : after.balance = none) : entry.balance = none := by
  have set := grows.balance
  rw [missing] at set
  cases set

theorem EntryGrows.keepsNonce (missing : after.nonce = none) : entry.nonce = none := by
  have set := grows.nonce
  rw [missing] at set
  cases set

/-- The hash of a code that changed, or else the old one. -/
theorem EntryGrows.changedCodeHash :
    (Option.map ext.keccak256 (if ¬ after.code = entry.code then after.code else none)).or
      entry.codeHash = after.codeHash := by
  rw [grows.codeHash]
  by_cases same : after.code = entry.code
  · simp [same]
  · rw [if_pos same, if_neg same]
    cases set : after.code with
    | none => exact absurd (set.trans (grows.code set).symm) same
    | some code => rfl

end Grown

theorem storage_applyWritten {ext : Externals} {before : Option DirtyAccount}
    {after : DirtyAccount} (grows : EntryGrows ext (before.getD {}) after) :
    ((before.getD {}).applyDiff ext
      { storageWritten := after.storage.filter fun slot value =>
          before.bind (·.storage[slot]?) ≠ some value }).storage = after.storage := by
  apply Std.ExtTreeMap.ext_getElem?
  intro slot
  rw [DirtyAccount.storage_applyDiff]
  exact writtenStorage_or before after slot (grows.storage slot)

/-- Applying the diff of an entry gives the entry. -/
theorem applyChange_accountDiff {ext : Externals} {before : Option DirtyAccount}
    {after : DirtyAccount} (grows : EntryGrows ext (before.getD {}) after) :
    applyChange ext before (accountDiffFromDirtyChange before after) = some after := by
  have balance : before.bind (·.balance) = (before.getD {}).balance := by
    cases before <;> rfl
  have nonce : before.bind (·.nonce) = (before.getD {}).nonce := by cases before <;> rfl
  have code : before.bind (·.code) = (before.getD {}).code := by cases before <;> rfl
  unfold accountDiffFromDirtyChange
  dsimp only
  rw [balance, nonce, code]
  rw [← ite_not (after.code = (before.getD {}).code)]
  have newBalance := changed_or grows.keepsBalance
  have newNonce := changed_or grows.keepsNonce
  have newCode := changed_or grows.code
  have sameBalance := eq_of_isSome_changed grows.keepsBalance
  have sameNonce := eq_of_isSome_changed grows.keepsNonce
  have sameCode := eq_of_isSome_changed grows.code
  have codeHash := grows.changedCodeHash
  generalize (if after.balance ≠ (before.getD {}).balance then after.balance else none) =
    changedBalance at *
  generalize (if after.nonce ≠ (before.getD {}).nonce then after.nonce else none) =
    changedNonce at *
  generalize (if ¬ after.code = (before.getD {}).code then after.code else none) =
    changedCode at *
  split
  case isTrue unchanged =>
    simp only [Bool.and_eq_true, Bool.not_eq_true', Bool.or_eq_false_iff] at unchanged
    obtain ⟨storage, ⟨unchangedBalance, unchangedNonce⟩, unchangedCode⟩ := unchanged
    cases before with
    | none =>
        have set := grows.balance
        rw [sameBalance unchangedBalance] at set
        cases set
    | some entry =>
        have same := eq_of_unchanged grows (sameBalance unchangedBalance)
          (sameNonce unchangedNonce) (sameCode unchangedCode)
          (Std.ExtTreeMap.isEmpty_iff.mp storage)
        exact congrArg some same
  case isFalse =>
    have slots := storage_applyWritten grows
    unfold applyChange DirtyAccount.applyDiff at *
    dsimp only at slots ⊢
    rw [slots, newBalance, newNonce, newCode, codeHash, ← grows.erc20BalanceSlot,
      ← grows.erc20Balances]

namespace EvmAccount

/-- The account was touched and is still there. -/
def Survives (account : EvmAccount) : Prop :=
  account.touched = true ∧ account.selfdestructed = false

def Destroyed (account : EvmAccount) : Prop :=
  account.touched = true ∧ account.selfdestructed = true

/-- The value that a slot was changed to. -/
def changedTo (account : EvmAccount) (slot : U256) : Option U256 :=
  account.storage[slot]?.bind fun written =>
    if written.original ≠ written.present then some written.present else none

end EvmAccount

namespace HybridDb

theorem getElem?_of_present (db : HybridDb) (address : Address) :
    db.dirty.accounts[address]? =
      if db.present address then some (db.account address) else none := by
  unfold present account DirtyStore.account
  cases db.dirty.accounts[address]? <;> rfl

def writeSlot (storage : Std.ExtTreeMap U256 U256) (entry : U256 × EvmSlot) :
    Std.ExtTreeMap U256 U256 :=
  if entry.2.original ≠ entry.2.present then
    storage.insert entry.1 entry.2.present
  else storage

/-- The slots of an account after its changed slots are written. -/
theorem getElem?_writtenStorage (account : EvmAccount)
    (storage : Std.ExtTreeMap U256 U256) (slot : U256) :
    (account.storage.toList.foldl writeSlot storage)[slot]? =
      (account.changedTo slot).or storage[slot]? := by
  have steps : KeyedFold.OwnKey (fun (storage : Std.ExtTreeMap U256 U256) slot =>
      storage[slot]?) writeSlot fun _ (written : EvmSlot) before =>
        if written.original ≠ written.present then some written.present else before := by
    constructor
    · intro storage entry
      unfold writeSlot
      split
      case isTrue => rw [getElem?_insert, if_pos rfl]
      case isFalse => rfl
    · intro storage entry slot other
      unfold writeSlot
      split
      case isTrue => rw [getElem?_insert, if_neg other]
      case isFalse => rfl
  refine (KeyedFold.look_foldl_toList steps account.storage storage slot).trans ?_
  unfold EvmAccount.changedTo
  cases account.storage[slot]? with
  | none => rfl
  | some written =>
      dsimp only [Option.bind_some]
      split <;> rfl

/-- The entry after the fields of a committed account are written. -/
def writtenEntry (ext : Externals) (entry : DirtyAccount) (account : EvmAccount) :
    DirtyAccount :=
  let code := account.code.filter fun code => !code.isEmpty
  { entry with
    balance := some account.balance
    nonce := some account.nonce
    code := code.or entry.code
    codeHash := (code.map ext.keccak256).or entry.codeHash
    storage := account.storage.toList.foldl writeSlot entry.storage }

/-- The slots of an account are written into the one entry. -/
theorem account_writeSlots (address other : Address) (entries : List (U256 × EvmSlot))
    (db : HybridDb) :
    (entries.foldl (fun db entry =>
        if entry.2.original ≠ entry.2.present then
          db.setStorage address entry.1 entry.2.present
        else db) db).account other =
      if other = address then
        { db.account address with
          storage := entries.foldl writeSlot (db.account address).storage }
      else db.account other := by
  induction entries generalizing db with
  | nil =>
      by_cases same : other = address <;> simp [same]
  | cons entry entries ih =>
      have step : ∀ key, (if entry.2.original ≠ entry.2.present then
            db.setStorage address entry.1 entry.2.present else db).account key =
          if key = address then
            { db.account address with
              storage := writeSlot (db.account address).storage entry }
          else db.account key := by
        intro key
        unfold writeSlot
        by_cases changed : entry.2.original ≠ entry.2.present
        · rw [if_pos changed, if_pos changed, account_setStorage]
        · rw [if_neg changed, if_neg changed]
          by_cases same : key = address <;> simp [same]
      rw [List.foldl_cons, ih, step, step, List.foldl_cons]
      by_cases same : other = address
      · rw [if_pos same, if_pos same, if_pos rfl]
      · rw [if_neg same, if_neg same, if_neg same]

theorem present_writeSlots (address other : Address) (entries : List (U256 × EvmSlot))
    {db : HybridDb} (entry : db.present address = true) :
    (entries.foldl (fun db entry =>
        if entry.2.original ≠ entry.2.present then
          db.setStorage address entry.1 entry.2.present
        else db) db).present other = db.present other := by
  induction entries generalizing db with
  | nil => rfl
  | cons slot entries ih =>
      rw [List.foldl_cons]
      split
      case isTrue =>
        have kept : (db.setStorage address slot.1 slot.2.present).present address = true := by
          simp
        rw [ih kept, present_setStorage]
        by_cases same : other = address
        · simp [same, entry]
        · simp [same]
      case isFalse => exact ih entry

theorem getElem?_writeAccount (ext : Externals) (db : HybridDb)
    (address other : Address) (account : EvmAccount) :
    (writeAccount ext db address account).dirty.accounts[other]? =
      if other = address then
        some (writtenEntry ext (db.account address) account)
      else db.dirty.accounts[other]? := by
  rw [getElem?_of_present, getElem?_of_present db other]
  unfold writeAccount writtenEntry setCode setBalance setNonce
  dsimp only
  rw [account_writeSlots]
  cases account.code with
  | none =>
      rw [present_writeSlots address other _ (by simp)]
      by_cases same : other = address <;> simp [same]
  | some code =>
      by_cases empty : code.isEmpty
      · simp only [empty, if_true]
        rw [present_writeSlots address other _ (by simp)]
        by_cases same : other = address <;> simp [same, Option.filter, empty]
      · simp only [empty, Bool.false_eq_true, if_false]
        rw [present_writeSlots address other _ (by simp)]
        by_cases same : other = address <;> simp [same, Option.filter, empty]

theorem getElem?_removeAccount (db : HybridDb) (address other : Address) :
    (db.removeAccount address).dirty.accounts[other]? =
      if other = address then none else db.dirty.accounts[other]? := by
  unfold removeAccount
  cases found : db.dirty.accounts[address]? with
  | none =>
      by_cases same : other = address
      · rw [if_pos same, same, found]
      · rw [if_neg same]
  | some old =>
      dsimp only
      exact getElem?_erase db.dirty.accounts address other

/-- The entry of an account after its change is committed. -/
def committedEntry (ext : Externals) (account : EvmAccount)
    (before : Option DirtyAccount) : Option DirtyAccount :=
  if !account.touched then before
  else if account.selfdestructed then none
  else if account.created then some (writtenEntry ext {} account)
  else some (writtenEntry ext (before.getD {}) account)

theorem getElem?_commitAccount (ext : Externals) (db : HybridDb)
    (entry : Address × EvmAccount) (address : Address) :
    (commitAccount ext db entry).dirty.accounts[address]? =
      if address = entry.1 then committedEntry ext entry.2 db.dirty.accounts[address]?
      else db.dirty.accounts[address]? := by
  have removed : (db.removeAccount entry.1).account entry.1 = {} := by
    unfold account DirtyStore.account
    rw [getElem?_removeAccount, if_pos rfl]
    rfl
  unfold commitAccount committedEntry
  by_cases own : address = entry.1
  · subst own
    rw [if_pos rfl]
    split
    case isTrue => rfl
    case isFalse =>
      split
      case isTrue => rw [getElem?_removeAccount, if_pos rfl]
      case isFalse =>
        split
        case isTrue => rw [getElem?_writeAccount, if_pos rfl, removed]
        case isFalse => rw [getElem?_writeAccount, if_pos rfl]; rfl
  · rw [if_neg own]
    split
    case isTrue => rfl
    case isFalse =>
      split
      case isTrue => rw [getElem?_removeAccount, if_neg own]
      case isFalse =>
        split
        case isTrue =>
          rw [getElem?_writeAccount, if_neg own, getElem?_removeAccount, if_neg own]
        case isFalse => rw [getElem?_writeAccount, if_neg own]

theorem getElem?_commit (ext : Externals) (db : HybridDb)
    (changes : Std.ExtTreeMap Address EvmAccount) (address : Address) :
    (commit ext db changes).dirty.accounts[address]? =
      match changes[address]? with
      | none => db.dirty.accounts[address]?
      | some account => committedEntry ext account db.dirty.accounts[address]? := by
  have steps : KeyedFold.OwnKey (fun (db : HybridDb) address => db.dirty.accounts[address]?)
      (commitAccount ext) fun _ account before => committedEntry ext account before := by
    constructor
    · intro db entry
      rw [getElem?_commitAccount, if_pos rfl]
    · intro db entry address other
      rw [getElem?_commitAccount, if_neg other]
  unfold commit
  refine (KeyedFold.look_foldl_toList steps changes db address).trans ?_
  cases changes[address]? <;> rfl

/-- No entry is removed, and an override that is the committed code has its hash. -/
structure CommitCarried (ext : Externals) (db : HybridDb)
    (changes : Std.ExtTreeMap Address EvmAccount) : Prop where
  kept : ∀ address account, changes[address]? = some account →
    account.touched = true → account.selfdestructed = true ∨ account.created = true →
      db.present address = false
  hashed : ∀ address account code, changes[address]? = some account →
    account.touched = true → account.code = some code → code ≠ [] →
      (db.account address).code = some code →
        (db.account address).codeHash = some (ext.keccak256 code)

theorem isSome_foldl_writeSlot (entries : List (U256 × EvmSlot)) {slot : U256}
    {storage : Std.ExtTreeMap U256 U256} (stored : storage[slot]?.isSome = true) :
    (entries.foldl writeSlot storage)[slot]?.isSome = true := by
  induction entries generalizing storage with
  | nil => exact stored
  | cons entry entries ih =>
      apply ih
      unfold writeSlot
      split
      case isTrue =>
        rw [getElem?_insert]
        split
        case isTrue => rfl
        case isFalse => exact stored
      case isFalse => exact stored

theorem entryGrows_writtenEntry {ext : Externals} {entry : DirtyAccount}
    {account : EvmAccount}
    (hashed : ∀ code, account.code = some code → code ≠ [] → entry.code = some code →
      entry.codeHash = some (ext.keccak256 code)) :
    EntryGrows ext entry (writtenEntry ext entry account) := by
  refine ⟨rfl, rfl, ?_, ?_, rfl, rfl, fun slot => isSome_foldl_writeSlot _⟩
  · intro missing
    exact (Option.or_eq_none_iff.mp missing).2
  · have codeIs : (writtenEntry ext entry account).code =
        (account.code.filter fun code => !code.isEmpty).or entry.code := rfl
    have hashIs : (writtenEntry ext entry account).codeHash =
        ((account.code.filter fun code => !code.isEmpty).map ext.keccak256).or
          entry.codeHash := rfl
    rw [codeIs, hashIs]
    cases set : account.code.filter fun code => !code.isEmpty with
    | none => simp
    | some code =>
        obtain ⟨is, filled⟩ := Option.filter_eq_some_iff.mp set
        rw [Option.some_or, Option.map_some, Option.some_or]
        by_cases same : some code = entry.code
        · rw [if_pos same]
          exact (hashed code is (by simpa using filled) same.symm).symm
        · rw [if_neg same]

/-- What the diff says about an account leads from its entry before to its entry after
the commit. -/
theorem applyChange_committedEntry {ext : Externals} {before : Option DirtyAccount}
    {account : EvmAccount}
    (kept : account.touched = true →
      account.selfdestructed = true ∨ account.created = true → before = none)
    (hashed : ∀ code, account.touched = true → account.code = some code → code ≠ [] →
      (before.getD {}).code = some code →
        (before.getD {}).codeHash = some (ext.keccak256 code)) :
    applyChange ext before ((committedEntry ext account before).bind
        (accountDiffFromDirtyChange before)) =
      committedEntry ext account before := by
  have diffOf : ∀ after, EntryGrows ext (before.getD {}) after →
      applyChange ext before ((some after).bind (accountDiffFromDirtyChange before)) =
        some after := fun after grows => applyChange_accountDiff grows
  unfold committedEntry
  by_cases touched : account.touched = true
  · simp only [touched, Bool.not_true, Bool.false_eq_true, if_false]
    by_cases destroyed : account.selfdestructed = true
    · simp only [destroyed, if_true, Option.bind_none]
      exact kept touched (Or.inl destroyed)
    · simp only [destroyed]
      have grows := entryGrows_writtenEntry fun code => hashed code touched
      by_cases created : account.created = true
      · have empty : before.getD {} = {} := by rw [kept touched (Or.inr created)]; rfl
        rw [empty] at grows diffOf
        simp only [created, if_true]
        exact diffOf _ grows
      · simp only [created]
        exact diffOf _ grows
  · simp only [touched, Bool.not_false, if_true]
    cases before with
    | none => rfl
    | some entry =>
        rw [Option.bind_some, accountDiff_self]
        rfl

theorem pinnedBlock_writeAccount (ext : Externals) (db : HybridDb) (address : Address)
    (account : EvmAccount) :
    (writeAccount ext db address account).pinnedBlock = db.pinnedBlock := by
  have slots : ∀ (entries : List (U256 × EvmSlot)) (db : HybridDb),
      (entries.foldl (fun db entry =>
        if entry.2.original ≠ entry.2.present then
          db.setStorage address entry.1 entry.2.present
        else db) db).pinnedBlock = db.pinnedBlock := by
    intro entries
    induction entries with
    | nil => exact fun _ => rfl
    | cons entry entries ih =>
        intro db
        rw [List.foldl_cons, ih]
        split <;> rfl
  unfold writeAccount
  dsimp only
  rw [slots]
  cases account.code with
  | none => rfl
  | some code => dsimp only; split <;> rfl

theorem pinnedBlock_commit (ext : Externals) (db : HybridDb)
    (changes : Std.ExtTreeMap Address EvmAccount) :
    (commit ext db changes).pinnedBlock = db.pinnedBlock := by
  have removed : ∀ (db : HybridDb) (address : Address),
      (db.removeAccount address).pinnedBlock = db.pinnedBlock := by
    intro db address
    unfold removeAccount
    split <;> rfl
  unfold commit
  induction changes.toList generalizing db with
  | nil => rfl
  | cons entry entries ih =>
      rw [List.foldl_cons, ih]
      unfold commitAccount
      split
      case isTrue => rfl
      case isFalse =>
        split
        case isTrue => exact removed db entry.1
        case isFalse =>
          split
          case isTrue =>
            exact (pinnedBlock_writeAccount ext _ _ _).trans (removed db entry.1)
          case isFalse => exact pinnedBlock_writeAccount ext _ _ _

theorem readsAgree_commit (ext : Externals) {db : HybridDb}
    {changes : Std.ExtTreeMap Address EvmAccount}
    (carried : CommitCarried ext db changes) {diff : StateDiff}
    (compared : diff.accounts = (commit ext db changes).dirty.accounts.filterMap
      fun address account =>
        accountDiffFromDirtyChange db.dirty.accounts[address]? account) :
    ReadsAgree ext (db.applyStateDiff ext diff) (commit ext db changes) := by
  have entries : ∀ address : Address, (db.applyStateDiff ext diff).dirty.accounts[address]? =
      (commit ext db changes).dirty.accounts[address]? := by
    intro address
    have change : (db.applyStateDiff ext diff).dirty.accounts[address]? =
        applyChange ext db.dirty.accounts[address]? diff.accounts[address]? := by
      unfold applyStateDiff applyChange
      rw [DirtyStore.getElem?_applyStateDiff]
      rfl
    rw [change, compared, Std.ExtTreeMap.getElem?_filterMap', getElem?_commit]
    cases changed : changes[address]? with
    | none =>
        dsimp only
        cases db.dirty.accounts[address]? with
        | none => rfl
        | some entry =>
            rw [Option.bind_some, accountDiff_self]
            rfl
    | some account =>
        apply applyChange_committedEntry
        · intro touched gone
          have absent := carried.kept address account changed touched gone
          exact Option.isNone_iff_eq_none.mp (Option.isSome_eq_false_iff.mp absent)
        · exact fun code touched => carried.hashed address account code changed touched
  have pinned : (db.applyStateDiff ext diff).pinnedBlock =
      (commit ext db changes).pinnedBlock := (pinnedBlock_commit ext db changes).symm
  have same : ∀ address, (db.applyStateDiff ext diff).account address =
      (commit ext db changes).account address := by
    intro address
    unfold account DirtyStore.account
    rw [entries address]
  rw [readsAgree_iff_basic pinned fun address => by rw [same]]
  intro address
  apply basic_congr pinned
  · unfold present
    rw [entries address]
  · rw [same]

end HybridDb

namespace EvmExecutor

variable {ext : Externals} {state : ForkState} {sender : Address}

/-- Whatever the EVM returns to commit is carried over. -/
def EvmCarried (ext : Externals) (state : ForkState) (sender : Address)
    (target : Option Address) (data : Bytes) (value : U256) (gasLimit : UInt64) :
    Prop :=
  ∀ found result changes, basic ext state.db sender = .ok found →
    ext.transact
        (evmCall state sender target data value gasLimit (found.getD {}).nonce)
        state.db = .ok (result, changes) →
      CommitCarried ext state.db changes

/-- When the diff of a transaction has everything that a read shows. -/
def DiffCarries (ext : Externals) (state : ForkState) (sender : Address)
    (recipient : Option Address) (data : Bytes) (value : U256)
    (gasLimit : UInt64) : Prop :=
  if data.isEmpty then
    sender ≠ recipient.getD burnAddress ∨ NonceSettled ext state.db sender
  else
    match recipient with
    | none => EvmCarried ext state sender none data value gasLimit
    | some target =>
        match (transactionSelector data).filter isProtocolSelector with
        | some selector =>
            isProtocolMintSelector selector = false ∧
              (sender ≠ target ∨
                AlreadyMarked ext state.db sender target selector data)
        | none =>
            match decodeErc20Transfer data with
            | some (receiver, amount) =>
                TokenCarried ext state.db sender target receiver amount
            | none => EvmCarried ext state sender (some target) data value gasLimit

/-- A plain transfer, or a call that is simulated by the three markers alone. -/
def WritesDirectly (recipient : Option Address) (data : Bytes) : Prop :=
  data.isEmpty = true ∨ ∃ target selector, recipient = some target ∧
    (transactionSelector data).filter isProtocolSelector = some selector ∧
    isProtocolMintSelector selector = false

theorem finalizeTransaction_completes {final executed : ForkState}
    {recipient : Option Address} {value : U256} {input : Bytes}
    {gasLimit nonce : UInt64} {diff other : StateDiff} {result : ExecutionResult}
    (completes : finalizeTransaction ext final sender recipient value input gasLimit
      nonce diff = (executed, .ok (result, other))) :
    executed.db = final.db ∧ other = diff := by
  have db := finalizeTransaction_db ext final sender recipient value input gasLimit nonce
    diff
  have outcome := congrArg Prod.snd completes
  rw [completes] at db
  exact ⟨db, (congrArg Prod.snd (Except.ok.inj outcome)).symm⟩

theorem readsAgree_value_iff {recipient : Option Address} {value : U256}
    {gasLimit : UInt64} {executed : ForkState} {result : ExecutionResult}
    {diff : StateDiff}
    (completes : transactValueTransfer ext state sender recipient value gasLimit =
      (executed, .ok (result, diff))) :
    ReadsAgree ext (state.db.applyStateDiff ext diff) executed.db ↔
      sender ≠ recipient.getD burnAddress ∨ NonceSettled ext state.db sender := by
  rcases valueTransfer_cases ext state sender recipient value gasLimit with
    ⟨failure, stopped⟩ | ⟨senderFound, targetFound, covers, -, finished⟩
  · rw [stopped] at completes
    cases completes
  · rw [finished] at completes
    obtain ⟨db, rfl⟩ := finalizeTransaction_completes completes
    rw [db]
    exact readsAgree_valueTransfer_iff state.db (info_of_basic covers.read) _ _ gasLimit

theorem readsAgree_evm {target : Option Address} {data : Bytes} {value : U256}
    {gasLimit : UInt64} {output : EvmResult → Bytes} {executed : ForkState}
    {result : ExecutionResult} {diff : StateDiff}
    (completes : transactEvm ext state sender target data value gasLimit output =
      (executed, .ok (result, diff)))
    (carried : EvmCarried ext state sender target data value gasLimit) :
    ReadsAgree ext (state.db.applyStateDiff ext diff) executed.db := by
  rcases transactEvm_cases ext state sender target data value gasLimit output with
    ⟨failure, stopped, -⟩ |
    ⟨found, covers, -, ⟨failure, -, emptied⟩ | ⟨outcome, changes, ran, finished⟩⟩
  · rw [stopped] at completes
    cases completes
  · rw [emptied] at completes
    cases completes
  · rw [finished] at completes
    obtain ⟨db, rfl⟩ := finalizeTransaction_completes completes
    rw [db]
    exact readsAgree_commit ext (carried found outcome changes covers.read ran) rfl

/-- A simulated call that completes has counted the sender's nonce. -/
theorem finishSimulated_completes {contract : Address} {input : Bytes}
    {gasLimit : UInt64} {written diff : StateDiff} {executed : ForkState}
    {result : ExecutionResult}
    (completes : finishSimulated ext state sender contract input gasLimit written =
      (executed, .ok (result, diff))) :
    ∃ nextNonce, executed.db = state.db.setNonce sender nextNonce ∧
      diff = { written with
        accounts := written.accounts.insert sender
          { infoChanged := true, newNonce := some nextNonce } } := by
  rcases finishSimulated_cases ext state sender contract input gasLimit written with
    ⟨failure, -, stopped⟩ | ⟨found, -, finished⟩
  · rw [stopped] at completes
    cases completes
  · rw [finished] at completes
    exact ⟨_, finalizeTransaction_completes completes⟩

theorem readsAgree_token {token recipient : Address} {amount : U256}
    {gasLimit : UInt64} {input : Bytes} {executed : ForkState}
    {result : ExecutionResult} {diff : StateDiff}
    (completes : transactErc20Transfer ext state sender token recipient amount gasLimit
      input = (executed, .ok (result, diff)))
    (apart : ∀ slot, state.db.knownSlot token = some slot → MappingApart ext slot)
    (carried : TokenCarried ext state.db sender token recipient amount) :
    ReadsAgree ext (state.db.applyStateDiff ext diff) executed.db := by
  rcases erc20Transfer_cases ext state sender token recipient amount gasLimit input with
    ⟨db, failure, stopped⟩ | ⟨senderBalance, found, senderRead, -, foundRead, finished⟩
  · rw [stopped] at completes
    cases completes
  · rw [finished] at completes
    obtain ⟨nextNonce, db, rfl⟩ := finishSimulated_completes completes
    rw [db]
    exact readsAgree_tokenTransfer nextNonce gasLimit carried apart senderRead foundRead

theorem readsAgree_protocol_iff {contract : Address} {selector : Bytes}
    {gasLimit : UInt64} {input : Bytes} {executed : ForkState}
    {result : ExecutionResult} {diff : StateDiff}
    (unminted : isProtocolMintSelector selector = false)
    (completes : transactProtocolTouch ext state sender contract selector gasLimit
      input = (executed, .ok (result, diff))) :
    ReadsAgree ext (state.db.applyStateDiff ext diff) executed.db ↔
      sender ≠ contract ∨
        AlreadyMarked ext state.db sender contract selector input := by
  unfold transactProtocolTouch at completes
  obtain ⟨nextNonce, db, rfl⟩ := finishSimulated_completes completes
  rw [db]
  exact readsAgree_touch_iff state.db unminted (simulatedDiff_insert sender nextNonce rfl)

end EvmExecutor

end Roko
