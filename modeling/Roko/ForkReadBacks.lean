import Roko.ForkCaches
import Roko.ForkCommits

/-!
# Reading back what was committed

A commit writes the surviving accounts into the write layer and drops the entries of
the destroyed ones.  A dropped entry uncovers what the read cache and the upstream node
hold below it, so the committed state is read back exactly when they hold what the
entry has to be replaced by.
-/

namespace Roko

open HybridDb

namespace AccountInfo

/-- The code, which counts as empty when it is missing. -/
def shownCode (info : AccountInfo) : Bytecode :=
  info.code.getD []

/-- Nothing is there: no balance, no nonce and no code. -/
def IsEmpty (info : AccountInfo) : Prop :=
  info.balance = 0 ∧ info.nonce = 0 ∧ info.shownCode = []

end AccountInfo

namespace CachedDb

variable {ext : NodeExternals} {now : Nat} {cached : CachedDb}
  {changes : Std.ExtTreeMap Address EvmAccount}

/-- The codes that a commit writes, with their hashes. -/
def writtenCodes (ext : NodeExternals) (changes : Std.ExtTreeMap Address EvmAccount) :
    List (B256 × Bytecode) :=
  changes.toList.filterMap fun entry =>
    (writtenCode entry.2).map fun code => (ext.keccak256 code, code)

theorem commit_eq (ext : NodeExternals) (cached : CachedDb)
    (changes : Std.ExtTreeMap Address EvmAccount) :
    cached.commit ext changes =
      { db := HybridDb.commit ext.toExternals cached.db changes
        readCache := cached.readCache
        bytecodeCache := cached.bytecodeCache.putAll (writtenCodes ext changes) } := by
  unfold commit HybridDb.commit writtenCodes RecencyCache.putAll
  induction changes.toList generalizing cached with
  | nil => rfl
  | cons entry entries ih =>
      rw [List.foldl_cons, List.foldl_cons, ih, List.filterMap_cons]
      unfold commitAccount
      cases writtenCode entry.2 with
      | none => rfl
      | some code => rfl

theorem accountBelow_commit (address : Address) :
    (cached.commit ext changes).accountBelow ext now address =
      cached.accountBelow ext now address := by
  rw [commit_eq]
  unfold accountBelow HybridDb.resolveBlock
  dsimp only
  rw [pinnedBlock_commit]

theorem storageBelow_commit (address : Address) (index : U256) :
    (cached.commit ext changes).storageBelow ext now address index =
      cached.storageBelow ext now address index := by
  rw [commit_eq]
  unfold storageBelow HybridDb.resolveBlock
  dsimp only
  rw [pinnedBlock_commit]

/-- The entry of an account after a commit that changes it. -/
theorem getElem?_commit (ext : NodeExternals) (cached : CachedDb) {address : Address}
    {account : EvmAccount}
    (changed : changes[address]? = some account) :
    (cached.commit ext changes).db.dirty.accounts[address]? =
      committedEntry ext.toExternals account cached.db.dirty.accounts[address]? := by
  rw [commit_eq]
  dsimp only
  rw [HybridDb.getElem?_commit, changed]

theorem getElem?_commit_untouched (ext : NodeExternals) (cached : CachedDb) {address : Address}
    (untouched : ∀ account, changes[address]? = some account → account.touched = false) :
    (cached.commit ext changes).db.dirty.accounts[address]? =
      cached.db.dirty.accounts[address]? := by
  cases changed : changes[address]? with
  | none =>
      rw [commit_eq]
      dsimp only
      rw [HybridDb.getElem?_commit, changed]
  | some account =>
      rw [getElem?_commit ext cached changed, committedEntry, untouched account changed]
      rfl

/-- The entry that a surviving account is written into. -/
def keptEntry (cached : CachedDb) (address : Address) (account : EvmAccount) :
    DirtyAccount :=
  if account.created then {} else cached.db.account address

theorem getElem?_commit_survivor (ext : NodeExternals) (cached : CachedDb)
    {address : Address} {account : EvmAccount}
    (changed : changes[address]? = some account) (survives : account.Survives) :
    (cached.commit ext changes).db.dirty.accounts[address]? =
      some (writtenEntry ext.toExternals (cached.keptEntry address account) account) := by
  rw [getElem?_commit ext cached changed, committedEntry, survives.1, survives.2]
  unfold keptEntry
  cases account.created <;> rfl

theorem getElem?_commit_destroyed (ext : NodeExternals) (cached : CachedDb)
    {address : Address} {account : EvmAccount}
    (changed : changes[address]? = some account) (destroyed : account.Destroyed) :
    (cached.commit ext changes).db.dirty.accounts[address]? = none := by
  rw [getElem?_commit ext cached changed, committedEntry, destroyed.1, destroyed.2]
  rfl

theorem basic_commit_untouched {address : Address}
    (untouched : ∀ account, changes[address]? = some account → account.touched = false) :
    ((cached.commit ext changes).basic ext now address).2 =
      (cached.basic ext now address).2 := by
  have entry := getElem?_commit_untouched ext cached untouched
  have read : HybridDb.basic ext.toExternals (cached.commit ext changes).db address =
      HybridDb.basic ext.toExternals cached.db address := by
    apply basic_congr
    · rw [commit_eq]
      exact pinnedBlock_commit _ _ _
    · unfold HybridDb.present
      rw [entry]
    · unfold HybridDb.account DirtyStore.account
      rw [entry]
  rw [basic_snd, basic_snd, entry, accountBelow_commit, read]

theorem storage_commit_untouched {address : Address}
    (untouched : ∀ account, changes[address]? = some account → account.touched = false)
    (slot : U256) :
    ((cached.commit ext changes).storage ext now address slot).2 =
      (cached.storage ext now address slot).2 := by
  have entry : (cached.commit ext changes).db.dirty.account address =
      cached.db.dirty.account address := by
    unfold DirtyStore.account
    rw [getElem?_commit_untouched ext cached untouched]
  rw [storage_snd, storage_snd, entry, storageBelow_commit]

/-- The account data and the slot that are read after a commit that drops the entry. -/
theorem reads_commit_destroyed (ext : NodeExternals) (now : Nat) (cached : CachedDb)
    {address : Address} {account : EvmAccount}
    (changed : changes[address]? = some account) (destroyed : account.Destroyed)
    (slot : U256) :
    ((cached.commit ext changes).basic ext now address).2 =
        cached.accountBelow ext now address ∧
      ((cached.commit ext changes).storage ext now address slot).2 =
        cached.storageBelow ext now address slot := by
  have gone := getElem?_commit_destroyed ext cached changed destroyed
  constructor
  · rw [basic_snd, gone, accountBelow_commit]
    rfl
  · rw [storage_snd, DirtyStore.account, gone, storageBelow_commit]
    rfl

theorem storage_commit_survivor {address : Address} {account : EvmAccount}
    (changed : changes[address]? = some account) (survives : account.Survives)
    (slot : U256) :
    ((cached.commit ext changes).storage ext now address slot).2 =
      match (account.changedTo slot).or
        (cached.keptEntry address account).storage[slot]? with
      | some value => .ok value
      | none => cached.storageBelow ext now address slot := by
  have written := getElem?_commit_survivor ext cached changed survives
  rw [storage_snd, DirtyStore.account, written, storageBelow_commit, Option.getD_some]
  have slots := getElem?_writtenStorage account
    (cached.keptEntry address account).storage slot
  rw [← slots]
  rfl

/-- The code of a surviving account that writes none: of the entry that it is written
into, or else of the upstream node. -/
def keptCode (ext : NodeExternals) (cached : CachedDb) (address : Address)
    (account : EvmAccount) : Except MirageError Bytecode :=
  match (cached.keptEntry address account).code with
  | some code => .ok code
  | none =>
      (ext.accountInfo address cached.db.resolveBlock).map fun fetched =>
        (fetched.getD {}).shownCode

theorem basic_commit_survivor {address : Address} {account : EvmAccount}
    (changed : changes[address]? = some account) (survives : account.Survives)
    (expected : Bytecode → Prop) :
    (∃ info, ((cached.commit ext changes).basic ext now address).2 = .ok (some info) ∧
        info.balance = account.balance ∧ info.nonce = account.nonce ∧
        expected info.shownCode) ↔
      match writtenCode account with
      | some code => expected code
      | none => ∃ code, cached.keptCode ext address account = .ok code ∧ expected code := by
  have written := getElem?_commit_survivor ext cached changed survives
  have block : (cached.commit ext changes).db.resolveBlock = cached.db.resolveBlock := by
    rw [commit_eq]
    unfold HybridDb.resolveBlock
    dsimp only
    rw [pinnedBlock_commit]
  have codeOf : writtenCode account = account.code.filter fun code => !code.isEmpty := by
    rw [writtenCode, survives.1, survives.2]
    rfl
  rw [basic_snd, written]
  unfold HybridDb.basic
  rw [written, block, codeOf]
  unfold writtenEntry DirtyAccount.needsUpstream DirtyAccount.overlay keptCode
  dsimp only
  cases account.code.filter fun code => !code.isEmpty with
  | some code => simp [AccountInfo.shownCode]
  | none =>
      cases (cached.keptEntry address account).code with
      | some code => simp [AccountInfo.shownCode]
      | none =>
          cases ext.accountInfo address cached.db.resolveBlock with
          | error failure => simp [Except.map]
          | ok fetched => simp [Except.map, AccountInfo.shownCode]

/-- The commit leaves the code of an entry with this change. -/
def keepsCode : Option EvmAccount → Bool
  | none => true
  | some account =>
      !account.touched ||
        (!account.selfdestructed && !account.created && (writtenCode account).isNone)

/-- The entries whose code a commit leaves. -/
def keptAccounts (changes : Std.ExtTreeMap Address EvmAccount)
    (accounts : Std.ExtTreeMap Address DirtyAccount) :
    Std.ExtTreeMap Address DirtyAccount :=
  accounts.filter fun address _ => keepsCode changes[address]?

/-- The code of an entry, when it has this hash. -/
def codeWithHash (hash : B256) (entry : DirtyAccount) : Option Bytecode :=
  if entry.codeHash = some hash then entry.code else none

theorem codeWithHash_committedEntry {address : Address} {account : EvmAccount}
    (changed : changes[address]? = some account) {hash : B256}
    (unwritten : hash ∉ (writtenCodes ext changes).map Prod.fst)
    (before : Option DirtyAccount) :
    (committedEntry ext.toExternals account before).bind (codeWithHash hash) =
      (before.filter fun _ => keepsCode (some account)).bind (codeWithHash hash) := by
  unfold committedEntry keepsCode
  by_cases touched : account.touched = true
  · by_cases destroyed : account.selfdestructed = true
    · simp [touched, destroyed]
    · have codeOf : writtenCode account =
          account.code.filter fun code => !code.isEmpty := by
        simp [writtenCode, touched, destroyed]
      have differs : ∀ code, writtenCode account = some code →
          ext.keccak256 code ≠ hash := by
        rintro code writes rfl
        refine unwritten (List.mem_map.mpr ⟨(ext.keccak256 code, code), ?_, rfl⟩)
        refine List.mem_filterMap.mpr ⟨(address, account), ?_, ?_⟩
        · exact Std.ExtTreeMap.mem_toList_iff_getElem?_eq_some.mpr changed
        · rw [writes]
          rfl
      have own : ∀ entry : DirtyAccount,
          codeWithHash hash (writtenEntry ext.toExternals entry account) =
            if (writtenCode account).isNone then codeWithHash hash entry else none := by
        intro entry
        unfold codeWithHash writtenEntry
        dsimp only
        rw [← codeOf]
        cases writes : writtenCode account with
        | none => rfl
        | some code => simp [differs code writes]
      have emptied : codeWithHash hash {} = none := rfl
      by_cases created : account.created = true
      · simp [touched, destroyed, created, own, emptied]
      · cases before with
        | none => simp [touched, destroyed, created, own, emptied]
        | some entry =>
            by_cases unwrites : (writtenCode account).isNone = true
            · simp [touched, destroyed, created, own, unwrites, Option.filter]
            · simp [touched, destroyed, created, own, unwrites, Option.filter]
  · simp [touched, Option.filter]
    cases before <;> rfl

theorem heldCode_commit {hash : B256}
    (unwritten : hash ∉ (writtenCodes ext changes).map Prod.fst) :
    heldCode (cached.commit ext changes).db.dirty.accounts hash =
      heldCode (keptAccounts changes cached.db.dirty.accounts) hash := by
  have same : ((cached.commit ext changes).db.dirty.accounts.filterMap fun _ account =>
        codeWithHash hash account) =
      (keptAccounts changes cached.db.dirty.accounts).filterMap fun _ account =>
        codeWithHash hash account := by
    apply Std.ExtTreeMap.ext_getElem?
    intro address
    rw [Std.ExtTreeMap.getElem?_filterMap', Std.ExtTreeMap.getElem?_filterMap', keptAccounts,
      Std.ExtTreeMap.getElem?_filter']
    cases changed : changes[address]? with
    | none =>
        have untouched : ∀ account, changes[address]? = some account →
            account.touched = false := by
          rw [changed]
          exact fun _ known => nomatch known
        rw [getElem?_commit_untouched ext cached untouched]
        cases cached.db.dirty.accounts[address]? <;> rfl
    | some account =>
        rw [getElem?_commit ext cached changed]
        exact codeWithHash_committedEntry changed unwritten _
  exact congrArg (fun codes => Option.map Prod.snd codes.minEntry?) same

theorem codeByHash_commit {hash : B256}
    (unwritten : hash ∉ (writtenCodes ext changes).map Prod.fst) :
    ((cached.commit ext changes).codeByHash ext hash).2 =
      match (cached.bytecodeCache.putAll (writtenCodes ext changes)).find? hash with
      | some code => .ok code
      | none =>
          cached.codeBelow ext (keptAccounts changes cached.db.dirty.accounts) hash := by
  have held : heldCode (cached.commit ext changes).db.dirty.accounts hash = _ :=
    heldCode_commit unwritten
  have below : (cached.commit ext changes).codeBelow ext
      (cached.commit ext changes).db.dirty.accounts hash =
      cached.codeBelow ext (keptAccounts changes cached.db.dirty.accounts) hash := by
    unfold codeBelow HybridDb.resolveBlock
    rw [held, commit_eq]
    dsimp only
    rw [pinnedBlock_commit]
  have cache : (cached.commit ext changes).bytecodeCache =
      cached.bytecodeCache.putAll (writtenCodes ext changes) := by
    rw [commit_eq]
  have read := codeByHash_snd ext (cached.commit ext changes) hash
  rw [below, cache] at read
  refine read.trans ?_
  cases (cached.bytecodeCache.putAll (writtenCodes ext changes)).find? hash <;> rfl

/-- The code that has to be read for a committed account: its own, or the one that was
read before when it carries none. -/
def CodeExpected (ext : NodeExternals) (now : Nat) (cached : CachedDb) (address : Address)
    (account : EvmAccount) (code : Bytecode) : Prop :=
  match account.code with
  | some committed => code = committed
  | none => ∀ found, (cached.basic ext now address).2 = .ok found →
      code = (found.getD {}).shownCode

/-- The reads after a commit return what was committed, and all other reads return
what they did before. -/
structure ReadsBack (ext : NodeExternals) (now : Nat) (cached : CachedDb)
    (changes : Std.ExtTreeMap Address EvmAccount) : Prop where
  survivors : ∀ address account, changes[address]? = some account → account.Survives →
    ∃ info, ((cached.commit ext changes).basic ext now address).2 = .ok (some info) ∧
      info.balance = account.balance ∧ info.nonce = account.nonce ∧
      CodeExpected ext now cached address account info.shownCode
  slots : ∀ address account slot value, changes[address]? = some account →
    account.Survives → account.changedTo slot = some value →
    ((cached.commit ext changes).storage ext now address slot).2 = .ok value
  destroyed : ∀ address account, changes[address]? = some account → account.Destroyed →
    (∃ found, ((cached.commit ext changes).basic ext now address).2 = .ok found ∧
        (found.getD {}).IsEmpty) ∧
      ∀ slot, ((cached.commit ext changes).storage ext now address slot).2 = .ok 0
  otherAccounts : ∀ address,
    (∀ account, changes[address]? = some account → account.touched = false) →
    ((cached.commit ext changes).basic ext now address).2 =
      (cached.basic ext now address).2
  otherSlots : ∀ address slot,
    (∀ account, changes[address]? = some account → account.touched = true →
      account.Survives ∧ account.changedTo slot = none) →
    ((cached.commit ext changes).storage ext now address slot).2 =
      (cached.storage ext now address slot).2
  otherCodes : ∀ hash, hash ∉ (writtenCodes ext changes).map Prod.fst →
    ((cached.commit ext changes).codeByHash ext hash).2 = (cached.codeByHash ext hash).2
  blockHashes : ∀ number, ((cached.commit ext changes).blockHash ext number).2 =
    (cached.blockHash ext number).2

/-- What lies below the entries that a commit drops or writes no code into. -/
structure Uncovered (ext : NodeExternals) (now : Nat) (cached : CachedDb)
    (changes : Std.ExtTreeMap Address EvmAccount) : Prop where
  /-- Below a destroyed account there is nothing. -/
  destroyed : ∀ address account, changes[address]? = some account → account.Destroyed →
    (∃ found, cached.accountBelow ext now address = .ok found ∧ (found.getD {}).IsEmpty) ∧
      ∀ slot, cached.storageBelow ext now address slot = .ok 0
  /-- Where no code is written, the code that stays can be read and is the right one. -/
  unwritten : ∀ address account, changes[address]? = some account → account.Survives →
    writtenCode account = none → ∃ code, cached.keptCode ext address account = .ok code ∧
      CodeExpected ext now cached address account code
  /-- Below a dropped slot of a created account there is the same value. -/
  created : ∀ address account slot value, changes[address]? = some account →
    account.Survives → account.created = true → account.changedTo slot = none →
    (cached.db.account address).storage[slot]? = some value →
      cached.storageBelow ext now address slot = .ok value
  /-- A code that the bytecode cache drops, or that only dropped entries hold, is held
  elsewhere. -/
  codes : ∀ hash, hash ∉ (writtenCodes ext changes).map Prod.fst →
    match cached.bytecodeCache.find? hash with
    | some code =>
        (cached.bytecodeCache.putAll (writtenCodes ext changes)).find? hash = none →
          cached.codeBelow ext (keptAccounts changes cached.db.dirty.accounts) hash =
            .ok code
    | none =>
        cached.codeBelow ext (keptAccounts changes cached.db.dirty.accounts) hash =
          cached.codeBelow ext cached.db.dirty.accounts hash

theorem otherSlot_commit {address : Address} {account : EvmAccount}
    (changed : changes[address]? = some account) (survives : account.Survives)
    {slot : U256} (unchanged : account.changedTo slot = none) :
    ((cached.commit ext changes).storage ext now address slot).2 =
        (cached.storage ext now address slot).2 ↔
      (account.created = true → ∀ value,
        (cached.db.account address).storage[slot]? = some value →
          cached.storageBelow ext now address slot = .ok value) := by
  rw [storage_commit_survivor changed survives, unchanged, Option.none_or, storage_snd,
    keptEntry]
  change _ = (match (cached.db.account address).storage[slot]? with
    | some value => _ | none => _) ↔ _
  by_cases created : account.created = true
  · rw [if_pos created, Std.ExtTreeMap.getElem?_empty]
    cases (cached.db.account address).storage[slot]? with
    | none => simp
    | some value => simp [created]
  · rw [if_neg created]
    simp [created]

theorem otherCode_commit {hash : B256}
    (unwritten : hash ∉ (writtenCodes ext changes).map Prod.fst) :
    ((cached.commit ext changes).codeByHash ext hash).2 = (cached.codeByHash ext hash).2 ↔
      match cached.bytecodeCache.find? hash with
      | some code =>
          (cached.bytecodeCache.putAll (writtenCodes ext changes)).find? hash = none →
            cached.codeBelow ext (keptAccounts changes cached.db.dirty.accounts) hash =
              .ok code
      | none =>
          cached.codeBelow ext (keptAccounts changes cached.db.dirty.accounts) hash =
            cached.codeBelow ext cached.db.dirty.accounts hash := by
  rw [codeByHash_commit unwritten, codeByHash_snd]
  rcases cached.bytecodeCache.find?_putAll_of_notMem unwritten with dropped | kept
  · rw [dropped]
    cases cached.bytecodeCache.find? hash <;> simp
  · rw [kept]
    cases cached.bytecodeCache.find? hash <;> simp

theorem uncovered_of_readsBack (reads : ReadsBack ext now cached changes) :
    Uncovered ext now cached changes := by
  constructor
  · intro address account changed destroyed
    obtain ⟨empty, zero⟩ := reads.destroyed address account changed destroyed
    constructor
    · rwa [(reads_commit_destroyed ext now cached changed destroyed 0).1] at empty
    · intro slot
      rw [← (reads_commit_destroyed ext now cached changed destroyed slot).2]
      exact zero slot
  · intro address account changed survives unwritten
    have read := reads.survivors address account changed survives
    rw [basic_commit_survivor changed survives, unwritten] at read
    exact read
  · intro address account slot value changed survives created unchanged stored
    have same := reads.otherSlots address slot fun other known => by
      rw [changed] at known
      cases known
      exact fun _ => ⟨survives, unchanged⟩
    exact (otherSlot_commit changed survives unchanged).mp same created value stored
  · intro hash unwritten
    exact (otherCode_commit unwritten).mp (reads.otherCodes hash unwritten)

theorem readsBack_of_uncovered (uncovered : Uncovered ext now cached changes) :
    ReadsBack ext now cached changes := by
  constructor
  · intro address account changed survives
    rw [basic_commit_survivor changed survives]
    cases writes : writtenCode account with
    | none => exact uncovered.unwritten address account changed survives writes
    | some code =>
        have carried : account.code = some code := by
          unfold writtenCode at writes
          split at writes
          · exact (Option.filter_eq_some_iff.mp writes).1
          · cases writes
        unfold CodeExpected
        rw [carried]
  · intro address account slot value changed survives written
    rw [storage_commit_survivor changed survives, written]
    rfl
  · intro address account changed destroyed
    obtain ⟨empty, zero⟩ := uncovered.destroyed address account changed destroyed
    constructor
    · rwa [(reads_commit_destroyed ext now cached changed destroyed 0).1]
    · intro slot
      rw [(reads_commit_destroyed ext now cached changed destroyed slot).2]
      exact zero slot
  · exact fun address untouched => basic_commit_untouched untouched
  · intro address slot surviving
    by_cases touched : ∃ account, changes[address]? = some account ∧ account.touched = true
    · obtain ⟨account, changed, touched⟩ := touched
      obtain ⟨survives, unchanged⟩ := surviving account changed touched
      exact (otherSlot_commit changed survives unchanged).mpr fun created value stored =>
        uncovered.created address account slot value changed survives created unchanged stored
    · apply storage_commit_untouched
      intro account changed
      exact eq_false_of_ne_true fun known => touched ⟨account, changed, known⟩
  · intro hash unwritten
    exact (otherCode_commit unwritten).mpr (uncovered.codes hash unwritten)
  · intro number
    rw [blockHash_snd, blockHash_snd, commit_eq]

/-- The reads after a commit return the committed state, and all others what they did
before, exactly when the layers below have what is uncovered. -/
theorem reads_back_iff (ext : NodeExternals) (now : Nat) (cached : CachedDb)
    (changes : Std.ExtTreeMap Address EvmAccount) :
    ReadsBack ext now cached changes ↔ Uncovered ext now cached changes :=
  ⟨uncovered_of_readsBack, readsBack_of_uncovered⟩

end CachedDb

/-- A call of the database; reads of accounts and slots depend on the time. -/
inductive DatabaseCall where
  | basic (now : Nat) (address : Address)
  | storage (now : Nat) (address : Address) (index : U256)
  | blockHash (number : UInt64)
  | codeByHash (hash : B256)
  | commit (changes : Std.ExtTreeMap Address EvmAccount)

/-- The answers to reads other than those of codes. -/
inductive DatabaseAnswer where
  | account (info : Except MirageError (Option AccountInfo))
  | slot (value : Except MirageError U256)
  | hash (hash : Except MirageError B256)

/-- The answers to calls one after the other. -/
def answers {State Call Answer : Type} (step : State → Call → State × Answer) :
    State → List Call → List Answer
  | _, [] => []
  | state, call :: calls => (step state call).2 :: answers step (step state call).1 calls

/-- A call without caches. -/
def HybridDb.call (ext : NodeExternals) (db : HybridDb) :
    DatabaseCall → HybridDb × Option DatabaseAnswer
  | .basic _ address => (db, some (.account (db.basic ext.toExternals address)))
  | .storage _ address index => (db, some (.slot (db.storage ext.toExternals address index)))
  | .blockHash number => (db, some (.hash (ext.blockHash number)))
  | .codeByHash _ => (db, none)
  | .commit changes => (db.commit ext.toExternals changes, none)

namespace CachedDb

def call (ext : NodeExternals) (cached : CachedDb) :
    DatabaseCall → CachedDb × Option DatabaseAnswer
  | .basic now address =>
      let read := cached.basic ext now address
      (read.1, some (.account read.2))
  | .storage now address index =>
      let read := cached.storage ext now address index
      (read.1, some (.slot read.2))
  | .blockHash number =>
      let read := cached.blockHash ext number
      (read.1, some (.hash read.2))
  | .codeByHash hash => ((cached.codeByHash ext hash).1, none)
  | .commit changes => (cached.commit ext changes, none)

theorem coherent_commit (coherent : Coherent ext cached) :
    Coherent ext (cached.commit ext changes) := by
  have pinned : (cached.commit ext changes).db.resolveBlock = cached.db.resolveBlock := by
    rw [commit_eq, HybridDb.resolveBlock, pinnedBlock_commit]
    rfl
  constructor
  · rw [pinned, commit_eq]
    exact coherent.accounts
  · rw [pinned, commit_eq]
    exact coherent.storage
  · rw [commit_eq]
    exact coherent.blockHashes

/-- Reads leave the database below the caches as it is. -/
theorem db_reads (ext : NodeExternals) (now : Nat) (cached : CachedDb) (address : Address)
    (index : U256) (number : UInt64) (hash : B256) :
    (cached.basic ext now address).1.db = cached.db ∧
      (cached.storage ext now address index).1.db = cached.db ∧
      (cached.blockHash ext number).1.db = cached.db ∧
      (cached.codeByHash ext hash).1.db = cached.db := by
  unfold CachedDb.basic CachedDb.storage CachedDb.blockHash CachedDb.codeByHash
  refine ⟨?_, ?_, ?_, ?_⟩
  all_goals
    repeat' split
    all_goals rfl

/-- With coherent caches a call has the answer and the effect that it has without them. -/
theorem call_spec (coherent : Coherent ext cached) (call : DatabaseCall) :
    (cached.call ext call).2 = (cached.db.call ext call).2 ∧
      (cached.call ext call).1.db = (cached.db.call ext call).1 ∧
      Coherent ext (cached.call ext call).1 := by
  have kept := db_reads ext
  cases call with
  | basic now address =>
      refine ⟨?_, (kept now cached address 0 0 0).1, coherent.basic_fst address⟩
      exact congrArg (some ∘ DatabaseAnswer.account) (coherent.basic_snd address)
  | storage now address index =>
      refine ⟨?_, (kept now cached address index 0 0).2.1, coherent.storage_fst address index⟩
      exact congrArg (some ∘ DatabaseAnswer.slot) (coherent.storage_snd address index)
  | blockHash number =>
      refine ⟨?_, (kept 0 cached 0 0 number 0).2.2.1, coherent.blockHash_fst number⟩
      exact congrArg (some ∘ DatabaseAnswer.hash) (coherent.blockHash_snd number)
  | codeByHash hash =>
      exact ⟨rfl, (kept 0 cached 0 0 0 hash).2.2.2, coherent.codeByHash_fst hash⟩
  | commit changes =>
      refine ⟨rfl, ?_, coherent_commit coherent⟩
      rw [CachedDb.call, commit_eq]
      rfl

/-- Whatever its capacity and its time to live, the read cache of a new database is never
noticed: every read of an account, a slot or a block hash answers as without it. -/
theorem answers_new (ext : NodeExternals) (db : HybridDb) (capacity ttl : Nat)
    (bytecodeCache : RecencyCache B256 Bytecode) (calls : List DatabaseCall) :
    answers (CachedDb.call ext) ⟨db, .new capacity ttl, bytecodeCache⟩ calls =
      answers (HybridDb.call ext) db calls := by
  have run : ∀ (calls : List DatabaseCall) (cached : CachedDb), Coherent ext cached →
      answers (CachedDb.call ext) cached calls = answers (HybridDb.call ext) cached.db calls := by
    intro calls
    induction calls with
    | nil => exact fun _ _ => rfl
    | cons call calls ih =>
        intro cached coherent
        obtain ⟨answer, effect, kept⟩ := call_spec coherent call
        rw [answers, answers, answer, ih _ kept, effect]
  exact run calls _ ⟨nofun, nofun, nofun⟩

/-- A node on which every account has five wei. -/
def richNode : NodeExternals :=
  { EvmExecutor.mappingExternals with
    accountInfo := fun _ _ => .ok (some { balance := 5 })
    codeByHash := fun _ _ => .error (.upstream "unknown bytecode hash")
    blockHash := fun _ => .ok 0 }

/-- A database without overrides and with empty caches. -/
def untouchedDb : CachedDb where
  db := ⟨{}, none, 1⟩
  readCache := ⟨.empty 1 Nat.one_pos, .empty 1 Nat.one_pos, .empty 1 Nat.one_pos, 60⟩
  bytecodeCache := .empty 1 Nat.one_pos

/-- An account that destroyed itself after sending its balance away. -/
def destroyedAccount : EvmAccount :=
  ⟨0, 0, none, true, true, false, ∅⟩

/-- An account that the node knows is still there after it was destroyed. -/
theorem destroyed_uncovers :
    let changes : Std.ExtTreeMap Address EvmAccount := {(1, destroyedAccount)}
    ((untouchedDb.commit richNode changes).basic richNode 0 1).2 =
        .ok (some { balance := 5 }) ∧
      ¬ ReadsBack richNode 0 untouchedDb changes := by
  intro changes
  have changed : changes[(1 : Address)]? = some destroyedAccount := by rfl
  have read := (reads_commit_destroyed richNode 0 untouchedDb
    changed ⟨rfl, rfl⟩ 0).1
  refine ⟨read, fun reads => ?_⟩
  obtain ⟨⟨found, same, empty⟩, -⟩ := reads.destroyed 1 _ changed ⟨rfl, rfl⟩
  rw [read] at same
  cases same
  exact absurd empty.1 (by decide)

end CachedDb

end Roko
