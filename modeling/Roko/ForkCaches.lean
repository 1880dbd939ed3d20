import Roko.ForkDatabase
import Roko.RecencyCaches

/-!
# The database of a fork with its caches

The model of the read cache and the bytecode cache in `mirage-rs/src/fork.rs`.  Three
layers answer a read: the write layer, the read cache while its entry is fresh, and the
upstream node, whose answer is put into the cache.
-/

namespace Roko

/-- The upstream node also answers for codes and for block hashes. -/
structure NodeExternals extends Externals where
  codeByHash : B256 → BlockTag → Except MirageError Bytecode
  blockHash : UInt64 → Except MirageError B256

structure TimedEntry (Value : Type) where
  value : Value
  fetchedAt : Nat

structure ReadCache where
  accountInfos : RecencyCache Address (TimedEntry AccountInfo)
  storage : RecencyCache (Address × U256) (TimedEntry U256)
  blockHashes : RecencyCache UInt64 B256
  ttl : Nat

def readCacheEntryValid (ttl age : Nat) : Bool :=
  age < ttl

namespace ReadCache

theorem capacity_pos (capacity : Nat) : 0 < max capacity 1 :=
  Nat.le_max_right capacity 1

/-- Creates a new cache with the provided capacity and TTL. -/
def new (capacity ttl : Nat) : ReadCache :=
  have positive := capacity_pos capacity
  ⟨.empty _ positive, .empty _ positive, .empty _ positive, ttl⟩

/-- The value of a key while it is fresh; an old entry is dropped. -/
def getFresh {Key Value : Type} [DecidableEq Key] (ttl now : Nat)
    (cache : RecencyCache Key (TimedEntry Value)) (key : Key) :
    Option Value × RecencyCache Key (TimedEntry Value) :=
  match cache.get key with
  | none => (none, cache)
  | some (entry, cache) =>
      if readCacheEntryValid ttl (now - entry.fetchedAt) then (some entry.value, cache)
      else (none, cache.pop key)

def getAccount (cache : ReadCache) (now : Nat) (address : Address) :
    Option AccountInfo × ReadCache :=
  let (found, accountInfos) := getFresh cache.ttl now cache.accountInfos address
  (found, { cache with accountInfos })

def insertAccount (cache : ReadCache) (now : Nat) (address : Address)
    (info : AccountInfo) : ReadCache :=
  { cache with accountInfos := cache.accountInfos.put address ⟨info, now⟩ }

def getStorage (cache : ReadCache) (now : Nat) (address : Address) (slot : U256) :
    Option U256 × ReadCache :=
  let (found, storage) := getFresh cache.ttl now cache.storage (address, slot)
  (found, { cache with storage })

def insertStorage (cache : ReadCache) (now : Nat) (address : Address)
    (slot value : U256) : ReadCache :=
  { cache with storage := cache.storage.put (address, slot) ⟨value, now⟩ }

def insertBlockHash (cache : ReadCache) (number : UInt64) (hash : B256) : ReadCache :=
  { cache with blockHashes := cache.blockHashes.put number hash }

end ReadCache

/-- The database together with its caches. -/
structure CachedDb where
  db : HybridDb
  readCache : ReadCache
  bytecodeCache : RecencyCache B256 Bytecode

/-- The code of the first entry that has the hash. -/
def heldCode (accounts : Std.ExtTreeMap Address DirtyAccount) (hash : B256) :
    Option Bytecode :=
  let held := accounts.filterMap fun _ account =>
    if account.codeHash = some hash then account.code else none
  Option.map Prod.snd held.minEntry?

namespace CachedDb

variable (ext : NodeExternals) (now : Nat) (cached : CachedDb)

def basic (address : Address) : CachedDb × Except MirageError (Option AccountInfo) :=
  match cached.db.dirty.accounts[address]? with
  | some dirty =>
      if dirty.needsUpstream then
        (cached, (ext.accountInfo address cached.db.resolveBlock).map fun fetched =>
          some (dirty.overlay (fetched.getD {})))
      else (cached, .ok (some (dirty.overlay {})))
  | none =>
      match cached.readCache.getAccount now address with
      | (some info, readCache) => ({ cached with readCache }, .ok (some info))
      | (none, readCache) =>
          match ext.accountInfo address cached.db.resolveBlock with
          | .error failure => ({ cached with readCache }, .error failure)
          | .ok none => ({ cached with readCache }, .ok none)
          | .ok (some info) =>
              ({ cached with readCache := readCache.insertAccount now address info },
                .ok (some info))

def codeByHash (hash : B256) : CachedDb × Except MirageError Bytecode :=
  match cached.bytecodeCache.get hash with
  | some (code, bytecodeCache) => ({ cached with bytecodeCache }, .ok code)
  | none =>
      match heldCode cached.db.dirty.accounts hash with
      | some code =>
          ({ cached with bytecodeCache := cached.bytecodeCache.put hash code }, .ok code)
      | none =>
          match ext.codeByHash hash cached.db.resolveBlock with
          | .error failure => (cached, .error failure)
          | .ok code =>
              ({ cached with bytecodeCache := cached.bytecodeCache.put hash code },
                .ok code)

def storage (address : Address) (index : U256) : CachedDb × Except MirageError U256 :=
  match (cached.db.dirty.account address).storage[index]? with
  | some value => (cached, .ok value)
  | none =>
      match cached.readCache.getStorage now address index with
      | (some value, readCache) => ({ cached with readCache }, .ok value)
      | (none, readCache) =>
          match ext.storageAt address index cached.db.resolveBlock with
          | .error failure => ({ cached with readCache }, .error failure)
          | .ok value =>
              ({ cached with readCache := readCache.insertStorage now address index value },
                .ok value)

def blockHash (number : UInt64) : CachedDb × Except MirageError B256 :=
  match cached.readCache.blockHashes.get number with
  | some (hash, blockHashes) =>
      ({ cached with readCache := { cached.readCache with blockHashes } }, .ok hash)
  | none =>
      match ext.blockHash number with
      | .error failure => (cached, .error failure)
      | .ok hash =>
          ({ cached with readCache := cached.readCache.insertBlockHash number hash },
            .ok hash)

/-- The code that a committed account writes. -/
def writtenCode (account : EvmAccount) : Option Bytecode :=
  if account.touched && !account.selfdestructed then
    account.code.filter fun code => !code.isEmpty
  else none

/-- The write layer changes as without the caches, and a written code is cached. -/
def commitAccount (cached : CachedDb) (entry : Address × EvmAccount) : CachedDb :=
  { cached with
    db := HybridDb.commitAccount ext.toExternals cached.db entry
    bytecodeCache := (writtenCode entry.2).elim cached.bytecodeCache fun code =>
      cached.bytecodeCache.put (ext.keccak256 code) code }

def commit (changes : Std.ExtTreeMap Address EvmAccount) : CachedDb :=
  changes.toList.foldl (commitAccount ext) cached

/-- The account data below the write layer. -/
def accountBelow (address : Address) : Except MirageError (Option AccountInfo) :=
  match (cached.readCache.getAccount now address).1 with
  | some info => .ok (some info)
  | none => ext.accountInfo address cached.db.resolveBlock

/-- The storage below the write layer. -/
def storageBelow (address : Address) (index : U256) : Except MirageError U256 :=
  match (cached.readCache.getStorage now address index).1 with
  | some value => .ok value
  | none => ext.storageAt address index cached.db.resolveBlock

/-- The code that some entries have for a hash, or else the upstream node. -/
def codeBelow (accounts : Std.ExtTreeMap Address DirtyAccount) (hash : B256) :
    Except MirageError Bytecode :=
  match heldCode accounts hash with
  | some code => .ok code
  | none => ext.codeByHash hash cached.db.resolveBlock

theorem basic_snd (address : Address) : (cached.basic ext now address).2 =
    if cached.db.dirty.accounts[address]?.isSome then
      HybridDb.basic ext.toExternals cached.db address
    else cached.accountBelow ext now address := by
  unfold basic HybridDb.basic accountBelow
  cases cached.db.dirty.accounts[address]? with
  | some dirty =>
      dsimp only [Option.isSome_some]
      rw [if_pos rfl]
      split <;> rfl
  | none =>
      dsimp only [Option.isSome_none]
      rw [if_neg Bool.false_ne_true]
      rcases cached.readCache.getAccount now address with ⟨_ | info, readCache⟩
      · dsimp only
        split <;> rename_i answered <;> rw [answered]
      · rfl

theorem storage_snd (address : Address) (index : U256) :
    (cached.storage ext now address index).2 =
      match (cached.db.dirty.account address).storage[index]? with
      | some value => .ok value
      | none => cached.storageBelow ext now address index := by
  unfold storage storageBelow
  cases (cached.db.dirty.account address).storage[index]? with
  | some value => rfl
  | none =>
      rcases cached.readCache.getStorage now address index with ⟨_ | value, readCache⟩
      · dsimp only
        split <;> rename_i answered <;> rw [answered]
      · rfl

theorem codeByHash_snd (hash : B256) : (cached.codeByHash ext hash).2 =
    match cached.bytecodeCache.find? hash with
    | some code => .ok code
    | none => cached.codeBelow ext cached.db.dirty.accounts hash := by
  unfold codeByHash codeBelow RecencyCache.get
  cases cached.bytecodeCache.find? hash with
  | some code => rfl
  | none =>
      dsimp only [Option.map_none]
      cases heldCode cached.db.dirty.accounts hash with
      | some code => rfl
      | none =>
          dsimp only
          split <;> rename_i answered <;> rw [answered]

theorem blockHash_snd (number : UInt64) : (cached.blockHash ext number).2 =
    match cached.readCache.blockHashes.find? number with
    | some hash => .ok hash
    | none => ext.blockHash number := by
  unfold blockHash RecencyCache.get
  cases cached.readCache.blockHashes.find? number with
  | some hash => rfl
  | none =>
      dsimp only [Option.map_none]
      split <;> rename_i answered <;> rw [answered]

/-- The read cache holds what the upstream node answers. -/
structure Coherent (ext : NodeExternals) (cached : CachedDb) : Prop where
  accounts : ∀ address entry, cached.readCache.accountInfos.find? address = some entry →
    ext.accountInfo address cached.db.resolveBlock = .ok (some entry.value)
  storage : ∀ address slot entry,
    cached.readCache.storage.find? (address, slot) = some entry →
      ext.storageAt address slot cached.db.resolveBlock = .ok entry.value
  blockHashes : ∀ number hash, cached.readCache.blockHashes.find? number = some hash →
    ext.blockHash number = .ok hash

section Fresh

variable {Key Value : Type} [DecidableEq Key] {ttl now : Nat}
  {cache : RecencyCache Key (TimedEntry Value)} {key : Key}

theorem getFresh_fst {value : Value}
    (found : (ReadCache.getFresh ttl now cache key).1 = some value) :
    ∃ entry, cache.find? key = some entry ∧ entry.value = value := by
  unfold ReadCache.getFresh RecencyCache.get at found
  cases known : cache.find? key with
  | none =>
      rw [known] at found
      cases found
  | some entry =>
      rw [known] at found
      dsimp only [Option.map_some] at found
      split at found
      · exact ⟨entry, rfl, Option.some.inj found⟩
      · cases found

theorem find?_getFresh {other : Key} {entry : TimedEntry Value}
    (found : (ReadCache.getFresh ttl now cache key).2.find? other = some entry) :
    cache.find? other = some entry := by
  unfold ReadCache.getFresh RecencyCache.get at found
  cases known : cache.find? key with
  | none =>
      rw [known] at found
      exact found
  | some value =>
      rw [known] at found
      dsimp only [Option.map_some] at found
      have written : (cache.put key value).find? other = some entry →
          cache.find? other = some entry := by
        intro put
        rcases cache.find?_put_cases put with ⟨rfl, rfl⟩ | kept
        · exact known
        · exact kept
      split at found
      · exact written found
      · exact written (RecencyCache.find?_of_pop _ found)

end Fresh

variable {ext now cached}

/-- With a coherent cache account data is read as without the cache. -/
theorem Coherent.basic_snd (coherent : Coherent ext cached) (address : Address) :
    (cached.basic ext now address).2 = HybridDb.basic ext.toExternals cached.db address := by
  rw [CachedDb.basic_snd]
  split
  case isTrue => rfl
  case isFalse absent =>
    rw [Option.not_isSome_iff_eq_none] at absent
    unfold accountBelow HybridDb.basic
    rw [absent]
    cases found : (cached.readCache.getAccount now address).1 with
    | none => rfl
    | some info =>
        obtain ⟨entry, known, rfl⟩ := getFresh_fst found
        exact (coherent.accounts address entry known).symm

/-- With a coherent cache storage is read as without the cache. -/
theorem Coherent.storage_snd (coherent : Coherent ext cached) (address : Address)
    (index : U256) : (cached.storage ext now address index).2 =
      HybridDb.storage ext.toExternals cached.db address index := by
  rw [CachedDb.storage_snd]
  unfold HybridDb.storage storageBelow
  cases (cached.db.dirty.account address).storage[index]? with
  | some value => rfl
  | none =>
      cases found : (cached.readCache.getStorage now address index).1 with
      | none => rfl
      | some value =>
          obtain ⟨entry, known, rfl⟩ := getFresh_fst found
          exact (coherent.storage address index entry known).symm

/-- A read of account data keeps the cache coherent. -/
theorem Coherent.basic_fst (coherent : Coherent ext cached) (address : Address) :
    Coherent ext (cached.basic ext now address).1 := by
  have aged : ∀ other entry,
      (cached.readCache.getAccount now address).2.accountInfos.find? other = some entry →
        ext.accountInfo other cached.db.resolveBlock = .ok (some entry.value) :=
    fun other entry found => coherent.accounts other entry (find?_getFresh found)
  unfold CachedDb.basic
  split
  case h_1 => split <;> exact coherent
  case h_2 =>
    split
    case h_1 info readCache read =>
      obtain rfl := (Prod.mk.inj read).2
      exact ⟨aged, coherent.storage, coherent.blockHashes⟩
    case h_2 readCache read =>
      obtain rfl := (Prod.mk.inj read).2
      split
      case h_1 => exact ⟨aged, coherent.storage, coherent.blockHashes⟩
      case h_2 => exact ⟨aged, coherent.storage, coherent.blockHashes⟩
      case h_3 info answered =>
        refine ⟨fun other entry found => ?_, coherent.storage, coherent.blockHashes⟩
        rcases RecencyCache.find?_put_cases _ found with ⟨rfl, rfl⟩ | kept
        · exact answered
        · exact aged other entry kept

/-- A read of storage keeps the cache coherent. -/
theorem Coherent.storage_fst (coherent : Coherent ext cached) (address : Address)
    (index : U256) : Coherent ext (cached.storage ext now address index).1 := by
  have aged : ∀ other slot entry,
      (cached.readCache.getStorage now address index).2.storage.find? (other, slot) =
          some entry →
        ext.storageAt other slot cached.db.resolveBlock = .ok entry.value :=
    fun other slot entry found => coherent.storage other slot entry (find?_getFresh found)
  unfold CachedDb.storage
  split
  case h_1 => exact coherent
  case h_2 =>
    split
    case h_1 value readCache read =>
      obtain rfl := (Prod.mk.inj read).2
      exact ⟨coherent.accounts, aged, coherent.blockHashes⟩
    case h_2 readCache read =>
      obtain rfl := (Prod.mk.inj read).2
      split
      case h_1 => exact ⟨coherent.accounts, aged, coherent.blockHashes⟩
      case h_2 value answered =>
        refine ⟨coherent.accounts, fun other slot entry found => ?_, coherent.blockHashes⟩
        rcases RecencyCache.find?_put_cases _ found with ⟨same, rfl⟩ | kept
        · obtain ⟨rfl, rfl⟩ := Prod.mk.inj same
          exact answered
        · exact aged other slot entry kept

theorem Coherent.blockHash_snd (coherent : Coherent ext cached) (number : UInt64) :
    (cached.blockHash ext number).2 = ext.blockHash number := by
  rw [CachedDb.blockHash_snd]
  cases known : cached.readCache.blockHashes.find? number with
  | none => rfl
  | some hash => exact (coherent.blockHashes number hash known).symm

/-- A read of a block hash keeps the cache coherent. -/
theorem Coherent.blockHash_fst (coherent : Coherent ext cached) (number : UInt64) :
    Coherent ext (cached.blockHash ext number).1 := by
  -- a hash that is used or fetched is written as the newest one
  have written : ∀ hash, ext.blockHash number = .ok hash → ∀ other found,
      (cached.readCache.blockHashes.put number hash).find? other = some found →
        ext.blockHash other = .ok found := by
    intro hash answered other found known
    rcases RecencyCache.find?_put_cases _ known with ⟨rfl, rfl⟩ | kept
    · exact answered
    · exact coherent.blockHashes other found kept
  unfold CachedDb.blockHash RecencyCache.get
  cases known : cached.readCache.blockHashes.find? number with
  | some hash =>
      exact ⟨coherent.accounts, coherent.storage,
        written hash (coherent.blockHashes number hash known)⟩
  | none =>
      dsimp only [Option.map_none]
      split
      case h_1 => exact coherent
      case h_2 hash answered =>
        exact ⟨coherent.accounts, coherent.storage, written hash answered⟩

theorem Coherent.codeByHash_fst (coherent : Coherent ext cached) (hash : B256) :
    Coherent ext (cached.codeByHash ext hash).1 := by
  unfold CachedDb.codeByHash
  split
  · exact ⟨coherent.accounts, coherent.storage, coherent.blockHashes⟩
  · split
    · exact ⟨coherent.accounts, coherent.storage, coherent.blockHashes⟩
    · split
      · exact coherent
      · exact ⟨coherent.accounts, coherent.storage, coherent.blockHashes⟩

end CachedDb

end Roko
