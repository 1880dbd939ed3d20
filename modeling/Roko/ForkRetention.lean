import Roko.ForkIndexes
import Roko.GuardedRuns

/-!
# What committed blocks leave behind

A commit files its block under its number and its two hashes, and drops the oldest block
when more than a thousand are retained.  Only the sealed hash of the dropped block is
taken out of the index, and nothing is taken out when another block has the number.
-/

namespace Roko

namespace ForkState

/-- What is merged into the fork. -/
structure LocalCommit where
  diff : StateDiff
  transaction : LocalTransaction
  receipt : LocalReceipt
  block : LocalBlock

def commit (ext : Externals) (state : ForkState) (merged : LocalCommit) : ForkState :=
  state.commitLocalTransaction ext merged.diff merged.transaction merged.receipt
    merged.block

/-- The blocks with the block of a commit, before pruning. -/
def filedBlocks (state : ForkState) (block : LocalBlock) :
    Std.ExtTreeMap UInt64 LocalBlock :=
  state.blocksByNumber.insert block.number block

/-- What a hash leads to with the block of a commit, before pruning. -/
def filedHash (ext : Externals) (state : ForkState) (block : LocalBlock) (hash : B256) :
    Option LocalBlock :=
  if hash = block.hash ∨ hash = ext.keccak256 (u64Bytes block.number) then some block
  else state.blocksByHash[hash]?

theorem filedHash_eq (ext : Externals) (state : ForkState) (block : LocalBlock)
    (hash : B256) : filedHash ext state block hash =
      if hash ∈ blockKeys ext block then some block else state.blocksByHash[hash]? :=
  if_congr mem_blockKeys.symm rfl rfl

/-- A state with the entries of a commit. -/
structure Filed (ext : Externals) (state : ForkState) (merged : LocalCommit)
    (after : ForkState) : Prop where
  blocksByNumber : after.blocksByNumber = filedBlocks state merged.block
  blocksByHash : ∀ hash, after.blocksByHash[hash]? = filedHash ext state merged.block hash
  transactions : after.transactions =
    state.transactions.insert merged.transaction.hash merged.transaction
  receipts : after.receipts =
    state.receipts.insert merged.receipt.transactionHash merged.receipt

/-- The oldest block, where there is one too many with the block of a commit. -/
structure Oldest (state : ForkState) (block : LocalBlock) (number : UInt64)
    (old : LocalBlock) : Prop where
  many : maxRetainedBlocks < (filedBlocks state block).size
  found : (filedBlocks state block)[number]? = some old
  first : ∀ other ∈ filedBlocks state block, number ≤ other

/-- A commit that drops the oldest block. -/
structure Dropped (ext : Externals) (state : ForkState) (merged : LocalCommit)
    (number : UInt64) (old : LocalBlock) (after : ForkState) : Prop where
  oldest : Oldest state merged.block number old
  few : after.blocksByNumber.size ≤ maxRetainedBlocks
  blocksByNumber : ∀ other, after.blocksByNumber[other]? =
    if other = number then none else (filedBlocks state merged.block)[other]?
  blocksByHash : ∀ hash, after.blocksByHash[hash]? =
    if hash = old.hash then none else filedHash ext state merged.block hash
  transactions : ∀ hash, after.transactions[hash]? = if hash ∈ old.transactions then none
    else (state.transactions.insert merged.transaction.hash merged.transaction)[hash]?
  receipts : ∀ hash, after.receipts[hash]? = if hash ∈ old.transactions then none
    else (state.receipts.insert merged.receipt.transactionHash merged.receipt)[hash]?

theorem filed_fileLocal (ext : Externals) {state before : ForkState}
    (same : SameIndexes state before) (merged : LocalCommit) :
    Filed ext state merged
      (fileLocal ext before merged.transaction merged.receipt merged.block) := by
  obtain ⟨transactions, receipts, -⟩ := sameIndexes_indexByHash ext
    { before with
      transactions := before.transactions.insert merged.transaction.hash merged.transaction
      receipts := before.receipts.insert merged.receipt.transactionHash merged.receipt }
    merged.block
  constructor
  · rw [blocksByNumber_fileLocal, same.blocksByNumber]
    rfl
  · intro hash
    refine (getElem?_blocksByHash_indexByHash ext _ merged.block hash).trans ?_
    rw [same.blocksByHash]
    exact (filedHash_eq ..).symm
  · rw [← same.transactions]
    exact transactions
  · rw [← same.receipts]
    exact receipts

theorem dropped_popFirstBlock {ext : Externals} {state filed : ForkState}
    {merged : LocalCommit} (isFiled : Filed ext state merged filed)
    (full : (filedBlocks state merged.block).size = maxRetainedBlocks + 1) :
    ∃ number old, Dropped ext state merged number old filed.popFirstBlock := by
  obtain ⟨empty, -⟩ | ⟨number, old, found, first, popped⟩ := popFirstBlock_cases filed
  · rw [← isFiled.blocksByNumber, empty, Std.ExtTreeMap.size_empty] at full
    cases full
  · rw [isFiled.blocksByNumber] at found first
    have member : number ∈ filedBlocks state merged.block :=
      Std.ExtTreeMap.mem_iff_isSome_getElem?.mpr (by rw [found]; rfl)
    refine ⟨number, old, ⟨by omega, found, first⟩, ?_, ?_, ?_, ?_, ?_⟩
    · rw [popped, isFiled.blocksByNumber, Std.ExtTreeMap.size_erase,
        if_pos (Std.ExtTreeMap.mem_iff_contains.mp member), full]
      exact Nat.le_refl _
    · intro other
      rw [popped, getElem?_erase, isFiled.blocksByNumber]
    · intro hash
      rw [popped, getElem?_erase, isFiled.blocksByHash]
    · intro hash
      rw [popped, OrderedMap.getElem?_foldl_erase, isFiled.transactions]
    · intro hash
      rw [popped, OrderedMap.getElem?_foldl_erase, isFiled.receipts]

theorem commit_cases (ext : Externals) {state : ForkState}
    (few : state.blocksByNumber.size ≤ maxRetainedBlocks) (merged : LocalCommit) :
    (filedBlocks state merged.block).size ≤ maxRetainedBlocks ∧
        Filed ext state merged (commit ext state merged) ∨
      ∃ number old, Dropped ext state merged number old (commit ext state merged) := by
  let before : ForkState :=
    { state with
      db := { state.db with dirty := state.db.dirty.applyStateDiff ext merged.diff }
      localBlockNumber := merged.block.number }
  let filed := fileLocal ext before merged.transaction merged.receipt merged.block
  have same : SameIndexes state before := ⟨rfl, rfl, rfl, rfl⟩
  have isFiled : Filed ext state merged filed := filed_fileLocal ext same merged
  have pruned : commit ext state merged =
      (popFirstBlock^[(filedBlocks state merged.block).size - maxRetainedBlocks]) filed := by
    rw [← isFiled.blocksByNumber]
    rfl
  by_cases surplus : (filedBlocks state merged.block).size ≤ maxRetainedBlocks
  · rw [Nat.sub_eq_zero_of_le surplus] at pruned
    rw [pruned]
    exact Or.inl ⟨surplus, isFiled⟩
  · have size : (filedBlocks state merged.block).size ≤ state.blocksByNumber.size + 1 :=
      Std.ExtTreeMap.size_insert_le
    have full : (filedBlocks state merged.block).size = maxRetainedBlocks + 1 := by omega
    rw [full, Nat.add_sub_cancel_left] at pruned
    rw [pruned]
    exact Or.inr (dropped_popFirstBlock isFiled full)

/-- A transaction hash is listed in a retained block. -/
def Listed (state : ForkState) (hash : B256) : Prop :=
  ∃ (number : UInt64) (block : LocalBlock),
    state.blocksByNumber[number]? = some block ∧ hash ∈ block.transactions

/-- At most a thousand blocks are retained, and only what belongs to them is indexed. -/
structure Retained (state : ForkState) : Prop where
  few : state.blocksByNumber.size ≤ maxRetainedBlocks
  blocksByHash : ∀ (hash : B256) (block : LocalBlock),
    state.blocksByHash[hash]? = some block →
      ∃ number : UInt64, state.blocksByNumber[number]? = some block
  transactions : ∀ hash ∈ state.transactions, Listed state hash
  receipts : ∀ hash ∈ state.receipts, Listed state hash

/-- The blocks are filed under their numbers. -/
def Numbered (state : ForkState) : Prop :=
  ∀ (number : UInt64) (block : LocalBlock),
    state.blocksByNumber[number]? = some block → block.number = number

/-- A hash is listed in the block of a commit, or in a block of another number. -/
def Covered (state : ForkState) (block : LocalBlock) (hash : B256) : Prop :=
  hash ∈ block.transactions ∨
    ∃ (number : UInt64) (other : LocalBlock), number ≠ block.number ∧
      state.blocksByNumber[number]? = some other ∧ hash ∈ other.transactions

/-- Nothing is left behind of a block that a commit replaces or drops: the hashes of a
replaced block are taken over, and a dropped block is found under its own hash only. -/
structure NothingLeft (ext : Externals) (state : ForkState) (merged : LocalCommit) :
    Prop where
  replaced : ∀ old, state.blocksByNumber[merged.block.number]? = some old →
    old ≠ merged.block → ∀ hash : B256, state.blocksByHash[hash]? = some old →
      hash ∈ blockKeys ext merged.block
  dropped : ∀ number old, Oldest state merged.block number old →
    ∀ hash, filedHash ext state merged.block hash = some old → hash = old.hash
  transactions : ∀ hash, hash = merged.transaction.hash ∨ hash ∈ state.transactions →
    Covered state merged.block hash
  receipts : ∀ hash, hash = merged.receipt.transactionHash ∨ hash ∈ state.receipts →
    Covered state merged.block hash

variable {ext : Externals} {state after : ForkState} {merged : LocalCommit}
  {number : UInt64} {old : LocalBlock}

theorem getElem?_filedBlocks (state : ForkState) (block : LocalBlock) (number : UInt64) :
    (filedBlocks state block)[number]? =
      if number = block.number then some block else state.blocksByNumber[number]? :=
  getElem?_insert state.blocksByNumber block.number number block

theorem exists_filedBlocks (state : ForkState) (block : LocalBlock) (hash : B256) :
    (∃ (number : UInt64) (other : LocalBlock),
      (filedBlocks state block)[number]? = some other ∧ hash ∈ other.transactions) ↔
        Covered state block hash := by
  constructor
  · rintro ⟨number, other, found, listed⟩
    rw [getElem?_filedBlocks] at found
    split at found
    case isTrue =>
      cases found
      exact Or.inl listed
    case isFalse apart => exact Or.inr ⟨number, other, apart, found, listed⟩
  · rintro (listed | ⟨number, other, apart, found, listed⟩)
    · exact ⟨block.number, block, by rw [getElem?_filedBlocks, if_pos rfl], listed⟩
    · exact ⟨number, other, by rw [getElem?_filedBlocks, if_neg apart, found], listed⟩

theorem Numbered.filed (numbered : Numbered state) {block other : LocalBlock}
    (found : (filedBlocks state block)[number]? = some other) : other.number = number := by
  rw [getElem?_filedBlocks] at found
  split at found
  case isTrue same =>
    cases found
    exact same.symm
  case isFalse => exact numbered number other found

theorem numbered_commit (numbered : Numbered state)
    (few : state.blocksByNumber.size ≤ maxRetainedBlocks) (merged : LocalCommit) :
    Numbered (commit ext state merged) := by
  intro number block found
  obtain ⟨-, filed⟩ | ⟨first, old, dropped⟩ := commit_cases ext few merged
  · rw [filed.blocksByNumber] at found
    exact numbered.filed found
  · rw [dropped.blocksByNumber] at found
    split at found
    case isTrue => cases found
    case isFalse => exact numbered.filed found

theorem listed_filed (filed : Filed ext state merged after) (hash : B256) :
    Listed after hash ↔ Covered state merged.block hash := by
  unfold Listed
  rw [filed.blocksByNumber]
  exact exists_filedBlocks state merged.block hash

theorem mem_insert_iff {Value : Type*} (map : Std.ExtTreeMap B256 Value) (key hash : B256)
    (value : Value) : hash ∈ map.insert key value ↔ hash = key ∨ hash ∈ map := by
  rw [Std.ExtTreeMap.mem_insert, Std.compare_eq_iff_eq, eq_comm]

/-- What is stored is listed when it was covered, and the new entry too. -/
theorem forall_listed_filed (filed : Filed ext state merged after) {Value : Type*}
    (map : Std.ExtTreeMap B256 Value) (key : B256) (value : Value) :
    (∀ hash ∈ map.insert key value, Listed after hash) ↔
      ∀ hash, hash = key ∨ hash ∈ map → Covered state merged.block hash :=
  forall_congr' fun hash => by rw [mem_insert_iff, listed_filed filed]

/-- What a hash leads to is filed, or was filed under the number of the block. -/
theorem exists_filed_or_replaced (retained : Retained state) {hash : B256}
    {block : LocalBlock} (leads : filedHash ext state merged.block hash = some block) :
    (∃ place : UInt64, (filedBlocks state merged.block)[place]? = some block) ∨
      state.blocksByNumber[merged.block.number]? = some block ∧ block ≠ merged.block ∧
        state.blocksByHash[hash]? = some block ∧ hash ∉ blockKeys ext merged.block := by
  have own : (filedBlocks state merged.block)[merged.block.number]? = some merged.block := by
    rw [getElem?_filedBlocks, if_pos rfl]
  rw [filedHash_eq] at leads
  split at leads
  case isTrue =>
    cases leads
    exact Or.inl ⟨_, own⟩
  case isFalse apart =>
    obtain ⟨place, found⟩ := retained.blocksByHash hash block leads
    by_cases same : block = merged.block
    · exact Or.inl ⟨_, by rw [same, own]⟩
    by_cases there : place = merged.block.number
    · rw [there] at found
      exact Or.inr ⟨found, same, leads, apart⟩
    · exact Or.inl ⟨place, by rw [getElem?_filedBlocks, if_neg there, found]⟩

/-- Without a dropped block. -/
theorem retained_filed_iff (numbered : Numbered state) (retained : Retained state)
    (few : (filedBlocks state merged.block).size ≤ maxRetainedBlocks)
    (filed : Filed ext state merged after) :
    Retained after ↔ NothingLeft ext state merged := by
  constructor
  · intro kept
    constructor
    · intro old found differs hash leads
      by_contra apart
      have later : after.blocksByHash[hash]? = some old := by
        rw [filed.blocksByHash, filedHash_eq, if_neg apart, leads]
      obtain ⟨number, foundLater⟩ := kept.blocksByHash hash old later
      rw [filed.blocksByNumber] at foundLater
      have same := (numbered.filed foundLater).symm.trans (numbered _ old found)
      rw [getElem?_filedBlocks, if_pos same] at foundLater
      exact differs (Option.some.inj foundLater).symm
    · intro number old oldest
      exact absurd oldest.many (Nat.not_lt.mpr few)
    · rw [← forall_listed_filed filed, ← filed.transactions]
      exact kept.transactions
    · rw [← forall_listed_filed filed, ← filed.receipts]
      exact kept.receipts
  · intro nothing
    constructor
    · rwa [filed.blocksByNumber]
    · intro hash block leads
      rw [filed.blocksByHash] at leads
      rw [filed.blocksByNumber]
      obtain present | ⟨found, differs, before, apart⟩ :=
        exists_filed_or_replaced retained leads
      · exact present
      · exact absurd (nothing.replaced block found differs hash before) apart
    · rw [filed.transactions, forall_listed_filed filed]
      exact nothing.transactions
    · rw [filed.receipts, forall_listed_filed filed]
      exact nothing.receipts

/-- A hash that the dropped block does not list is listed in the same blocks as before. -/
theorem listed_dropped (dropped : Dropped ext state merged number old after) {hash : B256}
    (unlisted : hash ∉ old.transactions) :
    Listed after hash ↔ Covered state merged.block hash := by
  rw [← exists_filedBlocks]
  constructor
  · rintro ⟨other, block, found, listed⟩
    rw [dropped.blocksByNumber] at found
    split at found
    case isTrue => cases found
    case isFalse => exact ⟨other, block, found, listed⟩
  · rintro ⟨other, block, found, listed⟩
    refine ⟨other, block, ?_, listed⟩
    rw [dropped.blocksByNumber, if_neg, found]
    rintro rfl
    rw [dropped.oldest.found, Option.some_inj] at found
    rw [found] at unlisted
    exact unlisted listed

theorem covered_of_oldest {block : LocalBlock} (oldest : Oldest state block number old)
    {hash : B256} (listed : hash ∈ old.transactions) : Covered state block hash :=
  (exists_filedBlocks state block hash).mp ⟨number, old, oldest.found, listed⟩

theorem Oldest.unique {block other : LocalBlock} {first : UInt64}
    (oldest : Oldest state block number old) (again : Oldest state block first other) :
    other = old := by
  have member : ∀ {number old}, Oldest state block number old →
      number ∈ filedBlocks state block := fun oldest =>
    Std.ExtTreeMap.mem_iff_isSome_getElem?.mpr (by rw [oldest.found]; rfl)
  have same : first = number := UInt64.le_antisymm (again.first number (member oldest))
    (oldest.first first (member again))
  have found := again.found
  rw [same, oldest.found, Option.some_inj] at found
  exact found.symm

/-- A block is dropped only when the number of the new one was not in use. -/
theorem Oldest.fresh {block : LocalBlock} (oldest : Oldest state block number old)
    (few : state.blocksByNumber.size ≤ maxRetainedBlocks) :
    state.blocksByNumber[block.number]? = none := by
  have many := oldest.many
  rw [filedBlocks, Std.ExtTreeMap.size_insert] at many
  split at many
  case isTrue => omega
  case isFalse unused => exact Std.ExtTreeMap.getElem?_eq_none unused

/-- The dropped block takes what it lists with it. -/
theorem forall_listed_dropped (dropped : Dropped ext state merged number old after)
    {Value : Type*} {map rest : Std.ExtTreeMap B256 Value} {key : B256} {value : Value}
    (erased : ∀ hash, rest[hash]? =
      if hash ∈ old.transactions then none else (map.insert key value)[hash]?) :
    (∀ hash ∈ rest, Listed after hash) ↔
      ∀ hash, hash = key ∨ hash ∈ map → Covered state merged.block hash := by
  refine forall_congr' fun hash => ?_
  rw [Std.ExtTreeMap.mem_iff_isSome_getElem?, erased, ← mem_insert_iff map key hash value]
  by_cases listed : hash ∈ old.transactions
  · have covered := covered_of_oldest dropped.oldest listed
    simp [listed, covered]
  · rw [if_neg listed, ← Std.ExtTreeMap.mem_iff_isSome_getElem?,
      listed_dropped dropped listed]

theorem retained_dropped_iff (numbered : Numbered state) (retained : Retained state)
    (dropped : Dropped ext state merged number old after) :
    Retained after ↔ NothingLeft ext state merged := by
  have oldest := dropped.oldest
  constructor
  · intro kept
    constructor
    · intro other found
      rw [oldest.fresh retained.few] at found
      cases found
    · intro first other again hash leads
      obtain rfl := oldest.unique again
      by_contra apart
      have later : after.blocksByHash[hash]? = some other := by
        rw [dropped.blocksByHash, if_neg apart, leads]
      obtain ⟨place, found⟩ := kept.blocksByHash hash other later
      rw [dropped.blocksByNumber] at found
      split at found
      case isTrue => cases found
      case isFalse elsewhere =>
        exact elsewhere ((numbered.filed found).symm.trans (numbered.filed oldest.found))
    · exact (forall_listed_dropped dropped dropped.transactions).mp kept.transactions
    · exact (forall_listed_dropped dropped dropped.receipts).mp kept.receipts
  · intro nothing
    constructor
    · exact dropped.few
    · intro hash block leads
      rw [dropped.blocksByHash] at leads
      split at leads
      case isTrue => cases leads
      case isFalse apart =>
        obtain ⟨place, found⟩ | ⟨found, -⟩ := exists_filed_or_replaced retained leads
        · refine ⟨place, ?_⟩
          rw [dropped.blocksByNumber, if_neg, found]
          rintro rfl
          rw [oldest.found, Option.some_inj] at found
          rw [← found] at leads
          exact apart (nothing.dropped place old oldest hash leads)
        · rw [oldest.fresh retained.few] at found
          cases found
    · exact (forall_listed_dropped dropped dropped.transactions).mpr nothing.transactions
    · exact (forall_listed_dropped dropped dropped.receipts).mpr nothing.receipts

theorem retained_commit_iff (ext : Externals) (numbered : Numbered state)
    (retained : Retained state) (merged : LocalCommit) :
    Retained (commit ext state merged) ↔ NothingLeft ext state merged := by
  obtain ⟨few, filed⟩ | ⟨number, old, dropped⟩ := commit_cases ext retained.few merged
  · exact retained_filed_iff numbered retained few filed
  · exact retained_dropped_iff numbered retained dropped

theorem retained_new (db : HybridDb) (localBlockNumber chainId timestamp : UInt64) :
    Retained (new db localBlockNumber chainId timestamp) where
  few := Nat.zero_le _
  blocksByHash hash block found := by
    have empty : (new db localBlockNumber chainId timestamp).blocksByHash[hash]? = none :=
      Std.ExtTreeMap.getElem?_empty
    rw [empty] at found
    cases found
  transactions _ stored := absurd stored Std.ExtTreeMap.not_mem_empty
  receipts _ stored := absurd stored Std.ExtTreeMap.not_mem_empty

theorem numbered_new (db : HybridDb) (localBlockNumber chainId timestamp : UInt64) :
    Numbered (new db localBlockNumber chainId timestamp) := by
  intro number block found
  have empty : (new db localBlockNumber chainId timestamp).blocksByNumber[number]? = none :=
    Std.ExtTreeMap.getElem?_empty
  rw [empty] at found
  cases found

/-- What is retained is right after every commit of a run exactly when no commit leaves
something behind. -/
theorem commits_retained_iff (ext : Externals) (db : HybridDb)
    (localBlockNumber chainId timestamp : UInt64) (commits : List LocalCommit) :
    (∀ state ∈ GuardedRun.states (commit ext) (new db localBlockNumber chainId timestamp)
        commits, Retained state) ↔
      GuardedRun.Guarded (commit ext) (NothingLeft ext)
        (new db localBlockNumber chainId timestamp) commits := by
  refine (and_iff_left fun _ _ => trivial).symm.trans
    (GuardedRun.guarded_iff_kept (commit ext) (NothingLeft ext) (fun _ _ => True)
      (fun state => Numbered state ∧ Retained state) Retained ?_ ?_
      ⟨numbered_new db localBlockNumber chainId timestamp, retained_new ..⟩
      (retained_new ..)).symm
  · rintro state merged ⟨numbered, retained⟩
    rw [retained_commit_iff ext numbered retained merged, and_true]
  · rintro state merged ⟨numbered, retained⟩ nothing
    exact ⟨numbered_commit numbered retained.few merged,
      (retained_commit_iff ext numbered retained merged).mpr nothing⟩

/-- The hash of some bytes is their value, and nothing is asked of the node. -/
def valueExternals : Externals where
  keccak256 := ofBytes 256
  accountInfo _ _ := .ok none
  storageAt _ _ _ := .ok 0
  ethCall _ _ _ _ := .ok []
  buildTx _ := .ok ()
  transact _ _ := .error (.upstream "lack of funds")

/-- The commit of a block with one transaction.  The sealed hash of the block is not the
hash of its number. -/
def numberedCommit (number : Nat) : LocalCommit where
  diff := {}
  transaction :=
    { hash := number, sender := 0, recipient := none, value := 0, input := [], gas := 0
      nonce := 0, blockNumber := .ofNat number }
  receipt :=
    { transactionHash := number, blockHash := (2 ^ 64 + number : Nat)
      blockNumber := .ofNat number, sender := 0, recipient := none, gasUsed := 0
      success := true, logs := [], stateDiff := {} }
  block :=
    { hash := (2 ^ 64 + number : Nat), number := .ofNat number, timestamp := 0, gasUsed := 0
      gasLimit := 0, baseFeePerGas := 0, coinbase := 0, prevRandao := 0
      transactions := [(number : B256)] }

/-- After some commits the first block is still found under the hash of its number. -/
structure Filled (count : Nat) (state : ForkState) : Prop where
  numbered : Numbered state
  size : state.blocksByNumber.size = count
  below : ∀ number ∈ state.blocksByNumber, number.toNat < count
  first : 0 < count → state.blocksByNumber[(0 : UInt64)]? = some (numberedCommit 0).block
  indexed : 0 < count → state.blocksByHash[(0 : B256)]? = some (numberedCommit 0).block

theorem canonical_numberedCommit {number : Nat} (small : number < 2 ^ 64) :
    valueExternals.keccak256 (u64Bytes (.ofNat number)) = (number : B256) := by
  have range : (256 : Nat) ^ 8 = 2 ^ 64 := by norm_num
  change ofBytes 256 (ByteEncoding.bigEndian 8 _) = _
  rw [ofBytes, ByteEncoding.foldl_bigEndian, range, UInt64.toNat_ofNat',
    Nat.mod_eq_of_lt small, Nat.mod_eq_of_lt small]
  rfl

theorem mem_blockKeys_numberedCommit {number : Nat} (small : number ≤ maxRetainedBlocks) :
    (0 : B256) ∈ blockKeys valueExternals (numberedCommit number).block ↔ number = 0 := by
  have limit : maxRetainedBlocks = 1000 := rfl
  rw [mem_blockKeys]
  change 0 = BitVec.ofNat 256 (2 ^ 64 + number) ∨
    0 = valueExternals.keccak256 (u64Bytes (.ofNat number)) ↔ number = 0
  rw [canonical_numberedCommit (by omega), ← BitVec.toNat_inj, ← BitVec.toNat_inj,
    BitVec.toNat_ofNat]
  change 0 = (2 ^ 64 + number) % 2 ^ 256 ∨ 0 = number % 2 ^ 256 ↔ number = 0
  omega

/-- The number of the next block is not in use. -/
theorem Filled.size_filedBlocks {count : Nat} (filled : Filled count state)
    (small : count ≤ maxRetainedBlocks) :
    (filedBlocks state (numberedCommit count).block).size = count + 1 := by
  have limit : maxRetainedBlocks = 1000 := rfl
  have unused : UInt64.ofNat count ∉ state.blocksByNumber := by
    intro member
    have below := filled.below _ member
    rw [UInt64.toNat_ofNat', Nat.mod_eq_of_lt (by omega)] at below
    exact Nat.lt_irrefl _ below
  rw [filedBlocks, Std.ExtTreeMap.size_insert, if_neg, filled.size]
  exact unused

theorem Filled.filedHash_zero {count : Nat} (filled : Filled count state)
    (small : count ≤ maxRetainedBlocks) :
    filedHash valueExternals state (numberedCommit count).block (0 : B256) =
      some (numberedCommit 0).block := by
  rw [filedHash_eq]
  split
  case isTrue own => rw [(mem_blockKeys_numberedCommit small).mp own]
  case isFalse other =>
    refine filled.indexed (Nat.pos_of_ne_zero fun zero => other ?_)
    exact (mem_blockKeys_numberedCommit small).mpr zero

theorem Filled.filedBlocks_zero {count : Nat} (filled : Filled count state)
    (small : count ≤ maxRetainedBlocks) :
    (filedBlocks state (numberedCommit count).block)[(0 : UInt64)]? =
      some (numberedCommit 0).block := by
  have limit : maxRetainedBlocks = 1000 := rfl
  rw [getElem?_filedBlocks]
  by_cases zero : count = 0
  · rw [zero]
    exact if_pos rfl
  · rw [if_neg, filled.first (Nat.pos_of_ne_zero zero)]
    intro same
    have value := congrArg UInt64.toNat same
    change 0 = (UInt64.ofNat count).toNat at value
    rw [UInt64.toNat_ofNat', Nat.mod_eq_of_lt (by omega)] at value
    omega

theorem Filled.commit {count : Nat} (filled : Filled count state)
    (small : count < maxRetainedBlocks) :
    Filled (count + 1) (commit valueExternals state (numberedCommit count)) := by
  have limit : maxRetainedBlocks = 1000 := rfl
  have few : state.blocksByNumber.size ≤ maxRetainedBlocks := by
    rw [filled.size]
    exact small.le
  have size := filled.size_filedBlocks small.le
  obtain ⟨-, filed⟩ | ⟨number, old, dropped⟩ :=
    commit_cases valueExternals few (numberedCommit count)
  swap
  · have many := dropped.oldest.many
    omega
  refine ⟨numbered_commit filled.numbered few _, ?_, ?_, ?_, ?_⟩
  · rw [filed.blocksByNumber, size]
  · intro number member
    rw [filed.blocksByNumber, filedBlocks, Std.ExtTreeMap.mem_insert,
      Std.compare_eq_iff_eq] at member
    obtain same | before := member
    · rw [← same]
      change (UInt64.ofNat count).toNat < count + 1
      rw [UInt64.toNat_ofNat', Nat.mod_eq_of_lt (by omega)]
      exact Nat.lt_succ_self count
    · exact (filled.below number before).trans (Nat.lt_succ_self count)
  · intro _
    rw [filed.blocksByNumber]
    exact filled.filedBlocks_zero small.le
  · intro _
    rw [filed.blocksByHash]
    exact filled.filedHash_zero small.le

theorem filled_foldl (count : Nat) (small : count ≤ maxRetainedBlocks) (db : HybridDb) :
    Filled count (((List.range count).map numberedCommit).foldl
      (ForkState.commit valueExternals) (new db 0 1 0)) := by
  induction count with
  | zero =>
      refine ⟨numbered_new db 0 1 0, rfl, ?_, ?_, ?_⟩
      · intro number member
        exact absurd member Std.ExtTreeMap.not_mem_empty
      · exact fun none => absurd none (Nat.lt_irrefl 0)
      · exact fun none => absurd none (Nat.lt_irrefl 0)
  | succ count ih =>
      rw [List.range_succ, List.map_append, List.foldl_append, List.map_singleton,
        List.foldl_cons, List.foldl_nil]
      exact (ih (Nat.le_of_succ_le small)).commit (Nat.lt_of_succ_le small)

/-- The thousand-and-first block drops the first one, which is still found. -/
theorem dropped_block_indexed :
    ¬ ∀ (ext : Externals) (db : HybridDb) (localBlockNumber chainId timestamp : UInt64)
        (commits : List LocalCommit),
      ∀ state ∈ GuardedRun.states (commit ext) (new db localBlockNumber chainId timestamp)
        commits, Retained state := by
  intro claim
  let db : HybridDb := { dirty := {}, pinnedBlock := none, chainId := 1 }
  have filled := filled_foldl maxRetainedBlocks (Nat.le_refl _) db
  have retained : ∀ count, Retained (((List.range count).map numberedCommit).foldl
      (ForkState.commit valueExternals) (new db 0 1 0)) := fun count =>
    claim _ _ _ _ _ _ _ (GuardedRun.foldl_mem_states _ _)
  have after := retained (maxRetainedBlocks + 1)
  rw [List.range_succ, List.map_append, List.foldl_append, List.map_singleton,
    List.foldl_cons, List.foldl_nil] at after
  have nothing := (retained_commit_iff valueExternals filled.numbered
    (retained maxRetainedBlocks) (numberedCommit maxRetainedBlocks)).mp after
  have oldest : Oldest _ (numberedCommit maxRetainedBlocks).block 0 (numberedCommit 0).block :=
    ⟨by rw [filled.size_filedBlocks (Nat.le_refl _)]; exact Nat.lt_succ_self _,
      filled.filedBlocks_zero (Nat.le_refl _), fun _ _ => UInt64.zero_le⟩
  have own := nothing.dropped 0 _ oldest 0 (filled.filedHash_zero (Nat.le_refl _))
  exact absurd own (by decide)

end ForkState

end Roko
