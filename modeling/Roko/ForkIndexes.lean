import Roko.ForkReads
import Roko.OrderedMaps
import Mathlib.Data.Finset.Card

/-!
# The retained blocks and their index entries

A block is evicted when a thousand blocks with larger numbers are retained, and takes
with it the entries of its transactions and of its hash.  Indexing a new block under
keys that are not in use loses nothing else.
-/

namespace Roko

namespace ForkState

variable {known : UInt64 → LocalBlock → Prop}

/-- The numbers of the retained blocks. -/
def numbers (state : ForkState) : Finset UInt64 :=
  state.blocksByNumber.keys.toFinset

@[simp]
theorem mem_numbers (state : ForkState) (number : UInt64) :
    number ∈ state.numbers ↔ number ∈ state.blocksByNumber := by
  rw [numbers, List.mem_toFinset, Std.ExtTreeMap.mem_keys]

theorem card_numbers (state : ForkState) :
    state.numbers.card = state.blocksByNumber.size := by
  rw [numbers, List.toFinset_card_of_nodup Std.ExtTreeMap.nodup_keys,
    Std.ExtTreeMap.length_keys]

/-- As many blocks as are retained have larger numbers. -/
def Evicted (state : ForkState) (number : UInt64) : Prop :=
  maxRetainedBlocks ≤ (state.numbers.filter (number < ·)).card

theorem not_evicted {state : ForkState} {number : UInt64}
    (few : state.blocksByNumber.size < maxRetainedBlocks) : ¬ Evicted state number := by
  intro evicted
  have retained := Finset.card_filter_le state.numbers (number < ·)
  rw [card_numbers] at retained
  exact absurd (le_trans evicted retained) (not_le.mpr few)

/-- A block that has the key among its own was evicted. -/
def KeyEvicted (known : UInt64 → LocalBlock → Prop) (keysOf : LocalBlock → List B256)
    (state : ForkState) (key : B256) : Prop :=
  ∃ number block, known number block ∧ key ∈ keysOf block ∧ Evicted state number

def hashKeys (block : LocalBlock) : List B256 := [block.hash]

/-- What is found in the indexes of transactions, receipts and blocks. -/
structure IndexEntries where
  transactions : B256 → Option LocalTransaction
  receipts : B256 → Option LocalReceipt
  blocksByNumber : UInt64 → Option LocalBlock
  blocksByHash : B256 → Option LocalBlock

def entries (state : ForkState) : IndexEntries where
  transactions hash := state.transactions[hash]?
  receipts hash := state.receipts[hash]?
  blocksByNumber number := state.blocksByNumber[number]?
  blocksByHash hash := state.blocksByHash[hash]?

/-- Every entry is found, or was evicted with a known block. -/
structure Shows (known : UInt64 → LocalBlock → Prop) (entries : IndexEntries)
    (state : ForkState) : Prop where
  transactions : ∀ hash transaction, entries.transactions hash = some transaction →
    state.transactions[hash]? = some transaction ∨
      KeyEvicted known LocalBlock.transactions state hash
  receipts : ∀ hash receipt, entries.receipts hash = some receipt →
    state.receipts[hash]? = some receipt ∨
      KeyEvicted known LocalBlock.transactions state hash
  blocksByNumber : ∀ number block, entries.blocksByNumber number = some block →
    state.blocksByNumber[number]? = some block ∨ Evicted state number
  blocksByHash : ∀ hash block, entries.blocksByHash hash = some block →
    state.blocksByHash[hash]? = some block ∨ KeyEvicted known hashKeys state hash

/-- Index entries are lost by eviction only, and eviction is final. -/
structure Keeps (known : UInt64 → LocalBlock → Prop) (before after : ForkState) :
    Prop where
  evicted : ∀ number, Evicted before number → Evicted after number
  shows : Shows known before.entries after

theorem evicted_congr {before after : ForkState} {number : UInt64}
    (same : after.blocksByNumber = before.blocksByNumber) :
    Evicted after number ↔ Evicted before number := by
  unfold Evicted numbers
  rw [same]

theorem KeyEvicted.mono {keysOf : LocalBlock → List B256} {before after : ForkState}
    {key : B256} (later : ∀ number, Evicted before number → Evicted after number)
    (gone : KeyEvicted known keysOf before key) : KeyEvicted known keysOf after key := by
  obtain ⟨number, block, isKnown, listed, evicted⟩ := gone
  exact ⟨number, block, isKnown, listed, later number evicted⟩

theorem KeyEvicted.mono_known {known' : UInt64 → LocalBlock → Prop}
    {keysOf : LocalBlock → List B256} {state : ForkState} {key : B256}
    (more : ∀ number block, known number block → known' number block)
    (gone : KeyEvicted known keysOf state key) : KeyEvicted known' keysOf state key := by
  obtain ⟨number, block, isKnown, listed, evicted⟩ := gone
  exact ⟨number, block, more number block isKnown, listed, evicted⟩

theorem Shows.trans {entries : IndexEntries} {before after : ForkState}
    (shown : Shows known entries before) (kept : Keeps known before after) :
    Shows known entries after where
  transactions hash transaction found := by
    rcases shown.transactions hash transaction found with present | gone
    · exact kept.shows.transactions hash transaction present
    · exact Or.inr (gone.mono kept.evicted)
  receipts hash receipt found := by
    rcases shown.receipts hash receipt found with present | gone
    · exact kept.shows.receipts hash receipt present
    · exact Or.inr (gone.mono kept.evicted)
  blocksByNumber number block found := by
    rcases shown.blocksByNumber number block found with present | gone
    · exact kept.shows.blocksByNumber number block present
    · exact Or.inr (kept.evicted number gone)
  blocksByHash hash block found := by
    rcases shown.blocksByHash hash block found with present | gone
    · exact kept.shows.blocksByHash hash block present
    · exact Or.inr (gone.mono kept.evicted)

theorem Keeps.trans {first second third : ForkState} (left : Keeps known first second)
    (right : Keeps known second third) : Keeps known first third :=
  ⟨fun number evicted => right.evicted number (left.evicted number evicted),
    left.shows.trans right⟩

theorem Keeps.of_sameIndexes {before after : ForkState}
    (same : SameIndexes before after) : Keeps known before after where
  evicted _ evicted := (evicted_congr same.blocksByNumber).mpr evicted
  shows :=
    { transactions := fun hash transaction found =>
        Or.inl (by rw [same.transactions]; exact found)
      receipts := fun hash receipt found => Or.inl (by rw [same.receipts]; exact found)
      blocksByNumber := fun number block found =>
        Or.inl (by rw [same.blocksByNumber]; exact found)
      blocksByHash := fun hash block found =>
        Or.inl (by rw [same.blocksByHash]; exact found) }

theorem Shows.mono {known' : UInt64 → LocalBlock → Prop} {entries : IndexEntries}
    {state : ForkState} (more : ∀ number block, known number block → known' number block)
    (shown : Shows known entries state) : Shows known' entries state where
  transactions hash transaction found :=
    (shown.transactions hash transaction found).imp id (KeyEvicted.mono_known more)
  receipts hash receipt found :=
    (shown.receipts hash receipt found).imp id (KeyEvicted.mono_known more)
  blocksByNumber := shown.blocksByNumber
  blocksByHash hash block found :=
    (shown.blocksByHash hash block found).imp id (KeyEvicted.mono_known more)

theorem popFirstBlock_cases (state : ForkState) :
    (state.blocksByNumber = ∅ ∧ state.popFirstBlock = state) ∨
    ∃ number old, state.blocksByNumber[number]? = some old ∧
      (∀ other ∈ state.blocksByNumber, number ≤ other) ∧
      state.popFirstBlock =
        { state with
          blocksByNumber := state.blocksByNumber.erase number
          blocksByHash := state.blocksByHash.erase old.hash
          transactions := old.transactions.foldl (fun map hash => map.erase hash)
            state.transactions
          receipts := old.transactions.foldl (fun map hash => map.erase hash)
            state.receipts } := by
  unfold popFirstBlock
  cases first : state.blocksByNumber.minEntry? with
  | none => exact Or.inl ⟨OrderedMap.minEntry?_eq_none first, rfl⟩
  | some entry =>
      obtain ⟨number, old⟩ := entry
      exact Or.inr ⟨number, old, OrderedMap.getElem?_of_minEntry? first,
        fun _ => OrderedMap.minEntry?_le first, rfl⟩

/-- Where the first of more than a thousand blocks is dropped, it and everything
before it is evicted. -/
theorem evicted_of_erase_first {before after : ForkState} {number earlier : UInt64}
    (erased : after.blocksByNumber = before.blocksByNumber.erase number)
    (member : number ∈ before.blocksByNumber)
    (first : ∀ other ∈ before.blocksByNumber, number ≤ other)
    (surplus : maxRetainedBlocks < before.blocksByNumber.size)
    (upto : earlier ≤ number) : Evicted after earlier := by
  have rest : after.numbers = before.numbers.erase number := by
    ext other
    rw [mem_numbers, erased, Finset.mem_erase, mem_numbers, Std.ExtTreeMap.mem_erase,
      Ne, Std.compare_eq_iff_eq, eq_comm]
  have all : after.numbers.filter (earlier < ·) = before.numbers.erase number := by
    rw [rest, Finset.filter_eq_self]
    intro other remains
    obtain ⟨other_ne, other_mem⟩ := Finset.mem_erase.mp remains
    have later := first other ((mem_numbers before other).mp other_mem)
    exact UInt64.lt_of_le_of_lt upto (UInt64.lt_of_le_of_ne later (Ne.symm other_ne))
  rw [Evicted, all, Finset.card_erase_of_mem ((mem_numbers before number).mpr member),
    card_numbers]
  omega

/-- A number that is evicted stays so when a first block is dropped. -/
theorem evicted_erase_first {before after : ForkState} {number other : UInt64}
    (erased : after.blocksByNumber = before.blocksByNumber.erase number)
    (member : number ∈ before.blocksByNumber)
    (first : ∀ other ∈ before.blocksByNumber, number ≤ other)
    (surplus : maxRetainedBlocks < before.blocksByNumber.size)
    (evicted : Evicted before other) : Evicted after other := by
  by_cases upto : other ≤ number
  · exact evicted_of_erase_first erased member first surplus upto
  · have same : before.numbers.filter (other < ·) ⊆ after.numbers.filter (other < ·) := by
      intro later
      rw [Finset.mem_filter, Finset.mem_filter, mem_numbers, mem_numbers, erased,
        Std.ExtTreeMap.mem_erase, Ne, Std.compare_eq_iff_eq]
      rintro ⟨retained, larger⟩
      refine ⟨⟨fun equal => upto ?_, retained⟩, larger⟩
      rw [equal]
      exact UInt64.le_of_lt larger
    exact le_trans evicted (Finset.card_le_card same)

theorem keeps_popFirstBlock {state : ForkState}
    (all : ∀ number block, state.blocksByNumber[number]? = some block →
      known number block)
    (surplus : maxRetainedBlocks < state.blocksByNumber.size) :
    Keeps known state state.popFirstBlock := by
  rcases popFirstBlock_cases state with
    ⟨-, unchanged⟩ | ⟨number, old, found, first, popped⟩
  · rw [unchanged]
    exact Keeps.of_sameIndexes ⟨rfl, rfl, rfl, rfl⟩
  · have member : number ∈ state.blocksByNumber :=
      Std.ExtTreeMap.mem_iff_isSome_getElem?.mpr (by rw [found]; rfl)
    have erased : state.popFirstBlock.blocksByNumber =
        state.blocksByNumber.erase number := by rw [popped]
    have gone : Evicted state.popFirstBlock number :=
      evicted_of_erase_first erased member first surplus (UInt64.le_refl _)
    refine ⟨fun other => evicted_erase_first erased member first surplus, ?_⟩
    constructor
    case blocksByNumber =>
      intro other block retained
      rw [erased, getElem?_erase]
      by_cases same : other = number
      · rw [same]
        exact Or.inr gone
      · rw [if_neg same]
        exact Or.inl retained
    case transactions =>
      intro hash transaction indexed
      by_cases listed : hash ∈ old.transactions
      · exact Or.inr ⟨number, old, all number old found, listed, gone⟩
      · rw [popped, OrderedMap.getElem?_foldl_erase, if_neg listed]
        exact Or.inl indexed
    case receipts =>
      intro hash receipt indexed
      by_cases listed : hash ∈ old.transactions
      · exact Or.inr ⟨number, old, all number old found, listed, gone⟩
      · rw [popped, OrderedMap.getElem?_foldl_erase, if_neg listed]
        exact Or.inl indexed
    case blocksByHash =>
      intro hash block indexed
      by_cases own : hash = old.hash
      · exact Or.inr ⟨number, old, all number old found, List.mem_singleton.mpr own, gone⟩
      · rw [popped, getElem?_erase, if_neg own]
        exact Or.inl indexed

theorem blocksByNumber_popFirstBlock {state : ForkState} {number : UInt64}
    {block : LocalBlock}
    (found : state.popFirstBlock.blocksByNumber[number]? = some block) :
    state.blocksByNumber[number]? = some block := by
  rcases popFirstBlock_cases state with ⟨-, unchanged⟩ | ⟨first, old, -, -, popped⟩
  · rwa [unchanged] at found
  · rw [popped, getElem?_erase] at found
    split at found
    case isTrue => cases found
    case isFalse => exact found

theorem size_popFirstBlock (state : ForkState) :
    state.blocksByNumber.size ≤ state.popFirstBlock.blocksByNumber.size + 1 := by
  rcases popFirstBlock_cases state with ⟨-, unchanged⟩ | ⟨first, old, -, -, popped⟩
  · rw [unchanged]
    exact Nat.le_succ _
  · rw [popped]
    exact Std.ExtTreeMap.size_le_size_erase

theorem keeps_pruneOldBlocks {state : ForkState}
    (all : ∀ number block, state.blocksByNumber[number]? = some block →
      known number block) :
    Keeps known state state.pruneOldBlocks ∧
      ∀ number block, state.pruneOldBlocks.blocksByNumber[number]? = some block →
        known number block := by
  -- Every turn of the loop starts with a surplus.
  have turns : ∀ (count : Nat) (state : ForkState),
      maxRetainedBlocks + count ≤ state.blocksByNumber.size ∨ count = 0 →
      (∀ number block, state.blocksByNumber[number]? = some block →
        known number block) →
      Keeps known state (popFirstBlock^[count] state) ∧
        ∀ number block, (popFirstBlock^[count] state).blocksByNumber[number]? =
          some block → known number block := by
    intro count
    induction count with
    | zero => exact fun state _ all => ⟨Keeps.of_sameIndexes ⟨rfl, rfl, rfl, rfl⟩, all⟩
    | succ count ih =>
        intro state surplus all
        have many : maxRetainedBlocks + (count + 1) ≤ state.blocksByNumber.size := by
          omega
        have next := ih state.popFirstBlock
          (Or.inl (by have := size_popFirstBlock state; omega))
          fun number block found => all number block (blocksByNumber_popFirstBlock found)
        rw [Function.iterate_succ_apply]
        exact ⟨(keeps_popFirstBlock all (by omega)).trans next.1, next.2⟩
  exact turns _ state (by omega) all

/-- The index entries of a block, before pruning. -/
def fileBlock (ext : Externals) (state : ForkState) (block : LocalBlock) : ForkState :=
  let state := indexByHash ext state block
  { state with blocksByNumber := state.blocksByNumber.insert block.number block }

/-- The index entries of a transaction and its block, before pruning. -/
def fileLocal (ext : Externals) (state : ForkState) (transaction : LocalTransaction)
    (receipt : LocalReceipt) (block : LocalBlock) : ForkState :=
  fileBlock ext { state with
    transactions := state.transactions.insert transaction.hash transaction
    receipts := state.receipts.insert receipt.transactionHash receipt } block

/-- The hashes under which a block is found. -/
def blockKeys (ext : Externals) (block : LocalBlock) : List B256 :=
  [block.hash, ext.keccak256 (u64Bytes block.number)]

theorem mem_blockKeys {ext : Externals} {block : LocalBlock} {hash : B256} :
    hash ∈ blockKeys ext block ↔
      hash = block.hash ∨ hash = ext.keccak256 (u64Bytes block.number) :=
  List.mem_pair

theorem getElem?_blocksByHash_indexByHash (ext : Externals) (state : ForkState)
    (block : LocalBlock) (hash : B256) :
    (indexByHash ext state block).blocksByHash[hash]? =
      if hash ∈ blockKeys ext block then some block else state.blocksByHash[hash]? := by
  have byHash : (indexByHash ext state block).blocksByHash[hash]? =
      if hash = ext.keccak256 (u64Bytes block.number) ∨ hash = block.hash then some block
      else state.blocksByHash[hash]? := by
    unfold indexByHash
    dsimp only
    split
    case isTrue =>
      rw [getElem?_insert, getElem?_insert]
      exact (ite_or _ _ _ _).symm
    case isFalse equal =>
      refine (getElem?_insert state.blocksByHash block.hash hash block).trans
        (if_congr ?_ rfl rfl)
      rw [not_not.mp equal, or_self]
  rw [byHash]
  exact if_congr (or_comm.trans mem_blockKeys.symm) rfl rfl

theorem sameIndexes_indexByHash (ext : Externals) (state : ForkState)
    (block : LocalBlock) :
    (indexByHash ext state block).transactions = state.transactions ∧
      (indexByHash ext state block).receipts = state.receipts ∧
      (indexByHash ext state block).blocksByNumber = state.blocksByNumber := by
  unfold indexByHash
  dsimp only
  split <;> exact ⟨rfl, rfl, rfl⟩

/-- No block is indexed under the number or the hashes of the block. -/
structure BlockUnused (ext : Externals) (state : ForkState) (block : LocalBlock) :
    Prop where
  number : state.blocksByNumber[block.number]? = none
  hashes : ∀ hash ∈ blockKeys ext block, state.blocksByHash[hash]? = none

/-- A block that gets entries of its own takes nothing away from the others. -/
theorem keeps_of_filed {before after : ForkState} {block : LocalBlock}
    {keys : List B256} (sameTransactions : after.transactions = before.transactions)
    (sameReceipts : after.receipts = before.receipts)
    (numbered : after.blocksByNumber = before.blocksByNumber.insert block.number block)
    (hashed : ∀ hash, after.blocksByHash[hash]? =
      if hash ∈ keys then some block else before.blocksByHash[hash]?)
    (unusedNumber : before.blocksByNumber[block.number]? = none)
    (unusedKeys : ∀ hash ∈ keys, before.blocksByHash[hash]? = none) :
    Keeps known before after := by
  refine ⟨fun number evicted => ?_, ?_⟩
  · refine le_trans evicted (Finset.card_le_card (Finset.filter_subset_filter _ ?_))
    intro other retained
    rw [mem_numbers] at retained ⊢
    rw [numbered, Std.ExtTreeMap.mem_insert]
    exact Or.inr retained
  constructor
  case transactions =>
    intro hash transaction found
    left
    rw [sameTransactions]
    exact found
  case receipts =>
    intro hash receipt found
    left
    rw [sameReceipts]
    exact found
  case blocksByNumber =>
    intro number other found
    have apart : number ≠ block.number := by
      rintro rfl
      cases unusedNumber.symm.trans found
    left
    rw [numbered, getElem?_insert_of_ne apart]
    exact found
  case blocksByHash =>
    intro hash other found
    have apart : hash ∉ keys := by
      intro own
      cases (unusedKeys hash own).symm.trans found
    left
    rw [hashed, if_neg apart]
    exact found

theorem keeps_fileBlock {ext : Externals} {state : ForkState} {block : LocalBlock}
    (unused : BlockUnused ext state block) :
    Keeps known state (fileBlock ext state block) := by
  obtain ⟨sameTransactions, sameReceipts, sameBlocks⟩ :=
    sameIndexes_indexByHash ext state block
  refine keeps_of_filed sameTransactions sameReceipts ?_
    (getElem?_blocksByHash_indexByHash ext state block) unused.number unused.hashes
  unfold fileBlock
  dsimp only
  rw [sameBlocks]

/-- Nothing is indexed under the keys of the transaction, its receipt and its block. -/
structure LocalUnused (ext : Externals) (state : ForkState)
    (transaction : LocalTransaction) (receipt : LocalReceipt) (block : LocalBlock) :
    Prop where
  transaction : state.transactions[transaction.hash]? = none
  receipt : state.receipts[receipt.transactionHash]? = none
  block : BlockUnused ext state block

theorem keeps_fileLocal {ext : Externals} {state : ForkState}
    {transaction : LocalTransaction} {receipt : LocalReceipt} {block : LocalBlock}
    (unused : LocalUnused ext state transaction receipt block) :
    Keeps known state (fileLocal ext state transaction receipt block) := by
  have inserted : Keeps known state { state with
      transactions := state.transactions.insert transaction.hash transaction
      receipts := state.receipts.insert receipt.transactionHash receipt } := by
    refine ⟨fun _ evicted => evicted, ?_⟩
    constructor
    case blocksByNumber => exact fun _ _ found => Or.inl found
    case blocksByHash => exact fun _ _ found => Or.inl found
    case transactions =>
      intro hash other found
      have apart : hash ≠ transaction.hash := by
        rintro rfl
        cases unused.transaction.symm.trans found
      left
      rw [getElem?_insert_of_ne apart]
      exact found
    case receipts =>
      intro hash other found
      have apart : hash ≠ receipt.transactionHash := by
        rintro rfl
        cases unused.receipt.symm.trans found
      left
      rw [getElem?_insert_of_ne apart]
      exact found
  exact inserted.trans (keeps_fileBlock ⟨unused.block.number, unused.block.hashes⟩)

theorem blocksByNumber_fileLocal (ext : Externals) (state : ForkState)
    (transaction : LocalTransaction) (receipt : LocalReceipt) (block : LocalBlock) :
    (fileLocal ext state transaction receipt block).blocksByNumber =
      state.blocksByNumber.insert block.number block := by
  unfold fileLocal fileBlock
  dsimp only
  rw [(sameIndexes_indexByHash ext _ block).2.2]

theorem keeps_insertLocal (ext : Externals) (state : ForkState)
    (transaction : LocalTransaction) (receipt : LocalReceipt) (block : LocalBlock)
    (unused : LocalUnused ext state transaction receipt block)
    (all : ∀ number block, state.blocksByNumber[number]? = some block →
      known number block)
    (new : known block.number block) :
    Keeps known (fileLocal ext state transaction receipt block)
        (insertLocal ext state transaction receipt block) ∧
      Keeps known state (insertLocal ext state transaction receipt block) ∧
      ∀ number other, (insertLocal ext state transaction receipt
        block).blocksByNumber[number]? = some other → known number other := by
  have filed : ∀ number other, (fileLocal ext state transaction receipt
      block).blocksByNumber[number]? = some other → known number other := by
    intro number other found
    rw [blocksByNumber_fileLocal, getElem?_insert] at found
    split at found
    case isTrue same =>
      cases found
      rw [same]
      exact new
    case isFalse => exact all number other found
  have pruned := keeps_pruneOldBlocks filed
  exact ⟨pruned.1, (keeps_fileLocal unused).trans pruned.1, pruned.2⟩

/-- Without the block that was added: the keys it is evicted with were not in use. -/
theorem keeps_insertLocal_of_own {ext : Externals} {state : ForkState}
    {transaction : LocalTransaction} {receipt : LocalReceipt} {block : LocalBlock}
    (unused : LocalUnused ext state transaction receipt block)
    (all : ∀ number block, state.blocksByNumber[number]? = some block →
      known number block)
    (sameHash : receipt.transactionHash = transaction.hash)
    (own : block.transactions = [transaction.hash]) :
    Keeps known state (insertLocal ext state transaction receipt block) := by
  have kept := (keeps_insertLocal ext state transaction receipt block unused
    (fun number other found => Or.inl (all number other found) :
      ∀ number other, state.blocksByNumber[number]? = some other →
        known number other ∨ other = block) (Or.inr rfl)).2.1
  have byKnown : ∀ {keysOf : LocalBlock → List B256} {key : B256},
      (key ∈ keysOf block → False) →
      KeyEvicted (fun number other => known number other ∨ other = block) keysOf
        (insertLocal ext state transaction receipt block) key →
      KeyEvicted known keysOf
        (insertLocal ext state transaction receipt block) key := by
    rintro keysOf key apart ⟨number, other, isKnown | rfl, listed, evicted⟩
    · exact ⟨number, other, isKnown, listed, evicted⟩
    · exact (apart listed).elim
  refine ⟨kept.evicted, ?_⟩
  constructor
  case blocksByNumber => exact kept.shows.blocksByNumber
  case transactions =>
    intro hash other found
    refine (kept.shows.transactions hash other found).imp id (byKnown fun listed => ?_)
    rw [own, List.mem_singleton] at listed
    rw [listed] at found
    cases unused.transaction.symm.trans found
  case receipts =>
    intro hash other found
    refine (kept.shows.receipts hash other found).imp id (byKnown fun listed => ?_)
    rw [own, List.mem_singleton, ← sameHash] at listed
    rw [listed] at found
    cases unused.receipt.symm.trans found
  case blocksByHash =>
    intro hash other found
    refine (kept.shows.blocksByHash hash other found).imp id (byKnown fun listed => ?_)
    rw [List.mem_singleton.mp listed] at found
    cases (unused.block.hashes _ (mem_blockKeys.mpr (Or.inl rfl))).symm.trans found

end ForkState

end Roko
