import Mathlib.Data.List.MinMax
import Mathlib.Data.List.Nodup
import Mathlib.Data.Prod.Lex
import Roko.GuardedRuns
import Roko.PathPolicy

/-!
# The tool result cache

The model of `roko-agent/src/dispatcher/result_cache.rs`.  Results of calls that only read
are kept until they expire, are evicted, or a call that writes drops them.  The readings of
the clock come with the calls, and so does the order in which the hash map is iterated,
which decides between entries of the same age.
-/

namespace Roko

inductive ToolResult (Output : Type) where
  | ok (output : Output)
  | err (error : ToolError)
deriving DecidableEq

def maxCacheEntries : Nat := 256

def deterministicTools : List String :=
  ["read_file", "read", "glob", "grep", "list_directory", "search_files", "find_definition",
    "find_references", "get_symbols"]

def invalidatingTools : List String :=
  ["write_file", "write", "edit_file", "edit", "create_file", "delete_file", "bash",
    "execute_command", "shell"]

def isDeterministic (toolName : String) : Bool :=
  deterministicTools.any (· == toolName.toLower)

def isInvalidating (toolName : String) : Bool :=
  invalidatingTools.any (· == toolName.toLower)

/-- The hash of the arguments is taken to be injective, so that they stand for it. -/
structure CacheKey where
  toolName : String
  arguments : JsonValue
deriving DecidableEq

def cacheKey (call : ToolCall) : CacheKey where
  toolName := call.name.toLower
  arguments := call.arguments

/-- The strings under one of the argument names. -/
def pathsUnder (arguments : JsonValue) (key : String) : List String :=
  match arguments.get key with
  | some (.string text) => [text]
  | some (.array values) => values.filterMap JsonValue.asStr
  | _ => []

def pathKeys : List String :=
  ["file_path", "path", "paths", "directory", "target"]

def extractPaths (call : ToolCall) : List String :=
  pathKeys.flatMap (pathsUnder call.arguments)

def pathsOverlap (left right : String) : Bool :=
  left == right || right.toList.isPrefixOf left.toList || left.toList.isPrefixOf right.toList

structure CacheEntry (Output : Type) where
  result : ToolResult Output
  createdAt : Nat
  lastAccessed : Nat
  affectedPaths : List String

/-- The entries stand in some order, each key once. -/
structure ToolResultCache (Output : Type) where
  entries : List (CacheKey × CacheEntry Output)
  ttl : Nat
  hits : UInt64
  misses : UInt64

variable {Output : Type}

/-- `duration_since` saturates at zero. -/
def CacheEntry.Expired (entry : CacheEntry Output) (ttl now : Nat) : Prop :=
  ttl < now - entry.createdAt

instance (entry : CacheEntry Output) (ttl now : Nat) : Decidable (entry.Expired ttl now) :=
  inferInstanceAs (Decidable (_ < _))

namespace ToolResultCache

def withTtl (ttl : Nat) : ToolResultCache Output :=
  ⟨[], ttl, 0, 0⟩

def lookup (cache : ToolResultCache Output) (key : CacheKey) : Option (CacheEntry Output) :=
  (cache.entries.find? fun entry => entry.1 = key).map Prod.snd

/-- The entries of the other keys. -/
def others (entries : List (CacheKey × CacheEntry Output)) (key : CacheKey) :
    List (CacheKey × CacheEntry Output) :=
  entries.filter fun entry => entry.1 ≠ key

def get (cache : ToolResultCache Output) (call : ToolCall) (now : Nat) :
    Option (ToolResult Output) × ToolResultCache Output :=
  if !isDeterministic call.name then (none, cache)
  else
    let key := cacheKey call
    match cache.lookup key with
    | none => (none, { cache with misses := cache.misses + 1 })
    | some entry =>
        if entry.Expired cache.ttl now then
          (none, { cache with
            entries := others cache.entries key
            misses := cache.misses + 1 })
        else
          (some entry.result, { cache with
            entries := cache.entries.map fun other =>
              if other.1 = key then (other.1, { other.2 with lastAccessed := now }) else other
            hits := cache.hits + 1 })

/-- The second pass of the eviction; each turn of its loop removes an entry. -/
def evictLru (iterated : CacheKey → Nat) :
    Nat → List (CacheKey × CacheEntry Output) → List (CacheKey × CacheEntry Output)
  | 0, entries => entries
  | turns + 1, entries =>
      if maxCacheEntries ≤ entries.length then
        match entries.argmin fun entry => toLex (entry.2.lastAccessed, iterated entry.1) with
        | none => entries
        | some oldest => evictLru iterated turns (others entries oldest.1)
      else entries

def evictExpiredOrLru (cache : ToolResultCache Output) (now : Nat)
    (iterated : CacheKey → Nat) : ToolResultCache Output :=
  let kept := cache.entries.filter fun entry => ¬ entry.2.Expired cache.ttl now
  { cache with entries := evictLru iterated kept.length kept }

/-- `put`, which reads the clock when it evicts and when it stores. -/
def put (cache : ToolResultCache Output) (call : ToolCall) (result : ToolResult Output)
    (now created : Nat) (iterated : CacheKey → Nat) : ToolResultCache Output :=
  if !isDeterministic call.name then cache
  else
    match result with
    | .err _ => cache
    | .ok _ =>
        let cache := if maxCacheEntries ≤ cache.entries.length then
          cache.evictExpiredOrLru now iterated else cache
        let key := cacheKey call
        let entry : CacheEntry Output :=
          { result
            createdAt := created
            lastAccessed := created
            affectedPaths := extractPaths call }
        { cache with entries := others cache.entries key ++ [(key, entry)] }

def invalidate (cache : ToolResultCache Output) (call : ToolCall) : ToolResultCache Output :=
  if !isInvalidating call.name then cache
  else
    let modifiedPaths := extractPaths call
    if modifiedPaths.isEmpty then
      if call.name == "bash" || call.name == "execute_command" || call.name == "shell" then
        { cache with entries := [] }
      else cache
    else
      { cache with
        entries := cache.entries.filter fun entry =>
          !entry.2.affectedPaths.any fun path =>
            modifiedPaths.any fun modified => pathsOverlap path modified }

end ToolResultCache

def shellTools : List String :=
  ["bash", "execute_command", "shell"]

def fileWritingTools : List String :=
  ["write_file", "write", "edit_file", "edit", "create_file", "delete_file"]

/-- Where a path argument points, seen from the workspace. -/
def located (worktree : PathBuf) (path : String) : PathBuf :=
  (PathBuf.joined worktree path).normalize

/-- What a call reads; without path arguments, the whole workspace. -/
def readPaths (worktree : PathBuf) (reading : ToolCall) : List PathBuf :=
  if extractPaths reading = [] then [worktree.normalize]
  else (extractPaths reading).map (located worktree)

/-- The one call makes results of the other one stale: it may do anything, or it writes a
path that the other one reads, contains or lies in. -/
def Covers (worktree : PathBuf) (writing reading : ToolCall) : Prop :=
  writing.name.toLower ∈ shellTools ∨
    writing.name.toLower ∈ fileWritingTools ∧
      ∃ path ∈ readPaths worktree reading, ∃ modified ∈ extractPaths writing,
        path.startsWith (located worktree modified) = true ∨
          (located worktree modified).startsWith path = true

/-- The test that `invalidate` makes of an entry. -/
def Drops (writing : ToolCall) (entry : CacheEntry Output) : Prop :=
  (writing.name ∈ shellTools ∧ extractPaths writing = []) ∨
    ∃ path ∈ entry.affectedPaths, ∃ modified ∈ extractPaths writing,
      pathsOverlap path modified = true

inductive CacheCall (Output : Type) where
  | put (call : ToolCall) (result : ToolResult Output) (later : Nat)
      (iterated : CacheKey → Nat)
  | get (call : ToolCall)
  | invalidate (call : ToolCall)

/-- A call of the cache, some time after the one before it. -/
structure TimedCall (Output : Type) where
  elapsed : Nat
  call : CacheCall Output

/-- A cache and the clock. -/
structure ClockedCache (Output : Type) where
  cache : ToolResultCache Output
  now : Nat

namespace ClockedCache

def step (clocked : ClockedCache Output) (timed : TimedCall Output) : ClockedCache Output :=
  let now := clocked.now + timed.elapsed
  match timed.call with
  | .put call result later iterated =>
      ⟨clocked.cache.put call result now (now + later) iterated, now + later⟩
  | .get call => ⟨(clocked.cache.get call now).2, now⟩
  | .invalidate call => ⟨clocked.cache.invalidate call, now⟩

/-- What a get would answer after some more time. -/
def answer (clocked : ClockedCache Output) (reading : ToolCall) (elapsed : Nat) :
    Option (ToolResult Output) :=
  (clocked.cache.get reading (clocked.now + elapsed)).1

def Puts (key : CacheKey) (result : ToolResult Output) (timed : TimedCall Output) : Prop :=
  ∃ call later iterated, timed.call = .put call result later iterated ∧ cacheKey call = key

/-- After an invalidation, what a get answers to a covered call was stored after it. -/
def Lawful (worktree : PathBuf) (start : ClockedCache Output)
    (calls : List (TimedCall Output)) : Prop :=
  ∀ before elapsed writing middle rest,
    calls = before ++ ⟨elapsed, .invalidate writing⟩ :: (middle ++ rest) →
      ∀ reading waited result, Covers worktree writing reading →
        ((before ++ ⟨elapsed, .invalidate writing⟩ :: middle).foldl step start).answer
            reading waited = some result →
          ∃ timed ∈ middle, Puts (cacheKey reading) result timed

/-- The condition on an invalidation: it drops every entry that it covers and that has not
expired. -/
def DropsCovered (worktree : PathBuf) (clocked : ClockedCache Output)
    (timed : TimedCall Output) : Prop :=
  ∀ writing, timed.call = .invalidate writing →
    ∀ entry ∈ clocked.cache.entries,
      ¬ entry.2.Expired clocked.cache.ttl (clocked.now + timed.elapsed) →
        Covers worktree writing ⟨entry.1.toolName, entry.1.arguments⟩ → Drops writing entry.2

end ClockedCache

section Entries

variable {cache : ToolResultCache Output}

theorem isInvalidating_iff {toolName : String} :
    isInvalidating toolName = true ↔
      toolName.toLower ∈ shellTools ∨ toolName.toLower ∈ fileWritingTools := by
  have parts : invalidatingTools = fileWritingTools ++ shellTools := rfl
  unfold isInvalidating
  rw [parts, List.any_eq_true]
  simp only [beq_iff_eq, exists_eq_right, List.mem_append, or_comm]

theorem lower_of_deterministic {toolName : String} (member : toolName ∈ deterministicTools) :
    toolName.toLower = toolName := by
  have all : ∀ tool ∈ deterministicTools, tool.toLower = tool := by decide +kernel
  exact all toolName member

/-- An invalidating call keeps what its test does not drop. -/
theorem mem_invalidate {writing : ToolCall} (invalidating : isInvalidating writing.name = true)
    {entry : CacheKey × CacheEntry Output} :
    entry ∈ (cache.invalidate writing).entries ↔
      entry ∈ cache.entries ∧ ¬ Drops writing entry.2 := by
  unfold ToolResultCache.invalidate
  rw [invalidating]
  by_cases pathless : extractPaths writing = []
  · by_cases shell : writing.name ∈ shellTools
    · have drops : Drops writing entry.2 := Or.inl ⟨shell, pathless⟩
      have named : (writing.name == "bash" || writing.name == "execute_command" ||
          writing.name == "shell") = true := by
        simpa [shellTools, or_assoc] using shell
      simp [pathless, named, drops]
    · have keeps : ¬ Drops writing entry.2 := by
        rintro (⟨named, -⟩ | ⟨path, -, modified, member, -⟩)
        · exact shell named
        · rw [pathless] at member
          cases member
      have named : ¬ (writing.name == "bash" || writing.name == "execute_command" ||
          writing.name == "shell") = true := by
        simpa [shellTools, or_assoc] using shell
      simp [pathless, named, keeps]
  · have drops : Drops writing entry.2 ↔
        (entry.2.affectedPaths.any fun path =>
          (extractPaths writing).any fun modified => pathsOverlap path modified) = true := by
      simp [Drops, pathless]
    have some' : (extractPaths writing).isEmpty = false := by
      rw [List.isEmpty_eq_false_iff]
      exact pathless
    simp only [Bool.not_true, Bool.false_eq_true, if_false, some', List.mem_filter, drops,
      Bool.not_eq_true', Bool.not_eq_true]

theorem evictLru_sublist (iterated : CacheKey → Nat) (turns : Nat)
    (entries : List (CacheKey × CacheEntry Output)) :
    (ToolResultCache.evictLru iterated turns entries).Sublist entries := by
  induction turns generalizing entries with
  | zero => exact List.Sublist.refl _
  | succ turns ih =>
      unfold ToolResultCache.evictLru
      split
      · split
        · exact List.Sublist.refl _
        · exact (ih _).trans List.filter_sublist
      · exact List.Sublist.refl _

/-- The turns are enough for the loop to make room. -/
theorem length_evictLru_lt (iterated : CacheKey → Nat) (turns : Nat)
    (entries : List (CacheKey × CacheEntry Output)) (enough : entries.length ≤ turns) :
    (ToolResultCache.evictLru iterated turns entries).length < maxCacheEntries := by
  have room : 0 < maxCacheEntries := by decide
  induction turns generalizing entries with
  | zero =>
      unfold ToolResultCache.evictLru
      omega
  | succ turns ih =>
      unfold ToolResultCache.evictLru
      split
      case isTrue full =>
        split
        case h_1 none =>
          rw [List.argmin_eq_none] at none
          rw [none, List.length_nil] at full
          omega
        case h_2 oldest least =>
          apply ih
          have shorter : (ToolResultCache.others entries oldest.1).length < entries.length := by
            rw [ToolResultCache.others, List.length_filter_lt_length_iff_exists]
            exact ⟨oldest, List.argmin_mem least, by simp⟩
          omega
      case isFalse => omega

theorem entries_evictExpiredOrLru (now : Nat) (iterated : CacheKey → Nat) :
    (cache.evictExpiredOrLru now iterated).entries.Sublist cache.entries :=
  (evictLru_sublist _ _ _).trans List.filter_sublist

/-- After a put, an entry was there before under another key or is the one that is stored. -/
theorem put_entries (cache : ToolResultCache Output) (call : ToolCall)
    (result : ToolResult Output) (now created : Nat) (iterated : CacheKey → Nat) :
    cache.put call result now created iterated = cache ∨
      isDeterministic call.name = true ∧ ∃ kept entry,
        kept.Sublist cache.entries ∧ entry.result = result ∧
          (cache.put call result now created iterated).ttl = cache.ttl ∧
          (cache.put call result now created iterated).entries =
            ToolResultCache.others kept (cacheKey call) ++ [(cacheKey call, entry)] := by
  unfold ToolResultCache.put
  by_cases deterministic : isDeterministic call.name = true
  · cases result with
    | err error => exact Or.inl (by simp [deterministic])
    | ok output =>
        right
        refine ⟨deterministic, (if maxCacheEntries ≤ cache.entries.length then
          cache.evictExpiredOrLru now iterated else cache).entries,
          ⟨.ok output, created, created, extractPaths call⟩, ?_, rfl, ?_, ?_⟩
        · split
          · exact entries_evictExpiredOrLru now iterated
          · exact List.Sublist.refl _
        · have same : (if maxCacheEntries ≤ cache.entries.length then
              cache.evictExpiredOrLru now iterated else cache).ttl = cache.ttl := by
            split <;> rfl
          simpa [deterministic] using same
        · simp [deterministic]
  · exact Or.inl (by simp [deterministic])

theorem mem_get {reading : ToolCall} {now : Nat} {entry : CacheKey × CacheEntry Output}
    (member : entry ∈ (cache.get reading now).2.entries) :
    ∃ old, (entry.1, old) ∈ cache.entries ∧ old.createdAt = entry.2.createdAt ∧
      old.result = entry.2.result := by
  unfold ToolResultCache.get at member
  split at member
  · exact ⟨entry.2, member, rfl, rfl⟩
  · dsimp only at member
    split at member
    · exact ⟨entry.2, member, rfl, rfl⟩
    · split at member
      · exact ⟨entry.2, List.mem_of_mem_filter member, rfl, rfl⟩
      · obtain ⟨other, before, rfl⟩ := List.mem_map.mp member
        split
        · exact ⟨other.2, before, rfl, rfl⟩
        · exact ⟨other.2, before, rfl, rfl⟩

theorem keys_get (reading : ToolCall) (now : Nat) :
    ((cache.get reading now).2.entries.map Prod.fst).Sublist (cache.entries.map Prod.fst) := by
  unfold ToolResultCache.get
  split
  · exact List.Sublist.refl _
  · dsimp only
    split
    · exact List.Sublist.refl _
    · split
      · exact List.filter_sublist.map _
      · have same : ∀ entry : CacheKey × CacheEntry Output,
            (if entry.1 = cacheKey reading then
              (entry.1, { entry.2 with lastAccessed := now }) else entry).1 = entry.1 := by
          intro entry
          split <;> rfl
        rw [List.map_map, Function.comp_def, List.map_congr_left fun entry _ => same entry]

theorem ttl_get (reading : ToolCall) (now : Nat) :
    (cache.get reading now).2.ttl = cache.ttl := by
  unfold ToolResultCache.get
  split
  · rfl
  · dsimp only
    split
    · rfl
    · split <;> rfl

theorem ttl_invalidate (writing : ToolCall) :
    (cache.invalidate writing).ttl = cache.ttl := by
  unfold ToolResultCache.invalidate
  split
  · rfl
  · dsimp only
    split
    · split <;> rfl
    · rfl

theorem invalidate_sublist (writing : ToolCall) :
    (cache.invalidate writing).entries.Sublist cache.entries := by
  unfold ToolResultCache.invalidate
  split
  · exact List.Sublist.refl _
  · dsimp only
    split
    · split
      · exact List.nil_sublist _
      · exact List.Sublist.refl _
    · exact List.filter_sublist

/-- A get answers the result of the entry of its key. -/
theorem get_eq_some {reading : ToolCall} {now : Nat} {result : ToolResult Output}
    (answered : (cache.get reading now).1 = some result) :
    ∃ entry, (cacheKey reading, entry) ∈ cache.entries ∧ ¬ entry.Expired cache.ttl now ∧
      entry.result = result := by
  unfold ToolResultCache.get at answered
  split at answered
  · cases answered
  · dsimp only at answered
    split at answered
    · cases answered
    case h_2 entry found =>
      split at answered
      · cases answered
      case isFalse fresh =>
        obtain ⟨⟨key, value⟩, first, rfl⟩ := Option.map_eq_some_iff.mp found
        have same : key = cacheKey reading := by simpa using List.find?_some first
        rw [← same]
        exact ⟨value, List.mem_of_find?_eq_some first, fresh, Option.some.inj answered⟩

/-- The keys are stored once, and are those of calls that only read. -/
structure ToolResultCache.Keyed (cache : ToolResultCache Output) : Prop where
  nodup : (cache.entries.map Prod.fst).Nodup
  deterministic : ∀ entry ∈ cache.entries, entry.1.toolName ∈ deterministicTools

theorem isDeterministic_iff {toolName : String} :
    isDeterministic toolName = true ↔ toolName.toLower ∈ deterministicTools := by
  unfold isDeterministic
  rw [List.any_eq_true]
  simp only [beq_iff_eq, exists_eq_right]

/-- What is stored and has not expired is answered. -/
theorem ToolResultCache.Keyed.get_eq (keyed : cache.Keyed)
    {stored : CacheKey × CacheEntry Output} (member : stored ∈ cache.entries) {now : Nat}
    (fresh : ¬ stored.2.Expired cache.ttl now) :
    (cache.get ⟨stored.1.toolName, stored.1.arguments⟩ now).1 = some stored.2.result ∧
      cacheKey ⟨stored.1.toolName, stored.1.arguments⟩ = stored.1 := by
  have reads := keyed.deterministic stored member
  have lower := lower_of_deterministic reads
  have key : cacheKey ⟨stored.1.toolName, stored.1.arguments⟩ = stored.1 := by
    unfold cacheKey
    rw [lower]
  have deterministic : isDeterministic stored.1.toolName = true := by
    rw [isDeterministic_iff, lower]
    exact reads
  have found : cache.lookup stored.1 = some stored.2 := by
    unfold lookup
    obtain ⟨first, isFirst⟩ := Option.isSome_iff_exists.mp
      (List.find?_isSome (p := fun entry => decide (entry.1 = stored.1)).mpr
        ⟨stored, member, by simp⟩)
    have same : first.1 = stored.1 := by simpa using List.find?_some isFirst
    rw [isFirst, List.inj_on_of_nodup_map keyed.nodup (List.mem_of_find?_eq_some isFirst)
      member same]
    rfl
  refine ⟨?_, key⟩
  unfold get
  simp only [deterministic, key, found, fresh]
  rfl

theorem ToolResultCache.Keyed.of_sublist (keyed : cache.Keyed)
    {smaller : ToolResultCache Output} (sublist : smaller.entries.Sublist cache.entries) :
    smaller.Keyed :=
  ⟨keyed.nodup.sublist (sublist.map _),
    fun entry member => keyed.deterministic entry (sublist.subset member)⟩

theorem ToolResultCache.Keyed.put (keyed : cache.Keyed) (call : ToolCall)
    (result : ToolResult Output) (now created : Nat) (iterated : CacheKey → Nat) :
    (cache.put call result now created iterated).Keyed := by
  rcases put_entries cache call result now created iterated with
    same | ⟨deterministic, kept, entry, sublist, -, -, entries⟩
  · rw [same]
    exact keyed
  · have keptSub : (others kept (cacheKey call)).Sublist cache.entries :=
      List.filter_sublist.trans sublist
    constructor
    · rw [entries, List.map_append, List.nodup_append]
      refine ⟨keyed.nodup.sublist (keptSub.map _), List.nodup_singleton _, ?_⟩
      intro key member last isLast same
      obtain ⟨other, among, rfl⟩ := List.mem_map.mp member
      have different := (List.mem_filter.mp among).2
      rw [List.map_singleton, List.mem_singleton] at isLast
      simp [same, isLast] at different
    · intro stored member
      rw [entries, List.mem_append, List.mem_singleton] at member
      rcases member with earlier | rfl
      · exact keyed.deterministic stored (keptSub.subset earlier)
      · exact Iff.mp isDeterministic_iff deterministic

theorem ToolResultCache.Keyed.get (keyed : cache.Keyed) (reading : ToolCall) (now : Nat) :
    (cache.get reading now).2.Keyed := by
  refine ⟨keyed.nodup.sublist (keys_get reading now), ?_⟩
  intro entry member
  obtain ⟨old, before, -⟩ := mem_get member
  exact keyed.deterministic (entry.1, old) before

end Entries

namespace ClockedCache

variable {clocked : ClockedCache Output}

theorem keyed_step (keyed : clocked.cache.Keyed) (timed : TimedCall Output) :
    (clocked.step timed).cache.Keyed := by
  obtain ⟨elapsed, call⟩ := timed
  cases call with
  | put call result later iterated => exact keyed.put call result _ _ iterated
  | get reading => exact keyed.get reading _
  | invalidate writing => exact keyed.of_sublist (invalidate_sublist writing)

theorem keyed_run (keyed : clocked.cache.Keyed) (calls : List (TimedCall Output)) :
    (calls.foldl step clocked).cache.Keyed := by
  induction calls generalizing clocked with
  | nil => exact keyed
  | cons timed calls ih => exact ih (keyed_step keyed timed)

theorem ttl_step (timed : TimedCall Output) :
    (clocked.step timed).cache.ttl = clocked.cache.ttl := by
  obtain ⟨elapsed, call⟩ := timed
  cases call with
  | put call result later iterated =>
      rcases put_entries clocked.cache call result (clocked.now + elapsed)
        (clocked.now + elapsed + later) iterated with same | ⟨-, kept, entry, -, -, ttl, -⟩
      · exact congrArg ToolResultCache.ttl same
      · exact ttl
  | get reading => exact ttl_get reading _
  | invalidate writing => exact ttl_invalidate writing

theorem now_le_step (clocked : ClockedCache Output) (timed : TimedCall Output) :
    clocked.now ≤ (clocked.step timed).now := by
  obtain ⟨elapsed, call⟩ := timed
  cases call with
  | put call result later iterated =>
      have after : (clocked.step ⟨elapsed, .put call result later iterated⟩).now =
          clocked.now + elapsed + later := rfl
      omega
  | get reading => exact Nat.le_add_right _ _
  | invalidate writing => exact Nat.le_add_right _ _

/-- Where an entry comes from. -/
theorem mem_step (timed : TimedCall Output) {entry : CacheKey × CacheEntry Output}
    (member : entry ∈ (clocked.step timed).cache.entries) :
    (∃ old, (entry.1, old) ∈ clocked.cache.entries ∧ old.createdAt = entry.2.createdAt ∧
        old.result = entry.2.result) ∨
      Puts entry.1 entry.2.result timed := by
  obtain ⟨elapsed, call⟩ := timed
  cases call with
  | put call result later iterated =>
      rcases put_entries clocked.cache call result (clocked.now + elapsed)
        (clocked.now + elapsed + later) iterated with
        same | ⟨-, kept, new, sublist, isResult, -, entries⟩
      · have unmoved : (clocked.step ⟨elapsed, .put call result later iterated⟩).cache =
            clocked.cache := same
        rw [unmoved] at member
        exact Or.inl ⟨entry.2, member, rfl, rfl⟩
      · have after : (clocked.step ⟨elapsed, .put call result later iterated⟩).cache.entries =
            ToolResultCache.others kept (cacheKey call) ++ [(cacheKey call, new)] := entries
        rw [after, List.mem_append, List.mem_singleton] at member
        rcases member with earlier | rfl
        · exact Or.inl
            ⟨entry.2, sublist.subset (List.mem_of_mem_filter earlier), rfl, rfl⟩
        · exact Or.inr ⟨call, later, iterated, by rw [isResult], rfl⟩
  | get reading => exact Or.inl (mem_get member)
  | invalidate writing =>
      exact Or.inl ⟨entry.2, (invalidate_sublist writing).subset member, rfl, rfl⟩

/-- What is stored under a key has expired or was put by one of the calls. -/
def Renewed (key : CacheKey) (clocked : ClockedCache Output)
    (calls : List (TimedCall Output)) : Prop :=
  ∀ entry, (key, entry) ∈ clocked.cache.entries →
    entry.Expired clocked.cache.ttl clocked.now ∨ ∃ timed ∈ calls, Puts key entry.result timed

theorem Renewed.step {key : CacheKey} {calls : List (TimedCall Output)}
    (renewed : Renewed key clocked calls) (timed : TimedCall Output) :
    Renewed key (clocked.step timed) (calls ++ [timed]) := by
  intro entry member
  rcases mem_step timed member with ⟨old, before, created, result⟩ | puts
  · rcases renewed old before with expired | ⟨earlier, called, puts⟩
    · left
      have later := now_le_step clocked timed
      unfold CacheEntry.Expired at expired ⊢
      rw [ttl_step]
      simp only at created
      omega
    · right
      simp only at result
      exact ⟨earlier, List.mem_append_left _ called, result ▸ puts⟩
  · exact Or.inr ⟨timed, by simp, puts⟩

theorem Renewed.run {key : CacheKey} {calls : List (TimedCall Output)}
    (renewed : Renewed key clocked calls) (later : List (TimedCall Output)) :
    Renewed key (later.foldl ClockedCache.step clocked) (calls ++ later) := by
  induction later generalizing clocked calls with
  | nil => simpa using renewed
  | cons timed later ih =>
      have onward := ih (renewed.step timed)
      rw [List.append_assoc, List.singleton_append] at onward
      exact onward

/-- What a get answers for a renewed key was put by one of the calls. -/
theorem Renewed.answer {reading : ToolCall} {calls : List (TimedCall Output)}
    (renewed : Renewed (cacheKey reading) clocked calls) {waited : Nat}
    {result : ToolResult Output} (answered : clocked.answer reading waited = some result) :
    ∃ timed ∈ calls, Puts (cacheKey reading) result timed := by
  obtain ⟨entry, member, fresh, rfl⟩ := get_eq_some answered
  refine (renewed entry member).resolve_left ?_
  intro expired
  apply fresh
  unfold CacheEntry.Expired at expired ⊢
  omega

theorem covers_key {worktree : PathBuf} {writing reading : ToolCall} :
    Covers worktree writing ⟨(cacheKey reading).toolName, (cacheKey reading).arguments⟩ ↔
      Covers worktree writing reading :=
  Iff.rfl

theorem isInvalidating_of_covers {worktree : PathBuf} {writing reading : ToolCall}
    (covers : Covers worktree writing reading) : isInvalidating writing.name = true :=
  Iff.mpr isInvalidating_iff (covers.imp_right And.left)

/-- An invalidation that drops what it covers leaves nothing of it. -/
theorem renewed_of_drops {worktree : PathBuf} {elapsed : Nat} {writing reading : ToolCall}
    (drops : DropsCovered worktree clocked ⟨elapsed, .invalidate writing⟩)
    (covers : Covers worktree writing reading) :
    Renewed (cacheKey reading) (clocked.step ⟨elapsed, .invalidate writing⟩) [] := by
  intro entry member
  left
  have after : (clocked.step ⟨elapsed, .invalidate writing⟩).cache =
      clocked.cache.invalidate writing := rfl
  rw [after, mem_invalidate (isInvalidating_of_covers covers)] at member
  by_contra fresh
  rw [ttl_step] at fresh
  exact member.2 (drops writing rfl _ member.1 fresh (Iff.mpr covers_key covers))

/-- The law right after an invalidation says that it dropped what it covers. -/
theorem drops_of_answers {worktree : PathBuf} (keyed : clocked.cache.Keyed)
    {timed : TimedCall Output}
    (silent : ∀ writing, timed.call = .invalidate writing → ∀ reading,
      Covers worktree writing reading → (clocked.step timed).answer reading 0 = none) :
    DropsCovered worktree clocked timed := by
  intro writing isInvalidate entry member fresh covers
  by_contra kept
  obtain ⟨elapsed, call⟩ := timed
  obtain rfl : call = .invalidate writing := isInvalidate
  have still : entry ∈ (clocked.step ⟨elapsed, .invalidate writing⟩).cache.entries :=
    (mem_invalidate (isInvalidating_of_covers covers)).mpr ⟨member, kept⟩
  have answered := ((keyed_step keyed _).get_eq still
    (by rw [ttl_step]; exact fresh)).1
  have none := silent writing rfl _ covers
  rw [answer, Nat.add_zero] at none
  have now : (clocked.step ⟨elapsed, .invalidate writing⟩).now = clocked.now + elapsed := rfl
  rw [now, answered] at none
  cases none

end ClockedCache

/-- An empty cache. -/
def ClockedCache.start (ttl now : Nat) : ClockedCache Output :=
  ⟨.withTtl ttl, now⟩

theorem ClockedCache.keyed_start (ttl now : Nat) :
    (ClockedCache.start ttl now : ClockedCache Output).cache.Keyed where
  nodup := List.nodup_nil
  deterministic := by
    intro entry member
    cases member

/-- No get answers a stale result exactly when every invalidation drops what it covers. -/
theorem lawful_iff_dropsCovered (worktree : PathBuf) (ttl now : Nat)
    (calls : List (TimedCall Output)) :
    ClockedCache.Lawful worktree (.start ttl now) calls ↔
      GuardedRun.Guarded ClockedCache.step (ClockedCache.DropsCovered worktree)
        (.start ttl now) calls := by
  constructor
  · intro lawful pair member
    obtain ⟨earlier, later, split, same⟩ := GuardedRun.mem_steps_iff.mp member
    apply ClockedCache.drops_of_answers
    · rw [same]
      exact ClockedCache.keyed_run (ClockedCache.keyed_start ttl now) earlier
    · intro writing isInvalidate reading covers
      have called : pair.2 = ⟨pair.2.elapsed, .invalidate writing⟩ := by rw [← isInvalidate]
      rw [called] at split
      have answers := lawful earlier pair.2.elapsed writing [] later split reading 0
      rw [← called, List.foldl_append, ← same] at answers
      rw [Option.eq_none_iff_forall_ne_some]
      intro result answered
      obtain ⟨timed, none, -⟩ := answers result covers answered
      cases none
  · intro drops before elapsed writing middle rest split reading waited result covers answered
    rw [split, GuardedRun.guarded_append, GuardedRun.guarded_cons] at drops
    have renewed := (ClockedCache.renewed_of_drops drops.2.1 covers).run middle
    rw [List.foldl_append, List.foldl_cons] at answered
    rw [List.nil_append] at renewed
    exact renewed.answer answered

/-- A search that is cached before a shell command, whose name is not in lower case. -/
def upperCaseShell : List (TimedCall String) :=
  [⟨0, .put ⟨"grep", .object [("pattern", .string "todo")]⟩ (.ok "found") 0 fun _ => 0⟩,
    ⟨0, .invalidate ⟨"Bash", .object [("command", .string "cargo build")]⟩⟩]

/-- The search is answered from before the command. -/
theorem upperCaseShell_stale :
    ¬ ClockedCache.Lawful (.new "/workspace") (.start 300 0) upperCaseShell := by
  intro lawful
  have renewed := lawful [_] 0 _ [] [] rfl ⟨"grep", .object [("pattern", .string "todo")]⟩ 0
    (.ok "found") (Or.inl (by decide +kernel)) (by decide +kernel)
  simp at renewed

end Roko
