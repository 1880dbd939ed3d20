import Mathlib.Data.List.MinMax
import Mathlib.Data.Prod.Lex
import Roko.GuardedRuns
import Roko.OrderedMaps

/-!
# The dispatch dedup cache

The model of `roko-agent/src/dispatcher/dedup_cache.rs`.  An entry leaves the table when it
expires, when it is removed, or when the table is full and a new key needs room.  The
readings of the clock are arguments, and so is the order in which the hash map is iterated,
which decides between entries of the same age.
-/

namespace Roko

/-- The `content_hash` of a key. -/
abbrev DedupKey := UInt64

def maxDedupEntries : Nat := 512

inductive DedupStatus
  | new
  | inFlight (startedAt : Nat)
  | completed (success : Bool) (completedAt : Nat)
deriving DecidableEq

structure DedupEntry where
  createdAt : Nat
  inFlight : Bool
  success : Option Bool
  completedAt : Option Nat
deriving DecidableEq

/-- What a stored entry says about a request with its key. -/
def DedupEntry.status (entry : DedupEntry) : Option DedupStatus :=
  if entry.inFlight then some (.inFlight entry.createdAt)
  else
    entry.success.map fun success =>
      .completed success (entry.completedAt.getD entry.createdAt)

structure DedupCache where
  entries : Std.ExtTreeMap DedupKey DedupEntry
  ttl : Nat
  dedupCount : UInt64
  dispatchCount : UInt64

namespace DedupCache

def withTtl (ttl : Nat) : DedupCache :=
  ⟨∅, ttl, 0, 0⟩

/-- `duration_since` saturates at zero. -/
def evictExpired (cache : DedupCache) (now : Nat) : DedupCache :=
  { cache with
    entries := cache.entries.filter fun _ entry => now - entry.createdAt ≤ cache.ttl }

/-- The key of the oldest entry; among several, the one that is iterated first. -/
def oldestKey (cache : DedupCache) (iterated : DedupKey → Nat) : Option DedupKey :=
  (cache.entries.toList.argmin fun entry =>
    toLex (entry.2.createdAt, iterated entry.1)).map Prod.fst

def evictOldest (cache : DedupCache) (iterated : DedupKey → Nat) : DedupCache :=
  match cache.oldestKey iterated with
  | none => cache
  | some key => { cache with entries := cache.entries.erase key }

/-- `check`, which reads the clock at its start and when it stores a new entry. -/
def check (cache : DedupCache) (key : DedupKey) (now created : Nat)
    (iterated : DedupKey → Nat) : DedupCache × DedupStatus :=
  let cache := cache.evictExpired now
  match cache.entries[key]?.bind DedupEntry.status with
  | some status => ({ cache with dedupCount := cache.dedupCount + 1 }, status)
  | none =>
      let cache := if maxDedupEntries ≤ cache.entries.size then
        cache.evictOldest iterated else cache
      ({ cache with
          entries := cache.entries.insert key ⟨created, true, none, none⟩
          dispatchCount := cache.dispatchCount + 1 }, .new)

def complete (cache : DedupCache) (key : DedupKey) (success : Bool) (now : Nat) :
    DedupCache :=
  match cache.entries[key]? with
  | none => cache
  | some entry =>
      { cache with
        entries := cache.entries.insert key
          { entry with inFlight := false, success := some success,
                       completedAt := some now } }

def remove (cache : DedupCache) (key : DedupKey) : DedupCache :=
  { cache with entries := cache.entries.erase key }

inductive Call
  | check (key : DedupKey) (now created : Nat) (iterated : DedupKey → Nat)
  | complete (key : DedupKey) (success : Bool) (now : Nat)
  | remove (key : DedupKey)

/-- The readings of the clock that a call makes. -/
def Call.readings : Call → List Nat
  | .check _ now created _ => [now, created]
  | .complete _ _ now => [now]
  | .remove _ => []

def call (cache : DedupCache) : Call → DedupCache
  | .check key now created iterated => (cache.check key now created iterated).1
  | .complete key success now => cache.complete key success now
  | .remove key => cache.remove key

/-- The call checks the key and is told that the request is new. -/
def AnswersNew (key : DedupKey) (now created : Nat) (taken : DedupCache × Call) :
    Prop :=
  ∃ iterated, taken.2 = .check key now created iterated ∧
    (taken.1.check key now created iterated).2 = .new

/-- The entry of the key is no younger than any other. -/
def Oldest (cache : DedupCache) (key : DedupKey) : Prop :=
  ∃ entry, cache.entries[key]? = some entry ∧
    ∀ (other : DedupKey) (otherEntry : DedupEntry), cache.entries[other]? = some otherEntry →
      entry.createdAt ≤ otherEntry.createdAt

/-- A check of another key finds the table full of entries that have not expired, none of
them older than that of the key. -/
def Displaces (key : DedupKey) (taken : DedupCache × Call) : Prop :=
  ∃ other now created iterated, taken.2 = .check other now created iterated ∧
    other ≠ key ∧ maxDedupEntries ≤ (taken.1.evictExpired now).entries.size ∧
    (taken.1.evictExpired now).Oldest key

/-- What the answers are meant to say about the calls before them. -/
structure DedupLaw (ttl : Nat) (calls : List Call) : Prop where
  suppressed : ∀ before first middle second after key now created laterNow laterCreated,
    GuardedRun.steps call (withTtl ttl) calls =
      before ++ first :: (middle ++ second :: after) →
    AnswersNew key now created first → AnswersNew key laterNow laterCreated second →
      created + ttl < laterNow ∨ (∃ taken ∈ middle, taken.2 = .remove key) ∨
        ∃ taken ∈ middle, Displaces key taken
  completed : ∀ before last after key now created iterated success completedAt,
    GuardedRun.steps call (withTtl ttl) calls = before ++ last :: after →
    last.2 = .check key now created iterated →
    (last.1.check key now created iterated).2 = .completed success completedAt →
      ∃ earlier new later, before = earlier ++ new :: later ∧
        (∃ newNow newCreated, AnswersNew key newNow newCreated new) ∧
        (∀ taken ∈ later, ∀ otherNow otherCreated,
          ¬ AnswersNew key otherNow otherCreated taken) ∧
        ∃ taken ∈ later, ∃ doneAt, taken.2 = .complete key success doneAt

variable {cache : DedupCache}

theorem getElem?_evictExpired (cache : DedupCache) (now : Nat) (key : DedupKey) :
    (cache.evictExpired now).entries[key]? =
      cache.entries[key]?.filter fun entry => now - entry.createdAt ≤ cache.ttl :=
  Std.ExtTreeMap.getElem?_filter'

/-- The entry that is evicted is no younger than any other. -/
theorem oldest_of_oldestKey {iterated : DedupKey → Nat} {key : DedupKey}
    (found : cache.oldestKey iterated = some key) : cache.Oldest key := by
  unfold oldestKey at found
  rw [Option.map_eq_some_iff] at found
  obtain ⟨⟨foundKey, entry⟩, least, rfl⟩ := found
  have listed := List.argmin_mem least
  refine ⟨entry, Std.ExtTreeMap.mem_toList_iff_getElem?_eq_some.mp listed, ?_⟩
  intro other otherEntry otherFound
  have otherListed := Std.ExtTreeMap.mem_toList_iff_getElem?_eq_some.mpr otherFound
  have below := List.le_of_mem_argmin otherListed least
  rcases Prod.Lex.le_iff.mp below with less | ⟨same, -⟩
  · exact less.le
  · exact same.le

theorem getElem?_evictOldest (iterated : DedupKey → Nat) (key : DedupKey) :
    (cache.evictOldest iterated).entries[key]? =
      if cache.oldestKey iterated = some key then none else cache.entries[key]? := by
  unfold evictOldest
  cases cache.oldestKey iterated with
  | none => simp
  | some oldest => simp [Std.ExtTreeMap.getElem?_erase]

/-- A check is answered from the table, or stores a new entry, for which it may evict the
oldest one. -/
theorem check_cases (cache : DedupCache) (key : DedupKey) (now created : Nat)
    (iterated : DedupKey → Nat) :
    (∃ status,
      (cache.evictExpired now).entries[key]?.bind DedupEntry.status = some status ∧
      (cache.check key now created iterated).2 = status ∧
      (cache.check key now created iterated).1.entries =
        (cache.evictExpired now).entries) ∨
    ((cache.evictExpired now).entries[key]?.bind DedupEntry.status = none ∧
      (cache.check key now created iterated).2 = .new ∧
      ∀ other, (cache.check key now created iterated).1.entries[other]? =
        if other = key then some ⟨created, true, none, none⟩
        else if maxDedupEntries ≤ (cache.evictExpired now).entries.size ∧
          (cache.evictExpired now).oldestKey iterated = some other then none
        else (cache.evictExpired now).entries[other]?) := by
  unfold check
  dsimp only
  split
  case h_1 status found => exact Or.inl ⟨status, found, rfl, rfl⟩
  case h_2 missing =>
      refine Or.inr ⟨missing, rfl, ?_⟩
      intro other
      by_cases same : other = key
      · simp [same]
      · by_cases full : maxDedupEntries ≤ (cache.evictExpired now).entries.size
        · simp [Std.ExtTreeMap.getElem?_insert, same, Ne.symm same, full,
            getElem?_evictOldest]
        · simp [Std.ExtTreeMap.getElem?_insert, same, Ne.symm same, full]

theorem getElem?_complete (key other : DedupKey) (success : Bool) (now : Nat) :
    (cache.complete key success now).entries[other]? =
      if other = key then
        cache.entries[key]?.map fun entry =>
          { entry with inFlight := false, success := some success,
                       completedAt := some now }
      else cache.entries[other]? := by
  unfold complete
  by_cases same : other = key
  · subst same
    cases found : cache.entries[other]? with
    | none => simp [found]
    | some entry => simp
  · cases cache.entries[key]? with
    | none => simp [same]
    | some entry => simp [Std.ExtTreeMap.getElem?_insert, same, Ne.symm same]

/-- The table holds an entry for the key that was created at the time, and answers
requests from it. -/
def Holds (cache : DedupCache) (key : DedupKey) (created : Nat) : Prop :=
  ∃ entry, cache.entries[key]? = some entry ∧ entry.createdAt = created ∧
    entry.status ≠ none

theorem Holds.evictExpired {key : DedupKey} {created now : Nat}
    (holds : cache.Holds key created) (live : now ≤ created + cache.ttl) :
    (cache.evictExpired now).Holds key created := by
  obtain ⟨entry, found, rfl, answers⟩ := holds
  refine ⟨entry, ?_, rfl, answers⟩
  rw [getElem?_evictExpired, found, Option.filter_some, if_pos]
  simp
  omega

theorem status_ne_new (entry : DedupEntry) : entry.status ≠ some .new := by
  unfold DedupEntry.status
  split <;> simp

/-- A check that answers that a request is new finds no entry that would answer it, and
stores one. -/
theorem check_new {key : DedupKey} {now created : Nat} {iterated : DedupKey → Nat}
    (new : (cache.check key now created iterated).2 = .new) :
    (cache.evictExpired now).entries[key]?.bind DedupEntry.status = none ∧
      (cache.check key now created iterated).1.entries[key]? =
        some ⟨created, true, none, none⟩ := by
  rcases check_cases cache key now created iterated with
    ⟨status, stored, same, -⟩ | ⟨missing, -, entries⟩
  · rw [new] at same
    obtain ⟨entry, -, said⟩ := Option.bind_eq_some_iff.mp (same ▸ stored)
    exact absurd said (status_ne_new entry)
  · exact ⟨missing, (entries key).trans (if_pos rfl)⟩

/-- A request for a key in the table is not new. -/
theorem Holds.not_new {key : DedupKey} {created now laterCreated : Nat}
    (holds : (cache.evictExpired now).Holds key created)
    (iterated : DedupKey → Nat) :
    (cache.check key now laterCreated iterated).2 ≠ .new := by
  intro new
  obtain ⟨entry, found, -, answers⟩ := holds
  have missing := (check_new new).1
  rw [found, Option.bind_some] at missing
  exact answers missing

@[simp]
theorem ttl_call (cache : DedupCache) (next : Call) :
    (cache.call next).ttl = cache.ttl := by
  cases next with
  | check key now created iterated =>
      dsimp only [call, check]
      split
      · rfl
      · dsimp only
        split
        · unfold evictOldest
          split <;> rfl
        · rfl
  | complete key success now =>
      dsimp only [call, complete]
      split <;> rfl
  | remove key => rfl

theorem ttl_foldl (cache : DedupCache) (calls : List Call) :
    (calls.foldl call cache).ttl = cache.ttl := by
  induction calls generalizing cache with
  | nil => rfl
  | cons next calls ih => rw [List.foldl_cons, ih, ttl_call]

/-- A call keeps an entry in the table, unless the entry has expired, is removed, or makes
room for another key. -/
theorem Holds.call {key : DedupKey} {created : Nat} (holds : cache.Holds key created)
    (next : Call) :
    (cache.call next).Holds key created ∨
      (∃ now ∈ next.readings, created + cache.ttl < now) ∨
      next = .remove key ∨ Displaces key (cache, next) := by
  cases next with
  | check other now otherCreated iterated =>
      by_cases live : now ≤ created + cache.ttl
      · have stays := holds.evictExpired live
        obtain ⟨entry, found, same, answers⟩ := stays
        rcases check_cases cache other now otherCreated iterated with
          ⟨status, -, -, entries⟩ | ⟨missing, -, entries⟩
        · left
          refine ⟨entry, ?_, same, answers⟩
          rw [DedupCache.call, entries, found]
        · have apart : key ≠ other := by
            rintro rfl
            rw [found, Option.bind_some] at missing
            exact answers missing
          have kept := entries key
          rw [if_neg apart] at kept
          split at kept
          case isTrue evicted =>
            right; right; right
            exact ⟨other, now, otherCreated, iterated, rfl, apart.symm, evicted.1,
              oldest_of_oldestKey evicted.2⟩
          case isFalse => exact Or.inl ⟨entry, kept.trans found, same, answers⟩
      · exact Or.inr (Or.inl ⟨now, List.mem_cons_self, by omega⟩)
  | complete other success now =>
      left
      obtain ⟨entry, found, same, answers⟩ := holds
      by_cases target : key = other
      · subst target
        refine ⟨{ entry with inFlight := false, success := some success,
                             completedAt := some now }, ?_, same, ?_⟩
        · rw [DedupCache.call, getElem?_complete, if_pos rfl, found, Option.map_some]
        · simp [DedupEntry.status]
      · refine ⟨entry, ?_, same, answers⟩
        rw [DedupCache.call, getElem?_complete, if_neg target, found]
  | remove other =>
      by_cases target : key = other
      · exact Or.inr (Or.inr (Or.inl (by rw [target])))
      · obtain ⟨entry, found, same, answers⟩ := holds
        refine Or.inl ⟨entry, ?_, same, answers⟩
        simp [DedupCache.call, remove, Std.ExtTreeMap.getElem?_erase, Ne.symm target, found]

theorem Holds.run {key : DedupKey} {created : Nat} (holds : cache.Holds key created)
    (calls : List Call) :
    (calls.foldl DedupCache.call cache).Holds key created ∨
      (∃ now ∈ calls.flatMap Call.readings, created + cache.ttl < now) ∨
      (∃ taken ∈ GuardedRun.steps DedupCache.call cache calls, taken.2 = .remove key) ∨
      ∃ taken ∈ GuardedRun.steps DedupCache.call cache calls, Displaces key taken := by
  induction calls generalizing cache with
  | nil => exact Or.inl holds
  | cons next calls ih =>
      rw [List.foldl_cons, List.flatMap_cons, GuardedRun.steps]
      rcases holds.call next with stays | ⟨now, read, late⟩ | removed | displaced
      · rcases ih stays with kept | ⟨now, read, late⟩ | ⟨taken, later, removed⟩ |
          ⟨taken, later, displaced⟩
        · exact Or.inl kept
        · rw [ttl_call] at late
          exact Or.inr (Or.inl ⟨now, List.mem_append_right _ read, late⟩)
        · exact Or.inr (Or.inr (Or.inl
            ⟨taken, List.mem_cons_of_mem _ later, removed⟩))
        · exact Or.inr (Or.inr (Or.inr
            ⟨taken, List.mem_cons_of_mem _ later, displaced⟩))
      · exact Or.inr (Or.inl ⟨now, List.mem_append_left _ read, late⟩)
      · exact Or.inr (Or.inr (Or.inl ⟨_, List.mem_cons_self, removed⟩))
      · exact Or.inr (Or.inr (Or.inr ⟨_, List.mem_cons_self, displaced⟩))

/-- A new request is held in the table. -/
theorem holds_of_answersNew {key : DedupKey} {now created : Nat}
    {taken : DedupCache × Call} (new : AnswersNew key now created taken) :
    (taken.1.call taken.2).Holds key created := by
  obtain ⟨iterated, checked, answer⟩ := new
  rw [checked]
  exact ⟨⟨created, true, none, none⟩, (check_new answer).2, rfl,
    by simp [DedupEntry.status]⟩

/-- With a clock that does not go back, no call between two checks reads a later time than
the second check does first. -/
theorem readings_le {first second : DedupCache × Call}
    {before middle after : List (DedupCache × Call)} {start : DedupCache}
    {calls : List Call} (clock : (calls.flatMap Call.readings).Pairwise (· ≤ ·))
    (cut : GuardedRun.steps DedupCache.call start calls =
      before ++ first :: (middle ++ second :: after))
    {now : Nat} (reads : now ∈ second.2.readings) :
    ∀ read ∈ (middle.map Prod.snd).flatMap Call.readings, read ≤ now := by
  have listed := GuardedRun.map_snd_steps DedupCache.call start calls
  rw [cut] at listed
  rw [← listed] at clock
  simp only [List.map_append, List.map_cons, List.flatMap_append, List.flatMap_cons,
    List.pairwise_append, List.mem_append] at clock
  intro read member
  exact clock.2.1.2.1.2.2 read member now (Or.inl reads)

theorem suppressed_of_clock {ttl : Nat} {calls : List Call}
    (clock : (calls.flatMap Call.readings).Pairwise (· ≤ ·))
    {before middle after : List (DedupCache × Call)} {first second : DedupCache × Call}
    {key : DedupKey} {now created laterNow laterCreated : Nat}
    (cut : GuardedRun.steps call (withTtl ttl) calls =
      before ++ first :: (middle ++ second :: after))
    (new : AnswersNew key now created first)
    (again : AnswersNew key laterNow laterCreated second) :
    created + ttl < laterNow ∨ (∃ taken ∈ middle, taken.2 = .remove key) ∨
      ∃ taken ∈ middle, Displaces key taken := by
  obtain ⟨iterated, checked, answer⟩ := again
  have bounded := readings_le clock cut
    (by simp [checked, Call.readings] : laterNow ∈ second.2.readings)
  have sameTtl : (first.1.call first.2).ttl = ttl := by
    rw [(GuardedRun.steps_eq_append cut).2, ttl_call]
    exact ttl_foldl _ _
  obtain ⟨ran, reached⟩ := GuardedRun.steps_eq_append
    (GuardedRun.steps_after_cut cut).symm
  rcases (holds_of_answersNew new).run (middle.map Prod.snd) with
    holds | ⟨read, member, late⟩ | removed | displaced
  · by_cases live : laterNow ≤ created + ttl
    · rw [← sameTtl, ← ttl_foldl _ (middle.map Prod.snd)] at live
      have stays := holds.evictExpired live
      rw [← reached] at stays
      exact absurd answer (stays.not_new iterated)
    · exact Or.inl (by omega)
  · left
    have := bounded read member
    rw [sameTtl] at late
    omega
  · rw [← ran] at removed
    exact Or.inr (Or.inl removed)
  · rw [← ran] at displaced
    exact Or.inr (Or.inr displaced)

/-- What the calls so far say about an entry: since the last new request for its key, its
success was recorded. -/
def Recorded (taken : List (DedupCache × Call)) (key : DedupKey) (entry : DedupEntry) :
    Prop :=
  ∃ earlier new later, taken = earlier ++ new :: later ∧
    (∃ now created, AnswersNew key now created new) ∧
    (∀ other ∈ later, ∀ now created, ¬ AnswersNew key now created other) ∧
    ∀ success, entry.success = some success →
      ∃ done ∈ later, ∃ doneAt, done.2 = .complete key success doneAt

/-- A later call that is not told that the key is new keeps what was recorded. -/
theorem Recorded.push {taken : List (DedupCache × Call)} {key : DedupKey}
    {entry changed : DedupEntry} (recorded : Recorded taken key entry)
    {next : DedupCache × Call} (known : ∀ now created, ¬ AnswersNew key now created next)
    (kept : ∀ success, changed.success = some success →
      entry.success = some success ∨ ∃ doneAt, next.2 = .complete key success doneAt) :
    Recorded (taken ++ [next]) key changed := by
  obtain ⟨earlier, new, later, rfl, answered, since, completed⟩ := recorded
  refine ⟨earlier, new, later ++ [next], by simp, answered, ?_, ?_⟩
  · intro other member now created
    rcases List.mem_append.mp member with before | here
    · exact since other before now created
    · rw [List.mem_singleton.mp here]
      exact known now created
  · intro success succeeded
    rcases kept success succeeded with before | done
    · obtain ⟨done, member, doneAt, isComplete⟩ := completed success before
      exact ⟨done, List.mem_append_left _ member, doneAt, isComplete⟩
    · exact ⟨next, List.mem_append_right _ (List.mem_singleton_self next), done⟩

/-- An entry after a call is new, or was there before the call with the same success,
unless the call records one. -/
theorem entry_call {next : Call} {key : DedupKey} {entry : DedupEntry}
    (found : (cache.call next).entries[key]? = some entry) :
    ((∃ now created, AnswersNew key now created (cache, next)) ∧ entry.success = none) ∨
    ((∀ now created, ¬ AnswersNew key now created (cache, next)) ∧
      ∃ old, cache.entries[key]? = some old ∧
        ∀ success, entry.success = some success →
          old.success = some success ∨ ∃ doneAt, next = .complete key success doneAt) := by
  cases next with
  | check other now created iterated =>
      have notOther : key ≠ other → ∀ otherNow otherCreated,
          ¬ AnswersNew key otherNow otherCreated (cache, .check other now created iterated) := by
        rintro apart otherNow otherCreated ⟨_, same, -⟩
        cases same
        exact apart rfl
      have before : (cache.evictExpired now).entries[key]? = some entry →
          cache.entries[key]? = some entry := by
        intro live
        rw [getElem?_evictExpired, Option.filter_eq_some_iff] at live
        exact live.1
      rcases check_cases cache other now created iterated with
        ⟨status, stored, answer, entries⟩ | ⟨-, answer, entries⟩
      · right
        rw [DedupCache.call, entries] at found
        refine ⟨?_, entry, before found, fun success => Or.inl⟩
        rintro otherNow otherCreated ⟨otherIterated, same, isNew⟩
        cases same
        obtain ⟨hit, -, said⟩ := Option.bind_eq_some_iff.mp stored
        exact status_ne_new hit (said.trans (congrArg some (answer.symm.trans isNew)))
      · rw [DedupCache.call, entries] at found
        by_cases same : key = other
        · subst same
          rw [if_pos rfl] at found
          left
          exact ⟨⟨now, created, iterated, rfl, answer⟩, by rw [← Option.some.inj found]⟩
        · right
          rw [if_neg same] at found
          split at found
          case isTrue => cases found
          case isFalse => exact ⟨notOther same, entry, before found, fun _ => Or.inl⟩
  | complete other success now =>
      right
      refine ⟨nofun, ?_⟩
      rw [DedupCache.call, getElem?_complete] at found
      split at found
      case isTrue same =>
        subst same
        obtain ⟨old, oldFound, rfl⟩ := Option.map_eq_some_iff.mp found
        refine ⟨old, oldFound, fun recorded succeeded => Or.inr ⟨now, ?_⟩⟩
        rw [Option.some.inj succeeded]
      case isFalse => exact ⟨entry, found, fun _ => Or.inl⟩
  | remove other =>
      right
      refine ⟨nofun, entry, ?_, fun _ => Or.inl⟩
      rw [DedupCache.call, remove, Std.ExtTreeMap.getElem?_erase] at found
      split at found
      · cases found
      · exact found

theorem recorded_run (ttl : Nat) (calls : List Call) {key : DedupKey} {entry : DedupEntry}
    (found : (calls.foldl call (withTtl ttl)).entries[key]? = some entry) :
    Recorded (GuardedRun.steps call (withTtl ttl) calls) key entry := by
  induction calls using List.reverseRecOn generalizing entry with
  | nil => simp [withTtl] at found
  | append_singleton calls last ih =>
      rw [List.foldl_append, List.foldl_cons, List.foldl_nil] at found
      rw [GuardedRun.steps_append, GuardedRun.steps, GuardedRun.steps]
      rcases entry_call found with ⟨new, fresh⟩ | ⟨known, old, oldFound, kept⟩
      · exact ⟨_, _, [], rfl, new, fun _ member => absurd member List.not_mem_nil,
          fun success succeeded => by simp [fresh] at succeeded⟩
      · exact (ih oldFound).push known kept

/-- Two checks and a completion between them. -/
def completedOnce : List Call :=
  [.check 7 10 10 fun _ => 0, .complete 7 true 20, .check 7 30 30 fun _ => 0]

/-- One check for each of the first keys, at successive times. -/
def crowd (count : Nat) : List Call :=
  (List.range count).map fun index =>
    .check (UInt64.ofNat index) index index fun _ => 0

theorem crowd_succ (count : Nat) :
    crowd (count + 1) =
      crowd count ++ [.check (UInt64.ofNat count) count count fun _ => 0] := by
  simp [crowd, List.range_succ]

theorem crowd_eq_cons (count : Nat) :
    crowd (count + 1) = .check 0 0 0 (fun _ => 0) ::
      ((List.range count).map Nat.succ).map fun index =>
        .check (UInt64.ofNat index) index index fun _ => 0 := by
  rw [crowd, List.range_succ_eq_map]
  rfl

/-- The clock does not go back, and stays below the number of checks. -/
theorem clock_crowd (count : Nat) :
    ((crowd count).flatMap Call.readings).Pairwise (· ≤ ·) ∧
      ∀ reading ∈ (crowd count).flatMap Call.readings, reading < count := by
  rw [crowd, List.flatMap_map]
  constructor
  · rw [List.pairwise_flatMap]
    constructor
    · intro index _
      simp [Call.readings]
    · apply List.pairwise_lt_range.imp
      intro earlier later less
      simp only [Call.readings, List.mem_cons, List.not_mem_nil, or_false, or_self]
      omega
  · simp [Call.readings]

/-- Nothing leaves the table while all entries are live. -/
theorem entries_evictExpired {now : Nat}
    (live : ∀ (key : DedupKey) (entry : DedupEntry), cache.entries[key]? = some entry →
      now - entry.createdAt ≤ cache.ttl) :
    (cache.evictExpired now).entries = cache.entries := by
  apply Std.ExtTreeMap.ext_getElem?
  intro key
  rw [getElem?_evictExpired]
  cases found : cache.entries[key]? with
  | none => rfl
  | some entry => rw [Option.filter_some, if_pos (by simpa using live key entry found)]

/-- A check of a key that is not in a table with room adds its entry. -/
theorem entries_check_of_room {key : DedupKey} {now : Nat} (created : Nat)
    (iterated : DedupKey → Nat)
    (live : (cache.evictExpired now).entries = cache.entries)
    (missing : cache.entries[key]? = none) (room : cache.entries.size < maxDedupEntries) :
    (cache.check key now created iterated).1.entries =
      cache.entries.insert key ⟨created, true, none, none⟩ := by
  rcases check_cases cache key now created iterated with
    ⟨status, stored, -⟩ | ⟨-, -, entries⟩
  · rw [live, missing] at stored
    cases stored
  · apply Std.ExtTreeMap.ext_getElem?
    intro other
    rw [entries, live, if_neg (fun full : _ ∧ _ => absurd full.1 (by omega)),
      Std.ExtTreeMap.getElem?_insert]
    by_cases same : other = key
    · simp [same]
    · simp [same, Ne.symm same]

/-- The table after one check for each of the first keys, while there is room. -/
theorem entries_crowd {count : Nat} (small : count ≤ maxDedupEntries) :
    (∀ key : DedupKey, ((crowd count).foldl call (withTtl 1000)).entries[key]? =
      if key.toNat < count then some ⟨key.toNat, true, none, none⟩ else none) ∧
    ((crowd count).foldl call (withTtl 1000)).entries.size = count := by
  induction count with
  | zero => simp [crowd, withTtl]
  | succ count ih =>
      obtain ⟨entries, size⟩ := ih (by omega)
      have ttl := ttl_foldl (withTtl 1000) (crowd count)
      have bound : maxDedupEntries = 512 := rfl
      have number : (UInt64.ofNat count).toNat = count := by
        rw [UInt64.toNat_ofNat', Nat.mod_eq_of_lt (by omega)]
      rw [crowd_succ, List.foldl_append, List.foldl_cons, List.foldl_nil]
      generalize (crowd count).foldl call (withTtl 1000) = cache at entries size ttl
      have missing : cache.entries[UInt64.ofNat count]? = none := by
        rw [entries, number, if_neg (lt_irrefl count)]
      have live : (cache.evictExpired count).entries = cache.entries := by
        apply entries_evictExpired
        intro key entry found
        have span : (withTtl 1000).ttl = 1000 := rfl
        omega
      have added := entries_check_of_room count (fun _ => 0) live missing (by omega)
      constructor
      · intro key
        rw [call, added, Std.ExtTreeMap.getElem?_insert, entries]
        have sameKey : compare (UInt64.ofNat count) key = .eq ↔ key.toNat = count := by
          rw [Std.LawfulEqCmp.compare_eq_iff_eq, ← UInt64.toNat_inj, number, eq_comm]
        by_cases same : key.toNat = count
        · rw [if_pos (sameKey.mpr same), if_pos (by omega), same]
        · rw [if_neg (fun equal => same (sameKey.mp equal))]
          congr 1
          simp only [eq_iff_iff]
          omega
      · rw [call, added, Std.ExtTreeMap.size_insert, if_neg, size]
        rw [Std.ExtTreeMap.contains_eq_isSome_getElem?, missing]
        simp

/-- The first key is forgotten when one more key than there is room for is checked. -/
theorem first_evicted :
    ((crowd (maxDedupEntries + 1)).foldl call (withTtl 1000)).entries[(0 : DedupKey)]? =
      none := by
  obtain ⟨entries, size⟩ := entries_crowd (le_refl maxDedupEntries)
  have ttl := ttl_foldl (withTtl 1000) (crowd maxDedupEntries)
  rw [crowd_succ, List.foldl_append, List.foldl_cons, List.foldl_nil]
  generalize (crowd maxDedupEntries).foldl call (withTtl 1000) = cache at entries size ttl
  have live : (cache.evictExpired maxDedupEntries).entries = cache.entries := by
    apply entries_evictExpired
    intro key entry found
    have limit : maxDedupEntries = 512 := rfl
    have span : (withTtl 1000).ttl = 1000 := rfl
    omega
  have oldest : (cache.evictExpired maxDedupEntries).oldestKey (fun _ => 0) = some 0 := by
    cases found : (cache.evictExpired maxDedupEntries).oldestKey fun _ => 0 with
    | none =>
        unfold oldestKey at found
        rw [Option.map_eq_none_iff, List.argmin_eq_none, live,
          Std.ExtTreeMap.toList_eq_nil_iff] at found
        rw [found, Std.ExtTreeMap.size_empty] at size
        exact absurd size (by decide)
    | some key =>
        obtain ⟨entry, stored, least⟩ := oldest_of_oldestKey found
        rw [live] at stored least
        have first := least 0 ⟨0, true, none, none⟩ ((entries 0).trans (if_pos (by decide)))
        rw [entries] at stored
        split at stored
        · have created : key.toNat ≤ 0 := by
            rw [← Option.some.inj stored] at first
            exact first
          exact congrArg some (UInt64.toNat_inj.mp (by simpa using created))
        · cases stored
  rcases check_cases cache (UInt64.ofNat maxDedupEntries) maxDedupEntries maxDedupEntries
      fun _ => 0 with ⟨status, stored, -⟩ | ⟨-, -, after⟩
  · rw [live, entries, if_neg (by decide)] at stored
    cases stored
  · have full : maxDedupEntries ≤ (cache.evictExpired maxDedupEntries).entries.size := by
      rw [live, size]
    have gone := after 0
    rw [if_neg (by decide), if_pos ⟨full, oldest⟩] at gone
    rw [call]
    exact gone

end DedupCache
end Roko
