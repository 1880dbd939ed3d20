import Roko.GuardedRuns
import Std.Data.ExtTreeMap

/-!
# The file store of secrets

The model of `roko-core/src/secrets/file.rs`.  A set or delete updates the cache under its
lock, and writes the snapshot that it took there to the file after the lock is released: it
truncates and writes a temporary file, which all calls share, and renames it over the file.
A text is kept as what it parses to, since the text of a document is taken to parse to it.
-/

namespace Roko

structure Namespace where
  category : String
  provider : String
deriving DecidableEq

/-- A TOML value that is not a table, or one that the store does not look into. -/
inductive TomlLeaf where
  | string (text : String)
  | other (toml : String)
deriving DecidableEq

inductive TomlCategory where
  | leaf (value : TomlLeaf)
  | table (providers : Std.ExtTreeMap String TomlLeaf)

inductive TomlDocument where
  | leaf (value : TomlLeaf)
  | table (categories : Std.ExtTreeMap String TomlCategory)

def TomlCategory.asTable : TomlCategory → Option (Std.ExtTreeMap String TomlLeaf)
  | .leaf _ => none
  | .table providers => some providers

def TomlDocument.asTable : TomlDocument → Option (Std.ExtTreeMap String TomlCategory)
  | .leaf _ => none
  | .table categories => some categories

namespace FileStore

/-- The providers of a category. -/
def providers (cache : TomlDocument) (category : String) :
    Option (Std.ExtTreeMap String TomlLeaf) :=
  (cache.asTable.bind fun root => root[category]?).bind TomlCategory.asTable

def get (cache : TomlDocument) (ns : Namespace) : Except String (Option String) :=
  match (providers cache ns.category).bind fun table => table[ns.provider]? with
  | none => .ok none
  | some (.string text) => .ok (some text)
  | some (.other _) =>
      .error ("secret at " ++ ns.category ++ "." ++ ns.provider ++ " is not a string")

/-- The part of `set` under the lock: what is not a table gives way to one. -/
def setLocked (cache : TomlDocument) (ns : Namespace) (value : String) : TomlDocument :=
  let root := cache.asTable.getD ∅
  let category := (root[ns.category]?.bind TomlCategory.asTable).getD ∅
  .table (root.insert ns.category (.table (category.insert ns.provider (.string value))))

/-- The part of `delete` under the lock; nothing where there is no such secret. -/
def deleteLocked (cache : TomlDocument) (ns : Namespace) : Option TomlDocument :=
  match cache.asTable, providers cache ns.category with
  | some root, some table =>
      if ns.provider ∈ table then
        some (.table (root.insert ns.category (.table (table.erase ns.provider))))
      else none
  | _, _ => none

theorem providers_setLocked (cache : TomlDocument) (ns : Namespace) (value : String)
    (category : String) :
    providers (setLocked cache ns value) category =
      if category = ns.category then
        some (((providers cache ns.category).getD ∅).insert ns.provider (.string value))
      else providers cache category := by
  unfold providers setLocked
  by_cases same : category = ns.category
  · cases cache with
    | leaf value => simp [same, TomlDocument.asTable, TomlCategory.asTable]
    | table categories => simp [same, TomlDocument.asTable, TomlCategory.asTable]
  · have different : ¬ ns.category = category := fun equal => same equal.symm
    cases cache with
    | leaf value =>
        simp [same, different, TomlDocument.asTable]
    | table categories =>
        simp [same, different, TomlDocument.asTable, Std.ExtTreeMap.getElem?_insert]

/-- A set changes what get returns for its own namespace only. -/
theorem get_setLocked (cache : TomlDocument) (ns other : Namespace) (value : String) :
    get (setLocked cache ns value) other =
      if other = ns then .ok (some value) else get cache other := by
  unfold get
  rw [providers_setLocked]
  by_cases sameCategory : other.category = ns.category
  · by_cases sameProvider : other.provider = ns.provider
    · have same : other = ns := by
        cases other
        cases ns
        simp_all
      simp [same]
    · have different : ¬ other = ns := fun equal => sameProvider (equal ▸ rfl)
      have apart : ¬ ns.provider = other.provider := fun equal => sameProvider equal.symm
      rw [if_pos sameCategory, if_neg different, sameCategory]
      cases providers cache ns.category with
      | none => simp [apart]
      | some table => simp [Std.ExtTreeMap.getElem?_insert, apart]
  · have different : ¬ other = ns := fun equal => sameCategory (equal ▸ rfl)
    rw [if_neg sameCategory, if_neg different]

/-- A set of the value that get returns changes nothing that get returns. -/
theorem get_setLocked_of_eq {cache : TomlDocument} {ns : Namespace} {value : String}
    (present : get cache ns = .ok (some value)) (other : Namespace) :
    get (setLocked cache ns value) other = get cache other := by
  rw [get_setLocked]
  split
  case isTrue same => rw [same, present]
  case isFalse => rfl

/-- A delete that has something to persist changes what get returns. -/
theorem get_deleteLocked_ne {cache snapshot : TomlDocument} {ns : Namespace}
    (deleted : deleteLocked cache ns = some snapshot) : get snapshot ns ≠ get cache ns := by
  unfold deleteLocked at deleted
  split at deleted
  case h_1 root table isRoot isTable =>
    split at deleted
    case isTrue member =>
      have gone : get snapshot ns = .ok none := by
        rw [← Option.some.inj deleted]
        simp [get, providers, TomlDocument.asTable, TomlCategory.asTable]
      obtain ⟨leaf, found⟩ := Option.isSome_iff_exists.mp
        (Std.ExtTreeMap.mem_iff_isSome_getElem?.mp member)
      rw [gone]
      unfold get
      rw [isTable, Option.bind_some, found]
      cases leaf with
      | string text => simp
      | other toml => simp
    case isFalse => cases deleted
  case h_2 => cases deleted

inductive StoreCall where
  | set (ns : Namespace) (value : String)
  | delete (ns : Namespace)
deriving DecidableEq

/-- What a call leaves in the cache and takes a snapshot of; nothing where it has nothing
to persist. -/
def locked (cache : TomlDocument) : StoreCall → Option TomlDocument
  | .set ns value => some (setLocked cache ns value)
  | .delete ns => deleteLocked cache ns

/-- A call between its steps, with the cache that it found. -/
structure PendingCall where
  call : StoreCall
  found : TomlDocument
  snapshot : TomlDocument
  /-- The place of its update among all. -/
  number : Nat
  wrote : Bool

/-- A call that returned. -/
structure ReturnedCall where
  ok : Bool
  found : TomlDocument
  snapshot : TomlDocument

/-- The store of a file, and the calls that its threads are in.  What the file and the
temporary file hold is given by what it parses to. -/
structure StoreThreads where
  cache : TomlDocument
  file : Option TomlDocument
  temp : Option (Option TomlDocument)
  threads : Nat → Option PendingCall := fun _ => none
  returned : List ReturnedCall := []
  updates : Nat := 0
  /-- The number of the newest update that was written to the temporary file. -/
  written : Nat := 0

inductive StoreStep where
  | update (thread : Nat) (call : StoreCall)
  | write (thread : Nat)
  /-- The temporary file is not opened, or it is left with something else. -/
  | failWrite (thread : Nat) (left : Option (Option TomlDocument))
  | rename (thread : Nat)
  | failRename (thread : Nat)

def StoreStep.thread : StoreStep → Nat
  | .update thread _ | .write thread | .failWrite thread _ | .rename thread
  | .failRename thread => thread

namespace StoreThreads

/-- The call of the thread returns. -/
def finish (store : StoreThreads) (thread : Nat) (pending : PendingCall) (ok : Bool) :
    StoreThreads :=
  { store with
    threads := Function.update store.threads thread none
    returned := store.returned ++ [⟨ok, pending.found, pending.snapshot⟩] }

/-- The call of the thread leaves the snapshot that it took in the cache. -/
def take (store : StoreThreads) (thread : Nat) (call : StoreCall) (snapshot : TomlDocument) :
    StoreThreads :=
  { store with
    cache := snapshot
    threads := Function.update store.threads thread
      (some ⟨call, store.cache, snapshot, store.updates + 1, false⟩)
    updates := store.updates + 1 }

def update (store : StoreThreads) (thread : Nat) (call : StoreCall) : StoreThreads :=
  match locked store.cache call with
  | none => { store with returned := store.returned ++ [⟨true, store.cache, store.cache⟩] }
  | some snapshot => store.take thread call snapshot

def write (store : StoreThreads) (thread : Nat) (pending : PendingCall) : StoreThreads :=
  { store with
    temp := some (some pending.snapshot)
    threads := Function.update store.threads thread (some { pending with wrote := true })
    written := pending.number }

/-- A rename fails when there is no temporary file any more. -/
def rename (store : StoreThreads) (thread : Nat) (pending : PendingCall) : StoreThreads :=
  match store.temp with
  | none => store.finish thread pending false
  | some text => { store.finish thread pending true with file := text, temp := none }

/-- The thread is in a call that has written the temporary file, or has not. -/
def In (store : StoreThreads) (thread : Nat) (wrote : Bool) (pending : PendingCall) : Prop :=
  store.threads thread = some pending ∧ pending.wrote = wrote

/-- The next step of a thread; a step that it cannot take changes nothing. -/
def step (store : StoreThreads) : StoreStep → StoreThreads
  | .update thread call =>
      match store.threads thread with
      | none => store.update thread call
      | some _ => store
  | .write thread =>
      match store.threads thread with
      | none => store
      | some pending => if pending.wrote then store else store.write thread pending
  | .failWrite thread left =>
      match store.threads thread with
      | none => store
      | some pending =>
          if pending.wrote then store
          else { store.finish thread pending false with temp := left.or store.temp }
  | .rename thread =>
      match store.threads thread with
      | none => store
      | some pending => if pending.wrote then store.rename thread pending else store
  | .failRename thread =>
      match store.threads thread with
      | none => store
      | some pending => if pending.wrote then store.finish thread pending false else store

/-- What a step can do. -/
inductive Taken (store : StoreThreads) : StoreStep → StoreThreads → Prop
  | idle {step : StoreStep} : Taken store step store
  | update {thread : Nat} {call : StoreCall} (idle : store.threads thread = none) :
      Taken store (.update thread call) (store.update thread call)
  | write {thread : Nat} {pending : PendingCall} (inside : store.In thread false pending) :
      Taken store (.write thread) (store.write thread pending)
  | failWrite {thread : Nat} {left : Option (Option TomlDocument)} {pending : PendingCall}
      (inside : store.In thread false pending) :
      Taken store (.failWrite thread left)
        { store.finish thread pending false with temp := left.or store.temp }
  | rename {thread : Nat} {pending : PendingCall} (inside : store.In thread true pending) :
      Taken store (.rename thread) (store.rename thread pending)
  | failRename {thread : Nat} {pending : PendingCall}
      (inside : store.In thread true pending) :
      Taken store (.failRename thread) (store.finish thread pending false)

theorem taken_step (store : StoreThreads) (step : StoreStep) :
    store.Taken step (store.step step) := by
  cases step with
  | update thread call =>
      dsimp only [StoreThreads.step]
      split
      case h_1 idle => exact .update idle
      case h_2 => exact .idle
  | write thread =>
      dsimp only [StoreThreads.step]
      split
      case h_1 => exact .idle
      case h_2 pending found =>
        split
        case isTrue => exact .idle
        case isFalse unwritten => exact .write ⟨found, Bool.eq_false_iff.mpr unwritten⟩
  | failWrite thread left =>
      dsimp only [StoreThreads.step]
      split
      case h_1 => exact .idle
      case h_2 pending found =>
        split
        case isTrue => exact .idle
        case isFalse unwritten => exact .failWrite ⟨found, Bool.eq_false_iff.mpr unwritten⟩
  | rename thread =>
      dsimp only [StoreThreads.step]
      split
      case h_1 => exact .idle
      case h_2 pending found =>
        split
        case isTrue written => exact .rename ⟨found, written⟩
        case isFalse => exact .idle
  | failRename thread =>
      dsimp only [StoreThreads.step]
      split
      case h_1 => exact .idle
      case h_2 pending found =>
        split
        case isTrue written => exact .failRename ⟨found, written⟩
        case isFalse => exact .idle

def AllOk (store : StoreThreads) : Prop :=
  ∀ call ∈ store.returned, call.ok = true

/-- What holds in every state. -/
structure StoreLaw (store : StoreThreads) : Prop where
  /-- Once all calls have returned Ok, the file parses to the cache. -/
  durable : (∀ thread, store.threads thread = none) → store.AllOk →
    store.file = some store.cache
  /-- A call that failed has changed nothing that get returns. -/
  unchanged : ∀ call ∈ store.returned, call.ok = false →
    ∀ ns, get call.snapshot ns = get call.found ns

/-- The call sets a secret to the value that it has already. -/
def Repeats (pending : PendingCall) : Prop :=
  ∃ ns value, pending.call = .set ns value ∧ get pending.found ns = .ok (some value)

/-- The first condition on a step: snapshots are written in the order in which they were
taken. -/
def WritesInTurn (store : StoreThreads) (step : StoreStep) : Prop :=
  ∀ thread pending, step = .write thread → store.In thread false pending →
    store.written ≤ pending.number

/-- The second condition: only calls that set what is set already fail, or find the
temporary file renamed by another call. -/
def FailsQuietly (store : StoreThreads) : StoreStep → Prop
  | .update _ _ | .write _ => True
  | .failWrite thread _ => ∀ pending, store.In thread false pending → Repeats pending
  | .rename thread => ∀ pending, store.In thread true pending →
      store.temp ≠ none ∨ Repeats pending
  | .failRename thread => ∀ pending, store.In thread true pending → Repeats pending

/-- The newest snapshot that was written is in the file, or in the temporary file of a call
that is still to rename it. -/
def Placed (store : StoreThreads) (last : TomlDocument) : Prop :=
  (store.file = some last ∧
      (store.temp = none ∨ ∀ thread pending, ¬ store.In thread true pending)) ∨
    store.temp = some (some last) ∧ ∃ thread pending, store.In thread true pending

/-- The invariant of the runs in order. -/
structure Sound (store : StoreThreads) : Prop where
  bounded : store.written ≤ store.updates
  numbered : ∀ thread pending, store.threads thread = some pending →
    pending.number ≤ store.updates ∧
      (pending.number = store.updates → pending.snapshot = store.cache)
  snapshots : ∀ thread pending, store.threads thread = some pending →
    locked pending.found pending.call = some pending.snapshot
  unchanged : ∀ call ∈ store.returned, call.ok = false →
    ∀ ns, get call.snapshot ns = get call.found ns
  newest : store.AllOk → store.written = store.updates ∨
    ∃ thread pending, store.In thread false pending ∧ pending.number = store.updates
  placed : store.AllOk → ∃ last, store.Placed last ∧
    (store.written = store.updates → last = store.cache)

variable {store : StoreThreads}

/-- When no call is under way, what was taken last was written, and is in the file. -/
theorem Sound.law (sound : Sound store) : StoreLaw store where
  durable := by
    intro quiet allOk
    have idle : ∀ thread wrote pending, ¬ store.In thread wrote pending := by
      rintro thread wrote pending ⟨found, -⟩
      rw [quiet thread] at found
      cases found
    have written : store.written = store.updates := by
      rcases sound.newest allOk with written | ⟨thread, pending, inside, -⟩
      · exact written
      · exact absurd inside (idle thread false pending)
    obtain ⟨last, ⟨inFile, -⟩ | ⟨-, thread, pending, inside⟩, same⟩ := sound.placed allOk
    · rw [inFile, same written]
    · exact absurd inside (idle thread true pending)
  unchanged := sound.unchanged

/-- A step of a thread changes the call of no other thread. -/
theorem in_of_update {after : StoreThreads} {thread : Nat} {pending : Option PendingCall}
    (threads : after.threads = Function.update store.threads thread pending) {other : Nat}
    {wrote : Bool} {call : PendingCall} :
    after.In other wrote call ↔
      if other = thread then pending = some call ∧ call.wrote = wrote
      else store.In other wrote call := by
  unfold In
  rw [threads, Function.update_apply]
  split <;> rfl

theorem not_allOk_finish (store : StoreThreads) (thread : Nat) (pending : PendingCall) :
    ¬ (store.finish thread pending false).AllOk := by
  intro allOk
  have failed := allOk ⟨false, pending.found, pending.snapshot⟩
    (List.mem_append_right _ (List.mem_singleton_self _))
  cases failed

theorem threads_of_update {after : StoreThreads} {thread : Nat}
    {pending : Option PendingCall}
    (threads : after.threads = Function.update store.threads thread pending) (other : Nat) :
    after.threads other = if other = thread then pending else store.threads other := by
  rw [threads, Function.update_apply]

/-- The other threads stay in their calls when a thread returns. -/
theorem found_of_cleared {thread other : Nat} {call : PendingCall}
    (found : Function.update store.threads thread none other = some call) :
    store.threads other = some call := by
  rw [Function.update_apply] at found
  split at found
  · cases found
  · exact found

/-- A call that only repeats what is set may fail. -/
theorem Sound.fail (sound : Sound store) {thread : Nat} {pending : PendingCall}
    (found : store.threads thread = some pending) (repeats : Repeats pending)
    (temp : Option (Option TomlDocument)) :
    Sound { store.finish thread pending false with temp } := by
  have failed := store.not_allOk_finish thread pending
  refine ⟨sound.bounded,
    fun other call inside => sound.numbered other call (found_of_cleared inside),
    fun other call inside => sound.snapshots other call (found_of_cleared inside), ?_,
    fun allOk => absurd allOk failed, fun allOk => absurd allOk failed⟩
  intro call member notOk ns
  rcases List.mem_append.mp member with earlier | last
  · exact sound.unchanged call earlier notOk ns
  · obtain ⟨own, value, isSet, present⟩ := repeats
    have snapshot := sound.snapshots thread pending found
    rw [isSet] at snapshot
    rw [List.mem_singleton.mp last, ← Option.some.inj snapshot]
    exact get_setLocked_of_eq present ns

/-- A call that starts has written nothing yet. -/
theorem in_take {thread : Nat} (idle : store.threads thread = none) (call : StoreCall)
    (snapshot : TomlDocument) (other : Nat) (pending : PendingCall) :
    (store.take thread call snapshot).In other true pending ↔
      store.In other true pending := by
  rw [in_of_update rfl]
  split
  case isTrue same =>
    unfold In
    rw [same, idle]
    constructor
    · rintro ⟨own, wrote⟩
      rw [← Option.some.inj own] at wrote
      cases wrote
    · rintro ⟨found, -⟩
      cases found
  case isFalse => rfl

theorem Sound.take (sound : Sound store) {thread : Nat} (idle : store.threads thread = none)
    {call : StoreCall} {snapshot : TomlDocument}
    (isSnapshot : locked store.cache call = some snapshot) :
    Sound (store.take thread call snapshot) where
  bounded := Nat.le_succ_of_le sound.bounded
  numbered := by
    intro other pending inside
    rw [threads_of_update rfl] at inside
    split at inside
    · rw [← Option.some.inj inside]
      exact ⟨Nat.le_refl _, fun _ => rfl⟩
    · have bound := (sound.numbered other pending inside).1
      refine ⟨Nat.le_succ_of_le bound, fun same => ?_⟩
      have after : (store.take thread call snapshot).updates = store.updates + 1 := rfl
      omega
  snapshots := by
    intro other pending inside
    rw [threads_of_update rfl] at inside
    split at inside
    · rw [← Option.some.inj inside]
      exact isSnapshot
    · exact sound.snapshots other pending inside
  unchanged := sound.unchanged
  newest := fun _ =>
    Or.inr ⟨thread, _, (in_of_update rfl).mpr (by rw [if_pos rfl]; exact ⟨rfl, rfl⟩), rfl⟩
  placed := by
    intro allOk
    obtain ⟨last, placed, -⟩ := sound.placed allOk
    refine ⟨last, ?_, fun same => ?_⟩
    · rcases placed with ⟨inFile, rest⟩ | ⟨inTemp, other, pending, inside⟩
      · refine Or.inl ⟨inFile, rest.imp_right ?_⟩
        exact fun none other pending inside =>
          none other pending ((in_take idle call snapshot other pending).mp inside)
      · exact Or.inr ⟨inTemp, other, pending,
          (in_take idle call snapshot other pending).mpr inside⟩
    · have bound := sound.bounded
      have after : (store.take thread call snapshot).updates = store.updates + 1 := rfl
      have written : (store.take thread call snapshot).written = store.written := rfl
      omega

theorem Sound.update (sound : Sound store) {thread : Nat}
    (idle : store.threads thread = none) (call : StoreCall) :
    Sound (store.update thread call) := by
  unfold StoreThreads.update
  split
  case h_1 =>
    have allOk : (∀ returned ∈ store.returned ++ [⟨true, store.cache, store.cache⟩],
        returned.ok = true) → store.AllOk :=
      fun all returned member => all returned (List.mem_append_left _ member)
    refine ⟨sound.bounded, sound.numbered, sound.snapshots, ?_,
      fun all => sound.newest (allOk all), fun all => sound.placed (allOk all)⟩
    intro returned member notOk ns
    rcases List.mem_append.mp member with earlier | last
    · exact sound.unchanged returned earlier notOk ns
    · rw [List.mem_singleton.mp last] at notOk
      cases notOk
  case h_2 snapshot isSnapshot => exact sound.take idle isSnapshot

/-- A snapshot that is written in its turn. -/
theorem Sound.write (sound : Sound store) {thread : Nat} {pending : PendingCall}
    (inside : store.In thread false pending) (inTurn : store.written ≤ pending.number) :
    Sound (store.write thread pending) where
  bounded := (sound.numbered thread pending inside.1).1
  numbered := by
    intro other call found
    rw [threads_of_update rfl] at found
    split at found
    · rw [← Option.some.inj found]
      exact sound.numbered thread pending inside.1
    · exact sound.numbered other call found
  snapshots := by
    intro other call found
    rw [threads_of_update rfl] at found
    split at found
    · rw [← Option.some.inj found]
      exact sound.snapshots thread pending inside.1
    · exact sound.snapshots other call found
  unchanged := sound.unchanged
  newest := by
    intro allOk
    have after : (store.write thread pending).written = pending.number := rfl
    have updates : (store.write thread pending).updates = store.updates := rfl
    rw [after, updates]
    have bound := (sound.numbered thread pending inside.1).1
    rcases sound.newest allOk with written | ⟨other, call, waiting, newest⟩
    · exact Or.inl (by omega)
    · by_cases same : other = thread
      · left
        rw [same, In, inside.1] at waiting
        rw [Option.some.inj waiting.1]
        exact newest
      · right
        refine ⟨other, call, (in_of_update rfl).mpr ?_, newest⟩
        rw [if_neg same]
        exact waiting
  placed := by
    intro _
    refine ⟨pending.snapshot, Or.inr ⟨rfl, thread, { pending with wrote := true }, ?_⟩,
      (sound.numbered thread pending inside.1).2⟩
    exact (in_of_update rfl).mpr (by rw [if_pos rfl]; exact ⟨rfl, rfl⟩)

/-- A rename of what was written last. -/
theorem Sound.rename (sound : Sound store) {thread : Nat} {pending : PendingCall}
    (inside : store.In thread true pending)
    (there : store.temp ≠ none ∨ Repeats pending) :
    Sound (store.rename thread pending) := by
  unfold StoreThreads.rename
  split
  case h_1 gone =>
    have repeats := there.resolve_left (fun present => present gone)
    exact sound.fail inside.1 repeats store.temp
  case h_2 text present =>
    have before : (store.finish thread pending true).AllOk → store.AllOk :=
      fun all call member => all call (List.mem_append_left _ member)
    refine ⟨sound.bounded,
      fun other call found => sound.numbered other call (found_of_cleared found),
      fun other call found => sound.snapshots other call (found_of_cleared found), ?_, ?_, ?_⟩
    · intro call member notOk ns
      rcases List.mem_append.mp member with earlier | last
      · exact sound.unchanged call earlier notOk ns
      · rw [List.mem_singleton.mp last] at notOk
        cases notOk
    · intro allOk
      refine (sound.newest (before allOk)).imp_right ?_
      rintro ⟨other, call, waiting, newest⟩
      refine ⟨other, call, (in_of_update rfl).mpr ?_, newest⟩
      rw [if_neg]
      · exact waiting
      · intro same
        rw [same, In, inside.1] at waiting
        rw [← Option.some.inj waiting.1, inside.2] at waiting
        cases waiting.2
    · intro allOk
      obtain ⟨last, ⟨-, gone | none⟩ | ⟨inTemp, -⟩, same⟩ := sound.placed (before allOk)
      · rw [present] at gone
        cases gone
      · exact absurd inside (none thread pending)
      · rw [present] at inTemp
        exact ⟨last, Or.inl ⟨Option.some.inj inTemp, Or.inl rfl⟩, same⟩

theorem Sound.step (sound : Sound store) {step : StoreStep}
    (inTurn : store.WritesInTurn step) (quietly : store.FailsQuietly step) :
    Sound (store.step step) := by
  have taken := store.taken_step step
  generalize store.step step = after at taken ⊢
  cases taken with
  | idle => exact sound
  | update idle => exact sound.update idle _
  | write inside => exact sound.write inside (inTurn _ _ rfl inside)
  | failWrite inside => exact sound.fail inside.1 (quietly _ inside) _
  | rename inside => exact sound.rename inside (quietly _ inside)
  | failRename inside => exact sound.fail inside.1 (quietly _ inside) store.temp

/-- A step is in the call of its thread only. -/
theorem threads_step {step : StoreStep} {other : Nat} (different : other ≠ step.thread) :
    (store.step step).threads other = store.threads other := by
  have taken := store.taken_step step
  generalize store.step step = after at taken ⊢
  cases taken with
  | idle => rfl
  | update idle =>
      unfold StoreThreads.update
      split
      · rfl
      · exact Function.update_of_ne different _ _
  | write inside => exact Function.update_of_ne different _ _
  | failWrite inside => exact Function.update_of_ne different _ _
  | rename inside =>
      unfold StoreThreads.rename
      split
      · exact Function.update_of_ne different _ _
      · exact Function.update_of_ne different _ _
  | failRename inside => exact Function.update_of_ne different _ _

theorem threads_run {steps : List StoreStep} {other : Nat}
    (different : ∀ step ∈ steps, other ≠ step.thread) :
    (steps.foldl StoreThreads.step store).threads other = store.threads other := by
  induction steps generalizing store with
  | nil => rfl
  | cons step steps ih =>
      rw [List.forall_mem_cons] at different
      rw [List.foldl_cons, ih different.2, threads_step different.1]

/-- A failed call that has changed nothing repeats what was set: a delete that has something
to persist does change it. -/
theorem repeats_of_unchanged {pending : PendingCall}
    (isSnapshot : locked pending.found pending.call = some pending.snapshot)
    (unchanged : ∀ ns, get pending.snapshot ns = get pending.found ns) : Repeats pending := by
  cases call : pending.call with
  | set ns value =>
      rw [call] at isSnapshot
      refine ⟨ns, value, call, ?_⟩
      rw [← unchanged ns, ← Option.some.inj isSnapshot, get_setLocked, if_pos rfl]
  | delete ns =>
      rw [call] at isSnapshot
      exact absurd (unchanged ns) (get_deleteLocked_ne isSnapshot)

theorem unchanged_of_finish {thread : Nat} {pending : PendingCall}
    (temp : Option (Option TomlDocument))
    (law : StoreLaw { store.finish thread pending false with temp }) (ns : Namespace) :
    get pending.snapshot ns = get pending.found ns :=
  law.unchanged ⟨false, pending.found, pending.snapshot⟩
    (List.mem_append_right _ (List.mem_singleton_self _)) rfl ns

/-- Among the steps that write in turn, those that fail quietly are those that keep the
law. -/
theorem failsQuietly_iff_law (sound : Sound store) {step : StoreStep}
    (inTurn : store.WritesInTurn step) :
    store.FailsQuietly step ↔ (store.step step).StoreLaw := by
  constructor
  · exact fun quietly => (sound.step inTurn quietly).law
  · intro law
    cases step with
    | update thread call => trivial
    | write thread => trivial
    | failWrite thread left =>
        intro pending inside
        simp only [StoreThreads.step, inside.1, inside.2] at law
        exact repeats_of_unchanged (sound.snapshots thread pending inside.1)
          (unchanged_of_finish (left.or store.temp) law)
    | rename thread =>
        intro pending inside
        simp only [StoreThreads.step, inside.1, inside.2, StoreThreads.rename] at law
        cases gone : store.temp with
        | none =>
            right
            simp only [gone, if_true] at law
            exact repeats_of_unchanged (sound.snapshots thread pending inside.1)
              (unchanged_of_finish store.temp law)
        | some text => exact Or.inl (Option.some_ne_none text)
    | failRename thread =>
        intro pending inside
        simp only [StoreThreads.step, inside.1, inside.2, if_true] at law
        exact repeats_of_unchanged (sound.snapshots thread pending inside.1)
          (unchanged_of_finish store.temp law)

end StoreThreads

/-- A store that was opened: the cache is what the file parses to.  A temporary file may be
left from before. -/
def opened (document : TomlDocument) (temp : Option (Option TomlDocument)) : StoreThreads where
  cache := document
  file := some document
  temp := temp

theorem sound_opened (document : TomlDocument) (temp : Option (Option TomlDocument)) :
    (opened document temp).Sound where
  bounded := Nat.le_refl _
  numbered := by simp [opened]
  snapshots := by simp [opened]
  unchanged := by simp [opened]
  newest := fun _ => Or.inl rfl
  placed := fun _ =>
    ⟨document, Or.inl ⟨rfl, Or.inr (by simp [StoreThreads.In, opened])⟩, fun _ => rfl⟩

/-- In a run that writes the snapshots in the order in which they were taken, the file ends
up with the cache and failed calls have changed nothing exactly when calls fail quietly. -/
theorem store_lawful_iff (document : TomlDocument) (temp : Option (Option TomlDocument))
    (steps : List StoreStep) :
    GuardedRun.Guarded StoreThreads.step
        (fun store step => store.WritesInTurn step ∧ store.FailsQuietly step)
        (opened document temp) steps ↔
      (∀ store ∈ GuardedRun.states StoreThreads.step (opened document temp) steps,
          store.StoreLaw) ∧
        GuardedRun.Guarded StoreThreads.step StoreThreads.WritesInTurn
          (opened document temp) steps := by
  have start := sound_opened document temp
  apply GuardedRun.guarded_iff_kept StoreThreads.step _ _ StoreThreads.Sound
    StoreThreads.StoreLaw _ _ start start.law
  · intro store step sound
    rw [and_comm]
    exact and_congr_left fun inTurn => StoreThreads.failsQuietly_iff_law sound inTurn
  · exact fun store step sound both => sound.step both.1 both.2

def anthropic : Namespace :=
  ⟨"llm", "anthropic"⟩

def alchemy : Namespace :=
  ⟨"rpc", "alchemy"⟩

/-- Two threads set a secret each; the one that came first writes and renames last. -/
def lateWrite : List StoreStep :=
  [.update 1 (.set anthropic "first"), .update 2 (.set alchemy "second"), .write 2, .rename 2,
    .write 1, .rename 1]

/-- Both calls return Ok, and the second secret is in the cache but not in the file. -/
theorem lateWrite_loses :
    let store := lateWrite.foldl StoreThreads.step (opened (.table ∅) none)
    store.returned.map ReturnedCall.ok = [true, true] ∧
      get store.cache alchemy = .ok (some "second") ∧
      store.file.map (get · alchemy) = some (.ok none) ∧ ¬ store.StoreLaw := by
  intro store
  have cached : get store.cache alchemy = .ok (some "second") := by decide +kernel
  have inFile : store.file.map (get · alchemy) = some (.ok none) := by decide +kernel
  refine ⟨by decide +kernel, cached, inFile, ?_⟩
  intro law
  have quiet : ∀ thread, store.threads thread = none := by
    intro thread
    by_cases first : thread = 1
    · rw [first]
      rfl
    · by_cases second : thread = 2
      · rw [second]
        rfl
      · exact StoreThreads.threads_run (by simp [lateWrite, StoreStep.thread, first, second])
  have saved := law.durable quiet (by unfold StoreThreads.AllOk; decide +kernel)
  rw [saved, Option.map_some, cached] at inFile
  cases inFile

end FileStore

end Roko
