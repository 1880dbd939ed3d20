import Roko.GuardedRuns
import Roko.ParentWalks
import Roko.WatchCapacity

/-!
# The depth of watched contracts

A contract that contagion adds is one deeper than its parent, and none is added beyond the
largest depth.  A parent may be added after its children; the chains that end at it then
become longer, which nothing checks.
-/

namespace Roko

open Std ParentWalk

namespace TargetedFollower

open DiffClassifier

/-- The parent of a contract that contagion added. -/
def parentOf (watchList : ExtTreeMap Address WatchEntry) (address : Address) :
    Option Address :=
  match watchList[address]? with
  | none => none
  | some entry =>
      match entry.source with
      | .autoClassified | .manual => none
      | .contagion parent => some parent

/-- The links that `watch_depth` follows. -/
def watchLinks (watchList : ExtTreeMap Address WatchEntry) : Links Address where
  parent := parentOf watchList
  nodes := watchList.keys
  listed {address parent} linked := by
    rw [ExtTreeMap.mem_keys, ExtTreeMap.mem_iff_isSome_getElem?]
    unfold parentOf at linked
    split at linked
    · cases linked
    · simp_all

theorem watchDepthFrom_eq (watchList : ExtTreeMap Address WatchEntry) (seen : List Address)
    (depth : Nat) (current : Address) :
    watchDepthFrom watchList seen depth current =
      depth + ((watchLinks watchList).walkFrom seen current).length := by
  fun_induction watchDepthFrom watchList seen depth current with
  | case1 seen depth current known => rw [Links.walkFrom_of_seen _ known]; rfl
  | case2 seen depth current new missing =>
      have first : parentOf watchList current = none := by simp [parentOf, missing]
      rw [Links.walkFrom_of_no_parent _ first]
      rfl
  | case3 seen depth current new entry found source =>
      have first : parentOf watchList current = none := by simp [parentOf, found, source]
      rw [Links.walkFrom_of_no_parent _ first]
      rfl
  | case4 seen depth current new entry found source =>
      have first : parentOf watchList current = none := by simp [parentOf, found, source]
      rw [Links.walkFrom_of_no_parent _ first]
      rfl
  | case5 seen depth current new entry found parent source ih =>
      have linked : parentOf watchList current = some parent := by
        simp [parentOf, found, source]
      rw [ih, Links.walkFrom_of_parent _ new linked, List.length_cons]
      omega

theorem watchDepth_eq (watchList : ExtTreeMap Address WatchEntry) (address : Address) :
    watchDepth watchList address = (watchLinks watchList).depth address := by
  rw [watchDepth, watchDepthFrom_eq, Nat.zero_add]
  rfl

/-- A walk ends after at most as many parents as there are entries. -/
theorem watchDepth_le_size (watchList : ExtTreeMap Address WatchEntry) (address : Address) :
    watchDepth watchList address ≤ watchList.size := by
  rw [watchDepth_eq, ← ExtTreeMap.length_keys]
  exact Links.depth_le _ _

/-- A call for the diff of a transaction, with the order in which the classified accounts
are visited. -/
structure ContagionCall where
  diff : StateDiff
  blockNumber : UInt64
  parent : Option Address
  visited : List (Address × Classification)

/-- The part of a call that is about one account. -/
structure ContagionTurn where
  diff : StateDiff
  blockNumber : UInt64
  parent : Option Address
  account : Address × Classification

def ContagionCall.turns (call : ContagionCall) : List ContagionTurn :=
  call.visited.map fun account => ⟨call.diff, call.blockNumber, call.parent, account⟩

variable (config : ClassificationConfig)

def callStep (store : DirtyStore) (call : ContagionCall) : DirtyStore :=
  (applyContagionWatchers config store call.diff call.blockNumber call.parent
    call.visited).1

def turnStep (store : DirtyStore) (turn : ContagionTurn) : DirtyStore :=
  (applyContagionWatchers config store turn.diff turn.blockNumber turn.parent
    [turn.account]).1

/-- No entry is deeper than the configuration allows. -/
def DepthsBounded (store : DirtyStore) : Prop :=
  ∀ address ∈ store.watchList, watchDepth store.watchList address ≤ config.maxContagionDepth

/-- The checks before a contract is added. -/
def Adds (store : DirtyStore) (turn : ContagionTurn) : Prop :=
  store.demoteProtocolsToSlotOnly = false ∧ config.enableContagion = true ∧
    turn.account.2 = .protocol ∧
    watchDepth store.watchList (turn.parent.getD 0) + 1 ≤ config.maxContagionDepth ∧
    store.unwatchList.contains turn.account.1 = false ∧
    store.watchList.contains turn.account.1 = false ∧
    store.watchList.size < config.maxWatchedContracts

instance (store : DirtyStore) (turn : ContagionTurn) : Decidable (Adds config store turn) :=
  inferInstanceAs (Decidable (_ ∧ _ ∧ _ ∧ _ ∧ _ ∧ _ ∧ _))

/-- When a contract is added under a parent, each entry whose chain of parents runs into
the contract stays within the largest depth: the contracts on its chain, the new one and
those on the chain of the parent are not too many. -/
def TurnSafe (store : DirtyStore) (turn : ContagionTurn) : Prop :=
  let parent := turn.parent.getD 0
  let links := watchLinks store.watchList
  Adds config store turn → parent ≠ 0 →
    ∀ address ∈ store.watchList, turn.account.1 ∈ links.visits address →
      links.joined turn.account.1 parent address ≤ config.maxContagionDepth

variable {config} {store : DirtyStore}

def added (store : DirtyStore) (turn : ContagionTurn) : DirtyStore :=
  watch store turn.account.1
    (watchEntry (contagionSource (turn.parent.getD 0)) turn.diff turn.account.1
      turn.blockNumber)

theorem turnStep_eq (config : ClassificationConfig) (store : DirtyStore)
    (turn : ContagionTurn) :
    turnStep config store turn =
      if Adds config store turn then added store turn else store := by
  unfold turnStep applyContagionWatchers
  by_cases adds : Adds config store turn
  · obtain ⟨promoted, enabled, protocol, shallow, included, new, free⟩ := id adds
    rw [if_pos adds, if_neg (by simp [promoted]), if_neg (by simp [enabled]), watchTouched,
      if_neg (not_not_intro protocol), if_neg (Nat.not_lt.mpr shallow),
      if_neg (by simp [included, new]), if_neg (Nat.not_le.mpr free)]
    rfl
  · rw [if_neg adds]
    split
    · rfl
    split
    · rfl
    unfold watchTouched
    split
    · rfl
    split
    · rfl
    split
    · rfl
    split
    · rfl
    -- the checks have all passed
    refine absurd ?_ adds
    simp_all [Adds]

theorem parentOf_of_absent {watchList : ExtTreeMap Address WatchEntry} {address : Address}
    (absent : address ∉ watchList) : parentOf watchList address = none := by
  rw [parentOf, ExtTreeMap.getElem?_eq_none absent]

theorem watchDepth_of_absent {watchList : ExtTreeMap Address WatchEntry} {address : Address}
    (absent : address ∉ watchList) : watchDepth watchList address = 0 := by
  rw [watchDepth_eq, Links.depth, Links.walk,
    Links.walkFrom_of_no_parent _ (parentOf_of_absent absent)]
  rfl

variable {turn : ContagionTurn}

theorem getElem?_added (new : store.watchList.contains turn.account.1 = false)
    (address : Address) :
    (added store turn).watchList[address]? =
      if turn.account.1 = address then
        some (watchEntry (contagionSource (turn.parent.getD 0)) turn.diff turn.account.1
          turn.blockNumber)
      else store.watchList[address]? := by
  have absent : turn.account.1 ∉ store.watchList := Bool.eq_false_iff.mp new
  unfold added watch
  rw [ExtTreeMap.getElem?_insertIfNew]
  simp only [absent, not_false_eq_true, and_true, Std.compare_eq_iff_eq]

theorem mem_added (new : store.watchList.contains turn.account.1 = false)
    (address : Address) :
    address ∈ (added store turn).watchList ↔
      turn.account.1 = address ∨ address ∈ store.watchList := by
  rw [ExtTreeMap.mem_iff_isSome_getElem?, ExtTreeMap.mem_iff_isSome_getElem?,
    getElem?_added new]
  split <;> simp_all

/-- The address `0` is no parent. -/
theorem parent_added_of_zero (new : store.watchList.contains turn.account.1 = false)
    (unknown : turn.parent.getD 0 = 0) :
    (watchLinks (added store turn).watchList).parent = (watchLinks store.watchList).parent := by
  funext address
  change parentOf _ _ = parentOf _ _
  by_cases own : turn.account.1 = address
  · have absent : address ∉ store.watchList := own ▸ Bool.eq_false_iff.mp new
    rw [parentOf_of_absent absent, parentOf, getElem?_added new, if_pos own, unknown]
    rfl
  · rw [parentOf, getElem?_added new, if_neg own, parentOf]

theorem linked_added (new : store.watchList.contains turn.account.1 = false)
    (known : turn.parent.getD 0 ≠ 0) :
    Links.Linked (watchLinks store.watchList) (watchLinks (added store turn).watchList)
      turn.account.1 (turn.parent.getD 0) := by
  refine ⟨parentOf_of_absent (Bool.eq_false_iff.mp new), ?_⟩
  funext address
  rw [Function.update_apply]
  change parentOf _ _ = _
  by_cases own : turn.account.1 = address
  · rw [if_pos own.symm, parentOf, getElem?_added new, if_pos own]
    simp only [watchEntry, contagionSource, if_neg known]
  · rw [if_neg (Ne.symm own), parentOf, getElem?_added new, if_neg own]
    rfl

theorem depth_added (new : store.watchList.contains turn.account.1 = false)
    (address : Address) :
    watchDepth (added store turn).watchList address =
      if turn.parent.getD 0 ≠ 0 ∧
          turn.account.1 ∈ (watchLinks store.watchList).visits address then
        (watchLinks store.watchList).joined turn.account.1 (turn.parent.getD 0) address
      else watchDepth store.watchList address := by
  rw [watchDepth_eq, watchDepth_eq]
  by_cases unknown : turn.parent.getD 0 = 0
  · rw [Links.depth_congr (parent_added_of_zero new unknown), if_neg fun both => both.1 unknown]
  · rw [(linked_added new unknown).depth_eq]
    simp only [ne_eq, unknown, not_false_eq_true, true_and]

/-- A safe turn is one that keeps the depths within the bound. -/
theorem turnSafe_iff (bounded : DepthsBounded config store) (turn : ContagionTurn) :
    TurnSafe config store turn ↔ DepthsBounded config (turnStep config store turn) := by
  rw [turnStep_eq]
  by_cases adds : Adds config store turn
  · have new := adds.2.2.2.2.2.1
    have shallow := adds.2.2.2.1
    rw [if_pos adds]
    simp only [TurnSafe, DepthsBounded, adds, forall_const, mem_added new]
    constructor
    · intro safe address member
      rw [depth_added new]
      split
      case isTrue through =>
        by_cases own : turn.account.1 = address
        · subst own
          rw [Links.joined_self _ _ (linked_added new through.1).1, ← watchDepth_eq]
          exact shallow
        · exact safe through.1 address (member.resolve_left own) through.2
      case isFalse =>
        by_cases watched : address ∈ store.watchList
        · exact bounded address watched
        · rw [watchDepth_of_absent watched]
          exact Nat.zero_le _
    · intro after known address watched through
      have deep := after address (Or.inr watched)
      rwa [depth_added new, if_pos ⟨known, through⟩] at deep
  · rw [if_neg adds]
    exact ⟨fun _ => bounded, fun _ allowed => absurd allowed adds⟩

/-- Depths and entries only grow. -/
theorem turnStep_grows (config : ClassificationConfig) (store : DirtyStore)
    (turn : ContagionTurn) (address : Address) :
    (address ∈ store.watchList → address ∈ (turnStep config store turn).watchList) ∧
      watchDepth store.watchList address ≤
        watchDepth (turnStep config store turn).watchList address := by
  rw [turnStep_eq]
  split
  case isTrue adds =>
    have new := adds.2.2.2.2.2.1
    refine ⟨fun watched => (mem_added new address).mpr (Or.inr watched), ?_⟩
    rw [depth_added new]
    split
    · rw [watchDepth_eq]
      exact Links.depth_le_joined _ _ _ _
    · exact le_rfl
  case isFalse => exact ⟨id, le_rfl⟩

/-- Turns leave a full list as it is. -/
theorem turnStep_of_full (full : config.maxWatchedContracts ≤ store.watchList.size)
    (turn : ContagionTurn) : turnStep config store turn = store := by
  rw [turnStep_eq, if_neg]
  exact fun adds => absurd full (Nat.not_le.mpr adds.2.2.2.2.2.2)

theorem foldl_turnStep_of_full (full : config.maxWatchedContracts ≤ store.watchList.size)
    (turns : List ContagionTurn) : turns.foldl (turnStep config) store = store := by
  induction turns with
  | nil => rfl
  | cons turn turns ih => rw [List.foldl_cons, turnStep_of_full full, ih]

/-- A loop does its turns one after the other. -/
theorem watchTouched_eq_foldl (promoted : store.demoteProtocolsToSlotOnly = false)
    (enabled : config.enableContagion = true) (diff : StateDiff) (blockNumber : UInt64)
    (parent : Option Address) (visited : List (Address × Classification)) :
    (watchTouched config store diff blockNumber (parent.getD 0) visited).1 =
      (visited.map fun account => ContagionTurn.mk diff blockNumber parent account).foldl
        (turnStep config) store := by
  induction visited generalizing store with
  | nil => rfl
  | cons account visited ih =>
      obtain ⟨address, classification⟩ := account
      rw [List.map_cons, List.foldl_cons, turnStep_eq]
      split
      case isTrue adds =>
        obtain ⟨-, -, protocol, shallow, included, new, free⟩ := adds
        rw [watchTouched, if_neg (not_not_intro protocol), if_neg (Nat.not_lt.mpr shallow),
          if_neg (by simp [included, new]), if_neg (Nat.not_le.mpr free)]
        exact ih promoted
      case isFalse blocked =>
        unfold watchTouched
        split
        · exact ih promoted
        split
        · exact ih promoted
        split
        · exact ih promoted
        split
        case isTrue full => exact (foldl_turnStep_of_full full _).symm
        case isFalse =>
          -- the checks have all passed
          refine absurd ?_ blocked
          simp_all [Adds]

theorem foldl_turnStep_of_disabled
    (disabled : store.demoteProtocolsToSlotOnly = true ∨ config.enableContagion = false)
    (turns : List ContagionTurn) : turns.foldl (turnStep config) store = store := by
  induction turns with
  | nil => rfl
  | cons turn turns ih =>
      have blocked : ¬ Adds config store turn := by
        rintro ⟨promoted, enabled, -⟩
        rw [promoted, enabled] at disabled
        simp at disabled
      rw [List.foldl_cons, turnStep_eq, if_neg blocked, ih]

theorem callStep_eq_foldl (config : ClassificationConfig) (store : DirtyStore)
    (call : ContagionCall) :
    callStep config store call = call.turns.foldl (turnStep config) store := by
  unfold callStep applyContagionWatchers
  split
  case isTrue demoted => exact (foldl_turnStep_of_disabled (Or.inl demoted) _).symm
  split
  case isTrue disabled =>
    exact (foldl_turnStep_of_disabled (Or.inr (by simpa using disabled)) _).symm
  case isFalse promoted enabled =>
    exact watchTouched_eq_foldl (by simpa using promoted) (by simpa using enabled) _ _ _ _

theorem foldl_callStep (config : ClassificationConfig) (store : DirtyStore)
    (calls : List ContagionCall) :
    calls.foldl (callStep config) store =
      (calls.flatMap ContagionCall.turns).foldl (turnStep config) store := by
  induction calls generalizing store with
  | nil => rfl
  | cons call calls ih =>
      rw [List.foldl_cons, ih, List.flatMap_cons, List.foldl_append, callStep_eq_foldl]

theorem foldl_turnStep_grows (config : ClassificationConfig) (store : DirtyStore)
    (turns : List ContagionTurn) (address : Address) :
    (address ∈ store.watchList →
        address ∈ (turns.foldl (turnStep config) store).watchList) ∧
      watchDepth store.watchList address ≤
        watchDepth (turns.foldl (turnStep config) store).watchList address := by
  induction turns generalizing store with
  | nil => exact ⟨id, le_rfl⟩
  | cons turn turns ih =>
      have first := turnStep_grows config store turn address
      have rest := ih (turnStep config store turn)
      exact ⟨fun watched => rest.1 (first.1 watched), first.2.trans rest.2⟩

/-- Bounded at the end is bounded all along. -/
theorem depthsBounded_of_foldl {turns : List ContagionTurn}
    (bounded : DepthsBounded config (turns.foldl (turnStep config) store)) :
    ∀ state ∈ GuardedRun.states (turnStep config) store turns,
      DepthsBounded config state := by
  intro state member address watched
  obtain ⟨earlier, ⟨later, rfl⟩, rfl⟩ := GuardedRun.mem_states_iff.mp member
  rw [List.foldl_append] at bounded
  have grown := foldl_turnStep_grows config
    (earlier.foldl (turnStep config) store) later address
  exact grown.2.trans (bounded address (grown.1 watched))

/-- Over every run of calls, the depths stay within the bound exactly when each turn of
the calls is safe.  Every walk ends. -/
theorem depths_bounded_iff (config : ClassificationConfig) (store : DirtyStore)
    (initial : DepthsBounded config store) (calls : List ContagionCall) :
    (GuardedRun.Guarded (turnStep config) (TurnSafe config) store
        (calls.flatMap ContagionCall.turns) ↔
      ∀ state ∈ GuardedRun.states (callStep config) store calls,
        DepthsBounded config state) ∧
    ∀ (watchList : ExtTreeMap Address WatchEntry) (address : Address),
      watchDepth watchList address ≤ watchList.size := by
  refine ⟨?_, watchDepth_le_size⟩
  rw [GuardedRun.guarded_iff_invariant (turnStep config) (TurnSafe config)
    (DepthsBounded config) (fun _ turn bounded => turnSafe_iff bounded turn) initial]
  constructor
  · intro bounded state member
    obtain ⟨earlier, ⟨later, rfl⟩, rfl⟩ := GuardedRun.mem_states_iff.mp member
    apply bounded
    rw [foldl_callStep, List.flatMap_append]
    exact GuardedRun.mem_states_iff.mpr ⟨_, List.prefix_append _ _, rfl⟩
  · intro bounded
    apply depthsBounded_of_foldl
    rw [← foldl_callStep]
    exact bounded _ (GuardedRun.foldl_mem_states store calls)

def shallowConfig : ClassificationConfig := { maxContagionDepth := 1 }

/-- A call for a diff that writes to one protocol. -/
def protocolCall (address parent : Address) : ContagionCall where
  diff := { accounts := ExtTreeMap.ofList [(address, sampleAccountDiff)] }
  blockNumber := 5
  parent := some parent
  visited := [(address, .protocol)]

/-- The contract 3 is added under 2, which is not watched, and then 2 under 1. -/
def lateParent : List ContagionCall :=
  [protocolCall 3 2, protocolCall 2 1]

theorem late_parent_too_deep :
    ¬ ∀ (config : ClassificationConfig) (store : DirtyStore) (calls : List ContagionCall),
      DepthsBounded config store →
      (∀ call ∈ calls, call.visited.Perm (classify config call.diff)) →
      ∀ state ∈ GuardedRun.states (callStep config) store calls,
        DepthsBounded config state := by
  intro claim
  let last : DirtyStore := lateParent.foldl (callStep shallowConfig) {}
  have bounded := claim shallowConfig {} lateParent (by simp [DepthsBounded])
    (by decide +kernel) last (GuardedRun.foldl_mem_states _ lateParent) 3 (by decide +kernel)
  have deep : watchDepth last.watchList 3 = 2 := by decide +kernel
  rw [deep] at bounded
  exact absurd bounded (by decide)

/-- The same calls in the other order. -/
def earlyParent : List ContagionCall :=
  [protocolCall 2 1, protocolCall 3 2]

/-- When the parent is added first, its child is too deep and is left out. -/
theorem early_parent_bounded :
    3 ∉ (earlyParent.foldl (callStep shallowConfig) {}).watchList ∧
      ∀ state ∈ GuardedRun.states (callStep shallowConfig) {} earlyParent,
        DepthsBounded shallowConfig state := by
  refine ⟨by decide +kernel, ?_⟩
  refine (depths_bounded_iff shallowConfig {} (by simp [DepthsBounded]) _).1.mp ?_
  have turns : earlyParent.flatMap ContagionCall.turns =
      (protocolCall 2 1).turns ++ (protocolCall 3 2).turns := rfl
  rw [turns]
  unfold ContagionCall.turns protocolCall
  simp only [List.map_cons, List.map_nil, List.singleton_append, GuardedRun.guarded_cons]
  refine ⟨?_, ?_, GuardedRun.guarded_nil _⟩
  · intro _ _ address watched
    simp at watched
  · intro adds
    exact absurd adds (by decide +kernel)

end TargetedFollower

end Roko
