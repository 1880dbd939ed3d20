import Roko.OrderedMaps
import Roko.Replicas
import Mathlib.Algebra.BigOperators.Group.Finset.Basic
import Mathlib.Algebra.Order.Monoid.WithTop
import Mathlib.Data.Finset.Lattice.Fold
import Mathlib.Data.Prod.Lex
import Mathlib.Order.Lattice.Nat

/-!
# States that gossip merges

The model of `VectorClock`, `GCounter` and `LwwRegister` in `roko-chain/src/phase2.rs`.  Each of
them is merged into another one of its kind, and copies of it may be merged late, twice or
never.
-/

namespace Roko

open Std (ExtTreeMap ReflCmp)

/-- The loop of both merges: each entry of the other map raises the own one. -/
def mergeMaxima (own other : ExtTreeMap Nat Nat) : ExtTreeMap Nat Nat :=
  other.toList.foldl
    (fun own entry => own.alter entry.1 fun current =>
      some (current.elim entry.2 fun current => max current entry.2))
    own

theorem getElem?_mergeMaxima (own other : ExtTreeMap Nat Nat) (id : Nat) :
    (mergeMaxima own other)[id]? = Option.merge max own[id]? other[id]? := by
  have steps : KeyedFold.OwnKey (fun (map : ExtTreeMap Nat Nat) id => map[id]?)
      (fun own entry => own.alter entry.1 fun current =>
        some (current.elim entry.2 fun current => max current entry.2))
      fun _ value current => some (current.elim value fun current => max current value) := by
    constructor
    · exact fun map entry => ExtTreeMap.getElem?_alter_self
    · intro map entry id other
      rw [ExtTreeMap.getElem?_alter,
        if_neg fun equal => other (Std.compare_eq_iff_eq.mp equal).symm]
  refine (KeyedFold.look_foldl_toList steps other own id).trans ?_
  cases other[id]? <;> cases own[id]? <;> rfl

/-- Vector-clock state used for causal ordering. -/
structure VectorClock where
  clocks : ExtTreeMap Nat Nat

/-- Grow-only counter. -/
structure GCounter where
  counts : ExtTreeMap Nat Nat

/-- Last-writer-wins register. -/
structure LwwRegister (T : Type*) where
  value : T
  timestamp : Nat
  writer : Nat

namespace GCounter

def default : GCounter :=
  ⟨∅⟩

/-- The count is a `u64`. -/
def increment (counter : GCounter) (agentId : Nat) : GCounter :=
  ⟨counter.counts.alter agentId fun count => some ((count.getD 0 + 1) % 2 ^ 64)⟩

def merge (counter other : GCounter) : GCounter :=
  ⟨mergeMaxima counter.counts other.counts⟩

def total (counter : GCounter) : Nat :=
  (counter.counts.toList.map Prod.snd).sum % 2 ^ 64

/-- An increment is an event of an agent. -/
def design {Event : Type*} (agentOf : Event → Nat) : Replicas.Design Event GCounter where
  apply counter event := counter.increment (agentOf event)
  merge := merge

variable {Event : Type*} {agentOf : Event → Nat}

/-- The count of each agent is the number of its increments that have come in. -/
def Counts (agentOf : Event → Nat) (counter : GCounter) (known : Finset Event) : Prop :=
  ∀ agent, counter.counts[agent]?.getD 0 = (known.filter (agentOf · = agent)).card

theorem counts_default : Counts agentOf default ∅ :=
  fun _ => rfl

theorem Counts.increment [DecidableEq Event] {counter : GCounter} {known : Finset Event}
    {event : Event} (counts : Counts agentOf counter known) (new : event ∉ known)
    (few : (insert event known).card < 2 ^ 64) :
    Counts agentOf (counter.increment (agentOf event)) (insert event known) := by
  intro other
  rw [GCounter.increment, ExtTreeMap.getElem?_alter, Finset.filter_insert]
  by_cases same : agentOf event = other
  · subst same
    have absent : event ∉ known.filter (agentOf · = agentOf event) :=
      fun member => new (Finset.mem_filter.mp member).1
    have less := Finset.card_filter_le known (agentOf · = agentOf event)
    rw [Finset.card_insert_of_notMem new] at few
    rw [if_pos ReflCmp.compare_self, if_pos rfl, Finset.card_insert_of_notMem absent,
      Option.getD_some, counts]
    exact Nat.mod_eq_of_lt (by omega)
  · rw [if_neg fun equal => same (Std.compare_eq_iff_eq.mp equal), if_neg same]
    exact counts other

theorem Counts.merge [DecidableEq Event] {counter other : GCounter} {known others : Finset Event}
    (counts : Counts agentOf counter known) (counted : Counts agentOf other others)
    (joined : ∀ agent, ((known ∪ others).filter (agentOf · = agent)).card =
      max (known.filter (agentOf · = agent)).card (others.filter (agentOf · = agent)).card) :
    Counts agentOf (counter.merge other) (known ∪ others) := by
  intro agent
  rw [joined, ← counts agent, ← counted agent, GCounter.merge, getElem?_mergeMaxima]
  cases counter.counts[agent]? <;> cases other.counts[agent]? <;> simp

/-- As long as no count can overflow, increments and merges keep the counts. -/
theorem describes_counts [DecidableEq Event] : Replicas.Describes agentOf (design agentOf)
    fun counter known => known.card < 2 ^ 64 → Counts agentOf counter known where
  apply {_ known event} counts new few := by
    have less := Finset.card_le_card (Finset.subset_insert event known)
    exact (counts (less.trans_lt few)).increment new few
  merge {_ _ known others} counts counted joined few := by
    have less := Finset.card_le_card (@Finset.subset_union_left _ _ known others)
    have more := Finset.card_le_card (@Finset.subset_union_right _ _ known others)
    exact (counts (less.trans_lt few)).merge (counted (more.trans_lt few)) joined

/-- Together the agents have as many increments as were heard of. -/
theorem Counts.total [DecidableEq Event] {counter : GCounter} {known : Finset Event}
    (counts : Counts agentOf counter known) (few : known.card < 2 ^ 64) :
    counter.total = known.card := by
  have keys : (counter.counts.toList.map Prod.fst).Nodup := by
    rw [ExtTreeMap.map_fst_toList_eq_keys]
    exact ExtTreeMap.nodup_keys
  have fibers : known.card =
      ∑ agent ∈ (counter.counts.toList.map Prod.fst).toFinset,
        (known.filter (agentOf · = agent)).card := by
    refine Finset.card_eq_sum_card_fiberwise fun event member => ?_
    have counted : counter.counts[agentOf event]?.getD 0 ≠ 0 := by
      rw [counts]
      exact Finset.card_ne_zero_of_mem (Finset.mem_filter.mpr ⟨member, rfl⟩)
    cases found : counter.counts[agentOf event]? with
    | none =>
        rw [found] at counted
        exact absurd rfl counted
    | some count =>
        have listed := ExtTreeMap.mem_toList_iff_getElem?_eq_some.mpr found
        exact List.mem_toFinset.mpr (List.mem_map_of_mem listed)
  have values : counter.counts.toList.map Prod.snd =
      (counter.counts.toList.map Prod.fst).map fun agent =>
        (known.filter (agentOf · = agent)).card := by
    rw [List.map_map]
    refine List.map_congr_left fun entry member => ?_
    have found := ExtTreeMap.mem_toList_iff_getElem?_eq_some.mp member
    rw [Function.comp_apply, ← counts entry.1, found, Option.getD_some]
  rw [GCounter.total, values, ← List.sum_toFinset _ keys, ← fibers]
  exact Nat.mod_eq_of_lt few

/-- When each agent's increments are made at one counter, every counter shows exactly the
increments that have reached it: none twice and none lost, in whatever order, how often and
how late copies were merged. -/
theorem total_run {Replica : Type*} [DecidableEq Replica] [DecidableEq Event]
    {owner : Nat → Replica} {actions : List (Replicas.Action Replica Event)}
    (owned : Replicas.Owned agentOf owner actions)
    (few : (Replicas.updates actions).length < 2 ^ 64) (replica : Replica) :
    let state := (((design agentOf).noting singleton).run (fun _ => (default, ∅)) actions).live
      replica
    (∀ agent, state.1.counts[agent]?.getD 0 = (state.2.filter (agentOf · = agent)).card) ∧
      state.1.total = state.2.card := by
  intro state
  have chained := Replicas.chained_run describes_counts
    (fun _ => counts_default) owned
  have held := Replicas.World.holds_live (((design agentOf).noting singleton).run
    (fun _ => (default, ∅)) actions) replica
  have bound := (chained.card_le held).trans_lt few
  have counts := chained.described held bound
  exact ⟨counts, counts.total bound⟩

/-- A copy that is merged twice counts once. -/
theorem total_run_mergedTwice :
    ((((design fun event => event % 2).noting singleton).run (fun _ => (default, ∅))
      [.update false 0, .update false 2, .copy false, .update true 1, .merge true 0,
        .merge true 0]).live true).1.total = 3 :=
  (total_run (show Replicas.Owned _ (fun agent => agent == 1) _ from ⟨by decide, by simp⟩)
    (by decide) true).2.trans (by decide)

end GCounter

/-!
They have no operation but the merge, so what has reached a state is from which replicas' first
states it was merged.
-/

/-- The states of a run, each with the replicas that it has heard from. -/
def mergeRun {Replica State : Type*} [DecidableEq Replica] (merge : State → State → State)
    (first : Replica → State) (actions : List (Replicas.Action Replica Empty)) :
    Replica → State × Finset Replica :=
  ((Replicas.Design.noting ⟨fun state _ => state, merge⟩ fun _ => ∅).run
    (fun replica => (first replica, {replica})) actions).live

theorem mergeRun_induction {Replica State : Type*} [DecidableEq Replica]
    {merge : State → State → State} {first : Replica → State}
    (property : State → Finset Replica → Prop)
    (initial : ∀ replica, property (first replica) {replica})
    (merged : ∀ {state other known others}, property state known → property other others →
      property (merge state other) (known ∪ others))
    (actions : List (Replicas.Action Replica Empty)) (replica : Replica) :
    property (mergeRun merge first actions replica).1 (mergeRun merge first actions replica).2 :=
  Replicas.Design.holds_run (fun state : State × Finset Replica => property state.1 state.2)
    (fun _ made => made.elim) (fun _ _ => merged) initial actions _
    (Replicas.World.holds_live _ replica)

namespace VectorClock

/-- Merge two vector clocks using element-wise maxima. -/
def merge (clock other : VectorClock) : VectorClock :=
  ⟨mergeMaxima clock.clocks other.clocks⟩

/-- Return `true` if `clock` causally precedes `other`. -/
def precedes (clock other : VectorClock) : Bool :=
  (clock.clocks.toList.all fun entry =>
    other.clocks[entry.1]?.elim false fun timestamp => entry.2 ≤ timestamp) &&
    clock.clocks != other.clocks

/-- The timestamp at an id, below all timestamps where there is none. -/
def timeAt (clock : VectorClock) (id : Nat) : WithBot Nat :=
  (clock.clocks[id]? : Option Nat)

theorem timeAt_injective : Function.Injective timeAt := by
  intro clock other same
  have maps : clock.clocks = other.clocks :=
    ExtTreeMap.ext_getElem? fun id => congrFun same id
  cases clock
  cases other
  cases maps
  rfl

theorem timeAt_merge (clock other : VectorClock) (id : Nat) :
    (clock.merge other).timeAt id = clock.timeAt id ⊔ other.timeAt id := by
  unfold timeAt
  rw [merge, getElem?_mergeMaxima]
  cases clock.clocks[id]? <;> cases other.clocks[id]? <;> rfl

/-- A clock precedes those that are nowhere behind it and somewhere ahead. -/
theorem precedes_iff (clock other : VectorClock) :
    clock.precedes other = true ↔ clock.timeAt < other.timeAt := by
  have entries : (clock.clocks.toList.all fun entry =>
      other.clocks[entry.1]?.elim false fun timestamp => entry.2 ≤ timestamp) = true ↔
      clock.timeAt ≤ other.timeAt := by
    rw [List.all_eq_true]
    constructor
    · intro all id
      unfold timeAt
      cases found : clock.clocks[id]? with
      | none => exact bot_le
      | some timestamp =>
          have later := all (id, timestamp) (ExtTreeMap.mem_toList_iff_getElem?_eq_some.mpr found)
          cases theirs : other.clocks[id]? with
          | none => simp [theirs] at later
          | some second =>
              simp only [theirs, Option.elim_some, decide_eq_true_eq] at later
              exact WithBot.coe_le_coe.mpr later
    · rintro behind ⟨id, timestamp⟩ member
      have found := ExtTreeMap.mem_toList_iff_getElem?_eq_some.mp member
      have here := behind id
      unfold timeAt at here
      rw [found] at here
      cases theirs : other.clocks[id]? with
      | none =>
          rw [theirs] at here
          exact absurd here (WithBot.not_coe_le_bot timestamp)
      | some second =>
          rw [theirs] at here
          exact decide_eq_true (WithBot.coe_le_coe.mp here)
  rw [precedes, Bool.and_eq_true, entries, bne_iff_ne, lt_iff_le_and_ne]
  refine and_congr_right fun _ => not_congr ?_
  rw [timeAt_injective.eq_iff]
  cases clock
  cases other
  rw [VectorClock.mk.injEq]

/-- The clock is the least one that is nowhere behind the first clocks of its sources. -/
theorem timeAt_mergeRun {Replica : Type*} [DecidableEq Replica] (first : Replica → VectorClock)
    (actions : List (Replicas.Action Replica Empty)) (replica : Replica) (id : Nat) :
    let state := mergeRun merge first actions replica
    state.1.timeAt id = state.2.sup fun source => (first source).timeAt id := by
  refine mergeRun_induction (fun (clock : VectorClock) known =>
    clock.timeAt id = known.sup fun source => (first source).timeAt id) (fun source => ?_)
    (fun own theirs => ?_) actions replica
  · exact (Finset.sup_singleton ..).symm
  · rw [timeAt_merge, own, theirs, Finset.sup_union]

/-- A replica that has heard from all that another one has heard from is level with it or
comes after it, whatever copies were merged on the way. -/
theorem precedes_of_sources {Replica : Type*} [DecidableEq Replica]
    (first : Replica → VectorClock) (actions : List (Replicas.Action Replica Empty))
    {replica other : Replica} :
    let state := mergeRun merge first actions
    (state replica).2 ⊆ (state other).2 →
      (state replica).1 = (state other).1 ∨
        (state replica).1.precedes (state other).1 = true ∧
          (state other).1.precedes (state replica).1 = false := by
  intro state heard
  have behind : (state replica).1.timeAt ≤ (state other).1.timeAt := by
    intro id
    rw [timeAt_mergeRun, timeAt_mergeRun]
    exact Finset.sup_mono heard
  rcases eq_or_lt_of_le behind with same | less
  · exact Or.inl (timeAt_injective same)
  · refine Or.inr ⟨(precedes_iff _ _).mpr less, Bool.eq_false_iff.mpr fun back => ?_⟩
    exact lt_asymm less ((precedes_iff _ _).mp back)

theorem precedes_of_sources_merged :
    let state := mergeRun merge (fun replica : Bool =>
      if replica then ⟨{(1, 4)}⟩ else ⟨{(0, 2)}⟩) [.copy false, .merge true 0]
    (state false).1 = (state true).1 ∨
      (state false).1.precedes (state true).1 = true ∧
        (state true).1.precedes (state false).1 = false :=
  @precedes_of_sources Bool _ _ _ false true (by decide)

end VectorClock

namespace LwwRegister

variable {T : Type*}

/-- Merge another register, preferring newer writes. -/
def merge (register other : LwwRegister T) : LwwRegister T :=
  if other.timestamp > register.timestamp ∨
      other.timestamp = register.timestamp ∧ other.writer > register.writer then
    ⟨other.value, other.timestamp, other.writer⟩
  else register

/-- When and by whom a register was written, the later one first. -/
def stamp (register : LwwRegister T) : Nat ×ₗ Nat :=
  toLex (register.timestamp, register.writer)

theorem merge_eq (register other : LwwRegister T) :
    register.merge other = if register.stamp < other.stamp then other else register := by
  have newer : (other.timestamp > register.timestamp ∨
      other.timestamp = register.timestamp ∧ other.writer > register.writer) ↔
      register.stamp < other.stamp := by
    rw [stamp, stamp, Prod.Lex.toLex_lt_toLex]
    simp only [gt_iff_lt, eq_comm]
  rw [merge]
  exact if_congr newer rfl rfl

/-- The register is one of the first ones that were heard of, and none of them is newer. -/
def Newest {Replica : Type*} (first : Replica → LwwRegister T) (register : LwwRegister T)
    (known : Finset Replica) : Prop :=
  (∃ source ∈ known, first source = register) ∧
    ∀ source ∈ known, (first source).stamp ≤ register.stamp

theorem Newest.merge {Replica : Type*} [DecidableEq Replica] {first : Replica → LwwRegister T}
    {register other : LwwRegister T} {known others : Finset Replica}
    (newest : Newest first register known) (theirs : Newest first other others) :
    Newest first (register.merge other) (known ∪ others) := by
  rw [merge_eq]
  split
  case isTrue less =>
    refine ⟨theirs.1.imp fun source held => ⟨Finset.mem_union_right _ held.1, held.2⟩,
      fun source member => ?_⟩
    rcases Finset.mem_union.mp member with own | new
    · exact (newest.2 source own).trans less.le
    · exact theirs.2 source new
  case isFalse atLeast =>
    refine ⟨newest.1.imp fun source held => ⟨Finset.mem_union_left _ held.1, held.2⟩,
      fun source member => ?_⟩
    rcases Finset.mem_union.mp member with own | new
    · exact newest.2 source own
    · exact (theirs.2 source new).trans (not_lt.mp atLeast)

/-- Every register is the newest of those that have reached it, so two of them that were
reached by the same ones agree, unless different values were written under one stamp. -/
theorem newest_run {Replica : Type*} [DecidableEq Replica] (first : Replica → LwwRegister T)
    (actions : List (Replicas.Action Replica Empty)) :
    let state := mergeRun merge first actions
    (∀ replica, Newest first (state replica).1 (state replica).2) ∧
      ((∀ source other, (first source).stamp = (first other).stamp →
          first source = first other) →
        ∀ replica other, (state replica).2 = (state other).2 →
          (state replica).1 = (state other).1) := by
  intro state
  have newest : ∀ replica, Newest first (state replica).1 (state replica).2 :=
    mergeRun_induction (Newest first)
      (fun source => ⟨⟨source, Finset.mem_singleton_self source, rfl⟩, fun other member => by
        rw [Finset.mem_singleton.mp member]⟩) Newest.merge actions
  refine ⟨newest, fun distinct replica other same => ?_⟩
  obtain ⟨⟨source, known, own⟩, above⟩ := newest replica
  obtain ⟨⟨second, heard, theirs⟩, beyond⟩ := newest other
  rw [← own, ← theirs]
  refine distinct source second (le_antisymm ?_ ?_)
  · rw [theirs]
    exact beyond source (same ▸ known)
  · rw [own]
    exact above second (same ▸ heard)

end LwwRegister

end Roko
