import Mathlib.Algebra.BigOperators.Group.Finset.Basic
import Mathlib.Algebra.Order.BigOperators.Group.List
import Mathlib.Algebra.Order.Ring.Nat
import Std.Data.ExtTreeMap

/-!
# Reading entries through a second index

A map may keep the entries of a log in groups, one for each key in use.  Where the entries
are grouped under a key, and an index keeps the keys of the entries of an owner, in their
order.  Reading all groups of these keys gives each entry of the owner as often as
its key is listed.
-/

namespace IndexJoin

variable {Entry Key Owner Value : Type*} [DecidableEq Key] [DecidableEq Owner]

/-- The values of the entries with a key. -/
def groupOf (keyOf : Entry → Key) (value : Entry → Value) (log : List Entry) (key : Key) :
    List Value :=
  (log.filter fun entry => keyOf entry = key).map value

theorem groupOf_append_singleton (keyOf : Entry → Key) (value : Entry → Value)
    (log : List Entry) (entry : Entry) (key : Key) :
    groupOf keyOf value (log ++ [entry]) key =
      if keyOf entry = key then groupOf keyOf value log key ++ [value entry]
      else groupOf keyOf value log key := by
  unfold groupOf
  rw [List.filter_append, List.map_append]
  by_cases same : keyOf entry = key
  · simp [same]
  · simp [same]

section Groups

variable [Ord Key] [Std.TransOrd Key] {keyOf : Entry → Key} {value : Entry → Value}
  {log : List Entry} {map : Std.ExtTreeMap Key (List Value)}

/-- A map that keeps the entries of a log in groups, and no empty group. -/
def Grouped (keyOf : Entry → Key) (value : Entry → Value) (log : List Entry)
    (map : Std.ExtTreeMap Key (List Value)) : Prop :=
  ∀ key : Key, map[key]? =
    if groupOf keyOf value log key = [] then none else some (groupOf keyOf value log key)

theorem grouped_empty (keyOf : Entry → Key) (value : Entry → Value) :
    Grouped keyOf value [] (∅ : Std.ExtTreeMap Key (List Value)) :=
  fun _ => Std.ExtTreeMap.getElem?_empty

theorem Grouped.getD_eq (grouped : Grouped keyOf value log map) (key : Key) :
    map[key]?.getD [] = groupOf keyOf value log key := by
  rw [grouped key]
  split
  case isTrue none => exact none.symm
  case isFalse => rfl

/-- An entry is filed at the end of its group. -/
theorem Grouped.insert [Std.LawfulEqOrd Key] (grouped : Grouped keyOf value log map)
    (entry : Entry) :
    Grouped keyOf value (log ++ [entry])
      (map.insert (keyOf entry) (map[keyOf entry]?.getD [] ++ [value entry])) := by
  intro key
  rw [Std.ExtTreeMap.getElem?_insert, groupOf_append_singleton, grouped.getD_eq]
  simp only [Std.compare_eq_iff_eq]
  by_cases same : keyOf entry = key
  · rw [if_pos same, if_pos same, if_neg (List.append_ne_nil_of_right_ne_nil _ (by simp)),
      same]
  · rw [if_neg same, if_neg same, grouped key]

theorem Grouped.mem_iff (grouped : Grouped keyOf value log map) (key : Key) :
    key ∈ map ↔ key ∈ log.map keyOf := by
  rw [Std.ExtTreeMap.mem_iff_isSome_getElem?, grouped key]
  have empty : groupOf keyOf value log key = [] ↔ key ∉ log.map keyOf := by
    rw [groupOf, List.map_eq_nil_iff, List.filter_eq_nil_iff, List.mem_map]
    simp
  by_cases none : groupOf keyOf value log key = []
  · simp [none, empty.mp none]
  · rw [if_neg none]
    simpa using mt empty.mpr none

/-- The groups hold as many values as the log has entries. -/
theorem Grouped.sum_length [Std.LawfulEqOrd Key] (grouped : Grouped keyOf value log map) :
    ∑ key ∈ map.keys.toFinset, (map[key]?.getD []).length = log.length := by
  have keys : map.keys.toFinset = (log.map keyOf).toFinset := by
    ext key
    rw [List.mem_toFinset, List.mem_toFinset, Std.ExtTreeMap.mem_keys, grouped.mem_iff]
  rw [keys, ← List.length_map keyOf, ← List.sum_toFinset_count_eq_length]
  refine Finset.sum_congr rfl fun key _ => ?_
  rw [grouped.getD_eq, groupOf, List.length_map, ← List.countP_eq_length_filter,
    List.count_eq_countP, List.countP_map]
  exact List.countP_congr fun entry _ => by simp

end Groups

/-- The entries of an owner in the groups of the listed keys. -/
def join (group : Key → List Entry) (owner : Entry → Owner) (keys : List Key)
    (wanted : Owner) : List Entry :=
  keys.flatMap fun key => (group key).filter fun entry => owner entry = wanted

/-- Every key once gives every entry once, in order. -/
theorem flatMap_filter_of_nodup (key : Entry → Key) {entries : List Entry}
    (once : (entries.map key).Nodup) :
    (entries.map key).flatMap (fun listed => entries.filter fun entry => key entry = listed) =
      entries := by
  induction entries with
  | nil => rfl
  | cons entry entries ih =>
      rw [List.map_cons, List.nodup_cons] at once
      have own : (entry :: entries).filter (fun other => key other = key entry) = [entry] := by
        rw [List.filter_cons_of_pos (by simp), List.filter_eq_nil_iff.mpr]
        intro other member same
        exact once.1 (List.mem_map.mpr ⟨other, member, of_decide_eq_true same⟩)
      have rest : (entries.map key).flatMap
          (fun listed => (entry :: entries).filter fun other => key other = listed) =
          (entries.map key).flatMap
            (fun listed => entries.filter fun other => key other = listed) := by
        refine List.flatMap_congr fun listed member => List.filter_cons_of_neg ?_
        rw [decide_eq_true_eq]
        rintro rfl
        exact once.1 member
      rw [List.map_cons, List.flatMap_cons, own, rest, ih once.2]
      rfl

/-- A key that is listed twice gives too many entries. -/
theorem nodup_of_length (key : Entry → Key) {entries : List Entry}
    (same : ((entries.map key).flatMap
      (fun listed => entries.filter fun entry => key entry = listed)).length =
        entries.length) : (entries.map key).Nodup := by
  have counts : ((entries.map key).map fun listed => (entries.map key).count listed).sum =
      ((entries.map key).map fun _ => 1).sum := by
    rw [List.map_const', List.sum_replicate_nat, Nat.mul_one, List.length_map, ← same,
      List.length_flatMap]
    refine congrArg List.sum (List.map_congr_left fun listed _ => ?_)
    rw [List.count_eq_countP, List.countP_map, List.countP_eq_length_filter]
    refine congrArg List.length (List.filter_congr fun entry _ => ?_)
    exact beq_eq_decide _ _
  rw [List.nodup_iff_count_le_one]
  by_contra repeated
  obtain ⟨twice, more⟩ := not_forall.mp repeated
  have member : twice ∈ entries.map key :=
    List.count_pos_iff.mp (Nat.zero_lt_of_lt (Nat.not_le.mp more))
  refine absurd counts (ne_of_gt (List.sum_lt_sum _ _ ?_ ⟨twice, member, Nat.not_le.mp more⟩))
  exact fun listed isListed => List.count_pos_iff.mpr isListed

variable (key : Entry → Key) (owner : Entry → Owner) (entries : List Entry)

/-- Through the index an owner has its entries, each once and in order, exactly when no two
of them have the same key. -/
theorem join_eq_iff (wanted : Owner) :
    join (fun listed => entries.filter fun entry => key entry = listed) owner
        ((entries.filter fun entry => owner entry = wanted).map key) wanted =
      entries.filter (fun entry => owner entry = wanted) ↔
      ((entries.filter fun entry => owner entry = wanted).map key).Nodup := by
  have own : ∀ listed,
      (entries.filter fun entry => key entry = listed).filter
          (fun entry => owner entry = wanted) =
        (entries.filter fun entry => owner entry = wanted).filter
          fun entry => key entry = listed := fun listed =>
    List.filter_comm ..
  unfold join
  simp only [own]
  exact ⟨fun same => nodup_of_length key (congrArg List.length same),
    flatMap_filter_of_nodup key⟩

omit [DecidableEq Key] in
/-- No owner has two entries with one key. -/
theorem forall_nodup_iff :
    (∀ wanted, ((entries.filter fun entry => owner entry = wanted).map key).Nodup) ↔
      (entries.map fun entry => (key entry, owner entry)).Nodup := by
  simp only [List.Nodup, List.pairwise_map, List.pairwise_filter, decide_eq_true_eq]
  constructor
  · intro distinct
    rw [List.pairwise_iff_forall_sublist]
    intro first second sublist same
    have keys := congrArg Prod.fst same
    have owners := congrArg Prod.snd same
    exact List.pairwise_iff_forall_sublist.mp (distinct (owner second)) sublist owners rfl keys
  · intro distinct wanted
    refine distinct.imp ?_
    rintro first second apart isFirst isSecond same
    exact apart (Prod.ext same (isFirst.trans isSecond.symm))

end IndexJoin
