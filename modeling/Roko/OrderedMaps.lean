import Mathlib.Algebra.BigOperators.Group.List.Basic
import Mathlib.Algebra.GroupWithZero.Nat
import Mathlib.Data.List.Nodup
import Std.Data.ExtTreeMap

/-!
# Ordered maps

What holds of the first entry of an ordered map, of a loop over its entries and of a total over
its values.
-/

/-!
The first entry is one of the entries, and no key is smaller than its key.  Erasing a
list of keys leaves what is found at the other keys.
-/

namespace OrderedMap

open Std

theorem minEntry?_impl {Key Value : Type*}
    (tree : DTreeMap.Internal.Impl Key fun _ => Value) :
    DTreeMap.Internal.Impl.Const.minEntry? tree =
      tree.toListModel.head?.map fun entry => (entry.1, entry.2) := by
  induction tree using DTreeMap.Internal.Impl.Const.minEntry?.induct with
  | case1 => simp [DTreeMap.Internal.Impl.Const.minEntry?]
  | case2 => simp [DTreeMap.Internal.Impl.Const.minEntry?]
  | case3 _ _ _ _ _ _ _ _ _ ih =>
      rw [DTreeMap.Internal.Impl.Const.minEntry?, ih]
      simp

theorem minEntry?_eq_head? {Key Value : Type*} [Ord Key] [TransOrd Key]
    (map : ExtTreeMap Key Value) : map.minEntry? = map.toList.head? := by
  rcases map with ⟨⟨inner⟩⟩
  induction inner using Quotient.inductionOn with
  | _ tree =>
      change DTreeMap.Const.minEntry? tree = (DTreeMap.Const.toList tree).head?
      unfold DTreeMap.Const.minEntry? DTreeMap.Const.toList
      rw [minEntry?_impl, DTreeMap.Internal.Impl.Const.toList_eq_toListModel_map]
      simp

theorem getElem?_of_minEntry? {Key Value : Type*} [Ord Key] [TransOrd Key]
    [LawfulEqOrd Key] {map : ExtTreeMap Key Value} {key : Key} {value : Value}
    (first : map.minEntry? = some (key, value)) : map[key]? = some value := by
  rw [minEntry?_eq_head?] at first
  exact ExtTreeMap.mem_toList_iff_getElem?_eq_some.mp (List.mem_of_head? first)

theorem minEntry?_le {Value : Type*} {map : ExtTreeMap UInt64 Value} {key : UInt64}
    {value : Value} (first : map.minEntry? = some (key, value)) {other : UInt64}
    (member : other ∈ map) : key ≤ other := by
  have ordered := ExtTreeMap.ordered_keys (t := map)
  rw [minEntry?_eq_head?] at first
  rw [← ExtTreeMap.map_fst_toList_eq_keys] at ordered
  have listed : other ∈ map.toList.map Prod.fst := by
    rw [ExtTreeMap.map_fst_toList_eq_keys]
    exact ExtTreeMap.mem_keys.mpr member
  cases entries : map.toList with
  | nil =>
      rw [entries] at first
      cases first
  | cons head rest =>
      rw [entries] at first ordered listed
      cases first
      rcases List.mem_cons.mp listed with same | later
      · rw [same]
        exact UInt64.le_refl _
      · have less := (List.pairwise_cons.mp ordered).1 other later
        exact UInt64.le_of_lt (Std.compare_eq_lt.mp less)

theorem minEntry?_eq_none {Key Value : Type*} [Ord Key] [TransOrd Key]
    {map : ExtTreeMap Key Value} (empty : map.minEntry? = none) : map = ∅ := by
  rw [minEntry?_eq_head?, List.head?_eq_none_iff] at empty
  exact ExtTreeMap.toList_eq_nil_iff.mp empty

theorem getElem?_foldl_erase {Key Value : Type*} [Ord Key] [TransOrd Key]
    [LawfulEqOrd Key] [DecidableEq Key] (keys : List Key) (map : ExtTreeMap Key Value)
    (key : Key) :
    (keys.foldl (fun map key => map.erase key) map)[key]? =
      if key ∈ keys then none else map[key]? := by
  induction keys generalizing map with
  | nil => rfl
  | cons head keys ih =>
      rw [List.foldl_cons, ih, ExtTreeMap.getElem?_erase]
      by_cases same : head = key
      · simp [same]
      · have apart : compare head key ≠ .eq := fun equal =>
          same (Std.compare_eq_iff_eq.mp equal)
        simp [apart, Ne.symm same]

end OrderedMap

/-!
A loop over the entries of a map, each of which changes only what is found at its
own key.  What is found at a key after the loop depends on that key's entry alone.
-/

namespace KeyedFold

open Std

variable {Key Value State Found : Type*}

/-- The step of an entry changes what is found at its key, and nothing else. -/
structure OwnKey (look : State → Key → Found) (step : State → Key × Value → State)
    (change : Key → Value → Found → Found) : Prop where
  own : ∀ state entry, look (step state entry) entry.1 =
    change entry.1 entry.2 (look state entry.1)
  other : ∀ state entry key, key ≠ entry.1 →
    look (step state entry) key = look state key

variable {look : State → Key → Found} {step : State → Key × Value → State}
  {change : Key → Value → Found → Found}

theorem look_foldl_of_notMem (steps : OwnKey look step change) {key : Key}
    {entries : List (Key × Value)} (absent : ∀ value, (key, value) ∉ entries)
    (state : State) : look (entries.foldl step state) key = look state key := by
  induction entries generalizing state with
  | nil => rfl
  | cons entry entries ih =>
      have other : key ≠ entry.1 := by
        rintro rfl
        exact absent entry.2 List.mem_cons_self
      rw [List.foldl_cons, ih fun value mem => absent value (List.mem_cons_of_mem _ mem),
        steps.other state entry key other]

variable [Ord Key] [LawfulEqOrd Key]

theorem look_foldl_of_mem (steps : OwnKey look step change) {key : Key} {value : Value}
    {entries : List (Key × Value)}
    (distinct : entries.Pairwise fun first second => ¬ compare first.1 second.1 = .eq)
    (mem : (key, value) ∈ entries) (state : State) :
    look (entries.foldl step state) key = change key value (look state key) := by
  induction entries generalizing state with
  | nil => cases mem
  | cons entry entries ih =>
      obtain ⟨apart, rest⟩ := List.pairwise_cons.mp distinct
      rw [List.foldl_cons]
      rcases List.mem_cons.mp mem with rfl | later
      · rw [look_foldl_of_notMem steps fun other later => apart _ later ReflCmp.compare_self]
        exact steps.own state (key, value)
      · have other : key ≠ entry.1 := by
          rintro rfl
          exact apart _ later ReflCmp.compare_self
        rw [ih rest later, steps.other state entry key other]

variable [TransOrd Key]

/-- After the loop over a map, each key that has an entry was changed once. -/
theorem look_foldl_toList (steps : OwnKey look step change) (map : ExtTreeMap Key Value)
    (state : State) (key : Key) :
    look (map.toList.foldl step state) key =
      match map[key]? with
      | none => look state key
      | some value => change key value (look state key) := by
  cases found : map[key]? with
  | none =>
      refine look_foldl_of_notMem steps (fun value mem => ?_) state
      rw [ExtTreeMap.mem_toList_iff_getElem?_eq_some, found] at mem
      cases mem
  | some value =>
      exact look_foldl_of_mem steps ExtTreeMap.distinct_keys_toList
        (ExtTreeMap.mem_toList_iff_getElem?_eq_some.mpr found) state

/-- Entries of the inserted map win over the entries before. -/
theorem getElem?_foldl_insert (inserted map : ExtTreeMap Key Value) (key : Key) :
    (inserted.toList.foldl (fun map entry => map.insert entry.1 entry.2) map)[key]? =
      inserted[key]?.or map[key]? := by
  have steps : OwnKey (fun (map : ExtTreeMap Key Value) key => map[key]?)
      (fun map entry => map.insert entry.1 entry.2) fun _ value _ => some value := by
    constructor
    · exact fun map entry => ExtTreeMap.getElem?_insert_self
    · intro map entry key other
      rw [ExtTreeMap.getElem?_insert,
        if_neg fun equal => other (compare_eq_iff_eq.mp equal).symm]
  refine (look_foldl_toList steps inserted map key).trans ?_
  cases inserted[key]? <;> rfl

end KeyedFold

/-!
Each value of a map has a weight, and the total is the sum of the weights.  Writing or
erasing a key changes the total by what it changes at that key.
-/

namespace MapTotal

open Std

variable {Key Value : Type*} [Ord Key] [TransOrd Key] [LawfulEqOrd Key]

def total (weight : Value → Nat) (map : ExtTreeMap Key Value) : Nat :=
  (map.toList.map fun entry => weight entry.2).sum

/-- The weight of what is found at a key. -/
def weightAt (weight : Value → Nat) (map : ExtTreeMap Key Value) (key : Key) : Nat :=
  (map[key]?.map weight).getD 0

omit [LawfulEqOrd Key] in
theorem total_empty (weight : Value → Nat) :
    total weight (∅ : ExtTreeMap Key Value) = 0 := by
  unfold total
  rw [ExtTreeMap.toList_eq_nil_iff.mpr rfl]
  rfl

theorem nodup_toList (map : ExtTreeMap Key Value) : map.toList.Nodup := by
  have distinct := ExtTreeMap.distinct_keys_toList (t := map)
  refine distinct.imp fun {first second} apart same => apart ?_
  rw [same]
  exact ReflCmp.compare_self

/-- The entries of a map are one of them and those that are left when it is erased. -/
theorem toList_perm_cons_erase {map : ExtTreeMap Key Value} {key : Key} {value : Value}
    (found : map[key]? = some value) :
    map.toList.Perm ((key, value) :: (map.erase key).toList) := by
  have erased : ∀ other : Key, (map.erase key)[other]? =
      if compare key other = .eq then none else map[other]? :=
    fun other => ExtTreeMap.getElem?_erase
  refine (List.perm_ext_iff_of_nodup (nodup_toList map)
    (List.nodup_cons.mpr ⟨?_, nodup_toList _⟩)).mpr fun entry => ?_
  · intro member
    have known := ExtTreeMap.mem_toList_iff_getElem?_eq_some.mp member
    rw [erased, if_pos ReflCmp.compare_self] at known
    cases known
  · obtain ⟨other, held⟩ := entry
    rw [List.mem_cons, ExtTreeMap.mem_toList_iff_getElem?_eq_some,
      ExtTreeMap.mem_toList_iff_getElem?_eq_some, erased]
    split
    case isTrue same =>
      obtain rfl := compare_eq_iff_eq.mp same
      rw [found]
      simp [eq_comm]
    case isFalse different =>
      have apart : other ≠ key := by
        rintro rfl
        exact different ReflCmp.compare_self
      simp [apart]

variable (weight : Value → Nat)

theorem total_eq_weightAt_add_erase (map : ExtTreeMap Key Value) (key : Key) :
    total weight map = weightAt weight map key + total weight (map.erase key) := by
  unfold weightAt
  cases found : map[key]? with
  | none =>
      have absent : map.erase key = map := by
        apply ExtTreeMap.ext_getElem?
        intro other
        rw [ExtTreeMap.getElem?_erase]
        split
        case isTrue same => rw [← compare_eq_iff_eq.mp same, found]
        case isFalse => rfl
      rw [absent]
      simp
  | some value =>
      have same := (toList_perm_cons_erase found).map fun entry => weight entry.2
      unfold total
      rw [same.sum_eq, List.map_cons, List.sum_cons]
      rfl

/-- A write replaces the weight of a key. -/
theorem total_insert_add (map : ExtTreeMap Key Value) (key : Key) (value : Value) :
    total weight (map.insert key value) + weightAt weight map key =
      total weight map + weight value := by
  have written : (map.insert key value).erase key = map.erase key := by
    apply ExtTreeMap.ext_getElem?
    intro other
    rw [ExtTreeMap.getElem?_erase, ExtTreeMap.getElem?_erase, ExtTreeMap.getElem?_insert]
    split <;> rfl
  have own : weightAt weight (map.insert key value) key = weight value := by
    unfold weightAt
    rw [ExtTreeMap.getElem?_insert_self]
    rfl
  have before := total_eq_weightAt_add_erase weight map key
  have after := total_eq_weightAt_add_erase weight (map.insert key value) key
  rw [written, own] at after
  omega

omit [LawfulEqOrd Key] in
/-- A loop of writes adds the keys that were not there before. -/
theorem size_foldl_insert (entries : List (Key × Value))
    (distinct : entries.Pairwise fun first second => ¬ compare first.1 second.1 = .eq)
    (map : ExtTreeMap Key Value) :
    (entries.foldl (fun map entry => map.insert entry.1 entry.2) map).size =
      map.size + (entries.filter fun entry => !map.contains entry.1).length := by
  induction entries generalizing map with
  | nil => rfl
  | cons entry entries ih =>
      obtain ⟨apart, rest⟩ := List.pairwise_cons.mp distinct
      have same : entries.filter (fun other => !(map.insert entry.1 entry.2).contains other.1) =
          entries.filter fun other => !map.contains other.1 := by
        refine List.filter_congr fun other member => ?_
        rw [ExtTreeMap.contains_insert, beq_eq_false_iff_ne.mpr (apart other member),
          Bool.false_or]
      rw [List.foldl_cons, ih rest, same, ExtTreeMap.size_insert, List.filter_cons]
      by_cases known : map.contains entry.1 = true
      · rw [if_pos known, known]
        rfl
      · rw [if_neg known, eq_false_of_ne_true known, Bool.not_false, if_pos rfl,
          List.length_cons]
        omega

end MapTotal

/-!
# Filling a map up to a limit

Keys are added to a map one after the other, each with its own value, and the first new
key that finds the map full ends the loop.  The keys before it stay.
-/

namespace CappedMap

open Std

variable {Key Value : Type*} [Ord Key] [TransOrd Key] [LawfulEqOrd Key]
  (value : Key → Value)

/-- Add the keys that are not there. -/
def addAll (map : ExtTreeMap Key Value) (keys : List Key) : ExtTreeMap Key Value :=
  keys.foldl (fun map key => map.insertIfNew key (value key)) map

/-- Add them until the map is full, and say whether all of them have been added. -/
def addUpTo (limit : Nat) : ExtTreeMap Key Value → List Key → ExtTreeMap Key Value × Bool
  | map, [] => (map, true)
  | map, key :: keys =>
      if !map.contains key && limit ≤ map.size then (map, false)
      else addUpTo limit (map.insertIfNew key (value key)) keys

def newKeys (map : ExtTreeMap Key Value) (keys : List Key) : List Key :=
  keys.filter fun key => !map.contains key

variable {value} {map : ExtTreeMap Key Value} {keys : List Key} {key : Key}

theorem insertIfNew_of_mem (known : key ∈ map) (new : Value) :
    map.insertIfNew key new = map := by
  apply ExtTreeMap.ext_getElem?
  intro other
  rw [ExtTreeMap.getElem?_insertIfNew, if_neg fun added => added.2 known]

theorem getElem?_addAll [DecidableEq Key] (value : Key → Value)
    (map : ExtTreeMap Key Value) (keys : List Key) (key : Key) :
    (addAll value map keys)[key]? =
      map[key]?.or (if key ∈ keys then some (value key) else none) := by
  induction keys generalizing map with
  | nil => simp [addAll]
  | cons first keys ih =>
      have next : addAll value map (first :: keys) =
          addAll value (map.insertIfNew first (value first)) keys := rfl
      rw [next, ih, ExtTreeMap.getElem?_insertIfNew]
      by_cases same : first = key
      · subst first
        simp only [compare_self, List.mem_cons, true_or, if_true, true_and]
        cases found : map[key]? with
        | none => simp [ExtTreeMap.mem_iff_isSome_getElem?, found]
        | some old => simp [ExtTreeMap.mem_iff_isSome_getElem?, found]
      · rw [if_neg fun both => same (Std.compare_eq_iff_eq.mp both.1)]
        simp [List.mem_cons, Ne.symm same]

/-- Each new key takes one place. -/
theorem size_addAll (value : Key → Value) (map : ExtTreeMap Key Value) (distinct : keys.Nodup)
    (new : ∀ key ∈ keys, key ∉ map) : (addAll value map keys).size = map.size + keys.length := by
  induction keys generalizing map with
  | nil => rfl
  | cons first keys ih =>
      obtain ⟨apart, distinct⟩ := List.nodup_cons.mp distinct
      obtain ⟨own, rest⟩ := List.forall_mem_cons.mp new
      have later : ∀ key ∈ keys, key ∉ map.insertIfNew first (value first) := by
        intro key member known
        rw [ExtTreeMap.mem_insertIfNew] at known
        obtain same | old := known
        · exact apart (Std.compare_eq_iff_eq.mp same ▸ member)
        · exact rest key member old
      have next : addAll value map (first :: keys) =
          addAll value (map.insertIfNew first (value first)) keys := rfl
      rw [next, ih _ distinct later, ExtTreeMap.size_insertIfNew, if_neg own,
        List.length_cons]
      omega

/-- The new keys that find room are added, and the loop ends well when all of them do. -/
theorem addUpTo_eq (value : Key → Value) (limit : Nat) (map : ExtTreeMap Key Value)
    (distinct : keys.Nodup) :
    addUpTo value limit map keys =
      (addAll value map ((newKeys map keys).take (limit - map.size)),
        decide ((newKeys map keys).length ≤ limit - map.size)) := by
  induction keys generalizing map with
  | nil => simp [addUpTo, newKeys, addAll]
  | cons first keys ih =>
      obtain ⟨apart, distinct⟩ := List.nodup_cons.mp distinct
      by_cases known : first ∈ map
      · have contained : map.contains first = true := known
        have same : newKeys map (first :: keys) = newKeys map keys :=
          List.filter_cons_of_neg (by simp [contained])
        rw [same, addUpTo, insertIfNew_of_mem known, if_neg (by simp [contained])]
        exact ih map distinct
      · have absent : map.contains first = false := Bool.eq_false_iff.mpr known
        have grown : newKeys map (first :: keys) = first :: newKeys map keys :=
          List.filter_cons_of_pos (by simp [absent])
        rw [grown, addUpTo]
        by_cases full : limit ≤ map.size
        · have room : limit - map.size = 0 := by omega
          rw [if_pos (by simpa using ⟨absent, full⟩), room]
          simp [addAll]
        · have kept : newKeys (map.insertIfNew first (value first)) keys =
              newKeys map keys := by
            refine List.filter_congr fun key member => ?_
            have different : compare first key ≠ .eq := by
              intro same
              exact apart (Std.compare_eq_iff_eq.mp same ▸ member)
            rw [ExtTreeMap.contains_insertIfNew, beq_false_of_ne different, Bool.false_or]
          have room : limit - map.size = limit - (map.size + 1) + 1 := by omega
          rw [if_neg (by simpa using fun _ => Nat.lt_of_not_le full), ih _ distinct, kept,
            ExtTreeMap.size_insertIfNew, if_neg known, room, List.take_succ_cons,
            List.length_cons]
          simp [addAll]

end CappedMap
