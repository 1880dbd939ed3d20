import Roko.FallibleSteps
import Std.Data.ExtTreeMap
import Std.Data.ExtTreeSet

/-!
# Maps from keys to ordered sets

The index structure behind an adjacency list: a map whose values are ordered
sets, filled by inserting one value at a time under its key.  A loop that only
inserts adds exactly the pairs its steps add.
-/

/-- A map from keys to ordered sets of values. -/
abbrev SetMap (Key Value : Type) [Ord Key] [Ord Value] : Type :=
  Std.ExtTreeMap Key (Std.ExtTreeSet Value)

namespace SetMap

variable {Key Value Item : Type} [Ord Key] [Std.TransOrd Key]
  [Ord Value] [Std.TransOrd Value]

/-- Insert a value under a key, starting from the empty set. -/
def insertAt (map : SetMap Key Value) (key : Key) (value : Value) :
    SetMap Key Value :=
  map.alter key fun values => some ((values.getD ∅).insert value)

/-- The empty set under each of the keys. -/
def emptyAt (keys : List Key) : SetMap Key Value :=
  keys.foldl (fun map key => map.insert key ∅) ∅

/-- Insert every key of the map under each of its values. -/
def insertInverse (inverse : SetMap Value Key) (map : SetMap Key Value) :
    SetMap Value Key :=
  map.toList.foldl
    (fun inverse entry =>
      entry.2.toList.foldl (fun inverse value => inverse.insertAt value entry.1)
        inverse)
    inverse

/-- The value is in the set under the key. -/
def Has (map : SetMap Key Value) (key : Key) (value : Value) : Prop :=
  ∃ values, map[key]? = some values ∧ value ∈ values

instance (map : SetMap Key Value) (key : Key) (value : Value) :
    Decidable (map.Has key value) :=
  match found : map[key]? with
  | none => isFalse (by simp [Has, found])
  | some values => decidable_of_iff (value ∈ values) (by simp [Has, found])

theorem has_iff_getD {map : SetMap Key Value} {key : Key} {value : Value} :
    map.Has key value ↔ value ∈ map[key]?.getD ∅ := by
  unfold Has
  cases map[key]? with
  | none => simp
  | some values => simp

theorem mem_of_has {map : SetMap Key Value} {key : Key} {value : Value}
    (has : map.Has key value) : key ∈ map := by
  obtain ⟨values, found, -⟩ := has
  exact Std.ExtTreeMap.mem_iff_isSome_getElem?.mpr (by simp [found])

theorem not_has_emptyAt (keys : List Key) (key : Key) (value : Value) :
    ¬ (emptyAt keys : SetMap Key Value).Has key value := by
  have empty : ∀ map : SetMap Key Value, (∀ key value, ¬ map.Has key value) →
      ∀ key value,
        ¬ (keys.foldl (fun map key => map.insert key ∅) map).Has key value := by
    induction keys with
    | nil => exact fun _ none => none
    | cons item keys ih =>
        intro map none
        apply ih
        rintro key value ⟨values, found, member⟩
        rw [Std.ExtTreeMap.getElem?_insert] at found
        split at found
        · simp [← Option.some.inj found] at member
        · exact none key value ⟨values, found, member⟩
  exact empty ∅ (by simp [Has]) key value

variable [Std.LawfulEqOrd Key]

theorem mem_insertAt (map : SetMap Key Value) (key other : Key)
    (value : Value) :
    other ∈ map.insertAt key value ↔ other ∈ map ∨ other = key := by
  rw [insertAt, Std.ExtTreeMap.mem_alter]
  by_cases same : key = other
  · subst same
    simp
  · have differ : compare key other ≠ .eq := by
      simpa using same
    simp [differ, Ne.symm same]

omit [Std.TransOrd Value] in
theorem mem_emptyAt (keys : List Key) (key : Key) :
    key ∈ (emptyAt keys : SetMap Key Value) ↔ key ∈ keys := by
  unfold emptyAt
  rw [FallibleSteps.foldl_adds_iff (fun map => key ∈ map) fun item => key = item]
  · simp
  · intro map item _
    rw [Std.ExtTreeMap.mem_insert, Std.LawfulEqCmp.compare_eq_iff_eq, or_comm,
      eq_comm]

variable [Std.LawfulEqOrd Value]

theorem has_insertAt (map : SetMap Key Value) (key other : Key)
    (value stored : Value) :
    (map.insertAt key value).Has other stored ↔
      map.Has other stored ∨ (other = key ∧ stored = value) := by
  rw [has_iff_getD, has_iff_getD, insertAt, Std.ExtTreeMap.getElem?_alter]
  by_cases same : key = other
  · subst same
    simp only [Std.compare_self, ↓reduceIte, Option.getD_some, true_and,
      Std.ExtTreeSet.mem_insert, Std.LawfulEqCmp.compare_eq_iff_eq]
    rw [or_comm, eq_comm]
  · have differ : compare key other ≠ .eq := by
      simpa using same
    simp [differ, Ne.symm same]

theorem has_insertInverse (inverse : SetMap Value Key) (map : SetMap Key Value)
    (key : Key) (value : Value) :
    (insertInverse inverse map).Has value key ↔
      inverse.Has value key ∨ map.Has key value := by
  unfold insertInverse
  rw [FallibleSteps.foldl_adds_iff (fun map : SetMap Value Key => map.Has value key)
    fun entry => value ∈ entry.2 ∧ key = entry.1]
  · simp only [Prod.exists, Std.ExtTreeMap.mem_toList_iff_getElem?_eq_some, Has]
    grind
  · intro inverse entry _
    rw [FallibleSteps.foldl_adds_iff (fun map : SetMap Value Key => map.Has value key)
      fun item => value = item ∧ key = entry.1]
    · simp only [Std.ExtTreeSet.mem_toList]
      grind
    · exact fun map item _ => has_insertAt map item value entry.1 key

theorem mem_insertInverse (inverse : SetMap Value Key) (map : SetMap Key Value)
    (value : Value) :
    value ∈ insertInverse inverse map ↔
      value ∈ inverse ∨ ∃ key, map.Has key value := by
  unfold insertInverse
  rw [FallibleSteps.foldl_adds_iff (fun map : SetMap Value Key => value ∈ map)
    fun entry => value ∈ entry.2]
  · simp only [Prod.exists, Std.ExtTreeMap.mem_toList_iff_getElem?_eq_some, Has]
  · intro inverse entry _
    rw [FallibleSteps.foldl_adds_iff (fun map : SetMap Value Key => value ∈ map)
      fun item => value = item]
    · simp
    · exact fun map item _ => mem_insertAt map item value entry.1

end SetMap
