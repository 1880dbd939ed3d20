import Mathlib.Data.List.Nodup

/-!
# Caches of bounded size

A cache holds a value for at most `capacity` keys, the most recently used key first.
Writing a new key into a full cache drops the key that was used least recently.
-/

/-- The entries of a cache, the most recently used one first. -/
structure RecencyCache (Key Value : Type*) where
  capacity : Nat
  entries : List (Key × Value)
  positive : 0 < capacity
  nodup : (entries.map Prod.fst).Nodup
  bounded : entries.length ≤ capacity

namespace RecencyCache

variable {Key Value : Type*}

/-- A cache without entries. -/
def empty (capacity : Nat) (positive : 0 < capacity) : RecencyCache Key Value :=
  ⟨capacity, [], positive, List.nodup_nil, Nat.zero_le _⟩

variable [DecidableEq Key] (cache : RecencyCache Key Value)

def others (key : Key) : List (Key × Value) :=
  cache.entries.filter fun entry => entry.1 ≠ key

theorem nodup_cons_others (key : Key) (value : Value) :
    (((key, value) :: cache.others key).map Prod.fst).Nodup := by
  rw [List.map_cons, List.nodup_cons]
  constructor
  · intro member
    obtain ⟨entry, among, same⟩ := List.mem_map.mp member
    have different := (List.mem_filter.mp among).2
    simp [same] at different
  · exact cache.nodup.sublist (List.filter_sublist.map Prod.fst)

/-- The value of a key, which does not count as a use. -/
def find? (key : Key) : Option Value :=
  (cache.entries.find? fun entry => entry.1 = key).map Prod.snd

/-- Write a key. -/
def put (key : Key) (value : Value) : RecencyCache Key Value where
  capacity := cache.capacity
  entries := ((key, value) :: cache.others key).take cache.capacity
  positive := cache.positive
  nodup := (cache.nodup_cons_others key value).sublist ((List.take_sublist _ _).map _)
  bounded := List.length_take_le _ _

/-- Use a key; it becomes the most recent one, as if it were written again. -/
def get (key : Key) : Option (Value × RecencyCache Key Value) :=
  (cache.find? key).map fun value => (value, cache.put key value)

/-- Drop a key. -/
def pop (key : Key) : RecencyCache Key Value where
  capacity := cache.capacity
  entries := cache.others key
  positive := cache.positive
  nodup := cache.nodup.sublist (List.filter_sublist.map Prod.fst)
  bounded := Nat.le_trans (List.length_filter_le _ _) cache.bounded

@[simp]
theorem find?_put_self (key : Key) (value : Value) :
    (cache.put key value).find? key = some value := by
  obtain ⟨room, size⟩ := Nat.exists_eq_succ_of_ne_zero (Nat.ne_of_gt cache.positive)
  simp only [find?, put, size, List.take_succ_cons]
  simp

/-- Writing a key keeps the value of another key or drops it. -/
theorem find?_put_of_ne {key other : Key} (different : other ≠ key) (value : Value) :
    (cache.put key value).find? other = none ∨
      (cache.put key value).find? other = cache.find? other := by
  have whole : ((key, value) :: cache.others key).find? (fun entry => entry.1 = other) =
      cache.entries.find? fun entry => entry.1 = other := by
    rw [List.find?_cons_of_neg (by simpa using different.symm), others, List.find?_filter]
    congr 1
    funext entry
    by_cases same : entry.1 = other
    · simp [same, different]
    · simp [same]
  rw [← List.take_append_drop cache.capacity ((key, value) :: cache.others key),
    List.find?_append] at whole
  unfold find? put
  dsimp only
  cases found : (((key, value) :: cache.others key).take cache.capacity).find?
      (fun entry => entry.1 = other) with
  | none => exact Or.inl rfl
  | some entry =>
      rw [found] at whole
      rw [← whole]
      exact Or.inr rfl

theorem find?_put_cases {key other : Key} {value found : Value}
    (known : (cache.put key value).find? other = some found) :
    other = key ∧ found = value ∨ cache.find? other = some found := by
  by_cases same : other = key
  · rw [same, find?_put_self] at known
    exact Or.inl ⟨same, (Option.some.inj known).symm⟩
  · rcases cache.find?_put_of_ne same value with dropped | kept
    · rw [dropped] at known
      cases known
    · exact Or.inr (kept ▸ known)

theorem find?_of_pop {key other : Key} {found : Value}
    (known : (cache.pop key).find? other = some found) : cache.find? other = some found := by
  unfold find? pop others at known
  dsimp only at known
  rw [List.find?_filter] at known
  by_cases same : other = key
  · have never : cache.entries.find? (fun entry =>
        decide (decide (entry.1 ≠ key) = true ∧ decide (entry.1 = other) = true)) = none := by
      refine List.find?_eq_none.mpr fun entry _ holds => ?_
      simp only [same, decide_eq_true_eq] at holds
      exact holds.1 holds.2
    rw [never] at known
    cases known
  · have only : (fun entry : Key × Value =>
        decide (decide (entry.1 ≠ key) = true ∧ decide (entry.1 = other) = true)) =
        fun entry => decide (entry.1 = other) := by
      funext entry
      by_cases own : entry.1 = other <;> simp [own, same]
    rw [only] at known
    exact known

/-- Write a list of entries, one after the other. -/
def putAll (entries : List (Key × Value)) : RecencyCache Key Value :=
  entries.foldl (fun cache entry => cache.put entry.1 entry.2) cache

/-- Writing other keys keeps the value of a key or drops it. -/
theorem find?_putAll_of_notMem {entries : List (Key × Value)} {key : Key}
    (notMem : key ∉ entries.map Prod.fst) :
    (cache.putAll entries).find? key = none ∨
      (cache.putAll entries).find? key = cache.find? key := by
  unfold putAll
  induction entries generalizing cache with
  | nil => exact Or.inr rfl
  | cons entry entries ih =>
      rw [List.map_cons, List.mem_cons, not_or] at notMem
      rw [List.foldl_cons]
      rcases ih (cache.put entry.1 entry.2) notMem.2 with dropped | kept
      · exact Or.inl dropped
      · rw [kept]
        exact cache.find?_put_of_ne notMem.1 entry.2

end RecencyCache
