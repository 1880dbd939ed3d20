import Mathlib.Algebra.BigOperators.Ring.Finset
import Mathlib.Algebra.Order.Ring.Abs

/-!
# Tallies

Sums over the keys of a table, and sums over votes that come with weights.
-/

/-!
A table gives a number to each key, and a tally is their sum over the keys in use.
A write at one key changes the tally by what it changes there.
-/

namespace Tally

variable {Key : Type*} [DecidableEq Key]

theorem sum_update_add {keys : Finset Key} {key : Key} (member : key ∈ keys)
    (table : Key → Nat) (value : Nat) :
    ∑ other ∈ keys, Function.update table key value other + table key =
      ∑ other ∈ keys, table other + value := by
  rw [Finset.sum_update_of_mem member, ← Finset.sum_sdiff
    (Finset.singleton_subset_iff.mpr member), Finset.sum_singleton]
  omega

/-- A write outside of the keys is not seen. -/
theorem sum_update_of_notMem {keys : Finset Key} {key : Key} (absent : key ∉ keys)
    (table : Key → Nat) (value : Nat) :
    ∑ other ∈ keys, Function.update table key value other = ∑ other ∈ keys, table other :=
  Finset.sum_update_of_notMem absent table value

/-- The sum over the keys of a list is a sum over a set when no key repeats. -/
theorem sum_map_eq {keys : List Key} (nodup : keys.Nodup) (table : Key → Nat) :
    (keys.map table).sum = ∑ key ∈ keys.toFinset, table key :=
  (List.sum_toFinset table nodup).symm

theorem sum_map_update_add {keys : List Key} (nodup : keys.Nodup) {key : Key}
    (member : key ∈ keys) (table : Key → Nat) (value : Nat) :
    (keys.map (Function.update table key value)).sum + table key =
      (keys.map table).sum + value := by
  rw [sum_map_eq nodup, sum_map_eq nodup]
  exact sum_update_add (List.mem_toFinset.mpr member) table value

theorem sum_map_update_of_notMem {keys : List Key} {key : Key} (absent : key ∉ keys)
    (table : Key → Nat) (value : Nat) :
    (keys.map (Function.update table key value)).sum = (keys.map table).sum := by
  congr 1
  refine List.map_congr_left fun other member => Function.update_of_ne ?_ _ _
  rintro rfl
  exact absent member

end Tally

/-!
Votes are cast for keys with integer weights, and a tally adds up what the keys are worth.  It
depends on the votes only through the net weight of each key, so votes that cancel leave no
trace, and a key that is counted several times is the same as one vote of that weight.
-/

namespace WeightedTally

variable {Key : Type*}

/-- The sum of what the votes are worth. -/
def tally (worth : Key → Int) (votes : List (Key × Int)) : Int :=
  (votes.map fun vote => vote.2 * worth vote.1).sum

theorem tally_append (worth : Key → Int) (first second : List (Key × Int)) :
    tally worth (first ++ second) = tally worth first + tally worth second := by
  simp [tally]

theorem tally_perm (worth : Key → Int) {first second : List (Key × Int)}
    (same : first.Perm second) : tally worth first = tally worth second :=
  (same.map _).sum_eq

/-- A tally is at most the sum of the weights, if no key is worth more than one. -/
theorem abs_tally_le {worth : Key → Int} (small : ∀ key, |worth key| ≤ 1)
    (votes : List (Key × Int)) : |tally worth votes| ≤ (votes.map fun vote => |vote.2|).sum := by
  induction votes with
  | nil => simp [tally]
  | cons vote votes ih =>
      rw [tally] at ih
      rw [tally, List.map_cons, List.map_cons, List.sum_cons, List.sum_cons]
      have own : |vote.2 * worth vote.1| ≤ |vote.2| := by
        rw [abs_mul]
        exact mul_le_of_le_one_right (abs_nonneg _) (small vote.1)
      exact (abs_add_le _ _).trans (add_le_add own ih)

variable [DecidableEq Key]

/-- The weight that all votes for a key have together. -/
def net (votes : List (Key × Int)) (key : Key) : Int :=
  (votes.map fun vote => if vote.1 = key then vote.2 else 0).sum

/-- A tally from the net weights of some keys that contain all that are voted for. -/
theorem tally_eq_sum (worth : Key → Int) {votes : List (Key × Int)} {keys : Finset Key}
    (inside : ∀ vote ∈ votes, vote.1 ∈ keys) :
    tally worth votes = ∑ key ∈ keys, net votes key * worth key := by
  induction votes with
  | nil => simp [tally, net]
  | cons vote votes ih =>
      rw [List.forall_mem_cons] at inside
      have own : ∑ key ∈ keys, (if vote.1 = key then vote.2 else 0) * worth key =
          vote.2 * worth vote.1 := by
        simp only [ite_mul, zero_mul]
        rw [Finset.sum_ite_eq keys vote.1 fun key => vote.2 * worth key, if_pos inside.1]
      have rest := ih inside.2
      rw [tally] at rest
      simp only [tally, net, List.map_cons, List.sum_cons, add_mul, Finset.sum_add_distrib, own,
        rest]

theorem tally_congr (worth : Key → Int) {first second : List (Key × Int)}
    (same : ∀ key, net first key = net second key) : tally worth first = tally worth second := by
  have inside : ∀ votes ∈ [first, second], ∀ vote ∈ votes,
      vote.1 ∈ ((first ++ second).map Prod.fst).toFinset := by
    intro votes one vote member
    rw [List.mem_toFinset]
    refine List.mem_map_of_mem (List.mem_append.mpr ?_)
    rcases List.mem_pair.mp one with rfl | rfl
    · exact Or.inl member
    · exact Or.inr member
  rw [tally_eq_sum worth (inside first (by simp)), tally_eq_sum worth (inside second (by simp))]
  exact Finset.sum_congr rfl fun key _ => by rw [same key]

/-- Each key of a list counts once. -/
theorem net_ones (keys : List Key) (key : Key) :
    net (keys.map fun key => (key, 1)) key = keys.count key := by
  induction keys with
  | nil => rfl
  | cons other keys ih =>
      rw [net] at ih
      rw [net, List.map_cons, List.map_cons, List.sum_cons, ih, List.count_cons]
      by_cases same : other = key
      · simp [same, add_comm]
      · simp [same]

end WeightedTally
