import Mathlib.Algebra.BigOperators.Group.List.Basic
import Mathlib.Algebra.Order.Field.Rat
import Mathlib.Data.List.Sort
import Roko.OptimalCuts

/-!
# The change points of a series

The model of `roko-gate/src/pelt.rs` over rationals, for the costs that need no logarithm.
The largest `f64` of an empty table is infinity.  The pruned search is compared with the least
total of all cuts.
-/

namespace Roko

namespace Pelt

open OptimalCuts
open scoped List

inductive CostFunction
  | l2
  | l1
  deriving DecidableEq, Repr

/-- The cost of the segment `data[start..stop]`. -/
def CostFunction.cost (costFn : CostFunction) (data : List ℚ) (start stop : ℕ) : ℚ :=
  if stop ≤ start then 0
  else
    let segment := (data.take stop).drop start
    let count : ℚ := segment.length
    match costFn with
    | .l2 =>
        let mean := segment.sum / count
        (segment.map fun value => (value - mean) ^ 2).sum
    | .l1 =>
        let sorted := segment.mergeSort (· ≤ ·)
        let median := sorted.getD (sorted.length / 2) 0
        (segment.map fun value => |value - median|).sum

structure ChangePoint where
  index : ℕ
  improvement : ℚ
  deriving DecidableEq, Repr

structure PeltDetector where
  costFn : CostFunction
  penalty : ℚ
  minSegmentLen : ℕ
  penalty_nonneg : 0 ≤ penalty
  minSegmentLen_pos : 0 < minSegmentLen

/-- The tables of the search, of which every entry stands from the start on. -/
structure Search where
  best : ℕ → WithTop ℚ
  prev : ℕ → ℕ
  candidates : List ℕ

namespace PeltDetector

def new (costFn : CostFunction) (penalty : ℚ) : PeltDetector :=
  ⟨costFn, max penalty 0, 2, le_max_right _ _, by decide⟩

def withMinSegment (detector : PeltDetector) (minLen : ℕ) : PeltDetector :=
  { detector with
    minSegmentLen := max minLen 1
    minSegmentLen_pos := by omega }

variable (detector : PeltDetector) (data : List ℚ)

def start : Search :=
  ⟨Function.update (fun _ => ⊤) 0 (-detector.penalty : ℚ), fun _ => 0, [0]⟩

def candidateTotal (search : Search) (cut place : ℕ) : WithTop ℚ :=
  search.best cut + (detector.costFn.cost data cut place : ℚ) + (detector.penalty : ℚ)

/-- The best cost and the candidate that has it first. -/
def bestCandidate (search : Search) (place : ℕ) : WithTop ℚ × ℕ :=
  search.candidates.foldl
    (fun best cut =>
      if place - cut < detector.minSegmentLen then best
      else
        let total := detector.candidateTotal data search cut place
        if total < best.1 then (total, cut) else best)
    (⊤, 0)

def step (search : Search) (place : ℕ) : Search :=
  let (bestCost, bestPrev) := detector.bestCandidate data search place
  let search := { search with
    best := Function.update search.best place bestCost
    prev := Function.update search.prev place bestPrev }
  { search with
    candidates := search.candidates.filter (fun cut =>
      detector.candidateTotal data search cut place ≤ search.best place) ++ [place] }

/-- The search after so many places. -/
def search (count : ℕ) : Search :=
  (List.range' detector.minSegmentLen count).foldl (detector.step data) detector.start

/-- The change points from the end on.  The loop stops before the rounds run out. -/
def backtrack (prev : ℕ → ℕ) : ℕ → ℕ → List ChangePoint
  | 0, _ => []
  | rounds + 1, place =>
      if 0 < place then
        let cut := prev place
        let cost := detector.costFn.cost data
        let unsplitCost := cost 0 place
        let splitCost := cost 0 cut + cost cut place
        let improvement := unsplitCost - splitCost
        let points := if 0 < cut then [⟨cut, max improvement 0⟩] else []
        points ++ backtrack prev rounds cut
      else []

def detect : List ChangePoint :=
  let count := data.length
  if count < detector.minSegmentLen * 2 then []
  else
    let search := detector.search data (count + 1 - detector.minSegmentLen)
    let points := detector.backtrack data search.prev count count
    points.mergeSort fun first second => first.index ≤ second.index

variable {detector data}

variable (detector data) in
/-- The candidates are tried in turn, and the first of the best is taken. -/
theorem bestCandidate_spec (search : Search) (place : ℕ) :
    (∀ cut ∈ search.candidates, cut + detector.minSegmentLen ≤ place →
      (detector.bestCandidate data search place).1 ≤
        detector.candidateTotal data search cut place) ∧
      ((detector.bestCandidate data search place).1 = ⊤ ∨
        ∃ cut ∈ search.candidates, cut + detector.minSegmentLen ≤ place ∧
          detector.bestCandidate data search place =
            (detector.candidateTotal data search cut place, cut)) := by
  rw [bestCandidate]
  induction search.candidates using List.reverseRecOn with
  | nil => simp
  | append_singleton cuts cut ih =>
      rw [List.foldl_append, List.foldl_cons, List.foldl_nil]
      generalize cuts.foldl _ _ = best at ih ⊢
      obtain ⟨lower, attained⟩ := ih
      have earlier (best_eq : best.1 = ⊤ ∨ ∃ cut ∈ cuts,
          cut + detector.minSegmentLen ≤ place ∧
            best = (detector.candidateTotal data search cut place, cut)) :
          best.1 = ⊤ ∨ ∃ other ∈ cuts ++ [cut], other + detector.minSegmentLen ≤ place ∧
            best = (detector.candidateTotal data search other place, other) := by
        refine best_eq.imp_right ?_
        rintro ⟨other, member, room, best_eq⟩
        exact ⟨other, List.mem_append_left _ member, room, best_eq⟩
      split
      case isTrue near =>
        refine ⟨?_, earlier attained⟩
        intro other member room
        rw [List.mem_append, List.mem_singleton] at member
        rcases member with before | rfl
        · exact lower other before room
        · omega
      case isFalse far =>
        have room : cut + detector.minSegmentLen ≤ place := by
          have positive := detector.minSegmentLen_pos
          omega
        dsimp only
        split
        case isTrue better =>
          refine ⟨?_, .inr ⟨cut, by simp, room, rfl⟩⟩
          intro other member other_room
          rw [List.mem_append, List.mem_singleton] at member
          rcases member with before | rfl
          · exact better.le.trans (lower other before other_room)
          · exact le_rfl
        case isFalse worse =>
          refine ⟨?_, earlier attained⟩
          intro other member other_room
          rw [List.mem_append, List.mem_singleton] at member
          rcases member with before | rfl
          · exact lower other before other_room
          · exact not_lt.mp worse

/-- What the search knows after the places up to one. -/
structure Invariant (detector : PeltDetector) (data : List ℚ) (place : ℕ) (search : Search) :
    Prop where
  pruned : Pruned (detector.costFn.cost data) detector.penalty detector.minSegmentLen place
    search.best search.prev
  finite : ∀ cut ≤ place, cut = 0 ∨ detector.minSegmentLen ≤ cut → search.best cut ≠ ⊤
  mem_candidates : ∀ cut, cut ∈ search.candidates ↔
    (cut = 0 ∨ detector.minSegmentLen ≤ cut) ∧ cut ≤ place ∧
      Kept (detector.costFn.cost data) detector.penalty detector.minSegmentLen search.best cut
        (place + 1)

theorem start_invariant :
    Invariant detector data (detector.minSegmentLen - 1) detector.start where
  pruned := by
    have positive := detector.minSegmentLen_pos
    exact
      { zero := rfl
        room := by omega
        last_long := by omega
        kept := by omega
        best_eq := by omega
        best_le := by omega }
  finite := by
    intro cut below long
    have positive := detector.minSegmentLen_pos
    obtain rfl : cut = 0 := by omega
    exact WithTop.coe_ne_top
  mem_candidates := by
    intro cut
    have positive := detector.minSegmentLen_pos
    constructor
    case mp =>
      intro member
      obtain rfl : cut = 0 := List.mem_singleton.mp member
      refine ⟨.inl rfl, Nat.zero_le _, fun place after before long => ?_⟩
      omega
    case mpr =>
      rintro ⟨long, below, -⟩
      exact List.mem_singleton.mpr (by omega)

/-- The last cut of a place is still a candidate after it. -/
theorem Invariant.exists_candidate {place : ℕ} {search : Search}
    (invariant : Invariant detector data place search)
    (long : detector.minSegmentLen ≤ place + 1) :
    ∃ cut ∈ search.candidates, cut + detector.minSegmentLen ≤ place + 1 ∧
      search.best cut ≠ ⊤ := by
  rcases Nat.lt_or_ge place detector.minSegmentLen with short | enough
  · refine ⟨0, (invariant.mem_candidates 0).mpr ⟨.inl rfl, Nat.zero_le _, ?_⟩, by omega, ?_⟩
    · intro other after before other_long
      omega
    · exact invariant.finite 0 (Nat.zero_le _) (.inl rfl)
  · have pruned := invariant.pruned
    have positive := detector.minSegmentLen_pos
    have room := pruned.room place enough le_rfl
    have last_long := pruned.last_long place enough le_rfl
    refine ⟨search.prev place, (invariant.mem_candidates _).mpr ⟨last_long, by omega, ?_⟩,
      by omega, invariant.finite _ (by omega) last_long⟩
    rw [kept_succ_iff (by omega) enough]
    exact ⟨pruned.kept place enough le_rfl, (pruned.best_eq place enough le_rfl).ge⟩

/-- A round finds a candidate. -/
theorem Invariant.bestCandidate_eq {place : ℕ} {search : Search}
    (invariant : Invariant detector data place search)
    (long : detector.minSegmentLen ≤ place + 1) :
    ∃ cut ∈ search.candidates, cut + detector.minSegmentLen ≤ place + 1 ∧
      detector.bestCandidate data search (place + 1) =
        (detector.candidateTotal data search cut (place + 1), cut) := by
  obtain ⟨cut, member, room, finite⟩ := invariant.exists_candidate long
  obtain ⟨lower, attained⟩ := bestCandidate_spec detector data search
    (place + 1)
  refine attained.resolve_left fun top => ?_
  have total_le := lower cut member room
  rw [top, top_le_iff, candidateTotal] at total_le
  simp [finite] at total_le

section Step

variable (detector data) (search : Search) (place : ℕ) {other : ℕ}

theorem step_best_of_ne (ne : other ≠ place) :
    (detector.step data search place).best other = search.best other :=
  Function.update_of_ne ne _ _

theorem step_best_self :
    (detector.step data search place).best place =
      (detector.bestCandidate data search place).1 :=
  Function.update_self _ _ _

theorem step_prev_of_ne (ne : other ≠ place) :
    (detector.step data search place).prev other = search.prev other :=
  Function.update_of_ne ne _ _

theorem step_prev_self :
    (detector.step data search place).prev place =
      (detector.bestCandidate data search place).2 :=
  Function.update_self _ _ _

/-- The test of a round reads the new entry. -/
theorem mem_step_candidates :
    other ∈ (detector.step data search place).candidates ↔
      (other ∈ search.candidates ∧ (detector.step data search place).best other +
          (detector.costFn.cost data other place : ℚ) + (detector.penalty : ℚ) ≤
        (detector.step data search place).best place) ∨ other = place := by
  simp [step, candidateTotal]

end Step

theorem step_invariant {place : ℕ} {search : Search} (long : detector.minSegmentLen ≤ place + 1)
    (invariant : Invariant detector data place search) :
    Invariant detector data (place + 1) (detector.step data search (place + 1)) := by
  have positive := detector.minSegmentLen_pos
  obtain ⟨cut, member, room, found⟩ := invariant.bestCandidate_eq long
  obtain ⟨cut_long, below, kept⟩ := (invariant.mem_candidates cut).mp member
  have lower := (bestCandidate_spec detector data search (place + 1)).1
  have best_same (other : ℕ) (inside : other ≤ place) :=
    step_best_of_ne detector data search (place + 1) (show other ≠ place + 1 by omega)
  have best_self := step_best_self detector data search (place + 1)
  have prev_self := step_prev_self detector data search (place + 1)
  constructor
  case pruned =>
    refine invariant.pruned.succ positive best_same
      (fun other inside => step_prev_of_ne detector data search _ (by omega)) ?_ ?_ ?_ ?_ ?_
    · rwa [prev_self, found]
    · rwa [prev_self, found]
    · rwa [prev_self, found]
    · rw [prev_self, best_self, found, candidateTotal]
    · intro other other_long other_room other_kept
      rw [best_self]
      exact lower other ((invariant.mem_candidates other).mpr ⟨other_long, by omega, other_kept⟩)
        other_room
  case finite =>
    intro other inside other_long
    rcases inside.lt_or_eq with before | rfl
    · rw [best_same other (by omega)]
      exact invariant.finite other (by omega) other_long
    · rw [best_self, found, candidateTotal]
      simp [invariant.finite cut below cut_long]
  case mem_candidates =>
    intro other
    rw [mem_step_candidates]
    constructor
    case mp =>
      rintro (⟨candidate, passed⟩ | rfl)
      · obtain ⟨other_long, inside, other_kept⟩ := (invariant.mem_candidates other).mp candidate
        refine ⟨other_long, by omega, (kept_succ_iff (by omega) long).mpr ⟨?_, passed⟩⟩
        exact (Kept.congr (by omega) fun third before => best_same third (by omega)).mpr other_kept
      · exact ⟨.inr long, le_rfl, fun third after before => by omega⟩
    case mpr =>
      rintro ⟨other_long, inside, other_kept⟩
      rcases inside.lt_or_eq with before | rfl
      · obtain ⟨earlier, passed⟩ := (kept_succ_iff before long).mp other_kept
        refine .inl ⟨(invariant.mem_candidates other).mpr ⟨other_long, by omega, ?_⟩, passed⟩
        exact (Kept.congr before fun third inside => best_same third (by omega)).mp earlier
      · exact .inr rfl

variable (detector data)

theorem search_succ (count : ℕ) :
    detector.search data (count + 1) =
      detector.step data (detector.search data count) (detector.minSegmentLen + count) := by
  rw [search, List.range'_1_concat, List.foldl_append]
  rfl

theorem search_invariant (count : ℕ) :
    Invariant detector data (detector.minSegmentLen - 1 + count)
      (detector.search data count) := by
  have positive := detector.minSegmentLen_pos
  induction count with
  | zero => exact start_invariant
  | succ count ih =>
      have place_eq : detector.minSegmentLen + count =
          detector.minSegmentLen - 1 + count + 1 := by omega
      have long : detector.minSegmentLen ≤ detector.minSegmentLen - 1 + count + 1 := by omega
      rw [search_succ, place_eq]
      exact step_invariant long ih

/-- The entry of a place is never written again. -/
theorem search_best_eq (count more : ℕ) {place : ℕ}
    (inside : place ≤ detector.minSegmentLen - 1 + count) :
    (detector.search data (count + more)).best place =
      (detector.search data count).best place := by
  have positive := detector.minSegmentLen_pos
  induction more with
  | zero => rfl
  | succ more ih =>
      have earlier : place ≠ detector.minSegmentLen + (count + more) := by omega
      rw [← Nat.add_assoc, search_succ, step_best_of_ne detector data _ _ earlier, ih]

theorem cost_take (costFn : CostFunction) (length cut : ℕ) {place : ℕ} (inside : place ≤ length) :
    costFn.cost (data.take length) cut place = costFn.cost data cut place := by
  simp only [CostFunction.cost, List.take_take, Nat.min_eq_left inside]

/-- The search of a front of the data is the front of the search. -/
theorem search_take (length count : ℕ) (inside : detector.minSegmentLen - 1 + count ≤ length) :
    detector.search (data.take length) count = detector.search data count := by
  have positive := detector.minSegmentLen_pos
  induction count with
  | zero => rw [search, search, List.range'_zero, List.foldl_nil, List.foldl_nil]
  | succ count ih =>
      have same (search : Search) (cut : ℕ) :
          detector.candidateTotal (data.take length) search cut (detector.minSegmentLen + count) =
            detector.candidateTotal data search cut (detector.minSegmentLen + count) := by
        rw [candidateTotal, cost_take data _ _ _ (by omega), candidateTotal]
      rw [search_succ, search_succ, ih (by omega)]
      simp only [step, bestCandidate, same]

theorem backtrack_zero (prev : ℕ → ℕ) (rounds : ℕ) :
    detector.backtrack data prev rounds 0 = [] := by
  cases rounds <;> rfl

/-- The loop goes from place to place as the table says, and reaches the start. -/
theorem follows_backtrack {best : ℕ → WithTop ℚ} {prev : ℕ → ℕ} {rounds place : ℕ}
    (pruned : Pruned (detector.costFn.cost data) detector.penalty detector.minSegmentLen place
      best prev)
    (long : detector.minSegmentLen ≤ place) (enough : place ≤ rounds) :
    Follows prev place
      ((detector.backtrack data prev rounds place).map ChangePoint.index).reverse := by
  have positive := detector.minSegmentLen_pos
  induction rounds generalizing place with
  | zero => omega
  | succ rounds ih =>
      have room := pruned.room place long le_rfl
      have last_long := pruned.last_long place long le_rfl
      rw [backtrack, if_pos (by omega)]
      dsimp only
      split
      case isTrue later =>
        rw [List.singleton_append, List.map_cons, List.reverse_cons, follows_concat]
        have shorter : prev place ≤ place := by omega
        have front := ih (pruned.mono shorter) (by omega) (by omega)
        exact ⟨front, by omega, rfl⟩
      case isFalse first =>
        have cut_eq : prev place = 0 := by omega
        rw [cut_eq, backtrack_zero]
        rintro piece member
        obtain rfl : piece = (0, place) := by simpa using member
        exact ⟨by dsimp only; omega, cut_eq⟩

def indices : List ℕ :=
  (detector.detect data).map ChangePoint.index

theorem indices_of_short (short : data.length < 2 * detector.minSegmentLen) :
    detector.indices data = [] := by
  rw [indices, detect, if_pos (by omega), List.map_nil]

/-- Sorting turns the change points around. -/
theorem map_index_mergeSort {points : List ChangePoint}
    (ordered : (points.map ChangePoint.index).reverse.Pairwise (· < ·)) :
    (points.mergeSort fun first second => first.index ≤ second.index).map ChangePoint.index =
      (points.map ChangePoint.index).reverse := by
  let before (first second : ChangePoint) : Bool := first.index ≤ second.index
  have sorted : (points.mergeSort before).Pairwise fun first second => before first second := by
    apply List.pairwise_mergeSort
    · intro first second third earlier later
      simp only [before, decide_eq_true_eq] at earlier later ⊢
      exact earlier.trans later
    · intro first second
      simp only [before, Bool.or_eq_true, decide_eq_true_eq]
      exact le_total _ _
  have perm : (points.mergeSort before).map ChangePoint.index ~
      (points.map ChangePoint.index).reverse :=
    ((List.mergeSort_perm points before).map _).trans (List.reverse_perm _).symm
  refine perm.eq_of_pairwise (fun _ _ _ _ => le_antisymm) ?_ (ordered.imp le_of_lt)
  rw [List.pairwise_map]
  exact sorted.imp fun earlier => of_decide_eq_true earlier

/-- The search over all of the data. -/
def wholeSearch : Search :=
  detector.search data (data.length + 1 - detector.minSegmentLen)

theorem wholeSearch_invariant (long : detector.minSegmentLen ≤ data.length) :
    Invariant detector data data.length (detector.wholeSearch data) := by
  have positive := detector.minSegmentLen_pos
  have invariant := detector.search_invariant data (data.length + 1 - detector.minSegmentLen)
  have place_eq : detector.minSegmentLen - 1 + (data.length + 1 - detector.minSegmentLen) =
      data.length := by omega
  rwa [place_eq] at invariant

/-- The change points are the cuts that the table leads to. -/
theorem follows_indices (long : 2 * detector.minSegmentLen ≤ data.length) :
    Follows (detector.wholeSearch data).prev data.length (detector.indices data) := by
  have positive := detector.minSegmentLen_pos
  have enough : detector.minSegmentLen ≤ data.length := by omega
  have pruned := (detector.wholeSearch_invariant data enough).pruned
  have follows := detector.follows_backtrack data pruned enough le_rfl
  obtain ⟨admissible, -⟩ := pruned.admissible_of_follows enough follows
  rw [indices, detect, if_neg (by omega)]
  dsimp only
  rw [map_index_mergeSort]
  · exact follows
  · exact (admissible.pairwise positive).1

/-- The segments are long enough, and their costs with the penalties have the least total. -/
def Right : Prop :=
  detector.minSegmentLen ≤ data.length →
    Admissible detector.minSegmentLen data.length (detector.indices data) ∧
      IsLeast (totals (detector.costFn.cost data) detector.penalty detector.minSegmentLen
          data.length)
        (total (detector.costFn.cost data) detector.penalty data.length (detector.indices data))

/-- Some cut of least total is never left out. -/
def NeverPruned : Prop :=
  detector.minSegmentLen ≤ data.length →
    ∃ cuts, Unpruned (detector.costFn.cost data) detector.penalty detector.minSegmentLen
      data.length cuts

/-- Data that is too short for a change is left whole. -/
theorem right_of_short (short : data.length < 2 * detector.minSegmentLen) :
    detector.Right data := by
  intro long
  rw [detector.indices_of_short data short]
  exact ⟨admissible_nil.mpr long, isLeast_totals_of_short long short⟩

/-- The change points always leave segments of the least length. -/
theorem admissible_indices (long : detector.minSegmentLen ≤ data.length) :
    Admissible detector.minSegmentLen data.length (detector.indices data) := by
  by_cases short : data.length < 2 * detector.minSegmentLen
  · rw [detector.indices_of_short data short]
    exact admissible_nil.mpr long
  · have follows := detector.follows_indices data (by omega)
    exact ((detector.wholeSearch_invariant data long).pruned.admissible_of_follows long follows).1

theorem right_iff (long : 2 * detector.minSegmentLen ≤ data.length) :
    detector.Right data ↔ (detector.wholeSearch data).best data.length =
      optimum (detector.costFn.cost data) detector.penalty detector.minSegmentLen
        data.length := by
  have positive := detector.minSegmentLen_pos
  have enough : detector.minSegmentLen ≤ data.length := by omega
  have pruned := (detector.wholeSearch_invariant data enough).pruned
  have best_eq := (pruned.admissible_of_follows enough (detector.follows_indices data long)).2
  rw [Right, isLeast_totals_iff positive enough, best_eq, eq_comm]
  exact ⟨fun right => (right enough).2,
    fun optimal _ => ⟨detector.admissible_indices data enough, optimal⟩⟩

theorem right_of_neverPruned (never : detector.NeverPruned data) : detector.Right data := by
  have positive := detector.minSegmentLen_pos
  by_cases short : data.length < 2 * detector.minSegmentLen
  · exact detector.right_of_short data short
  · have enough : detector.minSegmentLen ≤ data.length := by omega
    obtain ⟨cuts, unpruned⟩ := never enough
    rw [detector.right_iff data (by omega)]
    exact unpruned.best_eq positive (detector.wholeSearch_invariant data enough).pruned

/-- The entry of a place is the one that the search over the data up to there ends with. -/
theorem wholeSearch_take {place : ℕ} (long : detector.minSegmentLen ≤ place)
    (inside : place ≤ data.length) :
    (detector.wholeSearch (data.take place)).best place =
      (detector.wholeSearch data).best place := by
  have positive := detector.minSegmentLen_pos
  have length_eq : (data.take place).length = place := List.length_take_of_le inside
  have count_eq : data.length + 1 - detector.minSegmentLen =
      place + 1 - detector.minSegmentLen + (data.length - place) := by omega
  rw [wholeSearch, wholeSearch, length_eq, search_take _ _ _ _ (by omega), count_eq,
    search_best_eq _ _ _ _ (by omega)]

/-- A place with room for one piece holds the cost of that piece. -/
theorem best_eq_of_short {place : ℕ} {best : ℕ → WithTop ℚ} {prev : ℕ → ℕ}
    (pruned : Pruned (detector.costFn.cost data) detector.penalty detector.minSegmentLen place
      best prev)
    (long : detector.minSegmentLen ≤ place) (short : place < 2 * detector.minSegmentLen) :
    best place =
      optimum (detector.costFn.cost data) detector.penalty detector.minSegmentLen place := by
  have positive := detector.minSegmentLen_pos
  obtain ⟨admissible, best_eq⟩ :=
    pruned.admissible_of_follows long (detector.follows_backtrack data pruned long le_rfl)
  rw [admissible.eq_nil short] at best_eq
  rw [best_eq, (isLeast_totals_iff positive long).mp (isLeast_totals_of_short long short)]

/-- If the fronts of the data are all cut right, the table holds the least totals. -/
theorem best_eq_optimum (right : ∀ length, detector.Right (data.take length)) {place : ℕ}
    (long : detector.minSegmentLen ≤ place) (inside : place ≤ data.length) :
    (detector.wholeSearch data).best place =
      optimum (detector.costFn.cost data) detector.penalty detector.minSegmentLen place := by
  have length_eq : (data.take place).length = place := List.length_take_of_le inside
  by_cases short : place < 2 * detector.minSegmentLen
  · have pruned := (detector.wholeSearch_invariant data (long.trans inside)).pruned
    exact detector.best_eq_of_short data (pruned.mono inside) long short
  · have front := right place
    rw [right_iff _ _ (by omega), length_eq, wholeSearch_take _ _ long inside] at front
    rw [front]
    exact optimum_congr fun cut other below => cost_take data _ _ _ below

theorem neverPruned_of_right (right : ∀ length, detector.Right (data.take length)) :
    detector.NeverPruned data := by
  intro long
  have pruned := (detector.wholeSearch_invariant data long).pruned
  have follows := detector.follows_backtrack data pruned long le_rfl
  refine ⟨_, pruned.unpruned_of_follows long ?_ follows⟩
  intro place place_long inside
  exact detector.best_eq_optimum data right place_long inside

/-- The pruning does no harm if some cut of least total passes all of its tests, and it does
harm on the data or on a front of it otherwise. -/
theorem right_iff_neverPruned :
    (detector.NeverPruned data → detector.Right data) ∧
      ((∀ length, detector.Right (data.take length)) ↔
        ∀ length, detector.NeverPruned (data.take length)) := by
  refine ⟨detector.right_of_neverPruned data, fun right length => ?_, fun never length => ?_⟩
  · refine detector.neverPruned_of_right _ fun shorter => ?_
    rw [List.take_take]
    exact right _
  · exact detector.right_of_neverPruned _ (never length)

/-- The last place is dropped before a segment that starts there is long enough. -/
theorem last_shift_missed : ¬ (PeltDetector.new .l2 1).Right [0, 0, 0, 3] := by
  intro right
  obtain ⟨-, -, least⟩ := right (by decide)
  have detected : (PeltDetector.new .l2 1).indices [0, 0, 0, 3] = [] := by decide +kernel
  have split : Admissible 2 4 [2] := by decide
  have cheaper := least ⟨[2], split, rfl⟩
  rw [detected] at cheaper
  exact absurd cheaper (by decide +kernel)

end PeltDetector

end Pelt

end Roko
