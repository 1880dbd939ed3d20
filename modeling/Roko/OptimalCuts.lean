import Mathlib.Algebra.Order.Group.Defs
import Mathlib.Algebra.Order.Monoid.Unbundled.WithTop
import Mathlib.Data.Finset.Lattice.Fold
import Mathlib.Data.Fintype.Basic
import Mathlib.Tactic.Abel

/-!
# Cuts of least cost

The positions up to a length are cut into pieces, each at least so long.  A piece has a cost,
and each cut a penalty.  The least total is given by the Bellman equation of the last cut.  A
table that leaves cuts out when a test fails is compared with it.
-/

namespace Roko

namespace OptimalCuts

/-- The pieces that the cuts leave, with their ends. -/
def pieces (length : ℕ) (cuts : List ℕ) : List (ℕ × ℕ) :=
  (0 :: cuts).zip (cuts ++ [length])

@[simp]
theorem pieces_nil (length : ℕ) : pieces length [] = [(0, length)] := rfl

theorem pieces_concat (length : ℕ) (cuts : List ℕ) (cut : ℕ) :
    pieces length (cuts ++ [cut]) = pieces cut cuts ++ [(cut, length)] := by
  rw [pieces, pieces, ← List.cons_append, List.zip_append (by simp)]
  rfl

/-- Every piece has the least length. -/
def Admissible (least length : ℕ) (cuts : List ℕ) : Prop :=
  ∀ piece ∈ pieces length cuts, piece.1 + least ≤ piece.2

instance (least length : ℕ) (cuts : List ℕ) : Decidable (Admissible least length cuts) :=
  inferInstanceAs (Decidable (∀ piece ∈ pieces length cuts, piece.1 + least ≤ piece.2))

variable {least length : ℕ}

@[simp]
theorem admissible_nil : Admissible least length [] ↔ least ≤ length := by
  simp [Admissible]

theorem admissible_concat {cuts : List ℕ} {cut : ℕ} :
    Admissible least length (cuts ++ [cut]) ↔
      Admissible least cut cuts ∧ cut + least ≤ length := by
  simp [Admissible, pieces_concat, or_imp, forall_and]

theorem Admissible.end_le {cuts : List ℕ} (admissible : Admissible least length cuts) :
    ∀ piece ∈ pieces length cuts, piece.2 ≤ length := by
  induction cuts using List.reverseRecOn generalizing length with
  | nil => simp
  | append_singleton cuts cut ih =>
      obtain ⟨front, room⟩ := admissible_concat.mp admissible
      intro piece member
      rw [pieces_concat, List.mem_append, List.mem_singleton] at member
      rcases member with earlier | rfl
      · exact (ih front piece earlier).trans (by omega)
      · exact le_rfl

theorem Admissible.le {cuts : List ℕ} (admissible : Admissible least length cuts) :
    least ≤ length := by
  rcases List.eq_nil_or_concat cuts with rfl | ⟨cuts, cut, rfl⟩
  · exact admissible_nil.mp admissible
  · rw [List.concat_eq_append, admissible_concat] at admissible
    omega

/-- The cuts stand in order, in front of the end. -/
theorem Admissible.pairwise (positive : 0 < least) {cuts : List ℕ}
    (admissible : Admissible least length cuts) :
    cuts.Pairwise (· < ·) ∧ ∀ cut ∈ cuts, cut < length := by
  induction cuts using List.reverseRecOn generalizing length with
  | nil => simp
  | append_singleton cuts cut ih =>
      obtain ⟨front, room⟩ := admissible_concat.mp admissible
      obtain ⟨ordered, before⟩ := ih front
      constructor
      · rw [List.pairwise_append]
        refine ⟨ordered, List.pairwise_singleton _ _, ?_⟩
        simpa using before
      · intro other member
        rw [List.mem_append, List.mem_singleton] at member
        rcases member with earlier | rfl
        · have := before other earlier
          omega
        · omega

/-- A range that is too short for two pieces is left whole. -/
theorem Admissible.eq_nil (short : length < 2 * least) {cuts : List ℕ}
    (admissible : Admissible least length cuts) : cuts = [] := by
  rcases List.eq_nil_or_concat cuts with rfl | ⟨cuts, cut, rfl⟩
  · rfl
  · rw [List.concat_eq_append, admissible_concat] at admissible
    have := admissible.1.le
    omega

section Totals

variable {K : Type*} [AddCommGroup K] (cost : ℕ → ℕ → K) (penalty : K)

def total (length : ℕ) (cuts : List ℕ) : K :=
  ((pieces length cuts).map fun piece => cost piece.1 piece.2).sum + cuts.length • penalty

@[simp]
theorem total_nil (length : ℕ) : total cost penalty length [] = cost 0 length := by
  simp [total]

theorem total_concat (length : ℕ) (cuts : List ℕ) (cut : ℕ) :
    total cost penalty length (cuts ++ [cut]) =
      total cost penalty cut cuts + cost cut length + penalty := by
  simp only [total, pieces_concat, List.map_append, List.sum_append, List.length_append,
    List.map_singleton, List.sum_singleton, List.length_singleton, succ_nsmul]
  abel

def totals (least length : ℕ) : Set K :=
  {value | ∃ cuts, Admissible least length cuts ∧ total cost penalty length cuts = value}

/-- The first piece is free. -/
theorem free_add_penalty (value : K) :
    ((-penalty : K) : WithTop K) + value + penalty = value := by
  norm_cast
  abel_nf

end Totals

variable {K : Type*} [AddCommGroup K] [LinearOrder K] (cost : ℕ → ℕ → K) (penalty : K)

/-- The Bellman equation of the last cut.  The first piece comes without a penalty. -/
def optimum (least : ℕ) : ℕ → WithTop K
  | 0 => ↑(-penalty)
  | length + 1 => Finset.univ.inf fun cut : Fin (length + 1) =>
      if cut + least ≤ length + 1 then
        optimum least cut + cost cut (length + 1) + penalty
      else ⊤
termination_by length => length
decreasing_by exact cut.isLt

variable {cost : ℕ → ℕ → K} {penalty : K}

@[simp]
theorem optimum_zero : optimum cost penalty least 0 = ↑(-penalty) := by
  rw [optimum]

theorem optimum_le {cut : ℕ} (positive : 0 < least) (room : cut + least ≤ length) :
    optimum cost penalty least length ≤
      optimum cost penalty least cut + cost cut length + penalty := by
  cases length with
  | zero => omega
  | succ length =>
      rw [optimum]
      have inside : cut < length + 1 := by omega
      refine (Finset.inf_le (Finset.mem_univ (⟨cut, inside⟩ : Fin (length + 1)))).trans ?_
      rw [if_pos room]

/-- Only the pieces up to the length matter. -/
theorem optimum_congr {other : ℕ → ℕ → K}
    (same : ∀ cut place, place ≤ length → cost cut place = other cut place) :
    optimum cost penalty least length = optimum other penalty least length := by
  induction length using Nat.strong_induction_on with
  | _ length ih =>
      cases length with
      | zero => rw [optimum_zero, optimum_zero]
      | succ length =>
          rw [optimum, optimum]
          refine Finset.inf_congr rfl fun cut _ => ?_
          rw [same cut (length + 1) le_rfl, ih cut cut.isLt fun start place below =>
            same start place (below.trans cut.isLt.le)]

theorem exists_optimum_eq (positive : 0 < length)
    (finite : optimum cost penalty least length ≠ ⊤) :
    ∃ cut < length, cut + least ≤ length ∧ optimum cost penalty least length =
      optimum cost penalty least cut + cost cut length + penalty := by
  cases length with
  | zero => omega
  | succ length =>
      rw [optimum] at finite ⊢
      obtain ⟨cut, -, inf_eq⟩ := Finset.exists_mem_eq_inf Finset.univ Finset.univ_nonempty
        fun cut : Fin (length + 1) => if cut + least ≤ length + 1 then
          optimum cost penalty least cut + cost cut (length + 1) + penalty else ⊤
      rw [inf_eq] at finite ⊢
      split at finite
      case isTrue room =>
        rw [if_pos room]
        exact ⟨cut, cut.isLt, room, rfl⟩
      case isFalse => exact absurd rfl finite

theorem exists_total_eq (positive : 0 < length) {value : K}
    (reached : optimum cost penalty least length = value) :
    ∃ cuts, Admissible least length cuts ∧ total cost penalty length cuts = value := by
  induction length using Nat.strong_induction_on generalizing value with
  | _ length ih =>
      obtain ⟨cut, before, room, step⟩ :=
        exists_optimum_eq positive (reached.trans_ne WithTop.coe_ne_top)
      rcases Nat.eq_zero_or_pos cut with rfl | later
      · refine ⟨[], admissible_nil.mpr (by omega), ?_⟩
        rw [reached, optimum_zero, free_add_penalty, WithTop.coe_inj] at step
        rw [total_nil, step]
      · obtain ⟨front, front_eq⟩ : ∃ front : K, optimum cost penalty least cut = front := by
          have finite := reached.trans_ne WithTop.coe_ne_top
          rw [step, WithTop.add_ne_top, WithTop.add_ne_top] at finite
          obtain ⟨front, front_eq⟩ := WithTop.ne_top_iff_exists.mp finite.1.1
          exact ⟨front, front_eq.symm⟩
        obtain ⟨cuts, admissible, total_eq⟩ := ih cut before later front_eq
        refine ⟨cuts ++ [cut], admissible_concat.mpr ⟨admissible, room⟩, ?_⟩
        rw [reached, front_eq] at step
        rw [total_concat, total_eq]
        exact_mod_cast step.symm

theorem isLeast_totals_of_short (long : least ≤ length) (short : length < 2 * least) :
    IsLeast (totals cost penalty least length) (total cost penalty length []) := by
  refine ⟨⟨[], admissible_nil.mpr long, rfl⟩, ?_⟩
  rintro value ⟨cuts, admissible, rfl⟩
  rw [admissible.eq_nil short]

section Ordered

variable [IsOrderedAddMonoid K]

theorem optimum_le_total (positive : 0 < least) {cuts : List ℕ}
    (admissible : Admissible least length cuts) :
    optimum cost penalty least length ≤ total cost penalty length cuts := by
  induction cuts using List.reverseRecOn generalizing length with
  | nil =>
      have whole : 0 + least ≤ length := by simpa using admissible
      calc
        optimum cost penalty least length
            ≤ optimum cost penalty least 0 + cost 0 length + penalty := optimum_le positive whole
        _ = total cost penalty length [] := by
            rw [optimum_zero, free_add_penalty, total_nil]
  | append_singleton cuts cut ih =>
      obtain ⟨front, room⟩ := admissible_concat.mp admissible
      calc
        optimum cost penalty least length
            ≤ optimum cost penalty least cut + cost cut length + penalty :=
          optimum_le positive room
        _ ≤ total cost penalty cut cuts + cost cut length + penalty := by
          gcongr
          exact ih front
        _ = total cost penalty length (cuts ++ [cut]) := by
          rw [total_concat]
          norm_cast

/-- The optimum is the least total. -/
theorem isLeast_totals_iff (positive : 0 < least) (long : least ≤ length) {value : K} :
    IsLeast (totals cost penalty least length) value ↔
      optimum cost penalty least length = value := by
  have lower {cuts : List ℕ} (admissible : Admissible least length cuts) :
      optimum cost penalty least length ≤ total cost penalty length cuts :=
    optimum_le_total positive admissible
  constructor
  case mp =>
    rintro ⟨⟨cuts, admissible, rfl⟩, least_total⟩
    refine le_antisymm (lower admissible) ?_
    cases reached : optimum cost penalty least length with
    | top => exact le_top
    | coe value =>
        have attained := exists_total_eq (by omega) reached
        exact WithTop.coe_le_coe.mpr (least_total attained)
  case mpr =>
    intro reached
    refine ⟨exists_total_eq (by omega) reached, ?_⟩
    rintro other ⟨cuts, admissible, rfl⟩
    rw [← WithTop.coe_le_coe, ← reached]
    exact lower admissible

end Ordered

section Tables

variable (cost : ℕ → ℕ → K) (penalty : K) (least : ℕ)

/-- The test of the cut at every place between it and the length. -/
def Kept (best : ℕ → WithTop K) (cut length : ℕ) : Prop :=
  ∀ place, cut < place → place < length → least ≤ place →
    best cut + cost cut place + penalty ≤ best place

/-- Every place up to the length takes the best of the last cuts that are kept for it. -/
structure Pruned (length : ℕ) (best : ℕ → WithTop K) (last : ℕ → ℕ) : Prop where
  zero : best 0 = ↑(-penalty)
  room : ∀ place, least ≤ place → place ≤ length → last place + least ≤ place
  last_long : ∀ place, least ≤ place → place ≤ length → last place = 0 ∨ least ≤ last place
  kept : ∀ place, least ≤ place → place ≤ length →
    Kept cost penalty least best (last place) place
  best_eq : ∀ place, least ≤ place → place ≤ length →
    best place = best (last place) + cost (last place) place + penalty
  best_le : ∀ cut place, cut = 0 ∨ least ≤ cut → cut + least ≤ place → place ≤ length →
    Kept cost penalty least best cut place → best place ≤ best cut + cost cut place + penalty

variable {cost penalty least} in
theorem kept_succ_iff {best : ℕ → WithTop K} {cut length : ℕ} (before : cut < length)
    (long : least ≤ length) :
    Kept cost penalty least best cut (length + 1) ↔
      Kept cost penalty least best cut length ∧
        best cut + cost cut length + penalty ≤ best length := by
  constructor
  case mp =>
    intro kept
    exact ⟨fun place after inside => kept place after (by omega),
      kept length before (Nat.lt_succ_self length) long⟩
  case mpr =>
    rintro ⟨kept, passed⟩ place after inside place_long
    rcases Nat.lt_succ_iff_lt_or_eq.mp inside with below | rfl
    · exact kept place after below place_long
    · exact passed

variable {cost penalty least} in
theorem Kept.congr {best other : ℕ → WithTop K} {cut length : ℕ} (before : cut < length)
    (same : ∀ place < length, best place = other place) :
    Kept cost penalty least best cut length ↔ Kept cost penalty least other cut length := by
  refine forall_congr' fun place => imp_congr_right fun _ => ?_
  refine forall_congr' fun inside => imp_congr_right fun _ => ?_
  rw [same cut before, same place inside]

variable {cost penalty least} in
/-- A table grows by a place that takes the best of the last cuts that are kept for it. -/
theorem Pruned.succ {length : ℕ} {best other : ℕ → WithTop K} {last next : ℕ → ℕ}
    (positive : 0 < least) (pruned : Pruned cost penalty least length best last)
    (best_same : ∀ place ≤ length, other place = best place)
    (last_same : ∀ place ≤ length, next place = last place)
    (room : next (length + 1) + least ≤ length + 1)
    (last_long : next (length + 1) = 0 ∨ least ≤ next (length + 1))
    (kept : Kept cost penalty least best (next (length + 1)) (length + 1))
    (best_eq : other (length + 1) =
      best (next (length + 1)) + cost (next (length + 1)) (length + 1) + penalty)
    (best_le : ∀ cut, cut = 0 ∨ least ≤ cut → cut + least ≤ length + 1 →
      Kept cost penalty least best cut (length + 1) →
        other (length + 1) ≤ best cut + cost cut (length + 1) + penalty) :
    Pruned cost penalty least (length + 1) other next where
  zero := by rw [best_same 0 (Nat.zero_le _), pruned.zero]
  room place long inside := by
    rcases inside.lt_or_eq with below | rfl
    · rw [last_same place (by omega)]
      exact pruned.room place long (by omega)
    · exact room
  last_long place long inside := by
    rcases inside.lt_or_eq with below | rfl
    · rw [last_same place (by omega)]
      exact pruned.last_long place long (by omega)
    · exact last_long
  kept place long inside := by
    rcases inside.lt_or_eq with below | rfl
    · have earlier := pruned.room place long (by omega)
      rw [last_same place (by omega), Kept.congr (by omega) fun place inside =>
        best_same place (by omega)]
      exact pruned.kept place long (by omega)
    · rw [Kept.congr (by omega) fun place inside => best_same place (by omega)]
      exact kept
  best_eq place long inside := by
    rcases inside.lt_or_eq with below | rfl
    · have earlier := pruned.room place long (by omega)
      rw [last_same place (by omega), best_same place (by omega), best_same _ (by omega)]
      exact pruned.best_eq place long (by omega)
    · rw [best_eq, best_same _ (by omega)]
  best_le cut place long room inside := by
    rw [Kept.congr (by omega) fun place inside => best_same place (by omega),
      best_same cut (by omega)]
    rcases inside.lt_or_eq with below | rfl
    · rw [best_same place (by omega)]
      exact pruned.best_le cut place long room (by omega)
    · exact best_le cut long room

/-- A cut of least total whose cuts all pass the test against the least totals. -/
structure Unpruned (length : ℕ) (cuts : List ℕ) : Prop where
  admissible : Admissible least length cuts
  total_eq : optimum cost penalty least length = total cost penalty length cuts
  kept : ∀ piece ∈ pieces length cuts,
    Kept cost penalty least (optimum cost penalty least) piece.1 piece.2

end Tables

/-- The cuts go from place to place as the table says. -/
def Follows (last : ℕ → ℕ) (length : ℕ) (cuts : List ℕ) : Prop :=
  ∀ piece ∈ pieces length cuts, 0 < piece.2 ∧ last piece.2 = piece.1

theorem follows_concat {last : ℕ → ℕ} {cuts : List ℕ} {cut : ℕ} :
    Follows last length (cuts ++ [cut]) ↔
      Follows last cut cuts ∧ 0 < length ∧ last length = cut := by
  simp [Follows, pieces_concat, or_imp, forall_and]
  tauto

theorem Follows.pos {last : ℕ → ℕ} {cuts : List ℕ} (follows : Follows last length cuts) :
    0 < length := by
  rcases List.eq_nil_or_concat cuts with rfl | ⟨cuts, cut, rfl⟩
  · exact (follows (0, length) (by simp)).1
  · rw [List.concat_eq_append, follows_concat] at follows
    exact follows.2.1

namespace Pruned

variable {best : ℕ → WithTop K} {last : ℕ → ℕ}
  (pruned : Pruned cost penalty least length best last)

include pruned

theorem mono {shorter : ℕ} (below : shorter ≤ length) :
    Pruned cost penalty least shorter best last where
  zero := pruned.zero
  room place long inside := pruned.room place long (inside.trans below)
  last_long place long inside := pruned.last_long place long (inside.trans below)
  kept place long inside := pruned.kept place long (inside.trans below)
  best_eq place long inside := pruned.best_eq place long (inside.trans below)
  best_le cut place long room inside := pruned.best_le cut place long room (inside.trans below)

/-- The table holds the total of the cuts that it leads to. -/
theorem admissible_of_follows {cuts : List ℕ} (long : least ≤ length)
    (follows : Follows last length cuts) :
    Admissible least length cuts ∧ best length = total cost penalty length cuts := by
  induction cuts using List.reverseRecOn generalizing length with
  | nil =>
      have last_eq : last length = 0 := (follows (0, length) (by simp)).2
      have step := pruned.best_eq length long le_rfl
      rw [last_eq, pruned.zero, free_add_penalty] at step
      exact ⟨admissible_nil.mpr long, by rw [step, total_nil]⟩
  | append_singleton cuts cut ih =>
      obtain ⟨front, positive, rfl⟩ := follows_concat.mp follows
      have room := pruned.room length long le_rfl
      have last_long := (pruned.last_long length long le_rfl).resolve_left front.pos.ne'
      obtain ⟨admissible, best_eq⟩ :=
        ih (pruned.mono (by omega)) last_long front
      refine ⟨admissible_concat.mpr ⟨admissible, room⟩, ?_⟩
      rw [pruned.best_eq length long le_rfl, best_eq, total_concat]
      norm_cast

/-- Where the table is right, the cuts that it leads to are never left out. -/
theorem unpruned_of_follows {cuts : List ℕ} (long : least ≤ length)
    (right : ∀ place, least ≤ place → place ≤ length →
      best place = optimum cost penalty least place)
    (follows : Follows last length cuts) : Unpruned cost penalty least length cuts := by
  obtain ⟨admissible, best_eq⟩ := pruned.admissible_of_follows long follows
  refine ⟨admissible, ?_, ?_⟩
  · rw [← right length long le_rfl, best_eq]
  rintro ⟨cut, stop⟩ member place after before place_long
  have room := admissible (cut, stop) member
  have inside := admissible.end_le (cut, stop) member
  have last_eq : last stop = cut := (follows (cut, stop) member).2
  subst last_eq
  dsimp only at room inside before after ⊢
  have kept := pruned.kept stop (by omega) inside place after before place_long
  have cut_eq : best (last stop) = optimum cost penalty least (last stop) := by
    rcases pruned.last_long stop (by omega) inside with first | later
    · rw [first, pruned.zero, optimum_zero]
    · exact right _ later (by omega)
  rwa [cut_eq, right place place_long (by omega)] at kept

variable [IsOrderedAddMonoid K]

theorem optimum_le_best (positive : 0 < least) {place : ℕ} (long : place = 0 ∨ least ≤ place)
    (inside : place ≤ length) : optimum cost penalty least place ≤ best place := by
  induction place using Nat.strong_induction_on with
  | _ place ih =>
      rcases long with rfl | long
      · rw [optimum_zero, pruned.zero]
      have room := pruned.room place long inside
      calc
        optimum cost penalty least place
            ≤ optimum cost penalty least (last place) + cost (last place) place + penalty :=
          optimum_le positive room
        _ ≤ best (last place) + cost (last place) place + penalty := by
          gcongr
          exact ih (last place) (by omega) (pruned.last_long place long inside) (by omega)
        _ = best place := (pruned.best_eq place long inside).symm

/-- A cut that passes the test against the least totals is kept by the table. -/
theorem best_le_of_kept (positive : 0 < least) {cut : ℕ} (long : cut = 0 ∨ least ≤ cut)
    (room : cut + least ≤ length) (cut_eq : best cut = optimum cost penalty least cut)
    (kept : Kept cost penalty least (optimum cost penalty least) cut length) :
    best length ≤ optimum cost penalty least cut + cost cut length + penalty := by
  rw [← cut_eq]
  refine pruned.best_le cut length long room le_rfl fun place after before place_long => ?_
  calc
    best cut + cost cut place + penalty
        = optimum cost penalty least cut + cost cut place + penalty := by rw [cut_eq]
    _ ≤ optimum cost penalty least place := kept place after before place_long
    _ ≤ best place := pruned.optimum_le_best positive (.inr place_long) before.le

end Pruned

section Ordered

variable [IsOrderedAddMonoid K]

/-- A front of a cut of least total has the least total. -/
theorem Unpruned.front (positive : 0 < least) {cuts : List ℕ} {cut : ℕ}
    (unpruned : Unpruned cost penalty least length (cuts ++ [cut])) :
    Unpruned cost penalty least cut cuts := by
  obtain ⟨front, room⟩ := admissible_concat.mp unpruned.admissible
  refine ⟨front, le_antisymm (optimum_le_total positive front) ?_, ?_⟩
  · have step : optimum cost penalty least length ≤
        optimum cost penalty least cut + cost cut length + penalty := optimum_le positive room
    rw [unpruned.total_eq, total_concat, WithTop.coe_add, WithTop.coe_add] at step
    have finite (value : K) : (value : WithTop K) ≠ ⊤ := WithTop.coe_ne_top
    exact WithTop.le_of_add_le_add_right (finite _)
      (WithTop.le_of_add_le_add_right (finite _) step)
  · intro piece member
    refine unpruned.kept piece ?_
    rw [pieces_concat]
    exact List.mem_append_left _ member

/-- Cuts that are never left out are found. -/
theorem Unpruned.best_eq (positive : 0 < least) {best : ℕ → WithTop K} {last : ℕ → ℕ}
    (pruned : Pruned cost penalty least length best last) {cuts : List ℕ}
    (unpruned : Unpruned cost penalty least length cuts) :
    best length = optimum cost penalty least length := by
  induction cuts using List.reverseRecOn generalizing length with
  | nil =>
      have room : 0 + least ≤ length := by simpa using unpruned.admissible
      have kept := unpruned.kept (0, length) (by simp)
      refine le_antisymm ?_ (pruned.optimum_le_best positive (.inr unpruned.admissible.le) le_rfl)
      calc
        best length ≤ optimum cost penalty least 0 + cost 0 length + penalty :=
          pruned.best_le_of_kept positive (.inl rfl) room (by rw [pruned.zero, optimum_zero]) kept
        _ = optimum cost penalty least length := by
          rw [optimum_zero, free_add_penalty, unpruned.total_eq, total_nil]
  | append_singleton cuts cut ih =>
      obtain ⟨front, room⟩ := admissible_concat.mp unpruned.admissible
      have kept := unpruned.kept (cut, length) (by simp [pieces_concat])
      have cut_eq := ih (pruned.mono (by omega)) (unpruned.front positive)
      refine le_antisymm ?_ (pruned.optimum_le_best positive (.inr unpruned.admissible.le) le_rfl)
      calc
        best length ≤ optimum cost penalty least cut + cost cut length + penalty :=
          pruned.best_le_of_kept positive (.inr front.le) room cut_eq kept
        _ = optimum cost penalty least length := by
          rw [(unpruned.front positive).total_eq, unpruned.total_eq, total_concat]
          norm_cast

end Ordered

end OptimalCuts

end Roko
