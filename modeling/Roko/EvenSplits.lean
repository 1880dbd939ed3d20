import Mathlib.Algebra.BigOperators.Group.List.Basic
import Mathlib.Algebra.GroupWithZero.Nat

/-!
# Even splits

A total is split into a number of shares that differ by at most one.  The remainder of
the division goes to the first shares, one each.
-/

namespace EvenSplit

def share (total parts index : Nat) : Nat :=
  if index < total % parts then total / parts + 1 else total / parts

variable {total parts : Nat}

theorem share_mono {first second : Nat} (order : first ≤ second) :
    share total parts second ≤ share total parts first := by
  unfold share
  split <;> split <;> omega

theorem share_le_succ (first second : Nat) :
    share total parts first ≤ share total parts second + 1 := by
  unfold share
  split <;> split <;> omega

/-- The first shares get a part of the remainder each. -/
theorem sum_range_share (count : Nat) :
    ((List.range count).map (share total parts)).sum =
      count * (total / parts) + min count (total % parts) := by
  induction count with
  | zero => simp
  | succ count ih =>
      rw [List.range_succ, List.map_append, List.sum_append, ih, List.map_singleton,
        List.sum_singleton, share, Nat.add_one_mul]
      split <;> omega

/-- Nothing is lost in the division. -/
theorem sum_share (some : 0 < parts) :
    ((List.range parts).map (share total parts)).sum = total := by
  have less := Nat.mod_lt total some
  rw [sum_range_share, Nat.min_eq_right (Nat.le_of_lt less), Nat.div_add_mod]

/-- A share that gets a part of the remainder is within the total. -/
theorem succ_le_total (some : 0 < parts) {index : Nat} (first : index < total % parts) :
    total / parts + 1 ≤ total := by
  have whole := Nat.div_add_mod total parts
  have part : total / parts ≤ parts * (total / parts) := Nat.le_mul_of_pos_left _ some
  omega

variable {Recipient : Type*}

/-- The shares of a list of recipients, in their order. -/
def payments (total : Nat) (recipients : List Recipient) : List (Recipient × Nat) :=
  recipients.zipIdx.map fun entry => (entry.1, share total recipients.length entry.2)

theorem map_fst_payments (total : Nat) (recipients : List Recipient) :
    (payments total recipients).map Prod.fst = recipients := by
  simp [payments, Function.comp_def]

theorem map_snd_payments (total : Nat) (recipients : List Recipient) :
    (payments total recipients).map Prod.snd =
      (List.range recipients.length).map (share total recipients.length) := by
  rw [payments, List.map_map, List.range_eq_range', ← List.zipIdx_map_snd 0 recipients,
    List.map_map]
  rfl

theorem sum_payments (total : Nat) {recipients : List Recipient} (some : recipients ≠ []) :
    ((payments total recipients).map Prod.snd).sum = total := by
  rw [map_snd_payments, sum_share (List.length_pos_iff.mpr some)]

/-- Later payments are at most one smaller, and not larger. -/
theorem pairwise_payments (total : Nat) (recipients : List Recipient) :
    ((payments total recipients).map Prod.snd).Pairwise
      fun first second => second ≤ first ∧ first ≤ second + 1 := by
  rw [map_snd_payments, List.pairwise_map]
  refine List.pairwise_lt_range.imp fun order => ?_
  exact ⟨share_mono (Nat.le_of_lt order), share_le_succ _ _⟩

end EvenSplit
