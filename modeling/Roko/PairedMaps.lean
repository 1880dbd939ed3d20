import Mathlib.Algebra.Notation.Defs
import Mathlib.Logic.Function.Basic

/-!
# Pairs of maps that are inverse to each other

Each of two maps with a default value undoes the other where it has another value.  A
new pair may be linked where neither side has a partner, and a pair may be unlinked.
-/

namespace PairedMaps

variable {Key Value : Type*} [Zero Key] [Zero Value] {value : Key → Value}
  {key : Value → Key}

/-- Away from their defaults the maps are inverse to each other. -/
def Inverse (value : Key → Value) (key : Value → Key) : Prop :=
  ∀ k v, value k = v ∧ v ≠ 0 ↔ key v = k ∧ k ≠ 0

variable [DecidableEq Key] [DecidableEq Value]

theorem Inverse.link (inverse : Inverse value key) {k : Key} {v : Value}
    (freeKey : value k = 0) (freeValue : key v = 0) (realKey : k ≠ 0) (realValue : v ≠ 0) :
    Inverse (Function.update value k v) (Function.update key v k) := by
  intro other image
  have before := inverse other image
  by_cases isKey : other = k
  · subst isKey
    rw [Function.update_self]
    by_cases isValue : image = v
    · subst isValue
      rw [Function.update_self]
      exact iff_of_true ⟨rfl, realValue⟩ ⟨rfl, realKey⟩
    · rw [Function.update_of_ne isValue, ← before, freeKey]
      refine iff_of_false (fun linked => isValue linked.1.symm) ?_
      exact fun none => none.2 none.1.symm
  · rw [Function.update_of_ne isKey]
    by_cases isValue : image = v
    · subst isValue
      rw [Function.update_self, before, freeValue]
      refine iff_of_false (fun none => none.2 none.1.symm) ?_
      exact fun linked => isKey linked.1.symm
    · rw [Function.update_of_ne isValue]
      exact before

theorem Inverse.unlink (inverse : Inverse value key) {k : Key} (live : value k ≠ 0) :
    Inverse (Function.update value k 0) (Function.update key (value k) 0) := by
  obtain ⟨held, -⟩ := (inverse k _).mp ⟨rfl, live⟩
  intro other image
  have before := inverse other image
  by_cases isKey : other = k
  · subst isKey
    rw [Function.update_self]
    refine iff_of_false (fun none => none.2 none.1.symm) ?_
    by_cases isValue : image = value other
    · rw [isValue, Function.update_self]
      exact fun none => none.2 none.1.symm
    · rw [Function.update_of_ne isValue, ← before]
      exact fun linked => isValue linked.1.symm
  · rw [Function.update_of_ne isKey]
    by_cases isValue : image = value k
    · rw [isValue, Function.update_self, ← isValue, before, isValue, held]
      refine iff_of_false (fun linked => isKey linked.1.symm) ?_
      exact fun none => none.2 none.1.symm
    · rw [Function.update_of_ne isValue]
      exact before

end PairedMaps
