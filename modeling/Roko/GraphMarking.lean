import Mathlib.Data.List.Basic
import Std.Data.ExtTreeSet

/-!
# Marking a graph from a stack

A depth-first search takes a node off the stack, skips it when it is marked, and
otherwise marks it and pushes its children.  Some nodes stop the search: they are
marked, but their children are not pushed.  The search marks what can be reached
from the stack over nodes that were not marked before and do not stop it.
-/

namespace GraphMarking

variable {Node : Type}

/-- The nodes that the search visits. -/
inductive Reached (children : Node → List Node) (stops : Node → Bool)
    (marked : Node → Prop) (roots : List Node) : Node → Prop
  | root {node : Node} (listed : node ∈ roots) :
      Reached children stops marked roots node
  | child {node next : Node} (reached : Reached children stops marked roots node)
      (fresh : ¬ marked node) (passes : stops node = false)
      (edge : next ∈ children node) : Reached children stops marked roots next

variable {children : Node → List Node} {stops : Node → Bool}

theorem not_reached_nil {marked : Node → Prop} (node : Node) :
    ¬ Reached children stops marked [] node := by
  intro reached
  induction reached with
  | root listed => cases listed
  | child _ _ _ _ ih => exact ih

/-- What two searches one after the other visit. -/
theorem reached_append (first : List Node) {marked after : Node → Prop}
    {second : List Node}
    (searched : ∀ node, after node ↔
      marked node ∨ Reached children stops marked first node) (node : Node) :
    after node ∨ Reached children stops after second node ↔
      marked node ∨ Reached children stops marked (first ++ second) node := by
  have left : ∀ node, Reached children stops marked first node →
      Reached children stops marked (first ++ second) node := by
    intro node reached
    induction reached with
    | root listed => exact .root (List.mem_append_left _ listed)
    | child _ fresh passes edge ih => exact .child ih fresh passes edge
  constructor
  · rintro (done | reached)
    · exact ((searched node).mp done).imp id (left node)
    · right
      induction reached with
      | root listed => exact .root (List.mem_append_right _ listed)
      | child _ fresh passes edge ih =>
          exact .child ih (fun old => fresh ((searched _).mpr (Or.inl old))) passes edge
  · rintro (old | reached)
    · exact Or.inl ((searched node).mpr (Or.inl old))
    · induction reached with
      | root listed =>
          rcases List.mem_append.mp listed with early | late
          · exact Or.inl ((searched _).mpr (Or.inr (.root early)))
          · exact Or.inr (.root late)
      | @child node next _ fresh passes edge ih =>
          by_cases done : after node
          · rcases (searched node).mp done with old | reached
            · exact absurd old fresh
            · exact Or.inl ((searched next).mpr
                (Or.inr (.child reached fresh passes edge)))
          · exact Or.inr (.child (ih.resolve_left done) done passes edge)

/-- Visiting a fresh node that does not stop the search replaces it by its
children. -/
theorem reached_expand {marked : Node → Prop} {node : Node} {stack : List Node}
    (fresh : ¬ marked node) (passes : stops node = false) (target : Node) :
    (target = node ∨ marked target) ∨
        Reached children stops (fun other => other = node ∨ marked other)
          ((children node).reverse ++ stack) target ↔
      marked target ∨ Reached children stops marked (node :: stack) target := by
  constructor
  · rintro ((rfl | old) | reached)
    · exact Or.inr (.root List.mem_cons_self)
    · exact Or.inl old
    · right
      induction reached with
      | root listed =>
          rcases List.mem_append.mp listed with child | later
          · exact .child (.root List.mem_cons_self) fresh passes
              (List.mem_reverse.mp child)
          · exact .root (List.mem_cons_of_mem _ later)
      | child _ later passes edge ih =>
          exact .child ih (fun old => later (Or.inr old)) passes edge
  · rintro (old | reached)
    · exact Or.inl (Or.inr old)
    · induction reached with
      | root listed =>
          rcases List.mem_cons.mp listed with rfl | later
          · exact Or.inl (Or.inl rfl)
          · exact Or.inr (.root (List.mem_append_right _ later))
      | @child visited next _ unmarked passes edge ih =>
          by_cases same : visited = node
          · subst same
            exact Or.inr (.root (List.mem_append_left _ (List.mem_reverse.mpr edge)))
          · have left : ¬ (visited = node ∨ marked visited) :=
              not_or.mpr ⟨same, unmarked⟩
            exact Or.inr (.child (ih.resolve_left left) left passes edge)

/-- A root that is marked or stops the search has no children to visit. -/
theorem reached_drop {marked after : Node → Prop} {node : Node}
    {stack : List Node} (blocked : marked node ∨ stops node = true)
    (done : ∀ other, after other ↔ other = node ∨ marked other) (target : Node) :
    after target ∨ Reached children stops after stack target ↔
      marked target ∨ Reached children stops marked (node :: stack) target := by
  apply reached_append [node]
  intro other
  rw [done]
  constructor
  · rintro (rfl | old)
    · exact Or.inr (.root List.mem_cons_self)
    · exact Or.inl old
  · rintro (old | reached)
    · exact Or.inr old
    · induction reached with
      | root listed => exact Or.inl (List.mem_singleton.mp listed)
      | child _ fresh passes _ ih =>
          have same := ih.resolve_right fresh
          rw [same] at fresh passes
          rw [passes] at blocked
          exact absurd (blocked.resolve_right (by simp)) fresh

variable [Ord Node] [Std.TransOrd Node]

/-- The search.  The top of the stack is the head of the list. -/
def markFrom (children : Node → List Node) (stops : Node → Bool) :
    Nat → List Node → Std.ExtTreeSet Node → Std.ExtTreeSet Node
  | 0, _, marked => marked
  | _ + 1, [], marked => marked
  | fuel + 1, node :: stack, marked =>
      if marked.contains node then markFrom children stops fuel stack marked
      else if stops node then
        markFrom children stops fuel stack (marked.insert node)
      else
        markFrom children stops fuel ((children node).reverse ++ stack)
          (marked.insert node)

/-- The children that the unmarked nodes of the list can still push. -/
def pushes (children : Node → List Node) (marked : Std.ExtTreeSet Node) :
    List Node → Nat
  | [] => 0
  | node :: nodes =>
      (if marked.contains node then 0 else (children node).length) +
        pushes children marked nodes

theorem pushes_insert_le (children : Node → List Node)
    (marked : Std.ExtTreeSet Node) (node : Node) (nodes : List Node) :
    pushes children (marked.insert node) nodes ≤ pushes children marked nodes := by
  induction nodes with
  | nil => exact Nat.le_refl 0
  | cons head nodes ih =>
      unfold pushes
      by_cases old : marked.contains head = true
      · simp [old, ih]
      · by_cases inserted : (marked.insert node).contains head = true
        · simp only [inserted, old, ↓reduceIte]
          omega
        · simp only [inserted, old]
          omega

/-- A marked node pushes nothing any more. -/
theorem pushes_insert_of_mem (children : Node → List Node)
    {marked : Std.ExtTreeSet Node} {node : Node} {nodes : List Node}
    (listed : node ∈ nodes) (fresh : node ∉ marked) :
    pushes children (marked.insert node) nodes + (children node).length ≤
      pushes children marked nodes := by
  induction nodes with
  | nil => cases listed
  | cons head nodes ih =>
      rcases List.mem_cons.mp listed with rfl | later
      · have rest := pushes_insert_le children marked node nodes
        simp only [pushes, Std.ExtTreeSet.contains_insert_self, fresh,
          Std.ExtTreeSet.contains_iff_mem, ↓reduceIte]
        omega
      · have rest := ih later
        have kept := pushes_insert_le children marked node [head]
        simp only [pushes, Nat.add_zero] at kept ⊢
        omega

variable [Std.LawfulEqOrd Node]

/-- With enough turns the search marks exactly the nodes it can reach.  A node
with children is one of the listed nodes, and each turn takes a node off the
stack. -/
theorem mem_markFrom_iff (children : Node → List Node) (stops : Node → Bool)
    (nodes : List Node) (listed : ∀ node, node ∉ nodes → children node = [])
    {fuel : Nat} {stack : List Node} {marked : Std.ExtTreeSet Node}
    (enough : stack.length + pushes children marked nodes ≤ fuel) (target : Node) :
    target ∈ markFrom children stops fuel stack marked ↔
      target ∈ marked ∨ Reached children stops (· ∈ marked) stack target := by
  induction fuel generalizing stack marked with
  | zero =>
      have empty : stack = [] := List.length_eq_zero_iff.mp (by omega)
      subst empty
      simp [markFrom, not_reached_nil]
  | succ fuel ih =>
      cases stack with
      | nil => simp [markFrom, not_reached_nil]
      | cons node stack =>
          rw [List.length_cons] at enough
          have inserted : ∀ other, other ∈ marked.insert node ↔
              other = node ∨ other ∈ marked := by
            intro other
            rw [Std.ExtTreeSet.mem_insert, Std.LawfulEqCmp.compare_eq_iff_eq,
              eq_comm]
          unfold markFrom
          by_cases old : node ∈ marked
          · rw [if_pos (Std.ExtTreeSet.contains_iff_mem.mpr old), ih (by omega)]
            apply reached_drop (Or.inl old)
            intro other
            exact ⟨Or.inr, fun either => either.elim (fun same => same ▸ old) id⟩
          · rw [if_neg (by simpa using old)]
            have fewer := pushes_insert_le children marked node nodes
            by_cases stopped : stops node = true
            · rw [if_pos stopped, ih (by omega)]
              exact reached_drop (Or.inr stopped) inserted target
            · rw [if_neg stopped, ih, inserted]
              · simp only [inserted]
                exact reached_expand old (by simpa using stopped) target
              · rw [List.length_append, List.length_reverse]
                by_cases member : node ∈ nodes
                · have paid := pushes_insert_of_mem children member old
                  omega
                · rw [listed node member, List.length_nil]
                  omega

end GraphMarking
