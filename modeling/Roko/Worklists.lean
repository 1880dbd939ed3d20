import Mathlib.Algebra.BigOperators.Group.List.Basic
import Mathlib.Algebra.GroupWithZero.Nat

/-!
# Worklists

A loop takes nodes off a queue.  A node whose label is open gets a closing label, and its
children are appended to the queue; other nodes are dropped.  When the queue is empty, no
node that was on it is open, and no child of a node that the loop has closed.
-/

namespace Worklists

variable {Node Label : Type*} [DecidableEq Node]

def closeFrom (children : Node → List Node) (isOpen : Label → Bool) (closing : Label) :
    Nat → List Node → (Node → Label) → Node → Label
  | 0, _, label => label
  | _ + 1, [], label => label
  | turns + 1, node :: queue, label =>
      if isOpen (label node) then
        closeFrom children isOpen closing turns (queue ++ children node)
          (Function.update label node closing)
      else closeFrom children isOpen closing turns queue label

/-- The children that the open nodes of a list can still append. -/
def owed (children : Node → List Node) (isOpen : Label → Bool) (label : Node → Label)
    (nodes : List Node) : Nat :=
  (nodes.map fun node => if isOpen (label node) then (children node).length else 0).sum

variable {children : Node → List Node} {isOpen : Label → Bool} {closing : Label}

/-- What is open after a node was closed was open before. -/
theorem isOpen_of_update (closes : isOpen closing = false) {label : Node → Label}
    {head node : Node} (opened : isOpen (Function.update label head closing node) = true) :
    isOpen (label node) = true := by
  by_cases same : node = head
  · rw [same, Function.update_self, closes] at opened
    cases opened
  · rwa [Function.update_of_ne same] at opened

theorem owed_update_le (closes : isOpen closing = false) (label : Node → Label) (node : Node)
    (nodes : List Node) :
    owed children isOpen (Function.update label node closing) nodes ≤
      owed children isOpen label nodes := by
  induction nodes with
  | nil => simp [owed]
  | cons head nodes ih =>
      simp only [owed, List.map_cons, List.sum_cons] at ih ⊢
      by_cases same : head = node
      · subst same
        simp only [Function.update_self, closes, Bool.false_eq_true, ↓reduceIte]
        omega
      · simp only [Function.update_of_ne same]
        omega

/-- A closed node appends nothing any more. -/
theorem owed_update_add_le (closes : isOpen closing = false) {label : Node → Label}
    {node : Node} (opened : isOpen (label node) = true) {nodes : List Node}
    (listed : node ∈ nodes) :
    owed children isOpen (Function.update label node closing) nodes +
        (children node).length ≤ owed children isOpen label nodes := by
  induction nodes with
  | nil => cases listed
  | cons head nodes ih =>
      have rest : owed children isOpen (Function.update label node closing) nodes ≤
          owed children isOpen label nodes := owed_update_le closes label node nodes
      by_cases same : head = node
      · subst same
        simp only [owed, List.map_cons, List.sum_cons, Function.update_self, closes, opened,
          Bool.false_eq_true, ↓reduceIte] at rest ⊢
        omega
      · have later := ih ((List.mem_cons.mp listed).resolve_left (Ne.symm same))
        simp only [owed, List.map_cons, List.sum_cons, Function.update_of_ne same] at later ⊢
        omega

/-- The loop closes open nodes and changes nothing else. -/
theorem closeFrom_eq_or (turns : Nat) (queue : List Node) (label : Node → Label)
    (node : Node) :
    closeFrom children isOpen closing turns queue label node = label node ∨
      isOpen (label node) = true ∧
        closeFrom children isOpen closing turns queue label node = closing := by
  induction turns generalizing queue label with
  | zero => exact Or.inl rfl
  | succ turns ih =>
      cases queue with
      | nil => exact Or.inl rfl
      | cons head queue =>
          unfold closeFrom
          by_cases opened : isOpen (label head) = true
          · rw [if_pos opened]
            have rest := ih (queue ++ children head) (Function.update label head closing)
            by_cases same : node = head
            · subst same
              rw [Function.update_self] at rest
              exact Or.inr ⟨opened, rest.elim id And.right⟩
            · rwa [Function.update_of_ne same] at rest
          · rw [if_neg opened]
            exact ih queue label

/-- A node that is not open keeps its label. -/
theorem closeFrom_of_closed (turns : Nat) (queue : List Node) {label : Node → Label}
    {node : Node} (closed : isOpen (label node) = false) :
    closeFrom children isOpen closing turns queue label node = label node := by
  rcases closeFrom_eq_or turns queue label node with same | ⟨opened, -⟩
  · exact same
  · rw [closed] at opened
    cases opened

/-- A node that the loop closes was on the queue, or is a child of another closed node. -/
theorem closeFrom_origin (turns : Nat) {queue : List Node}
    {label : Node → Label} {node : Node} (opened : isOpen (label node) = true)
    (closed : isOpen (closeFrom children isOpen closing turns queue label node) = false) :
    node ∈ queue ∨ ∃ parent, isOpen (label parent) = true ∧ node ∈ children parent := by
  induction turns generalizing queue label with
  | zero =>
      rw [closeFrom, opened] at closed
      cases closed
  | succ turns ih =>
      cases queue with
      | nil =>
          rw [closeFrom, opened] at closed
          cases closed
      | cons head queue =>
          unfold closeFrom at closed
          by_cases same : node = head
          · exact Or.inl (same ▸ List.mem_cons_self)
          · by_cases headOpened : isOpen (label head) = true
            · rw [if_pos headOpened] at closed
              have stillOpened : isOpen (Function.update label head closing node) = true := by
                rwa [Function.update_of_ne same]
              rcases ih stillOpened closed with queued | ⟨parent, parentOpened, edge⟩
              · rcases List.mem_append.mp queued with earlier | child
                · exact Or.inl (List.mem_cons_of_mem _ earlier)
                · exact Or.inr ⟨head, headOpened, child⟩
              · refine Or.inr ⟨parent, ?_, edge⟩
                by_cases isHead : parent = head
                · rwa [isHead]
                · rwa [Function.update_of_ne isHead] at parentOpened
            · rw [if_neg headOpened] at closed
              rcases ih opened closed with queued | child
              · exact Or.inl (List.mem_cons_of_mem _ queued)
              · exact Or.inr child

/-- With enough turns the queue runs empty: its nodes are not open, and neither are the
children of the nodes that were closed. -/
theorem closeFrom_settled (children : Node → List Node) (closes : isOpen closing = false)
    (nodes : List Node) {turns : Nat} {queue : List Node} {label : Node → Label}
    (listed : ∀ node, isOpen (label node) = true → node ∈ nodes)
    (enough : queue.length + owed children isOpen label nodes ≤ turns) :
    (∀ node ∈ queue,
        isOpen (closeFrom children isOpen closing turns queue label node) = false) ∧
      ∀ node, isOpen (label node) = true →
        isOpen (closeFrom children isOpen closing turns queue label node) = false →
        ∀ child ∈ children node,
          isOpen (closeFrom children isOpen closing turns queue label child) = false := by
  induction turns generalizing queue label with
  | zero =>
      have empty : queue = [] := List.length_eq_zero_iff.mp (by omega)
      subst empty
      simp +contextual [closeFrom]
  | succ turns ih =>
      cases queue with
      | nil => simp +contextual [closeFrom]
      | cons head queue =>
          rw [List.length_cons] at enough
          unfold closeFrom
          by_cases opened : isOpen (label head) = true
          · rw [if_pos opened]
            have budget : (queue ++ children head).length +
                owed children isOpen (Function.update label head closing) nodes ≤ turns := by
              have paid : owed children isOpen (Function.update label head closing) nodes +
                  (children head).length ≤ owed children isOpen label nodes :=
                owed_update_add_le closes opened (listed head opened)
              rw [List.length_append]
              omega
            obtain ⟨settled, spread⟩ :=
              ih (fun node still => listed node (isOpen_of_update closes still)) budget
            have headClosed : isOpen (Function.update label head closing head) = false := by
              rw [Function.update_self, closes]
            constructor
            · intro node member
              rcases List.mem_cons.mp member with rfl | later
              · rw [closeFrom_of_closed turns _ headClosed]
                exact headClosed
              · exact settled node (List.mem_append_left _ later)
            · intro node before after child edge
              by_cases same : node = head
              · subst same
                exact settled child (List.mem_append_right _ edge)
              · exact spread node (by rwa [Function.update_of_ne same]) after child edge
          · rw [if_neg opened]
            have closed : isOpen (label head) = false := by simpa using opened
            have budget : queue.length + owed children isOpen label nodes ≤ turns := by
              omega
            obtain ⟨settled, spread⟩ := ih listed budget
            refine ⟨?_, spread⟩
            intro node member
            rcases List.mem_cons.mp member with rfl | later
            · rwa [closeFrom_of_closed turns queue closed]
            · exact settled node later

end Worklists
