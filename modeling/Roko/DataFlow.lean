import Roko.DependencyGraph

/-!
# Data flow over a dependency relation

Each node of a flow turns the outputs of its parents into outputs of its own, or fails.  A
node is run when all its parents are complete, and is skipped otherwise.  The outcomes of
the nodes are the solution of these equations, which can be computed along any order that
lists every node after its parents.
-/

namespace DataFlow

open DependencyGraph

/-- What becomes of a node: it was run on an input, or it was skipped. -/
inductive Outcome (Value Failure : Type*)
  | complete (input output : List Value)
  | failed (input : List Value) (failure : Failure)
  | skipped

variable {Node Value Failure : Type*}

namespace Outcome

def isComplete : Outcome Value Failure → Bool
  | complete _ _ => true
  | failed _ _ | skipped => false

def isFailed : Outcome Value Failure → Bool
  | failed _ _ => true
  | complete _ _ | skipped => false

def output : Outcome Value Failure → List Value
  | complete _ output => output
  | failed _ _ | skipped => []

def output? : Outcome Value Failure → Option (List Value)
  | complete _ output => some output
  | failed _ _ | skipped => none

/-- The input the node was run on. -/
def input? : Outcome Value Failure → Option (List Value)
  | complete input _ | failed input _ => some input
  | skipped => none

theorem getD_output? (outcome : Outcome Value Failure) :
    outcome.output?.getD [] = outcome.output := by
  cases outcome <;> rfl

end Outcome

/-- The parents of every node, a node once for each edge, and what every node does with its
inputs. -/
structure Flow (Node Value Failure : Type*) where
  parents : Node → List Node
  cell : Node → List Value → Except Failure (List Value)

namespace Flow

variable (flow : Flow Node Value Failure)

def Needs (node dep : Node) : Prop :=
  dep ∈ flow.parents node

def run (node : Node) (input : List Value) : Outcome Value Failure :=
  match flow.cell node input with
  | .ok output => .complete input output
  | .error failure => .failed input failure

def inputs (outcome : Node → Outcome Value Failure) (node : Node) : List Value :=
  (flow.parents node).flatMap fun parent => (outcome parent).output

def evaluate (outcome : Node → Outcome Value Failure) (node : Node) :
    Outcome Value Failure :=
  if (flow.parents node).all fun parent => (outcome parent).isComplete then
    flow.run node (flow.inputs outcome node)
  else .skipped

/-- The outcomes of the nodes satisfy the equations of the flow. -/
def Solves (nodes : List Node) (outcome : Node → Outcome Value Failure) : Prop :=
  ∀ node ∈ nodes, outcome node = flow.evaluate outcome node

/-- The outcomes along an order. -/
def solve [DecidableEq Node] (order : List Node) : Node → Outcome Value Failure :=
  order.foldl (fun outcome node => Function.update outcome node (flow.evaluate outcome node))
    fun _ => .skipped

variable {flow}

theorem run_ne_skipped (node : Node) (input : List Value) : flow.run node input ≠ .skipped := by
  unfold run
  split <;> simp

theorem input?_run (node : Node) (input : List Value) :
    (flow.run node input).input? = some input := by
  unfold run
  split <;> rfl

theorem evaluate_of_complete {outcome : Node → Outcome Value Failure} {node : Node}
    (complete : ∀ parent ∈ flow.parents node, (outcome parent).isComplete) :
    flow.evaluate outcome node = flow.run node (flow.inputs outcome node) := by
  rw [evaluate, if_pos (List.all_eq_true.mpr complete)]

theorem evaluate_eq_skipped_iff {outcome : Node → Outcome Value Failure} {node : Node} :
    flow.evaluate outcome node = .skipped ↔
      ∃ parent ∈ flow.parents node, ¬ (outcome parent).isComplete := by
  constructor
  · intro skipped
    by_contra none
    push Not at none
    rw [evaluate_of_complete none] at skipped
    exact run_ne_skipped _ _ skipped
  · rintro ⟨parent, member, incomplete⟩
    rw [evaluate, if_neg]
    intro all
    exact incomplete (List.all_eq_true.mp all parent member)

theorem inputs_congr (flow : Flow Node Value Failure) {first second : Node → Outcome Value Failure} {node : Node}
    (agree : ∀ parent ∈ flow.parents node, first parent = second parent) :
    flow.inputs first node = flow.inputs second node := by
  apply List.flatMap_congr
  intro parent member
  rw [agree parent member]

theorem evaluate_congr {first second : Node → Outcome Value Failure} {node : Node}
    (agree : ∀ parent ∈ flow.parents node, first parent = second parent) :
    flow.evaluate first node = flow.evaluate second node := by
  have same : ((flow.parents node).all fun parent => (first parent).isComplete) =
      (flow.parents node).all fun parent => (second parent).isComplete := by
    rw [Bool.eq_iff_iff, List.all_eq_true, List.all_eq_true]
    constructor <;> intro all parent member
    · rw [← agree parent member]
      exact all parent member
    · rw [agree parent member]
      exact all parent member
  rw [evaluate, evaluate, same, inputs_congr flow agree]

theorem solve_append_singleton [DecidableEq Node] (order : List Node) (node : Node) :
    flow.solve (order ++ [node]) = Function.update (flow.solve order) node
      (flow.evaluate (flow.solve order) node) := by
  simp [solve, List.foldl_append]

theorem solve_append_of_ne [DecidableEq Node] (order : List Node) {last node : Node}
    (other : node ≠ last) : flow.solve (order ++ [last]) node = flow.solve order node := by
  rw [solve_append_singleton, Function.update_of_ne other]

theorem solve_of_notMem [DecidableEq Node] {order : List Node} {node : Node}
    (unlisted : node ∉ order) : flow.solve order node = .skipped := by
  induction order using List.reverseRecOn with
  | nil => rfl
  | append_singleton order last ih =>
      rw [List.mem_append, List.mem_singleton, not_or] at unlisted
      rw [solve_append_of_ne order unlisted.2]
      exact ih unlisted.1

/-- The outcomes along an order that lists every node after its parents solve the flow. -/
theorem solve_solves [DecidableEq Node] (flow : Flow Node Value Failure) {order : List Node}
    (nodup : order.Nodup)
    (ordered : Ordered flow.Needs order) : flow.Solves order (flow.solve order) := by
  induction order using List.reverseRecOn with
  | nil => simp [Solves]
  | append_singleton order last ih =>
      have fresh : last ∉ order := by
        rw [List.nodup_append_comm, List.singleton_append, List.nodup_cons] at nodup
        exact nodup.1
      have earlier := ih (List.nodup_append.mp nodup).1 ordered.of_append
      have unchanged : ∀ node ∈ order ++ [last], ∀ parent ∈ flow.parents node,
          flow.solve (order ++ [last]) parent = flow.solve order parent := by
        intro node member parent need
        apply solve_append_of_ne
        rintro rfl
        rcases List.mem_append.mp member with listed | isLast
        · exact fresh (ordered.of_append.mem_of_needs listed need)
        · rw [List.mem_singleton.mp isLast] at need
          exact fresh (ordered order _ [] rfl _ need)
      intro node member
      rw [evaluate_congr (unchanged node member)]
      by_cases isLast : node = last
      · rw [isLast, solve_append_singleton, Function.update_self]
      · rw [solve_append_of_ne _ isLast]
        rcases List.mem_append.mp member with listed | same
        · exact earlier node listed
        · exact absurd (List.mem_singleton.mp same) isLast

variable {nodes : List Node} {outcome : Node → Outcome Value Failure}

theorem wellFounded_needs (flow : Flow Node Value Failure) (acyclic : Acyclic flow.Needs)
    (closed : ∀ node dep, flow.Needs node dep → dep ∈ nodes) :
    WellFounded fun dep node => flow.Needs node dep :=
  acyclic.wellFounded nodes.finite_toSet closed

/-- A node is skipped exactly when some node it needs, directly or through others, failed. -/
theorem Solves.eq_skipped_iff (solves : flow.Solves nodes outcome)
    (acyclic : Acyclic flow.Needs)
    (closed : ∀ node dep, flow.Needs node dep → dep ∈ nodes) {node : Node}
    (listed : node ∈ nodes) :
    outcome node = .skipped ↔
      ∃ ancestor, Relation.TransGen flow.Needs node ancestor ∧
        (outcome ancestor).isFailed := by
  constructor
  · induction node using (wellFounded_needs flow acyclic closed).induction with
    | _ node ih =>
        intro skipped
        rw [solves node listed, evaluate_eq_skipped_iff] at skipped
        obtain ⟨parent, need, incomplete⟩ := skipped
        cases found : outcome parent with
        | complete input output => simp [found, Outcome.isComplete] at incomplete
        | failed input failure =>
            exact ⟨parent, .single need, by rw [found]; rfl⟩
        | skipped =>
            obtain ⟨ancestor, path, failed⟩ :=
              ih parent need (closed node parent need) found
            exact ⟨ancestor, .head need path, failed⟩
  · rintro ⟨ancestor, path, failed⟩
    have incomplete : ¬ (outcome ancestor).isComplete := by
      cases found : outcome ancestor <;>
        simp [found, Outcome.isFailed, Outcome.isComplete] at failed ⊢
    induction path using Relation.TransGen.head_induction_on with
    | single need =>
        rw [solves _ listed, evaluate_eq_skipped_iff]
        exact ⟨ancestor, need, incomplete⟩
    | head need _ ih =>
        have skipped := ih (closed _ _ need)
        rw [solves _ listed, evaluate_eq_skipped_iff]
        exact ⟨_, need, by simp [skipped, Outcome.isComplete]⟩

/-- Where no cell fails, every node is complete. -/
theorem Solves.complete_of_total (solves : flow.Solves nodes outcome)
    (acyclic : Acyclic flow.Needs)
    (closed : ∀ node dep, flow.Needs node dep → dep ∈ nodes)
    (output : List Value → List Value)
    (total : ∀ node ∈ nodes, ∀ input, flow.cell node input = .ok (output input))
    {node : Node} (listed : node ∈ nodes) :
    outcome node = .complete (flow.inputs outcome node)
      (output (flow.inputs outcome node)) := by
  induction node using (wellFounded_needs flow acyclic closed).induction with
  | _ node ih =>
      rw [solves node listed, evaluate_of_complete]
      · rw [run, total node listed]
      · intro parent need
        rw [ih parent need (closed node parent need)]
        rfl

/-- Only the cells of the listed nodes matter. -/
theorem Solves.of_cells (other : Flow Node Value Failure)
    (solves : flow.Solves nodes outcome) (parents : flow.parents = other.parents)
    (cells : ∀ node ∈ nodes, flow.cell node = other.cell node) :
    other.Solves nodes outcome := by
  intro node listed
  rw [solves node listed, evaluate, evaluate, run, run, inputs, inputs, parents,
    cells node listed]

/-- A flow in which every node adds a value to its inputs. -/
def growing (parents : Node → List Node) (value : Value) : Flow Node Value Failure :=
  ⟨parents, fun _ input => .ok (value :: input)⟩

/-- The same flow, in which inputs of the given length or longer are failures. -/
def limited (parents : Node → List Node) (value : Value) (limit : Nat) (failure : Failure) :
    Flow Node Value Failure :=
  ⟨parents, fun _ input =>
    if input.length < limit then .ok (value :: input) else .error failure⟩

/-- Where every node adds a value, the inputs of a node are longer than those of its
parents. -/
theorem length_inputs_lt {node parent : Node} {value : Value}
    (need : flow.Needs node parent)
    (grown : outcome parent = .complete (flow.inputs outcome parent)
      (value :: flow.inputs outcome parent)) :
    (flow.inputs outcome parent).length < (flow.inputs outcome node).length := by
  have part : (outcome parent).output.length ≤ (flow.inputs outcome node).length := by
    rw [inputs, List.flatMap_def]
    apply List.Sublist.length_le
    apply List.sublist_flatten_of_mem
    exact List.mem_map.mpr ⟨parent, need, rfl⟩
  rw [grown, Outcome.output, List.length_cons] at part
  omega

/-- Every node can be the first to fail, under one behaviour shared by all nodes. -/
theorem exists_first_failure [DecidableEq Node] (parents : Node → List Node)
    (value : Value) (failure : Failure) {order : List Node} (nodup : order.Nodup)
    (ordered : Ordered (fun node dep => dep ∈ parents node) order)
    (acyclic : Acyclic fun node dep => dep ∈ parents node)
    (closed : ∀ node dep, dep ∈ parents node → dep ∈ order)
    {node : Node} (listed : node ∈ order) :
    ∃ limit, ∀ outcome, (limited parents value limit failure).Solves order outcome →
      (outcome node).isFailed := by
  let grow : Flow Node Value Failure := growing parents value
  let grown := grow.solve order
  have complete : ∀ other ∈ order, grown other =
      .complete (grow.inputs grown other) (value :: grow.inputs grown other) :=
    fun other member => (solve_solves grow nodup ordered).complete_of_total
      acyclic closed _ (fun _ _ _ => rfl) member
  let limit := (grow.inputs grown node).length
  refine ⟨limit, ?_⟩
  intro outcome solves
  let flow : Flow Node Value Failure := limited parents value limit failure
  have inputsEq : ∀ other, (∀ parent ∈ parents other, outcome parent = grown parent) →
      flow.inputs outcome other = grow.inputs grown other :=
    fun other agree => inputs_congr flow agree
  have shorter : ∀ other, ∀ parent ∈ parents other,
      (grow.inputs grown parent).length < (grow.inputs grown other).length :=
    fun other parent need =>
      length_inputs_lt need (complete parent (closed other parent need))
  have runs : ∀ other ∈ order, (∀ parent ∈ parents other, outcome parent = grown parent) →
      outcome other = flow.run other (grow.inputs grown other) := by
    intro other member agree
    rw [solves other member, evaluate_of_complete, inputsEq other agree]
    intro parent need
    rw [agree parent need, complete parent (closed other parent need)]
    rfl
  -- the nodes with shorter inputs do what they do where nothing fails
  have same : ∀ other ∈ order, (grow.inputs grown other).length < limit →
      outcome other = grown other := by
    intro other
    induction other using (wellFounded_needs grow acyclic closed).induction with
    | _ other ih =>
        intro member short
        rw [runs other member, complete other member]
        · simp [flow, limited, run, short]
        · intro parent need
          have below := shorter other parent need
          exact ih parent need (closed other parent need) (below.trans short)
  rw [runs node listed]
  · simp [flow, limited, run, limit, Outcome.isFailed]
  · intro parent need
    exact same parent (closed node parent need) (shorter node parent need)

end Flow

end DataFlow
