import Mathlib.Algebra.Ring.Nat
import Roko.DependencyGraph

/-!
# Longest weighted chains

A node starts after the heaviest chain of dependencies that ends just before it.  Read
against the dependencies, the same number says what is left after a node.  The heaviest
of all chains is then the heaviest one through some node, and exactly the nodes on such
a chain have no slack.
-/

namespace WeightedChains

variable {Node : Type*}

/-- Every node of the list is needed by the one after it. -/
def Chained (needs : Node → Node → Prop) (chain : List Node) : Prop :=
  chain.IsChain fun dep node => needs node dep

def total (weight : Node → Nat) (chain : List Node) : Nat :=
  (chain.map weight).sum

/-- The totals of the chains that end just before the node. -/
def TotalsBefore (needs : Node → Node → Prop) (weight : Node → Nat) (node : Node) :
    Set Nat :=
  {sum | ∃ chain, Chained needs (chain ++ [node]) ∧ total weight chain = sum}

/-- The totals of the chains of the given nodes. -/
def Totals (needs : Node → Node → Prop) (weight : Node → Nat) (nodes : List Node) :
    Set Nat :=
  {sum | ∃ chain, Chained needs chain ∧ (∀ node ∈ chain, node ∈ nodes) ∧
    total weight chain = sum}

/-- The greatest total of the chains that end just before the node. -/
noncomputable def start (needs : Node → Node → Prop) (weight : Node → Nat)
    (node : Node) : Nat :=
  sSup (TotalsBefore needs weight node)

def HasStart (needs : Node → Node → Prop) (weight : Node → Nat) (node : Node) : Prop :=
  IsGreatest (TotalsBefore needs weight node) (start needs weight node)

/-- The greatest total of the chains that begin just after the node. -/
noncomputable def rest (needs : Node → Node → Prop) (weight : Node → Nat)
    (node : Node) : Nat :=
  start (fun dep node => needs node dep) weight node

variable {needs : Node → Node → Prop} {weight : Node → Nat}

@[simp]
theorem total_nil : total weight [] = 0 :=
  rfl

@[simp]
theorem total_cons (node : Node) (chain : List Node) :
    total weight (node :: chain) = weight node + total weight chain :=
  rfl

@[simp]
theorem total_append (first second : List Node) :
    total weight (first ++ second) = total weight first + total weight second := by
  simp [total]

@[simp]
theorem total_reverse (chain : List Node) :
    total weight chain.reverse = total weight chain := by
  simp [total, List.sum_reverse]

theorem chained_concat_concat {chain : List Node} {dep node : Node} :
    Chained needs (chain ++ [dep] ++ [node]) ↔
      Chained needs (chain ++ [dep]) ∧ needs node dep := by
  unfold Chained
  rw [List.isChain_append]
  simp

theorem chained_split {first second : List Node} {node : Node} :
    Chained needs (first ++ node :: second) ↔
      Chained needs (first ++ [node]) ∧ Chained needs (node :: second) :=
  List.isChain_split

theorem chained_reverse {chain : List Node} :
    Chained (fun dep node => needs node dep) chain.reverse ↔ Chained needs chain :=
  List.isChain_reverse

theorem HasStart.of_isGreatest {node : Node} {sum : Nat}
    (greatest : IsGreatest (TotalsBefore needs weight node) sum) :
    HasStart needs weight node ∧ start needs weight node = sum := by
  have same : start needs weight node = sum := greatest.csSup_eq
  unfold HasStart
  rw [same]
  exact ⟨greatest, rfl⟩

/-- A chain that ends just before a node is empty or ends with something it needs. -/
theorem mem_totalsBefore_iff {node : Node} {sum : Nat} :
    sum ∈ TotalsBefore needs weight node ↔
      sum = 0 ∨ ∃ dep, needs node dep ∧ ∃ before ∈ TotalsBefore needs weight dep,
        sum = before + weight dep := by
  constructor
  · rintro ⟨chain, chained, rfl⟩
    rcases List.eq_nil_or_concat chain with rfl | ⟨before, dep, rfl⟩
    · exact Or.inl rfl
    · rw [List.concat_eq_append] at chained ⊢
      obtain ⟨chained, need⟩ := chained_concat_concat.mp chained
      exact Or.inr ⟨dep, need, _, ⟨before, chained, rfl⟩, by simp⟩
  · rintro (rfl | ⟨dep, need, -, ⟨before, chained, rfl⟩, rfl⟩)
    · exact ⟨[], List.isChain_singleton node, rfl⟩
    · exact ⟨before ++ [dep], chained_concat_concat.mpr ⟨chained, need⟩, by simp⟩

/-- The start of a node from the starts of what it needs. -/
theorem isGreatest_totalsBefore {node : Node} {deps : List Node}
    (listed : ∀ dep, needs node dep ↔ dep ∈ deps)
    (starts : ∀ dep ∈ deps, HasStart needs weight dep) :
    IsGreatest (TotalsBefore needs weight node)
      ((deps.map fun dep => start needs weight dep + weight dep).max?.getD 0) := by
  cases latest : (deps.map fun dep => start needs weight dep + weight dep).max? with
  | none =>
      have empty : deps = [] := by
        simpa [List.max?_eq_none_iff] using latest
      refine ⟨mem_totalsBefore_iff.mpr (Or.inl rfl), fun sum member => ?_⟩
      rcases mem_totalsBefore_iff.mp member with rfl | ⟨dep, need, -⟩
      · exact le_rfl
      · rw [listed, empty] at need
        cases need
  | some finish =>
      obtain ⟨member, greatest⟩ := List.max?_eq_some_iff.mp latest
      obtain ⟨dep, depListed, rfl⟩ := List.mem_map.mp member
      refine ⟨mem_totalsBefore_iff.mpr (Or.inr
        ⟨dep, (listed dep).mpr depListed, _, (starts dep depListed).1, rfl⟩), ?_⟩
      rintro sum member
      rcases mem_totalsBefore_iff.mp member with rfl | ⟨other, need, before, below, rfl⟩
      · exact Nat.zero_le _
      · have otherListed := (listed other).mp need
        have bounded := greatest _ (List.mem_map_of_mem otherListed)
        have sooner := (starts other otherListed).2 below
        rw [Option.getD_some]
        omega

/-- Along an order that respects the dependencies every node has a start. -/
theorem hasStart_of_ordered {deps : Node → List Node}
    (listed : ∀ node dep, needs node dep ↔ dep ∈ deps node) {order : List Node}
    (ordered : DependencyGraph.Ordered needs order) :
    ∀ node ∈ order, HasStart needs weight node := by
  induction order using List.reverseRecOn with
  | nil => simp
  | append_singleton order last ih =>
      have earlier := ih ordered.of_append
      intro node member
      rcases List.mem_append.mp member with before | here
      · exact earlier node before
      · rw [List.mem_singleton.mp here]
        have starts : ∀ dep ∈ deps last, HasStart needs weight dep := fun dep need =>
          earlier dep (ordered order last [] rfl dep ((listed last dep).mpr need))
        exact (HasStart.of_isGreatest (isGreatest_totalsBefore (listed last) starts)).1

/-- A chain begins just after a node exactly when its reverse ends just before it against
the dependencies. -/
theorem mem_totalsAfter_iff {node : Node} {sum : Nat} :
    sum ∈ TotalsBefore (fun dep node => needs node dep) weight node ↔
      ∃ chain, Chained needs (node :: chain) ∧ total weight chain = sum := by
  constructor
  · rintro ⟨chain, chained, rfl⟩
    refine ⟨chain.reverse, ?_, total_reverse chain⟩
    rw [← List.reverse_concat]
    exact chained_reverse.mpr chained
  · rintro ⟨chain, chained, rfl⟩
    refine ⟨chain.reverse, ?_, total_reverse chain⟩
    rw [← List.reverse_cons]
    exact chained_reverse.mpr chained

/-- The latest finish of the listed nodes. -/
def latestFinish (finish : Node → Nat) (order : List Node) : Nat :=
  order.foldl (fun latest node => max latest (finish node)) 0

theorem latestFinish_concat (finish : Node → Nat) (order : List Node) (last : Node) :
    latestFinish finish (order ++ [last]) =
      max (latestFinish finish order) (finish last) := by
  simp [latestFinish]

theorem finish_le_latestFinish (finish : Node → Nat) {order : List Node} {node : Node}
    (listed : node ∈ order) : finish node ≤ latestFinish finish order := by
  induction order using List.reverseRecOn with
  | nil => cases listed
  | append_singleton order last ih =>
      rw [latestFinish_concat]
      rcases List.mem_append.mp listed with before | here
      · exact (ih before).trans (le_max_left _ _)
      · rw [List.mem_singleton.mp here]
        exact le_max_right _ _

theorem exists_latestFinish (finish : Node → Nat) {order : List Node}
    (nonempty : order ≠ []) : ∃ node ∈ order, latestFinish finish order = finish node := by
  induction order using List.reverseRecOn with
  | nil => exact absurd rfl nonempty
  | append_singleton order last ih =>
      rw [latestFinish_concat]
      by_cases only : order = []
      · exact ⟨last, by simp, by simp [only, latestFinish]⟩
      obtain ⟨node, listed, same⟩ := ih only
      rcases le_total (latestFinish finish order) (finish last) with later | earlier
      · exact ⟨last, by simp, max_eq_right later⟩
      · exact ⟨node, List.mem_append_left _ listed, (max_eq_left earlier).trans same⟩

/-- The greatest total of all chains, as the latest finish of a node. -/
noncomputable def longest (needs : Node → Node → Prop) (weight : Node → Nat)
    (order : List Node) : Nat :=
  latestFinish (fun node => start needs weight node + weight node) order

section Listed

variable {order : List Node}
  (endpoints : ∀ node dep, needs node dep → node ∈ order ∧ dep ∈ order)
  (starts : ∀ node ∈ order, HasStart needs weight node)
include endpoints

theorem mem_of_chained_concat {chain : List Node} {node : Node}
    (chained : Chained needs (chain ++ [node])) : ∀ other ∈ chain, other ∈ order := by
  induction chain using List.reverseRecOn generalizing node with
  | nil => simp
  | append_singleton chain dep ih =>
      obtain ⟨chained, need⟩ := chained_concat_concat.mp chained
      intro other member
      rcases List.mem_append.mp member with before | here
      · exact ih chained other before
      · rw [List.mem_singleton.mp here]
        exact (endpoints node dep need).2

theorem mem_of_chained_cons {chain : List Node} {node : Node}
    (chained : Chained needs (node :: chain)) : ∀ other ∈ chain, other ∈ order := by
  induction chain generalizing node with
  | nil => simp
  | cons next chain ih =>
      obtain ⟨need, chained⟩ := List.isChain_cons_cons.mp chained
      exact List.forall_mem_cons.mpr ⟨(endpoints next node need).1, ih chained⟩

include starts

/-- Some chain is as heavy as the heaviest, and it is empty only for want of nodes. -/
theorem exists_longest_chain :
    ∃ chain, Chained needs chain ∧ (∀ node ∈ chain, node ∈ order) ∧
      total weight chain = longest needs weight order ∧ (order ≠ [] → chain ≠ []) := by
  by_cases empty : order = []
  · subst empty
    exact ⟨[], List.isChain_nil, nofun, rfl, fun nonempty => nonempty⟩
  obtain ⟨node, listed, same⟩ := exists_latestFinish
    (fun node => start needs weight node + weight node) empty
  obtain ⟨chain, chained, sum⟩ := (starts node listed).1
  refine ⟨chain ++ [node], chained, ?_, ?_, by simp⟩
  · exact List.forall_mem_append.mpr
      ⟨mem_of_chained_concat endpoints chained, by simpa using listed⟩
  · unfold longest
    rw [same, total_append, sum]
    rfl

omit endpoints in
theorem total_le_longest {chain : List Node} (chained : Chained needs chain)
    (listed : ∀ node ∈ chain, node ∈ order) :
    total weight chain ≤ longest needs weight order := by
  rcases List.eq_nil_or_concat chain with rfl | ⟨before, last, rfl⟩
  · exact Nat.zero_le _
  · rw [List.concat_eq_append] at chained listed ⊢
    have member := listed last (by simp)
    have sooner := (starts last member).2 ⟨before, chained, rfl⟩
    have bounded := finish_le_latestFinish
      (fun node => start needs weight node + weight node) member
    unfold longest
    simp only [total_append, total_cons, total_nil]
    omega

theorem isGreatest_totals :
    IsGreatest (Totals needs weight order) (longest needs weight order) := by
  constructor
  · obtain ⟨chain, chained, listed, sum, -⟩ := exists_longest_chain endpoints starts
    exact ⟨chain, chained, listed, sum⟩
  · rintro sum ⟨chain, chained, listed, rfl⟩
    exact total_le_longest starts chained listed

variable (rests : ∀ node ∈ order, HasStart (fun dep node => needs node dep) weight node)
include rests

/-- What comes before a node, the node and what comes after it fit into the whole. -/
theorem start_add_rest_le {node : Node} (listed : node ∈ order) :
    start needs weight node + weight node + rest needs weight node ≤
      longest needs weight order := by
  obtain ⟨before, chainedBefore, sumBefore⟩ := (starts node listed).1
  obtain ⟨after, chainedAfter, sumAfter⟩ := mem_totalsAfter_iff.mp (rests node listed).1
  have whole := total_le_longest starts (chained_split.mpr ⟨chainedBefore, chainedAfter⟩)
    (List.forall_mem_append.mpr ⟨mem_of_chained_concat endpoints chainedBefore,
      List.forall_mem_cons.mpr ⟨listed, mem_of_chained_cons endpoints chainedAfter⟩⟩)
  rw [total_append, total_cons, sumBefore, sumAfter] at whole
  unfold rest
  omega

/-- On a heaviest chain nothing is to spare. -/
theorem start_add_rest_eq {chain : List Node} (chained : Chained needs chain)
    (listed : ∀ node ∈ chain, node ∈ order)
    (heaviest : total weight chain = longest needs weight order) :
    ∀ node ∈ chain, start needs weight node + weight node + rest needs weight node =
      longest needs weight order := by
  intro node member
  have here := listed node member
  obtain ⟨before, after, rfl⟩ := List.append_of_mem member
  obtain ⟨chainedBefore, chainedAfter⟩ := chained_split.mp chained
  have sooner := (starts node here).2 ⟨before, chainedBefore, rfl⟩
  have later := (rests node here).2 (mem_totalsAfter_iff.mpr ⟨after, chainedAfter, rfl⟩)
  have whole := start_add_rest_le endpoints starts rests here
  rw [total_append, total_cons] at heaviest
  unfold rest at whole ⊢
  omega

end Listed

end WeightedChains
