import Mathlib.Data.Finset.Card
import Mathlib.Data.Finset.Union

/-!
# Chains of links that end at a source

Each node has at most one link to another node, and some nodes are sources.  A node is
grounded when its links lead to a source in finitely many steps.  Changing the link of one
node keeps all nodes grounded exactly when the links of its new target do not lead back
to it.
-/

namespace LinkChains

variable {Node : Type*}

/-- The links lead from one node to the other. -/
def Leads (next : Node → Option Node) : Node → Node → Prop :=
  Relation.ReflTransGen fun node target => next node = some target

/-- The links lead from the node to a source. -/
inductive Grounded (next : Node → Option Node) (source : Node → Prop) : Node → Prop
  | source {node : Node} (isSource : source node) : Grounded next source node
  | link {node target : Node} (linked : next node = some target)
      (grounded : Grounded next source target) : Grounded next source node

variable {next next' : Node → Option Node} {source source' : Node → Prop}

/-- More sources, and the same links elsewhere, keep what is grounded. -/
theorem Grounded.mono {node : Node} (grounded : Grounded next source node)
    (sources : ∀ node, source node → source' node)
    (links : ∀ node, next' node = next node ∨ source' node) :
    Grounded next' source' node := by
  induction grounded with
  | source isSource => exact .source (sources _ isSource)
  | @link node target linked _ ih =>
      rcases links node with same | isSource
      · exact .link (same.trans linked) ih
      · exact .source isSource

/-- A node whose links do not lead to the changed node stays grounded. -/
theorem Grounded.redirect {node changed : Node} (grounded : Grounded next source node)
    (avoids : ¬ Leads next node changed)
    (sources : ∀ node, node ≠ changed → source node → source' node)
    (links : ∀ node, node ≠ changed → next' node = next node) :
    Grounded next' source' node := by
  induction grounded with
  | @source node isSource =>
      have apart : node ≠ changed := by
        rintro rfl
        exact avoids .refl
      exact .source (sources node apart isSource)
  | @link node target linked _ ih =>
      have apart : node ≠ changed := by
        rintro rfl
        exact avoids .refl
      refine .link ((links node apart).trans linked) (ih ?_)
      exact fun leads => avoids (.head linked leads)

/-- Once the changed node is grounded again, so is every other node. -/
theorem Grounded.through {node changed : Node} (grounded : Grounded next source node)
    (again : Grounded next' source' changed)
    (sources : ∀ node, node ≠ changed → source node → source' node)
    (links : ∀ node, node ≠ changed → next' node = next node) :
    Grounded next' source' node := by
  induction grounded with
  | @source node isSource =>
      by_cases same : node = changed
      · exact same ▸ again
      · exact .source (sources node same isSource)
  | @link node target linked _ ih =>
      by_cases same : node = changed
      · exact same ▸ again
      · exact .link ((links node same).trans linked) ih

/-- A node on a closed chain is not grounded. -/
theorem not_grounded_of_leads {changed target : Node}
    (redirected : next' changed = some target) (notSource : ¬ source' changed)
    (leads : Leads next target changed)
    (inner : ∀ node target, next node = some target → ¬ source node)
    (sources : ∀ node, node ≠ changed → source' node → source node)
    (links : ∀ node, node ≠ changed → next' node = next node) :
    ¬ Grounded next' source' changed := by
  have never : ∀ node, Grounded next' source' node → ¬ Leads next node changed := by
    intro node grounded
    induction grounded with
    | @source node isSource =>
        intro back
        rcases Relation.ReflTransGen.cases_head back with rfl | ⟨middle, linked, -⟩
        · exact notSource isSource
        · by_cases same : node = changed
          · exact notSource (same ▸ isSource)
          · exact inner node middle linked (sources node same isSource)
    | @link node other linked _ ih =>
        intro back
        by_cases same : node = changed
        · subst same
          rw [redirected] at linked
          exact ih (Option.some.inj linked ▸ leads)
        · rw [links node same] at linked
          rcases Relation.ReflTransGen.cases_head back with rfl | ⟨middle, first, rest⟩
          · exact same rfl
          · rw [linked] at first
            exact ih (Option.some.inj first ▸ rest)
  exact fun grounded => never changed grounded .refl

end LinkChains

/-!
# Walks along parent links

Each node has at most one parent.  A walk follows the parents until one has none or was
seen before, so it ends on every finite set of links, cycles included.  Its length counts
the nodes on it that have a parent.  A new link makes the walks longer that led to its
node.
-/

namespace ParentWalk

open LinkChains

variable {Node : Type*} [DecidableEq Node]

/-- The parents of finitely many nodes. -/
structure Links (Node : Type*) where
  parent : Node → Option Node
  nodes : List Node
  listed : ∀ {node target}, parent node = some target → node ∈ nodes

namespace Links

variable (links : Links Node)

theorem length_unseen_cons {seen : List Node} {node : Node} (new : node ∉ seen)
    (listed : node ∈ links.nodes) :
    (links.nodes.filter (· ∉ node :: seen)).length <
      (links.nodes.filter (· ∉ seen)).length := by
  have rest : links.nodes.filter (· ∉ node :: seen) =
      (links.nodes.filter (· ∉ seen)).filter (· ≠ node) := by
    rw [List.filter_filter]
    congr 1
    funext other
    simp [not_or]
  rw [rest, List.length_filter_lt_length_iff_exists]
  exact ⟨node, List.mem_filter.mpr ⟨listed, by simpa using new⟩, by simp⟩

/-- The nodes with a parent on the walk from a node. -/
def walkFrom (seen : List Node) (node : Node) : List Node :=
  if _ : node ∈ seen then []
  else
    match _ : links.parent node with
    | none => []
    | some target => node :: walkFrom (node :: seen) target
termination_by (links.nodes.filter (· ∉ seen)).length
decreasing_by exact links.length_unseen_cons ‹_› (links.listed ‹_›)

theorem walkFrom_of_seen {seen : List Node} {node : Node} (known : node ∈ seen) :
    links.walkFrom seen node = [] := by
  rw [walkFrom, dif_pos known]

theorem walkFrom_of_no_parent {node : Node} (first : links.parent node = none)
    (seen : List Node) : links.walkFrom seen node = [] := by
  rw [walkFrom]
  split
  · rfl
  · split
    · rfl
    · simp_all

theorem walkFrom_of_parent {seen : List Node} {node target : Node} (new : node ∉ seen)
    (linked : links.parent node = some target) :
    links.walkFrom seen node = node :: links.walkFrom (node :: seen) target := by
  rw [walkFrom, dif_neg new]
  split
  · simp_all
  · simp_all

def walk (node : Node) : List Node :=
  links.walkFrom [] node

def depth (node : Node) : Nat :=
  (links.walk node).length

/-- The last node of a walk, unless it runs into itself, and those before it. -/
def visits (node : Node) : List Node :=
  node :: (links.walk node).filterMap links.parent

end Links

/-- The links lead to a node past none that has been seen. -/
inductive LeadsPast (parent : Node → Option Node) (seen : List Node) (start : Node) :
    Node → Prop
  | start (new : start ∉ seen) : LeadsPast parent seen start start
  | step {node target : Node} (leads : LeadsPast parent seen start node)
      (linked : parent node = some target) (new : target ∉ seen) :
      LeadsPast parent seen start target

variable {parent : Node → Option Node} {seen : List Node} {start node target : Node}

omit [DecidableEq Node] in
theorem leadsPast_nil : LeadsPast parent [] start node ↔ Leads parent start node := by
  constructor
  · intro leads
    induction leads with
    | start => exact .refl
    | step _ linked _ ih => exact ih.tail linked
  · intro leads
    induction leads with
    | refl => exact .start List.not_mem_nil
    | tail _ linked ih => exact ih.step linked List.not_mem_nil

omit [DecidableEq Node] in
theorem LeadsPast.start_new (leads : LeadsPast parent seen start node) : start ∉ seen := by
  induction leads with
  | start new => exact new
  | step _ _ _ ih => exact ih

omit [DecidableEq Node] in
theorem LeadsPast.new (leads : LeadsPast parent seen start node) : node ∉ seen := by
  cases leads with
  | start new => exact new
  | step _ _ new => exact new

/-- What a node leads to is the node itself, or its parent leads there without coming
back. -/
theorem leadsPast_iff_of_parent (new : start ∉ seen) (linked : parent start = some target) :
    LeadsPast parent seen start node ↔
      node = start ∨ LeadsPast parent (start :: seen) target node := by
  constructor
  · intro leads
    induction leads with
    | start => exact Or.inl rfl
    | @step middle next _ further fresh ih =>
        by_cases back : next = start
        · exact Or.inl back
        · have outside : next ∉ start :: seen := by
            simpa using ⟨back, fresh⟩
          rcases ih with rfl | past
          · obtain rfl : next = target := by
              rw [further] at linked
              exact Option.some.inj linked
            exact Or.inr (.start outside)
          · exact Or.inr (past.step further outside)
  · rintro (rfl | past)
    · exact .start new
    · induction past with
      | start fresh =>
          exact (LeadsPast.start new).step linked fun known =>
            fresh (List.mem_cons_of_mem _ known)
      | step _ further fresh ih =>
          exact ih.step further fun known => fresh (List.mem_cons_of_mem _ known)

omit [DecidableEq Node] in
theorem LeadsPast.eq_of_no_parent (none : parent start = none)
    (leads : LeadsPast parent seen start node) : node = start := by
  induction leads with
  | start => rfl
  | step _ linked _ ih =>
      rw [ih, none] at linked
      cases linked

namespace Links

variable {links links' : Links Node}

theorem mem_walkFrom (links : Links Node) (seen : List Node) (start node : Node) :
    node ∈ links.walkFrom seen start ↔
      LeadsPast links.parent seen start node ∧ (links.parent node).isSome := by
  fun_induction walkFrom links seen start with
  | case1 seen start known =>
      simp only [List.not_mem_nil, false_iff, not_and]
      exact fun leads => absurd known leads.start_new
  | case2 seen start new linked =>
      simp only [List.not_mem_nil, false_iff, not_and]
      intro leads parented
      rw [leads.eq_of_no_parent linked, linked] at parented
      cases parented
  | case3 seen start new target linked ih =>
      rw [List.mem_cons, ih, leadsPast_iff_of_parent new linked]
      constructor
      · rintro (rfl | ⟨past, parented⟩)
        · exact ⟨Or.inl rfl, by rw [linked]; rfl⟩
        · exact ⟨Or.inr past, parented⟩
      · rintro ⟨rfl | past, parented⟩
        · exact Or.inl rfl
        · exact Or.inr ⟨past, parented⟩

theorem mem_walk {links : Links Node} {start node : Node} :
    node ∈ links.walk start ↔
      Leads links.parent start node ∧ (links.parent node).isSome := by
  rw [walk, mem_walkFrom, leadsPast_nil]

theorem nodup_walkFrom (links : Links Node) (seen : List Node) (start : Node) :
    (links.walkFrom seen start).Nodup := by
  fun_induction walkFrom links seen start with
  | case1 => exact List.nodup_nil
  | case2 => exact List.nodup_nil
  | case3 seen start new target linked ih =>
      refine List.nodup_cons.mpr ⟨?_, ih⟩
      rw [mem_walkFrom]
      exact fun back => back.1.new List.mem_cons_self

theorem depth_eq_card (links : Links Node) (node : Node) :
    links.depth node = (links.walk node).toFinset.card :=
  (List.toFinset_card_of_nodup (links.nodup_walkFrom [] node)).symm

/-- A walk is not longer than the list of the linked nodes. -/
theorem depth_le (links : Links Node) (node : Node) :
    links.depth node ≤ links.nodes.length := by
  rw [depth_eq_card]
  refine (Finset.card_le_card ?_).trans (List.toFinset_card_le links.nodes)
  intro other member
  rw [List.mem_toFinset, mem_walk] at member
  obtain ⟨target, linked⟩ := Option.isSome_iff_exists.mp member.2
  exact List.mem_toFinset.mpr (links.listed linked)

theorem mem_visits {node start : Node} :
    node ∈ links.visits start ↔ Leads links.parent start node := by
  rw [visits, List.mem_cons, List.mem_filterMap]
  constructor
  · rintro (rfl | ⟨before, member, linked⟩)
    · exact .refl
    · exact (mem_walk.mp member).1.tail linked
  · intro leads
    cases leads with
    | refl => exact Or.inl rfl
    | tail earlier linked =>
        exact Or.inr ⟨_, mem_walk.mpr ⟨earlier, Option.isSome_of_eq_some linked⟩, linked⟩

variable {node target : Node}

/-- A node without a parent gets one. -/
def Linked (links links' : Links Node) (node target : Node) : Prop :=
  links.parent node = none ∧
    links'.parent = Function.update links.parent node (some target)

theorem Linked.parent_self (linked : Linked links links' node target) :
    links'.parent node = some target := by
  rw [linked.2, Function.update_self]

theorem Linked.parent_of_ne (linked : Linked links links' node target) {other : Node}
    (apart : other ≠ node) : links'.parent other = links.parent other := by
  rw [linked.2, Function.update_of_ne apart]

theorem Linked.isSome (linked : Linked links links' node target) {other : Node} :
    (links'.parent other).isSome ↔ other = node ∨ (links.parent other).isSome := by
  by_cases same : other = node
  · simp [same, linked.parent_self]
  · simp [same, linked.parent_of_ne same]

theorem Linked.leads_mono (linked : Linked links links' node target) {start last : Node}
    (leads : Leads links.parent start last) : Leads links'.parent start last := by
  induction leads with
  | refl => exact .refl
  | @tail middle _ _ further ih =>
      have apart : middle ≠ node := by
        rintro rfl
        rw [linked.1] at further
        cases further
      exact ih.tail ((linked.parent_of_ne apart).trans further)

/-- The new link is used by what led to its node before. -/
theorem Linked.leads_iff (linked : Linked links links' node target) {start last : Node} :
    Leads links'.parent start last ↔
      Leads links.parent start last ∨
        Leads links.parent start node ∧ Leads links.parent target last := by
  constructor
  · intro leads
    induction leads with
    | refl => exact Or.inl .refl
    | @tail middle next _ further ih =>
        by_cases same : middle = node
        · subst same
          have next_eq : target = next :=
            Option.some.inj (linked.parent_self.symm.trans further)
          subst next_eq
          exact Or.inr ⟨ih.elim id fun both => both.1, .refl⟩
        · have before := (linked.parent_of_ne same).symm.trans further
          exact ih.imp (fun leads => leads.tail before)
            fun both => ⟨both.1, both.2.tail before⟩
  · rintro (leads | ⟨there, onwards⟩)
    · exact linked.leads_mono leads
    · exact ((linked.leads_mono there).tail linked.parent_self).trans
        (linked.leads_mono onwards)

theorem Linked.walk_of_visits (linked : Linked links links' node target) {start : Node}
    (through : node ∈ links.visits start) :
    (links'.walk start).toFinset =
      insert node ((links.walk start).toFinset ∪ (links.walk target).toFinset) := by
  ext other
  simp only [List.mem_toFinset, Finset.mem_insert, Finset.mem_union, mem_walk,
    linked.leads_iff, linked.isSome]
  rw [mem_visits] at through
  constructor
  · rintro ⟨leads | ⟨-, leads⟩, same | parented⟩
    · exact Or.inl same
    · exact Or.inr (Or.inl ⟨leads, parented⟩)
    · exact Or.inl same
    · exact Or.inr (Or.inr ⟨leads, parented⟩)
  · rintro (rfl | ⟨leads, parented⟩ | ⟨leads, parented⟩)
    · exact ⟨Or.inl through, Or.inl rfl⟩
    · exact ⟨Or.inl leads, Or.inr parented⟩
    · exact ⟨Or.inr ⟨through, leads⟩, Or.inr parented⟩

theorem Linked.walk_of_not_visits (linked : Linked links links' node target) {start : Node}
    (past : node ∉ links.visits start) :
    (links'.walk start).toFinset = (links.walk start).toFinset := by
  ext other
  simp only [List.mem_toFinset, mem_walk, linked.leads_iff, linked.isSome]
  rw [mem_visits] at past
  constructor
  · rintro ⟨leads | ⟨there, -⟩, rfl | parented⟩
    · exact absurd leads past
    · exact ⟨leads, parented⟩
    · exact absurd there past
    · exact absurd there past
  · rintro ⟨leads, parented⟩
    exact ⟨Or.inl leads, Or.inr parented⟩

/-- The nodes on a walk and, past a new link, on the walk of its target. -/
def joined (links : Links Node) (node target start : Node) : Nat :=
  (node :: (links.walk start ++ links.walk target)).toFinset.card

theorem Linked.depth_eq (linked : Linked links links' node target) (start : Node) :
    links'.depth start =
      if node ∈ links.visits start then links.joined node target start
      else links.depth start := by
  rw [depth_eq_card, depth_eq_card]
  split
  case isTrue through =>
    rw [linked.walk_of_visits through, joined, List.toFinset_cons, List.toFinset_append]
  case isFalse past => rw [linked.walk_of_not_visits past]

theorem depth_le_joined (links : Links Node) (node target start : Node) :
    links.depth start ≤ links.joined node target start := by
  rw [depth_eq_card, joined, List.toFinset_cons, List.toFinset_append]
  exact Finset.card_le_card
    (Finset.subset_union_left.trans (Finset.subset_insert _ _))

/-- A node that gets its first parent is one deeper than its parent. -/
theorem joined_self (node target : Node) (first : links.parent node = none) :
    links.joined node target node = links.depth target + 1 := by
  have nothing : links.walk node = [] := links.walkFrom_of_no_parent first []
  have absent : node ∉ (links.walk target).toFinset := by
    rw [List.mem_toFinset, mem_walk, first]
    simp
  rw [joined, nothing, List.nil_append, List.toFinset_cons,
    Finset.card_insert_of_notMem absent, depth_eq_card]

/-- Links with the same parents have the same walks. -/
theorem depth_congr (same : links'.parent = links.parent) (node : Node) :
    links'.depth node = links.depth node := by
  have walks : (links'.walk node).toFinset = (links.walk node).toFinset := by
    ext other
    simp only [List.mem_toFinset, mem_walk, same]
  rw [depth_eq_card, depth_eq_card, walks]

end Links

end ParentWalk
