import Mathlib.Order.WellFoundedSet

/-!
# Dependency relations

A relation `needs` says which node has to wait for which.  An order that lists
every node after the nodes it needs exists exactly when the relation has no
cycle; the two directions are the rules behind a topological sort.
-/

namespace DependencyGraph

variable {Node : Type*} {needs : Node → Node → Prop}

/-- No node needs itself, directly or through others. -/
def Acyclic (needs : Node → Node → Prop) : Prop :=
  ∀ node, ¬ Relation.TransGen needs node node

/-- Every node of the list stands after all nodes it needs. -/
def Ordered (needs : Node → Node → Prop) (order : List Node) : Prop :=
  ∀ before node after, order = before ++ node :: after →
    ∀ dep, needs node dep → dep ∈ before

theorem ordered_nil : Ordered needs [] := by
  intro before node after split
  simp at split

theorem Ordered.append_singleton {order : List Node} (ordered : Ordered needs order)
    {last : Node} (met : ∀ dep, needs last dep → dep ∈ order) :
    Ordered needs (order ++ [last]) := by
  intro before node after split dep need
  rcases List.eq_nil_or_concat after with rfl | ⟨rest, other, rfl⟩
  · obtain ⟨rfl, same⟩ := List.append_inj' split rfl
    rw [← List.singleton_inj.mp same] at need
    exact met dep need
  · have shorter : order ++ [last] = (before ++ node :: rest) ++ [other] := by
      simpa using split
    obtain ⟨rfl, -⟩ := List.append_inj' shorter rfl
    exact ordered before node rest rfl dep need

theorem Ordered.of_append {order last : List Node}
    (ordered : Ordered needs (order ++ last)) : Ordered needs order := by
  intro before node after split
  apply ordered before node (after ++ last)
  simp [split]

theorem Ordered.mem_of_needs {order : List Node} (ordered : Ordered needs order)
    {node dep : Node} (listed : node ∈ order) (need : needs node dep) :
    dep ∈ order := by
  obtain ⟨before, after, rfl⟩ := List.append_of_mem listed
  exact List.mem_append_left _ (ordered before node after rfl dep need)

/-- Backwards, every node stands after all nodes that need it. -/
theorem Ordered.reverse {order : List Node} (ordered : Ordered needs order)
    (nodup : order.Nodup) (covers : ∀ node dep, needs node dep → node ∈ order) :
    Ordered (fun dep node => needs node dep) order.reverse := by
  intro before node after split dep need
  have forward : order = after.reverse ++ node :: before.reverse := by
    rw [← List.reverse_reverse order, split]
    simp
  have once : node ∉ after.reverse := fun again =>
    (List.nodup_append.mp (forward ▸ nodup)).2.2 node again node List.mem_cons_self rfl
  have listed := covers dep node need
  rw [forward, List.mem_append, List.mem_cons] at listed
  rcases listed with earlier | rfl | later
  · obtain ⟨first, second, divided⟩ := List.append_of_mem earlier
    have met := ordered first dep (second ++ node :: before.reverse)
      (by rw [forward, divided]; simp) node need
    exact absurd (by simp [divided, met]) once
  · exact absurd (ordered after.reverse dep before.reverse forward dep need) once
  · exact List.mem_reverse.mp later

/-- A relation that contains no more pairs has no more cycles. -/
theorem Acyclic.mono {fewer : Node → Node → Prop} (acyclic : Acyclic needs)
    (sub : ∀ node dep, fewer node dep → needs node dep) : Acyclic fewer :=
  fun node cycle => acyclic node (Relation.TransGen.mono sub node node cycle)

/-- After a node is taken out, the others still reach what they reached exactly when
single dependencies between them are still reached, and what the node needed is still
reached from what needed the node. -/
theorem transGen_bypass_iff {fewer : Node → Node → Prop} {gone : Node}
    (irrefl : ¬ needs gone gone) :
    (∀ node dep, node ≠ gone → dep ≠ gone → Relation.TransGen needs node dep →
        Relation.TransGen fewer node dep) ↔
      (∀ node dep, node ≠ gone → dep ≠ gone → needs node dep →
        Relation.TransGen fewer node dep) ∧
      ∀ node dep, needs node gone → needs gone dep → Relation.TransGen fewer node dep := by
  constructor
  · intro kept
    refine ⟨fun node dep apart depApart need => kept node dep apart depApart (.single need),
      fun node dep before after => ?_⟩
    refine kept node dep ?_ ?_ (.tail (.single before) after)
    · rintro rfl
      exact irrefl before
    · rintro rfl
      exact irrefl after
  · rintro ⟨direct, through⟩ node dep apart depApart path
    -- A path that ends in the missing node has a last node before it.
    suffices reached : (dep ≠ gone → Relation.TransGen fewer node dep) ∧
        (dep = gone → ∃ last, needs last gone ∧ Relation.ReflTransGen fewer node last) from
      reached.1 depApart
    clear depApart
    induction path with
    | single need =>
        refine ⟨fun depApart => direct node _ apart depApart need, ?_⟩
        rintro rfl
        exact ⟨node, need, .refl⟩
    | @tail middle dep _ need ih =>
        obtain ⟨outside, inside⟩ := ih
        by_cases missing : middle = gone
        · obtain ⟨last, before, prefix'⟩ := inside missing
          subst missing
          refine ⟨fun _ => .trans_right prefix' (through last dep before need), ?_⟩
          rintro rfl
          exact absurd need irrefl
        · have walked := outside missing
          refine ⟨fun depApart => walked.trans (direct middle dep missing depApart need), ?_⟩
          rintro rfl
          exact ⟨middle, need, walked.to_reflTransGen⟩

/-- A rank that drops along every dependency rules out cycles. -/
theorem acyclic_of_rank (rank : Node → Nat)
    (drops : ∀ node dep, needs node dep → rank dep < rank node) :
    Acyclic needs := by
  have below : ∀ {node dep}, Relation.TransGen needs node dep →
      rank dep < rank node := by
    intro node dep path
    induction path with
    | single need => exact drops _ _ need
    | tail _ need ih => exact (drops _ _ need).trans ih
  exact fun node cycle => (below cycle).false

/-- A relation whose nodes can be listed in dependency order has no cycle. -/
theorem acyclic_of_ordered [DecidableEq Node] {order : List Node}
    (ordered : Ordered needs order)
    (covers : ∀ node dep, needs node dep → node ∈ order) : Acyclic needs := by
  apply acyclic_of_rank fun node => order.idxOf node
  intro node dep need
  obtain ⟨before, after, split, fresh⟩ :=
    List.eq_append_cons_of_mem (covers node dep need)
  have earlier := ordered before node after split dep need
  rw [split, List.idxOf_append_of_mem earlier, List.idxOf_append_of_notMem fresh]
  have position := List.idxOf_lt_length_of_mem earlier
  omega

/-- On finitely many nodes, a relation without a cycle is well founded. -/
theorem Acyclic.wellFounded (acyclic : Acyclic needs) {nodes : Set Node}
    (finite : nodes.Finite) (closed : ∀ node dep, needs node dep → dep ∈ nodes) :
    WellFounded fun dep node => needs node dep := by
  let below : Node → Node → Prop := fun dep node => Relation.TransGen needs node dep
  have : IsStrictOrder Node below :=
    { irrefl := fun node cycle => acyclic node cycle
      trans := fun _ _ _ first second => second.trans first }
  have wellFoundedOn : nodes.WellFoundedOn below := finite.wellFoundedOn
  have accessible : ∀ node : nodes, Acc (fun dep node => needs node dep) node.1 := by
    intro node
    apply WellFounded.induction wellFoundedOn node
    intro node ih
    constructor
    intro dep need
    exact ih ⟨dep, closed _ _ need⟩ (Relation.TransGen.single need)
  constructor
  intro node
  constructor
  intro dep need
  exact accessible ⟨dep, closed _ _ need⟩

/-- While some node is not done, there is one whose dependencies are done. -/
theorem Acyclic.exists_ready (acyclic : Acyclic needs) {nodes : Set Node}
    (finite : nodes.Finite) (closed : ∀ node dep, needs node dep → dep ∈ nodes)
    (done : Set Node) {node : Node} (listed : node ∈ nodes)
    (waiting : node ∉ done) :
    ∃ ready ∈ nodes, ready ∉ done ∧ ∀ dep, needs ready dep → dep ∈ done := by
  have wellFounded := acyclic.wellFounded finite closed
  obtain ⟨ready, ⟨readyListed, readyWaiting⟩, least⟩ :=
    wellFounded.has_min {node | node ∈ nodes ∧ node ∉ done}
      ⟨node, listed, waiting⟩
  refine ⟨ready, readyListed, readyWaiting, ?_⟩
  intro dep need
  by_contra open'
  exact least dep ⟨closed ready dep need, open'⟩ need

/-- Each node of the order is the least of the nodes that were ready when it was
listed. -/
def LeastFirst [LE Node] (needs : Node → Node → Prop) (nodes : Set Node)
    (order : List Node) : Prop :=
  ∀ before node after, order = before ++ node :: after →
    ∀ other ∈ nodes, other ∉ before → (∀ dep, needs other dep → dep ∈ before) →
      node ≤ other

theorem leastFirst_nil [LE Node] {nodes : Set Node} :
    LeastFirst needs nodes ([] : List Node) := by
  intro before node after split
  simp at split

theorem LeastFirst.append_singleton [LE Node] {nodes : Set Node}
    {order : List Node} (least : LeastFirst needs nodes order) {last : Node}
    (first : ∀ other ∈ nodes, other ∉ order →
      (∀ dep, needs other dep → dep ∈ order) → last ≤ other) :
    LeastFirst needs nodes (order ++ [last]) := by
  intro before node after split other listed fresh met
  rcases List.eq_nil_or_concat after with rfl | ⟨rest, tail, rfl⟩
  · obtain ⟨rfl, same⟩ := List.append_inj' split rfl
    rw [← List.singleton_inj.mp same]
    exact first other listed fresh met
  · have shorter : order ++ [last] = (before ++ node :: rest) ++ [tail] := by
      simpa using split
    obtain ⟨rfl, -⟩ := List.append_inj' shorter rfl
    exact least before node rest rfl other listed fresh met

/-- Choosing the least ready node each time gives the least of all orders: where
another order first departs from it, it lists a node that was ready too. -/
theorem LeastFirst.eq_or_lex [LinearOrder Node] {nodes : Set Node}
    {order other : List Node} (least : LeastFirst needs nodes order)
    (ordered : Ordered needs other) (nodup : other.Nodup)
    (listed : ∀ node ∈ other, node ∈ nodes)
    (sameLength : order.length = other.length) :
    order = other ∨ List.Lex (· < ·) order other := by
  have fromShared : ∀ rest before otherRest : List Node,
      order = before ++ rest → other = before ++ otherRest →
      rest = otherRest ∨ List.Lex (· < ·) rest otherRest := by
    intro rest
    induction rest with
    | nil =>
        intro before otherRest split otherSplit
        left
        rw [split, otherSplit, List.length_append, List.length_append] at sameLength
        apply (List.length_eq_zero_iff.mp _).symm
        simpa using sameLength.symm
    | cons node rest ih =>
        intro before otherRest split otherSplit
        cases otherRest with
        | nil =>
            rw [split, otherSplit] at sameLength
            simp at sameLength
        | cons choice otherRest =>
            have fresh : choice ∉ before := by
              rw [otherSplit] at nodup
              exact fun earlier => (List.nodup_append.mp nodup).2.2 choice earlier
                choice List.mem_cons_self rfl
            have member : choice ∈ other := by simp [otherSplit]
            have notAfter : node ≤ choice := least before node rest split choice
              (listed choice member) fresh
              (ordered before choice otherRest otherSplit)
            rcases notAfter.eq_or_lt with rfl | less
            · refine (ih (before ++ [node]) otherRest ?_ ?_).imp ?_ ?_
              · simpa using split
              · simpa using otherSplit
              · exact fun same => by rw [same]
              · exact List.Lex.cons
            · exact Or.inr (List.Lex.rel less)
  exact fromShared order [] other rfl rfl

/-- A chain of dependencies of the given length starts at the node. -/
inductive Chain (needs : Node → Node → Prop) : Node → Nat → Prop
  | single (node : Node) : Chain needs node 0
  | cons {node dep : Node} {length : Nat} (need : needs node dep)
      (rest : Chain needs dep length) : Chain needs node (length + 1)

/-- The length of the longest chain of dependencies that starts at the node. -/
noncomputable def height (needs : Node → Node → Prop) (node : Node) : Nat :=
  sSup {length | Chain needs node length}

/-- The node has a longest chain; its length is the height. -/
def HasHeight (needs : Node → Node → Prop) (node : Node) : Prop :=
  IsGreatest {length | Chain needs node length} (height needs node)

theorem HasHeight.of_isGreatest {node : Node} {length : Nat}
    (greatest : IsGreatest {length | Chain needs node length} length) :
    HasHeight needs node ∧ height needs node = length := by
  have same : height needs node = length := greatest.csSup_eq
  unfold HasHeight
  rw [same]
  exact ⟨greatest, rfl⟩

theorem HasHeight.lt_of_needs {node dep : Node} (above : HasHeight needs node)
    (below : HasHeight needs dep) (need : needs node dep) :
    height needs dep < height needs node :=
  above.2 (Chain.cons need below.1)

/-- A node of positive height needs one whose height is one less. -/
theorem HasHeight.exists_needs {node : Node} (has : HasHeight needs node)
    (below : ∀ dep, needs node dep → HasHeight needs dep) {length : Nat}
    (positive : height needs node = length + 1) :
    ∃ dep, needs node dep ∧ height needs dep = length := by
  have longest : Chain needs node (length + 1) := positive ▸ has.1
  cases longest with
  | cons need rest =>
      refine ⟨_, need, ?_⟩
      have atLeast := (below _ need).2 rest
      have atMost := has.lt_of_needs (below _ need) need
      omega

/-- The height of a node from the heights of what it needs. -/
theorem isGreatest_chain {node : Node} {deps : List Node}
    (listed : ∀ dep, needs node dep ↔ dep ∈ deps)
    (below : ∀ dep ∈ deps, HasHeight needs dep) :
    IsGreatest {length | Chain needs node length}
      ((deps.map fun dep => height needs dep + 1).max?.getD 0) := by
  cases longest : (deps.map fun dep => height needs dep + 1).max? with
  | none =>
      have empty : deps = [] := by
        simpa [List.max?_eq_none_iff] using longest
      refine ⟨Chain.single node, ?_⟩
      rintro length (_ | ⟨need, -⟩)
      · exact le_rfl
      · rw [listed, empty] at need
        cases need
  | some top =>
      obtain ⟨member, least⟩ := List.max?_eq_some_iff.mp longest
      obtain ⟨dep, depListed, rfl⟩ := List.mem_map.mp member
      refine ⟨Chain.cons ((listed dep).mpr depListed) (below dep depListed).1, ?_⟩
      rintro length (_ | ⟨need, rest⟩)
      · exact Nat.zero_le _
      · have otherListed := (listed _).mp need
        have bounded := least _ (List.mem_map_of_mem otherListed)
        have shorter := (below _ otherListed).2 rest
        simp only [Option.getD_some]
        omega

end DependencyGraph

/-!
# Contracting classes of a dependency relation

A map sends every node to the representative of its class.  The contracted
relation joins two representatives when some members of their classes are
joined.  If a class can only be left from members that the members by which it
is entered reach, contraction changes neither the order between the classes nor
the absence of cycles.
-/

namespace DependencyGraph

variable {Node : Type*} {needs : Node → Node → Prop} {head : Node → Node}

/-- The dependencies between different classes. -/
def Contracted (needs : Node → Node → Prop) (head : Node → Node)
    (node dep : Node) : Prop :=
  node ≠ dep ∧ ∃ member depMember, head member = node ∧ head depMember = dep ∧
    needs member depMember

/-- A member by which a class is entered reaches every member from which it is
left. -/
def Passable (needs : Node → Node → Prop) (head : Node → Node) : Prop :=
  ∀ before entry exit after, needs before entry → head before ≠ head entry →
    head entry = head exit → needs exit after → head exit ≠ head after →
      Relation.ReflTransGen needs entry exit

/-- A path stays in a class or leads to another one. -/
theorem eq_or_transGen_contracted {node dep : Node}
    (path : Relation.TransGen needs node dep) :
    head node = head dep ∨
      Relation.TransGen (Contracted needs head) (head node) (head dep) := by
  have step : ∀ first second, needs first second →
      head first = head second ∨
        Contracted needs head (head first) (head second) := by
    intro first second need
    by_cases same : head first = head second
    · exact Or.inl same
    · exact Or.inr ⟨same, first, second, rfl, rfl, need⟩
  induction path with
  | single need => exact (step _ _ need).imp_right Relation.TransGen.single
  | tail _ need ih =>
      rcases ih, step _ _ need with ⟨back | through, same | edge⟩
      · exact Or.inl (back.trans same)
      · exact Or.inr (Relation.TransGen.single (back ▸ edge))
      · exact Or.inr (same ▸ through)
      · exact Or.inr (through.tail edge)

/-- A path between classes lifts to a path between members that leaves the first
class at once and enters the last one at its end. -/
theorem exists_transGen_of_contracted (passable : Passable needs head)
    {node dep : Node} (path : Relation.TransGen (Contracted needs head) node dep) :
    ∃ member depMember, head member = node ∧ head depMember = dep ∧
      Relation.TransGen needs member depMember ∧
      (∃ after, needs member after ∧ head member ≠ head after) ∧
      ∃ before, needs before depMember ∧ head before ≠ head depMember := by
  induction path with
  | single edge =>
      obtain ⟨distinct, member, depMember, rfl, rfl, need⟩ := edge
      exact ⟨member, depMember, rfl, rfl, Relation.TransGen.single need,
        ⟨depMember, need, distinct⟩, member, need, distinct⟩
  | tail _ edge ih =>
      obtain ⟨member, entry, memberHead, rfl, prefixPath, leaves, before, enters,
        outside⟩ := ih
      obtain ⟨distinct, exit, depMember, exitHead, rfl, need⟩ := edge
      have across : Relation.ReflTransGen needs entry exit :=
        passable before entry exit depMember enters outside exitHead.symm need
          (exitHead ▸ distinct)
      refine ⟨member, depMember, memberHead, rfl, ?_, leaves, exit, need,
        exitHead ▸ distinct⟩
      exact (prefixPath.trans_left across).tail need

/-- Contraction keeps the order between different classes. -/
theorem transGen_contracted_iff (passable : Passable needs head)
    {node dep : Node} (distinct : node ≠ dep) :
    Relation.TransGen (Contracted needs head) node dep ↔
      ∃ member depMember, head member = node ∧ head depMember = dep ∧
        Relation.TransGen needs member depMember := by
  constructor
  · intro path
    obtain ⟨member, depMember, memberHead, depHead, lifted, -⟩ :=
      exists_transGen_of_contracted passable path
    exact ⟨member, depMember, memberHead, depHead, lifted⟩
  · rintro ⟨member, depMember, rfl, rfl, path⟩
    exact (eq_or_transGen_contracted path).resolve_left distinct

theorem Acyclic.contracted (acyclic : Acyclic needs)
    (passable : Passable needs head) : Acyclic (Contracted needs head) := by
  intro node cycle
  obtain ⟨exit, entry, exitHead, entryHead, path, ⟨after, leaves, outside⟩,
    before, enters, inside⟩ := exists_transGen_of_contracted passable cycle
  have across : Relation.ReflTransGen needs entry exit :=
    passable before entry exit after enters inside (entryHead.trans exitHead.symm)
      leaves outside
  exact acyclic exit (path.trans_left across)

end DependencyGraph
