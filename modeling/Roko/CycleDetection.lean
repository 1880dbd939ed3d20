import Roko.FirstPaths
import Roko.TaskDagSort

/-!
# What the cycle detection finds

The search of `detect_cycle_nodes` reaches every node along the first path to it and adds a
node to the result only when an edge leads from the end of a first path back to it or to a
node before it.  Edges to nodes that were left already are ignored, so a node of a larger
component can be missed.
-/

namespace Roko

open FirstPaths (Follows SimplePath FirstPath Blocked)

variable {Node : Type} [LinearOrder Node]

local instance lawfulEqOrdNode : Std.LawfulEqOrd Node where
  eq_of_compare same := compare_eq_iff_eq.mp same

/-- The node lies on a cycle that runs along the end of a first path and is closed by an
edge from its last node. -/
def ClosesFirstPath (deps : SetMap Node Node) (node : Node) : Prop :=
  ∃ front head rest last,
    FirstPath (· ∈ deps) deps.Has (front ++ head :: rest) last ∧
      deps.Has last head ∧ node ∈ head :: rest

namespace CycleSearch

variable {deps : SetMap Node Node} {search : CycleSearch Node}

/-- The node was entered. -/
def Visited (search : CycleSearch Node) (node : Node) : Prop :=
  search.mark node ≠ 0

/-- The invariant of the search between two visits. -/
structure Sound (deps : SetMap Node Node) (search : CycleSearch Node) : Prop where
  onStack : ∀ node, search.mark node = 1 ↔ node ∈ search.stack
  bounded : ∀ node, search.mark node ≤ 2
  positions : ∀ (node : Node) (position : Nat), search.positions[node]? = some position →
    search.stack[position]? = some node
  positioned : ∀ node ∈ search.stack, node ∈ search.positions
  path : ∀ last, search.stack.getLast? = some last →
    SimplePath (· ∈ deps) deps.Has search.stack last
  closed : ∀ done, search.mark done = 2 → ∀ next, deps.Has done next →
    search.Visited next
  blocked : Blocked (· ∈ deps) deps.Has search.stack search.Visited
  /-- What was found is on a cycle of the kind that is looked for. -/
  found : ∀ node ∈ search.cycleNodes, ClosesFirstPath deps node
  /-- The cycles of that kind are found when the last node of the path is left. -/
  complete : ∀ last, search.mark last = 2 → ∀ front head rest,
    FirstPath (· ∈ deps) deps.Has (front ++ head :: rest) last →
      deps.Has last head → ∀ node ∈ head :: rest, node ∈ search.cycleNodes

/-- What a part of the search keeps. -/
structure Extends (before after : CycleSearch Node) : Prop where
  stack : after.stack = before.stack
  visited : ∀ node, before.Visited node → after.Visited node
  found : ∀ node ∈ before.cycleNodes, node ∈ after.cycleNodes

theorem Extends.refl (search : CycleSearch Node) : Extends search search :=
  ⟨rfl, fun _ => id, fun _ => id⟩

theorem Extends.trans {first second third : CycleSearch Node}
    (left : Extends first second) (right : Extends second third) :
    Extends first third :=
  ⟨right.stack.trans left.stack,
    fun node entered => right.visited node (left.visited node entered),
    fun node member => right.found node (left.found node member)⟩

theorem Sound.left_of_not_mem (sound : Sound deps search) {node : Node}
    (entered : search.Visited node) (off : node ∉ search.stack) : search.mark node = 2 := by
  have notOne : search.mark node ≠ 1 := fun on => off ((sound.onStack node).mp on)
  have bound := sound.bounded node
  unfold Visited at entered
  omega

theorem mark_enter (node other : Node) :
    (search.enter node).mark other = if other = node then 1 else search.mark other := by
  unfold mark enter
  by_cases same : other = node
  · simp [same]
  · simp [Std.ExtTreeMap.getElem?_insert, same, Ne.symm same]

theorem mark_leave (node other : Node) :
    (search.leave node).mark other = if other = node then 2 else search.mark other := by
  unfold mark leave
  by_cases same : other = node
  · simp [same]
  · simp [Std.ExtTreeMap.getElem?_insert, same, Ne.symm same]

theorem mark_closeCycle (child node : Node) :
    (search.closeCycle child).mark node = search.mark node := by
  unfold closeCycle
  split <;> rfl

theorem visited_enter {node other : Node} :
    (search.enter node).Visited other ↔ other = node ∨ search.Visited other := by
  unfold Visited
  rw [mark_enter]
  by_cases same : other = node
  · simp [same]
  · simp [same]

theorem visited_leave {node other : Node} :
    (search.leave node).Visited other ↔ other = node ∨ search.Visited other := by
  unfold Visited
  rw [mark_leave]
  by_cases same : other = node
  · simp [same]
  · simp [same]

theorem Sound.off_of_fresh (sound : Sound deps search) {node : Node}
    (fresh : search.mark node = 0) : node ∉ search.stack := by
  intro member
  rw [(sound.onStack node).mpr member] at fresh
  cases fresh

/-- A fresh node extends the path that the search is on. -/
theorem Sound.path_enter (sound : Sound deps search) {node : Node}
    (fresh : search.mark node = 0)
    (follows : Follows (· ∈ deps) deps.Has search.stack node) :
    SimplePath (· ∈ deps) deps.Has (search.stack ++ [node]) node := by
  cases top : search.stack.getLast? with
  | none =>
      rw [List.getLast?_eq_none_iff] at top
      rw [top] at follows ⊢
      exact FirstPaths.simplePath_singleton follows
  | some last =>
      unfold Follows at follows
      rw [top] at follows
      exact (sound.path last top).concat follows (sound.off_of_fresh fresh)

/-- When everything smaller that could follow was visited, the path stays blocked. -/
theorem Sound.blocked_enter (sound : Sound deps search) {node : Node}
    (earlier : ∀ other < node, Follows (· ∈ deps) deps.Has search.stack other →
      search.Visited other) :
    Blocked (· ∈ deps) deps.Has (search.stack ++ [node]) search.Visited := by
  refine sound.blocked.concat ?_ earlier
  intro done entered off next edge
  exact sound.closed done (sound.left_of_not_mem entered off) next edge

/-- The node that is entered is placed at the end of the stack. -/
theorem Sound.position_enter (sound : Sound deps search) {node other : Node} {position : Nat}
    (placed : (search.enter node).positions[other]? = some position) :
    (search.stack ++ [node])[position]? = some other := by
  unfold CycleSearch.enter at placed
  rw [Std.ExtTreeMap.getElem?_insert] at placed
  split at placed
  case isTrue same =>
    rw [← compare_eq_iff_eq.mp same, ← Option.some.inj placed]
    simp
  case isFalse =>
    have found := sound.positions other position placed
    rw [List.getElem?_append_left (List.getElem?_eq_some_iff.mp found).1]
    exact found

theorem Sound.enter (sound : Sound deps search) {node : Node}
    (fresh : search.mark node = 0)
    (follows : Follows (· ∈ deps) deps.Has search.stack node)
    (earlier : ∀ other < node, Follows (· ∈ deps) deps.Has search.stack other →
      search.Visited other) :
    Sound deps (search.enter node) where
  onStack := by
    intro other
    rw [mark_enter]
    unfold CycleSearch.enter
    by_cases same : other = node
    · simp [same]
    · simpa [same] using sound.onStack other
  bounded := by
    intro other
    rw [mark_enter]
    split
    · omega
    · exact sound.bounded other
  positions := fun _ _ placed => sound.position_enter placed
  positioned := by
    intro other member
    unfold CycleSearch.enter at member ⊢
    rw [Std.ExtTreeMap.mem_insert]
    rcases List.mem_append.mp member with member | member
    · exact Or.inr (sound.positioned other member)
    · exact Or.inl (compare_eq_iff_eq.mpr (List.mem_singleton.mp member).symm)
  path := by
    intro last top
    have same : last = node := by
      unfold CycleSearch.enter at top
      simpa using top.symm
    rw [same]
    exact sound.path_enter fresh follows
  closed := by
    intro done left next edge
    rw [mark_enter] at left
    rw [visited_enter]
    split at left
    · cases left
    · exact Or.inr (sound.closed done left next edge)
  blocked := (sound.blocked_enter earlier).mono fun _ entered =>
    visited_enter.mpr (Or.inr entered)
  found := sound.found
  complete := by
    intro last left
    rw [mark_enter] at left
    split at left
    · cases left
    · exact sound.complete last left

theorem mem_foldl_insert {entries : List Node} {nodes : Std.ExtTreeSet Node} {node : Node} :
    node ∈ entries.foldl (fun nodes entry => nodes.insert entry) nodes ↔
      node ∈ entries ∨ node ∈ nodes := by
  induction entries generalizing nodes with
  | nil => simp
  | cons entry entries ih =>
      rw [List.foldl_cons, ih, Std.ExtTreeSet.mem_insert, compare_eq_iff_eq, List.mem_cons]
      tauto

/-- The place recorded for a node is its place on the stack. -/
theorem Sound.position_eq (sound : Sound deps search) (nodup : search.stack.Nodup)
    {child : Node} {front rest : List Node}
    (split : search.stack = front ++ child :: rest) :
    search.positions[child]? = some front.length := by
  have member : child ∈ search.stack := by simp [split]
  obtain ⟨position, placed⟩ := Option.isSome_iff_exists.mp
    (Std.ExtTreeMap.mem_iff_isSome_getElem?.mp (sound.positioned child member))
  have here := sound.positions child position placed
  have there : search.stack[front.length]? = some child := by simp [split]
  have bound := (List.getElem?_eq_some_iff.mp here).1
  have same := (List.getElem?_inj bound nodup).mp (here.trans there.symm)
  rw [placed, same]

/-- An edge back to the stack adds the stack from its end on. -/
theorem Sound.mem_closeCycle (sound : Sound deps search) (nodup : search.stack.Nodup)
    {child : Node} {front rest : List Node}
    (split : search.stack = front ++ child :: rest) {node : Node} :
    node ∈ (search.closeCycle child).cycleNodes ↔
      node ∈ child :: rest ∨ node ∈ search.cycleNodes := by
  have dropped : search.stack.drop front.length = child :: rest := by simp [split]
  unfold closeCycle
  rw [sound.position_eq nodup split]
  simp only [mem_foldl_insert, dropped]

theorem stack_closeCycle (child : Node) :
    (search.closeCycle child).stack = search.stack := by
  unfold closeCycle
  split <;> rfl

theorem positions_closeCycle (child : Node) :
    (search.closeCycle child).positions = search.positions := by
  unfold closeCycle
  split <;> rfl

theorem Sound.extends_closeCycle (sound : Sound deps search) (nodup : search.stack.Nodup)
    {child : Node} (on : search.mark child = 1) :
    Extends search (search.closeCycle child) where
  stack := stack_closeCycle child
  visited := by
    intro node entered
    unfold Visited
    rw [mark_closeCycle]
    exact entered
  found := by
    intro node member
    obtain ⟨front, rest, split⟩ := List.append_of_mem ((sound.onStack child).mp on)
    exact (sound.mem_closeCycle nodup split).mpr (Or.inr member)

/-- An edge from the end of a first path back to it closes a cycle. -/
theorem Sound.closeCycle (sound : Sound deps search) {node child : Node}
    (first : FirstPath (· ∈ deps) deps.Has search.stack node)
    (edge : deps.Has node child) (on : search.mark child = 1) :
    Sound deps (search.closeCycle child) := by
  obtain ⟨front, rest, split⟩ := List.append_of_mem ((sound.onStack child).mp on)
  have added : ∀ member, member ∈ (search.closeCycle child).cycleNodes ↔
      member ∈ child :: rest ∨ member ∈ search.cycleNodes :=
    fun _ => sound.mem_closeCycle first.1.nodup split
  have sameVisited : (search.closeCycle child).Visited = search.Visited := by
    funext other
    unfold Visited
    rw [mark_closeCycle]
  constructor
  · simpa only [mark_closeCycle, stack_closeCycle] using sound.onStack
  · simpa only [mark_closeCycle] using sound.bounded
  · simpa only [positions_closeCycle, stack_closeCycle] using sound.positions
  · simpa only [positions_closeCycle, stack_closeCycle] using sound.positioned
  · simpa only [stack_closeCycle] using sound.path
  · simpa only [mark_closeCycle, sameVisited] using sound.closed
  · simpa only [stack_closeCycle, sameVisited] using sound.blocked
  · intro member found
    rcases (added member).mp found with found | found
    · rw [split] at first
      exact ⟨front, child, rest, node, first, edge, found⟩
    · exact sound.found member found
  · intro last left front' head rest' firstToLast closing member inside
    rw [mark_closeCycle] at left
    exact (added member).mpr
      (Or.inr (sound.complete last left front' head rest' firstToLast closing member inside))

/-- The places of the nodes that stay on the stack are below the one that is left. -/
theorem Sound.position_leave (sound : Sound deps search) {front : List Node}
    {node other : Node} {position : Nat} (path : search.stack = front ++ [node])
    (placed : (search.leave node).positions[other]? = some position) :
    front[position]? = some other := by
  unfold CycleSearch.leave at placed
  rw [Std.ExtTreeMap.getElem?_erase] at placed
  split at placed
  case isTrue => cases placed
  case isFalse different =>
    have found := sound.positions other position placed
    have bound := (List.getElem?_eq_some_iff.mp found).1
    rw [path] at found bound
    rw [List.length_append, List.length_singleton] at bound
    by_cases inside : position < front.length
    · rwa [List.getElem?_append_left inside] at found
    · have top : position = front.length := by omega
      rw [top] at found
      simp at found
      exact absurd (compare_eq_iff_eq.mpr found) different

/-- When all children of a node were tried, it is left. -/
theorem Sound.leave {before : CycleSearch Node} (start : Sound deps before) {node : Node}
    (sound : Sound deps search) (extended : Extends (before.enter node) search)
    (fresh : before.mark node = 0)
    (first : FirstPath (· ∈ deps) deps.Has (before.stack ++ [node]) node)
    (children : ∀ child, deps.Has node child → search.Visited child)
    (cycles : ∀ child, deps.Has node child → ∀ front rest,
      before.stack ++ [node] = front ++ child :: rest →
        ∀ member ∈ child :: rest, member ∈ search.cycleNodes) :
    Sound deps (search.leave node) := by
  have path : search.stack = before.stack ++ [node] := extended.stack
  have stack : (search.leave node).stack = before.stack := by
    unfold CycleSearch.leave
    simp [path]
  have off := start.off_of_fresh fresh
  have grows : ∀ other, before.Visited other → (search.leave node).Visited other := by
    intro other entered
    exact visited_leave.mpr
      (Or.inr (extended.visited other (visited_enter.mpr (Or.inr entered))))
  constructor
  case onStack =>
    intro other
    rw [mark_leave, stack]
    split
    case isTrue same => simp [same, off]
    case isFalse different =>
      rw [sound.onStack other, path]
      simp [different]
  case bounded =>
    intro other
    rw [mark_leave]
    split
    · omega
    · exact sound.bounded other
  case positions =>
    intro other position placed
    rw [stack]
    exact sound.position_leave path placed
  case positioned =>
    intro other member
    rw [stack] at member
    unfold CycleSearch.leave
    rw [Std.ExtTreeMap.mem_erase]
    refine ⟨?_, sound.positioned other (by simp [path, member])⟩
    intro same
    rw [compare_eq_iff_eq.mp same] at off
    exact off member
  case path =>
    rw [stack]
    exact start.path
  case closed =>
    intro done left next edge
    rw [mark_leave] at left
    rw [visited_leave]
    split at left
    case isTrue same =>
      rw [same] at edge
      exact Or.inr (children next edge)
    case isFalse => exact Or.inr (sound.closed done left next edge)
  case blocked =>
    rw [stack]
    exact start.blocked.mono grows
  case found => exact sound.found
  case complete =>
    intro last left front head rest firstToLast closing
    rw [mark_leave] at left
    split at left
    case isTrue same =>
      rw [same] at firstToLast closing
      exact cycles head closing front rest (first.unique firstToLast)
    case isFalse => exact sound.complete last left front head rest firstToLast closing

/-- What is done at a child of the node that is visited. -/
def visitChild (deps : SetMap Node Node) (depth : Nat) (search : CycleSearch Node)
    (child : Node) : CycleSearch Node :=
  if search.mark child = 0 then dfs deps depth search child
  else if search.mark child = 1 then search.closeCycle child
  else search

theorem dfs_succ (depth : Nat) (node : Node) :
    dfs deps (depth + 1) search node =
      ((deps[node]?.getD ∅).toList.foldl (visitChild deps depth)
        (search.enter node)).leave node := by
  rw [dfs]
  congr 2
  funext search child
  unfold visitChild
  split <;> simp_all

/-- The state between two children of the node that is visited. -/
structure Exploring (deps : SetMap Node Node) (before : CycleSearch Node) (node : Node)
    (tried : List Node) (search : CycleSearch Node) : Prop where
  sound : Sound deps search
  extended : Extends (before.enter node) search
  visited : ∀ child ∈ tried, search.Visited child
  cycles : ∀ child ∈ tried, ∀ front rest,
    before.stack ++ [node] = front ++ child :: rest →
      ∀ member ∈ child :: rest, member ∈ search.cycleNodes

/-- What a visit of a fresh node keeps, given that all smaller nodes that could follow were
visited. -/
def VisitKeeps (deps : SetMap Node Node) (depth : Nat) : Prop :=
  ∀ (search : CycleSearch Node) (node : Node), Sound deps search → search.mark node = 0 →
    Follows (· ∈ deps) deps.Has search.stack node →
    (∀ other < node, Follows (· ∈ deps) deps.Has search.stack other →
      search.Visited other) →
    (∀ on ∈ search.stack, on ∈ deps) →
    deps.size + 1 ≤ depth + search.stack.length →
    Sound deps (dfs deps depth search node) ∧
      Extends search (dfs deps depth search node) ∧
      (dfs deps depth search node).Visited node

theorem Exploring.extend {before after : CycleSearch Node} {node : Node}
    {tried : List Node} (exploring : Exploring deps before node tried search)
    (sound : Sound deps after) (extended : Extends search after) {child : Node}
    (visited : after.Visited child)
    (cycles : ∀ front rest, before.stack ++ [node] = front ++ child :: rest →
      ∀ member ∈ child :: rest, member ∈ after.cycleNodes) :
    Exploring deps before node (tried ++ [child]) after where
  sound := sound
  extended := exploring.extended.trans extended
  visited := by
    intro other member
    rcases List.mem_append.mp member with member | member
    · exact extended.visited other (exploring.visited other member)
    · rw [List.mem_singleton.mp member]
      exact visited
  cycles := by
    intro other member front rest split inside found
    rcases List.mem_append.mp member with member | member
    · exact extended.found inside (exploring.cycles other member front rest split inside found)
    · rw [List.mem_singleton.mp member] at split found
      exact cycles front rest split inside found

/-- One child is tried. -/
theorem Exploring.visitChild {depth : Nat} (keeps : VisitKeeps deps depth)
    {before : CycleSearch Node} {node : Node} {tried rest : List Node} {child : Node}
    (exploring : Exploring deps before node tried search)
    (first : FirstPath (· ∈ deps) deps.Has (before.stack ++ [node]) node)
    (children : (deps[node]?.getD ∅).toList = tried ++ child :: rest)
    (keys : ∀ on ∈ before.stack ++ [node], on ∈ deps)
    (bound : deps.size + 1 ≤ depth + (before.stack.length + 1)) :
    Exploring deps before node (tried ++ [child]) (visitChild deps depth search child) := by
  have path : search.stack = before.stack ++ [node] := exploring.extended.stack
  have edge : ∀ other, deps.Has node other ↔ other ∈ tried ++ child :: rest := by
    intro other
    rw [← children, SetMap.has_iff_getD, Std.ExtTreeSet.mem_toList]
  have below : ∀ other < child, deps.Has node other → other ∈ tried := by
    intro other less has
    have sorted := Std.ExtTreeSet.ordered_toList (t := deps[node]?.getD ∅)
    rw [children, List.pairwise_append] at sorted
    rcases List.mem_append.mp ((edge other).mp has) with member | member
    · exact member
    · rcases List.mem_cons.mp member with rfl | member
      · exact absurd less (lt_irrefl _)
      · have more := (List.pairwise_cons.mp sorted.2.1).1 other member
        exact absurd less (lt_asymm (compare_lt_iff_lt.mp more))
  unfold CycleSearch.visitChild
  split
  case isTrue fresh =>
    obtain ⟨sound, extended, visited⟩ := keeps search child exploring.sound fresh
      (by rw [path, FirstPaths.follows_concat, edge]; simp)
      (by
        intro other less follows
        rw [path, FirstPaths.follows_concat] at follows
        exact exploring.visited other (below other less follows))
      (by rwa [path])
      (by rw [path]; simpa using bound)
    refine exploring.extend sound extended visited ?_
    intro front rest split
    have off := exploring.sound.off_of_fresh fresh
    rw [path, split] at off
    simp at off
  case isFalse entered =>
    split
    case isTrue on =>
      have has : deps.Has node child := (edge child).mpr (by simp)
      have nodup := path ▸ first.1.nodup
      have extended := exploring.sound.extends_closeCycle nodup on
      refine exploring.extend (exploring.sound.closeCycle (path ▸ first) has on) extended
        (extended.visited child entered) ?_
      intro front rest split member inside
      exact (exploring.sound.mem_closeCycle nodup (path.trans split)).mpr (Or.inl inside)
    case isFalse left =>
      refine exploring.extend exploring.sound (Extends.refl search) entered ?_
      intro front rest split
      refine absurd ((exploring.sound.onStack child).mpr ?_) left
      rw [path, split]
      simp

theorem Exploring.foldl {depth : Nat} (keeps : VisitKeeps deps depth)
    {before : CycleSearch Node} {node : Node} {tried rest : List Node}
    (exploring : Exploring deps before node tried search)
    (first : FirstPath (· ∈ deps) deps.Has (before.stack ++ [node]) node)
    (children : (deps[node]?.getD ∅).toList = tried ++ rest)
    (keys : rest ≠ [] → ∀ on ∈ before.stack ++ [node], on ∈ deps)
    (bound : deps.size + 1 ≤ depth + (before.stack.length + 1)) :
    Exploring deps before node (tried ++ rest)
      (rest.foldl (CycleSearch.visitChild deps depth) search) := by
  induction rest generalizing search tried with
  | nil => simpa using exploring
  | cons child rest ih =>
      have onKeys := keys (List.cons_ne_nil _ _)
      have next := exploring.visitChild keeps first children onKeys bound
      have onward := ih next (by simpa using children) fun _ => onKeys
      rw [List.append_assoc, List.singleton_append] at onward
      exact onward

/-- Distinct keys are no more than the entries. -/
theorem length_le_size {nodes : List Node} (nodup : nodes.Nodup)
    (keys : ∀ node ∈ nodes, node ∈ deps) : nodes.length ≤ deps.size := by
  rw [← Std.ExtTreeMap.length_keys]
  refine (nodup.subperm ?_).length_le
  intro node member
  exact Std.ExtTreeMap.mem_keys.mpr (keys node member)

/-- A visit is nested at most as deep as the path is long, and a path repeats no key. -/
theorem visitKeeps (depth : Nat) : VisitKeeps deps depth := by
  induction depth with
  | zero =>
      intro search node sound _ _ _ keys bound
      have nodup : search.stack.Nodup := by
        cases top : search.stack.getLast? with
        | none => simp [List.getLast?_eq_none_iff.mp top]
        | some last => exact (sound.path last top).nodup
      have := length_le_size nodup keys
      omega
  | succ depth ih =>
      intro search node sound fresh follows earlier keys bound
      have simple := sound.path_enter fresh follows
      have first := simple.first (sound.blocked_enter earlier) (by simpa [Visited] using fresh)
      have start : Exploring deps search node [] (search.enter node) :=
        ⟨sound.enter fresh follows earlier, Extends.refl _, by simp, by simp⟩
      have onKeys : (deps[node]?.getD ∅).toList ≠ [] →
          ∀ on ∈ search.stack ++ [node], on ∈ deps := by
        intro some' on member
        rcases List.mem_append.mp member with member | member
        · exact keys on member
        · rw [List.mem_singleton.mp member]
          by_contra absent
          rw [Std.ExtTreeMap.getElem?_eq_none absent] at some'
          exact some' rfl
      have explored : Exploring deps search node (deps[node]?.getD ∅).toList
          ((deps[node]?.getD ∅).toList.foldl (visitChild deps depth) (search.enter node)) :=
        start.foldl ih first rfl onKeys (by omega)
      have children : ∀ child, deps.Has node child →
          child ∈ (deps[node]?.getD ∅).toList := by
        intro child has
        rw [Std.ExtTreeSet.mem_toList]
        exact SetMap.has_iff_getD.mp has
      rw [dfs_succ]
      refine ⟨sound.leave explored.sound explored.extended fresh first
        (fun child has => explored.visited child (children child has))
        (fun child has => explored.cycles child (children child has)),
        ⟨?_, ?_, explored.extended.found⟩, visited_leave.mpr (Or.inl rfl)⟩
      · unfold CycleSearch.leave
        rw [explored.extended.stack]
        unfold CycleSearch.enter
        simp
      · intro other entered
        exact visited_leave.mpr
          (Or.inr (explored.extended.visited other (visited_enter.mpr (Or.inr entered))))

theorem sound_empty : Sound deps ({} : CycleSearch Node) where
  onStack := by simp [mark]
  bounded := by simp [mark]
  positions := by simp
  positioned := by simp
  path := by simp
  closed := by simp [mark]
  blocked := FirstPaths.blocked_nil
  found := by simp
  complete := by simp [mark]

/-- The loop over the keys. -/
def searchFrom (deps : SetMap Node Node) (search : CycleSearch Node) (node : Node) :
    CycleSearch Node :=
  if search.mark node = 0 then dfs deps (deps.size + 1) search node else search

/-- The state between two keys. -/
structure Searching (deps : SetMap Node Node) (done : List Node)
    (search : CycleSearch Node) : Prop where
  sound : Sound deps search
  stack : search.stack = []
  visited : ∀ node ∈ done, search.Visited node

theorem Searching.searchFrom {done rest : List Node} {node : Node}
    (searching : Searching deps done search) (keys : deps.keys = done ++ node :: rest) :
    Searching deps (done ++ [node]) (searchFrom deps search node) := by
  have isKey : ∀ other, other ∈ deps ↔ other ∈ done ++ node :: rest := by
    intro other
    rw [← keys, Std.ExtTreeMap.mem_keys]
  unfold CycleSearch.searchFrom
  split
  case isTrue fresh =>
    have earlier : ∀ other < node, Follows (· ∈ deps) deps.Has search.stack other →
        search.Visited other := by
      intro other less follows
      rw [searching.stack, FirstPaths.follows_nil, isKey] at follows
      rcases List.mem_append.mp follows with member | member
      · exact searching.visited other member
      · have sorted := Std.ExtTreeMap.ordered_keys (t := deps)
        rw [keys, List.pairwise_append] at sorted
        rcases List.mem_cons.mp member with rfl | member
        · exact absurd less (lt_irrefl _)
        · have more := (List.pairwise_cons.mp sorted.2.1).1 other member
          exact absurd less (lt_asymm (compare_lt_iff_lt.mp more))
    obtain ⟨sound, extended, visited⟩ := visitKeeps (deps.size + 1) search node
      searching.sound fresh
      (by rw [searching.stack, FirstPaths.follows_nil, isKey]; simp)
      earlier (by simp [searching.stack]) (by omega)
    refine ⟨sound, extended.stack.trans searching.stack, ?_⟩
    intro other member
    rcases List.mem_append.mp member with member | member
    · exact extended.visited other (searching.visited other member)
    · rw [List.mem_singleton.mp member]
      exact visited
  case isFalse entered =>
    refine ⟨searching.sound, searching.stack, ?_⟩
    intro other member
    rcases List.mem_append.mp member with member | member
    · exact searching.visited other member
    · rw [List.mem_singleton.mp member]
      exact entered

theorem Searching.foldl {done rest : List Node} (searching : Searching deps done search)
    (keys : deps.keys = done ++ rest) :
    Searching deps (done ++ rest) (rest.foldl (CycleSearch.searchFrom deps) search) := by
  induction rest generalizing done search with
  | nil => simpa using searching
  | cons node rest ih =>
      have onward := ih (searching.searchFrom keys) (by simpa using keys)
      rw [List.append_assoc, List.singleton_append] at onward
      exact onward

end CycleSearch

theorem detectCycleNodes_eq (deps : SetMap Node Node) :
    detectCycleNodes deps =
      (deps.keys.foldl (CycleSearch.searchFrom deps) {}).cycleNodes.toList :=
  rfl

/-- The search finds the nodes on the cycles that an edge closes from the end of a first
path. -/
theorem mem_detectCycleNodes (deps : SetMap Node Node) (node : Node) :
    node ∈ detectCycleNodes deps ↔ ClosesFirstPath deps node := by
  have start : CycleSearch.Searching deps [] ({} : CycleSearch Node) :=
    ⟨CycleSearch.sound_empty, rfl, by simp⟩
  have searched : CycleSearch.Searching deps deps.keys
      (deps.keys.foldl (CycleSearch.searchFrom deps) {}) := start.foldl rfl
  rw [detectCycleNodes_eq, Std.ExtTreeSet.mem_toList]
  constructor
  · exact searched.sound.found node
  · rintro ⟨front, head, rest, last, first, edge, inside⟩
    have isKey : last ∈ deps.keys := Std.ExtTreeMap.mem_keys.mpr (SetMap.mem_of_has edge)
    have left := searched.sound.left_of_not_mem (searched.visited last isKey)
      (by simp [searched.stack])
    exact searched.sound.complete last left front head rest first edge node inside

theorem detectCycleNodes_sorted (deps : SetMap Node Node) :
    (detectCycleNodes deps).Pairwise (· < ·) := by
  rw [detectCycleNodes_eq]
  exact Std.ExtTreeSet.ordered_toList.imp compare_lt_iff_lt.mp

/-- The node lies on a directed cycle. -/
def OnCycle (deps : SetMap Node Node) (node : Node) : Prop :=
  Relation.TransGen deps.Has node node

theorem ClosesFirstPath.onCycle {deps : SetMap Node Node} {node : Node}
    (closes : ClosesFirstPath deps node) : OnCycle deps node := by
  obtain ⟨front, head, rest, last, first, edge, inside⟩ := closes
  obtain ⟨toNode, toLast⟩ := first.1.reaches rfl inside
  exact (Relation.TransGen.tail' toLast edge).trans_left toNode

/-- `detect_cycle_nodes` lists the nodes on directed cycles in order exactly when each of
them lies on the end of a first path that an edge from its last node closes. -/
theorem detectCycleNodes_onCycle_iff (deps : SetMap Node Node) :
    ((detectCycleNodes deps).Pairwise (· < ·) ∧
        ∀ node, node ∈ detectCycleNodes deps ↔ OnCycle deps node) ↔
      ∀ node, OnCycle deps node → ClosesFirstPath deps node := by
  constructor
  · rintro ⟨-, exact'⟩ node cycle
    exact (mem_detectCycleNodes deps node).mp ((exact' node).mpr cycle)
  · intro closes
    refine ⟨detectCycleNodes_sorted deps, ?_⟩
    intro node
    rw [mem_detectCycleNodes]
    exact ⟨ClosesFirstPath.onCycle, closes node⟩

/-- Three tasks in one component: the edge from the last to the second one is ignored,
since the second one was left already. -/
def leftComponent : SetMap Nat Nat :=
  (((SetMap.insertAt ∅ 0 1).insertAt 0 2).insertAt 1 0).insertAt 2 1

theorem leftComponent_missed :
    detectCycleNodes leftComponent = [0, 1] ∧ OnCycle leftComponent 2 := by
  have edges : leftComponent.Has 2 1 ∧ leftComponent.Has 1 0 ∧ leftComponent.Has 0 2 := by
    decide +kernel
  constructor
  · decide +kernel
  · exact .head edges.1 (.head edges.2.1 (.single edges.2.2))

end Roko
