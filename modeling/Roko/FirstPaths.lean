import Mathlib.Data.List.Lex
import Mathlib.Data.List.Nodup

/-!
# Lexicographically first paths

A depth-first search that tries smaller nodes first reaches every node along the least of
all simple paths to it.  The rules below follow the path that the search is on: whatever
could have been listed earlier at some place of the path leads only to nodes that were
visited already.
-/

namespace FirstPaths

variable {Node : Type*}

/-- The node may stand after the path: a start node after the empty one, else a node that
is needed by the last one. -/
def Follows (start : Node → Prop) (needs : Node → Node → Prop) (front : List Node)
    (node : Node) : Prop :=
  match front.getLast? with
  | none => start node
  | some last => needs last node

/-- A path from a start node to the node that repeats no node. -/
structure SimplePath (start : Node → Prop) (needs : Node → Node → Prop)
    (path : List Node) (node : Node) : Prop where
  nodup : path.Nodup
  follows : ∀ front next rest, path = front ++ next :: rest →
    Follows start needs front next
  ends : path.getLast? = some node

/-- No simple path to the node is less than this one. -/
def FirstPath [LT Node] (start : Node → Prop) (needs : Node → Node → Prop)
    (path : List Node) (node : Node) : Prop :=
  SimplePath start needs path node ∧
    ∀ other, SimplePath start needs other node → ¬ List.Lex (· < ·) other path

/-- The node leads to the other one without passing the given nodes. -/
def LeadsAround (needs : Node → Node → Prop) (avoided : List Node) : Node → Node → Prop :=
  Relation.ReflTransGen fun node next => needs node next ∧ next ∉ avoided

theorem LeadsAround.needs {needs : Node → Node → Prop} {avoided : List Node}
    {node reached : Node} (leads : LeadsAround needs avoided node reached) :
    Relation.ReflTransGen needs node reached :=
  Relation.ReflTransGen.mono (fun _ _ edge => edge.1) _ _ leads

/-- What could stand earlier at some place of the path leads around what is before that
place only to visited nodes. -/
def Blocked [LT Node] (start : Node → Prop) (needs : Node → Node → Prop)
    (path : List Node) (visited : Node → Prop) : Prop :=
  ∀ front node rest, path = front ++ node :: rest →
    ∀ other < node, Follows start needs front other → other ∉ front →
      ∀ reached, LeadsAround needs front other reached → visited reached

variable {start : Node → Prop} {needs : Node → Node → Prop}

theorem follows_nil {node : Node} : Follows start needs [] node ↔ start node :=
  Iff.rfl

theorem follows_concat {front : List Node} {last node : Node} :
    Follows start needs (front ++ [last]) node ↔ needs last node := by
  simp [Follows]

theorem SimplePath.concat {path : List Node} {last node : Node}
    (simple : SimplePath start needs path last) (edge : needs last node)
    (fresh : node ∉ path) : SimplePath start needs (path ++ [node]) node where
  nodup := by
    rw [List.nodup_append]
    refine ⟨simple.nodup, List.nodup_singleton node, ?_⟩
    rintro earlier member same here rfl
    exact fresh (List.mem_singleton.mp here ▸ member)
  follows := by
    intro front next rest split
    rcases List.eq_nil_or_concat rest with rfl | ⟨rest, tail, rfl⟩
    · obtain ⟨rfl, same⟩ := List.append_inj' split rfl
      rw [← List.singleton_inj.mp same, Follows, simple.ends]
      exact edge
    · have shorter : path ++ [node] = (front ++ next :: rest) ++ [tail] := by
        simpa using split
      obtain ⟨rfl, -⟩ := List.append_inj' shorter rfl
      exact simple.follows front next rest rfl
  ends := by simp

theorem simplePath_singleton {node : Node} (isStart : start node) :
    SimplePath start needs [node] node where
  nodup := List.nodup_singleton node
  follows := by
    intro front next rest split
    cases front with
    | nil =>
        obtain ⟨rfl, -⟩ := List.cons_eq_cons.mp split
        exact isStart
    | cons first front => simp at split
  ends := rfl

/-- The nodes of a simple path lead to its end, around what stands before them. -/
theorem SimplePath.leadsAround {path front rest : List Node} {node last : Node}
    (simple : SimplePath start needs path last)
    (split : path = front ++ node :: rest) : LeadsAround needs front node last := by
  have from' : ∀ rest extra node, path = front ++ extra ++ node :: rest →
      LeadsAround needs front node last := by
    intro rest
    induction rest with
    | nil =>
        intro extra node split
        have ends := simple.ends
        rw [split, List.getLast?_concat] at ends
        rw [Option.some.inj ends]
        exact .refl
    | cons next rest ih =>
        intro extra node split
        have shifted : path = (front ++ extra ++ [node]) ++ next :: rest := by
          simp [split]
        have edge := follows_concat.mp (simple.follows _ _ _ shifted)
        have apart : next ∉ front := by
          have nodup := simple.nodup
          rw [shifted, List.nodup_append] at nodup
          intro member
          exact nodup.2.2 next (by simp [member]) next List.mem_cons_self rfl
        refine .head ⟨edge, apart⟩ (ih (extra ++ [node]) next ?_)
        simp [split]
  exact from' rest [] node (by simpa using split)

/-- The part of a simple path up to a node is a simple path to it. -/
theorem SimplePath.upTo {path front rest : List Node} {node last : Node}
    (simple : SimplePath start needs path last)
    (split : path = front ++ node :: rest) :
    SimplePath start needs (front ++ [node]) node where
  nodup := by
    have nodup := simple.nodup
    have parts : path = (front ++ [node]) ++ rest := by simp [split]
    rw [parts, List.nodup_append] at nodup
    exact nodup.1
  follows := by
    intro before next after parts
    have whole : path = before ++ next :: (after ++ rest) := by
      calc path = (front ++ [node]) ++ rest := by simp [split]
        _ = before ++ next :: (after ++ rest) := by simp [parts]
    exact simple.follows before next _ whole
  ends := by simp

/-- Between two nodes of a simple path the earlier one leads to the later one. -/
theorem SimplePath.reaches {path front rest : List Node} {node last between : Node}
    (simple : SimplePath start needs path last)
    (split : path = front ++ node :: rest) (member : between ∈ node :: rest) :
    Relation.ReflTransGen needs node between ∧ Relation.ReflTransGen needs between last := by
  obtain ⟨inner, after, parts⟩ := List.append_of_mem member
  have whole : path = (front ++ inner) ++ between :: after := by simp [split, parts]
  constructor
  · have shorter := simple.upTo whole
    cases inner with
    | nil =>
        rw [← (List.cons_eq_cons.mp parts).1]
    | cons first inner =>
        have same := (List.cons_eq_cons.mp parts).1
        have leads : LeadsAround needs front node between :=
          shorter.leadsAround (by simp [same] : _ = front ++ node :: (inner ++ [between]))
        exact leads.needs
  · exact (simple.leadsAround whole).needs

/-- Where one list is below another, it ends first or has a smaller entry. -/
theorem lex_split [LT Node] {left right : List Node} (less : List.Lex (· < ·) left right) :
    (∃ node rest, right = left ++ node :: rest) ∨
      ∃ front lower upper leftRest rightRest, lower < upper ∧
        left = front ++ lower :: leftRest ∧ right = front ++ upper :: rightRest := by
  induction less with
  | nil => exact Or.inl ⟨_, _, rfl⟩
  | @cons node left right _ ih =>
      rcases ih with ⟨next, rest, rfl⟩ | ⟨front, lower, upper, _, _, below, rfl, rfl⟩
      · exact Or.inl ⟨next, rest, rfl⟩
      · exact Or.inr ⟨node :: front, lower, upper, _, _, below, rfl, rfl⟩
  | rel below => exact Or.inr ⟨[], _, _, _, _, below, rfl, rfl⟩

/-- A simple path to a node that is not visited yet is the first one to it, if the path is
blocked. -/
theorem SimplePath.first [LT Node] {path : List Node} {node : Node}
    (simple : SimplePath start needs path node) {visited : Node → Prop}
    (blocked : Blocked start needs path visited) (fresh : ¬ visited node) :
    FirstPath start needs path node := by
  refine ⟨simple, ?_⟩
  intro other otherSimple less
  rcases lex_split less with ⟨next, rest, rfl⟩ |
    ⟨front, lower, upper, lowerRest, upperRest, below, rfl, rfl⟩
  · -- Both paths end at the node, which would be repeated.
    have early := List.mem_of_getLast? otherSimple.ends
    have late : node ∈ next :: rest := by
      have ends := simple.ends
      rw [List.getLast?_append_of_ne_nil _ (List.cons_ne_nil _ _)] at ends
      exact List.mem_of_getLast? ends
    exact (List.nodup_append.mp simple.nodup).2.2 node early node late rfl
  · apply fresh
    have apart : lower ∉ front := by
      have nodup := List.nodup_append.mp otherSimple.nodup
      exact fun member => nodup.2.2 lower member lower List.mem_cons_self rfl
    exact blocked front upper upperRest rfl lower below
      (otherSimple.follows front lower lowerRest rfl) apart node
      (otherSimple.leadsAround rfl)

theorem FirstPath.unique [LT Node] [@Std.Trichotomous Node (· < ·)]
    {path other : List Node} {node : Node} (first : FirstPath start needs path node)
    (otherFirst : FirstPath start needs other node) : path = other :=
  (List.Lex.trichotomous (· < ·)).trichotomous path other (otherFirst.2 path first.1)
    (first.2 other otherFirst.1)

theorem blocked_nil [LT Node] {visited : Node → Prop} :
    Blocked start needs [] visited := by
  intro front node rest split
  simp at split

theorem Blocked.mono [LT Node] {path : List Node} {visited later : Node → Prop}
    (blocked : Blocked start needs path visited)
    (grows : ∀ node, visited node → later node) : Blocked start needs path later :=
  fun front node rest split other below follows apart reached leads =>
    grows reached (blocked front node rest split other below follows apart reached leads)

/-- The path may go on to a node when everything that could stand there instead and is
smaller was visited, and visited nodes off the path need visited nodes only. -/
theorem Blocked.concat [LT Node] {path : List Node} {visited : Node → Prop}
    (blocked : Blocked start needs path visited) {node : Node}
    (closed : ∀ done, visited done → done ∉ path → ∀ next, needs done next → visited next)
    (earlier : ∀ other < node, Follows start needs path other → visited other) :
    Blocked start needs (path ++ [node]) visited := by
  intro front next rest split other below follows apart reached leads
  rcases List.eq_nil_or_concat rest with rfl | ⟨rest, tail, rfl⟩
  · obtain ⟨rfl, same⟩ := List.append_inj' split rfl
    rw [← List.singleton_inj.mp same] at below
    have visitedAround : visited reached ∧ reached ∉ path := by
      induction leads with
      | refl => exact ⟨earlier other below follows, apart⟩
      | tail _ edge ih => exact ⟨closed _ ih.1 ih.2 _ edge.1, edge.2⟩
    exact visitedAround.1
  · have shorter : path ++ [node] = (front ++ next :: rest) ++ [tail] := by
      simpa using split
    obtain ⟨rfl, -⟩ := List.append_inj' shorter rfl
    exact blocked front next rest rfl other below follows apart reached leads

end FirstPaths
