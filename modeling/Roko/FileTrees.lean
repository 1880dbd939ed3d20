import Mathlib.Data.List.Induction

/-!
# Trees of files with symbolic links

A tree says what is at each path of names.  A route is a path as it is written, with `.`
and `..`.  It is walked from a directory, step by step, and a symbolic link on the way is
replaced by the route that it names.  The number of links that a walk may follow is limited.
-/

namespace FileTrees

inductive Segment (Name : Type)
  | name (name : Name)
  | parent
  /-- A single dot, or nothing between two separators. -/
  | current
  deriving DecidableEq

structure Route (Name : Type) where
  absolute : Bool
  segments : List (Segment Name)
  deriving DecidableEq

inductive Entry (Name : Type)
  | file
  | directory
  | link (target : Route Name)
  deriving DecidableEq

structure FileTree (Name : Type) where
  entry : List Name → Option (Entry Name)
  root : entry [] = some .directory
  parent : ∀ path name, entry (path ++ [name]) ≠ none → entry path = some .directory

variable {Name : Type}

/-- Where a route starts when it is walked from a directory. -/
def Route.start (route : Route Name) (directory : List Name) : List Name :=
  if route.absolute then [] else directory

/-- The segments that names are written as. -/
def written (names : List Name) : List (Segment Name) :=
  names.map .name

/-- The absolute route of some names. -/
def Route.ofNames (names : List Name) : Route Name where
  absolute := true
  segments := written names

theorem written_append (front back : List Name) :
    written (front ++ back) = written front ++ written back :=
  List.map_append

namespace FileTree

variable (tree : FileTree Name)

/-- A file or a directory, not a link. -/
def Stands (place : List Name) : Prop :=
  tree.entry place = some .file ∨ tree.entry place = some .directory

variable {tree}

/-- What is above something in the tree is a directory. -/
theorem directory_of_append {front back : List Name} (inner : back ≠ [])
    (there : tree.entry (front ++ back) ≠ none) : tree.entry front = some .directory := by
  induction back using List.reverseRecOn with
  | nil => exact absurd rfl inner
  | append_singleton back last ih =>
      rw [← List.append_assoc] at there
      have above := tree.parent (front ++ back) last there
      by_cases only : back = []
      · rw [only, List.append_nil] at above
        exact above
      · exact ih only (by simp [above])

theorem Stands.dropLast {place : List Name} (stands : tree.entry place = some .directory) :
    tree.entry place.dropLast = some .directory := by
  induction place using List.reverseRecOn with
  | nil => exact tree.root
  | append_singleton place last ih =>
      rw [List.dropLast_concat]
      exact tree.parent place last (by simp [stands])

def lookup [DecidableEq Name] (table : List (List Name × Entry Name)) (path : List Name) :
    Option (Entry Name) :=
  (table.find? fun row => row.1 = path).map Prod.snd

/-- The tree of a table that has the directory above each of its rows. -/
def ofTable [DecidableEq Name] (table : List (List Name × Entry Name))
    (top : lookup table [] = some .directory)
    (closed : ∀ row ∈ table, row.1 ≠ [] →
      lookup table row.1.dropLast = some .directory) : FileTree Name where
  entry := lookup table
  root := top
  parent path name there := by
    obtain ⟨entry, found⟩ := Option.ne_none_iff_exists'.mp there
    obtain ⟨row, isRow, _⟩ := Option.map_eq_some_iff.mp found
    have above := closed row (List.mem_of_find?_eq_some isRow)
    have same : row.1 = path ++ [name] := by simpa using List.find?_some isRow
    rw [same, List.dropLast_concat] at above
    exact above (by simp)

section Walks

variable [DecidableEq Name] (tree) (create : Bool)

/-- Walk some segments from a place, with a way to go on at a link.  A walk may create the
last name, where nothing is. -/
def walkWith (follow : List Name → Route Name → List (Segment Name) → Option (List Name)) :
    List Name → List (Segment Name) → Option (List Name)
  | place, [] => some place
  | place, segment :: rest =>
      if tree.entry place = some .directory then
        match segment with
        | .current => walkWith follow place rest
        | .parent => walkWith follow place.dropLast rest
        | .name name =>
            match tree.entry (place ++ [name]) with
            | none => if create && rest.isEmpty then some (place ++ [name]) else none
            | some (.link target) => follow place target rest
            | some .file => walkWith follow (place ++ [name]) rest
            | some .directory => walkWith follow (place ++ [name]) rest
      else none

/-- Walk some segments from a place, over at most `links` links. -/
def walk : Nat → List Name → List (Segment Name) → Option (List Name)
  | 0 => tree.walkWith create fun _ _ _ => none
  | links + 1 => tree.walkWith create fun place target rest =>
      walk links (target.start place) (target.segments ++ rest)

variable {tree} {create}
variable {follow : List Name → Route Name → List (Segment Name) → Option (List Name)}

/-- A walk that starts at something ends at something, when it creates nothing. -/
theorem walkWith_stands
    (followed : ∀ place target rest object, tree.entry place = some .directory →
      follow place target rest = some object → tree.Stands object)
    {segments : List (Segment Name)} {place object : List Name} (stands : tree.Stands place)
    (walked : tree.walkWith false follow place segments = some object) :
    tree.Stands object := by
  induction segments generalizing place with
  | nil =>
      cases walked
      exact stands
  | cons segment rest ih =>
      rw [walkWith.eq_def] at walked
      dsimp only at walked
      split at walked
      case isFalse => cases walked
      case isTrue directory =>
        cases segment with
        | current => exact ih stands walked
        | parent => exact ih (Or.inr (Stands.dropLast directory)) walked
        | name name =>
            dsimp only at walked
            split at walked
            case h_1 => cases walked
            case h_2 target found => exact followed place target rest object directory walked
            case h_3 found => exact ih (Or.inl found) walked
            case h_4 found => exact ih (Or.inr found) walked

theorem walk_stands {links : Nat} {segments : List (Segment Name)}
    {place object : List Name} (stands : tree.Stands place)
    (walked : tree.walk false links place segments = some object) : tree.Stands object := by
  induction links generalizing place segments object with
  | zero => exact walkWith_stands (fun _ _ _ _ _ absurd' => by cases absurd') stands walked
  | succ links ih =>
      refine walkWith_stands ?_ stands walked
      intro place target rest object directory followed
      refine ih ?_ followed
      rw [Route.start]
      split
      · exact Or.inr tree.root
      · exact Or.inr directory

/-- The first step of a walk is made in a directory. -/
theorem directory_of_walk {links : Nat} {segments : List (Segment Name)}
    {place object : List Name} (some' : segments ≠ [])
    (walked : tree.walk create links place segments = some object) :
    tree.entry place = some .directory := by
  obtain ⟨segment, rest, rfl⟩ := List.exists_cons_of_ne_nil some'
  cases links with
  | zero =>
      rw [walk, walkWith.eq_def] at walked
      exact (Option.ite_none_right_eq_some.mp walked).1
  | succ links =>
      rw [walk, walkWith.eq_def] at walked
      exact (Option.ite_none_right_eq_some.mp walked).1

/-- Names that are in the tree are walked one by one. -/
theorem walkWith_written {names : List Name} {place : List Name}
    (stands : tree.Stands (place ++ names)) (rest : List (Segment Name)) :
    tree.walkWith create follow place (written names ++ rest) =
      tree.walkWith create follow (place ++ names) rest := by
  induction names generalizing place with
  | nil => rw [List.append_nil]; rfl
  | cons name names ih =>
      have there : tree.entry (place ++ name :: names) ≠ none := by
        rcases stands with found | found <;> simp [found]
      have directory := directory_of_append (List.cons_ne_nil _ _) there
      rw [List.append_cons] at stands there ⊢
      change tree.walkWith create follow place (.name name :: (written names ++ rest)) = _
      have first : tree.Stands (place ++ [name]) := by
        by_cases last : names = []
        · rwa [last, List.append_nil] at stands
        · exact Or.inr (directory_of_append last there)
      rw [walkWith, if_pos directory]
      rcases first with found | found
      · simp only [found]
        exact ih stands
      · simp only [found]
        exact ih stands

theorem walk_written {links : Nat} {names : List Name} {place : List Name}
    (stands : tree.Stands (place ++ names)) (rest : List (Segment Name)) :
    tree.walk create links place (written names ++ rest) =
      tree.walk create links (place ++ names) rest := by
  cases links with
  | zero => exact walkWith_written stands rest
  | succ links => exact walkWith_written stands rest

/-- A walk over names meets a link behind some of them, and goes on from there. -/
def MeetsLink (tree : FileTree Name)
    (walk : List Name → List (Segment Name) → Option (List Name)) (place names object : List Name) :
    Prop :=
  ∃ front first back target, names = front ++ first :: back ∧
    tree.entry (place ++ front ++ [first]) = some (.link target) ∧
      walk (place ++ front) (written (first :: back)) = some object

omit [DecidableEq Name] in
theorem MeetsLink.cons {walk : List Name → List (Segment Name) → Option (List Name)}
    {place names object : List Name} {name : Name}
    (later : tree.MeetsLink walk (place ++ [name]) names object) :
    tree.MeetsLink walk place (name :: names) object := by
  obtain ⟨front, first, back, target, split, link, rest⟩ := later
  refine ⟨name :: front, first, back, target, by rw [split]; rfl, ?_, ?_⟩
  · simpa using link
  · simpa using rest

/-- A walk over names goes from one to the next, up to the first link. -/
theorem walkWith_names {names : List Name} {place object : List Name}
    (walked : tree.walkWith create follow place (written names) = some object) :
    object = place ++ names ∨
      tree.MeetsLink (tree.walkWith create follow) place names object := by
  induction names generalizing place with
  | nil =>
      left
      cases walked
      rw [List.append_nil]
  | cons name names ih =>
      have whole := walked
      change tree.walkWith create follow place (.name name :: written names) = _ at walked
      have further (walked : tree.walkWith create follow (place ++ [name]) (written names) =
          some object) : object = place ++ name :: names ∨
          tree.MeetsLink (tree.walkWith create follow) place (name :: names) object := by
        refine (ih walked).imp ?_ MeetsLink.cons
        intro there
        rw [there, List.append_assoc]
        rfl
      rw [walkWith.eq_def] at walked
      dsimp only at walked
      split at walked
      case isFalse => cases walked
      case isTrue =>
        split at walked
        case h_1 =>
          split at walked
          case isTrue last =>
            left
            have none' : names = [] := by
              rw [Bool.and_eq_true, List.isEmpty_iff, written, List.map_eq_nil_iff] at last
              exact last.2
            rw [none']
            exact (Option.some.inj walked).symm
          case isFalse => cases walked
        case h_2 target found =>
          right
          refine ⟨[], name, names, target, rfl, ?_, ?_⟩
          · simpa using found
          · simpa using whole
        case h_3 => exact further walked
        case h_4 => exact further walked

theorem walk_names {links : Nat} {names : List Name} {place object : List Name}
    (walked : tree.walk create links place (written names) = some object) :
    object = place ++ names ∨ tree.MeetsLink (tree.walk create links) place names object := by
  cases links with
  | zero => exact walkWith_names walked
  | succ links => exact walkWith_names walked

end Walks

end FileTree

end FileTrees
