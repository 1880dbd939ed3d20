import Mathlib.Algebra.GroupWithZero.Nat
import Mathlib.Data.List.Infix
import Mathlib.Data.List.Nodup

/-!
# Trees of directories

What lies below a directory: files and directories, each under its path.  Every path but
the first one of a branch lies in a directory of the tree, so that removing a directory with
all it holds leaves a tree.
-/

namespace DirectoryTrees

/-- The names that lead to a file or directory. -/
abbrev Path := List String

/-- A file with its bytes, or a directory with the length the system gives it. -/
inductive Node (Time : Type)
  | file (contents : List UInt8) (modified : Time)
  | dir (length : Nat) (modified : Time)
  deriving DecidableEq, Repr

section Nodes

variable {Time : Type}

def Node.isDir : Node Time → Bool
  | .file .. => false
  | .dir .. => true

def Node.modified : Node Time → Time
  | .file _ modified => modified
  | .dir _ modified => modified

def Node.length : Node Time → Nat
  | .file contents _ => contents.length
  | .dir length _ => length

/-- The node after an entry of it was removed. -/
def Node.touch (now : Time) : Node Time → Node Time
  | .file contents modified => .file contents modified
  | .dir length _ => .dir length now

@[simp]
theorem Node.isDir_touch (now : Time) (node : Node Time) :
    (node.touch now).isDir = node.isDir := by
  cases node <;> rfl

@[simp]
theorem Node.touch_touch (now : Time) (node : Node Time) :
    (node.touch now).touch now = node.touch now := by
  cases node <;> rfl

theorem Node.touch_of_file (now : Time) {node : Node Time} (file : node.isDir = false) :
    node.touch now = node := by
  cases node with
  | file contents modified => rfl
  | dir length modified => cases file

end Nodes

structure DirTree (Time : Type) where
  entries : List (Path × Node Time)
  distinct : (entries.map Prod.fst).Nodup
  named : ∀ entry ∈ entries, entry.1 ≠ []
  parents : ∀ entry ∈ entries, entry.1.dropLast = [] ∨
    ∃ parent ∈ entries, parent.1 = entry.1.dropLast ∧ parent.2.isDir = true

namespace DirTree

variable {Time : Type}

/-- What is found at a path. -/
def node? (tree : DirTree Time) (path : Path) : Option (Node Time) :=
  (tree.entries.find? fun entry => entry.1 = path).map Prod.snd

/-- The name and node of an entry of a directory. -/
def entryOf (path : Path) (entry : Path × Node Time) : Option (String × Node Time) :=
  if entry.1.dropLast = path then entry.1.getLast?.map fun name => (name, entry.2) else none

/-- The entries of a directory, by name. -/
def readDir (tree : DirTree Time) (path : Path) : List (String × Node Time) :=
  tree.entries.filterMap (entryOf path)

def isDir (tree : DirTree Time) (path : Path) : Bool :=
  (tree.node? path).any Node.isDir

def isFile (tree : DirTree Time) (path : Path) : Bool :=
  (tree.node? path).any fun node => !node.isDir

/-- The bytes of a file. -/
def read? (tree : DirTree Time) (path : Path) : Option (List UInt8) :=
  match tree.node? path with
  | some (.file contents _) => some contents
  | _ => none

/-- The bytes of all files below a directory. -/
def fileBytes (tree : DirTree Time) (path : Path) : Nat :=
  ((tree.entries.filter fun entry => path <+: entry.1 ∧ entry.2.isDir = false).map
    fun entry => entry.2.length).sum

/-- What removing the path leaves of the entries: the directory it was in is touched. -/
def entriesWithout (entries : List (Path × Node Time)) (path : Path) (now : Time) :
    List (Path × Node Time) :=
  (entries.filter fun entry => ¬ path <+: entry.1).map fun entry =>
    (entry.1, if entry.1 = path.dropLast then entry.2.touch now else entry.2)

theorem mem_entriesWithout {entries : List (Path × Node Time)} {path : Path} {now : Time}
    {entry : Path × Node Time} :
    entry ∈ entriesWithout entries path now ↔ ∃ node, (entry.1, node) ∈ entries ∧
      ¬ path <+: entry.1 ∧
      entry.2 = if entry.1 = path.dropLast then node.touch now else node := by
  simp only [entriesWithout, List.mem_map, List.mem_filter, decide_not, Bool.not_eq_true',
    decide_eq_false_iff_not]
  constructor
  · rintro ⟨old, ⟨member, outside⟩, rfl⟩
    exact ⟨old.2, member, outside, rfl⟩
  · rintro ⟨node, member, outside, same⟩
    exact ⟨(entry.1, node), ⟨member, outside⟩, Prod.ext rfl same.symm⟩

/-- The tree without a path and all below it. -/
def remove (tree : DirTree Time) (path : Path) (now : Time) : DirTree Time where
  entries := entriesWithout tree.entries path now
  distinct := by
    rw [entriesWithout, List.map_map]
    exact ((List.filter_sublist.map Prod.fst).nodup tree.distinct :)
  named := by
    intro entry member
    obtain ⟨node, old, _⟩ := mem_entriesWithout.mp member
    exact tree.named (entry.1, node) old
  parents := by
    intro entry member
    obtain ⟨node, old, outside, _⟩ := mem_entriesWithout.mp member
    refine (tree.parents _ old).imp_right ?_
    rintro ⟨parent, held, same, directory⟩
    refine ⟨(parent.1, if parent.1 = path.dropLast then parent.2.touch now else parent.2),
      mem_entriesWithout.mpr ⟨parent.2, held, ?_, rfl⟩, same, ?_⟩
    · rw [same]
      exact fun within => outside (within.trans (List.dropLast_prefix _))
    · show (if _ then _ else _ : Node Time).isDir = true
      split <;> simp [directory]

/-- `remove_file`: `none` where there is no file. -/
def removeFile (tree : DirTree Time) (path : Path) (now : Time) : Option (DirTree Time) :=
  if tree.isFile path then some (tree.remove path now) else none

/-- `remove_dir_all`: `none` where there is no directory. -/
def removeDirAll (tree : DirTree Time) (path : Path) (now : Time) : Option (DirTree Time) :=
  if tree.isDir path then some (tree.remove path now) else none

theorem node?_eq_some {tree : DirTree Time} {path : Path} {node : Node Time} :
    tree.node? path = some node ↔ (path, node) ∈ tree.entries := by
  constructor
  · intro found
    obtain ⟨entry, first, rfl⟩ := Option.map_eq_some_iff.mp found
    have same : entry.1 = path := by simpa using List.find?_some first
    rw [← same]
    exact List.mem_of_find?_eq_some first
  · intro member
    rw [node?]
    cases first : tree.entries.find? fun entry => entry.1 = path with
    | none =>
        have absent := List.find?_eq_none.mp first _ member
        simp at absent
    | some entry =>
        have same : entry.1 = path := by simpa using List.find?_some first
        have equal := List.inj_on_of_nodup_map tree.distinct
          (List.mem_of_find?_eq_some first) member same
        rw [equal]
        rfl

theorem entryOf_eq_some {path : Path} {entry : Path × Node Time}
    {item : String × Node Time} :
    entryOf path entry = some item ↔ entry = (path ++ [item.1], item.2) := by
  rw [entryOf]
  constructor
  · intro listed
    split at listed
    · rename_i inside
      obtain ⟨last, ends, rfl⟩ := Option.map_eq_some_iff.mp listed
      rw [← inside, List.dropLast_append_getLast? last ends]
    · cases listed
  · rintro rfl
    simp

theorem mem_readDir {tree : DirTree Time} {path : Path} {item : String × Node Time} :
    item ∈ tree.readDir path ↔ tree.node? (path ++ [item.1]) = some item.2 := by
  rw [node?_eq_some, readDir, List.mem_filterMap]
  simp [entryOf_eq_some]

/-- A name is listed once. -/
theorem nodup_readDir (tree : DirTree Time) (path : Path) :
    ((tree.readDir path).map Prod.fst).Nodup := by
  have distinct := List.pairwise_map.mp tree.distinct
  refine List.pairwise_map.mpr (List.pairwise_filterMap.mpr (distinct.imp ?_))
  intro first second apart one listedOne two listedTwo same
  rw [entryOf_eq_some.mp listedOne, entryOf_eq_some.mp listedTwo] at apart
  exact apart (congrArg (fun name => path ++ [name]) same)

/-- A directory that holds something is one. -/
theorem isDir_of_child {tree : DirTree Time} {parent : Path} {name : String} {node : Node Time}
    (nested : parent ≠ []) (found : tree.node? (parent ++ [name]) = some node) :
    tree.isDir parent = true := by
  rcases tree.parents _ (node?_eq_some.mp found) with top | ⟨above, held, same, directory⟩
  · exact absurd (by simpa using top) nested
  · rw [List.dropLast_concat] at same
    have there : tree.node? parent = some above.2 := node?_eq_some.mpr (same ▸ held)
    rw [isDir, there]
    exact directory

section Listings

variable {tree other : DirTree Time}

/-- Trees with the same entries in another order hold the same. -/
theorem node?_of_perm (same : tree.entries.Perm other.entries) (path : Path) :
    tree.node? path = other.node? path := by
  apply Option.ext
  intro node
  rw [node?_eq_some, node?_eq_some, same.mem_iff]

theorem readDir_of_perm (same : tree.entries.Perm other.entries) (path : Path) :
    (tree.readDir path).Perm (other.readDir path) :=
  same.filterMap _

theorem read?_of_perm (same : tree.entries.Perm other.entries) (path : Path) :
    tree.read? path = other.read? path := by
  rw [read?, read?, node?_of_perm same]

end Listings

theorem isDir_of_isFile {tree : DirTree Time} {path : Path} (file : tree.isFile path = true) :
    tree.isDir path = false := by
  rw [isFile] at file
  rw [isDir]
  cases found : tree.node? path with
  | none => rfl
  | some node => simpa [found] using file

theorem isSome_of_isFile {tree : DirTree Time} {path : Path} (file : tree.isFile path = true) :
    (tree.node? path).isSome = true := by
  rw [isFile] at file
  cases found : tree.node? path with
  | none => simp [found] at file
  | some node => rfl

theorem isSome_of_isDir {tree : DirTree Time} {path : Path} (directory : tree.isDir path = true) :
    (tree.node? path).isSome = true := by
  rw [isDir] at directory
  cases found : tree.node? path with
  | none => simp [found] at directory
  | some node => rfl

/-- What removing a path leaves at another. -/
theorem node?_remove (tree : DirTree Time) (path : Path) (now : Time) (other : Path) :
    (tree.remove path now).node? other =
      if path <+: other then none
      else (tree.node? other).map fun node =>
        if other = path.dropLast then node.touch now else node := by
  apply Option.ext
  intro node
  rw [node?_eq_some, remove, mem_entriesWithout]
  by_cases within : path <+: other
  · simp [within]
  · simp only [within, if_false, Option.map_eq_some_iff, node?_eq_some, not_false_eq_true,
      true_and]
    exact exists_congr fun old => and_congr_right fun _ => eq_comm

/-- Some paths are removed one after the other. -/
def removeAll (tree : DirTree Time) (paths : List Path) (now : Time) : DirTree Time :=
  paths.foldl (fun tree path => tree.remove path now) tree

theorem node?_removeAll (tree : DirTree Time) (paths : List Path) (now : Time) (other : Path) :
    (tree.removeAll paths now).node? other =
      if ∃ path ∈ paths, path <+: other then none
      else (tree.node? other).map fun node =>
        if ∃ path ∈ paths, other = path.dropLast then node.touch now else node := by
  induction paths generalizing tree with
  | nil => simp [removeAll]
  | cons first paths ih =>
      rw [removeAll, List.foldl_cons, ← removeAll, ih, node?_remove]
      simp only [List.mem_cons, exists_eq_or_imp]
      by_cases later : ∃ path ∈ paths, path <+: other
      · rw [if_pos later, if_pos (Or.inr later)]
      · rw [if_neg later]
        by_cases within : first <+: other
        · rw [if_pos within, if_pos (Or.inl within)]
          rfl
        · rw [if_neg within, if_neg (not_or.mpr ⟨within, later⟩), Option.map_map]
          congr 1
          funext node
          by_cases touched : other = first.dropLast <;>
            by_cases touchedLater : ∃ path ∈ paths, other = path.dropLast <;>
            simp [Function.comp, touched, touchedLater]

/-- What holds a node is a directory. -/
theorem isDir_of_below {tree : DirTree Time} {path rest : Path} (nested : path ≠ [])
    (proper : rest ≠ []) (found : (tree.node? (path ++ rest)).isSome = true) :
    tree.isDir path = true := by
  induction rest using List.reverseRecOn with
  | nil => exact absurd rfl proper
  | append_singleton rest name ih =>
      obtain ⟨node, there⟩ := Option.isSome_iff_exists.mp found
      rw [← List.append_assoc] at there
      have parent := isDir_of_child (List.append_ne_nil_of_left_ne_nil nested rest) there
      by_cases direct : rest = []
      · simpa [direct] using parent
      · exact ih direct (isSome_of_isDir parent)

/-- What is above a node is in the tree. -/
theorem isSome_above {tree : DirTree Time} {path rest : Path} (nested : path ≠ [])
    (found : (tree.node? (path ++ rest)).isSome = true) : (tree.node? path).isSome = true := by
  by_cases itself : rest = []
  · simpa [itself] using found
  · exact isSome_of_isDir (isDir_of_below nested itself found)

section Removals

variable {tree : DirTree Time} {paths : List Path} {now : Time} {other : Path}

theorem node?_removeAll_of_none (absent : tree.node? other = none) :
    (tree.removeAll paths now).node? other = none := by
  rw [node?_removeAll, absent]
  split <;> rfl

theorem node?_removeAll_of_within {path : Path} (member : path ∈ paths)
    (within : path <+: other) : (tree.removeAll paths now).node? other = none := by
  rw [node?_removeAll, if_pos ⟨path, member, within⟩]

theorem node?_removeAll_of_spared (spared : ∀ path ∈ paths, ¬ path <+: other) :
    (tree.removeAll paths now).node? other = (tree.node? other).map fun node =>
      if ∃ path ∈ paths, other = path.dropLast then node.touch now else node := by
  rw [node?_removeAll, if_neg]
  rintro ⟨path, member, within⟩
  exact spared path member within

/-- A node outside of the directories that lost an entry is as it was. -/
theorem node?_removeAll_of_still (spared : ∀ path ∈ paths, ¬ path <+: other)
    (still : ∀ path ∈ paths, other ≠ path.dropLast) :
    (tree.removeAll paths now).node? other = tree.node? other := by
  rw [node?_removeAll_of_spared spared]
  have untouched : ¬ ∃ path ∈ paths, other = path.dropLast := by
    rintro ⟨path, member, same⟩
    exact still path member same
  simp [untouched]

theorem node?_removeAll_of_file (spared : ∀ path ∈ paths, ¬ path <+: other)
    (file : tree.isDir other = false) :
    (tree.removeAll paths now).node? other = tree.node? other := by
  rw [node?_removeAll_of_spared spared]
  cases found : tree.node? other with
  | none => rfl
  | some node =>
      rw [isDir, found] at file
      simp [Node.touch_of_file now file]

theorem isDir_removeAll_of_spared (spared : ∀ path ∈ paths, ¬ path <+: other) :
    (tree.removeAll paths now).isDir other = tree.isDir other := by
  rw [isDir, isDir, node?_removeAll_of_spared spared, Option.any_map]
  congr 1
  funext node
  by_cases touched : ∃ path ∈ paths, other = path.dropLast <;> simp [touched]

theorem read?_removeAll_of_spared (spared : ∀ path ∈ paths, ¬ path <+: other) :
    (tree.removeAll paths now).read? other = tree.read? other := by
  rw [read?, read?, node?_removeAll_of_spared spared]
  cases found : tree.node? other with
  | none => rfl
  | some node =>
      by_cases touched : ∃ path ∈ paths, other = path.dropLast <;>
        cases node <;> simp [touched, Node.touch]

end Removals

end DirTree

end DirectoryTrees
