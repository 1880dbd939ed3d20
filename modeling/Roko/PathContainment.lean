import Roko.PathPolicy

/-!
# Paths that stay in the worktree

A path that exists is resolved by the kernel, and then lies in the worktree if it is
accepted.  What does not exist is put together from names, and a link among these is
followed later.
-/

namespace Roko

open FileTrees

namespace FileView

variable (view : FileView)

/-- A link among some names from the root that leads out of the worktree when it is
followed. -/
def LeadsOut (worktree names : List String) : Prop :=
  ∃ front first back target, names = front ++ first :: back ∧
    view.tree.entry (front ++ [first]) = some (.link target) ∧
    ∃ object, view.tree.walk true view.maxLinks front (written (first :: back)) =
      some object ∧ ¬ worktree <+: object

/-- No component of an argument is a link in the worktree. -/
def NoLinkComponents (worktree : List String) (argPath : String) : Prop :=
  let candidate := PathBuf.new argPath
  ∀ front name back place, candidate.components = front ++ .name name :: back →
    view.tree.walk false view.maxLinks (candidate.start worktree) front = some place →
    worktree <+: place → ∀ target, view.tree.entry (place ++ [name]) ≠ some (.link target)

/-- What a path that is accepted is meant to be: nothing outside the worktree is reached
over it, and none of its components is a link if these are denied. -/
structure PolicyLaw (root : PathBuf) (worktree : List String) (argPath : String)
    (policy : PathPolicy) : Prop where
  contained : ∀ result, view.canonicalizeWithPolicy root argPath policy = .ok result →
    ∀ object, view.follow result.absolute = some object → worktree <+: object
  linkFree : policy.denySymlinks = true →
    ∀ result, view.canonicalizeWithPolicy root argPath policy = .ok result →
      view.NoLinkComponents worktree argPath

/-- The condition on a path that was put together from names: none of them is a link that
leads out.  Where links are denied, a path without links must come from an argument without
links. -/
def Sheltered (worktree : List String) (argPath : String) (policy : PathPolicy)
    (path : PathBuf) : Prop :=
  if policy.denySymlinks then
    view.checkNoSymlinkComponents path = .ok () → view.NoLinkComponents worktree argPath
  else ∀ names, path = .ofNames names → ¬ view.LeadsOut worktree names

structure StaysWithin (root : PathBuf) (worktree : List String) (argPath : String)
    (policy : PathPolicy) : Prop where
  /-- The argument exists. -/
  resolved : ∀ object, view.canonicalize (root.joined argPath) = some object →
    worktree <+: object → policy.denySymlinks = true →
      view.NoLinkComponents worktree argPath
  /-- Some names stand behind the deepest ancestor that exists. -/
  missing : ∀ ancestor names, view.canonicalize (root.joined argPath) = none →
    view.climb (root.joined argPath).absolute (root.joined argPath).components.reverse [] =
      some (ancestor, names) →
    worktree <+: ancestor ++ names →
      view.Sheltered worktree argPath policy (.ofNames (ancestor ++ names))
  /-- Two dots stand behind something that does not exist. -/
  lexical : view.canonicalize (root.joined argPath) = none →
    view.climb (root.joined argPath).absolute (root.joined argPath).components.reverse [] =
      none →
    (root.joined argPath).normalize.startsWith (.ofNames worktree) = true →
      view.Sheltered worktree argPath policy (root.joined argPath).normalize

variable {view}

theorem components_ofNames (names : List String) :
    PathBuf.components (.ofNames names) = written names := by
  have kept : (written names).filter (· ≠ .current) = written names := by
    rw [List.filter_eq_self]
    intro segment member
    obtain ⟨name, _, rfl⟩ := List.mem_map.mp member
    rfl
  rw [PathBuf.components]
  exact kept

theorem normalize_ofNames (names : List String) :
    PathBuf.normalize (.ofNames names) = .ofNames names := by
  have folded (out : List (Segment String)) :
      (written names).foldl PathBuf.normalizeStep out = out ++ written names := by
    induction names generalizing out with
    | nil => exact (List.append_nil out).symm
    | cons name names ih =>
        change (written names).foldl PathBuf.normalizeStep (out ++ [.name name]) = _
        rw [ih, List.append_assoc]
        rfl
  rw [PathBuf.normalize, components_ofNames, folded]
  rfl

theorem startsWith_ofNames (names worktree : List String) :
    PathBuf.startsWith (.ofNames names) (.ofNames worktree) = true ↔ worktree <+: names := by
  have injective : Function.Injective (Segment.name : String → Segment String) :=
    fun _ _ same => Segment.name.inj same
  rw [PathBuf.startsWith, components_ofNames, components_ofNames, Bool.and_eq_true,
    List.isPrefixOf_iff_prefix, written, written, List.prefix_map_iff_of_injective injective]
  exact and_iff_right (decide_eq_true rfl)

/-- Two dots stay only at the front of a normal path. -/
theorem normalizeStep_shape (segments : List (Segment String)) :
    ∃ names, segments.foldl PathBuf.normalizeStep [] = written names ∨
      segments.foldl PathBuf.normalizeStep [] = .parent :: written names := by
  induction segments using List.reverseRecOn with
  | nil => exact ⟨[], Or.inl rfl⟩
  | append_singleton segments last ih =>
      rw [List.foldl_append, List.foldl_cons, List.foldl_nil]
      obtain ⟨names, shape⟩ := ih
      cases last with
      | current => exact ⟨names, shape⟩
      | name name =>
          refine ⟨names ++ [name], ?_⟩
          rw [written_append]
          rcases shape with shape | shape
          · exact Or.inl (by rw [shape]; rfl)
          · exact Or.inr (by rw [shape]; rfl)
      | parent =>
          refine ⟨names.dropLast, ?_⟩
          rcases shape with shape | shape
          · rw [shape]
            cases names with
            | nil => exact Or.inr rfl
            | cons first names =>
                left
                change (written (first :: names)).dropLast = _
                rw [written, ← List.map_dropLast]
                rfl
          · rw [shape]
            cases names with
            | nil => exact Or.inl rfl
            | cons first names =>
                right
                change Segment.parent :: (written (first :: names)).dropLast = _
                rw [written, ← List.map_dropLast]
                rfl

/-- A normal path in a worktree below the root is one of names. -/
theorem ofNames_of_normalize {path : PathBuf} {worktree : List String}
    (below : worktree ≠ [])
    (inside : path.normalize.startsWith (.ofNames worktree) = true) :
    ∃ names, path.normalize = .ofNames names := by
  obtain ⟨first, worktree, rfl⟩ := List.exists_cons_of_ne_nil below
  obtain ⟨names, shape⟩ := normalizeStep_shape path.components
  rw [PathBuf.startsWith, components_ofNames, Bool.and_eq_true, decide_eq_true_eq] at inside
  have absolute : path.absolute = true := inside.1
  refine ⟨names, ?_⟩
  rcases shape with shape | shape
  · rw [PathBuf.normalize, shape, absolute]
    rfl
  · have front := inside.2
    rw [PathBuf.normalize, shape, absolute] at front
    simp [PathBuf.components, written] at front

theorem symlinkMetadata_of_directory {front : List String}
    (directory : view.tree.entry front = some .directory) (name : String) :
    view.symlinkMetadata (.ofNames front) name = view.tree.entry (front ++ [name]) := by
  have walked : view.tree.walk false view.maxLinks [] (written front ++ []) =
      view.tree.walk false view.maxLinks ([] ++ front) [] :=
    FileTree.walk_written (Or.inr directory) []
  have stays : view.tree.walk false view.maxLinks ([] ++ front) [] = some front := by
    cases view.maxLinks <;> rfl
  rw [List.append_nil, stays] at walked
  rw [symlinkMetadata]
  change (view.tree.walk false view.maxLinks [] (written front)).bind _ = _
  rw [walked]
  rfl

theorem checkFrom_written {before names : List String} :
    view.checkFrom true (written before) (written names) = .ok () ↔
      ∀ front first back target, names = front ++ first :: back →
        view.symlinkMetadata (.ofNames (before ++ front)) first ≠ some (.link target) := by
  induction names generalizing before with
  | nil =>
      have done : view.checkFrom true (written before) (written []) = .ok () := rfl
      rw [iff_true_left done]
      intro front first back target none'
      simp at none'
  | cons name names ih =>
      have next : written before ++ [Segment.name name] = written (before ++ [name]) :=
        (written_append before [name]).symm
      have step : view.checkFrom true (written before) (written (name :: names)) = .ok () ↔
          (∀ target, view.symlinkMetadata (.ofNames before) name ≠ some (.link target)) ∧
            view.checkFrom true (written (before ++ [name])) (written names) = .ok () := by
        change view.checkFrom true (written before) (.name name :: written names) = _ ↔ _
        have asNames : ({ absolute := true, segments := written before } : PathBuf) =
            .ofNames before := rfl
        rw [checkFrom, next, asNames]
        split
        case h_1 target found => simp [found]
        case h_2 others =>
          rw [iff_and_self]
          intro _ target found
          exact others target found
      rw [step, ih]
      constructor
      · rintro ⟨first, later⟩ front link back target split
        cases front with
        | nil =>
            rw [List.nil_append, List.cons.injEq] at split
            rw [List.append_nil, ← split.1]
            exact first target
        | cons head front =>
            rw [List.cons_append, List.cons.injEq] at split
            have behind := later front link back target split.2
            rwa [split.1, List.append_assoc] at behind
      · intro free
        refine ⟨?_, ?_⟩
        · intro target
          have first := free [] name names target rfl
          rwa [List.append_nil] at first
        · intro front link back target split
          have behind := free (name :: front) link back target (by rw [split]; rfl)
          rwa [List.append_cons] at behind

theorem check_ofNames {names : List String} :
    view.checkNoSymlinkComponents (.ofNames names) = .ok () ↔
      ∀ front first back target, names = front ++ first :: back →
        view.symlinkMetadata (.ofNames front) first ≠ some (.link target) := by
  rw [checkNoSymlinkComponents, components_ofNames]
  exact @checkFrom_written view [] names

theorem not_leadsOut_of_check {names worktree : List String}
    (checked : view.checkNoSymlinkComponents (.ofNames names) = .ok ()) :
    ¬ view.LeadsOut worktree names := by
  rintro ⟨front, first, back, target, split, link, _⟩
  have directory := view.tree.parent front first (by simp [link])
  refine check_ofNames.mp checked front first back target split ?_
  rw [symlinkMetadata_of_directory directory, link]

/-- What stands in the tree is not reached over a link. -/
theorem check_of_stands {names : List String} (stands : view.tree.Stands names) :
    view.checkNoSymlinkComponents (.ofNames names) = .ok () := by
  rw [check_ofNames]
  rintro front first back target rfl
  have there : view.tree.entry (front ++ first :: back) ≠ none := by
    rcases stands with found | found <;> simp [found]
  have directory := FileTree.directory_of_append (List.cons_ne_nil first back) there
  rw [symlinkMetadata_of_directory directory]
  by_cases last : back = []
  · rw [last] at stands
    rcases stands with found | found <;> simp [found]
  · rw [List.append_cons] at there
    simp [FileTree.directory_of_append last there]

/-- Nothing outside is reached over an accepted path of names exactly when no link of it
leads out. -/
theorem contained_ofNames {names worktree : List String} (inside : worktree <+: names) :
    (∀ object, view.follow (.ofNames names) = some object → worktree <+: object) ↔
      ¬ view.LeadsOut worktree names := by
  constructor
  · rintro contained ⟨front, first, back, target, split, link, object, walked, outside⟩
    have directory := view.tree.parent front first (by simp [link])
    refine outside (contained object ?_)
    rw [← walked, split]
    change view.tree.walk true view.maxLinks [] (written (front ++ first :: back)) = _
    rw [written_append]
    exact FileTree.walk_written (Or.inr directory) _
  · intro stays object followed
    by_contra outside
    have walked : view.tree.walk true view.maxLinks [] (written names) = some object := followed
    rcases FileTree.walk_names walked with there | ⟨front, first, back, target, split, link, rest⟩
    · rw [there] at outside
      exact outside inside
    · exact stays ⟨front, first, back, target, split, link, object, rest, outside⟩

theorem stands_of_canonicalize {path : PathBuf} {object : List String}
    (found : view.canonicalize path = some object) : view.tree.Stands object := by
  rw [canonicalize] at found
  split at found
  case isTrue given =>
    refine FileTree.walk_stands ?_ found
    rw [Route.start]
    split
    case isTrue => exact Or.inr view.tree.root
    case isFalse relative =>
      have some' : path.segments ≠ [] := by
        intro none'
        simp [relative, none'] at given
      have start := FileTree.directory_of_walk some' found
      rw [Route.start, if_neg relative] at start
      exact Or.inr start
  case isFalse => cases found

variable {root : PathBuf} {worktree : List String} {argPath : String} {policy : PathPolicy}

/-- A path is accepted when it starts with the worktree and passes the check for links. -/
theorem accepted_iff (exists' : view.canonicalize root = some worktree)
    (prevents : policy.preventEscapes = true) {result : CanonicalPath} :
    view.canonicalizeWithPolicy root argPath policy = .ok result ↔
      let path := view.canonicalizeExistingOrParent (root.joined argPath)
      path.startsWith (.ofNames worktree) = true ∧
        (policy.denySymlinks = true → view.checkNoSymlinkComponents path = .ok ()) ∧
        result = { absolute := path, relative := path.stripPrefix (.ofNames worktree) } := by
  dsimp only
  rw [canonicalizeWithPolicy, exists', prevents]
  dsimp only
  generalize view.canonicalizeExistingOrParent (root.joined argPath) = path
  by_cases inside : path.startsWith (.ofNames worktree) = true
  · rw [inside]
    cases policy.denySymlinks with
    | false => simp [eq_comm]
    | true =>
        cases checked : view.checkNoSymlinkComponents path with
        | error error => simp
        | ok done => simp [eq_comm]
  · simp [inside]

/-- What the law asks of the path that the code comes to. -/
def LawfulPath (view : FileView) (worktree : List String) (argPath : String)
    (policy : PathPolicy) (path : PathBuf) : Prop :=
  path.startsWith (.ofNames worktree) = true →
    (policy.denySymlinks = true → view.checkNoSymlinkComponents path = .ok ()) →
      (∀ object, view.follow path = some object → worktree <+: object) ∧
        (policy.denySymlinks = true → view.NoLinkComponents worktree argPath)

theorem policyLaw_iff (exists' : view.canonicalize root = some worktree)
    (prevents : policy.preventEscapes = true) :
    view.PolicyLaw root worktree argPath policy ↔
      view.LawfulPath worktree argPath policy
        (view.canonicalizeExistingOrParent (root.joined argPath)) := by
  constructor
  · intro law inside checked
    have accepted : view.canonicalizeWithPolicy root argPath policy = .ok _ :=
      (accepted_iff exists' prevents).mpr ⟨inside, checked, rfl⟩
    exact ⟨law.contained _ accepted, fun denies => law.linkFree denies _ accepted⟩
  · intro law
    constructor
    · intro result accepted
      obtain ⟨inside, checked, rfl⟩ := (accepted_iff exists' prevents).mp accepted
      exact (law inside checked).1
    · intro denies result accepted
      obtain ⟨inside, checked, _⟩ := (accepted_iff exists' prevents).mp accepted
      exact (law inside checked).2 denies

/-- The law of a path that was put together from names. -/
theorem lawfulPath_iff_sheltered {path : PathBuf}
    (shape : path.startsWith (.ofNames worktree) = true →
      worktree = [] ∨ ∃ names, path = .ofNames names) :
    view.LawfulPath worktree argPath policy path ↔
      (path.startsWith (.ofNames worktree) = true →
        view.Sheltered worktree argPath policy path) := by
  refine imp_congr_right fun inside => ?_
  have contained (stays : ∀ names, path = .ofNames names → ¬ view.LeadsOut worktree names) :
      ∀ object, view.follow path = some object → worktree <+: object := by
    rcases shape inside with rfl | ⟨names, rfl⟩
    · exact fun object _ => List.nil_prefix
    · exact (contained_ofNames ((startsWith_ofNames names worktree).mp inside)).mpr
        (stays names rfl)
  rw [Sheltered]
  by_cases denies : policy.denySymlinks = true
  · rw [if_pos denies]
    constructor
    · intro law checked
      exact (law fun _ => checked).2 denies
    · intro free checked
      have passed := checked denies
      refine ⟨contained ?_, fun _ => free passed⟩
      rintro names rfl
      exact not_leadsOut_of_check passed
  · rw [if_neg denies]
    constructor
    · rintro law names rfl
      exact (contained_ofNames ((startsWith_ofNames names worktree).mp inside)).mp
        (law fun denied => absurd denied denies).1
    · intro stays _
      exact ⟨contained stays, fun denied => absurd denied denies⟩

/-- The law of a path that exists. -/
theorem lawfulPath_of_stands {object : List String} (stands : view.tree.Stands object) :
    view.LawfulPath worktree argPath policy (.ofNames object) ↔
      (worktree <+: object → policy.denySymlinks = true →
        view.NoLinkComponents worktree argPath) := by
  have checked := check_of_stands stands
  rw [LawfulPath, startsWith_ofNames]
  refine imp_congr_right fun inside => ?_
  constructor
  · exact fun law => (law fun _ => checked).2
  · exact fun free _ =>
      ⟨(contained_ofNames inside).mpr (not_leadsOut_of_check checked), free⟩

/-- A worktree with a link to a file outside, a link to a missing file outside, and a link
to one of its own files. -/
def linkedView : FileView where
  tree :=
    .ofTable
      [([], .directory), (["wt"], .directory), (["out"], .directory),
        (["out", "secret"], .file), (["wt", "real"], .file),
        (["wt", "link"], .link (.ofNames ["out", "secret"])),
        (["wt", "fresh"], .link (.ofNames ["out", "fresh"])),
        (["wt", "alias"], .link (.ofNames ["wt", "real"]))]
      (by decide) (by decide)
  workingDirectory := []
  maxLinks := 40

/-- What the policy accepts for an argument, and what is then reached. -/
def Reaches (argPath : String) (policy : PathPolicy) (object : List String) : Prop :=
  ∃ result, linkedView.canonicalizeWithPolicy (PathBuf.new "/wt") argPath policy = .ok result ∧
    linkedView.follow result.absolute = some object

theorem reaches_of {argPath : String} {policy : PathPolicy} {segments : List (Segment String)}
    {names object : List String} (prevents : policy.preventEscapes = true)
    (joined : (PathBuf.new "/wt").joined argPath = { absolute := true, segments })
    (path : linkedView.canonicalizeExistingOrParent { absolute := true, segments } =
      .ofNames names)
    (inside : ["wt"] <+: names)
    (checked : linkedView.checkNoSymlinkComponents (.ofNames names) = .ok () ∨
      policy.denySymlinks = false)
    (followed : linkedView.follow (.ofNames names) = some object) :
    Reaches argPath policy object := by
  have exists' : linkedView.canonicalize (PathBuf.new "/wt") = some ["wt"] := by decide
  refine ⟨⟨.ofNames names, PathBuf.stripPrefix (.ofNames names) (.ofNames ["wt"])⟩,
    (accepted_iff exists' prevents).mpr ?_, followed⟩
  dsimp only
  rw [joined, path]
  refine ⟨(startsWith_ofNames _ _).mpr inside, ?_, rfl⟩
  intro denies
  rcases checked with passed | allowed
  · exact passed
  · rw [allowed] at denies
    cases denies

end FileView

end Roko
