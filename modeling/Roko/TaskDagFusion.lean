import Roko.TaskDagWaves
import Roko.TaskDagCull
import Roko.TaskDagEdits

/-!
# Fusing linear chains

`fuse_linear_chains` looks for a chain in which every task has one dependent and
the next task has no other dependency, merges the chain into its head, redirects
the references of the tail's dependents to the head, removes the other tasks and
rebuilds the indexes.  It starts over after each fusion and stops when no chain
is left or a rebuild fails; a failed rebuild is not rolled back.
-/

namespace Roko

/-- The width guard compares two floating-point numbers; the comparison is a
parameter, with the number of nodes after the fusion and the number of waves. -/
structure FusionConfig where
  maxChainLength : Nat := 5
  tooNarrow : Nat → Nat → Bool
  sameTierOnly : Bool := true

def appendUnique (target source : List String) : List String :=
  source.foldl
    (fun target item => if target.contains item then target else target ++ [item])
    target

/-- Addition of `u32` that saturates. -/
def saturatingAdd (first second : UInt32) : UInt32 :=
  if first.toNat + second.toNat < 2 ^ 32 then first + second else 0xFFFFFFFF

def mergeTaskSpecs (target merged : Task) : Task :=
  { target with
    title := s!"{target.title} + {merged.title}"
    estimatedMinutes := some (saturatingAdd (target.estimatedMinutes.getD 0)
      (merged.estimatedMinutes.getD 0))
    files := appendUnique target.files merged.files
    acceptance := appendUnique target.acceptance merged.acceptance
    exclusiveFiles := target.exclusiveFiles || merged.exclusiveFiles
    role := target.role.or merged.role
    category := target.category.or merged.category
    reasoningLevel := target.reasoningLevel.or merged.reasoningLevel
    speedPriority := target.speedPriority.or merged.speedPriority
    qualityProfile := target.qualityProfile.or merged.qualityProfile
    contextWeight := target.contextWeight.or merged.contextWeight
    complexityBand := target.complexityBand.or merged.complexityBand
    preferredModel := target.preferredModel.or merged.preferredModel
    preferredProvider := target.preferredProvider.or merged.preferredProvider }

def fusionCompatible : Option Task → Option Task → Bool
  | some left, some right =>
      left.role == right.role && left.preferredModel == right.preferredModel &&
        left.preferredProvider == right.preferredProvider &&
        left.complexityBand == right.complexityBand
  | _, _ => false

namespace UnifiedTaskDag

/-- The loop that grows a chain from its last task; `none` when the chain is not
compatible.  A chain of a graph without cycles repeats no task, so the loop ends
after as many turns as there are nodes. -/
def growChain (dag : UnifiedTaskDag) (config : FusionConfig) :
    Nat → List GlobalTaskId → GlobalTaskId → Option (List GlobalTaskId)
  | 0, chain, _ => some chain
  | fuel + 1, chain, cursor =>
      match (dag.dependentsOf cursor).toList.head? with
      | none => some chain
      | some next =>
          if (dag.depsOf next).size ≠ 1 then none
          else if (dag.depsOf next).toList.head? ≠ some cursor then none
          else if !fusionCompatible dag.tasks[cursor]? dag.tasks[next]? then none
          else if config.sameTierOnly &&
              dag.tasks[cursor]?.bind Task.complexityBand !=
                dag.tasks[next]?.bind Task.complexityBand then none
          else if config.maxChainLength ≤ (chain ++ [next]).length then
            some (chain ++ [next])
          else if (dag.dependentsOf next).isEmpty then some (chain ++ [next])
          else if (dag.dependentsOf next).size ≠ 1 then none
          else dag.growChain config fuel (chain ++ [next]) next

def isDone (dag : UnifiedTaskDag) (id : GlobalTaskId) : Bool :=
  dag.tasks[id]?.any fun task => task.status == .done

def waveCount (dag : UnifiedTaskDag) : Nat :=
  match dag.waves with
  | .error _ => 1
  | .ok waves => max waves.length 1

/-- The chain that would be fused from the given start. -/
def fusableChain (dag : UnifiedTaskDag) (config : FusionConfig)
    (start : GlobalTaskId) : Option (List GlobalTaskId) :=
  if (dag.dependentsOf start).size ≠ 1 then none
  else
    match dag.growChain config dag.nodes.length [start] start with
    | none => none
    | some chain =>
        if chain.length < 2 then none
        else if !dag.tasks.contains start then none
        else if chain.any dag.isDone then none
        else if config.tooNarrow (dag.nodes.length - (chain.length - 1))
            dag.waveCount then none
        else some chain

/-- How a dependent of the tail names the head of the chain. -/
def startRef (start tail : GlobalTaskId) : String :=
  if tail.plan = start.plan then start.task else start.toString

def rewireRef (start tail : GlobalTaskId) (raw : String) : String :=
  if raw = tail.task ∨ raw = tail.toString then startRef start tail else raw

/-- The task map after the chain is merged into its head. -/
def fuseTasks (dag : UnifiedTaskDag) (start : GlobalTaskId)
    (rest : List GlobalTaskId) : Std.ExtTreeMap GlobalTaskId Task :=
  match dag.tasks[start]? with
  | none => dag.tasks
  | some first =>
      let target := (rest.filterMap fun id => dag.tasks[id]?).foldl
        mergeTaskSpecs first
      let tail := rest.getLastD start
      let rewired := editDependsOn (List.map (rewireRef start tail))
        (dag.dependentsOf tail).toList (dag.tasks.insert start target)
      rest.foldl (fun tasks id => tasks.erase id) rewired

/-- One fusion.  The graph is changed also when the rebuild fails. -/
def fuseChain (dag : UnifiedTaskDag) :
    List GlobalTaskId → UnifiedTaskDag × Except DagError Unit
  | [] => (dag, .ok ())
  | start :: rest => rebuildIndexes { dag with tasks := dag.fuseTasks start rest }

/-- The first chain along the topological order that can be fused. -/
def nextChain (dag : UnifiedTaskDag) (config : FusionConfig) :
    Option (List GlobalTaskId) :=
  match dag.topologicalSort with
  | .error _ => none
  | .ok topo => topo.findSome? (dag.fusableChain config)

/-- The outer loop.  Each fusion removes a task, so it ends after as many turns
as there are nodes. -/
def fuseLoop (config : FusionConfig) :
    Nat → UnifiedTaskDag → Nat → UnifiedTaskDag × Nat
  | 0, dag, fusions => (dag, fusions)
  | fuel + 1, dag, fusions =>
      match dag.nextChain config with
      | none => (dag, fusions)
      | some chain =>
          match dag.fuseChain chain with
          | (next, .error _) => (next, fusions)
          | (next, .ok ()) => fuseLoop config fuel next (fusions + 1)

def fuseLinearChains (dag : UnifiedTaskDag) (config : FusionConfig) :
    UnifiedTaskDag × Nat :=
  fuseLoop config dag.nodes.length dag 0

/-!
A fusion is faithful when the references, plans and files of the tail's
dependents survive the rewriting.  The rebuilt graph is then the old one with
the chain contracted to its head, so the transitive order between the remaining
tasks is the old one; a run of faithful fusions composes these contractions.
-/

/-- The two tasks follow each other and nothing else is attached between them. -/
structure Linked (dag : UnifiedTaskDag) (first second : GlobalTaskId) : Prop where
  deps : ∀ dep, dag.edges.Has second dep ↔ dep = first
  dependents : ∀ dependent, dag.edges.Has dependent first ↔ dependent = second

/-- The head of the chain stands for every task of the chain. -/
def headOf (start : GlobalTaskId) (rest : List GlobalTaskId)
    (id : GlobalTaskId) : GlobalTaskId :=
  if id ∈ rest then start else id

/-- The chain can be contracted without changing what the tail's dependents wait
for. -/
structure FusionFaithful (dag : UnifiedTaskDag) (start : GlobalTaskId)
    (rest : List GlobalTaskId) : Prop where
  /-- No plan of the plan-level dependencies loses its last task. -/
  plans : ∀ (plan : String) (deps : Std.ExtTreeSet String),
    dag.planDeps[plan]? = some deps →
      (∃ id ∈ dag.tasks, id ∉ rest ∧ id.plan = plan) ∧
        ∀ dep ∈ deps, ∃ id ∈ dag.tasks, id ∉ rest ∧ id.plan = dep
  /-- A rewritten reference meant the tail, and its replacement means the
  head. -/
  references : ∀ (id : GlobalTaskId) (task : Task), dag.tasks[id]? = some task →
    dag.edges.Has id (rest.getLastD start) → ∀ raw ∈ task.dependsOn,
      raw = (rest.getLastD start).task ∨ raw = (rest.getLastD start).toString →
        resolveDepRef id.plan raw = rest.getLastD start ∧
          resolveDepRef id.plan (startRef start (rest.getLastD start)) = start
  /-- No dependent waits for the tail through its plan only. -/
  reasons : ∀ id, dag.edges.Has id (rest.getLastD start) →
    dag.DeclaredDep id (rest.getLastD start) ∨
      dag.OverlapDep id (rest.getLastD start)
  /-- The head comes before the tasks that share a file with the tail. -/
  overlaps : ∀ id, dag.OverlapDep id (rest.getLastD start) → start < id

variable {dag : UnifiedTaskDag}

theorem linked_of_first (consistent : dag.Consistent) {first second : GlobalTaskId}
    (oneDependent : (dag.dependentsOf first).size = 1)
    (dependent : (dag.dependentsOf first).toList.head? = some second)
    (oneDep : (dag.depsOf second).size = 1)
    (dep : (dag.depsOf second).toList.head? = some first) :
    dag.Linked first second := by
  have only : ∀ {ids : Std.ExtTreeSet GlobalTaskId} {id : GlobalTaskId},
      ids.size = 1 → ids.toList.head? = some id → ∀ other, other ∈ ids ↔ other = id := by
    intro ids id size first other
    rw [← Std.ExtTreeSet.length_toList] at size
    obtain ⟨single, list⟩ := List.length_eq_one_iff.mp size
    rw [list] at first
    rw [← Std.ExtTreeSet.mem_toList, list, List.mem_singleton,
      Option.some.inj first]
  constructor
  · intro other
    rw [← mem_depsOf]
    exact only oneDep dep other
  · intro other
    rw [← mem_dependentsOf consistent.toIndexed]
    exact only oneDependent dependent other

theorem isChain_growChain (consistent : dag.Consistent) (config : FusionConfig)
    (fuel : Nat) (before : List GlobalTaskId) {chain : List GlobalTaskId}
    {cursor : GlobalTaskId}
    (oneDependent : (dag.dependentsOf cursor).size = 1)
    (linked : (before ++ [cursor]).IsChain dag.Linked)
    (grown : dag.growChain config fuel (before ++ [cursor]) cursor = some chain) :
    ∃ after, chain = before ++ cursor :: after ∧ chain.IsChain dag.Linked := by
  induction fuel generalizing before cursor with
  | zero =>
      rw [growChain] at grown
      exact ⟨[], (Option.some.inj grown).symm, Option.some.inj grown ▸ linked⟩
  | succ fuel ih =>
      rw [growChain] at grown
      split at grown
      · exact ⟨[], (Option.some.inj grown).symm, Option.some.inj grown ▸ linked⟩
      case h_2 next found =>
        simp only [Option.ite_none_left_eq_some] at grown
        obtain ⟨oneDep, isCursor, -, -, grown⟩ := grown
        have link := linked_of_first consistent oneDependent found
          (not_not.mp oneDep) (not_not.mp isCursor)
        have longer : ((before ++ [cursor]) ++ [next]).IsChain dag.Linked := by
          rw [List.isChain_append]
          refine ⟨linked, List.IsChain.singleton next, ?_⟩
          simpa using link
        have stop : some (before ++ [cursor] ++ [next]) = some chain →
            ∃ after, chain = before ++ cursor :: after ∧
              chain.IsChain dag.Linked := by
          intro stopped
          rw [← Option.some.inj stopped]
          exact ⟨[next], by simp, longer⟩
        split at grown
        · exact stop grown
        split at grown
        · exact stop grown
        rw [Option.ite_none_left_eq_some] at grown
        obtain ⟨after, rfl, chained⟩ := ih _ (not_not.mp grown.1) longer grown.2
        exact ⟨next :: after, by simp, chained⟩

/-- The chains that are fused are linked throughout and have a tail. -/
theorem linked_nextChain (consistent : dag.Consistent) {config : FusionConfig}
    {chain : List GlobalTaskId} (found : dag.nextChain config = some chain) :
    ∃ start rest, chain = start :: rest ∧ rest ≠ [] ∧ start ∈ dag.tasks ∧
      chain.IsChain dag.Linked := by
  unfold nextChain at found
  split at found
  · cases found
  obtain ⟨start, -, fusable⟩ := List.exists_of_findSome?_eq_some found
  unfold fusableChain at fusable
  rw [Option.ite_none_left_eq_some] at fusable
  obtain ⟨oneDependent, fusable⟩ := fusable
  split at fusable
  · cases fusable
  case h_2 grownChain grown =>
    simp only [Option.ite_none_left_eq_some] at fusable
    obtain ⟨long, known, -, -, same⟩ := fusable
    obtain rfl := Option.some.inj same
    obtain ⟨rest, rfl, chained⟩ := isChain_growChain consistent config
      dag.nodes.length [] (not_not.mp oneDependent)
      (List.IsChain.singleton start) grown
    refine ⟨start, rest, rfl, ?_, ?_, chained⟩
    · rintro rfl
      simp at long
    · simpa using known

theorem headOf_eq_start_iff {start : GlobalTaskId} {rest : List GlobalTaskId}
    {id : GlobalTaskId} :
    headOf start rest id = start ↔ id ∈ start :: rest := by
  unfold headOf
  by_cases member : id ∈ rest <;> simp [member]

theorem getLastD_mem_rest (start : GlobalTaskId) {rest : List GlobalTaskId}
    (nonempty : rest ≠ []) : rest.getLastD start ∈ rest := by
  cases rest with
  | nil => exact absurd rfl nonempty
  | cons second rest =>
      rw [List.getLastD_cons]
      exact List.getLastD_mem_cons

section Chain

variable {start : GlobalTaskId} {rest : List GlobalTaskId}
  (chained : (start :: rest).IsChain dag.Linked)

include chained

theorem transGen_start_of_mem {id : GlobalTaskId} (member : id ∈ rest) :
    Relation.TransGen dag.edges.Has id start := by
  induction rest generalizing start with
  | nil => cases member
  | cons second rest ih =>
      obtain ⟨link, chainedRest⟩ := List.isChain_cons_cons.mp chained
      have step : dag.edges.Has second start := (link.deps start).mpr rfl
      rcases List.mem_cons.mp member with rfl | later
      · exact Relation.TransGen.single step
      · exact (ih chainedRest later).tail step

/-- A task behind the head depends on the chain only. -/
theorem mem_chain_of_has {id dep : GlobalTaskId} (member : id ∈ rest)
    (edge : dag.edges.Has id dep) : dep ∈ start :: rest := by
  induction rest generalizing start with
  | nil => cases member
  | cons second rest ih =>
      obtain ⟨link, chainedRest⟩ := List.isChain_cons_cons.mp chained
      rcases List.mem_cons.mp member with rfl | later
      · rw [(link.deps dep).mp edge]
        exact List.mem_cons_self
      · exact List.mem_cons_of_mem _ (ih chainedRest later)

/-- A task before the tail has its dependent in the chain. -/
theorem mem_rest_of_has {id dependent : GlobalTaskId} (member : id ∈ start :: rest)
    (notTail : id ≠ rest.getLastD start) (edge : dag.edges.Has dependent id) :
    dependent ∈ rest := by
  induction rest generalizing start with
  | nil =>
      have same : id = start := by simpa using member
      exact absurd same notTail
  | cons second rest ih =>
      obtain ⟨link, chainedRest⟩ := List.isChain_cons_cons.mp chained
      rcases List.mem_cons.mp member with rfl | later
      · rw [(link.dependents dependent).mp edge]
        exact List.mem_cons_self
      · rw [List.getLastD_cons] at notTail
        exact List.mem_cons_of_mem _ (ih chainedRest later notTail)

theorem start_not_mem_rest (acyclic : DependencyGraph.Acyclic dag.edges.Has) :
    start ∉ rest :=
  fun member => acyclic start (transGen_start_of_mem chained member)

/-- Every task of the chain reaches the head, and only the head has
dependencies outside the chain. -/
theorem passable_headOf :
    DependencyGraph.Passable dag.edges.Has (headOf start rest) := by
  intro before entry exit after enters outside sameClass leaves beyond
  by_cases inChain : entry ∈ start :: rest
  · have exitInChain : exit ∈ start :: rest := by
      rw [← headOf_eq_start_iff] at inChain ⊢
      rw [← sameClass, inChain]
    have exitStart : exit = start := by
      rcases List.mem_cons.mp exitInChain with same | inRest
      · exact same
      · have afterInChain := mem_chain_of_has chained inRest leaves
        rw [← headOf_eq_start_iff] at exitInChain afterInChain
        exact absurd (exitInChain.trans afterInChain.symm) beyond
    rw [exitStart]
    rcases List.mem_cons.mp inChain with rfl | inRest
    · exact Relation.ReflTransGen.refl
    · exact (transGen_start_of_mem chained inRest).to_reflTransGen
  · have same : entry = exit := by
      unfold headOf at sameClass
      have entryOut : entry ∉ rest := fun member =>
        inChain (List.mem_cons_of_mem _ member)
      rw [if_neg entryOut] at sameClass
      split at sameClass
      · exact absurd (sameClass ▸ List.mem_cons_self) inChain
      · exact sameClass
    rw [same]

end Chain

theorem mem_appendUnique (target source : List String) (item : String) :
    item ∈ appendUnique target source ↔ item ∈ target ∨ item ∈ source := by
  unfold appendUnique
  refine (FallibleSteps.foldl_adds_iff (fun target : List String => item ∈ target)
    (fun other => item = other) ?_ target).trans ?_
  · intro target other _
    by_cases present : target.contains other = true
    · rw [if_pos present]
      rw [List.contains_iff_mem] at present
      grind
    · rw [if_neg present]
      simp
  · simp

/-- The merged head of the chain. -/
def fusedHead (dag : UnifiedTaskDag) (rest : List GlobalTaskId) (first : Task) :
    Task :=
  (rest.filterMap fun id => dag.tasks[id]?).foldl mergeTaskSpecs first

theorem fusedHead_spec (dag : UnifiedTaskDag) (rest : List GlobalTaskId)
    (first : Task) :
    (dag.fusedHead rest first).dependsOn = first.dependsOn ∧
      ∀ file, file ∈ (dag.fusedHead rest first).files ↔ file ∈ first.files ∨
        ∃ id ∈ rest, ∃ task, dag.tasks[id]? = some task ∧ file ∈ task.files := by
  unfold fusedHead
  induction rest generalizing first with
  | nil => simp
  | cons id rest ih =>
      cases found : dag.tasks[id]? with
      | none => simpa [found] using ih first
      | some merged =>
          obtain ⟨sameDeps, files⟩ := ih (mergeTaskSpecs first merged)
          simp only [List.filterMap_cons, found, List.foldl_cons]
          refine ⟨sameDeps, fun file => ?_⟩
          rw [files file]
          simp [mergeTaskSpecs, mem_appendUnique, found, or_assoc]

/-- The graph whose indexes are rebuilt by the fusion. -/
def fused (dag : UnifiedTaskDag) (start : GlobalTaskId)
    (rest : List GlobalTaskId) : UnifiedTaskDag :=
  { dag with tasks := dag.fuseTasks start rest }

/-- What the rewritten references of a dependent of the tail resolve to. -/
theorem exists_rewired_iff {start : GlobalTaskId} {rest : List GlobalTaskId}
    (faithful : dag.FusionFaithful start rest) {id : GlobalTaskId} {task : Task}
    (stored : dag.tasks[id]? = some task)
    (waits : dag.edges.Has id (rest.getLastD start)) (dep : GlobalTaskId) :
    (∃ raw ∈ task.dependsOn.map (rewireRef start (rest.getLastD start)),
      resolveDepRef id.plan raw = dep) ↔
      (dag.DeclaredDep id dep ∧ dep ≠ rest.getLastD start) ∨
        (dep = start ∧ dag.DeclaredDep id (rest.getLastD start)) := by
  have references := faithful.references id task stored waits
  generalize rest.getLastD start = tail at references ⊢
  have declared : ∀ other, dag.DeclaredDep id other ↔
      ∃ raw ∈ task.dependsOn, resolveDepRef id.plan raw = other := by
    intro other
    simp [DeclaredDep, stored]
  rw [declared, declared]
  constructor
  · rintro ⟨rewired, listed, rfl⟩
    obtain ⟨raw, member, rfl⟩ := List.mem_map.mp listed
    unfold rewireRef
    by_cases named : raw = tail.task ∨ raw = tail.toString
    · obtain ⟨meant, replaced⟩ := references raw member named
      rw [if_pos named]
      exact Or.inr ⟨replaced, raw, member, meant⟩
    · rw [if_neg named]
      exact Or.inl ⟨⟨raw, member, rfl⟩,
        fun resolved => named (eq_of_resolveDepRef resolved)⟩
  · rintro (⟨⟨raw, member, rfl⟩, other⟩ | ⟨rfl, raw, member, meant⟩)
    · refine ⟨raw, List.mem_map.mpr ⟨raw, member, ?_⟩, rfl⟩
      exact if_neg fun named => other (references raw member named).1
    · have named := eq_of_resolveDepRef meant
      refine ⟨_, List.mem_map.mpr ⟨raw, member, if_pos named⟩, ?_⟩
      exact (references raw member named).2

def Touches (dag : UnifiedTaskDag) (id : GlobalTaskId) (file : String) : Prop :=
  ∃ task, dag.tasks[id]? = some task ∧ file ∈ task.files

theorem overlapDep_iff_touches {id dep : GlobalTaskId} :
    dag.OverlapDep id dep ↔ dag.config.inferFileOverlap = true ∧ dep < id ∧
      ∃ file, dag.Touches id file ∧ dag.Touches dep file := by
  unfold OverlapDep Touches
  grind

section Fused

variable {start : GlobalTaskId} {rest : List GlobalTaskId}
  (wellFormed : dag.WellFormed) (chained : (start :: rest).IsChain dag.Linked)
  (nonempty : rest ≠ []) {first : Task} (found : dag.tasks[start]? = some first)

include wellFormed chained nonempty

/-- The head does not depend on the tail. -/
theorem not_has_start_tail :
    ¬ dag.edges.Has start (rest.getLastD start) := by
  intro edge
  have back := transGen_start_of_mem chained (getLastD_mem_rest start nonempty)
  exact wellFormed.acyclic start (back.head edge)

include found

theorem getElem?_fused (id : GlobalTaskId) :
    (dag.fused start rest).tasks[id]? =
      if id ∈ rest then none
      else if id = start then some (dag.fusedHead rest first)
      else if dag.edges.Has id (rest.getLastD start) then
        dag.tasks[id]?.map
          (Task.editDeps (List.map (rewireRef start (rest.getLastD start))))
      else dag.tasks[id]? := by
  have nodup : (dag.dependentsOf (rest.getLastD start)).toList.Nodup :=
    (sorted_toList _).imp fun less => less.ne
  have headKept := not_has_start_tail wellFormed chained nonempty
  show (dag.fuseTasks start rest)[id]? = _
  unfold fuseTasks
  rw [found]
  dsimp only
  rw [getElem?_foldl_erase, getElem?_editDependsOn _ nodup,
    Std.ExtTreeMap.getElem?_insert]
  simp only [Std.ExtTreeSet.mem_toList, mem_dependentsOf wellFormed.toIndexed]
  generalize rest.getLastD start = tail at headKept ⊢
  by_cases removed : id ∈ rest
  · simp [removed]
  by_cases isHead : id = start
  · subst isHead
    simp [removed, headKept, fusedHead]
  · simp [removed, isHead, Ne.symm isHead]

theorem mem_fused (id : GlobalTaskId) :
    id ∈ (dag.fused start rest).tasks ↔ id ∈ dag.tasks ∧ id ∉ rest := by
  have head : start ∈ dag.tasks := mem_tasks_iff.mpr ⟨first, found⟩
  rw [Std.ExtTreeMap.mem_iff_isSome_getElem?,
    getElem?_fused wellFormed chained nonempty found,
    Std.ExtTreeMap.mem_iff_isSome_getElem?]
  by_cases removed : id ∈ rest
  · simp [removed]
  by_cases isHead : id = start
  · subst isHead
    simp [removed, found]
  · simp only [removed, isHead, ↓reduceIte, not_false_eq_true, and_true]
    split <;> simp

variable (faithful : dag.FusionFaithful start rest)

include faithful

theorem declaredDep_fused_iff (id dep : GlobalTaskId) :
    (dag.fused start rest).DeclaredDep id dep ↔ id ∉ rest ∧
      ((dag.DeclaredDep id dep ∧ dep ≠ rest.getLastD start) ∨
        (dep = start ∧ dag.DeclaredDep id (rest.getLastD start))) := by
  have headKept := not_has_start_tail wellFormed chained nonempty
  have edge_of_declared : ∀ {other}, dag.DeclaredDep id other →
      dag.edges.Has id other :=
    fun declared => (wellFormed.represents _ _).mpr (Or.inl declared)
  -- A task that does not wait for the tail keeps its references.
  have unchanged : ¬ dag.edges.Has id (rest.getLastD start) →
      ((dag.DeclaredDep id dep ∧ dep ≠ rest.getLastD start) ∨
        (dep = start ∧ dag.DeclaredDep id (rest.getLastD start)) ↔
        dag.DeclaredDep id dep) := by
    intro free
    constructor
    · rintro (⟨declared, -⟩ | ⟨-, declared⟩)
      · exact declared
      · exact absurd (edge_of_declared declared) free
    · intro declared
      refine Or.inl ⟨declared, ?_⟩
      rintro rfl
      exact free (edge_of_declared declared)
  rw [DeclaredDep, getElem?_fused wellFormed chained nonempty found]
  by_cases removed : id ∈ rest
  · simp [removed]
  by_cases isHead : id = start
  · subst isHead
    rw [unchanged headKept]
    simp [removed, DeclaredDep, found, (dag.fusedHead_spec rest first).1]
  by_cases waits : dag.edges.Has id (rest.getLastD start)
  · cases stored : dag.tasks[id]? with
    | none =>
        have listed := (wellFormed.endpoints _ _ waits).1
        rw [mem_tasks_iff, stored] at listed
        simp at listed
    | some task =>
        rw [← exists_rewired_iff faithful stored waits dep]
        simp only [removed, isHead, waits, ↓reduceIte, Option.map_some,
          Option.some.injEq, exists_eq_left', not_false_eq_true, true_and]
        rfl
  · rw [unchanged waits]
    simp only [removed, isHead, waits, ↓reduceIte, not_false_eq_true, true_and]
    rfl

omit faithful in
theorem planDep_fused_iff (id dep : GlobalTaskId) :
    (dag.fused start rest).PlanDep id dep ↔
      dag.PlanDep id dep ∧ id ∉ rest ∧ dep ∉ rest := by
  unfold PlanDep
  rw [mem_fused wellFormed chained nonempty found,
    mem_fused wellFormed chained nonempty found]
  show dag.planDeps.Has id.plan dep.plan ∧ _ ↔ _
  tauto

omit faithful in
theorem touches_fused_iff (id : GlobalTaskId) (file : String) :
    (dag.fused start rest).Touches id file ↔ id ∉ rest ∧
      (dag.Touches id file ∨
        (id = start ∧ ∃ member ∈ rest, dag.Touches member file)) := by
  unfold Touches
  rw [getElem?_fused wellFormed chained nonempty found]
  by_cases removed : id ∈ rest
  · simp [removed]
  by_cases isHead : id = start
  · subst isHead
    simp [removed, found, (dag.fusedHead_spec rest first).2]
  by_cases waits : dag.edges.Has id (rest.getLastD start)
  · simp only [removed, isHead, waits, ↓reduceIte, not_false_eq_true, true_and,
      false_and, or_false, Option.map_eq_some_iff, exists_exists_and_eq_and]
    rfl
  · simp only [removed, isHead, waits, ↓reduceIte, not_false_eq_true, true_and,
      false_and, or_false]

omit nonempty found in
/-- A file that a task outside the chain shares with the chain behind the head
makes it a dependent of the tail, or the two would already be ordered. -/
theorem start_lt_of_shares (infers : dag.config.inferFileOverlap = true)
    {id member : GlobalTaskId} {file : String} (outside : id ∉ start :: rest)
    (inRest : member ∈ rest) (touches : dag.Touches id file)
    (memberTouches : dag.Touches member file) :
    start < id ∧ dag.edges.Has id (rest.getLastD start) := by
  have distinct : id ≠ member := by
    rintro rfl
    exact outside (List.mem_cons_of_mem _ inRest)
  rcases lt_or_gt_of_ne distinct with smaller | larger
  · have overlap : dag.OverlapDep member id :=
      Iff.mpr overlapDep_iff_touches ⟨infers, smaller, file, memberTouches, touches⟩
    have edge := (wellFormed.represents _ _).mpr (Or.inr (Or.inr overlap))
    exact absurd (mem_chain_of_has chained inRest edge) outside
  · have overlap : dag.OverlapDep id member :=
      Iff.mpr overlapDep_iff_touches ⟨infers, larger, file, touches, memberTouches⟩
    have edge := (wellFormed.represents _ _).mpr (Or.inr (Or.inr overlap))
    have isTail : member = rest.getLastD start := by
      by_contra notTail
      have dependentInRest := mem_rest_of_has chained
        (List.mem_cons_of_mem _ inRest) notTail edge
      exact outside (List.mem_cons_of_mem _ dependentInRest)
    rw [← isTail]
    exact ⟨faithful.overlaps id (isTail ▸ overlap), edge⟩

omit found faithful in
/-- The contracted edges, one by one. -/
theorem contracted_headOf_iff (id dep : GlobalTaskId) :
    DependencyGraph.Contracted dag.edges.Has (headOf start rest) id dep ↔
      id ∉ rest ∧ dep ∉ rest ∧ id ≠ dep ∧
        (dag.edges.Has id dep ∨
          (dep = start ∧ dag.edges.Has id (rest.getLastD start))) := by
  have headOut := start_not_mem_rest chained wellFormed.acyclic
  have tailIn := getLastD_mem_rest start nonempty
  have kept : ∀ {other}, other ∉ rest → headOf start rest other = other :=
    fun outside => if_neg outside
  have mapped : ∀ {other}, other ∈ rest → headOf start rest other = start :=
    fun inside => if_pos inside
  constructor
  · rintro ⟨distinct, member, depMember, rfl, rfl, edge⟩
    have memberOut : member ∉ rest := by
      intro inRest
      apply distinct
      rw [mapped inRest, Iff.mpr headOf_eq_start_iff (mem_chain_of_has chained inRest edge)]
    rw [kept memberOut] at distinct ⊢
    by_cases depIn : depMember ∈ rest
    · have isTail : depMember = rest.getLastD start := by
        by_contra notTail
        exact memberOut (mem_rest_of_has chained
          (List.mem_cons_of_mem _ depIn) notTail edge)
      rw [mapped depIn] at distinct ⊢
      exact ⟨memberOut, headOut, distinct, Or.inr ⟨rfl, isTail ▸ edge⟩⟩
    · rw [kept depIn] at distinct ⊢
      exact ⟨memberOut, depIn, distinct, Or.inl edge⟩
  · rintro ⟨idOut, depOut, distinct, edge | ⟨rfl, edge⟩⟩
    · exact ⟨distinct, id, dep, kept idOut, kept depOut, edge⟩
    · exact ⟨distinct, id, _, kept idOut, mapped tailIn, edge⟩

/-- The overlap edges of the fused tasks are old edges, or they replace the edge
to the tail. -/
theorem has_of_overlapDep_fused {id dep : GlobalTaskId}
    (overlap : (dag.fused start rest).OverlapDep id dep) :
    id ∉ rest ∧ dep ∉ rest ∧
      (dag.edges.Has id dep ∨
        (dep = start ∧ dag.edges.Has id (rest.getLastD start))) := by
  obtain ⟨infers, smaller, file, touches, depTouches⟩ :=
    Iff.mp overlapDep_iff_touches overlap
  have oldInfers : dag.config.inferFileOverlap = true := infers
  obtain ⟨idOut, idTouches⟩ :=
    (touches_fused_iff wellFormed chained nonempty found id file).mp touches
  obtain ⟨depOut, depTouches⟩ :=
    (touches_fused_iff wellFormed chained nonempty found dep file).mp depTouches
  refine ⟨idOut, depOut, ?_⟩
  rcases idTouches with direct | ⟨rfl, member, inRest, memberTouches⟩
  · rcases depTouches with depDirect | ⟨rfl, member, inRest, memberTouches⟩
    · have old : dag.OverlapDep id dep :=
        Iff.mpr overlapDep_iff_touches ⟨oldInfers, smaller, file, direct, depDirect⟩
      exact Or.inl ((wellFormed.represents _ _).mpr (Or.inr (Or.inr old)))
    · have outside : id ∉ dep :: rest := by
        rw [List.mem_cons, not_or]
        exact ⟨smaller.ne', idOut⟩
      exact Or.inr ⟨rfl, (start_lt_of_shares wellFormed chained faithful oldInfers
        outside inRest direct memberTouches).2⟩
  · -- The merged head never waits for a task that shares a removed task's file.
    rcases depTouches with depDirect | ⟨rfl, -⟩
    · have outside : dep ∉ id :: rest := by
        rw [List.mem_cons, not_or]
        exact ⟨smaller.ne, depOut⟩
      have larger := (start_lt_of_shares wellFormed chained faithful oldInfers
        outside inRest depDirect memberTouches).1
      exact absurd smaller larger.asymm
    · exact absurd smaller (lt_irrefl _)

omit found faithful in
/-- An edge between two remaining tasks, or from one of them to the tail, is a
contracted edge. -/
theorem contracted_of_has {id dep : GlobalTaskId} (idOut : id ∉ rest)
    (depOut : dep ∉ rest)
    (edge : dag.edges.Has id dep ∨
      (dep = start ∧ dag.edges.Has id (rest.getLastD start))) :
    DependencyGraph.Contracted dag.edges.Has (headOf start rest) id dep := by
  rw [contracted_headOf_iff wellFormed chained nonempty]
  refine ⟨idOut, depOut, ?_, edge⟩
  rintro rfl
  rcases edge with loop | ⟨rfl, edge⟩
  · exact wellFormed.acyclic _ (Relation.TransGen.single loop)
  · exact not_has_start_tail wellFormed chained nonempty edge

theorem contracted_of_requires_fused {id dep : GlobalTaskId}
    (requires : (dag.fused start rest).Requires id dep) :
    DependencyGraph.Contracted dag.edges.Has (headOf start rest) id dep := by
  have headOut := start_not_mem_rest chained wellFormed.acyclic
  have assemble : id ∉ rest → dep ∉ rest → _ :=
    contracted_of_has wellFormed chained nonempty
  rcases requires with declared | plan | overlap
  · obtain ⟨idOut, ⟨old, notTail⟩ | ⟨rfl, old⟩⟩ :=
      (declaredDep_fused_iff wellFormed chained nonempty found faithful id dep).mp
        declared
    · have edge := (wellFormed.represents _ _).mpr (Or.inl old)
      have depOut : dep ∉ rest := fun inRest => idOut
        (mem_rest_of_has chained (List.mem_cons_of_mem _ inRest) notTail edge)
      exact assemble idOut depOut (Or.inl edge)
    · exact assemble idOut headOut
        (Or.inr ⟨rfl, (wellFormed.represents _ _).mpr (Or.inl old)⟩)
  · obtain ⟨old, idOut, depOut⟩ :=
      (planDep_fused_iff wellFormed chained nonempty found id dep).mp plan
    exact assemble idOut depOut
      (Or.inl ((wellFormed.represents _ _).mpr (Or.inr (Or.inl old))))
  · obtain ⟨idOut, depOut, edge⟩ :=
      has_of_overlapDep_fused wellFormed chained nonempty found faithful overlap
    exact assemble idOut depOut edge

theorem requires_fused_of_contracted {id dep : GlobalTaskId}
    (contracted :
      DependencyGraph.Contracted dag.edges.Has (headOf start rest) id dep) :
    (dag.fused start rest).Requires id dep := by
  rw [contracted_headOf_iff wellFormed chained nonempty] at contracted
  have declaredFused :=
    declaredDep_fused_iff wellFormed chained nonempty found faithful id
  have touchesFused := touches_fused_iff wellFormed chained nonempty found
  have tailIn := getLastD_mem_rest start nonempty
  obtain ⟨idOut, depOut, distinct, edge | ⟨rfl, edge⟩⟩ := contracted
  · rcases (wellFormed.represents _ _).mp edge with declared | plan | overlap
    · left
      refine (declaredFused dep).mpr ⟨idOut, Or.inl ⟨declared, ?_⟩⟩
      rintro rfl
      exact depOut tailIn
    · right; left
      exact (planDep_fused_iff wellFormed chained nonempty found id dep).mpr
        ⟨plan, idOut, depOut⟩
    · right; right
      obtain ⟨infers, smaller, file, touches, depTouches⟩ :=
        Iff.mp overlapDep_iff_touches overlap
      exact Iff.mpr overlapDep_iff_touches ⟨infers, smaller, file,
        (touchesFused id file).mpr ⟨idOut, Or.inl touches⟩,
        (touchesFused dep file).mpr ⟨depOut, Or.inl depTouches⟩⟩
  · rcases faithful.reasons id edge with declared | overlap
    · left
      exact (declaredFused dep).mpr ⟨idOut, Or.inr ⟨rfl, declared⟩⟩
    · right; right
      obtain ⟨infers, -, file, touches, tailTouches⟩ :=
        Iff.mp overlapDep_iff_touches overlap
      exact Iff.mpr overlapDep_iff_touches ⟨infers, faithful.overlaps id overlap, file,
        (touchesFused id file).mpr ⟨idOut, Or.inl touches⟩,
        (touchesFused dep file).mpr
          ⟨depOut, Or.inr ⟨rfl, _, tailIn, tailTouches⟩⟩⟩

/-- The tasks of a faithful fusion require exactly the contracted edges. -/
theorem requires_fused_iff (id dep : GlobalTaskId) :
    (dag.fused start rest).Requires id dep ↔
      DependencyGraph.Contracted dag.edges.Has (headOf start rest) id dep :=
  ⟨contracted_of_requires_fused wellFormed chained nonempty found faithful,
    requires_fused_of_contracted wellFormed chained nonempty found faithful⟩

theorem resolvable_fused : (dag.fused start rest).Resolvable := by
  have member := mem_fused wellFormed chained nonempty found
  constructor
  case declared =>
    intro id task stored raw listed
    have requires : (dag.fused start rest).Requires id
        (resolveDepRef id.plan raw) := Or.inl ⟨task, stored, raw, listed, rfl⟩
    rw [requires_fused_iff wellFormed chained nonempty found faithful,
      contracted_headOf_iff wellFormed chained nonempty] at requires
    obtain ⟨-, depOut, -, edge | ⟨isHead, -⟩⟩ := requires
    · exact (member _).mpr ⟨(wellFormed.endpoints _ _ edge).2, depOut⟩
    · rw [isHead] at depOut ⊢
      exact (member _).mpr ⟨mem_tasks_iff.mpr ⟨first, found⟩, depOut⟩
  case plans =>
    intro plan deps listed
    have kept : ∀ {other : String},
        (∃ id ∈ dag.tasks, id ∉ rest ∧ id.plan = other) →
          (dag.fused start rest).HasPlan other := by
      rintro other ⟨id, known, out, samePlan⟩
      exact ⟨id, (member id).mpr ⟨known, out⟩, samePlan⟩
    obtain ⟨planKept, depsKept⟩ := faithful.plans plan deps listed
    exact ⟨kept planKept, fun dep inDeps => kept (depsKept dep inDeps)⟩

/-- A faithful fusion succeeds; its graph is the contracted one. -/
theorem fuseChain_of_faithful :
    (dag.fuseChain (start :: rest)).2 = .ok () ∧
      (dag.fuseChain (start :: rest)).1.WellFormed ∧
      (∀ id, id ∈ (dag.fuseChain (start :: rest)).1.tasks ↔
        id ∈ dag.tasks ∧ id ∉ rest) ∧
      ∀ id dep, (dag.fuseChain (start :: rest)).1.edges.Has id dep ↔
        DependencyGraph.Contracted dag.edges.Has (headOf start rest) id dep := by
  have rebuilt : (rebuildIndexes (dag.fused start rest)).2 = .ok () :=
    (rebuildIndexes_ok_iff (dag.fused start rest)).mpr
      (resolvable_fused wellFormed chained nonempty found faithful)
  have has := has_rebuildIndexes rebuilt
  have contracted := requires_fused_iff wellFormed chained nonempty found faithful
  have edges : ∀ id dep, (dag.fuseChain (start :: rest)).1.edges.Has id dep ↔
      DependencyGraph.Contracted dag.edges.Has (headOf start rest) id dep :=
    fun id dep => (has id dep).trans (contracted id dep)
  obtain ⟨sameTasks, samePlans, sameConfig⟩ :=
    frame_rebuildIndexes rebuilt
  refine ⟨rebuilt, ⟨⟨indexed_rebuildIndexes rebuilt, ?_⟩, ?_⟩, ?_, edges⟩
  · apply (wellFormed.acyclic.contracted (passable_headOf chained)).mono
    exact fun id dep edge => (edges id dep).mp edge
  · intro id dep
    exact (has id dep).trans
      (requires_of_frame sameTasks samePlans sameConfig id dep).symm
  · intro id
    show id ∈ (rebuildIndexes (dag.fused start rest)).1.tasks ↔ _
    rw [sameTasks]
    exact mem_fused wellFormed chained nonempty found id

end Fused

def chainHead : List GlobalTaskId → GlobalTaskId → GlobalTaskId
  | [], id => id
  | start :: rest, id => headOf start rest id

def FaithfulChain (dag : UnifiedTaskDag) : List GlobalTaskId → Prop
  | [] => True
  | start :: rest => dag.FusionFaithful start rest

/-- The fusions that a run attempts, each with the graph before it. -/
def attemptsFrom (config : FusionConfig) :
    Nat → UnifiedTaskDag → List (UnifiedTaskDag × List GlobalTaskId)
  | 0, _ => []
  | fuel + 1, dag =>
      match dag.nextChain config with
      | none => []
      | some chain =>
          match dag.fuseChain chain with
          | (_, .error _) => [(dag, chain)]
          | (next, .ok ()) => (dag, chain) :: attemptsFrom config fuel next

def fusionAttempts (dag : UnifiedTaskDag) (config : FusionConfig) :
    List (UnifiedTaskDag × List GlobalTaskId) :=
  attemptsFrom config dag.nodes.length dag

/-- The task that a task has been fused into. -/
def fusedInto (attempts : List (UnifiedTaskDag × List GlobalTaskId))
    (id : GlobalTaskId) : GlobalTaskId :=
  attempts.foldl (fun id attempt => chainHead attempt.2 id) id

/-- The graph is consistent, its tasks are the images of the old ones, and two
of them are ordered exactly when some of their preimages were. -/
structure OrderPreserved (before after : UnifiedTaskDag)
    (head : GlobalTaskId → GlobalTaskId) : Prop where
  consistent : after.Consistent
  images : ∀ id, id ∈ after.tasks ↔ ∃ old ∈ before.tasks, head old = id
  order : ∀ id dep, id ≠ dep →
    (Relation.TransGen after.edges.Has id dep ↔
      ∃ old oldDep, head old = id ∧ head oldDep = dep ∧
        Relation.TransGen before.edges.Has old oldDep)

theorem OrderPreserved.refl (consistent : dag.Consistent) :
    OrderPreserved dag dag id where
  consistent := consistent
  images := by simp
  order := by simp

theorem OrderPreserved.trans {before middle after : UnifiedTaskDag}
    {first second : GlobalTaskId → GlobalTaskId}
    (earlier : OrderPreserved before middle first)
    (later : OrderPreserved middle after second) :
    OrderPreserved before after (second ∘ first) where
  consistent := later.consistent
  images := by
    intro id
    rw [later.images]
    constructor
    · rintro ⟨old, known, rfl⟩
      obtain ⟨older, olderKnown, rfl⟩ := (earlier.images old).mp known
      exact ⟨older, olderKnown, rfl⟩
    · rintro ⟨older, known, rfl⟩
      exact ⟨first older, (earlier.images _).mpr ⟨older, known, rfl⟩, rfl⟩
  order := by
    intro id dep distinct
    rw [later.order id dep distinct]
    constructor
    · rintro ⟨old, oldDep, rfl, rfl, path⟩
      have oldDistinct : old ≠ oldDep := fun same => distinct (same ▸ rfl)
      obtain ⟨older, olderDep, rfl, rfl, olderPath⟩ :=
        (earlier.order old oldDep oldDistinct).mp path
      exact ⟨older, olderDep, rfl, rfl, olderPath⟩
    · rintro ⟨older, olderDep, rfl, rfl, path⟩
      have oldDistinct : first older ≠ first olderDep :=
        fun same => distinct (congrArg second same)
      exact ⟨first older, first olderDep, rfl, rfl,
        (earlier.order _ _ oldDistinct).mpr ⟨older, olderDep, rfl, rfl, path⟩⟩

theorem orderPreserved_fuseChain (wellFormed : dag.WellFormed)
    {config : FusionConfig} {chain : List GlobalTaskId}
    (next : dag.nextChain config = some chain)
    (faithful : dag.FaithfulChain chain) :
    (dag.fuseChain chain).2 = .ok () ∧ (dag.fuseChain chain).1.WellFormed ∧
      OrderPreserved dag (dag.fuseChain chain).1 (chainHead chain) := by
  obtain ⟨start, rest, rfl, nonempty, known, chained⟩ :=
    linked_nextChain wellFormed.toConsistent next
  obtain ⟨first, found⟩ := mem_tasks_iff.mp known
  obtain ⟨rebuilt, fusedWellFormed, tasks, edges⟩ :=
    fuseChain_of_faithful wellFormed chained nonempty found faithful
  have headOut := start_not_mem_rest chained wellFormed.acyclic
  refine ⟨rebuilt, fusedWellFormed, fusedWellFormed.toConsistent, ?_, ?_⟩
  · intro id
    rw [tasks]
    constructor
    · rintro ⟨listed, out⟩
      exact ⟨id, listed, if_neg out⟩
    · rintro ⟨old, listed, rfl⟩
      show headOf start rest old ∈ dag.tasks ∧ headOf start rest old ∉ rest
      unfold headOf
      split
      · exact ⟨known, headOut⟩
      case isFalse out => exact ⟨listed, out⟩
  · intro id dep distinct
    have same : (dag.fuseChain (start :: rest)).1.edges.Has =
        DependencyGraph.Contracted dag.edges.Has (headOf start rest) := by
      funext id dep
      exact propext (edges id dep)
    rw [same]
    exact DependencyGraph.transGen_contracted_iff (passable_headOf chained) distinct

theorem attemptsFrom_of_none {config : FusionConfig}
    (none : dag.nextChain config = none) (fuel fusions : Nat) :
    attemptsFrom config fuel dag = [] ∧
      fuseLoop config fuel dag fusions = (dag, fusions) := by
  cases fuel with
  | zero => exact ⟨rfl, rfl⟩
  | succ fuel => simp [attemptsFrom, fuseLoop, none]

theorem mem_attemptsFrom {config : FusionConfig} {chain : List GlobalTaskId}
    (next : dag.nextChain config = some chain) (fuel : Nat) :
    (dag, chain) ∈ attemptsFrom config (fuel + 1) dag := by
  rw [attemptsFrom, next]
  dsimp only
  split <;> simp

theorem attemptsFrom_of_ok {config : FusionConfig} {chain : List GlobalTaskId}
    (next : dag.nextChain config = some chain)
    (rebuilt : (dag.fuseChain chain).2 = .ok ()) (fuel fusions : Nat) :
    attemptsFrom config (fuel + 1) dag =
        (dag, chain) :: attemptsFrom config fuel (dag.fuseChain chain).1 ∧
      fuseLoop config (fuel + 1) dag fusions =
        fuseLoop config fuel (dag.fuseChain chain).1 (fusions + 1) := by
  rw [attemptsFrom, fuseLoop, next]
  dsimp only
  have pair : dag.fuseChain chain = ((dag.fuseChain chain).1, .ok ()) := by
    rw [← rebuilt]
  rw [pair]
  exact ⟨rfl, rfl⟩

/-- A run of faithful fusions completes them all and preserves the order. -/
theorem orderPreserved_fuseLoop (config : FusionConfig) (fuel : Nat)
    (wellFormed : dag.WellFormed) (fusions : Nat)
    (faithful : ∀ attempt ∈ attemptsFrom config fuel dag,
      attempt.1.FaithfulChain attempt.2) :
    OrderPreserved dag (fuseLoop config fuel dag fusions).1
        (fusedInto (attemptsFrom config fuel dag)) ∧
      ∀ attempt ∈ attemptsFrom config fuel dag,
        (attempt.1.fuseChain attempt.2).2 = .ok () := by
  induction fuel generalizing dag fusions with
  | zero =>
      exact ⟨.refl wellFormed.toConsistent,
        fun _ member => absurd member List.not_mem_nil⟩
  | succ fuel ih =>
      cases next : dag.nextChain config with
      | none =>
          obtain ⟨noAttempt, unchanged⟩ :=
            attemptsFrom_of_none next (fuel + 1) fusions
          rw [noAttempt, unchanged]
          exact ⟨.refl wellFormed.toConsistent,
            fun _ member => absurd member List.not_mem_nil⟩
      | some chain =>
          have here := faithful _ (mem_attemptsFrom next fuel)
          obtain ⟨rebuilt, fusedWellFormed, preserved⟩ :=
            orderPreserved_fuseChain wellFormed next here
          obtain ⟨attempts, loop⟩ := attemptsFrom_of_ok next rebuilt fuel fusions
          rw [attempts] at faithful ⊢
          rw [loop]
          obtain ⟨laterPreserved, completed⟩ := ih fusedWellFormed (fusions + 1)
            fun attempt member => faithful attempt (List.mem_cons_of_mem _ member)
          refine ⟨preserved.trans laterPreserved, ?_⟩
          intro attempt member
          rcases List.mem_cons.mp member with rfl | later
          · exact rebuilt
          · exact completed attempt later

/-- The fusion keeps the graph consistent and the order of the tasks, and an
attempt that fails leaves the graph before it. -/
structure FusionCorrect (dag : UnifiedTaskDag) (config : FusionConfig) : Prop where
  preserved : OrderPreserved dag (dag.fuseLinearChains config).1
    (fusedInto (dag.fusionAttempts config))
  rolledBack : ∀ attempt ∈ dag.fusionAttempts config,
    (attempt.1.fuseChain attempt.2).2 ≠ .ok () →
      (dag.fuseLinearChains config).1 = attempt.1

/-- On every well-formed graph, a run all of whose attempts are faithful is
correct. -/
theorem fusionCorrect_of_faithful (wellFormed : dag.WellFormed)
    (config : FusionConfig)
    (faithful : ∀ attempt ∈ dag.fusionAttempts config,
      attempt.1.FaithfulChain attempt.2) :
    dag.FusionCorrect config := by
  obtain ⟨preserved, completed⟩ :=
    orderPreserved_fuseLoop config dag.nodes.length wellFormed 0 faithful
  exact ⟨preserved, fun attempt member failed =>
    absurd (completed attempt member) failed⟩

/-- The condition only looks at entries of the maps. -/
theorem fusionFaithful_iff_entries (start : GlobalTaskId) (rest : List GlobalTaskId) :
    dag.FusionFaithful start rest ↔
      (∀ entry ∈ dag.planDeps.toList,
        (∃ id ∈ dag.tasks.keys, id ∉ rest ∧ id.plan = entry.1) ∧
          ∀ dep ∈ entry.2.toList, ∃ id ∈ dag.tasks.keys, id ∉ rest ∧ id.plan = dep) ∧
      (∀ entry ∈ dag.tasks.toList, dag.edges.Has entry.1 (rest.getLastD start) →
        ∀ raw ∈ entry.2.dependsOn,
          raw = (rest.getLastD start).task ∨ raw = (rest.getLastD start).toString →
            resolveDepRef entry.1.plan raw = rest.getLastD start ∧
              resolveDepRef entry.1.plan (startRef start (rest.getLastD start)) =
                start) ∧
      (∀ id ∈ dag.edges.keys, dag.edges.Has id (rest.getLastD start) →
        dag.DeclaredDep id (rest.getLastD start) ∨
          dag.OverlapDep id (rest.getLastD start)) ∧
      ∀ id ∈ dag.tasks.keys, dag.OverlapDep id (rest.getLastD start) → start < id := by
  have overlapKey : ∀ {id dep}, dag.OverlapDep id dep → id ∈ dag.tasks := by
    rintro id dep ⟨-, -, task, found, -⟩
    exact mem_tasks_iff.mpr ⟨task, found⟩
  simp only [Prod.forall, Std.ExtTreeMap.mem_toList_iff_getElem?_eq_some,
    Std.ExtTreeMap.mem_keys, Std.ExtTreeSet.mem_toList]
  constructor
  · intro faithful
    exact ⟨faithful.plans, faithful.references, fun id _ => faithful.reasons id,
      fun id _ => faithful.overlaps id⟩
  · rintro ⟨plans, references, reasons, overlaps⟩
    exact ⟨plans, references, fun id edge => reasons id (SetMap.mem_of_has edge) edge,
      fun id overlap => overlaps id (overlapKey overlap) overlap⟩

instance (start : GlobalTaskId) (rest : List GlobalTaskId) :
    Decidable (dag.FusionFaithful start rest) :=
  decidable_of_iff' _ (fusionFaithful_iff_entries start rest)

instance (chain : List GlobalTaskId) : Decidable (dag.FaithfulChain chain) :=
  match chain with
  | [] => isTrue trivial
  | start :: rest => inferInstanceAs (Decidable (dag.FusionFaithful start rest))

/-- A chain whose last task names its predecessor with the plan. -/
def chainPlans : Std.ExtTreeMap String (List Task) :=
  (∅ : Std.ExtTreeMap String (List Task)).insert "a"
    [{ id := "t1", title := "one" },
      { id := "t2", title := "two", dependsOn := ["t1"] },
      { id := "t3", title := "three", dependsOn := ["a:t2"] }]

/-- Pairs are fused; the width is not limited. -/
def pairFusion : FusionConfig :=
  { maxChainLength := 2, tooNarrow := fun _ _ => false }

theorem chainPlans_fusionCorrect :
    ∃ dag, UnifiedTaskDag.build chainPlans ∅ {} = .ok dag ∧
      dag.nextChain pairFusion = some [⟨"a", "t1"⟩, ⟨"a", "t2"⟩] ∧
      (dag.fuseLinearChains pairFusion).2 = 2 ∧
      dag.FusionCorrect pairFusion := by
  have ran : (UnifiedTaskDag.build chainPlans ∅ {}).toOption.map
      (fun dag => (dag.nextChain pairFusion, (dag.fuseLinearChains pairFusion).2,
        decide (∀ attempt ∈ dag.fusionAttempts pairFusion,
          attempt.1.FaithfulChain attempt.2))) =
      some (some [⟨"a", "t1"⟩, ⟨"a", "t2"⟩], 2, true) := by
    decide +kernel
  obtain ⟨dag, built, reads⟩ := FallibleSteps.ok_of_map_toOption ran
  simp only [Prod.mk.injEq] at reads
  obtain ⟨next, fusions, faithful⟩ := reads
  exact ⟨dag, built, next, fusions, fusionCorrect_of_faithful
    (wellFormed_build built) pairFusion (of_decide_eq_true faithful)⟩

/-- The reference from plan `b` is rewritten to the bare id of the head, which
plan `b` does not have: the rebuild fails and the merged task is gone. -/
theorem samplePlans_not_fusionCorrect :
    ∃ dag, UnifiedTaskDag.build samplePlans ∅ {} = .ok dag ∧ dag.WellFormed ∧
      dag.nodes = [⟨"a", "t1"⟩, ⟨"a", "t2"⟩, ⟨"b", "u1"⟩] ∧
      (dag.fuseLinearChains pairFusion).1.nodes = [⟨"a", "t1"⟩, ⟨"b", "u1"⟩] ∧
      ¬ dag.FusionCorrect pairFusion := by
  have ran : (UnifiedTaskDag.build samplePlans ∅ {}).toOption.map
      (fun dag => (dag.nodes, (dag.fuseLinearChains pairFusion).1.nodes,
        dag.nextChain pairFusion,
        decide ((dag.fuseChain [⟨"a", "t1"⟩, ⟨"a", "t2"⟩]).2 = .ok ()))) =
      some ([⟨"a", "t1"⟩, ⟨"a", "t2"⟩, ⟨"b", "u1"⟩], [⟨"a", "t1"⟩, ⟨"b", "u1"⟩],
        some [⟨"a", "t1"⟩, ⟨"a", "t2"⟩], false) := by
    decide +kernel
  obtain ⟨dag, built, reads⟩ := FallibleSteps.ok_of_map_toOption ran
  simp only [Prod.mk.injEq] at reads
  obtain ⟨before, after, next, failed⟩ := reads
  refine ⟨dag, built, wellFormed_build built, before, after, fun correct => ?_⟩
  have attempted : (dag, [⟨"a", "t1"⟩, ⟨"a", "t2"⟩]) ∈
      dag.fusionAttempts pairFusion := by
    unfold fusionAttempts
    rw [before]
    exact mem_attemptsFrom next 2
  have unchanged := correct.rolledBack _ attempted (of_decide_eq_false failed)
  rw [unchanged, before] at after
  exact absurd after (by decide)

end UnifiedTaskDag

end Roko
