import Roko.SetMap
import Mathlib.Data.Prod.Lex
import Mathlib.Data.String.Basic
import Mathlib.Data.List.Infix

/-!
# Tasks and global task ids

The task record, and the `plan:task` ids under which the tasks of all plans share
one graph.
-/

namespace Roko

inductive TaskStatus
  | pending
  | active
  | done
  | blocked
  deriving DecidableEq, Repr

inductive TaskComplexityBand
  | fast
  | standard
  | complex
  deriving DecidableEq, Repr

inductive TaskCategory
  | scaffolding
  | implementation
  | integration
  | verification
  | research
  | refactor
  | infra
  | docs
  deriving DecidableEq, Repr

inductive TaskReasoningLevel
  | low
  | medium
  | high
  deriving DecidableEq, Repr

inductive TaskSpeedPriority
  | latency
  | balanced
  | accuracy
  deriving DecidableEq, Repr

inductive TaskQualityProfile
  | pragmatic
  | balanced
  | hardened
  deriving DecidableEq, Repr

inductive TaskContextWeight
  | slim
  | standard
  | deep
  deriving DecidableEq, Repr

/-- The source's `TaskDomain`. -/
inductive TaskDomain
  | code
  | chain
  | research
  | docs
  | custom (label : String)
  deriving DecidableEq

structure Task where
  id : String
  title : String
  status : TaskStatus := .pending
  files : List String := []
  role : Option String := none
  acceptance : List String := []
  dependsOn : List String := []
  parallelGroup : Option String := none
  exclusiveFiles : Bool := true
  estimatedMinutes : Option UInt32 := none
  typesToDefine : Option (List String) := none
  formulas : Option (List String) := none
  testInvariants : Option (List String) := none
  imports : Option (List String) := none
  examplePattern : Option String := none
  contextFiles : Option (List String) := none
  planSection : Option String := none
  skills : Option (List String) := none
  category : Option TaskCategory := none
  reasoningLevel : Option TaskReasoningLevel := none
  speedPriority : Option TaskSpeedPriority := none
  qualityProfile : Option TaskQualityProfile := none
  contextWeight : Option TaskContextWeight := none
  researchBeforeEdit : Option Bool := none
  tags : Option (List String) := none
  dependencyTags : Option (List String) := none
  fixtureKeys : Option (List String) := none
  sidecarRequirements : Option (List String) := none
  integrationSurfaces : Option (List String) := none
  complexityBand : Option TaskComplexityBand := none
  preferredModel : Option String := none
  preferredProvider : Option String := none
  escalateOnRetry : Option Bool := none
  domain : Option TaskDomain := none
  deriving DecidableEq

/-- Plan base name and task id within the plan, ordered first by plan. -/
structure GlobalTaskId where
  plan : String
  task : String
  deriving DecidableEq

namespace GlobalTaskId

instance : LinearOrder GlobalTaskId :=
  LinearOrder.lift' (fun id : GlobalTaskId => toLex (id.plan, id.task))
    (fun first second same => by
      cases first
      cases second
      simpa using same)

instance : Std.TransOrd GlobalTaskId :=
  inferInstance

instance : Std.LawfulEqOrd GlobalTaskId where
  eq_of_compare same := compare_eq_iff_eq.mp same

/-- The `Display` form. -/
def toString (id : GlobalTaskId) : String :=
  id.plan ++ ":" ++ id.task

/-- Split at the first colon; both sides must be nonempty. -/
def parse (text : String) : Option GlobalTaskId :=
  match text.toList.span (· != ':') with
  | (_, []) => none
  | (plan, _ :: task) =>
      if plan.isEmpty || task.isEmpty then none
      else some ⟨String.ofList plan, String.ofList task⟩

/-- A reference that parses is the display form of what it parses to. -/
theorem toString_of_parse {text : String} {id : GlobalTaskId}
    (parsed : parse text = some id) : id.toString = text := by
  unfold parse at parsed
  rw [List.span_eq_takeWhile_dropWhile] at parsed
  have rejoined := List.takeWhile_append_dropWhile
    (p := (· != ':')) (l := text.toList)
  have colon : ∀ head, (text.toList.dropWhile (· != ':')).head? = some head →
      head = ':' := by
    intro head first
    have stopped := List.head?_dropWhile_not (· != ':') text.toList
    rw [first] at stopped
    simpa using stopped
  split at parsed
  · cases parsed
  case _ plan separator task split =>
    obtain ⟨samePlan, sameTask⟩ := Prod.mk.inj split
    rw [sameTask] at colon rejoined
    rw [samePlan, colon separator rfl] at rejoined
    split at parsed
    · cases parsed
    · rw [← Option.some.inj parsed]
      apply String.toList_inj.mp
      simp [toString, ← rejoined]

end GlobalTaskId

/-!
The graph over the tasks of every plan.  Its edges come from three places: the
`depends_on` references of a task, the dependencies between whole plans, and,
if asked for, the files that two tasks share.  `rebuild_indexes` recomputes the
edge maps from the task map; it returns early at the first dangling reference
or unknown plan and leaves the indexes half built.
-/

structure DagConfig where
  inferFileOverlap : Bool := true
  /-- Zero means unbounded. -/
  maxWaveWidth : Nat := 0
  deriving DecidableEq

inductive DagError
  | cycle (tasks : List GlobalTaskId)
  | danglingDepRef (referrer : GlobalTaskId) (target : String)
  | unknownPlan (plan : String)
  deriving DecidableEq

/-- The hash maps of the source are iterated here in the order of their keys.
Successful loops do not depend on that order. -/
structure UnifiedTaskDag where
  tasks : Std.ExtTreeMap GlobalTaskId Task
  /-- Plan to the plans it depends on. -/
  planDeps : SetMap String String
  /-- Task to its direct dependencies. -/
  edges : SetMap GlobalTaskId GlobalTaskId
  /-- Task to its dependents. -/
  reverseEdges : SetMap GlobalTaskId GlobalTaskId
  /-- The sorted node list. -/
  nodes : List GlobalTaskId
  estimates : Std.ExtTreeMap GlobalTaskId UInt32
  config : DagConfig

/-- A reference without a plan is resolved in the plan of the referrer. -/
def resolveDepRef (referrerPlan raw : String) : GlobalTaskId :=
  (GlobalTaskId.parse raw).getD ⟨referrerPlan, raw⟩

def tasksForPlan (tasks : Std.ExtTreeMap GlobalTaskId Task) (plan : String) :
    Option (List GlobalTaskId) :=
  let ids := tasks.keys.filter fun id => id.plan == plan
  if ids.isEmpty then none else some ids

namespace UnifiedTaskDag

def depsOf (dag : UnifiedTaskDag) (id : GlobalTaskId) :
    Std.ExtTreeSet GlobalTaskId :=
  dag.edges[id]?.getD ∅

def dependentsOf (dag : UnifiedTaskDag) (id : GlobalTaskId) :
    Std.ExtTreeSet GlobalTaskId :=
  dag.reverseEdges[id]?.getD ∅

/-- Resolve one `depends_on` reference of a task. -/
def addDeclaredDep (nodes : List GlobalTaskId) (id : GlobalTaskId)
    (edges : SetMap GlobalTaskId GlobalTaskId) (raw : String) :
    SetMap GlobalTaskId GlobalTaskId × Except DagError Unit :=
  let depId := resolveDepRef id.plan raw
  if nodes.contains depId then (edges.insertAt id depId, .ok ())
  else (edges, .error (.danglingDepRef id raw))

/-- Record the estimate and the declared dependencies of one task. -/
def indexTask (nodes : List GlobalTaskId)
    (indexes : SetMap GlobalTaskId GlobalTaskId ×
      Std.ExtTreeMap GlobalTaskId UInt32)
    (entry : GlobalTaskId × Task) :
    (SetMap GlobalTaskId GlobalTaskId × Std.ExtTreeMap GlobalTaskId UInt32) ×
      Except DagError Unit :=
  let estimates := indexes.2.insert entry.1 (entry.2.estimatedMinutes.getD 0)
  let declared := FallibleSteps.forEach (addDeclaredDep nodes entry.1) indexes.1
    entry.2.dependsOn
  ((declared.1, estimates), declared.2)

/-- Make every task of one list depend on every task of the other. -/
def addAllDeps (ids depIds : List GlobalTaskId)
    (edges : SetMap GlobalTaskId GlobalTaskId) :
    SetMap GlobalTaskId GlobalTaskId :=
  ids.foldl
    (fun edges id =>
      depIds.foldl (fun edges depId => edges.insertAt id depId) edges)
    edges

def addPlanDep (tasks : Std.ExtTreeMap GlobalTaskId Task)
    (planTasks : List GlobalTaskId) (edges : SetMap GlobalTaskId GlobalTaskId)
    (depPlan : String) :
    SetMap GlobalTaskId GlobalTaskId × Except DagError Unit :=
  match tasksForPlan tasks depPlan with
  | none => (edges, .error (.unknownPlan depPlan))
  | some depTasks => (addAllDeps planTasks depTasks edges, .ok ())

/-- The edges of one entry of the plan-level dependencies. -/
def addPlanDeps (tasks : Std.ExtTreeMap GlobalTaskId Task)
    (edges : SetMap GlobalTaskId GlobalTaskId)
    (entry : String × Std.ExtTreeSet String) :
    SetMap GlobalTaskId GlobalTaskId × Except DagError Unit :=
  match tasksForPlan tasks entry.1 with
  | none => (edges, .error (.unknownPlan entry.1))
  | some planTasks =>
      FallibleSteps.forEach (addPlanDep tasks planTasks) edges entry.2.toList

/-- File to the tasks that touch it. -/
def tasksByFile (tasks : Std.ExtTreeMap GlobalTaskId Task) :
    SetMap String GlobalTaskId :=
  tasks.toList.foldl
    (fun byFile entry =>
      entry.2.files.foldl (fun byFile file => byFile.insertAt file entry.1) byFile)
    ∅

/-- Serialize the tasks that share a file: each one depends on every earlier
one. -/
def addOverlapDeps (edges : SetMap GlobalTaskId GlobalTaskId)
    (ordered : List GlobalTaskId) : SetMap GlobalTaskId GlobalTaskId :=
  (ordered.zip ordered.inits).foldl
    (fun edges pair =>
      pair.2.foldl
        (fun edges earlier =>
          if pair.1 ≠ earlier then edges.insertAt pair.1 earlier else edges)
        edges)
    edges

def addFileOverlaps (tasks : Std.ExtTreeMap GlobalTaskId Task)
    (edges : SetMap GlobalTaskId GlobalTaskId) :
    SetMap GlobalTaskId GlobalTaskId :=
  (tasksByFile tasks).toList.foldl
    (fun edges entry => addOverlapDeps edges entry.2.toList) edges

/-- The first loop of `rebuild_indexes`, over the tasks. -/
def declaredIndexes (dag : UnifiedTaskDag) :
    (SetMap GlobalTaskId GlobalTaskId × Std.ExtTreeMap GlobalTaskId UInt32) ×
      Except DagError Unit :=
  FallibleSteps.forEach (indexTask dag.tasks.keys)
    (SetMap.emptyAt dag.tasks.keys, ∅) dag.tasks.toList

/-- The second loop of `rebuild_indexes`, over the plan-level dependencies. -/
def planEdges (dag : UnifiedTaskDag)
    (edges : SetMap GlobalTaskId GlobalTaskId) :
    SetMap GlobalTaskId GlobalTaskId × Except DagError Unit :=
  FallibleSteps.forEach (addPlanDeps dag.tasks) edges dag.planDeps.toList

def rebuildIndexes (dag : UnifiedTaskDag) :
    UnifiedTaskDag × Except DagError Unit :=
  let cleared := { dag with
    nodes := dag.tasks.keys
    edges := SetMap.emptyAt dag.tasks.keys
    reverseEdges := SetMap.emptyAt dag.tasks.keys
    estimates := ∅ }
  match dag.declaredIndexes with
  | ((edges, estimates), .error failure) =>
      ({ cleared with edges, estimates }, .error failure)
  | ((edges, estimates), .ok ()) =>
      match dag.planEdges edges with
      | (edges, .error failure) =>
          ({ cleared with edges, estimates }, .error failure)
      | (edges, .ok ()) =>
          let edges :=
            if dag.config.inferFileOverlap then addFileOverlaps dag.tasks edges
            else edges
          ({ cleared with
              edges, estimates
              reverseEdges := SetMap.insertInverse cleared.reverseEdges edges },
            .ok ())

end UnifiedTaskDag

end Roko
