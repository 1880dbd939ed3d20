import Roko.TaskDagMutation

/-!
# What a mutation edits

`Edit` says for every kind of mutation when its edit of the task map succeeds and what
it leaves.  The edits of reference lists are described by their members, and by the
lists that they leave as they are.
-/

namespace Roko

/-- How a removed task is taken out of the references of a dependent. -/
def reconnectDeps (target : String) (inherited deps : List String) : List String :=
  inherited.foldl pushDep (removeDep deps target)

namespace UnifiedTaskDag

/-- The edit of the task map succeeds and leaves the given tasks. -/
inductive Edit (dag : UnifiedTaskDag) :
    DagMutation → Std.ExtTreeMap GlobalTaskId Task → Prop
  | addTask {taskId : GlobalTaskId} {task : Task} {dependsOn : List GlobalTaskId}
      (sameId : taskId.task = task.id) (fresh : taskId ∉ dag.tasks) :
      Edit dag (.addTask taskId task dependsOn)
        (dag.tasks.insert taskId
          { task with dependsOn := dependsOn.map GlobalTaskId.toString })
  | removeTask {taskId : GlobalTaskId} {task : Task}
      (found : dag.tasks[taskId]? = some task) (open' : task.status ≠ .done) :
      Edit dag (.removeTask taskId)
        ((editDependsOn (reconnectDeps taskId.toString task.dependsOn)
          (dag.dependentsOf taskId).toList dag.tasks).erase taskId)
  | splitTask {taskId : GlobalTaskId} {into : List Task} {original : Task}
      {chain : List GlobalTaskId} {last : GlobalTaskId}
      {inserted : Std.ExtTreeMap GlobalTaskId Task}
      (found : dag.tasks[taskId]? = some original) (open' : original.status ≠ .done)
      (split : splitInto taskId original.dependsOn into [] dag.tasks =
        .ok (chain, inserted))
      (ends : chain.getLast? = some last) :
      Edit dag (.splitTask taskId into)
        ((editDependsOn (fun deps => replaceDep deps taskId.toString last.toString)
          (dag.dependentsOf taskId).toList inserted).erase taskId)
  | addDependency {fromId toId : GlobalTaskId} {task : Task}
      (distinct : fromId ≠ toId) (found : dag.tasks[fromId]? = some task)
      (open' : task.status ≠ .done) :
      Edit dag (.addDependency fromId toId)
        (dag.tasks.insert fromId
          { task with dependsOn := pushDep task.dependsOn toId.toString })
  | updateTaskMetadata {taskId : GlobalTaskId} {task current : Task}
      (found : dag.tasks[taskId]? = some current) (open' : current.status ≠ .done)
      (sameId : taskId.task = task.id) :
      Edit dag (.updateTaskMetadata taskId task)
        (dag.tasks.insert taskId { task with dependsOn := current.dependsOn })

variable {dag : UnifiedTaskDag}

theorem ensureMutable_ok_iff {taskId : GlobalTaskId} {task : Task} :
    dag.ensureMutable taskId = .ok task ↔
      dag.tasks[taskId]? = some task ∧ task.status ≠ .done := by
  unfold ensureMutable
  cases dag.tasks[taskId]? with
  | none => simp
  | some found =>
      by_cases finished : found.status = .done
      · simp only [finished, if_true, Option.some.injEq]
        grind
      · simp only [finished, if_false, Except.ok.injEq, Option.some.injEq]
        grind

theorem edit_of_ok {mutation : DagMutation} {tasks : Std.ExtTreeMap GlobalTaskId Task}
    (edited : dag.editTasks mutation = .ok tasks) : dag.Edit mutation tasks := by
  cases mutation with
  | addTask taskId task dependsOn =>
      simp only [editTasks] at edited
      split at edited
      · cases edited
      case isFalse sameId =>
        split at edited
        · cases edited
        case isFalse fresh =>
          cases edited
          refine .addTask (not_not.mp sameId) ?_
          exact fun known => fresh (Std.ExtTreeMap.contains_iff_mem.mpr known)
  | removeTask taskId =>
      obtain ⟨task, checked, returned⟩ := FallibleSteps.bind_ok edited
      obtain ⟨found, open'⟩ := ensureMutable_ok_iff.mp checked
      cases returned
      exact .removeTask found open'
  | splitTask taskId into =>
      obtain ⟨original, checked, rest⟩ := FallibleSteps.bind_ok edited
      obtain ⟨found, open'⟩ := ensureMutable_ok_iff.mp checked
      dsimp only at rest
      split at rest
      · cases rest
      obtain ⟨⟨chain, inserted⟩, split, rest⟩ := FallibleSteps.bind_ok rest
      dsimp only at rest
      split at rest
      case h_1 => cases rest
      case h_2 last ends =>
        cases rest
        exact .splitTask found open' split ends
  | addDependency fromId toId =>
      simp only [editTasks] at edited
      split at edited
      · cases edited
      case isFalse distinct =>
        obtain ⟨task, checked, returned⟩ := FallibleSteps.bind_ok edited
        obtain ⟨found, open'⟩ := ensureMutable_ok_iff.mp checked
        cases returned
        exact .addDependency distinct found open'
  | updateTaskMetadata taskId task =>
      obtain ⟨current, checked, rest⟩ := FallibleSteps.bind_ok edited
      obtain ⟨found, open'⟩ := ensureMutable_ok_iff.mp checked
      dsimp only at rest
      split at rest
      · cases rest
      case isFalse sameId =>
        cases rest
        exact .updateTaskMetadata found open' (not_not.mp sameId)

@[simp]
theorem dependsOn_editDeps (edit : List String → List String) (task : Task) :
    (task.editDeps edit).dependsOn = edit task.dependsOn :=
  rfl

theorem getElem?_editDependsOn (edit : List String → List String)
    {ids : List GlobalTaskId} (nodup : ids.Nodup)
    (tasks : Std.ExtTreeMap GlobalTaskId Task) (id : GlobalTaskId) :
    (editDependsOn edit ids tasks)[id]? =
      if id ∈ ids then tasks[id]?.map (Task.editDeps edit) else tasks[id]? := by
  unfold editDependsOn
  induction ids generalizing tasks with
  | nil => simp
  | cons head ids ih =>
      obtain ⟨fresh, nodupRest⟩ := List.nodup_cons.mp nodup
      rw [List.foldl_cons, ih nodupRest, Std.ExtTreeMap.getElem?_modify]
      by_cases same : head = id
      · subst same
        simp [fresh]
      · simp [same, Ne.symm same]

/-- The lookup of another task after the edit of the dependents and the removal. -/
theorem getElem?_edited_erased (edit : List String → List String)
    (tasks : Std.ExtTreeMap GlobalTaskId Task) (ids : Std.ExtTreeSet GlobalTaskId)
    {taskId id : GlobalTaskId} (apart : taskId ≠ id) :
    ((editDependsOn edit ids.toList tasks).erase taskId)[id]? =
      if id ∈ ids then tasks[id]?.map (Task.editDeps edit) else tasks[id]? := by
  rw [Std.ExtTreeMap.getElem?_erase, if_neg (by simpa using apart),
    getElem?_editDependsOn edit (nodup_toList ids)]
  simp only [Std.ExtTreeSet.mem_toList]

/-- A reference that resolves to a task is its bare or its qualified name. -/
theorem eq_of_resolveDepRef {plan raw : String} {id : GlobalTaskId}
    (resolved : resolveDepRef plan raw = id) :
    raw = id.task ∨ raw = id.toString := by
  unfold resolveDepRef at resolved
  cases parsed : GlobalTaskId.parse raw with
  | none =>
      rw [parsed] at resolved
      rw [← resolved]
      exact Or.inl rfl
  | some other =>
      rw [parsed] at resolved
      rw [← GlobalTaskId.toString_of_parse parsed, ← resolved]
      exact Or.inr rfl

end UnifiedTaskDag

theorem mem_dedupInPlace {deps : List String} {raw : String} :
    raw ∈ dedupInPlace deps ↔ raw ∈ deps :=
  List.mem_eraseDups

theorem nodup_dedupInPlace (deps : List String) : (dedupInPlace deps).Nodup := by
  unfold dedupInPlace
  induction length : deps.length using Nat.strong_induction_on generalizing deps with
  | _ bound ih =>
      cases deps with
      | nil => exact List.nodup_nil
      | cons raw deps =>
          rw [List.eraseDups_cons, List.nodup_cons, List.mem_eraseDups]
          refine ⟨by simp, ih _ ?_ _ rfl⟩
          rw [← length, List.length_cons]
          exact Nat.lt_succ_of_le (List.length_filter_le _ _)

theorem dedupInPlace_of_nodup {deps : List String} (nodup : deps.Nodup) :
    dedupInPlace deps = deps := by
  unfold dedupInPlace
  induction deps with
  | nil => rfl
  | cons raw deps ih =>
      obtain ⟨fresh, later⟩ := List.nodup_cons.mp nodup
      have others : (deps.filter fun other => !other == raw) = deps := by
        rw [List.filter_eq_self]
        intro other member
        have apart : other ≠ raw := fun same => fresh (same ▸ member)
        simpa using apart
      rw [List.eraseDups_cons, others, ih later]

theorem mem_removeDep {deps : List String} {target raw : String} :
    raw ∈ removeDep deps target ↔ raw ∈ deps ∧ raw ≠ target := by
  unfold removeDep
  rw [mem_dedupInPlace, List.mem_filter, bne_iff_ne]

/-- Pushing appends what is missing, each reference once. -/
theorem foldl_pushDep (inherited deps : List String) :
    ∃ missing, inherited.foldl pushDep deps = deps ++ missing ∧ missing.Nodup ∧
      ∀ raw, raw ∈ missing ↔ raw ∈ inherited ∧ raw ∉ deps := by
  induction inherited generalizing deps with
  | nil => exact ⟨[], by simp⟩
  | cons raw inherited ih =>
      rw [List.foldl_cons]
      by_cases known : raw ∈ deps
      · have same : pushDep deps raw = deps := if_pos (List.contains_iff_mem.mpr known)
        rw [same]
        obtain ⟨missing, pushed, nodup, members⟩ := ih deps
        refine ⟨missing, pushed, nodup, fun other => ?_⟩
        rw [members, List.mem_cons]
        grind
      · have longer : pushDep deps raw = deps ++ [raw] :=
          if_neg fun found => known (List.contains_iff_mem.mp found)
        rw [longer]
        obtain ⟨missing, pushed, nodup, members⟩ := ih (deps ++ [raw])
        refine ⟨raw :: missing, ?_, List.nodup_cons.mpr ⟨?_, nodup⟩, fun other => ?_⟩
        · rw [pushed, List.append_assoc, List.singleton_append]
        · simp [members]
        · simp only [List.mem_cons, members, List.mem_append]
          grind

theorem mem_reconnectDeps {target : String} {inherited deps : List String} {raw : String} :
    raw ∈ reconnectDeps target inherited deps ↔
      (raw ∈ deps ∧ raw ≠ target) ∨ raw ∈ inherited := by
  obtain ⟨missing, pushed, -, members⟩ := foldl_pushDep inherited (removeDep deps target)
  unfold reconnectDeps
  rw [pushed, List.mem_append, members, mem_removeDep]
  grind

/-- Nothing is removed where the target is not listed. -/
theorem removeDep_of_not_mem {deps : List String} {target : String} (nodup : deps.Nodup)
    (absent : target ∉ deps) : removeDep deps target = deps := by
  have kept : (deps.filter fun dep => dep != target) = deps := by
    rw [List.filter_eq_self]
    intro raw member
    exact bne_iff_ne.mpr fun same => absent (same ▸ member)
  unfold removeDep
  rw [kept, dedupInPlace_of_nodup nodup]

theorem removeDep_concat_self (deps : List String) (target : String) :
    removeDep (deps ++ [target]) target = removeDep deps target := by
  simp [removeDep]

/-- The appended references are none, or the one that was removed. -/
theorem getLast?_of_reconnectDeps {target : String} {inherited deps : List String}
    (same : reconnectDeps target inherited deps = deps) (listed : target ∈ deps) :
    deps.getLast? = some target := by
  obtain ⟨missing, pushed, -, members⟩ := foldl_pushDep inherited (removeDep deps target)
  have whole : removeDep deps target ++ missing = deps := pushed.symm.trans same
  have only : ∀ raw ∈ missing, raw = target := by
    intro raw member
    by_contra other
    have known : raw ∈ deps := by
      rw [← whole]
      exact List.mem_append_right _ member
    exact ((members raw).mp member).2 (mem_removeDep.mpr ⟨known, other⟩)
  have late : target ∈ missing := by
    rw [← whole, List.mem_append] at listed
    exact listed.resolve_left fun early => (mem_removeDep.mp early).2 rfl
  obtain ⟨front, last, rfl⟩ := List.eq_nil_or_concat missing |>.resolve_left
    (List.ne_nil_of_mem late)
  have ends : last = target := only last (by simp)
  rw [← whole, ends, List.concat_eq_append, ← List.append_assoc, List.getLast?_concat]

theorem nodup_reconnectDeps (target : String) (inherited deps : List String) :
    (reconnectDeps target inherited deps).Nodup := by
  obtain ⟨missing, pushed, nodup, members⟩ :=
    foldl_pushDep inherited (removeDep deps target)
  unfold reconnectDeps
  rw [pushed]
  refine List.nodup_append.mpr ⟨nodup_dedupInPlace _, nodup, ?_⟩
  rintro raw early other late rfl
  exact ((members raw).mp late).2 early

/-- Pushing what is listed changes nothing. -/
theorem foldl_pushDep_of_mem {inherited deps : List String}
    (known : ∀ raw ∈ inherited, raw ∈ deps) : inherited.foldl pushDep deps = deps := by
  obtain ⟨missing, pushed, -, members⟩ := foldl_pushDep inherited deps
  have none : missing = [] := by
    rw [List.eq_nil_iff_forall_not_mem]
    intro raw member
    obtain ⟨inherits, absent⟩ := (members raw).mp member
    exact absent (known raw inherits)
  rw [pushed, none, List.append_nil]

/-- Of what is pushed, only one reference is not listed. -/
theorem foldl_pushDep_concat {inherited deps : List String} {target : String}
    (inherits : target ∈ inherited) (absent : target ∉ deps)
    (known : ∀ raw ∈ inherited, raw ∈ deps ++ [target]) :
    inherited.foldl pushDep deps = deps ++ [target] := by
  obtain ⟨missing, pushed, nodup, members⟩ := foldl_pushDep inherited deps
  have only : missing = [target] := by
    apply List.perm_singleton.mp
    apply (List.perm_ext_iff_of_nodup nodup (List.nodup_singleton _)).mpr
    intro raw
    rw [members, List.mem_singleton]
    constructor
    · rintro ⟨inherited', early⟩
      have member := known raw inherited'
      rw [List.mem_append, List.mem_singleton] at member
      exact member.resolve_left early
    · rintro rfl
      exact ⟨inherits, absent⟩
  rw [pushed, only]

/-- Reconnecting leaves a list as it is when it repeats nothing, has everything that is
inherited, and has the target at most as the last of these. -/
theorem reconnectDeps_eq_self_iff {target : String} {inherited deps : List String} :
    reconnectDeps target inherited deps = deps ↔
      deps.Nodup ∧ (∀ raw ∈ inherited, raw ∈ deps) ∧
        (target ∈ deps → target ∈ inherited ∧ deps.getLast? = some target) := by
  constructor
  · intro same
    refine ⟨?_, ?_, fun listed => ⟨?_, getLast?_of_reconnectDeps same listed⟩⟩
    · rw [← same]
      exact nodup_reconnectDeps target inherited deps
    · intro raw inherits
      rw [← same, mem_reconnectDeps]
      exact Or.inr inherits
    · rw [← same, mem_reconnectDeps] at listed
      exact listed.resolve_left fun early => early.2 rfl
  · rintro ⟨distinct, inherits, ends⟩
    unfold reconnectDeps
    by_cases listed : target ∈ deps
    · obtain ⟨again, last⟩ := ends listed
      obtain ⟨front, rfl⟩ := List.getLast?_eq_some_iff.mp last
      obtain ⟨frontNodup, -, apart⟩ := List.nodup_append.mp distinct
      have fresh : target ∉ front := fun early => apart target early target (by simp) rfl
      rw [removeDep_concat_self, removeDep_of_not_mem frontNodup fresh]
      exact foldl_pushDep_concat again fresh inherits
    · rw [removeDep_of_not_mem distinct listed]
      exact foldl_pushDep_of_mem inherits

/-- Replacing leaves a list as it is when it repeats nothing and does not have the old
reference, unless the new one is the same. -/
theorem replaceDep_eq_self_iff {deps : List String} {old new : String} :
    replaceDep deps old new = deps ↔ deps.Nodup ∧ (old ∈ deps → old = new) := by
  unfold replaceDep
  constructor
  · intro same
    refine ⟨?_, ?_⟩
    · rw [← same]
      exact nodup_dedupInPlace _
    · intro listed
      rw [← same, mem_dedupInPlace, List.mem_map] at listed
      obtain ⟨dep, -, replaced⟩ := listed
      split at replaced
      case isTrue => exact replaced.symm
      case isFalse other => exact absurd (beq_iff_eq.mpr replaced) other
  · rintro ⟨nodup, same⟩
    have unchanged : (deps.map fun dep => if dep == old then new else dep) = deps := by
      refine (List.map_congr_left fun dep member => ?_).trans (List.map_id deps)
      split
      case isTrue here =>
        have equal : dep = old := beq_iff_eq.mp here
        rw [equal] at member ⊢
        exact (same member).symm
      case isFalse => rfl
    rw [unchanged, dedupInPlace_of_nodup nodup]

end Roko
