import Mathlib.Data.Finset.Card

/-!
# Replicas that merge copies of their states

Each replica has a state of its own.  A replica changes its state, a copy of its state is set
aside, and a replica merges a copy that was set aside: at any time, in any order and any
number of times.  Beside each state stands what has reached it.  Where each kind of update is
made at one replica only, what has reached two states is comparable in each kind.
-/

namespace Replicas

variable {Replica Update State Source Kind : Type*} [DecidableEq Replica]

/-- How a state changes and how it takes in another one. -/
structure Design (Update State : Type*) where
  apply : State → Update → State
  merge : State → State → State

inductive Action (Replica Update : Type*)
  | update (replica : Replica) (made : Update)
  | copy (replica : Replica)
  | merge (replica : Replica) (copied : Nat)

/-- The states of the replicas, and the copies in the order in which they were set aside. -/
structure World (Replica State : Type*) where
  live : Replica → State
  copies : List State

/-- The state is that of a replica, or a copy. -/
def World.Holds (world : World Replica State) (state : State) : Prop :=
  (∃ replica, world.live replica = state) ∨ state ∈ world.copies

omit [DecidableEq Replica] in
theorem World.holds_live (world : World Replica State) (replica : Replica) :
    world.Holds (world.live replica) :=
  Or.inl ⟨replica, rfl⟩

omit [DecidableEq Replica] in
theorem World.holds_copy {world : World Replica State} {copied : Nat} {state : State}
    (found : world.copies[copied]? = some state) : world.Holds state :=
  Or.inr (List.mem_of_getElem? found)

namespace Design

variable (design : Design Update State)

def step (world : World Replica State) : Action Replica Update → World Replica State
  | .update replica made =>
      { world with
        live := Function.update world.live replica (design.apply (world.live replica) made) }
  | .copy replica => { world with copies := world.copies ++ [world.live replica] }
  | .merge replica copied =>
      match world.copies[copied]? with
      | none => world
      | some state =>
          { world with
            live := Function.update world.live replica
              (design.merge (world.live replica) state) }

def run (states : Replica → State) (actions : List (Action Replica Update)) :
    World Replica State :=
  actions.foldl design.step ⟨states, []⟩

theorem run_concat (states : Replica → State) (actions : List (Action Replica Update))
    (action : Action Replica Update) :
    design.run states (actions ++ [action]) =
      design.step (design.run states actions) action := by
  simp [run]

/-- The states after a step are those before it and one that was updated or merged. -/
theorem holds_step {world : World Replica State} {action : Action Replica Update}
    {state : State} (held : (design.step world action).Holds state) :
    world.Holds state ∨
      (∃ replica made, action = .update replica made ∧
        state = design.apply (world.live replica) made) ∨
      ∃ replica copied other, action = .merge replica copied ∧
        world.copies[copied]? = some other ∧
        state = design.merge (world.live replica) other := by
  cases action with
  | update replica made =>
      rcases held with ⟨other, rfl⟩ | copied
      · by_cases same : other = replica
        · subst same
          exact Or.inr (Or.inl ⟨other, made, rfl, Function.update_self ..⟩)
        · left
          simp only [step, Function.update_of_ne same]
          exact world.holds_live other
      · exact Or.inl (Or.inr copied)
  | copy replica =>
      left
      rcases held with ⟨other, rfl⟩ | copied
      · exact world.holds_live other
      · rcases List.mem_append.mp copied with before | last
        · exact Or.inr before
        · obtain rfl := List.mem_singleton.mp last
          exact world.holds_live replica
  | merge replica copied =>
      rw [step] at held
      cases found : world.copies[copied]? with
      | none =>
          rw [found] at held
          exact Or.inl held
      | some state =>
          rw [found] at held
          rcases held with ⟨other, rfl⟩ | kept
          · by_cases same : other = replica
            · subst same
              exact Or.inr (Or.inr ⟨other, copied, state, rfl, found,
                Function.update_self ..⟩)
            · left
              simp only [Function.update_of_ne same]
              exact world.holds_live other
          · exact Or.inl (Or.inr kept)

/-- A property that updates and merges keep holds of every state of a run. -/
theorem holds_run {design : Design Update State} (property : State → Prop)
    (applied : ∀ state made, property state → property (design.apply state made))
    (merged : ∀ state other, property state → property other →
      property (design.merge state other))
    {states : Replica → State} (initial : ∀ replica, property (states replica))
    (actions : List (Action Replica Update)) :
    ∀ state, (design.run states actions).Holds state → property state := by
  induction actions using List.reverseRecOn with
  | nil =>
      rintro state (⟨replica, rfl⟩ | copied)
      · exact initial replica
      · cases copied
  | append_singleton actions action ih =>
      intro state held
      rw [run_concat] at held
      rcases design.holds_step held with before | ⟨replica, made, -, rfl⟩ |
        ⟨replica, copied, other, -, found, rfl⟩
      · exact ih state before
      · exact applied _ _ (ih _ (World.holds_live _ replica))
      · exact merged _ _ (ih _ (World.holds_live _ replica)) (ih _ (World.holds_copy found))

/-- The design with what has reached a state: its first sources, those of its updates, and
what had reached the copies that were merged into it. -/
def noting [DecidableEq Source] (sources : Update → Finset Source) :
    Design Update (State × Finset Source) where
  apply state made := (design.apply state.1 made, state.2 ∪ sources made)
  merge state other := (design.merge state.1 other.1, state.2 ∪ other.2)

end Design

/-- The updates of a history in their order. -/
def updates (actions : List (Action Replica Update)) : List Update :=
  actions.filterMap fun
    | .update _ made => some made
    | .copy _ => none
    | .merge _ _ => none

variable [DecidableEq Update] [DecidableEq Kind] (kindOf : Update → Kind)

/-- Of the updates so far, those that have reached a state have reached the replica of their
kind, and of one kind one of two states was reached by no more than the other. -/
structure Chained (owner : Kind → Replica) (describes : State → Finset Update → Prop)
    (made : List Update) (world : World Replica (State × Finset Update)) : Prop where
  made : ∀ {state}, world.Holds state → ∀ update ∈ state.2, update ∈ made
  largest : ∀ {state}, world.Holds state → ∀ update ∈ state.2,
    update ∈ (world.live (owner (kindOf update))).2
  comparable : ∀ {state other}, world.Holds state → world.Holds other → ∀ kind,
    state.2.filter (kindOf · = kind) ⊆ other.2.filter (kindOf · = kind) ∨
      other.2.filter (kindOf · = kind) ⊆ state.2.filter (kindOf · = kind)
  described : ∀ {state}, world.Holds state → describes state.1 state.2

/-- A description survives an update that is new and a merge of states that are comparable in
each kind. -/
structure Describes (design : Design Update State) (describes : State → Finset Update → Prop) :
    Prop where
  apply : ∀ {state known update}, describes state known → update ∉ known →
    describes (design.apply state update) (insert update known)
  merge : ∀ {state other known others}, describes state known → describes other others →
    (∀ kind, ((known ∪ others).filter (kindOf · = kind)).card =
      max (known.filter (kindOf · = kind)).card (others.filter (kindOf · = kind)).card) →
    describes (design.merge state other) (known ∪ others)

variable {kindOf} {owner : Kind → Replica} {design : Design Update State}
  {describes : State → Finset Update → Prop} {made : List Update}
  {world : World Replica (State × Finset Update)}

omit [DecidableEq Replica] [DecidableEq Update] in
/-- A step that leaves the states as they are but for one, and lets every replica know what it
knew. -/
theorem Chained.of_added (chained : Chained kindOf owner describes made world)
    {next : World Replica (State × Finset Update)} {more : List Update}
    (added : State × Finset Update) (new : ∀ state, next.Holds state →
      world.Holds state ∨ state = added)
    (grown : ∀ replica, (world.live replica).2 ⊆ (next.live replica).2)
    (reached : ∀ update ∈ added.2, update ∈ made ++ more ∧
      update ∈ (next.live (owner (kindOf update))).2)
    (comparable : ∀ {state}, world.Holds state → ∀ kind,
      state.2.filter (kindOf · = kind) ⊆ added.2.filter (kindOf · = kind) ∨
        added.2.filter (kindOf · = kind) ⊆ state.2.filter (kindOf · = kind))
    (described : describes added.1 added.2) :
    Chained kindOf owner describes (made ++ more) next := by
  constructor
  case made =>
    intro state held update member
    rcases new state held with old | rfl
    · exact List.mem_append_left _ (chained.made old update member)
    · exact (reached update member).1
  case largest =>
    intro state held update member
    rcases new state held with old | rfl
    · exact grown _ (chained.largest old update member)
    · exact (reached update member).2
  case comparable =>
    intro state other held kept kind
    rcases new state held with old | rfl <;> rcases new other kept with first | rfl
    · exact chained.comparable old first kind
    · exact comparable old kind
    · exact (comparable first kind).symm
    · exact Or.inl (Finset.Subset.refl _)
  case described =>
    intro state held
    rcases new state held with old | rfl
    · exact chained.described old
    · exact described

theorem grown_step (world : World Replica (State × Finset Update))
    (action : Action Replica Update) (replica : Replica) :
    (world.live replica).2 ⊆ (((design.noting singleton).step world action).live replica).2 := by
  cases action with
  | update other update =>
      by_cases same : replica = other
      · subst same
        simp [Design.step, Design.noting]
      · simp [Design.step, Function.update_of_ne same]
  | copy => exact Finset.Subset.refl _
  | merge other copied =>
      rw [Design.step]
      cases world.copies[copied]? with
      | none => exact Finset.Subset.refl _
      | some state =>
          by_cases same : replica = other
          · subst same
            simp [Design.noting]
          · simp [Function.update_of_ne same]

theorem Chained.update (chained : Chained kindOf owner describes made world)
    (lawful : Describes kindOf design describes) {update : Update} (fresh : update ∉ made) :
    Chained kindOf owner describes (made ++ [update])
      ((design.noting singleton).step world (.update (owner (kindOf update)) update)) := by
  have known := world.holds_live (owner (kindOf update))
  have absent : update ∉ (world.live (owner (kindOf update))).2 :=
    fun member => fresh (chained.made known update member)
  refine chained.of_added
    ((design.noting singleton).apply (world.live (owner (kindOf update))) update)
    (fun state held => ?_) (grown_step world _) (fun other member => ?_)
    (fun {state} held kind => ?_) ?_
  · rcases Design.holds_step _ held with old | ⟨_, _, same, rfl⟩ | ⟨_, _, _, same, _⟩
    · exact Or.inl old
    · cases same
      exact Or.inr rfl
    · cases same
  · rcases Finset.mem_union.mp member with before | latest
    · exact ⟨List.mem_append_left _ (chained.made known other before),
        grown_step world _ _ (chained.largest known other before)⟩
    · obtain rfl := Finset.mem_singleton.mp latest
      simp [Design.step, Design.noting]
  · -- the replica of the update knows more of its kind than any other state
    by_cases same : kindOf update = kind
    · subst same
      refine Or.inl fun other member => ?_
      obtain ⟨reached, kind⟩ := Finset.mem_filter.mp member
      have owned := chained.largest held other reached
      rw [kind] at owned
      exact Finset.mem_filter.mpr ⟨Finset.mem_union_left _ owned, kind⟩
    · simp only [Design.noting, Finset.filter_union, Finset.filter_singleton, same, if_false,
        Finset.union_empty]
      exact chained.comparable held known kind
  · have next := lawful.apply (chained.described known) absent
    rwa [Finset.insert_eq, Finset.union_comm] at next

omit [DecidableEq Replica] in
/-- What has reached a merged state is, in each kind, what had reached one of the two. -/
theorem Chained.filter_union (chained : Chained kindOf owner describes made world)
    {state other : State × Finset Update} (held : world.Holds state) (kept : world.Holds other)
    (kind : Kind) :
    (state.2 ∪ other.2).filter (kindOf · = kind) = state.2.filter (kindOf · = kind) ∧
        other.2.filter (kindOf · = kind) ⊆ state.2.filter (kindOf · = kind) ∨
      (state.2 ∪ other.2).filter (kindOf · = kind) = other.2.filter (kindOf · = kind) ∧
        state.2.filter (kindOf · = kind) ⊆ other.2.filter (kindOf · = kind) := by
  rw [Finset.filter_union]
  rcases chained.comparable held kept kind with less | more
  · exact Or.inr ⟨Finset.union_eq_right.mpr less, less⟩
  · exact Or.inl ⟨Finset.union_eq_left.mpr more, more⟩

theorem Chained.merge (chained : Chained kindOf owner describes made world)
    (lawful : Describes kindOf design describes) {replica : Replica} {copied : Nat}
    {other : State × Finset Update} (found : world.copies[copied]? = some other) :
    Chained kindOf owner describes (made ++ [])
      ((design.noting singleton).step world (.merge replica copied)) := by
  have known := world.holds_live replica
  have kept := World.holds_copy found
  have joined := fun kind => chained.filter_union known kept kind
  refine chained.of_added ((design.noting singleton).merge (world.live replica) other)
    (fun state held => ?_) (grown_step world _) (fun update member => ?_)
    (fun {state} held kind => ?_) (lawful.merge (chained.described known)
      (chained.described kept) fun kind => ?_)
  · rcases Design.holds_step _ held with old | ⟨_, _, same, _⟩ | ⟨_, _, _, same, merged, rfl⟩
    · exact Or.inl old
    · cases same
    · cases same
      cases found.symm.trans merged
      exact Or.inr rfl
  · rw [List.append_nil]
    rcases Finset.mem_union.mp member with own | theirs
    · exact ⟨chained.made known update own,
        grown_step world _ _ (chained.largest known update own)⟩
    · exact ⟨chained.made kept update theirs,
        grown_step world _ _ (chained.largest kept update theirs)⟩
  · rw [Design.noting]
    rcases joined kind with ⟨same, _⟩ | ⟨same, _⟩
    · rw [same]
      exact chained.comparable held known kind
    · rw [same]
      exact chained.comparable held kept kind
  · rcases joined kind with ⟨same, less⟩ | ⟨same, less⟩
    · rw [same, max_eq_left (Finset.card_le_card less)]
    · rw [same, max_eq_right (Finset.card_le_card less)]

/-- Each update of the history is told apart from the others, and made where its kind is. -/
structure Owned (kindOf : Update → Kind) (owner : Kind → Replica)
    (actions : List (Action Replica Update)) : Prop where
  distinct : (updates actions).Nodup
  made : ∀ {replica update}, .update replica update ∈ actions → owner (kindOf update) = replica

/-- Every state is described by the updates that have reached it. -/
theorem chained_run (lawful : Describes kindOf design describes) {initial : State}
    (described : describes initial ∅) {actions : List (Action Replica Update)}
    (owned : Owned kindOf owner actions) :
    Chained kindOf owner describes (updates actions)
      ((design.noting singleton).run (fun _ => (initial, ∅)) actions) := by
  induction actions using List.reverseRecOn with
  | nil =>
      have only : ∀ {state}, ((design.noting singleton).run
          (fun _ : Replica => (initial, (∅ : Finset Update))) []).Holds state →
            state = (initial, ∅) := by
        rintro state (⟨replica, rfl⟩ | copied)
        · rfl
        · cases copied
      constructor
      case made => exact fun held => by simp [only held]
      case largest => exact fun held => by simp [only held]
      case comparable => exact fun held kept kind => by simp [only held]
      case described => exact fun held => by rw [only held]; exact described
  | append_singleton actions action ih =>
      have split : updates (actions ++ [action]) = updates actions ++ updates [action] :=
        List.filterMap_append
      have distinct := owned.distinct
      rw [split, List.nodup_append] at distinct
      have before := ih ⟨distinct.1, fun member =>
        owned.made (List.mem_append_left _ member)⟩
      rw [Design.run_concat, split]
      cases action with
      | update replica update =>
          obtain rfl : owner (kindOf update) = replica := owned.made (by simp)
          exact before.update lawful fun made =>
            distinct.2.2 update made update (by simp [updates]) rfl
      | copy replica =>
          have known := World.holds_live ((design.noting singleton).run
            (fun _ => (initial, (∅ : Finset Update))) actions) replica
          refine before.of_added (((design.noting singleton).run
            (fun _ => (initial, (∅ : Finset Update))) actions).live replica)
            (fun state held => ?_) (grown_step _ _) (fun update member =>
              ⟨List.mem_append_left _ (before.made known update member),
                before.largest known update member⟩)
            (fun held kind => before.comparable held known kind) (before.described known)
          rcases Design.holds_step _ held with old | ⟨_, _, same, _⟩ | ⟨_, _, _, same, _⟩
          · exact Or.inl old
          · cases same
          · cases same
      | merge replica copied =>
          cases found : ((design.noting singleton).run
              (fun _ => (initial, (∅ : Finset Update))) actions).copies[copied]? with
          | none =>
              rw [Design.step, found]
              simpa [updates] using before
          | some other => exact before.merge lawful found

omit [DecidableEq Replica] in
theorem Chained.card_le (chained : Chained kindOf owner describes made world)
    {state : State × Finset Update} (held : world.Holds state) :
    state.2.card ≤ made.length := by
  refine (Finset.card_le_card fun update member => ?_).trans (List.toFinset_card_le made)
  exact List.mem_toFinset.mpr (chained.made held update member)

end Replicas
