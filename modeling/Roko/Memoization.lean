import Mathlib.Data.Set.Basic

/-!
# Results that are kept with what they depend on

A computation depends on part of a state.  Its outcome can be kept together with a set of
locations that determines it, and it stays right as long as the state agrees with the
one it was computed in at these locations.
-/

namespace Memo

variable {State Request Location Outcome Key Kept : Type*}

/-- Two states agree at some locations. -/
structure Agreement (agrees : Set Location → State → State → Prop) : Prop where
  refl : ∀ locations state, agrees locations state state
  trans : ∀ locations {first second third}, agrees locations first second →
    agrees locations second third → agrees locations first third

/-- The locations determine the outcome of a request. -/
def Complete (agrees : Set Location → State → State → Prop)
    (run : State → Request → Outcome) (state : State) (request : Request)
    (locations : Set Location) : Prop :=
  ∀ other, agrees locations state other → run other request = run state request

/-- The outcome was computed in a state that agrees with the present one at locations
that determine it. -/
def Justified (agrees : Set Location → State → State → Prop)
    (run : State → Request → Outcome) (state : State) (request : Request)
    (outcome : Outcome) (locations : Set Location) : Prop :=
  ∃ origin, run origin request = outcome ∧
    Complete agrees run origin request locations ∧ agrees locations origin state

section Justified

variable {agrees : Set Location → State → State → Prop}
  {run : State → Request → Outcome} {state : State} {request : Request}
  {outcome : Outcome} {locations : Set Location}

theorem Justified.outcome_eq
    (justified : Justified agrees run state request outcome locations) :
    run state request = outcome := by
  obtain ⟨origin, computed, complete, agree⟩ := justified
  exact (complete state agree).trans computed

theorem justified_of_complete (agreement : Agreement agrees)
    (complete : Complete agrees run state request locations) :
    Justified agrees run state request (run state request) locations :=
  ⟨state, rfl, complete, agreement.refl locations state⟩

theorem Justified.next (agreement : Agreement agrees)
    (justified : Justified agrees run state request outcome locations) {next : State}
    (agree : agrees locations state next) :
    Justified agrees run next request outcome locations := by
  obtain ⟨origin, computed, complete, before⟩ := justified
  exact ⟨origin, computed, complete, agreement.trans locations before agree⟩

end Justified

/-- Each entry of a cache is justified for a request that is asked under its key. -/
def Sound (agrees : Set Location → State → State → Prop)
    (run : State → Request → Outcome) (asked : Request → Key → Prop)
    (outcome : Kept → Outcome) (locations : Kept → Set Location) (state : State)
    (cache : List (Key × Kept)) : Prop :=
  ∀ entry ∈ cache, ∃ request, asked request entry.1 ∧
    Justified agrees run state request (outcome entry.2) (locations entry.2)

namespace Sound

variable {agrees : Set Location → State → State → Prop}
  {run : State → Request → Outcome} {asked : Request → Key → Prop}
  {outcome : Kept → Outcome} {locations : Kept → Set Location} {state : State}
  {cache : List (Key × Kept)}

theorem nil : Sound agrees run asked outcome locations state [] :=
  fun _ member => nomatch member

/-- The outcome of a request is added under its key. -/
theorem cons (agreement : Agreement agrees)
    (sound : Sound agrees run asked outcome locations state cache) {request : Request}
    {key : Key} {kept : Kept} (under : asked request key)
    (computed : run state request = outcome kept)
    (complete : Complete agrees run state request (locations kept)) :
    Sound agrees run asked outcome locations state ((key, kept) :: cache) := by
  intro entry member
  rcases List.mem_cons.mp member with rfl | later
  · have justified := justified_of_complete agreement complete
    rw [computed] at justified
    exact ⟨request, under, justified⟩
  · exact sound entry later

theorem filter (sound : Sound agrees run asked outcome locations state cache)
    (keep : Key × Kept → Bool) :
    Sound agrees run asked outcome locations state (cache.filter keep) :=
  fun entry member => sound entry (List.mem_filter.mp member).1

/-- The state changes at no location of an entry. -/
theorem next (agreement : Agreement agrees)
    (sound : Sound agrees run asked outcome locations state cache) {next : State}
    (agree : ∀ entry ∈ cache, agrees (locations entry.2) state next) :
    Sound agrees run asked outcome locations next cache := by
  intro entry member
  obtain ⟨request, under, justified⟩ := sound entry member
  exact ⟨request, under, justified.next agreement (agree entry member)⟩

/-- What is found under a key is the outcome of each request that is asked under it,
when these have the same outcome. -/
theorem hit [BEq Key] [LawfulBEq Key]
    (sound : Sound agrees run asked outcome locations state cache) {request : Request}
    {key : Key} {kept : Kept} (found : cache.lookup key = some kept)
    (alike : ∀ other, asked other key → run state other = run state request) :
    run state request = outcome kept := by
  obtain ⟨before, after, split, -⟩ := List.lookup_eq_some_iff.mp found
  have member : (key, kept) ∈ cache := by
    rw [split]
    exact List.mem_append_right before List.mem_cons_self
  obtain ⟨other, under, justified⟩ := sound _ member
  rw [← alike other under]
  exact justified.outcome_eq

end Sound

end Memo
