import Mathlib.Data.UInt
import Roko.GuardedRuns
import Roko.RingBuffers

/-!
# The event bus

The model of `EventBus` in `roko-runtime/src/event_bus.rs`.  A call of `emit` takes a
number, pushes its envelope into the replay ring under the lock of the ring, and sends it to
the subscribers.  The calls of several threads may be interleaved between these steps.
-/

namespace Roko

structure Envelope (Event : Type) where
  seq : UInt64
  tsMillis : UInt64
  payload : Event
  deriving DecidableEq

/-- The source's `Shared`; what was sent to the subscribers is kept in order. -/
structure EventBus (Event : Type) where
  ring : List (Envelope Event)
  seq : UInt64
  capacity : Nat
  sent : List (Envelope Event)

namespace EventBus

variable {Event : Type}

def new (capacity : Nat) : EventBus Event where
  ring := []
  seq := 0
  capacity
  sent := []

/-- The first step of `emit_inner`: `fetch_add` on the counter. -/
def assign (bus : EventBus Event) (tsMillis : UInt64) (event : Event) :
    Envelope Event × EventBus Event :=
  (⟨bus.seq, tsMillis, event⟩, { bus with seq := bus.seq + 1 })

/-- The second step, under the lock of the ring. -/
def record (bus : EventBus Event) (envelope : Envelope Event) : EventBus Event :=
  { bus with ring := RingBuffers.push bus.capacity bus.ring envelope }

/-- The third step. -/
def send (bus : EventBus Event) (envelope : Envelope Event) : EventBus Event :=
  { bus with sent := bus.sent ++ [envelope] }

def replayFrom (bus : EventBus Event) (afterSeq : UInt64) : List (Envelope Event) :=
  bus.ring.filter fun envelope => afterSeq ≤ envelope.seq

/-- Where a call of `emit` is between its steps. -/
inductive EmitPhase (Event : Type)
  | numbered (envelope : Envelope Event)
  | recorded (envelope : Envelope Event)

/-- A bus, the calls that its threads are in, and the envelopes in the order in which they
were pushed. -/
structure Emitters (Event : Type) where
  bus : EventBus Event
  threads : Nat → Option (EmitPhase Event) := fun _ => none
  pushed : List (Envelope Event) := []

inductive EmitStep (Event : Type)
  | assign (thread : Nat) (tsMillis : UInt64) (event : Event)
  | push (thread : Nat)
  | send (thread : Nat)

namespace Emitters

variable (emitters : Emitters Event)

def setThread (thread : Nat) (phase : Option (EmitPhase Event)) :
    Nat → Option (EmitPhase Event) :=
  Function.update emitters.threads thread phase

/-- The next step of a thread; other steps change nothing. -/
def step : EmitStep Event → Emitters Event
  | .assign thread tsMillis event =>
      match emitters.threads thread with
      | none =>
          let (envelope, bus) := emitters.bus.assign tsMillis event
          { emitters with
            bus
            threads := emitters.setThread thread (some (.numbered envelope)) }
      | some _ => emitters
  | .push thread =>
      match emitters.threads thread with
      | some (.numbered envelope) =>
          { bus := emitters.bus.record envelope
            threads := emitters.setThread thread (some (.recorded envelope))
            pushed := emitters.pushed ++ [envelope] }
      | _ => emitters
  | .send thread =>
      match emitters.threads thread with
      | some (.recorded envelope) =>
          { emitters with
            bus := emitters.bus.send envelope
            threads := emitters.setThread thread none }
      | _ => emitters

/-- What the replay ring is meant to hold. -/
structure ReplayLaw : Prop where
  increasing : emitters.bus.ring.Pairwise fun first second => first.seq < second.seq
  full : emitters.bus.ring.length = min emitters.bus.capacity emitters.pushed.length
  /-- What was pushed and is not in the ring has lower numbers than all that is. -/
  highest : ∃ evicted, emitters.pushed.Perm (evicted ++ emitters.bus.ring) ∧
    ∀ gone ∈ evicted, ∀ kept ∈ emitters.bus.ring, gone.seq < kept.seq
  ordered : ∀ afterSeq, (emitters.bus.replayFrom afterSeq).Pairwise fun first second =>
    first.seq < second.seq
  /-- What was pushed is replayed until enough later numbers have evicted it. -/
  replayed : ∀ afterSeq envelope, envelope ∈ emitters.bus.replayFrom afterSeq ↔
    envelope ∈ emitters.pushed ∧ afterSeq ≤ envelope.seq ∧
      (emitters.pushed.countP fun other => envelope.seq < other.seq) < emitters.bus.capacity

/-- The envelopes are pushed in the order of their numbers. -/
def Ordered : EmitStep Event → Prop
  | .push thread => ∀ envelope, emitters.threads thread = some (.numbered envelope) →
      ∀ earlier ∈ emitters.pushed, earlier.seq < envelope.seq
  | .assign _ _ _ | .send _ => True

/-- The pushes were in order so far, and the ring holds the last of them. -/
structure InOrder : Prop where
  room : 0 < emitters.bus.capacity
  sorted : emitters.pushed.Pairwise fun first second => first.seq < second.seq
  ring : emitters.bus.ring = emitters.pushed.rtake emitters.bus.capacity

variable {emitters}

theorem InOrder.law (inOrder : emitters.InOrder) : emitters.ReplayLaw where
  increasing := by
    rw [inOrder.ring]
    exact inOrder.sorted.sublist (List.drop_sublist _ _)
  full := by rw [inOrder.ring, RingBuffers.length_rtake]
  highest := by
    have sorted := inOrder.sorted
    have split := List.take_append_drop
      (emitters.pushed.length - emitters.bus.capacity) emitters.pushed
    rw [← split, List.pairwise_append] at sorted
    rw [inOrder.ring]
    exact ⟨_, by rw [List.rtake, split], sorted.2.2⟩
  ordered := by
    intro afterSeq
    rw [replayFrom, inOrder.ring]
    exact (inOrder.sorted.sublist (List.drop_sublist _ _)).filter _
  replayed := by
    intro afterSeq envelope
    rw [replayFrom, List.mem_filter, inOrder.ring, decide_eq_true_eq,
      RingBuffers.mem_rtake_iff (fun _ _ => UInt64.lt_asymm) inOrder.sorted]
    constructor
    · rintro ⟨⟨member, fewer⟩, later⟩
      exact ⟨member, later, fewer⟩
    · rintro ⟨member, later, fewer⟩
      exact ⟨⟨member, fewer⟩, later⟩

/-- After a push the law says that the number was above all pushed before. -/
theorem ReplayLaw.above {envelope : Envelope Event}
    {threads : Nat → Option (EmitPhase Event)}
    (pushed : ReplayLaw
      { bus := emitters.bus.record envelope, threads
        pushed := emitters.pushed ++ [envelope] }) :
    ∀ earlier ∈ emitters.pushed, earlier.seq < envelope.seq := by
  obtain ⟨evicted, perm, below⟩ := pushed.highest
  have increasing := pushed.increasing
  simp only [record, RingBuffers.push] at perm below increasing
  rw [← List.append_assoc, List.perm_append_right_iff] at perm
  rw [List.pairwise_append] at increasing
  intro earlier member
  rcases List.mem_append.mp (perm.mem_iff.mp member) with gone | kept
  · exact below earlier gone envelope (by simp)
  · exact increasing.2.2 earlier kept envelope (List.mem_singleton_self envelope)

theorem InOrder.push (inOrder : emitters.InOrder) {envelope : Envelope Event}
    (above : ∀ earlier ∈ emitters.pushed, earlier.seq < envelope.seq)
    (threads : Nat → Option (EmitPhase Event)) :
    InOrder
      { bus := emitters.bus.record envelope, threads
        pushed := emitters.pushed ++ [envelope] } where
  room := inOrder.room
  sorted := by
    rw [List.pairwise_append]
    refine ⟨inOrder.sorted, List.pairwise_singleton _ _, ?_⟩
    intro earlier member last isLast
    rw [List.mem_singleton.mp isLast]
    exact above earlier member
  ring := by
    simp only [record]
    rw [inOrder.ring, RingBuffers.push_rtake inOrder.room]

/-- A step that pushes nothing keeps the ring and the pushed envelopes. -/
theorem InOrder.quiet (inOrder : emitters.InOrder) {other : Emitters Event}
    (ring : other.bus.ring = emitters.bus.ring)
    (capacity : other.bus.capacity = emitters.bus.capacity)
    (pushed : other.pushed = emitters.pushed) : other.InOrder where
  room := capacity ▸ inOrder.room
  sorted := pushed ▸ inOrder.sorted
  ring := by rw [ring, capacity, pushed, inOrder.ring]

theorem InOrder.step (inOrder : emitters.InOrder) {step : EmitStep Event}
    (ordered : emitters.Ordered step) : (emitters.step step).InOrder := by
  cases step with
  | assign thread tsMillis event =>
      dsimp only [Emitters.step]
      split
      · exact inOrder.quiet rfl rfl rfl
      · exact inOrder
  | push thread =>
      dsimp only [Emitters.step]
      split
      case h_1 envelope found => exact inOrder.push (ordered envelope found) _
      case h_2 => exact inOrder
  | send thread =>
      dsimp only [Emitters.step]
      split
      · exact inOrder.quiet rfl rfl rfl
      · exact inOrder

/-- From a state in order, a step keeps the law exactly when it pushes in order. -/
theorem ordered_iff_law (inOrder : emitters.InOrder) (step : EmitStep Event) :
    emitters.Ordered step ↔ (emitters.step step).ReplayLaw := by
  constructor
  · exact fun ordered => (inOrder.step ordered).law
  · intro law
    cases step with
    | assign thread tsMillis event => trivial
    | push thread =>
        intro envelope found
        rw [Emitters.step, found] at law
        exact law.above
    | send thread => trivial

end Emitters

/-- A new bus, with no call of `emit` under way. -/
def Emitters.start (capacity : Nat) : Emitters Event where
  bus := new capacity

/-- The ring is right in every state of a run exactly when the envelopes are pushed in the
order of their numbers. -/
theorem replay_lawful_iff {capacity : Nat} (positive : 0 < capacity)
    (steps : List (EmitStep Event)) :
    (∀ emitters ∈ GuardedRun.states Emitters.step (.start capacity) steps,
        emitters.ReplayLaw) ↔
      GuardedRun.Guarded Emitters.step Emitters.Ordered (.start capacity) steps := by
  have start : (Emitters.start capacity : Emitters Event).InOrder :=
    ⟨positive, List.Pairwise.nil, (List.rtake_nil _).symm⟩
  have always : GuardedRun.Guarded Emitters.step (fun _ _ => True)
      (.start capacity) steps := fun _ _ => trivial
  rw [GuardedRun.guarded_iff_kept Emitters.step Emitters.Ordered (fun _ _ => True)
    Emitters.InOrder Emitters.ReplayLaw
    (fun emitters step inOrder =>
      (Emitters.ordered_iff_law inOrder step).trans (and_true _).symm.to_iff)
    (fun emitters step inOrder ordered => inOrder.step ordered) start start.law]
  exact (and_iff_left always).symm

/-- Two threads take the numbers 0 and 1 and push in the opposite order. -/
def swappedPushes : List (EmitStep String) :=
  [.assign 1 10 "first", .assign 2 10 "second", .push 2, .push 1]

/-- The envelopes of two threads that push in the opposite order are replayed in that
order. -/
theorem swapped_replay :
    let emitters := swappedPushes.foldl Emitters.step (.start 16)
    (emitters.bus.replayFrom 0).map (·.seq) = [1, 0] ∧ ¬ emitters.ReplayLaw := by
  refine ⟨by decide, ?_⟩
  intro law
  have increasing := law.increasing
  revert increasing
  decide

theorem replay_lawful_inTurn :
    let steps : List (EmitStep String) :=
      [.assign 1 10 "first", .push 1, .assign 2 10 "second", .push 2]
    (((steps.foldl Emitters.step (.start 16)).bus.replayFrom 1).map (·.payload) = ["second"]) ∧
      ∀ emitters ∈ GuardedRun.states Emitters.step (.start 16) steps, emitters.ReplayLaw := by
  refine ⟨by decide, (replay_lawful_iff (by decide) _).mpr ?_⟩
  simp only [GuardedRun.guarded_cons, GuardedRun.guarded_nil, and_true]
  refine ⟨trivial, ?_, trivial, ?_⟩
  · intro envelope _ earlier member
    cases member
  · intro envelope found earlier member
    cases found
    rw [List.mem_singleton.mp member]
    decide

end EventBus

end Roko
