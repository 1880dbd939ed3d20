import Roko.GuardedRuns
import Roko.OrderedMaps
import Mathlib.Data.UInt

/-!
# The relay of mesh pheromones

A publish call takes its number from a counter and delivers in a locked section later, so
the calls of several threads may reach the lock in another order than that of their
numbers.  The relay drops what has a lower number than the last message it saw from the
origin, and queues messages for offline peers in the order of the lock.
-/

namespace Roko

inductive PheromoneKind where
  | threat
  | opportunity
  | wisdom
  | alpha
  | pattern
  | anomaly
  | consensus
  | custom (name : String)
deriving DecidableEq

/-- A pheromone; the relay reads its kind and passes on the rest. -/
structure Pheromone (Payload : Type) where
  kind : PheromoneKind
  payload : Payload

structure PeerState where
  agentId : String
  connected : Bool
  lastSeenMs : Int
  subscribedKinds : List PheromoneKind

structure SequencedPheromone (Payload : Type) where
  seq : UInt64
  origin : String
  pheromone : Pheromone Payload

/-- What the lock of the relay protects. -/
structure RelayInner (Payload : Type) where
  peers : Std.ExtTreeMap String PeerState := ∅
  versionVectors : Std.ExtTreeMap String UInt64 := ∅
  storeForward : Std.ExtTreeMap String (List (SequencedPheromone Payload)) := ∅

structure MeshRelay (Payload : Type) where
  inner : RelayInner Payload := {}
  localSeq : UInt64 := 1

variable {Payload : Type}

namespace RelayInner

/-- The messages that are queued for a peer. -/
def queued (inner : RelayInner Payload) (peerId : String) :
    List (SequencedPheromone Payload) :=
  inner.storeForward[peerId]?.getD []

/-- One turn of the loop that fans a message out. -/
def forward (msg : SequencedPheromone Payload)
    (storeForward : Std.ExtTreeMap String (List (SequencedPheromone Payload)))
    (entry : String × PeerState) :
    Std.ExtTreeMap String (List (SequencedPheromone Payload)) :=
  if entry.1 = msg.origin then storeForward
  else if entry.2.subscribedKinds ≠ [] ∧ msg.pheromone.kind ∉ entry.2.subscribedKinds then
    storeForward
  else if entry.2.connected then storeForward
  else storeForward.insert entry.1 (storeForward[entry.1]?.getD [] ++ [msg])

/-- The locked section of `publish`. -/
def publish (inner : RelayInner Payload) (msg : SequencedPheromone Payload) :
    UInt64 × RelayInner Payload :=
  let seen := inner.versionVectors[msg.origin]?.getD 0
  if msg.seq ≤ seen then
    (0, { inner with versionVectors := inner.versionVectors.insert msg.origin seen })
  else
    (msg.seq,
      { inner with
        versionVectors := inner.versionVectors.insert msg.origin msg.seq
        storeForward := inner.peers.toList.foldl (forward msg) inner.storeForward })

def subscribe (inner : RelayInner Payload) (agentId : String) (kinds : List PheromoneKind) :
    RelayInner Payload :=
  let peer := inner.peers[agentId]?.getD
    { agentId, connected := false, lastSeenMs := 0, subscribedKinds := [] }
  { inner with peers := inner.peers.insert agentId { peer with subscribedKinds := kinds } }

/-- The queued messages are handed over to the peer that connects. -/
def onPeerConnect (inner : RelayInner Payload) (agentId : String) (nowMs : Int) :
    List (SequencedPheromone Payload) × RelayInner Payload :=
  let peer := inner.peers[agentId]?.getD
    { agentId, connected := true, lastSeenMs := nowMs, subscribedKinds := [] }
  (inner.storeForward[agentId]?.getD [],
    { inner with
      peers := inner.peers.insert agentId { peer with connected := true, lastSeenMs := nowMs }
      storeForward := inner.storeForward.erase agentId })

def onPeerDisconnect (inner : RelayInner Payload) (agentId : String) : RelayInner Payload :=
  { inner with
    peers := inner.peers.modify agentId fun peer => { peer with connected := false }
    storeForward := inner.storeForward.insert agentId
      (inner.storeForward[agentId]?.getD []) }

/-- The peer is registered, offline and subscribed to what another agent publishes. -/
def Awaits (inner : RelayInner Payload) (peerId : String)
    (msg : SequencedPheromone Payload) : Prop :=
  peerId ≠ msg.origin ∧ ∃ peer ∈ inner.peers[peerId]?, peer.connected = false ∧
    (peer.subscribedKinds = [] ∨ msg.pheromone.kind ∈ peer.subscribedKinds)

instance (inner : RelayInner Payload) (peerId : String)
    (msg : SequencedPheromone Payload) : Decidable (inner.Awaits peerId msg) :=
  inferInstanceAs (Decidable (_ ∧ ∃ peer ∈ inner.peers[peerId]?, _))

/-- What the loop does to the queue of one peer. -/
def queueAfter (msg : SequencedPheromone Payload) (peerId : String) (peer : PeerState)
    (queue : List (SequencedPheromone Payload)) : List (SequencedPheromone Payload) :=
  if peerId ≠ msg.origin ∧ peer.connected = false ∧
      (peer.subscribedKinds = [] ∨ msg.pheromone.kind ∈ peer.subscribedKinds) then
    queue ++ [msg]
  else queue

theorem ownKey_forward (msg : SequencedPheromone Payload) :
    KeyedFold.OwnKey
      (fun (storeForward : Std.ExtTreeMap String (List (SequencedPheromone Payload))) peerId =>
        storeForward[peerId]?.getD [])
      (forward msg) (queueAfter msg) where
  own := by
    intro storeForward entry
    unfold forward queueAfter
    by_cases mine : entry.1 = msg.origin
    · simp [mine]
    · by_cases offline : entry.2.connected = false
      · by_cases all : entry.2.subscribedKinds = []
        · simp [mine, offline, all]
        · by_cases wanted : msg.pheromone.kind ∈ entry.2.subscribedKinds
          · simp [mine, offline, all, wanted]
          · simp [mine, offline, all, wanted]
      · simp [mine, offline]
  other := by
    intro storeForward entry peerId different
    unfold forward
    split
    · rfl
    · split
      · rfl
      · split
        · rfl
        · simp [Std.ExtTreeMap.getElem?_insert, different.symm]

variable (inner : RelayInner Payload)

/-- An accepted message is queued for those that await it. -/
theorem queued_publish {msg : SequencedPheromone Payload}
    (fresh : inner.versionVectors[msg.origin]?.getD 0 < msg.seq) (peerId : String) :
    (inner.publish msg).2.queued peerId =
      inner.queued peerId ++ if inner.Awaits peerId msg then [msg] else [] := by
  unfold publish queued
  rw [if_neg (UInt64.not_le.mpr fresh)]
  refine (KeyedFold.look_foldl_toList (ownKey_forward msg) _ _ _).trans ?_
  split
  case h_1 absent => simp [Awaits, absent]
  case h_2 peer found =>
    have awaits : inner.Awaits peerId msg ↔ peerId ≠ msg.origin ∧ peer.connected = false ∧
        (peer.subscribedKinds = [] ∨ msg.pheromone.kind ∈ peer.subscribedKinds) := by
      simp [Awaits, found]
    unfold queueAfter
    simp only [awaits]
    split
    · rfl
    · simp

theorem publish_fst (msg : SequencedPheromone Payload) :
    (inner.publish msg).1 =
      if inner.versionVectors[msg.origin]?.getD 0 < msg.seq then msg.seq else 0 := by
  unfold publish
  by_cases fresh : inner.versionVectors[msg.origin]?.getD 0 < msg.seq
  · simp [fresh, UInt64.not_le.mpr fresh]
  · simp [fresh, UInt64.not_lt.mp fresh]

theorem queued_onPeerConnect (agentId : String) (nowMs : Int) (peerId : String) :
    (inner.onPeerConnect agentId nowMs).2.queued peerId =
      if agentId = peerId then [] else inner.queued peerId := by
  unfold onPeerConnect queued
  by_cases same : agentId = peerId
  · simp [same]
  · simp [Std.ExtTreeMap.getElem?_erase, same]

theorem queued_onPeerDisconnect (agentId peerId : String) :
    (inner.onPeerDisconnect agentId).queued peerId = inner.queued peerId := by
  unfold onPeerDisconnect queued
  by_cases same : agentId = peerId
  · simp [same]
  · simp [Std.ExtTreeMap.getElem?_insert, same]

end RelayInner

/-- A relay, the publish calls that threads are in between their two steps, and the answers
of the calls that returned, in order. -/
structure Publishers (Payload : Type) where
  relay : MeshRelay Payload := {}
  threads : Nat → Option (SequencedPheromone Payload) := fun _ => none
  answers : List UInt64 := []

inductive RelayStep (Payload : Type) where
  | number (thread : Nat) (origin : String) (pheromone : Pheromone Payload)
  | publish (thread : Nat)
  | subscribe (agentId : String) (kinds : List PheromoneKind)
  | connect (agentId : String) (nowMs : Int)
  | disconnect (agentId : String)

namespace Publishers

def withInner (publishers : Publishers Payload) (inner : RelayInner Payload) :
    Publishers Payload :=
  { publishers with relay := { publishers.relay with inner } }

@[simp]
theorem inner_withInner (publishers : Publishers Payload) (inner : RelayInner Payload) :
    (publishers.withInner inner).relay.inner = inner :=
  rfl

/-- The next step of some thread; a step that no thread can take changes nothing. -/
def step (publishers : Publishers Payload) : RelayStep Payload → Publishers Payload
  | .number thread origin pheromone =>
      match publishers.threads thread with
      | none =>
          let seq := publishers.relay.localSeq
          { publishers with
            relay := { publishers.relay with localSeq := seq + 1 }
            threads := Function.update publishers.threads thread
              (some { seq, origin, pheromone }) }
      | some _ => publishers
  | .publish thread =>
      match publishers.threads thread with
      | none => publishers
      | some msg =>
          let (answer, inner) := publishers.relay.inner.publish msg
          { relay := { publishers.relay with inner }
            threads := Function.update publishers.threads thread none
            answers := publishers.answers ++ [answer] }
  | .subscribe agentId kinds =>
      publishers.withInner (publishers.relay.inner.subscribe agentId kinds)
  | .connect agentId nowMs =>
      publishers.withInner (publishers.relay.inner.onPeerConnect agentId nowMs).2
  | .disconnect agentId =>
      publishers.withInner (publishers.relay.inner.onPeerDisconnect agentId)

/-- What a peer would be handed if it connected now. -/
def handOver (publishers : Publishers Payload) (peerId : String) (nowMs : Int) :
    List (SequencedPheromone Payload) :=
  (publishers.relay.inner.onPeerConnect peerId nowMs).1

/-- What holds in every state. -/
structure StateLaw (publishers : Publishers Payload) : Prop where
  nonzero : 0 ∉ publishers.answers
  distinct : publishers.answers.Nodup
  increasing : ∀ peerId nowMs, (publishers.handOver peerId nowMs).Pairwise
    fun first second => first.seq < second.seq

def connects (peerId : String) : RelayStep Payload → Bool
  | .connect agentId _ => agentId == peerId
  | _ => false

/-- What a run of the relay promises. -/
structure Lawful (start : Publishers Payload) (steps : List (RelayStep Payload)) : Prop where
  law : ∀ publishers ∈ GuardedRun.states step start steps, publishers.StateLaw
  /-- A message that a peer awaits is handed over once: at the next time the peer connects,
  and not again. -/
  delivered : ∀ before thread after rest msg peerId nowMs,
    steps = before ++ .publish thread :: (after ++ rest) →
      (before.foldl step start).threads thread = some msg →
      (before.foldl step start).relay.inner.Awaits peerId msg →
      (((before ++ .publish thread :: after).foldl step start).handOver peerId nowMs).filter
          (·.seq = msg.seq) =
        if after.any (connects peerId) then [] else [msg]

/-- The condition on a step: a message that is published comes after the messages of its
origin with smaller numbers, has a number of its own, and comes after all that wait for the
peers it is queued for. -/
def InTurn (publishers : Publishers Payload) : RelayStep Payload → Prop
  | .publish thread => ∀ msg, publishers.threads thread = some msg →
      publishers.relay.inner.versionVectors[msg.origin]?.getD 0 < msg.seq ∧
        msg.seq ∉ publishers.answers ∧
        ∀ peerId, publishers.relay.inner.Awaits peerId msg →
          ∀ earlier ∈ publishers.relay.inner.queued peerId, earlier.seq < msg.seq
  | _ => True

/-- The law, and what is queued was answered. -/
structure Sound (publishers : Publishers Payload) : Prop where
  law : publishers.StateLaw
  answered : ∀ peerId, ∀ msg ∈ publishers.relay.inner.queued peerId,
    msg.seq ∈ publishers.answers

variable {publishers : Publishers Payload}

theorem StateLaw.queued (law : publishers.StateLaw) (peerId : String) :
    (publishers.relay.inner.queued peerId).Pairwise fun first second =>
      first.seq < second.seq :=
  law.increasing peerId 0

theorem Sound.withInner (sound : Sound publishers) (inner : RelayInner Payload)
    (fewer : ∀ peerId, (inner.queued peerId).Sublist
      (publishers.relay.inner.queued peerId)) :
    Sound (publishers.withInner inner) where
  law :=
    { nonzero := sound.law.nonzero
      distinct := sound.law.distinct
      increasing := fun peerId _ => (sound.law.queued peerId).sublist (fewer peerId) }
  answered := fun peerId msg member => sound.answered peerId msg ((fewer peerId).subset member)

theorem step_publish {thread : Nat} {msg : SequencedPheromone Payload}
    (found : publishers.threads thread = some msg) :
    publishers.step (.publish thread) =
      { relay := { publishers.relay with inner := (publishers.relay.inner.publish msg).2 }
        threads := Function.update publishers.threads thread none
        answers := publishers.answers ++ [(publishers.relay.inner.publish msg).1] } := by
  simp only [step, found]

theorem step_publish_of_none {thread : Nat} (found : publishers.threads thread = none) :
    publishers.step (.publish thread) = publishers := by
  simp only [step, found]

/-- A message published in its turn. -/
theorem Sound.publish (sound : Sound publishers) {thread : Nat}
    {msg : SequencedPheromone Payload} (found : publishers.threads thread = some msg)
    (inTurn : publishers.InTurn (.publish thread)) :
    Sound (publishers.step (.publish thread)) := by
  obtain ⟨fresh, own, after⟩ := inTurn msg found
  have answer : (publishers.relay.inner.publish msg).1 = msg.seq := by
    rw [RelayInner.publish_fst, if_pos fresh]
  have queue := publishers.relay.inner.queued_publish fresh
  rw [step_publish found, answer]
  refine ⟨⟨?_, ?_, ?_⟩, ?_⟩
  · rw [List.mem_append, List.mem_singleton, not_or]
    refine ⟨sound.law.nonzero, ?_⟩
    rintro zero
    rw [← zero] at fresh
    exact UInt64.not_lt_zero fresh
  · rw [List.nodup_append]
    refine ⟨sound.law.distinct, List.nodup_singleton _, ?_⟩
    rintro earlier member last isLast rfl
    exact own (List.mem_singleton.mp isLast ▸ member)
  · intro peerId nowMs
    have sorted : ((publishers.relay.inner.publish msg).2.queued peerId).Pairwise
        fun first second => first.seq < second.seq := by
      rw [queue peerId]
      split
      case isTrue awaits =>
        rw [List.pairwise_append]
        refine ⟨sound.law.queued peerId, List.pairwise_singleton _ _, ?_⟩
        intro earlier member last isLast
        rw [List.mem_singleton.mp isLast]
        exact after peerId awaits earlier member
      case isFalse =>
        rw [List.append_nil]
        exact sound.law.queued peerId
    exact sorted
  · intro peerId other member
    have either : other ∈ publishers.relay.inner.queued peerId ∨ other = msg := by
      rw [queue peerId, List.mem_append] at member
      refine member.imp_right ?_
      intro queuedNow
      split at queuedNow
      · exact List.mem_singleton.mp queuedNow
      · cases queuedNow
    rw [List.mem_append, List.mem_singleton]
    rcases either with member | rfl
    · exact Or.inl (sound.answered peerId other member)
    · exact Or.inr rfl

/-- The other steps queue nothing. -/
theorem Sound.step (sound : Sound publishers) {step : RelayStep Payload}
    (inTurn : publishers.InTurn step) : Sound (publishers.step step) := by
  cases step with
  | number thread origin pheromone =>
      dsimp only [Publishers.step]
      split
      · exact ⟨⟨sound.law.nonzero, sound.law.distinct, sound.law.increasing⟩, sound.answered⟩
      · exact sound
  | publish thread =>
      cases found : publishers.threads thread with
      | none =>
          rw [step_publish_of_none found]
          exact sound
      | some msg => exact sound.publish found inTurn
  | subscribe agentId kinds => exact sound.withInner _ fun _ => List.Sublist.refl _
  | connect agentId nowMs =>
      refine sound.withInner _ fun peerId => ?_
      rw [RelayInner.queued_onPeerConnect]
      split
      · exact List.nil_sublist _
      · exact List.Sublist.refl _
  | disconnect agentId =>
      refine sound.withInner _ fun peerId => ?_
      rw [RelayInner.queued_onPeerDisconnect]

/-- After a publication the law says that it was in its turn. -/
theorem inTurn_of_law {thread : Nat}
    (law : (publishers.step (.publish thread)).StateLaw) :
    publishers.InTurn (.publish thread) := by
  intro msg found
  rw [step_publish found] at law
  have fresh : publishers.relay.inner.versionVectors[msg.origin]?.getD 0 < msg.seq := by
    by_contra stale
    apply law.nonzero
    rw [RelayInner.publish_fst, if_neg stale]
    simp
  have distinct := law.distinct
  rw [RelayInner.publish_fst, if_pos fresh, List.nodup_append] at distinct
  refine ⟨fresh, ?_, ?_⟩
  · intro member
    exact distinct.2.2 _ member _ (List.mem_singleton_self _) rfl
  · intro peerId awaits earlier member
    have increasing := law.queued peerId
    rw [publishers.relay.inner.queued_publish fresh, if_pos awaits,
      List.pairwise_append] at increasing
    exact increasing.2.2 earlier member msg (List.mem_singleton_self msg)

/-- From a sound state, a step keeps the law exactly when it publishes in turn. -/
theorem inTurn_iff_law (sound : Sound publishers) (step : RelayStep Payload) :
    publishers.InTurn step ↔ (publishers.step step).StateLaw := by
  constructor
  · exact fun inTurn => (sound.step inTurn).law
  · intro law
    cases step with
    | publish thread => exact inTurn_of_law law
    | number thread origin pheromone => trivial
    | subscribe agentId kinds => trivial
    | connect agentId nowMs => trivial
    | disconnect agentId => trivial

/-- What is queued under a number that was answered stays as it is until the peer connects,
and is gone then. -/
theorem filter_step {step : RelayStep Payload}
    (inTurn : publishers.InTurn step) {seq : UInt64} (answered : seq ∈ publishers.answers)
    (peerId : String) :
    seq ∈ (publishers.step step).answers ∧
      ((publishers.step step).relay.inner.queued peerId).filter (·.seq = seq) =
        if connects peerId step then []
        else (publishers.relay.inner.queued peerId).filter (·.seq = seq) := by
  cases step with
  | number thread origin pheromone =>
      dsimp only [Publishers.step]
      split
      · exact ⟨answered, rfl⟩
      · exact ⟨answered, rfl⟩
  | publish thread =>
      cases found : publishers.threads thread with
      | none =>
          rw [step_publish_of_none found]
          exact ⟨answered, rfl⟩
      | some msg =>
          obtain ⟨fresh, own, -⟩ := inTurn msg found
          have other : msg.seq ≠ seq := fun same => own (same ▸ answered)
          rw [step_publish found]
          refine ⟨List.mem_append_left _ answered, ?_⟩
          simp only [connects]
          rw [publishers.relay.inner.queued_publish fresh]
          split
          · simp [other]
          · simp
  | subscribe agentId kinds => exact ⟨answered, rfl⟩
  | connect agentId nowMs =>
      refine ⟨answered, ?_⟩
      simp only [Publishers.step, inner_withInner, RelayInner.queued_onPeerConnect, connects,
        beq_iff_eq]
      split
      · rfl
      · rfl
  | disconnect agentId =>
      refine ⟨answered, ?_⟩
      simp only [Publishers.step, inner_withInner, RelayInner.queued_onPeerDisconnect, connects]
      rfl

theorem filter_run {steps : List (RelayStep Payload)}
    (inTurn : GuardedRun.Guarded Publishers.step InTurn publishers steps) {seq : UInt64}
    (answered : seq ∈ publishers.answers) (peerId : String) :
    ((steps.foldl Publishers.step publishers).relay.inner.queued peerId).filter (·.seq = seq) =
      if steps.any (connects peerId) then []
      else (publishers.relay.inner.queued peerId).filter (·.seq = seq) := by
  induction steps generalizing publishers with
  | nil => rfl
  | cons next steps ih =>
      rw [GuardedRun.guarded_cons] at inTurn
      obtain ⟨still, queue⟩ := filter_step inTurn.1 answered peerId
      rw [List.foldl_cons, ih inTurn.2 still, queue, List.any_cons]
      cases connects peerId next
      · simp
      · simp

/-- A message that a peer awaits stands in its queue, alone under its number. -/
theorem Sound.filter_publish (sound : Sound publishers) {thread : Nat}
    {msg : SequencedPheromone Payload} (found : publishers.threads thread = some msg)
    (inTurn : publishers.InTurn (.publish thread)) {peerId : String}
    (awaits : publishers.relay.inner.Awaits peerId msg) :
    msg.seq ∈ (publishers.step (.publish thread)).answers ∧
      ((publishers.step (.publish thread)).relay.inner.queued peerId).filter
        (·.seq = msg.seq) = [msg] := by
  obtain ⟨fresh, own, -⟩ := inTurn msg found
  rw [step_publish found]
  constructor
  · simp [RelayInner.publish_fst, fresh]
  · have none : (publishers.relay.inner.queued peerId).filter (·.seq = msg.seq) = [] := by
      rw [List.filter_eq_nil_iff]
      intro other member
      rw [decide_eq_true_eq]
      intro same
      exact own (same ▸ sound.answered peerId other member)
    simp only
    rw [publishers.relay.inner.queued_publish fresh, if_pos awaits, List.filter_append, none]
    simp

/-- A new relay, with no publish call under way. -/
def start : Publishers Payload :=
  {}

theorem sound_start : Sound (start : Publishers Payload) where
  law :=
    { nonzero := by simp [start]
      distinct := by simp [start]
      increasing := by simp [start, handOver, RelayInner.onPeerConnect] }
  answered := by simp [start, RelayInner.queued]

/-- A run of the relay keeps its promises exactly when every message is published in its
turn. -/
theorem lawful_iff_inTurn (steps : List (RelayStep Payload)) :
    Lawful start steps ↔ GuardedRun.Guarded step InTurn start steps := by
  have law : (∀ publishers ∈ GuardedRun.states step start steps, publishers.StateLaw) ↔
      GuardedRun.Guarded step InTurn (start : Publishers Payload) steps := by
    have always : GuardedRun.Guarded step (fun _ _ => True)
        (start : Publishers Payload) steps := fun _ _ => trivial
    rw [GuardedRun.guarded_iff_kept step InTurn (fun _ _ => True) Sound StateLaw
      (fun publishers step sound => (inTurn_iff_law sound step).trans (and_true _).symm.to_iff)
      (fun publishers step sound inTurn => sound.step inTurn) sound_start sound_start.law]
    exact (and_iff_left always).symm
  constructor
  · exact fun lawful => law.mp lawful.law
  · intro inTurn
    refine ⟨law.mpr inTurn, ?_⟩
    intro before thread after rest msg peerId nowMs split found awaits
    have sound : Sound (before.foldl step start) := by
      refine GuardedRun.invariant_of_guarded step InTurn Sound
        (fun _ _ sound inTurn => sound.step inTurn) sound_start inTurn _ ?_
      exact GuardedRun.mem_states_iff.mpr ⟨before, ⟨_, split.symm⟩, rfl⟩
    rw [split, GuardedRun.guarded_append, GuardedRun.guarded_cons,
      GuardedRun.guarded_append] at inTurn
    obtain ⟨-, here, later, -⟩ := inTurn
    obtain ⟨answered, alone⟩ := sound.filter_publish found here awaits
    have run := filter_run later answered peerId
    rw [alone] at run
    rw [List.foldl_append, List.foldl_cons]
    exact run

/-- Two threads take the numbers 1 and 2 for one origin and reach the lock in the opposite
order, while a peer is offline. -/
def swappedPublications : List (RelayStep Unit) :=
  [.subscribe "peer" [], .number 1 "origin" ⟨.threat, ()⟩, .number 2 "origin" ⟨.wisdom, ()⟩,
    .publish 2, .publish 1]

/-- The first pheromone is dropped, with the answer 0. -/
theorem swapped_dropped :
    (swappedPublications.foldl step start).answers = [2, 0] ∧
      ¬ Lawful start swappedPublications := by
  have answers : (swappedPublications.foldl step start).answers = [2, 0] := by
    decide +kernel
  refine ⟨answers, ?_⟩
  intro lawful
  apply (lawful.law _ (GuardedRun.foldl_mem_states start swappedPublications)).nonzero
  rw [answers]
  decide

end Publishers

end Roko
