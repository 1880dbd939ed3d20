import Roko.FallibleSteps
import Roko.GuardedRuns
import Roko.X402Channels
import Mathlib.Data.List.Nodup

/-!
# The deposits of payment channels

Each accepted deposit gets a number, which the id of its channel holds until another
channel is opened under it.  A run keeps all deposits and balances when no proof hides
an overflow and no id is used again too early.
-/

namespace Roko

/-- A manager and the deposits of its run, numbered as they are accepted. -/
structure DepositBook where
  manager : X402Manager
  accepted : Nat := 0
  holder : B256 → Option Nat := fun _ => none
  settled : List Nat := []

namespace DepositBook

open X402Manager

/-- The book after a call that leads to a manager.  A finalized close settles the
deposit that its id holds. -/
def recorded (book : DepositBook) (manager : X402Manager) : ChannelCall → DepositBook
  | .openChannel channelId _ _ _ _ _ _ =>
      { book with
        manager
        accepted := book.accepted + 1
        holder := Function.update book.holder channelId (some book.accepted) }
  | .finalizeClose channelId =>
      { book with
        manager
        settled := book.settled ++ (book.holder channelId).toList }
  | _ => { book with manager }

def step (book : DepositBook) (call : ChannelCall) : DepositBook :=
  match book.manager.execute call with
  | .error _ => book
  | .ok manager => book.recorded manager call

/-- The balances of a channel are its deposits, as natural numbers. -/
def Conserved (channel : StateChannel) : Prop :=
  channel.balanceA.toNat + channel.balanceB.toNat =
    channel.depositA.toNat + channel.depositB.toNat

/-- Every channel conserves its deposits, and every deposit is settled once or held by a
channel that is not closed. -/
structure Sound (book : DepositBook) : Prop where
  conserved : ∀ (channelId : B256) (channel : StateChannel),
    book.manager.channels[channelId]? = some channel → Conserved channel
  settledOnce : book.settled.Nodup
  kept : ∀ number < book.accepted, number ∈ book.settled ∨
    ∃ (channelId : B256) (channel : StateChannel), book.holder channelId = some number ∧
      book.manager.channels[channelId]? = some channel ∧ channel.state ≠ .closed

/-- A call lowers no nonce. -/
def NonceKept (book : DepositBook) (call : ChannelCall) : Prop :=
  ∀ (channelId : B256) (channel : StateChannel),
    book.manager.channels[channelId]? = some channel →
      ∃ after : StateChannel, (book.step call).manager.channels[channelId]? = some after ∧
        channel.nonce ≤ after.nonce

def Overflows (first second : U128) : Prop :=
  2 ^ 128 ≤ first.toNat + second.toNat

/-- An accepted deposit uses no id whose channel is unsettled or has a nonce, and the
sums of an accepted proof overflow both or not at all. -/
def StepSafe (book : DepositBook) : ChannelCall → Prop
  | .openChannel channelId _ _ _ _ depositA _ =>
      book.manager.config.minChannelDeposit ≤ depositA →
        ∀ channel, book.manager.channels[channelId]? = some channel →
          channel.state = .closed ∧ channel.nonce = 0
  | .updateChannel proof =>
      ∀ channel, book.manager.channels[proof.channelId]? = some channel →
        Accepts channel proof →
          (Overflows proof.balanceA proof.balanceB ↔
            Overflows channel.depositA channel.depositB)
  | _ => True

theorem same_sum_iff {first second third fourth : U128}
    (wrapped : first + second = third + fourth) :
    first.toNat + second.toNat = third.toNat + fourth.toNat ↔
      (Overflows first second ↔ Overflows third fourth) := by
  have sums := congrArg BitVec.toNat wrapped
  have bounds := And.intro first.isLt second.isLt
  have bounds' := And.intro third.isLt fourth.isLt
  rw [BitVec.toNat_add, BitVec.toNat_add] at sums
  unfold Overflows
  omega

/-- What is said of every channel, after one is written. -/
theorem forall_setChannel {manager : X402Manager} {channelId : B256} {new : StateChannel}
    (holds : B256 → StateChannel → Prop) (here : holds channelId new)
    (elsewhere : ∀ (other : B256) (channel : StateChannel), other ≠ channelId →
      manager.channels[other]? = some channel → holds other channel) :
    ∀ (other : B256) (channel : StateChannel),
      (manager.setChannel channelId new).channels[other]? = some channel →
        holds other channel := by
  intro other channel found
  rw [getElem?_setChannel] at found
  split at found
  case isTrue isHere =>
    subst isHere
    cases found
    exact here
  case isFalse apart => exact elsewhere other channel (Ne.symm apart) found

/-- What is always true of the numbers. -/
structure Tracked (book : DepositBook) : Prop where
  held : ∀ channelId number, book.holder channelId = some number → number < book.accepted
  apart : ∀ channelId other number, book.holder channelId = some number →
    book.holder other = some number → channelId = other
  channel : ∀ (channelId : B256) (channel : StateChannel),
    book.manager.channels[channelId]? = some channel →
      ∃ number, book.holder channelId = some number ∧
        (number ∈ book.settled ↔ channel.state = .closed)
  settledOnce : book.settled.Nodup
  settledAccepted : ∀ number ∈ book.settled, number < book.accepted

variable {book : DepositBook}

theorem Tracked.rewritten (tracked : book.Tracked) {channelId : B256}
    {channel new : StateChannel} (found : book.manager.channels[channelId]? = some channel)
    (same : new.state = .closed ↔ channel.state = .closed) :
    Tracked { book with manager := book.manager.setChannel channelId new } := by
  refine ⟨tracked.held, tracked.apart, forall_setChannel _ ?_ ?_, tracked.settledOnce,
    tracked.settledAccepted⟩
  · obtain ⟨number, holds, settled⟩ := tracked.channel channelId channel found
    exact ⟨number, holds, settled.trans same.symm⟩
  · exact fun other otherChannel _ => tracked.channel other otherChannel

theorem Tracked.opened (tracked : book.Tracked) {channelId : B256} {new : StateChannel}
    (isOpen : new.state = .opened) :
    Tracked
      { book with
        manager := book.manager.setChannel channelId new
        accepted := book.accepted + 1
        holder := Function.update book.holder channelId (some book.accepted) } := by
  constructor
  · intro other number holds
    dsimp only at holds ⊢
    by_cases isHere : other = channelId
    · rw [isHere, Function.update_self] at holds
      cases holds
      exact Nat.lt_succ_self _
    · rw [Function.update_of_ne isHere] at holds
      exact Nat.lt_succ_of_lt (tracked.held other number holds)
  · intro first second number firstHolds secondHolds
    dsimp only at firstHolds secondHolds
    by_cases firstHere : first = channelId <;> by_cases secondHere : second = channelId
    · rw [firstHere, secondHere]
    · rw [firstHere, Function.update_self] at firstHolds
      rw [Function.update_of_ne secondHere] at secondHolds
      cases firstHolds
      exact absurd (tracked.held second _ secondHolds) (Nat.lt_irrefl _)
    · rw [secondHere, Function.update_self] at secondHolds
      rw [Function.update_of_ne firstHere] at firstHolds
      cases secondHolds
      exact absurd (tracked.held first _ firstHolds) (Nat.lt_irrefl _)
    · rw [Function.update_of_ne firstHere] at firstHolds
      rw [Function.update_of_ne secondHere] at secondHolds
      exact tracked.apart first second number firstHolds secondHolds
  · refine forall_setChannel _ ⟨book.accepted, Function.update_self _ _ _, ?_⟩ ?_
    · rw [isOpen]
      constructor
      · intro settled
        exact absurd (tracked.settledAccepted _ settled) (Nat.lt_irrefl _)
      · intro closed
        cases closed
    · intro other otherChannel elsewhere otherFound
      dsimp only
      rw [Function.update_of_ne elsewhere]
      exact tracked.channel other otherChannel otherFound
  · exact tracked.settledOnce
  · exact fun number settled => Nat.lt_succ_of_lt (tracked.settledAccepted number settled)

theorem Tracked.settles (tracked : book.Tracked) {channelId : B256}
    {channel : StateChannel} (found : book.manager.channels[channelId]? = some channel)
    (notClosed : channel.state ≠ .closed) :
    Tracked
      { book with
        manager := book.manager.setChannel channelId { channel with state := .closed }
        settled := book.settled ++ (book.holder channelId).toList } := by
  obtain ⟨number, holds, settled⟩ := tracked.channel channelId channel found
  have unsettled : number ∉ book.settled := fun member => notClosed (settled.mp member)
  rw [holds, Option.toList_some]
  refine ⟨tracked.held, tracked.apart, forall_setChannel _ ?_ ?_, ?_, ?_⟩
  · exact ⟨number, holds, by simp⟩
  · intro other otherChannel elsewhere otherFound
    obtain ⟨otherNumber, otherHolds, otherSettled⟩ :=
      tracked.channel other otherChannel otherFound
    refine ⟨otherNumber, otherHolds, ?_⟩
    have differs : otherNumber ≠ number := by
      rintro rfl
      exact elsewhere (tracked.apart _ _ _ otherHolds holds)
    rw [List.mem_append, List.mem_singleton, or_iff_left differs]
    exact otherSettled
  · exact List.nodup_append_comm.mp (List.nodup_cons.mpr ⟨unsettled, tracked.settledOnce⟩)
  · intro other member
    rcases List.mem_append.mp member with earlier | last
    · exact tracked.settledAccepted other earlier
    · rw [List.mem_singleton.mp last]
      exact tracked.held _ _ holds

theorem tracked_step (tracked : book.Tracked) (call : ChannelCall) :
    (book.step call).Tracked := by
  unfold step
  rcases step_cases book.manager call with ⟨⟨error, failed⟩, -⟩ | ⟨executed, effect⟩
  · rw [failed]
    exact tracked
  · rw [executed]
    generalize book.manager.step call = after at executed effect ⊢
    cases effect with
    | setTime block timestamp =>
        exact ⟨tracked.held, tracked.apart, tracked.channel, tracked.settledOnce,
          tracked.settledAccepted⟩
    | openChannel enough => exact tracked.opened rfl
    | updateChannel found accepted => exact tracked.rewritten found Iff.rfl
    | requestClose found opened =>
        refine tracked.rewritten found ?_
        rw [opened]
        simp
    | finalizeClose found closing =>
        refine tracked.settles found ?_
        rw [closing]
        simp

/-- A write of a channel that is not closed is sound exactly when it is conserved. -/
theorem sound_rewritten_iff (sound : book.Sound) {channelId : B256} {new : StateChannel}
    (live : new.state ≠ .closed) :
    Sound { book with manager := book.manager.setChannel channelId new } ↔
      Conserved new := by
  constructor
  · intro after
    refine after.conserved channelId new ?_
    rw [getElem?_setChannel, if_pos rfl]
  · intro conserved
    refine ⟨forall_setChannel _ conserved fun other otherChannel _ =>
      sound.conserved other otherChannel, sound.settledOnce, ?_⟩
    intro number accepted
    rcases sound.kept number accepted with settled | ⟨other, otherChannel, holds, kept⟩
    · exact Or.inl settled
    · refine Or.inr ⟨other, ?_⟩
      dsimp only
      rw [getElem?_setChannel]
      by_cases isHere : channelId = other
      · exact ⟨new, holds, if_pos isHere, live⟩
      · exact ⟨otherChannel, holds, (if_neg isHere).trans kept.1, kept.2⟩

theorem Sound.settles (sound : book.Sound) (tracked : book.Tracked) {channelId : B256}
    {channel : StateChannel} (found : book.manager.channels[channelId]? = some channel)
    (notClosed : channel.state ≠ .closed) :
    Sound
      { book with
        manager := book.manager.setChannel channelId { channel with state := .closed }
        settled := book.settled ++ (book.holder channelId).toList } := by
  refine ⟨forall_setChannel _ (sound.conserved channelId channel found)
    fun other otherChannel _ => sound.conserved other otherChannel,
    (tracked.settles found notClosed).settledOnce, ?_⟩
  · intro number accepted
    rcases sound.kept number accepted with settled | ⟨other, otherChannel, holds, kept⟩
    · exact Or.inl (List.mem_append_left _ settled)
    · by_cases isHere : channelId = other
      · left
        rw [isHere, holds]
        simp
      · refine Or.inr ⟨other, otherChannel, holds, ?_, kept.2⟩
        rw [getElem?_setChannel, if_neg isHere]
        exact kept.1

/-- A deposit under an id is sound exactly when the deposit that the id held is settled. -/
theorem sound_opened_iff (sound : book.Sound) (tracked : book.Tracked) {channelId : B256}
    {new : StateChannel} (isOpen : new.state = .opened) (conserved : Conserved new) :
    Sound
        { book with
          manager := book.manager.setChannel channelId new
          accepted := book.accepted + 1
          holder := Function.update book.holder channelId (some book.accepted) } ↔
      ∀ channel, book.manager.channels[channelId]? = some channel →
        channel.state = .closed := by
  constructor
  · intro after channel found
    obtain ⟨number, holds, settled⟩ := tracked.channel channelId channel found
    have accepted := tracked.held channelId number holds
    rcases after.kept number (Nat.lt_succ_of_lt accepted) with
      member | ⟨other, otherChannel, otherHolds, -⟩
    · exact settled.mp member
    · dsimp only at otherHolds
      by_cases isHere : other = channelId
      · rw [isHere, Function.update_self] at otherHolds
        cases otherHolds
        exact absurd accepted (Nat.lt_irrefl _)
      · rw [Function.update_of_ne isHere] at otherHolds
        exact absurd (tracked.apart other channelId number otherHolds holds) isHere
  · intro closed
    refine ⟨forall_setChannel _ conserved fun other otherChannel _ =>
      sound.conserved other otherChannel, sound.settledOnce, ?_⟩
    · intro number accepted
      dsimp only
      by_cases isLast : number = book.accepted
      · refine Or.inr ⟨channelId, new, ?_, ?_, by rw [isOpen]; simp⟩
        · rw [isLast, Function.update_self]
        · rw [getElem?_setChannel, if_pos rfl]
      · rcases sound.kept number (by dsimp only at accepted; omega) with
          settled | ⟨other, otherChannel, holds, kept⟩
        · exact Or.inl settled
        · have elsewhere : other ≠ channelId := by
            rintro rfl
            exact kept.2 (closed otherChannel kept.1)
          refine Or.inr ⟨other, otherChannel, ?_, ?_, kept.2⟩
          · rw [Function.update_of_ne elsewhere]
            exact holds
          · rw [getElem?_setChannel, if_neg (Ne.symm elsewhere)]
            exact kept.1

/-- A call that writes one channel lowers no nonce exactly when it does not lower the
nonce that was there. -/
theorem nonceKept_of_setChannel {call : ChannelCall} {channelId : B256}
    {new : StateChannel}
    (wrote : (book.step call).manager = book.manager.setChannel channelId new) :
    NonceKept book call ↔
      ∀ channel, book.manager.channels[channelId]? = some channel →
        channel.nonce ≤ new.nonce := by
  unfold NonceKept
  rw [wrote]
  constructor
  · intro kept channel found
    obtain ⟨after, afterFound, ordered⟩ := kept channelId channel found
    rw [getElem?_setChannel, if_pos rfl] at afterFound
    cases afterFound
    exact ordered
  · intro kept other channel found
    rw [getElem?_setChannel]
    split
    case isTrue isHere =>
      subst isHere
      exact ⟨new, rfl, kept channel found⟩
    case isFalse => exact ⟨channel, found, UInt64.le_refl _⟩

theorem nonceKept_of_same {call : ChannelCall}
    (same : (book.step call).manager.channels = book.manager.channels) :
    NonceKept book call := by
  intro channelId channel found
  refine ⟨channel, ?_, UInt64.le_refl _⟩
  rw [same]
  exact found

/-- A write of a channel keeps the nonces when it keeps the one of that channel. -/
theorem nonceKept_of_found {call : ChannelCall} {channelId : B256}
    {channel new : StateChannel} (found : book.manager.channels[channelId]? = some channel)
    (wrote : (book.step call).manager = book.manager.setChannel channelId new)
    (ordered : channel.nonce ≤ new.nonce) : NonceKept book call := by
  rw [nonceKept_of_setChannel wrote]
  exact (FallibleSteps.forall_found_iff found _).mpr ordered

/-- What a failed call asked for was not accepted. -/
theorem stepSafe_of_error {call : ChannelCall} {error : X402Error}
    (failed : book.manager.execute call = .error error) : StepSafe book call := by
  cases call with
  | openChannel channelId partyA partyAPassport partyB partyBPassport depositA depositB =>
      intro enough
      unfold execute openChannel at failed
      dsimp only at failed
      rw [if_neg (BitVec.not_lt.mpr enough)] at failed
      cases failed
  | updateChannel proof =>
      intro channel found accepted
      have updated := updateChannel_ok_iff.mpr ⟨channel, found, accepted, rfl⟩
      cases failed.symm.trans updated
  | _ => trivial

/-- In a sound state the condition says exactly which calls keep it sound and lower no
nonce. -/
theorem stepSafe_iff (tracked : book.Tracked) (sound : book.Sound) (call : ChannelCall) :
    StepSafe book call ↔ Sound (book.step call) ∧ NonceKept book call := by
  rcases step_cases book.manager call with ⟨⟨error, failed⟩, -⟩ | ⟨executed, effect⟩
  · have unchanged : book.step call = book := by
      unfold step
      rw [failed]
    refine iff_of_true (stepSafe_of_error failed) ⟨?_, nonceKept_of_same ?_⟩
    · rw [unchanged]
      exact sound
    · rw [unchanged]
  · generalize book.manager.step call = after at executed effect
    have stepped : book.step call = book.recorded after call := by
      unfold step
      rw [executed]
    have manager := congrArg DepositBook.manager stepped
    cases effect with
    | setTime block timestamp =>
        refine iff_of_true trivial ⟨?_, nonceKept_of_same ?_⟩
        · rw [stepped]
          exact ⟨sound.conserved, sound.settledOnce, sound.kept⟩
        · rw [stepped]
          rfl
    | @openChannel channelId _ _ _ _ depositA depositB enough =>
        rw [nonceKept_of_setChannel manager, stepped]
        unfold recorded
        rw [sound_opened_iff sound tracked]
        · constructor
          · intro safe
            refine ⟨fun channel found => (safe enough channel found).1, ?_⟩
            intro channel found
            rw [(safe enough channel found).2]
            exact UInt64.le_refl _
          · rintro ⟨closed, lowers⟩ - channel found
            refine ⟨closed channel found, ?_⟩
            exact UInt64.le_antisymm (lowers channel found) (by simp)
        · rfl
        · rfl
    | @updateChannel proof channel found accepted =>
        have sums : Sound (book.step (.updateChannel proof)) ↔
            (Overflows proof.balanceA proof.balanceB ↔
              Overflows channel.depositA channel.depositB) := by
          rw [stepped]
          refine (sound_rewritten_iff sound ?_).trans (same_sum_iff accepted.2.2)
          rw [accepted.1]
          simp
        rw [and_iff_left (nonceKept_of_found found manager (UInt64.le_of_lt accepted.2.1)),
          sums]
        constructor
        · exact fun safe => safe channel found accepted
        · exact fun both => (FallibleSteps.forall_found_iff found _).mpr fun _ => both
    | @requestClose channelId channel found opened =>
        refine iff_of_true trivial ⟨?_, nonceKept_of_found found manager (UInt64.le_refl _)⟩
        rw [stepped]
        refine (sound_rewritten_iff sound ?_).mpr (sound.conserved channelId channel found)
        simp
    | @finalizeClose channelId channel closeRequestedAt found closing =>
        refine iff_of_true trivial ⟨?_, nonceKept_of_found found manager (UInt64.le_refl _)⟩
        rw [stepped]
        refine sound.settles tracked found ?_
        rw [closing]
        simp

def start (config : X402Config) : DepositBook :=
  { manager := .new config }

theorem getElem?_start (config : X402Config) (channelId : B256) :
    (start config).manager.channels[channelId]? = none :=
  Std.ExtTreeMap.getElem?_empty

theorem tracked_start (config : X402Config) : (start config).Tracked := by
  refine ⟨fun _ _ holds => ?_, fun _ _ _ holds => ?_, fun channelId channel found => ?_,
    List.nodup_nil, fun _ settled => absurd settled List.not_mem_nil⟩
  · cases holds
  · cases holds
  · rw [getElem?_start] at found
    cases found

theorem sound_start (config : X402Config) : (start config).Sound := by
  refine ⟨fun channelId channel found => ?_, List.nodup_nil,
    fun number accepted => absurd accepted (Nat.not_lt_zero _)⟩
  rw [getElem?_start] at found
  cases found

/-- A run meets the condition at each step exactly when it conserves and keeps every
deposit, settles none twice, and lowers no nonce. -/
theorem deposits_kept_iff (config : X402Config) (calls : List ChannelCall) :
    ((∀ book ∈ GuardedRun.states step (start config) calls, book.Sound) ∧
        GuardedRun.Guarded step NonceKept (start config) calls) ↔
      GuardedRun.Guarded step StepSafe (start config) calls :=
  (GuardedRun.guarded_iff_kept step StepSafe NonceKept
    (fun book => book.Tracked ∧ book.Sound) Sound
    (fun _ call inner => stepSafe_iff inner.1 inner.2 call)
    (fun _ call inner safe =>
      ⟨tracked_step inner.1 call, ((stepSafe_iff inner.1 inner.2 call).mp safe).1⟩)
    ⟨tracked_start config, sound_start config⟩ (sound_start config)).symm

/-- A proof whose sum wraps gives the first party all but one of the units there are. -/
theorem balance_overflows :
    let calls : List ChannelCall :=
      [.openChannel 1 "a" 1 "b" 2 1000 0,
        .updateChannel ⟨1, 1, BitVec.allOnes 128, 1001⟩]
    ¬ ∀ book ∈ GuardedRun.states step (start {}) calls, book.Sound := by
  intro calls sound
  have last := (sound _ (GuardedRun.foldl_mem_states (start {}) calls)).conserved 1
    ⟨1, "a", 1, "b", 2, 1000, 0, 1, BitVec.allOnes 128, 1001, .opened, 100, 0⟩
    (by decide)
  exact absurd last (by unfold Conserved; decide)

end DepositBook

end Roko
