import Roko.GuardedRuns
import Roko.X402Channels

/-!
# Closing a payment channel

The challenge period lets a settlement wait, but no proof is accepted in it.  What a
channel is settled with is therefore the last proof from before the request to close it.
-/

namespace Roko

namespace X402Manager

/-- The call opens a channel under an id. -/
def Opens (channelId : B256) (manager : X402Manager) : ChannelCall → Prop
  | .openChannel id _ _ _ _ depositA _ =>
      id = channelId ∧ manager.config.minChannelDeposit ≤ depositA
  | _ => False

variable {manager after : X402Manager} {channelId : B256} {call : ChannelCall}

/-- What a call can do to a channel that it does not replace. -/
structure ChannelStep (before after : StateChannel) : Prop where
  nonce : before.nonce ≤ after.nonce
  frozen : before.state ≠ .opened → after.nonce = before.nonce ∧ after.state ≠ .opened

theorem ChannelStep.refl (channel : StateChannel) : ChannelStep channel channel :=
  ⟨UInt64.le_refl _, fun notOpen => ⟨rfl, notOpen⟩⟩

theorem ChannelStep.trans {first second third : StateChannel}
    (one : ChannelStep first second) (two : ChannelStep second third) :
    ChannelStep first third := by
  refine ⟨UInt64.le_trans one.nonce two.nonce, fun notOpen => ?_⟩
  obtain ⟨sameNonce, stillNotOpen⟩ := one.frozen notOpen
  obtain ⟨lastNonce, lastNotOpen⟩ := two.frozen stillNotOpen
  exact ⟨lastNonce.trans sameNonce, lastNotOpen⟩

theorem channelStep_setChannel {other : B256} {channel old new : StateChannel}
    (found : manager.channels[channelId]? = some channel)
    (oldFound : manager.channels[other]? = some old) (change : ChannelStep old new) :
    ∃ last, (manager.setChannel other new).channels[channelId]? = some last ∧
      ChannelStep channel last := by
  rw [getElem?_setChannel]
  split
  case isTrue isHere =>
    subst isHere
    rw [found] at oldFound
    cases oldFound
    exact ⟨new, rfl, change⟩
  case isFalse => exact ⟨channel, found, .refl channel⟩

theorem channelStep_of_effect {channel : StateChannel}
    (found : manager.channels[channelId]? = some channel)
    (kept : ¬ Opens channelId manager call) (effect : Effect manager call after) :
    ∃ last, after.channels[channelId]? = some last ∧ ChannelStep channel last := by
  cases effect with
  | setTime block timestamp => exact ⟨channel, found, .refl channel⟩
  | @openChannel id _ _ _ _ _ _ enough =>
      have elsewhere : id ≠ channelId := fun isHere => kept ⟨isHere, enough⟩
      rw [getElem?_setChannel, if_neg elsewhere]
      exact ⟨channel, found, .refl channel⟩
  | updateChannel oldFound accepted =>
      refine channelStep_setChannel found oldFound ⟨UInt64.le_of_lt accepted.2.1, ?_⟩
      exact fun notOpen => absurd accepted.1 notOpen
  | requestClose oldFound opened =>
      refine channelStep_setChannel found oldFound ⟨UInt64.le_refl _, ?_⟩
      exact fun notOpen => absurd opened notOpen
  | finalizeClose oldFound closing =>
      exact channelStep_setChannel found oldFound
        ⟨UInt64.le_refl _, fun _ => ⟨rfl, by simp⟩⟩

theorem channelStep_step {channel : StateChannel}
    (found : manager.channels[channelId]? = some channel)
    (kept : ¬ Opens channelId manager call) :
    ∃ last, (manager.step call).channels[channelId]? = some last ∧
      ChannelStep channel last := by
  rcases step_cases manager call with ⟨-, unchanged⟩ | ⟨-, effect⟩
  · rw [unchanged]
    exact ⟨channel, found, .refl channel⟩
  · exact channelStep_of_effect found kept effect

theorem channelStep_run {channel : StateChannel} {calls : List ChannelCall}
    (found : manager.channels[channelId]? = some channel)
    (kept : GuardedRun.Guarded step (fun manager call => ¬ Opens channelId manager call)
      manager calls) :
    ∃ last, (calls.foldl step manager).channels[channelId]? = some last ∧
      ChannelStep channel last := by
  induction calls generalizing manager channel with
  | nil => exact ⟨channel, found, .refl channel⟩
  | cons call calls ih =>
      rw [GuardedRun.guarded_cons] at kept
      obtain ⟨next, nextFound, one⟩ := channelStep_step found kept.1
      obtain ⟨last, lastFound, two⟩ := ih nextFound kept.2
      exact ⟨last, lastFound, one.trans two⟩

/-- What a submission leaves of a channel: the proof if the channel is open, the channel
as it was otherwise. -/
theorem submitted {proof : BalanceProof} {channel : StateChannel}
    (found : manager.channels[proof.channelId]? = some channel)
    (newer : channel.nonce < proof.nonce)
    (conserving : proof.balanceA + proof.balanceB = channel.depositA + channel.depositB) :
    ∃ next, (manager.step (.updateChannel proof)).channels[proof.channelId]? = some next ∧
      (channel.state = .opened → next.nonce = proof.nonce) ∧
      (channel.state ≠ .opened → next = channel) := by
  rcases step_cases manager (.updateChannel proof) with
    ⟨⟨error, failed⟩, unchanged⟩ | ⟨executed, -⟩
  · rw [unchanged]
    refine ⟨channel, found, fun opened => ?_, fun _ => rfl⟩
    have updated := updateChannel_ok_iff.mpr
      ⟨channel, found, ⟨opened, newer, conserving⟩, rfl⟩
    cases failed.symm.trans updated
  · obtain ⟨old, oldFound, accepted, after⟩ := updateChannel_ok_iff.mp executed
    rw [found] at oldFound
    cases oldFound
    rw [after, getElem?_setChannel, if_pos rfl]
    exact ⟨_, rfl, fun _ => rfl, fun notOpen => absurd accepted.1 notOpen⟩

/-- A settlement reflects a newer proof that conserves the deposits exactly when the
proof was submitted before the request to close. -/
theorem settlement_reflects_iff (manager : X402Manager) (proof : BalanceProof)
    (channel : StateChannel) (calls : List ChannelCall)
    (settlement : ChannelSettlement)
    (found : manager.channels[proof.channelId]? = some channel)
    (newer : channel.nonce < proof.nonce)
    (conserving : proof.balanceA + proof.balanceB = channel.depositA + channel.depositB)
    (sameChannel : GuardedRun.Guarded step
      (fun manager call => ¬ Opens proof.channelId manager call)
      (manager.step (.updateChannel proof)) calls)
    (settled : ((calls.foldl step (manager.step (.updateChannel proof))).finalizeClose
      proof.channelId).map Prod.fst = .ok settlement) :
    proof.nonce ≤ settlement.nonce ↔ channel.state = .opened := by
  obtain ⟨next, nextFound, taken, refused⟩ := submitted found newer conserving
  obtain ⟨last, lastFound, change⟩ := channelStep_run nextFound sameChannel
  have sameNonce : settlement.nonce = last.nonce := by
    cases finalized : (calls.foldl step (manager.step (.updateChannel proof))).finalizeClose
        proof.channelId with
    | error error =>
        rw [finalized] at settled
        cases settled
    | ok result =>
        obtain ⟨final, closeRequestedAt, finalFound, -, rfl⟩ := finalizeClose_ok finalized
        rw [lastFound] at finalFound
        cases finalFound
        rw [finalized] at settled
        cases settled
        rfl
  rw [sameNonce]
  constructor
  · intro reflected
    by_contra notOpen
    rw [refused notOpen] at change
    rw [(change.frozen notOpen).1] at reflected
    exact absurd newer (UInt64.not_lt.mpr reflected)
  · intro opened
    rw [← taken opened]
    exact change.nonce

/-- The first party has opened a channel with 1000 units. -/
def clientOpens : X402Manager :=
  (new {}).step (.openChannel 1 "client" 10 "agent" 20 1000 0)

def clientChannel : StateChannel :=
  ⟨1, "client", 10, "agent", 20, 1000, 0, 0, 1000, 0, .opened, 100, 0⟩

/-- The proof that 900 units were paid to the second party. -/
def paysAgent : BalanceProof := ⟨1, 5, 100, 900⟩

theorem settlement_reflects_paysAgent :
    paysAgent.nonce ≤ (⟨1, 100, 900, 5⟩ : ChannelSettlement).nonce ↔
      clientChannel.state = .opened :=
  settlement_reflects_iff clientOpens paysAgent clientChannel
    [.requestClose 1, .setTime 100 0] ⟨1, 100, 900, 5⟩ (by decide) (by decide) (by decide)
    (by
      simp only [GuardedRun.guarded_cons]
      exact ⟨id, id, GuardedRun.guarded_nil _⟩)
    (by decide)

/-- The first party requests the close, the second submits the proof in the challenge
period, and the settlement returns all units to the first. -/
theorem stale_settlement :
    ¬ ∀ (manager : X402Manager) (proof : BalanceProof) (channel : StateChannel)
        (calls : List ChannelCall) (settlement : ChannelSettlement),
      manager.channels[proof.channelId]? = some channel → channel.nonce < proof.nonce →
      proof.balanceA + proof.balanceB = channel.depositA + channel.depositB →
      GuardedRun.Guarded step (fun manager call => ¬ Opens proof.channelId manager call)
        (manager.step (.updateChannel proof)) calls →
      ((calls.foldl step (manager.step (.updateChannel proof))).finalizeClose
        proof.channelId).map Prod.fst = .ok settlement →
      proof.nonce ≤ settlement.nonce := by
  intro always
  have reflected := always (clientOpens.step (.requestClose 1)) paysAgent
    { clientChannel with state := .closing 0 } [.setTime 100 0] ⟨1, 1000, 0, 0⟩
    (by decide) (by decide) (by decide)
    (by
      simp only [GuardedRun.guarded_cons]
      exact ⟨id, GuardedRun.guarded_nil _⟩)
    (by decide)
  exact absurd reflected (by decide)

end X402Manager

end Roko
