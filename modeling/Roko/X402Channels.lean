import Roko.ChainTypes

/-!
# Payment channels

The state channels of `X402Manager` in `x402.rs`.  Two parties deposit into a channel,
exchange balance proofs, and close it after a challenge period.  Sums wrap as in a
release build, and the signatures of a proof are not checked.
-/

namespace Roko

/-- `ChannelLifecycle`.  `opened` is `Open`. -/
inductive ChannelLifecycle
  | opened
  | closing (closeRequestedAt : UInt64)
  | closed
  | disputed
  deriving DecidableEq, Repr

structure StateChannel where
  channelId : B256
  partyA : String
  partyAPassport : U128
  partyB : String
  partyBPassport : U128
  depositA : U128
  depositB : U128
  nonce : UInt64
  balanceA : U128
  balanceB : U128
  state : ChannelLifecycle
  challengeWindow : UInt64
  openedAtBlock : UInt64
  deriving DecidableEq, Repr

structure BalanceProof where
  channelId : B256
  nonce : UInt64
  balanceA : U128
  balanceB : U128
  deriving DecidableEq, Repr

structure ChannelSettlement where
  channelId : B256
  finalBalanceA : U128
  finalBalanceB : U128
  nonce : UInt64
  deriving DecidableEq, Repr

inductive X402Error
  | channelNotFound
  | channelNotOpen
  | invalidState (message : String)
  | invalidNonce (current provided : UInt64)
  | balanceMismatch (totalDeposit totalBalance : U128)
  | insufficientDeposit (provided required : U128)
  | challengePeriodActive (remaining : UInt64)
  deriving DecidableEq, Repr

/-- The fields of the configuration that channels use, with their defaults. -/
structure X402Config where
  challengeWindowBlocks : UInt64 := 100
  minChannelDeposit : U128 := 1000
  deriving DecidableEq, Repr

structure X402Manager where
  config : X402Config
  channels : Std.ExtTreeMap B256 StateChannel := ∅
  currentBlock : UInt64 := 0
  currentTimestamp : UInt64 := 0

/-- The calls that change the channels. -/
inductive ChannelCall
  | setTime (block timestamp : UInt64)
  | openChannel (channelId : B256) (partyA : String) (partyAPassport : U128)
      (partyB : String) (partyBPassport : U128) (depositA depositB : U128)
  | updateChannel (proof : BalanceProof)
  | requestClose (channelId : B256)
  | finalizeClose (channelId : B256)
  deriving DecidableEq, Repr

namespace X402Manager

variable (manager : X402Manager)

/-- `X402Manager::new(config)`. -/
def new (config : X402Config) : X402Manager := { config }

def setTime (block timestamp : UInt64) : X402Manager :=
  { manager with currentBlock := block, currentTimestamp := timestamp }

def setChannel (channelId : B256) (channel : StateChannel) : X402Manager :=
  { manager with channels := manager.channels.insert channelId channel }

def openChannel (channelId : B256) (partyA : String) (partyAPassport : U128)
    (partyB : String) (partyBPassport : U128) (depositA depositB : U128) :
    Except X402Error X402Manager :=
  if depositA < manager.config.minChannelDeposit then
    .error (.insufficientDeposit depositA manager.config.minChannelDeposit)
  else
    .ok (manager.setChannel channelId
      { channelId
        partyA
        partyAPassport
        partyB
        partyBPassport
        depositA
        depositB
        nonce := 0
        balanceA := depositA
        balanceB := depositB
        state := .opened
        challengeWindow := manager.config.challengeWindowBlocks
        openedAtBlock := manager.currentBlock })

def updateChannel (proof : BalanceProof) : Except X402Error X402Manager :=
  match manager.channels[proof.channelId]? with
  | none => .error .channelNotFound
  | some channel =>
      if channel.state ≠ .opened then .error .channelNotOpen
      else if proof.nonce ≤ channel.nonce then
        .error (.invalidNonce channel.nonce proof.nonce)
      else
        let totalDeposit := channel.depositA + channel.depositB
        let totalBalance := proof.balanceA + proof.balanceB
        if totalBalance ≠ totalDeposit then
          .error (.balanceMismatch totalDeposit totalBalance)
        else
          .ok (manager.setChannel proof.channelId
            { channel with
              nonce := proof.nonce
              balanceA := proof.balanceA
              balanceB := proof.balanceB })

/-- The deadline of the challenge period, and the manager afterwards. -/
def requestClose (channelId : B256) : Except X402Error (UInt64 × X402Manager) :=
  match manager.channels[channelId]? with
  | none => .error .channelNotFound
  | some channel =>
      if channel.state ≠ .opened then .error .channelNotOpen
      else
        .ok (manager.currentBlock + channel.challengeWindow,
          manager.setChannel channelId
            { channel with state := .closing manager.currentBlock })

def finalizeClose (channelId : B256) :
    Except X402Error (ChannelSettlement × X402Manager) :=
  match manager.channels[channelId]? with
  | none => .error .channelNotFound
  | some channel =>
      match channel.state with
      | .closing closeRequestedAt =>
          let deadline := closeRequestedAt + channel.challengeWindow
          if manager.currentBlock < deadline then
            .error (.challengePeriodActive (deadline - manager.currentBlock))
          else
            .ok (⟨channelId, channel.balanceA, channel.balanceB, channel.nonce⟩,
              manager.setChannel channelId { channel with state := .closed })
      | _ => .error (.invalidState "not in Closing state")

def execute : ChannelCall → Except X402Error X402Manager
  | .setTime block timestamp => .ok (manager.setTime block timestamp)
  | .openChannel channelId partyA partyAPassport partyB partyBPassport depositA depositB =>
      manager.openChannel channelId partyA partyAPassport partyB partyBPassport depositA
        depositB
  | .updateChannel proof => manager.updateChannel proof
  | .requestClose channelId => (manager.requestClose channelId).map Prod.snd
  | .finalizeClose channelId => (manager.finalizeClose channelId).map Prod.snd

/-- A call that returns an error changes nothing. -/
def step (manager : X402Manager) (call : ChannelCall) : X402Manager :=
  match manager.execute call with
  | .ok after => after
  | .error _ => manager

/-- The checks of `update_channel`, with sums that wrap. -/
def Accepts (channel : StateChannel) (proof : BalanceProof) : Prop :=
  channel.state = .opened ∧ channel.nonce < proof.nonce ∧
    proof.balanceA + proof.balanceB = channel.depositA + channel.depositB

/-- What a call that does not return an error does. -/
inductive Effect (manager : X402Manager) : ChannelCall → X402Manager → Prop
  | setTime (block timestamp : UInt64) :
      Effect manager (.setTime block timestamp) (manager.setTime block timestamp)
  | openChannel {channelId : B256} {partyA partyB : String}
      {partyAPassport partyBPassport depositA depositB : U128}
      (enough : manager.config.minChannelDeposit ≤ depositA) :
      Effect manager (.openChannel channelId partyA partyAPassport partyB partyBPassport
          depositA depositB)
        (manager.setChannel channelId ⟨channelId, partyA, partyAPassport, partyB,
          partyBPassport, depositA, depositB, 0, depositA, depositB, .opened,
          manager.config.challengeWindowBlocks, manager.currentBlock⟩)
  | updateChannel {proof : BalanceProof} {channel : StateChannel}
      (found : manager.channels[proof.channelId]? = some channel)
      (accepted : Accepts channel proof) :
      Effect manager (.updateChannel proof)
        (manager.setChannel proof.channelId
          { channel with
            nonce := proof.nonce
            balanceA := proof.balanceA
            balanceB := proof.balanceB })
  | requestClose {channelId : B256} {channel : StateChannel}
      (found : manager.channels[channelId]? = some channel)
      (opened : channel.state = .opened) :
      Effect manager (.requestClose channelId)
        (manager.setChannel channelId
          { channel with state := .closing manager.currentBlock })
  | finalizeClose {channelId : B256} {channel : StateChannel} {closeRequestedAt : UInt64}
      (found : manager.channels[channelId]? = some channel)
      (closing : channel.state = .closing closeRequestedAt) :
      Effect manager (.finalizeClose channelId)
        (manager.setChannel channelId { channel with state := .closed })

variable {manager : X402Manager}

theorem updateChannel_ok_iff {proof : BalanceProof} {after : X402Manager} :
    manager.updateChannel proof = .ok after ↔
      ∃ channel, manager.channels[proof.channelId]? = some channel ∧
        Accepts channel proof ∧
        after = manager.setChannel proof.channelId
          { channel with
            nonce := proof.nonce
            balanceA := proof.balanceA
            balanceB := proof.balanceB } := by
  unfold updateChannel Accepts
  cases manager.channels[proof.channelId]? with
  | none => simp
  | some channel =>
      dsimp only
      split
      case isTrue notOpen => simp [notOpen]
      case isFalse isOpen =>
        split
        case isTrue old => simp [UInt64.not_lt.mpr old]
        case isFalse newer =>
          split
          case isTrue differs => simp [differs]
          case isFalse balanced =>
            simp only [ne_eq, not_not] at isOpen balanced
            simp [isOpen, balanced, UInt64.not_le.mp newer, eq_comm]

theorem finalizeClose_ok {channelId : B256} {result : ChannelSettlement × X402Manager}
    (finalized : manager.finalizeClose channelId = .ok result) :
    ∃ channel closeRequestedAt, manager.channels[channelId]? = some channel ∧
      channel.state = .closing closeRequestedAt ∧
      result = (⟨channelId, channel.balanceA, channel.balanceB, channel.nonce⟩,
        manager.setChannel channelId { channel with state := .closed }) := by
  unfold finalizeClose at finalized
  split at finalized
  case h_1 => cases finalized
  case h_2 channel found =>
    split at finalized
    case h_1 closeRequestedAt closing =>
      dsimp only at finalized
      split at finalized
      case isTrue => cases finalized
      case isFalse =>
        cases finalized
        exact ⟨channel, closeRequestedAt, found, closing, rfl⟩
    case h_2 => cases finalized

theorem effect_of_execute {call : ChannelCall} {after : X402Manager}
    (executed : manager.execute call = .ok after) : Effect manager call after := by
  cases call with
  | setTime block timestamp =>
      cases executed
      exact .setTime block timestamp
  | openChannel channelId partyA partyAPassport partyB partyBPassport depositA depositB =>
      unfold execute openChannel at executed
      dsimp only at executed
      split at executed
      case isTrue => cases executed
      case isFalse enough =>
        cases executed
        exact .openChannel (BitVec.not_lt.mp enough)
  | updateChannel proof =>
      obtain ⟨channel, found, accepted, rfl⟩ := updateChannel_ok_iff.mp executed
      exact .updateChannel found accepted
  | requestClose channelId =>
      unfold execute requestClose at executed
      dsimp only at executed
      split at executed
      case h_1 => cases executed
      case h_2 channel found =>
        split at executed
        case isTrue => cases executed
        case isFalse opened =>
          cases executed
          exact .requestClose found (not_not.mp opened)
  | finalizeClose channelId =>
      unfold execute at executed
      dsimp only at executed
      cases finalized : manager.finalizeClose channelId with
      | error error =>
          rw [finalized] at executed
          cases executed
      | ok result =>
          obtain ⟨channel, closeRequestedAt, found, closing, rfl⟩ :=
            finalizeClose_ok finalized
          rw [finalized] at executed
          cases executed
          exact .finalizeClose found closing

theorem step_cases (manager : X402Manager) (call : ChannelCall) :
    ((∃ error, manager.execute call = .error error) ∧ manager.step call = manager) ∨
      manager.execute call = .ok (manager.step call) ∧
        Effect manager call (manager.step call) := by
  unfold step
  cases executed : manager.execute call with
  | error error => exact Or.inl ⟨⟨error, rfl⟩, rfl⟩
  | ok after => exact Or.inr ⟨rfl, effect_of_execute executed⟩

theorem getElem?_setChannel (manager : X402Manager) (channelId other : B256)
    (channel : StateChannel) :
    (manager.setChannel channelId channel).channels[other]? =
      if channelId = other then some channel else manager.channels[other]? := by
  unfold setChannel
  rw [Std.ExtTreeMap.getElem?_insert]
  simp only [Std.compare_eq_iff_eq]

end X402Manager

end Roko
