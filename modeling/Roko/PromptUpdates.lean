import Roko.PassportTiers

/-!
# The delay of prompt updates

The system prompt hash of a passport is meant to change only through an update that
was scheduled a delay earlier and not replaced since.  An empty slot of pending
updates reads as an update to the zero hash that is due, so the zero hash alone can
take effect at once.
-/

namespace Roko

open Contracts

namespace Identity

open IdentityRegistry

variable {Ledger : Type} (chain : IdentityChain Ledger)

def promptHash (state : Identity Ledger) (passportId : Nat) : B256 :=
  (state.registry.passports passportId).systemPromptHash

def pending (state : Identity Ledger) (passportId : Nat) : PendingPromptUpdate :=
  state.registry.pendingPromptUpdates passportId

/-- A call schedules an update of a passport to a hash. -/
def Schedules (state : Identity Ledger) (call : Msg × IdentityCall Ledger)
    (passportId : Nat) (newHash : B256) : Prop :=
  promptUpdate? call.2 = some (passportId, newHash) ∧
    (state.pending passportId).newHash ≠ newHash ∧
    (state.step chain call).pending passportId =
      ⟨newHash, toUint64 (call.1.timestamp + promptUpdateDelay)⟩

/-- Among the earlier calls there is one that scheduled an update to a hash, at least
the delay before a time, and the update has been pending since. -/
def ScheduledBefore (start : Identity Ledger) (earlier : List (Msg × IdentityCall Ledger))
    (passportId : Nat) (newHash : B256) (time : Nat) : Prop :=
  ∃ first scheduled middle, earlier = first ++ scheduled :: middle ∧
    Schedules chain (first.foldl (step chain) start) scheduled passportId newHash ∧
    scheduled.1.timestamp + promptUpdateDelay ≤ time ∧
    ∀ state ∈ GuardedRun.states (step chain)
        ((first.foldl (step chain) start).step chain scheduled) middle,
      state.pending passportId =
        ⟨newHash, toUint64 (scheduled.1.timestamp + promptUpdateDelay)⟩

/-- Every change of the hash of a registered passport is made by an update that was
scheduled before. -/
def DelayKept (start : Identity Ledger) (calls : List (Msg × IdentityCall Ledger)) : Prop :=
  ∀ earlier call later passportId, calls = earlier ++ call :: later →
    let before := earlier.foldl (step chain) start
    let after := before.step chain call
    passportId < before.registry.nextPassportId →
    after.promptHash passportId ≠ before.promptHash passportId →
    promptUpdate? call.2 = some (passportId, after.promptHash passportId) ∧
      ScheduledBefore chain start earlier passportId (after.promptHash passportId)
        call.1.timestamp

/-- The time at which an update would be due fits the `uint64` that it is stored in. -/
def Timely (_ : Identity Ledger) (call : Msg × IdentityCall Ledger) : Prop :=
  call.1.timestamp + promptUpdateDelay < 2 ^ 64

/-- The owner of a passport with another hash does not ask for the zero hash while no
update is pending. -/
def NoImmediateZero (state : Identity Ledger) (call : Msg × IdentityCall Ledger) : Prop :=
  ∀ passportId, promptUpdate? call.2 = some (passportId, 0) →
    call.1.sender ≠ chain.this → call.1.sender ≠ 0 →
    state.registry.owners passportId = call.1.sender →
    state.promptHash passportId ≠ 0 → state.pending passportId ≠ noPending

variable {chain} {msg : Msg} {state after : Identity Ledger} {call : IdentityCall Ledger}

/-- What a call can do to the pending update of a passport. -/
theorem pending_effect (effect : Effect chain msg state call after) (passportId : Nat) :
    after.pending passportId = state.pending passportId ∨
      (∃ newHash, promptUpdate? call = some (passportId, newHash) ∧
        (state.pending passportId).newHash ≠ newHash ∧
        after.pending passportId =
          ⟨newHash, toUint64 (msg.timestamp + promptUpdateDelay)⟩) ∨
      after.pending passportId = noPending := by
  cases effect with
  | @schedule _ updated newHash update live owned other =>
      by_cases same : passportId = updated
      · subst passportId
        exact Or.inr (Or.inl ⟨newHash, update, other, Function.update_self _ _ _⟩)
      · exact Or.inl (Function.update_of_ne same _ _)
  | @finalize _ updated newHash update live owned pending ready =>
      by_cases same : passportId = updated
      · subst passportId
        exact Or.inr (Or.inr (Function.update_self _ _ _))
      · exact Or.inl (Function.update_of_ne same _ _)
  | setRegistrar => exact Or.inl rfl
  | registerPassport => exact Or.inl rfl
  | register => exact Or.inl rfl
  | revokePassport => exact Or.inl rfl
  | updatePassport => exact Or.inl rfl
  | stakeIntoDomain => exact Or.inl rfl
  | withdrawFromDomain => exact Or.inl rfl
  | setTier => exact Or.inl rfl
  | token => exact Or.inl rfl

/-- A write of a passport that keeps its hash keeps every hash. -/
theorem promptHash_of_update {updated : Nat} {passport : PassportData}
    (written : after.registry.passports =
      Function.update state.registry.passports updated passport)
    (kept : passport.systemPromptHash = state.promptHash updated) (passportId : Nat) :
    after.promptHash passportId = state.promptHash passportId := by
  rw [Identity.promptHash, written]
  by_cases same : passportId = updated
  · rw [same, Function.update_self, kept]
  · rw [Function.update_of_ne same, Identity.promptHash]

/-- A call changes the hash of a registered passport only by making the pending update. -/
theorem promptHash_effect (effect : Effect chain msg state call after) {passportId : Nat}
    (given : passportId < state.registry.nextPassportId)
    (changed : after.promptHash passportId ≠ state.promptHash passportId) :
    promptUpdate? call = some (passportId, after.promptHash passportId) ∧
      state.registry.owners passportId ≠ 0 ∧
      state.registry.owners passportId = msg.sender ∧
      (state.pending passportId).newHash = after.promptHash passportId ∧
      (state.pending passportId).executableAt ≤ msg.timestamp := by
  cases effect with
  | @finalize _ updated newHash update live owned pending ready =>
      by_cases same : passportId = updated
      · subst passportId
        have read : Identity.promptHash
            ⟨(state.registry.setPassport updated
              { state.registry.passports updated with
                systemPromptHash := newHash }).setPending updated noPending,
              state.tokens⟩ updated = newHash := by
          rw [Identity.promptHash]
          exact congrArg _ (Function.update_self _ _ _)
        rw [read]
        exact ⟨update, live, owned, pending, ready⟩
      · exact absurd (congrArg _ (Function.update_of_ne same _ _)) changed
  | registerPassport =>
      exact absurd (congrArg _ (Function.update_of_ne (by omega) _ _)) changed
  | register =>
      exact absurd (congrArg _ (Function.update_of_ne (by omega) _ _)) changed
  | updatePassport _ _ _ promptHash =>
      exact (changed (promptHash_of_update rfl promptHash passportId)).elim
  | stakeIntoDomain =>
      refine (changed (promptHash_of_update rfl ?_ passportId)).elim
      rfl
  | withdrawFromDomain =>
      refine (changed (promptHash_of_update rfl ?_ passportId)).elim
      rfl
  | setTier =>
      refine (changed (promptHash_of_update rfl ?_ passportId)).elim
      rfl
  | setRegistrar => exact absurd rfl changed
  | revokePassport => exact absurd rfl changed
  | schedule => exact absurd rfl changed
  | token => exact absurd rfl changed

/-- An update that is pending at the end of a run was scheduled in it. -/
theorem scheduled_of_pending (start : Identity Ledger)
    (earlier : List (Msg × IdentityCall Ledger)) {passportId : Nat}
    (empty : start.pending passportId = noPending)
    (waiting : (earlier.foldl (step chain) start).pending passportId ≠ noPending) :
    ∃ first scheduled middle newHash, earlier = first ++ scheduled :: middle ∧
      Schedules chain (first.foldl (step chain) start) scheduled passportId newHash ∧
      (∀ state ∈ GuardedRun.states (step chain)
          ((first.foldl (step chain) start).step chain scheduled) middle,
        state.pending passportId =
          ⟨newHash, toUint64 (scheduled.1.timestamp + promptUpdateDelay)⟩) ∧
      (earlier.foldl (step chain) start).pending passportId =
        ⟨newHash, toUint64 (scheduled.1.timestamp + promptUpdateDelay)⟩ := by
  rcases GuardedRun.last_change (step chain)
      (fun state => state.pending passportId) start earlier with
    always | ⟨first, scheduled, middle, split, before, since⟩
  · have initial := always start (GuardedRun.start_mem_states start earlier)
    exact absurd (initial.symm.trans empty) waiting
  · have now := since _ (GuardedRun.start_mem_states _ middle)
    rcases step_cases chain (first.foldl (step chain) start) scheduled with
      same | ⟨-, effect⟩
    · exact absurd ((congrArg (fun state => state.pending passportId) same).symm.trans now)
        before
    · rcases pending_effect effect passportId with
        kept | ⟨newHash, update, other, value⟩ | cleared
      · exact absurd (kept.symm.trans now) before
      · have final := now.symm.trans value
        refine ⟨first, scheduled, middle, newHash, split, ⟨update, other, value⟩, ?_, final⟩
        intro state member
        exact (since state member).trans final
      · exact absurd (now.symm.trans cleared) waiting

/-- The zero hash takes effect at once when nothing is pending. -/
theorem promptHash_step_of_zero {call : Msg × IdentityCall Ledger} {passportId : Nat}
    (update : promptUpdate? call.2 = some (passportId, 0))
    (outside : call.1.sender ≠ chain.this) (real : call.1.sender ≠ 0)
    (owned : state.registry.owners passportId = call.1.sender)
    (changes : state.promptHash passportId ≠ 0)
    (empty : state.pending passportId = noPending) :
    (state.step chain call).promptHash passportId = 0 := by
  have live : state.registry.owners passportId ≠ 0 := owned ▸ real
  have updated : (do
      state.registry.onlyPassportOwner call.1 passportId
      state.registry.scheduleOrFinalizePromptUpdate call.1.timestamp passportId 0) =
      .ok ((state.registry.setPassport passportId
        { state.registry.passports passportId with systemPromptHash := 0 }).setPending
          passportId noPending) := by
    have slot : state.registry.pendingPromptUpdates passportId = noPending := empty
    have due : ¬ (state.registry.pendingPromptUpdates passportId).newHash ≠ 0 := by
      rw [slot]
      exact not_not.mpr rfl
    simp only [scheduleOrFinalizePromptUpdate, bind_ok_iff, onlyPassportOwner_ok_iff,
      ensure_ok_iff, if_neg due, pure_ok_iff]
    refine ⟨(), ⟨live, owned⟩, (), changes, (), ?_, trivial⟩
    rw [slot]
    exact Nat.zero_le _
  have executed : state.execute chain call.1 call.2 =
      state.quiet (.ok ((state.registry.setPassport passportId
        { state.registry.passports passportId with systemPromptHash := 0 }).setPending
          passportId noPending)) := by
    obtain ⟨msg, call⟩ := call
    cases call <;> cases update <;> exact congrArg state.quiet updated
  have stepped : state.step chain call =
      { state with registry := ((state.registry.setPassport passportId
        { state.registry.passports passportId with systemPromptHash := 0 }).setPending
          passportId noPending) } := by
    rw [step, if_neg outside, executed]
    rfl
  have written : (Function.update state.registry.passports passportId
      { state.registry.passports passportId with systemPromptHash := 0 }
      passportId).systemPromptHash = 0 := by
    rw [Function.update_self]
  rw [stepped]
  exact written

/-- The delay is kept when no zero hash is asked for with nothing pending. -/
theorem delayKept_of_guarded {start : Identity Ledger}
    {calls : List (Msg × IdentityCall Ledger)}
    (empty : ∀ passportId, start.pending passportId = noPending)
    (timely : GuardedRun.Guarded (step chain) Timely start calls)
    (guarded : GuardedRun.Guarded (step chain) (NoImmediateZero chain) start calls) :
    DelayKept chain start calls := by
  intro earlier call later passportId split
  dsimp only
  intro given changed
  rcases step_cases chain (earlier.foldl (step chain) start) call with
    same | ⟨outside, effect⟩
  · exact absurd (congrArg (fun state => state.promptHash passportId) same) changed
  · obtain ⟨update, live, owned, asked, ready⟩ := promptHash_effect effect given changed
    refine ⟨update, ?_⟩
    have taken : (earlier.foldl (step chain) start, call) ∈
        GuardedRun.steps (step chain) start calls :=
      GuardedRun.mem_steps_iff.mpr ⟨earlier, later, split, rfl⟩
    have waiting :
        (earlier.foldl (step chain) start).pending passportId ≠ noPending := by
      intro none
      rw [none] at asked
      have zero := asked.symm
      rw [zero] at changed update
      exact guarded _ taken passportId update outside (owned ▸ live) owned
        (Ne.symm changed) none
    obtain ⟨first, scheduled, middle, newHash, cut, schedules, since, final⟩ :=
      scheduled_of_pending start earlier (empty passportId) waiting
    rw [final] at asked ready
    dsimp only at asked ready
    have fits : scheduled.1.timestamp + promptUpdateDelay < 2 ^ 64 := by
      refine timely (first.foldl (step chain) start, scheduled)
        (GuardedRun.mem_steps_iff.mpr ⟨first, middle ++ call :: later, ?_, rfl⟩)
      rw [split, cut, List.append_assoc, List.cons_append]
    rw [toUint64_of_lt fits] at ready
    rw [← asked]
    exact ⟨first, scheduled, middle, cut, schedules, ready, since⟩

/-- When the delay is kept, no zero hash is asked for with nothing pending. -/
theorem guarded_of_delayKept {start : Identity Ledger}
    {calls : List (Msg × IdentityCall Ledger)} (fresh : start.registry.Fresh)
    (timely : GuardedRun.Guarded (step chain) Timely start calls)
    (kept : DelayKept chain start calls) :
    GuardedRun.Guarded (step chain) (NoImmediateZero chain) start calls := by
  rintro ⟨before, call⟩ taken passportId update outside real owned changes empty
  have given : passportId < before.registry.nextPassportId := by
    have visited := GuardedRun.invariant_of_preserved (step chain)
      (fun state => state.registry.Fresh)
      (fun state call holds => fresh_step holds call) calls fresh
      before (GuardedRun.mem_states_of_mem_steps taken).1
    exact visited.lt_of_live (owned ▸ real)
  have zero := promptHash_step_of_zero update outside real owned changes empty
  obtain ⟨earlier, later, split, reached⟩ := GuardedRun.mem_steps_iff.mp taken
  dsimp only at reached split update owned changes
  subst before
  have changed : ((earlier.foldl (step chain) start).step chain call).promptHash
      passportId ≠ (earlier.foldl (step chain) start).promptHash passportId := by
    rw [zero]
    exact changes.symm
  obtain ⟨-, first, scheduled, middle, cut, -, -, since⟩ :=
    kept earlier call later passportId split given changed
  have waiting := since (earlier.foldl (step chain) start) (by
    rw [cut, List.foldl_append, List.foldl_cons]
    exact GuardedRun.foldl_mem_states _ middle)
  have fits : scheduled.1.timestamp + promptUpdateDelay < 2 ^ 64 := by
    refine timely (first.foldl (step chain) start, scheduled)
      (GuardedRun.mem_steps_iff.mpr ⟨first, middle ++ call :: later, ?_, rfl⟩)
    rw [split, cut, List.append_assoc, List.cons_append]
  rw [empty, toUint64_of_lt fits] at waiting
  have due := congrArg PendingPromptUpdate.executableAt waiting
  simp [noPending, promptUpdateDelay] at due

/-- In a history whose due times fit their type, every change of a prompt hash keeps the
delay exactly when the zero hash is never asked for with nothing pending. -/
theorem delay_kept_iff (chain : IdentityChain Ledger)
    (initialAdmin stakeToken sender : Address) (ledger : Ledger)
    (calls : List (Msg × IdentityCall Ledger))
    (timely : GuardedRun.Guarded (step chain) Timely
      (deployed initialAdmin stakeToken sender ledger) calls) :
    DelayKept chain (deployed initialAdmin stakeToken sender ledger) calls ↔
      GuardedRun.Guarded (step chain) (NoImmediateZero chain)
        (deployed initialAdmin stakeToken sender ledger) calls := by
  constructor
  · exact guarded_of_delayKept (fun _ _ => ⟨rfl, rfl⟩) timely
  · exact delayKept_of_guarded (fun _ => rfl) timely

/-- A registration, an update and its finalization a day later. -/
theorem delay_kept_scheduled :
    let calls : List (Msg × IdentityCall PlainLedger) :=
      [(⟨3, 10, 0⟩, .registerPassport 3 0 7 0 0),
        (⟨3, 20, 0⟩, .updatePromptHash 1 8),
        (⟨3, 86_420, 0⟩, .updateSystemPromptHash 1 8)]
    DelayKept exampleChain exampleStart calls := by
  intro calls
  refine (delay_kept_iff exampleChain 1 2 1 _ calls ?_).mpr ?_
  · intro pair member
    simp only [calls, GuardedRun.steps, List.mem_cons, List.not_mem_nil, or_false] at member
    rcases member with rfl | rfl | rfl <;> simp [Timely, promptUpdateDelay]
  · intro pair member
    simp only [calls, GuardedRun.steps, List.mem_cons, List.not_mem_nil, or_false] at member
    rcases member with rfl | rfl | rfl <;> intro passportId update <;> cases update

/-- The owner of a passport sets its hash to zero right after registering it. -/
theorem zero_hash_immediate :
    let registered := exampleStart.step exampleChain
      (⟨3, 10, 0⟩, .registerPassport 3 0 7 0 0)
    let updated := registered.step exampleChain (⟨3, 10, 0⟩, .updatePromptHash 1 0)
    registered.promptHash 1 = 7 ∧ registered.pending 1 = noPending ∧
      updated.promptHash 1 = 0 := by
  decide

end Identity

end Roko
