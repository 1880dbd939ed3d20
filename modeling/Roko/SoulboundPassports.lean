import Roko.IdentityEffects
import Roko.PairedMaps
import Mathlib.Data.Set.Finite.Basic

/-!
# Who owns a passport

The passports of an identity registry are soulbound: the calls of ERC-721 that move a
token or approve its move revert.  Over every history an address owns at most one
passport, and a passport belongs to nobody after its one owner.
-/

namespace Roko

open Contracts

namespace IdentityRegistry

variable (registry : IdentityRegistry)

def balanceOf (owner : Address) : Except Revert Nat := do
  ensure (owner ≠ 0) .nonexistentPassport
  pure (registry.balances owner)

def approve (_spender : Address) (_passportId : Nat) : Except Revert IdentityRegistry :=
  .error .soulbound

def setApprovalForAll (_operator : Address) (_approved : Bool) :
    Except Revert IdentityRegistry :=
  .error .soulbound

def transferFrom (_sender _receiver : Address) (_passportId : Nat) :
    Except Revert IdentityRegistry :=
  .error .soulbound

def safeTransferFrom (_sender _receiver : Address) (_passportId : Nat) :
    Except Revert IdentityRegistry :=
  .error .soulbound

/-- The overload of `safeTransferFrom` with data. -/
def safeTransferFromWith (_sender _receiver : Address) (_passportId : Nat) (_data : Bytes) :
    Except Revert IdentityRegistry :=
  .error .soulbound

end IdentityRegistry

/-- The calls of a registry, with those of ERC-721. -/
inductive PassportCall (Ledger : Type)
  | identity (call : IdentityCall Ledger)
  | approve (spender : Address) (passportId : U256)
  | setApprovalForAll (operator : Address) (approved : Bool)
  | transferFrom (sender receiver : Address) (passportId : U256)
  | safeTransferFrom (sender receiver : Address) (passportId : U256)
  | safeTransferFromWith (sender receiver : Address) (passportId : U256) (data : Bytes)

namespace Identity

variable {Ledger : Type} (chain : IdentityChain Ledger)

def executePassport (state : Identity Ledger) (msg : Msg) :
    PassportCall Ledger → Except Revert (Identity Ledger)
  | .identity call => state.execute chain msg call
  | .approve spender passportId =>
      state.quiet (IdentityRegistry.approve spender passportId.toNat)
  | .setApprovalForAll operator approved =>
      state.quiet (IdentityRegistry.setApprovalForAll operator approved)
  | .transferFrom sender receiver passportId =>
      state.quiet (IdentityRegistry.transferFrom sender receiver passportId.toNat)
  | .safeTransferFrom sender receiver passportId =>
      state.quiet (IdentityRegistry.safeTransferFrom sender receiver passportId.toNat)
  | .safeTransferFromWith sender receiver passportId data =>
      state.quiet
        (IdentityRegistry.safeTransferFromWith sender receiver passportId.toNat data)

/-- A call by any account. -/
def passportStep (state : Identity Ledger) (call : Msg × PassportCall Ledger) :
    Identity Ledger :=
  settle state (state.executePassport chain call.1 call.2)

end Identity

namespace IdentityRegistry

variable {registry after : IdentityRegistry}

/-- The passports and their owners determine each other, and every owner has one. -/
structure Soulbound (registry : IdentityRegistry) : Prop where
  inverse : ∀ passportId owner,
    registry.owners passportId = owner ∧ owner ≠ 0 ↔
      registry.ownerToPassportId owner = passportId ∧ passportId ≠ 0
  finitePassports : {passportId | registry.owners passportId ≠ 0}.Finite
  finiteOwners : {owner | registry.ownerToPassportId owner ≠ 0}.Finite
  balance : ∀ owner, owner ≠ 0 →
    registry.balanceOf owner = .ok (if registry.ownerToPassportId owner = 0 then 0 else 1)
  noBalance : registry.balanceOf 0 = .error .nonexistentPassport

/-- What the calls keep. -/
structure Owned (registry : IdentityRegistry) : Prop where
  inverse : ∀ passportId owner,
    registry.owners passportId = owner ∧ owner ≠ 0 ↔
      registry.ownerToPassportId owner = passportId ∧ passportId ≠ 0
  unused : ∀ passportId, registry.nextPassportId ≤ passportId →
    registry.owners passportId = 0
  started : registry.nextPassportId ≠ 0
  balance : ∀ owner, owner ≠ 0 →
    registry.balances owner = if registry.ownerToPassportId owner = 0 then 0 else 1

/-- A call leaves the owners alone, or it gives the next passport to a new owner, or it
takes a passport from its owner. -/
inductive OwnersStep (registry after : IdentityRegistry) : Prop
  | kept (owners : after.owners = registry.owners)
      (ids : after.ownerToPassportId = registry.ownerToPassportId)
      (balances : after.balances = registry.balances)
      (next : after.nextPassportId = registry.nextPassportId)
  | minted (owner : Address) (passport : PassportData) (real : owner ≠ 0)
      (new : registry.ownerToPassportId owner = 0)
      (same : after = registry.minted owner passport)
  | revoked (passportId : Nat) (live : registry.owners passportId ≠ 0)
      (same : after = registry.revoked passportId)

theorem Owned.minted (owned : registry.Owned) {owner : Address} (real : owner ≠ 0)
    (new : registry.ownerToPassportId owner = 0) (passport : PassportData) :
    (registry.minted owner passport).Owned := by
  have fresh := owned.unused registry.nextPassportId le_rfl
  have linked := PairedMaps.Inverse.link owned.inverse fresh new owned.started real
  refine ⟨linked, fun passportId unused => ?_, Nat.succ_ne_zero _, fun other otherReal => ?_⟩
  · dsimp only [IdentityRegistry.minted] at unused ⊢
    rw [Function.update_of_ne (by omega)]
    exact owned.unused passportId (by omega)
  · change Function.update registry.balances owner _ other =
      if Function.update registry.ownerToPassportId owner registry.nextPassportId other = 0
      then 0 else 1
    by_cases isOwner : other = owner
    · subst isOwner
      have none := owned.balance other real
      rw [if_pos new] at none
      rw [Function.update_self, Function.update_self, if_neg owned.started, none]
    · rw [Function.update_of_ne isOwner, Function.update_of_ne isOwner]
      exact owned.balance other otherReal

theorem Owned.revoked (owned : registry.Owned) {passportId : Nat}
    (live : registry.owners passportId ≠ 0) : (registry.revoked passportId).Owned := by
  obtain ⟨held, some⟩ := (owned.inverse passportId _).mp ⟨rfl, live⟩
  have unlinked := PairedMaps.Inverse.unlink owned.inverse live
  refine ⟨unlinked, fun other unused => ?_, owned.started, fun owner real => ?_⟩
  · dsimp only [IdentityRegistry.revoked]
    rw [Function.update_apply]
    split
    · rfl
    · exact owned.unused other unused
  · change Function.update registry.balances (registry.owners passportId) _ owner =
      if Function.update registry.ownerToPassportId (registry.owners passportId) 0 owner = 0
      then 0 else 1
    by_cases isOwner : owner = registry.owners passportId
    · subst isOwner
      have one := owned.balance _ real
      rw [held, if_neg some] at one
      rw [Function.update_self, Function.update_self, one, if_pos rfl]
    · rw [Function.update_of_ne isOwner, Function.update_of_ne isOwner]
      exact owned.balance owner real

theorem Owned.step (owned : registry.Owned) (step : OwnersStep registry after) :
    after.Owned := by
  cases step with
  | kept owners ids balances next =>
      obtain ⟨inverse, unused, started, balance⟩ := owned
      exact ⟨by rwa [owners, ids], by rwa [owners, next], by rwa [next],
        by rwa [balances, ids]⟩
  | minted owner passport real new same =>
      rw [same]
      exact owned.minted real new passport
  | revoked passportId live same =>
      rw [same]
      exact owned.revoked live

theorem Owned.soulbound (owned : registry.Owned) : registry.Soulbound := by
  have finitePassports : {passportId | registry.owners passportId ≠ 0}.Finite := by
    refine (Set.finite_lt_nat registry.nextPassportId).subset fun passportId live => ?_
    by_contra unused
    exact live (owned.unused passportId (Nat.not_lt.mp unused))
  refine ⟨owned.inverse, finitePassports, ?_, fun owner real => ?_, rfl⟩
  · refine (finitePassports.image registry.owners).subset fun owner entered => ?_
    obtain ⟨isOwner, real⟩ := (owned.inverse _ owner).mpr ⟨rfl, entered⟩
    refine ⟨registry.ownerToPassportId owner, ?_, isOwner⟩
    exact fun none => real (isOwner.symm.trans none)
  · rw [balanceOf, bind_ok_iff]
    refine ⟨(), ensure_ok_iff.mpr real, ?_⟩
    rw [owned.balance owner real]
    rfl

/-- Every passport keeps its owner or loses it, and one without an owner that was given
out before never has an owner again. -/
structure Follows (before after : IdentityRegistry) : Prop where
  owners : ∀ passportId, before.owners passportId ≠ 0 →
    after.owners passportId = before.owners passportId ∨ after.owners passportId = 0
  retired : ∀ passportId, passportId < before.nextPassportId →
    before.owners passportId = 0 → after.owners passportId = 0
  next : before.nextPassportId ≤ after.nextPassportId

theorem Follows.refl (registry : IdentityRegistry) : Follows registry registry :=
  ⟨fun _ _ => Or.inl rfl, fun _ _ none => none, le_rfl⟩

theorem Follows.trans {middle : IdentityRegistry} (owned : registry.Owned)
    (first : Follows registry middle) (second : Follows middle after) :
    Follows registry after := by
  have given : ∀ passportId, registry.owners passportId ≠ 0 →
      passportId < middle.nextPassportId := by
    intro passportId live
    by_contra unused
    exact live (owned.unused passportId (first.next.trans (Nat.not_lt.mp unused)))
  refine ⟨fun passportId live => ?_, fun passportId used none => ?_,
    first.next.trans second.next⟩
  · rcases first.owners passportId live with same | lost
    · rw [← same] at live ⊢
      exact second.owners passportId live
    · exact Or.inr (second.retired passportId (given passportId live) lost)
  · exact second.retired passportId (used.trans_le first.next)
      (first.retired passportId used none)

theorem OwnersStep.follows (owned : registry.Owned) (step : OwnersStep registry after) :
    Follows registry after := by
  cases step with
  | kept owners ids balances next =>
      exact ⟨fun _ _ => Or.inl (by rw [owners]), fun _ _ none => by rwa [owners], next.ge⟩
  | minted owner passport real new same =>
      subst same
      have others : ∀ passportId, passportId ≠ registry.nextPassportId →
          (registry.minted owner passport).owners passportId = registry.owners passportId :=
        fun passportId apart => Function.update_of_ne apart _ _
      refine ⟨fun passportId live => ?_, fun passportId used none => ?_, Nat.le_succ _⟩
      · refine Or.inl (others passportId ?_)
        rintro rfl
        exact live (owned.unused _ le_rfl)
      · rw [others passportId used.ne]
        exact none
  | revoked passportId live same =>
      subst same
      have lost : ∀ other, (registry.revoked passportId).owners other =
          if other = passportId then 0 else registry.owners other :=
        fun other => Function.update_apply _ _ _ _
      refine ⟨fun other _ => ?_, fun other _ none => ?_, le_rfl⟩
      · rw [lost]
        split
        · exact Or.inr rfl
        · exact Or.inl rfl
      · rw [lost]
        split
        · rfl
        · exact none

end IdentityRegistry

namespace Identity

open IdentityRegistry

variable {Ledger : Type} {chain : IdentityChain Ledger} {state after : Identity Ledger}

theorem ownersStep_of_effect {msg : Msg} {call : IdentityCall Ledger}
    (effect : Effect chain msg state call after) :
    OwnersStep state.registry after.registry := by
  cases effect with
  | registerPassport real new edge => exact .minted _ _ real new rfl
  | register real new requested => exact .minted _ _ real new rfl
  | revokePassport live => exact .revoked _ live rfl
  | setRegistrar => exact .kept rfl rfl rfl rfl
  | updatePassport => exact .kept rfl rfl rfl rfl
  | schedule => exact .kept rfl rfl rfl rfl
  | finalize => exact .kept rfl rfl rfl rfl
  | stakeIntoDomain => exact .kept rfl rfl rfl rfl
  | withdrawFromDomain => exact .kept rfl rfl rfl rfl
  | setTier => exact .kept rfl rfl rfl rfl
  | token => exact .kept rfl rfl rfl rfl

theorem ownersStep_passportStep (chain : IdentityChain Ledger) (state : Identity Ledger)
    (call : Msg × PassportCall Ledger) :
    OwnersStep state.registry (state.passportStep chain call).registry := by
  have same : OwnersStep state.registry state.registry := .kept rfl rfl rfl rfl
  obtain ⟨msg, call⟩ := call
  cases call with
  | identity call =>
      change OwnersStep state.registry (settle state (state.execute chain msg call)).registry
      cases executed : state.execute chain msg call with
      | error revert => exact same
      | ok after => exact ownersStep_of_effect (effect_of_execute executed)
  -- the calls of ERC-721 revert
  | approve => exact same
  | setApprovalForAll => exact same
  | transferFrom => exact same
  | safeTransferFrom => exact same
  | safeTransferFromWith => exact same

/-- A new registry after a sequence of calls. -/
def passportRun (chain : IdentityChain Ledger) (initialAdmin stakeToken sender : Address)
    (ledger : Ledger) (calls : List (Msg × PassportCall Ledger)) : Identity Ledger :=
  calls.foldl (passportStep chain)
    ⟨.deployed initialAdmin stakeToken sender, ⟨ledger, []⟩⟩

theorem owned_deployed (initialAdmin stakeToken sender : Address) :
    (IdentityRegistry.deployed initialAdmin stakeToken sender).Owned := by
  refine ⟨fun passportId owner => iff_of_false ?_ ?_, fun _ _ => rfl, Nat.one_ne_zero,
    fun _ _ => rfl⟩
  · rintro ⟨rfl, real⟩
    exact real rfl
  · rintro ⟨rfl, given⟩
    exact given rfl

theorem owned_foldl (chain : IdentityChain Ledger) (state : Identity Ledger)
    (owned : state.registry.Owned) (calls : List (Msg × PassportCall Ledger)) :
    (calls.foldl (passportStep chain) state).registry.Owned ∧
      Follows state.registry (calls.foldl (passportStep chain) state).registry := by
  induction calls generalizing state with
  | nil => exact ⟨owned, .refl _⟩
  | cons call calls ih =>
      have step := ownersStep_passportStep chain state call
      obtain ⟨ownedLater, followsLater⟩ := ih _ (owned.step step)
      exact ⟨ownedLater, (step.follows owned).trans owned followsLater⟩

/-- After every sequence of calls the passports and their owners determine each other,
and the balances count them.  In a longer sequence no passport goes from one owner to
another, and none that lost its owner has one again. -/
theorem passports_soulbound (chain : IdentityChain Ledger)
    (initialAdmin stakeToken sender : Address) (ledger : Ledger)
    (calls later last : List (Msg × PassportCall Ledger)) :
    let owners := fun calls =>
      (passportRun chain initialAdmin stakeToken sender ledger calls).registry.owners
    (passportRun chain initialAdmin stakeToken sender ledger calls).registry.Soulbound ∧
      ∀ passportId, owners calls passportId ≠ 0 →
        (owners (calls ++ later) passportId ≠ 0 →
          owners (calls ++ later) passportId = owners calls passportId) ∧
        (owners (calls ++ later) passportId = 0 →
          owners (calls ++ later ++ last) passportId = 0) := by
  have start := owned_deployed initialAdmin stakeToken sender
  obtain ⟨owned, -⟩ := owned_foldl chain ⟨_, ⟨ledger, []⟩⟩ start calls
  obtain ⟨ownedLater, follows⟩ := owned_foldl chain _ owned later
  obtain ⟨-, followsLater⟩ := owned_foldl chain _ ownedLater last
  unfold passportRun
  simp only [List.foldl_append]
  refine ⟨owned.soulbound, fun passportId live => ⟨fun liveLater => ?_, fun lost => ?_⟩⟩
  · rcases follows.owners passportId live with same | lost
    · exact same
    · exact absurd lost liveLater
  · refine followsLater.retired passportId ?_ lost
    by_contra unused
    exact live (owned.unused passportId (follows.next.trans (Nat.not_lt.mp unused)))

/-- The zero address has no balance, not even zero. -/
theorem balanceOf_zero_reverts :
    ¬ ∀ (calls : List (Msg × PassportCall PlainLedger)) (owner : Address),
      let registry :=
        (passportRun ⟨PlainLedger.erc20, fun _ => 0, 1⟩ 2 3 4
          ⟨fun _ _ => 0, fun _ _ _ => 0⟩ calls).registry
      registry.balanceOf owner =
        .ok (if registry.ownerToPassportId owner = 0 then 0 else 1) := by
  intro always
  cases always [] 0

end Identity

end Roko
