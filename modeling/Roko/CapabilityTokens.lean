import Mathlib.Data.Finset.Insert
import Roko.ByteEncoding
import Roko.ContentHash
import Roko.GuardedRuns

/-!
# Capability tokens

The model of `roko-orchestrator/src/safety/capability_tokens.rs`.  Verifying a token takes
two locks one after the other: first the revoked set is read, then the token goes into the
burned set.  Calls of several threads may be interleaved between these steps.  Fresh ids
and the clock are arguments.
-/

namespace Roko

/-- The sixteen bytes of an id. -/
abbrev Uuid := Vector UInt8 16

/-- The marker types of the source. -/
inductive CapabilityKind
  | fileWrite
  | fileRead
  | networkEgress
  | subprocessSpawn
  | gitMutate
  | signalEmit
deriving DecidableEq

def CapabilityKind.name : CapabilityKind → String
  | .fileWrite => "FileWrite"
  | .fileRead => "FileRead"
  | .networkEgress => "NetworkEgress"
  | .subprocessSpawn => "SubprocessSpawn"
  | .gitMutate => "GitMutate"
  | .signalEmit => "SignalEmit"

/-- `Capability<K>`, with the marker type as a field. -/
structure Capability where
  kind : CapabilityKind
  id : Uuid
  target : String
  issuedAtMs : Int64
  ttlMs : UInt64
  signature : Vector UInt8 32
deriving DecidableEq

/-- The subtraction of the source saturates. -/
def Capability.isExpired (cap : Capability) (nowMs : Int64) : Bool :=
  let elapsed := max (-2 ^ 63) (min (nowMs.toInt - cap.issuedAtMs.toInt) (2 ^ 63 - 1))
  if elapsed < 0 then false else cap.ttlMs.toNat < elapsed.toNat

/-- The receipt of a burned token. -/
structure BurnedCapability where
  id : Uuid
  kind : String
  target : String
  burnedAtMs : Int64
deriving DecidableEq

inductive CapabilityError
  | alreadyBurned (id : Uuid)
  | expired
  | badSignature
  | revoked (id : Uuid)
  | invalidTarget (target : String)
  | zeroTtl
deriving DecidableEq

/-- The four words that `keyed_mix` works on. -/
structure MixState where
  s0 : UInt64
  s1 : UInt64
  s2 : UInt64
  s3 : UInt64

def rotateLeft (word : UInt64) (count : UInt64) : UInt64 :=
  (word <<< count) ||| (word >>> (64 - count))

/-- One round of `permute`. -/
def MixState.round (state : MixState) : MixState :=
  let s0 := state.s0 + state.s1
  let s2 := state.s2 + state.s3
  let s1 := rotateLeft state.s1 13 ^^^ s0
  let s3 := rotateLeft state.s3 17 ^^^ s2
  let s0 := rotateLeft s0 31 + s3
  let s2 := rotateLeft s2 7 + s1
  ⟨s0, rotateLeft s1 25 ^^^ s2, s2, rotateLeft s3 11 ^^^ s0⟩

def MixState.permute (state : MixState) : MixState :=
  (List.range 12).foldl (fun state _ => state.round) state

/-- `u64::from_le_bytes`. -/
def fromLeBytes (bytes : List UInt8) : UInt64 :=
  bytes.foldr (fun byte word => word * 256 + byte.toUInt64) 0

/-- `u64::to_le_bytes`. -/
def toLeBytes (word : UInt64) : Vector UInt8 8 :=
  Vector.ofFn fun index => (word >>> (8 * UInt64.ofNat index)).toUInt8

/-- The whole blocks of the message, eight bytes at a time. -/
def MixState.absorb (state : MixState) (bytes : List UInt8) : MixState :=
  (List.range (bytes.length / 8)).foldl
    (fun state index =>
      let block := (bytes.drop (8 * index)).take 8
      { state with s0 := state.s0 ^^^ fromLeBytes block }.permute)
    state

def keyedMix (key : Vector UInt8 32) (bytes : List UInt8) : Vector UInt8 32 :=
  let word := fun index => fromLeBytes ((key.toList.drop (8 * index)).take 8)
  let state := MixState.absorb ⟨word 0, word 1, word 2, word 3⟩ bytes
  let rem := bytes.drop (8 * (bytes.length / 8))
  let tail := rem ++ List.replicate (7 - rem.length) 0 ++
    [UInt8.ofNat rem.length ||| 0x80]
  let state := { state with s1 := state.s1 ^^^ fromLeBytes tail }.permute.permute
  toLeBytes state.s0 ++ toLeBytes state.s1 ++ toLeBytes state.s2 ++ toLeBytes state.s3

def signCapability (secret : Vector UInt8 32) (kind : CapabilityKind) (id : Uuid)
    (target : String) (issuedAtMs : Int64) (ttlMs : UInt64) : Vector UInt8 32 :=
  let msg := id.toList ++ (toLeBytes issuedAtMs.toUInt64).toList ++
    (toLeBytes ttlMs).toList ++
    ByteEncoding.lengthPrefixed (textBytes kind.name) ++
    ByteEncoding.lengthPrefixed (textBytes target)
  let inner := keyedMix (secret.map (· ^^^ 0x36)) msg
  keyedMix (secret.map (· ^^^ 0x5c)) inner.toList

def constantTimeEq (a b : Vector UInt8 32) : Bool :=
  (a.toList.zip b.toList).foldl (fun diff pair => diff ||| (pair.1 ^^^ pair.2)) 0 == 0

structure CapabilityIssuer where
  secret : Vector UInt8 32
  burned : Finset Uuid
  revoked : Finset Uuid

namespace CapabilityIssuer

def new (secret : Vector UInt8 32) : CapabilityIssuer :=
  ⟨secret, ∅, ∅⟩

/-- `issue`, with the id that `Uuid::new_v4` gives; the time to live is in nanoseconds. -/
def issue (issuer : CapabilityIssuer) (kind : CapabilityKind) (target : String)
    (ttl : Nat) (id : Uuid) (nowMs : Int64) : Except CapabilityError Capability :=
  if ttl = 0 then .error .zeroTtl
  else if (textBytes target).any fun byte => byte == 0 || byte == 10 then
    .error (.invalidTarget target)
  else
    let ttlMs := UInt64.ofNat (min (ttl / 1000000) (2 ^ 64 - 1))
    .ok ⟨kind, id, target, nowMs, ttlMs,
      signCapability issuer.secret kind id target nowMs ttlMs⟩

/-- The part of `verify_and_burn` before the first lock. -/
def checkToken (issuer : CapabilityIssuer) (cap : Capability) (nowMs : Int64) :
    Except CapabilityError Unit :=
  let expected := signCapability issuer.secret cap.kind cap.id cap.target
    cap.issuedAtMs cap.ttlMs
  if !constantTimeEq expected cap.signature then .error .badSignature
  else if cap.isExpired nowMs then .error .expired
  else .ok ()

/-- The part under the lock of the revoked set. -/
def checkRevoked (issuer : CapabilityIssuer) (cap : Capability) :
    Except CapabilityError Unit :=
  if cap.id ∈ issuer.revoked then .error (.revoked cap.id) else .ok ()

/-- The part under the lock of the burned set. -/
def burn (issuer : CapabilityIssuer) (cap : Capability) (nowMs : Int64) :
    CapabilityIssuer × Except CapabilityError BurnedCapability :=
  if cap.id ∈ issuer.burned then (issuer, .error (.alreadyBurned cap.id))
  else
    ({ issuer with burned := insert cap.id issuer.burned },
      .ok ⟨cap.id, cap.kind.name, cap.target, nowMs⟩)

def revoke (issuer : CapabilityIssuer) (id : Uuid) : CapabilityIssuer × Bool :=
  ({ issuer with revoked := insert id issuer.revoked }, id ∉ issuer.revoked)

end CapabilityIssuer

/-- Where a call of `verify_and_burn` is between its steps. -/
inductive VerifyPhase
  | signed (cap : Capability) (nowMs : Int64)
  | unrevoked (cap : Capability) (nowMs : Int64)

/-- What the callers see.  Calls of `verify_and_burn` are numbered as they start. -/
inductive TokenEvent
  | issued (result : Except CapabilityError Capability)
  | revoked (id : Uuid) (newly : Bool)
  | started (call : Nat) (cap : Capability)
  | returned (call : Nat) (cap : Capability)
      (result : Except CapabilityError BurnedCapability)
deriving DecidableEq

/-- An issuer, the calls under way, how many have started, and what was seen.  Any number
of calls may be under way; that a thread makes one call at a time only rules out some of
the orders. -/
structure TokenHolders where
  issuer : CapabilityIssuer
  calls : Nat → Option VerifyPhase := fun _ => none
  started : Nat := 0
  events : List TokenEvent := []

inductive TokenStep
  | issue (kind : CapabilityKind) (target : String) (ttl : Nat) (id : Uuid)
      (nowMs : Int64)
  | revoke (id : Uuid)
  | verify (cap : Capability) (nowMs : Int64)
  | checkRevoked (call : Nat)
  | burn (call : Nat)

namespace TokenHolders

variable (holders : TokenHolders)

/-- A call returns. -/
def finish (call : Nat) (cap : Capability)
    (result : Except CapabilityError BurnedCapability) : TokenHolders :=
  { holders with
    calls := Function.update holders.calls call none
    events := holders.events ++ [.returned call cap result] }

/-- A call goes on to its next lock. -/
def advance (call : Nat) (phase : VerifyPhase) : TokenHolders :=
  { holders with calls := Function.update holders.calls call (some phase) }

/-- A call of `verify_and_burn` begins. -/
def begin (cap : Capability) : TokenHolders :=
  { holders with
    started := holders.started + 1
    events := holders.events ++ [.started holders.started cap] }

/-- A call of `verify_and_burn` starts and goes up to the first lock. -/
def verify (cap : Capability) (nowMs : Int64) : TokenHolders :=
  match holders.issuer.checkToken cap nowMs with
  | .error failure => (holders.begin cap).finish holders.started cap (.error failure)
  | .ok () => (holders.begin cap).advance holders.started (.signed cap nowMs)

/-- A call takes the lock of the revoked set. -/
def checkRevoked (call : Nat) : TokenHolders :=
  match holders.calls call with
  | some (.signed cap nowMs) =>
      match holders.issuer.checkRevoked cap with
      | .error failure => holders.finish call cap (.error failure)
      | .ok () => holders.advance call (.unrevoked cap nowMs)
  | _ => holders

/-- A call takes the lock of the burned set. -/
def burn (call : Nat) : TokenHolders :=
  match holders.calls call with
  | some (.unrevoked cap nowMs) =>
      { holders with issuer := (holders.issuer.burn cap nowMs).1 }.finish call cap
        (holders.issuer.burn cap nowMs).2
  | _ => holders

/-- The next step of a call; a call that is not at the lock in question does not move. -/
def step : TokenStep → TokenHolders
  | .issue kind target ttl id nowMs =>
      { holders with
        events := holders.events ++
          [.issued (holders.issuer.issue kind target ttl id nowMs)] }
  | .revoke id =>
      { holders with
        issuer := (holders.issuer.revoke id).1
        events := holders.events ++ [.revoked id (holders.issuer.revoke id).2] }
  | .verify cap nowMs => holders.verify cap nowMs
  | .checkRevoked call => holders.checkRevoked call
  | .burn call => holders.burn call

/-- The call that a step belongs to. -/
def callOf : TokenStep → Option Nat
  | .issue _ _ _ _ _ | .revoke _ => none
  | .verify _ _ => some holders.started
  | .checkRevoked call | .burn call => some call

end TokenHolders

/-- What holds of everything that the callers see, in the order in which they see it. -/
structure TokenLaw (events : List TokenEvent) : Prop where
  /-- No two calls succeed for one id. -/
  once : ∀ first second cap other receipt otherReceipt, cap.id = other.id →
    ¬ [TokenEvent.returned first cap (.ok receipt),
        .returned second other (.ok otherReceipt)].Sublist events
  /-- No call succeeds that started after its id was revoked. -/
  revoked : ∀ newly call cap receipt,
    ¬ [TokenEvent.revoked cap.id newly, .started call cap,
        .returned call cap (.ok receipt)].Sublist events

/-- What ends with an element that is written last was there before, or ends at it. -/
theorem concat_sublist_concat {Entry : Type*} (front : List Entry)
    {entries : List Entry} {last entry : Entry}
    (within : (front ++ [last]).Sublist (entries ++ [entry])) :
    (front ++ [last]).Sublist entries ∨ (last = entry ∧ front.Sublist entries) := by
  obtain ⟨early, late, split, early_sub, late_sub⟩ := List.sublist_append_iff.mp within
  rcases List.sublist_singleton.mp late_sub with rfl | rfl
  · left
    rw [split, List.append_nil]
    exact early_sub
  · right
    obtain ⟨rfl, same⟩ := List.append_inj' split rfl
    exact ⟨List.singleton_inj.mp same, early_sub⟩

theorem mem_of_mem_concat {Entry : Type*} {entries : List Entry} {last entry : Entry}
    (member : entry ∈ entries ++ [last]) (other : last ≠ entry) : entry ∈ entries := by
  rcases List.mem_append.mp member with before | here
  · exact before
  · exact absurd (List.mem_singleton.mp here).symm other

theorem tokenLaw_nil : TokenLaw [] := by
  constructor
  · intro first second cap other receipt otherReceipt _ within
    exact List.cons_ne_nil _ _ (List.sublist_nil.mp within)
  · intro newly call cap receipt within
    exact List.cons_ne_nil _ _ (List.sublist_nil.mp within)

/-- The law is not affected by an event that is not the return of a call. -/
theorem TokenLaw.push {events : List TokenEvent} (law : TokenLaw events)
    {event : TokenEvent}
    (quiet : ∀ call cap receipt, event ≠ .returned call cap (.ok receipt)) :
    TokenLaw (events ++ [event]) where
  once := by
    intro first second cap other receipt otherReceipt same within
    rcases concat_sublist_concat [_] within with before | ⟨rfl, -⟩
    · exact law.once first second cap other receipt otherReceipt same before
    · exact quiet second other otherReceipt rfl
  revoked := by
    intro newly call cap receipt within
    rcases concat_sublist_concat [_, _] within with before | ⟨rfl, -⟩
    · exact law.revoked newly call cap receipt before
    · exact quiet call cap receipt rfl

namespace TokenHolders

variable {holders : TokenHolders}

/-- The calls and the sets of the issuer agree with what was seen. -/
structure Sound (holders : TokenHolders) : Prop where
  fresh : ∀ call, holders.started ≤ call → holders.calls call = none
  begun : ∀ call cap, .started call cap ∈ holders.events → call < holders.started
  done : ∀ call cap result, .returned call cap result ∈ holders.events →
    call < holders.started ∧ holders.calls call = none
  oneResult : ∀ call cap other result otherResult,
    .returned call cap result ∈ holders.events →
    .returned call other otherResult ∈ holders.events → result = otherResult
  burned : ∀ call cap receipt, .returned call cap (.ok receipt) ∈ holders.events →
    cap.id ∈ holders.issuer.burned
  revoked : ∀ id newly, .revoked id newly ∈ holders.events →
    id ∈ holders.issuer.revoked
  /-- A call that has passed the revoked set started before any revocation of its id. -/
  passed : ∀ call cap nowMs newly,
    holders.calls call = some (.unrevoked cap nowMs) →
    ¬ [TokenEvent.revoked cap.id newly, .started call cap].Sublist holders.events
  law : TokenLaw holders.events

/-- A call under way has started and not returned. -/
theorem Sound.running (sound : holders.Sound) {call : Nat} {phase : VerifyPhase}
    (found : holders.calls call = some phase) :
    call < holders.started ∧
      ∀ cap result, .returned call cap result ∉ holders.events := by
  constructor
  · by_contra late
    rw [sound.fresh call (by omega)] at found
    cases found
  · intro cap result returned
    rw [(sound.done call cap result returned).2] at found
    cases found

/-- A step that moves no call adds an event of its own and may add ids to the sets. -/
theorem Sound.note (sound : holders.Sound) (issuer : CapabilityIssuer)
    (burned : holders.issuer.burned ⊆ issuer.burned)
    (revoked : holders.issuer.revoked ⊆ issuer.revoked) {event : TokenEvent}
    (quiet : ∀ call cap, event ≠ .started call cap ∧
      ∀ result, event ≠ .returned call cap result)
    (recorded : ∀ id newly, event = .revoked id newly → id ∈ issuer.revoked) :
    Sound { holders with issuer, events := holders.events ++ [event] } where
  fresh := sound.fresh
  begun := by
    intro call cap member
    exact sound.begun call cap (mem_of_mem_concat member (quiet call cap).1)
  done := by
    intro call cap result member
    exact sound.done call cap result (mem_of_mem_concat member ((quiet call cap).2 result))
  oneResult := by
    intro call cap other result otherResult member otherMember
    have before := mem_of_mem_concat member ((quiet call cap).2 result)
    have otherBefore := mem_of_mem_concat otherMember ((quiet call other).2 otherResult)
    exact sound.oneResult call cap other result otherResult before otherBefore
  burned := by
    intro call cap receipt member
    have before := mem_of_mem_concat member ((quiet call cap).2 (.ok receipt))
    exact burned (sound.burned call cap receipt before)
  revoked := by
    intro id newly member
    rcases List.mem_append.mp member with before | here
    · exact revoked (sound.revoked id newly before)
    · exact recorded id newly (List.mem_singleton.mp here).symm
  passed := by
    intro call cap nowMs newly found within
    rcases concat_sublist_concat [_] within with before | ⟨same, -⟩
    · exact sound.passed call cap nowMs newly found before
    · exact (quiet call cap).1 same.symm
  law := sound.law.push fun call cap receipt => (quiet call cap).2 _

theorem Sound.begin (sound : holders.Sound) (cap : Capability) :
    (holders.begin cap).Sound where
  fresh := fun call later => sound.fresh call (Nat.le_of_succ_le later)
  begun := by
    intro call other member
    rcases List.mem_append.mp member with before | here
    · exact Nat.lt_succ_of_lt (sound.begun call other before)
    · cases List.mem_singleton.mp here
      exact Nat.lt_succ_self _
  done := by
    intro call other result member
    have before : .returned call other result ∈ holders.events :=
      mem_of_mem_concat member nofun
    obtain ⟨below, none⟩ := sound.done call other result before
    exact ⟨Nat.lt_succ_of_lt below, none⟩
  oneResult := by
    intro call first second result otherResult member otherMember
    apply sound.oneResult call first second result otherResult
    · exact mem_of_mem_concat member nofun
    · exact mem_of_mem_concat otherMember nofun
  burned := by
    intro call other receipt member
    exact sound.burned call other receipt (mem_of_mem_concat member nofun)
  revoked := by
    intro id newly member
    exact sound.revoked id newly (mem_of_mem_concat member nofun)
  passed := by
    intro call other nowMs newly found within
    rcases concat_sublist_concat [_] within with before | ⟨same, -⟩
    · exact sound.passed call other nowMs newly found before
    · -- The call that starts here is not under way yet.
      cases same
      have below := (sound.running found).1
      exact absurd below (lt_irrefl _)
  law := sound.law.push fun call other receipt => nofun

/-- A started call that has not returned goes on. -/
theorem Sound.advance (sound : holders.Sound) {call : Nat} {phase : VerifyPhase}
    (started : call < holders.started)
    (open' : ∀ cap result, .returned call cap result ∉ holders.events)
    (unrevoked : ∀ cap nowMs newly, phase = .unrevoked cap nowMs →
      ¬ [TokenEvent.revoked cap.id newly, .started call cap].Sublist holders.events) :
    (holders.advance call phase).Sound where
  fresh := by
    intro other later
    have apart : other ≠ call := by
      have above : holders.started ≤ other := later
      omega
    simp only [TokenHolders.advance, Function.update_of_ne apart]
    exact sound.fresh other later
  begun := sound.begun
  done := by
    intro other cap result member
    have apart : other ≠ call := by
      rintro rfl
      exact open' cap result member
    simp only [TokenHolders.advance, Function.update_of_ne apart]
    exact sound.done other cap result member
  oneResult := sound.oneResult
  burned := sound.burned
  revoked := sound.revoked
  passed := by
    intro other cap nowMs newly found
    by_cases same : other = call
    · subst same
      simp only [TokenHolders.advance, Function.update_self, Option.some.injEq] at found
      exact unrevoked cap nowMs newly found
    · simp only [TokenHolders.advance, Function.update_of_ne same] at found
      exact sound.passed other cap nowMs newly found
  law := sound.law

/-- What has to hold when a call returns: a success is the first one for its id, is in the
burned set, and started before any revocation. -/
structure Settled (holders : TokenHolders) (call : Nat) (cap : Capability)
    (result : Except CapabilityError BurnedCapability) : Prop where
  burned : ∀ receipt, result = .ok receipt → cap.id ∈ holders.issuer.burned
  first : ∀ receipt, result = .ok receipt → ∀ other otherCap otherReceipt,
    .returned other otherCap (.ok otherReceipt) ∈ holders.events →
      otherCap.id ≠ cap.id
  unrevoked : ∀ receipt newly, result = .ok receipt →
    ¬ [TokenEvent.revoked cap.id newly, .started call cap].Sublist holders.events

theorem settled_error (holders : TokenHolders) (call : Nat) (cap : Capability)
    (failure : CapabilityError) : holders.Settled call cap (.error failure) :=
  ⟨nofun, nofun, nofun⟩

/-- The law is kept by the return of a call that has settled. -/
theorem Settled.law {call : Nat} {cap : Capability}
    {result : Except CapabilityError BurnedCapability}
    (settled : holders.Settled call cap result) (law : TokenLaw holders.events) :
    TokenLaw (holders.finish call cap result).events where
  once := by
    intro first second firstCap secondCap receipt otherReceipt same within
    rcases concat_sublist_concat [_] within with before | ⟨event, before⟩
    · exact law.once first second firstCap secondCap receipt otherReceipt same before
    · cases event
      exact settled.first otherReceipt rfl first firstCap receipt
        (List.singleton_sublist.mp before) same
  revoked := by
    intro newly other otherCap receipt within
    rcases concat_sublist_concat [_, _] within with before | ⟨event, before⟩
    · exact law.revoked newly other otherCap receipt before
    · cases event
      exact settled.unrevoked receipt newly rfl before

theorem Sound.finish (sound : holders.Sound) {call : Nat} {cap : Capability}
    {result : Except CapabilityError BurnedCapability}
    (started : call < holders.started)
    (open' : ∀ cap result, .returned call cap result ∉ holders.events)
    (settled : holders.Settled call cap result) :
    (holders.finish call cap result).Sound where
  fresh := by
    intro other later
    have apart : other ≠ call := by
      have above : holders.started ≤ other := later
      omega
    simp only [TokenHolders.finish, Function.update_of_ne apart]
    exact sound.fresh other later
  begun := by
    intro other otherCap member
    exact sound.begun other otherCap (mem_of_mem_concat member nofun)
  done := by
    intro other otherCap otherResult member
    by_cases same : other = call
    · subst same
      exact ⟨started, by simp [TokenHolders.finish]⟩
    · simp only [TokenHolders.finish, Function.update_of_ne same]
      apply sound.done other otherCap otherResult
      apply mem_of_mem_concat member
      intro event
      exact same (TokenEvent.returned.inj event).1.symm
  oneResult := by
    intro other first second firstResult secondResult member otherMember
    simp only [TokenHolders.finish, List.mem_append, List.mem_singleton,
      TokenEvent.returned.injEq] at member otherMember
    rcases member with before | ⟨rfl, -, rfl⟩
    · rcases otherMember with otherBefore | ⟨rfl, -, -⟩
      · exact sound.oneResult other first second _ _ before otherBefore
      · exact absurd before (open' first firstResult)
    · rcases otherMember with otherBefore | ⟨-, -, rfl⟩
      · exact absurd otherBefore (open' second secondResult)
      · rfl
  burned := by
    intro other otherCap receipt member
    simp only [TokenHolders.finish, List.mem_append, List.mem_singleton,
      TokenEvent.returned.injEq] at member
    rcases member with before | ⟨-, rfl, same⟩
    · exact sound.burned other otherCap receipt before
    · exact settled.burned receipt same.symm
  revoked := by
    intro id newly member
    exact sound.revoked id newly (mem_of_mem_concat member nofun)
  passed := by
    intro other otherCap nowMs newly found within
    by_cases same : other = call
    · subst same
      simp [TokenHolders.finish] at found
    · simp only [TokenHolders.finish, Function.update_of_ne same] at found within
      rcases concat_sublist_concat [_] within with before | ⟨event, -⟩
      · exact sound.passed other otherCap nowMs newly found before
      · cases event
  law := settled.law sound.law

theorem Sound.burn (sound : holders.Sound) {call : Nat} {cap : Capability}
    {nowMs : Int64} (found : holders.calls call = some (.unrevoked cap nowMs)) :
    (holders.burn call).Sound := by
  obtain ⟨started, open'⟩ := sound.running found
  simp only [TokenHolders.burn, found, CapabilityIssuer.burn]
  split
  case isTrue already =>
    exact sound.finish started open' (settled_error holders call cap _)
  case isFalse unused =>
    have grown : Sound
        { holders with
          issuer := { holders.issuer with
            burned := insert cap.id holders.issuer.burned } } :=
      { fresh := sound.fresh, begun := sound.begun, done := sound.done
        oneResult := sound.oneResult, revoked := sound.revoked
        passed := sound.passed, law := sound.law
        burned := fun other otherCap receipt returned =>
          Finset.mem_insert_of_mem (sound.burned other otherCap receipt returned) }
    refine grown.finish started open' ⟨?_, ?_, ?_⟩
    · exact fun _ _ => Finset.mem_insert_self _ _
    · intro receipt _ other otherCap otherReceipt returned same
      apply unused
      rw [← same]
      exact sound.burned other otherCap otherReceipt returned
    · exact fun receipt newly _ => sound.passed call cap nowMs newly found

theorem Sound.checkRevoked (sound : holders.Sound) {call : Nat} {cap : Capability}
    {nowMs : Int64} (found : holders.calls call = some (.signed cap nowMs)) :
    (holders.checkRevoked call).Sound := by
  obtain ⟨started, open'⟩ := sound.running found
  simp only [TokenHolders.checkRevoked, found, CapabilityIssuer.checkRevoked]
  by_cases gone : cap.id ∈ holders.issuer.revoked
  · rw [if_pos gone]
    exact sound.finish started open' (settled_error holders call cap _)
  · rw [if_neg gone]
    apply sound.advance started open'
    intro other otherNow newly same within
    cases same
    have seen : .revoked cap.id newly ∈ holders.events :=
      within.subset List.mem_cons_self
    exact gone (sound.revoked cap.id newly seen)

theorem Sound.verify (sound : holders.Sound) (cap : Capability) (nowMs : Int64) :
    (holders.verify cap nowMs).Sound := by
  have begun := sound.begin cap
  have started : holders.started < (holders.begin cap).started := Nat.lt_succ_self _
  have open' : ∀ other result,
      .returned holders.started other result ∉ (holders.begin cap).events := by
    intro other result member
    have before : .returned holders.started other result ∈ holders.events :=
      mem_of_mem_concat member nofun
    exact absurd (sound.done _ other result before).1 (lt_irrefl _)
  unfold TokenHolders.verify
  split
  · exact begun.finish started open' (settled_error _ _ _ _)
  · exact begun.advance started open' nofun

theorem Sound.step (sound : holders.Sound) (next : TokenStep) :
    (holders.step next).Sound := by
  cases next with
  | issue kind target ttl id nowMs =>
      exact sound.note holders.issuer (Finset.Subset.refl _) (Finset.Subset.refl _)
        (fun _ _ => ⟨nofun, nofun⟩) nofun
  | revoke id =>
      refine sound.note (holders.issuer.revoke id).1
        (Finset.Subset.refl _) (Finset.subset_insert _ _)
        (fun _ _ => ⟨nofun, nofun⟩) ?_
      intro other newly same
      obtain ⟨rfl, -⟩ := TokenEvent.revoked.inj same
      exact Finset.mem_insert_self _ _
  | verify cap nowMs => exact sound.verify cap nowMs
  | checkRevoked call =>
      cases found : holders.calls call with
      | none => simpa [TokenHolders.step, TokenHolders.checkRevoked, found] using sound
      | some phase =>
          cases phase with
          | signed cap nowMs => exact sound.checkRevoked found
          | unrevoked cap nowMs =>
              simpa [TokenHolders.step, TokenHolders.checkRevoked, found] using sound
  | burn call =>
      cases found : holders.calls call with
      | none => simpa [TokenHolders.step, TokenHolders.burn, found] using sound
      | some phase =>
          cases phase with
          | signed cap nowMs =>
              simpa [TokenHolders.step, TokenHolders.burn, found] using sound
          | unrevoked cap nowMs => exact sound.burn found

/-- Nothing that was seen is forgotten. -/
theorem events_step (holders : TokenHolders) (next : TokenStep) :
    holders.events ⊆ (holders.step next).events := by
  intro event member
  cases next with
  | issue kind target ttl id nowMs => exact List.mem_append_left _ member
  | revoke id => exact List.mem_append_left _ member
  | verify cap nowMs =>
      dsimp only [TokenHolders.step]
      unfold TokenHolders.verify
      split
      · exact List.mem_append_left _ (List.mem_append_left _ member)
      · exact List.mem_append_left _ member
  | checkRevoked call =>
      dsimp only [TokenHolders.step]
      unfold TokenHolders.checkRevoked
      split
      · split
        · exact List.mem_append_left _ member
        · exact member
      · exact member
  | burn call =>
      dsimp only [TokenHolders.step]
      unfold TokenHolders.burn
      split
      · exact List.mem_append_left _ member
      · exact member

theorem events_foldl (holders : TokenHolders) (steps : List TokenStep) :
    holders.events ⊆ (steps.foldl step holders).events := by
  induction steps generalizing holders with
  | nil => exact fun event member => member
  | cons next steps ih =>
      exact fun event member => ih (holders.step next) (events_step holders next member)

/-- A step of a call that changes the burned set makes the call succeed. -/
theorem burned_step (holders : TokenHolders) {next : TokenStep} {call : Nat}
    (owner : holders.callOf next = some call) :
    (holders.step next).issuer.burned = holders.issuer.burned ∨
      ∃ cap receipt, .returned call cap (.ok receipt) ∈ (holders.step next).events := by
  cases next with
  | issue kind target ttl id nowMs => cases owner
  | revoke id => cases owner
  | verify cap nowMs =>
      left
      dsimp only [TokenHolders.step]
      unfold TokenHolders.verify
      split <;> rfl
  | checkRevoked other =>
      left
      dsimp only [TokenHolders.step]
      unfold TokenHolders.checkRevoked
      split
      · split <;> rfl
      · rfl
  | burn other =>
      cases owner
      dsimp only [TokenHolders.step]
      unfold TokenHolders.burn
      split
      case h_1 cap nowMs found =>
        unfold CapabilityIssuer.burn
        split
        · exact Or.inl rfl
        · exact Or.inr ⟨cap, _, List.mem_append_right _ (List.mem_singleton_self _)⟩
      case h_2 => exact Or.inl rfl

/-- A new issuer, with no call under way. -/
def start (secret : Vector UInt8 32) : TokenHolders where
  issuer := .new secret

theorem sound_start (secret : Vector UInt8 32) : (start secret).Sound where
  fresh := fun _ _ => rfl
  begun := fun _ _ member => absurd member List.not_mem_nil
  done := fun _ _ _ member => absurd member List.not_mem_nil
  oneResult := fun _ _ _ _ _ member => absurd member List.not_mem_nil
  burned := fun _ _ _ member => absurd member List.not_mem_nil
  revoked := fun _ _ member => absurd member List.not_mem_nil
  passed := fun _ _ _ _ found => nomatch found
  law := tokenLaw_nil

theorem sound_run (secret : Vector UInt8 32) (steps : List TokenStep) :
    (steps.foldl step (start secret)).Sound := by
  exact GuardedRun.invariant_of_preserved step Sound (fun _ next sound => sound.step next)
    steps (sound_start secret) _ (GuardedRun.foldl_mem_states _ _)

/-- In every run, no id is burned twice, no call succeeds that started after its id was
revoked, and a call that fails leaves the burned set as it is at every one of its steps. -/
theorem tokens_lawful (secret : Vector UInt8 32) (steps : List TokenStep) :
    TokenLaw (steps.foldl step (start secret)).events ∧
    ∀ call cap failure,
      .returned call cap (.error failure) ∈ (steps.foldl step (start secret)).events →
      ∀ taken ∈ GuardedRun.steps step (start secret) steps,
        taken.1.callOf taken.2 = some call →
        (taken.1.step taken.2).issuer.burned = taken.1.issuer.burned := by
  have sound := sound_run secret steps
  constructor
  · exact sound.law
  intro call cap failure failed taken member owner
  obtain ⟨earlier, later, split, reached⟩ := GuardedRun.mem_steps_iff.mp member
  rcases burned_step taken.1 owner with same | ⟨other, receipt, succeeded⟩
  · exact same
  · have final : steps.foldl step (start secret) =
        later.foldl step (taken.1.step taken.2) := by
      rw [split, List.foldl_append, List.foldl_cons, ← reached]
    have kept := events_foldl (taken.1.step taken.2) later succeeded
    rw [← final] at kept
    have clash := sound.oneResult call cap other _ _ failed kept
    cases clash

/-- A token, a copy of it, and a second token whose id is revoked before it is used. -/
def copiedToken : Capability :=
  let secret := Vector.replicate 32 7
  let id := Vector.replicate 16 1
  ⟨.fileWrite, id, "/tmp/a", 1000, 10000,
    signCapability secret .fileWrite id "/tmp/a" 1000 10000⟩

def copiedRun : List TokenStep :=
  [.issue .fileWrite "/tmp/a" 10000000000 copiedToken.id 1000,
    .verify copiedToken 2000, .verify copiedToken 2001, .checkRevoked 1,
    .checkRevoked 0, .burn 1, .revoke copiedToken.id, .burn 0,
    .verify copiedToken 2002, .checkRevoked 2]

theorem tokens_lawful_copied :
    (copiedRun.foldl step (start (Vector.replicate 32 7))).events.length = 8 ∧
      TokenLaw (copiedRun.foldl step (start (Vector.replicate 32 7))).events ∧
      ∀ taken ∈ GuardedRun.steps step (start (Vector.replicate 32 7)) copiedRun,
        taken.1.callOf taken.2 = some 0 →
        (taken.1.step taken.2).issuer.burned = taken.1.issuer.burned :=
  ⟨by decide +kernel, (tokens_lawful _ copiedRun).1,
    (tokens_lawful (Vector.replicate 32 7) copiedRun).2 0 copiedToken
      (.alreadyBurned copiedToken.id) (by decide +kernel)⟩

end TokenHolders

end Roko
