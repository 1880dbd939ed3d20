import Roko.DecayPokes
import Roko.GuardedRuns
import Mathlib.Data.List.Nodup

/-!
# Feedback as a fold

What a passport is said to have earned in a domain is a left fold: each submission moves
the score by the adaptive average, and each tick of the decay halves its distance to one
half.  The functions of the registry that write records are one step of it.
-/

namespace Roko

open Contracts

/-- What is heard about a passport: feedback in a domain, or a tick of the decay. -/
inductive ReputationEvent
  | feedback (domain : Bytes) (now score : Nat)
  | tick (now : Nat)
  deriving DecidableEq, Repr

namespace ReputationRegistry

/-- The average of a submission and the score before it. -/
def average (jobCount new old : Nat) : Nat :=
  (adaptiveAlpha jobCount * new + (scale - adaptiveAlpha jobCount) * old) / scale

/-- The record of a domain after a submission. -/
def submitted (now score : Nat) (rep : DomainReputation) : DomainReputation :=
  { rep with
    score := average rep.jobCount score (decay now rep.score rep.lastUpdate)
    jobCount := rep.jobCount + 1
    lastUpdate := toUint64 now }

/-- The record of a domain after an event. -/
def heard (domain : Bytes) (rep : DomainReputation) : ReputationEvent → DomainReputation
  | .feedback other now score => if other = domain then submitted now score rep else rep
  | .tick now => tick now rep

/-- The record of a domain before any event. -/
def unheard (domain : Bytes) : DomainReputation := ⟨domain, scale / 2, 0, 0⟩

def folded (domain : Bytes) (events : List ReputationEvent) : DomainReputation :=
  events.foldl (heard domain) (unheard domain)

/-- The domains of the submissions, in order. -/
def submissions (events : List ReputationEvent) : List Bytes :=
  events.filterMap fun
    | .feedback domain _ _ => some domain
    | .tick _ => none

/-- Every submitted score is within the scale. -/
def Scaled (events : List ReputationEvent) : Prop :=
  ∀ domain now score, .feedback domain now score ∈ events → score ≤ scale

theorem adaptiveAlpha_le (jobCount : Nat) : adaptiveAlpha jobCount ≤ scale := by
  have small : maxAlpha ≤ scale := by decide
  unfold adaptiveAlpha
  dsimp only
  split <;> omega

/-- A weighted average of values within the scale is within the scale. -/
theorem average_le (jobCount : Nat) {new old : Nat} (newBounded : new ≤ scale)
    (oldBounded : old ≤ scale) : average jobCount new old ≤ scale := by
  have weight := adaptiveAlpha_le jobCount
  unfold average
  generalize adaptiveAlpha jobCount = alpha at *
  refine Nat.div_le_of_le_mul ?_
  calc alpha * new + (scale - alpha) * old
      ≤ alpha * scale + (scale - alpha) * scale :=
        Nat.add_le_add (Nat.mul_le_mul_left _ newBounded) (Nat.mul_le_mul_left _ oldBounded)
    _ = scale * scale := by rw [← Nat.add_mul, Nat.add_sub_cancel' weight]

theorem decay_le (now : Nat) {score : Nat} (lastUpdate : Nat) (bounded : score ≤ scale) :
    decay now score lastUpdate ≤ scale := by
  unfold decay
  dsimp only
  split
  · exact bounded
  · split
    · exact bounded
    · exact LazyDecay.iterate_halve_le _ (Nat.div_le_self _ _) bounded

theorem tick_eq (now : Nat) (rep : DomainReputation) :
    (tick now rep).score = decay now rep.score rep.lastUpdate ∧
      (tick now rep).jobCount = rep.jobCount := by
  unfold tick
  dsimp only
  split
  case isTrue => exact ⟨rfl, rfl⟩
  case isFalse same => exact ⟨(not_not.mp same).symm, rfl⟩

theorem tick_unheard (now : Nat) (domain : Bytes) : tick now (unheard domain) = unheard domain := by
  simp [tick, unheard, decay]

theorem folded_append (domain : Bytes) (events : List ReputationEvent)
    (event : ReputationEvent) :
    folded domain (events ++ [event]) = heard domain (folded domain events) event := by
  simp [folded]

theorem submissions_append (events : List ReputationEvent) (event : ReputationEvent) :
    submissions (events ++ [event]) = submissions events ++ submissions [event] := by
  simp [submissions]

theorem folded_domain (domain : Bytes) (events : List ReputationEvent) :
    (folded domain events).domain = domain := by
  induction events using List.reverseRecOn with
  | nil => rfl
  | append_singleton events event ih =>
      rw [folded_append]
      cases event with
      | feedback other now score =>
          dsimp only [heard]
          split
          · exact ih
          · exact ih
      | tick now => exact (tick_domain now _).trans ih

/-- The job count of a domain is the number of its submissions. -/
theorem folded_jobCount (domain : Bytes) (events : List ReputationEvent) :
    (folded domain events).jobCount = (submissions events).count domain := by
  induction events using List.reverseRecOn with
  | nil => rfl
  | append_singleton events event ih =>
      rw [folded_append, submissions_append, List.count_append, ← ih]
      cases event with
      | feedback other now score =>
          dsimp only [heard]
          split
          case isTrue here =>
            subst here
            simp [submissions, submitted]
          case isFalse elsewhere =>
            simp [submissions, elsewhere]
      | tick now => exact (tick_eq now _).2

theorem folded_score_le (domain : Bytes) {events : List ReputationEvent}
    (scaled : Scaled events) : (folded domain events).score ≤ scale := by
  induction events using List.reverseRecOn with
  | nil => exact Nat.div_le_self _ _
  | append_singleton events event ih =>
      have before := ih fun other now score member =>
        scaled other now score (List.mem_append_left _ member)
      rw [folded_append]
      cases event with
      | feedback other now score =>
          have bounded := scaled other now score (List.mem_append_right _ List.mem_cons_self)
          dsimp only [heard]
          split
          · exact average_le _ bounded (decay_le now _ before)
          · exact before
      | tick now =>
          change (tick now _).score ≤ scale
          rw [(tick_eq now _).1]
          exact decay_le now _ before

/-- Ticks alone leave a domain as it starts. -/
theorem folded_of_notMem {domain : Bytes} {events : List ReputationEvent}
    (absent : domain ∉ submissions events) : folded domain events = unheard domain := by
  induction events using List.reverseRecOn with
  | nil => rfl
  | append_singleton events event ih =>
      rw [submissions_append, List.mem_append, not_or] at absent
      rw [folded_append, ih absent.1]
      cases event with
      | feedback other now score =>
          have elsewhere : other ≠ domain := by
            rintro rfl
            exact absent.2 (by simp [submissions])
          exact if_neg elsewhere
      | tick now => exact tick_unheard now domain

end ReputationRegistry

/-!
A domain is new to a passport when the stored name of its record is empty.  The empty
domain is therefore new each time: it is listed again and its score starts anew.  In the
runs that submit it at most once per passport, the records are the folds of what was
submitted.
-/

/-- The calls that change a reputation registry.  A score of `int256` is given by its
bits. -/
inductive ReputationCall
  | setFeedbackSource (source : Address) (allowed : Bool)
  | addFeedbackSource (source : Address)
  | authorizeFeedback (raterPassportId rateePassportId : U256) (domain : UInt8)
  | submitFeedback (passportId : U256) (domain : Bytes) (score : U256)
  | submitPeerFeedback (rateePassportId : U256) (domain : UInt8) (score : UInt16)
  | applyDecayTick (passportId : U256)
  | slash (passportId : U256) (violationType : UInt8) (amount : U256) (reason : Bytes)

/-- A call, with what the identity registry holds when it is made. -/
structure ReputationMove where
  identity : IdentityRegistry
  msg : Msg
  call : ReputationCall

namespace ReputationRegistry

variable (keccak256 : Bytes → B256)

def execute (registry : ReputationRegistry) (move : ReputationMove) :
    Except Revert ReputationRegistry :=
  match move.call with
  | .setFeedbackSource source allowed => registry.setFeedbackSource move.msg source allowed
  | .addFeedbackSource source => registry.addFeedbackSource move.msg source
  | .authorizeFeedback raterPassportId rateePassportId domain =>
      registry.authorizeFeedback keccak256 move.identity move.msg raterPassportId.toNat
        rateePassportId.toNat domain.toNat
  | .submitFeedback passportId domain score =>
      registry.submitFeedback keccak256 move.identity move.msg passportId.toNat domain
        score.toInt
  | .submitPeerFeedback rateePassportId domain score =>
      registry.submitPeerFeedback keccak256 move.identity move.msg rateePassportId.toNat
        domain.toNat score.toNat
  | .applyDecayTick passportId =>
      registry.applyDecayTick move.identity move.msg passportId.toNat
  | .slash passportId violationType amount reason =>
      registry.slash move.identity move.msg passportId.toNat violationType.toNat
        amount.toNat reason

end ReputationRegistry

namespace ReputationMove

/-- The passport that a call is about, and what is heard about it when it succeeds. -/
def event? (move : ReputationMove) : Option (Nat × ReputationEvent) :=
  match move.call with
  | .submitFeedback passportId domain score =>
      some (passportId.toNat, .feedback domain move.msg.timestamp
        ((score.toInt + ReputationRegistry.scale).toNat / 2))
  | .submitPeerFeedback rateePassportId domain score =>
      some (rateePassportId.toNat,
        .feedback (ReputationRegistry.domainName domain.toNat) move.msg.timestamp
          (score.toNat * 10 ^ 15))
  | .applyDecayTick passportId => some (passportId.toNat, .tick move.msg.timestamp)
  | _ => none

/-- The checks that a submission passes before it is recorded. -/
def Submits (keccak256 : Bytes → B256) (registry : ReputationRegistry)
    (move : ReputationMove) : Prop :=
  match move.call with
  | .submitFeedback passportId _ score =>
      registry.onlyFeedbackSource move.msg = .ok () ∧
        ¬ (score.toInt < -(ReputationRegistry.scale : Int) ∨
          (ReputationRegistry.scale : Int) < score.toInt) ∧
        ReputationRegistry.requirePassport move.identity passportId.toNat = .ok ()
  | .submitPeerFeedback rateePassportId domain score =>
      domain.toNat ≤ ReputationRegistry.knowledgeVerification ∧ score.toNat ≤ 1000 ∧
        move.identity.ownerToPassportId move.msg.sender ≠ 0 ∧
        ReputationRegistry.requirePassport move.identity rateePassportId.toNat = .ok () ∧
        (registry.authorizations (ReputationRegistry.authorizationKey keccak256
          (move.identity.ownerToPassportId move.msg.sender) rateePassportId.toNat
          domain.toNat)).active = true
  | _ => False

end ReputationMove

/-- A registry, and what was heard about each passport. -/
structure ReputationHistory where
  registry : ReputationRegistry
  log : Nat → List ReputationEvent := fun _ => []

namespace ReputationHistory

open ReputationRegistry

variable (keccak256 : Bytes → B256)

/-- A reverted call changes nothing, and nothing is heard of it. -/
def step (history : ReputationHistory) (move : ReputationMove) : ReputationHistory :=
  match history.registry.execute keccak256 move, move.event? with
  | .error _, _ => history
  | .ok registry, none => { history with registry }
  | .ok registry, some (passportId, event) =>
      { registry
        log := Function.update history.log passportId
          (history.log passportId ++ [event]) }

/-- A submitted domain is listed once, with the count of its submissions and their fold,
which stays within the scale. -/
structure DomainSound (history : ReputationHistory) (passportId : Nat) (domain : Bytes) :
    Prop where
  listed : ∀ identity now, requirePassport identity passportId = .ok () →
    ∃ records, history.registry.getAllReputations identity now passportId = .ok records ∧
      records.filter (fun record => record.domain = domain) =
        [{ folded domain (history.log passportId) with
          score := decay now (folded domain (history.log passportId)).score
            (folded domain (history.log passportId)).lastUpdate
          jobCount := (submissions (history.log passportId)).count domain }]
  stored : history.registry.reputations passportId (keccak256 domain) =
    folded domain (history.log passportId)
  bounded : ∀ now,
    (history.registry.reputations passportId (keccak256 domain)).score ≤ scale ∧
      decay now (folded domain (history.log passportId)).score
        (folded domain (history.log passportId)).lastUpdate ≤ scale

/-- Every domain that was submitted for a passport is recorded. -/
def Sound (history : ReputationHistory) : Prop :=
  ∀ passportId, ∀ domain ∈ submissions (history.log passportId),
    DomainSound keccak256 history passportId domain

/-- A submission that is recorded for a domain with a score goes on from that score. -/
def Kept (history : ReputationHistory) (move : ReputationMove) : Prop :=
  ∀ registry passportId domain now score,
    history.registry.execute keccak256 move = .ok registry →
    move.event? = some (passportId, .feedback domain now score) →
    domain ∈ submissions (history.log passportId) →
      registry.reputations passportId (keccak256 domain) =
        submitted now score (history.registry.reputations passportId (keccak256 domain))

/-- The empty domain is submitted only for a passport without a record of it. -/
def StepSafe (history : ReputationHistory) (move : ReputationMove) : Prop :=
  ∀ passportId now score, move.event? = some (passportId, .feedback [] now score) →
    move.Submits keccak256 history.registry →
      (history.registry.reputations passportId (keccak256 [])).jobCount = 0

/-- The domains that a sequence of calls submits. -/
def domainsOf (moves : List ReputationMove) : Set Bytes :=
  {domain | ∃ move ∈ moves, ∃ passportId now score,
    move.event? = some (passportId, .feedback domain now score)}

/-- What the calls keep of the records of a passport, while the empty domain is submitted
at most once for it. -/
structure Recorded (used : Set Bytes) (keys : List B256)
    (reputations : B256 → DomainReputation) (log : List ReputationEvent) : Prop where
  known : ∀ domain ∈ submissions log, domain ∈ used
  scaled : Scaled log
  nodup : keys.Nodup
  listed : ∀ key, key ∈ keys ↔ ∃ domain ∈ submissions log, keccak256 domain = key
  stored : ∀ domain ∈ submissions log, reputations (keccak256 domain) = folded domain log
  absent : ∀ key, key ∉ keys → reputations key = noReputation
  emptyOnce : (submissions log).count [] ≤ 1

/-- The records of every passport are kept. -/
def AllRecorded (used : Set Bytes) (history : ReputationHistory) : Prop :=
  ∀ passportId, Recorded keccak256 used (history.registry.domainKeys passportId)
    (history.registry.reputations passportId) (history.log passportId)

end ReputationHistory

namespace ReputationRegistry

variable {keccak256 : Bytes → B256} {registry after : ReputationRegistry}
  {passportId : Nat} {domain : Bytes}

/-- The record that a submission starts from. -/
def opened (domain : Bytes) (rep : DomainReputation) : DomainReputation :=
  if rep.domain.length = 0 then { rep with domain, score := scale / 2 } else rep

/-- The keys that are listed after a submission to the record of a key. -/
def keysAfter (keys : List B256) (key : B256) (rep : DomainReputation) : List B256 :=
  if rep.domain.length = 0 then keys ++ [key] else keys

/-- A registry that has recorded a submission. -/
structure Records (registry after : ReputationRegistry) (passportId : Nat) (key : B256)
    (domain : Bytes) (now score : Nat) : Prop where
  reputations : after.reputations = Function.update registry.reputations passportId
    (Function.update (registry.reputations passportId) key
      (submitted now score (opened domain (registry.reputations passportId key))))
  domainKeys : after.domainKeys = Function.update registry.domainKeys passportId
    (keysAfter (registry.domainKeys passportId) key (registry.reputations passportId key))

theorem listDomain_reputations (key : B256) :
    (registry.listDomain passportId key domain).reputations =
      Function.update registry.reputations passportId
        (Function.update (registry.reputations passportId) key
          (opened domain (registry.reputations passportId key))) := by
  unfold listDomain opened
  dsimp only
  split
  case isTrue => rfl
  case isFalse => simp only [Function.update_eq_self]

theorem listDomain_domainKeys (key : B256) :
    (registry.listDomain passportId key domain).domainKeys =
      Function.update registry.domainKeys passportId
        (keysAfter (registry.domainKeys passportId) key
          (registry.reputations passportId key)) := by
  unfold listDomain keysAfter
  dsimp only
  split
  case isTrue => rfl
  case isFalse => simp only [Function.update_eq_self]

theorem records_of_ok {now score : Nat}
    (called : registry.recordFeedback keccak256 now passportId domain score = .ok after) :
    Records registry after passportId (keccak256 domain) domain now score := by
  simp only [recordFeedback, bind_ok_iff, checkedMul_ok_iff, checkedAdd_ok_iff,
    pure_ok_iff] at called
  obtain ⟨new, ⟨-, rfl⟩, old, ⟨-, rfl⟩, sum, ⟨-, rfl⟩, jobs, ⟨-, rfl⟩, rfl⟩ := called
  constructor
  · unfold setReputation
    simp only [listDomain_reputations, Function.update_self, Function.update_idem]
    rfl
  · exact listDomain_domainKeys _

theorem opened_le (domain : Bytes) {rep : DomainReputation} (bounded : rep.score ≤ scale) :
    (opened domain rep).score ≤ scale := by
  unfold opened
  split
  · exact Nat.div_le_self _ _
  · exact bounded

theorem opened_jobCount (domain : Bytes) (rep : DomainReputation) :
    (opened domain rep).jobCount = rep.jobCount := by
  unfold opened
  split <;> rfl

/-- A score within the scale is recorded, as long as the count fits. -/
theorem exists_recordFeedback (now : Nat) {score : Nat} (scaled : score ≤ scale)
    (bounded : (registry.reputations passportId (keccak256 domain)).score ≤ scale)
    (fits : (registry.reputations passportId (keccak256 domain)).jobCount + 1 < 2 ^ 64) :
    ∃ after, registry.recordFeedback keccak256 now passportId domain score = .ok after := by
  have start := opened_le domain bounded
  rw [← opened_jobCount domain] at fits
  unfold recordFeedback
  simp only [listDomain_reputations, Function.update_self]
  generalize opened domain (registry.reputations passportId (keccak256 domain)) = rep at *
  have current := decay_le now rep.lastUpdate start
  have weight := adaptiveAlpha_le rep.jobCount
  generalize decay now rep.score rep.lastUpdate = old at *
  generalize adaptiveAlpha rep.jobCount = alpha at *
  have newTerm : alpha * score ≤ scale * scale := Nat.mul_le_mul weight scaled
  have oldTerm : (scale - alpha) * old ≤ scale * scale :=
    Nat.mul_le_mul (Nat.sub_le _ _) current
  have square : scale * scale + scale * scale < 2 ^ 256 := by decide
  have newFits : checkedMul 256 alpha score = .ok (alpha * score) :=
    checkedMul_ok_iff.mpr ⟨by omega, rfl⟩
  have oldFits : checkedMul 256 (scale - alpha) old = .ok ((scale - alpha) * old) :=
    checkedMul_ok_iff.mpr ⟨by omega, rfl⟩
  have sumFits : checkedAdd 256 (alpha * score) ((scale - alpha) * old) =
      .ok (alpha * score + (scale - alpha) * old) :=
    checkedAdd_ok_iff.mpr ⟨by omega, rfl⟩
  have countFits : checkedAdd 64 rep.jobCount 1 = .ok (rep.jobCount + 1) :=
    checkedAdd_ok_iff.mpr ⟨fits, rfl⟩
  simp only [newFits, oldFits, sumFits, countFits, bind, Except.bind]
  exact ⟨_, rfl⟩

theorem tickDomain_other (now : Nat) {other : Nat} (apart : other ≠ passportId)
    (keys : List B256) :
    (keys.foldl (tickDomain now passportId) registry).reputations other =
      registry.reputations other := by
  induction keys generalizing registry with
  | nil => rfl
  | cons key keys ih =>
      rw [List.foldl_cons, ih, tickDomain_reputations, Function.update_of_ne apart]

end ReputationRegistry

namespace ReputationHistory

open ReputationRegistry

section Records

variable {keccak256 : Bytes → B256} {used : Set Bytes} {keys : List B256}
  {reputations : B256 → DomainReputation} {log : List ReputationEvent} {domain : Bytes}

theorem Recorded.listed_iff (recorded : Recorded keccak256 used keys reputations log)
    (injective : Set.InjOn keccak256 used) (member : domain ∈ used) :
    keccak256 domain ∈ keys ↔ domain ∈ submissions log := by
  rw [recorded.listed]
  constructor
  · rintro ⟨other, submittedOther, same⟩
    rwa [injective (recorded.known other submittedOther) member same] at submittedOther
  · exact fun submittedHere => ⟨domain, submittedHere, rfl⟩

/-- A record that is not new, and not the one of the empty domain, is named. -/
theorem Recorded.named (recorded : Recorded keccak256 used keys reputations log)
    (known : domain ∈ submissions log) (notEmpty : domain ≠ []) :
    (reputations (keccak256 domain)).domain.length ≠ 0 := by
  rw [recorded.stored domain known, folded_domain]
  exact fun none => notEmpty (List.length_eq_zero_iff.mp none)

/-- What a submission starts from is the fold of what was heard before. -/
theorem Recorded.opened_eq (recorded : Recorded keccak256 used keys reputations log)
    (injective : Set.InjOn keccak256 used) (member : domain ∈ used)
    (first : domain = [] → domain ∉ submissions log) :
    opened domain (reputations (keccak256 domain)) = folded domain log := by
  by_cases known : domain ∈ submissions log
  · rw [opened, if_neg (recorded.named known fun empty => first empty known)]
    exact recorded.stored domain known
  · have notListed := (recorded.listed_iff injective member).not.mpr known
    rw [recorded.absent _ notListed, folded_of_notMem known]
    rfl

theorem Recorded.keysAfter_eq (recorded : Recorded keccak256 used keys reputations log)
    (injective : Set.InjOn keccak256 used) (member : domain ∈ used)
    (first : domain = [] → domain ∉ submissions log) :
    keysAfter keys (keccak256 domain) (reputations (keccak256 domain)) =
      if domain ∈ submissions log then keys else keys ++ [keccak256 domain] := by
  unfold keysAfter
  by_cases known : domain ∈ submissions log
  · rw [if_pos known, if_neg (recorded.named known fun empty => first empty known)]
  · have notListed := (recorded.listed_iff injective member).not.mpr known
    rw [if_neg known, recorded.absent _ notListed]
    rfl

theorem Recorded.mem_keysAfter (recorded : Recorded keccak256 used keys reputations log)
    (injective : Set.InjOn keccak256 used) (member : domain ∈ used)
    (first : domain = [] → domain ∉ submissions log) (key : B256) :
    key ∈ keysAfter keys (keccak256 domain) (reputations (keccak256 domain)) ↔
      key ∈ keys ∨ key = keccak256 domain := by
  rw [recorded.keysAfter_eq injective member first]
  split
  case isTrue known =>
    refine ⟨Or.inl, ?_⟩
    rintro (listed | rfl)
    · exact listed
    · exact (recorded.listed_iff injective member).mpr known
  case isFalse => rw [List.mem_append, List.mem_singleton]

theorem Recorded.nodup_keysAfter (recorded : Recorded keccak256 used keys reputations log)
    (injective : Set.InjOn keccak256 used) (member : domain ∈ used)
    (first : domain = [] → domain ∉ submissions log) :
    (keysAfter keys (keccak256 domain) (reputations (keccak256 domain))).Nodup := by
  rw [recorded.keysAfter_eq injective member first]
  split
  case isTrue => exact recorded.nodup
  case isFalse new =>
    rw [← List.concat_eq_append, List.nodup_concat]
    exact ⟨(recorded.listed_iff injective member).not.mpr new, recorded.nodup⟩

theorem submissions_feedback (log : List ReputationEvent) (domain : Bytes)
    (now score : Nat) :
    submissions (log ++ [.feedback domain now score]) = submissions log ++ [domain] :=
  submissions_append _ _

theorem submissions_tick (log : List ReputationEvent) (now : Nat) :
    submissions (log ++ [.tick now]) = submissions log := by
  rw [submissions_append]
  exact List.append_nil _

theorem Recorded.feedback (recorded : Recorded keccak256 used keys reputations log)
    (injective : Set.InjOn keccak256 used) (member : domain ∈ used)
    (first : domain = [] → domain ∉ submissions log) {score : Nat} (bounded : score ≤ scale)
    (now : Nat) :
    Recorded keccak256 used
      (keysAfter keys (keccak256 domain) (reputations (keccak256 domain)))
      (Function.update reputations (keccak256 domain)
        (submitted now score (opened domain (reputations (keccak256 domain)))))
      (log ++ [.feedback domain now score]) := by
  have keysMem := recorded.mem_keysAfter injective member first
  have start := recorded.opened_eq injective member first
  refine ⟨fun other heardOther => ?_, fun other at' value heardOther => ?_,
    recorded.nodup_keysAfter injective member first, fun key => ?_,
    fun other heardOther => ?_, fun key notListed => ?_, ?_⟩
  · rw [submissions_feedback, List.mem_append, List.mem_singleton] at heardOther
    rcases heardOther with earlier | rfl
    · exact recorded.known other earlier
    · exact member
  · rcases List.mem_append.mp heardOther with earlier | last
    · exact recorded.scaled other at' value earlier
    · cases List.mem_singleton.mp last
      exact bounded
  · rw [keysMem, recorded.listed, submissions_feedback]
    simp only [List.mem_append, List.mem_singleton, or_and_right, exists_or, exists_eq_left,
      @eq_comm _ key]
  · rw [folded_append, start]
    by_cases isHere : other = domain
    · subst isHere
      rw [Function.update_self]
      exact (if_pos rfl).symm
    · rw [submissions_feedback, List.mem_append, List.mem_singleton] at heardOther
      have earlier := heardOther.resolve_right isHere
      have apart : keccak256 other ≠ keccak256 domain :=
        fun same => isHere (injective (recorded.known other earlier) member same)
      rw [Function.update_of_ne apart, recorded.stored other earlier]
      exact (if_neg (Ne.symm isHere)).symm
  · rw [keysMem, not_or] at notListed
    rw [Function.update_of_ne notListed.2]
    exact recorded.absent key notListed.1
  · rw [submissions_feedback, List.count_append]
    by_cases empty : domain = []
    · have none := List.count_eq_zero.mpr (first empty)
      rw [empty] at none ⊢
      rw [none]
      decide
    · rw [List.count_singleton, if_neg (by simpa using empty)]
      exact recorded.emptyOnce

theorem Recorded.tick (recorded : Recorded keccak256 used keys reputations log) (now : Nat)
    {after : B256 → DomainReputation}
    (ticked : ∀ key, after key =
      (ReputationRegistry.tick now)^[keys.count key] (reputations key)) :
    Recorded keccak256 used keys after (log ++ [.tick now]) := by
  have same := submissions_tick log now
  refine ⟨?_, fun other at' value heardOther => ?_, recorded.nodup, ?_,
    fun domain known => ?_, fun key notListed => ?_, ?_⟩
  · rw [same]
    exact recorded.known
  · rcases List.mem_append.mp heardOther with earlier | last
    · exact recorded.scaled other at' value earlier
    · cases List.mem_singleton.mp last
  · rw [same]
    exact recorded.listed
  · rw [same] at known
    have listed := (recorded.listed _).mpr ⟨domain, known, rfl⟩
    rw [ticked, List.count_eq_one_of_mem recorded.nodup listed, folded_append,
      recorded.stored domain known]
    rfl
  · rw [ticked, List.count_eq_zero.mpr notListed]
    exact recorded.absent key notListed
  · rw [same]
    exact recorded.emptyOnce

end Records

end ReputationHistory

end Roko
