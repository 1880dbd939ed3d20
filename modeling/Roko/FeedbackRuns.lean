import Roko.FeedbackRecords

/-!
# Runs of the reputation registry

One step of a run records a submission, ticks the records of a passport, or leaves all
records as they are.  A submission of the empty domain for a passport that has a record
of it lists the domain twice, so the runs with sound records are exactly those without
such a submission.
-/

namespace Roko

open Contracts

namespace ReputationHistory

open ReputationRegistry

variable {keccak256 : Bytes → B256} {history : ReputationHistory} {move : ReputationMove}
  {after : ReputationRegistry} {used : Set Bytes} {passportId now score : Nat}
  {domain : Bytes}

/-- A submission that passes its checks is recorded, with a score within the scale. -/
theorem execute_of_submits (submits : move.Submits keccak256 history.registry)
    (event : move.event? = some (passportId, .feedback domain now score)) :
    history.registry.execute keccak256 move =
        history.registry.recordFeedback keccak256 now passportId domain score ∧
      score ≤ scale ∧ requirePassport move.identity passportId = .ok () := by
  obtain ⟨identity, msg, call⟩ := move
  cases call with
  | submitFeedback ratee name value =>
      obtain ⟨source, scaled, live⟩ := submits
      cases event
      refine ⟨?_, ?_, live⟩
      · simp [execute, submitFeedback, source, scaled, live, ensure, bind, Except.bind]
      · have positive : 0 < scale := by decide
        omega
  | submitPeerFeedback ratee number value =>
      obtain ⟨valid, scaled, rater, live, active⟩ := submits
      cases event
      refine ⟨?_, ?_, live⟩
      · simp [execute, submitPeerFeedback, valid, scaled, rater, live, active, ensure, bind,
          Except.bind]
      · calc value.toNat * 10 ^ 15 ≤ 1000 * 10 ^ 15 := Nat.mul_le_mul_right _ scaled
          _ = scale := by decide
  | _ => exact submits.elim

theorem submits_of_ok (executed : history.registry.execute keccak256 move = .ok after)
    (event : move.event? = some (passportId, .feedback domain now score)) :
    move.Submits keccak256 history.registry := by
  obtain ⟨identity, msg, call⟩ := move
  cases call with
  | submitFeedback ratee name value =>
      simp only [execute, submitFeedback, bind_ok_iff, ensure_ok_iff] at executed
      obtain ⟨⟨⟩, source, ⟨⟩, scaled, ⟨⟩, live, -⟩ := executed
      exact ⟨source, scaled, live⟩
  | submitPeerFeedback ratee number value =>
      simp only [execute, submitPeerFeedback, bind_ok_iff, ensure_ok_iff] at executed
      obtain ⟨⟨⟩, valid, ⟨⟩, scaled, ⟨⟩, rater, ⟨⟩, live, ⟨⟩, active, -⟩ := executed
      exact ⟨valid, scaled, rater, live, active⟩
  | _ => cases event

/-- The effect of one step on the records and the log. -/
inductive Effect (keccak256 : Bytes → B256) (history : ReputationHistory)
    (move : ReputationMove) : ReputationHistory → Prop
  | refused (failed : ∀ after, history.registry.execute keccak256 move ≠ .ok after) :
      Effect keccak256 history move history
  | quiet {after : ReputationRegistry} (event : move.event? = none)
      (reputations : after.reputations = history.registry.reputations)
      (domainKeys : after.domainKeys = history.registry.domainKeys) :
      Effect keccak256 history move { history with registry := after }
  | recorded {after : ReputationRegistry} {passportId now score : Nat} {domain : Bytes}
      (event : move.event? = some (passportId, .feedback domain now score))
      (submits : move.Submits keccak256 history.registry)
      (executed : history.registry.execute keccak256 move = .ok after)
      (records : Records history.registry after passportId (keccak256 domain) domain now
        score)
      (scaled : score ≤ scale) :
      Effect keccak256 history move
        { registry := after
          log := Function.update history.log passportId
            (history.log passportId ++ [.feedback domain now score]) }
  | ticked {passportId now : Nat} (event : move.event? = some (passportId, .tick now)) :
      Effect keccak256 history move
        { registry := (history.registry.domainKeys passportId).foldl
            (tickDomain now passportId) history.registry
          log := Function.update history.log passportId
            (history.log passportId ++ [.tick now]) }

/-- A call that is not heard of changes no record. -/
theorem quiet_of_execute (executed : history.registry.execute keccak256 move = .ok after)
    (event : move.event? = none) :
    after.reputations = history.registry.reputations ∧
      after.domainKeys = history.registry.domainKeys := by
  obtain ⟨identity, msg, call⟩ := move
  cases call with
  | setFeedbackSource source allowed =>
      simp only [execute, setFeedbackSource, bind_ok_iff, pure_ok_iff] at executed
      obtain ⟨-, -, rfl⟩ := executed
      exact ⟨rfl, rfl⟩
  | addFeedbackSource source =>
      simp only [execute, addFeedbackSource, setFeedbackSource, bind_ok_iff,
        pure_ok_iff] at executed
      obtain ⟨-, -, rfl⟩ := executed
      exact ⟨rfl, rfl⟩
  | authorizeFeedback rater ratee number =>
      simp only [execute, authorizeFeedback, bind_ok_iff, pure_ok_iff] at executed
      obtain ⟨-, -, -, -, -, -, -, -, rfl⟩ := executed
      exact ⟨rfl, rfl⟩
  | slash slashed violationType amount reason =>
      simp only [execute, slash, bind_ok_iff, pure_ok_iff] at executed
      obtain ⟨-, -, -, -, rfl⟩ := executed
      exact ⟨rfl, rfl⟩
  | submitFeedback ratee name value => cases event
  | submitPeerFeedback ratee number value => cases event
  | applyDecayTick ticked => cases event

theorem tick_of_execute (executed : history.registry.execute keccak256 move = .ok after)
    (event : move.event? = some (passportId, .tick now)) :
    after = (history.registry.domainKeys passportId).foldl (tickDomain now passportId)
      history.registry := by
  obtain ⟨identity, msg, call⟩ := move
  cases call with
  | applyDecayTick ticked =>
      simp only [execute, applyDecayTick, bind_ok_iff, pure_ok_iff] at executed
      obtain ⟨-, -, rfl⟩ := executed
      cases event
      rfl
  | _ => cases event

theorem step_cases (keccak256 : Bytes → B256) (history : ReputationHistory)
    (move : ReputationMove) :
    Effect keccak256 history move (history.step keccak256 move) := by
  unfold step
  cases executed : history.registry.execute keccak256 move with
  | error revert =>
      exact .refused fun after succeeded => by rw [executed] at succeeded; cases succeeded
  | ok after =>
      cases event : move.event? with
      | none =>
          obtain ⟨reputations, domainKeys⟩ := quiet_of_execute executed event
          exact .quiet event reputations domainKeys
      | some heardOf =>
          obtain ⟨passportId, words⟩ := heardOf
          cases words with
          | feedback domain now score =>
              have submits := submits_of_ok executed event
              obtain ⟨isRecord, scaled, -⟩ := execute_of_submits submits event
              exact .recorded event submits executed
                (records_of_ok (isRecord.symm.trans executed)) scaled
          | tick now =>
              rw [tick_of_execute executed event]
              exact .ticked event

/-- The condition says that an empty domain is submitted for the first time. -/
theorem AllRecorded.first (recorded : AllRecorded keccak256 used history)
    (safe : StepSafe keccak256 history move)
    (submits : move.Submits keccak256 history.registry)
    (event : move.event? = some (passportId, .feedback domain now score))
    (empty : domain = []) : domain ∉ submissions (history.log passportId) := by
  subst empty
  intro known
  have none := safe passportId now score event submits
  rw [(recorded passportId).stored [] known, folded_jobCount] at none
  exact List.count_eq_zero.mp none known

theorem AllRecorded.step (recorded : AllRecorded keccak256 used history)
    (injective : Set.InjOn keccak256 used)
    (member : ∀ passportId domain now score,
      move.event? = some (passportId, .feedback domain now score) → domain ∈ used)
    (safe : StepSafe keccak256 history move) :
    AllRecorded keccak256 used (history.step keccak256 move) := by
  have effect := step_cases keccak256 history move
  generalize history.step keccak256 move = next at effect ⊢
  intro other
  cases effect with
  | refused failed => exact recorded other
  | quiet event reputations domainKeys =>
      rw [reputations, domainKeys]
      exact recorded other
  | @recorded after passportId now score domain event submits executed records scaled =>
      have first := recorded.first safe submits event
      have inUsed := member passportId domain now score event
      rw [records.reputations, records.domainKeys]
      by_cases isHere : other = passportId
      · subst isHere
        simp only [Function.update_self]
        exact (recorded other).feedback injective inUsed first scaled now
      · simp only [Function.update_of_ne isHere]
        exact recorded other
  | @ticked passportId now event =>
      dsimp only
      rw [foldl_tickDomain_domainKeys]
      by_cases isHere : other = passportId
      · subst isHere
        rw [Function.update_self]
        exact (recorded other).tick now fun key => foldl_tickDomain now other _ key _
      · rw [Function.update_of_ne isHere, tickDomain_other now isHere]
        exact recorded other

/-- Among records listed under different keys, those that fit one key are one. -/
theorem filter_map_eq_singleton {record : B256 → DomainReputation} {keys : List B256}
    {key : B256} (nodup : keys.Nodup) (listed : key ∈ keys)
    (exact : ∀ other ∈ keys, (record other).domain = domain ↔ other = key) :
    (keys.map record).filter (fun rep => rep.domain = domain) = [record key] := by
  have fits : keys.filter ((fun rep => decide (rep.domain = domain)) ∘ record) =
      keys.filter (· == key) :=
    List.filter_congr fun other member => by
      rw [Function.comp_apply, beq_eq_decide, decide_eq_decide]
      exact exact other member
  rw [List.filter_map, fits, List.filter_beq, List.count_eq_one_of_mem nodup listed]
  rfl

theorem two_le_filter_of_listed (record : B256 → DomainReputation)
    (fits : DomainReputation → Bool) {keys : List B256} {key : B256} (listed : key ∈ keys)
    (here : fits (record key) = true) :
    2 ≤ (((keys ++ [key]).map record).filter fits).length := by
  have earlier : 0 < ((keys.map record).filter fits).length :=
    List.length_pos_of_mem (List.mem_filter.mpr ⟨List.mem_map_of_mem listed, here⟩)
  rw [List.map_append, List.filter_append, List.length_append, List.map_singleton,
    List.filter_singleton, here]
  exact Nat.succ_le_succ earlier

/-- A record that is read, with its decayed score. -/
def readRecord (registry : ReputationRegistry) (now passportId : Nat) (key : B256) :
    DomainReputation :=
  { registry.reputations passportId key with
    score := decay now (registry.reputations passportId key).score
      (registry.reputations passportId key).lastUpdate }

theorem getAllReputations_of_live {identity : IdentityRegistry} (now : Nat)
    (live : requirePassport identity passportId = .ok ()) :
    after.getAllReputations identity now passportId =
      .ok ((after.domainKeys passportId).map (readRecord after now passportId)) := by
  simp only [getAllReputations, live, bind, Except.bind]
  rfl

/-- What the calls keep is sound. -/
theorem AllRecorded.sound (recorded : AllRecorded keccak256 used history)
    (injective : Set.InjOn keccak256 used) : history.Sound keccak256 := by
  intro passportId domain known
  have here := recorded passportId
  have bounded := folded_score_le domain here.scaled
  refine ⟨fun identity now live => ⟨_, getAllReputations_of_live now live, ?_⟩,
    here.stored domain known, fun now => ⟨?_, decay_le now _ bounded⟩⟩
  · have fits : ∀ other ∈ history.registry.domainKeys passportId,
        (readRecord history.registry now passportId other).domain = domain ↔
          other = keccak256 domain := by
      intro other listed
      obtain ⟨name, submittedName, rfl⟩ := (here.listed other).mp listed
      unfold readRecord
      rw [here.stored name submittedName]
      change (folded name _).domain = domain ↔ _
      rw [folded_domain]
      exact (injective.eq_iff (here.known name submittedName)
        (here.known domain known)).symm
    rw [filter_map_eq_singleton here.nodup ((here.listed _).mpr ⟨domain, known, rfl⟩) fits,
      readRecord, here.stored domain known, ← folded_jobCount]
  · rw [here.stored domain known]
    exact bounded

/-- A submission goes on from the score of a domain that is recorded. -/
theorem AllRecorded.kept (recorded : AllRecorded keccak256 used history)
    (safe : StepSafe keccak256 history move) : Kept keccak256 history move := by
  intro after passportId domain now score executed event known
  have submits := submits_of_ok executed event
  have notEmpty : domain ≠ [] := fun empty =>
    recorded.first safe submits event empty known
  have named := (recorded passportId).named known notEmpty
  obtain ⟨isRecord, -, -⟩ := execute_of_submits submits event
  have records := records_of_ok (isRecord.symm.trans executed)
  rw [records.reputations, Function.update_self, Function.update_self, opened,
    if_neg named]

/-- The empty domain counts one submission, so another is not refused for its count. -/
theorem AllRecorded.accepts_again (recorded : AllRecorded keccak256 used history)
    (known : [] ∈ submissions (history.log passportId)) (now : Nat) (scaled : score ≤ scale) :
    ∃ after, history.registry.recordFeedback keccak256 now passportId [] score = .ok after := by
  have here := recorded passportId
  apply exists_recordFeedback now scaled
  · rw [here.stored [] known]
    exact folded_score_le [] here.scaled
  · rw [here.stored [] known, folded_jobCount]
    have once := here.emptyOnce
    omega

/-- The empty domain is listed again by a submission for a record of it. -/
theorem two_le_of_records {key : B256} (later : Nat)
    (records : Records history.registry after passportId key [] now score)
    (listed : key ∈ history.registry.domainKeys passportId)
    (unnamed : (history.registry.reputations passportId key).domain = []) :
    2 ≤ (((after.domainKeys passportId).map (readRecord after later passportId)).filter
      fun rep => rep.domain = []).length := by
  have length : (history.registry.reputations passportId key).domain.length = 0 := by
    rw [unnamed]
    rfl
  have isEmpty : (readRecord after later passportId key).domain = [] := by
    rw [readRecord, records.reputations, Function.update_self, Function.update_self, opened,
      if_pos length]
    rfl
  rw [records.domainKeys, Function.update_self, keysAfter, if_pos length]
  exact two_le_filter_of_listed _ _ listed (decide_eq_true isEmpty)

/-- A second submission of the empty domain is recorded, and lists it again. -/
theorem AllRecorded.safe_of_sound (recorded : AllRecorded keccak256 used history)
    (injective : Set.InjOn keccak256 used)
    (member : ∀ passportId domain now score,
      move.event? = some (passportId, .feedback domain now score) → domain ∈ used)
    (sound : (history.step keccak256 move).Sound keccak256) :
    StepSafe keccak256 history move := by
  intro passportId now score event submits
  by_contra notFirst
  have here := recorded passportId
  have listed : keccak256 [] ∈ history.registry.domainKeys passportId := by
    by_contra notListed
    rw [here.absent _ notListed] at notFirst
    exact notFirst rfl
  have known := (here.listed_iff injective (member passportId [] now score event)).mp listed
  obtain ⟨isRecord, scaled, live⟩ := execute_of_submits submits event
  obtain ⟨after, called⟩ := recorded.accepts_again known now scaled
  have stepped : history.step keccak256 move =
      { registry := after
        log := Function.update history.log passportId
          (history.log passportId ++ [.feedback [] now score]) } := by
    unfold ReputationHistory.step
    rw [isRecord.trans called, event]
  rw [stepped] at sound
  have inLog : [] ∈ submissions (Function.update history.log passportId
      (history.log passportId ++ [.feedback [] now score]) passportId) := by
    rw [Function.update_self, submissions_feedback]
    exact List.mem_append_left _ known
  obtain ⟨listing, read, single⟩ :=
    (sound passportId [] inLog).listed move.identity now live
  rw [getAllReputations_of_live now live] at read
  cases read
  have unnamed : (history.registry.reputations passportId (keccak256 [])).domain = [] := by
    rw [here.stored [] known, folded_domain]
  have twice := two_le_of_records now (records_of_ok called) listed unnamed
  rw [single] at twice
  exact absurd twice (Nat.not_succ_le_self 1)

/-- The condition says exactly which calls keep the records sound and their scores
going. -/
theorem AllRecorded.stepSafe_iff (recorded : AllRecorded keccak256 used history)
    (injective : Set.InjOn keccak256 used)
    (member : ∀ passportId domain now score,
      move.event? = some (passportId, .feedback domain now score) → domain ∈ used) :
    StepSafe keccak256 history move ↔
      (history.step keccak256 move).Sound keccak256 ∧ Kept keccak256 history move := by
  constructor
  · intro safe
    exact ⟨(recorded.step injective member safe).sound injective, recorded.kept safe⟩
  · rintro ⟨sound, -⟩
    exact recorded.safe_of_sound injective member sound

/-- A registry of which nothing was heard yet. -/
def deployed (initialOwner sender : Address) : ReputationHistory where
  registry := ReputationRegistry.deployed initialOwner sender

theorem allRecorded_deployed (keccak256 : Bytes → B256) (used : Set Bytes)
    (initialOwner sender : Address) :
    AllRecorded keccak256 used (deployed initialOwner sender) := by
  intro passportId
  refine ⟨fun domain known => ?_, fun domain now score heardOf => ?_, List.nodup_nil,
    fun key => ?_, fun domain known => ?_, fun key _ => rfl, Nat.zero_le 1⟩
  · cases known
  · cases heardOf
  · constructor
    · intro listed
      cases listed
    · rintro ⟨domain, known, -⟩
      cases known
  · cases known

/-- The runs that submit the empty domain at most once for each passport are those in
which every submitted domain is listed once with the fold of its submissions, and no
submission starts a recorded score anew. -/
theorem feedback_recorded_iff (keccak256 : Bytes → B256) (initialOwner sender : Address)
    (moves : List ReputationMove) (injective : Set.InjOn keccak256 (domainsOf moves)) :
    let start := deployed initialOwner sender
    ((∀ history ∈ GuardedRun.states (step keccak256) start moves,
        history.Sound keccak256) ∧
      GuardedRun.Guarded (step keccak256) (Kept keccak256) start moves) ↔
        GuardedRun.Guarded (step keccak256) (StepSafe keccak256) start moves := by
  intro start
  have initial : AllRecorded keccak256 (domainsOf moves) start :=
    allRecorded_deployed keccak256 _ initialOwner sender
  have member : ∀ move ∈ moves, ∀ passportId domain now score,
      move.event? = some (passportId, .feedback domain now score) →
        domain ∈ domainsOf moves :=
    fun move inMoves passportId domain now score event =>
      ⟨move, inMoves, passportId, now, score, event⟩
  have exact : GuardedRun.Guarded _ _ start moves ↔ _ :=
    GuardedRun.guarded_iff_kept (step keccak256)
    (fun history move => StepSafe keccak256 history move ∧ move ∈ moves)
    (fun history move => Kept keccak256 history move ∧ move ∈ moves)
    (AllRecorded keccak256 (domainsOf moves)) (Sound keccak256)
    (fun history move recorded => by
      rw [← and_assoc]
      exact and_congr_left fun inMoves =>
        recorded.stepSafe_iff injective (member move inMoves))
    (fun history move recorded safe =>
      recorded.step injective (member move safe.2) safe.1)
    initial (initial.sound injective)
  rw [GuardedRun.guarded_and_mem, GuardedRun.guarded_and_mem] at exact
  exact exact.symm

/-- Two submissions of the owner in one domain. -/
theorem feedback_recorded_twice :
    let keccak256 : Bytes → B256 := fun bytes => bytes.length
    let identity := { IdentityRegistry.deployed 1 2 1 with owners := fun _ => 4 }
    let moves : List ReputationMove :=
      [⟨identity, ⟨1, 100, 7⟩, .submitFeedback 1 [5] 0⟩,
        ⟨identity, ⟨1, 200, 8⟩, .submitFeedback 1 [5] 0⟩]
    let start := deployed 1 1
    (∀ history ∈ GuardedRun.states (step keccak256) start moves,
        history.Sound keccak256) ∧
      GuardedRun.Guarded (step keccak256) (Kept keccak256) start moves := by
  intro keccak256 identity moves start
  refine (feedback_recorded_iff keccak256 1 1 moves ?_).mpr ?_
  · have single : ∀ domain ∈ domainsOf moves, domain = [5] := by
      rintro domain ⟨move, member, passportId, now, score, event⟩
      simp only [moves, List.mem_cons, List.not_mem_nil, or_false] at member
      rcases member with rfl | rfl
      · cases event
        rfl
      · cases event
        rfl
    intro first memberFirst second memberSecond _
    rw [single first memberFirst, single second memberSecond]
  · intro pair member passportId now score event
    have inMoves := GuardedRun.mem_of_mem_steps member
    simp only [moves, List.mem_cons, List.not_mem_nil, or_false] at inMoves
    rcases inMoves with same | same
    · rw [same] at event
      cases event
    · rw [same] at event
      cases event

/-- The empty domain, submitted twice by the owner, is listed twice, and its score starts
anew. -/
theorem empty_domain_restarts :
    let keccak256 : Bytes → B256 := fun bytes => bytes.length
    let identity := { IdentityRegistry.deployed 1 2 1 with owners := fun _ => 4 }
    let moves : List ReputationMove :=
      [⟨identity, ⟨1, 100, 7⟩, .submitFeedback 1 [] (.ofNat 256 scale)⟩,
        ⟨identity, ⟨1, 100, 7⟩, .submitFeedback 1 [] (.ofNat 256 scale)⟩]
    let start := deployed 1 1
    ¬ ((∀ history ∈ GuardedRun.states (step keccak256) start moves,
        history.Sound keccak256) ∧
      GuardedRun.Guarded (step keccak256) (Kept keccak256) start moves) := by
  rintro keccak256 identity moves start ⟨sound, -⟩
  have outcome : let last := moves.foldl (step keccak256) start
      [] ∈ submissions (last.log 1) ∧ requirePassport identity 1 = .ok () ∧
        (last.registry.getAllReputations identity 100 1).map (List.map (·.domain)) =
          .ok [[], []] := by
    decide
  obtain ⟨submittedHere, live, twice⟩ := outcome
  obtain ⟨records, read, single⟩ :=
    (sound _ (GuardedRun.foldl_mem_states start moves) 1 [] submittedHere).listed identity
      100 live
  rw [read] at twice
  have domains : records.map (·.domain) = [[], []] := Except.ok.inj twice
  have allEmpty : records.filter (fun record => record.domain = []) = records :=
    List.filter_eq_self.mpr fun record member => by
      have inDomains : record.domain ∈ records.map (·.domain) :=
        List.mem_map_of_mem member
      rw [domains] at inDomains
      simpa using inDomains
  have two : records.length = 2 := by
    rw [← List.length_map (·.domain), domains]
    rfl
  rw [← allEmpty, single] at two
  exact absurd two (by simp)

end ReputationHistory

end Roko
