import Roko.ForkTypes
import Roko.GuardedRuns
import Roko.IndexJoins

/-!
# The proof records of the chain crate

`roko-chain/src/validation_registry.rs`: the work proofs that agents submitted for jobs,
with an index of the jobs of each passport.  A rate is an abstract number.
-/

namespace Roko

namespace RokoChain

abbrev PassportId := BitVec 128

structure WorkProof where
  passportId : PassportId
  jobHash : B256
  deliverableMerkleRoot : B256 := 0
  gateResults : Bytes := []
  clearingCert : Bytes := []
  blockNumber : UInt64 := 0
  timestamp : UInt64 := 0
  deriving DecidableEq, Repr

/-- The arithmetic of rates: `a as f64 / b as f64` and `a >= b`. -/
structure RateArithmetic (Rate : Type) where
  quotient : Nat → Nat → Rate
  atLeast : Rate → Rate → Bool

structure GateScore (Rate : Type) where
  gateKind : String
  score : Rate
  passed : Bool
  deriving DecidableEq, Repr

structure ValidationRegistryConfig (Rate : Type) where
  minGatePassRate : Rate
  recentProofWindowBlocks : UInt64 := 1000
  rejectDuplicates : Bool := true
  deriving DecidableEq, Repr

structure ValidationRecord (Rate : Type) where
  proof : WorkProof
  gateScores : List (GateScore Rate)
  overallPassRate : Rate
  accepted : Bool
  attesterPassportId : Option PassportId
  deriving DecidableEq, Repr

inductive ValidationError
  | duplicateProof (jobHash : B256) (passportId : PassportId)
  deriving DecidableEq, Repr

inductive VerificationResult (Rate : Type)
  | verified (passRate : Rate) (blockNumber : UInt64) (attested : Bool)
  | rejected (passRate threshold : Rate)
  | notFound
  deriving DecidableEq, Repr

structure ValidationRegistry (Rate : Type) where
  config : ValidationRegistryConfig Rate
  records : Std.ExtTreeMap B256 (List (ValidationRecord Rate)) := ∅
  recordsByPassport : Std.ExtTreeMap PassportId (List B256) := ∅
  acceptedCount : Nat := 0
  rejectedCount : Nat := 0

namespace ValidationRegistry

variable {Rate : Type} (arithmetic : RateArithmetic Rate) (registry : ValidationRegistry Rate)

/-- The passport has a record for the job. -/
def isDuplicate (proof : WorkProof) : Bool :=
  match registry.records[proof.jobHash]? with
  | some existing => existing.any fun record => record.proof.passportId = proof.passportId
  | none => false

def newRecord (proof : WorkProof) (gateScores : List (GateScore Rate))
    (attester : Option PassportId) : ValidationRecord Rate :=
  let passCount := gateScores.countP (·.passed)
  let totalGates := max gateScores.length 1
  let overallPassRate := arithmetic.quotient passCount totalGates
  { proof, gateScores, overallPassRate
    accepted := arithmetic.atLeast overallPassRate registry.config.minGatePassRate
    attesterPassportId := attester }

def submitProof (proof : WorkProof) (gateScores : List (GateScore Rate))
    (attester : Option PassportId) :
    Except ValidationError (ValidationRecord Rate) × ValidationRegistry Rate :=
  if registry.config.rejectDuplicates && registry.isDuplicate proof then
    (.error (.duplicateProof proof.jobHash proof.passportId), registry)
  else
    let record := registry.newRecord arithmetic proof gateScores attester
    let jobRecords := registry.records[proof.jobHash]?.getD []
    let jobHashes := registry.recordsByPassport[proof.passportId]?.getD []
    (.ok record,
      { registry with
        acceptedCount := registry.acceptedCount + if record.accepted then 1 else 0
        rejectedCount := registry.rejectedCount + if record.accepted then 0 else 1
        records := registry.records.insert proof.jobHash (jobRecords ++ [record])
        recordsByPassport :=
          registry.recordsByPassport.insert proof.passportId (jobHashes ++ [proof.jobHash]) })

def verifyProof (jobHash : B256) (passportId : PassportId) : VerificationResult Rate :=
  match registry.records[jobHash]? with
  | none => .notFound
  | some records =>
      match records.find? (·.proof.passportId = passportId) with
      | none => .notFound
      | some record =>
          if record.accepted then
            .verified record.overallPassRate record.proof.blockNumber
              record.attesterPassportId.isSome
          else .rejected record.overallPassRate registry.config.minGatePassRate

def recordsForPassport (passportId : PassportId) : List (ValidationRecord Rate) :=
  match registry.recordsByPassport[passportId]? with
  | none => []
  | some jobHashes =>
      jobHashes.flatMap fun jobHash =>
        match registry.records[jobHash]? with
        | none => []
        | some records => records.filter (·.proof.passportId = passportId)

end ValidationRegistry

/-!
The records of a passport are read through the index of its jobs.  Each is read once
unless the passport has two records for one job, which only a registry that accepts
duplicates allows.
-/

open IndexJoin

structure Submission (Rate : Type) where
  proof : WorkProof
  gateScores : List (GateScore Rate)
  attester : Option PassportId

/-- The job and the passport of a submission. -/
def Submission.pair {Rate : Type} (submission : Submission Rate) : B256 × PassportId :=
  (submission.proof.jobHash, submission.proof.passportId)

namespace ValidationRegistry

variable {Rate : Type} (arithmetic : RateArithmetic Rate)

def new (config : ValidationRegistryConfig Rate) : ValidationRegistry Rate :=
  { config }

def result (registry : ValidationRegistry Rate) (submission : Submission Rate) :
    Except ValidationError (ValidationRecord Rate) :=
  (registry.submitProof arithmetic submission.proof submission.gateScores
    submission.attester).1

def step (registry : ValidationRegistry Rate) (submission : Submission Rate) :
    ValidationRegistry Rate :=
  (registry.submitProof arithmetic submission.proof submission.gateScores
    submission.attester).2

/-- The records that the submissions of a run returned, in their order. -/
def stored (registry : ValidationRegistry Rate) (submissions : List (Submission Rate)) :
    List (ValidationRecord Rate) :=
  (GuardedRun.steps (step arithmetic) registry submissions).filterMap fun taken =>
    (result arithmetic taken.1 taken.2).toOption

/-- The number of records that are kept for the jobs. -/
def storedCount (registry : ValidationRegistry Rate) : Nat :=
  ∑ jobHash ∈ registry.records.keys.toFinset, (registry.records[jobHash]?.getD []).length

def jobOf (record : ValidationRecord Rate) : B256 :=
  record.proof.jobHash

def passportOf (record : ValidationRecord Rate) : PassportId :=
  record.proof.passportId

def pairOf (record : ValidationRecord Rate) : B256 × PassportId :=
  (jobOf record, passportOf record)

/-- A registry with the records of a log. -/
structure Logged (config : ValidationRegistryConfig Rate) (log : List (ValidationRecord Rate))
    (registry : ValidationRegistry Rate) : Prop where
  same : registry.config = config
  records : Grouped jobOf id log registry.records
  jobs : Grouped passportOf jobOf log registry.recordsByPassport
  accepted : registry.acceptedCount = log.countP (·.accepted)
  rejected : registry.rejectedCount = log.countP fun record => !record.accepted

variable {arithmetic} {config : ValidationRegistryConfig Rate}
  {log : List (ValidationRecord Rate)} {registry : ValidationRegistry Rate}

theorem logged_new (config : ValidationRegistryConfig Rate) : Logged config [] (new config) where
  same := rfl
  records := grouped_empty jobOf id
  jobs := grouped_empty passportOf jobOf
  accepted := rfl
  rejected := rfl

theorem Logged.isDuplicate_iff (logged : Logged config log registry) (proof : WorkProof) :
    registry.isDuplicate proof = true ↔
      (proof.jobHash, proof.passportId) ∈ log.map pairOf := by
  have lookup : registry.isDuplicate proof =
      (registry.records[proof.jobHash]?.getD []).any
        fun record => record.proof.passportId = proof.passportId := by
    unfold isDuplicate
    cases registry.records[proof.jobHash]? <;> rfl
  rw [lookup, logged.records.getD_eq, groupOf, List.map_id, List.any_eq_true, List.mem_map]
  constructor
  · rintro ⟨record, member, passport⟩
    obtain ⟨stored, job⟩ := List.mem_filter.mp member
    exact ⟨record, stored, Prod.ext (of_decide_eq_true job) (of_decide_eq_true passport)⟩
  · rintro ⟨record, stored, same⟩
    obtain ⟨job, passport⟩ := Prod.mk.inj same
    exact ⟨record, List.mem_filter.mpr ⟨stored, decide_eq_true job⟩, decide_eq_true passport⟩

/-- The two ways a submission can go. -/
inductive Submitted (arithmetic : RateArithmetic Rate) (registry : ValidationRegistry Rate)
    (submission : Submission Rate) :
    Except ValidationError (ValidationRecord Rate) → ValidationRegistry Rate → Prop
  | refused (rejects : registry.config.rejectDuplicates = true)
      (duplicate : registry.isDuplicate submission.proof = true) :
      Submitted arithmetic registry submission
        (.error (.duplicateProof submission.proof.jobHash submission.proof.passportId)) registry
  | recorded {record : ValidationRecord Rate} {after : ValidationRegistry Rate}
      (allowed : registry.config.rejectDuplicates = false ∨
        registry.isDuplicate submission.proof = false)
      (ofProof : record.proof = submission.proof)
      (config : after.config = registry.config)
      (records : after.records = registry.records.insert (jobOf record)
        (registry.records[jobOf record]?.getD [] ++ [record]))
      (jobs : after.recordsByPassport = registry.recordsByPassport.insert (passportOf record)
        (registry.recordsByPassport[passportOf record]?.getD [] ++ [jobOf record]))
      (accepted : after.acceptedCount = registry.acceptedCount + record.accepted.toNat)
      (rejected : after.rejectedCount = registry.rejectedCount + (!record.accepted).toNat) :
      Submitted arithmetic registry submission (.ok record) after

theorem submitted (arithmetic : RateArithmetic Rate) (registry : ValidationRegistry Rate)
    (submission : Submission Rate) :
    Submitted arithmetic registry submission (result arithmetic registry submission)
      (step arithmetic registry submission) := by
  unfold result step submitProof
  split
  case isTrue refused =>
    obtain ⟨rejects, duplicate⟩ := Bool.and_eq_true_iff.mp refused
    exact .refused rejects duplicate
  case isFalse allowed =>
    dsimp only
    refine .recorded ?_ rfl rfl rfl rfl ?_ ?_
    · rw [Bool.and_eq_true_iff, not_and_or, Bool.not_eq_true, Bool.not_eq_true] at allowed
      exact allowed
    · cases (registry.newRecord arithmetic submission.proof submission.gateScores
        submission.attester).accepted <;> rfl
    · cases (registry.newRecord arithmetic submission.proof submission.gateScores
        submission.attester).accepted <;> rfl

/-- The record that a submission adds to the log, if any. -/
def added (arithmetic : RateArithmetic Rate) (registry : ValidationRegistry Rate)
    (submission : Submission Rate) : List (ValidationRecord Rate) :=
  (result arithmetic registry submission).toOption.toList

theorem Logged.step (logged : Logged config log registry) (submission : Submission Rate) :
    Logged config (log ++ added arithmetic registry submission)
      (step arithmetic registry submission) := by
  have submitted := submitted arithmetic registry submission
  unfold added
  generalize result arithmetic registry submission = result at submitted ⊢
  generalize ValidationRegistry.step arithmetic registry submission = after at submitted ⊢
  cases submitted with
  | refused rejects duplicate =>
      change Logged config (log ++ []) registry
      rw [List.append_nil]
      exact logged
  | @recorded record _ allowed ofProof config records jobs accepted rejected =>
      change Logged _ (log ++ [record]) after
      refine ⟨config.trans logged.same, ?_, ?_, ?_, ?_⟩
      · rw [records]
        exact logged.records.insert record
      · rw [jobs]
        exact logged.jobs.insert record
      · rw [accepted, logged.accepted, List.countP_append, List.countP_singleton]
        cases record.accepted <;> rfl
      · rw [rejected, logged.rejected, List.countP_append, List.countP_singleton]
        cases record.accepted <;> rfl

theorem stored_cons (registry : ValidationRegistry Rate) (submission : Submission Rate)
    (submissions : List (Submission Rate)) :
    stored arithmetic registry (submission :: submissions) =
      added arithmetic registry submission ++
        stored arithmetic (ValidationRegistry.step arithmetic registry submission)
          submissions := by
  unfold stored added
  rw [GuardedRun.steps, List.filterMap_cons]
  cases (result arithmetic registry submission).toOption <;> rfl

theorem Logged.run (logged : Logged config log registry) (submissions : List (Submission Rate)) :
    Logged config (log ++ stored arithmetic registry submissions)
      (submissions.foldl (ValidationRegistry.step arithmetic) registry) := by
  induction submissions generalizing log registry with
  | nil =>
      rw [stored, GuardedRun.steps, List.filterMap_nil, List.append_nil]
      exact logged
  | cons submission submissions ih =>
      rw [stored_cons, ← List.append_assoc]
      exact ih (logged.step submission)

theorem Logged.recordsForPassport_eq (logged : Logged config log registry)
    (passport : PassportId) :
    registry.recordsForPassport passport =
      join (fun job => log.filter fun record => jobOf record = job) passportOf
        ((log.filter fun record => passportOf record = passport).map jobOf) passport := by
  have lookup : registry.recordsForPassport passport =
      (registry.recordsByPassport[passport]?.getD []).flatMap fun job =>
        (registry.records[job]?.getD []).filter fun record => passportOf record = passport := by
    unfold recordsForPassport
    cases registry.recordsByPassport[passport]? with
    | none => rfl
    | some jobs =>
        refine List.flatMap_congr fun job _ => ?_
        cases registry.records[job]? <;> rfl
  rw [lookup, logged.jobs.getD_eq]
  unfold join groupOf
  refine List.flatMap_congr fun job _ => ?_
  rw [logged.records.getD_eq, groupOf, List.map_id]

theorem Logged.reads_iff (logged : Logged config log registry) :
    (∀ passport, registry.recordsForPassport passport =
      log.filter fun record => passportOf record = passport) ↔ (log.map pairOf).Nodup := by
  unfold pairOf
  rw [← forall_nodup_iff jobOf passportOf log]
  refine forall_congr' fun passport => ?_
  rw [logged.recordsForPassport_eq]
  exact join_eq_iff jobOf passportOf log passport

theorem Logged.counts (logged : Logged config log registry) :
    registry.acceptedCount + registry.rejectedCount = registry.storedCount := by
  rw [logged.accepted, logged.rejected, storedCount, logged.records.sum_length,
    List.length_eq_countP_add_countP fun record => record.accepted]
  refine congrArg _ (List.countP_congr fun record _ => ?_)
  cases record.accepted <;> decide

/-- What is answered about the first record that is for a job and a passport. -/
def verdictOf (config : ValidationRegistryConfig Rate) :
    Option (ValidationRecord Rate) → VerificationResult Rate
  | none => .notFound
  | some record =>
      if record.accepted then
        .verified record.overallPassRate record.proof.blockNumber
          record.attesterPassportId.isSome
      else .rejected record.overallPassRate config.minGatePassRate

theorem Logged.verifyProof_eq (logged : Logged config log registry) (jobHash : B256)
    (passport : PassportId) :
    registry.verifyProof jobHash passport =
      verdictOf config (log.find? fun record => pairOf record = (jobHash, passport)) := by
  have lookup : registry.verifyProof jobHash passport =
      verdictOf registry.config ((registry.records[jobHash]?.getD []).find?
        fun record => record.proof.passportId = passport) := by
    unfold verifyProof
    cases registry.records[jobHash]? with
    | none => rfl
    | some records =>
        dsimp only [Option.getD_some]
        cases records.find? fun record => record.proof.passportId = passport <;> rfl
  have both : (fun record : ValidationRecord Rate =>
      decide (decide (jobOf record = jobHash) = true ∧
        decide (record.proof.passportId = passport) = true)) =
      fun record => decide (pairOf record = (jobHash, passport)) := by
    funext record
    simp [pairOf, passportOf]
  rw [lookup, logged.same, logged.records.getD_eq, groupOf, List.map_id, List.find?_filter, both]

/-- The first submission for a job and a passport that is stored decides for good what is
answered about them, also where later ones are stored too. -/
theorem verifyProof_run (arithmetic : RateArithmetic Rate)
    (config : ValidationRegistryConfig Rate) (submissions : List (Submission Rate))
    (jobHash : B256) (passport : PassportId) :
    (submissions.foldl (step arithmetic) (new config)).verifyProof jobHash passport =
      verdictOf config ((stored arithmetic (new config) submissions).find?
        fun record => pairOf record = (jobHash, passport)) := by
  have logged : Logged config _ (submissions.foldl (step arithmetic) (new config)) :=
    (logged_new config).run submissions
  rw [List.nil_append] at logged
  exact logged.verifyProof_eq jobHash passport

/-- A registry that rejects duplicates has one record for a job and a passport. -/
theorem Logged.nodup_step (logged : Logged config log registry)
    (rejects : config.rejectDuplicates = true) (once : (log.map pairOf).Nodup)
    (submission : Submission Rate) :
    ((log ++ added arithmetic registry submission).map pairOf).Nodup := by
  have submitted := submitted arithmetic registry submission
  unfold added
  generalize result arithmetic registry submission = result at submitted ⊢
  generalize ValidationRegistry.step arithmetic registry submission = after at submitted
  cases submitted with
  | refused _ duplicate =>
      change ((log ++ []).map pairOf).Nodup
      rw [List.append_nil]
      exact once
  | @recorded record _ allowed ofProof _ _ _ _ _ =>
      change ((log ++ [record]).map pairOf).Nodup
      rw [List.map_append, List.map_singleton, List.nodup_append]
      refine ⟨once, List.nodup_singleton _, ?_⟩
      rintro pair known _ last rfl
      rw [List.mem_singleton] at last
      rw [logged.same, rejects] at allowed
      obtain off | unused := allowed
      · cases off
      · rw [last] at known
        have duplicate := (logged.isDuplicate_iff record.proof).mpr known
        rw [ofProof, unused] at duplicate
        cases duplicate

theorem Logged.nodup_run (logged : Logged config log registry)
    (rejects : config.rejectDuplicates = true) (once : (log.map pairOf).Nodup)
    (submissions : List (Submission Rate)) :
    ((log ++ stored arithmetic registry submissions).map pairOf).Nodup := by
  induction submissions generalizing log registry with
  | nil =>
      rw [stored, GuardedRun.steps, List.filterMap_nil, List.append_nil]
      exact once
  | cons submission submissions ih =>
      rw [stored_cons, ← List.append_assoc]
      exact ih (logged.step submission) (logged.nodup_step rejects once submission)

/-- A registry that accepts duplicates records every submission. -/
theorem Logged.pairs_run (logged : Logged config log registry)
    (accepts : config.rejectDuplicates = false) (submissions : List (Submission Rate)) :
    (stored arithmetic registry submissions).map pairOf = submissions.map Submission.pair := by
  induction submissions generalizing log registry with
  | nil => rfl
  | cons submission submissions ih =>
      have own : (added arithmetic registry submission).map pairOf =
          [Submission.pair submission] := by
        have submitted := submitted arithmetic registry submission
        unfold added
        generalize result arithmetic registry submission = result at submitted ⊢
        generalize ValidationRegistry.step arithmetic registry submission = after at submitted
        cases submitted with
        | refused rejects _ =>
            rw [logged.same, accepts] at rejects
            cases rejects
        | @recorded record _ _ ofProof _ _ _ _ _ =>
            change [(record.proof.jobHash, record.proof.passportId)] = _
            rw [ofProof]
            rfl
      rw [stored_cons, List.map_append, own, ih (logged.step submission)]
      rfl

/-- What holds after the submissions of a run. -/
structure RecordsRight (arithmetic : RateArithmetic Rate) (config : ValidationRegistryConfig Rate)
    (submissions : List (Submission Rate)) : Prop where
  kept : ∀ jobHash : B256,
    (submissions.foldl (step arithmetic) (new config)).records[jobHash]?.getD [] =
      (stored arithmetic (new config) submissions).filter fun record => jobOf record = jobHash
  reads : ∀ passport : PassportId,
    (submissions.foldl (step arithmetic) (new config)).recordsForPassport passport =
      (stored arithmetic (new config) submissions).filter
        fun record => passportOf record = passport
  counts : (submissions.foldl (step arithmetic) (new config)).acceptedCount +
      (submissions.foldl (step arithmetic) (new config)).rejectedCount =
    (submissions.foldl (step arithmetic) (new config)).storedCount
  refused : ∀ taken ∈ GuardedRun.steps (step arithmetic) (new config) submissions,
    ∀ error, result arithmetic taken.1 taken.2 = .error error →
      step arithmetic taken.1 taken.2 = taken.1

theorem records_right_iff (arithmetic : RateArithmetic Rate)
    (config : ValidationRegistryConfig Rate) (submissions : List (Submission Rate)) :
    RecordsRight arithmetic config submissions ↔
      config.rejectDuplicates = true ∨ (submissions.map Submission.pair).Nodup := by
  have initial := logged_new config
  have logged : Logged config ([] ++ stored arithmetic (new config) submissions) _ :=
    initial.run submissions
  have once : (∀ passport,
      (submissions.foldl (step arithmetic) (new config)).recordsForPassport passport =
        (stored arithmetic (new config) submissions).filter
          fun record => passportOf record = passport) ↔
      config.rejectDuplicates = true ∨ (submissions.map Submission.pair).Nodup := by
    rw [List.nil_append] at logged
    rw [logged.reads_iff]
    cases rejects : config.rejectDuplicates with
    | true => simpa using initial.nodup_run rejects List.nodup_nil submissions
    | false => simp [initial.pairs_run rejects submissions]
  rw [← once]
  refine ⟨RecordsRight.reads, fun reads => ⟨?_, reads, logged.counts, ?_⟩⟩
  · intro jobHash
    rw [logged.records.getD_eq, groupOf, List.map_id, List.nil_append]
  · intro taken _ error denied
    have submitted := submitted arithmetic taken.1 taken.2
    rw [denied] at submitted
    generalize step arithmetic taken.1 taken.2 = after at submitted ⊢
    cases submitted
    rfl

/-- A passport that submitted one job twice reads four records. -/
theorem duplicate_read_twice :
    ¬ ∀ (arithmetic : RateArithmetic Rat) (config : ValidationRegistryConfig Rat)
        (submissions : List (Submission Rat)), RecordsRight arithmetic config submissions := by
  intro right
  let arithmetic : RateArithmetic Rat :=
    { quotient := fun passed total => passed / total
      atLeast := fun rate threshold => threshold ≤ rate }
  let config : ValidationRegistryConfig Rat :=
    { minGatePassRate := 1 / 2, rejectDuplicates := false }
  let submission : Submission Rat :=
    { proof := { passportId := 42, jobHash := 1 }, gateScores := [⟨"gate_0", 9 / 10, true⟩]
      attester := none }
  have reads := (right arithmetic config [submission, submission]).reads 42
  have lengths := congrArg List.length reads
  exact absurd lengths (by decide +kernel)

end ValidationRegistry

end RokoChain

end Roko
