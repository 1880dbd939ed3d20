import Roko.ByteEncoding
import Roko.ContentHash
import Roko.HashChain
import Roko.JsonValue
import Mathlib.Data.List.Range

/-!
# The append-only event log

The model of `roko-orchestrator/src/event_log.rs`.  Every method locks the mutex
once, so a method is one step on the state behind it.  BLAKE3 and
`serde_json::to_vec` come from other crates: they are the parameters `hash` and
`toVec`, and the clock that `append` reads is an argument.
-/

namespace Roko

/-- Classification of the events stored in the log. -/
inductive EventKind where
  | planStarted
  | taskAssigned
  | agentSpawned
  | cognitiveWorkspaceRecorded
  | gateResult
  | mergeAttempted
  | planCompleted
  | planFailed
  | errorOccurred
  | interventionFired
  | phaseTransition
  | enrichmentValidated
deriving DecidableEq

/-- The `Display` text, which is part of what is hashed. -/
def EventKind.toText : EventKind → String
  | .planStarted => "plan.started"
  | .taskAssigned => "task.assigned"
  | .agentSpawned => "agent.spawned"
  | .cognitiveWorkspaceRecorded => "cognitive_workspace.recorded"
  | .gateResult => "gate.result"
  | .mergeAttempted => "merge.attempted"
  | .planCompleted => "plan.completed"
  | .planFailed => "plan.failed"
  | .errorOccurred => "error.occurred"
  | .interventionFired => "intervention.fired"
  | .phaseTransition => "phase.transition"
  | .enrichmentValidated => "enrichment.validated"

/-- A single entry of the log. -/
structure EventEntry where
  sequenceNumber : UInt64
  timestampMs : Int64
  eventKind : EventKind
  payload : JsonValue
  contentHash : Digest
deriving DecidableEq

/-- Error of `verify_integrity`. -/
structure IntegrityError where
  atSequence : UInt64
  reason : String
deriving DecidableEq

/-- The log behind the mutex.  `EventLogSnapshot` has the same two fields. -/
structure EventLog where
  entries : List EventEntry
  tip : Digest
deriving DecidableEq

/-- The buffer that `EventEntry::compute_hash` hashes. -/
def hashBuffer (toVec : JsonValue → Option (List UInt8)) (seq : UInt64)
    (tsMs : Int64) (kind : EventKind) (payload : JsonValue)
    (prevHash : Digest) : List UInt8 :=
  textBytes "eventv1|" ++ (ByteEncoding.bigEndian 8 seq.toNat ++
    (ByteEncoding.bigEndian 8 tsMs.toUInt64.toNat ++ (prevHash.toList ++
      (ByteEncoding.lengthPrefixed (textBytes kind.toText) ++
        ByteEncoding.lengthPrefixed ((toVec payload).getD [])))))

/-- `EventEntry::compute_hash`. -/
def computeHash (hash : List UInt8 → Digest)
    (toVec : JsonValue → Option (List UInt8)) (seq : UInt64) (tsMs : Int64)
    (kind : EventKind) (payload : JsonValue) (prevHash : Digest) : Digest :=
  hash (hashBuffer toVec seq tsMs kind payload prevHash)

namespace EventLog

/-- `EventLog::new`. -/
def new : EventLog :=
  ⟨[], zeroHash⟩

/-- `EventLog::append` at the time `tsMs`. -/
def append (hash : List UInt8 → Digest)
    (toVec : JsonValue → Option (List UInt8)) (log : EventLog) (tsMs : Int64)
    (kind : EventKind) (payload : JsonValue) : EventLog × EventEntry :=
  let seq := UInt64.ofNat log.entries.length
  let contentHash := computeHash hash toVec seq tsMs kind payload log.tip
  let entry : EventEntry := ⟨seq, tsMs, kind, payload, contentHash⟩
  (⟨log.entries ++ [entry], contentHash⟩, entry)

/-- The loop of `verify_entry_sequences` from a given index on. -/
def verifyEntrySequences : Nat → List EventEntry → Except IntegrityError Unit
  | _, [] => .ok ()
  | index, entry :: entries =>
      let expected := UInt64.ofNat index
      if entry.sequenceNumber = expected then
        verifyEntrySequences (index + 1) entries
      else if expected = 0 then
        .error ⟨entry.sequenceNumber,
          "sequence starts at " ++ toString entry.sequenceNumber ++
            " (expected 0)"⟩
      else
        .error ⟨entry.sequenceNumber,
          "sequence " ++ toString entry.sequenceNumber ++ " follows " ++
            toString (expected - 1) ++ " (expected " ++ toString expected ++ ")"⟩

/-- The hash loop of `verify_integrity`: the last stored hash, or the first
mismatch. -/
def verifyHashes (hash : List UInt8 → Digest)
    (toVec : JsonValue → Option (List UInt8)) :
    Digest → List EventEntry → Except IntegrityError Digest
  | prevHash, [] => .ok prevHash
  | prevHash, entry :: entries =>
      let expected := computeHash hash toVec entry.sequenceNumber
        entry.timestampMs entry.eventKind entry.payload prevHash
      if entry.contentHash = expected then
        verifyHashes hash toVec entry.contentHash entries
      else
        .error ⟨entry.sequenceNumber,
          "hash mismatch: expected " ++ expected.short ++ ", got " ++
            entry.contentHash.short⟩

/-- `EventLog::verify_integrity`. -/
def verifyIntegrity (hash : List UInt8 → Digest)
    (toVec : JsonValue → Option (List UInt8)) (log : EventLog) :
    Except IntegrityError Unit := do
  verifyEntrySequences 0 log.entries
  let last ← verifyHashes hash toVec zeroHash log.entries
  if log.tip = last then .ok ()
  else
    .error ⟨UInt64.ofNat log.entries.length, "tip hash does not match final entry"⟩

/-- `EventLog::restore_verified`; a snapshot has the fields of the log. -/
def restoreVerified (hash : List UInt8 → Digest)
    (toVec : JsonValue → Option (List UInt8)) (snapshot : EventLog) :
    Except IntegrityError EventLog := do
  verifyIntegrity hash toVec snapshot
  .ok snapshot

end EventLog

/-!
# Tamper evidence of the event log

A log passes `verify_integrity` exactly when its entries are the records sealed
one after the other into a hash chain and its tip is the end of that chain.
Every log built by appends has that form, and two such logs with one tip hold
the same entries.
-/

/-- What an entry records, without its content hash. -/
structure EventRecord where
  sequenceNumber : UInt64
  timestampMs : Int64
  eventKind : EventKind
  payload : JsonValue

def EventEntry.record (entry : EventEntry) : EventRecord :=
  ⟨entry.sequenceNumber, entry.timestampMs, entry.eventKind, entry.payload⟩

def EventRecord.buffer (toVec : JsonValue → Option (List UInt8))
    (record : EventRecord) (prevHash : Digest) : List UInt8 :=
  hashBuffer toVec record.sequenceNumber record.timestampMs record.eventKind
    record.payload prevHash

theorem EventKind.toText_inj {left right : EventKind}
    (same : left.toText = right.toText) : left = right := by
  revert same
  cases left <;> cases right <;> decide

theorem EventKind.length_textBytes_lt (kind : EventKind) :
    (textBytes kind.toText).length < 2 ^ 32 := by
  cases kind <;> decide

/-- The hashed buffer determines every field, up to the serialized payload. -/
theorem hashBuffer_inj {toVec : JsonValue → Option (List UInt8)}
    {left right : EventRecord} {leftPrev rightPrev : Digest}
    (same : left.buffer toVec leftPrev = right.buffer toVec rightPrev) :
    left.sequenceNumber = right.sequenceNumber ∧
      left.timestampMs = right.timestampMs ∧
      left.eventKind = right.eventKind ∧
      (toVec left.payload).getD [] = (toVec right.payload).getD [] ∧
      leftPrev = rightPrev := by
  have afterTag := (List.append_inj same rfl).2
  obtain ⟨sameSeq, afterSeq⟩ := ByteEncoding.bigEndian_append_inj
    (by simpa using left.sequenceNumber.toNat_lt)
    (by simpa using right.sequenceNumber.toNat_lt) afterTag
  obtain ⟨sameTime, afterTime⟩ := ByteEncoding.bigEndian_append_inj
    (by simpa using left.timestampMs.toUInt64.toNat_lt)
    (by simpa using right.timestampMs.toUInt64.toNat_lt) afterSeq
  obtain ⟨samePrev, afterPrev⟩ := List.append_inj afterTime (by simp)
  obtain ⟨sameKind, samePayload⟩ := ByteEncoding.lengthPrefixed_append_inj
    left.eventKind.length_textBytes_lt right.eventKind.length_textBytes_lt
    afterPrev
  exact ⟨UInt64.toNat_inj.mp sameSeq,
    congrArg Int64.ofUInt64 (UInt64.toNat_inj.mp sameTime),
    EventKind.toText_inj (textBytes_inj sameKind),
    ByteEncoding.lengthPrefixed_inj samePayload,
    Vector.toList_inj.mp samePrev⟩

namespace EventLog

variable (hash : List UInt8 → Digest) (toVec : JsonValue → Option (List UInt8))

/-- The entries whose content hashes form a chain over the given records. -/
def sealRecords : Digest → List EventRecord → List EventEntry
  | _, [] => []
  | prevHash, record :: records =>
      let contentHash := hash (record.buffer toVec prevHash)
      ⟨record.sequenceNumber, record.timestampMs, record.eventKind,
        record.payload, contentHash⟩ :: sealRecords contentHash records

def records (log : EventLog) : List EventRecord :=
  log.entries.map EventEntry.record

/-- The buffers that a verification of the log hashes. -/
def hashedBuffers (log : EventLog) : List (List UInt8) :=
  HashChain.buffers hash (EventRecord.buffer toVec) zeroHash log.records

/-- A list of appends, each with its time, on the empty log. -/
def appendAll (calls : List (Int64 × EventKind × JsonValue)) : EventLog :=
  calls.foldl
    (fun log call => (log.append hash toVec call.1 call.2.1 call.2.2).1) new

variable {hash toVec}

theorem verifyEntrySequences_ok_iff (index : Nat) (entries : List EventEntry) :
    verifyEntrySequences index entries = .ok () ↔
      entries.map EventEntry.sequenceNumber =
        (List.range' index entries.length).map UInt64.ofNat := by
  induction entries generalizing index with
  | nil => simp [verifyEntrySequences]
  | cons entry entries ih =>
      simp only [verifyEntrySequences, List.map_cons, List.length_cons,
        List.range'_succ, List.cons.injEq]
      split
      case isTrue expected => simp [expected, ih]
      case isFalse unexpected =>
        split <;> simp [unexpected]

theorem verifyHashes_ok_iff (prevHash last : Digest)
    (entries : List EventEntry) :
    verifyHashes hash toVec prevHash entries = .ok last ↔
      entries = sealRecords hash toVec prevHash
          (entries.map EventEntry.record) ∧
        last = HashChain.tip hash (EventRecord.buffer toVec) prevHash
          (entries.map EventEntry.record) := by
  induction entries generalizing prevHash with
  | nil =>
      simp only [verifyHashes, List.map_nil, sealRecords, HashChain.tip,
        List.foldl_nil, true_and, Except.ok.injEq]
      exact eq_comm
  | cons entry entries ih =>
      have stepTip : HashChain.tip hash (EventRecord.buffer toVec) prevHash
          (entry.record :: entries.map EventEntry.record) =
          HashChain.tip hash (EventRecord.buffer toVec)
            (hash (entry.record.buffer toVec prevHash))
            (entries.map EventEntry.record) := rfl
      have stepHash : computeHash hash toVec entry.sequenceNumber
          entry.timestampMs entry.eventKind entry.payload prevHash =
          hash (entry.record.buffer toVec prevHash) := rfl
      have stepEntry : entry = (⟨entry.record.sequenceNumber,
            entry.record.timestampMs, entry.record.eventKind,
            entry.record.payload,
            hash (entry.record.buffer toVec prevHash)⟩ : EventEntry) ↔
          entry.contentHash = hash (entry.record.buffer toVec prevHash) := by
        cases entry
        simp [EventEntry.record]
      rw [verifyHashes, stepHash, List.map_cons, stepTip, sealRecords,
        List.cons.injEq, stepEntry]
      split
      case isTrue linked => rw [linked, ih, eq_self, true_and]
      case isFalse broken => simp [broken]

/-- What `verify_integrity` accepts: contiguous sequence numbers, and entries
and tip as the hash chain over the records makes them. -/
theorem verifyIntegrity_ok_iff (log : EventLog) :
    log.verifyIntegrity hash toVec = .ok () ↔
      log.entries.map EventEntry.sequenceNumber =
          (List.range' 0 log.entries.length).map UInt64.ofNat ∧
        log.entries = sealRecords hash toVec zeroHash log.records ∧
        log.tip = HashChain.tip hash (EventRecord.buffer toVec) zeroHash
          log.records := by
  rw [← verifyEntrySequences_ok_iff]
  unfold verifyIntegrity
  cases sequences : verifyEntrySequences 0 log.entries with
  | error failure => simp [bind, Except.bind]
  | ok done =>
      cases hashes : verifyHashes hash toVec zeroHash log.entries with
      | error failure =>
          have rejected : ¬ (log.entries = sealRecords hash toVec zeroHash
              log.records) := by
            intro sealed
            have accepted := (verifyHashes_ok_iff zeroHash _ log.entries).mpr
              ⟨sealed, rfl⟩
            rw [hashes] at accepted
            cases accepted
          simp [bind, Except.bind, rejected]
      | ok last =>
          obtain ⟨sealed, lastTip⟩ :=
            (verifyHashes_ok_iff zeroHash last log.entries).mp hashes
          have sealedRecords : log.entries =
            sealRecords hash toVec zeroHash log.records := sealed
          have tipRecords : last = HashChain.tip hash
            (EventRecord.buffer toVec) zeroHash log.records := lastTip
          rw [← tipRecords]
          by_cases sameTip : log.tip = last
          · simp [bind, Except.bind, sameTip, ← sealedRecords]
          · simp [bind, Except.bind, sameTip]

theorem sealRecords_append_singleton (prevHash : Digest)
    (front : List EventRecord) (record : EventRecord) :
    sealRecords hash toVec prevHash (front ++ [record]) =
      sealRecords hash toVec prevHash front ++
        [⟨record.sequenceNumber, record.timestampMs, record.eventKind,
          record.payload, hash (record.buffer toVec
            (HashChain.tip hash (EventRecord.buffer toVec) prevHash front))⟩] := by
  induction front generalizing prevHash with
  | nil => rfl
  | cons head front ih =>
      simp only [List.cons_append, sealRecords, ih, HashChain.tip,
        List.foldl_cons]

/-- An append keeps a verified log verified, whatever the clock says. -/
theorem verifyIntegrity_append {log : EventLog}
    (verified : log.verifyIntegrity hash toVec = .ok ()) (tsMs : Int64)
    (kind : EventKind) (payload : JsonValue) :
    (log.append hash toVec tsMs kind payload).1.verifyIntegrity hash toVec =
      .ok () := by
  rw [verifyIntegrity_ok_iff] at verified ⊢
  obtain ⟨numbered, sealed, tipEq⟩ := verified
  have recordsEq : (log.append hash toVec tsMs kind payload).1.records =
      log.records ++
        [⟨UInt64.ofNat log.entries.length, tsMs, kind, payload⟩] := by
    simp [records, append, EventEntry.record]
  have hashEq : computeHash hash toVec (UInt64.ofNat log.entries.length) tsMs
      kind payload log.tip = hash (EventRecord.buffer toVec
        ⟨UInt64.ofNat log.entries.length, tsMs, kind, payload⟩
        (HashChain.tip hash (EventRecord.buffer toVec) zeroHash log.records)) := by
    rw [← tipEq]
    rfl
  refine ⟨?_, ?_, ?_⟩
  · simp only [append, List.map_append, numbered, List.length_append,
      List.length_singleton, List.range'_1_concat]
    simp
  · rw [recordsEq, sealRecords_append_singleton, ← sealed, ← hashEq]
    rfl
  · rw [recordsEq, HashChain.tip_append_singleton, ← hashEq]
    rfl

theorem verifyIntegrity_appendAll
    (calls : List (Int64 × EventKind × JsonValue)) :
    (appendAll hash toVec calls).verifyIntegrity hash toVec = .ok () := by
  induction calls using List.reverseRecOn with
  | nil => simp [verifyIntegrity_ok_iff, appendAll, new, records, sealRecords,
      HashChain.tip]
  | append_singleton calls call ih =>
      rw [appendAll, List.foldl_append]
      exact verifyIntegrity_append ih call.1 call.2.1 call.2.2

theorem restoreVerified_ok_iff (snapshot log : EventLog) :
    restoreVerified hash toVec snapshot = .ok log ↔
      snapshot.verifyIntegrity hash toVec = .ok () ∧ log = snapshot := by
  unfold restoreVerified
  cases verified : snapshot.verifyIntegrity hash toVec with
  | error failure => simp [bind, Except.bind]
  | ok done => simp [bind, Except.bind, eq_comm]

/-- No collision occurs among the buffers the two logs hash, none of them
hashes to zero, and the payloads of the logs are serialized injectively.  A
32-byte hash cannot be injective on all byte strings, so the assumption is about
the buffers that occur. -/
structure CollisionFree (hash : List UInt8 → Digest)
    (toVec : JsonValue → Option (List UInt8)) (left right : EventLog) : Prop where
  hashInj : ∀ first ∈ left.hashedBuffers hash toVec,
    ∀ second ∈ right.hashedBuffers hash toVec,
      hash first = hash second → first = second
  leftNonzero : ∀ buffer ∈ left.hashedBuffers hash toVec,
    hash buffer ≠ zeroHash
  rightNonzero : ∀ buffer ∈ right.hashedBuffers hash toVec,
    hash buffer ≠ zeroHash
  toVecInj : ∀ first ∈ left.entries, ∀ second ∈ right.entries,
    toVec first.payload = toVec second.payload →
      first.payload = second.payload
  leftSerializes : ∀ entry ∈ left.entries, (toVec entry.payload).isSome = true
  rightSerializes : ∀ entry ∈ right.entries, (toVec entry.payload).isSome = true

theorem record_eq_of_buffer_eq {left right : EventLog}
    (collisionFree : CollisionFree hash toVec left right)
    {first second : EventRecord} (firstMem : first ∈ left.records)
    (secondMem : second ∈ right.records) {firstPrev secondPrev : Digest}
    (same : first.buffer toVec firstPrev = second.buffer toVec secondPrev) :
    first = second ∧ firstPrev = secondPrev := by
  obtain ⟨leftEntry, leftMem, rfl⟩ := List.mem_map.mp firstMem
  obtain ⟨rightEntry, rightMem, rfl⟩ := List.mem_map.mp secondMem
  obtain ⟨sameSeq, sameTime, sameKind, sameBytes, samePrev⟩ := hashBuffer_inj same
  obtain ⟨leftBytes, leftSome⟩ :=
    Option.isSome_iff_exists.mp (collisionFree.leftSerializes _ leftMem)
  obtain ⟨rightBytes, rightSome⟩ :=
    Option.isSome_iff_exists.mp (collisionFree.rightSerializes _ rightMem)
  have sameVec : toVec leftEntry.payload = toVec rightEntry.payload := by
    have bytes : (toVec leftEntry.payload).getD [] =
        (toVec rightEntry.payload).getD [] := sameBytes
    rw [leftSome, rightSome] at bytes ⊢
    exact congrArg some bytes
  have samePayload := collisionFree.toVecInj _ leftMem _ rightMem sameVec
  refine ⟨?_, samePrev⟩
  simp only [EventEntry.record, EventRecord.mk.injEq]
  exact ⟨sameSeq, sameTime, sameKind, samePayload⟩

theorem entries_eq_of_tip_eq {left right : EventLog}
    (collisionFree : CollisionFree hash toVec left right)
    (leftVerified : left.verifyIntegrity hash toVec = .ok ())
    (rightVerified : right.verifyIntegrity hash toVec = .ok ())
    (sameTip : left.tip = right.tip) : left.entries = right.entries := by
  obtain ⟨-, leftSealed, leftTip⟩ := (verifyIntegrity_ok_iff left).mp leftVerified
  obtain ⟨-, rightSealed, rightTip⟩ :=
    (verifyIntegrity_ok_iff right).mp rightVerified
  have sameRecords : left.records = right.records := by
    apply HashChain.eq_of_tip_eq hash (EventRecord.buffer toVec) zeroHash
    · intro first firstMem second secondMem firstPrev secondPrev same
      exact record_eq_of_buffer_eq collisionFree firstMem secondMem same
    · exact collisionFree.hashInj
    · exact collisionFree.leftNonzero
    · exact collisionFree.rightNonzero
    · rw [← leftTip, ← rightTip]
      exact sameTip
  rw [leftSealed, rightSealed, sameRecords]

/-- Every log built by appends verifies; two verified logs, or two snapshots that
`restore_verified` accepts, with the same tip have the same entries. -/
theorem verified_entries_determined_by_tip (hash : List UInt8 → Digest)
    (toVec : JsonValue → Option (List UInt8)) :
    (∀ calls, (appendAll hash toVec calls).verifyIntegrity hash toVec = .ok ()) ∧
    (∀ left right, CollisionFree hash toVec left right →
      left.verifyIntegrity hash toVec = .ok () →
      right.verifyIntegrity hash toVec = .ok () →
      left.tip = right.tip → left.entries = right.entries) ∧
    ∀ leftSnapshot rightSnapshot left right,
      CollisionFree hash toVec leftSnapshot rightSnapshot →
      restoreVerified hash toVec leftSnapshot = .ok left →
      restoreVerified hash toVec rightSnapshot = .ok right →
      left.tip = right.tip → left.entries = right.entries := by
  refine ⟨verifyIntegrity_appendAll, ?_, ?_⟩
  · intro left right collisionFree leftVerified rightVerified sameTip
    exact entries_eq_of_tip_eq collisionFree leftVerified rightVerified sameTip
  · intro leftSnapshot rightSnapshot left right collisionFree leftRestored
      rightRestored sameTip
    obtain ⟨leftVerified, rfl⟩ := (restoreVerified_ok_iff _ _).mp leftRestored
    obtain ⟨rightVerified, rfl⟩ := (restoreVerified_ok_iff _ _).mp rightRestored
    exact entries_eq_of_tip_eq collisionFree leftVerified rightVerified sameTip

/-- The payload of a sample entry, the bytes `serde_json::to_vec` gives for it,
and the BLAKE3 digest of the buffer of the entry. -/
def samplePayload : JsonValue :=
  .object [("plan", .string "p1")]

def sampleToVec (payload : JsonValue) : Option (List UInt8) :=
  if payload = samplePayload then
    some (textBytes "\x7b\"plan\":\"p1\"\x7d")
  else none

def sampleDigest : Digest :=
  #v[184, 71, 31, 19, 186, 248, 146, 225, 109, 27, 246, 136, 142, 18, 47, 227,
    230, 72, 204, 195, 160, 2, 193, 59, 121, 116, 86, 1, 76, 168, 237, 49]

def sampleHash (buffer : List UInt8) : Digest :=
  if buffer =
      hashBuffer sampleToVec 0 1700000000000 .planStarted samplePayload zeroHash
    then sampleDigest else zeroHash

def sampleSnapshot : EventLog :=
  ⟨[⟨0, 1700000000000, .planStarted, samplePayload, sampleDigest⟩], sampleDigest⟩

/-- A log of one append and the snapshot with its tip have the same entries. -/
theorem sample_entries_determined_by_tip :
    (appendAll sampleHash sampleToVec
      [(1700000000000, .planStarted, samplePayload)]).entries =
        sampleSnapshot.entries := by
  apply (verified_entries_determined_by_tip sampleHash sampleToVec).2.1
  · constructor <;> decide
  · exact (verified_entries_determined_by_tip sampleHash sampleToVec).1 _
  · decide
  · decide

end EventLog

end Roko
