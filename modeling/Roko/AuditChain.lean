import Roko.ByteEncoding
import Roko.ContentHash
import Roko.HashChain

/-!
# The audit chain

The model of `roko-orchestrator/src/safety/audit_chain.rs`.  An entry stores the
hash of its predecessor and no hash of its own, so `verify` recomputes the hashes
while it walks the links.  The entries carry no number: that two chains with one
tip have the same length follows from the links alone.  BLAKE3 is the parameter
`hash`, and the clock that `record` reads is an argument.
-/

namespace Roko

/-- `push_field`: a tag, and the body behind its capped length. -/
def pushField (buf : List UInt8) (tag : String) (body : List UInt8) : List UInt8 :=
  buf ++ (textBytes "|" ++ (textBytes tag ++
    (textBytes "=" ++ ByteEncoding.lengthPrefixed body)))

/-- A single entry on the chain. -/
structure AuditEntry where
  prevHash : Digest
  kind : String
  actor : String
  resource : String
  tsMs : Int64
  signature : Option String
deriving DecidableEq

/-- The link of the first entry. -/
def genesisPrevHash : Digest := zeroHash

namespace AuditEntry

/-- `AuditEntry::new` at the time `now`. -/
def new (prevHash : Digest) (kind actor resource : String) (now : Int64) :
    AuditEntry where
  prevHash := prevHash
  kind := kind
  actor := actor
  resource := resource
  tsMs := now
  signature := none

def withSignature (entry : AuditEntry) (signature : String) : AuditEntry :=
  { entry with signature := some signature }

/-- The buffer that `content_hash` hashes. -/
def buffer (entry : AuditEntry) : List UInt8 :=
  let buf := textBytes "auditv1|" ++ entry.prevHash.toList
  let buf := pushField buf "kind" (textBytes entry.kind)
  let buf := pushField buf "actor" (textBytes entry.actor)
  let buf := pushField buf "resource" (textBytes entry.resource)
  let buf := pushField buf "ts_ms"
    (ByteEncoding.bigEndian 8 entry.tsMs.toUInt64.toNat)
  match entry.signature with
  | some sig => pushField buf "sig+" (textBytes sig)
  | none => pushField buf "sig-" []

def contentHash (hash : List UInt8 → Digest) (entry : AuditEntry) : Digest :=
  hash entry.buffer

/-- Every field fits its length prefix. -/
structure Short (entry : AuditEntry) : Prop where
  kind : (textBytes entry.kind).length < 2 ^ 32
  actor : (textBytes entry.actor).length < 2 ^ 32
  resource : (textBytes entry.resource).length < 2 ^ 32
  signature : ∀ sig, entry.signature = some sig → (textBytes sig).length < 2 ^ 32

end AuditEntry

/-- `ChainInner`, the state behind the mutex. -/
structure AuditChain where
  entries : List AuditEntry
  tip : Digest
deriving DecidableEq

namespace AuditChain

def new : AuditChain :=
  ⟨[], zeroHash⟩

/-- `append`: whatever link the entry arrives with is replaced by the tip. -/
def append (hash : List UInt8 → Digest) (chain : AuditChain) (entry : AuditEntry) :
    AuditChain × AuditEntry :=
  let entry := { entry with prevHash := chain.tip }
  (⟨chain.entries ++ [entry], entry.contentHash hash⟩, entry)

/-- `record` at the time `now`. -/
def record (hash : List UInt8 → Digest) (chain : AuditChain)
    (kind actor resource : String) (now : Int64) : AuditChain × AuditEntry :=
  let entry := AuditEntry.new chain.tip kind actor resource now
  (⟨chain.entries ++ [entry], entry.contentHash hash⟩, entry)

/-- The loop of `verify`: the hash of the last entry, unless a link is broken. -/
def verifyLinks (hash : List UInt8 → Digest) :
    Digest → List AuditEntry → Option Digest
  | expectedPrev, [] => some expectedPrev
  | expectedPrev, entry :: entries =>
      if entry.prevHash ≠ expectedPrev then none
      else verifyLinks hash (entry.contentHash hash) entries

def verify (hash : List UInt8 → Digest) (chain : AuditChain) : Bool :=
  if chain.entries.isEmpty then chain.tip == genesisPrevHash
  else
    match verifyLinks hash genesisPrevHash chain.entries with
    | none => false
    | some expectedPrev => chain.tip == expectedPrev

/-- A call that adds to the chain. -/
inductive Call
  | append (entry : AuditEntry)
  | record (kind actor resource : String) (now : Int64)

def call (hash : List UInt8 → Digest) (chain : AuditChain) : Call → AuditChain
  | .append entry => (chain.append hash entry).1
  | .record kind actor resource now =>
      (chain.record hash kind actor resource now).1

end AuditChain

/-- Fields with tags of one length are split off the front of a buffer. -/
theorem pushField_append_inj {leftTag rightTag : String}
    {left right leftRest rightRest : List UInt8}
    (tagLengths : (textBytes leftTag).length = (textBytes rightTag).length)
    (leftBound : left.length < 2 ^ 32) (rightBound : right.length < 2 ^ 32)
    (same : pushField [] leftTag left ++ leftRest =
      pushField [] rightTag right ++ rightRest) :
    textBytes leftTag = textBytes rightTag ∧ left = right ∧
      leftRest = rightRest := by
  simp only [pushField, List.nil_append, List.append_assoc] at same
  have afterBar := (List.append_inj same rfl).2
  obtain ⟨tags, afterTag⟩ := List.append_inj afterBar tagLengths
  have afterSign := (List.append_inj afterTag rfl).2
  exact ⟨tags, ByteEncoding.lengthPrefixed_append_inj leftBound rightBound afterSign⟩

/-- The last field of the buffer. -/
def signatureField : Option String → List UInt8
  | some sig => pushField [] "sig+" (textBytes sig)
  | none => pushField [] "sig-" []

theorem signatureField_inj {left right : Option String}
    (leftBound : ∀ sig, left = some sig → (textBytes sig).length < 2 ^ 32)
    (rightBound : ∀ sig, right = some sig → (textBytes sig).length < 2 ^ 32)
    (same : signatureField left = signatureField right) : left = right := by
  have apart : textBytes "sig+" ≠ textBytes "sig-" := by decide
  have padded : signatureField left ++ [] = signatureField right ++ [] := by
    rw [same]
  cases left with
  | none =>
      cases right with
      | none => rfl
      | some rightSig =>
          obtain ⟨tags, -⟩ := pushField_append_inj (by decide) (by decide)
            (rightBound rightSig rfl) padded
          exact absurd tags.symm apart
  | some leftSig =>
      cases right with
      | none =>
          obtain ⟨tags, -⟩ := pushField_append_inj (by decide)
            (leftBound leftSig rfl) (by decide) padded
          exact absurd tags apart
      | some rightSig =>
          obtain ⟨-, bodies, -⟩ := pushField_append_inj rfl (leftBound leftSig rfl)
            (rightBound rightSig rfl) padded
          rw [textBytes_inj bodies]

/-- What an entry says, without its link. -/
structure AuditBody where
  kind : String
  actor : String
  resource : String
  tsMs : Int64
  signature : Option String

def AuditEntry.body (entry : AuditEntry) : AuditBody :=
  ⟨entry.kind, entry.actor, entry.resource, entry.tsMs, entry.signature⟩

def AuditBody.linkedTo (body : AuditBody) (prevHash : Digest) : AuditEntry :=
  ⟨prevHash, body.kind, body.actor, body.resource, body.tsMs, body.signature⟩

@[simp]
theorem AuditEntry.body_linkedTo (entry : AuditEntry) :
    entry.body.linkedTo entry.prevHash = entry :=
  rfl

theorem AuditEntry.buffer_eq (entry : AuditEntry) :
    entry.buffer = textBytes "auditv1|" ++ (entry.prevHash.toList ++
      (pushField [] "kind" (textBytes entry.kind) ++
        (pushField [] "actor" (textBytes entry.actor) ++
          (pushField [] "resource" (textBytes entry.resource) ++
            (pushField [] "ts_ms"
              (ByteEncoding.bigEndian 8 entry.tsMs.toUInt64.toNat) ++
                signatureField entry.signature))))) := by
  obtain ⟨prevHash, kind, actor, resource, tsMs, signature⟩ := entry
  cases signature <;> simp [buffer, signatureField, pushField]

/-- The hashed buffer determines the entry, its link and its signature
included. -/
theorem AuditEntry.buffer_inj {left right : AuditEntry} (leftShort : left.Short)
    (rightShort : right.Short) (same : left.buffer = right.buffer) :
    left = right := by
  rw [buffer_eq, buffer_eq] at same
  have afterVersion := (List.append_inj same rfl).2
  obtain ⟨links, afterLink⟩ := List.append_inj afterVersion (by simp)
  obtain ⟨-, kinds, afterKind⟩ :=
    pushField_append_inj rfl leftShort.kind rightShort.kind afterLink
  obtain ⟨-, actors, afterActor⟩ :=
    pushField_append_inj rfl leftShort.actor rightShort.actor afterKind
  obtain ⟨-, resources, afterResource⟩ :=
    pushField_append_inj rfl leftShort.resource rightShort.resource afterActor
  obtain ⟨-, times, signatures⟩ :=
    pushField_append_inj rfl (by simp) (by simp) afterResource
  have sameTime : left.tsMs.toUInt64.toNat = right.tsMs.toUInt64.toNat :=
    ByteEncoding.bigEndian_inj (by simpa using left.tsMs.toUInt64.toNat_lt)
      (by simpa using right.tsMs.toUInt64.toNat_lt) times
  have sameTs : left.tsMs = right.tsMs :=
    congrArg Int64.ofUInt64 (UInt64.toNat_inj.mp sameTime)
  have sameSignature :=
    signatureField_inj leftShort.signature rightShort.signature signatures
  cases left
  cases right
  simp only [AuditEntry.mk.injEq]
  exact ⟨Vector.toList_inj.mp links, textBytes_inj kinds, textBytes_inj actors,
    textBytes_inj resources, sameTs, sameSignature⟩

namespace AuditChain

/-- The buffer of a body that is linked to the digest. -/
def bodyBuffer (body : AuditBody) (prevHash : Digest) : List UInt8 :=
  (body.linkedTo prevHash).buffer

def bodies (chain : AuditChain) : List AuditBody :=
  chain.entries.map AuditEntry.body

/-- The buffers that a verification of the chain hashes. -/
def hashedBuffers (hash : List UInt8 → Digest) (chain : AuditChain) :
    List (List UInt8) :=
  HashChain.buffers hash bodyBuffer genesisPrevHash chain.bodies

/-- A list of calls on the empty chain. -/
def callAll (hash : List UInt8 → Digest) (calls : List Call) : AuditChain :=
  calls.foldl (call hash) new

variable {hash : List UInt8 → Digest}

theorem verifyLinks_eq_some_iff (prevHash last : Digest)
    (entries : List AuditEntry) :
    verifyLinks hash prevHash entries = some last ↔
      entries.map (fun entry => (entry.body, entry.prevHash)) =
          HashChain.linked hash bodyBuffer prevHash
            (entries.map AuditEntry.body) ∧
        last = HashChain.tip hash bodyBuffer prevHash
          (entries.map AuditEntry.body) := by
  induction entries generalizing prevHash with
  | nil =>
      simp only [verifyLinks, List.map_nil, HashChain.linked, HashChain.tip,
        List.foldl_nil, true_and, Option.some.injEq]
      exact eq_comm
  | cons entry entries ih =>
      rw [verifyLinks, List.map_cons, List.map_cons, HashChain.linked,
        List.cons.injEq, Prod.mk.injEq]
      by_cases linked : entry.prevHash = prevHash
      · have stepHash : entry.contentHash hash =
            hash (bodyBuffer entry.body prevHash) := by
          rw [← linked]
          rfl
        have stepTip : HashChain.tip hash bodyBuffer prevHash
            (entry.body :: entries.map AuditEntry.body) =
            HashChain.tip hash bodyBuffer (hash (bodyBuffer entry.body prevHash))
              (entries.map AuditEntry.body) := rfl
        rw [if_neg (not_not.mpr linked), ih, stepHash, stepTip]
        simp [linked]
      · simp [linked]

/-- What `verify` accepts: each entry linked to the hash of the one before it,
and the hash of the last one as the tip. -/
theorem verify_iff (chain : AuditChain) :
    chain.verify hash = true ↔
      chain.entries.map (fun entry => (entry.body, entry.prevHash)) =
          HashChain.linked hash bodyBuffer genesisPrevHash chain.bodies ∧
        chain.tip = HashChain.tip hash bodyBuffer genesisPrevHash
          chain.bodies := by
  unfold verify bodies
  cases empty : chain.entries with
  | nil => simp [HashChain.linked, HashChain.tip]
  | cons entry entries =>
      rw [← empty, if_neg (by simp [empty])]
      cases walked : verifyLinks hash genesisPrevHash chain.entries with
      | none =>
          simp only [Bool.false_eq_true, false_iff, not_and]
          intro linked
          have found := (verifyLinks_eq_some_iff genesisPrevHash _
            chain.entries).mpr ⟨linked, rfl⟩
          rw [walked] at found
          cases found
      | some last =>
          obtain ⟨linked, rfl⟩ := (verifyLinks_eq_some_iff genesisPrevHash last
            chain.entries).mp walked
          simp [linked]

/-- An entry linked to the tip keeps a verified chain verified. -/
theorem verify_push {chain : AuditChain} (verified : chain.verify hash = true)
    {entry : AuditEntry} (linked : entry.prevHash = chain.tip) :
    AuditChain.verify hash ⟨chain.entries ++ [entry], entry.contentHash hash⟩ =
      true := by
  rw [verify_iff] at verified ⊢
  obtain ⟨links, tipEq⟩ := verified
  have bodiesEq : bodies ⟨chain.entries ++ [entry], entry.contentHash hash⟩ =
      chain.bodies ++ [entry.body] := by
    simp [bodies]
  constructor
  · rw [bodiesEq, HashChain.linked_append_singleton, ← links, ← tipEq, ← linked]
    simp
  · rw [bodiesEq, HashChain.tip_append_singleton, ← tipEq, ← linked]
    rfl

theorem verify_call {chain : AuditChain} (verified : chain.verify hash = true)
    (next : Call) : (chain.call hash next).verify hash = true := by
  cases next with
  | append entry => exact verify_push verified rfl
  | record kind actor resource now => exact verify_push verified rfl

theorem verify_callAll (calls : List Call) :
    (callAll hash calls).verify hash = true := by
  induction calls using List.reverseRecOn with
  | nil => simp [verify_iff, callAll, new, bodies, HashChain.linked,
      HashChain.tip, genesisPrevHash]
  | append_singleton calls last ih =>
      rw [callAll, List.foldl_append]
      exact verify_call ih last

/-- No collision occurs among the buffers the two chains hash, and none of them
hashes to zero.  A 32-byte hash cannot be injective on all byte strings, so the
assumption is about the buffers that occur. -/
structure CollisionFree (hash : List UInt8 → Digest) (left right : AuditChain) :
    Prop where
  hashInj : ∀ first ∈ left.hashedBuffers hash,
    ∀ second ∈ right.hashedBuffers hash,
      hash first = hash second → first = second
  leftNonzero : ∀ buffer ∈ left.hashedBuffers hash, hash buffer ≠ genesisPrevHash
  rightNonzero : ∀ buffer ∈ right.hashedBuffers hash,
    hash buffer ≠ genesisPrevHash

theorem short_linkedTo {entry : AuditEntry} (short : entry.Short)
    (prevHash : Digest) : (entry.body.linkedTo prevHash).Short :=
  ⟨short.kind, short.actor, short.resource, short.signature⟩

theorem entries_eq_of_same_tip {left right : AuditChain}
    (collisionFree : CollisionFree hash left right)
    (leftShort : ∀ entry ∈ left.entries, entry.Short)
    (rightShort : ∀ entry ∈ right.entries, entry.Short)
    (leftVerified : left.verify hash = true)
    (rightVerified : right.verify hash = true)
    (sameTip : left.tip = right.tip) : left.entries = right.entries := by
  obtain ⟨leftLinks, leftTip⟩ := (verify_iff left).mp leftVerified
  obtain ⟨rightLinks, rightTip⟩ := (verify_iff right).mp rightVerified
  have sameBodies : left.bodies = right.bodies := by
    apply HashChain.eq_of_tip_eq hash bodyBuffer genesisPrevHash
    · intro first firstMem second secondMem firstPrev secondPrev same
      obtain ⟨leftEntry, leftMem, rfl⟩ := List.mem_map.mp firstMem
      obtain ⟨rightEntry, rightMem, rfl⟩ := List.mem_map.mp secondMem
      have sameEntry := AuditEntry.buffer_inj
        (short_linkedTo (leftShort _ leftMem) firstPrev)
        (short_linkedTo (rightShort _ rightMem) secondPrev) same
      have sameBody : (leftEntry.body.linkedTo firstPrev).body =
          (rightEntry.body.linkedTo secondPrev).body := by rw [sameEntry]
      exact ⟨sameBody, congrArg AuditEntry.prevHash sameEntry⟩
    · exact collisionFree.hashInj
    · exact collisionFree.leftNonzero
    · exact collisionFree.rightNonzero
    · rw [← leftTip, ← rightTip]
      exact sameTip
  have splitInj : Function.Injective
      fun entry : AuditEntry => (entry.body, entry.prevHash) := by
    intro first second same
    obtain ⟨sameBody, sameLink⟩ := Prod.mk.inj same
    rw [← first.body_linkedTo, ← second.body_linkedTo, sameBody, sameLink]
  apply List.map_injective_iff.mpr splitInj
  rw [leftLinks, rightLinks, sameBodies]

/-- Every chain built by calls verifies, and two verified chains with the same
tip have the same entries. -/
theorem audit_determined_by_tip (hash : List UInt8 → Digest) :
    (∀ calls, (callAll hash calls).verify hash = true) ∧
    ∀ left right, CollisionFree hash left right →
      (∀ entry ∈ left.entries, entry.Short) →
      (∀ entry ∈ right.entries, entry.Short) →
      left.verify hash = true → right.verify hash = true →
      left.tip = right.tip → left.entries = right.entries :=
  ⟨verify_callAll, fun _ _ => entries_eq_of_same_tip⟩

def sampleAuditDigest : Digest :=
  #v[117, 21, 140, 15, 182, 150, 184, 145, 164, 84, 196, 99, 64, 248, 131, 146,
    9, 193, 96, 185, 217, 56, 248, 224, 148, 27, 43, 211, 159, 80, 8, 226]

/-- An entry that arrives with a link of its own, and the BLAKE3 digest of its
buffer once it is linked to the empty chain. -/
def sampleAudit : AuditEntry :=
  (AuditEntry.new sampleAuditDigest "permit.committed" "agent-b" "r2"
    1700000000000).withSignature "s1"

def sampleAuditHash (buffer : List UInt8) : Digest :=
  if buffer = { sampleAudit with prevHash := zeroHash }.buffer
    then sampleAuditDigest else zeroHash

def auditSnapshot : AuditChain :=
  ⟨[{ sampleAudit with prevHash := zeroHash }], sampleAuditDigest⟩

theorem audit_determined_by_tip_signed :
    (callAll sampleAuditHash [.append sampleAudit]).entries =
      auditSnapshot.entries := by
  apply (audit_determined_by_tip sampleAuditHash).2
  · constructor <;> decide
  · intro entry member
    rw [List.mem_singleton.mp member]
    exact ⟨by decide, by decide, by decide, by simp [sampleAudit]; decide⟩
  · intro entry member
    rw [List.mem_singleton.mp member]
    exact ⟨by decide, by decide, by decide, by decide⟩
  · exact (audit_determined_by_tip sampleAuditHash).1 _
  · decide
  · decide

end AuditChain

end Roko
