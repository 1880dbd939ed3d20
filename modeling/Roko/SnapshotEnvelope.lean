import Roko.ExecutorSnapshotDelta
import Roko.ByteEncoding

/-!
# Verified snapshots

`SnapshotVerifier` stores the JSON text of a snapshot in an envelope with its length and
its BLAKE3 hash.  The decoder cuts an arbitrary byte string at computed offsets; a cut out
of range would be a panic.
-/

namespace Roko

/-- A byte slice is at most `isize::MAX` bytes long. -/
structure ByteSlice where
  bytes : List UInt8
  fits : bytes.length < 2 ^ 63
  deriving DecidableEq

@[ext]
theorem ByteSlice.ext {first second : ByteSlice} (same : first.bytes = second.bytes) :
    first = second := by
  cases first
  cases second
  simpa using same

/-- The functions that `save_verified` and `load_verified` call. -/
structure EnvelopeSerde extends SnapshotSerde where
  snapshotFromSlice : List UInt8 → Except String ExecutorSnapshot

namespace SnapshotVerifier

open ByteEncoding

def magic : List UInt8 :=
  textBytes "ROKO"

def trailer : List UInt8 :=
  textBytes "END!"

variable (serde : EnvelopeSerde)

def verifyChecksum (data : List UInt8) (expected : Digest) :
    Except SnapshotIntegrityError Unit :=
  let actual := serde.hash data
  if actual = expected then .ok () else .error (.checksumMismatch expected actual)

/-- The text of a snapshot, by way of its JSON value. -/
def payloadOf (snapshot : ExecutorSnapshot) : Except String (List UInt8) := do
  let value ← serde.snapshotToValue snapshot
  serde.toVec value

def saveVerified (snapshot : ExecutorSnapshot) : Except String (List UInt8) := do
  let payload ← payloadOf serde snapshot
  let hash := serde.hash payload
  let len := UInt64.ofNat payload.length
  .ok (magic ++ littleEndian 8 len.toNat ++ payload ++ hash.toList ++ trailer)

/-- `&data[start..stop]`, which panics out of range. -/
def slice (data : List UInt8) (start stop : Nat) : Option (List UInt8) :=
  if start ≤ stop ∧ stop ≤ data.length then some ((data.take stop).drop start) else none

/-- `copy_from_slice` into an array, which panics on another length. -/
def copyFromSlice (size : Nat) (source : List UInt8) : Option (Vector UInt8 size) :=
  if fits : source.length = size then some ⟨source.toArray, by simpa using fits⟩ else none

def minSize : Nat := 4 + 8 + 32 + 4

/-- The end of `load_verified`. -/
def loadPayload (payload : List UInt8) (expectedHash : Digest) :
    Except SnapshotIntegrityError ExecutorSnapshot :=
  match verifyChecksum serde payload expectedHash with
  | .error failure => .error failure
  | .ok () =>
      match serde.snapshotFromSlice payload with
      | .error message => .error (.serializationFailed message)
      | .ok snapshot => .ok snapshot

/-- Nothing is returned when a cut is out of range. -/
def loadVerified (envelope : ByteSlice) :
    Option (Except SnapshotIntegrityError ExecutorSnapshot) :=
  let data := envelope.bytes
  if data.length < minSize then some (.error .tooShort)
  else do
    let first ← slice data 0 4
    if first ≠ magic then some (.error .badMagic)
    else do
      let last ← slice data (data.length - 4) data.length
      if last ≠ trailer then some (.error .badTrailer)
      else do
        let lenBytes ← (slice data 4 12).bind (copyFromSlice 8)
        let declared := UInt64.ofNat (fromLittleEndian lenBytes.toList)
        let available := data.length - 4 - 8 - 32 - 4
        if declared ≠ UInt64.ofNat available then
          some (.error (.lengthMismatch declared available))
        else do
          let payload ← slice data 12 (12 + available)
          let hashStart := 12 + available
          let expectedHash ← (slice data hashStart (hashStart + 32)).bind (copyFromSlice 32)
          some (loadPayload serde payload expectedHash)

/-- What is around the text of a snapshot. -/
def format : Envelope.Format 32 where
  magic := magic
  trailer := trailer
  hash := serde.hash

def Rejected (data : ByteSlice) : Prop :=
  ∃ failure, loadVerified serde data = some (.error failure)

/-- No other byte string has the hash of this one. -/
def CollisionFree (hash : List UInt8 → Digest) (payload : List UInt8) : Prop :=
  ∀ other, hash other = hash payload → other = payload

def payloadField (data : ByteSlice) : List UInt8 :=
  (data.bytes.drop 12).take (data.bytes.length - minSize)

def hashField (data : ByteSlice) : List UInt8 :=
  (data.bytes.drop (data.bytes.length - 36)).take 32

/-- The byte strings that are accepted, and those near a stored envelope that are not. -/
structure EnvelopeLaw (snapshot : ExecutorSnapshot) (envelope : ByteSlice) : Prop where
  loads : loadVerified serde envelope = some (.ok snapshot)
  total : ∀ data, loadVerified serde data ≠ none
  exact : ∀ data loaded, loadVerified serde data = some (.ok loaded) ↔
    ∃ payload, data.bytes = (format serde).wrap payload ∧
      serde.snapshotFromSlice payload = .ok loaded
  sole : ∀ first second loaded loaded',
    loadVerified serde first = some (.ok loaded) →
    loadVerified serde second = some (.ok loaded') → hashField first = hashField second →
    CollisionFree serde.hash (payloadField first) → first = second
  truncated : ∀ data : ByteSlice, data ≠ envelope →
    data.bytes <+: envelope.bytes ∨ data.bytes <:+ envelope.bytes → Rejected serde data
  extended : ∀ data : ByteSlice, data ≠ envelope →
    envelope.bytes <+: data.bytes ∨ envelope.bytes <:+ data.bytes → Rejected serde data
  altered : ∀ (data : ByteSlice) (index : Nat) (byte : UInt8), data ≠ envelope →
    data.bytes = envelope.bytes.set index byte → Rejected serde data

variable {serde}

theorem slice_append (before middle after : List UInt8) {data : List UInt8} {start stop : Nat}
    (parts : data = before ++ (middle ++ after)) (starts : before.length = start)
    (stops : start + middle.length = stop) : slice data start stop = some middle := by
  have inside : start ≤ stop ∧ stop ≤ data.length := by
    rw [parts, List.length_append, List.length_append]
    omega
  unfold slice
  rw [if_pos inside, List.drop_take, parts, List.drop_left' starts,
    List.take_left' (by omega)]

theorem copyFromSlice_toList {size : Nat} (digest : Vector UInt8 size) :
    copyFromSlice size digest.toList = some digest := by
  unfold copyFromSlice
  rw [dif_pos (by simp)]
  exact congrArg some (Vector.toList_inj.mp (by simp))

/-- The cuts of `load_verified` give the parts of a byte string that is long enough. -/
theorem loadVerified_parts {data : ByteSlice} {first : List UInt8} {digits : Vector UInt8 8}
    {payload : List UInt8} {expected : Digest} {last : List UInt8}
    (parts : data.bytes =
      first ++ (digits.toList ++ (payload ++ (expected.toList ++ last))))
    (four : first.length = 4) (four' : last.length = 4) :
    loadVerified serde data =
      some (
        if first ≠ magic then .error .badMagic
        else if last ≠ trailer then .error .badTrailer
        else if UInt64.ofNat (fromLittleEndian digits.toList) ≠
            UInt64.ofNat payload.length then
          .error (.lengthMismatch (UInt64.ofNat (fromLittleEndian digits.toList))
            payload.length)
        else loadPayload serde payload expected) := by
  have long : data.bytes.length = payload.length + 48 := by
    simp [parts, four, four']
    omega
  have enough : ¬ data.bytes.length < minSize := by
    rw [long, minSize]
    omega
  have available : payload.length + 48 - 4 - 8 - 32 - 4 = payload.length := by omega
  have cutFirst : slice data.bytes 0 4 = some first :=
    slice_append [] first _ parts rfl (by omega)
  have cutDigits : slice data.bytes 4 12 = some digits.toList :=
    slice_append first digits.toList _ parts four (by simp)
  have cutPayload : slice data.bytes 12 (12 + payload.length) = some payload := by
    apply slice_append (first ++ digits.toList) payload (expected.toList ++ last) _
      (by simp [four]) rfl
    rw [parts, List.append_assoc]
  have cutHash : slice data.bytes (12 + payload.length) (12 + payload.length + 32) =
      some expected.toList := by
    apply slice_append (first ++ digits.toList ++ payload) expected.toList last _
      (by simp [four]; omega) (by simp)
    simp only [parts, List.append_assoc]
  have cutLast : slice data.bytes (payload.length + 48 - 4) (payload.length + 48) =
      some last := by
    apply slice_append (first ++ digits.toList ++ payload ++ expected.toList) last [] _
      (by simp [four]; omega) (by omega)
    simp only [parts, List.append_assoc, List.append_nil]
  unfold loadVerified
  dsimp only
  rw [if_neg enough, long, available, cutFirst, cutDigits, cutPayload, cutHash, cutLast]
  simp only [Option.bind_some, copyFromSlice_toList, Option.bind_eq_bind]
  split
  · rfl
  split
  · rfl
  split
  · rfl
  · rfl

theorem exists_vector {size : Nat} {bytes : List UInt8} (long : bytes.length = size) :
    ∃ digits : Vector UInt8 size, digits.toList = bytes :=
  ⟨⟨bytes.toArray, by simpa using long⟩, by simp⟩

/-- A byte string that is long enough has such parts. -/
theorem exists_parts {data : ByteSlice} (enough : ¬ data.bytes.length < minSize) :
    ∃ (first : List UInt8) (digits : Vector UInt8 8) (expected : Digest) (last : List UInt8),
      data.bytes =
        first ++ (digits.toList ++ (payloadField data ++ (expected.toList ++ last))) ∧
        first.length = 4 ∧ last.length = 4 ∧ expected.toList = hashField data := by
  unfold minSize at enough
  obtain ⟨digits, digits_eq⟩ : ∃ digits : Vector UInt8 8,
      digits.toList = (data.bytes.drop 4).take 8 :=
    exists_vector (by rw [List.length_take, List.length_drop]; omega)
  obtain ⟨expected, expected_eq⟩ : ∃ expected : Digest, expected.toList = hashField data :=
    exists_vector (by rw [hashField, List.length_take, List.length_drop]; omega)
  refine ⟨data.bytes.take 4, digits, expected, data.bytes.drop (data.bytes.length - 4),
    ?_, by rw [List.length_take]; omega, by rw [List.length_drop]; omega, expected_eq⟩
  have tail : (data.bytes.drop (data.bytes.length - 36)).drop 32 =
      data.bytes.drop (data.bytes.length - 4) := by
    rw [List.drop_drop]
    congr 1
    omega
  have middle : (data.bytes.drop 12).drop (data.bytes.length - minSize) =
      data.bytes.drop (data.bytes.length - 36) := by
    rw [List.drop_drop, minSize]
    congr 1
    omega
  have start : (data.bytes.drop 4).drop 8 = data.bytes.drop 12 := by
    rw [List.drop_drop]
  rw [digits_eq, expected_eq, hashField, payloadField, ← tail, List.take_append_drop, ← middle,
    List.take_append_drop, ← start, List.take_append_drop, List.take_append_drop]

/-- No cut is out of range. -/
theorem loadVerified_total (data : ByteSlice) : loadVerified serde data ≠ none := by
  by_cases short : data.bytes.length < minSize
  · simp [loadVerified, short]
  · obtain ⟨first, digits, expected, last, parts, four, four', -⟩ := exists_parts short
    rw [loadVerified_parts parts four four']
    exact Option.some_ne_none _

theorem loadPayload_eq_ok {payload : List UInt8} {expected : Digest}
    {loaded : ExecutorSnapshot} :
    loadPayload serde payload expected = .ok loaded ↔
      serde.hash payload = expected ∧ serde.snapshotFromSlice payload = .ok loaded := by
  unfold loadPayload verifyChecksum
  by_cases same : serde.hash payload = expected
  · cases read : serde.snapshotFromSlice payload <;> simp [same]
  · simp [same]

/-- A declared length is that of the payload when its digits are those of the payload. -/
theorem digits_iff {digits : Vector UInt8 8} {payload : List UInt8}
    (small : payload.length < 2 ^ 63) :
    UInt64.ofNat (fromLittleEndian digits.toList) = UInt64.ofNat payload.length ↔
      digits.toList = littleEndian 8 payload.length := by
  have bound : fromLittleEndian digits.toList < 256 ^ 8 := by
    simpa using fromLittleEndian_lt digits.toList
  constructor
  · intro same
    have values := congrArg UInt64.toNat same
    rw [UInt64.toNat_ofNat', UInt64.toNat_ofNat', Nat.mod_eq_of_lt (by omega),
      Nat.mod_eq_of_lt (by omega)] at values
    rw [← values]
    exact (littleEndian_fromLittleEndian digits.length_toList).symm
  · intro same
    rw [same, fromLittleEndian_littleEndian, Nat.mod_eq_of_lt (by omega)]

/-- What is accepted has the form of an envelope, in every byte. -/
theorem loadVerified_eq_ok {data : ByteSlice} {loaded : ExecutorSnapshot} :
    loadVerified serde data = some (.ok loaded) ↔
      ¬ data.bytes.length < minSize ∧
        data.bytes = (format serde).wrap (payloadField data) ∧
        serde.snapshotFromSlice (payloadField data) = .ok loaded := by
  by_cases short : data.bytes.length < minSize
  · simp [loadVerified, short]
  obtain ⟨first, digits, expected, last, parts, four, four', -⟩ := exists_parts short
  have small : (payloadField data).length < 2 ^ 63 := by
    have fits := data.fits
    rw [payloadField, List.length_take, List.length_drop]
    omega
  have form : data.bytes = (format serde).wrap (payloadField data) ↔
      first = magic ∧ digits.toList = littleEndian 8 (payloadField data).length ∧
        expected = serde.hash (payloadField data) ∧ last = trailer := by
    rw [parts]
    exact Envelope.Format.parts_eq_wrap four digits.length_toList
  rw [loadVerified_parts parts four four', form, Option.some_inj, ← digits_iff small]
  simp only [ne_eq, ite_not, short, not_false_eq_true, true_and]
  split_ifs with isMagic isTrailer declared
  · rw [loadPayload_eq_ok, eq_comm]
    simp only [isMagic, isTrailer, declared, true_and, and_true]
  all_goals simp [*]

theorem length_wrap (payload : List UInt8) :
    ((format serde).wrap payload).length = payload.length + 48 := by
  rw [Envelope.Format.length_wrap]
  change 4 + 8 + payload.length + 32 + 4 = _
  omega

/-- The fields of an envelope are found at their offsets. -/
theorem fields_of_wrap {data : ByteSlice} {payload : List UInt8}
    (form : data.bytes = (format serde).wrap payload) :
    ¬ data.bytes.length < minSize ∧ payloadField data = payload ∧
      hashField data = (serde.hash payload).toList := by
  have long : data.bytes.length = payload.length + 48 := by rw [form, length_wrap]
  have front : ((format serde).front payload).length = 12 :=
    Envelope.Format.length_front payload
  refine ⟨by rw [long, minSize]; omega, ?_, ?_⟩
  · rw [payloadField, long, form, Envelope.Format.wrap, List.drop_left' front]
    exact List.take_left' (by rw [minSize]; omega)
  · rw [hashField, long, form, Envelope.Format.wrap, ← List.append_assoc,
      List.drop_left' (by rw [List.length_append, front]; omega)]
    exact List.take_left' (by simp)

theorem loadVerified_eq_ok_iff_wrap {data : ByteSlice} {loaded : ExecutorSnapshot} :
    loadVerified serde data = some (.ok loaded) ↔
      ∃ payload, data.bytes = (format serde).wrap payload ∧
        serde.snapshotFromSlice payload = .ok loaded := by
  rw [loadVerified_eq_ok]
  constructor
  · rintro ⟨-, form, read⟩
    exact ⟨_, form, read⟩
  · rintro ⟨payload, form, read⟩
    obtain ⟨enough, field, -⟩ := fields_of_wrap form
    rw [field]
    exact ⟨enough, form, read⟩

/-- A byte string is rejected unless it is an envelope. -/
theorem rejected_of_not_wrap {data : ByteSlice}
    (other : ∀ payload, data.bytes ≠ (format serde).wrap payload) : Rejected serde data := by
  match result : loadVerified serde data with
  | none => exact absurd result (loadVerified_total data)
  | some (.error failure) => exact ⟨failure, result⟩
  | some (.ok loaded) =>
      obtain ⟨payload, form, -⟩ := loadVerified_eq_ok_iff_wrap.mp result
      exact absurd form (other payload)

theorem saveVerified_eq_ok {snapshot : ExecutorSnapshot} {payload : List UInt8}
    {envelope : ByteSlice} (serialized : payloadOf serde snapshot = .ok payload)
    (saved : saveVerified serde snapshot = .ok envelope.bytes) :
    envelope.bytes = (format serde).wrap payload := by
  unfold saveVerified at saved
  rw [serialized] at saved
  have stored : magic ++ littleEndian 8 (UInt64.ofNat payload.length).toNat ++ payload ++
      (serde.hash payload).toList ++ trailer = envelope.bytes := Except.ok.inj saved
  have small : payload.length < 2 ^ 63 := by
    have fits := envelope.fits
    rw [← stored] at fits
    simp only [List.length_append] at fits
    omega
  rw [← stored, UInt64.toNat_ofNat', Nat.mod_eq_of_lt (by omega)]
  simp only [Envelope.Format.wrap, Envelope.Format.front, Envelope.Format.back, format,
    List.append_assoc]

/-- The text of an accepted byte string is shorter than `2 ^ 64`. -/
theorem length_lt_of_wrap {data : ByteSlice} {payload : List UInt8}
    (form : data.bytes = (format serde).wrap payload) : payload.length < 2 ^ 64 := by
  have fits := data.fits
  rw [form, length_wrap] at fits
  omega

/-- Accepted byte strings with one hash, of which only one text has it, are the same. -/
theorem sole_of_hashField {first second : ByteSlice} {loaded loaded' : ExecutorSnapshot}
    (accepted : loadVerified serde first = some (.ok loaded))
    (accepted' : loadVerified serde second = some (.ok loaded'))
    (same : hashField first = hashField second)
    (collisionFree : CollisionFree serde.hash (payloadField first)) : first = second := by
  obtain ⟨payload, form, -⟩ := loadVerified_eq_ok_iff_wrap.mp accepted
  obtain ⟨payload', form', -⟩ := loadVerified_eq_ok_iff_wrap.mp accepted'
  obtain ⟨-, field, hashed⟩ := fields_of_wrap form
  obtain ⟨-, -, hashed'⟩ := fields_of_wrap form'
  rw [hashed, hashed'] at same
  rw [field] at collisionFree
  have payloads := collisionFree payload' (Vector.toList_inj.mp same.symm)
  ext1
  rw [form, form', payloads]

/-- For a serializer that reads back what it writes, what is stored is loaded, and a byte
string near it is rejected. -/
theorem envelope_lawful {snapshot : ExecutorSnapshot} {payload : List UInt8}
    {envelope : ByteSlice} (serialized : payloadOf serde snapshot = .ok payload)
    (saved : saveVerified serde snapshot = .ok envelope.bytes)
    (roundTrips : serde.snapshotFromSlice payload = .ok snapshot)
    (collisionFree : CollisionFree serde.hash payload) :
    EnvelopeLaw serde snapshot envelope where
  loads := loadVerified_eq_ok_iff_wrap.mpr
    ⟨payload, saveVerified_eq_ok serialized saved, roundTrips⟩
  total := loadVerified_total
  exact _ _ := loadVerified_eq_ok_iff_wrap
  sole _ _ _ _ := sole_of_hashField
  truncated data different part := by
    have form := saveVerified_eq_ok serialized saved
    refine rejected_of_not_wrap fun other form' => different ?_
    ext1
    rw [form, form'] at part
    rw [form, form']
    obtain front | back := part
    · exact Envelope.Format.wrap_eq_of_prefix (length_lt_of_wrap form)
        (length_lt_of_wrap form') front
    · rw [collisionFree other (Envelope.Format.hash_eq_of_suffix back)]
  extended data different whole := by
    have form := saveVerified_eq_ok serialized saved
    refine rejected_of_not_wrap fun other form' => different ?_
    ext1
    rw [form, form'] at whole
    rw [form, form']
    obtain front | back := whole
    · exact (Envelope.Format.wrap_eq_of_prefix (length_lt_of_wrap form')
        (length_lt_of_wrap form) front).symm
    · rw [collisionFree other (Envelope.Format.hash_eq_of_suffix back).symm]
  altered data index byte different changed := by
    have form := saveVerified_eq_ok serialized saved
    refine rejected_of_not_wrap fun other form' => different ?_
    ext1
    rw [form, form'] at changed
    rw [form, form', collisionFree other (Envelope.Format.hash_eq_of_set changed)]

/-- Reading, too, as it is on the snapshots of `sampleRows`. -/
def sampleEnvelopeSerde : EnvelopeSerde where
  toSnapshotSerde := ExecutorSnapshot.sampleSerde
  snapshotFromSlice bytes :=
    match ExecutorSnapshot.sampleRows.find? fun row => textBytes row.text = bytes with
    | some row => .ok row.snapshot
    | none => .error "not a sample"

def samplePayload : List UInt8 :=
  textBytes "\x7b\"plan_states\":\x7b\x7d,\"queue_order\":[],\"schema_version\":1,\"speculative_executions\":\x7b\x7d,\"timestamp_ms\":0\x7d"

theorem samplePayload_sole : CollisionFree sampleEnvelopeSerde.hash samplePayload := by
  intro other same
  have hashed : sampleEnvelopeSerde.hash samplePayload =
      ExecutorSnapshot.sampleBaseDigest := by
    decide +kernel
  rw [hashed] at same
  change (match ExecutorSnapshot.sampleRows.find? fun row => textBytes row.text = other with
    | some row => row.digest
    | none => zeroHash) = _ at same
  split at same
  case h_1 row found =>
    have text : textBytes row.text = other := by simpa using List.find?_some found
    have listed := List.mem_of_find?_eq_some found
    have only : ∀ row ∈ ExecutorSnapshot.sampleRows,
        row.digest = ExecutorSnapshot.sampleBaseDigest → textBytes row.text = samplePayload := by
      decide +kernel
    rw [← text, only row listed same]
  case h_2 => exact absurd same (by decide +kernel)

def sampleEnvelope : ByteSlice where
  bytes := (format sampleEnvelopeSerde).wrap samplePayload
  fits := by decide +kernel

/-- The envelope of an empty snapshot. -/
theorem empty_snapshot_envelope :
    EnvelopeLaw sampleEnvelopeSerde (.new 0) sampleEnvelope :=
  envelope_lawful (by decide +kernel) (by decide +kernel)
    (by decide +kernel) samplePayload_sole

end SnapshotVerifier

end Roko
