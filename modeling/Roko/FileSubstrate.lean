import Roko.ContentHash
import Roko.TextLines
import Mathlib.Data.List.Induction

/-!
# The file substrate

The model of `FileSubstrate` in `roko-fs/src/file_substrate.rs`: a log of engrams, one line
of JSON each, and the index that is built from it when the substrate is opened.  What is
known of an engram is a parameter: its id, its JSON text, and what
`attach_hdc_fingerprint` makes of it.
-/

namespace Roko

/-- An engram as the substrate sees it.  The texts are those of `serde_json::to_string` and
`from_str`. -/
structure EngramCodec (Engram : Type) where
  id : Engram → Digest
  attachHdcFingerprint : Engram → Engram
  toJson : Engram → String
  fromJson : String → Option Engram

/-- What serde_json does with the texts of engrams: it writes an object on one line, and
reads it back. -/
structure EngramCodec.RoundTrips {Engram : Type} (codec : EngramCodec Engram) : Prop where
  roundTrip : ∀ engram, codec.fromJson (codec.toJson engram) = some engram
  object : ∀ engram, ∃ inner, codec.toJson engram = "\x7b" ++ inner ++ "\x7d"
  oneLine : ∀ engram, TextLines.newline ∉ textBytes (codec.toJson engram)

/-- A substrate: the bytes of its log file, and the engrams of its index. -/
structure FileSubstrate (Engram : Type) where
  log : List UInt8
  index : List Engram
  deriving DecidableEq, Repr

namespace FileSubstrate

variable {Engram : Type} (codec : EngramCodec Engram)

/-- `HashMap::insert` under the id of the engram. -/
def insert (index : List Engram) (engram : Engram) : List Engram :=
  index.filter (fun other => codec.id other ≠ codec.id engram) ++ [engram]

def containsKey (index : List Engram) (id : Digest) : Bool :=
  index.any fun engram => codec.id engram = id

/-- The line that an engram is appended as. -/
def lineBytes (engram : Engram) : List UInt8 :=
  textBytes (codec.toJson engram) ++ [TextLines.newline]

/-- The body of the loop of `replay_log`.  `next_line` fails on bytes that are not UTF-8;
blank and malformed lines are skipped. -/
def replayLine (index : List Engram) (line : List UInt8) : Option (List Engram) :=
  match TextLines.decode (TextLines.chomp line) with
  | none => none
  | some text =>
      if TextLines.isBlank text then some index
      else match codec.fromJson text with
        | some engram => some (insert codec index engram)
        | none => some index

def replayLog (log : List UInt8) : Option (List Engram) :=
  (TextLines.split log).foldlM (replayLine codec) []

/-- Open the substrate of a log; `none` is an error. -/
def «open» (log : List UInt8) : Option (FileSubstrate Engram) :=
  (replayLog codec log).map fun index => { log, index }

/-- Put an engram, and return the id it is stored under. -/
def put (substrate : FileSubstrate Engram) (engram : Engram) :
    FileSubstrate Engram × Digest :=
  if containsKey codec substrate.index (codec.id engram) then (substrate, codec.id engram)
  else
    let engram := codec.attachHdcFingerprint engram
    ({ log := substrate.log ++ lineBytes codec engram
       index := insert codec substrate.index engram }, codec.id engram)

/-- The log of some records. -/
def encode (records : List Engram) : List UInt8 :=
  records.flatMap (lineBytes codec)

/-- The index of some records. -/
def indexOf (records : List Engram) : List Engram :=
  records.foldl (insert codec) []

/-- The substrate that some records make. -/
def ofRecords (records : List Engram) : FileSubstrate Engram where
  log := encode codec records
  index := indexOf codec records

@[simp]
theorem encode_append (first second : List Engram) :
    encode codec (first ++ second) = encode codec first ++ encode codec second :=
  List.flatMap_append

theorem encode_singleton (engram : Engram) : encode codec [engram] = lineBytes codec engram :=
  List.append_nil _

variable {codec}

theorem mem_insert {index : List Engram} {engram other : Engram} :
    other ∈ insert codec index engram ↔
      other = engram ∨ other ∈ index ∧ codec.id other ≠ codec.id engram := by
  rw [insert, List.mem_append, List.mem_filter, List.mem_singleton, decide_eq_true_eq]
  exact or_comm

theorem containsKey_iff {index : List Engram} {id : Digest} :
    containsKey codec index id = true ↔ ∃ engram ∈ index, codec.id engram = id := by
  simp [containsKey]

theorem indexOf_concat (records : List Engram) (engram : Engram) :
    indexOf codec (records ++ [engram]) = insert codec (indexOf codec records) engram := by
  simp [indexOf, List.foldl_append]

theorem containsKey_insert {index : List Engram} {engram : Engram} {id : Digest} :
    containsKey codec (insert codec index engram) id = true ↔
      id = codec.id engram ∨ containsKey codec index id = true := by
  rw [containsKey_iff, containsKey_iff]
  constructor
  · rintro ⟨other, member, same⟩
    rcases mem_insert.mp member with rfl | ⟨older, _⟩
    · exact Or.inl same.symm
    · exact Or.inr ⟨other, older, same⟩
  · intro found
    by_cases same : id = codec.id engram
    · exact ⟨engram, mem_insert.mpr (Or.inl rfl), same.symm⟩
    · obtain ⟨other, member, rfl⟩ := found.resolve_left same
      exact ⟨other, mem_insert.mpr (Or.inr ⟨member, same⟩), rfl⟩

theorem containsKey_indexOf {records : List Engram} {id : Digest} :
    containsKey codec (indexOf codec records) id = true ↔
      ∃ engram ∈ records, codec.id engram = id := by
  induction records using List.reverseRecOn with
  | nil => simp [indexOf, containsKey]
  | append_singleton records engram ih =>
      rw [indexOf_concat, containsKey_insert, ih]
      simp only [List.mem_append, List.mem_singleton, or_and_right, exists_or, exists_eq_left]
      rw [or_comm, eq_comm]

theorem log_of_open {log : List UInt8} {substrate : FileSubstrate Engram}
    (opened : «open» codec log = some substrate) : substrate.log = log := by
  obtain ⟨index, _, rfl⟩ := Option.map_eq_some_iff.mp opened
  rfl

theorem decode_textBytes (text : String) : TextLines.decode (textBytes text) = some text :=
  TextLines.decode_toByteArray text

section RoundTrips

variable (lawful : codec.RoundTrips)

include lawful

theorem isBlank_toJson (engram : Engram) : TextLines.isBlank (codec.toJson engram) = false := by
  obtain ⟨inner, object⟩ := lawful.object engram
  have brace : TextLines.isWhitespace '{' = false := by decide
  simp [TextLines.isBlank, object, brace]

theorem getLast?_toJson (engram : Engram) :
    (textBytes (codec.toJson engram)).getLast? ≠ some TextLines.carriageReturn := by
  obtain ⟨inner, object⟩ := lawful.object engram
  have last : textBytes "\x7d" = [125] := by decide
  have split : textBytes (codec.toJson engram) = textBytes ("\x7b" ++ inner) ++ textBytes "\x7d" := by
    rw [object]
    simp [textBytes]
  rw [split, last]
  simp [TextLines.carriageReturn]

/-- A complete line is read back. -/
theorem replayLine_lineBytes (index : List Engram) (engram : Engram) :
    replayLine codec index (lineBytes codec engram) = some (insert codec index engram) := by
  rw [replayLine, lineBytes, TextLines.chomp_terminated (getLast?_toJson lawful engram),
    decode_textBytes]
  simp [isBlank_toJson lawful, lawful.roundTrip]

/-- The complete records at the front of a log are read back, and then the rest. -/
theorem replay_encode_append (records : List Engram) (rest : List UInt8)
    (index : List Engram) :
    (TextLines.split (encode codec records ++ rest)).foldlM (replayLine codec) index =
      (TextLines.split rest).foldlM (replayLine codec)
        (records.foldl (insert codec) index) := by
  induction records generalizing index with
  | nil => rfl
  | cons engram records ih =>
      have shape : encode codec (engram :: records) ++ rest =
          textBytes (codec.toJson engram) ++ TextLines.newline ::
            (encode codec records ++ rest) := by
        simp [encode, lineBytes]
      have line := replayLine_lineBytes lawful index engram
      rw [lineBytes] at line
      rw [shape, TextLines.split_terminated (lawful.oneLine engram), List.foldlM_cons, line]
      exact ih (insert codec index engram)

theorem replayLog_encode (records : List Engram) :
    replayLog codec (encode codec records) = some (indexOf codec records) := by
  have replayed := replay_encode_append lawful records [] []
  rw [List.append_nil] at replayed
  exact replayed

theorem open_encode (records : List Engram) :
    «open» codec (encode codec records) = some (ofRecords codec records) := by
  rw [«open», replayLog_encode lawful]
  rfl

end RoundTrips

inductive Note where
  | plain
  | other
  | accented
  deriving DecidableEq

def Note.json : Note → String
  | plain => "\x7b\"body\":\"plain\"\x7d"
  | other => "\x7b\"body\":\"other\"\x7d"
  | accented => "\x7b\"body\":\"fa\u00e7ade\"\x7d"

def noteCodec : EngramCodec Note where
  id
    | .plain => Vector.replicate 32 1
    | .other => Vector.replicate 32 2
    | .accented => Vector.replicate 32 3
  attachHdcFingerprint := id
  toJson := Note.json
  fromJson text := [Note.plain, .other, .accented].find? fun note => note.json = text

theorem noteCodec_roundTrips : noteCodec.RoundTrips where
  roundTrip note := by cases note <;> decide
  object
    | .plain => ⟨"\"body\":\"plain\"", by decide⟩
    | .other => ⟨"\"body\":\"other\"", by decide⟩
    | .accented => ⟨"\"body\":\"fa\u00e7ade\"", by decide⟩
  oneLine note := by cases note <;> decide

end FileSubstrate

/-!
# Logs that end in a torn record

A crash in the middle of an append leaves the first bytes of a record at the end of the
log.  The next session appends at the end of the same file, so that its first record
continues the torn line.  Whatever is put after the crash is found again exactly when
nothing of the torn record was written.
-/

/-- No text that begins with a part of one object and goes on with a whole one is the JSON
of an engram: a quotation mark or a brace stays open in it, or it goes on after its end. -/
def EngramCodec.Unglued {Engram : Type} (codec : EngramCodec Engram) : Prop :=
  ∀ interrupted engram cut text, cut ≠ [] → cut <+: textBytes (codec.toJson interrupted) →
    textBytes text = cut ++ textBytes (codec.toJson engram) → codec.fromJson text = none

namespace FileSubstrate

variable {Engram : Type} (codec : EngramCodec Engram)

/-- Put engrams one after another, and collect the ids that are returned. -/
def putAll (substrate : FileSubstrate Engram) :
    List Engram → FileSubstrate Engram × List Digest
  | [] => (substrate, [])
  | signal :: signals =>
      let after := put codec substrate signal
      let last := putAll after.1 signals
      (last.1, after.2 :: last.2)

/-- After a crash, the substrate that is opened on some records and the first bytes of one
more holds the records, and what is put into it is there when it is opened again. -/
structure Recovered (records : List Engram) (substrate : FileSubstrate Engram) : Prop where
  complete : ∀ engram,
    engram ∈ substrate.index ↔ engram ∈ indexOf codec records
  kept : ∀ signals, ∃ reopened, «open» codec (putAll codec substrate signals).1.log =
      some reopened ∧
    (∀ engram ∈ (putAll codec substrate signals).1.index, engram ∈ reopened.index) ∧
    (∀ engram ∈ substrate.index, containsKey codec reopened.index (codec.id engram)) ∧
    ∀ id ∈ (putAll codec substrate signals).2, containsKey codec reopened.index id

/-- The law of a crash that leaves the bytes `cut` behind the records. -/
def RecoveryLaw (records : List Engram) (cut : List UInt8) : Prop :=
  ∃ substrate, «open» codec (encode codec records ++ cut) = some substrate ∧
    Recovered codec records substrate

variable {codec}

/-- A put leaves a log of complete records, with its index, and stores what it returns. -/
theorem put_ofRecords (codec : EngramCodec Engram) (records : List Engram) (signal : Engram) :
    ∃ more, (put codec (ofRecords codec records) signal).1 = ofRecords codec more ∧
      containsKey codec (indexOf codec more) (put codec (ofRecords codec records) signal).2 ∧
      ∀ id, containsKey codec (indexOf codec records) id →
        containsKey codec (indexOf codec more) id := by
  by_cases known : containsKey codec (indexOf codec records) (codec.id signal) = true
  · refine ⟨records, ?_, ?_, fun _ held => held⟩
    · simp [put, ofRecords, known]
    · simp [put, ofRecords, known]
  · refine ⟨records ++ [codec.attachHdcFingerprint signal], ?_, ?_, ?_⟩
    · simp [put, ofRecords, known, indexOf_concat, encode_singleton]
    · rw [indexOf_concat]
      simp [put, ofRecords, known, containsKey_insert]
    · intro id held
      rw [indexOf_concat]
      exact containsKey_insert.mpr (Or.inr held)

theorem putAll_ofRecords (codec : EngramCodec Engram) (records signals : List Engram) :
    ∃ more, (putAll codec (ofRecords codec records) signals).1 = ofRecords codec more ∧
      (∀ id, containsKey codec (indexOf codec records) id →
        containsKey codec (indexOf codec more) id) ∧
      ∀ id ∈ (putAll codec (ofRecords codec records) signals).2,
        containsKey codec (indexOf codec more) id := by
  induction signals generalizing records with
  | nil => exact ⟨records, rfl, fun _ held => held, fun id member => nomatch member⟩
  | cons signal signals ih =>
      obtain ⟨next, state, stored, kept⟩ := put_ofRecords codec records signal
      obtain ⟨last, rest, held, returned⟩ := ih next
      refine ⟨last, ?_, fun id member => held id (kept id member), ?_⟩
      · rw [putAll]
        dsimp only
        rw [state, rest]
      · intro id member
        rw [putAll] at member
        dsimp only at member
        rw [state] at member
        rcases List.mem_cons.mp member with rfl | later
        · exact held _ stored
        · exact returned id later

section RoundTrips

variable (lawful : codec.RoundTrips)

include lawful

theorem recovered_ofRecords (records : List Engram) :
    Recovered codec records (ofRecords codec records) where
  complete _ := Iff.rfl
  kept signals := by
    obtain ⟨more, state, held, returned⟩ := putAll_ofRecords codec records signals
    refine ⟨ofRecords codec more, ?_, ?_, ?_, returned⟩
    · rw [state]
      exact open_encode lawful more
    · intro engram member
      rwa [state] at member
    · intro engram member
      exact held _ (containsKey_iff.mpr ⟨engram, member, rfl⟩)

/-- The line of a torn record, continued by a whole one, adds nothing to an index. -/
theorem replayLine_glued (unglued : codec.Unglued) {interrupted engram : Engram}
    {cut : List UInt8} (torn : cut ≠ []) (start : cut <+: textBytes (codec.toJson interrupted))
    {index read : List Engram}
    (replayed : replayLine codec index (cut ++ lineBytes codec engram) = some read) :
    read = index := by
  have last : (cut ++ textBytes (codec.toJson engram)).getLast? ≠
      some TextLines.carriageReturn := by
    obtain ⟨inner, object⟩ := lawful.object engram
    have some' : textBytes (codec.toJson engram) ≠ [] := by
      rw [object]
      intro empty
      have brace := textBytes_inj (empty.trans (by decide : [] = textBytes ""))
      simpa using congrArg String.length brace
    rw [List.getLast?_append_of_ne_nil _ some']
    exact getLast?_toJson lawful engram
  have line : cut ++ lineBytes codec engram =
      (cut ++ textBytes (codec.toJson engram)) ++ [TextLines.newline] := by
    rw [lineBytes, List.append_assoc]
  rw [line, replayLine, TextLines.chomp_terminated last] at replayed
  split at replayed
  · cases replayed
  case h_2 text decoded =>
    have bytes : textBytes text = cut ++ textBytes (codec.toJson engram) :=
      TextLines.toByteArray_of_decode decoded
    rw [unglued interrupted engram cut text torn start bytes] at replayed
    split at replayed <;> exact (Option.some.inj replayed).symm

/-- The first engram that is put behind a torn record is not in the index that is read
back. -/
theorem replayLog_glued (unglued : codec.Unglued) {interrupted engram : Engram}
    {cut : List UInt8} (torn : cut ≠ []) (start : cut <+: textBytes (codec.toJson interrupted))
    {records read : List Engram}
    (replayed : replayLog codec (encode codec records ++ cut ++ lineBytes codec engram) =
      some read) : read = indexOf codec records := by
  have inner : TextLines.newline ∉ cut ++ textBytes (codec.toJson engram) := by
    rw [List.mem_append, not_or]
    exact ⟨fun member => lawful.oneLine interrupted (start.subset member),
      lawful.oneLine engram⟩
  have line : cut ++ lineBytes codec engram =
      (cut ++ textBytes (codec.toJson engram)) ++ TextLines.newline :: [] := by
    rw [lineBytes, List.append_assoc]
  have alone : TextLines.split (cut ++ lineBytes codec engram) =
      [cut ++ lineBytes codec engram] := by
    rw [line, TextLines.split_terminated inner]
    rfl
  rw [replayLog, List.append_assoc, replay_encode_append lawful, alone] at replayed
  simp only [List.foldlM_cons, List.foldlM_nil, bind_pure] at replayed
  exact replayLine_glued lawful unglued torn start replayed

end RoundTrips

/-- A crash is recovered from exactly when it left nothing of the interrupted record, as
soon as there is an engram that the log does not hold. -/
theorem recovery_iff (lawful : codec.RoundTrips) (unglued : codec.Unglued)
    {records : List Engram} {interrupted other : Engram} {cut : List UInt8}
    (start : cut <+: lineBytes codec interrupted) (proper : cut ≠ lineBytes codec interrupted)
    (unknown : ¬ containsKey codec (indexOf codec records) (codec.id other))
    (unseen : codec.attachHdcFingerprint other ∉ indexOf codec records) :
    RecoveryLaw codec records cut ↔ cut = [] := by
  constructor
  · rintro ⟨substrate, opened, recovered⟩
    by_contra torn
    have json : cut <+: textBytes (codec.toJson interrupted) :=
      (List.prefix_concat_iff.mp start).resolve_left proper
    -- The engram that is not in the log is the first one put after the crash.
    obtain ⟨reopened, again, kept, _⟩ := recovered.kept [other]
    have absent : containsKey codec substrate.index (codec.id other) = false := by
      rw [Bool.eq_false_iff]
      intro found
      obtain ⟨engram, member, same⟩ := containsKey_iff.mp found
      exact unknown (containsKey_iff.mpr ⟨engram, (recovered.complete engram).mp member, same⟩)
    have state : (putAll codec substrate [other]).1 =
        { log := encode codec records ++ cut ++
            lineBytes codec (codec.attachHdcFingerprint other)
          index := insert codec substrate.index (codec.attachHdcFingerprint other) } := by
      simp [putAll, put, absent, log_of_open opened]
    rw [state] at again kept
    obtain ⟨index, replayed, rfl⟩ := Option.map_eq_some_iff.mp again
    have same := replayLog_glued lawful unglued torn json replayed
    have found := kept _ (mem_insert.mpr (Or.inl rfl))
    exact unseen (same ▸ found)
  · rintro rfl
    refine ⟨ofRecords codec records, ?_, recovered_ofRecords lawful records⟩
    rw [List.append_nil]
    exact open_encode lawful records

/-- A brace opens each note, and there is no other in it. -/
theorem noteCodec_unglued : noteCodec.Unglued := by
  have braces : ∀ note : Note, (textBytes note.json).count 123 = 1 := by
    intro note
    cases note <;> decide
  have opening : ∀ note : Note, (textBytes note.json).head? = some 123 := by
    intro note
    cases note <;> decide
  intro interrupted engram cut text torn start bytes
  by_contra read
  obtain ⟨note, found⟩ := Option.ne_none_iff_exists'.mp read
  have same : note.json = text := by simpa using List.find?_some found
  have first : 123 ∈ cut := by
    obtain ⟨rest, whole⟩ := start
    cases cut with
    | nil => exact absurd rfl torn
    | cons byte cut =>
        have head : (textBytes (noteCodec.toJson interrupted)).head? = some 123 :=
          opening interrupted
        rw [← whole] at head
        rw [← Option.some.inj head]
        exact List.mem_cons_self
  have counted := congrArg (List.count 123) bytes
  rw [← same, braces, List.count_append] at counted
  have one : (textBytes (noteCodec.toJson engram)).count 123 = 1 := braces engram
  have positive := List.count_pos_iff.mpr first
  omega

/-- The note that is put behind a torn record is lost, and a cut inside a character keeps
the log from being opened. -/
theorem torn_record_loses :
    let log := encode noteCodec [.plain]
    («open» noteCodec (log ++ [123])).map (·.index) = some [.plain] ∧
      («open» noteCodec (log ++ [123] ++ lineBytes noteCodec .other)).map (·.index) =
        some [.plain] ∧
      «open» noteCodec (log ++ (textBytes Note.accented.json).take 12) = none ∧
      ¬ RecoveryLaw noteCodec [.plain] [123] := by
  refine ⟨by decide, by decide, by decide, ?_⟩
  rintro ⟨substrate, opened, recovered⟩
  have first : «open» noteCodec (encode noteCodec [.plain] ++ [123]) =
      some ⟨encode noteCodec [.plain] ++ [123], [.plain]⟩ := by decide
  cases Option.some.inj (opened.symm.trans first)
  obtain ⟨reopened, again, kept, _⟩ := recovered.kept [.other]
  have second : «open» noteCodec
        (putAll noteCodec ⟨encode noteCodec [.plain] ++ [123], [.plain]⟩ [.other]).1.log =
      some ⟨encode noteCodec [.plain] ++ [123] ++ lineBytes noteCodec .other, [.plain]⟩ := by
    decide
  cases Option.some.inj (again.symm.trans second)
  exact absurd (kept .other (by decide)) (by decide)

theorem recovery_iff_note :
    RecoveryLaw noteCodec [.plain] [] ∧ ¬ RecoveryLaw noteCodec [.plain] [123] := by
  have unknown : ¬ containsKey noteCodec (indexOf noteCodec [.plain]) (noteCodec.id .other) := by
    decide
  have unseen : noteCodec.attachHdcFingerprint .other ∉ indexOf noteCodec [.plain] := by
    decide
  have whole : [123] <+: lineBytes noteCodec .plain := by decide
  have short : [] ≠ lineBytes noteCodec .plain := by decide
  constructor
  · exact (recovery_iff noteCodec_roundTrips noteCodec_unglued List.nil_prefix short
      unknown unseen).mpr rfl
  · rw [recovery_iff noteCodec_roundTrips noteCodec_unglued whole (by decide) unknown unseen]
    decide

end FileSubstrate

end Roko
