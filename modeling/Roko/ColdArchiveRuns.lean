import Roko.ColdArchive

/-!
# What a cold archive gives back

Sessions of calls that archive engrams, with writes that may fail, and with directories that
are opened again.  An engram of a call that returned `Ok` is given back in every state of a
session, as long as no line is appended to a torn one, no index is torn, and no id stands
for two engrams.
-/

namespace Roko

namespace ArchiveColdSubstrate

variable {Engram : Type} (codec : EngramCodec Engram) (serde : ColdIndexSerde)

/-- Whole lines of engrams, and then a part of a line. -/
def Lines (bytes : List UInt8) : Prop :=
  ∃ engrams rest, bytes = FileSubstrate.encode codec engrams ++ rest ∧ TextLines.newline ∉ rest

/-- The files of the archive are lines of engrams. -/
def Archives (files : String → Option (List UInt8)) : Prop :=
  ∀ file, file ≠ indexPath → ∀ bytes, files file = some bytes → Lines codec bytes

/-- A file that the next line can be appended to. -/
def EndsLine (bytes : List UInt8) : Prop :=
  bytes = [] ∨ bytes.getLast? = some TextLines.newline

instance (bytes : List UInt8) : Decidable (EndsLine bytes) :=
  inferInstanceAs (Decidable (_ ∨ _))

/-- The line of the engram is where the entry says. -/
def Stored (files : String → Option (List UInt8)) (entry : ColdIndexEntry)
    (engram : Engram) : Prop :=
  entry.file ≠ indexPath ∧ ∃ before after,
    files entry.file = some (FileSubstrate.encode codec before ++
      (FileSubstrate.lineBytes codec engram ++ after)) ∧
    entry.offset = (FileSubstrate.encode codec before).length

def Holds (files : String → Option (List UInt8)) (index : ColdIndex) (engram : Engram) :
    Prop :=
  ∃ entry, index.get (codec.id engram) = some entry ∧ Stored codec files entry engram

/-- What was stored is stored still, and the file of the index is as it was. -/
def Extends (before after : String → Option (List UInt8)) : Prop :=
  (∀ entry engram, Stored codec before entry engram → Stored codec after entry engram) ∧
    after indexPath = before indexPath

theorem currentArchivePath_ne (time : ArchiveTime) : currentArchivePath time ≠ indexPath := by
  intro same
  have last : (currentArchivePath time).toList.getLast? = some 'l' := by
    rw [currentArchivePath, String.toList_append, List.getLast?_append]
    rfl
  rw [same] at last
  exact absurd last (by decide)

variable {codec} {serde}

theorem lineBytes_eq (engram : Engram) :
    FileSubstrate.lineBytes codec engram = textBytes (codec.toJson engram ++ "\n") := by
  rw [FileSubstrate.lineBytes, textBytes_append]
  rfl

section Reading

variable (lawful : codec.RoundTrips)

include lawful

theorem split_encode (engrams : List Engram) (rest : List UInt8) :
    TextLines.split (FileSubstrate.encode codec engrams ++ rest) =
      engrams.map (FileSubstrate.lineBytes codec) ++ TextLines.split rest := by
  induction engrams with
  | nil => rfl
  | cons engram engrams ih =>
      have shape : FileSubstrate.encode codec (engram :: engrams) ++ rest =
          textBytes (codec.toJson engram) ++ TextLines.newline ::
            (FileSubstrate.encode codec engrams ++ rest) := by
        simp [FileSubstrate.encode, FileSubstrate.lineBytes]
      rw [shape, TextLines.split_terminated (lawful.oneLine engram), ih]
      rfl

omit lawful in
theorem skipLines_encode (engrams : List Engram) (lines : List (List UInt8)) :
    skipLines (engrams.map (FileSubstrate.lineBytes codec) ++ lines)
      (FileSubstrate.encode codec engrams).length = .ok (some lines) := by
  induction engrams with
  | nil => cases lines <;> rfl
  | cons engram engrams ih =>
      have length : (FileSubstrate.encode codec (engram :: engrams)).length =
          (textBytes (codec.toJson engram)).length +
            (FileSubstrate.encode codec engrams).length + 1 := by
        simp only [FileSubstrate.encode, FileSubstrate.lineBytes, List.flatMap_cons,
          List.length_append, List.length_singleton]
        omega
      have left : (textBytes (codec.toJson engram)).length +
            (FileSubstrate.encode codec engrams).length + 1 -
          (FileSubstrate.lineBytes codec engram).length =
          (FileSubstrate.encode codec engrams).length := by
        simp [FileSubstrate.lineBytes]
      rw [length, List.map_cons, List.cons_append, skipLines, left, lineBytes_eq,
        FileSubstrate.decode_textBytes]
      exact ih

theorem trim_toJson (engram : Engram) :
    TextLines.trim (codec.toJson engram ++ "\n") = codec.toJson engram := by
  obtain ⟨inner, object⟩ := lawful.object engram
  have shape : (codec.toJson engram).toList = '{' :: (inner.toList ++ ['}']) := by
    rw [object]
    simp [String.toList_append]
  exact TextLines.trim_terminated shape (by decide) (by decide)

/-- An engram is read where it is stored. -/
theorem readFromArchive_stored {files : String → Option (List UInt8)} {entry : ColdIndexEntry}
    {engram : Engram} (stored : Stored codec files entry engram) :
    readFromArchive codec files entry.file entry.offset = .ok (some engram) := by
  obtain ⟨_, before, after, held, offset⟩ := stored
  have line : TextLines.split (FileSubstrate.lineBytes codec engram ++ after) =
      FileSubstrate.lineBytes codec engram :: TextLines.split after := by
    have first := split_encode lawful [engram] after
    rwa [FileSubstrate.encode_singleton] at first
  rw [readFromArchive, held, offset]
  simp only [split_encode lawful, line, skipLines_encode]
  rw [lineBytes_eq, FileSubstrate.decode_textBytes]
  simp only [trim_toJson lawful, lawful.roundTrip]

theorem thaw_of_holds {substrate : ArchiveColdSubstrate} {engram : Engram}
    (holds : Holds codec substrate.files substrate.index engram) :
    thaw codec substrate (codec.id engram) = .ok (some engram) := by
  obtain ⟨entry, found, stored⟩ := holds
  rw [thaw, found]
  exact readFromArchive_stored lawful stored

end Reading

section Appends

variable {files : String → Option (List UInt8)} {engram : Engram}

/-- A file that ends in a newline has no part of a line. -/
theorem exists_encode {bytes : List UInt8} (lines : Lines codec bytes) (ends : EndsLine bytes) :
    ∃ engrams, bytes = FileSubstrate.encode codec engrams := by
  obtain ⟨engrams, rest, rfl, inner⟩ := lines
  refine ⟨engrams, ?_⟩
  by_cases none : rest = []
  · rw [none, List.append_nil]
  · rcases ends with empty | last
    · exact absurd (List.append_eq_nil_iff.mp empty).2 none
    · rw [List.getLast?_append_of_ne_nil _ none] at last
      exact absurd (List.mem_of_getLast? last) inner

theorem lines_held {file : String} (archives : Archives codec files)
    (archive : file ≠ indexPath) : Lines codec ((files file).getD []) := by
  cases found : files file with
  | none => exact ⟨[], [], rfl, List.not_mem_nil⟩
  | some bytes => exact archives file archive bytes found

theorem written_lineBytes (lawful : codec.RoundTrips) (fault : Option Nat) :
    written (FileSubstrate.lineBytes codec engram) fault = FileSubstrate.lineBytes codec engram ∨
      TextLines.newline ∉ written (FileSubstrate.lineBytes codec engram) fault := by
  by_cases whole : fault.getD 0 = 0
  · refine Or.inl ?_
    rw [written, whole, Nat.sub_zero, List.take_length]
  · refine Or.inr fun member => lawful.oneLine engram ?_
    have short : (FileSubstrate.lineBytes codec engram).length - fault.getD 0 ≤
        (textBytes (codec.toJson engram)).length := by
      rw [FileSubstrate.lineBytes, List.length_append, List.length_singleton]
      omega
    rw [written] at member
    nth_rewrite 2 [FileSubstrate.lineBytes] at member
    rw [List.take_append_of_le_length short] at member
    exact List.mem_of_mem_take member

/-- An append to whole lines leaves whole lines, and a part of one where it fails. -/
theorem archives_append (lawful : codec.RoundTrips) {file : String} (fault : Option Nat)
    (archive : file ≠ indexPath) (archives : Archives codec files)
    (ends : EndsLine ((files file).getD [])) :
    Archives codec (Function.update files file (some ((files file).getD [] ++
      written (FileSubstrate.lineBytes codec engram) fault))) := by
  intro other kept bytes found
  by_cases same : other = file
  · subst same
    obtain ⟨engrams, held⟩ := exists_encode (lines_held archives archive) ends
    rw [Function.update_self, held] at found
    rw [← Option.some.inj found]
    rcases written_lineBytes lawful fault with whole | part
    · refine ⟨engrams ++ [engram], [], ?_, List.not_mem_nil⟩
      rw [whole, FileSubstrate.encode_append, FileSubstrate.encode_singleton, List.append_nil]
    · exact ⟨engrams, _, rfl, part⟩
  · rw [Function.update_of_ne same] at found
    exact archives other kept bytes found

theorem extends_append (codec : EngramCodec Engram) (files : String → Option (List UInt8))
    {file : String} (more : List UInt8)
    (archive : file ≠ indexPath) :
    Extends codec files (Function.update files file (some ((files file).getD [] ++ more))) := by
  refine ⟨?_, Function.update_of_ne (Ne.symm archive) _ _⟩
  rintro entry other ⟨kept, before, after, held, offset⟩
  by_cases same : entry.file = file
  · refine ⟨kept, before, after ++ more, ?_, offset⟩
    rw [same] at held ⊢
    rw [Function.update_self, held]
    simp
  · refine ⟨kept, before, after, ?_, offset⟩
    rw [Function.update_of_ne same]
    exact held

theorem stored_append {file : String} (millis : Int) (archive : file ≠ indexPath)
    (archives : Archives codec files) (ends : EndsLine ((files file).getD [])) :
    Stored codec (Function.update files file (some ((files file).getD [] ++
        FileSubstrate.lineBytes codec engram)))
      { file := file, offset := ((files file).getD []).length, archivedAt := millis } engram := by
  obtain ⟨engrams, held⟩ := exists_encode (lines_held archives archive) ends
  refine ⟨archive, engrams, [], ?_, ?_⟩
  · rw [Function.update_self, held, List.append_nil]
  · rw [held]

end Appends

/-- The engrams whose lines a call writes whole. -/
def completed (items : List (Append Engram)) : List (Append Engram) :=
  items.takeWhile fun item => item.fault.isNone

/-- The engrams whose lines a call writes, the last one perhaps in part. -/
def attempted : List (Append Engram) → List (Append Engram)
  | [] => []
  | item :: items => if item.fault.isNone then item :: attempted items else [item]

/-- The substrate after the line of an engram was written and its place recorded. -/
def appended (codec : EngramCodec Engram) (substrate : ArchiveColdSubstrate)
    (item : Append Engram) : ArchiveColdSubstrate :=
  let file := currentArchivePath item.time
  let held := (substrate.files file).getD []
  recorded codec {
    files := Function.update substrate.files file
      (some (held ++ FileSubstrate.lineBytes codec item.engram))
    index := substrate.index } item (file, held.length)

section Loops

variable {substrate : ArchiveColdSubstrate} {item : Append Engram}

theorem completed_of_all {items : List (Append Engram)}
    (whole : ∀ item ∈ items, item.fault = none) : completed items = items := by
  induction items with
  | nil => rfl
  | cons item items ih =>
      rw [List.forall_mem_cons] at whole
      rw [completed, List.takeWhile_cons_of_pos (by simp [whole.1]), ← completed, ih whole.2]

theorem attempted_of_all {items : List (Append Engram)}
    (whole : ∀ item ∈ items, item.fault = none) : attempted items = items := by
  induction items with
  | nil => rfl
  | cons item items ih =>
      rw [List.forall_mem_cons] at whole
      simp [attempted, whole.1, ih whole.2]

theorem files_appended (codec : EngramCodec Engram) (substrate : ArchiveColdSubstrate)
    (item : Append Engram) :
    (appended codec substrate item).files =
      Function.update substrate.files (currentArchivePath item.time)
        (some ((substrate.files (currentArchivePath item.time)).getD [] ++
          FileSubstrate.lineBytes codec item.engram)) := rfl

theorem index_appended (codec : EngramCodec Engram) (substrate : ArchiveColdSubstrate)
    (item : Append Engram) :
    (appended codec substrate item).index =
      substrate.index.insert (codec.id item.engram) {
        file := currentArchivePath item.time
        offset := ((substrate.files (currentArchivePath item.time)).getD []).length
        archivedAt := item.time.millis } := rfl

theorem files_appendToArchive (codec : EngramCodec Engram) (substrate : ArchiveColdSubstrate)
    (item : Append Engram) :
    (appendToArchive codec substrate item).1.files =
      Function.update substrate.files (currentArchivePath item.time)
        (some ((substrate.files (currentArchivePath item.time)).getD [] ++
          written (FileSubstrate.lineBytes codec item.engram) item.fault)) := rfl

theorem index_appendToArchive (codec : EngramCodec Engram) (substrate : ArchiveColdSubstrate)
    (item : Append Engram) :
    (appendToArchive codec substrate item).1.index = substrate.index := rfl

theorem archiveLoop_cons (items : List (Append Engram)) (whole : item.fault = none) :
    archiveLoop codec substrate (item :: items) =
      ((archiveLoop codec (appended codec substrate item) items).1,
        (archiveLoop codec (appended codec substrate item) items).2.map (· + 1)) := by
  simp [archiveLoop, appendToArchive, appended, written, whole]

theorem archiveLoop_cons_of_fault (items : List (Append Engram)) {missing : Nat}
    (fault : item.fault = some missing) :
    archiveLoop codec substrate (item :: items) =
      ((appendToArchive codec substrate item).1, .error .io) := by
  simp [archiveLoop, appendToArchive, fault]

/-- The loop succeeds if and only if each of its writes does. -/
theorem isOk_archiveLoop {items : List (Append Engram)} :
    (archiveLoop codec substrate items).2.isOk = true ↔ ∀ item ∈ items, item.fault = none := by
  induction items generalizing substrate with
  | nil => simp [archiveLoop, Except.isOk, Except.toBool]
  | cons item items ih =>
      cases fault : item.fault with
      | none =>
          rw [archiveLoop_cons items fault, List.forall_mem_cons, ← ih, and_iff_right fault]
          cases (archiveLoop codec (appended codec substrate item) items).2 <;> rfl
      | some missing =>
          rw [archiveLoop_cons_of_fault items fault, List.forall_mem_cons]
          simp [fault, Except.isOk, Except.toBool]

theorem endsLine_appended {file : String}
    (ends : EndsLine ((substrate.files file).getD [])) :
    EndsLine (((appended codec substrate item).files file).getD []) := by
  rw [files_appended]
  by_cases same : file = currentArchivePath item.time
  · rw [same, Function.update_self]
    exact Or.inr (by simp [FileSubstrate.lineBytes])
  · rw [Function.update_of_ne same]
    exact ends

theorem archives_appended (lawful : codec.RoundTrips)
    (archives : Archives codec substrate.files)
    (ends : EndsLine ((substrate.files (currentArchivePath item.time)).getD [])) :
    Archives codec (appended codec substrate item).files := by
  have whole : written (FileSubstrate.lineBytes codec item.engram) none =
      FileSubstrate.lineBytes codec item.engram := by
    simp [written]
  rw [files_appended, ← whole]
  exact archives_append lawful none (currentArchivePath_ne item.time) archives ends

theorem holds_appended_self (archives : Archives codec substrate.files)
    (ends : EndsLine ((substrate.files (currentArchivePath item.time)).getD [])) :
    Holds codec (appended codec substrate item).files (appended codec substrate item).index
      item.engram := by
  rw [files_appended, index_appended]
  exact ⟨_, ColdIndex.get_insert_self _ _ _,
    stored_append item.time.millis (currentArchivePath_ne item.time) archives ends⟩

theorem extends_appended (codec : EngramCodec Engram) (substrate : ArchiveColdSubstrate)
    (item : Append Engram) :
    Extends codec substrate.files (appended codec substrate item).files := by
  rw [files_appended]
  exact extends_append codec _ _ (currentArchivePath_ne item.time)

theorem Extends.trans {first second third : String → Option (List UInt8)}
    (before : Extends codec first second) (after : Extends codec second third) :
    Extends codec first third :=
  ⟨fun entry engram stored => after.1 entry engram (before.1 entry engram stored),
    after.2.trans before.2⟩

theorem Holds.of_extends {before after : String → Option (List UInt8)} {index : ColdIndex}
    {engram : Engram} (holds : Holds codec before index engram)
    (extends' : Extends codec before after) : Holds codec after index engram := by
  obtain ⟨entry, found, stored⟩ := holds
  exact ⟨entry, found, extends'.1 entry engram stored⟩

/-- An engram is held after another one was appended, unless that one has its id. -/
theorem holds_appended {engram : Engram} (archives : Archives codec substrate.files)
    (ends : EndsLine ((substrate.files (currentArchivePath item.time)).getD []))
    (known : codec.id engram = codec.id item.engram → engram = item.engram)
    (holds : Holds codec substrate.files substrate.index engram) :
    Holds codec (appended codec substrate item).files (appended codec substrate item).index
      engram := by
  by_cases same : codec.id engram = codec.id item.engram
  · rw [known same]
    exact holds_appended_self archives ends
  · obtain ⟨entry, found, stored⟩ := holds.of_extends (extends_appended codec substrate item)
    refine ⟨entry, ?_, stored⟩
    rw [index_appended, ColdIndex.get_insert_of_ne _ same]
    exact found

/-- The loop keeps the lines of the archive, and what is held, unless it is given another
engram of the same id. -/
theorem archiveLoop_keeps (lawful : codec.RoundTrips) {items : List (Append Engram)}
    {kept : List Engram} (archives : Archives codec substrate.files)
    (ends : ∀ item ∈ attempted items,
      EndsLine ((substrate.files (currentArchivePath item.time)).getD []))
    (known : ∀ item ∈ completed items, ∀ engram ∈ kept,
      codec.id engram = codec.id item.engram → engram = item.engram)
    (held : ∀ engram ∈ kept, Holds codec substrate.files substrate.index engram) :
    Archives codec (archiveLoop codec substrate items).1.files ∧
      Extends codec substrate.files (archiveLoop codec substrate items).1.files ∧
      ∀ engram ∈ kept, Holds codec (archiveLoop codec substrate items).1.files
        (archiveLoop codec substrate items).1.index engram := by
  induction items generalizing substrate with
  | nil => exact ⟨archives, ⟨fun _ _ stored => stored, rfl⟩, held⟩
  | cons item items ih =>
      cases fault : item.fault with
      | none =>
          rw [attempted, if_pos (by simp [fault]), List.forall_mem_cons] at ends
          rw [completed, List.takeWhile_cons_of_pos (by simp [fault]),
            List.forall_mem_cons] at known
          obtain ⟨lines, grown, holds⟩ := ih (archives_appended lawful archives ends.1)
            (fun other member => endsLine_appended (ends.2 other member)) known.2
            (fun engram member =>
              holds_appended archives ends.1 (known.1 engram member) (held engram member))
          rw [archiveLoop_cons items fault]
          exact ⟨lines, (extends_appended codec substrate item).trans grown, holds⟩
      | some missing =>
          rw [attempted, if_neg (by simp [fault]), List.forall_mem_singleton] at ends
          rw [archiveLoop_cons_of_fault items fault, files_appendToArchive,
            index_appendToArchive]
          have grown := extends_append codec substrate.files
            (written (FileSubstrate.lineBytes codec item.engram) item.fault)
            (currentArchivePath_ne item.time)
          exact ⟨archives_append lawful item.fault (currentArchivePath_ne item.time) archives ends,
            grown, fun engram member => (held engram member).of_extends grown⟩

/-- A loop that succeeds holds each of its engrams. -/
theorem archiveLoop_holds (lawful : codec.RoundTrips) {items : List (Append Engram)}
    (archives : Archives codec substrate.files)
    (ends : ∀ item ∈ items, EndsLine ((substrate.files (currentArchivePath item.time)).getD []))
    (whole : ∀ item ∈ items, item.fault = none)
    (distinct : ∀ first ∈ items, ∀ second ∈ items,
      codec.id first.engram = codec.id second.engram → first.engram = second.engram) :
    ∀ item ∈ items, Holds codec (archiveLoop codec substrate items).1.files
      (archiveLoop codec substrate items).1.index item.engram := by
  induction items generalizing substrate with
  | nil => exact fun item member => nomatch member
  | cons item items ih =>
      rw [List.forall_mem_cons] at ends whole
      have later := archives_appended lawful archives ends.1
      have laterEnds : ∀ other ∈ items, EndsLine
          (((appended codec substrate item).files (currentArchivePath other.time)).getD []) :=
        fun other member => endsLine_appended (ends.2 other member)
      rw [archiveLoop_cons items whole.1]
      refine List.forall_mem_cons.mpr ⟨?_, ?_⟩
      · have known : ∀ other ∈ completed items, ∀ engram ∈ [item.engram],
            codec.id engram = codec.id other.engram → engram = other.engram := by
          rw [completed_of_all whole.2]
          simp only [List.forall_mem_singleton]
          exact fun other member =>
            distinct item List.mem_cons_self other (List.mem_cons_of_mem _ member)
        obtain ⟨_, _, holds⟩ := archiveLoop_keeps lawful later
          (by rwa [attempted_of_all whole.2]) known
          (List.forall_mem_singleton.mpr (holds_appended_self archives ends.1))
        exact holds item.engram (List.mem_singleton_self _)
      · exact ih later laterEnds whole.2 fun first member second other =>
          distinct first (List.mem_cons_of_mem _ member) second (List.mem_cons_of_mem _ other)

end Loops

/-- A call of a session, with what fails in it. -/
inductive ArchiveCall (Engram : Type)
  | archive (item : Append Engram) (indexFault : Option Nat)
  | archiveBatch (items : List (Append Engram)) (indexFault : Option Nat)
  /-- The directory is opened again. -/
  | reopen

structure ArchiveSession (Engram : Type) where
  substrate : ArchiveColdSubstrate
  /-- The engrams of the calls that returned `Ok`. -/
  acknowledged : List Engram

namespace ArchiveSession

/-- The session on a new directory. -/
def start (serde : ColdIndexSerde) : ArchiveSession Engram where
  substrate := «open» serde fun _ => none
  acknowledged := []

def step (codec : EngramCodec Engram) (serde : ColdIndexSerde) (session : ArchiveSession Engram) :
    ArchiveCall Engram → ArchiveSession Engram
  | .archive item indexFault =>
      let result := archive codec serde session.substrate item indexFault
      { substrate := result.1
        acknowledged := session.acknowledged ++
          if result.2.isOk then [item.engram] else [] }
  | .archiveBatch items indexFault =>
      let result := archiveBatch codec serde session.substrate items indexFault
      { substrate := result.1
        acknowledged := session.acknowledged ++
          if result.2.isOk then items.map Append.engram else [] }
  | .reopen => { session with substrate := «open» serde session.substrate.files }

/-- Each engram of a call that returned `Ok` is given back, in the process and after the
directory is opened again. -/
def Thaws (codec : EngramCodec Engram) (serde : ColdIndexSerde)
    (session : ArchiveSession Engram) : Prop :=
  ∀ engram ∈ session.acknowledged,
    thaw codec session.substrate (codec.id engram) = .ok (some engram) ∧
    thaw codec («open» serde session.substrate.files) (codec.id engram) = .ok (some engram)

/-- The writes of a call do no harm: every line follows a whole line, no id stands for two
engrams, and no index is torn after a call returned `Ok`. -/
structure SafeWrites (codec : EngramCodec Engram) (session : ArchiveSession Engram)
    (items : List (Append Engram)) (indexFault : Option Nat) : Prop where
  ends : ∀ item ∈ attempted items,
    EndsLine ((session.substrate.files (currentArchivePath item.time)).getD [])
  known : ∀ item ∈ completed items, ∀ engram ∈ session.acknowledged,
    codec.id engram = codec.id item.engram → engram = item.engram
  distinct : (∀ item ∈ items, item.fault = none) → indexFault = none →
    ∀ first ∈ items, ∀ second ∈ items,
      codec.id first.engram = codec.id second.engram → first.engram = second.engram
  index : (∀ item ∈ items, item.fault = none) → indexFault.getD 0 ≠ 0 →
    session.acknowledged = []

def SafeCall (codec : EngramCodec Engram) (session : ArchiveSession Engram) :
    ArchiveCall Engram → Prop
  | .archive item indexFault => SafeWrites codec session [item] indexFault
  | .archiveBatch items indexFault => SafeWrites codec session items indexFault
  | .reopen => True

/-- The sessions that calls lead to when the writes of each do no harm. -/
inductive SafeRun (codec : EngramCodec Engram) (serde : ColdIndexSerde) :
    ArchiveSession Engram → Prop
  | start : SafeRun codec serde (.start serde)
  | step {session : ArchiveSession Engram} {call : ArchiveCall Engram}
      (run : SafeRun codec serde session) (safe : SafeCall codec session call) :
      SafeRun codec serde (session.step codec serde call)

/-- The files are lines of engrams, and both the index in memory and the one on disk hold
what was acknowledged. -/
structure Sound (codec : EngramCodec Engram) (serde : ColdIndexSerde)
    (session : ArchiveSession Engram) : Prop where
  archives : Archives codec session.substrate.files
  held : ∀ engram ∈ session.acknowledged,
    Holds codec session.substrate.files session.substrate.index engram
  saved : ∀ engram ∈ session.acknowledged,
    Holds codec session.substrate.files («open» serde session.substrate.files).index engram

theorem Sound.thaws {session : ArchiveSession Engram} (lawful : codec.RoundTrips)
    (sound : session.Sound codec serde) : session.Thaws codec serde :=
  fun engram member => ⟨thaw_of_holds lawful (sound.held engram member),
    thaw_of_holds lawful (sound.saved engram member)⟩

theorem sound_start : (start serde).Sound codec serde where
  archives := by
    intro file _ bytes found
    cases found
  held := fun engram member => nomatch member
  saved := fun engram member => nomatch member

end ArchiveSession

section Saves

variable {substrate : ArchiveColdSubstrate}

theorem index_open_of_same {before after : String → Option (List UInt8)}
    (same : after indexPath = before indexPath) :
    («open» serde after).index = («open» serde before).index := by
  simp only [«open», loadIndex, same]

theorem archives_update {files : String → Option (List UInt8)} (archives : Archives codec files)
    (bytes : Option (List UInt8)) : Archives codec (Function.update files indexPath bytes) := by
  intro file archive held found
  rw [Function.update_of_ne archive] at found
  exact archives file archive held found

theorem Holds.update {files : String → Option (List UInt8)} {index : ColdIndex}
    {engram : Engram} (holds : Holds codec files index engram) (bytes : Option (List UInt8)) :
    Holds codec (Function.update files indexPath bytes) index engram := by
  obtain ⟨entry, found, archive, before, after, held, offset⟩ := holds
  refine ⟨entry, found, archive, before, after, ?_, offset⟩
  rw [Function.update_of_ne archive]
  exact held

theorem Holds.congr {files : String → Option (List UInt8)} {index other : ColdIndex}
    {engram : Engram} (holds : Holds codec files index engram)
    (same : ∀ id, other.get id = index.get id) : Holds codec files other engram := by
  obtain ⟨entry, found, stored⟩ := holds
  exact ⟨entry, (same _).trans found, stored⟩

/-- An index that was written whole is the one that is opened. -/
theorem open_update (lawful : serde.RoundTrips) {index : ColdIndex} {data : String}
    (encoded : serde.toJson index = some data) (files : String → Option (List UInt8))
    {fault : Option Nat} (whole : fault.getD 0 = 0) (id : Digest) :
    («open» serde (Function.update files indexPath
      (some (written (textBytes data) fault)))).index.get id = index.get id := by
  obtain ⟨read, parsed, same⟩ := lawful index data encoded
  have bytes : written (textBytes data) fault = textBytes data := by
    rw [written, whole, Nat.sub_zero, List.take_length]
  simp only [«open», loadIndex, Function.update_self, bytes, FileSubstrate.decode_textBytes,
    parsed]
  exact same id

theorem saveIndex_fst {data : String} (encoded : serde.toJson substrate.index = some data)
    (fault : Option Nat) :
    (saveIndex serde substrate fault).1 = {
      files := Function.update substrate.files indexPath
        (some (written (textBytes data) fault))
      index := substrate.index } := by
  simp [saveIndex, encoded]

/-- A save keeps what is acknowledged, unless it tears the index. -/
theorem saveIndex_sound (lawful : serde.RoundTrips) {acknowledged : List Engram}
    {fault : Option Nat} (archives : Archives codec substrate.files)
    (held : ∀ engram ∈ acknowledged, Holds codec substrate.files substrate.index engram)
    (saved : ∀ engram ∈ acknowledged,
      Holds codec substrate.files («open» serde substrate.files).index engram)
    (torn : fault.getD 0 ≠ 0 → acknowledged = []) :
    ArchiveSession.Sound codec serde ⟨(saveIndex serde substrate fault).1, acknowledged⟩ := by
  cases encoded : serde.toJson substrate.index with
  | none =>
      have same : (saveIndex serde substrate fault).1 = substrate := by
        simp [saveIndex, encoded]
      rw [same]
      exact ⟨archives, held, saved⟩
  | some data =>
      rw [saveIndex_fst encoded]
      refine ⟨archives_update archives _, fun engram member => (held engram member).update _, ?_⟩
      intro engram member
      by_cases whole : fault.getD 0 = 0
      · exact ((held engram member).update _).congr
          (open_update lawful encoded substrate.files whole)
      · have none : acknowledged = [] := torn whole
        subst none
        cases member

theorem fault_of_saveIndex {fault : Option Nat}
    (ok : (saveIndex serde substrate fault).2.isOk = true) : fault = none := by
  cases fault with
  | none => rfl
  | some missing =>
      cases encoded : serde.toJson substrate.index <;>
        simp [saveIndex, encoded, Except.isOk, Except.toBool] at ok

/-- A save that succeeds makes all that is held durable. -/
theorem saveIndex_ok (lawful : serde.RoundTrips) {held : List Engram} {fault : Option Nat}
    (archives : Archives codec substrate.files)
    (holds : ∀ engram ∈ held, Holds codec substrate.files substrate.index engram)
    (ok : (saveIndex serde substrate fault).2.isOk = true) :
    ArchiveSession.Sound codec serde ⟨(saveIndex serde substrate fault).1, held⟩ := by
  cases encoded : serde.toJson substrate.index with
  | none => simp [saveIndex, encoded, Except.isOk, Except.toBool] at ok
  | some data =>
      obtain rfl := fault_of_saveIndex ok
      rw [saveIndex_fst encoded]
      exact ⟨archives_update archives _, fun engram member => (holds engram member).update _,
        fun engram member => ((holds engram member).update _).congr
          (open_update lawful encoded substrate.files rfl)⟩

end Saves

section Calls

variable {session : ArchiveSession Engram} {items : List (Append Engram)}
  {indexFault : Option Nat}

theorem archiveBatch_of_error {substrate : ArchiveColdSubstrate} {failure : ColdError}
    (failed : (archiveLoop codec substrate items).2 = .error failure) :
    archiveBatch codec serde substrate items indexFault =
      ((archiveLoop codec substrate items).1, .error failure) := by
  unfold archiveBatch
  generalize archiveLoop codec substrate items = result at failed ⊢
  obtain ⟨left, outcome⟩ := result
  cases failed
  rfl

theorem archiveBatch_of_ok {substrate : ArchiveColdSubstrate} {count : Nat}
    (ok : (archiveLoop codec substrate items).2 = .ok count) :
    archiveBatch codec serde substrate items indexFault =
      ((saveIndex serde (archiveLoop codec substrate items).1 indexFault).1,
        (saveIndex serde (archiveLoop codec substrate items).1 indexFault).2.map
          fun _ => count) := by
  unfold archiveBatch
  generalize archiveLoop codec substrate items = result at ok ⊢
  obtain ⟨left, outcome⟩ := result
  cases ok
  dsimp only
  generalize saveIndex serde left indexFault = saved
  obtain ⟨last, outcome⟩ := saved
  cases outcome <;> rfl

theorem isOk_map {Error Value Other : Type} (result : Except Error Value) (f : Value → Other) :
    (result.map f).isOk = result.isOk := by
  cases result <;> rfl

/-- A batch keeps a session sound when its writes do no harm. -/
theorem archiveBatch_sound (lawful : codec.RoundTrips) (lawfulIndex : serde.RoundTrips)
    (sound : session.Sound codec serde)
    (safe : session.SafeWrites codec items indexFault) :
    (session.step codec serde (.archiveBatch items indexFault)).Sound codec serde := by
  obtain ⟨archives, grown, held⟩ :=
    archiveLoop_keeps lawful sound.archives safe.ends safe.known sound.held
  have saved : ∀ engram ∈ session.acknowledged,
      Holds codec (archiveLoop codec session.substrate items).1.files
        («open» serde (archiveLoop codec session.substrate items).1.files).index engram := by
    rw [index_open_of_same grown.2]
    exact fun engram member => (sound.saved engram member).of_extends grown
  rw [ArchiveSession.step]
  cases outcome : (archiveLoop codec session.substrate items).2 with
  | error failure =>
      rw [archiveBatch_of_error outcome]
      simp only [Except.isOk, Except.toBool, Bool.false_eq_true, if_false, List.append_nil]
      exact ⟨archives, held, saved⟩
  | ok count =>
      have whole : ∀ item ∈ items, item.fault = none :=
        Iff.mp isOk_archiveLoop (by rw [outcome]; rfl)
      rw [archiveBatch_of_ok outcome]
      simp only [isOk_map]
      split
      · rename_i ok
        have holds := archiveLoop_holds lawful sound.archives
          (by rw [← attempted_of_all whole]; exact safe.ends) whole
          (safe.distinct whole (fault_of_saveIndex ok))
        refine saveIndex_ok lawfulIndex archives (fun engram member => ?_) ok
        rcases List.mem_append.mp member with older | newer
        · exact held engram older
        · obtain ⟨item, given, rfl⟩ := List.mem_map.mp newer
          exact holds item given
      · rw [List.append_nil]
        exact saveIndex_sound lawfulIndex archives held saved (safe.index whole)

/-- An engram is archived as a batch of one is. -/
theorem archive_eq (codec : EngramCodec Engram) (serde : ColdIndexSerde)
    (substrate : ArchiveColdSubstrate) (item : Append Engram) (indexFault : Option Nat) :
    (archive codec serde substrate item indexFault).1 =
        (archiveBatch codec serde substrate [item] indexFault).1 ∧
      (archive codec serde substrate item indexFault).2.isOk =
        (archiveBatch codec serde substrate [item] indexFault).2.isOk := by
  rw [archive, archiveBatch, archiveLoop]
  generalize appendToArchive codec substrate item = result
  obtain ⟨left, outcome⟩ := result
  cases outcome with
  | error failure => exact ⟨rfl, rfl⟩
  | ok place =>
      simp only [archiveLoop, Except.map]
      generalize saveIndex serde (recorded codec left item place) indexFault = saved
      obtain ⟨last, outcome⟩ := saved
      cases outcome <;> exact ⟨rfl, rfl⟩

theorem step_archive (item : Append Engram) :
    session.step codec serde (.archive item indexFault) =
      session.step codec serde (.archiveBatch [item] indexFault) := by
  obtain ⟨left, outcome⟩ := archive_eq codec serde session.substrate item indexFault
  simp only [ArchiveSession.step, left, outcome, List.map_cons, List.map_nil]

theorem step_sound (lawful : codec.RoundTrips) (lawfulIndex : serde.RoundTrips)
    (sound : session.Sound codec serde) {call : ArchiveCall Engram}
    (safe : session.SafeCall codec call) : (session.step codec serde call).Sound codec serde := by
  cases call with
  | archive item indexFault =>
      rw [step_archive]
      exact archiveBatch_sound lawful lawfulIndex sound safe
  | archiveBatch items indexFault => exact archiveBatch_sound lawful lawfulIndex sound safe
  | reopen => exact ⟨sound.archives, sound.saved, sound.saved⟩

theorem sound_of_safeRun (lawful : codec.RoundTrips) (lawfulIndex : serde.RoundTrips)
    (run : ArchiveSession.SafeRun codec serde session) : session.Sound codec serde := by
  induction run with
  | start => exact ArchiveSession.sound_start
  | step _ safe ih => exact step_sound lawful lawfulIndex ih safe

end Calls

def april : ArchiveTime where
  year := 2026
  month := 4
  millis := 1775001600000

def may : ArchiveTime where
  year := 2026
  month := 5
  millis := 1777593600000

/-- The index of one note, and its text. -/
def noteIndex (time : ArchiveTime) (offset : Nat) : ColdIndex :=
  ColdIndex.empty.insert (FileSubstrate.noteCodec.id .other) {
    file := currentArchivePath time
    offset := offset
    archivedAt := time.millis }

def noteIndexJson (time : ArchiveTime) (offset : Nat) : String :=
  "\x7b\n  \"" ++ String.join (List.replicate 32 "02") ++ "\": \x7b\n    \"file\": \"" ++
    currentArchivePath time ++ "\",\n    \"offset\": " ++ toString offset ++
    ",\n    \"archived_at\": " ++ toString time.millis ++ "\n  \x7d\n\x7d"

/-- What is known of the texts of indexes: those of one note, behind a torn line and in a
new file. -/
def noteIndexSerde : ColdIndexSerde where
  toJson index :=
    if index = noteIndex april 1 then some (noteIndexJson april 1)
    else if index = noteIndex may 0 then some (noteIndexJson may 0)
    else none
  fromJson text :=
    if text = noteIndexJson april 1 then some (noteIndex april 1)
    else if text = noteIndexJson may 0 then some (noteIndex may 0)
    else none

theorem noteIndexSerde_roundTrips : noteIndexSerde.RoundTrips := by
  intro index text written
  have apart : noteIndexJson may 0 ≠ noteIndexJson april 1 := by decide
  refine ⟨index, ?_, fun _ => rfl⟩
  simp only [noteIndexSerde] at written ⊢
  split at written
  · rename_i same
    cases written
    rw [if_pos rfl, same]
  · split at written
    · rename_i same
      cases written
      rw [if_neg apart, if_pos rfl, same]
    · cases written

/-- In a session whose writes do no harm, each engram of a call that returned `Ok` is given
back in every state, in the process and after the directory is opened again. -/
theorem safeRun_thaws (codec : EngramCodec Engram) (serde : ColdIndexSerde)
    (lawful : codec.RoundTrips) (lawfulIndex : serde.RoundTrips)
    (session : ArchiveSession Engram) (run : session.SafeRun codec serde) :
    session.Thaws codec serde :=
  (sound_of_safeRun lawful lawfulIndex run).thaws lawful

/-- A line is torn in April, and the next line goes to the file of May. -/
theorem mended_note_thaws :
    let torn := (ArchiveSession.start noteIndexSerde).step FileSubstrate.noteCodec noteIndexSerde
      (.archive ⟨april, .plain, some 16⟩ none)
    let session := torn.step FileSubstrate.noteCodec noteIndexSerde
      (.archive ⟨may, .other, none⟩ none)
    session.acknowledged = [.other] ∧
      session.Thaws FileSubstrate.noteCodec noteIndexSerde := by
  refine ⟨by decide, safeRun_thaws _ _ FileSubstrate.noteCodec_roundTrips
    noteIndexSerde_roundTrips _ (.step (.step .start ?_) ?_)⟩
  · exact {
      ends := by decide
      known := by decide
      distinct := by decide
      index := by decide }
  · exact {
      ends := by decide
      known := by decide
      distinct := by decide
      index := by decide }

/-- A session in which a line is torn, and the next line follows it. -/
def gluedSession : ArchiveSession FileSubstrate.Note :=
  ((ArchiveSession.start noteIndexSerde).step FileSubstrate.noteCodec noteIndexSerde
    (.archive ⟨april, .plain, some 16⟩ none)).step FileSubstrate.noteCodec noteIndexSerde
      (.archive ⟨april, .other, none⟩ none)

/-- No engram is read behind the last line of a file. -/
theorem readFromArchive_of_last {files : String → Option (List UInt8)} {file : String}
    {bytes : List UInt8} {offset : Nat} (found : files file = some bytes)
    (single : TextLines.split bytes = [bytes]) (inside : offset + 1 ≤ bytes.length)
    (engram : Engram) :
    readFromArchive codec files file (offset + 1) ≠ .ok (some engram) := by
  intro read
  have past : offset + 1 - bytes.length = 0 := Nat.sub_eq_zero_of_le inside
  rw [readFromArchive, found] at read
  simp only [single, skipLines, past] at read
  cases decoded : TextLines.decode bytes <;> simp [decoded] at read

/-- The call that archives the second note returns `Ok`, and the note is not given back. -/
theorem glued_note_lost :
    FileSubstrate.noteCodec.RoundTrips ∧ noteIndexSerde.RoundTrips ∧
      gluedSession.acknowledged = [.other] ∧
      ¬ gluedSession.Thaws FileSubstrate.noteCodec noteIndexSerde := by
  refine ⟨FileSubstrate.noteCodec_roundTrips, noteIndexSerde_roundTrips, by decide, ?_⟩
  intro thaws
  have here := (thaws .other (by decide)).1
  have place : gluedSession.substrate.index.get (FileSubstrate.noteCodec.id .other) =
      some { file := "2026-04.jsonl", offset := 1, archivedAt := 1775001600000 } := by
    decide
  have file : gluedSession.substrate.files "2026-04.jsonl" =
      some (123 :: FileSubstrate.lineBytes FileSubstrate.noteCodec .other) := by
    decide
  rw [thaw, place] at here
  exact readFromArchive_of_last file (by decide) (by decide) _ here

end ArchiveColdSubstrate

end Roko
