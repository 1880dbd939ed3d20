import Roko.FileSubstrate
import Roko.GuardedRuns

/-!
# The tasks of a file substrate

Several tasks share one `FileSubstrate` of `roko-fs/src/file_substrate.rs`, and their calls
of `put`, `put_batch` and `compact` may be interleaved between the steps that each call is
made of.  A file is known by a number, so that a handle that was opened on the log stays on
that file when `compact` renames another one over it.
-/

namespace Roko

namespace FileSubstrate

variable {Engram : Type} [DecidableEq Engram] (codec : EngramCodec Engram)

/-- Where a call is between its steps. -/
inductive CallPhase (Engram : Type)
  /-- A put that has looked its engrams up in the index: those to append, and what it will
  return. -/
  | looked (toIndex : List Engram) (ids : List Digest)
  | appended (toIndex : List Engram) (ids : List Digest)
  /-- A compaction that has read the index. -/
  | snapshot (signals : List Engram)
  /-- A compaction that has written the temporary file. -/
  | written
  | renamed
  | reopened (writer : Nat)

/-- A substrate with its directory, the calls that its tasks are in, and the ids that were
returned so far. -/
structure Session (Engram : Type) where
  files : Nat → List UInt8
  /-- A number that no file has yet. -/
  unused : Nat
  /-- The file at `engrams.jsonl`. -/
  logPath : Nat
  /-- The file at `engrams.jsonl.tmp`. -/
  tmpPath : Option Nat
  /-- The file that the handle of the writer is open on. -/
  logWriter : Nat
  index : List Engram
  tasks : Nat → Option (CallPhase Engram)
  returned : List Digest

inductive CallStep (Engram : Type)
  | put (task : Nat) (signal : Engram)
  | putBatch (task : Nat) (signals : List Engram)
  | append (task : Nat)
  | insert (task : Nat)
  /-- The values of the index are read in some order. -/
  | compact (task : Nat) (signals : List Engram)
  | writeTemp (task : Nat)
  | rename (task : Nat)
  | reopen (task : Nat)
  | replaceWriter (task : Nat)

/-- Phase 1 of `put_batch`: the engrams to append, and the ids of all. -/
def deduplicate (index : List Engram) : List Digest → List Engram → List Engram × List Digest
  | _, [] => ([], [])
  | seen, signal :: signals =>
      let signal := codec.attachHdcFingerprint signal
      let id := codec.id signal
      if containsKey codec index id || seen.contains id then
        let rest := deduplicate index seen signals
        (rest.1, id :: rest.2)
      else
        let rest := deduplicate index (id :: seen) signals
        (signal :: rest.1, id :: rest.2)

namespace Session

variable (session : Session Engram)

def setTask (task : Nat) (phase : Option (CallPhase Engram)) :
    Nat → Option (CallPhase Engram) :=
  Function.update session.tasks task phase

/-- The next step of a task; other steps change nothing. -/
def step : CallStep Engram → Session Engram
  | .put task signal =>
      match session.tasks task with
      | none =>
          if containsKey codec session.index (codec.id signal) then
            { session with returned := codec.id signal :: session.returned }
          else
            let signal := codec.attachHdcFingerprint signal
            { session with
              tasks := session.setTask task (some (.looked [signal] [codec.id signal])) }
      | some _ => session
  | .putBatch task signals =>
      match session.tasks task with
      | none =>
          let (toIndex, ids) := deduplicate codec session.index [] signals
          if toIndex.isEmpty then { session with returned := ids ++ session.returned }
          else { session with tasks := session.setTask task (some (.looked toIndex ids)) }
      | some _ => session
  | .append task =>
      match session.tasks task with
      | some (.looked toIndex ids) =>
          { session with
            files := Function.update session.files session.logWriter
              (session.files session.logWriter ++ encode codec toIndex)
            tasks := session.setTask task (some (.appended toIndex ids)) }
      | _ => session
  | .insert task =>
      match session.tasks task with
      | some (.appended toIndex ids) =>
          { session with
            index := toIndex.foldl (FileSubstrate.insert codec) session.index
            tasks := session.setTask task none
            returned := ids ++ session.returned }
      | _ => session
  | .compact task signals =>
      match session.tasks task with
      | none =>
          if signals.isPerm session.index then
            { session with tasks := session.setTask task (some (.snapshot signals)) }
          else session
      | some _ => session
  | .writeTemp task =>
      match session.tasks task with
      | some (.snapshot signals) =>
          match session.tmpPath with
          | some file =>
              { session with
                files := Function.update session.files file (encode codec signals)
                tasks := session.setTask task (some .written) }
          | none =>
              { session with
                files := Function.update session.files session.unused (encode codec signals)
                unused := session.unused + 1
                tmpPath := some session.unused
                tasks := session.setTask task (some .written) }
      | _ => session
  | .rename task =>
      match session.tasks task with
      | some .written =>
          match session.tmpPath with
          | some file =>
              { session with
                logPath := file
                tmpPath := none
                tasks := session.setTask task (some .renamed) }
          | none => { session with tasks := session.setTask task none }
      | _ => session
  | .reopen task =>
      match session.tasks task with
      | some .renamed =>
          { session with
            tasks := session.setTask task (some (.reopened session.logPath)) }
      | _ => session
  | .replaceWriter task =>
      match session.tasks task with
      | some (.reopened writer) =>
          { session with
            logWriter := writer
            tasks := session.setTask task none }
      | _ => session

/-- A substrate that was opened on some records, with no call under way. -/
def start (records : List Engram) : Session Engram where
  files := Function.update (fun _ => []) 0 (encode codec records)
  unused := 1
  logPath := 0
  tmpPath := none
  logWriter := 0
  index := indexOf codec records
  tasks := fun _ => none
  returned := []

/-- A substrate that is opened on the directory holds what was returned. -/
def Durable : Prop :=
  ∃ reopened, «open» codec (session.files session.logPath) = some reopened ∧
    ∀ id ∈ session.returned, containsKey codec reopened.index id

end Session

end FileSubstrate

/-!
A put appends to the file that the writer is open on, and a compaction replaces the log by
what it read in the index before.  What was returned stays in the log in every run in which
a put appends while no compaction is between reading the index and the rename and the writer
is open on the log, and in which a compaction reads the index while no put is between
appending and inserting.
-/

namespace FileSubstrate

variable {Engram : Type} {codec : EngramCodec Engram}

/-- A compaction that has read the index and renames a file later. -/
def CallPhase.Unrenamed : Option (CallPhase Engram) → Prop
  | some (.snapshot _) => True
  | some .written => True
  | _ => False

theorem CallPhase.unrenamed_of_snapshot {phase : Option (CallPhase Engram)}
    {signals : List Engram} (found : phase = some (.snapshot signals)) : Unrenamed phase := by
  rw [found]
  trivial

theorem CallPhase.unrenamed_of_written {phase : Option (CallPhase Engram)}
    (found : phase = some .written) : Unrenamed phase := by
  rw [found]
  trivial

/-- The records have all the ids of an index. -/
def Covers (codec : EngramCodec Engram) (index records : List Engram) : Prop :=
  ∀ id, containsKey codec index id → containsKey codec records id

namespace Session

variable (session : Session Engram)

/-- The steps that keep puts and compactions apart. -/
def InTurn : CallStep Engram → Prop
  | .append task =>
      ∀ toIndex ids, session.tasks task = some (.looked toIndex ids) →
        session.logWriter = session.logPath ∧
          ∀ other, ¬ CallPhase.Unrenamed (session.tasks other)
  | .compact task _ =>
      session.tasks task = none →
        ∀ other toIndex ids, session.tasks other ≠ some (.appended toIndex ids)
  | _ => True

variable (codec)

/-- What a put will return is in the index, or is put into it. -/
def Promised (index : List Engram) (phase : Option (CallPhase Engram)) : Prop :=
  ∀ toIndex ids,
    phase = some (.looked toIndex ids) ∨ phase = some (.appended toIndex ids) →
      ∀ id ∈ ids, containsKey codec index id ∨ containsKey codec toIndex id

/-- A file that holds every id of the index. -/
def Holds (file : Nat) : Prop :=
  ∃ records, session.files file = encode codec records ∧ Covers codec session.index records ∧
    ∀ task toIndex ids, session.tasks task = some (.appended toIndex ids) →
      Covers codec toIndex records

structure Sound : Prop where
  logged : session.Holds codec session.logPath
  promised : ∀ task, Promised codec session.index (session.tasks task)
  returned : ∀ id ∈ session.returned, containsKey codec session.index id
  quiet : ∀ task, CallPhase.Unrenamed (session.tasks task) →
    ∀ other toIndex ids, session.tasks other ≠ some (.appended toIndex ids)
  snapshot : ∀ task signals, session.tasks task = some (.snapshot signals) →
    signals.Perm session.index
  /-- A temporary file is one that a compaction has written and not yet renamed. -/
  temp : ∀ file, session.tmpPath = some file →
    file ≠ session.logPath ∧ file < session.unused ∧ session.Holds codec file ∧
      ∃ task, session.tasks task = some .written
  fresh : session.logPath < session.unused

variable {codec} {session}

theorem Sound.durable (lawful : codec.RoundTrips) (sound : session.Sound codec) :
    session.Durable codec := by
  obtain ⟨records, file, covers, _⟩ := sound.logged
  refine ⟨ofRecords codec records, ?_, ?_⟩
  · rw [file]
    exact open_encode lawful records
  · intro id member
    exact containsKey_indexOf.mpr
      (containsKey_iff.mp (covers id (sound.returned id member)))

/-- Without a compaction before its rename there is no temporary file. -/
theorem Sound.tmpPath_eq_none (sound : session.Sound codec)
    (alone : ∀ task, ¬ CallPhase.Unrenamed (session.tasks task)) : session.tmpPath = none := by
  rw [Option.eq_none_iff_forall_ne_some]
  intro file isTemp
  obtain ⟨_, _, _, task, written⟩ := sound.temp file isTemp
  exact alone task (CallPhase.unrenamed_of_written written)

theorem Holds.mono {other : Session Engram} {file : Nat} (held : session.Holds codec file)
    (bytes : other.files file = session.files file) (index : other.index = session.index)
    (pending : ∀ task toIndex ids, other.tasks task = some (.appended toIndex ids) →
      session.tasks task = some (.appended toIndex ids)) : other.Holds codec file := by
  obtain ⟨records, encoded, covers, appended⟩ := held
  refine ⟨records, bytes.trans encoded, index ▸ covers, ?_⟩
  intro task toIndex ids found
  exact appended task toIndex ids (pending task toIndex ids found)

/-- What a task is doing after a step of another. -/
theorem setTask_eq_some {task other : Nat} {phase : Option (CallPhase Engram)}
    {next : CallPhase Engram} (changed : phase ≠ some next) :
    session.setTask task phase other = some next ↔
      other ≠ task ∧ session.tasks other = some next := by
  rw [setTask, Function.update_apply]
  split
  case isTrue same => simp [same, changed]
  case isFalse apart => simp [apart]

theorem unrenamed_setTask {task other : Nat} {phase : Option (CallPhase Engram)}
    (changed : ¬ CallPhase.Unrenamed phase)
    (unrenamed : CallPhase.Unrenamed (session.setTask task phase other)) :
    CallPhase.Unrenamed (session.tasks other) := by
  rw [setTask, Function.update_apply] at unrenamed
  split at unrenamed
  · exact absurd unrenamed changed
  · exact unrenamed

theorem promised_of_ne {index : List Engram} {phase : Option (CallPhase Engram)}
    (looks : ∀ toIndex ids, phase ≠ some (.looked toIndex ids))
    (appends : ∀ toIndex ids, phase ≠ some (.appended toIndex ids)) :
    Promised codec index phase := by
  intro toIndex ids either
  rcases either with looked | appended
  · exact absurd looked (looks toIndex ids)
  · exact absurd appended (appends toIndex ids)

theorem promised_setTask {task : Nat} {phase : Option (CallPhase Engram)}
    {index : List Engram} (promised : Promised codec index phase)
    (others : ∀ other, Promised codec index (session.tasks other)) (other : Nat) :
    Promised codec index (session.setTask task phase other) := by
  rw [setTask, Function.update_apply]
  split
  · exact promised
  · exact others other

/-- A task that goes on without appending, or reading the index for a compaction, and does
not leave a temporary file behind. -/
theorem Sound.advance (sound : session.Sound codec) {task : Nat}
    {phase : Option (CallPhase Engram)} (writer : Nat)
    (left : session.tasks task ≠ some .written ∨ session.tmpPath = none)
    (renames : ¬ CallPhase.Unrenamed phase)
    (appends : ∀ toIndex ids, phase ≠ some (.appended toIndex ids))
    (promised : Promised codec session.index phase) :
    Sound codec { session with
      logWriter := writer
      tasks := session.setTask task phase } := by
  have pending : ∀ other toIndex ids,
      session.setTask task phase other = some (.appended toIndex ids) →
        session.tasks other = some (.appended toIndex ids) :=
    fun other toIndex ids found => ((setTask_eq_some (appends toIndex ids)).mp found).2
  constructor
  case logged => exact sound.logged.mono rfl rfl pending
  case promised => exact promised_setTask promised sound.promised
  case returned => exact sound.returned
  case quiet =>
    intro first unrenamed other toIndex ids found
    exact sound.quiet first (unrenamed_setTask renames unrenamed) other toIndex ids
      (pending other toIndex ids found)
  case snapshot =>
    intro other signals found
    have changed : phase ≠ some (.snapshot signals) := by
      rintro rfl
      exact renames trivial
    exact sound.snapshot other signals ((setTask_eq_some changed).mp found).2
  case temp =>
    intro file isTemp
    obtain ⟨apart, numbered, held, writing, written⟩ := sound.temp file isTemp
    refine ⟨apart, numbered, held.mono rfl rfl pending, writing, ?_⟩
    have changed : phase ≠ some .written := by
      rintro rfl
      exact renames trivial
    refine (setTask_eq_some changed).mpr ⟨?_, written⟩
    rintro rfl
    rcases left with other | none'
    · exact other written
    · rw [none'] at isTemp
      cases isTemp
  case fresh => exact sound.fresh

/-- Ids of the index may be returned. -/
theorem Sound.return (sound : session.Sound codec) {ids : List Digest}
    (known : ∀ id ∈ ids, containsKey codec session.index id) :
    Sound codec { session with returned := ids ++ session.returned } where
  logged := sound.logged
  promised := sound.promised
  returned := by
    intro id member
    rcases List.mem_append.mp member with new | old
    · exact known id new
    · exact sound.returned id old
  quiet := sound.quiet
  snapshot := sound.snapshot
  temp := sound.temp
  fresh := sound.fresh

/-- A put that has looked for its ids in the index. -/
theorem Sound.look (sound : session.Sound codec) {task : Nat} {toIndex : List Engram}
    {ids : List Digest} (idle : session.tasks task = none)
    (promised : ∀ id ∈ ids, containsKey codec session.index id ∨ containsKey codec toIndex id) :
    Sound codec { session with
      tasks := session.setTask task (some (.looked toIndex ids)) } := by
  refine sound.advance session.logWriter (Or.inl (by simp [idle])) id (by simp) ?_
  intro toIndex' ids' either
  rcases either with looked | appended
  · cases looked
    exact promised
  · cases appended

/-- A task that neither puts nor renames afterwards. -/
theorem Sound.proceed (sound : session.Sound codec) {task : Nat}
    {phase : Option (CallPhase Engram)} (writer : Nat)
    (left : session.tasks task ≠ some .written ∨ session.tmpPath = none)
    (renames : ¬ CallPhase.Unrenamed phase)
    (looks : ∀ toIndex ids, phase ≠ some (.looked toIndex ids))
    (appends : ∀ toIndex ids, phase ≠ some (.appended toIndex ids)) :
    Sound codec { session with
      logWriter := writer
      tasks := session.setTask task phase } :=
  sound.advance writer left renames appends (promised_of_ne looks appends)

theorem promised_deduplicate (codec : EngramCodec Engram) (index : List Engram)
    (seen : List Digest) (signals : List Engram) :
    ∀ id ∈ (deduplicate codec index seen signals).2, containsKey codec index id ∨ id ∈ seen ∨
      containsKey codec (deduplicate codec index seen signals).1 id := by
  induction signals generalizing seen with
  | nil =>
      intro id member
      cases member
  | cons signal signals ih =>
      intro id member
      rw [deduplicate] at member ⊢
      dsimp only at member ⊢
      split at member
      case isTrue known =>
        rw [if_pos known]
        rcases List.mem_cons.mp member with rfl | later
        · rw [Bool.or_eq_true, List.contains_iff_mem] at known
          exact known.imp_right Or.inl
        · exact ih seen id later
      case isFalse known =>
        rw [if_neg known]
        have first : containsKey codec
            (codec.attachHdcFingerprint signal ::
              (deduplicate codec index
                (codec.id (codec.attachHdcFingerprint signal) :: seen) signals).1)
            (codec.id (codec.attachHdcFingerprint signal)) = true :=
          containsKey_iff.mpr ⟨_, List.mem_cons_self, rfl⟩
        rcases List.mem_cons.mp member with rfl | later
        · exact Or.inr (Or.inr first)
        · rcases ih _ id later with held | earlier | found
          · exact Or.inl held
          · rcases List.mem_cons.mp earlier with rfl | older
            · exact Or.inr (Or.inr first)
            · exact Or.inr (Or.inl older)
          · obtain ⟨engram, added, same⟩ := containsKey_iff.mp found
            exact Or.inr (Or.inr
              (containsKey_iff.mpr ⟨engram, List.mem_cons_of_mem _ added, same⟩))

/-- The ids that a batch will return are in the index, or are put into it. -/
theorem promised_putBatch {index signals : List Engram} {id : Digest}
    (member : id ∈ (deduplicate codec index [] signals).2) :
    containsKey codec index id ∨ containsKey codec (deduplicate codec index [] signals).1 id := by
  rcases promised_deduplicate codec index [] signals id member with held | seen | added
  · exact Or.inl held
  · cases seen
  · exact Or.inr added

theorem containsKey_append {first second : List Engram} {id : Digest} :
    containsKey codec (first ++ second) id = true ↔
      containsKey codec first id = true ∨ containsKey codec second id = true := by
  rw [containsKey, List.any_append, Bool.or_eq_true]
  rfl

theorem containsKey_foldl_insert {index toIndex : List Engram} {id : Digest} :
    containsKey codec (toIndex.foldl (FileSubstrate.insert codec) index) id = true ↔
      containsKey codec index id = true ∨ containsKey codec toIndex id = true := by
  induction toIndex generalizing index with
  | nil => simp [containsKey]
  | cons engram toIndex ih =>
      rw [List.foldl_cons, ih, containsKey_insert]
      have split : containsKey codec (engram :: toIndex) id = true ↔
          id = codec.id engram ∨ containsKey codec toIndex id = true := by
        rw [containsKey, List.any_cons, Bool.or_eq_true, decide_eq_true_eq, eq_comm]
        rfl
      rw [split]
      tauto

/-- A put that appends to the log, while no compaction is before its rename. -/
theorem Sound.append (sound : session.Sound codec) {task : Nat} {toIndex : List Engram}
    {ids : List Digest} (found : session.tasks task = some (.looked toIndex ids))
    (writer : session.logWriter = session.logPath)
    (alone : ∀ other, ¬ CallPhase.Unrenamed (session.tasks other)) :
    Sound codec { session with
      files := Function.update session.files session.logWriter
        (session.files session.logWriter ++ encode codec toIndex)
      tasks := session.setTask task (some (.appended toIndex ids)) } := by
  have still : ∀ other, ¬ CallPhase.Unrenamed
      (session.setTask task (some (.appended toIndex ids)) other) :=
    fun other unrenamed => alone other (unrenamed_setTask id unrenamed)
  constructor
  case logged =>
    obtain ⟨records, bytes, covers, pending⟩ := sound.logged
    refine ⟨records ++ toIndex, ?_, ?_, ?_⟩
    · simp [writer, bytes]
    · exact fun id held => containsKey_append.mpr (Or.inl (covers id held))
    · intro other toIndex' ids' waiting id held
      dsimp only [setTask] at waiting
      rw [Function.update_apply] at waiting
      split at waiting
      · cases waiting
        exact containsKey_append.mpr (Or.inr held)
      · exact containsKey_append.mpr (Or.inl (pending other toIndex' ids' waiting id held))
  case promised =>
    refine promised_setTask ?_ sound.promised
    intro toIndex' ids' either
    rcases either with looked | appended
    · cases looked
    · cases appended
      exact sound.promised task toIndex ids (Or.inl found)
  case returned => exact sound.returned
  case quiet => exact fun first unrenamed => absurd unrenamed (still first)
  case snapshot =>
    intro other signals taken
    exact absurd (CallPhase.unrenamed_of_snapshot taken) (still other)
  case temp =>
    intro file isTemp
    rw [sound.tmpPath_eq_none alone] at isTemp
    cases isTemp
  case fresh => exact sound.fresh

theorem Sound.insert (sound : session.Sound codec) {task : Nat} {toIndex : List Engram}
    {ids : List Digest} (found : session.tasks task = some (.appended toIndex ids)) :
    Sound codec { session with
      index := toIndex.foldl (FileSubstrate.insert codec) session.index
      tasks := session.setTask task none
      returned := ids ++ session.returned } := by
  have alone : ∀ other, ¬ CallPhase.Unrenamed (session.tasks other) :=
    fun other unrenamed => sound.quiet other unrenamed task toIndex ids found
  have still : ∀ other, ¬ CallPhase.Unrenamed (session.setTask task none other) :=
    fun other unrenamed => alone other (unrenamed_setTask id unrenamed)
  constructor
  case logged =>
    obtain ⟨records, bytes, covers, pending⟩ := sound.logged
    refine ⟨records, bytes, ?_, ?_⟩
    · intro id held
      rcases containsKey_foldl_insert.mp held with old | new
      · exact covers id old
      · exact pending task toIndex ids found id new
    · intro other toIndex' ids' waiting
      exact pending other toIndex' ids' ((setTask_eq_some (by simp)).mp waiting).2
  case promised =>
    refine promised_setTask (promised_of_ne (by simp) (by simp)) ?_
    intro other toIndex' ids' either id member
    have promised := sound.promised other toIndex' ids' either id member
    exact promised.imp_left fun held => containsKey_foldl_insert.mpr (Or.inl held)
  case returned =>
    intro id member
    rcases List.mem_append.mp member with new | old
    · exact containsKey_foldl_insert.mpr
        (sound.promised task toIndex ids (Or.inr found) id new)
    · exact containsKey_foldl_insert.mpr (Or.inl (sound.returned id old))
  case quiet => exact fun first unrenamed => absurd unrenamed (still first)
  case snapshot =>
    intro other signals taken
    exact absurd (CallPhase.unrenamed_of_snapshot taken) (still other)
  case temp =>
    intro file isTemp
    rw [sound.tmpPath_eq_none alone] at isTemp
    cases isTemp
  case fresh => exact sound.fresh

/-- A compaction that reads the index while no put is between its log and the index. -/
theorem Sound.compact (sound : session.Sound codec) {task : Nat} {signals : List Engram}
    (idle : session.tasks task = none) (values : signals.Perm session.index)
    (alone : ∀ other toIndex ids, session.tasks other ≠ some (.appended toIndex ids)) :
    Sound codec { session with
      tasks := session.setTask task (some (.snapshot signals)) } := by
  have pending : ∀ other toIndex ids,
      session.setTask task (some (.snapshot signals)) other ≠ some (.appended toIndex ids) :=
    fun other toIndex ids waiting =>
      alone other toIndex ids ((setTask_eq_some (by simp)).mp waiting).2
  constructor
  case logged =>
    exact sound.logged.mono rfl rfl
      fun other toIndex ids waiting => absurd waiting (pending other toIndex ids)
  case promised =>
    exact promised_setTask (promised_of_ne (by simp) (by simp)) sound.promised
  case returned => exact sound.returned
  case quiet => exact fun _ _ => pending
  case snapshot =>
    intro other taken found
    dsimp only [setTask] at found
    rw [Function.update_apply] at found
    split at found
    · cases found
      exact values
    · exact sound.snapshot other taken found
  case temp =>
    intro file isTemp
    obtain ⟨apart, numbered, held, writing, written⟩ := sound.temp file isTemp
    have other : writing ≠ task := by
      rintro rfl
      rw [idle] at written
      cases written
    refine ⟨apart, numbered, held.mono rfl rfl ?_, writing,
      (setTask_eq_some (by simp)).mpr ⟨other, written⟩⟩
    exact fun other toIndex ids waiting => absurd waiting (pending other toIndex ids)
  case fresh => exact sound.fresh

/-- A compaction writes what it has read to a file that is not the log. -/
theorem Sound.writeTemp (sound : session.Sound codec) {task : Nat} {signals : List Engram}
    (found : session.tasks task = some (.snapshot signals)) {file unused : Nat}
    (apart : file ≠ session.logPath) (numbered : file < unused)
    (fresh : session.logPath < unused) :
    Sound codec { session with
      files := Function.update session.files file (encode codec signals)
      unused := unused
      tmpPath := some file
      tasks := session.setTask task (some .written) } := by
  have alone : ∀ other toIndex ids, session.tasks other ≠ some (.appended toIndex ids) :=
    sound.quiet task (CallPhase.unrenamed_of_snapshot found)
  have pending : ∀ other toIndex ids,
      session.setTask task (some .written) other ≠ some (.appended toIndex ids) :=
    fun other toIndex ids waiting =>
      alone other toIndex ids ((setTask_eq_some (by simp)).mp waiting).2
  constructor
  case logged =>
    refine sound.logged.mono ?_ rfl
      fun other toIndex ids waiting => absurd waiting (pending other toIndex ids)
    exact Function.update_of_ne (Ne.symm apart) _ _
  case promised =>
    exact promised_setTask (promised_of_ne (by simp) (by simp)) sound.promised
  case returned => exact sound.returned
  case quiet => exact fun _ _ => pending
  case snapshot =>
    intro other taken still
    exact sound.snapshot other taken ((setTask_eq_some (by simp)).mp still).2
  case temp =>
    intro temp isTemp
    obtain rfl := Option.some.inj isTemp
    refine ⟨apart, numbered, ⟨signals, Function.update_self _ _ _, ?_, ?_⟩, task,
      Function.update_self _ _ _⟩
    · intro id held
      obtain ⟨engram, member, same⟩ := containsKey_iff.mp held
      exact containsKey_iff.mpr
        ⟨engram, (sound.snapshot task signals found).mem_iff.mpr member, same⟩
    · exact fun other toIndex ids waiting => absurd waiting (pending other toIndex ids)
  case fresh => exact fresh

/-- A compaction renames a file that holds the index. -/
theorem Sound.rename (sound : session.Sound codec) {task file : Nat}
    (isTemp : session.tmpPath = some file) :
    Sound codec { session with
      logPath := file
      tmpPath := none
      tasks := session.setTask task (some .renamed) } := by
  obtain ⟨_, numbered, held, _, _⟩ := sound.temp file isTemp
  have pending : ∀ other toIndex ids,
      session.setTask task (some .renamed) other = some (.appended toIndex ids) →
        session.tasks other = some (.appended toIndex ids) :=
    fun other toIndex ids waiting => ((setTask_eq_some (by simp)).mp waiting).2
  constructor
  case logged => exact held.mono rfl rfl pending
  case promised =>
    exact promised_setTask (promised_of_ne (by simp) (by simp)) sound.promised
  case returned => exact sound.returned
  case quiet =>
    intro first unrenamed other toIndex ids waiting
    exact sound.quiet first (unrenamed_setTask id unrenamed) other toIndex ids
      (pending other toIndex ids waiting)
  case snapshot =>
    intro other signals taken
    exact sound.snapshot other signals ((setTask_eq_some (by simp)).mp taken).2
  case temp => exact fun file none' => nomatch none'
  case fresh => exact numbered

theorem sound_start (records : List Engram) : Sound codec (start codec records) where
  logged := by
    refine ⟨records, by simp [start], ?_, fun task toIndex ids found => nomatch found⟩
    exact fun id held => containsKey_iff.mpr (containsKey_indexOf.mp held)
  promised _ := promised_of_ne (fun _ _ none' => nomatch none') fun _ _ none' => nomatch none'
  returned _ member := nomatch member
  quiet _ unrenamed := unrenamed.elim
  snapshot _ _ found := nomatch found
  temp _ isTemp := nomatch isTemp
  fresh := Nat.one_pos

variable [DecidableEq Engram]

theorem Sound.step_put (sound : session.Sound codec) (task : Nat) (signal : Engram) :
    Sound codec (session.step codec (.put task signal)) := by
  dsimp only [Session.step]
  split
  case h_1 idle =>
    split
    case isTrue known =>
      exact sound.return fun id member => List.mem_singleton.mp member ▸ known
    case isFalse =>
      refine sound.look idle fun id member => ?_
      rw [List.mem_singleton.mp member]
      exact Or.inr (containsKey_iff.mpr ⟨_, List.mem_singleton_self _, rfl⟩)
  case h_2 => exact sound

theorem Sound.step_putBatch (sound : session.Sound codec) (task : Nat)
    (signals : List Engram) : Sound codec (session.step codec (.putBatch task signals)) := by
  dsimp only [Session.step]
  split
  case h_1 idle =>
    split
    case isTrue none' =>
      refine sound.return fun id member => ?_
      rcases promised_putBatch member with held | added
      · exact held
      · rw [List.isEmpty_iff.mp none'] at added
        cases added
    case isFalse => exact sound.look idle fun id member => promised_putBatch member
  case h_2 => exact sound

theorem Sound.step_writeTemp (sound : session.Sound codec) (task : Nat) :
    Sound codec (session.step codec (.writeTemp task)) := by
  dsimp only [Session.step]
  split
  case h_1 signals found =>
    split
    case h_1 file isTemp =>
      obtain ⟨apart, numbered, _⟩ := sound.temp file isTemp
      have written := sound.writeTemp found apart numbered sound.fresh
      rw [← isTemp] at written
      exact written
    case h_2 =>
      exact sound.writeTemp found (Nat.ne_of_gt sound.fresh) (Nat.lt_succ_self _)
        (Nat.lt_succ_of_lt sound.fresh)
  case h_2 => exact sound

theorem Sound.step (sound : session.Sound codec) {step : CallStep Engram}
    (inTurn : session.InTurn step) : Sound codec (session.step codec step) := by
  cases step with
  | put task signal => exact sound.step_put task signal
  | putBatch task signals => exact sound.step_putBatch task signals
  | append task =>
      dsimp only [Session.step]
      split
      case h_1 toIndex ids found =>
        have alone := inTurn toIndex ids found
        exact sound.append found alone.1 alone.2
      case h_2 => exact sound
  | insert task =>
      dsimp only [Session.step]
      split
      case h_1 toIndex ids found => exact sound.insert found
      case h_2 => exact sound
  | compact task signals =>
      dsimp only [Session.step]
      split
      case h_1 idle =>
        split
        case isTrue values => exact sound.compact idle (List.isPerm_iff.mp values) (inTurn idle)
        case isFalse => exact sound
      case h_2 => exact sound
  | writeTemp task => exact sound.step_writeTemp task
  | rename task =>
      dsimp only [Session.step]
      split
      case h_1 found =>
        split
        case h_1 file isTemp => exact sound.rename isTemp
        case h_2 missing =>
          exact sound.proceed session.logWriter (Or.inr missing) id (by simp) (by simp)
      case h_2 => exact sound
  | reopen task =>
      dsimp only [Session.step]
      split
      case h_1 found =>
        exact sound.proceed session.logWriter (Or.inl (by simp [found])) id (by simp) (by simp)
      case h_2 => exact sound
  | replaceWriter task =>
      dsimp only [Session.step]
      split
      case h_1 writer found =>
        exact sound.proceed writer (Or.inl (by simp [found])) id (by simp) (by simp)
      case h_2 => exact sound

/-- In a run that keeps puts and compactions apart, every id that was returned is in the
log, in every state. -/
theorem returned_durable (lawful : codec.RoundTrips) (records : List Engram)
    {steps : List (CallStep Engram)}
    (inTurn : GuardedRun.Guarded (Session.step codec) Session.InTurn
      (start codec records) steps) :
    ∀ session ∈ GuardedRun.states (Session.step codec) (start codec records) steps,
      session.Durable codec := by
  intro session member
  have sound := GuardedRun.invariant_of_guarded (Session.step codec) Session.InTurn
    (Sound codec) (fun session step sound inTurn => sound.step inTurn)
    (sound_start records) inTurn session member
  exact sound.durable lawful

/-- A compaction reads the index before a put, and renames after the put has returned. -/
def overtakenPut : List (CallStep Note) :=
  [.compact 2 [.plain], .put 1 .other, .append 1, .insert 1,
    .writeTemp 2, .rename 2, .reopen 2, .replaceWriter 2]

/-- All calls have finished, the second note is in the index of the substrate, and a
substrate that is opened again does not hold it. -/
theorem overtaken_put_lost :
    let session := overtakenPut.foldl (step noteCodec) (start noteCodec [.plain])
    session.tasks 1 = none ∧ session.tasks 2 = none ∧ session.index = [.plain, .other] ∧
      session.returned = [noteCodec.id .other] ∧
      («open» noteCodec (session.files session.logPath)).map (·.index) = some [.plain] ∧
      ¬ session.Durable noteCodec := by
  refine ⟨by decide, by decide, by decide, by decide, by decide, ?_⟩
  rintro ⟨reopened, opened, held⟩
  have index : («open» noteCodec (encode noteCodec [.plain])).map (·.index) = some [.plain] := by
    decide
  change «open» noteCodec (encode noteCodec [.plain]) = some reopened at opened
  rw [opened, Option.map_some, Option.some.injEq] at index
  have found := held (noteCodec.id .other) (by decide)
  rw [index] at found
  revert found
  decide

theorem returned_durable_inTurn :
    let steps : List (CallStep Note) :=
      [.put 1 .other, .append 1, .insert 1, .compact 2 [.other, .plain], .writeTemp 2,
        .put 1 .accented, .rename 2, .reopen 2, .replaceWriter 2, .append 1, .insert 1]
    (steps.foldl (step noteCodec) (start noteCodec [.plain])).returned =
        [noteCodec.id .accented, noteCodec.id .other] ∧
      ∀ session ∈ GuardedRun.states (step noteCodec) (start noteCodec [.plain]) steps,
        session.Durable noteCodec := by
  refine ⟨by decide, returned_durable noteCodec_roundTrips [.plain] ?_⟩
  simp only [GuardedRun.guarded_cons, GuardedRun.guarded_nil, and_true]
  refine ⟨trivial, ?_, trivial, ?_, trivial, trivial, trivial, trivial, trivial, ?_, trivial⟩
  · intro toIndex ids found
    refine ⟨rfl, ?_⟩
    intro other unrenamed
    rcases other with _ | _ | other
    · exact unrenamed
    · exact unrenamed
    · exact unrenamed
  · intro idle other toIndex ids found
    rcases other with _ | _ | other
    · cases found
    · cases found
    · cases found
  · intro toIndex ids found
    refine ⟨rfl, ?_⟩
    intro other unrenamed
    rcases other with _ | _ | _ | other
    · exact unrenamed
    · exact unrenamed
    · exact unrenamed
    · exact unrenamed

end Session

end FileSubstrate

end Roko
