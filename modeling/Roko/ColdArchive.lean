import Mathlib.Data.List.Nodup
import Roko.FileSubstrate

/-!
# The cold archive

The model of `ArchiveColdSubstrate` in `roko-fs/src/cold_substrate.rs`: engrams are appended
to one file of lines a month, and an index of their places is written anew after each call.
A write may fail with some of its last bytes missing.
-/

namespace Roko

structure ColdIndexEntry where
  file : String
  offset : Nat
  archivedAt : Int
  deriving DecidableEq, Repr

/-- The map from the ids of engrams to their places. -/
@[ext]
structure ColdIndex where
  entries : List (Digest × ColdIndexEntry)
  distinct : (entries.map Prod.fst).Nodup
  deriving DecidableEq

namespace ColdIndex

def empty : ColdIndex where
  entries := []
  distinct := List.nodup_nil

def get (index : ColdIndex) (id : Digest) : Option ColdIndexEntry :=
  (index.entries.find? fun entry => entry.1 = id).map Prod.snd

/-- `HashMap::insert`. -/
def insert (index : ColdIndex) (id : Digest) (entry : ColdIndexEntry) : ColdIndex where
  entries := (index.entries.filter fun other => other.1 ≠ id) ++ [(id, entry)]
  distinct := by
    rw [List.map_append, List.nodup_append]
    refine ⟨(List.filter_sublist.map Prod.fst).nodup index.distinct, List.nodup_singleton _, ?_⟩
    intro other member same others
    obtain ⟨held, kept, rfl⟩ := List.mem_map.mp member
    rw [List.mem_singleton.mp others]
    simpa using (List.mem_filter.mp kept).2

theorem get_insert_self (index : ColdIndex) (id : Digest) (entry : ColdIndexEntry) :
    (index.insert id entry).get id = some entry := by
  have absent : (index.entries.filter fun other => other.1 ≠ id).find?
      (fun other => other.1 = id) = none := by
    refine List.find?_eq_none.mpr fun other member => ?_
    simpa using (List.mem_filter.mp member).2
  rw [get, insert, List.find?_append, absent]
  simp

theorem get_insert_of_ne (index : ColdIndex) {id other : Digest} (different : other ≠ id)
    (entry : ColdIndexEntry) : (index.insert id entry).get other = index.get other := by
  have kept (held : Digest × ColdIndexEntry) :
      (held.1 ≠ id ∧ held.1 = other) ↔ held.1 = other :=
    and_iff_right_of_imp fun same => same ▸ different
  simp [get, insert, List.find?_filter, kept, Ne.symm different]

end ColdIndex

/-- What serde_json makes of an index, and of the text of one. -/
structure ColdIndexSerde where
  toJson : ColdIndex → Option String
  fromJson : String → Option ColdIndex

/-- A text that was written is read as the same map. -/
def ColdIndexSerde.RoundTrips (serde : ColdIndexSerde) : Prop :=
  ∀ index text, serde.toJson index = some text →
    ∃ read, serde.fromJson text = some read ∧ ∀ id, read.get id = index.get id

inductive ColdError
  | io
  | bodyEncode
  | bodyDecode
  deriving DecidableEq, Repr

/-- What the clock shows when an engram is archived. -/
structure ArchiveTime where
  year : Nat
  month : Nat
  millis : Int
  deriving DecidableEq, Repr

/-- An engram that is archived, at a time.  Where the write fails, `fault` says how many of
its last bytes are missing. -/
structure Append (Engram : Type) where
  time : ArchiveTime
  engram : Engram
  fault : Option Nat
  deriving DecidableEq, Repr

structure ArchiveColdSubstrate where
  files : String → Option (List UInt8)
  index : ColdIndex

namespace ArchiveColdSubstrate

def indexPath : String := "index.json"

def zeroPadded (width number : Nat) : String :=
  let digits := toString number
  String.ofList (List.replicate (width - digits.length) '0') ++ digits

def currentArchivePath (time : ArchiveTime) : String :=
  zeroPadded 4 time.year ++ "-" ++ zeroPadded 2 time.month ++ ".jsonl"

/-- The bytes that a write leaves. -/
def written (bytes : List UInt8) (fault : Option Nat) : List UInt8 :=
  bytes.take (bytes.length - fault.getD 0)

variable {Engram : Type} (codec : EngramCodec Engram) (serde : ColdIndexSerde)

def loadIndex (files : String → Option (List UInt8)) : Except ColdError ColdIndex :=
  match files indexPath with
  | none => .ok .empty
  | some bytes =>
      match TextLines.decode bytes with
      | none => .error .io
      | some data =>
          match serde.fromJson data with
          | none => .error .bodyDecode
          | some index => .ok index

/-- Open the substrate of a directory: an index that cannot be loaded is taken for empty. -/
def «open» (files : String → Option (List UInt8)) : ArchiveColdSubstrate where
  files := files
  index := match loadIndex serde files with
    | .ok index => index
    | .error _ => .empty

def saveIndex (substrate : ArchiveColdSubstrate) (fault : Option Nat) :
    ArchiveColdSubstrate × Except ColdError Unit :=
  match serde.toJson substrate.index with
  | none => (substrate, .error .bodyEncode)
  | some data =>
      ({ substrate with
          files := Function.update substrate.files indexPath
            (some (written (textBytes data) fault)) },
        if fault.isSome then .error .io else .ok ())

/-- The file and the offset of the line. -/
def appendToArchive (substrate : ArchiveColdSubstrate) (item : Append Engram) :
    ArchiveColdSubstrate × Except ColdError (String × Nat) :=
  let fileName := currentArchivePath item.time
  let held := (substrate.files fileName).getD []
  ({ substrate with
      files := Function.update substrate.files fileName
        (some (held ++ written (FileSubstrate.lineBytes codec item.engram) item.fault)) },
    if item.fault.isSome then .error .io else .ok (fileName, held.length))

/-- The lines that are left after an offset; `none` is the end of the file. -/
def skipLines : List (List UInt8) → Nat → Except ColdError (Option (List (List UInt8)))
  | lines, 0 => .ok (some lines)
  | [], _ + 1 => .ok none
  | line :: lines, offset + 1 =>
      match TextLines.decode line with
      | none => .error .io
      | some _ => skipLines lines (offset + 1 - line.length)

def readFromArchive (files : String → Option (List UInt8)) (file : String) (offset : Nat) :
    Except ColdError (Option Engram) :=
  match files file with
  | none => .ok none
  | some bytes =>
      match skipLines (TextLines.split bytes) offset with
      | .error failure => .error failure
      | .ok none => .ok none
      | .ok (some []) => .ok none
      | .ok (some (line :: _)) =>
          match TextLines.decode line with
          | none => .error .io
          | some text =>
              match codec.fromJson (TextLines.trim text) with
              | none => .error .bodyDecode
              | some engram => .ok (some engram)

/-- The index with the place of an engram. -/
def recorded (substrate : ArchiveColdSubstrate) (item : Append Engram)
    (place : String × Nat) : ArchiveColdSubstrate :=
  { substrate with
    index := substrate.index.insert (codec.id item.engram) {
      file := place.1
      offset := place.2
      archivedAt := item.time.millis } }

def archive (substrate : ArchiveColdSubstrate) (item : Append Engram)
    (indexFault : Option Nat) : ArchiveColdSubstrate × Except ColdError Digest :=
  match appendToArchive codec substrate item with
  | (substrate, .error failure) => (substrate, .error failure)
  | (substrate, .ok place) =>
      match saveIndex serde (recorded codec substrate item place) indexFault with
      | (substrate, .error failure) => (substrate, .error failure)
      | (substrate, .ok ()) => (substrate, .ok (codec.id item.engram))

/-- The loop of `archive_batch`: how many engrams were archived. -/
def archiveLoop (substrate : ArchiveColdSubstrate) :
    List (Append Engram) → ArchiveColdSubstrate × Except ColdError Nat
  | [] => (substrate, .ok 0)
  | item :: items =>
      match appendToArchive codec substrate item with
      | (substrate, .error failure) => (substrate, .error failure)
      | (substrate, .ok place) =>
          let rest := archiveLoop (recorded codec substrate item place) items
          (rest.1, rest.2.map (· + 1))

def archiveBatch (substrate : ArchiveColdSubstrate) (items : List (Append Engram))
    (indexFault : Option Nat) : ArchiveColdSubstrate × Except ColdError Nat :=
  match archiveLoop codec substrate items with
  | (substrate, .error failure) => (substrate, .error failure)
  | (substrate, .ok count) =>
      match saveIndex serde substrate indexFault with
      | (substrate, .error failure) => (substrate, .error failure)
      | (substrate, .ok ()) => (substrate, .ok count)

def thaw (substrate : ArchiveColdSubstrate) (id : Digest) :
    Except ColdError (Option Engram) :=
  match substrate.index.get id with
  | some entry => readFromArchive codec substrate.files entry.file entry.offset
  | none => .ok none

end ArchiveColdSubstrate

end Roko
