import Mathlib.Algebra.Group.Int.Defs
import Mathlib.Data.List.Sort
import Roko.DirectoryTrees
import Roko.TextLines

/-!
# The garbage collection of a directory

The model of `GcEngine` in `roko-fs/src/gc.rs`, which scans a `.roko` directory for what
exceeds the limits of a policy, and then removes each path that it reports.  The directory
holds files and directories, without links, and its paths start below its root.  A removal
takes no time.
-/

namespace Roko

open DirectoryTrees

/-- A `SystemTime`, in nanoseconds from the epoch.  Its whole seconds are an `i64`. -/
structure SystemTime where
  nanos : Int
  lower : -2 ^ 63 * 10 ^ 9 ≤ nanos
  upper : nanos < 2 ^ 63 * 10 ^ 9
  deriving DecidableEq, Repr

/-- `Utc::now().timestamp()`. -/
def SystemTime.timestamp (time : SystemTime) : Int :=
  time.nanos / 10 ^ 9

/-- `duration_since(UNIX_EPOCH).unwrap_or_default().as_secs()`. -/
def SystemTime.secsSinceEpoch (time : SystemTime) : Int :=
  if time.nanos < 0 then 0 else time.nanos / 10 ^ 9

structure RetentionPolicy where
  maxEpisodes : Nat
  maxRunAgeDays : Nat
  maxCacheEntries : Nat
  deriving DecidableEq, Repr

structure GcCandidate where
  path : Path
  reason : String
  sizeBytes : Nat
  deriving DecidableEq, Repr

structure GcReport where
  candidates : List GcCandidate
  totalBytes : Nat
  removedCount : Nat
  failedCount : Nat
  deriving DecidableEq, Repr

/-- Why a scan fails: `read_to_string` was given bytes that are not UTF-8. -/
inductive ScanError
  | invalidData
  deriving DecidableEq, Repr

namespace GcEngine

abbrev RokoTree := DirTree SystemTime

def runsDir : Path := ["runs"]

def episodesPath : Path := ["memory", "episodes.jsonl"]

def contextPackCacheDir : Path := ["cache", "context-pack-cache"]

/-- `i64::saturating_sub`. -/
def saturatingSub (first second : Int) : Int :=
  max (-2 ^ 63) (min (2 ^ 63 - 1) (first - second))

def cutoffSecs (policy : RetentionPolicy) : Int :=
  policy.maxRunAgeDays * 86400

def ageSecs (now modified : SystemTime) : Int :=
  saturatingSub now.timestamp modified.secsSinceEpoch

/-- The sum wraps, as all sums of bytes here do. -/
def dirSizeBytes (tree : RokoTree) (path : Path) : Nat :=
  tree.fileBytes path % 2 ^ 64

/-- The body of the loop of `scan_runs`. -/
def scanRun (policy : RetentionPolicy) (now : SystemTime) (tree : RokoTree)
    (entry : String × Node SystemTime) : Option GcCandidate :=
  if entry.2.isDir then
    let age := ageSecs now entry.2.modified
    if age > cutoffSecs policy then
      some {
        path := runsDir ++ [entry.1]
        reason := s!"run older than {policy.maxRunAgeDays} days (age: {age.tdiv 86400} days)"
        sizeBytes := dirSizeBytes tree (runsDir ++ [entry.1]) }
    else none
  else none

def scanRuns (policy : RetentionPolicy) (now : SystemTime) (tree : RokoTree) :
    List GcCandidate :=
  if tree.isDir runsDir then (tree.readDir runsDir).filterMap (scanRun policy now tree)
  else []

/-- `split_inclusive('\n')`. -/
def splitInclusive : List Char → List (List Char)
  | [] => []
  | char :: chars =>
      if char = '\n' then [char] :: splitInclusive chars
      else match splitInclusive chars with
        | [] => [[char]]
        | line :: lines => (char :: line) :: lines

/-- A line of `str::lines`, without its end. -/
def stripEnd (line : List Char) : List Char :=
  if line.getLast? = some '\n' then
    if line.dropLast.getLast? = some '\r' then line.dropLast.dropLast else line.dropLast
  else line

/-- The lines of a text that are not blank. -/
def records (text : String) : List (List Char) :=
  ((splitInclusive text.toList).map stripEnd).filter fun line =>
    !line.all TextLines.isWhitespace

def scanEpisodes (policy : RetentionPolicy) (tree : RokoTree) :
    Except ScanError (List GcCandidate) :=
  match tree.read? episodesPath with
  | none => .ok []
  | some contents =>
      match TextLines.decode contents with
      | none => .error .invalidData
      | some text =>
          let lineCount := (records text).length
          if lineCount > policy.maxEpisodes then
            let excess := lineCount - policy.maxEpisodes
            .ok [{
              path := episodesPath
              reason := s!"episodes exceed limit: {lineCount} > {policy.maxEpisodes} " ++
                s!"(excess: {excess})"
              sizeBytes := contents.length * excess % 2 ^ 64 / max lineCount 1 }]
          else .ok []

/-- The order of `sort_by_key` in `scan_cache`. -/
def modifiedBefore (first second : String × Node SystemTime) : Bool :=
  first.2.modified.nanos ≤ second.2.modified.nanos

/-- The entries of the cache that are too many, the oldest first. -/
def excessEntries (policy : RetentionPolicy) (tree : RokoTree) :
    List (String × Node SystemTime) :=
  let entries := tree.readDir contextPackCacheDir
  if entries.length > policy.maxCacheEntries then
    (entries.mergeSort modifiedBefore).take (entries.length - policy.maxCacheEntries)
  else []

def scanCache (policy : RetentionPolicy) (tree : RokoTree) : List GcCandidate :=
  if tree.isDir contextPackCacheDir then
    (excessEntries policy tree).map fun entry => {
      path := contextPackCacheDir ++ [entry.1]
      reason := s!"cache exceeds {policy.maxCacheEntries} entry limit"
      sizeBytes := entry.2.length }
  else []

def scan (policy : RetentionPolicy) (now : SystemTime) (tree : RokoTree) :
    Except ScanError GcReport := do
  let runs := scanRuns policy now tree
  let episodes ← scanEpisodes policy tree
  let candidates := runs ++ episodes ++ scanCache policy tree
  return {
    candidates
    totalBytes := (candidates.map GcCandidate.sizeBytes).sum % 2 ^ 64
    removedCount := 0
    failedCount := 0 }

/-- The body of the loop of `collect`: the tree that is left, and how many removals
succeeded and failed. -/
def removeCandidate (now : SystemTime) (state : RokoTree × Nat × Nat)
    (candidate : GcCandidate) : RokoTree × Nat × Nat :=
  let result :=
    if state.1.isDir candidate.path then state.1.removeDirAll candidate.path now
    else state.1.removeFile candidate.path now
  match result with
  | some tree => (tree, state.2.1 + 1, state.2.2)
  | none => (state.1, state.2.1, state.2.2 + 1)

def collect (policy : RetentionPolicy) (now : SystemTime) (tree : RokoTree) :
    Except ScanError (GcReport × RokoTree) := do
  let report ← scan policy now tree
  let (left, removed, failed) := report.candidates.foldl (removeCandidate now) (tree, 0, 0)
  return ({ report with removedCount := removed, failedCount := failed }, left)

/-- The whole days and seconds of a run are counted from its own time. -/
def runAge (now modified : SystemTime) : Int :=
  now.timestamp - modified.timestamp

/-- The records of the episodes file. -/
def episodeRecords (tree : RokoTree) : List (List Char) :=
  (((tree.read? episodesPath).bind TextLines.decode).map records).getD []

/-- The paths that the policy has a say on: the file of the episodes, a run with all it
holds, and a cache entry with all it holds. -/
inductive Governed (tree : RokoTree) : Path → Prop
  | episodes : tree.isFile episodesPath = true → Governed tree episodesPath
  | run (name : String) (rest : Path) :
      tree.isDir (runsDir ++ [name]) = true → Governed tree (runsDir ++ name :: rest)
  | cache (name : String) (rest : Path) :
      Governed tree (contextPackCacheDir ++ name :: rest)

/-- The names are those of the newest entries of the cache. -/
structure NewestEntries (policy : RetentionPolicy) (tree : RokoTree) (names : List String) :
    Prop where
  distinct : names.Nodup
  present : names ⊆ (tree.readDir contextPackCacheDir).map Prod.fst
  count : names.length = min policy.maxCacheEntries (tree.readDir contextPackCacheDir).length
  newest : ∀ kept ∈ tree.readDir contextPackCacheDir,
    ∀ other ∈ tree.readDir contextPackCacheDir, kept.1 ∈ names → other.1 ∉ names →
      other.2.modified.nanos ≤ kept.2.modified.nanos

/-- What a policy leaves of a directory. -/
structure Retained (policy : RetentionPolicy) (now : SystemTime) (before after : RokoTree) :
    Prop where
  episodes : episodeRecords after =
    (episodeRecords before).drop ((episodeRecords before).length - policy.maxEpisodes)
  runs : ∀ name node rest, before.node? (runsDir ++ [name]) = some node → node.isDir = true →
    after.node? (runsDir ++ name :: rest) =
      if runAge now node.modified ≤ cutoffSecs policy then
        before.node? (runsDir ++ name :: rest)
      else none
  cache : ∃ names, NewestEntries policy before names ∧ ∀ name rest,
    after.node? (contextPackCacheDir ++ name :: rest) =
      if name ∈ names then before.node? (contextPackCacheDir ++ name :: rest) else none
  others : ∀ path, ¬ Governed before path → before.isDir path = false →
    after.node? path = before.node? path
  directories : ∀ path, ¬ Governed before path → before.isDir path = true →
    after.isDir path = true

/-- A collection leaves what the policy says, and a second one at the same time, which may
list the directory in another order, removes nothing. -/
def CollectsRightly (policy : RetentionPolicy) (now : SystemTime) (tree : RokoTree) : Prop :=
  ∃ report after, collect policy now tree = .ok (report, after) ∧ report.failedCount = 0 ∧
    Retained policy now tree after ∧
    ∀ later : RokoTree, later.entries.Perm after.entries →
      ∃ second, collect policy now later = .ok (second, later) ∧ second.removedCount = 0

/-- The file of the episodes, if there is one, is valid UTF-8. -/
def Readable (tree : RokoTree) : Prop :=
  ∀ contents, tree.read? episodesPath = some contents →
    (TextLines.decode contents).isSome = true

/-- The episodes are readable and not too many, unless none are to be kept, and no run from
before the epoch is taken for a younger one. -/
structure Collectable (policy : RetentionPolicy) (now : SystemTime) (tree : RokoTree) :
    Prop where
  readable : Readable tree
  episodes : (episodeRecords tree).length ≤ policy.maxEpisodes ∨ policy.maxEpisodes = 0
  runs : ∀ name node, tree.node? (runsDir ++ [name]) = some node → node.isDir = true →
    node.modified.nanos < 0 → now.timestamp ≤ cutoffSecs policy →
      runAge now node.modified ≤ cutoffSecs policy

section Scans

variable {policy : RetentionPolicy} {now : SystemTime} {tree : RokoTree}

theorem timestamp_bounds (time : SystemTime) :
    -2 ^ 63 ≤ time.timestamp ∧ time.timestamp < 2 ^ 63 := by
  have lower := time.lower
  have upper := time.upper
  unfold SystemTime.timestamp
  omega

theorem secsSinceEpoch_eq (time : SystemTime) :
    time.secsSinceEpoch = max 0 time.timestamp := by
  unfold SystemTime.secsSinceEpoch SystemTime.timestamp
  split <;> omega

/-- The age that a scan computes of a run from before the epoch is the time of the clock. -/
theorem cutoff_lt_ageSecs (modified : SystemTime) :
    cutoffSecs policy < ageSecs now modified ↔
      cutoffSecs policy < now.timestamp ∧ cutoffSecs policy < runAge now modified := by
  have nowBounds := timestamp_bounds now
  have bounds := timestamp_bounds modified
  have positive : 0 ≤ cutoffSecs policy := by
    unfold cutoffSecs
    omega
  rw [ageSecs, saturatingSub, secsSinceEpoch_eq, runAge]
  generalize cutoffSecs policy = cutoff at *
  omega

theorem scanRun_eq_some {entry : String × Node SystemTime} {candidate : GcCandidate}
    (scanned : scanRun policy now tree entry = some candidate) :
    candidate.path = runsDir ++ [entry.1] ∧ entry.2.isDir = true ∧
      cutoffSecs policy < ageSecs now entry.2.modified := by
  unfold scanRun at scanned
  split at scanned
  · dsimp only at scanned
    split at scanned
    · cases scanned
      exact ⟨rfl, ‹_›, ‹_›⟩
    · cases scanned
  · cases scanned

theorem scanRun_of_old (tree : RokoTree) {entry : String × Node SystemTime}
    (directory : entry.2.isDir = true)
    (old : cutoffSecs policy < ageSecs now entry.2.modified) :
    ∃ candidate, scanRun policy now tree entry = some candidate := by
  simp [scanRun, directory, old]

theorem mem_scanRuns {path : Path} :
    path ∈ (scanRuns policy now tree).map GcCandidate.path ↔
      ∃ name node, path = runsDir ++ [name] ∧ tree.node? path = some node ∧
        node.isDir = true ∧ cutoffSecs policy < ageSecs now node.modified := by
  rw [List.mem_map]
  constructor
  · rintro ⟨candidate, member, rfl⟩
    unfold scanRuns at member
    split at member
    · obtain ⟨entry, listed, scanned⟩ := List.mem_filterMap.mp member
      obtain ⟨same, directory, old⟩ := scanRun_eq_some scanned
      exact ⟨entry.1, entry.2, same, same ▸ DirTree.mem_readDir.mp listed, directory, old⟩
    · cases member
  · rintro ⟨name, node, rfl, found, directory, old⟩
    obtain ⟨candidate, scanned⟩ : ∃ candidate,
        scanRun policy now tree (name, node) = some candidate :=
      scanRun_of_old tree directory old
    refine ⟨candidate, ?_, (scanRun_eq_some scanned).1⟩
    have parent : tree.isDir runsDir = true :=
      DirTree.isDir_of_child (List.cons_ne_nil _ _) found
    rw [scanRuns, if_pos parent]
    exact List.mem_filterMap.mpr ⟨_, DirTree.mem_readDir.mpr found, scanned⟩

/-- Sorting and cutting lists the entries of the cache. -/
theorem mem_of_mem_excessEntries {entry : String × Node SystemTime}
    (member : entry ∈ excessEntries policy tree) :
    entry ∈ tree.readDir contextPackCacheDir := by
  unfold excessEntries at member
  dsimp only at member
  split at member
  · exact List.mem_mergeSort.mp (List.mem_of_mem_take member)
  · cases member

theorem mem_scanCache {path : Path} :
    path ∈ (scanCache policy tree).map GcCandidate.path ↔
      ∃ entry ∈ excessEntries policy tree, path = contextPackCacheDir ++ [entry.1] := by
  rw [scanCache]
  split
  · rw [List.map_map, List.mem_map]
    exact exists_congr fun entry => and_congr_right fun _ => eq_comm
  · rename_i absent
    simp only [List.map_nil, List.not_mem_nil, false_iff]
    rintro ⟨entry, member, _⟩
    exact absent (DirTree.isDir_of_child (List.cons_ne_nil _ _)
      (DirTree.mem_readDir.mp (mem_of_mem_excessEntries member)))

/-- The paths that a scan reports. -/
def doomed (policy : RetentionPolicy) (now : SystemTime) (tree : RokoTree) : List Path :=
  (scanRuns policy now tree).map GcCandidate.path ++
    (if policy.maxEpisodes < (episodeRecords tree).length then [episodesPath] else []) ++
    (scanCache policy tree).map GcCandidate.path

theorem isFile_of_record (some : 0 < (episodeRecords tree).length) :
    tree.isFile episodesPath = true := by
  unfold episodeRecords DirTree.read? at some
  rw [DirTree.isFile]
  cases found : tree.node? episodesPath with
  | none => simp [found] at some
  | some node =>
      cases node with
      | file contents modified => rfl
      | dir length modified => simp [found] at some

theorem mem_doomed {path : Path} :
    path ∈ doomed policy now tree ↔
      (∃ name node, path = runsDir ++ [name] ∧ tree.node? path = some node ∧
        node.isDir = true ∧ cutoffSecs policy < ageSecs now node.modified) ∨
      (path = episodesPath ∧ policy.maxEpisodes < (episodeRecords tree).length) ∨
      ∃ entry ∈ excessEntries policy tree, path = contextPackCacheDir ++ [entry.1] := by
  rw [doomed, List.mem_append, List.mem_append, mem_scanRuns, mem_scanCache, or_assoc]
  split <;> simp [*]

theorem scanEpisodes_of_readable (policy : RetentionPolicy) (readable : Readable tree) :
    ∃ found, scanEpisodes policy tree = .ok found ∧ found.map GcCandidate.path =
      if policy.maxEpisodes < (episodeRecords tree).length then [episodesPath] else [] := by
  unfold scanEpisodes episodeRecords
  cases held : tree.read? episodesPath with
  | none => exact ⟨[], rfl, by simp⟩
  | some contents =>
      obtain ⟨text, decoded⟩ := Option.isSome_iff_exists.mp (readable contents held)
      simp only [decoded, Option.bind_some, Option.map_some, Option.getD_some]
      split
      · exact ⟨_, rfl, rfl⟩
      · exact ⟨_, rfl, rfl⟩

theorem readable_of_scanEpisodes {found : List GcCandidate}
    (scanned : scanEpisodes policy tree = .ok found) : Readable tree := by
  intro contents held
  rw [scanEpisodes, held] at scanned
  cases decoded : TextLines.decode contents with
  | none => simp [decoded] at scanned
  | some text => rfl

theorem scan_of_readable (policy : RetentionPolicy) (now : SystemTime) (readable : Readable tree) :
    ∃ report, scan policy now tree = .ok report ∧
      report.candidates.map GcCandidate.path = doomed policy now tree := by
  obtain ⟨found, scanned, paths⟩ := scanEpisodes_of_readable policy readable
  refine ⟨_, by rw [scan, scanned]; rfl, ?_⟩
  simp [doomed, paths]

theorem nodup_excessEntries (policy : RetentionPolicy) (tree : RokoTree) :
    ((excessEntries policy tree).map Prod.fst).Nodup := by
  have distinct := tree.nodup_readDir contextPackCacheDir
  unfold excessEntries
  dsimp only
  split
  · have sorted := (List.mergeSort_perm (tree.readDir contextPackCacheDir)
      modifiedBefore).map Prod.fst
    exact ((List.take_sublist _ _).map Prod.fst).nodup (sorted.nodup_iff.mpr distinct)
  · exact List.nodup_nil

theorem not_prefix_sibling (base : Path) {first second : String} (apart : first ≠ second) :
    ¬ base ++ [first] <+: base ++ [second] := by
  simpa using apart

theorem pairwise_scanRuns (policy : RetentionPolicy) (now : SystemTime) (tree : RokoTree) :
    ((scanRuns policy now tree).map GcCandidate.path).Pairwise
      fun first second => ¬ first <+: second := by
  unfold scanRuns
  split
  · refine List.pairwise_map.mpr (List.pairwise_filterMap.mpr
      ((List.pairwise_map.mp (tree.nodup_readDir runsDir)).imp ?_))
    intro first second apart one scannedOne two scannedTwo
    rw [(scanRun_eq_some scannedOne).1, (scanRun_eq_some scannedTwo).1]
    exact not_prefix_sibling _ apart
  · exact List.Pairwise.nil

theorem pairwise_scanCache (policy : RetentionPolicy) (tree : RokoTree) :
    ((scanCache policy tree).map GcCandidate.path).Pairwise
      fun first second => ¬ first <+: second := by
  unfold scanCache
  split
  · rw [List.map_map]
    refine List.pairwise_map.mpr
      ((List.pairwise_map.mp (nodup_excessEntries policy tree)).imp ?_)
    intro first second apart
    exact not_prefix_sibling _ apart
  · exact List.Pairwise.nil

/-- No reported path lies below another. -/
theorem pairwise_doomed (policy : RetentionPolicy) (now : SystemTime) (tree : RokoTree) :
    (doomed policy now tree).Pairwise fun first second => ¬ first <+: second := by
  rw [doomed, List.append_assoc]
  refine List.pairwise_append.mpr ⟨pairwise_scanRuns policy now tree,
    List.pairwise_append.mpr ⟨?_, pairwise_scanCache policy tree, ?_⟩, ?_⟩
  · split <;> simp
  · intro first episodes second cached
    obtain ⟨entry, _, rfl⟩ := Iff.mp mem_scanCache cached
    split at episodes
    · rw [List.mem_singleton.mp episodes]
      simp [episodesPath, contextPackCacheDir]
    · cases episodes
  · intro first run second member
    obtain ⟨name, node, rfl, _⟩ := Iff.mp mem_scanRuns run
    rcases List.mem_append.mp member with episodes | cached
    · split at episodes
      · rw [List.mem_singleton.mp episodes]
        simp [episodesPath, runsDir]
      · cases episodes
    · obtain ⟨entry, _, rfl⟩ := Iff.mp mem_scanCache cached
      simp [contextPackCacheDir, runsDir]

theorem present_of_doomed {path : Path} (member : path ∈ doomed policy now tree) :
    (tree.node? path).isSome = true := by
  rw [mem_doomed] at member
  rcases member with ⟨name, node, rfl, found, _⟩ | ⟨rfl, excess⟩ | ⟨entry, excess, rfl⟩
  · rw [found]
    rfl
  · exact DirTree.isSome_of_isFile (isFile_of_record (Nat.zero_lt_of_lt excess))
  · rw [DirTree.mem_readDir.mp (mem_of_mem_excessEntries excess)]
    rfl

/-- The removal of a path that is there succeeds. -/
theorem removeCandidate_of_present {candidate : GcCandidate}
    (present : (tree.node? candidate.path).isSome = true) (removed failed : Nat) :
    removeCandidate now (tree, removed, failed) candidate =
      (tree.remove candidate.path now, removed + 1, failed) := by
  obtain ⟨node, found⟩ := Option.isSome_iff_exists.mp present
  cases directory : node.isDir <;>
    simp [removeCandidate, DirTree.removeDirAll, DirTree.removeFile, DirTree.isDir,
      DirTree.isFile, found, directory]

theorem foldl_removeCandidate (now : SystemTime) {candidates : List GcCandidate}
    {tree : RokoTree}
    (present : ∀ candidate ∈ candidates, (tree.node? candidate.path).isSome = true)
    (apart : (candidates.map GcCandidate.path).Pairwise fun first second => ¬ first <+: second)
    (removed failed : Nat) :
    candidates.foldl (removeCandidate now) (tree, removed, failed) =
      (tree.removeAll (candidates.map GcCandidate.path) now, removed + candidates.length,
        failed) := by
  induction candidates generalizing tree removed with
  | nil => rfl
  | cons candidate candidates ih =>
      rw [List.map_cons, List.pairwise_cons] at apart
      have later : ∀ other ∈ candidates,
          ((tree.remove candidate.path now).node? other.path).isSome = true := by
        intro other member
        rw [DirTree.node?_remove, if_neg (apart.1 _ (List.mem_map_of_mem member)),
          Option.isSome_map]
        exact present other (List.mem_cons_of_mem _ member)
      rw [List.foldl_cons, removeCandidate_of_present (present candidate List.mem_cons_self),
        ih later apart.2]
      simp only [List.length_cons, DirTree.removeAll, List.map_cons, List.foldl_cons]
      congr 2
      omega

/-- A collection of a readable directory removes what its scan reports. -/
theorem collect_of_readable (policy : RetentionPolicy) (now : SystemTime)
    (readable : Readable tree) :
    ∃ report, collect policy now tree =
        .ok (report, tree.removeAll (doomed policy now tree) now) ∧
      report.removedCount = (doomed policy now tree).length ∧ report.failedCount = 0 := by
  obtain ⟨report, scanned, paths⟩ := scan_of_readable policy now readable
  have present : ∀ candidate ∈ report.candidates,
      (tree.node? candidate.path).isSome = true := by
    intro candidate member
    exact present_of_doomed (paths ▸ List.mem_map_of_mem member)
  have folded := foldl_removeCandidate now present
    (paths ▸ pairwise_doomed policy now tree) 0 0
  refine ⟨{ report with removedCount := 0 + report.candidates.length, failedCount := 0 },
    ?_, ?_, rfl⟩
  · simp only [collect, scanned, bind, Except.bind, folded, paths]
    rfl
  · rw [← paths, List.length_map, Nat.zero_add]

theorem readable_of_collect {result : GcReport × RokoTree}
    (collected : collect policy now tree = .ok result) : Readable tree := by
  cases scanned : scanEpisodes policy tree with
  | ok found => exact readable_of_scanEpisodes scanned
  | error failure =>
      rw [collect, scan, scanned] at collected
      cases collected

/-- The entries of the cache, the oldest first. -/
def byAge (tree : RokoTree) : List (String × Node SystemTime) :=
  (tree.readDir contextPackCacheDir).mergeSort modifiedBefore

theorem mem_byAge {entry : String × Node SystemTime} :
    entry ∈ byAge tree ↔ entry ∈ tree.readDir contextPackCacheDir :=
  List.mem_mergeSort

theorem length_byAge (tree : RokoTree) :
    (byAge tree).length = (tree.readDir contextPackCacheDir).length :=
  List.length_mergeSort _

theorem nodup_byAge (tree : RokoTree) : ((byAge tree).map Prod.fst).Nodup :=
  ((List.mergeSort_perm _ _).map Prod.fst).nodup_iff.mpr
    (tree.nodup_readDir contextPackCacheDir)

theorem excessEntries_eq (policy : RetentionPolicy) (tree : RokoTree) :
    excessEntries policy tree =
      (byAge tree).take ((byAge tree).length - policy.maxCacheEntries) := by
  rw [length_byAge, excessEntries]
  split
  · rfl
  · rw [Nat.sub_eq_zero_of_le (Nat.le_of_not_lt ‹_›), List.take_zero]

/-- The names of the entries of the cache that stay. -/
def keptNames (policy : RetentionPolicy) (tree : RokoTree) : List String :=
  ((byAge tree).drop ((byAge tree).length - policy.maxCacheEntries)).map Prod.fst

theorem pairwise_byAge (tree : RokoTree) :
    (byAge tree).Pairwise fun first second =>
      first.2.modified.nanos ≤ second.2.modified.nanos := by
  have ordered : ∀ first second third : String × Node SystemTime,
      modifiedBefore first second = true → modifiedBefore second third = true →
        modifiedBefore first third = true := by
    intro first second third before after
    exact decide_eq_true ((of_decide_eq_true before).trans (of_decide_eq_true after))
  have compared : ∀ first second : String × Node SystemTime,
      (modifiedBefore first second || modifiedBefore second first) = true := by
    intro first second
    simpa [modifiedBefore] using Int.le_total _ _
  exact (List.pairwise_mergeSort ordered compared _).imp fun before => of_decide_eq_true before

/-- An entry of the cache stays, or it is one that is too many. -/
theorem mem_keptNames_iff {entry : String × Node SystemTime}
    (listed : entry ∈ tree.readDir contextPackCacheDir) :
    entry.1 ∈ keptNames policy tree ↔ entry ∉ excessEntries policy tree := by
  have distinct := nodup_byAge tree
  rw [excessEntries_eq, keptNames]
  generalize (byAge tree).length - policy.maxCacheEntries = count
  have divided : entry ∈ (byAge tree).take count ∨ entry ∈ (byAge tree).drop count := by
    rw [← List.mem_append, List.take_append_drop]
    exact Iff.mpr mem_byAge listed
  rw [← List.take_append_drop count (byAge tree), List.map_append] at distinct
  have apart := List.disjoint_of_nodup_append distinct
  constructor
  · intro kept excess
    exact apart (List.mem_map_of_mem excess) kept
  · intro spared
    exact List.mem_map_of_mem (divided.resolve_left spared)

theorem newestEntries_keptNames (policy : RetentionPolicy) (tree : RokoTree) :
    NewestEntries policy tree (keptNames policy tree) where
  distinct := ((List.drop_sublist _ _).map Prod.fst).nodup (nodup_byAge tree)
  present := by
    intro name kept
    obtain ⟨entry, member, rfl⟩ := List.mem_map.mp kept
    exact List.mem_map_of_mem (Iff.mp mem_byAge (List.mem_of_mem_drop member))
  count := by
    rw [keptNames, List.length_map, List.length_drop, length_byAge]
    omega
  newest := by
    intro kept keptListed other otherListed stays goes
    have excess : other ∈ excessEntries policy tree := by
      by_contra spared
      exact goes ((mem_keptNames_iff otherListed).mpr spared)
    rw [mem_keptNames_iff keptListed] at stays
    rw [excessEntries_eq] at excess stays
    generalize (byAge tree).length - policy.maxCacheEntries = count at *
    have sorted := pairwise_byAge tree
    rw [← List.take_append_drop count (byAge tree), List.pairwise_append] at sorted
    have held := Iff.mpr mem_byAge keptListed
    rw [← List.take_append_drop count (byAge tree), List.mem_append] at held
    exact sorted.2.2 other excess kept (held.resolve_left stays)

/-- What lies below a run is only removed with the run. -/
theorem spared_run {name : String} {node : Node SystemTime} (rest : Path)
    (found : tree.node? (runsDir ++ [name]) = some node)
    (young : ageSecs now node.modified ≤ cutoffSecs policy) :
    ∀ path ∈ doomed policy now tree, ¬ path <+: runsDir ++ name :: rest := by
  intro path member within
  rw [mem_doomed] at member
  rcases member with ⟨other, old, rfl, there, _, late⟩ | ⟨rfl, _⟩ | ⟨entry, _, rfl⟩
  · obtain rfl : other = name := by simpa [runsDir] using within
    rw [found] at there
    cases there
    exact absurd late (not_lt.mpr young)
  · simp [episodesPath, runsDir] at within
  · simp [contextPackCacheDir, runsDir] at within

/-- No path that a removal touches lies below a run or an entry of the cache. -/
theorem still_below {base rest : Path} {name : String}
    (governed : base = runsDir ∨ base = contextPackCacheDir) :
    ∀ path ∈ doomed policy now tree, base ++ name :: rest ≠ path.dropLast := by
  intro path member same
  rw [mem_doomed] at member
  rcases member with ⟨other, old, rfl, _⟩ | ⟨rfl, _⟩ | ⟨entry, _, rfl⟩ <;>
    rcases governed with rfl | rfl <;>
      simp [runsDir, episodesPath, contextPackCacheDir] at same

theorem spared_cache {name : String} {rest : Path}
    (spared : ∀ entry ∈ excessEntries policy tree, entry.1 ≠ name) :
    ∀ path ∈ doomed policy now tree, ¬ path <+: contextPackCacheDir ++ name :: rest := by
  intro path member within
  rw [mem_doomed] at member
  rcases member with ⟨other, old, rfl, _⟩ | ⟨rfl, _⟩ | ⟨entry, excess, rfl⟩
  · simp [contextPackCacheDir, runsDir] at within
  · simp [episodesPath, contextPackCacheDir] at within
  · exact spared entry excess (by simpa [contextPackCacheDir] using within)

/-- What a collection leaves of a run. -/
theorem node?_run {name : String} {node : Node SystemTime} (rest : Path)
    (found : tree.node? (runsDir ++ [name]) = some node) (directory : node.isDir = true) :
    (tree.removeAll (doomed policy now tree) now).node? (runsDir ++ name :: rest) =
      if ageSecs now node.modified ≤ cutoffSecs policy then
        tree.node? (runsDir ++ name :: rest)
      else none := by
  split
  · rename_i young
    exact DirTree.node?_removeAll_of_still (spared_run rest found young)
      (still_below (Or.inl rfl))
  · rename_i old
    exact DirTree.node?_removeAll_of_within
      (Iff.mpr mem_doomed (Or.inl ⟨name, node, rfl, found, directory, not_le.mp old⟩))
      ⟨rest, by simp [runsDir]⟩

/-- What lies below an entry of the cache shows that the entry is listed. -/
theorem listed_of_below {name : String} {rest : Path}
    (found : (tree.node? (contextPackCacheDir ++ name :: rest)).isSome = true) :
    ∃ node, (name, node) ∈ tree.readDir contextPackCacheDir := by
  rw [List.append_cons] at found
  obtain ⟨node, held⟩ :=
    Option.isSome_iff_exists.mp (DirTree.isSome_above (by simp) found)
  exact ⟨node, DirTree.mem_readDir.mpr held⟩

/-- What a collection leaves of the cache. -/
theorem node?_cache (name : String) (rest : Path) :
    (tree.removeAll (doomed policy now tree) now).node? (contextPackCacheDir ++ name :: rest) =
      if name ∈ keptNames policy tree then tree.node? (contextPackCacheDir ++ name :: rest)
      else none := by
  cases found : tree.node? (contextPackCacheDir ++ name :: rest) with
  | none => rw [DirTree.node?_removeAll_of_none found, ite_self]
  | some below =>
      obtain ⟨node, listed⟩ := listed_of_below (Option.isSome_of_eq_some found)
      rw [← found]
      split
      · rename_i kept
        refine DirTree.node?_removeAll_of_still (spared_cache ?_) (still_below (Or.inr rfl))
        rintro entry excess rfl
        have spared := (mem_keptNames_iff (mem_of_mem_excessEntries excess)).mp kept
        exact spared excess
      · rename_i goes
        have excess : (name, node) ∈ excessEntries policy tree := by
          by_contra spared
          exact goes ((mem_keptNames_iff listed).mpr spared)
        exact DirTree.node?_removeAll_of_within
          (Iff.mpr mem_doomed (Or.inr (Or.inr ⟨_, excess, rfl⟩))) ⟨rest, by simp⟩

/-- Whatever is removed is governed by the policy. -/
theorem spared_other {path : Path} (other : ¬ Governed tree path)
    (present : (tree.node? path).isSome = true) :
    ∀ removed ∈ doomed policy now tree, ¬ removed <+: path := by
  rintro removed member ⟨rest, rfl⟩
  rw [mem_doomed] at member
  rcases member with ⟨name, node, rfl, found, directory, _⟩ | ⟨rfl, excess⟩ | ⟨entry, _, rfl⟩
  · refine other (.run name rest ?_)
    rw [DirTree.isDir, found]
    exact directory
  · have file := isFile_of_record (Nat.zero_lt_of_lt excess)
    by_cases itself : rest = []
    · subst itself
      exact other (.episodes file)
    · have directory : tree.isDir episodesPath = true :=
        DirTree.isDir_of_below (List.cons_ne_nil _ _) itself present
      rw [DirTree.isDir_of_isFile file] at directory
      cases directory
  · exact other (.cache entry.1 rest)

theorem spared_episodes (few : (episodeRecords tree).length ≤ policy.maxEpisodes) :
    ∀ path ∈ doomed policy now tree, ¬ path <+: episodesPath := by
  intro path member within
  rw [mem_doomed] at member
  rcases member with ⟨other, old, rfl, _⟩ | ⟨rfl, excess⟩ | ⟨entry, _, rfl⟩
  · simp [episodesPath, runsDir] at within
  · exact absurd excess (not_lt.mpr few)
  · simp [episodesPath, contextPackCacheDir] at within

/-- Too many records: none is left. -/
theorem episodeRecords_of_excess (excess : policy.maxEpisodes < (episodeRecords tree).length) :
    episodeRecords (tree.removeAll (doomed policy now tree) now) = [] := by
  have gone : (tree.removeAll (doomed policy now tree) now).node? episodesPath = none :=
    DirTree.node?_removeAll_of_within (Iff.mpr mem_doomed (Or.inr (Or.inl ⟨rfl, excess⟩)))
      (List.prefix_refl episodesPath)
  simp [episodeRecords, DirTree.read?, gone]

theorem episodeRecords_of_few (few : (episodeRecords tree).length ≤ policy.maxEpisodes) :
    episodeRecords (tree.removeAll (doomed policy now tree) now) = episodeRecords tree := by
  rw [episodeRecords, DirTree.read?_removeAll_of_spared (spared_episodes few), ← episodeRecords]

/-- The age of a run that is older than its policy allows is counted right. -/
theorem clock_of_old (collectable : Collectable policy now tree) {name : String}
    {node : Node SystemTime} (found : tree.node? (runsDir ++ [name]) = some node)
    (directory : node.isDir = true) (old : cutoffSecs policy < runAge now node.modified) :
    cutoffSecs policy < now.timestamp := by
  by_contra early
  have recent : 0 ≤ node.modified.timestamp := by
    by_contra ancient
    refine absurd (collectable.runs name node found directory ?_ (not_lt.mp early))
      (not_le.mpr old)
    unfold SystemTime.timestamp at ancient
    omega
  unfold runAge at old
  omega

theorem retained_of_collectable (collectable : Collectable policy now tree) :
    Retained policy now tree (tree.removeAll (doomed policy now tree) now) where
  episodes := by
    by_cases excess : policy.maxEpisodes < (episodeRecords tree).length
    · have none : policy.maxEpisodes = 0 :=
        collectable.episodes.resolve_left (not_le.mpr excess)
      rw [episodeRecords_of_excess excess, none, Nat.sub_zero, List.drop_length]
    · have few := not_lt.mp excess
      rw [Nat.sub_eq_zero_of_le few, List.drop_zero, episodeRecords_of_few few]
  runs := by
    intro name node rest found directory
    have counted : runAge now node.modified ≤ cutoffSecs policy ↔
        ageSecs now node.modified ≤ cutoffSecs policy := by
      refine not_iff_not.mp ?_
      rw [not_le, not_le, cutoff_lt_ageSecs]
      refine (and_iff_right_of_imp fun old => ?_).symm
      exact clock_of_old collectable found directory old
    rw [node?_run rest found directory]
    simp only [counted]
  cache := ⟨keptNames policy tree, newestEntries_keptNames policy tree, node?_cache⟩
  others := by
    intro path other file
    cases present : tree.node? path with
    | none => exact DirTree.node?_removeAll_of_none present
    | some node =>
        rw [← present]
        exact DirTree.node?_removeAll_of_file
          (spared_other other (Option.isSome_of_eq_some present)) file
  directories := by
    intro path other directory
    rw [DirTree.isDir_removeAll_of_spared
      (spared_other other (DirTree.isSome_of_isDir directory))]
    exact directory

theorem length_episodeRecords_le :
    (episodeRecords (tree.removeAll (doomed policy now tree) now)).length ≤
      policy.maxEpisodes := by
  by_cases excess : policy.maxEpisodes < (episodeRecords tree).length
  · rw [episodeRecords_of_excess excess]
    exact Nat.zero_le _
  · rw [episodeRecords_of_few (not_lt.mp excess)]
    exact not_lt.mp excess

theorem young_of_left {name : String} {node : Node SystemTime}
    (left : (tree.removeAll (doomed policy now tree) now).node? (runsDir ++ [name]) = some node)
    (directory : node.isDir = true) : ageSecs now node.modified ≤ cutoffSecs policy := by
  by_contra old
  by_cases within : ∃ path ∈ doomed policy now tree, path <+: runsDir ++ [name]
  · rw [DirTree.node?_removeAll, if_pos within] at left
    cases left
  · have spared : ∀ path ∈ doomed policy now tree, ¬ path <+: runsDir ++ [name] :=
      fun path member inside => within ⟨path, member, inside⟩
    rw [DirTree.node?_removeAll_of_still spared (still_below (Or.inl rfl))] at left
    exact spared _ (Iff.mpr mem_doomed (Or.inl ⟨name, node, rfl, left, directory, not_le.mp old⟩))
      (List.prefix_refl _)

theorem length_cache_le :
    ((tree.removeAll (doomed policy now tree) now).readDir contextPackCacheDir).length ≤
      policy.maxCacheEntries := by
  set left := tree.removeAll (doomed policy now tree) now
  have within : (left.readDir contextPackCacheDir).map Prod.fst ⊆ keptNames policy tree := by
    intro name member
    obtain ⟨entry, listed, rfl⟩ := List.mem_map.mp member
    have found := DirTree.mem_readDir.mp listed
    rw [node?_cache] at found
    by_contra goes
    rw [if_neg goes] at found
    cases found
  calc (left.readDir contextPackCacheDir).length
      = ((left.readDir contextPackCacheDir).map Prod.fst).length := (List.length_map _).symm
    _ ≤ (keptNames policy tree).length :=
        (List.subperm_of_subset (left.nodup_readDir _) within).length_le
    _ ≤ policy.maxCacheEntries := by
        rw [(newestEntries_keptNames policy tree).count]
        exact Nat.min_le_left _ _

/-- A second scan reports nothing. -/
theorem doomed_of_collected {later : RokoTree}
    (same : later.entries.Perm (tree.removeAll (doomed policy now tree) now).entries) :
    doomed policy now later = [] := by
  refine List.eq_nil_iff_forall_not_mem.mpr fun path member => ?_
  rw [mem_doomed] at member
  rcases member with ⟨name, node, rfl, found, directory, old⟩ | ⟨_, excess⟩ | ⟨entry, excess, _⟩
  · rw [DirTree.node?_of_perm same] at found
    exact absurd old (not_lt.mpr (young_of_left found directory))
  · rw [episodeRecords, DirTree.read?_of_perm same, ← episodeRecords] at excess
    exact absurd excess (not_lt.mpr length_episodeRecords_le)
  · have few : (later.readDir contextPackCacheDir).length ≤ policy.maxCacheEntries := by
      rw [(DirTree.readDir_of_perm same _).length_eq]
      exact length_cache_le
    rw [excessEntries_eq, length_byAge, Nat.sub_eq_zero_of_le few] at excess
    cases excess

theorem readable_of_collected {later : RokoTree} (readable : Readable tree)
    (same : later.entries.Perm (tree.removeAll (doomed policy now tree) now).entries) :
    Readable later := by
  intro contents held
  refine readable contents ?_
  rw [← held, DirTree.read?_of_perm same]
  by_cases spared : ∀ path ∈ doomed policy now tree, ¬ path <+: episodesPath
  · exact (DirTree.read?_removeAll_of_spared spared).symm
  · push Not at spared
    obtain ⟨path, member, within⟩ := spared
    rw [DirTree.read?_of_perm same, DirTree.read?,
      DirTree.node?_removeAll_of_within member within] at held
    cases held

/-- A second collection removes nothing. -/
theorem collected_again {later : RokoTree} (readable : Readable tree)
    (same : later.entries.Perm (tree.removeAll (doomed policy now tree) now).entries) :
    ∃ second, collect policy now later = .ok (second, later) ∧ second.removedCount = 0 := by
  have nothing := doomed_of_collected same
  obtain ⟨second, collected, removed, _⟩ :=
    collect_of_readable policy now (readable_of_collected readable same)
  rw [nothing] at collected removed
  exact ⟨second, collected, removed⟩

/-- What a collection leaves of a run from before the epoch that it takes for a younger
one. -/
theorem runs_of_retained {after : RokoTree}
    (collected : after = tree.removeAll (doomed policy now tree) now)
    (retained : Retained policy now tree after) {name : String} {node : Node SystemTime}
    (found : tree.node? (runsDir ++ [name]) = some node) (directory : node.isDir = true)
    (early : now.timestamp ≤ cutoffSecs policy) :
    runAge now node.modified ≤ cutoffSecs policy := by
  by_contra old
  have young : ageSecs now node.modified ≤ cutoffSecs policy := by
    by_contra late
    exact absurd (cutoff_lt_ageSecs _ |>.mp (not_le.mp late)).1 (not_lt.mpr early)
  have left := retained.runs name node [] found directory
  rw [if_neg old, collected, node?_run [] found directory, if_pos young, found] at left
  cases left

theorem episodes_of_retained {after : RokoTree}
    (collected : after = tree.removeAll (doomed policy now tree) now)
    (retained : Retained policy now tree after) :
    (episodeRecords tree).length ≤ policy.maxEpisodes ∨ policy.maxEpisodes = 0 := by
  by_contra both
  push Not at both
  have kept := congrArg List.length retained.episodes
  rw [collected, episodeRecords_of_excess both.1, List.length_drop, List.length_nil] at kept
  omega

end Scans

/-- A collection leaves what its policy says, and nothing for a second one to remove, if and
only if the episodes are readable and not too many, unless none are to be kept, and no run
from before the epoch is taken for a younger one. -/
theorem collectsRightly_iff (policy : RetentionPolicy) (now : SystemTime) (tree : RokoTree) :
    CollectsRightly policy now tree ↔ Collectable policy now tree := by
  constructor
  · rintro ⟨report, after, collected, _, retained, _⟩
    have readable := readable_of_collect collected
    obtain ⟨_, same, _⟩ := collect_of_readable policy now readable
    rw [collected] at same
    have left := congrArg Prod.snd (Except.ok.inj same)
    exact {
      readable := readable
      episodes := episodes_of_retained left retained
      runs := fun name node found directory _ early =>
        runs_of_retained left retained found directory early }
  · intro collectable
    obtain ⟨report, collected, _, failed⟩ :=
      collect_of_readable policy now collectable.readable
    exact ⟨report, _, collected, failed, retained_of_collectable collectable,
      fun later same => collected_again collectable.readable same⟩

/-- A directory with two records of episodes. -/
def twoEpisodes : RokoTree where
  entries := [(["memory"], .dir 0 ⟨0, by decide, by decide⟩),
    (["memory", "episodes.jsonl"],
      .file "1\n2\n".toByteArray.data.toList ⟨0, by decide, by decide⟩)]
  distinct := by decide
  named := by simp
  parents := by simp [Node.isDir]

/-- Of two records one is to be kept, and none is. -/
theorem recent_episode_lost :
    episodeRecords twoEpisodes = [['1'], ['2']] ∧
      ¬ CollectsRightly ⟨1, 7, 2000⟩ ⟨0, by decide, by decide⟩ twoEpisodes := by
  have held : episodeRecords twoEpisodes = [['1'], ['2']] := by
    have read : twoEpisodes.read? episodesPath = some "1\n2\n".toByteArray.data.toList := rfl
    rw [episodeRecords, read, Option.bind_some, TextLines.decode_toByteArray]
    decide
  refine ⟨held, ?_⟩
  rintro ⟨report, after, collected, _, retained, _⟩
  obtain ⟨_, same, _⟩ := collect_of_readable _ _ (readable_of_collect collected)
  rw [collected] at same
  have few := episodes_of_retained (congrArg Prod.snd (Except.ok.inj same)) retained
  rw [held] at few
  simp at few

end GcEngine

end Roko
