import Roko.FileTrees
import Roko.JsonValue

/-!
# Tool calls

The parts of `roko-core/src/tool/call.rs` that the safety policies read and raise.  A
`PathBuf` is kept as the segments between its separators.
-/

namespace Roko

abbrev PathBuf := FileTrees.Route String

structure ToolCall where
  name : String
  arguments : JsonValue

inductive ToolError
  | permissionDenied (message : String)
  | pathOutsideWorktree (path : PathBuf)
  | other (message : String)
  deriving DecidableEq

/-!
# The path policy

The model of `roko-agent/src/safety/path.rs`.  What `std::path::Path` says of a path is
defined here, and what the kernel says of it is asked of a tree of files.
-/

open FileTrees

namespace PathBuf

def parsePiece (piece : List Char) : Segment String :=
  if piece = [] ∨ piece = ['.'] then .current
  else if piece = ['.', '.'] then .parent
  else .name (String.ofList piece)

/-- `Path::new`. -/
def new (text : String) : PathBuf :=
  if text.toList = [] then { absolute := false, segments := [] }
  else
    { absolute := text.toList.head? = some '/'
      segments := (text.toList.splitOn '/').map parsePiece }

/-- `Path::join` with a relative path. -/
def join (path relative : PathBuf) : PathBuf where
  absolute := path.absolute
  segments := path.segments ++ if relative.segments = [] then [.current] else relative.segments

/-- The path that is checked for an argument. -/
def joined (worktree : PathBuf) (argPath : String) : PathBuf :=
  let candidate := new argPath
  if candidate.absolute then candidate else worktree.join candidate

/-- `Path::components`, behind the root: a dot stays only at the front of a relative path. -/
def components (path : PathBuf) : List (Segment String) :=
  let kept := path.segments.filter (· ≠ .current)
  if path.absolute then kept
  else if path.segments.head? = some .current then .current :: kept
  else kept

def startsWith (path base : PathBuf) : Bool :=
  path.absolute = base.absolute && base.components.isPrefixOf path.components

/-- `strip_prefix`, or the path itself. -/
def stripPrefix (path base : PathBuf) : PathBuf :=
  if path.startsWith base then
    { absolute := false, segments := path.components.drop base.components.length }
  else path

def normalizeStep (out : List (Segment String)) : Segment String → List (Segment String)
  | .current => out
  | .parent => if out.isEmpty then [.parent] else out.dropLast
  | .name name => out ++ [.name name]

def normalize (path : PathBuf) : PathBuf where
  absolute := path.absolute
  segments := path.components.foldl normalizeStep []

def segmentText : Segment String → String
  | .name name => name
  | .parent => ".."
  | .current => "."

def display (path : PathBuf) : String :=
  (if path.absolute then "/" else "") ++ String.intercalate "/" (path.segments.map segmentText)

end PathBuf

structure CanonicalPath where
  absolute : PathBuf
  relative : PathBuf
  deriving DecidableEq

structure PathPolicy where
  denySymlinks : Bool := false
  preventEscapes : Bool := true
  deriving DecidableEq

/-- What a process sees of the file system. -/
structure FileView where
  tree : FileTree String
  workingDirectory : List String
  maxLinks : Nat

namespace FileView

variable (view : FileView)

/-- `Path::canonicalize`. -/
def canonicalize (path : PathBuf) : Option (List String) :=
  if path.absolute || !path.segments.isEmpty then
    view.tree.walk false view.maxLinks (path.start view.workingDirectory) path.segments
  else none

/-- Where a path leads when it is opened to be written. -/
def follow (path : PathBuf) : Option (List String) :=
  view.tree.walk true view.maxLinks (path.start view.workingDirectory) path.segments

/-- `symlink_metadata` of a name behind a path. -/
def symlinkMetadata (front : PathBuf) (name : String) : Option (Entry String) :=
  (view.tree.walk false view.maxLinks (front.start view.workingDirectory)
    front.segments).bind fun directory => view.tree.entry (directory ++ [name])

/-- The loop of `canonicalize_existing_or_parent`, at a cursor that does not exist.  Its
components are given from the last one on; the result is the ancestor that exists and the
names behind it. -/
def climb (absolute : Bool) :
    List (Segment String) → List String → Option (List String × List String)
  | .name name :: rest, tail =>
      match view.canonicalize { absolute, segments := rest.reverse } with
      | some ancestor => some (ancestor, name :: tail)
      | none => climb absolute rest (name :: tail)
  | _, _ => none

def canonicalizeExistingOrParent (path : PathBuf) : PathBuf :=
  match view.canonicalize path with
  | some object => .ofNames object
  | none =>
      match view.climb path.absolute path.components.reverse [] with
      | some (ancestor, tail) => PathBuf.normalize (.ofNames (ancestor ++ tail))
      | none => path.normalize

/-- The loop of `check_no_symlink_components`, at the path in front of the components. -/
def checkFrom (absolute : Bool) :
    List (Segment String) → List (Segment String) → Except ToolError Unit
  | _, [] => .ok ()
  | current, .current :: rest => checkFrom absolute current rest
  | current, .parent :: rest => checkFrom absolute current.dropLast rest
  | current, .name name :: rest =>
      let next := current ++ [.name name]
      match view.symlinkMetadata { absolute, segments := current } name with
      | some (.link _) =>
          .error (.other
            ("symlink component not allowed: " ++
              PathBuf.display { absolute, segments := next }))
      | _ => checkFrom absolute next rest

def checkNoSymlinkComponents (path : PathBuf) : Except ToolError Unit :=
  view.checkFrom path.absolute [] path.components

def canonicalizeWithPolicy (worktree : PathBuf) (argPath : String) (policy : PathPolicy) :
    Except ToolError CanonicalPath :=
  let canonicalWorktree : PathBuf :=
    match view.canonicalize worktree with
    | some place => .ofNames place
    | none => worktree
  let canonicalJoined := view.canonicalizeExistingOrParent (worktree.joined argPath)
  if policy.preventEscapes && !canonicalJoined.startsWith canonicalWorktree then
    .error (.pathOutsideWorktree canonicalJoined)
  else
    match if policy.denySymlinks then view.checkNoSymlinkComponents canonicalJoined
        else .ok () with
    | .error error => .error error
    | .ok () =>
        .ok
          { absolute := canonicalJoined
            relative := canonicalJoined.stripPrefix canonicalWorktree }

end FileView

end Roko
