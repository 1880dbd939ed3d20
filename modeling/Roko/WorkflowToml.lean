import Mathlib.Data.List.TakeWhile
import Roko.PipelineState
import Roko.TextLines

/-!
# The configuration of the workflow

The model of `WorkflowConfig::from_toml_str` of `roko-runtime/src/pipeline_state.rs`, which
reads a text line by line.
-/

namespace Roko

structure WorkflowConfigToml where
  template : Option String := none
  hasStrategy : Option Bool := none
  hasReview : Option Bool := none
  maxIterations : Option UInt32 := none
  maxAutofixAttempts : Option UInt32 := none
  deriving DecidableEq

inductive WorkflowTomlScope
  | root
  | workflow
  | workflowStep
  | other
  deriving DecidableEq

namespace WorkflowToml

open TextLines (isWhitespace)

/-- `str::lines`.  The last line needs no end. -/
def lines (text : String) : List String :=
  let pieces := text.toList.splitOn '\n'
  let ended := pieces.dropLast.map fun line =>
    if line.getLast? = some '\r' then line.dropLast else line
  let last := pieces.getLast?.toList.filter (· ≠ [])
  (ended ++ last).map String.ofList

/-- The loop of `strip_toml_comment`, from a character on. -/
def stripFrom (inString escaped : Bool) : List Char → Except String (List Char)
  | [] => if inString then .error "unterminated string" else .ok []
  | char :: chars =>
      if inString then
        let rest := if escaped then stripFrom true false chars
          else if char = '\\' then stripFrom true true chars
          else if char = '"' then stripFrom false false chars
          else stripFrom true false chars
        rest.map (char :: ·)
      else if char = '"' then (stripFrom true escaped chars).map (char :: ·)
      else if char = '#' then .ok []
      else (stripFrom false escaped chars).map (char :: ·)

def stripTomlComment (line : String) : Except String String :=
  (stripFrom false false line.toList).map .ofList

/-- `trim_start_matches` for a bracket written twice. -/
def trimPairs (bracket : Char) : List Char → List Char
  | first :: second :: chars =>
      if first = bracket ∧ second = bracket then trimPairs bracket chars
      else first :: second :: chars
  | chars => chars

def parseWorkflowTomlScope (line : String) : Except String WorkflowTomlScope :=
  let chars := line.toList
  if ['[', '['] <+: chars then
    if ¬[']', ']'] <:+ chars then .error "unterminated array table header"
    else
      let name := (trimPairs ']' (trimPairs '[' chars).reverse).reverse
      match TextLines.trim (.ofList name) with
      | "workflow.steps" => .ok .workflowStep
      | _ => .ok .other
  else if chars.getLast? ≠ some ']' then .error "unterminated table header"
  else
    let name := ((chars.dropWhile (· = '[')).reverse.dropWhile (· = ']')).reverse
    match TextLines.trim (.ofList name) with
    | "workflow" => .ok .workflow
    | _ => .ok .other

def unescape : List Char → Except String (List Char)
  | [] => .ok []
  | '\\' :: [] => .error "dangling escape in string"
  | '\\' :: escaped :: chars =>
      let value := match escaped with
        | 'n' => '\n'
        | 'r' => '\r'
        | 't' => '\t'
        | other => other
      (unescape chars).map (value :: ·)
  | char :: chars => (unescape chars).map (char :: ·)

def parseTomlString (value : String) : Except String String :=
  let chars := value.toList
  if chars.head? ≠ some '"' ∨ chars.getLast? ≠ some '"' ∨ chars.length < 2 then
    .error "expected string value"
  else (unescape chars.tail.dropLast).map .ofList

def parseTomlBool (value : String) : Except String Bool :=
  match value with
  | "true" => .ok true
  | "false" => .ok false
  | _ => .error "expected boolean value"

/-- The digits of `u32::from_str`, with the texts of its errors. -/
def parseDigits : Nat → List Char → Except String Nat
  | value, [] => .ok value
  | value, char :: chars =>
      if '0' ≤ char ∧ char ≤ '9' then
        let value := value * 10 + (char.toNat - 48)
        if value < 2 ^ 32 then parseDigits value chars
        else .error "number too large to fit in target type"
      else .error "invalid digit found in string"

def parseU32 (value : String) : Except String UInt32 :=
  let digits := match value.toList with
    | ['+'] => ['+']
    | '+' :: digits => digits
    | digits => digits
  if digits.isEmpty then .error "cannot parse integer from empty string"
  else (parseDigits 0 digits).map .ofNat

def parseTomlU32 (value : String) : Except String UInt32 :=
  (parseU32 value).mapError ("expected unsigned integer: " ++ ·)

/-- What a line is once its comment is gone. -/
inductive TomlLine
  | blank
  | header (scope : WorkflowTomlScope)
  | entry (key value : String)
  deriving DecidableEq

/-- `line.split_once('=')`, with both sides trimmed and filled. -/
def splitEntry (line : String) : Option (String × String) :=
  let key := line.toList.takeWhile (· ≠ '=')
  match line.toList.drop key.length with
  | [] => none
  | _ :: value =>
      let key := TextLines.trim (.ofList key)
      let value := TextLines.trim (.ofList value)
      if key = "" ∨ value = "" then none else some (key, value)

def tomlLine (rawLine : String) : Except String TomlLine :=
  (stripTomlComment rawLine).bind fun line =>
    let line := TextLines.trim line
    if line = "" then .ok .blank
    else if line.toList.head? = some '[' then (parseWorkflowTomlScope line).map .header
    else match splitEntry line with
      | none => .error "expected key = value"
      | some (key, value) => .ok (.entry key value)

/-- What the lines have set so far. -/
structure TomlReader where
  raw : WorkflowConfigToml := {}
  scope : WorkflowTomlScope := .root
  sawWorkflowTable : Bool := false
  sawWorkflowSteps : Bool := false
  stepsHaveStrategy : Bool := false
  stepsHaveReview : Bool := false
  deriving DecidableEq

def readKey (raw : WorkflowConfigToml) (key value : String) : Except String WorkflowConfigToml :=
  match key with
  | "template" => (parseTomlString value).map fun template =>
      { raw with template := some template }
  | "has_strategy" => (parseTomlBool value).map fun hasStrategy =>
      { raw with hasStrategy := some hasStrategy }
  | "has_review" => (parseTomlBool value).map fun hasReview =>
      { raw with hasReview := some hasReview }
  | "max_iterations" => (parseTomlU32 value).map fun maxIterations =>
      { raw with maxIterations := some maxIterations }
  | "max_autofix_attempts" => (parseTomlU32 value).map fun maxAutofixAttempts =>
      { raw with maxAutofixAttempts := some maxAutofixAttempts }
  | _ => .ok raw

namespace TomlReader

def readHeader (reader : TomlReader) (scope : WorkflowTomlScope) : TomlReader :=
  { reader with
    scope
    sawWorkflowTable := reader.sawWorkflowTable || scope = .workflow
    sawWorkflowSteps := reader.sawWorkflowSteps || scope = .workflowStep }

def readName (reader : TomlReader) (name : String) : TomlReader :=
  match name with
  | "strategy" => { reader with stepsHaveStrategy := true }
  | "review" => { reader with stepsHaveReview := true }
  | _ => reader

def readEntry (reader : TomlReader) (key value : String) : Except String TomlReader :=
  let shouldRead := if reader.sawWorkflowTable then reader.scope = .workflow
    else reader.scope = .root
  if ¬shouldRead then
    if reader.scope = .workflowStep ∧ key = "name" then
      (parseTomlString value).map reader.readName
    else .ok reader
  else (readKey reader.raw key value).map fun raw => { reader with raw }

def read (reader : TomlReader) : TomlLine → Except String TomlReader
  | .blank => .ok reader
  | .header scope => .ok (reader.readHeader scope)
  | .entry key value => reader.readEntry key value

def readLine (reader : TomlReader) (rawLine : String) : Except String TomlReader :=
  (tomlLine rawLine).bind reader.read

/-- The loop over the lines, of which so many stand before.  An error names its line. -/
def readLines : Nat → TomlReader → List String → Except String TomlReader
  | _, reader, [] => .ok reader
  | index, reader, line :: lines =>
      match reader.readLine line with
      | .error message => .error (s!"line {index + 1}: " ++ message)
      | .ok reader => readLines (index + 1) reader lines

/-- Steps stand in for the two phases that no key has set. -/
def finish (reader : TomlReader) : WorkflowConfigToml :=
  if reader.sawWorkflowSteps then
    { reader.raw with
      hasStrategy := reader.raw.hasStrategy.or (some reader.stepsHaveStrategy)
      hasReview := reader.raw.hasReview.or (some reader.stepsHaveReview) }
  else reader.raw

end TomlReader

def parseWorkflowConfigToml (text : String) : Except String WorkflowConfigToml :=
  (TomlReader.readLines 0 {} (lines text)).map TomlReader.finish

/-- The template with the values that are set. -/
def overrides (raw : WorkflowConfigToml) (config : WorkflowConfig) : WorkflowConfig where
  hasStrategy := raw.hasStrategy.getD config.hasStrategy
  hasReview := raw.hasReview.getD config.hasReview
  maxIterations := raw.maxIterations.getD config.maxIterations
  maxAutofixAttempts := raw.maxAutofixAttempts.getD config.maxAutofixAttempts

def configOf (raw : WorkflowConfigToml) : Except String WorkflowConfig :=
  match raw.template with
  | some "express" => .ok (overrides raw .express)
  | some "standard" | none => .ok (overrides raw .standard)
  | some "full" => .ok (overrides raw .full)
  | some template => .error ("unknown workflow template: " ++ template)

def fromTomlStr (text : String) : Except String WorkflowConfig :=
  (parseWorkflowConfigToml text).bind configOf

/-- The lines that can be read. -/
def tomlLines (text : String) : List TomlLine :=
  (lines text).filterMap fun line => (tomlLine line).toOption

/-- The entries with the scope that they stand in. -/
def entriesFrom : WorkflowTomlScope → List TomlLine → List (WorkflowTomlScope × String × String)
  | _, [] => []
  | scope, .blank :: lines => entriesFrom scope lines
  | _, .header scope :: lines => entriesFrom scope lines
  | scope, .entry key value :: lines => (scope, key, value) :: entriesFrom scope lines

/-- The keys of all sections of a scope, with their values. -/
def keysIn (scope : WorkflowTomlScope) (text : String) : List (String × String) :=
  ((entriesFrom .root (tomlLines text)).filter fun entry => entry.1 = scope).map Prod.snd

/-- The values of the names of steps. -/
def namesFrom (scope : WorkflowTomlScope) (lines : List TomlLine) : List String :=
  (entriesFrom scope lines).filterMap fun entry =>
    if entry.1 = .workflowStep ∧ entry.2.1 = "name" then some entry.2.2 else none

def stepNames (text : String) : List String :=
  namesFrom .root (tomlLines text)

def HasHeader (scope : WorkflowTomlScope) (text : String) : Prop :=
  .header scope ∈ tomlLines text

instance (scope : WorkflowTomlScope) (text : String) : Decidable (HasHeader scope text) :=
  inferInstanceAs (Decidable (_ ∈ _))

/-- The keys that set something. -/
def configKeys : List String :=
  ["template", "has_strategy", "has_review", "max_iterations", "max_autofix_attempts"]

/-- Both texts have sections of steps, with the same names, or none. -/
def SameSteps (text other : String) : Prop :=
  (HasHeader .workflowStep text ↔ HasHeader .workflowStep other) ∧
    stepNames text = stepNames other

/-- The loop without the texts of its errors. -/
def runLines (reader : TomlReader) (lines : List String) : Option TomlReader :=
  lines.foldlM (fun reader line => (reader.readLine line).toOption) reader

theorem readLines_toOption (index : Nat) (reader : TomlReader) (lines : List String) :
    (reader.readLines index lines).toOption = runLines reader lines := by
  induction lines generalizing index reader with
  | nil => rfl
  | cons line lines ih =>
      rw [TomlReader.readLines, runLines, List.foldlM_cons]
      cases reader.readLine line with
      | error message => rfl
      | ok next => exact ih (index + 1) next

theorem fromTomlStr_ok_iff {text : String} {config : WorkflowConfig} :
    fromTomlStr text = .ok config ↔
      ∃ reader, runLines {} (lines text) = some reader ∧ configOf reader.finish = .ok config := by
  rw [fromTomlStr, parseWorkflowConfigToml, ← readLines_toOption 0]
  cases TomlReader.readLines 0 {} (lines text) with
  | error message => exact iff_of_false nofun (by rintro ⟨_, ⟨⟩, _⟩)
  | ok reader => exact ⟨fun made => ⟨reader, rfl, made⟩, by rintro ⟨_, ⟨⟩, made⟩; exact made⟩

/-- The loop over what the lines are. -/
def run (reader : TomlReader) (lines : List TomlLine) : Option TomlReader :=
  lines.foldlM (fun reader line => (reader.read line).toOption) reader

/-- The lines of a text that is accepted can all be read. -/
theorem run_of_runLines {reader final : TomlReader} {lines : List String}
    (ran : runLines reader lines = some final) :
    run reader (lines.filterMap fun line => (tomlLine line).toOption) = some final := by
  induction lines generalizing reader with
  | nil => exact ran
  | cons line lines ih =>
      rw [runLines, List.foldlM_cons, TomlReader.readLine] at ran
      cases parsed : tomlLine line with
      | error message => simp [parsed, Except.bind, Except.toOption] at ran
      | ok toml =>
          simp only [parsed, Except.bind] at ran
          rw [List.filterMap_cons_some (by rw [parsed]; rfl), run, List.foldlM_cons]
          cases next : reader.read toml with
          | error message => simp [next, Except.toOption] at ran
          | ok reader =>
              rw [next] at ran
              exact ih ran

theorem parseWorkflowTomlScope_ne_root (line : String) :
    parseWorkflowTomlScope line ≠ .ok .root := by
  unfold parseWorkflowTomlScope
  dsimp only
  split
  case isTrue =>
    split
    case isTrue => nofun
    case isFalse => split <;> nofun
  case isFalse =>
    split
    case isTrue => nofun
    case isFalse => split <;> nofun

/-- No header opens the root again. -/
theorem tomlLine_ne_root (line : String) : tomlLine line ≠ .ok (.header .root) := by
  unfold tomlLine
  cases stripTomlComment line with
  | error message => nofun
  | ok line =>
      simp only [Except.bind]
      split
      case isTrue => nofun
      case isFalse =>
        split
        case isTrue =>
          have scope_ne := parseWorkflowTomlScope_ne_root (TextLines.trim line)
          cases scope_eq : parseWorkflowTomlScope (TextLines.trim line) with
          | error message => nofun
          | ok scope =>
              rw [scope_eq] at scope_ne
              simpa [Except.map] using scope_ne
        case isFalse => split <;> nofun

/-- Keys are read at the root as long as no table was seen, and in the table. -/
structure TomlReader.Coherent (reader : TomlReader) : Prop where
  root : reader.scope = .root → reader.sawWorkflowTable = false
  workflow : reader.scope = .workflow → reader.sawWorkflowTable = true

def IsRead (scope : WorkflowTomlScope) : Bool :=
  scope = .root || scope = .workflow

def readKeys (raw : WorkflowConfigToml) (entries : List (String × String)) :
    Option WorkflowConfigToml :=
  entries.foldlM (fun raw entry => (readKey raw entry.1 entry.2).toOption) raw

/-- Where an entry goes: the flags that were set so far do not matter. -/
theorem TomlReader.Coherent.readEntry_eq {reader : TomlReader} (coherent : reader.Coherent)
    (key value : String) :
    reader.readEntry key value = match reader.scope with
      | .root | .workflow => (readKey reader.raw key value).map fun raw => { reader with raw }
      | .workflowStep =>
          if key = "name" then (parseTomlString value).map reader.readName else .ok reader
      | .other => .ok reader := by
  unfold TomlReader.readEntry
  cases scope_eq : reader.scope with
  | root => simp [coherent.root scope_eq]
  | workflow => simp [coherent.workflow scope_eq]
  | workflowStep => cases reader.sawWorkflowTable <;> simp
  | other => cases reader.sawWorkflowTable <;> simp

/-- What an entry can do. -/
theorem TomlReader.Coherent.readEntry_cases {reader next : TomlReader}
    (coherent : reader.Coherent) {key value : String}
    (read : reader.readEntry key value = .ok next) :
    (IsRead reader.scope = true ∧ ∃ raw, readKey reader.raw key value = .ok raw ∧
        next = { reader with raw }) ∨
      (reader.scope = .workflowStep ∧ key = "name" ∧
        ∃ name, parseTomlString value = .ok name ∧ next = reader.readName name) ∨
      (IsRead reader.scope = false ∧ ¬ (reader.scope = .workflowStep ∧ key = "name") ∧
        next = reader) := by
  have keyed (made : ((readKey reader.raw key value).map fun raw => { reader with raw }) =
      .ok next) : ∃ raw, readKey reader.raw key value = .ok raw ∧ next = { reader with raw } := by
    cases result : readKey reader.raw key value with
    | error message => rw [result] at made; cases made
    | ok raw => rw [result] at made; cases made; exact ⟨raw, rfl, rfl⟩
  rw [coherent.readEntry_eq] at read
  split at read
  case h_1 scope_eq => exact .inl ⟨by rw [scope_eq]; rfl, keyed read⟩
  case h_2 scope_eq => exact .inl ⟨by rw [scope_eq]; rfl, keyed read⟩
  case h_3 scope_eq =>
    split at read
    case isTrue named =>
      cases result : parseTomlString value with
      | error message => rw [result] at read; cases read
      | ok name =>
          rw [result] at read
          cases read
          exact .inr (.inl ⟨scope_eq, named, name, rfl, rfl⟩)
    case isFalse unnamed =>
      cases read
      exact .inr (.inr ⟨by rw [scope_eq]; rfl, fun both => unnamed both.2, rfl⟩)
  case h_4 scope_eq =>
    cases read
    exact .inr (.inr ⟨by rw [scope_eq]; rfl, by rw [scope_eq]; nofun, rfl⟩)

theorem TomlReader.readName_eq (reader : TomlReader) (name : String) :
    reader.readName name =
      { reader with
        stepsHaveStrategy := reader.stepsHaveStrategy || name = "strategy"
        stepsHaveReview := reader.stepsHaveReview || name = "review" } := by
  unfold readName
  split
  case h_1 => simp
  case h_2 => simp
  case h_3 notStrategy notReview =>
    rw [decide_eq_false notStrategy, decide_eq_false notReview, Bool.or_false, Bool.or_false]

/-- An entry changes neither the scope nor the headers that were seen. -/
theorem TomlReader.Coherent.readEntry_frame {reader next : TomlReader}
    (coherent : reader.Coherent) {key value : String}
    (read : reader.readEntry key value = .ok next) :
    next.scope = reader.scope ∧ next.sawWorkflowTable = reader.sawWorkflowTable ∧
      next.sawWorkflowSteps = reader.sawWorkflowSteps := by
  rcases coherent.readEntry_cases read with ⟨-, raw, -, rfl⟩ | ⟨-, -, name, -, rfl⟩ | ⟨-, -, rfl⟩
  · exact ⟨rfl, rfl, rfl⟩
  · rw [readName_eq]
    exact ⟨rfl, rfl, rfl⟩
  · exact ⟨rfl, rfl, rfl⟩

theorem TomlReader.Coherent.read {reader next : TomlReader} {line : TomlLine}
    (coherent : reader.Coherent) (inner : line ≠ .header .root)
    (read : reader.read line = .ok next) : next.Coherent := by
  cases line with
  | blank =>
      cases read
      exact coherent
  | header scope =>
      cases read
      cases scope with
      | root => exact absurd rfl inner
      | workflow => exact ⟨nofun, fun _ => by simp [readHeader]⟩
      | workflowStep => exact ⟨nofun, nofun⟩
      | other => exact ⟨nofun, nofun⟩
  | entry key value =>
      obtain ⟨scope_eq, saw_eq, -⟩ := coherent.readEntry_frame read
      constructor
      · rw [scope_eq, saw_eq]
        exact coherent.root
      · rw [scope_eq, saw_eq]
        exact coherent.workflow

def isStep (step : String) (value : String) : Bool :=
  parseTomlString value = .ok step

/-- A run is told by the entries that are read and by the names of the steps. -/
structure RunSpec (reader final : TomlReader) (lines : List TomlLine) : Prop where
  raw : readKeys reader.raw
    (((entriesFrom reader.scope lines).filter fun entry => IsRead entry.1).map Prod.snd) =
      some final.raw
  steps : final.sawWorkflowSteps =
    (reader.sawWorkflowSteps || decide (.header .workflowStep ∈ lines))
  strategy : final.stepsHaveStrategy =
    (reader.stepsHaveStrategy || (namesFrom reader.scope lines).any (isStep "strategy"))
  review : final.stepsHaveReview =
    (reader.stepsHaveReview || (namesFrom reader.scope lines).any (isStep "review"))

theorem readKeys_cons {raw next : WorkflowConfigToml} {key value : String}
    {entries : List (String × String)} (read : readKey raw key value = .ok next) :
    readKeys raw ((key, value) :: entries) = readKeys next entries := by
  rw [readKeys, List.foldlM_cons, read]
  rfl

/-- The lines are read one by one. -/
theorem RunSpec.cons {reader next final : TomlReader} {line : TomlLine} {lines : List TomlLine}
    (coherent : reader.Coherent) (read : reader.read line = .ok next)
    (rest : RunSpec next final lines) : RunSpec reader final (line :: lines) := by
  obtain ⟨raw, steps, strategy, review⟩ := rest
  cases line with
  | blank =>
      cases read
      exact ⟨raw, by simpa using steps, strategy, review⟩
  | header scope =>
      cases read
      refine ⟨raw, ?_, strategy, review⟩
      simp [steps, TomlReader.readHeader, Bool.or_assoc, eq_comm (a := scope)]
  | entry key value =>
      rcases coherent.readEntry_cases read with
        ⟨kept, set, keyed, rfl⟩ | ⟨inStep, rfl, name, named, rfl⟩ | ⟨dropped, unnamed, rfl⟩
      · have inTable : reader.scope ≠ .workflowStep := by
          rintro step
          rw [step] at kept
          cases kept
        constructor
        · simp only [entriesFrom, List.filter_cons_of_pos, kept, List.map_cons]
          rw [readKeys_cons keyed]
          exact raw
        · simpa using steps
        · simpa [namesFrom, entriesFrom, inTable] using strategy
        · simpa [namesFrom, entriesFrom, inTable] using review
      · have notRead : IsRead reader.scope = false := by
          rw [inStep]
          rfl
        rw [TomlReader.readName_eq] at raw steps strategy review
        have step_iff (step : String) : isStep step value = decide (name = step) := by
          rw [isStep, named]
          simp
        constructor
        · simpa [entriesFrom, notRead] using raw
        · simpa using steps
        · simpa [namesFrom, entriesFrom, inStep, step_iff, Bool.or_assoc] using strategy
        · simpa [namesFrom, entriesFrom, inStep, step_iff, Bool.or_assoc] using review
      · constructor
        · simpa [entriesFrom, dropped] using raw
        · simpa using steps
        · simpa [namesFrom, entriesFrom, unnamed] using strategy
        · simpa [namesFrom, entriesFrom, unnamed] using review

theorem run_spec {reader final : TomlReader} {lines : List TomlLine}
    (coherent : reader.Coherent) (inner : .header .root ∉ lines)
    (ran : run reader lines = some final) : RunSpec reader final lines := by
  induction lines generalizing reader with
  | nil =>
      cases ran
      constructor <;> simp [readKeys, entriesFrom, namesFrom]
  | cons line lines ih =>
      rw [List.mem_cons, not_or] at inner
      rw [run, List.foldlM_cons] at ran
      cases read : reader.read line with
      | error message => simp [read, Except.toOption] at ran
      | ok next =>
          rw [read] at ran
          have rest := ih (coherent.read (Ne.symm inner.1) read) inner.2 ran
          exact .cons coherent read rest

theorem readKey_idle {key : String} (idle : key ∉ configKeys) (raw : WorkflowConfigToml)
    (value : String) : readKey raw key value = .ok raw := by
  unfold readKey
  split <;> first | rfl | simp [configKeys] at idle

theorem readKeys_filter {entries : List (WorkflowTomlScope × String × String)}
    {keep : WorkflowTomlScope × String × String → Bool}
    (idle : ∀ entry ∈ entries, keep entry = false → entry.2.1 ∉ configKeys)
    (raw : WorkflowConfigToml) :
    readKeys raw (entries.map Prod.snd) = readKeys raw ((entries.filter keep).map Prod.snd) := by
  induction entries generalizing raw with
  | nil => rfl
  | cons entry entries ih =>
      obtain ⟨scope, key, value⟩ := entry
      have later (raw : WorkflowConfigToml) :=
        ih (fun entry member => idle entry (List.mem_cons_of_mem _ member)) raw
      cases kept : keep (scope, key, value) with
      | false =>
          rw [List.filter_cons_of_neg (by simp [kept]), List.map_cons,
            readKeys_cons (readKey_idle (idle _ List.mem_cons_self kept) raw value)]
          exact later raw
      | true =>
          rw [List.filter_cons_of_pos kept, List.map_cons, List.map_cons]
          cases read : readKey raw key value with
          | error message =>
              rw [readKeys, readKeys, List.foldlM_cons, List.foldlM_cons, read]
              rfl
          | ok next =>
              rw [readKeys_cons read, readKeys_cons read]
              exact later next

/-- An entry stands in the scope that the text starts with, or under a header. -/
theorem header_of_mem_entriesFrom {scope : WorkflowTomlScope} {lines : List TomlLine}
    {entry : WorkflowTomlScope × String × String} (member : entry ∈ entriesFrom scope lines) :
    entry.1 = scope ∨ .header entry.1 ∈ lines := by
  induction lines generalizing scope with
  | nil => cases member
  | cons line lines ih =>
      cases line with
      | blank => exact (ih member).imp_right (List.mem_cons_of_mem _)
      | header next =>
          right
          rcases ih member with rfl | under
          · exact List.mem_cons_self
          · exact List.mem_cons_of_mem _ under
      | entry key value =>
          rw [entriesFrom, List.mem_cons] at member
          rcases member with rfl | member
          · exact .inl rfl
          · exact (ih member).imp_right (List.mem_cons_of_mem _)

/-- The entries that the reader reads, in order. -/
def readEntries (text : String) : List (WorkflowTomlScope × String × String) :=
  (entriesFrom .root (tomlLines text)).filter fun entry => IsRead entry.1

theorem filter_readEntries {scope : WorkflowTomlScope} (read : IsRead scope = true)
    (text : String) :
    ((readEntries text).filter fun entry => entry.1 = scope).map Prod.snd = keysIn scope text := by
  rw [readEntries, List.filter_filter, keysIn]
  refine congrArg (List.map Prod.snd) (List.filter_congr fun entry _ => ?_)
  by_cases here : entry.1 = scope
  · simp [here, read]
  · simp [here]

/-- The accepted text is told by its read entries and its steps. -/
theorem exists_spec {text : String} {config : WorkflowConfig}
    (accepted : fromTomlStr text = .ok config) :
    ∃ final, RunSpec {} final (tomlLines text) ∧ configOf final.finish = .ok config := by
  obtain ⟨final, ran, made⟩ := Iff.mp fromTomlStr_ok_iff accepted
  have inner : .header .root ∉ tomlLines text := by
    rw [tomlLines, List.mem_filterMap]
    rintro ⟨line, -, parsed⟩
    cases toml : tomlLine line with
    | error message => rw [toml] at parsed; cases parsed
    | ok line' =>
        rw [toml] at parsed
        obtain rfl : line' = .header .root := Option.some.inj parsed
        exact tomlLine_ne_root line toml
  exact ⟨final, run_spec ⟨fun _ => rfl, nofun⟩ inner (run_of_runLines ran), made⟩

/-- Texts that read the same entries and have the same steps make the same configuration. -/
theorem config_eq {text other : String} {config config' : WorkflowConfig}
    (accepted : fromTomlStr text = .ok config) (accepted' : fromTomlStr other = .ok config')
    (same : readKeys {} ((readEntries text).map Prod.snd) =
      readKeys {} ((readEntries other).map Prod.snd))
    (steps : SameSteps text other) : config = config' := by
  obtain ⟨final, spec, made⟩ := exists_spec accepted
  obtain ⟨final', spec', made'⟩ := exists_spec accepted'
  have raw_eq : final.raw = final'.raw :=
    Option.some.inj ((spec.raw.symm.trans same).trans spec'.raw)
  have steps_eq : final.sawWorkflowSteps = final'.sawWorkflowSteps := by
    rw [spec.steps, spec'.steps]
    exact congrArg (false || ·) (decide_eq_decide.mpr steps.1)
  have names_eq : namesFrom .root (tomlLines text) = namesFrom .root (tomlLines other) := steps.2
  have strategy_eq : final.stepsHaveStrategy = final'.stepsHaveStrategy := by
    rw [spec.strategy, spec'.strategy, names_eq]
  have review_eq : final.stepsHaveReview = final'.stepsHaveReview := by
    rw [spec.review, spec'.review, names_eq]
  have finish_eq : final.finish = final'.finish := by
    rw [TomlReader.finish, TomlReader.finish, raw_eq, steps_eq, strategy_eq, review_eq]
  rw [finish_eq] at made
  exact Except.ok.inj (made.symm.trans made')

theorem readKeys_of_bare {text : String}
    (bare : ∀ entry ∈ keysIn .root text, entry.1 ∉ configKeys) :
    readKeys {} ((readEntries text).map Prod.snd) = readKeys {} (keysIn .workflow text) := by
  rw [← filter_readEntries rfl]
  refine readKeys_filter (fun entry member dropped => bare entry.2 ?_) {}
  rw [readEntries, List.mem_filter] at member
  have atRoot : entry.1 = .root := by
    have outside : entry.1 ≠ .workflow := of_decide_eq_false dropped
    simpa [IsRead, outside] using member.2
  rw [keysIn, List.mem_map]
  exact ⟨entry, List.mem_filter.mpr ⟨member.1, decide_eq_true atRoot⟩, rfl⟩

theorem readKeys_of_no_header {text : String} (tableless : ¬ HasHeader .workflow text) :
    readKeys {} ((readEntries text).map Prod.snd) = readKeys {} (keysIn .root text) := by
  rw [← filter_readEntries rfl]
  refine readKeys_filter (fun entry member dropped => absurd ?_ tableless) {}
  rw [readEntries, List.mem_filter] at member
  have outside : entry.1 ≠ .root := of_decide_eq_false dropped
  have inTable : entry.1 = .workflow := by simpa [IsRead, outside] using member.2
  have under := (header_of_mem_entriesFrom member.1).resolve_left outside
  rwa [inTable] at under

/-- A blank line, or one with a comment alone. -/
def IsRemark (line : String) : Prop :=
  ∃ gap comment : String, gap.toList.all isWhitespace ∧
    (line = gap ∨ line = gap ++ "#" ++ comment)

/-- The lines open a table before they set a key, if they set one. -/
def StartsTable : List String → Prop
  | [] => True
  | line :: lines => match tomlLine line with
    | .ok .blank => StartsTable lines
    | .ok (.header _) => True
    | _ => False

/-- The other text has remarks, a comment at the end of a line or a table of its own more than
the text. -/
inductive Inserted (text other : String) : Prop
  | remarks (front remarks back : List String) (remark : ∀ line ∈ remarks, IsRemark line)
      (text_lines : lines text = front ++ back) (other_lines : lines other = front ++ remarks ++ back)
  | comment (front back : List String) (line gap comment : String)
      (blank : gap.toList.all isWhitespace) (text_lines : lines text = front ++ line :: back)
      (other_lines : lines other = front ++ (line ++ gap ++ "#" ++ comment) :: back)
  | table (front body back : List String) (header : String)
      (opened : tomlLine header = .ok (.header .other))
      (inside : ∀ line ∈ body, tomlLine line = .ok .blank ∨
        ∃ key value, tomlLine line = .ok (.entry key value))
      (text_lines : lines text = front ++ back) (starts : StartsTable back)
      (other_lines : lines other = front ++ header :: body ++ back)

/-- A character ends the line, or it is kept and the rest is read in another mode. -/
theorem stripFrom_cons (inString escaped : Bool) (char : Char) :
    (∀ chars, stripFrom inString escaped (char :: chars) = .ok []) ∨
      ∃ inString' escaped', ∀ chars, stripFrom inString escaped (char :: chars) =
        (stripFrom inString' escaped' chars).map (char :: ·) := by
  cases inString with
  | true =>
      right
      by_cases skip : escaped = true
      · exact ⟨true, false, fun chars => by simp [stripFrom, skip]⟩
      by_cases slash : char = '\\'
      · exact ⟨true, true, fun chars => by simp [stripFrom, skip, slash]⟩
      by_cases quote : char = '"'
      · exact ⟨false, false, fun chars => by simp [stripFrom, skip, quote]⟩
      · exact ⟨true, false, fun chars => by simp [stripFrom, skip, slash, quote]⟩
  | false =>
      by_cases quote : char = '"'
      · exact .inr ⟨true, escaped, fun chars => by simp [stripFrom, quote]⟩
      by_cases hash : char = '#'
      · exact .inl fun chars => by simp [stripFrom, hash]
      · exact .inr ⟨false, escaped, fun chars => by simp [stripFrom, quote, hash]⟩

theorem stripFrom_gap {gap : List Char} (blank : gap.all isWhitespace) (escaped : Bool)
    (rest : List Char) :
    stripFrom false escaped (gap ++ rest) = (stripFrom false escaped rest).map (gap ++ ·) := by
  induction gap with
  | nil =>
      rw [List.nil_append]
      cases stripFrom false escaped rest <;> rfl
  | cons char gap ih =>
      rw [List.all_cons, Bool.and_eq_true] at blank
      have quote : char ≠ '"' := by
        rintro rfl
        exact absurd blank.1 (by decide)
      have hash : char ≠ '#' := by
        rintro rfl
        exact absurd blank.1 (by decide)
      rw [List.cons_append, stripFrom, ih blank.2]
      cases stripFrom false escaped rest <;> simp [quote, hash, Except.map]

/-- A gap and a comment are cut off, or stand behind a comment already. -/
theorem stripFrom_comment {inString escaped : Bool} {chars stripped gap : List Char}
    (blank : gap.all isWhitespace) (comment : List Char)
    (read : stripFrom inString escaped chars = .ok stripped) :
    stripFrom inString escaped (chars ++ (gap ++ '#' :: comment)) = .ok stripped ∨
      stripFrom inString escaped (chars ++ (gap ++ '#' :: comment)) = .ok (stripped ++ gap) := by
  induction chars generalizing inString escaped stripped with
  | nil =>
      cases inString with
      | true => cases read
      | false =>
          cases read
          right
          rw [List.nil_append, stripFrom_gap blank]
          simp [stripFrom, Except.map]
  | cons char chars ih =>
      rcases stripFrom_cons inString escaped char with ends | ⟨inString', escaped', goes⟩
      · rw [ends] at read
        exact .inl ((ends _).trans read)
      · rw [goes] at read
        rw [List.cons_append, goes]
        cases rest : stripFrom inString' escaped' chars with
        | error message =>
            rw [rest] at read
            cases read
        | ok inner =>
            rw [rest] at read
            cases read
            rcases ih rest with same | longer
            · rw [same]
              exact .inl rfl
            · rw [longer]
              exact .inr rfl

theorem trim_append_gap {gap : String} (blank : gap.toList.all isWhitespace) (text : String) :
    TextLines.trim (text ++ gap) = TextLines.trim text := by
  have dropped : gap.toList.dropWhile isWhitespace = [] := by
    rw [List.dropWhile_eq_nil_iff]
    simpa using blank
  have turned : ∀ char ∈ gap.toList.reverse, isWhitespace char := by
    simpa using blank
  rw [TextLines.trim, TextLines.trim, String.toList_append, List.dropWhile_append]
  split
  case isTrue empty => rw [dropped, List.isEmpty_iff.mp empty]
  case isFalse filled => rw [List.reverse_append, List.dropWhile_append_of_pos turned]

/-- A comment at the end of a line is not read. -/
theorem tomlLine_comment {gap line : String} {toml : TomlLine}
    (blank : gap.toList.all isWhitespace) (comment : String)
    (read : tomlLine line = .ok toml) :
    tomlLine (line ++ gap ++ "#" ++ comment) = .ok toml := by
  rw [tomlLine, stripTomlComment] at read ⊢
  cases stripped : stripFrom false false line.toList with
  | error message =>
      rw [stripped] at read
      cases read
  | ok inner =>
      rw [stripped] at read
      have letters : (line ++ gap ++ "#" ++ comment).toList =
          line.toList ++ (gap.toList ++ '#' :: comment.toList) := by
        simp [String.toList_append]
      rw [letters]
      rcases stripFrom_comment blank comment.toList stripped with same | longer
      · rw [same]
        exact read
      · have shown : String.ofList (inner ++ gap.toList) = .ofList inner ++ gap := by
          rw [String.ofList_append, String.ofList_toList]
        rw [longer]
        simp only [Except.map, Except.bind] at read ⊢
        rw [shown, trim_append_gap blank]
        exact read

theorem tomlLine_gap {gap : String} (blank : gap.toList.all isWhitespace) :
    tomlLine gap = .ok .blank := by
  have stripped : stripFrom false false gap.toList = .ok gap.toList := by
    have whole := stripFrom_gap blank false []
    simpa [stripFrom, Except.map] using whole
  have trimmed : TextLines.trim gap = "" := by
    have empty := trim_append_gap blank ""
    rw [String.empty_append] at empty
    exact empty
  rw [tomlLine, stripTomlComment, stripped]
  simp [Except.map, Except.bind, trimmed]

theorem tomlLine_remark {line : String} (remark : IsRemark line) :
    tomlLine line = .ok .blank := by
  obtain ⟨gap, comment, blank, rfl | rfl⟩ := remark
  · exact tomlLine_gap blank
  · have empty : tomlLine "" = .ok .blank := tomlLine_gap rfl
    have commented := tomlLine_comment blank comment empty
    rwa [String.empty_append] at commented

theorem runLines_append (reader : TomlReader) (front back : List String) :
    runLines reader (front ++ back) =
      (runLines reader front).bind fun reader => runLines reader back := by
  rw [runLines, List.foldlM_append]
  rfl

theorem runLines_cons {line : String} {toml : TomlLine} (parsed : tomlLine line = .ok toml)
    (reader : TomlReader) (lines : List String) :
    runLines reader (line :: lines) =
      (reader.read toml).toOption.bind fun reader => runLines reader lines := by
  rw [runLines, List.foldlM_cons, TomlReader.readLine, parsed]
  rfl

theorem exists_tomlLine {line : String} {lines : List String} {reader final : TomlReader}
    (ran : runLines reader (line :: lines) = some final) : ∃ toml, tomlLine line = .ok toml := by
  cases parsed : tomlLine line with
  | error message =>
      rw [runLines, List.foldlM_cons, TomlReader.readLine, parsed] at ran
      cases ran
  | ok toml => exact ⟨toml, rfl⟩

theorem runLines_remarks {remarks : List String} (remark : ∀ line ∈ remarks, IsRemark line)
    (reader : TomlReader) : runLines reader remarks = some reader := by
  induction remarks with
  | nil => rfl
  | cons line remarks ih =>
      rw [runLines_cons (tomlLine_remark (remark line List.mem_cons_self))]
      exact ih fun line member => remark line (List.mem_cons_of_mem _ member)

/-- Under another header nothing is read. -/
theorem runLines_body {body : List String}
    (inside : ∀ line ∈ body, tomlLine line = .ok .blank ∨
      ∃ key value, tomlLine line = .ok (.entry key value))
    {reader : TomlReader} (outside : reader.scope = .other) :
    runLines reader body = some reader := by
  have coherent : reader.Coherent := by
    constructor <;> rw [outside] <;> nofun
  induction body with
  | nil => rfl
  | cons line body ih =>
      have rest := ih fun line member => inside line (List.mem_cons_of_mem _ member)
      rcases inside line List.mem_cons_self with blank | ⟨key, value, entry⟩
      · rw [runLines_cons blank]
        exact rest
      · have ignored : reader.readEntry key value = .ok reader := by
          rw [coherent.readEntry_eq, outside]
        rw [runLines_cons entry, TomlReader.read, ignored]
        exact rest

/-- The scope before a table does not matter. -/
theorem runLines_of_startsTable {back : List String} (starts : StartsTable back)
    {reader final : TomlReader} (scope : WorkflowTomlScope)
    (ran : runLines reader back = some final) :
    ∃ other, runLines { reader with scope } back = some other ∧ other.finish = final.finish := by
  induction back generalizing reader with
  | nil =>
      cases ran
      exact ⟨{ final with scope }, rfl, rfl⟩
  | cons line back ih =>
      rw [StartsTable] at starts
      split at starts
      case h_1 blank =>
        rw [runLines_cons blank] at ran
        obtain ⟨other, other_ran, same⟩ := ih starts ran
        refine ⟨other, ?_, same⟩
        rw [runLines_cons blank]
        exact other_ran
      case h_2 next opened =>
        rw [runLines_cons opened] at ran
        refine ⟨final, ?_, rfl⟩
        rw [runLines_cons opened]
        exact ran
      case h_3 => exact starts.elim

theorem TomlReader.readHeader_other (reader : TomlReader) :
    reader.readHeader .other = { reader with scope := .other } := by
  simp [readHeader]

/-- An insertion into an accepted text leaves the configuration as it is. -/
theorem fromTomlStr_of_inserted {text other : String} {config : WorkflowConfig}
    (inserted : Inserted text other) (accepted : fromTomlStr text = .ok config) :
    fromTomlStr other = .ok config := by
  rw [fromTomlStr_ok_iff] at accepted ⊢
  obtain ⟨final, ran, made⟩ := accepted
  have split_run {front back : List String} (text_lines : lines text = front ++ back) :
      ∃ reader, runLines {} front = some reader ∧ runLines reader back = some final := by
    rw [text_lines, runLines_append] at ran
    exact Option.bind_eq_some_iff.mp ran
  cases inserted with
  | remarks front remarks back remark text_lines other_lines =>
      obtain ⟨reader, first, rest⟩ := split_run text_lines
      refine ⟨final, ?_, made⟩
      rw [other_lines, runLines_append, runLines_append, first, Option.bind_some,
        runLines_remarks remark, Option.bind_some, rest]
  | comment front back line gap comment blank text_lines other_lines =>
      obtain ⟨reader, first, rest⟩ := split_run text_lines
      obtain ⟨toml, parsed⟩ := exists_tomlLine rest
      rw [runLines_cons parsed] at rest
      refine ⟨final, ?_, made⟩
      rw [other_lines, runLines_append, first, Option.bind_some,
        runLines_cons (tomlLine_comment blank comment parsed), rest]
  | table front body back header opened inside text_lines starts other_lines =>
      obtain ⟨reader, first, rest⟩ := split_run text_lines
      obtain ⟨last, last_ran, same⟩ := runLines_of_startsTable starts .other rest
      have tabled : runLines reader (header :: body) =
          some { reader with scope := .other } := by
        rw [runLines_cons opened, TomlReader.read, TomlReader.readHeader_other]
        exact runLines_body inside rfl
      refine ⟨last, ?_, same ▸ made⟩
      rw [other_lines, runLines_append, runLines_append, first, Option.bind_some, tabled,
        Option.bind_some, last_ran]

/-- The keys of the table and the steps decide where no key of the configuration is bare, and
the bare keys and the steps where there is no table.  Insertions decide nothing. -/
theorem config_depends {text : String} {config : WorkflowConfig}
    (accepted : fromTomlStr text = .ok config) :
    (∀ other config', fromTomlStr other = .ok config' → SameSteps text other →
      (∀ entry ∈ keysIn .root text ++ keysIn .root other, entry.1 ∉ configKeys) →
        keysIn .workflow text = keysIn .workflow other → config = config') ∧
      (∀ other config', fromTomlStr other = .ok config' → SameSteps text other →
        ¬ HasHeader .workflow text → ¬ HasHeader .workflow other →
          keysIn .root text = keysIn .root other → config = config') ∧
      ∀ other, Inserted text other → fromTomlStr other = .ok config := by
  refine ⟨fun other config' accepted' steps bare same => ?_,
    fun other config' accepted' steps tableless tableless' same => ?_,
    fun other inserted => fromTomlStr_of_inserted inserted accepted⟩
  · refine config_eq accepted accepted' ?_ steps
    rw [readKeys_of_bare fun entry member => bare entry (List.mem_append_left _ member),
      readKeys_of_bare fun entry member => bare entry (List.mem_append_right _ member), same]
  · refine config_eq accepted accepted' ?_ steps
    rw [readKeys_of_no_header tableless, readKeys_of_no_header tableless', same]

theorem config_depends_remark :
    fromTomlStr "[workflow]\nmax_iterations = 4" = .ok ⟨false, true, 4, 2⟩ ∧
      fromTomlStr "[workflow]\n # of the full flow\nmax_iterations = 4" =
        .ok ⟨false, true, 4, 2⟩ := by
  have accepted : fromTomlStr "[workflow]\nmax_iterations = 4" = .ok ⟨false, true, 4, 2⟩ := by
    decide +kernel
  refine ⟨accepted, (config_depends accepted).2.2 _ ?_⟩
  refine .remarks ["[workflow]"] [" # of the full flow"] ["max_iterations = 4"] ?_ (by decide)
    (by decide)
  intro line member
  obtain rfl := List.mem_singleton.mp member
  exact ⟨" ", " of the full flow", by decide, .inr (by decide)⟩

/-- Steps count without a table and without names, and a table takes the keys behind it. -/
theorem steps_and_tables_matter :
    (keysIn .workflow "[workflow]" = keysIn .workflow "[workflow]\n[[workflow.steps]]" ∧
        stepNames "[workflow]" = stepNames "[workflow]\n[[workflow.steps]]" ∧
        fromTomlStr "[workflow]" = .ok ⟨false, true, 2, 2⟩ ∧
        fromTomlStr "[workflow]\n[[workflow.steps]]" = .ok ⟨false, false, 2, 2⟩) ∧
      (¬ HasHeader .workflow "" ∧
        ¬ HasHeader .workflow "[[workflow.steps]]\nname = \"strategy\"" ∧
        keysIn .root "" = keysIn .root "[[workflow.steps]]\nname = \"strategy\"" ∧
        fromTomlStr "" = .ok ⟨false, true, 2, 2⟩ ∧
        fromTomlStr "[[workflow.steps]]\nname = \"strategy\"" = .ok ⟨true, false, 2, 2⟩) ∧
      fromTomlStr "max_iterations = 5" = .ok ⟨false, true, 5, 2⟩ ∧
        fromTomlStr "[tools]\nmax_iterations = 5" = .ok ⟨false, true, 2, 2⟩ := by
  refine ⟨⟨?_, ?_, ?_, ?_⟩, ⟨?_, ?_, ?_, ?_, ?_⟩, ?_, ?_⟩ <;> decide +kernel

end WorkflowToml

end Roko
