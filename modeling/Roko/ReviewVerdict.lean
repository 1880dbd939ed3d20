import Mathlib.Algebra.Order.Ring.Rat
import Roko.TextLines

/-!
# The verdict of a reviewer

The model of `parse_structured_review_verdict` in `roko-gate/src/review_verdict.rs`.  The
parsers of JSON and TOML are given.  A reviewer may write more than one payload into an
output, and only one of them is read.
-/

namespace Roko

/-- An `f32`. -/
inductive Single
  | nan
  | infinity (negative : Bool)
  | finite (value : ℚ)
  deriving DecidableEq

/-- `is_finite` and `(0.0..=1.0).contains`. -/
def Single.inUnit : Single → Bool
  | .finite value => 0 ≤ value && value ≤ 1
  | _ => false

inductive AcceptanceOutcome
  | passed
  | failed
  | blocked
  | timedOut
  | cancelled
  | needsRetry
  | needsReplan
  | needsHuman
  | needsWork
  deriving DecidableEq, Repr

inductive RequiredNextAction
  | none
  | retry
  | reflect
  | replan
  | human
  deriving DecidableEq, Repr

structure ReviewVerdictEvidence where
  verdictId : String
  batchId : String
  taskId : String
  reviewerRoleId : String
  status : AcceptanceOutcome
  confidence : Single
  blockingFindings : List String
  nonBlockingFindings : List String
  requiredNextAction : RequiredNextAction
  evidenceRefs : List String
  rawOutputRef : String
  createdAt : String
  deriving DecidableEq

structure ReviewVerdictContext where
  verdictId : String
  batchId : String
  taskId : String
  reviewerRoleId : String
  rawOutputRef : String
  createdAt : String
  deriving DecidableEq

inductive ReviewParseSource
  | json
  | jsonCodeBlock
  | tomlCodeBlock
  | failClosed
  deriving DecidableEq, Repr

structure ParsedReviewVerdict where
  evidence : ReviewVerdictEvidence
  rawOutput : String
  source : ReviewParseSource
  parseError : Option String
  deriving DecidableEq

def ParsedReviewVerdict.passed (parsed : ParsedReviewVerdict) : Bool :=
  parsed.evidence.status = .passed && parsed.evidence.confidence.inUnit &&
    parsed.evidence.blockingFindings.isEmpty &&
    parsed.evidence.requiredNextAction = .none && parsed.parseError.isNone

structure AgentReviewPayload where
  status : AcceptanceOutcome
  confidence : Single
  blockingFindings : List String
  nonBlockingFindings : List String
  requiredNextAction : RequiredNextAction
  evidenceRefs : List String
  deriving DecidableEq

/-- `serde_json::from_str` and `toml::from_str`: a payload, or the text of an error. -/
structure PayloadParsers where
  json : String → Except String AgentReviewPayload
  toml : String → Except String AgentReviewPayload

namespace ReviewVerdict

/-- `find`, with what stands before and behind the pattern. -/
def findSplit (pattern : List Char) : List Char → Option (List Char × List Char)
  | [] => if pattern.isEmpty then some ([], []) else none
  | char :: chars =>
      if pattern.isPrefixOf (char :: chars) then
        some ([], (char :: chars).drop pattern.length)
      else (findSplit pattern chars).map fun found => (char :: found.1, found.2)

/-- What follows the line end behind the name of a language. -/
def afterFence (rest : List Char) : List Char :=
  let rest := match rest with
    | '\r' :: chars => chars
    | '\n' :: chars => chars
    | _ => rest
  match rest with
  | '\n' :: chars => chars
  | _ => rest

/-- The first block of code in a language, and the text behind it. -/
def splitCodeBlock (language : String) (text : List Char) : Option (String × List Char) :=
  (findSplit ("```" ++ language).toList text).bind fun opened =>
    (findSplit "```".toList (afterFence opened.2)).map fun closed =>
      (TextLines.trim (String.ofList closed.1), closed.2)

def extractCodeBlock (output language : String) : Option String :=
  (splitCodeBlock language output.toList).map Prod.fst

def validateEvidenceSemantics (evidence : ReviewVerdictEvidence) : Option String :=
  if !evidence.confidence.inUnit then some "review confidence must be in 0.0..=1.0"
  else if evidence.status = .passed ∧ !evidence.blockingFindings.isEmpty then
    some "passed review contains blocking findings"
  else if evidence.status = .passed ∧ evidence.requiredNextAction ≠ .none then
    some "passed review requires a follow-up action"
  else if evidence.status ≠ .passed ∧ evidence.requiredNextAction = .none then
    some "non-passing review omitted required next action"
  else none

def evidenceFromPayload (payload : AgentReviewPayload) (output : String)
    (ctx : ReviewVerdictContext) (source : ReviewParseSource) : ParsedReviewVerdict :=
  let evidence : ReviewVerdictEvidence := {
    verdictId := ctx.verdictId
    batchId := ctx.batchId
    taskId := ctx.taskId
    reviewerRoleId := ctx.reviewerRoleId
    status := payload.status
    confidence := payload.confidence
    blockingFindings := payload.blockingFindings
    nonBlockingFindings := payload.nonBlockingFindings
    requiredNextAction := payload.requiredNextAction
    evidenceRefs := payload.evidenceRefs
    rawOutputRef := ctx.rawOutputRef
    createdAt := ctx.createdAt }
  match validateEvidenceSemantics evidence with
  | some error => {
      evidence := { evidence with
        status := .needsHuman
        requiredNextAction := .human
        blockingFindings := evidence.blockingFindings ++ [error] }
      rawOutput := output
      source := .failClosed
      parseError := some error }
  | none => { evidence, rawOutput := output, source, parseError := none }

/-- The first eighty words of an output. -/
def rawExcerpt (output : String) : String :=
  let words := (output.toList.splitOnP TextLines.isWhitespace).filter (!·.isEmpty)
  String.intercalate " " ((words.take 80).map String.ofList)

def failClosed (output : String) (ctx : ReviewVerdictContext) (error : String) :
    ParsedReviewVerdict where
  evidence := {
    verdictId := ctx.verdictId
    batchId := ctx.batchId
    taskId := ctx.taskId
    reviewerRoleId := ctx.reviewerRoleId
    status := .needsHuman
    confidence := .finite 0
    blockingFindings := [s!"structured review verdict parse failed: {error}"] ++
      if rawExcerpt output ≠ "" then [s!"raw review excerpt: {rawExcerpt output}"] else []
    nonBlockingFindings := []
    requiredNextAction := .human
    evidenceRefs := []
    rawOutputRef := ctx.rawOutputRef
    createdAt := ctx.createdAt }
  rawOutput := output
  source := .failClosed
  parseError := some error

def parseAgentPayload (parsers : PayloadParsers) (output : String) :
    Except String (AgentReviewPayload × ReviewParseSource) :=
  let trimmed := TextLines.trim output
  if trimmed = "" then .error "review output is empty"
  else match parsers.json trimmed with
    | .ok payload => .ok (payload, .json)
    | .error _ =>
        match extractCodeBlock trimmed "json" with
        | some block =>
            match parsers.json block with
            | .ok payload => .ok (payload, .jsonCodeBlock)
            | .error error => .error s!"json code block did not match review schema: {error}"
        | none =>
            match extractCodeBlock trimmed "toml" with
            | some block =>
                match parsers.toml block with
                | .ok payload => .ok (payload, .tomlCodeBlock)
                | .error error =>
                    .error s!"toml code block did not match review schema: {error}"
            | none =>
                .error "review output did not contain a structured JSON or TOML verdict"

def parseStructuredReviewVerdict (parsers : PayloadParsers) (output : String)
    (ctx : ReviewVerdictContext) : ParsedReviewVerdict :=
  match parseAgentPayload parsers output with
  | .ok (payload, source) => evidenceFromPayload payload output ctx source
  | .error error => failClosed output ctx error

/-- The blocks of code in a language, each behind the one before it. -/
inductive IsCodeBlock (language : String) : List Char → String → Prop
  | first {text rest : List Char} {block : String} :
      splitCodeBlock language text = some (block, rest) → IsCodeBlock language text block
  | later {text rest : List Char} {front block : String} :
      splitCodeBlock language text = some (front, rest) → IsCodeBlock language rest block →
        IsCodeBlock language text block

/-- The payloads that match the schema, anywhere in an output. -/
inductive IsPayload (parsers : PayloadParsers) (output : String) : AgentReviewPayload → Prop
  | whole {payload : AgentReviewPayload} :
      parsers.json (TextLines.trim output) = .ok payload → IsPayload parsers output payload
  | jsonBlock {block : String} {payload : AgentReviewPayload} :
      IsCodeBlock "json" (TextLines.trim output).toList block → parsers.json block = .ok payload →
        IsPayload parsers output payload
  | tomlBlock {block : String} {payload : AgentReviewPayload} :
      IsCodeBlock "toml" (TextLines.trim output).toList block → parsers.toml block = .ok payload →
        IsPayload parsers output payload

/-- The payload that comes first: the whole text, or the first block that is JSON, or if
there is no such block, the first one that is TOML. -/
inductive IsLeading (parsers : PayloadParsers) (output : String) : AgentReviewPayload → Prop
  | whole {payload : AgentReviewPayload} :
      parsers.json (TextLines.trim output) = .ok payload → IsLeading parsers output payload
  | jsonBlock {failure block : String} {payload : AgentReviewPayload} :
      parsers.json (TextLines.trim output) = .error failure →
      extractCodeBlock (TextLines.trim output) "json" = some block →
      parsers.json block = .ok payload → IsLeading parsers output payload
  | tomlBlock {failure block : String} {payload : AgentReviewPayload} :
      parsers.json (TextLines.trim output) = .error failure →
      extractCodeBlock (TextLines.trim output) "json" = none →
      extractCodeBlock (TextLines.trim output) "toml" = some block →
      parsers.toml block = .ok payload → IsLeading parsers output payload

/-- The payload approves what was reviewed. -/
structure Approving (payload : AgentReviewPayload) : Prop where
  status : payload.status = .passed
  findings : payload.blockingFindings = []
  action : payload.requiredNextAction = .none
  confidence : payload.confidence.inUnit = true

/-- The payload does not contradict itself. -/
structure Consistent (payload : AgentReviewPayload) : Prop where
  confidence : payload.confidence.inUnit = true
  findings : payload.status = .passed → payload.blockingFindings = []
  action : payload.status = .passed ↔ payload.requiredNextAction = .none

/-- A verdict that fails closed: it passes only if every payload approves, and two payloads
with different statuses are left to a human. -/
structure FailsClosed (parsers : PayloadParsers) (output : String)
    (verdict : ParsedReviewVerdict) : Prop where
  approved : verdict.passed = true → ∀ payload, IsPayload parsers output payload →
    Approving payload
  ambiguous : ∀ payload other, IsPayload parsers output payload →
    IsPayload parsers output other → payload.status ≠ other.status →
      verdict.evidence.status = .needsHuman

/-- All payloads agree with the leading one, if it is not left to a human and does not
contradict itself: all approve, or all have its status. -/
def Unanimous (parsers : PayloadParsers) (output : String) : Prop :=
  ∀ leading, TextLines.trim output ≠ "" → IsLeading parsers output leading →
    Consistent leading →
    leading.status = .needsHuman ∨ ∀ payload, IsPayload parsers output payload →
      payload.status = leading.status ∧ (leading.status = .passed → Approving payload)

section Verdicts

variable {parsers : PayloadParsers} {output : String}

theorem IsCodeBlock.of_extract {text language block : String}
    (found : extractCodeBlock text language = some block) :
    IsCodeBlock language text.toList block := by
  obtain ⟨split, first, rfl⟩ := Option.map_eq_some_iff.mp found
  exact .first first

theorem IsLeading.isPayload {payload : AgentReviewPayload}
    (leading : IsLeading parsers output payload) : IsPayload parsers output payload := by
  cases leading with
  | whole parsed => exact .whole parsed
  | jsonBlock _ found parsed => exact .jsonBlock (.of_extract found) parsed
  | tomlBlock _ _ found parsed => exact .tomlBlock (.of_extract found) parsed

/-- What the parser returns is the leading payload, unless the output is blank. -/
theorem parseAgentPayload_ok {payload : AgentReviewPayload} {source : ReviewParseSource}
    (parsed : parseAgentPayload parsers output = .ok (payload, source)) :
    IsLeading parsers output payload := by
  unfold parseAgentPayload at parsed
  dsimp only at parsed
  split at parsed
  · cases parsed
  split at parsed
  case h_1 whole =>
    cases parsed
    exact .whole whole
  case h_2 failed =>
    split at parsed
    case h_1 found =>
      split at parsed
      case h_1 block =>
        cases parsed
        exact .jsonBlock failed found block
      case h_2 => cases parsed
    case h_2 absent =>
      split at parsed
      case h_1 found =>
        split at parsed
        case h_1 block =>
          cases parsed
          exact .tomlBlock failed absent found block
        case h_2 => cases parsed
      case h_2 => cases parsed

theorem parseAgentPayload_of_leading {payload : AgentReviewPayload}
    (filled : TextLines.trim output ≠ "") (leading : IsLeading parsers output payload) :
    ∃ source, parseAgentPayload parsers output = .ok (payload, source) := by
  unfold parseAgentPayload
  dsimp only
  rw [if_neg filled]
  cases leading with
  | whole parsed => exact ⟨.json, by rw [parsed]⟩
  | jsonBlock failed found parsed => exact ⟨.jsonCodeBlock, by simp only [failed, found, parsed]⟩
  | tomlBlock failed absent found parsed =>
      exact ⟨.tomlCodeBlock, by simp only [failed, absent, found, parsed]⟩

theorem parseAgentPayload_blank (parsers : PayloadParsers)
    (blank : TextLines.trim output = "") :
    ∃ error, parseAgentPayload parsers output = .error error := by
  unfold parseAgentPayload
  exact ⟨_, if_pos blank⟩

theorem validateEvidenceSemantics_eq_none_iff {evidence : ReviewVerdictEvidence} :
    validateEvidenceSemantics evidence = none ↔
      evidence.confidence.inUnit = true ∧
      (evidence.status = .passed → evidence.blockingFindings = []) ∧
      (evidence.status = .passed ↔ evidence.requiredNextAction = .none) := by
  unfold validateEvidenceSemantics
  rw [← List.isEmpty_iff]
  cases evidence.confidence.inUnit <;> cases evidence.blockingFindings.isEmpty <;>
    by_cases passed : evidence.status = .passed <;>
    by_cases action : evidence.requiredNextAction = .none <;> simp [passed, action]

theorem evidenceFromPayload_consistent {payload : AgentReviewPayload}
    (consistent : Consistent payload) (output : String) (ctx : ReviewVerdictContext)
    (source : ReviewParseSource) :
    (evidenceFromPayload payload output ctx source).evidence.status = payload.status ∧
      ((evidenceFromPayload payload output ctx source).passed = true ↔
        payload.status = .passed) := by
  unfold evidenceFromPayload
  dsimp only
  split
  case h_1 error failed =>
    have valid := failed.symm.trans (validateEvidenceSemantics_eq_none_iff.mpr
      ⟨consistent.confidence, consistent.findings, consistent.action⟩)
    cases valid
  case h_2 =>
    refine ⟨rfl, ?_⟩
    simp only [ParsedReviewVerdict.passed, consistent.confidence, Bool.and_eq_true,
      decide_eq_true_eq, List.isEmpty_iff, Option.isNone_none, and_true]
    constructor
    · exact fun accepted => accepted.1.1
    · exact fun accepted =>
        ⟨⟨accepted, consistent.findings accepted⟩, consistent.action.mp accepted⟩

theorem evidenceFromPayload_inconsistent {payload : AgentReviewPayload}
    (contradicts : ¬ Consistent payload) (output : String) (ctx : ReviewVerdictContext)
    (source : ReviewParseSource) :
    (evidenceFromPayload payload output ctx source).evidence.status = .needsHuman ∧
      (evidenceFromPayload payload output ctx source).passed = false := by
  unfold evidenceFromPayload
  dsimp only
  split
  case h_1 => exact ⟨rfl, rfl⟩
  case h_2 valid =>
    obtain ⟨confidence, findings, action⟩ := Iff.mp validateEvidenceSemantics_eq_none_iff valid
    exact absurd ⟨confidence, findings, action⟩ contradicts

theorem FailsClosed.of_needsHuman {verdict : ParsedReviewVerdict}
    (human : verdict.evidence.status = .needsHuman) : FailsClosed parsers output verdict where
  approved := by
    intro passed
    simp [ParsedReviewVerdict.passed, human] at passed
  ambiguous := fun _ _ _ _ _ => human

/-- The verdict on a consistent payload fails closed if and only if all others agree. -/
theorem failsClosed_of_consistent {leading : AgentReviewPayload}
    {verdict : ParsedReviewVerdict} (isPayload : IsPayload parsers output leading)
    (status : verdict.evidence.status = leading.status)
    (passed : verdict.passed = true ↔ leading.status = .passed) :
    FailsClosed parsers output verdict ↔
      leading.status = .needsHuman ∨ ∀ payload, IsPayload parsers output payload →
        payload.status = leading.status ∧ (leading.status = .passed → Approving payload) := by
  constructor
  · intro failsClosed
    by_cases human : leading.status = .needsHuman
    · exact Or.inl human
    · refine Or.inr fun payload found => ⟨?_, fun approves => ?_⟩
      · by_contra differ
        apply human
        rw [← status]
        exact failsClosed.ambiguous payload leading found isPayload differ
      · exact failsClosed.approved (passed.mpr approves) payload found
  · rintro (human | agree)
    · exact .of_needsHuman (status.trans human)
    · refine ⟨fun accepted payload found => ?_, fun payload other found otherFound differ => ?_⟩
      · exact (agree payload found).2 (passed.mp accepted)
      · exact absurd ((agree payload found).1.trans (agree other otherFound).1.symm) differ

end Verdicts

/-- A verdict fails closed if and only if the payloads of its output are unanimous. -/
theorem failsClosed_iff (parsers : PayloadParsers) (output : String)
    (ctx : ReviewVerdictContext) :
    FailsClosed parsers output (parseStructuredReviewVerdict parsers output ctx) ↔
      Unanimous parsers output := by
  unfold parseStructuredReviewVerdict
  cases parsed : parseAgentPayload parsers output with
  | error error =>
      refine iff_of_true (.of_needsHuman rfl) fun leading filled isLeading => ?_
      obtain ⟨source, read⟩ := parseAgentPayload_of_leading filled isLeading
      rw [read] at parsed
      cases parsed
  | ok found =>
      obtain ⟨payload, source⟩ := found
      have isLeading := parseAgentPayload_ok parsed
      have filled : TextLines.trim output ≠ "" := by
        intro blank
        obtain ⟨error, failed⟩ := parseAgentPayload_blank parsers blank
        rw [failed] at parsed
        cases parsed
      have only (leading : AgentReviewPayload) (other : IsLeading parsers output leading) :
          leading = payload := by
        obtain ⟨_, read⟩ := parseAgentPayload_of_leading filled other
        rw [read] at parsed
        cases parsed
        rfl
      by_cases consistent : Consistent payload
      · obtain ⟨status, passed⟩ := evidenceFromPayload_consistent consistent output ctx source
        refine (failsClosed_of_consistent isLeading.isPayload status passed).trans ⟨?_, ?_⟩
        · intro agree leading _ other _
          rw [only leading other]
          exact agree
        · intro unanimous
          exact unanimous payload filled isLeading consistent
      · have rejected := evidenceFromPayload_inconsistent consistent output ctx source
        refine iff_of_true (.of_needsHuman rejected.1) fun leading _ other agrees => ?_
        rw [only leading other] at agrees
        exact absurd agrees consistent

def backtick : Char := Char.ofNat 96

theorem findSplit_of_free {head : Char} {front : List Char} (free : head ∉ front)
    (pattern rest : List Char) :
    findSplit (head :: pattern) (front ++ (head :: pattern ++ rest)) = some (front, rest) := by
  induction front with
  | nil =>
      rw [List.nil_append, List.cons_append, findSplit, if_pos]
      · simp
      · simp [List.isPrefixOf_iff_prefix]
  | cons char front ih =>
      rw [List.mem_cons, not_or] at free
      rw [List.cons_append, findSplit, if_neg, ih free.2]
      · rfl
      · simp [List.isPrefixOf, free.1]

/-- A text with a block of JSON behind it. -/
def withJson (front body : String) : String :=
  front ++ "```json\n" ++ body ++ "\n```"

/-- A block without backticks is read as it stands there. -/
theorem splitCodeBlock_withJson {front body : String} (free : backtick ∉ front.toList)
    (plain : backtick ∉ body.toList) (starts : body.toList.head? ≠ some '\n')
    (filled : body.toList ≠ []) (rest : List Char) :
    splitCodeBlock "json" ((withJson front body).toList ++ rest) =
      some (TextLines.trim (body ++ "\n"), rest) := by
  have opening : ("```" ++ "json").toList = backtick :: "``json".toList := by decide
  have closing : "```".toList = backtick :: "``".toList := by decide
  have chars : (withJson front body).toList ++ rest = front.toList ++
      (backtick :: "``json".toList ++
        ('\n' :: ((body ++ "\n").toList ++ (backtick :: "``".toList ++ rest)))) := by
    have lineEnd : "```json\n".toList = backtick :: "``json".toList ++ ['\n'] := by decide
    have fence : "\n```".toList = "\n".toList ++ (backtick :: "``".toList) := by decide
    simp only [withJson, String.toList_append, lineEnd, fence, List.append_assoc,
      List.cons_append, List.nil_append]
  have body' : afterFence ('\n' :: ((body ++ "\n").toList ++ (backtick :: "``".toList ++ rest))) =
      (body ++ "\n").toList ++ (backtick :: "``".toList ++ rest) := by
    obtain ⟨char, tail, split⟩ := List.exists_cons_of_ne_nil filled
    rw [split, List.head?_cons, ne_eq, Option.some.injEq] at starts
    rw [String.toList_append, split]
    simp [afterFence, starts]
  have plain' : backtick ∉ (body ++ "\n").toList := by
    rw [String.toList_append, List.mem_append]
    rintro (inside | lineEnd)
    · exact plain inside
    · revert lineEnd
      decide
  rw [splitCodeBlock, opening, closing, chars, findSplit_of_free free, Option.bind_some, body',
    findSplit_of_free plain', Option.map_some, String.ofList_toList]

def approval : String :=
  "\x7b\"status\":\"passed\",\"confidence\":0.5,\"blocking_findings\":[]," ++
    "\"non_blocking_findings\":[],\"required_next_action\":\"none\",\"evidence_refs\":[]\x7d"

def rejection : String :=
  "\x7b\"status\":\"failed\",\"confidence\":0.5,\"blocking_findings\":[]," ++
    "\"non_blocking_findings\":[],\"required_next_action\":\"retry\",\"evidence_refs\":[]\x7d"

/-- A reviewer who quotes an example before the verdict. -/
def quotedExample : String :=
  withJson "For example:\n" approval ++ withJson "\nMy verdict:\n" rejection ++ "\n"

/-- What the parsers do with the texts of the example. -/
def exampleParsers : PayloadParsers where
  json := fun text =>
    if text = approval then .ok ⟨.passed, .finite (1 / 2), [], [], .none, []⟩
    else if text = rejection then .ok ⟨.failed, .finite (1 / 2), [], [], .retry, []⟩
    else .error "expected value at line 1 column 1"
  toml := fun _ => .error "expected an equals, found eof at line 1 column 4"

def exampleCtx : ReviewVerdictContext :=
  ⟨"verdict-1", "batch-1", "task-1", "reviewer", ".roko/runs/review.raw", "2026-01-01T00:00:00Z"⟩

/-- The text of a payload of the example. -/
structure PlainObject (text : String) : Prop where
  plain : backtick ∉ text.toList
  shape : ∃ inner, text.toList = '\x7b' :: (inner ++ ['\x7d'])

theorem PlainObject.splitCodeBlock {text front : String} (object : PlainObject text)
    (free : backtick ∉ front.toList) (rest : List Char) :
    splitCodeBlock "json" ((withJson front text).toList ++ rest) = some (text, rest) := by
  obtain ⟨inner, shape⟩ := object.shape
  rw [splitCodeBlock_withJson free object.plain (by rw [shape]; simp) (by rw [shape]; simp),
    TextLines.trim_terminated shape (by decide) (by decide)]

theorem plainObject_approval : PlainObject approval where
  plain := by decide +kernel
  shape := ⟨(approval.toList.drop 1).dropLast, by decide +kernel⟩

theorem plainObject_rejection : PlainObject rejection where
  plain := by decide +kernel
  shape := ⟨(rejection.toList.drop 1).dropLast, by decide +kernel⟩

theorem PlainObject.ne {text other : String} (object : PlainObject text) {tail : List Char}
    (starts : other.toList = 'F' :: tail) : other ≠ text := by
  rintro rfl
  obtain ⟨inner, shape⟩ := object.shape
  rw [starts, List.cons.injEq] at shape
  exact absurd shape.1 (by decide)

theorem quotedExample_shape : ∃ inner, (withJson "For example:\n" approval ++
    withJson "\nMy verdict:\n" rejection).toList = 'F' :: (inner ++ [backtick]) := by
  have first : "For example:\n".toList = 'F' :: "or example:\n".toList := by decide
  have last : "\n```".toList = "\n``".toList ++ [backtick] := by decide
  refine ⟨"or example:\n".toList ++ "```json\n".toList ++ approval.toList ++ "\n```".toList ++
    "\nMy verdict:\n".toList ++ "```json\n".toList ++ rejection.toList ++ "\n``".toList, ?_⟩
  simp only [withJson, String.toList_append, first, last, List.append_assoc, List.cons_append]

theorem trim_quotedExample : TextLines.trim quotedExample =
    withJson "For example:\n" approval ++ withJson "\nMy verdict:\n" rejection := by
  obtain ⟨inner, shape⟩ := quotedExample_shape
  exact TextLines.trim_terminated shape (by decide) (by decide)

/-- The example is taken for the verdict. -/
theorem quoted_example_passes :
    (parseStructuredReviewVerdict exampleParsers quotedExample exampleCtx).passed = true ∧
      ¬ FailsClosed exampleParsers quotedExample
        (parseStructuredReviewVerdict exampleParsers quotedExample exampleCtx) := by
  have texts : (TextLines.trim quotedExample).toList =
      (withJson "For example:\n" approval).toList ++
        ((withJson "\nMy verdict:\n" rejection).toList ++ []) := by
    rw [trim_quotedExample, String.toList_append, List.append_nil]
  have first := plainObject_approval.splitCodeBlock (by decide : backtick ∉ "For example:\n".toList)
    ((withJson "\nMy verdict:\n" rejection).toList ++ [])
  have second := plainObject_rejection.splitCodeBlock
    (by decide : backtick ∉ "\nMy verdict:\n".toList) []
  rw [← texts] at first
  have approved : exampleParsers.json approval =
      .ok ⟨.passed, .finite (1 / 2), [], [], .none, []⟩ := by
    simp only [exampleParsers, if_true]
  have distinct : rejection ≠ approval := by decide +kernel
  have rejected : exampleParsers.json rejection =
      .ok ⟨.failed, .finite (1 / 2), [], [], .retry, []⟩ := by
    simp only [exampleParsers, if_neg distinct, if_true]
  obtain ⟨inner, starts⟩ := quotedExample_shape
  rw [← trim_quotedExample] at starts
  have unread : exampleParsers.json (TextLines.trim quotedExample) =
      .error "expected value at line 1 column 1" := by
    simp only [exampleParsers, if_neg (plainObject_approval.ne starts),
      if_neg (plainObject_rejection.ne starts)]
  have filled : TextLines.trim quotedExample ≠ "" := by
    intro blank
    rw [blank] at starts
    cases starts
  have found : extractCodeBlock (TextLines.trim quotedExample) "json" = some approval := by
    rw [extractCodeBlock, first, Option.map_some]
  obtain ⟨source, parsed⟩ := parseAgentPayload_of_leading filled
    (.jsonBlock unread found approved)
  have passes :
      (parseStructuredReviewVerdict exampleParsers quotedExample exampleCtx).passed = true := by
    rw [parseStructuredReviewVerdict, parsed]
    exact (evidenceFromPayload_consistent ⟨by decide +kernel, by decide, by decide⟩
      quotedExample exampleCtx source).2.mpr rfl
  refine ⟨passes, fun failsClosed => ?_⟩
  have approving := failsClosed.approved passes _
    (.jsonBlock (.later first (.first second)) rejected)
  exact absurd approving.status (by decide)

end ReviewVerdict

end Roko
