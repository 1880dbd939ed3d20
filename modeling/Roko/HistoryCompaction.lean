import Roko.JsonValue
import Roko.PlanPhase
import Roko.PromptSections
import Mathlib.Algebra.GroupWithZero.Nat

/-!
# Compaction of conversation histories

The model of `roko-compose/src/compaction.rs`.  Older messages give way to a summary, which
carries the gate results and the tool outcomes of the messages it stands for.  As it carries
them where they are looked for, the summary of a summary carries them on.
-/

namespace Roko

structure ChatMessage where
  role : String
  content : String
  data : Option JsonValue
deriving DecidableEq

/-- What a signal carries. -/
inductive Body where
  | empty
  | text (text : String)
  | json (value : JsonValue)
  | bytes (bytes : List UInt8)

structure AgentResult where
  success : Bool
  output : Body

/-- A policy.  In place of `trigger_threshold` stands its answer for the tokens that can be
compacted and those of all messages. -/
structure CompactionPolicy where
  triggers : Nat → Nat → Bool
  anchorRoles : List String
  preserveLastNTurns : Nat
  summaryBudgetTokens : Nat

/-- What `serde_json::to_string` writes for a value and for a message. -/
structure JsonTexts where
  ofValue : JsonValue → Option String
  ofMessage : ChatMessage → Option String

namespace JsonTexts

/-- No text is written for two values. -/
def Faithful (texts : JsonTexts) : Prop :=
  ∀ first second text, texts.ofValue first = some text → texts.ofValue second = some text →
    first = second

end JsonTexts

namespace HistoryCompaction

def valueIndicatesError (value : JsonValue) : Bool :=
  ((value.get "error").bind JsonValue.asBool).getD false ||
    ((value.get "status").bind JsonValue.asStr).any fun status =>
      status = "error" || status = "failed" || status = "failure"

def containsErrorText (text : String) : Bool :=
  let lower := text.toLower
  containsText lower "error" || containsText lower "failed" || containsText lower "exception"

def isErrorToolResult (message : ChatMessage) : Bool :=
  if message.role ≠ "tool" then false
  else message.data.any valueIndicatesError || containsErrorText message.content

def isAnchor (anchorRoles : List String) (message : ChatMessage) : Bool :=
  decide (message.role ∈ anchorRoles) || isErrorToolResult message

def valuesFromKey (value : JsonValue) (key : String) : List JsonValue :=
  ((value.get key).bind JsonValue.asArray).getD []

def objectValue (value : JsonValue) (key : String) : List JsonValue :=
  (value.get key).toList

def looksLikeGateResult (value : JsonValue) : Bool :=
  ((value.get "gate").bind JsonValue.asStr).isSome &&
    ((value.get "passed").bind JsonValue.asBool).isSome

/-- The extractor of `collect_gate_results`. -/
def gateResultsOf (message : ChatMessage) : List JsonValue :=
  match message.data with
  | none => []
  | some data =>
      valuesFromKey data "gate_results" ++ objectValue data "gate_result" ++
        if looksLikeGateResult data then [data] else []

def toolOutcome (message : ChatMessage) : JsonValue :=
  .object [("content", .string message.content), ("data", message.data.getD .null),
    ("role", .string message.role)]

/-- The extractor of `collect_tool_outcomes`. -/
def toolOutcomesOf (message : ChatMessage) : List JsonValue :=
  (if message.role = "tool" then [toolOutcome message] else []) ++
    match message.data with
    | none => []
    | some data =>
        valuesFromKey data "tool_outcomes" ++ objectValue data "tool_outcome" ++
          if (data.get "kind").bind JsonValue.asStr = some "history_summary" then
            valuesFromKey data "tool_outcomes"
          else []

variable (texts : JsonTexts)

/-- One round of the loop: the texts that were seen, and the values collected. -/
def collectStep (state : List String × List JsonValue) (value : JsonValue) :
    List String × List JsonValue :=
  match texts.ofValue value with
  | none => state
  | some text =>
      if text ∈ state.1 then state else (text :: state.1, state.2 ++ [value])

def collectStructuredValues (messages : List ChatMessage)
    (extractor : ChatMessage → List JsonValue) : List JsonValue :=
  ((messages.flatMap extractor).foldl (collectStep texts) ([], [])).2

def collectGateResults (messages : List ChatMessage) : List JsonValue :=
  collectStructuredValues texts messages gateResultsOf

def collectToolOutcomes (messages : List ChatMessage) : List JsonValue :=
  collectStructuredValues texts messages toolOutcomesOf

def estimateMessageTokens (message : ChatMessage) : Nat :=
  match texts.ofMessage message with
  | none => 0
  | some text => text.utf8ByteSize / 4

def estimateTokens (messages : List ChatMessage) : Nat :=
  (messages.map (estimateMessageTokens texts)).sum

def escapeNewlines (text : String) : String :=
  String.ofList (text.toList.flatMap fun char => if char = '\n' then ['\\', 'n'] else [char])

def renderMessage (message : ChatMessage) (index : Nat) : String :=
  "[" ++ toString index ++ "] role=" ++ message.role ++ " content=" ++
    escapeNewlines message.content ++ "\n"

def buildSummaryPrompt (compactable : List ChatMessage) (summaryBudgetTokens : Nat) : String :=
  "Summarize the earlier conversation in <= " ++ toString summaryBudgetTokens ++ " tokens. " ++
    "Focus on requirements, decisions, constraints, completed work, and unresolved issues. " ++
    "Do not restate raw gate results or tool outputs; those are preserved separately.\n\n" ++
    String.join (compactable.zipIdx.map fun entry => renderMessage entry.1 entry.2)

def extractSummaryText : Body → Option String
  | .text text => some text
  | .json value => (value.get "summary").bind JsonValue.asStr
  | .empty | .bytes _ => none

def summaryLine (message : ChatMessage) : Option String :=
  let trimmed := trim message.content.toList
  if trimmed.isEmpty then none else some (message.role ++ ": " ++ String.ofList trimmed)

def fallbackSummary (compactable : List ChatMessage) : String :=
  let lines := (compactable.filterMap summaryLine).take 4
  if lines.isEmpty then "Earlier conversation compacted."
  else if lines.length < compactable.length then
    "\n".intercalate (lines ++ ["... plus " ++ toString (compactable.length - lines.length) ++
      " earlier messages."])
  else "\n".intercalate lines

def truncateToBudget (text : String) (budgetTokens : Nat) : String :=
  let maxChars := min (budgetTokens * 7) (2 ^ 64 - 1) / 2
  if text.utf8ByteSize ≤ maxChars then text
  else String.ofList (takeBytes (maxChars - 3) text.toList) ++ "..."

def summarizeRegion (compactable : List ChatMessage) (summaryBudgetTokens : Nat)
    (summarizer : String → AgentResult) : String :=
  if summaryBudgetTokens = 0 then ""
  else
    let result := summarizer (buildSummaryPrompt compactable summaryBudgetTokens)
    let raw :=
      if result.success then
        (extractSummaryText result.output).getD (fallbackSummary compactable)
      else fallbackSummary compactable
    truncateToBudget raw summaryBudgetTokens

def summaryData (compactable : List ChatMessage) : JsonValue :=
  .object [("compacted_messages", .number (.posInt (UInt64.ofNat compactable.length))),
    ("gate_results", .array (collectGateResults texts compactable)),
    ("kind", .string "history_summary"),
    ("tool_outcomes", .array (collectToolOutcomes texts compactable))]

def summaryMessage (compactable : List ChatMessage) (policy : CompactionPolicy)
    (summarizer : String → AgentResult) : ChatMessage where
  role := "assistant"
  content := summarizeRegion compactable policy.summaryBudgetTokens summarizer
  data := some (summaryData texts compactable)

def compactHistory (messages : List ChatMessage) (policy : CompactionPolicy)
    (summarizer : String → AgentResult) : List ChatMessage :=
  if messages.isEmpty then []
  else
    let recentStart := messages.length - policy.preserveLastNTurns
    if recentStart = 0 then messages
    else
      let older := messages.take recentStart
      let compactable := older.filter fun message => !isAnchor policy.anchorRoles message
      let totalTokens := estimateTokens texts messages
      let compactableTokens := estimateTokens texts compactable
      if totalTokens = 0 || compactableTokens = 0 then messages
      else if !policy.triggers compactableTokens totalTokens then messages
      else
        let anchors := older.filter (isAnchor policy.anchorRoles)
        if compactable.isEmpty then messages
        else
          anchors ++ summaryMessage texts compactable policy summarizer ::
            messages.drop recentStart

inductive HistoryStep where
  | append (messages : List ChatMessage)
  | compact (policy : CompactionPolicy) (summarizer : String → AgentResult)

/-- A history beside the messages it was made from and the policies that were used. -/
structure HistoryRun where
  current : List ChatMessage
  full : List ChatMessage
  policies : List CompactionPolicy

namespace HistoryRun

def start (messages : List ChatMessage) : HistoryRun where
  current := messages
  full := messages
  policies := []

def step (run : HistoryRun) : HistoryStep → HistoryRun
  | .append messages =>
      { run with current := run.current ++ messages, full := run.full ++ messages }
  | .compact policy summarizer =>
      { run with
        current := compactHistory texts run.current policy summarizer
        policies := run.policies ++ [policy] }

/-- A message that every policy keeps. -/
def keeps (policies : List CompactionPolicy) (message : ChatMessage) : Bool :=
  (policies.all fun policy => decide (message.role ∈ policy.anchorRoles)) ||
    isErrorToolResult message

end HistoryRun

section Collected

variable {texts}

theorem collectStep_seen (values : List JsonValue) (state : List String × List JsonValue)
    (seen : ∀ text, text ∈ state.1 ↔ text ∈ state.2.filterMap texts.ofValue) (text : String) :
    text ∈ (values.foldl (collectStep texts) state).2.filterMap texts.ofValue ↔
      text ∈ state.2.filterMap texts.ofValue ∨ text ∈ values.filterMap texts.ofValue := by
  induction values generalizing state with
  | nil => simp
  | cons value values ih =>
      rw [List.foldl_cons, List.filterMap_cons]
      cases written : texts.ofValue value with
      | none =>
          have skipped : collectStep texts state value = state := by rw [collectStep, written]
          rw [skipped, ih state seen]
      | some valueText =>
          by_cases known : valueText ∈ state.1
          · have skipped : collectStep texts state value = state := by
              rw [collectStep, written]
              exact if_pos known
            rw [skipped, ih state seen, List.mem_cons]
            refine ⟨Or.imp_right Or.inr, ?_⟩
            rintro (before | rfl | later)
            · exact Or.inl before
            · exact Or.inl ((seen _).mp known)
            · exact Or.inr later
          · have taken : collectStep texts state value =
                (valueText :: state.1, state.2 ++ [value]) := by
              rw [collectStep, written]
              exact if_neg known
            have lists : (state.2 ++ [value]).filterMap texts.ofValue =
                state.2.filterMap texts.ofValue ++ [valueText] := by
              rw [List.filterMap_append, List.filterMap_cons, written, List.filterMap_nil]
            rw [taken, ih, lists, List.mem_append, List.mem_singleton, List.mem_cons, or_assoc]
            intro other
            rw [lists, List.mem_cons, List.mem_append, List.mem_singleton, seen, or_comm]

/-- What is collected has the texts of all that is extracted. -/
theorem mem_texts_collect {messages : List ChatMessage}
    {extractor : ChatMessage → List JsonValue} {text : String} :
    text ∈ (collectStructuredValues texts messages extractor).filterMap texts.ofValue ↔
      text ∈ (messages.flatMap extractor).filterMap texts.ofValue := by
  rw [collectStructuredValues, collectStep_seen _ _ (by simp)]
  simp

theorem collectStep_written (values : List JsonValue) (state : List String × List JsonValue)
    (all : ∀ value ∈ state.2, ∃ text, texts.ofValue value = some text) :
    ∀ value ∈ (values.foldl (collectStep texts) state).2,
      ∃ text, texts.ofValue value = some text := by
  induction values generalizing state with
  | nil => exact all
  | cons value values ih =>
      refine ih _ ?_
      cases written : texts.ofValue value with
      | none =>
          rw [collectStep, written]
          exact all
      | some text =>
          rw [collectStep, written]
          dsimp only
          split
          · exact all
          · intro other member
            rcases List.mem_append.mp member with member | member
            · exact all other member
            · rw [List.mem_singleton.mp member]
              exact ⟨text, written⟩

theorem written_of_mem {messages : List ChatMessage} {extractor : ChatMessage → List JsonValue}
    {value : JsonValue} (member : value ∈ collectStructuredValues texts messages extractor) :
    ∃ text, texts.ofValue value = some text :=
  collectStep_written _ _ (by simp) value member

/-- Where a text is written for one value only, equal texts are equal values. -/
theorem collect_subset {first second : List ChatMessage}
    {extractor : ChatMessage → List JsonValue} (faithful : texts.Faithful)
    (sameTexts : ∀ text,
      text ∈ (collectStructuredValues texts first extractor).filterMap texts.ofValue →
        text ∈ (collectStructuredValues texts second extractor).filterMap texts.ofValue) :
    collectStructuredValues texts first extractor ⊆
      collectStructuredValues texts second extractor := by
  intro value member
  obtain ⟨text, written⟩ := written_of_mem member
  obtain ⟨other, found, written'⟩ := List.mem_filterMap.mp
    (sameTexts text (List.mem_filterMap.mpr ⟨value, member, written⟩))
  rwa [faithful value other text written written']

end Collected

section Compaction

variable {texts} {messages : List ChatMessage} {policy : CompactionPolicy}
  {summarizer : String → AgentResult}

/-- A compaction leaves the history as it is, or it puts a summary between the anchors and
the recent messages. -/
theorem compactHistory_cases (texts : JsonTexts) (messages : List ChatMessage)
    (policy : CompactionPolicy) (summarizer : String → AgentResult) :
    compactHistory texts messages policy summarizer = messages ∨
      ∃ older recent, messages = older ++ recent ∧
        messages.drop (messages.length - policy.preserveLastNTurns) = recent ∧
        compactHistory texts messages policy summarizer =
          older.filter (isAnchor policy.anchorRoles) ++
            summaryMessage texts
              (older.filter fun message => !isAnchor policy.anchorRoles message) policy
              summarizer :: recent := by
  unfold compactHistory
  split
  case isTrue empty => exact Or.inl (List.isEmpty_iff.mp empty).symm
  case isFalse =>
    dsimp only
    split
    · exact Or.inl rfl
    split
    · exact Or.inl rfl
    split
    · exact Or.inl rfl
    split
    · exact Or.inl rfl
    exact Or.inr ⟨_, _, (List.take_append_drop _ _).symm, rfl, rfl⟩

theorem recent_suffix (texts : JsonTexts) (messages : List ChatMessage)
    (policy : CompactionPolicy) (summarizer : String → AgentResult) :
    messages.drop (messages.length - policy.preserveLastNTurns) <:+
      compactHistory texts messages policy summarizer := by
  rcases compactHistory_cases texts messages policy summarizer with
    same | ⟨older, recent, _, rfl, compacted⟩
  · rw [same]
    exact List.drop_suffix _ _
  · rw [compacted]
    exact (List.suffix_cons _ _).trans (List.suffix_append _ _)

theorem filter_sublist_compactHistory {kept : ChatMessage → Bool}
    (anchored : ∀ message, kept message = true → isAnchor policy.anchorRoles message = true) :
    (messages.filter kept).Sublist (compactHistory texts messages policy summarizer) := by
  rcases compactHistory_cases texts messages policy summarizer with
    same | ⟨older, recent, rfl, _, compacted⟩
  · rw [same]
    exact List.filter_sublist
  · have anchors : older.filter kept = (older.filter (isAnchor policy.anchorRoles)).filter kept := by
      rw [List.filter_filter]
      refine List.filter_congr fun message _ => ?_
      cases isKept : kept message with
      | false => rfl
      | true => rw [anchored message isKept, Bool.and_self]
    rw [compacted, List.filter_append, anchors]
    exact List.filter_sublist.append (List.Sublist.cons _ List.filter_sublist)

/-- A compaction keeps what an extractor finds, if the summary shows it what was collected
from the messages it stands for. -/
theorem mem_texts_compactHistory {extractor : ChatMessage → List JsonValue}
    (carried : ∀ compactable value,
      value ∈ extractor (summaryMessage texts compactable policy summarizer) ↔
        value ∈ collectStructuredValues texts compactable extractor) (text : String) :
    text ∈ ((compactHistory texts messages policy summarizer).flatMap extractor).filterMap
        texts.ofValue ↔ text ∈ (messages.flatMap extractor).filterMap texts.ofValue := by
  rcases compactHistory_cases texts messages policy summarizer with
    same | ⟨older, recent, rfl, _, compacted⟩
  · rw [same]
  · have summary (compactable : List ChatMessage) :
        text ∈ (extractor (summaryMessage texts compactable policy summarizer)).filterMap
            texts.ofValue ↔ text ∈ (compactable.flatMap extractor).filterMap texts.ofValue := by
      rw [← mem_texts_collect]
      simp only [List.mem_filterMap, carried]
    have parts := (((List.filter_append_perm (isAnchor policy.anchorRoles) older).flatMap_right
      extractor).filterMap texts.ofValue).mem_iff (a := text)
    simp only [List.flatMap_append, List.filterMap_append, List.mem_append] at parts
    rw [compacted]
    simp only [List.flatMap_append, List.flatMap_cons, List.filterMap_append, List.mem_append,
      summary, ← parts]
    rw [or_assoc]

theorem gateResultsOf_summary (compactable : List ChatMessage) (value : JsonValue) :
    value ∈ gateResultsOf (summaryMessage texts compactable policy summarizer) ↔
      value ∈ collectGateResults texts compactable := by
  have found : valuesFromKey (summaryData texts compactable) "gate_results" =
      collectGateResults texts compactable := rfl
  have notOne : objectValue (summaryData texts compactable) "gate_result" = [] := rfl
  have notItself : looksLikeGateResult (summaryData texts compactable) = false := rfl
  simp [gateResultsOf, summaryMessage, found, notOne, notItself]

theorem toolOutcomesOf_summary (compactable : List ChatMessage) (value : JsonValue) :
    value ∈ toolOutcomesOf (summaryMessage texts compactable policy summarizer) ↔
      value ∈ collectToolOutcomes texts compactable := by
  have found : valuesFromKey (summaryData texts compactable) "tool_outcomes" =
      collectToolOutcomes texts compactable := rfl
  have notOne : objectValue (summaryData texts compactable) "tool_outcome" = [] := rfl
  simp [toolOutcomesOf, summaryMessage, found, notOne]

end Compaction

namespace HistoryRun

variable {texts} {run : HistoryRun}

/-- What holds after every step: the history still shows all that can be found in the
messages it was made from, and it has the messages that every policy keeps. -/
structure Carried (texts : JsonTexts) (run : HistoryRun) : Prop where
  gateResults : ∀ text, text ∈ (run.current.flatMap gateResultsOf).filterMap texts.ofValue ↔
    text ∈ (run.full.flatMap gateResultsOf).filterMap texts.ofValue
  toolOutcomes : ∀ text, text ∈ (run.current.flatMap toolOutcomesOf).filterMap texts.ofValue ↔
    text ∈ (run.full.flatMap toolOutcomesOf).filterMap texts.ofValue
  anchors : (run.full.filter (keeps run.policies)).Sublist run.current

theorem Carried.start (texts : JsonTexts) (messages : List ChatMessage) :
    (start messages).Carried texts where
  gateResults _ := Iff.rfl
  toolOutcomes _ := Iff.rfl
  anchors := List.filter_sublist

theorem keeps_of_append {policies : List CompactionPolicy} {policy : CompactionPolicy}
    {message : ChatMessage} (kept : keeps (policies ++ [policy]) message = true) :
    keeps policies message = true ∧ isAnchor policy.anchorRoles message = true := by
  rw [keeps, Bool.or_eq_true, List.all_append, Bool.and_eq_true] at kept
  rw [keeps, isAnchor, Bool.or_eq_true, Bool.or_eq_true]
  rcases kept with ⟨before, last⟩ | failed
  · rw [List.all_cons, List.all_nil, Bool.and_true] at last
    exact ⟨Or.inl before, Or.inl last⟩
  · exact ⟨Or.inr failed, Or.inr failed⟩

theorem Carried.append (carried : run.Carried texts) (messages : List ChatMessage) :
    (run.step texts (.append messages)).Carried texts where
  gateResults text := by
    simp only [step, List.flatMap_append, List.filterMap_append, List.mem_append,
      carried.gateResults text]
  toolOutcomes text := by
    simp only [step, List.flatMap_append, List.filterMap_append, List.mem_append,
      carried.toolOutcomes text]
  anchors := by
    rw [step, List.filter_append]
    exact carried.anchors.append List.filter_sublist

theorem Carried.compact (carried : run.Carried texts) (policy : CompactionPolicy)
    (summarizer : String → AgentResult) :
    (run.step texts (.compact policy summarizer)).Carried texts where
  gateResults text :=
    (mem_texts_compactHistory gateResultsOf_summary text).trans (carried.gateResults text)
  toolOutcomes text :=
    (mem_texts_compactHistory toolOutcomesOf_summary text).trans (carried.toolOutcomes text)
  anchors := by
    have fewer : run.full.filter (keeps (run.policies ++ [policy])) =
        (run.full.filter (keeps run.policies)).filter (keeps (run.policies ++ [policy])) := by
      rw [List.filter_filter]
      refine List.filter_congr fun message _ => ?_
      cases kept : keeps (run.policies ++ [policy]) message with
      | false => rfl
      | true => rw [(keeps_of_append kept).1, Bool.and_self]
    rw [step, fewer]
    exact (carried.anchors.filter _).trans
      (filter_sublist_compactHistory fun _ kept => (keeps_of_append kept).2)

theorem Carried.step (carried : run.Carried texts) (next : HistoryStep) :
    (run.step texts next).Carried texts := by
  cases next with
  | append messages => exact carried.append messages
  | compact policy summarizer => exact carried.compact policy summarizer

theorem Carried.foldl (carried : run.Carried texts) (steps : List HistoryStep) :
    (steps.foldl (HistoryRun.step texts) run).Carried texts := by
  induction steps generalizing run with
  | nil => exact carried
  | cons next steps ih => exact ih (carried.step next)

end HistoryRun

/-- What rounds of compaction promise for the history that they end with. -/
structure CompactionLaw (texts : JsonTexts) (run : HistoryRun) : Prop where
  gateTexts : ∀ text, text ∈ (collectGateResults texts run.current).filterMap texts.ofValue ↔
    text ∈ (collectGateResults texts run.full).filterMap texts.ofValue
  toolTexts : ∀ text, text ∈ (collectToolOutcomes texts run.current).filterMap texts.ofValue ↔
    text ∈ (collectToolOutcomes texts run.full).filterMap texts.ofValue
  gateResults : texts.Faithful → ∀ value,
    value ∈ collectGateResults texts run.current ↔ value ∈ collectGateResults texts run.full
  toolOutcomes : texts.Faithful → ∀ value,
    value ∈ collectToolOutcomes texts run.current ↔ value ∈ collectToolOutcomes texts run.full
  anchors : (run.full.filter (HistoryRun.keeps run.policies)).Sublist run.current
  recent : ∀ policy summarizer,
    run.current.drop (run.current.length - policy.preserveLastNTurns) <:+
      compactHistory texts run.current policy summarizer

theorem compaction_lawful (texts : JsonTexts) (messages : List ChatMessage)
    (steps : List HistoryStep) :
    CompactionLaw texts (steps.foldl (HistoryRun.step texts) (HistoryRun.start messages)) := by
  have carried := (HistoryRun.Carried.start texts messages).foldl steps
  have gates (text : String) := mem_texts_collect.trans
    ((carried.gateResults text).trans mem_texts_collect.symm)
  have outcomes (text : String) := mem_texts_collect.trans
    ((carried.toolOutcomes text).trans mem_texts_collect.symm)
  exact {
    gateTexts := gates
    toolTexts := outcomes
    gateResults faithful value :=
      ⟨fun member => collect_subset faithful (fun text => (gates text).mp) member,
        fun member => collect_subset faithful (fun text => (gates text).mpr) member⟩
    toolOutcomes faithful value :=
      ⟨fun member => collect_subset faithful (fun text => (outcomes text).mp) member,
        fun member => collect_subset faithful (fun text => (outcomes text).mpr) member⟩
    anchors := carried.anchors
    recent := recent_suffix texts _ }

end HistoryCompaction

end Roko
