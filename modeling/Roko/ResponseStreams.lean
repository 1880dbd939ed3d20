import Roko.JsonValue
import Roko.TextLines
import Mathlib.Data.List.Induction

/-!
# Streamed responses

The model of `StreamAccumulator` in `roko-agent/src/streaming.rs` and of the loop of
`openai_compat_backend.rs` that reads a response body piece by piece.  The parsers of a line and
of JSON are arguments.
-/

namespace Roko

inductive FinishReason where
  | stop | length | toolCalls | contentFilter
  | error (reason : String)
deriving DecidableEq

/-- Incremental function-call data for one tool call slot. -/
structure ToolCallDelta where
  index : Nat
  idDelta : Option String
  nameDelta : Option String
  argumentsDelta : String

/-- Incremental stream events. -/
inductive StreamChunk (Usage : Type) where
  | reasoningDelta (delta : String)
  | contentDelta (delta : String)
  | toolCallDelta (delta : ToolCallDelta)
  | usage (usage : Usage)
  | done (reason : FinishReason)
  | error (message : String)
  | toolProgress (tool status : String)

structure PartialToolCall where
  id : String
  name : String
  arguments : String

def PartialToolCall.default : PartialToolCall :=
  ⟨"", "", ""⟩

def PartialToolCall.extend (call : PartialToolCall) (delta : ToolCallDelta) : PartialToolCall :=
  ⟨delta.idDelta.getD call.id, delta.nameDelta.getD call.name,
    call.arguments ++ delta.argumentsDelta⟩

/-- Incrementally reconstruct a response from stream chunks. -/
structure StreamAccumulator (Usage : Type) where
  reasoning : String := ""
  content : String := ""
  toolCalls : List PartialToolCall := []
  usage : Usage
  finishReason : FinishReason := .stop

/-- A call with its parsed arguments. -/
structure StreamedToolCall where
  id : String
  name : String
  arguments : JsonValue

/-- The fields of `ChatResponse` that are not left at their defaults. -/
structure StreamedResponse (Usage : Type) where
  content : String
  reasoning : Option String
  toolCalls : List StreamedToolCall
  usage : Usage
  finishReason : FinishReason

namespace StreamAccumulator

variable {Usage : Type}

/-- Incorporate one streamed chunk into the in-progress response. -/
def push (accumulator : StreamAccumulator Usage) : StreamChunk Usage → StreamAccumulator Usage
  | .reasoningDelta delta => { accumulator with reasoning := accumulator.reasoning ++ delta }
  | .contentDelta delta => { accumulator with content := accumulator.content ++ delta }
  | .toolCallDelta delta =>
      let calls := accumulator.toolCalls ++
        List.replicate (delta.index + 1 - accumulator.toolCalls.length) .default
      { accumulator with toolCalls := calls.modify delta.index (·.extend delta) }
  | .usage usage => { accumulator with usage }
  | .done reason =>
      if reason = .stop ∧ accumulator.finishReason ≠ .stop then accumulator
      else { accumulator with finishReason := reason }
  | .error _ => accumulator
  | .toolProgress _ _ => accumulator

/-- Convert the accumulated stream state into a response. -/
def finalize (fromStr : String → Option JsonValue) (accumulator : StreamAccumulator Usage) :
    StreamedResponse Usage where
  content := accumulator.content
  reasoning := if accumulator.reasoning.isEmpty then none else some accumulator.reasoning
  toolCalls :=
    (accumulator.toolCalls.filter fun call =>
      !(call.id.isEmpty && call.name.isEmpty && TextLines.isBlank call.arguments)).map fun call =>
        ⟨call.id, call.name,
          if TextLines.isBlank call.arguments then .object []
          else (fromStr call.arguments).getD (.string call.arguments)⟩
  usage := accumulator.usage
  finishReason := accumulator.finishReason

/-- The deltas of tool calls. -/
def deltas (chunks : List (StreamChunk Usage)) : List ToolCallDelta :=
  chunks.filterMap fun
    | .toolCallDelta delta => some delta
    | _ => none

/-- The call that the deltas of one slot add up to. -/
def slotCall (deltas : List ToolCallDelta) (index : Nat) : PartialToolCall :=
  (deltas.filter (·.index = index)).foldl PartialToolCall.extend .default

def slots (deltas : List ToolCallDelta) : Nat :=
  deltas.foldl (fun slots delta => max slots (delta.index + 1)) 0

theorem slotCall_concat (deltas : List ToolCallDelta) (delta : ToolCallDelta) (index : Nat) :
    slotCall (deltas ++ [delta]) index =
      if delta.index = index then (slotCall deltas index).extend delta
      else slotCall deltas index := by
  by_cases same : delta.index = index <;> simp [slotCall, List.filter_append, same]

theorem slots_concat (deltas : List ToolCallDelta) (delta : ToolCallDelta) :
    slots (deltas ++ [delta]) = max (slots deltas) (delta.index + 1) := by
  simp [slots]

theorem slotCall_of_slots_le {deltas : List ToolCallDelta} {index : Nat}
    (above : slots deltas ≤ index) : slotCall deltas index = .default := by
  induction deltas using List.reverseRecOn with
  | nil => rfl
  | append_singleton deltas delta ih =>
      rw [slots_concat] at above
      rw [slotCall_concat, if_neg (by omega)]
      exact ih ((Nat.le_max_left _ _).trans above)

/-- A delta adds to the call of its slot and opens the slots up to it. -/
theorem modify_slots (deltas : List ToolCallDelta) (delta : ToolCallDelta) :
    ((List.range (slots deltas)).map (slotCall deltas) ++
      List.replicate (delta.index + 1 - slots deltas) PartialToolCall.default).modify delta.index
        (·.extend delta) =
      (List.range (slots (deltas ++ [delta]))).map (slotCall (deltas ++ [delta])) := by
  refine List.ext_getElem? fun index => ?_
  rw [List.getElem?_modify, slots_concat, List.getElem?_map]
  by_cases opened : index < max (slots deltas) (delta.index + 1)
  · have padded : ((List.range (slots deltas)).map (slotCall deltas) ++
        List.replicate (delta.index + 1 - slots deltas) PartialToolCall.default)[index]? =
          some (slotCall deltas index) := by
      by_cases old : index < slots deltas
      · rw [List.getElem?_append_left (by simpa using old)]
        simp [old]
      · rw [List.getElem?_append_right (by simpa using old), List.length_map, List.length_range,
          slotCall_of_slots_le (Nat.le_of_not_lt old), List.getElem?_replicate,
          if_pos (by omega)]
    rw [padded, List.getElem?_range opened, Option.map_some, slotCall_concat]
    rfl
  · rw [List.getElem?_eq_none (by simp; omega), List.getElem?_eq_none (by simp; omega)]
    rfl

/-- What a stream adds up to.  Each part of it depends on the chunks of its own kind alone, and
each tool call on those of its own slot, however the others come in between. -/
theorem foldl_push (usage : Usage) (chunks : List (StreamChunk Usage)) :
    chunks.foldl push { usage } =
      { reasoning := String.join (chunks.filterMap fun
          | .reasoningDelta delta => some delta
          | _ => none)
        content := String.join (chunks.filterMap fun
          | .contentDelta delta => some delta
          | _ => none)
        toolCalls := (List.range (slots (deltas chunks))).map (slotCall (deltas chunks))
        usage := (chunks.filterMap fun
          | .usage usage => some usage
          | _ => none).getLast?.getD usage
        finishReason := (chunks.filterMap fun
          | .done reason => if reason = .stop then none else some reason
          | _ => none).getLast?.getD .stop } := by
  induction chunks using List.reverseRecOn with
  | nil => rfl
  | append_singleton chunks chunk ih =>
      rw [List.foldl_append, List.foldl_cons, List.foldl_nil, ih]
      cases chunk with
      | reasoningDelta delta => simp [push, deltas]
      | contentDelta delta => simp [push, deltas]
      | toolCallDelta delta =>
          have opened := modify_slots (deltas chunks) delta
          simp only [deltas] at opened
          simp [push, deltas, opened]
      | usage usage => simp [push, deltas]
      | done reason =>
          by_cases stop : reason = .stop
          · simp only [push, stop, true_and, ne_eq]
            split <;> simp_all [deltas]
          · simp [push, deltas, stop]
      | error message => simp [push, deltas]
      | toolProgress tool status => simp [push, deltas]

end StreamAccumulator

/-- The loop that drains the complete lines of the pending bytes, and what it leaves. -/
def drainLines (pending : List UInt8) : List (List UInt8) × List UInt8 :=
  match _found : pending.idxOf? TextLines.newline with
  | none => ([], pending)
  | some index =>
      let rest := drainLines (pending.drop (index + 1))
      (pending.take (index + 1) :: rest.1, rest.2)
termination_by pending.length
decreasing_by
  obtain ⟨inside, -, -⟩ := List.idxOf?_eq_some_iff.mp _found
  rw [List.length_drop]
  omega

/-- The lines that are pushed while the pieces of a body come in, and the pending bytes. -/
def receive : List UInt8 → List (List UInt8) → List (List UInt8) × List UInt8
  | pending, [] => ([], pending)
  | pending, piece :: pieces =>
      let drained := drainLines (pending ++ piece)
      let rest := receive drained.2 pieces
      (drained.1 ++ rest.1, rest.2)

/-- The response of a body that comes in pieces, or the raw body when no line was an event. -/
def streamResponse {Usage : Type} (parseSseLine : List UInt8 → Option (StreamChunk Usage))
    (fromStr : String → Option JsonValue) (usage : Usage) (pieces : List (List UInt8)) :
    StreamedResponse Usage ⊕ List UInt8 :=
  let received := receive [] pieces
  let lines := if received.2.isEmpty then received.1 else received.1 ++ [received.2]
  let chunks := lines.filterMap parseSseLine
  if chunks.isEmpty then .inr pieces.flatten
  else .inl ((chunks.foldl StreamAccumulator.push { usage }).finalize fromStr)

/-- A drained line is a line of the body, whatever comes after it. -/
theorem split_drainLines (pending rest : List UInt8) :
    TextLines.split (pending ++ rest) =
      (drainLines pending).1 ++ TextLines.split ((drainLines pending).2 ++ rest) := by
  fun_induction drainLines pending with
  | case1 pending found => rfl
  | case2 pending index found drained ih =>
      obtain ⟨inside, newline, before⟩ := List.idxOf?_eq_some_iff.mp found
      have inner : TextLines.newline ∉ pending.take index := by
        rw [List.mem_take_iff_getElem]
        rintro ⟨earlier, bound, equal⟩
        exact before earlier (by omega) equal
      have line : pending.take (index + 1) = pending.take index ++ [TextLines.newline] := by
        rw [List.take_add_one, List.getElem?_eq_getElem inside, newline]
        rfl
      conv => lhs; rw [← List.take_append_drop (index + 1) pending, line]
      rw [List.append_assoc, List.append_assoc, List.singleton_append,
        TextLines.split_terminated inner, ih, line]
      rfl

theorem newline_notMem_drainLines (pending : List UInt8) :
    TextLines.newline ∉ (drainLines pending).2 := by
  fun_induction drainLines pending with
  | case1 pending found => exact List.idxOf?_eq_none_iff.mp found
  | case2 pending index found drained ih => exact ih

theorem split_receive (pending : List UInt8) (pieces : List (List UInt8)) :
    TextLines.split (pending ++ pieces.flatten) =
      (receive pending pieces).1 ++ TextLines.split (receive pending pieces).2 := by
  induction pieces generalizing pending with
  | nil => simp [receive]
  | cons piece pieces ih =>
      rw [List.flatten_cons, ← List.append_assoc, split_drainLines, ih, receive, List.append_assoc]

theorem newline_notMem_receive {pending : List UInt8} (clear : TextLines.newline ∉ pending)
    (pieces : List (List UInt8)) : TextLines.newline ∉ (receive pending pieces).2 := by
  induction pieces generalizing pending with
  | nil => exact clear
  | cons piece pieces ih => exact ih (newline_notMem_drainLines _)

theorem split_unterminated {line : List UInt8} (inner : TextLines.newline ∉ line) :
    TextLines.split line = if line.isEmpty then [] else [line] := by
  induction line with
  | nil => rfl
  | cons byte line ih =>
      rw [List.mem_cons, not_or] at inner
      rw [TextLines.split, if_neg (Ne.symm inner.1), ih inner.2]
      cases line <;> rfl

/-- The response depends on the lines of the whole body only: how the body is cut into pieces,
within a line or within a character, makes no difference. -/
theorem streamResponse_eq {Usage : Type}
    (parseSseLine : List UInt8 → Option (StreamChunk Usage))
    (fromStr : String → Option JsonValue) (usage : Usage) (pieces : List (List UInt8)) :
    streamResponse parseSseLine fromStr usage pieces =
      let chunks := (TextLines.split pieces.flatten).filterMap parseSseLine
      if chunks.isEmpty then .inr pieces.flatten
      else .inl ((chunks.foldl StreamAccumulator.push { usage }).finalize fromStr) := by
  have lines := split_receive [] pieces
  rw [List.nil_append, split_unterminated (newline_notMem_receive List.not_mem_nil pieces)]
    at lines
  rw [streamResponse, lines]
  cases empty : (receive [] pieces).2.isEmpty <;> simp

end Roko
