import Roko.GuardedRuns
import Roko.JsonLengths
import Mathlib.Algebra.Order.BigOperators.Group.List

/-!
# Pruning the conversation of the tool loop

The model of `tool_loop/prune.rs` and `tool_loop/compaction.rs` of `roko-agent`.  Pruning
drops single messages behind the first two until the conversation is small enough, with no
regard to which of them belong together: an assistant message may go while a result that
answers its call stays.  Compaction shortens old results and leaves every message in place.
-/

namespace Roko

namespace ToolLoop

open JsonValue

def headKeep : Nat := 2

def tailKeep : Nat := 3

def recentToolGroupsToKeep : Nat := 2

def toolResultCompactionThresholdChars : Nat := 500

def toolResultPreviewChars : Nat := 200

section Pruning

variable (numberLength : JsonNumber → Nat)

def estimateMessageTokens (messages : List JsonValue) : Nat :=
  (messages.map (textLength numberLength)).sum / 4

def pruneLoop (tokenLimit : Nat) (messages : List JsonValue) : List JsonValue :=
  if _large : tokenLimit < estimateMessageTokens numberLength messages ∧
      headKeep + tailKeep < messages.length then
    pruneLoop tokenLimit (messages.eraseIdx headKeep)
  else messages
termination_by messages.length
decreasing_by
  have inside : headKeep < messages.length := by
    have := _large.2
    omega
  rw [List.length_eraseIdx_of_lt inside]
  omega

def pruneIfNeeded (messages : List JsonValue) (tokenLimit : Nat) : List JsonValue :=
  let minLen := headKeep + tailKeep
  if messages.length ≤ minLen then messages else pruneLoop numberLength tokenLimit messages

end Pruning

def isToolMessage (message : JsonValue) : Bool :=
  (message.get "role").bind asStr = some "tool"

def truncateChars (content : String) (limit : Nat) : String :=
  String.ofList (content.toList.take limit)

def compactedContent (content : String) : String :=
  truncateChars content toolResultPreviewChars ++ "... [truncated, " ++
    toString content.toList.length ++ " chars total]"

def compactToolMessage (message : JsonValue) : JsonValue :=
  match (message.get "content").bind asStr with
  | none => message
  | some content =>
      if content.toList.length ≤ toolResultCompactionThresholdChars then message
      else
        match message with
        | .object members =>
            .object (insertMember "content" (.string (compactedContent content)) members)
        | other => other

/-- One round of the loop of `tool_result_groups`: the groups so far, and where the group
begins that is not over yet. -/
def groupStep (state : List (Nat × Nat) × Option Nat) (entry : JsonValue × Nat) :
    List (Nat × Nat) × Option Nat :=
  if isToolMessage entry.1 then (state.1, some (state.2.getD entry.2))
  else
    match state.2 with
    | some start => (state.1 ++ [(start, entry.2)], none)
    | none => state

def toolResultGroups (messages : List JsonValue) : List (Nat × Nat) :=
  let state := messages.zipIdx.foldl groupStep ([], none)
  match state.2 with
  | some start => state.1 ++ [(start, messages.length)]
  | none => state.1

def compactRange (messages : List JsonValue) (range : Nat × Nat) : List JsonValue :=
  messages.mapIdx fun index message =>
    if range.1 ≤ index ∧ index < range.2 then compactToolMessage message else message

def compactToolResults (messages : List JsonValue) : List JsonValue :=
  let groups := toolResultGroups messages
  let compactUntil := groups.length - recentToolGroupsToKeep
  (groups.take compactUntil).foldl compactRange messages

/-- The ids of the calls that an assistant message makes. -/
def announcedIds (message : JsonValue) : List String :=
  if (message.get "role").bind asStr = some "assistant" then
    (((message.get "tool_calls").bind asArray).getD []).filterMap fun call =>
      (call.get "id").bind asStr
  else []

/-- The id of the call that a tool message answers. -/
def answeredId (message : JsonValue) : Option String :=
  if isToolMessage message then (message.get "tool_call_id").bind asStr else none

/-- Every result comes after its call, and every call has a result. -/
structure Paired (messages : List JsonValue) : Prop where
  announced : ∀ before message after, messages = before ++ message :: after →
    isToolMessage message = true →
      ∃ call ∈ before, ∃ id ∈ announcedIds call, answeredId message = some id
  answered : ∀ before call after, messages = before ++ call :: after →
    ∀ id ∈ announcedIds call, ∃ result ∈ after, answeredId result = some id

/-- The results come right after the message with their calls. -/
structure PairedAtOnce (messages : List JsonValue) : Prop where
  announced : ∀ before message after, messages = before ++ message :: after →
    isToolMessage message = true →
      ∃ call ∈ before, ∃ id ∈ announcedIds call, answeredId message = some id
  answered : ∀ before call after, messages = before ++ call :: after →
    ∀ id ∈ announcedIds call, ∃ result ∈ after.takeWhile isToolMessage,
      answeredId result = some id

theorem PairedAtOnce.paired {messages : List JsonValue} (paired : PairedAtOnce messages) :
    Paired messages where
  announced := paired.announced
  answered before call after split id member := by
    obtain ⟨result, found, answers⟩ := paired.answered before call after split id member
    exact ⟨result, (List.takeWhile_sublist _).subset found, answers⟩

section Removal

variable (numberLength : JsonNumber → Nat) {messages : List JsonValue} {tokenLimit : Nat}

/-- A message behind the head and before the tail, such that the conversation is too large
even without the messages between the head and it. -/
def TooOld (tokenLimit : Nat) (messages : List JsonValue) (position : Nat) : Prop :=
  headKeep ≤ position ∧ position + tailKeep < messages.length ∧
    tokenLimit < estimateMessageTokens numberLength
      (messages.take headKeep ++ messages.drop position)

variable {numberLength}

theorem estimateMessageTokens_le {first second : List JsonValue} (fewer : first.Sublist second) :
    estimateMessageTokens numberLength first ≤ estimateMessageTokens numberLength second :=
  Nat.div_le_div_right ((fewer.map _).sum_le_sum fun _ _ => Nat.zero_le _)

theorem eraseIdx_head (removed : Nat) (long : headKeep + removed < messages.length) :
    (messages.take headKeep ++ messages.drop (headKeep + removed)).eraseIdx headKeep =
      messages.take headKeep ++ messages.drop (headKeep + (removed + 1)) := by
  have head : (messages.take headKeep).length = headKeep := by
    rw [List.length_take]
    omega
  rw [List.eraseIdx_append_of_length_le (by omega), head, Nat.sub_self, List.eraseIdx_zero,
    List.tail_drop, Nat.add_assoc]

theorem length_left (messages : List JsonValue) (removed : Nat) :
    (messages.take headKeep ++ messages.drop (headKeep + removed)).length =
      min headKeep messages.length + (messages.length - (headKeep + removed)) := by
  rw [List.length_append, List.length_take, List.length_drop]

/-- The loop goes on from the messages that are left after a number of rounds. -/
theorem exists_pruneLoop (numberLength : JsonNumber → Nat) (tokenLimit removed : Nat) (messages : List JsonValue) :
    ∃ stop, removed ≤ stop ∧
      pruneLoop numberLength tokenLimit
          (messages.take headKeep ++ messages.drop (headKeep + removed)) =
        messages.take headKeep ++ messages.drop (headKeep + stop) ∧
      (∀ position, headKeep + removed ≤ position → position < headKeep + stop →
        TooOld numberLength tokenLimit messages position) ∧
      ¬ TooOld numberLength tokenLimit messages (headKeep + stop) := by
  generalize rounds : messages.length - removed = count
  induction count using Nat.strong_induction_on generalizing removed with
  | _ count ih =>
      have left := length_left messages removed
      rw [pruneLoop]
      split
      case isTrue large =>
        have inside : headKeep + removed + tailKeep < messages.length := by
          have := large.2
          omega
        obtain ⟨stop, later, result, old, new⟩ :=
          ih (messages.length - (removed + 1)) (by omega) (removed + 1) rfl
        rw [eraseIdx_head removed (by omega)]
        refine ⟨stop, by omega, result, fun position start before => ?_, new⟩
        rcases Nat.eq_or_lt_of_le start with rfl | start
        · exact ⟨Nat.le_add_right _ _, inside, large.1⟩
        · exact old position start before
      case isFalse small =>
        refine ⟨removed, Nat.le_refl _, rfl, fun position start before => by omega, ?_⟩
        rintro ⟨_, inside, large⟩
        refine small ⟨large, ?_⟩
        simp only [headKeep, tailKeep] at *
        omega

theorem TooOld.of_le {position earlier : Nat}
    (old : TooOld numberLength tokenLimit messages position) (behind : headKeep ≤ earlier)
    (le : earlier ≤ position) : TooOld numberLength tokenLimit messages earlier := by
  refine ⟨behind, by have := old.2.1; omega, old.2.2.trans_le (estimateMessageTokens_le ?_)⟩
  exact (List.Sublist.refl _).append (List.drop_sublist_drop_left messages le)

/-- Pruning takes out the messages that are too old. -/
theorem exists_pruneIfNeeded (numberLength : JsonNumber → Nat) (tokenLimit : Nat) (messages : List JsonValue) :
    ∃ removed, pruneIfNeeded numberLength messages tokenLimit =
        messages.take headKeep ++ messages.drop (headKeep + removed) ∧
      ∀ position, TooOld numberLength tokenLimit messages position ↔
        headKeep ≤ position ∧ position < headKeep + removed := by
  rw [pruneIfNeeded]
  split
  case isTrue short =>
    refine ⟨0, by simp, fun position => ⟨fun old => ?_, fun range => by omega⟩⟩
    have behind := old.1
    have inside := old.2.1
    omega
  case isFalse long =>
    obtain ⟨stop, _, result, old, new⟩ :=
      exists_pruneLoop numberLength tokenLimit 0 messages
    refine ⟨stop, ?_, fun position => ⟨fun isOld => ⟨isOld.1, ?_⟩, fun range => ?_⟩⟩
    · rw [← result, Nat.add_zero, List.take_append_drop]
    · by_contra later
      exact new (isOld.of_le (Nat.le_add_right _ _) (Nat.le_of_not_lt later))
    · exact old position range.1 range.2

end Removal

/-- An item of two lists stands in the second or in the first. -/
theorem split_cases {Item : Type} {first second before after : List Item} {item : Item}
    (split : first ++ second = before ++ item :: after) :
    (∃ gap, before = first ++ gap ∧ second = gap ++ item :: after) ∨
      ∃ gap, first = before ++ item :: gap ∧ after = gap ++ second := by
  rcases List.append_eq_append_iff.mp split with ⟨gap, whole, rest⟩ | ⟨gap, whole, rest⟩
  · exact Or.inl ⟨gap, whole, rest⟩
  · cases gap with
    | nil => exact Or.inl ⟨[], by simpa using whole.symm, by simpa using rest.symm⟩
    | cons other gap =>
        rw [List.cons_append, List.cons.injEq] at rest
        exact Or.inr ⟨gap, by rw [whole, rest.1], rest.2⟩

/-- No message between a head and a rest is missed when it is taken out. -/
structure NoneMissed (head removed rest : List JsonValue) : Prop where
  /-- Where a result in the rest answers a call that is taken out, a message before it that
  stays announces the id too. -/
  calls : ∀ call ∈ removed, ∀ id ∈ announcedIds call,
    ∀ before result after, rest = before ++ result :: after → answeredId result = some id →
      ∃ other ∈ head ++ before, id ∈ announcedIds other
  /-- Where a result that is taken out answers a call of the head, a message after the call
  that stays answers it too. -/
  results : ∀ result ∈ removed, ∀ id, answeredId result = some id →
    ∀ before call after, head = before ++ call :: after → id ∈ announcedIds call →
      ∃ other ∈ after ++ rest, answeredId other = some id

section Missed

variable {head removed rest : List JsonValue}

theorem isToolMessage_of_answeredId {message : JsonValue} {id : String}
    (answers : answeredId message = some id) : isToolMessage message = true := by
  by_contra other
  rw [answeredId, if_neg other] at answers
  cases answers

theorem Paired.of_noneMissed (paired : Paired (head ++ (removed ++ rest)))
    (noneMissed : NoneMissed head removed rest) : Paired (head ++ rest) where
  announced before message after split isTool := by
    rcases split_cases split with ⟨gap, rfl, rfl⟩ | ⟨gap, rfl, rfl⟩
    · obtain ⟨call, inside, id, announces, answers⟩ :=
        paired.announced (head ++ (removed ++ gap)) message after (by simp) isTool
      rw [List.mem_append, List.mem_append] at inside
      rcases inside with inside | inside | inside
      · exact ⟨call, List.mem_append_left _ inside, id, announces, answers⟩
      · obtain ⟨other, stays, announces'⟩ :=
          noneMissed.calls call inside id announces gap message after rfl answers
        exact ⟨other, stays, id, announces', answers⟩
      · exact ⟨call, List.mem_append_right _ inside, id, announces, answers⟩
    · exact paired.announced before message (gap ++ (removed ++ rest)) (by simp) isTool
  answered before call after split id announces := by
    rcases split_cases split with ⟨gap, rfl, rfl⟩ | ⟨gap, rfl, rfl⟩
    · exact paired.answered (head ++ (removed ++ gap)) call after (by simp) id announces
    · obtain ⟨result, inside, answers⟩ :=
        paired.answered before call (gap ++ (removed ++ rest)) (by simp) id announces
      rw [List.mem_append, List.mem_append] at inside
      rcases inside with inside | inside | inside
      · exact ⟨result, List.mem_append_left _ inside, answers⟩
      · exact noneMissed.results result inside id answers before call gap rfl announces
      · exact ⟨result, List.mem_append_right _ inside, answers⟩

theorem Paired.noneMissed (paired : Paired (head ++ rest)) (removed : List JsonValue) :
    NoneMissed head removed rest where
  calls _ _ id _ before result after split answers := by
    subst split
    obtain ⟨other, stays, id', announces, answers'⟩ :=
      paired.announced (head ++ before) result after (by simp) (isToolMessage_of_answeredId answers)
    rw [answers, Option.some.injEq] at answers'
    exact ⟨other, stays, answers' ▸ announces⟩
  results _ _ id _ before call after split announces := by
    subst split
    exact paired.answered before call (after ++ rest) (by simp) id announces

/-! Where each id is used for one call and one result, no message is missed if and only if
the cuts do not lead through the results of a call. -/

/-- No id is announced by two messages, or answered by two. -/
structure UsedOnce (messages : List JsonValue) : Prop where
  announced : messages.Pairwise fun first second =>
    ∀ id ∈ announcedIds first, id ∉ announcedIds second
  answered : messages.Pairwise fun first second =>
    ∀ id, answeredId first = some id → answeredId second ≠ some id

def beginsWithResult (messages : List JsonValue) : Bool :=
  messages.head?.any isToolMessage

theorem mem_of_mem_takeWhile {first second : List JsonValue} {message : JsonValue}
    (other : beginsWithResult second = false)
    (member : message ∈ (first ++ second).takeWhile isToolMessage) : message ∈ first := by
  induction first with
  | nil =>
      cases second with
      | nil => cases member
      | cons next second =>
          have isOther : isToolMessage next = false := other
          rw [List.nil_append, List.takeWhile_cons, isOther] at member
          cases member
  | cons next first ih =>
      rw [List.cons_append, List.takeWhile_cons] at member
      split at member
      · rcases List.mem_cons.mp member with rfl | member
        · exact List.mem_cons_self
        · exact List.mem_cons_of_mem _ (ih member)
      · cases member

theorem UsedOnce.noneMissed (once : UsedOnce (head ++ (removed ++ rest)))
    (paired : PairedAtOnce (head ++ (removed ++ rest)))
    (noResult : beginsWithResult removed = false) (noResult' : beginsWithResult rest = false) :
    NoneMissed head removed rest where
  calls call inside id announces before result after split answers := by
    exfalso
    obtain ⟨front, back, rfl⟩ := List.append_of_mem inside
    obtain ⟨result', run, answers'⟩ :=
      paired.answered (head ++ front) call (back ++ rest) (by simp) id announces
    have early := mem_of_mem_takeWhile noResult' run
    have apart := (List.pairwise_append.mp (List.pairwise_append.mp once.answered).2.1).2.2
    exact apart result' (by simp [early]) result (by simp [split]) id answers' answers
  results result inside id answers before call after split announces := by
    exfalso
    subst split
    have cut : beginsWithResult (removed ++ rest) = false := by
      cases removed with
      | nil => cases inside
      | cons first removed => exact noResult
    obtain ⟨result', run, answers'⟩ :=
      paired.answered before call (after ++ (removed ++ rest)) (by simp) id announces
    have early := mem_of_mem_takeWhile cut run
    exact (List.pairwise_append.mp once.answered).2.2 result' (by simp [early]) result
      (by simp [inside]) id answers' answers

theorem NoneMissed.not_beginsWithResult (noneMissed : NoneMissed head removed rest)
    (once : UsedOnce (head ++ (removed ++ rest)))
    (paired : PairedAtOnce (head ++ (removed ++ rest))) (some : removed ≠ []) :
    beginsWithResult removed = false ∧ beginsWithResult rest = false := by
  obtain ⟨_, behind, headApart⟩ := List.pairwise_append.mp once.answered
  obtain ⟨_, _, restApart⟩ := List.pairwise_append.mp behind
  have noResult : beginsWithResult removed = false := by
    obtain ⟨first, others, rfl⟩ := List.exists_cons_of_ne_nil some
    by_contra isResult
    obtain ⟨call, inside, id, announces, answers⟩ := paired.announced head first (others ++ rest)
      (by simp) (Bool.of_not_eq_false isResult)
    obtain ⟨front, back, rfl⟩ := List.append_of_mem inside
    obtain ⟨other, stays, answers'⟩ :=
      noneMissed.results first (by simp) id answers front call back rfl announces
    rcases List.mem_append.mp stays with stays | stays
    · exact headApart other (by simp [stays]) first (by simp) id answers' answers
    · exact restApart first (by simp) other stays id answers answers'
  refine ⟨noResult, ?_⟩
  cases rest with
  | nil => rfl
  | cons first rest =>
      by_contra isResult
      obtain ⟨call, inside, id, announces, answers⟩ := paired.announced (head ++ removed) first rest
        (by simp) (Bool.of_not_eq_false isResult)
      rcases List.mem_append.mp inside with inside | inside
      · obtain ⟨front, back, rfl⟩ := List.append_of_mem inside
        have cut : beginsWithResult (removed ++ first :: rest) = false := by
          obtain ⟨next, others, rfl⟩ := List.exists_cons_of_ne_nil some
          exact noResult
        obtain ⟨result, run, answers'⟩ := paired.answered front call
          (back ++ (removed ++ first :: rest)) (by simp) id announces
        have early := mem_of_mem_takeWhile cut run
        exact headApart result (by simp [early]) first (by simp) id answers' answers
      · obtain ⟨other, stays, announces'⟩ :=
          noneMissed.calls call inside id announces [] first rest rfl answers
        rw [List.append_nil] at stays
        exact (List.pairwise_append.mp once.announced).2.2 other stays call (by simp [inside]) id
          announces' announces

theorem noneMissed_iff (once : UsedOnce (head ++ (removed ++ rest)))
    (paired : PairedAtOnce (head ++ (removed ++ rest))) :
    NoneMissed head removed rest ↔
      removed = [] ∨ beginsWithResult removed = false ∧ beginsWithResult rest = false := by
  constructor
  · intro noneMissed
    by_cases none : removed = []
    · exact Or.inl none
    · exact Or.inr (noneMissed.not_beginsWithResult once paired none)
  · rintro (rfl | ⟨noResult, noResult'⟩)
    · exact ⟨by simp, by simp⟩
    · exact once.noneMissed paired noResult noResult'

end Missed

end ToolLoop

end Roko
