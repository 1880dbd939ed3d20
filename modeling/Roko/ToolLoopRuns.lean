import Roko.ToolLoopPruning

/-!
# Runs of pruning and compaction

Compaction changes the contents of old results only, and none of the last messages, so it
leaves the pairs of calls and results as they are and makes no text longer.  A conversation
therefore stays paired through a run if and only if no pruning takes out a message that is
missed; the head, the tail and the bound on the size hold in every run.
-/

namespace Roko

namespace ToolLoop

open JsonValue

/-- A message after some rounds of compaction. -/
def Shortened (message shortened : JsonValue) : Prop :=
  ∃ rounds, shortened = compactToolMessage^[rounds] message

section Compaction

variable {message : JsonValue} {messages : List JsonValue}

theorem get_compactToolMessage {key : String} (other : "content" ≠ key) (message : JsonValue) :
    (compactToolMessage message).get key = message.get key := by
  rw [compactToolMessage]
  split
  · rfl
  · split
    · rfl
    · split
      · simp only [JsonValue.get, lookupMember_insertMember, if_neg other]
      · rfl

theorem isToolMessage_compact (message : JsonValue) :
    isToolMessage (compactToolMessage message) = isToolMessage message := by
  rw [isToolMessage, isToolMessage, get_compactToolMessage (by decide)]

theorem announcedIds_compact (message : JsonValue) :
    announcedIds (compactToolMessage message) = announcedIds message := by
  rw [announcedIds, announcedIds, get_compactToolMessage (by decide),
    get_compactToolMessage (by decide)]

theorem answeredId_compact (message : JsonValue) :
    answeredId (compactToolMessage message) = answeredId message := by
  rw [answeredId, answeredId, isToolMessage_compact, get_compactToolMessage (by decide)]

/-- What pairs a message with others. -/
def signature (message : JsonValue) : Bool × List String × Option String :=
  (isToolMessage message, announcedIds message, answeredId message)

theorem signature_compact (message : JsonValue) :
    signature (compactToolMessage message) = signature message := by
  rw [signature, signature, isToolMessage_compact, announcedIds_compact, answeredId_compact]

theorem Paired.of_signatures {others : List JsonValue} (paired : Paired messages)
    (same : others.map signature = messages.map signature) : Paired others where
  announced before message after split isTool := by
    rw [split, List.map_append, List.map_cons, eq_comm, List.map_eq_append_iff] at same
    obtain ⟨before', rest, rfl, front, back⟩ := same
    obtain ⟨message', after', rfl, here, _⟩ := List.map_eq_cons_iff.mp back
    obtain ⟨call', inside, id, announces, answers⟩ :=
      paired.announced before' message' after' rfl ((congrArg Prod.fst here).trans isTool)
    obtain ⟨call, inside', same⟩ := List.mem_map.mp (front ▸ List.mem_map_of_mem inside)
    refine ⟨call, inside', id, ?_, ?_⟩
    · rwa [show announcedIds call = announcedIds call' from congrArg (·.2.1) same]
    · rwa [← show answeredId message' = answeredId message from congrArg (·.2.2) here]
  answered before call after split id announces := by
    rw [split, List.map_append, List.map_cons, eq_comm, List.map_eq_append_iff] at same
    obtain ⟨before', rest, rfl, _, back⟩ := same
    obtain ⟨call', after', rfl, here, behind⟩ := List.map_eq_cons_iff.mp back
    rw [← show announcedIds call' = announcedIds call from congrArg (·.2.1) here] at announces
    obtain ⟨result', inside, answers⟩ := paired.answered before' call' after' rfl id announces
    obtain ⟨result, inside', same⟩ := List.mem_map.mp (behind ▸ List.mem_map_of_mem inside)
    exact ⟨result, inside',
      (show answeredId result = answeredId result' from congrArg (·.2.2) same).trans answers⟩

theorem compactRange_signatures (messages : List JsonValue) (range : Nat × Nat) :
    (compactRange messages range).map signature = messages.map signature := by
  refine List.ext_getElem (by simp [compactRange]) fun index inside inside' => ?_
  rw [List.getElem_map, List.getElem_map]
  simp only [compactRange, List.getElem_mapIdx]
  split
  · exact signature_compact _
  · rfl

theorem compactToolResults_signatures (messages : List JsonValue) :
    (compactToolResults messages).map signature = messages.map signature := by
  rw [compactToolResults]
  generalize List.take _ _ = groups
  induction groups generalizing messages with
  | nil => rfl
  | cons group groups ih => rw [List.foldl_cons, ih, compactRange_signatures]

theorem Shortened.refl (message : JsonValue) : Shortened message message :=
  ⟨0, rfl⟩

theorem Shortened.trans {shortened shortest : JsonValue} (first : Shortened message shortened)
    (second : Shortened shortened shortest) : Shortened message shortest := by
  obtain ⟨rounds, rfl⟩ := first
  obtain ⟨rounds', rfl⟩ := second
  exact ⟨rounds' + rounds, (Function.iterate_add_apply _ _ _ _).symm⟩

theorem forall₂_shortened_trans {first second third : List JsonValue}
    (shorter : List.Forall₂ Shortened first second)
    (shorter' : List.Forall₂ Shortened second third) : List.Forall₂ Shortened first third := by
  induction shorter generalizing third with
  | nil => exact shorter'
  | cons head _ ih =>
      cases shorter' with
      | cons head' tail' => exact List.Forall₂.cons (head.trans head') (ih tail')

theorem compactRange_shortened (messages : List JsonValue) (range : Nat × Nat) :
    List.Forall₂ Shortened messages (compactRange messages range) := by
  refine List.forall₂_iff_get.mpr ⟨by simp [compactRange], fun index inside inside' => ?_⟩
  simp only [compactRange, List.get_eq_getElem, List.getElem_mapIdx]
  split
  · exact ⟨1, rfl⟩
  · exact Shortened.refl _

theorem compactToolResults_shortened (messages : List JsonValue) :
    List.Forall₂ Shortened messages (compactToolResults messages) := by
  rw [compactToolResults]
  generalize List.take _ _ = groups
  induction groups generalizing messages with
  | nil => exact List.forall₂_same.mpr fun message _ => Shortened.refl message
  | cons group groups ih => exact forall₂_shortened_trans (compactRange_shortened _ _) (ih _)

/-- The groups found among the first messages: they lie apart, and each has ended. -/
structure GroupsApart (state : List (Nat × Nat) × Option Nat) (count : Nat) : Prop where
  apart : state.1.Pairwise fun first second => first.2 < second.1
  ended : ∀ group ∈ state.1, group.1 < group.2 ∧ group.2 < count
  begun : ∀ start, state.2 = some start → start < count ∧ ∀ group ∈ state.1, group.2 < start

/-- A group that is open can end here. -/
theorem GroupsApart.closed {state : List (Nat × Nat) × Option Nat} {count start : Nat}
    (apart : GroupsApart state count) (opened : state.2 = some start) :
    (state.1 ++ [(start, count)]).Pairwise (fun first second => first.2 < second.1) ∧
      ∀ group ∈ state.1 ++ [(start, count)], group.1 < group.2 ∧ group.2 ≤ count := by
  obtain ⟨inside, later⟩ := apart.begun start opened
  refine ⟨List.pairwise_append.mpr ⟨apart.apart, List.pairwise_singleton _ _, ?_⟩,
    fun group member => ?_⟩
  · intro group member last isLast
    rw [List.mem_singleton.mp isLast]
    exact later group member
  · rcases List.mem_append.mp member with member | member
    · exact (apart.ended group member).imp_right Nat.le_of_lt
    · rw [List.mem_singleton.mp member]
      exact ⟨inside, Nat.le_refl _⟩

theorem GroupsApart.step {state : List (Nat × Nat) × Option Nat} {count : Nat}
    (apart : GroupsApart state count) (message : JsonValue) :
    GroupsApart (groupStep state (message, count)) (count + 1) := by
  rw [groupStep]
  split
  case isTrue =>
    refine ⟨apart.apart, fun group member => ?_, fun start isStart => ?_⟩
    · have ended := apart.ended group member
      omega
    · cases opened : state.2 with
      | none =>
          simp only [opened, Option.getD_none, Option.some.injEq] at isStart
          subst isStart
          exact ⟨Nat.lt_succ_self _, fun group member => (apart.ended group member).2⟩
      | some first =>
          simp only [opened, Option.getD_some, Option.some.injEq] at isStart
          subst isStart
          obtain ⟨inside, later⟩ := apart.begun first opened
          exact ⟨by omega, later⟩
  case isFalse =>
    cases opened : state.2 with
    | none =>
        refine ⟨apart.apart, fun group member => ?_, fun start isStart => ?_⟩
        · have ended := apart.ended group member
          omega
        · rw [opened] at isStart
          cases isStart
    | some first =>
        obtain ⟨ordered, ended⟩ := apart.closed opened
        refine ⟨ordered, fun group member => ?_, fun start isStart => by cases isStart⟩
        exact (ended group member).imp_right Nat.lt_succ_of_le

theorem GroupsApart.foldl {state : List (Nat × Nat) × Option Nat} {count : Nat}
    (apart : GroupsApart state count) (messages : List JsonValue) :
    GroupsApart ((messages.zipIdx count).foldl groupStep state) (count + messages.length) := by
  induction messages generalizing state count with
  | nil => exact apart
  | cons message messages ih =>
      rw [List.zipIdx_cons, List.foldl_cons, List.length_cons, Nat.add_comm messages.length,
        ← Nat.add_assoc]
      exact ih (apart.step message)

theorem toolResultGroups_apart (messages : List JsonValue) :
    (toolResultGroups messages).Pairwise (fun first second => first.2 < second.1) ∧
      ∀ group ∈ toolResultGroups messages, group.1 < group.2 ∧ group.2 ≤ messages.length := by
  have empty : GroupsApart ([], none) 0 := ⟨List.Pairwise.nil, by simp, by simp⟩
  have apart := empty.foldl messages
  rw [Nat.zero_add] at apart
  rw [toolResultGroups]
  generalize messages.zipIdx.foldl groupStep ([], none) = state at apart
  split
  case h_1 start opened => exact apart.closed opened
  case h_2 =>
    refine ⟨apart.apart, fun group member => ?_⟩
    have ended := apart.ended group member
    omega

/-- Two groups come after each one that is compacted, so four messages stand behind it. -/
theorem old_group_le {group : Nat × Nat}
    (old : group ∈ (toolResultGroups messages).take
      ((toolResultGroups messages).length - recentToolGroupsToKeep)) :
    group.2 + 4 ≤ messages.length := by
  obtain ⟨apart, ended⟩ := toolResultGroups_apart messages
  generalize toolResultGroups messages = groups at old apart ended
  have some : groups.length - recentToolGroupsToKeep ≠ 0 := by
    intro none
    rw [none, List.take_zero] at old
    cases old
  have two : (groups.drop (groups.length - recentToolGroupsToKeep)).length = 2 := by
    rw [List.length_drop]
    simp only [recentToolGroupsToKeep] at some ⊢
    omega
  obtain ⟨second, newest, recent⟩ := List.length_eq_two.mp two
  have later : ∀ other ∈ [second, newest], other ∈ groups := fun other member =>
    List.mem_of_mem_drop (recent ▸ member)
  have secondOver := ended second (later second (by simp))
  have newestOver := ended newest (later newest (by simp))
  rw [← List.take_append_drop (groups.length - recentToolGroupsToKeep) groups, recent,
    List.pairwise_append] at apart
  have before := apart.2.2 group old second (by simp)
  have between : second.2 < newest.1 := (List.pairwise_cons.mp apart.2.1).1 newest (by simp)
  omega

theorem drop_compactRange {range : Nat × Nat} {count : Nat} (behind : range.2 ≤ count) :
    (compactRange messages range).drop count = messages.drop count := by
  refine List.ext_getElem (by simp [compactRange]) fun index inside inside' => ?_
  simp only [compactRange, List.getElem_drop, List.getElem_mapIdx]
  exact if_neg fun within => by omega

theorem compactToolResults_tail (messages : List JsonValue) :
    (compactToolResults messages).drop (messages.length - tailKeep) =
      messages.drop (messages.length - tailKeep) := by
  have early : ∀ group ∈ (toolResultGroups messages).take
      ((toolResultGroups messages).length - recentToolGroupsToKeep),
        group.2 ≤ messages.length - tailKeep := by
    intro group old
    have four := old_group_le old
    simp only [tailKeep]
    omega
  rw [compactToolResults]
  generalize messages.length - tailKeep = count at early
  generalize List.take _ _ = groups at early
  induction groups generalizing messages with
  | nil => rfl
  | cons group groups ih =>
      rw [List.foldl_cons, ih _ fun later member => early later (List.mem_cons_of_mem _ member),
        drop_compactRange (early group List.mem_cons_self)]

end Compaction

section Sizes

variable {numberLength : JsonNumber → Nat} {message : JsonValue}

/-- The number of characters takes few digits beside those that are cut off. -/
theorem digits_le {count : Nat} (long : toolResultCompactionThresholdChars < count) :
    (Nat.toDigits 10 count).length + 29 ≤ count - toolResultPreviewChars := by
  simp only [toolResultCompactionThresholdChars, toolResultPreviewChars] at long ⊢
  have few : (Nat.toDigits 10 count).length ≤ count - 229 := by
    rw [Nat.length_toDigits_le_iff (by decide) (by omega)]
    obtain ⟨rest, rfl⟩ : ∃ rest, count = rest + 230 := ⟨count - 230, by omega⟩
    have power : rest < 10 ^ rest := Nat.lt_pow_self (by decide)
    have step : rest + 230 - 229 = rest + 1 := by omega
    rw [step, pow_succ]
    omega
  omega

theorem stringLength_compacted_le {content : String}
    (long : toolResultCompactionThresholdChars < content.toList.length) :
    stringLength (compactedContent content) ≤ stringLength content := by
  have front : ("... [truncated, ".toList.map charLength).sum = 16 := by decide +kernel
  have back : (" chars total]".toList.map charLength).sum = 13 := by decide +kernel
  have digits := digits_le long
  have cut := length_le_charLengths (content.toList.drop toolResultPreviewChars)
  have parts : (content.toList.map charLength).sum =
      ((content.toList.take toolResultPreviewChars).map charLength).sum +
        ((content.toList.drop toolResultPreviewChars).map charLength).sum := by
    rw [← List.sum_append, ← List.map_append, List.take_append_drop]
  rw [List.length_drop] at cut
  simp only [stringLength, compactedContent, truncateChars, String.toList_append,
    String.toList_ofList, List.map_append, List.sum_append, charLengths_toString, front, back,
    parts]
  omega

theorem ordered_compactToolMessage (ordered : message.Ordered) :
    (compactToolMessage message).Ordered := by
  rw [compactToolMessage]
  split
  · exact ordered
  · split
    · exact ordered
    · split
      · exact pairwise_insertMember ordered _ _
      · exact ordered

theorem textLength_compactToolMessage_le (ordered : message.Ordered) :
    textLength numberLength (compactToolMessage message) ≤ textLength numberLength message := by
  rw [compactToolMessage]
  split
  case h_1 => exact Nat.le_refl _
  case h_2 content found =>
    split
    case isTrue => exact Nat.le_refl _
    case isFalse long =>
      split
      case h_1 members =>
        obtain ⟨value, stored, isText⟩ := Option.bind_eq_some_iff.mp found
        cases value with
        | string text =>
            have same : text = content := by simpa [asStr] using isText
            subst same
            obtain ⟨length, count⟩ := membersLength_insertMember numberLength ordered stored
              (.string (compactedContent text))
            have shorter := stringLength_compacted_le (not_le.mp long)
            simp only [textLength, count] at length ⊢
            omega
        | _ => simp [asStr] at isText
      case h_2 => exact Nat.le_refl _

theorem Shortened.ordered {shortened : JsonValue} (numberLength : JsonNumber → Nat)
    (shorter : Shortened message shortened) (ordered : message.Ordered) : shortened.Ordered ∧
      textLength numberLength shortened ≤ textLength numberLength message := by
  obtain ⟨rounds, rfl⟩ := shorter
  induction rounds with
  | zero => exact ⟨ordered, Nat.le_refl _⟩
  | succ rounds ih =>
      rw [Function.iterate_succ_apply']
      exact ⟨ordered_compactToolMessage ih.1,
        (textLength_compactToolMessage_le ih.1).trans ih.2⟩

theorem textLengths_shortened (numberLength : JsonNumber → Nat)
    {messages shortened : List JsonValue} (shorter : List.Forall₂ Shortened messages shortened)
    (ordered : ∀ message ∈ messages, message.Ordered) :
    (∀ message ∈ shortened, message.Ordered) ∧
      (shortened.map (textLength numberLength)).sum ≤
        (messages.map (textLength numberLength)).sum := by
  induction shorter with
  | nil => exact ⟨ordered, Nat.le_refl _⟩
  | cons head _ ih =>
      rw [List.forall_mem_cons] at ordered
      obtain ⟨headOrdered, headLength⟩ := head.ordered numberLength ordered.1
      obtain ⟨tailOrdered, tailLength⟩ := ih ordered.2
      rw [List.forall_mem_cons, List.map_cons, List.map_cons, List.sum_cons, List.sum_cons]
      exact ⟨⟨headOrdered, tailOrdered⟩, Nat.add_le_add headLength tailLength⟩

end Sizes

inductive ConversationStep where
  | prune (tokenLimit : Nat)
  | compact

section Steps

variable (numberLength : JsonNumber → Nat)

def stepConversation (messages : List JsonValue) : ConversationStep → List JsonValue
  | .prune tokenLimit => pruneIfNeeded numberLength messages tokenLimit
  | .compact => compactToolResults messages

/-- None of the messages that are too old for a pruning is missed. -/
def KeepsPairs (messages : List JsonValue) : ConversationStep → Prop
  | .prune tokenLimit =>
      ∀ removed rest, messages.drop headKeep = removed ++ rest →
        (∀ position, TooOld numberLength tokenLimit messages position ↔
          headKeep ≤ position ∧ position < headKeep + removed.length) →
        NoneMissed (messages.take headKeep) removed rest
  | .compact => True

variable {numberLength} {messages : List JsonValue} {tokenLimit : Nat}

/-- Pruning keeps the head and the rest behind the messages that are too old. -/
theorem prune_cases (numberLength : JsonNumber → Nat) (tokenLimit : Nat)
    (messages : List JsonValue) :
    ∃ removed rest, messages.drop headKeep = removed ++ rest ∧
      (∀ position, TooOld numberLength tokenLimit messages position ↔
        headKeep ≤ position ∧ position < headKeep + removed.length) ∧
      pruneIfNeeded numberLength messages tokenLimit = messages.take headKeep ++ rest ∧
      (removed = [] ∨ tailKeep ≤ rest.length) := by
  obtain ⟨count, pruned, old⟩ := exists_pruneIfNeeded numberLength tokenLimit messages
  have inside : count = 0 ∨ headKeep + count + tailKeep ≤ messages.length := by
    rcases Nat.eq_zero_or_pos count with none | some
    · exact Or.inl none
    · have last := ((old (headKeep + (count - 1))).mpr ⟨by omega, by omega⟩).2.1
      exact Or.inr (by omega)
  have length : ((messages.drop headKeep).take count).length = count := by
    rw [List.length_take, List.length_drop]
    omega
  refine ⟨(messages.drop headKeep).take count, (messages.drop headKeep).drop count,
    (List.take_append_drop _ _).symm, by rwa [length], by rw [pruned, List.drop_drop], ?_⟩
  rcases inside with rfl | inside
  · exact Or.inl List.take_zero
  · refine Or.inr ?_
    rw [List.length_drop, List.length_drop]
    omega

/-- The messages that are too old are the same ones in every division. -/
theorem removed_unique {removed rest removed' rest' : List JsonValue}
    (split : messages.drop headKeep = removed ++ rest)
    (split' : messages.drop headKeep = removed' ++ rest')
    (old : ∀ position, TooOld numberLength tokenLimit messages position ↔
      headKeep ≤ position ∧ position < headKeep + removed.length)
    (old' : ∀ position, TooOld numberLength tokenLimit messages position ↔
      headKeep ≤ position ∧ position < headKeep + removed'.length) :
    removed = removed' ∧ rest = rest' := by
  have first := (old (headKeep + removed.length)).symm.trans (old' _)
  have second := (old (headKeep + removed'.length)).symm.trans (old' _)
  exact List.append_inj (split.symm.trans split') (by omega)

theorem prune_paired_iff (paired : Paired messages) :
    Paired (pruneIfNeeded numberLength messages tokenLimit) ↔
      KeepsPairs numberLength messages (.prune tokenLimit) := by
  obtain ⟨removed, rest, split, old, pruned, _⟩ := prune_cases numberLength tokenLimit messages
  have whole : Paired (messages.take headKeep ++ (removed ++ rest)) := by
    rwa [← split, List.take_append_drop]
  rw [pruned]
  constructor
  · intro paired' removed' rest' split' old'
    obtain ⟨rfl, rfl⟩ := removed_unique split split' old old'
    exact paired'.noneMissed removed
  · exact fun keeps => whole.of_noneMissed (keeps removed rest split old)

theorem prune_within (numberLength : JsonNumber → Nat) (tokenLimit : Nat)
    (messages : List JsonValue) :
    estimateMessageTokens numberLength (pruneIfNeeded numberLength messages tokenLimit) ≤
        tokenLimit ∨
      (pruneIfNeeded numberLength messages tokenLimit).length ≤ headKeep + tailKeep := by
  obtain ⟨count, pruned, old⟩ := exists_pruneIfNeeded numberLength tokenLimit messages
  have recent : ¬ TooOld numberLength tokenLimit messages (headKeep + count) := by
    rw [old]
    omega
  rw [pruned, length_left]
  by_contra large
  rw [not_or, not_le, not_le] at large
  refine recent ⟨Nat.le_add_right _ _, ?_, large.1⟩
  have long := large.2
  simp only [headKeep, tailKeep] at long ⊢
  omega

/-- What every step keeps of a conversation. -/
structure Kept (numberLength : JsonNumber → Nat) (messages others : List JsonValue) : Prop where
  head : List.Forall₂ Shortened (messages.take headKeep) (others.take headKeep)
  tail : others.drop (others.length - tailKeep) = messages.drop (messages.length - tailKeep)
  ordered : ∀ message ∈ others, message.Ordered
  tokens : estimateMessageTokens numberLength others ≤ estimateMessageTokens numberLength messages
  length : others.length ≤ messages.length

theorem prune_kept (ordered : ∀ message ∈ messages, message.Ordered) (tokenLimit : Nat) :
    Kept numberLength messages (pruneIfNeeded numberLength messages tokenLimit) := by
  obtain ⟨removed, rest, split, _, pruned, inside⟩ :=
    prune_cases numberLength tokenLimit messages
  have fewer : (messages.take headKeep ++ rest).Sublist messages := by
    conv_rhs => rw [← List.take_append_drop headKeep messages, split]
    exact (List.Sublist.refl _).append (List.sublist_append_right removed rest)
  have parts : (messages.take headKeep ++ rest).take headKeep = messages.take headKeep ∧
      (messages.take headKeep ++ rest).drop ((messages.take headKeep ++ rest).length - tailKeep) =
        messages.drop (messages.length - tailKeep) := by
    rcases inside with rfl | inside
    · rw [List.nil_append] at split
      rw [← split, List.take_append_drop]
      exact ⟨rfl, rfl⟩
    · have whole := congrArg List.length split
      rw [List.length_drop, List.length_append] at whole
      have long : headKeep < messages.length := by
        simp only [headKeep, tailKeep] at inside whole ⊢
        omega
      have two : (messages.take headKeep).length = headKeep := by
        rw [List.length_take]
        omega
      have back : (messages.take headKeep ++ rest).length - tailKeep =
          (messages.take headKeep).length + (rest.length - tailKeep) := by
        rw [List.length_append]
        omega
      have back' : messages.length - tailKeep =
          headKeep + (removed.length + (rest.length - tailKeep)) := by
        omega
      refine ⟨by rw [List.take_append_of_le_length two.ge, List.take_take, Nat.min_self], ?_⟩
      rw [back, List.drop_length_add_append, back', ← List.drop_drop, split,
        List.drop_length_add_append]
  rw [pruned]
  refine ⟨?_, parts.2, fun message member => ordered message (fewer.subset member),
    estimateMessageTokens_le fewer, fewer.length_le⟩
  rw [parts.1]
  exact List.forall₂_same.mpr fun message _ => Shortened.refl message

theorem compact_kept (ordered : ∀ message ∈ messages, message.Ordered) :
    Kept numberLength messages (compactToolResults messages) := by
  have shorter := compactToolResults_shortened messages
  obtain ⟨ordered', lengths⟩ := textLengths_shortened numberLength shorter ordered
  refine ⟨List.forall₂_take _ shorter, ?_, ordered', Nat.div_le_div_right lengths,
    shorter.length_eq.ge⟩
  rw [← shorter.length_eq]
  exact compactToolResults_tail messages

theorem Kept.refl (ordered : ∀ message ∈ messages, message.Ordered) :
    Kept numberLength messages messages :=
  ⟨List.forall₂_same.mpr fun message _ => Shortened.refl message, rfl, ordered, Nat.le_refl _,
    Nat.le_refl _⟩

theorem Kept.trans {others last : List JsonValue} (first : Kept numberLength messages others)
    (second : Kept numberLength others last) : Kept numberLength messages last :=
  ⟨forall₂_shortened_trans first.head second.head, second.tail.trans first.tail, second.ordered,
    second.tokens.trans first.tokens, second.length.trans first.length⟩

theorem step_kept (numberLength : JsonNumber → Nat)
    (ordered : ∀ message ∈ messages, message.Ordered) (step : ConversationStep) :
    Kept numberLength messages (stepConversation numberLength messages step) := by
  cases step with
  | prune tokenLimit => exact prune_kept ordered tokenLimit
  | compact => exact compact_kept ordered

theorem run_kept (numberLength : JsonNumber → Nat)
    (ordered : ∀ message ∈ messages, message.Ordered)
    (steps : List ConversationStep) :
    Kept numberLength messages (steps.foldl (stepConversation numberLength) messages) := by
  induction steps generalizing messages with
  | nil => exact Kept.refl ordered
  | cons step steps ih =>
      have kept := step_kept numberLength ordered step
      exact kept.trans (ih kept.ordered)

theorem run_within (ordered : ∀ message ∈ messages, message.Ordered)
    {steps : List ConversationStep} (pruned : .prune tokenLimit ∈ steps) :
    estimateMessageTokens numberLength (steps.foldl (stepConversation numberLength) messages) ≤
        tokenLimit ∨
      (steps.foldl (stepConversation numberLength) messages).length ≤ headKeep + tailKeep := by
  induction steps generalizing messages with
  | nil => cases pruned
  | cons step steps ih =>
      have kept := step_kept numberLength ordered step
      rcases List.mem_cons.mp pruned with rfl | pruned
      · have rest := run_kept numberLength kept.ordered steps
        rcases prune_within numberLength tokenLimit messages with small | short
        · exact Or.inl (rest.tokens.trans small)
        · exact Or.inr (rest.length.trans short)
      · exact ih kept.ordered pruned

theorem step_paired_iff (paired : Paired messages) (step : ConversationStep) :
    Paired (stepConversation numberLength messages step) ↔
      KeepsPairs numberLength messages step := by
  cases step with
  | prune tokenLimit => exact prune_paired_iff paired
  | compact =>
      exact iff_of_true (paired.of_signatures (compactToolResults_signatures messages)) trivial

theorem run_paired_iff (paired : Paired messages) (steps : List ConversationStep) :
    (∀ state ∈ GuardedRun.states (stepConversation numberLength) messages steps, Paired state) ↔
      GuardedRun.Guarded (stepConversation numberLength) (KeepsPairs numberLength) messages
        steps := by
  induction steps generalizing messages with
  | nil => simpa using paired
  | cons step steps ih =>
      rw [GuardedRun.states_cons, List.forall_mem_cons, GuardedRun.guarded_cons,
        ← step_paired_iff paired]
      constructor
      · rintro ⟨_, later⟩
        have next := later _ (GuardedRun.start_mem_states _ _)
        exact ⟨next, (ih next).mp later⟩
      · rintro ⟨next, later⟩
        exact ⟨paired, (ih next).mpr later⟩

/-- What runs of pruning and compaction do to a conversation. -/
structure PruningLaw (numberLength : JsonNumber → Nat) (messages : List JsonValue)
    (steps : List ConversationStep) : Prop where
  pairs : (∀ state ∈ GuardedRun.states (stepConversation numberLength) messages steps,
      Paired state) ↔
    GuardedRun.Guarded (stepConversation numberLength) (KeepsPairs numberLength) messages steps
  head : List.Forall₂ Shortened (messages.take headKeep)
    ((steps.foldl (stepConversation numberLength) messages).take headKeep)
  tail : (steps.foldl (stepConversation numberLength) messages).drop
      ((steps.foldl (stepConversation numberLength) messages).length - tailKeep) =
    messages.drop (messages.length - tailKeep)
  within : ∀ tokenLimit, .prune tokenLimit ∈ steps →
    estimateMessageTokens numberLength (steps.foldl (stepConversation numberLength) messages) ≤
        tokenLimit ∨
      (steps.foldl (stepConversation numberLength) messages).length ≤ headKeep + tailKeep
  /-- Where ids are used once, a pruning must cut the conversation between the results of a
  call and what follows them, on both sides. -/
  cuts : UsedOnce messages → ∀ tokenLimit removed rest,
    messages.drop headKeep = removed ++ rest →
      (∀ position, TooOld numberLength tokenLimit messages position ↔
        headKeep ≤ position ∧ position < headKeep + removed.length) →
      (Paired (pruneIfNeeded numberLength messages tokenLimit) ↔
        removed = [] ∨ beginsWithResult removed = false ∧ beginsWithResult rest = false)

theorem pruning_right_iff (numberLength : JsonNumber → Nat) (messages : List JsonValue)
    (steps : List ConversationStep) (ordered : ∀ message ∈ messages, message.Ordered)
    (paired : PairedAtOnce messages) : PruningLaw numberLength messages steps where
  pairs := run_paired_iff paired.paired steps
  head := (run_kept numberLength ordered steps).head
  tail := (run_kept numberLength ordered steps).tail
  within _ pruned := run_within ordered pruned
  cuts once tokenLimit removed rest split old := by
    have whole : messages = messages.take headKeep ++ (removed ++ rest) := by
      rw [← split, List.take_append_drop]
    rw [prune_paired_iff paired.paired,
      ← noneMissed_iff (whole ▸ once) (whole ▸ paired)]
    constructor
    · exact fun keeps => keeps removed rest split old
    · intro noneMissed removed' rest' split' old'
      obtain ⟨rfl, rfl⟩ := removed_unique split split' old old'
      exact noneMissed

end Steps

def textMessage (role content : String) : JsonValue :=
  .object [("content", .string content), ("role", .string role)]

def callMessage (id : String) : JsonValue :=
  .object [("role", .string "assistant"),
    ("tool_calls", .array [.object [("id", .string id), ("type", .string "function")]])]

def resultMessage (id content : String) : JsonValue :=
  .object [("content", .string content), ("role", .string "tool"), ("tool_call_id", .string id)]

/-- A call, its result, and two more messages behind them. -/
def readConversation : List JsonValue :=
  [textMessage "system" "You read files.", textMessage "user" "Read the notes.",
    callMessage "read", resultMessage "read" "Two notes.",
    textMessage "assistant" "There are two notes.", textMessage "user" "Thank you."]

/-- A conversation can be checked place by place. -/
theorem forall_split {property : List JsonValue → JsonValue → List JsonValue → Prop}
    {messages : List JsonValue}
    (places : ∀ position : Fin messages.length, property (messages.take position)
      (messages.get position) (messages.drop (position + 1)))
    (before : List JsonValue) (message : JsonValue) (after : List JsonValue)
    (split : messages = before ++ message :: after) : property before message after := by
  subst split
  have here := places ⟨before.length, by simp⟩
  simpa using here

theorem readConversation_paired : PairedAtOnce readConversation where
  announced := forall_split (by decide +kernel)
  answered := forall_split (by decide +kernel)

theorem readConversation_ordered : ∀ message ∈ readConversation, message.Ordered := by
  decide +kernel

/-- The call is the first message behind the head, and without it the conversation is small
enough. -/
theorem torn_call : PairedAtOnce readConversation ∧
    ¬ Paired (pruneIfNeeded (fun _ => 1) readConversation 60) := by
  refine ⟨readConversation_paired, fun paired => ?_⟩
  have pruned : pruneIfNeeded (fun _ => 1) readConversation 60 =
      readConversation.eraseIdx headKeep := by
    rw [pruneIfNeeded, if_neg (by decide), pruneLoop, dif_pos (by decide +kernel), pruneLoop,
      dif_neg (by decide +kernel)]
  rw [pruned] at paired
  obtain ⟨call, inside, id, announces, _⟩ := paired.announced (readConversation.take headKeep)
    (resultMessage "read" "Two notes.") (readConversation.drop 4) rfl (by decide +kernel)
  have silent : ∀ call ∈ readConversation.take headKeep, announcedIds call = [] := by
    decide +kernel
  rw [silent call inside] at announces
  cases announces

theorem readConversation_pruned :
    PruningLaw (fun _ => 1) readConversation [.compact, .prune 60] :=
  pruning_right_iff _ _ _ readConversation_ordered readConversation_paired

end ToolLoop

end Roko
