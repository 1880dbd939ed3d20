import Roko.FallibleSteps
import Roko.PromptBudgets
import Std.Data.String.ToNat

/-!
# Texts of prompts

A hard cap cuts a section at a character, but the marker that it appends is not counted:
the section that is left is over its cap by up to the size of the marker, and cutting it
once more counts the marker as content.  In the same way the budget of a prompt counts the
contents of the sections, and the text that rendering puts around them comes on top.
-/

namespace Roko

def byteSize (chars : List Char) : Nat :=
  (chars.map Char.utf8Size).sum

theorem utf8ByteSize_ofList (chars : List Char) :
    (String.ofList chars).utf8ByteSize = byteSize chars := by
  induction chars with
  | nil => rfl
  | cons char chars ih =>
      rw [String.ofList_cons, String.utf8ByteSize_append, String.utf8ByteSize_singleton, ih]
      rfl

theorem byteSize_toList (text : String) : byteSize text.toList = text.utf8ByteSize := by
  rw [← utf8ByteSize_ofList, String.ofList_toList]

theorem takeBytes_prefix (bytes : Nat) (chars : List Char) : takeBytes bytes chars <+: chars := by
  induction chars generalizing bytes with
  | nil => exact List.prefix_refl _
  | cons char chars ih =>
      rw [takeBytes]
      split
      · exact List.prefix_cons_inj char |>.mpr (ih _)
      · exact List.nil_prefix

theorem byteSize_takeBytes_le (bytes : Nat) (chars : List Char) :
    byteSize (takeBytes bytes chars) ≤ bytes := by
  induction chars generalizing bytes with
  | nil => exact Nat.zero_le _
  | cons char chars ih =>
      rw [takeBytes]
      split
      case isTrue fits =>
        have rest := ih (bytes - char.utf8Size)
        simp only [byteSize, List.map_cons, List.sum_cons] at rest ⊢
        omega
      case isFalse => exact Nat.zero_le _

/-- What is taken is at most three bytes short, as the next character would not fit. -/
theorem lt_byteSize_takeBytes {bytes : Nat} {chars : List Char} (long : bytes < byteSize chars) :
    bytes < byteSize (takeBytes bytes chars) + 4 := by
  induction chars generalizing bytes with
  | nil => exact absurd long (Nat.not_lt_zero _)
  | cons char chars ih =>
      simp only [byteSize, List.map_cons, List.sum_cons] at long
      rw [takeBytes]
      split
      case isTrue fits =>
        have longer : bytes - char.utf8Size < byteSize chars := by
          simp only [byteSize]
          omega
        have rest := ih longer
        simp only [byteSize, List.map_cons, List.sum_cons] at rest ⊢
        omega
      case isFalse small =>
        have few := char.utf8Size_le_four
        simp only [byteSize, List.map_nil, List.sum_nil]
        omega

theorem takeBytes_append {bytes : Nat} {front : List Char} (fits : byteSize front ≤ bytes)
    (back : List Char) :
    takeBytes bytes (front ++ back) = front ++ takeBytes (bytes - byteSize front) back := by
  induction front generalizing bytes with
  | nil => rfl
  | cons char front ih =>
      simp only [byteSize, List.map_cons, List.sum_cons] at fits
      rw [List.cons_append, takeBytes, if_pos (by omega), ih (by simp only [byteSize]; omega)]
      simp only [byteSize, List.map_cons, List.sum_cons, Nat.sub_sub, List.cons_append]

/-- What `enforce_hard_cap` appends. -/
def truncationMarker (dropped : Nat) : String :=
  "…[truncated " ++ toString dropped ++ " tokens]"

theorem toList_truncationMarker (dropped : Nat) :
    (truncationMarker dropped).toList =
      '…' :: '[' :: ("truncated ".toList ++ (Nat.repr dropped).toList ++ " tokens]".toList) := by
  rw [truncationMarker, String.toList_append, String.toList_append]
  rfl

theorem truncationMarker_inj {first second : Nat} :
    truncationMarker first = truncationMarker second ↔ first = second := by
  rw [← String.toList_inj, toList_truncationMarker, toList_truncationMarker]
  simp only [List.cons.injEq, true_and, List.append_cancel_right_eq, List.append_cancel_left_eq,
    String.toList_inj, Nat.repr_inj]

/-- A number has no more digits than its value. -/
theorem utf8ByteSize_repr_le {number : Nat} (positive : 0 < number) :
    (Nat.repr number).utf8ByteSize ≤ number := by
  have digit : ∀ digit < 10, (Nat.digitChar digit).utf8Size = 1 := by decide
  induction number using Nat.strong_induction_on with
  | _ number ih =>
      by_cases small : number < 10
      · rw [Nat.repr_of_lt small, String.utf8ByteSize_singleton, digit number small]
        omega
      · have front := ih (number / 10) (by omega) (by omega)
        rw [Nat.repr_of_ge (by omega), String.utf8ByteSize_append,
          String.utf8ByteSize_singleton, digit _ (Nat.mod_lt _ (by decide))]
        omega

theorem utf8ByteSize_repr_six : (Nat.repr 6).utf8ByteSize = 1 := by
  decide

theorem utf8ByteSize_truncationMarker (dropped : Nat) :
    (truncationMarker dropped).utf8ByteSize = 22 + (Nat.repr dropped).utf8ByteSize := by
  have front : "…[truncated ".utf8ByteSize = 14 := by decide
  have back : " tokens]".utf8ByteSize = 8 := by decide
  rw [truncationMarker, String.utf8ByteSize_append, String.utf8ByteSize_append, front, back]
  change 14 + (Nat.repr dropped).utf8ByteSize + 8 = _
  omega

namespace PromptSection

/-- What a hard cap keeps of the content. -/
def keptHead (fragment : PromptSection) (cap : Nat) : List Char :=
  takeBytes (cap * 4) fragment.content.toList

variable {fragment : PromptSection} {cap : Nat}

theorem enforceHardCap_of_le (capped : fragment.hardCap = some cap)
    (fits : fragment.estimatedTokens ≤ cap) : fragment.enforceHardCap = fragment := by
  rw [enforceHardCap, capped]
  exact if_pos fits

theorem enforceHardCap_of_lt (capped : fragment.hardCap = some cap)
    (long : cap < fragment.estimatedTokens) :
    fragment.enforceHardCap =
      { fragment with
        content := String.ofList (fragment.keptHead cap) ++
          truncationMarker (fragment.estimatedTokens - cap) } := by
  have bytes : cap * 4 < fragment.content.utf8ByteSize := by
    rw [estimatedTokens, estimateTokens] at long
    omega
  rw [enforceHardCap, capped]
  dsimp only
  rw [if_neg (not_le.mpr long), if_pos bytes, keptHead, truncationMarker,
    String.append_assoc, String.append_assoc, String.append_assoc]

theorem byteSize_keptHead (long : cap < fragment.estimatedTokens) :
    byteSize (fragment.keptHead cap) ≤ cap * 4 ∧
      cap * 4 < byteSize (fragment.keptHead cap) + 4 := by
  refine ⟨byteSize_takeBytes_le _ _, lt_byteSize_takeBytes ?_⟩
  rw [byteSize_toList]
  rw [estimatedTokens, estimateTokens] at long
  omega

/-- The head and a marker take more tokens than the cap, by no more than the marker. -/
theorem estimateTokens_cut (long : cap < fragment.estimatedTokens) (dropped : Nat) :
    let cut := String.ofList (fragment.keptHead cap) ++ truncationMarker dropped
    cap < estimateTokens cut ∧
      estimateTokens cut ≤ cap + estimateTokens (truncationMarker dropped) := by
  obtain ⟨fits, most⟩ := byteSize_keptHead long
  simp only [estimateTokens, String.utf8ByteSize_append, utf8ByteSize_ofList,
    utf8ByteSize_truncationMarker]
  omega

/-- A second cut keeps the head, and the first character of the marker where the head left
room for it. -/
theorem takeBytes_cut (long : cap < fragment.estimatedTokens) (dropped : Nat) :
    takeBytes (cap * 4)
        (String.ofList (fragment.keptHead cap) ++ truncationMarker dropped).toList =
      fragment.keptHead cap ++
        if cap * 4 < byteSize (fragment.keptHead cap) + 3 then [] else ['…'] := by
  obtain ⟨fits, most⟩ := byteSize_keptHead long
  have dots : '…'.utf8Size = 3 := by decide
  have bracket : '['.utf8Size = 1 := by decide
  rw [String.toList_append, String.toList_ofList, takeBytes_append fits,
    toList_truncationMarker, takeBytes, takeBytes, dots, bracket]
  split
  case isTrue room => rw [if_neg (by omega), if_neg (by omega)]
  case isFalse full => rw [if_pos (by omega)]

/-- How many tokens a second cut counts as dropped. -/
theorem dropped_eq_iff (long : cap < fragment.estimatedTokens)
    (room : cap * 4 < byteSize (fragment.keptHead cap) + 3) :
    let dropped := fragment.estimatedTokens - cap
    estimateTokens (String.ofList (fragment.keptHead cap) ++ truncationMarker dropped) - cap =
      dropped ↔ fragment.estimatedTokens = cap + 6 := by
  obtain ⟨fits, most⟩ := byteSize_keptHead long
  dsimp only
  generalize known : fragment.estimatedTokens - cap = dropped
  have positive : 0 < dropped := by omega
  have digits := utf8ByteSize_repr_le positive
  simp only [estimateTokens, String.utf8ByteSize_append, utf8ByteSize_ofList,
    utf8ByteSize_truncationMarker]
  constructor
  · intro same
    by_cases small : dropped < 10
    · have one : (Nat.repr dropped).utf8ByteSize = 1 := by
        rw [Nat.repr_of_lt small, String.utf8ByteSize_singleton]
        have digit : ∀ digit < 10, (Nat.digitChar digit).utf8Size = 1 := by decide
        exact digit dropped small
      omega
    · omega
  · intro six
    have value : dropped = 6 := by omega
    rw [value, utf8ByteSize_repr_six]
    omega

/-- Cutting a second time changes nothing only where the marker counts itself. -/
theorem enforceHardCap_twice_iff (capped : fragment.hardCap = some cap)
    (long : cap < fragment.estimatedTokens) :
    fragment.enforceHardCap.enforceHardCap = fragment.enforceHardCap ↔
      fragment.estimatedTokens = cap + 6 ∧
        cap * 4 < byteSize (fragment.keptHead cap) + 3 := by
  generalize once_eq : fragment.enforceHardCap = once
  rw [enforceHardCap_of_lt capped long] at once_eq
  have onceCapped : once.hardCap = some cap := by rw [← once_eq]; exact capped
  have onceContent : once.content = String.ofList (fragment.keptHead cap) ++
      truncationMarker (fragment.estimatedTokens - cap) := by rw [← once_eq]
  have onceLong : cap < once.estimatedTokens := by
    rw [estimatedTokens, onceContent]
    exact (estimateTokens_cut long _).1
  rw [enforceHardCap_of_lt onceCapped onceLong]
  have onceHead : once.keptHead cap = fragment.keptHead cap ++
      if cap * 4 < byteSize (fragment.keptHead cap) + 3 then [] else ['…'] := by
    rw [keptHead, onceContent, takeBytes_cut long]
  have same_iff : { once with
      content := String.ofList (once.keptHead cap) ++
        truncationMarker (once.estimatedTokens - cap) } = once ↔
      String.ofList (once.keptHead cap) ++ truncationMarker (once.estimatedTokens - cap) =
        once.content := by
    constructor
    · exact fun same => congrArg PromptSection.content same
    · intro same
      rw [same]
  rw [same_iff, onceHead, onceContent, ← String.toList_inj]
  simp only [String.toList_append, String.toList_ofList, List.append_assoc,
    List.append_cancel_left_eq]
  by_cases room : cap * 4 < byteSize (fragment.keptHead cap) + 3
  case pos =>
    rw [if_pos room, List.nil_append, String.toList_inj, truncationMarker_inj,
      and_iff_left room, estimatedTokens, onceContent]
    exact dropped_eq_iff long room
  case neg =>
    rw [if_neg room, toList_truncationMarker, toList_truncationMarker]
    simp [room]

/-- A hard cap cuts between two characters, at most three bytes early, and the section that
is left is over the cap by at most the marker. -/
structure HardCapLaw (fragment : PromptSection) : Prop where
  uncapped : fragment.hardCap = none → fragment.enforceHardCap = fragment
  short : ∀ cap, fragment.hardCap = some cap → fragment.estimatedTokens ≤ cap →
    fragment.enforceHardCap = fragment
  long : ∀ cap, fragment.hardCap = some cap → cap < fragment.estimatedTokens →
    let marker := truncationMarker (fragment.estimatedTokens - cap)
    ∃ head tail : List Char, fragment.content.toList = head ++ tail ∧
      byteSize head ≤ cap * 4 ∧ cap * 4 < byteSize head + 4 ∧
      fragment.enforceHardCap =
        { fragment with content := String.ofList head ++ marker } ∧
      fragment.enforceHardCap.estimatedTokens ≤ cap + estimateTokens marker ∧
      (fragment.enforceHardCap.enforceHardCap = fragment.enforceHardCap ↔
        fragment.estimatedTokens = cap + 6 ∧ cap * 4 < byteSize head + 3)

theorem hardCapLaw (fragment : PromptSection) : HardCapLaw fragment where
  uncapped free := by rw [enforceHardCap, free]
  short cap capped fits := enforceHardCap_of_le capped fits
  long cap capped long := by
    obtain ⟨tail, split⟩ := takeBytes_prefix (cap * 4) fragment.content.toList
    obtain ⟨fits, most⟩ := byteSize_keptHead long
    refine ⟨fragment.keptHead cap, tail, split.symm, fits, most,
      enforceHardCap_of_lt capped long, ?_, enforceHardCap_twice_iff capped long⟩
    rw [enforceHardCap_of_lt capped long]
    exact (estimateTokens_cut long _).2

end PromptSection

namespace PromptComposer

variable {Signal F : Type}

/-- The bytes that rendering adds to the content of a section: the line of its name, an end
of its last line, and an empty line. -/
def addedBytes (headers : Bool) (fragment : PromptSection) : Nat :=
  (if headers then fragment.name.utf8ByteSize + 9 else 0) +
    (if fragment.content.endsWith "\n" then 0 else 1) + if headers then 1 else 0

theorem utf8ByteSize_renderSection (headers : Bool) (fragment : PromptSection) :
    (renderSection headers fragment).utf8ByteSize =
      fragment.content.utf8ByteSize + addedBytes headers fragment := by
  have front : "--- ".utf8ByteSize = 4 := by decide
  have back : " ---\n".utf8ByteSize = 5 := by decide
  have line : "\n".utf8ByteSize = 1 := by decide
  have none : "".utf8ByteSize = 0 := by decide
  simp only [renderSection, addedBytes, String.utf8ByteSize_append, apply_ite String.utf8ByteSize,
    front, back, line, none]
  split <;> split <;> omega

theorem utf8ByteSize_join (texts : List String) :
    (String.join texts).utf8ByteSize = (texts.map String.utf8ByteSize).sum := by
  induction texts with
  | nil => rfl
  | cons text texts ih => rw [String.join_cons, String.utf8ByteSize_append, ih]; rfl

/-- The estimate for the whole text is that for the contents, and for what was added. -/
theorem estimateTokens_renderSections_le (headers : Bool)
    (kept : List (PromptSection × Signal)) :
    estimateTokens (renderSections headers kept) ≤
      tokensOf kept +
        ((kept.map fun keptSection => addedBytes headers keptSection.1).sum + 3) / 4 := by
  have contents : (kept.map fun keptSection => keptSection.1.content.utf8ByteSize).sum ≤
      4 * tokensOf kept := by
    induction kept with
    | nil => exact Nat.zero_le _
    | cons keptSection kept ih =>
        simp only [tokensOf, List.map_cons, List.sum_cons] at ih ⊢
        rw [PromptSection.estimatedTokens, estimateTokens]
        omega
  have whole : (renderSections headers kept).utf8ByteSize =
      (kept.map fun keptSection => keptSection.1.content.utf8ByteSize).sum +
        (kept.map fun keptSection => addedBytes headers keptSection.1).sum := by
    rw [renderSections, utf8ByteSize_join, List.map_map, ← List.sum_map_add]
    refine congrArg List.sum (List.map_congr_left fun keptSection _ => ?_)
    exact utf8ByteSize_renderSection headers keptSection.1
  rw [estimateTokens, whole]
  omega

theorem text_of_composed {composer : PromptComposer} {pricing : Pricing Signal F}
    {fromSignal : Signal → Option PromptSection} {signals : List Signal} {budget : Budget}
    {prompt : ComposedPrompt Signal F}
    (composed : composer.compose pricing fromSignal signals budget = .ok prompt) :
    prompt.text = renderSections composer.includeHeaders prompt.kept := by
  rw [compose] at composed
  dsimp only at composed
  split at composed
  case isTrue => cases composed
  case isFalse => cases composed; rfl

/-- Where each winner is the section that bid, a prompt is over its budget by at most what
rendering adds. -/
def TextLaw (composer : PromptComposer) (pricing : Pricing Signal F)
    (fromSignal : Signal → Option PromptSection) (signals : List Signal) (budget : Budget) :
    Prop :=
  let optional := (decodedSections fromSignal signals).filter fun keptSection =>
    !isCritical keptSection
  (composer.selectedStrategy optional ≠ .vcg ∨ (optional.map (·.1.stableSectionId)).Nodup) →
    ∀ prompt max, composer.compose pricing fromSignal signals budget = .ok prompt →
      budget.maxTokens = some max →
      estimateTokens prompt.text ≤ max + ((prompt.kept.map fun keptSection =>
        addedBytes composer.includeHeaders keptSection.1).sum + 3) / 4

/-- Five bytes under a cap of one token. -/
def cappedNote : PromptSection where
  name := "note"
  content := "xxxxx"
  hardCap := some 1

/-- Four bytes, one token. -/
def fullNote : PromptSection where
  name := "note"
  content := "full"

def plainComposer : PromptComposer where
  includeHeaders := false
  compositionStrategy := .densityGreedy

theorem fullNote_rendered :
    (plainComposer.compose wholePricing some [fullNote]
      { maxTokens := some 1 }).toOption.map (fun prompt => estimateTokens prompt.text) =
        some 2 := by
  decide +kernel

end PromptComposer

end Roko
