import Roko.TextLines

/-!
# Prompt sections

The model of the first part of `roko-compose/src/prompt.rs`: sections of a prompt, their
estimated tokens and hard caps, and the ids that they are known by.
-/

namespace Roko

inductive SectionPriority
  | low
  | normal
  | high
  | critical
  deriving DecidableEq

inductive CacheLayer
  | role
  | workspace
  | plan
  | volatile
  deriving DecidableEq

inductive Placement
  | start
  | middle
  | «end»
  deriving DecidableEq

inductive AttentionBidder
  | neuro
  | daimon
  | iterationMemory
  | codeIntelligence
  | playbookRules
  | research
  | taskContext
  | oracles
  deriving DecidableEq

def SectionPriority.rank : SectionPriority → Nat
  | low => 0
  | normal => 1
  | high => 2
  | critical => 3

def CacheLayer.rank : CacheLayer → Nat
  | role => 0
  | workspace => 1
  | plan => 2
  | volatile => 3

/-- `placement_order`. -/
def Placement.order : Placement → Nat
  | start => 0
  | middle => 1
  | «end» => 2

structure PromptSection where
  sectionId : String := ""
  name : String
  content : String
  priority : SectionPriority := .normal
  cacheLayer : CacheLayer := .plan
  placement : Placement := .middle
  hardCap : Option Nat := none
  bidder : AttentionBidder := .taskContext
  sourceType : Option String := none
  sourceId : Option String := none
  experimentId : Option String := none
  deriving DecidableEq

/-- `char::to_lowercase`, as far as it gives ASCII: beside the letters of ASCII these are
the Kelvin sign and the capital I with a dot. -/
def lowercase (char : Char) : List Char :=
  if char = '\u212A' then ['k']
  else if char = '\u0130' then ['i', '\u0307']
  else [char.toLower]

def trim (chars : List Char) : List Char :=
  ((chars.dropWhile TextLines.isWhitespace).reverse.dropWhile TextLines.isWhitespace).reverse

/-- The loop of `normalize_action_part`: the text so far, and whether a separator was
written last. -/
def normalizePartStep (state : List Char × Bool) (char : Char) : List Char × Bool :=
  if char.isAlphanum then (state.1 ++ [char], false)
  else if state.2 then state
  else (state.1 ++ ['-'], true)

def normalizeActionPart (raw : String) : String :=
  let out := (((trim raw.toList).flatMap lowercase).foldl normalizePartStep ([], false)).1
  let trimmed := (out.reverse.dropWhile fun char => char = '-').reverse
  if trimmed.isEmpty then "unknown" else String.ofList trimmed

def nonEmpty (value : String) : Option String :=
  let trimmed := trim value.toList
  if trimmed.isEmpty then none else some (String.ofList trimmed)

/-- A part of an id behind a prefix, if it is given and not blank. -/
def idPart (before : String) (value : Option String) : String :=
  match value.bind nonEmpty with
  | some part => before ++ normalizeActionPart part
  | none => ""

def stableSectionId (kind name : String) (sourceType sourceId : Option String) : String :=
  kind ++ ":" ++ normalizeActionPart name ++ idPart ":" sourceType ++ idPart ":" sourceId

def sectionActionId (kind name : String) (sourceType sourceId experimentId : Option String) :
    String :=
  stableSectionId kind name sourceType sourceId ++ idPart "|experiment:" experimentId

def estimateTokens (text : String) : Nat :=
  (text.utf8ByteSize + 3) / 4

/-- The longest beginning of some characters that has no more bytes than given. -/
def takeBytes : Nat → List Char → List Char
  | _, [] => []
  | bytes, char :: chars =>
      if char.utf8Size ≤ bytes then char :: takeBytes (bytes - char.utf8Size) chars else []

namespace PromptSection

variable (fragment : PromptSection)

def actionId : String :=
  sectionActionId "prompt_section" fragment.name fragment.sourceType fragment.sourceId
    fragment.experimentId

/-- The id of a section, or the one that is derived for a section without one. -/
def stableSectionId : String :=
  if TextLines.isBlank fragment.sectionId then
    Roko.stableSectionId "prompt" fragment.name fragment.sourceType fragment.sourceId
  else fragment.sectionId

def estimatedTokens : Nat :=
  estimateTokens fragment.content

def enforceHardCap : PromptSection :=
  match fragment.hardCap with
  | none => fragment
  | some cap =>
      if fragment.estimatedTokens ≤ cap then fragment
      else if cap * 4 < fragment.content.utf8ByteSize then
        let dropped := fragment.estimatedTokens - cap
        { fragment with
          content := String.ofList (takeBytes (cap * 4) fragment.content.toList) ++
            "…[truncated " ++ toString dropped ++ " tokens]" }
      else fragment

end PromptSection

end Roko
