import Roko.ContentHash
import Roko.SeparatedFields
import Mathlib.Data.List.Nodup

/-!
# The identity of an engram

The model of `Engram::content_hash` in `roko-core/src/engram.rs`, of `Kind::identity_key` in
`kind.rs` and of `Body::canonical_bytes` in `body.rs`, with the fields that are hashed.
BLAKE3 and `serde_json::to_vec` are parameters.
-/

namespace Roko

/-- The kinds that the source names one by one. -/
inductive BuiltinKind
  | processSpawn | processExit | agentMessage | agentOutput | tokenUsage | approvalRequested
  | gateVerdict | testResult | compileDiagnostic
  | task | plan | planPhase
  | promptSection | contextPack | prompt
  | routerChoice | routerFeedback
  | episode | playbookRule | skill
  | metric | experimentResult | toolInvocation | toolHealthDegraded
  | insight | pheromone | bounty | transaction | service | prediction
  deriving DecidableEq

inductive Kind
  | builtin (kind : BuiltinKind)
  | compound (parts : List Kind)
  | custom (name : String)

def BuiltinKind.asStr : BuiltinKind → String
  | processSpawn => "process_spawn"
  | processExit => "process_exit"
  | agentMessage => "agent_message"
  | agentOutput => "agent_output"
  | tokenUsage => "token_usage"
  | approvalRequested => "approval_requested"
  | gateVerdict => "gate_verdict"
  | testResult => "test_result"
  | compileDiagnostic => "compile_diagnostic"
  | task => "task"
  | plan => "plan"
  | planPhase => "plan_phase"
  | promptSection => "prompt_section"
  | contextPack => "context_pack"
  | prompt => "prompt"
  | routerChoice => "router_choice"
  | routerFeedback => "router_feedback"
  | episode => "episode"
  | playbookRule => "playbook_rule"
  | skill => "skill"
  | metric => "metric"
  | experimentResult => "experiment_result"
  | toolInvocation => "tool_invocation"
  | toolHealthDegraded => "tool_health_degraded"
  | insight => "insight"
  | pheromone => "pheromone"
  | bounty => "bounty"
  | transaction => "transaction"
  | service => "service"
  | prediction => "prediction"

mutual

def Kind.identityKey : Kind → String
  | .builtin kind => kind.asStr
  | .compound parts => "compound(" ++ Kind.joinedKeys parts ++ ")"
  | .custom name => name

/-- The keys of the parts of a compound, with a plus sign before each but the first. -/
def Kind.joinedKeys : List Kind → String
  | [] => ""
  | [part] => part.identityKey
  | part :: next :: parts => part.identityKey ++ "+" ++ Kind.joinedKeys (next :: parts)

end

/-- `BTreeMap<String, String>`. -/
structure Tags where
  entries : List (String × String)
  sorted : entries.Pairwise fun first second => first.1 < second.1

/-- The fields of an engram that are hashed. -/
structure Engram (Body : Type) where
  kind : Kind
  body : Body
  author : String
  tainted : Bool
  lineage : List Digest
  tags : Tags

namespace Engram

variable {Body : Type} (toVec : Body → Option (List UInt8))

/-- `Body::canonical_bytes`. -/
def canonicalBytes (body : Body) : List UInt8 :=
  (toVec body).getD []

/-- What is fed to the hasher. -/
def hashed (engram : Engram Body) : List UInt8 :=
  textBytes engram.kind.identityKey ++ textBytes "|" ++
    canonicalBytes toVec engram.body ++ textBytes "|" ++
    textBytes engram.author ++ textBytes "|" ++
    [if engram.tainted then 1 else 0] ++ textBytes "|" ++
    engram.lineage.flatMap (·.toList) ++ textBytes "|" ++
    engram.tags.entries.flatMap fun entry =>
      textBytes entry.1 ++ textBytes "=" ++ textBytes entry.2 ++ textBytes ";"

def contentHash (blake3 : List UInt8 → Digest) (engram : Engram Body) : Digest :=
  blake3 (engram.hashed toVec)

end Engram

/-!
A kind is read from its key as long as the names of custom kinds are no names of other
kinds and hold none of the characters that the keys of compounds are put together with.
-/

/-- The bytes that a key gives a meaning to. -/
def reserved : List UInt8 := textBytes "|+()"

/-- A kind whose custom names are not empty, contain no reserved bytes and are not names of
other kinds. -/
inductive Kind.Plain : Kind → Prop
  | builtin (kind : BuiltinKind) : Plain (.builtin kind)
  | custom (name : String) (filled : name ≠ "")
      (free : ∀ byte ∈ textBytes name, byte ∉ reserved)
      (new : ∀ kind : BuiltinKind, name ≠ kind.asStr) : Plain (.custom name)
  | compound (parts : List Kind) (plain : ∀ part ∈ parts, Plain part) : Plain (.compound parts)

namespace BuiltinKind

def all : List BuiltinKind :=
  [processSpawn, processExit, agentMessage, agentOutput, tokenUsage, approvalRequested,
    gateVerdict, testResult, compileDiagnostic, task, plan, planPhase, promptSection,
    contextPack, prompt, routerChoice, routerFeedback, episode, playbookRule, skill, metric,
    experimentResult, toolInvocation, toolHealthDegraded, insight, pheromone, bounty,
    transaction, service, prediction]

theorem mem_all (kind : BuiltinKind) : kind ∈ all := by
  cases kind <;> decide

theorem asStr_inj {first second : BuiltinKind} (same : first.asStr = second.asStr) :
    first = second := by
  have distinct : (all.map asStr).Nodup := by decide
  exact List.inj_on_of_nodup_map distinct (mem_all first) (mem_all second) same

theorem asStr_free (kind : BuiltinKind) :
    textBytes kind.asStr ≠ [] ∧ ∀ byte ∈ textBytes kind.asStr, byte ∉ reserved := by
  have every : (all.all fun kind =>
      !(textBytes kind.asStr).isEmpty && (textBytes kind.asStr).all (· ∉ reserved)) = true := by
    decide +kernel
  have checked := List.all_eq_true.mp every kind (mem_all kind)
  simpa using checked

end BuiltinKind

namespace Kind

/-- A rest that ends a key: it is empty, or a plus sign or a closing bracket comes first. -/
def Ends (rest : List UInt8) : Prop :=
  rest = [] ∨ ∃ byte behind, rest = byte :: behind ∧ byte ∈ textBytes "+)"

/-- A kind is read from the front of a text by its key. -/
def Readable (kind : Kind) : Prop :=
  ∀ other : Kind, other.Plain → ∀ rest otherRest, Ends rest → Ends otherRest →
    textBytes kind.identityKey ++ rest = textBytes other.identityKey ++ otherRest →
      kind = other ∧ rest = otherRest

theorem gap_eq_nil {gap rest otherRest : List UInt8} (free : ∀ byte ∈ gap, byte ∉ reserved)
    (ends : rest = [] ∨ ∃ byte behind, rest = byte :: behind ∧ byte ∈ reserved)
    (rests : rest = gap ++ otherRest) : gap = [] := by
  cases gap with
  | nil => rfl
  | cons byte gap =>
      rcases ends with none' | ⟨first, behind, starts, isReserved⟩
      · simp [none'] at rests
      · rw [starts, List.cons_append, List.cons.injEq] at rests
        rw [rests.1] at isReserved
        exact absurd isReserved (free byte List.mem_cons_self)

theorem append_inj_of_reserved {name other rest otherRest : List UInt8}
    (free : ∀ byte ∈ name, byte ∉ reserved) (otherFree : ∀ byte ∈ other, byte ∉ reserved)
    (ends : rest = [] ∨ ∃ byte behind, rest = byte :: behind ∧ byte ∈ reserved)
    (otherEnds : otherRest = [] ∨
      ∃ byte behind, otherRest = byte :: behind ∧ byte ∈ reserved)
    (same : name ++ rest = other ++ otherRest) : name = other ∧ rest = otherRest := by
  rcases List.append_eq_append_iff.mp same with ⟨gap, rfl, rests⟩ | ⟨gap, rfl, rests⟩
  · obtain rfl := gap_eq_nil (fun byte member => otherFree byte (List.mem_append_right _ member))
      ends rests
    exact ⟨(List.append_nil _).symm, rests⟩
  · obtain rfl := gap_eq_nil (fun byte member => free byte (List.mem_append_right _ member))
      otherEnds rests
    exact ⟨List.append_nil _, rests.symm⟩

/-- The word in front of the parts of a compound. -/
def compoundWord : List UInt8 := textBytes "compound"

theorem compoundWord_free : ∀ byte ∈ compoundWord, byte ∉ reserved := by
  have checked : compoundWord.all (· ∉ reserved) = true := by decide +kernel
  simpa using checked

theorem textBytes_compound (parts : List Kind) :
    textBytes (Kind.compound parts).identityKey =
      compoundWord ++ 40 :: (textBytes (joinedKeys parts) ++ [41]) := by
  have opening : textBytes "compound(" = compoundWord ++ [40] := by decide
  have closing : textBytes ")" = [41] := by decide
  rw [identityKey, textBytes_append, textBytes_append, opening, closing]
  simp

theorem textBytes_joined (part next : Kind) (parts : List Kind) :
    textBytes (joinedKeys (part :: next :: parts)) =
      textBytes part.identityKey ++ 43 :: textBytes (joinedKeys (next :: parts)) := by
  have plus : textBytes "+" = [43] := by decide
  rw [joinedKeys, textBytes_append, textBytes_append, plus]
  simp

theorem Ends.reserved {rest : List UInt8} (ends : Ends rest) :
    rest = [] ∨ ∃ byte behind, rest = byte :: behind ∧ byte ∈ reserved := by
  have subset : ∀ byte ∈ textBytes "+)", byte ∈ Roko.reserved := by decide +kernel
  exact ends.imp_right fun ⟨byte, behind, starts, closing⟩ =>
    ⟨byte, behind, starts, subset byte closing⟩

theorem not_ends_open (rest : List UInt8) : ¬ Ends (40 :: rest) := by
  rintro (none' | ⟨byte, behind, starts, closing⟩)
  · cases none'
  · rw [← (List.cons.inj starts).1] at closing
    revert closing
    decide

theorem ends_close (rest : List UInt8) : Ends (41 :: rest) :=
  Or.inr ⟨41, rest, rfl, by decide⟩

theorem ends_plus (rest : List UInt8) : Ends (43 :: rest) :=
  Or.inr ⟨43, rest, rfl, by decide⟩

/-- The key of a plain kind begins with a byte that is not reserved. -/
theorem Plain.starts {kind : Kind} (plain : kind.Plain) :
    ∃ byte behind, textBytes kind.identityKey = byte :: behind ∧ byte ∉ reserved := by
  cases plain with
  | builtin kind =>
      obtain ⟨filled, free⟩ := kind.asStr_free
      obtain ⟨byte, behind, starts⟩ := List.exists_cons_of_ne_nil filled
      refine ⟨byte, behind, ?_, free byte (by simp [starts])⟩
      rw [identityKey, starts]
  | custom name filled free new =>
      have some' : textBytes name ≠ [] :=
        fun empty => filled (textBytes_inj (empty.trans (by decide : [] = textBytes "")))
      obtain ⟨byte, behind, starts⟩ := List.exists_cons_of_ne_nil some'
      refine ⟨byte, behind, ?_, free byte (by simp [starts])⟩
      rw [identityKey, starts]
  | compound parts plain =>
      have word : compoundWord = 99 :: compoundWord.tail := by decide
      refine ⟨99, compoundWord.tail ++ 40 :: (textBytes (joinedKeys parts) ++ [41]), ?_,
        by decide⟩
      rw [textBytes_compound]
      exact congrArg (· ++ 40 :: (textBytes (joinedKeys parts) ++ [41])) word

/-- A kind that is not a compound is read from the name that is its key. -/
theorem readable_of_name {kind : Kind}
    (free : ∀ byte ∈ textBytes kind.identityKey, byte ∉ reserved)
    (builtins : ∀ builtin : BuiltinKind, kind.identityKey = builtin.asStr →
      kind = .builtin builtin)
    (customs : ∀ name, (Kind.custom name).Plain → kind.identityKey = name →
      kind = .custom name) : kind.Readable := by
  intro other plain rest otherRest ends otherEnds same
  cases plain with
  | builtin builtin =>
      obtain ⟨names, rests⟩ :=
        append_inj_of_reserved free builtin.asStr_free.2 ends.reserved otherEnds.reserved same
      exact ⟨builtins builtin (textBytes_inj names), rests⟩
  | custom name filled otherFree new =>
      obtain ⟨names, rests⟩ :=
        append_inj_of_reserved free otherFree ends.reserved otherEnds.reserved same
      exact ⟨customs name (.custom name filled otherFree new) (textBytes_inj names), rests⟩
  | compound parts plain =>
      rw [textBytes_compound, List.append_assoc] at same
      obtain ⟨_, rests⟩ := append_inj_of_reserved free compoundWord_free ends.reserved
        (Or.inr ⟨40, _, rfl, by decide⟩) same
      rw [rests] at ends
      exact absurd ends (not_ends_open _)

/-- What comes first in a list of parts is not the bracket that closes it. -/
theorem joined_ne_close {part : Kind} (plain : part.Plain) (parts : List Kind)
    (rest behind : List UInt8) :
    textBytes (joinedKeys (part :: parts)) ++ rest ≠ 41 :: behind := by
  have closes : (41 : UInt8) ∈ reserved := by decide
  intro starts
  obtain ⟨byte, tail, front, free⟩ := plain.starts
  cases parts with
  | nil =>
      rw [joinedKeys, front, List.cons_append, List.cons.injEq] at starts
      exact free (starts.1 ▸ closes)
  | cons next parts =>
      rw [textBytes_joined, front, List.append_assoc, List.cons_append, List.cons.injEq]
        at starts
      exact free (starts.1 ▸ closes)

/-- What stands behind a part: the bracket that closes the list, or a plus and the parts
that are left. -/
def behindPart : List Kind → List UInt8 → List UInt8
  | [], rest => 41 :: rest
  | next :: parts, rest => 43 :: (textBytes (joinedKeys (next :: parts)) ++ 41 :: rest)

theorem textBytes_joined_cons (part : Kind) (parts : List Kind) (rest : List UInt8) :
    textBytes (joinedKeys (part :: parts)) ++ 41 :: rest =
      textBytes part.identityKey ++ behindPart parts rest := by
  cases parts with
  | nil => rfl
  | cons next parts =>
      rw [textBytes_joined, List.append_assoc]
      rfl

theorem ends_behindPart (parts : List Kind) (rest : List UInt8) :
    Ends (behindPart parts rest) := by
  cases parts with
  | nil => exact ends_close _
  | cons next parts => exact ends_plus _

/-- The parts of a compound are read from what stands between its brackets. -/
theorem joined_inj {parts others : List Kind} (readable : ∀ part ∈ parts, part.Readable)
    (plain : ∀ part ∈ parts, part.Plain) (otherPlain : ∀ part ∈ others, part.Plain)
    {rest otherRest : List UInt8}
    (same : textBytes (joinedKeys parts) ++ 41 :: rest =
      textBytes (joinedKeys others) ++ 41 :: otherRest) :
    parts = others ∧ rest = otherRest := by
  have empty : textBytes (joinedKeys []) = [] := by decide
  induction parts generalizing others with
  | nil =>
      cases others with
      | nil =>
          rw [empty] at same
          exact ⟨rfl, (List.cons.inj same).2⟩
      | cons other others =>
          rw [empty] at same
          exact absurd same.symm (joined_ne_close (otherPlain other (by simp)) others _ _)
  | cons part parts ih =>
      rw [List.forall_mem_cons] at readable plain
      cases others with
      | nil =>
          rw [empty] at same
          exact absurd same (joined_ne_close plain.1 parts _ _)
      | cons other others =>
          rw [List.forall_mem_cons] at otherPlain
          rw [textBytes_joined_cons, textBytes_joined_cons] at same
          obtain ⟨rfl, behind⟩ := readable.1 other otherPlain.1 _ _
            (ends_behindPart parts rest) (ends_behindPart others otherRest) same
          cases parts <;> cases others <;> rw [behindPart, behindPart] at behind
          case nil.nil => exact ⟨rfl, (List.cons.inj behind).2⟩
          case nil.cons => simp at behind
          case cons.nil => simp at behind
          case cons.cons next parts otherNext others =>
            obtain ⟨tails, rests⟩ := ih readable.2 plain.2 otherPlain.2 (List.cons.inj behind).2
            exact ⟨congrArg (part :: ·) tails, rests⟩

/-- Plain kinds are read from their keys. -/
theorem readable_of_plain {kind : Kind} (plain : kind.Plain) : kind.Readable := by
  induction plain with
  | builtin kind =>
      refine readable_of_name kind.asStr_free.2 ?_ ?_
      · intro builtin same
        rw [BuiltinKind.asStr_inj same]
      · intro name plain same
        cases plain with
        | custom _ _ _ new => exact absurd same.symm (new kind)
  | custom name filled free new =>
      refine readable_of_name free ?_ ?_
      · exact fun builtin same => absurd same (new builtin)
      · rintro other _ rfl
        rfl
  | compound parts plain readable =>
      intro other otherPlain rest otherRest ends otherEnds same
      rw [textBytes_compound, List.append_assoc] at same
      cases otherPlain with
      | builtin builtin =>
          obtain ⟨_, rests⟩ := append_inj_of_reserved compoundWord_free builtin.asStr_free.2
            (Or.inr ⟨40, _, rfl, by decide⟩) otherEnds.reserved same
          rw [← rests] at otherEnds
          exact absurd otherEnds (not_ends_open _)
      | custom name filled free new =>
          obtain ⟨_, rests⟩ := append_inj_of_reserved compoundWord_free free
            (Or.inr ⟨40, _, rfl, by decide⟩) otherEnds.reserved same
          rw [← rests] at otherEnds
          exact absurd otherEnds (not_ends_open _)
      | compound others otherPlain =>
          rw [textBytes_compound, List.append_assoc] at same
          have inner := (List.cons.inj (List.append_cancel_left same)).2
          change textBytes (joinedKeys parts) ++ [41] ++ rest =
            textBytes (joinedKeys others) ++ [41] ++ otherRest at inner
          rw [List.append_assoc, List.append_assoc] at inner
          obtain ⟨rfl, rests⟩ := joined_inj readable plain otherPlain inner
          exact ⟨rfl, rests⟩

theorem identityKey_inj {first second : Kind} (plain : first.Plain) (other : second.Plain)
    (same : first.identityKey = second.identityKey) : first = second := by
  have ends : Ends [] := Or.inl rfl
  exact (readable_of_plain plain second other [] [] ends ends (by rw [same])).1

theorem bar_notMem_joined {parts : List Kind}
    (free : ∀ part ∈ parts, 124 ∉ textBytes part.identityKey) :
    124 ∉ textBytes (joinedKeys parts) := by
  induction parts with
  | nil => decide
  | cons part parts ih =>
      rw [List.forall_mem_cons] at free
      cases parts with
      | nil => exact free.1
      | cons next parts =>
          rw [textBytes_joined, List.mem_append, List.mem_cons]
          rintro (first | plus | later)
          · exact free.1 first
          · revert plus
            decide
          · exact ih free.2 later

theorem Plain.bar_notMem {kind : Kind} (plain : kind.Plain) :
    124 ∉ textBytes kind.identityKey := by
  have isReserved : (124 : UInt8) ∈ reserved := by decide
  induction plain with
  | builtin kind => exact fun member => kind.asStr_free.2 124 member isReserved
  | custom name filled free new => exact fun member => free 124 member isReserved
  | compound parts plain free =>
      rw [textBytes_compound, List.mem_append, List.mem_cons, List.mem_append]
      rintro (word | opening | inner | closing)
      · exact compoundWord_free 124 word isReserved
      · revert opening
        decide
      · exact bar_notMem_joined free inner
      · revert closing
        decide

end Kind

end Roko
