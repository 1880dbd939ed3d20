import Roko.ContentHash
import Roko.GuardedRuns
import Roko.ParentWalks

/-!
# Taint propagation

The model of `roko-orchestrator/src/safety/taint_propagation.rs`.  Which hashes are tainted
depends on the calls alone.  The reasons form chains of `inherited_from` links; a chain
ends at a source unless a propagation gave a hash a parent whose own chain runs through it.
-/

namespace Roko

/-- Why a hash is tainted. -/
structure TaintReason where
  category : String
  detail : String
  inheritedFrom : Option Digest
deriving DecidableEq

namespace TaintReason

def new (category detail : String) : TaintReason :=
  ⟨category, detail, none⟩

def external (detail : String) : TaintReason := new "external" detail

def userInput (detail : String) : TaintReason := new "user_input" detail

def propagated (detail : String) : TaintReason := new "propagated" detail

end TaintReason

/-- A reason that was not inherited. -/
abbrev SourceReason := {reason : TaintReason // reason.category ≠ "propagated"}

/-- The map behind the mutex. -/
structure TaintTracker where
  inner : Digest → Option TaintReason

namespace TaintTracker

def new : TaintTracker :=
  ⟨fun _ => none⟩

/-- `clear` forgets everything that was recorded. -/
def clear (_ : TaintTracker) : TaintTracker := new

def markTainted (tracker : TaintTracker) (hash : Digest) (reason : TaintReason) :
    TaintTracker :=
  ⟨Function.update tracker.inner hash (some reason)⟩

def isTainted (tracker : TaintTracker) (hash : Digest) : Bool :=
  (tracker.inner hash).isSome

def reason (tracker : TaintTracker) (hash : Digest) : Option TaintReason :=
  tracker.inner hash

/-- The flag `already_specific` of `propagate`. -/
def alreadySpecific (tracker : TaintTracker) (child : Digest) : Bool :=
  (tracker.inner child).any fun reason => reason.category != "propagated"

def propagate (tracker : TaintTracker) (parents : List Digest) (child : Digest) :
    TaintTracker × Bool :=
  match parents.find? tracker.isTainted with
  | none => (tracker, false)
  | some parent =>
      if tracker.alreadySpecific child then (tracker, true)
      else
        let reason := TaintReason.propagated ("inherited from " ++ parent.short)
        (tracker.markTainted child { reason with inheritedFrom := some parent }, true)

/-- A call, where hashes are marked with the reasons of sources. -/
inductive Call
  | markTainted (hash : Digest) (reason : SourceReason)
  | propagate (parents : List Digest) (child : Digest)

def call (tracker : TaintTracker) : Call → TaintTracker
  | .markTainted hash reason => tracker.markTainted hash reason
  | .propagate parents child => (tracker.propagate parents child).1

/-- The call taints the hash: it marks it, or propagates to it from a tainted parent. -/
def Taints (tracker : TaintTracker) (hash : Digest) : Call → Prop
  | .markTainted marked _ => marked = hash
  | .propagate parents child =>
      child = hash ∧ ∃ parent ∈ parents, tracker.isTainted parent = true

/-- The stored reason is the reason of a source. -/
def Specific (tracker : TaintTracker) (hash : Digest) : Prop :=
  ∃ reason, tracker.inner hash = some reason ∧ reason.category ≠ "propagated"

/-- The `inherited_from` link of a hash. -/
def inheritedFrom (tracker : TaintTracker) (hash : Digest) : Option Digest :=
  (tracker.inner hash).bind TaintReason.inheritedFrom

/-- What the calls since a `clear` are meant to leave. -/
structure TaintLaw (start : TaintTracker) (calls : List Call) : Prop where
  tainted : ∀ hash, (calls.foldl call start).isTainted hash = true ↔
    ∃ taken ∈ GuardedRun.steps call start calls, taken.1.Taints hash taken.2
  specific : ∀ hash reason, .markTainted hash reason ∈ calls →
    (calls.foldl call start).Specific hash
  explained : ∀ hash, (calls.foldl call start).isTainted hash = true →
    LinkChains.Grounded (calls.foldl call start).inheritedFrom
      (calls.foldl call start).Specific hash

/-- The link of a hash whose reason is inherited. -/
def parentLink (tracker : TaintTracker) (hash : Digest) : Option Digest :=
  (tracker.inner hash).bind fun reason =>
    if reason.category = "propagated" then reason.inheritedFrom else none

/-- The call gives no hash a parent whose chain of reasons runs through that hash. -/
def LinksOutward (tracker : TaintTracker) : Call → Prop
  | .markTainted _ _ => True
  | .propagate parents child =>
      ∀ parent, parents.find? tracker.isTainted = some parent →
        tracker.alreadySpecific child = false →
        ¬ LinkChains.Leads tracker.parentLink parent child

variable {tracker : TaintTracker}

theorem alreadySpecific_iff (child : Digest) :
    tracker.alreadySpecific child = true ↔ tracker.Specific child := by
  unfold alreadySpecific Specific
  cases tracker.inner child <;> simp

/-- Whether the links of sources are followed makes no difference. -/
theorem grounded_inheritedFrom_iff (hash : Digest) :
    LinkChains.Grounded tracker.inheritedFrom tracker.Specific hash ↔
      LinkChains.Grounded tracker.parentLink tracker.Specific hash := by
  have links : ∀ hash, tracker.parentLink hash = tracker.inheritedFrom hash ∨
      tracker.Specific hash := by
    intro hash
    cases found : tracker.inner hash with
    | none => exact Or.inl (by simp [parentLink, inheritedFrom, found])
    | some reason =>
        by_cases inherited : reason.category = "propagated"
        · exact Or.inl (by simp [parentLink, inheritedFrom, found, inherited])
        · exact Or.inr ⟨reason, found, inherited⟩
  constructor
  · exact fun grounded => grounded.mono (fun _ => id) links
  · exact fun grounded => grounded.mono (fun _ => id)
      fun hash => (links hash).imp_left Eq.symm

/-- The reason that a propagation stores. -/
def inheritedReason (parent : Digest) : TaintReason :=
  { TaintReason.propagated ("inherited from " ++ parent.short) with
    inheritedFrom := some parent }

theorem call_propagate {parents : List Digest} {parent child : Digest}
    (found : parents.find? tracker.isTainted = some parent)
    (open' : tracker.alreadySpecific child = false) :
    tracker.call (.propagate parents child) =
      tracker.markTainted child (inheritedReason parent) := by
  simp [call, propagate, found, open', inheritedReason]

/-- A propagation changes nothing, or stores an inherited reason. -/
theorem propagate_cases (tracker : TaintTracker) (parents : List Digest)
    (child : Digest) :
    (tracker.call (.propagate parents child) = tracker ∧
      ((∀ parent ∈ parents, tracker.isTainted parent = false) ∨
        tracker.alreadySpecific child = true)) ∨
    ∃ parent, parents.find? tracker.isTainted = some parent ∧
      tracker.alreadySpecific child = false ∧
      tracker.call (.propagate parents child) =
        tracker.markTainted child (inheritedReason parent) := by
  cases found : parents.find? tracker.isTainted with
  | none =>
      left
      refine ⟨by simp [call, propagate, found], Or.inl ?_⟩
      simpa using found
  | some parent =>
      by_cases specific : tracker.alreadySpecific child = true
      · exact Or.inl ⟨by simp [call, propagate, found, specific], Or.inr specific⟩
      · rw [Bool.not_eq_true] at specific
        exact Or.inr ⟨parent, rfl, specific, call_propagate found specific⟩

theorem isTainted_markTainted (marked hash : Digest) (reason : TaintReason) :
    (tracker.markTainted marked reason).isTainted hash = true ↔
      tracker.isTainted hash = true ∨ marked = hash := by
  unfold isTainted markTainted
  by_cases same : hash = marked
  · simp [same]
  · simp [Function.update_of_ne same, Ne.symm same]

theorem isTainted_of_specific {hash : Digest} (specific : tracker.Specific hash) :
    tracker.isTainted hash = true := by
  obtain ⟨reason, found, -⟩ := specific
  simp [isTainted, found]

/-- What is tainted after a call. -/
theorem isTainted_call (next : Call) (hash : Digest) :
    (tracker.call next).isTainted hash = true ↔
      tracker.isTainted hash = true ∨ tracker.Taints hash next := by
  cases next with
  | markTainted marked reason => exact isTainted_markTainted marked hash reason
  | propagate parents child =>
      rcases propagate_cases tracker parents child with
        ⟨same, quiet⟩ | ⟨parent, found, -, same⟩
      · rw [same]
        refine ⟨Or.inl, ?_⟩
        rintro (before | ⟨rfl, parent, listed, tainted⟩)
        · exact before
        · rcases quiet with clean | specific
          · rw [clean parent listed] at tainted
            cases tainted
          · exact isTainted_of_specific ((alreadySpecific_iff _).mp specific)
      · rw [same, isTainted_markTainted]
        have tainted : ∃ parent ∈ parents, tracker.isTainted parent = true :=
          ⟨parent, List.mem_of_find?_eq_some found, List.find?_some found⟩
        exact or_congr_right ⟨fun same => ⟨same, tainted⟩, And.left⟩

theorem specific_markTainted (tracker : TaintTracker) (hash : Digest) (reason : SourceReason) :
    (tracker.markTainted hash reason).Specific hash :=
  ⟨reason, Function.update_self _ _ _, reason.property⟩

theorem specific_markTainted_of_ne {marked hash : Digest} (reason : TaintReason)
    (apart : hash ≠ marked) :
    (tracker.markTainted marked reason).Specific hash ↔ tracker.Specific hash := by
  simp [Specific, markTainted, Function.update_of_ne apart]

theorem parentLink_markTainted_of_ne {marked hash : Digest} (reason : TaintReason)
    (apart : hash ≠ marked) :
    (tracker.markTainted marked reason).parentLink hash = tracker.parentLink hash := by
  simp [parentLink, markTainted, Function.update_of_ne apart]

/-- The reason of a source is never replaced by an inherited one. -/
theorem specific_call {hash : Digest} (specific : tracker.Specific hash) (next : Call) :
    (tracker.call next).Specific hash := by
  cases next with
  | markTainted marked reason =>
      by_cases same : hash = marked
      · rw [same]
        exact specific_markTainted tracker marked reason
      · exact (specific_markTainted_of_ne _ same).mpr specific
  | propagate parents child =>
      rcases propagate_cases tracker parents child with ⟨same, -⟩ | ⟨parent, -, open', same⟩
      · rw [same]
        exact specific
      · have apart : hash ≠ child := by
          rintro rfl
          rw [(alreadySpecific_iff _).mpr specific] at open'
          cases open'
        rw [same]
        exact (specific_markTainted_of_ne _ apart).mpr specific

theorem not_specific_of_parentLink {hash parent : Digest}
    (linked : tracker.parentLink hash = some parent) : ¬ tracker.Specific hash := by
  rintro ⟨reason, found, specific⟩
  simp [parentLink, found, specific] at linked

/-- Every tainted hash has a chain of reasons to a source. -/
def Explained (tracker : TaintTracker) : Prop :=
  ∀ hash, tracker.isTainted hash = true →
    LinkChains.Grounded tracker.parentLink tracker.Specific hash

theorem explained_new : new.Explained := by
  intro hash tainted
  cases tainted

theorem Explained.markTainted (explained : tracker.Explained) (marked : Digest)
    (reason : SourceReason) : (tracker.markTainted marked reason).Explained := by
  have fresh := specific_markTainted tracker marked reason
  have links : ∀ hash,
      (tracker.markTainted marked reason).parentLink hash = tracker.parentLink hash ∨
        (tracker.markTainted marked reason).Specific hash := by
    intro hash
    by_cases same : hash = marked
    · exact Or.inr (same ▸ fresh)
    · exact Or.inl (parentLink_markTainted_of_ne _ same)
  intro hash tainted
  rcases (isTainted_markTainted marked hash reason).mp tainted with before | rfl
  · refine (explained hash before).mono ?_ links
    exact fun hash specific => specific_call specific (.markTainted marked reason)
  · exact .source fresh

theorem parentLink_inherit (tracker : TaintTracker) (parent child : Digest) :
    (tracker.markTainted child (inheritedReason parent)).parentLink child =
      some parent := by
  simp [parentLink, markTainted, inheritedReason, TaintReason.propagated,
    TaintReason.new]

/-- A parent whose chain runs through the child leaves the child unexplained. -/
theorem not_explained_of_leads {parent child : Digest}
    (leads : LinkChains.Leads tracker.parentLink parent child) :
    ¬ (tracker.markTainted child (inheritedReason parent)).Explained := by
  intro explained
  have redirected := parentLink_inherit tracker parent child
  have inner : ∀ hash target, tracker.parentLink hash = some target →
      ¬ tracker.Specific hash := fun hash target => not_specific_of_parentLink
  apply LinkChains.not_grounded_of_leads redirected
    (not_specific_of_parentLink redirected) leads inner
  · exact fun hash apart => (specific_markTainted_of_ne _ apart).mp
  · exact fun hash apart => parentLink_markTainted_of_ne _ apart
  · exact explained child ((isTainted_markTainted child child _).mpr (Or.inr rfl))

/-- A hash gets an inherited reason: all chains still end exactly when that of the parent
does not run through the hash. -/
theorem Explained.inherit_iff (explained : tracker.Explained) {parent : Digest}
    (tainted : tracker.isTainted parent = true) (child : Digest) :
    ¬ LinkChains.Leads tracker.parentLink parent child ↔
      (tracker.markTainted child (inheritedReason parent)).Explained := by
  constructor
  · intro avoids
    have sources : ∀ hash, hash ≠ child → tracker.Specific hash →
        (tracker.markTainted child (inheritedReason parent)).Specific hash :=
      fun hash apart => (specific_markTainted_of_ne _ apart).mpr
    have links : ∀ hash, hash ≠ child →
        (tracker.markTainted child (inheritedReason parent)).parentLink hash =
          tracker.parentLink hash :=
      fun hash apart => parentLink_markTainted_of_ne _ apart
    have again := LinkChains.Grounded.link (parentLink_inherit tracker parent child)
      ((explained parent tainted).redirect avoids sources links)
    intro hash after
    rcases (isTainted_markTainted child hash _).mp after with before | rfl
    · exact (explained hash before).through again sources links
    · exact again
  · exact fun after leads => not_explained_of_leads leads after

/-- A call keeps all chains ending exactly when it links outward. -/
theorem linksOutward_iff (explained : tracker.Explained) (next : Call) :
    tracker.LinksOutward next ↔ (tracker.call next).Explained := by
  cases next with
  | markTainted marked reason =>
      exact ⟨fun _ => explained.markTainted marked reason, fun _ => trivial⟩
  | propagate parents child =>
      rcases propagate_cases tracker parents child with
        ⟨same, quiet⟩ | ⟨parent, found, open', same⟩
      · rw [same]
        refine ⟨fun _ => explained, fun _ parent found notSpecific => ?_⟩
        rcases quiet with clean | specific
        · have tainted : tracker.isTainted parent = true := List.find?_some found
          rw [clean parent (List.mem_of_find?_eq_some found)] at tainted
          cases tainted
        · rw [specific] at notSpecific
          cases notSpecific
      · rw [same, ← explained.inherit_iff (List.find?_some found)]
        constructor
        · exact fun outward => outward parent found open'
        · intro avoids other otherFound _
          rw [found] at otherFound
          rwa [← Option.some.inj otherFound]

theorem tainted_foldl (start : TaintTracker) (calls : List Call) (hash : Digest) :
    (calls.foldl call start).isTainted hash = true ↔
      start.isTainted hash = true ∨
        ∃ taken ∈ GuardedRun.steps call start calls, taken.1.Taints hash taken.2 := by
  induction calls generalizing start with
  | nil => simp [GuardedRun.steps]
  | cons next calls ih =>
      rw [List.foldl_cons, ih, isTainted_call, GuardedRun.steps, List.exists_mem_cons_iff,
        or_assoc]

theorem specific_foldl {hash : Digest} (specific : tracker.Specific hash)
    (calls : List Call) : (calls.foldl call tracker).Specific hash := by
  induction calls generalizing tracker with
  | nil => exact specific
  | cons next calls ih => exact ih (specific_call specific next)

theorem specific_of_marked (start : TaintTracker) {calls : List Call} {hash : Digest}
    {reason : SourceReason} (marked : .markTainted hash reason ∈ calls) :
    (calls.foldl call start).Specific hash := by
  obtain ⟨before, after, rfl⟩ := List.append_of_mem marked
  rw [List.foldl_append, List.foldl_cons]
  exact specific_foldl (specific_markTainted _ hash reason) after

theorem taintLaw_iff_explained (tracker : TaintTracker) (calls : List Call) :
    TaintLaw tracker.clear calls ↔ (calls.foldl call tracker.clear).Explained := by
  constructor
  · intro law hash tainted
    exact (grounded_inheritedFrom_iff hash).mp (law.explained hash tainted)
  · intro explained
    constructor
    case tainted =>
      intro hash
      rw [tainted_foldl]
      exact or_iff_right nofun
    case specific => exact fun hash reason => specific_of_marked tracker.clear
    case explained =>
      exact fun hash tainted =>
        (grounded_inheritedFrom_iff hash).mpr (explained hash tainted)

/-- The law holds after every call since a `clear` exactly when no propagation gives a hash
a parent whose chain of reasons runs through that hash. -/
theorem taint_lawful_iff (tracker : TaintTracker) (calls : List Call) :
    (∀ earlier, earlier <+: calls → TaintLaw tracker.clear earlier) ↔
      GuardedRun.Guarded call LinksOutward tracker.clear calls := by
  have start : tracker.clear.Explained := explained_new
  rw [GuardedRun.guarded_iff_invariant call LinksOutward Explained
    (fun state next explained => linksOutward_iff explained next) start]
  constructor
  · intro lawful state member
    obtain ⟨earlier, isPrefix, rfl⟩ := GuardedRun.mem_states_iff.mp member
    exact (taintLaw_iff_explained tracker earlier).mp (lawful earlier isPrefix)
  · intro explained earlier isPrefix
    exact (taintLaw_iff_explained tracker earlier).mpr
      (explained _ (GuardedRun.mem_states_iff.mpr ⟨earlier, isPrefix, rfl⟩))

/-- The digest whose bytes are all the given one. -/
def repeatedByte (byte : UInt8) : Digest := Vector.replicate 32 byte

/-- A hash, one that inherits from it, and one that inherits from that. -/
def inheritedTwice : List Call :=
  [.markTainted (repeatedByte 1) ⟨.external "webhook", by decide⟩,
    .propagate [repeatedByte 1] (repeatedByte 2),
    .propagate [repeatedByte 2] (repeatedByte 3)]

/-- The last hash is propagated back to the one it inherits from. -/
theorem backPropagation_unlawful :
    ¬ TaintLaw TaintTracker.new.clear
      (inheritedTwice ++ [.propagate [repeatedByte 3] (repeatedByte 2)]) := by
  have back : [repeatedByte 3].find?
      (inheritedTwice.foldl call TaintTracker.new.clear).isTainted =
        some (repeatedByte 3) := by
    decide +kernel
  rw [taintLaw_iff_explained, List.foldl_append, List.foldl_cons, List.foldl_nil,
    call_propagate back (by decide +kernel)]
  apply not_explained_of_leads
  exact Relation.ReflTransGen.single (by decide +kernel)

end TaintTracker

end Roko
