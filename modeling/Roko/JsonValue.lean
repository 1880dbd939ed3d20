import Mathlib.Data.String.Basic

/-!
# JSON values

The part of `serde_json::Value` that the orchestrator uses.  An object keeps its
members in ascending key order, as the `BTreeMap` behind `serde_json::Map` does;
a floating-point number is its 64-bit pattern.
-/

namespace Roko

/-- `serde_json::Number`. -/
inductive JsonNumber where
  | posInt (value : UInt64)
  | negInt (value : Int64)
  | float (bits : UInt64)
deriving DecidableEq

/-- `serde_json::Value`. -/
inductive JsonValue where
  | null
  | bool (value : Bool)
  | number (value : JsonNumber)
  | string (text : String)
  | array (values : List JsonValue)
  | object (members : List (String × JsonValue))

namespace JsonValue

mutual

/-- Equality of values, member by member. -/
def sameValue : JsonValue → JsonValue → Bool
  | .null, .null => true
  | .bool left, .bool right => left == right
  | .number left, .number right => left == right
  | .string left, .string right => left == right
  | .array left, .array right => sameValues left right
  | .object left, .object right => sameMembers left right
  | _, _ => false

def sameValues : List JsonValue → List JsonValue → Bool
  | [], [] => true
  | left :: lefts, right :: rights =>
      sameValue left right && sameValues lefts rights
  | _, _ => false

def sameMembers :
    List (String × JsonValue) → List (String × JsonValue) → Bool
  | [], [] => true
  | (leftKey, left) :: lefts, (rightKey, right) :: rights =>
      leftKey == rightKey && sameValue left right && sameMembers lefts rights
  | _, _ => false

end

mutual

theorem sameValue_iff : ∀ left right : JsonValue,
    sameValue left right = true ↔ left = right
  | .null, right => by cases right <;> simp [sameValue]
  | .bool _, right => by cases right <;> simp [sameValue]
  | .number _, right => by cases right <;> simp [sameValue]
  | .string _, right => by cases right <;> simp [sameValue]
  | .array values, right => by
      cases right with
      | array others => simp [sameValue, sameValues_iff values others]
      | _ => simp [sameValue]
  | .object members, right => by
      cases right with
      | object others => simp [sameValue, sameMembers_iff members others]
      | _ => simp [sameValue]

theorem sameValues_iff : ∀ left right : List JsonValue,
    sameValues left right = true ↔ left = right
  | [], right => by cases right <;> simp [sameValues]
  | value :: values, right => by
      cases right with
      | nil => simp [sameValues]
      | cons other others =>
          simp [sameValues, sameValue_iff value other,
            sameValues_iff values others]

theorem sameMembers_iff : ∀ left right : List (String × JsonValue),
    sameMembers left right = true ↔ left = right
  | [], right => by cases right <;> simp [sameMembers]
  | (key, value) :: members, right => by
      cases right with
      | nil => simp [sameMembers]
      | cons other others =>
          obtain ⟨otherKey, otherValue⟩ := other
          simp [sameMembers, sameValue_iff value otherValue,
            sameMembers_iff members others, and_assoc]

end

instance : DecidableEq JsonValue :=
  fun left right => decidable_of_iff _ (sameValue_iff left right)

/-- Insert a member in key order; an existing member of that key is replaced. -/
def insertMember (key : String) (value : JsonValue) :
    List (String × JsonValue) → List (String × JsonValue)
  | [] => [(key, value)]
  | (otherKey, other) :: members =>
      if key < otherKey then (key, value) :: (otherKey, other) :: members
      else if key = otherKey then (key, value) :: members
      else (otherKey, other) :: insertMember key value members

/-- The members of an object built by inserting the given ones in turn. -/
def collectMembers (members : List (String × JsonValue)) :
    List (String × JsonValue) :=
  members.foldl (fun sorted member => insertMember member.1 member.2 sorted) []

def lookupMember (key : String) (members : List (String × JsonValue)) :
    Option JsonValue :=
  (members.find? fun member => member.1 == key).map Prod.snd

/-- `Value::get` with a string index. -/
def get (value : JsonValue) (key : String) : Option JsonValue :=
  match value with
  | .object members => lookupMember key members
  | _ => none

def asU64 : JsonValue → Option UInt64
  | .number (.posInt value) => some value
  | _ => none

def asStr : JsonValue → Option String
  | .string text => some text
  | _ => none

def asBool : JsonValue → Option Bool
  | .bool value => some value
  | _ => none

def asArray : JsonValue → Option (List JsonValue)
  | .array values => some values
  | _ => none

mutual

/-- `sort_json_objects`: every object is rebuilt in key order. -/
def sortJsonObjects : JsonValue → JsonValue
  | .object members => .object (collectMembers (sortMembers members))
  | .array values => .array (sortValues values)
  | .null => .null
  | .bool value => .bool value
  | .number value => .number value
  | .string text => .string text

def sortValues : List JsonValue → List JsonValue
  | [] => []
  | value :: values => sortJsonObjects value :: sortValues values

def sortMembers : List (String × JsonValue) → List (String × JsonValue)
  | [] => []
  | (key, value) :: members => (key, sortJsonObjects value) :: sortMembers members

end

@[simp]
theorem lookupMember_nil (key : String) : lookupMember key [] = none :=
  rfl

theorem lookupMember_insertMember (key other : String) (value : JsonValue)
    (members : List (String × JsonValue)) :
    lookupMember other (insertMember key value members) =
      if key = other then some value else lookupMember other members := by
  induction members with
  | nil => by_cases same : key = other <;> simp [insertMember, lookupMember, same]
  | cons member members ih =>
      obtain ⟨memberKey, stored⟩ := member
      simp only [lookupMember] at ih
      by_cases same : key = other
      · subst same
        simp only [insertMember]
        split
        · simp [lookupMember]
        · split
          · simp [lookupMember]
          case isFalse differs =>
            simp_all [lookupMember, Ne.symm differs]
      · simp only [insertMember, if_neg same]
        split
        · simp [lookupMember, same]
        · split
          case isTrue sameMember =>
            subst sameMember
            simp [lookupMember, same]
          · by_cases hit : memberKey = other <;>
              simp_all [lookupMember]

theorem mem_insertMember {key : String} {value : JsonValue}
    {members : List (String × JsonValue)} {member : String × JsonValue}
    (inside : member ∈ insertMember key value members) :
    member = (key, value) ∨ member ∈ members := by
  induction members with
  | nil =>
      left
      simpa [insertMember] using inside
  | cons head members ih =>
      obtain ⟨headKey, headValue⟩ := head
      rw [insertMember] at inside
      split at inside
      · simpa using inside
      · split at inside
        · rcases List.mem_cons.mp inside with same | later
          · exact .inl same
          · exact .inr (List.mem_cons_of_mem _ later)
        · rcases List.mem_cons.mp inside with same | later
          · exact .inr (by simp [same])
          · rcases ih later with same | old
            · exact .inl same
            · exact .inr (List.mem_cons_of_mem _ old)

theorem mem_keys_insertMember {key other : String} {value : JsonValue}
    {members : List (String × JsonValue)} :
    other ∈ (insertMember key value members).map Prod.fst ↔
      other = key ∨ other ∈ members.map Prod.fst := by
  induction members with
  | nil => simp [insertMember]
  | cons head members ih =>
      obtain ⟨headKey, headValue⟩ := head
      rw [insertMember]
      split
      · simp
      · split
        case isTrue same => simp [same]
        case isFalse =>
          rw [List.map_cons, List.mem_cons, ih, List.map_cons, List.mem_cons]
          exact or_left_comm

end JsonValue

end Roko
