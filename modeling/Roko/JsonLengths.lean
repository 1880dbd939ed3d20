import Roko.JsonValue
import Mathlib.Algebra.GroupWithZero.Nat
import Mathlib.Data.List.Pairwise

/-!
# Lengths of JSON texts

How many bytes the compact text of a value has, where the texts of numbers are left open.  A
member that is replaced changes the length of its object by the difference of the two values.
-/

namespace Roko

namespace JsonValue

/-- The bytes of a character in a string, with the escapes of two and of six bytes. -/
def charLength (char : Char) : Nat :=
  if char = '"' || char = '\\' || [8, 9, 10, 12, 13].contains char.toNat then 2
  else if char.toNat < 32 then 6
  else char.utf8Size

def stringLength (text : String) : Nat :=
  2 + (text.toList.map charLength).sum

section Lengths

variable (numberLength : JsonNumber → Nat)

mutual

def textLength : JsonValue → Nat
  | .null => 4
  | .bool value => if value then 4 else 5
  | .number value => numberLength value
  | .string text => stringLength text
  | .array values => 2 + valuesLength values + (values.length - 1)
  | .object members => 2 + membersLength members + (members.length - 1)

def valuesLength : List JsonValue → Nat
  | [] => 0
  | value :: values => textLength value + valuesLength values

def membersLength : List (String × JsonValue) → Nat
  | [] => 0
  | (key, value) :: members =>
      stringLength key + 1 + textLength value + membersLength members

end

end Lengths

/-- The keys of an object ascend. -/
def Ordered : JsonValue → Prop
  | .object members => members.Pairwise fun first second => first.1 < second.1
  | _ => True

instance : DecidablePred Ordered
  | .object members =>
      inferInstanceAs (Decidable (members.Pairwise fun first second => first.1 < second.1))
  | .null | .bool _ | .number _ | .string _ | .array _ => .isTrue trivial

theorem charLength_pos (char : Char) : 0 < charLength char := by
  rw [charLength]
  split
  · exact Nat.zero_lt_two
  · split
    · exact Nat.zero_lt_succ _
    · exact char.utf8Size_pos

theorem length_le_charLengths (chars : List Char) :
    chars.length ≤ (chars.map charLength).sum := by
  induction chars with
  | nil => exact Nat.le_refl 0
  | cons char chars ih =>
      have one := charLength_pos char
      rw [List.length_cons, List.map_cons, List.sum_cons]
      omega

/-- A character of ASCII that is no quotation mark, backslash or control takes one byte. -/
theorem charLength_of_plain {char : Char} (visible : 32 ≤ char.toNat) (ascii : char.toNat < 127)
    (noQuote : char ≠ '"') (noBackslash : char ≠ '\\') : charLength char = 1 := by
  have noEscape : [8, 9, 10, 12, 13].contains char.toNat = false := by
    simp only [List.contains_eq_mem, List.mem_cons, List.not_mem_nil, or_false,
      decide_eq_false_iff_not]
    omega
  have small : char.val ≤ 0x7F := by
    rw [UInt32.le_iff_toNat_le]
    exact Nat.le_of_lt_succ (ascii.trans (by decide))
  rw [charLength, noEscape, if_neg (by simp [noQuote, noBackslash]), if_neg (by omega),
    Char.utf8Size_eq_one_iff.mpr small]

theorem charLength_digit {char : Char} (digit : char.isDigit = true) : charLength char = 1 := by
  have range : 48 ≤ char.toNat ∧ char.toNat ≤ 57 := by
    simpa [Char.isDigit, UInt32.le_iff_toNat_le] using digit
  refine charLength_of_plain (by omega) (by omega) ?_ ?_
  · rintro rfl
    exact absurd range.1 (by decide)
  · rintro rfl
    exact absurd range.2 (by decide)

theorem charLengths_toString (value : Nat) :
    ((toString value).toList.map charLength).sum = (Nat.toDigits 10 value).length := by
  have digits : (toString value).toList = Nat.toDigits 10 value := Nat.toList_repr
  have ones : (Nat.toDigits 10 value).map charLength =
      (Nat.toDigits 10 value).map fun _ => 1 :=
    List.map_congr_left fun char member =>
      charLength_digit (Nat.isDigit_of_mem_toDigits (by decide) (by decide) member)
  rw [digits, ones, List.map_const', List.sum_replicate_nat, Nat.mul_one]

section Members

variable {members : List (String × JsonValue)} {key : String} {old : JsonValue}

theorem pairwise_insertMember (sorted : members.Pairwise fun first second => first.1 < second.1)
    (key : String) (value : JsonValue) :
    (insertMember key value members).Pairwise fun first second => first.1 < second.1 := by
  induction members with
  | nil => simp [insertMember]
  | cons member members ih =>
      obtain ⟨other, stored⟩ := member
      rw [List.pairwise_cons] at sorted
      rw [insertMember]
      split
      case isTrue before =>
        refine List.pairwise_cons.mpr ⟨fun later inside => ?_, List.pairwise_cons.mpr sorted⟩
        rcases List.mem_cons.mp inside with rfl | inside
        · exact before
        · exact before.trans (sorted.1 later inside)
      case isFalse notBefore =>
        split
        case isTrue same =>
          subst same
          exact List.pairwise_cons.mpr sorted
        case isFalse different =>
          refine List.pairwise_cons.mpr ⟨fun later inside => ?_, ih sorted.2⟩
          rcases mem_insertMember inside with rfl | inside
          · exact lt_of_le_of_ne (not_lt.mp notBefore) (Ne.symm different)
          · exact sorted.1 later inside

theorem membersLength_insertMember (numberLength : JsonNumber → Nat)
    (sorted : members.Pairwise fun first second => first.1 < second.1)
    (found : lookupMember key members = some old) (new : JsonValue) :
    membersLength numberLength (insertMember key new members) + textLength numberLength old =
        membersLength numberLength members + textLength numberLength new ∧
      (insertMember key new members).length = members.length := by
  induction members with
  | nil => simp at found
  | cons member members ih =>
      obtain ⟨other, stored⟩ := member
      rw [List.pairwise_cons] at sorted
      rw [insertMember]
      by_cases same : key = other
      · subst same
        have stored_eq : stored = old := by simpa [lookupMember] using found
        subst stored_eq
        simp only [lt_irrefl, if_false, if_true, membersLength, List.length_cons, and_true]
        omega
      · have found' : lookupMember key members = some old := by
          simpa [lookupMember, Ne.symm same] using found
        have after : ¬ key < other := by
          intro before
          obtain ⟨member, inside, _⟩ := Option.map_eq_some_iff.mp found'
          have least := sorted.1 member (List.mem_of_find?_eq_some inside)
          have isKey : member.1 = key := by simpa using List.find?_some inside
          exact absurd (isKey ▸ least) (lt_asymm before)
        obtain ⟨length, count⟩ := ih sorted.2 found'
        simp only [if_neg after, if_neg same, membersLength, List.length_cons, count, and_true]
        omega

end Members

end JsonValue

end Roko
