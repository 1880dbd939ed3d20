import Mathlib.Data.List.Basic

/-!
# Lines of bytes

A byte string is split into lines, each with the newline byte that ends it.  The last line
may be unterminated.  A line that is read loses its newline, and a carriage return before
it.  A text is blank if it consists of white space.
-/

namespace TextLines

def newline : UInt8 := 10

def carriageReturn : UInt8 := 13

/-- The lines of a byte string. -/
def split : List UInt8 → List (List UInt8)
  | [] => []
  | byte :: bytes =>
      if byte = newline then [byte] :: split bytes
      else match split bytes with
        | [] => [[byte]]
        | line :: lines => (byte :: line) :: lines

/-- What is left of a line when its end is taken off. -/
def chomp (line : List UInt8) : List UInt8 :=
  if line.getLast? = some newline then
    if line.dropLast.getLast? = some carriageReturn then line.dropLast.dropLast
    else line.dropLast
  else line

/-- The text that bytes encode in UTF-8. -/
def decode (bytes : List UInt8) : Option String :=
  String.fromUTF8? ⟨bytes.toArray⟩

/-- `char::is_whitespace`, the characters of Unicode's `White_Space`. -/
def isWhitespace (char : Char) : Bool :=
  let code := char.toNat
  (0x9 ≤ code && code ≤ 0xD) || code = 0x20 || code = 0x85 || code = 0xA0 || code = 0x1680 ||
    (0x2000 ≤ code && code ≤ 0x200A) || code = 0x2028 || code = 0x2029 || code = 0x202F ||
    code = 0x205F || code = 0x3000

/-- `line.trim().is_empty()`. -/
def isBlank (line : String) : Bool :=
  line.toList.all isWhitespace

/-- `str::trim`. -/
def trim (text : String) : String :=
  String.ofList ((text.toList.dropWhile isWhitespace).reverse.dropWhile isWhitespace).reverse

theorem split_terminated {line : List UInt8} (inner : newline ∉ line) (rest : List UInt8) :
    split (line ++ newline :: rest) = (line ++ [newline]) :: split rest := by
  induction line with
  | nil => simp [split]
  | cons byte line ih =>
      rw [List.mem_cons, not_or] at inner
      rw [List.cons_append, split, if_neg (Ne.symm inner.1), ih inner.2]
      rfl

theorem chomp_terminated {line : List UInt8} (last : line.getLast? ≠ some carriageReturn) :
    chomp (line ++ [newline]) = line := by
  rw [chomp, if_pos (by simp), List.dropLast_concat, if_neg last]

theorem decode_toByteArray (text : String) :
    decode text.toByteArray.data.toList = some text := by
  have valid : (⟨text.toByteArray.data.toList.toArray⟩ : ByteArray).IsValidUTF8 := by
    rw [Array.toArray_toList]
    exact text.isValidUTF8
  rw [decode, String.fromUTF8?, dif_pos valid, Option.some.injEq, ← String.toByteArray_inj]
  simp [String.fromUTF8]

/-- A decoded text is encoded by the bytes it was decoded from. -/
theorem toByteArray_of_decode {bytes : List UInt8} {text : String}
    (decoded : decode bytes = some text) : text.toByteArray.data.toList = bytes := by
  rw [decode, String.fromUTF8?] at decoded
  split at decoded
  · cases decoded
    simp [String.fromUTF8]
  · cases decoded

/-- A line that starts and ends with other characters is trimmed of its newline. -/
theorem trim_terminated {first last : Char} {text : String} {inner : List Char}
    (shape : text.toList = first :: (inner ++ [last])) (starts : isWhitespace first = false)
    (ends : isWhitespace last = false) : trim (text ++ "\n") = text := by
  have blank : isWhitespace '\n' = true := by decide
  have chars : (text ++ "\n").toList = first :: (inner ++ [last, '\n']) := by
    simp [String.toList_append, shape]
  have turned : (first :: (inner ++ [last, '\n'])).reverse =
      '\n' :: last :: (first :: inner).reverse := by
    simp
  rw [trim, chars, List.dropWhile_cons_of_neg (by simp [starts]), turned,
    List.dropWhile_cons_of_pos blank, List.dropWhile_cons_of_neg (by simp [ends])]
  simp [← shape]

end TextLines
