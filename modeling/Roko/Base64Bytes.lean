import Roko.ContentHash
import Mathlib.Data.Nat.Bitwise

/-!
# Byte bodies in base64

The encoder and the decoder of `base64_bytes` in `roko-core/src/body.rs`.  The decoder takes
a padding character for a zero in any place of any group, and drops the bits that a padded
group leaves unused, so it accepts texts that no bytes are encoded as.
-/

namespace Roko

namespace Base64

/-- `CHARS`. -/
def symbols : List UInt8 :=
  textBytes "ABCDEFGHIJKLMNOPQRSTUVWXYZabcdefghijklmnopqrstuvwxyz0123456789+/"

def padding : UInt8 := 61

/-- The symbol for the six bits of a number from a place on. -/
def symbolAt (bits place : Nat) : UInt8 :=
  symbols.getD (bits >>> place &&& 0x3f) 0

def encodeBytes : List UInt8 → List UInt8
  | first :: second :: third :: rest =>
      let bits := first.toNat <<< 16 ||| second.toNat <<< 8 ||| third.toNat
      symbolAt bits 18 :: symbolAt bits 12 :: symbolAt bits 6 :: symbolAt bits 0 ::
        encodeBytes rest
  | [first, second] =>
      let bits := first.toNat <<< 16 ||| second.toNat <<< 8
      [symbolAt bits 18, symbolAt bits 12, symbolAt bits 6, padding]
  | [first] =>
      let bits := first.toNat <<< 16
      [symbolAt bits 18, symbolAt bits 12, padding, padding]
  | [] => []

def encodeBase64 (bytes : List UInt8) : String :=
  String.ofList ((encodeBytes bytes).map fun byte => Char.ofNat byte.toNat)

def val (byte : UInt8) : Option Nat :=
  let code := byte.toNat
  if 65 ≤ code ∧ code ≤ 90 then some (code - 65)
  else if 97 ≤ code ∧ code ≤ 122 then some (code - 97 + 26)
  else if 48 ≤ code ∧ code ≤ 57 then some (code - 48 + 52)
  else if code = 43 then some 62
  else if code = 47 then some 63
  else none

/-- The value of a character in a group, and how much it adds to the padding. -/
def decodeByte (byte : UInt8) : Except String (Nat × Nat) :=
  if byte = padding then .ok (0, 1)
  else
    match val byte with
    | some value => .ok (value, 0)
    | none => .error ("invalid base64 byte: " ++ toString byte.toNat)

/-- The bytes of a group with some values and some padding. -/
def groupBytes (bits pad : Nat) : List UInt8 :=
  UInt8.ofNat (bits >>> 16 &&& 0xff) ::
    (if pad < 2 then [UInt8.ofNat (bits >>> 8 &&& 0xff)] else []) ++
      if pad < 1 then [UInt8.ofNat (bits &&& 0xff)] else []

def decodeGroup (first second third fourth : UInt8) : Except String (List UInt8) := do
  let (value₁, pad₁) ← decodeByte first
  let (value₂, pad₂) ← decodeByte second
  let (value₃, pad₃) ← decodeByte third
  let (value₄, pad₄) ← decodeByte fourth
  let bits := value₁ <<< 18 ||| value₂ <<< 12 ||| value₃ <<< 6 ||| value₄
  return groupBytes bits (pad₁ + pad₂ + pad₃ + pad₄)

/-- The loop over the groups of four. -/
def decodeGroups : List UInt8 → Except String (List UInt8)
  | first :: second :: third :: fourth :: rest => do
      let bytes ← decodeGroup first second third fourth
      let later ← decodeGroups rest
      return bytes ++ later
  | _ => .ok []

def decodeBase64 (text : String) : Except String (List UInt8) :=
  let bytes := textBytes text
  if bytes.length % 4 ≠ 0 then .error "base64 length not multiple of 4"
  else decodeGroups bytes

theorem val_symbols : ∀ index < 64,
    val (symbols.getD index 0) = some index ∧ symbols.getD index 0 ≠ padding ∧
      (symbols.getD index 0).toNat < 128 := by
  decide +kernel

theorem symbols_val : ∀ code < 256, ∀ value ∈ val (UInt8.ofNat code),
    value < 64 ∧ symbols.getD value 0 = UInt8.ofNat code := by
  decide +kernel

theorem symbols_of_val {byte : UInt8} {value : Nat} (found : val byte = some value) :
    value < 64 ∧ symbols.getD value 0 = byte := by
  have all := symbols_val byte.toNat byte.toNat_lt value
  rw [UInt8.ofNat_toNat] at all
  exact all found

theorem symbolAt_eq (bits place : Nat) :
    symbolAt bits place = symbols.getD (bits / 2 ^ place % 64) 0 := by
  have mask : (0x3f : Nat) = 2 ^ 6 - 1 := rfl
  rw [symbolAt, mask, Nat.and_two_pow_sub_one_eq_mod, Nat.shiftRight_eq_div_pow]

/-- A number behind a shifted one is added to it. -/
theorem shiftLeft_or {low place : Nat} (small : low < 2 ^ place) (high : Nat) :
    high <<< place ||| low = high * 2 ^ place + low := by
  rw [← Nat.shiftLeft_add_eq_or_of_lt small, Nat.shiftLeft_eq]

theorem join_bytes (first second third : UInt8) :
    first.toNat <<< 16 ||| second.toNat <<< 8 ||| third.toNat =
      first.toNat * 65536 + second.toNat * 256 + third.toNat := by
  have bound := second.toNat_lt
  have low : third.toNat < 2 ^ 8 := third.toNat_lt
  have high : second.toNat * 2 ^ 8 + third.toNat < 2 ^ 16 := by omega
  rw [Nat.or_assoc, shiftLeft_or low, shiftLeft_or high]
  omega

theorem join_values {value₁ value₂ value₃ value₄ : Nat} (small₂ : value₂ < 64)
    (small₃ : value₃ < 64) (small₄ : value₄ < 64) :
    value₁ <<< 18 ||| value₂ <<< 12 ||| value₃ <<< 6 ||| value₄ =
      value₁ * 262144 + value₂ * 4096 + value₃ * 64 + value₄ := by
  have first : value₄ < 2 ^ 6 := small₄
  have second : value₃ * 2 ^ 6 + value₄ < 2 ^ 12 := by omega
  have third : value₂ * 2 ^ 12 + (value₃ * 2 ^ 6 + value₄) < 2 ^ 18 := by omega
  rw [Nat.or_assoc, Nat.or_assoc, shiftLeft_or first, shiftLeft_or second, shiftLeft_or third]
  omega

theorem byteAt_eq (bits place : Nat) : bits >>> place &&& 0xff = bits / 2 ^ place % 256 := by
  have mask : (0xff : Nat) = 2 ^ 8 - 1 := rfl
  rw [mask, Nat.and_two_pow_sub_one_eq_mod, Nat.shiftRight_eq_div_pow]

theorem groupBytes_eq (bits pad : Nat) :
    groupBytes bits pad = UInt8.ofNat (bits / 65536 % 256) ::
      (if pad < 2 then [UInt8.ofNat (bits / 256 % 256)] else []) ++
        if pad < 1 then [UInt8.ofNat (bits % 256)] else [] := by
  have last : bits &&& 0xff = bits % 256 := by
    have shifted := byteAt_eq bits 0
    rwa [Nat.shiftRight_zero, pow_zero, Nat.div_one] at shifted
  rw [groupBytes, byteAt_eq, byteAt_eq, last]
  rfl

section Groups

variable {value₁ value₂ value₃ value₄ : Nat}

theorem decodeByte_symbol {value : Nat} (small : value < 64) :
    decodeByte (symbols.getD value 0) = .ok (value, 0) := by
  obtain ⟨found, noPadding, _⟩ := val_symbols value small
  rw [decodeByte, if_neg noPadding, found]

theorem decodeByte_padding : decodeByte padding = .ok (0, 1) :=
  rfl

theorem decodeGroup_symbols (small₁ : value₁ < 64) (small₂ : value₂ < 64) (small₃ : value₃ < 64)
    (small₄ : value₄ < 64) :
    decodeGroup (symbols.getD value₁ 0) (symbols.getD value₂ 0) (symbols.getD value₃ 0)
        (symbols.getD value₄ 0) =
      .ok (groupBytes (value₁ * 262144 + value₂ * 4096 + value₃ * 64 + value₄) 0) := by
  simp only [decodeGroup, decodeByte_symbol small₁, decodeByte_symbol small₂,
    decodeByte_symbol small₃, decodeByte_symbol small₄, ← join_values small₂ small₃ small₄]
  rfl

theorem decodeGroup_padded (small₁ : value₁ < 64) (small₂ : value₂ < 64) (small₃ : value₃ < 64) :
    decodeGroup (symbols.getD value₁ 0) (symbols.getD value₂ 0) (symbols.getD value₃ 0) padding =
      .ok (groupBytes (value₁ * 262144 + value₂ * 4096 + value₃ * 64) 1) := by
  have join : value₁ <<< 18 ||| value₂ <<< 12 ||| value₃ <<< 6 ||| 0 =
      value₁ * 262144 + value₂ * 4096 + value₃ * 64 := by
    rw [join_values small₂ small₃ (Nat.zero_lt_succ 63), Nat.add_zero]
  simp only [decodeGroup, decodeByte_symbol small₁, decodeByte_symbol small₂,
    decodeByte_symbol small₃, decodeByte_padding, ← join]
  rfl

theorem decodeGroup_padded_twice (small₁ : value₁ < 64) (small₂ : value₂ < 64) :
    decodeGroup (symbols.getD value₁ 0) (symbols.getD value₂ 0) padding padding =
      .ok (groupBytes (value₁ * 262144 + value₂ * 4096) 2) := by
  have join : value₁ <<< 18 ||| value₂ <<< 12 ||| 0 <<< 6 ||| 0 =
      value₁ * 262144 + value₂ * 4096 := by
    rw [join_values small₂ (Nat.zero_lt_succ 63) (Nat.zero_lt_succ 63), Nat.zero_mul,
      Nat.add_zero]
  simp only [decodeGroup, decodeByte_symbol small₁, decodeByte_symbol small₂,
    decodeByte_padding, ← join]
  rfl

end Groups

theorem sextet_lt (bits place : Nat) : bits / 2 ^ place % 64 < 64 :=
  Nat.mod_lt _ (by decide)

theorem groupBytes_join (first second third : UInt8) (pad : Nat) :
    groupBytes (first.toNat * 65536 + second.toNat * 256 + third.toNat) pad =
      first :: (if pad < 2 then [second] else []) ++ if pad < 1 then [third] else [] := by
  have bound := first.toNat_lt
  have bound' := second.toNat_lt
  have bound'' := third.toNat_lt
  have byte₁ : (first.toNat * 65536 + second.toNat * 256 + third.toNat) / 65536 % 256 =
      first.toNat := by omega
  have byte₂ : (first.toNat * 65536 + second.toNat * 256 + third.toNat) / 256 % 256 =
      second.toNat := by omega
  have byte₃ : (first.toNat * 65536 + second.toNat * 256 + third.toNat) % 256 =
      third.toNat := by omega
  rw [groupBytes_eq, byte₁, byte₂, byte₃, UInt8.ofNat_toNat, UInt8.ofNat_toNat,
    UInt8.ofNat_toNat]

theorem sextets_join {bits : Nat} (small : bits < 2 ^ 24) :
    bits / 2 ^ 18 % 64 * 262144 + bits / 2 ^ 12 % 64 * 4096 + bits / 2 ^ 6 % 64 * 64 +
      bits / 2 ^ 0 % 64 = bits := by
  omega

/-- Bytes are decoded from what they are encoded as. -/
theorem decodeGroups_encodeBytes (bytes : List UInt8) :
    decodeGroups (encodeBytes bytes) = .ok bytes := by
  induction bytes using encodeBytes.induct with
  | case1 first second third rest ih =>
      have bound := first.toNat_lt
      have bound' := second.toNat_lt
      have bound'' := third.toNat_lt
      simp only [encodeBytes, decodeGroups, symbolAt_eq, join_bytes, ih]
      rw [decodeGroup_symbols (sextet_lt _ _) (sextet_lt _ _) (sextet_lt _ _) (sextet_lt _ _),
        sextets_join (by omega), groupBytes_join]
      rfl
  | case2 first second =>
      have bound := first.toNat_lt
      have bound' := second.toNat_lt
      have join := join_bytes first second 0
      rw [UInt8.toNat_zero, Nat.or_zero] at join
      have sextets : (first.toNat * 65536 + second.toNat * 256 + 0) / 2 ^ 18 % 64 * 262144 +
          (first.toNat * 65536 + second.toNat * 256 + 0) / 2 ^ 12 % 64 * 4096 +
          (first.toNat * 65536 + second.toNat * 256 + 0) / 2 ^ 6 % 64 * 64 =
            first.toNat * 65536 + second.toNat * 256 + 0 := by
        omega
      simp only [encodeBytes, decodeGroups, symbolAt_eq, join]
      rw [decodeGroup_padded (sextet_lt _ _) (sextet_lt _ _) (sextet_lt _ _), sextets]
      exact congrArg (fun bytes => Except.ok (bytes ++ [])) (groupBytes_join first second 0 1)
  | case3 first =>
      have bound := first.toNat_lt
      have join := join_bytes first 0 0
      rw [UInt8.toNat_zero, Nat.zero_shiftLeft, Nat.or_zero, Nat.or_zero] at join
      have sextets : (first.toNat * 65536 + 0 * 256 + 0) / 2 ^ 18 % 64 * 262144 +
          (first.toNat * 65536 + 0 * 256 + 0) / 2 ^ 12 % 64 * 4096 =
            first.toNat * 65536 + 0 * 256 + 0 := by
        omega
      simp only [encodeBytes, decodeGroups, symbolAt_eq, join]
      rw [decodeGroup_padded_twice (sextet_lt _ _) (sextet_lt _ _), sextets]
      exact congrArg (fun bytes => Except.ok (bytes ++ [])) (groupBytes_join first 0 0 2)
  | case4 => rfl

def isSymbol (byte : UInt8) : Bool :=
  (val byte).isSome

/-- A symbol whose last bits are not used. -/
def sparesBits (divisor : Nat) (byte : UInt8) : Bool :=
  (val byte).any fun value => value % divisor = 0

/-- A text of groups of four symbols, where padding stands only at the end of the last group
and leaves no bit that is set unused. -/
def canonical : List UInt8 → Bool
  | [] => true
  | [first, second, third, fourth] =>
      isSymbol first &&
        (isSymbol second && isSymbol third && isSymbol fourth ||
          isSymbol second && sparesBits 4 third && fourth == padding ||
          sparesBits 16 second && third == padding && fourth == padding)
  | first :: second :: third :: fourth :: rest =>
      isSymbol first && isSymbol second && isSymbol third && isSymbol fourth && canonical rest
  | _ => false

theorem canonical_cons {rest : List UInt8} (more : rest ≠ [])
    (first second third fourth : UInt8) :
    canonical (first :: second :: third :: fourth :: rest) =
      (isSymbol first && isSymbol second && isSymbol third && isSymbol fourth &&
        canonical rest) := by
  cases rest with
  | nil => exact absurd rfl more
  | cons next rest => rw [canonical]; simp

theorem isSymbol_symbolAt (bits place : Nat) : isSymbol (symbolAt bits place) = true := by
  rw [symbolAt_eq, isSymbol, (val_symbols _ (sextet_lt bits place)).1]
  rfl

theorem sparesBits_symbolAt {bits place divisor : Nat}
    (unused : bits / 2 ^ place % 64 % divisor = 0) :
    sparesBits divisor (symbolAt bits place) = true := by
  rw [symbolAt_eq, sparesBits, (val_symbols _ (sextet_lt bits place)).1]
  exact decide_eq_true unused

theorem canonical_encodeBytes (bytes : List UInt8) : canonical (encodeBytes bytes) = true := by
  induction bytes using encodeBytes.induct with
  | case1 first second third rest ih =>
      rw [encodeBytes]
      by_cases more : encodeBytes rest = []
      · rw [more, canonical]
        simp only [isSymbol_symbolAt, Bool.and_self, Bool.true_or]
      · rw [canonical_cons more, ih]
        simp only [isSymbol_symbolAt, Bool.and_self]
  | case2 first second =>
      have join := join_bytes first second 0
      rw [UInt8.toNat_zero, Nat.or_zero] at join
      have spare : sparesBits 4 (symbolAt (first.toNat <<< 16 ||| second.toNat <<< 8) 6) = true :=
        sparesBits_symbolAt (by omega)
      rw [encodeBytes, canonical]
      simp [isSymbol_symbolAt, spare]
  | case3 first =>
      have spare : sparesBits 16 (symbolAt (first.toNat <<< 16) 12) = true :=
        sparesBits_symbolAt (by rw [Nat.shiftLeft_eq]; omega)
      rw [encodeBytes, canonical]
      simp [isSymbol_symbolAt, spare]
  | case4 => rfl

theorem exists_of_isSymbol {byte : UInt8} (isOne : isSymbol byte = true) :
    ∃ value < 64, byte = symbols.getD value 0 := by
  obtain ⟨value, found⟩ := Option.isSome_iff_exists.mp isOne
  obtain ⟨small, symbol⟩ := symbols_of_val found
  exact ⟨value, small, symbol.symm⟩

theorem exists_of_sparesBits {divisor : Nat} {byte : UInt8}
    (spare : sparesBits divisor byte = true) :
    ∃ value < 64, byte = symbols.getD value 0 ∧ value % divisor = 0 := by
  rw [sparesBits] at spare
  cases found : val byte with
  | none => simp [found] at spare
  | some value =>
      obtain ⟨small, symbol⟩ := symbols_of_val found
      rw [found, Option.any_some, decide_eq_true_eq] at spare
      exact ⟨value, small, symbol.symm, spare⟩

/-- A number of 24 bits is made of three bytes. -/
theorem exists_bytes {bits : Nat} (small : bits < 2 ^ 24) :
    ∃ first second third : UInt8,
      bits = first.toNat * 65536 + second.toNat * 256 + third.toNat := by
  refine ⟨UInt8.ofNat (bits / 65536), UInt8.ofNat (bits / 256 % 256), UInt8.ofNat (bits % 256), ?_⟩
  rw [UInt8.toNat_ofNat', UInt8.toNat_ofNat', UInt8.toNat_ofNat']
  omega

section Inverse

variable {value₁ value₂ value₃ value₄ : Nat}

theorem sextets_of_values (small₁ : value₁ < 64) (small₂ : value₂ < 64) (small₃ : value₃ < 64)
    (small₄ : value₄ < 64) :
    (value₁ * 262144 + value₂ * 4096 + value₃ * 64 + value₄) / 2 ^ 18 % 64 = value₁ ∧
      (value₁ * 262144 + value₂ * 4096 + value₃ * 64 + value₄) / 2 ^ 12 % 64 = value₂ ∧
      (value₁ * 262144 + value₂ * 4096 + value₃ * 64 + value₄) / 2 ^ 6 % 64 = value₃ ∧
      (value₁ * 262144 + value₂ * 4096 + value₃ * 64 + value₄) / 2 ^ 0 % 64 = value₄ := by
  refine ⟨?_, ?_, ?_, ?_⟩ <;> omega

theorem exists_decodeGroup (small₁ : value₁ < 64) (small₂ : value₂ < 64) (small₃ : value₃ < 64)
    (small₄ : value₄ < 64) (rest : List UInt8) :
    ∃ first second third,
      decodeGroup (symbols.getD value₁ 0) (symbols.getD value₂ 0) (symbols.getD value₃ 0)
          (symbols.getD value₄ 0) = .ok [first, second, third] ∧
        encodeBytes (first :: second :: third :: rest) =
          symbols.getD value₁ 0 :: symbols.getD value₂ 0 :: symbols.getD value₃ 0 ::
            symbols.getD value₄ 0 :: encodeBytes rest := by
  have small : value₁ * 262144 + value₂ * 4096 + value₃ * 64 + value₄ < 2 ^ 24 := by omega
  obtain ⟨first, second, third, whole⟩ := exists_bytes small
  obtain ⟨sextet₁, sextet₂, sextet₃, sextet₄⟩ := sextets_of_values small₁ small₂ small₃ small₄
  refine ⟨first, second, third, ?_, ?_⟩
  · rw [decodeGroup_symbols small₁ small₂ small₃ small₄, whole, groupBytes_join]
    rfl
  · simp only [encodeBytes, join_bytes, ← whole, symbolAt_eq, sextet₁, sextet₂, sextet₃, sextet₄]

theorem exists_decodeGroup_padded (small₁ : value₁ < 64) (small₂ : value₂ < 64)
    (small₃ : value₃ < 64) (unused : value₃ % 4 = 0) :
    ∃ first second,
      decodeGroup (symbols.getD value₁ 0) (symbols.getD value₂ 0) (symbols.getD value₃ 0)
          padding = .ok [first, second] ∧
        encodeBytes [first, second] =
          [symbols.getD value₁ 0, symbols.getD value₂ 0, symbols.getD value₃ 0, padding] := by
  have small : value₁ * 262144 + value₂ * 4096 + value₃ * 64 + 0 < 2 ^ 24 := by omega
  obtain ⟨first, second, third, whole⟩ := exists_bytes small
  obtain ⟨sextet₁, sextet₂, sextet₃, _⟩ :=
    sextets_of_values small₁ small₂ small₃ (Nat.zero_lt_succ 63)
  have bound := third.toNat_lt
  have none : third = 0 := UInt8.toNat_inj.mp (show third.toNat = 0 by omega)
  subst none
  refine ⟨first, second, ?_, ?_⟩
  · rw [decodeGroup_padded small₁ small₂ small₃, ← Nat.add_zero (_ + value₃ * 64), whole,
      groupBytes_join]
    rfl
  · have join := join_bytes first second 0
    rw [UInt8.toNat_zero, Nat.or_zero] at join
    rw [UInt8.toNat_zero] at whole
    simp only [encodeBytes, join, ← whole, symbolAt_eq, sextet₁, sextet₂, sextet₃]

theorem exists_decodeGroup_padded_twice (small₁ : value₁ < 64) (small₂ : value₂ < 64)
    (unused : value₂ % 16 = 0) :
    ∃ first,
      decodeGroup (symbols.getD value₁ 0) (symbols.getD value₂ 0) padding padding =
          .ok [first] ∧
        encodeBytes [first] =
          [symbols.getD value₁ 0, symbols.getD value₂ 0, padding, padding] := by
  have small : value₁ * 262144 + value₂ * 4096 + 0 * 64 + 0 < 2 ^ 24 := by omega
  obtain ⟨first, second, third, whole⟩ := exists_bytes small
  obtain ⟨sextet₁, sextet₂, _, _⟩ :=
    sextets_of_values small₁ small₂ (Nat.zero_lt_succ 63) (Nat.zero_lt_succ 63)
  have bound := second.toNat_lt
  have bound' := third.toNat_lt
  have none : second = 0 := UInt8.toNat_inj.mp (show second.toNat = 0 by omega)
  have none' : third = 0 := UInt8.toNat_inj.mp (show third.toNat = 0 by omega)
  subst none none'
  have joined : value₁ * 262144 + value₂ * 4096 =
      first.toNat * 65536 + (0 : UInt8).toNat * 256 + (0 : UInt8).toNat := by
    rw [← whole, Nat.zero_mul, Nat.add_zero]
  refine ⟨first, ?_, ?_⟩
  · rw [decodeGroup_padded_twice small₁ small₂, joined, groupBytes_join]
    rfl
  · have join := join_bytes first 0 0
    rw [UInt8.toNat_zero, Nat.zero_shiftLeft, Nat.or_zero, Nat.or_zero] at join
    rw [UInt8.toNat_zero] at whole
    simp only [encodeBytes, join, ← whole, symbolAt_eq, sextet₁, sextet₂]

end Inverse

/-- A canonical text is what its bytes are encoded as. -/
theorem exists_decodeGroups {text : List UInt8} (isCanonical : canonical text = true) :
    ∃ bytes, decodeGroups text = .ok bytes ∧ encodeBytes bytes = text := by
  induction text using canonical.induct with
  | case1 => exact ⟨[], rfl, rfl⟩
  | case2 first second third fourth =>
      rw [canonical, Bool.and_eq_true, Bool.or_eq_true, Bool.or_eq_true] at isCanonical
      obtain ⟨value₁, small₁, rfl⟩ := exists_of_isSymbol isCanonical.1
      rcases isCanonical.2 with (symbols | padded) | padded
      · rw [Bool.and_eq_true, Bool.and_eq_true] at symbols
        obtain ⟨value₂, small₂, rfl⟩ := exists_of_isSymbol symbols.1.1
        obtain ⟨value₃, small₃, rfl⟩ := exists_of_isSymbol symbols.1.2
        obtain ⟨value₄, small₄, rfl⟩ := exists_of_isSymbol symbols.2
        obtain ⟨first, second, third, decoded, encoded⟩ :=
          exists_decodeGroup small₁ small₂ small₃ small₄ []
        exact ⟨[first, second, third], by rw [decodeGroups, decoded]; rfl, encoded⟩
      · rw [Bool.and_eq_true, Bool.and_eq_true, beq_iff_eq] at padded
        obtain ⟨value₂, small₂, rfl⟩ := exists_of_isSymbol padded.1.1
        obtain ⟨value₃, small₃, rfl, unused⟩ := exists_of_sparesBits padded.1.2
        obtain ⟨first, second, decoded, encoded⟩ :=
          exists_decodeGroup_padded small₁ small₂ small₃ unused
        exact ⟨[first, second], by rw [padded.2, decodeGroups, decoded]; rfl, by
          rw [padded.2, encoded]⟩
      · rw [Bool.and_eq_true, Bool.and_eq_true, beq_iff_eq, beq_iff_eq] at padded
        obtain ⟨value₂, small₂, rfl, unused⟩ := exists_of_sparesBits padded.1.1
        obtain ⟨first, decoded, encoded⟩ :=
          exists_decodeGroup_padded_twice small₁ small₂ unused
        exact ⟨[first], by rw [padded.1.2, padded.2, decodeGroups, decoded]; rfl, by
          rw [padded.1.2, padded.2, encoded]⟩
  | case3 first second third fourth rest more ih =>
      rw [canonical_cons more] at isCanonical
      simp only [Bool.and_eq_true] at isCanonical
      obtain ⟨⟨⟨⟨isFirst, isSecond⟩, isThird⟩, isFourth⟩, isRest⟩ := isCanonical
      obtain ⟨value₁, small₁, rfl⟩ := exists_of_isSymbol isFirst
      obtain ⟨value₂, small₂, rfl⟩ := exists_of_isSymbol isSecond
      obtain ⟨value₃, small₃, rfl⟩ := exists_of_isSymbol isThird
      obtain ⟨value₄, small₄, rfl⟩ := exists_of_isSymbol isFourth
      obtain ⟨bytes, decodedRest, encodedRest⟩ := ih isRest
      obtain ⟨first, second, third, decoded, encoded⟩ :=
        exists_decodeGroup small₁ small₂ small₃ small₄ bytes
      refine ⟨first :: second :: third :: bytes, ?_, by rw [encoded, encodedRest]⟩
      rw [decodeGroups, decoded, decodedRest]
      rfl
  | case4 text none one more =>
      rw [canonical] at isCanonical
      · cases isCanonical
      all_goals assumption

/-- A byte that the decoder accepts, at any place. -/
def isKnown (byte : UInt8) : Bool :=
  byte == padding || isSymbol byte

theorem decodeByte_cases (byte : UInt8) :
    (isKnown byte = true ∧ ∃ value pad, decodeByte byte = .ok (value, pad)) ∨
      isKnown byte = false ∧ ∃ error, decodeByte byte = .error error := by
  rw [isKnown, decodeByte, isSymbol]
  by_cases pad : byte = padding
  · exact Or.inl ⟨by simp [pad], 0, 1, if_pos pad⟩
  · rw [if_neg pad]
    cases val byte with
    | none => exact Or.inr ⟨by simp [pad], _, rfl⟩
    | some value => exact Or.inl ⟨by simp, value, 0, rfl⟩

theorem decodeGroup_cases (first second third fourth : UInt8) :
    ([first, second, third, fourth].all isKnown = true ∧
        ∃ bytes, decodeGroup first second third fourth = .ok bytes) ∨
      [first, second, third, fourth].all isKnown = false ∧
        ∃ error, decodeGroup first second third fourth = .error error := by
  rw [decodeGroup]
  rcases decodeByte_cases first with ⟨known₁, value₁, pad₁, decoded₁⟩ | ⟨unknown, error, failed⟩
  · rcases decodeByte_cases second with ⟨known₂, value₂, pad₂, decoded₂⟩ | ⟨unknown, error, failed⟩
    · rcases decodeByte_cases third with ⟨known₃, value₃, pad₃, decoded₃⟩ | ⟨unknown, error, failed⟩
      · rcases decodeByte_cases fourth with
          ⟨known₄, value₄, pad₄, decoded₄⟩ | ⟨unknown, error, failed⟩
        · rw [decoded₁, decoded₂, decoded₃, decoded₄]
          exact Or.inl ⟨by simp [known₁, known₂, known₃, known₄], _, rfl⟩
        · rw [decoded₁, decoded₂, decoded₃, failed]
          exact Or.inr ⟨by simp [unknown], error, rfl⟩
      · rw [decoded₁, decoded₂, failed]
        exact Or.inr ⟨by simp [unknown], error, rfl⟩
    · rw [decoded₁, failed]
      exact Or.inr ⟨by simp [unknown], error, rfl⟩
  · rw [failed]
    exact Or.inr ⟨by simp [unknown], error, rfl⟩

/-- The groups are decoded if and only if each of their bytes is known. -/
theorem decodeGroups_cases {text : List UInt8} (groups : text.length % 4 = 0) :
    (text.all isKnown = true ∧ ∃ bytes, decodeGroups text = .ok bytes) ∨
      text.all isKnown = false ∧ ∃ error, decodeGroups text = .error error := by
  induction text using decodeGroups.induct with
  | case1 first second third fourth rest ih =>
      have fewer : rest.length % 4 = 0 := by
        simp only [List.length_cons] at groups
        omega
      have split : (first :: second :: third :: fourth :: rest).all isKnown =
          ([first, second, third, fourth].all isKnown && rest.all isKnown) := by
        simp [Bool.and_assoc]
      rw [decodeGroups, split]
      rcases decodeGroup_cases first second third fourth with
        ⟨known, bytes, decoded⟩ | ⟨unknown, error, failed⟩
      · rcases ih fewer with ⟨known', later, decoded'⟩ | ⟨unknown, error, failed⟩
        · rw [decoded, decoded', known, known']
          exact Or.inl ⟨rfl, _, rfl⟩
        · rw [decoded, failed, unknown, Bool.and_false]
          exact Or.inr ⟨rfl, error, rfl⟩
      · rw [failed, unknown, Bool.false_and]
        exact Or.inr ⟨rfl, error, rfl⟩
  | case2 text noGroup =>
      rcases text with _ | ⟨first, _ | ⟨second, _ | ⟨third, _ | ⟨fourth, rest⟩⟩⟩⟩
      · exact Or.inl ⟨rfl, [], rfl⟩
      · cases groups
      · cases groups
      · cases groups
      · exact absurd rfl (noGroup first second third fourth rest)

theorem textBytes_ofList (chars : List Char) :
    textBytes (String.ofList chars) = chars.flatMap String.utf8EncodeChar := by
  rw [textBytes, String.toByteArray_ofList, List.utf8Encode]
  simp

theorem encodeBytes_ascii (bytes : List UInt8) : ∀ byte ∈ encodeBytes bytes, byte.toNat < 128 := by
  have symbol (bits place : Nat) : (symbolAt bits place).toNat < 128 := by
    rw [symbolAt_eq]
    exact (val_symbols _ (sextet_lt bits place)).2.2
  have pad : padding.toNat < 128 := by decide
  induction bytes using encodeBytes.induct with
  | case1 first second third rest ih =>
      simp only [encodeBytes, List.forall_mem_cons]
      exact ⟨symbol _ _, symbol _ _, symbol _ _, symbol _ _, ih⟩
  | case2 first second => simp [encodeBytes, symbol, pad]
  | case3 first => simp [encodeBytes, symbol, pad]
  | case4 => simp [encodeBytes]

theorem utf8EncodeChar_ofNat {byte : UInt8} (ascii : byte.toNat < 128) :
    String.utf8EncodeChar (Char.ofNat byte.toNat) = [byte] := by
  have all : ∀ code < 128, String.utf8EncodeChar (Char.ofNat code) = [UInt8.ofNat code] := by
    decide +kernel
  rw [all byte.toNat ascii, UInt8.ofNat_toNat]

theorem textBytes_encodeBase64 (bytes : List UInt8) :
    textBytes (encodeBase64 bytes) = encodeBytes bytes := by
  rw [encodeBase64, textBytes_ofList, List.flatMap_map]
  have ascii := encodeBytes_ascii bytes
  generalize encodeBytes bytes = text at ascii
  induction text with
  | nil => rfl
  | cons byte rest ih =>
      rw [List.forall_mem_cons] at ascii
      rw [List.flatMap_cons, utf8EncodeChar_ofNat ascii.1, ih ascii.2]
      rfl

theorem decodeBase64_encodeBase64 (bytes : List UInt8) :
    decodeBase64 (encodeBase64 bytes) = .ok bytes := by
  have groups : (encodeBytes bytes).length % 4 = 0 := by
    induction bytes using encodeBytes.induct with
    | case1 first second third rest ih =>
        simp only [encodeBytes, List.length_cons]
        omega
    | case2 first second => simp [encodeBytes]
    | case3 first => simp [encodeBytes]
    | case4 => rfl
  rw [decodeBase64, textBytes_encodeBase64]
  exact (if_neg (not_not.mpr groups)).trans (decodeGroups_encodeBytes bytes)

/-- The decoder is right about a text: it accepts just the encodings, and each as what it
encodes. -/
structure Exact (text : String) : Prop where
  accepted : (∃ bytes, decodeBase64 text = .ok bytes) ↔ ∃ bytes, text = encodeBase64 bytes
  encoded : ∀ bytes, decodeBase64 text = .ok bytes → encodeBase64 bytes = text

/-- A text that is rejected for its length or for one of its bytes. -/
def malformed (text : List UInt8) : Bool :=
  text.length % 4 ≠ 0 || text.any fun byte => !isKnown byte

theorem decodeBase64_of_malformed {text : String} (bad : malformed (textBytes text) = true) :
    ∃ error, decodeBase64 text = .error error := by
  rw [malformed, Bool.or_eq_true, decide_eq_true_eq] at bad
  by_cases groups : (textBytes text).length % 4 = 0
  · obtain ⟨byte, member, unknown⟩ := List.any_eq_true.mp (bad.resolve_left (not_not.mpr groups))
    rcases decodeGroups_cases groups with ⟨known, _⟩ | ⟨_, error, failed⟩
    · rw [List.all_eq_true.mp known byte member] at unknown
      cases unknown
    · exact ⟨error, (if_neg (not_not.mpr groups)).trans failed⟩
  · exact ⟨_, if_pos groups⟩

theorem decodeBase64_of_not_malformed {text : String}
    (good : malformed (textBytes text) = false) : ∃ bytes, decodeBase64 text = .ok bytes := by
  rw [malformed, Bool.or_eq_false_iff, decide_eq_false_iff_not, not_not] at good
  rcases decodeGroups_cases good.1 with ⟨_, bytes, decoded⟩ | ⟨unknown, _⟩
  · exact ⟨bytes, (if_neg (not_not.mpr good.1)).trans decoded⟩
  · obtain ⟨byte, member, isUnknown⟩ := List.all_eq_false.mp unknown
    have known := List.any_eq_false.mp good.2 byte member
    exact absurd (by simpa using known) isUnknown

theorem Exact.of_malformed {text : String} (bad : malformed (textBytes text) = true) :
    Exact text := by
  obtain ⟨error, failed⟩ := decodeBase64_of_malformed bad
  refine ⟨⟨?_, ?_⟩, fun bytes decoded => ?_⟩
  · rintro ⟨bytes, decoded⟩
    rw [failed] at decoded
    cases decoded
  · rintro ⟨bytes, rfl⟩
    exact ⟨bytes, decodeBase64_encodeBase64 bytes⟩
  · rw [failed] at decoded
    cases decoded

theorem Exact.of_canonical {text : String} (isCanonical : canonical (textBytes text) = true) :
    Exact text := by
  obtain ⟨bytes, _, encoded⟩ := exists_decodeGroups isCanonical
  have whole : text = encodeBase64 bytes :=
    textBytes_inj (encoded.symm.trans (textBytes_encodeBase64 bytes).symm)
  subst whole
  refine ⟨⟨fun _ => ⟨bytes, rfl⟩, fun _ => ⟨bytes, decodeBase64_encodeBase64 bytes⟩⟩, ?_⟩
  intro other decoded
  rw [decodeBase64_encodeBase64, Except.ok.injEq] at decoded
  rw [decoded]

theorem exact_iff (text : String) :
    Exact text ↔ malformed (textBytes text) = true ∨ canonical (textBytes text) = true := by
  constructor
  · intro exact
    cases bad : malformed (textBytes text) with
    | true => exact Or.inl rfl
    | false =>
        obtain ⟨bytes, rfl⟩ := exact.accepted.mp (decodeBase64_of_not_malformed bad)
        rw [textBytes_encodeBase64]
        exact Or.inr (canonical_encodeBytes bytes)
  · rintro (bad | isCanonical)
    · exact Exact.of_malformed bad
    · exact Exact.of_canonical isCanonical

theorem base64_right_iff (bytes : List UInt8) (text : String) :
    decodeBase64 (encodeBase64 bytes) = .ok bytes ∧
      (Exact text ↔ malformed (textBytes text) = true ∨ canonical (textBytes text) = true) :=
  ⟨decodeBase64_encodeBase64 bytes, exact_iff text⟩

/-- Padding within a group is taken for a zero. -/
theorem inner_padding_accepted :
    decodeBase64 "A=BC" = .ok [0, 0] ∧ ¬ ∃ bytes, "A=BC" = encodeBase64 bytes := by
  refine ⟨by decide +kernel, ?_⟩
  rintro ⟨bytes, encoded⟩
  have isCanonical := canonical_encodeBytes bytes
  rw [← textBytes_encodeBase64, ← encoded] at isCanonical
  exact absurd isCanonical (by decide +kernel)

end Base64

end Roko
