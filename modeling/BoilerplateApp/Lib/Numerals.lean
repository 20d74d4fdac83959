import Mathlib.Data.Rat.Cast.Order
import Mathlib.Tactic.FieldSimp

/-!
# Numbers and bytes as text

What a decimal with a point denotes, as a rational number, and the two upper case hexadecimal digits
of a byte. Both texts determine what they were made from.
-/

namespace Decimal

/-- The number that digits with at most one point denote. -/
def valueOf (text : List Char) : ℚ :=
  let whole := text.takeWhile (· ≠ '.')
  let fraction := (text.dropWhile (· ≠ '.')).tail
  Nat.ofDigitChars 10 (whole ++ fraction) 0 / 10 ^ fraction.length

theorem valueOf_point {whole : List Char} (hwhole : '.' ∉ whole) (fraction : List Char) :
    valueOf (whole ++ '.' :: fraction)
      = Nat.ofDigitChars 10 (whole ++ fraction) 0 / 10 ^ fraction.length := by
  have hdigit : ∀ c ∈ whole, decide (c ≠ '.') = true := by
    intro c hc
    exact decide_eq_true fun h => hwhole (h ▸ hc)
  have htake : (whole ++ '.' :: fraction).takeWhile (· ≠ '.') = whole := by
    rw [List.takeWhile_append_of_pos hdigit]
    simp
  have hdrop : (whole ++ '.' :: fraction).dropWhile (· ≠ '.') = '.' :: fraction := by
    rw [List.dropWhile_append_of_pos hdigit]
    simp
  rw [valueOf, htake, hdrop, List.tail_cons]

theorem not_mem_toDigits_point (n : Nat) : '.' ∉ Nat.toDigits 10 n := by
  intro h
  exact absurd (Nat.isDigit_of_mem_toDigits (by norm_num) (by norm_num) h) (by decide)

/-- The digits of the fraction, padded in front. -/
def padded (decimals n : Nat) : List Char :=
  List.replicate (decimals - (Nat.toDigits 10 n).length) '0' ++ Nat.toDigits 10 n

section Padded

variable {decimals n : Nat} (hpos : 0 < decimals) (hn : n < 10 ^ decimals)

include hpos hn

theorem length_padded : (padded decimals n).length = decimals := by
  have hlen := (Nat.length_toDigits_le_iff (by norm_num) hpos).mpr hn
  rw [padded, List.length_append, List.length_replicate]
  omega

theorem ofDigitChars_padded (whole : Nat) :
    Nat.ofDigitChars 10 (padded decimals n) whole = 10 ^ decimals * whole + n := by
  have hlen := (Nat.length_toDigits_le_iff (by norm_num) hpos).mpr hn
  rw [padded, Nat.ofDigitChars_append, Nat.ofDigitChars_replicate_zero,
    Nat.ofDigitChars_eq_ofDigitChars_zero, Nat.ofDigitChars_ten_toDigits, ← Nat.mul_assoc,
    ← Nat.pow_add, Nat.add_sub_cancel' hlen]

end Padded

/-- The integer part, a point and the padded fraction denote `value / 10 ^ decimals`. -/
theorem valueOf_toDigits {decimals : Nat} (hpos : 0 < decimals) (value : Nat) :
    valueOf (Nat.toDigits 10 (value / 10 ^ decimals)
      ++ '.' :: padded decimals (value % 10 ^ decimals)) = value / 10 ^ decimals := by
  have hfraction : value % 10 ^ decimals < 10 ^ decimals :=
    Nat.mod_lt _ (Nat.pow_pos (by norm_num))
  rw [valueOf_point (not_mem_toDigits_point _), length_padded hpos hfraction,
    Nat.ofDigitChars_append, Nat.ofDigitChars_ten_toDigits, ofDigitChars_padded hpos hfraction,
    Nat.div_add_mod]

end Decimal

namespace Hex

def digit (n : Nat) : Char := (Nat.digitChar n).toUpper

def encode (bytes : List UInt8) : List Char :=
  bytes.flatMap fun b => [digit (b.toNat / 16), digit (b.toNat % 16)]

def digitValue (c : Char) : Nat := ((List.range 16).map digit).idxOf c

/-- Two digits a byte; a single digit at the end is left out. -/
def decode : List Char → List UInt8
  | high :: low :: rest => UInt8.ofNat (16 * digitValue high + digitValue low) :: decode rest
  | _ => []

theorem digitValue_digit {n : Nat} (hn : n < 16) : digitValue (digit n) = n := by
  have hall : ∀ n ∈ List.range 16, digitValue (digit n) = n := by decide
  exact hall n (List.mem_range.mpr hn)

theorem decode_encode (bytes : List UInt8) : decode (encode bytes) = bytes := by
  induction bytes with
  | nil => rfl
  | cons b bytes ih =>
      have hb := b.toNat_lt
      rw [encode, List.flatMap_cons, List.cons_append, List.cons_append, List.nil_append, decode,
        digitValue_digit (by omega), digitValue_digit (by omega), Nat.div_add_mod,
        UInt8.ofNat_toNat]
      congr 1

theorem encode_injective {bytes bytes' : List UInt8} (h : encode bytes = encode bytes') :
    bytes = bytes' := by
  rw [← decode_encode bytes, h, decode_encode]

theorem length_encode (bytes : List UInt8) : (encode bytes).length = 2 * bytes.length := by
  induction bytes with
  | nil => rfl
  | cons b bytes ih =>
      rw [encode, List.flatMap_cons, List.length_append, ← encode, ih, List.length_cons]
      simp only [List.length_cons, List.length_nil]
      omega

end Hex
