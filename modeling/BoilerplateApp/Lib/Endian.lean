import Mathlib.Data.Nat.Digits.Lemmas
import Mathlib.Tactic.Ring

/-!
# Fixed-width byte encodings

A number written in exactly `width` bytes, least or most significant byte first, and read back. The
value of a byte string is `Nat.ofDigits 256`, so what Mathlib knows about digits carries over; what
is added here is the padding to a fixed width.
-/

namespace Endian

/-- The `width` low bytes of `value`, least significant first. -/
def encodeLE : Nat → Nat → List UInt8
  | 0, _ => []
  | width + 1, value => UInt8.ofNat value :: encodeLE width (value / 256)

def decodeLE (bytes : List UInt8) : Nat := Nat.ofDigits 256 (bytes.map UInt8.toNat)

/-- The `width` low bytes of `value`, most significant first. -/
def encodeBE (width value : Nat) : List UInt8 := (encodeLE width value).reverse

def decodeBE (bytes : List UInt8) : Nat := decodeLE bytes.reverse

@[simp] theorem length_encodeLE (width value : Nat) : (encodeLE width value).length = width := by
  induction width generalizing value with
  | zero => rfl
  | succ width ih => rw [encodeLE, List.length_cons, ih]

@[simp] theorem length_encodeBE (width value : Nat) : (encodeBE width value).length = width := by
  rw [encodeBE, List.length_reverse, length_encodeLE]

@[simp] theorem decodeLE_nil : decodeLE [] = 0 := rfl

theorem decodeLE_cons (b : UInt8) (bytes : List UInt8) :
    decodeLE (b :: bytes) = b.toNat + 256 * decodeLE bytes := by
  simp [decodeLE, Nat.ofDigits_cons]

theorem decodeLE_lt (bytes : List UInt8) : decodeLE bytes < 256 ^ bytes.length := by
  have hdigit : ∀ d ∈ bytes.map UInt8.toNat, d < 256 := by
    intro d hd
    obtain ⟨b, _, rfl⟩ := List.mem_map.mp hd
    exact b.toNat_lt
  simpa [decodeLE] using Nat.ofDigits_lt_base_pow_length (by norm_num) hdigit

theorem decodeBE_lt (bytes : List UInt8) : decodeBE bytes < 256 ^ bytes.length := by
  simpa [decodeBE] using decodeLE_lt bytes.reverse

theorem decodeLE_encodeLE {width value : Nat} (hfits : value < 256 ^ width) :
    decodeLE (encodeLE width value) = value := by
  induction width generalizing value with
  | zero =>
      have : value = 0 := by simpa using hfits
      rw [encodeLE, decodeLE_nil, this]
  | succ width ih =>
      have hquot : value / 256 < 256 ^ width := by
        rw [Nat.div_lt_iff_lt_mul (by norm_num)]
        simpa [pow_succ] using hfits
      rw [encodeLE, decodeLE_cons, ih hquot, UInt8.toNat_ofNat']
      exact Nat.mod_add_div value 256

theorem decodeBE_encodeBE {width value : Nat} (hfits : value < 256 ^ width) :
    decodeBE (encodeBE width value) = value := by
  rw [decodeBE, encodeBE, List.reverse_reverse, decodeLE_encodeLE hfits]

theorem encodeLE_decodeLE (bytes : List UInt8) :
    encodeLE bytes.length (decodeLE bytes) = bytes := by
  induction bytes with
  | nil => rfl
  | cons b bytes ih =>
      have hb := b.toNat_lt
      rw [List.length_cons, encodeLE, decodeLE_cons]
      have hquot : (b.toNat + 256 * decodeLE bytes) / 256 = decodeLE bytes := by omega
      have hlow : UInt8.ofNat (b.toNat + 256 * decodeLE bytes) = b := by
        apply UInt8.toNat_inj.mp
        rw [UInt8.toNat_ofNat']
        omega
      rw [hquot, ih, hlow]

theorem encodeBE_decodeBE (bytes : List UInt8) :
    encodeBE bytes.length (decodeBE bytes) = bytes := by
  have := encodeLE_decodeLE bytes.reverse
  rw [List.length_reverse] at this
  rw [encodeBE, decodeBE, this, List.reverse_reverse]

end Endian
