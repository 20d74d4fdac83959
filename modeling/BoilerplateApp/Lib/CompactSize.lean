import BoilerplateApp.Lib.Endian

/-!
# Variable length integers

A number below `2 ^ 64` written in 1, 3, 5 or 9 bytes. The first byte selects the form: `0xFD`,
`0xFE` and `0xFF` announce a little-endian number of 2, 4 or 8 bytes, any smaller byte is the number
itself. The writer takes the shortest form; the reader takes the form the first byte selects, so
several byte strings can stand for one number.
-/

namespace CompactSize

open Endian

/-- How many bytes follow the first one. -/
def payloadWidth (first : UInt8) : Nat :=
  if first = 0xFD then 2 else if first = 0xFE then 4 else if first = 0xFF then 8 else 0

/-- The number at the head of `bytes` and how many bytes it takes, or `none` when they end early. -/
def decode : List UInt8 → Option (Nat × Nat)
  | [] => none
  | first :: rest =>
      if payloadWidth first = 0 then some (first.toNat, 1)
      else if rest.length < payloadWidth first then none
      else some (decodeLE (rest.take (payloadWidth first)), 1 + payloadWidth first)

def size (value : Nat) : Nat :=
  if value < 0xFD then 1 else if value ≤ 0xFFFF then 3 else if value ≤ 0xFFFFFFFF then 5 else 9

def encode (value : Nat) : List UInt8 :=
  if value < 0xFD then [UInt8.ofNat value]
  else if value ≤ 0xFFFF then 0xFD :: encodeLE 2 value
  else if value ≤ 0xFFFFFFFF then 0xFE :: encodeLE 4 value
  else 0xFF :: encodeLE 8 value

@[simp] theorem length_encode (value : Nat) : (encode value).length = size value := by
  unfold encode size
  split_ifs <;> simp

theorem size_le (value : Nat) : size value ≤ 9 := by
  unfold size
  split_ifs <;> omega

theorem payloadWidth_le (first : UInt8) : payloadWidth first ≤ 8 := by
  unfold payloadWidth
  split_ifs <;> omega

theorem payloadWidth_of_lt {first : UInt8} (h : first.toNat < 0xFD) : payloadWidth first = 0 := by
  have hne : ∀ b : UInt8, 0xFD ≤ b.toNat → first ≠ b := by
    rintro b hb rfl
    omega
  simp [payloadWidth, hne 0xFD (by decide), hne 0xFE (by decide), hne 0xFF (by decide)]

theorem toNat_lt_of_payloadWidth {first : UInt8} (h : payloadWidth first = 0) :
    first.toNat < 0xFD := by
  by_contra hge
  have hlt := first.toNat_lt
  have hcases : first.toNat = 0xFD ∨ first.toNat = 0xFE ∨ first.toNat = 0xFF := by omega
  rcases hcases with h' | h' | h'
  · rw [show first = 0xFD from UInt8.toNat_inj.mp h'] at h
    exact absurd h (by decide)
  · rw [show first = 0xFE from UInt8.toNat_inj.mp h'] at h
    exact absurd h (by decide)
  · rw [show first = 0xFF from UInt8.toNat_inj.mp h'] at h
    exact absurd h (by decide)

theorem decode_length {bytes : List UInt8} {value used : Nat}
    (h : decode bytes = some (value, used)) : 0 < used ∧ used ≤ bytes.length := by
  cases bytes with
  | nil => simp [decode] at h
  | cons first rest =>
      simp only [decode] at h
      split_ifs at h with hzero hshort
      · obtain ⟨-, rfl⟩ := Prod.mk.inj (Option.some.inj h)
        simp
      · obtain ⟨-, rfl⟩ := Prod.mk.inj (Option.some.inj h)
        rw [List.length_cons]
        omega

theorem decode_lt {bytes : List UInt8} {value used : Nat}
    (h : decode bytes = some (value, used)) : value < 2 ^ 64 := by
  cases bytes with
  | nil => simp [decode] at h
  | cons first rest =>
      simp only [decode] at h
      split_ifs at h with hzero hshort
      · obtain ⟨rfl, -⟩ := Prod.mk.inj (Option.some.inj h)
        have := first.toNat_lt
        omega
      · obtain ⟨rfl, -⟩ := Prod.mk.inj (Option.some.inj h)
        have hwidth := payloadWidth_le first
        have hlen : (rest.take (payloadWidth first)).length ≤ 8 := by
          rw [List.length_take]
          omega
        calc decodeLE (rest.take (payloadWidth first))
            < 256 ^ (rest.take (payloadWidth first)).length := decodeLE_lt _
          _ ≤ 256 ^ 8 := Nat.pow_le_pow_right (by norm_num) hlen
          _ = 2 ^ 64 := by norm_num

theorem decode_append {bytes : List UInt8} {value used : Nat}
    (h : decode bytes = some (value, used)) (rest : List UInt8) :
    decode (bytes ++ rest) = some (value, used) := by
  cases bytes with
  | nil => simp [decode] at h
  | cons first bytes =>
      simp only [decode, List.cons_append] at h ⊢
      split_ifs at h ⊢ with hzero hshort hshort'
      · exact h
      · rw [List.length_append] at hshort
        omega
      · rwa [List.take_append_of_le_length (by omega)]

theorem decode_take {bytes : List UInt8} {value used : Nat}
    (h : decode bytes = some (value, used)) :
    decode (bytes.take used) = some (value, used) := by
  cases bytes with
  | nil => simp [decode] at h
  | cons first bytes =>
      simp only [decode] at h
      split_ifs at h with hzero hshort
      · obtain ⟨rfl, rfl⟩ := Prod.mk.inj (Option.some.inj h)
        simp [decode, hzero]
      · obtain ⟨rfl, rfl⟩ := Prod.mk.inj (Option.some.inj h)
        rw [Nat.add_comm, List.take_succ_cons, decode, if_neg hzero, List.length_take,
          Nat.min_eq_left (Nat.not_lt.mp hshort), if_neg (Nat.lt_irrefl _), List.take_take,
          Nat.min_self, Nat.add_comm]

theorem decode_cut {bytes front : List UInt8} {value used : Nat}
    (h : decode bytes = some (value, used)) (hfront : front <+: bytes)
    (hshort : front.length < used) : decode front = none := by
  obtain ⟨rest, rfl⟩ := hfront
  cases hdecode : decode front with
  | none => rfl
  | some field =>
      obtain ⟨value', used'⟩ := field
      rw [decode_append hdecode rest] at h
      obtain ⟨-, rfl⟩ := Prod.mk.inj (Option.some.inj h)
      exact absurd (decode_length hdecode).2 (Nat.not_le.mpr hshort)

theorem decode_payload {first : UInt8} {width value : Nat} (hwidth : payloadWidth first = width)
    (hpos : 0 < width) (hfits : value < 256 ^ width) (rest : List UInt8) :
    decode (first :: encodeLE width value ++ rest) = some (value, 1 + width) := by
  have htake : (encodeLE width value ++ rest).take width = encodeLE width value := by
    rw [List.take_append_of_le_length (by simp), List.take_of_length_le (by simp)]
  simp only [decode, List.cons_append, hwidth, htake, decodeLE_encodeLE hfits,
    List.length_append, length_encodeLE]
  rw [if_neg (by omega), if_neg (by omega)]

theorem decode_byte {value : Nat} (hsmall : value < 0xFD) (rest : List UInt8) :
    decode (UInt8.ofNat value :: rest) = some (value, 1) := by
  have hbyte : (UInt8.ofNat value).toNat = value := by
    rw [UInt8.toNat_ofNat']
    omega
  rw [decode, if_pos (payloadWidth_of_lt (by rwa [hbyte])), hbyte]

/-- Reading undoes writing, whatever follows. -/
theorem decode_encode {value : Nat} (hfits : value < 2 ^ 64) (rest : List UInt8) :
    decode (encode value ++ rest) = some (value, size value) := by
  unfold encode size
  split_ifs with h1 h2 h3
  · exact decode_byte h1 rest
  · exact decode_payload (by decide) (by norm_num) (by norm_num; omega) rest
  · exact decode_payload (by decide) (by norm_num) (by norm_num; omega) rest
  · exact decode_payload (by decide) (by norm_num) (by norm_num; omega) rest

theorem size_le_of_decode {bytes : List UInt8} {value used : Nat}
    (h : decode bytes = some (value, used)) : size value ≤ used := by
  cases bytes with
  | nil => simp [decode] at h
  | cons first rest =>
      simp only [decode] at h
      split_ifs at h with hzero hlen
      · obtain ⟨rfl, rfl⟩ := Prod.mk.inj (Option.some.inj h)
        rw [size, if_pos (toNat_lt_of_payloadWidth hzero)]
      · obtain ⟨rfl, rfl⟩ := Prod.mk.inj (Option.some.inj h)
        have hvalue := decodeLE_lt (rest.take (payloadWidth first))
        rw [List.length_take, Nat.min_eq_left (Nat.not_lt.mp hlen)] at hvalue
        generalize decodeLE (rest.take (payloadWidth first)) = value at hvalue ⊢
        unfold payloadWidth at hzero hvalue ⊢
        unfold size
        split_ifs at hzero hvalue ⊢ <;> omega

end CompactSize
