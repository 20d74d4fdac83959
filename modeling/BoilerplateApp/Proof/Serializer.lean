import BoilerplateApp.Proof.Parser
import BoilerplateApp.Reference

/-!
# What the serializer writes

`transaction_serialize` copies five blocks one behind the other, so what it leaves in its output is
their concatenation, `Transaction.encoding`. The guard in front adds up the lengths in 64 bits: it
is exact up to the last 45 values of `memo_len`, where the sum wraps around and a short output passes
for long enough.
-/

namespace BoilerplateApp

open Endian CompactSize

/-- The bytes a transaction is written as; its pointers are offsets into `mem`. -/
def Transaction.encoding (mem : Nat → UInt8) (tx : Transaction) : List UInt8 :=
  encodeBE 8 tx.nonce.toNat ++ Region.read mem tx.toAddr addressLen ++ encodeBE 8 tx.value.toNat
    ++ encode tx.memoLen.toNat ++ Region.read mem tx.memo tx.memoLen.toNat

/-- The length of what is written for `tx`, as an unbounded integer. -/
def serializedLen (sdk : Sdk) (tx : Transaction) : Nat :=
  headerLen + (sdk.varintSize tx.memoLen).toNat + tx.memoLen.toNat

theorem Transaction.length_encoding (mem : Nat → UInt8) (tx : Transaction) :
    (tx.encoding mem).length = headerLen + size tx.memoLen.toNat + tx.memoLen.toNat := by
  simp only [encoding, List.length_append, length_encodeBE, Region.length_read, length_encode,
    headerLen]

section Serialize

variable {sdk : Sdk} (hread : sdk.ReadLaws) (hwrite : sdk.WriteLaws) (mem : Nat → UInt8)
  (tx : Transaction)

include hwrite in
theorem length_encoding_eq : (tx.encoding mem).length = serializedLen sdk tx := by
  rw [Transaction.length_encoding, serializedLen, hwrite.varintSize]

include hwrite in
theorem serializedLen_le : serializedLen sdk tx ≤ headerLen + 9 + tx.memoLen.toNat := by
  have hsize := size_le tx.memoLen.toNat
  rw [← hwrite.varintSize] at hsize
  rw [serializedLen]
  omega

theorem toNat_guard :
    (UInt64.ofNat (8 + addressLen + 8) + (sdk.varintSize tx.memoLen).toUInt64 + tx.memoLen).toNat
      = serializedLen sdk tx % 2 ^ 64 := by
  rw [UInt64.toNat_add, UInt64.toNat_add, UInt64.toNat_ofNat', UInt8.toNat_toUInt64]
  rw [serializedLen, headerLen]
  omega

theorem store_blocks (out : Nat → UInt8) :
    Region.store (Region.store (Region.store (Region.store (Region.store out 0
        (encodeBE 8 tx.nonce.toNat)) 8 (Region.read mem tx.toAddr addressLen)) (8 + addressLen)
        (encodeBE 8 tx.value.toNat)) headerLen (encode tx.memoLen.toNat))
        (headerLen + size tx.memoLen.toNat) (Region.read mem tx.memo tx.memoLen.toNat)
      = Region.store out 0 (tx.encoding mem) := by
  have h1 := Region.store_append out 0 (encodeBE 8 tx.nonce.toNat)
    (Region.read mem tx.toAddr addressLen)
  have h2 := Region.store_append out 0
    (encodeBE 8 tx.nonce.toNat ++ Region.read mem tx.toAddr addressLen)
    (encodeBE 8 tx.value.toNat)
  have h3 := Region.store_append out 0
    (encodeBE 8 tx.nonce.toNat ++ Region.read mem tx.toAddr addressLen
      ++ encodeBE 8 tx.value.toNat) (encode tx.memoLen.toNat)
  have h4 := Region.store_append out 0
    (encodeBE 8 tx.nonce.toNat ++ Region.read mem tx.toAddr addressLen
      ++ encodeBE 8 tx.value.toNat ++ encode tx.memoLen.toNat)
    (Region.read mem tx.memo tx.memoLen.toNat)
  simp only [List.length_append, length_encodeBE, Region.length_read, length_encode,
    Nat.zero_add] at h1 h2 h3 h4
  rw [h1, h2, headerLen, h3, h4, Transaction.encoding]

theorem serialize_refuses (out : Nat → UInt8) {outLen : Nat}
    (h : outLen < serializedLen sdk tx % 2 ^ 64) :
    transactionSerialize sdk mem tx out outLen = (-1, out) := by
  rw [transactionSerialize, if_pos (by rwa [toNat_guard])]

include hwrite in
theorem serialize_passes (out : Nat → UInt8) {outLen : Nat}
    (h : serializedLen sdk tx % 2 ^ 64 ≤ outLen) :
    transactionSerialize sdk mem tx out outLen
      = (intOfSize (serializedLen sdk tx % 2 ^ sdk.sizeBits),
          Region.store (Region.store (Region.store (Region.store (Region.store out 0
            (encodeBE 8 tx.nonce.toNat)) 8 (Region.read mem tx.toAddr addressLen)) (8 + addressLen)
            (encodeBE 8 tx.value.toNat)) headerLen (encode tx.memoLen.toNat))
            (headerLen + size tx.memoLen.toNat)
            (Region.read mem tx.memo (tx.memoLen.toNat % 2 ^ sdk.sizeBits))) := by
  have hpos : ¬((size tx.memoLen.toNat : Int) < 0) := by omega
  have hoffset : (headerLen + size tx.memoLen.toNat + tx.memoLen.toNat % 2 ^ sdk.sizeBits)
      % 2 ^ sdk.sizeBits = serializedLen sdk tx % 2 ^ sdk.sizeBits := by
    rw [Nat.add_mod_mod, serializedLen, hwrite.varintSize]
  rw [transactionSerialize, if_neg (by rwa [toNat_guard, gt_iff_lt, Nat.not_lt])]
  simp only [hwrite.writeU64Be, hwrite.varintWrite, if_neg hpos, Int.toNat_natCast]
  rw [show 8 + addressLen + 8 = headerLen from rfl, hoffset]

include hread hwrite in
/-- **What is written.** As long as the sum does not wrap around and the result fits an `int`: the
encoding if there is room for it, and nothing otherwise. -/
theorem transactionSerialize_eq_of_lt (out : Nat → UInt8) {outLen : Nat}
    (hwrap : serializedLen sdk tx < 2 ^ 64)
    (hint : outLen < serializedLen sdk tx ∨ serializedLen sdk tx < 2 ^ 31) :
    transactionSerialize sdk mem tx out outLen =
      if outLen < (tx.encoding mem).length then (-1, out)
      else (((tx.encoding mem).length : Int), Region.store out 0 (tx.encoding mem)) := by
  have hmod := Nat.mod_eq_of_lt hwrap
  rw [length_encoding_eq hwrite]
  by_cases hroom : outLen < serializedLen sdk tx
  · rw [if_pos hroom, serialize_refuses mem tx out (by rwa [hmod])]
  · have hsmall := hint.resolve_left hroom
    have hmemo : tx.memoLen.toNat ≤ serializedLen sdk tx := Nat.le_add_left _ _
    have hsize : serializedLen sdk tx % 2 ^ sdk.sizeBits = serializedLen sdk tx :=
      Nat.mod_eq_of_lt (hread.lt_size (by omega))
    have hmemoSize : tx.memoLen.toNat % 2 ^ sdk.sizeBits = tx.memoLen.toNat :=
      Nat.mod_eq_of_lt (hread.lt_size (by omega))
    have hresult : intOfSize (serializedLen sdk tx) = (serializedLen sdk tx : Int) :=
      Int.bmod_eq_of_le (by omega) (by omega)
    rw [if_neg hroom, serialize_passes hwrite mem tx out (by rw [hmod]; omega), hsize, hmemoSize,
      store_blocks, hresult]

include hread hwrite in
theorem transactionSerialize_eq {tx : Transaction} (hmemo : tx.memoLen.toNat ≤ maxTxLen)
    (out : Nat → UInt8) (outLen : Nat) :
    transactionSerialize sdk mem tx out outLen =
      if outLen < (tx.encoding mem).length then (-1, out)
      else (((tx.encoding mem).length : Int), Region.store out 0 (tx.encoding mem)) := by
  have hlen := serializedLen_le hwrite tx
  have hmax : maxTxLen = 510 := rfl
  have hheader : headerLen = 36 := rfl
  exact transactionSerialize_eq_of_lt hread hwrite mem tx out (by omega) (Or.inr (by omega))

end Serialize

/-! ### The guard -/

/-- The guard is exact for `tx` and `out_len`: the output is refused, with nothing written, exactly
when the length of what is to be written exceeds `out_len`; otherwise that many bytes are written
from the start of the output, which has room for them. -/
structure GuardExact (sdk : Sdk) (mem : Nat → UInt8) (tx : Transaction) (outLen : Nat) : Prop where
  refuses_iff : (∀ out, transactionSerialize sdk mem tx out outLen = (-1, out))
    ↔ outLen < serializedLen sdk tx
  writes : serializedLen sdk tx ≤ outLen → ∃ bytes : List UInt8, bytes.length ≤ outLen
    ∧ ∀ out, transactionSerialize sdk mem tx out outLen
      = ((bytes.length : Int), Region.store out 0 bytes)

section Guard

variable {sdk : Sdk} (hread : sdk.ReadLaws) (hwrite : sdk.WriteLaws) (mem : Nat → UInt8)
  (tx : Transaction) {outLen : Nat}

include hread hwrite in
theorem guardExact_of_lt (hmax : outLen < 2 ^ 31) (hwrap : serializedLen sdk tx < 2 ^ 64) :
    GuardExact sdk mem tx outLen := by
  have hserialize : ∀ out, (outLen < serializedLen sdk tx ∨ serializedLen sdk tx < 2 ^ 31) →
      transactionSerialize sdk mem tx out outLen =
        if outLen < (tx.encoding mem).length then (-1, out)
        else (((tx.encoding mem).length : Int), Region.store out 0 (tx.encoding mem)) :=
    fun out hint => transactionSerialize_eq_of_lt hread hwrite mem tx out hwrap hint
  simp only [length_encoding_eq hwrite] at hserialize
  by_cases hroom : outLen < serializedLen sdk tx
  · refine ⟨⟨fun _ => hroom, ?_⟩, fun hfits => absurd hroom (Nat.not_lt.mpr hfits)⟩
    intro _ out
    rw [hserialize out (Or.inl hroom), if_pos hroom]
  · have hint : serializedLen sdk tx < 2 ^ 31 := by omega
    refine ⟨⟨?_, fun h => absurd h hroom⟩, ?_⟩
    · intro hrefused
      have h := hrefused fun _ => 0
      rw [hserialize _ (Or.inr hint), if_neg hroom] at h
      exact absurd (Prod.mk.inj h).1 (by omega)
    · intro hfits
      refine ⟨tx.encoding mem, by rwa [length_encoding_eq hwrite], ?_⟩
      intro out
      rw [hserialize out (Or.inr hint), if_neg hroom, length_encoding_eq hwrite]

include hread hwrite in
/-- **Where the guard is exact.** For every length but those whose sum wraps around to at most
`out_len`. -/
theorem guardExact_iff (hmax : outLen < 2 ^ 31) : GuardExact sdk mem tx outLen
    ↔ ¬(2 ^ 64 ≤ serializedLen sdk tx ∧ serializedLen sdk tx ≤ 2 ^ 64 + outLen) := by
  have hlen := serializedLen_le hwrite tx
  have hheader : headerLen = 36 := rfl
  have hmemo := tx.memoLen.toNat_lt
  by_cases hwrap : serializedLen sdk tx < 2 ^ 64
  · constructor
    · rintro - ⟨hlarge, -⟩
      omega
    · intro _
      exact guardExact_of_lt hread hwrite mem tx hmax hwrap
  · -- the sum has wrapped around, to at most 44
    have hmod : serializedLen sdk tx % 2 ^ 64 = serializedLen sdk tx - 2 ^ 64 := by omega
    constructor
    · rintro hexact ⟨-, hfits⟩
      have hsize : ∃ n ≤ 44, serializedLen sdk tx % 2 ^ sdk.sizeBits = n := by
        rcases hread.sizeBits with h | h <;> rw [h] <;> exact ⟨_, by omega, rfl⟩
      obtain ⟨n, hn, hsize⟩ := hsize
      have hresult : intOfSize n = (n : Int) := Int.bmod_eq_of_le (by omega) (by omega)
      have h := hexact.refuses_iff.mpr (by omega) fun _ => 0
      rw [serialize_passes hwrite mem tx _ (by omega), hsize, hresult] at h
      exact absurd (Prod.mk.inj h).1 (by omega)
    · intro hfits
      refine ⟨⟨fun _ => by omega, ?_⟩, fun h => by omega⟩
      intro _ out
      exact serialize_refuses mem tx out (by omega)

end Guard

/-- A memo length 45 short of wrapping around passes for an empty output. -/
theorem not_guardExact_wrap :
    ¬GuardExact (Reference.sdk 32) (fun _ => 0) ⟨0, 0, 0, 0, 0xFFFFFFFFFFFFFFD3⟩ 0 := by
  intro h
  have hlen : serializedLen (Reference.sdk 32) ⟨0, 0, 0, 0, 0xFFFFFFFFFFFFFFD3⟩ = 2 ^ 64 := by
    decide +kernel
  have hrefused := h.refuses_iff.mpr (by rw [hlen]; norm_num) fun _ => 0
  rw [serialize_passes (Reference.writeLaws 32) _ _ _ (by rw [hlen, Nat.mod_self])] at hrefused
  exact absurd (Prod.mk.inj hrefused).1 (by rw [hlen]; decide)

/-- The guard is exact at the largest length whose sum does not wrap around. -/
theorem guardExact_largest :
    GuardExact (Reference.sdk 32) (fun _ => 0) ⟨0, 0, 0, 0, 0xFFFFFFFFFFFFFFD2⟩ (2 ^ 31 - 1) :=
  (guardExact_iff (Reference.readLaws (Or.inl rfl)) (Reference.writeLaws 32) _ _ (by norm_num)).mpr
    (by decide +kernel)

end BoilerplateApp
