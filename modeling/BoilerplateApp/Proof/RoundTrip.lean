import BoilerplateApp.Proof.Format
import BoilerplateApp.Proof.Serializer

/-!
# Writing and reading transactions

The serializer writes the length field in its shortest form and the parser takes every form. So
reading undoes writing on every transaction within the limits, while writing undoes reading up to
the form of the length field.
-/

namespace BoilerplateApp

open Endian CompactSize

/-! ### Reading what was written -/

theorem Transaction.layout_encoding (mem : Nat → UInt8) (tx : Transaction)
    (hascii : ∀ b ∈ Region.read mem tx.memo tx.memoLen.toNat, b ≤ 0x7F) :
    Layout (tx.encoding mem) (encodeBE 8 tx.nonce.toNat) (Region.read mem tx.toAddr addressLen)
      (encodeBE 8 tx.value.toNat) (encode tx.memoLen.toNat)
      (Region.read mem tx.memo tx.memoLen.toNat) where
  split := rfl
  length_nonce := length_encodeBE _ _
  length_toAddr := Region.length_read _ _ _
  length_value := length_encodeBE _ _
  varint := by
    rw [Region.length_read, length_encode]
    have := decode_encode tx.memoLen.toNat_lt []
    rwa [List.append_nil] at this
  ascii := hascii

/-- `tx'`, with pointers into `raw`, has the fields of `tx`, with pointers into `mem`. -/
structure SameFields (mem : Nat → UInt8) (tx : Transaction) (raw : List UInt8)
    (tx' : Transaction) : Prop where
  nonce_eq : tx'.nonce = tx.nonce
  value_eq : tx'.value = tx.value
  memoLen_eq : tx'.memoLen = tx.memoLen
  toAddr_eq : (raw.drop tx'.toAddr).take addressLen = Region.read mem tx.toAddr addressLen
  memo_eq : (raw.drop tx'.memo).take tx.memoLen.toNat
    = Region.read mem tx.memo tx.memoLen.toNat

theorem Transaction.sameFields_encoding (mem : Nat → UInt8) (tx : Transaction)
    (hascii : ∀ b ∈ Region.read mem tx.memo tx.memoLen.toNat, b ≤ 0x7F) :
    SameFields mem tx (tx.encoding mem) (fieldsOf (tx.encoding mem)) := by
  have hholds := (tx.layout_encoding mem hascii).holds
  have hnonce : tx.nonce.toNat < 256 ^ 8 := lt_of_lt_of_eq tx.nonce.toNat_lt (by norm_num)
  have hvalue : tx.value.toNat < 256 ^ 8 := lt_of_lt_of_eq tx.value.toNat_lt (by norm_num)
  have hmemoLen : (fieldsOf (tx.encoding mem)).memoLen = tx.memoLen :=
    UInt64.toNat_inj.mp (by rw [hholds.memoLen_eq, Region.length_read])
  refine ⟨?_, ?_, hmemoLen, hholds.toAddr_eq, ?_⟩
  · exact UInt64.toNat_inj.mp (by rw [hholds.nonce_eq, decodeBE_encodeBE hnonce])
  · exact UInt64.toNat_inj.mp (by rw [hholds.value_eq, decodeBE_encodeBE hvalue])
  · rw [← hmemoLen]
    exact hholds.memo_eq.trans (by rw [hmemoLen])

/-- **Reading undoes writing.** A transaction within the limits is written in its exact length, or
not at all when that is too much, and the parser reads the same fields back, to the last byte. -/
theorem deserialize_serialize {sdk : Sdk} (hread : sdk.ReadLaws) (hwrite : sdk.WriteLaws)
    (mem : Nat → UInt8) (tx : Transaction) (hmemo : tx.memoLen.toNat ≤ maxMemoLen)
    (hascii : ∀ b ∈ Region.read mem tx.memo tx.memoLen.toNat, b ≤ 0x7F)
    (out : Nat → UInt8) (outLen : Nat) (tx₀ : Transaction) :
    let n := headerLen + (sdk.varintSize tx.memoLen).toNat + tx.memoLen.toNat
    (outLen < n → transactionSerialize sdk mem tx out outLen = (-1, out))
      ∧ (n ≤ outLen → ∃ out' tx', transactionSerialize sdk mem tx out outLen = ((n : Int), out')
        ∧ transactionDeserialize sdk (.ofBytes (Region.read out' 0 n)) tx₀
          = some (.parsingOk, (Buffer.ofBytes (Region.read out' 0 n)).advance n, tx')
        ∧ SameFields mem tx (Region.read out' 0 n) tx') := by
  intro n
  have hlen : (tx.encoding mem).length = n := by
    rw [Transaction.length_encoding, ← hwrite.varintSize]
  have hmax : maxMemoLen = 465 := rfl
  have hmaxTx : maxTxLen = 510 := rfl
  have hshort : (tx.encoding mem).length ≤ maxTxLen := by
    have hheader : headerLen = 36 := rfl
    rw [Transaction.length_encoding]
    have hsize : size tx.memoLen.toNat ≤ 3 := by
      unfold size
      split_ifs <;> omega
    omega
  have hmemoTx : tx.memoLen.toNat ≤ maxTxLen := by omega
  have hserialize := transactionSerialize_eq hread hwrite mem hmemoTx out outLen
  rw [hlen] at hserialize
  refine ⟨fun hroom => by rw [hserialize, if_pos hroom], ?_⟩
  intro hroom
  rw [if_neg (Nat.not_lt.mpr hroom)] at hserialize
  have hout : Region.read (Region.store out 0 (tx.encoding mem)) 0 n = tx.encoding mem := by
    rw [← hlen]
    exact Region.read_store out 0 _
  refine ⟨_, fieldsOf (tx.encoding mem), hserialize, ?_, ?_⟩
  · have hparses := (tx.layout_encoding mem hascii).parses hshort
    have hmem : (Buffer.ofBytes (tx.encoding mem)).ptr.length < 2 ^ sdk.sizeBits :=
      hread.fits_size (le_trans hshort (by decide))
    rw [hout, deserialize_ok_iff hread (Buffer.valid_ofBytes _) tx₀ rfl hmem,
      Buffer.unread_ofBytes]
    exact ⟨hparses, by rw [← hlen]; rfl⟩
  · rw [hout]
    exact tx.sameFields_encoding mem hascii

/-- The limits met by a transaction whose memo is `Hi`. -/
theorem deserialize_serialize_hi :
    let mem : Nat → UInt8 := fun i => [72, 105].getD i 0
    let tx : Transaction := ⟨1, 1000, 0, 0, 2⟩
    ∃ out' tx', transactionSerialize (Reference.sdk 64) mem tx (fun _ => 0) 39 = (39, out')
      ∧ transactionDeserialize (Reference.sdk 64) (.ofBytes (Region.read out' 0 39)) .zero
        = some (.parsingOk, (Buffer.ofBytes (Region.read out' 0 39)).advance 39, tx')
      ∧ SameFields mem tx (Region.read out' 0 39) tx' :=
  (deserialize_serialize (Reference.readLaws (Or.inr rfl)) (Reference.writeLaws 64) _
    ⟨1, 1000, 0, 0, 2⟩ (by decide) (isAscii_iff.mp (by decide)) _ 39 .zero).2 (by decide)

/-! ### Writing what was read -/

/-- Writing what was parsed from `raw` gives `raw` back, wherever there is room for it. -/
def Reencodes (sdk : Sdk) (raw : List UInt8) : Prop :=
  ∀ tx tx' out outLen, DeserializesTo sdk raw tx tx' → raw.length ≤ outLen →
    ∃ out', transactionSerialize sdk (fun i => raw.getD i 0) tx' out outLen
      = ((raw.length : Int), out') ∧ Region.read out' 0 raw.length = raw

section Reencode

variable {raw nonce toAddr value varint memo : List UInt8}

theorem encodeBE_toNat {bytes : List UInt8} (hlen : bytes.length = 8) {n : UInt64}
    (hn : n.toNat = decodeBE bytes) : encodeBE 8 n.toNat = bytes := by
  rw [hn, ← hlen, encodeBE_decodeBE]

theorem Layout.encoding_fieldsOf (h : Layout raw nonce toAddr value varint memo) :
    (fieldsOf raw).encoding (fun i => raw.getD i 0)
      = nonce ++ toAddr ++ value ++ encode memo.length ++ memo := by
  have hholds := h.holds
  have hlen := h.length
  have hheader : headerLen = 36 := rfl
  have hmemo : (fieldsOf raw).memo = headerLen + varint.length := by
    simp only [fieldsOf, h.lengthField]
  have hto : Region.read (fun i => raw.getD i 0) (fieldsOf raw).toAddr addressLen = toAddr := by
    rw [Region.read_getD (by simp only [fieldsOf, addressLen]; omega)]
    exact hholds.toAddr_eq
  have hmem : Region.read (fun i => raw.getD i 0) (fieldsOf raw).memo
      (fieldsOf raw).memoLen.toNat = memo := by
    rw [Region.read_getD (by rw [hmemo, hholds.memoLen_eq]; omega)]
    exact hholds.memo_eq
  rw [Transaction.encoding, encodeBE_toNat h.length_nonce hholds.nonce_eq,
    encodeBE_toNat h.length_value hholds.value_eq, hto, hmem, hholds.memoLen_eq]

theorem Layout.encoding_eq_iff (h : Layout raw nonce toAddr value varint memo) :
    nonce ++ toAddr ++ value ++ encode memo.length ++ memo = raw ↔ varint = encode memo.length := by
  rw [h.split]
  simp only [List.append_assoc, List.append_right_inj, List.append_left_inj]
  exact eq_comm

/-- **Writing undoes reading, up to the form of the length field.** What was parsed from a
transaction with a complete length field is written with the same fields and the length in its
shortest form, which is the transaction itself exactly when it had that form. -/
theorem serialize_deserialize {sdk : Sdk} (hread : sdk.ReadLaws) (hwrite : sdk.WriteLaws)
    {tx tx' : Transaction} (hok : DeserializesTo sdk raw tx tx')
    (hlayout : Layout raw nonce toAddr value varint memo) (out : Nat → UInt8) {outLen : Nat}
    (hroom : raw.length ≤ outLen) :
    let shortest := nonce ++ toAddr ++ value ++ encode memo.length ++ memo
    (∃ out', transactionSerialize sdk (fun i => raw.getD i 0) tx' out outLen
        = ((shortest.length : Int), out') ∧ Region.read out' 0 shortest.length = shortest)
      ∧ (shortest = raw ↔ varint = encode memo.length) := by
  intro shortest
  have hparses := (deserializesTo_iff hread raw tx tx').mp hok
  obtain rfl := hparses.fields
  have hlen := hlayout.length
  have hmemo : (fieldsOf raw).memoLen.toNat ≤ maxTxLen := by
    rw [hlayout.holds.memoLen_eq]
    exact le_trans (by omega) hparses.length_le
  have hencoding : (fieldsOf raw).encoding (fun i => raw.getD i 0) = shortest :=
    hlayout.encoding_fieldsOf
  have hshortest : shortest.length ≤ raw.length := by
    have hsize := size_le_of_decode hlayout.varint
    rw [← hencoding, Transaction.length_encoding, hlayout.holds.memoLen_eq]
    omega
  refine ⟨⟨Region.store out 0 shortest, ?_, Region.read_store out 0 _⟩, hlayout.encoding_eq_iff⟩
  rw [transactionSerialize_eq hread hwrite _ hmemo, hencoding, if_neg (by omega)]

end Reencode

/-- A length of zero in three bytes is read as well, and written in one. -/
theorem not_reencodes_longLength :
    ¬Reencodes (Reference.sdk 64) (List.replicate 36 0 ++ [0xFD, 0, 0]) := by
  intro h
  have hlayout : Layout (List.replicate 36 0 ++ [0xFD, 0, 0]) (List.replicate 8 0)
      (List.replicate 20 0) (List.replicate 8 0) [0xFD, 0, 0] [] :=
    ⟨by decide, by decide, by decide, by decide, by decide, isAscii_iff.mp (by decide)⟩
  have hok := (deserializesTo_iff (Reference.readLaws (Or.inr rfl)) _ .zero _).mpr
    (hlayout.parses (by decide))
  obtain ⟨out', hserialize, -⟩ := h _ _ (fun _ => 0) 39 hok (by decide)
  rw [transactionSerialize_eq (Reference.readLaws (Or.inr rfl)) (Reference.writeLaws 64) _
    (by rw [hlayout.holds.memoLen_eq]; decide), hlayout.encoding_fieldsOf,
    if_neg (by decide)] at hserialize
  exact absurd (Prod.mk.inj hserialize).1 (by decide)

/-- The law at a transaction with a two-byte memo, whose length takes one byte. -/
theorem serialize_deserialize_hi :
    let raw := List.replicate 36 0 ++ [2, 72, 105]
    ∃ out', transactionSerialize (Reference.sdk 64) (fun i => raw.getD i 0) (fieldsOf raw)
      (fun _ => 0) 39 = (39, out') ∧ Region.read out' 0 39 = raw :=
  have hlayout : Layout (List.replicate 36 0 ++ [2, 72, 105]) (List.replicate 8 0)
      (List.replicate 20 0) (List.replicate 8 0) [2] [72, 105] :=
    ⟨by decide, by decide, by decide, by decide, by decide, isAscii_iff.mp (by decide)⟩
  (serialize_deserialize (Reference.readLaws (Or.inr rfl)) (Reference.writeLaws 64)
    ((deserializesTo_iff (Reference.readLaws (Or.inr rfl)) _ .zero _).mpr
      (hlayout.parses (by decide))) hlayout _ (by decide)).1

end BoilerplateApp
