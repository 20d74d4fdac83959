import BoilerplateApp.Proof.Client
import BoilerplateApp.Proof.Serializer

/-!
# The client's encoder and the device's

Both write `nonce || to || value || memo_len || memo`, with the table of `TRANSACTION.md` for the
length. The client compares with `0xFC` where the table has `0xFD`, so a memo of 252 bytes gets a
length of three bytes from the client and of one byte from the device; every other length is written
the same way.
-/

namespace BoilerplateApp.Client

open Endian CompactSize

/-- The shortest form is the client's, unless the length is `0xFC`. -/
theorem writeVarint_eq_iff {n : Nat} (hn : n < 2 ^ 64) :
    writeVarint n = some (encode n) ↔ n ≠ 0xFC := by
  by_cases hsmall : n < 0xFC
  · have hbyte : encodeLE 1 n = [UInt8.ofNat n] := rfl
    rw [writeVarint, if_pos hsmall, encode, if_pos (by omega), hbyte]
    exact iff_of_true rfl (by omega)
  by_cases hlimit : n = 0xFC
  · subst hlimit
    exact iff_of_false (by decide) (by decide)
  · rw [writeVarint, encode, if_neg hsmall, if_neg (show ¬n < 0xFD by omega)]
    split_ifs with h1 h2 h3
    · exact iff_of_true rfl hlimit
    · exact iff_of_true rfl hlimit
    · exact iff_of_true rfl hlimit
    · omega

/-- What the client writes when its length field is `varint`. -/
def Transaction.fields (t : Transaction) (varint : List UInt8) : List UInt8 :=
  encodeBE 8 t.nonce ++ t.toAddr ++ encodeBE 8 t.value ++ varint ++ t.memo

theorem Transaction.serialize_eq_iff (t : Transaction) (varint : List UInt8) :
    t.serialize = some (t.fields varint) ↔ writeVarint t.memo.length = some varint := by
  rw [serialize]
  constructor
  · intro h
    obtain ⟨varint', hvarint, heq⟩ := Option.map_eq_some_iff.mp h
    have hsplit := List.append_cancel_right heq
    rw [hvarint, List.append_cancel_left hsplit]
  · intro h
    rw [h, Option.map_some, fields]

/-- The same transaction in C: `tx` has the numbers, and its pointers into `mem` lead to the
bytes. -/
structure Transaction.StoredAs (t : Transaction) (mem : Nat → UInt8)
    (tx : BoilerplateApp.Transaction) : Prop where
  nonce_eq : tx.nonce.toNat = t.nonce
  value_eq : tx.value.toNat = t.value
  toAddr_eq : Region.read mem tx.toAddr addressLen = t.toAddr
  memoLen_eq : tx.memoLen.toNat = t.memo.length
  memo_eq : Region.read mem tx.memo t.memo.length = t.memo

theorem Transaction.StoredAs.encoding_eq {t : Transaction} {mem : Nat → UInt8}
    {tx : BoilerplateApp.Transaction} (h : t.StoredAs mem tx) :
    tx.encoding mem = t.fields (encode t.memo.length) := by
  rw [BoilerplateApp.Transaction.encoding, h.nonce_eq, h.value_eq, h.toAddr_eq, h.memoLen_eq,
    h.memo_eq, fields]

theorem Transaction.exists_storedAs (t : Transaction) (hmemo : t.memo.length < 2 ^ 64) :
    ∃ mem tx, t.StoredAs mem tx := by
  have haddr : addressLen = t.toAddr.length := t.length_toAddr.symm
  have hread : ∀ offset length, offset + length ≤ (t.toAddr ++ t.memo).length →
      Region.read (fun i => (t.toAddr ++ t.memo).getD i 0) offset length
        = ((t.toAddr ++ t.memo).drop offset).take length :=
    fun offset length hfits => Region.read_getD hfits 0
  refine ⟨fun i => (t.toAddr ++ t.memo).getD i 0,
    ⟨UInt64.ofNat t.nonce, UInt64.ofNat t.value, 0, addressLen, UInt64.ofNat t.memo.length⟩,
    ?_, ?_, ?_, ?_, ?_⟩
  · exact UInt64.toNat_ofNat_of_lt' t.nonce_lt
  · exact UInt64.toNat_ofNat_of_lt' t.value_lt
  · rw [hread 0 addressLen (by rw [List.length_append]; omega), List.drop_zero, haddr,
      List.take_left]
  · exact UInt64.toNat_ofNat_of_lt' hmemo
  · rw [hread addressLen _ (by rw [List.length_append]; omega), haddr, List.drop_left,
      List.take_length]

/-- The client and the device write the same bytes for `t`, with the length in its shortest form,
wherever the device has room for what it writes. -/
def EncodersAgree (sdk : Sdk) (t : Transaction) : Prop :=
  ∀ mem tx out outLen, t.StoredAs mem tx → serializedLen sdk tx ≤ outLen →
    ∃ raw out', raw = t.fields (encode t.memo.length) ∧ t.serialize = some raw
      ∧ transactionSerialize sdk mem tx out outLen = ((raw.length : Int), out')
      ∧ Region.read out' 0 raw.length = raw

/-- **Where the two encoders agree.** On every memo but one of 252 bytes. -/
theorem encodersAgree_iff {sdk : Sdk} (hread : sdk.ReadLaws) (hwrite : sdk.WriteLaws)
    (t : Transaction) (hmemo : t.memo.length < 2 ^ 31 - 64) :
    EncodersAgree sdk t ↔ t.memo.length ≠ 0xFC := by
  -- what the device writes, whatever the client does
  have hdevice : ∀ mem tx out outLen, t.StoredAs mem tx → serializedLen sdk tx ≤ outLen →
      transactionSerialize sdk mem tx out outLen
        = (((t.fields (encode t.memo.length)).length : Int),
            Region.store out 0 (t.fields (encode t.memo.length))) := by
    intro mem tx out outLen hstored hroom
    have hlen := serializedLen_le hwrite tx
    have hheader : headerLen = 36 := rfl
    rw [hstored.memoLen_eq] at hlen
    rw [transactionSerialize_eq_of_lt hread hwrite mem tx out (by omega) (Or.inr (by omega)),
      length_encoding_eq hwrite, if_neg (Nat.not_lt.mpr hroom), ← length_encoding_eq hwrite mem,
      hstored.encoding_eq]
  rw [← writeVarint_eq_iff (lt_trans hmemo (by norm_num)), ← t.serialize_eq_iff]
  constructor
  · intro hagree
    obtain ⟨mem, tx, hstored⟩ := t.exists_storedAs (lt_trans hmemo (by norm_num))
    obtain ⟨_, _, rfl, hclient, -⟩ := hagree mem tx (fun _ => 0) _ hstored (le_refl _)
    exact hclient
  · intro hclient mem tx out outLen hstored hroom
    exact ⟨_, _, rfl, hclient, hdevice mem tx out outLen hstored hroom, Region.read_store out 0 _⟩

/-- A memo of 252 bytes, for whose length `TRANSACTION.md` has one byte. -/
def limitTransaction : Transaction where
  nonce := 0
  toAddr := List.replicate 20 0
  value := 0
  memo := List.replicate 252 0x61
  nonce_lt := by norm_num
  value_lt := by norm_num
  length_toAddr := List.length_replicate
  ascii b hb := by
    rw [List.eq_of_mem_replicate hb]
    decide

theorem not_encodersAgree_limit : ¬EncodersAgree (Reference.sdk 64) limitTransaction := by
  intro hagree
  have hlimit : limitTransaction.memo.length = 252 := List.length_replicate
  obtain ⟨mem, tx, hstored⟩ := limitTransaction.exists_storedAs (by rw [hlimit]; norm_num)
  obtain ⟨raw, out', -, hclient, hserialize, -⟩ :=
    hagree mem tx (fun _ => 0) _ hstored (le_refl _)
  have hmemo : tx.memoLen.toNat ≤ maxTxLen := by
    rw [hstored.memoLen_eq, hlimit]
    decide
  rw [transactionSerialize_eq (Reference.readLaws (Or.inr rfl)) (Reference.writeLaws 64) mem hmemo,
    if_neg (by rw [length_encoding_eq (Reference.writeLaws 64)]; exact Nat.lt_irrefl _),
    hstored.encoding_eq] at hserialize
  -- three bytes for the length on one side, one on the other
  have hlen : (limitTransaction.serialize.map List.length) = some 291 := by decide +kernel
  rw [hclient, Option.map_some, Option.some.injEq] at hlen
  have hdevice := (Prod.mk.inj hserialize).1
  rw [hlen] at hdevice
  exact absurd hdevice (by decide +kernel)

theorem encodersAgree_shortTransaction :
    EncodersAgree (Reference.sdk 64) { limitTransaction with
      memo := [0x48, 0x69], ascii := isAscii_iff.mp (by decide) } :=
  (encodersAgree_iff (Reference.readLaws (Or.inr rfl)) (Reference.writeLaws 64) _ (by decide)).mpr
    (by decide)

end BoilerplateApp.Client
