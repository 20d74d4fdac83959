import BoilerplateApp.Proof.Parser
import BoilerplateApp.Reference

/-!
# The transaction format

`TRANSACTION.md` describes a transaction as five fields one after the other. `Layout` says that of
bytes, and this module compares it with what the parser accepts. They differ in two places, and both
come from the one test that guards the memo length: it asks for a varint that is missing *and* too
large at once, so it never fires. A transaction that stops before its varint is taken for one with
an empty memo, and a memo may be longer than `MAX_MEMO_LEN` as long as the whole still fits
`MAX_TX_LEN`.
-/

namespace BoilerplateApp

open Endian CompactSize

/-- `raw` is `nonce || to || value || length || memo`, where the length is a complete varint that
counts the memo, and the memo is ASCII. -/
structure Layout (raw nonce toAddr value varint memo : List UInt8) : Prop where
  split : raw = nonce ++ toAddr ++ value ++ varint ++ memo
  length_nonce : nonce.length = 8
  length_toAddr : toAddr.length = addressLen
  length_value : value.length = 8
  varint : decode varint = some (memo.length, varint.length)
  ascii : ∀ b ∈ memo, b ≤ 0x7F

/-- `tx` holds these fields of `raw`: the numbers, and pointers to the bytes. -/
structure Holds (raw : List UInt8) (tx : Transaction) (nonce toAddr value memo : List UInt8) :
    Prop where
  nonce_eq : tx.nonce.toNat = decodeBE nonce
  value_eq : tx.value.toNat = decodeBE value
  toAddr_eq : (raw.drop tx.toAddr).take addressLen = toAddr
  memo_eq : (raw.drop tx.memo).take tx.memoLen.toNat = memo
  memoLen_eq : tx.memoLen.toNat = memo.length

theorem toNat_decodeBE {bytes : List UInt8} (hlen : bytes.length = 8) :
    (UInt64.ofNat (decodeBE bytes)).toNat = decodeBE bytes := by
  have := decodeBE_lt bytes
  rw [hlen] at this
  rw [UInt64.toNat_ofNat']
  omega

section Layout

variable {raw nonce toAddr value varint memo : List UInt8}

theorem Layout.length (h : Layout raw nonce toAddr value varint memo) :
    raw.length = headerLen + varint.length + memo.length := by
  rw [h.split]
  simp only [List.length_append, h.length_nonce, h.length_toAddr, h.length_value, headerLen]

theorem Layout.drop_header (h : Layout raw nonce toAddr value varint memo) :
    raw.drop headerLen = varint ++ memo := by
  rw [h.split, List.append_assoc, List.drop_left' (by
    simp only [List.length_append, h.length_nonce, h.length_toAddr, h.length_value, headerLen])]

theorem Layout.lengthField (h : Layout raw nonce toAddr value varint memo) :
    lengthField (raw.drop headerLen) = (memo.length, varint.length) := by
  rw [h.drop_header, BoilerplateApp.lengthField, decode_append h.varint, Option.getD_some]

theorem Layout.varint_pos (h : Layout raw nonce toAddr value varint memo) : 0 < varint.length :=
  (decode_length h.varint).1

theorem Layout.drop_memo (h : Layout raw nonce toAddr value varint memo) :
    raw.drop (headerLen + varint.length) = memo := by
  rw [← List.drop_drop, h.drop_header, List.drop_left]

theorem Layout.parses (h : Layout raw nonce toAddr value varint memo)
    (hlen : raw.length ≤ maxTxLen) : Parses raw (fieldsOf raw) where
  length_le := hlen
  header := by
    have := h.length
    omega
  fields := rfl
  total := by rw [h.lengthField, h.length]
  ascii := by
    rw [h.lengthField, h.drop_memo]
    exact h.ascii

theorem Layout.holds (h : Layout raw nonce toAddr value varint memo) :
    Holds raw (fieldsOf raw) nonce toAddr value memo := by
  have hnonce : raw.take 8 = nonce := by
    rw [h.split]
    simp only [List.append_assoc]
    rw [List.take_left' h.length_nonce]
  have htail : raw.drop 8 = toAddr ++ (value ++ (varint ++ memo)) := by
    rw [h.split]
    simp only [List.append_assoc]
    rw [List.drop_left' h.length_nonce]
  have hto : (raw.drop 8).take addressLen = toAddr := by
    rw [htail, List.take_left' h.length_toAddr]
  have hvalue : (raw.drop (8 + addressLen)).take 8 = value := by
    rw [← List.drop_drop, htail, List.drop_left' h.length_toAddr, List.take_left' h.length_value]
  have hmemoLen : (fieldsOf raw).memoLen.toNat = memo.length := by
    have hlt := lengthField_lt (raw.drop headerLen)
    rw [h.lengthField] at hlt
    simp only [fieldsOf, h.lengthField]
    rw [UInt64.toNat_ofNat']
    omega
  refine ⟨?_, ?_, hto, ?_, hmemoLen⟩
  · simp only [fieldsOf, hnonce]
    exact toNat_decodeBE h.length_nonce
  · simp only [fieldsOf, hvalue]
    exact toNat_decodeBE h.length_value
  · rw [hmemoLen]
    simp only [fieldsOf, h.lengthField]
    rw [h.drop_memo, List.take_length]

theorem layout_of_decode (hheader : headerLen ≤ raw.length) {memoLen used : Nat}
    (hdecode : decode (raw.drop headerLen) = some (memoLen, used))
    (htotal : headerLen + used + memoLen = raw.length)
    (hascii : ∀ b ∈ raw.drop (headerLen + used), b ≤ 0x7F) :
    Layout raw (raw.take 8) ((raw.drop 8).take addressLen) ((raw.drop (8 + addressLen)).take 8)
      ((raw.drop headerLen).take used) (raw.drop (headerLen + used)) := by
  have hlen : headerLen = 36 := rfl
  have haddr : addressLen = 20 := rfl
  refine ⟨?_, ?_, ?_, ?_, ?_, hascii⟩
  · have h3 : (raw.drop headerLen).take used ++ raw.drop (headerLen + used)
        = raw.drop headerLen := by
      have := List.take_append_drop used (raw.drop headerLen)
      rwa [List.drop_drop] at this
    have h2 : (raw.drop (8 + addressLen)).take 8 ++ raw.drop headerLen
        = raw.drop (8 + addressLen) := by
      have := List.take_append_drop 8 (raw.drop (8 + addressLen))
      rwa [List.drop_drop] at this
    have h1 : (raw.drop 8).take addressLen ++ raw.drop (8 + addressLen) = raw.drop 8 := by
      have := List.take_append_drop addressLen (raw.drop 8)
      rwa [List.drop_drop] at this
    simp only [List.append_assoc]
    rw [h3, h2, h1, List.take_append_drop]
  · rw [List.length_take]
    omega
  · rw [List.length_take, List.length_drop]
    omega
  · rw [List.length_take, List.length_drop]
    omega
  · have hused : ((raw.drop headerLen).take used).length = used := by
      rw [List.length_take, List.length_drop]
      omega
    rw [decode_take hdecode, hused, List.length_drop, ← htotal, Nat.add_sub_cancel_left]

end Layout

/-- **What parses.** Besides the documented layouts, with memos of any length, the parser accepts a
header with nothing behind it. -/
theorem parses_iff (raw : List UInt8) (tx : Transaction) :
    Parses raw tx ↔ raw.length ≤ maxTxLen ∧ tx = fieldsOf raw
      ∧ (raw.length = headerLen
        ∨ ∃ nonce toAddr value varint memo, Layout raw nonce toAddr value varint memo) := by
  constructor
  · intro h
    refine ⟨h.length_le, h.fields, ?_⟩
    have htotal := h.total
    have hascii := h.ascii
    cases hdecode : decode (raw.drop headerLen) with
    | none =>
        left
        simpa [lengthField, hdecode] using htotal.symm
    | some field =>
        right
        simp only [lengthField, hdecode, Option.getD_some] at htotal hascii
        exact ⟨_, _, _, _, _, layout_of_decode h.header hdecode htotal hascii⟩
  · rintro ⟨hlen, rfl, hheader | ⟨nonce, toAddr, value, varint, memo, hlayout⟩⟩
    · have hdrop : raw.drop headerLen = [] := List.drop_of_length_le (le_of_eq hheader)
      refine ⟨hlen, le_of_eq hheader.symm, rfl, ?_, ?_⟩
      · simp [lengthField, hdrop, decode, hheader]
      · simp [lengthField, hdrop, decode]
    · exact hlayout.parses hlen

/-- `transaction_deserialize` on a buffer over `raw` returns `PARSING_OK` and `tx'`. -/
def DeserializesTo (sdk : Sdk) (raw : List UInt8) (tx tx' : Transaction) : Prop :=
  ∃ buf', transactionDeserialize sdk (.ofBytes raw) tx = some (.parsingOk, buf', tx')

theorem deserializesTo_iff {sdk : Sdk} (hsdk : sdk.ReadLaws) (raw : List UInt8)
    (tx tx' : Transaction) : DeserializesTo sdk raw tx tx' ↔ Parses raw tx' := by
  by_cases hlen : raw.length ≤ maxTxLen
  · have hmem : (Buffer.ofBytes raw).ptr.length < 2 ^ sdk.sizeBits :=
      hsdk.fits_size (le_trans hlen (by decide))
    simp only [DeserializesTo,
      deserialize_ok_iff hsdk (Buffer.valid_ofBytes raw) tx rfl hmem, Buffer.unread_ofBytes,
      exists_and_left, exists_eq, and_true]
  · constructor
    · rintro ⟨buf', h⟩
      rw [transactionDeserialize, if_pos (show (Buffer.ofBytes raw).size > maxTxLen from
        Nat.not_le.mp hlen)] at h
      simp at h
    · exact fun h => absurd h.length_le hlen

/-- The parser and the documented format agree on `raw`: it is accepted exactly when it is a layout
within both limits, and then the transaction holds the fields of one. -/
def AcceptsFormat (sdk : Sdk) (raw : List UInt8) (tx : Transaction) : Prop :=
  ((∃ tx', DeserializesTo sdk raw tx tx') ↔ raw.length ≤ maxTxLen
    ∧ ∃ nonce toAddr value varint memo, Layout raw nonce toAddr value varint memo
      ∧ memo.length ≤ maxMemoLen)
  ∧ ∀ tx', DeserializesTo sdk raw tx tx' → ∃ nonce toAddr value varint memo,
      Layout raw nonce toAddr value varint memo ∧ Holds raw tx' nonce toAddr value memo

theorem Layout.memo_unique {raw n₁ t₁ v₁ l₁ m₁ n₂ t₂ v₂ l₂ m₂ : List UInt8}
    (h₁ : Layout raw n₁ t₁ v₁ l₁ m₁) (h₂ : Layout raw n₂ t₂ v₂ l₂ m₂) : m₁ = m₂ := by
  have hlen : l₁.length = l₂.length :=
    congrArg Prod.snd (h₁.lengthField.symm.trans h₂.lengthField)
  rw [← h₁.drop_memo, ← h₂.drop_memo, hlen]

/-- **Where the parser and the format agree.** On every input but two kinds: a header with nothing
behind it, and a layout whose memo is longer than `MAX_MEMO_LEN`. -/
theorem acceptsFormat_iff {sdk : Sdk} (hsdk : sdk.ReadLaws) (raw : List UInt8) (tx : Transaction) :
    AcceptsFormat sdk raw tx ↔ raw.length ≠ headerLen
      ∧ ¬(raw.length ≤ maxTxLen ∧ ∃ nonce toAddr value varint memo,
          Layout raw nonce toAddr value varint memo ∧ maxMemoLen < memo.length) := by
  simp only [AcceptsFormat, deserializesTo_iff hsdk, parses_iff]
  constructor
  · rintro ⟨haccept, -⟩
    constructor
    · intro hheader
      obtain ⟨-, _, _, _, _, _, hlayout, -⟩ :=
        haccept.mp ⟨_, by rw [hheader]; decide, rfl, Or.inl hheader⟩
      have hpos := hlayout.varint_pos
      have hlen := hlayout.length
      omega
    · rintro ⟨hlen, nonce, toAddr, value, varint, memo, hlayout, hlong⟩
      obtain ⟨-, _, _, _, _, _, hlayout', hshort⟩ :=
        haccept.mp ⟨_, hlen, rfl, Or.inr ⟨_, _, _, _, _, hlayout⟩⟩
      rw [hlayout.memo_unique hlayout'] at hlong
      omega
  · rintro ⟨hheader, hlong⟩
    refine ⟨⟨?_, ?_⟩, ?_⟩
    · rintro ⟨tx', hlen, -, hcase⟩
      obtain ⟨nonce, toAddr, value, varint, memo, hlayout⟩ := hcase.resolve_left hheader
      refine ⟨hlen, nonce, toAddr, value, varint, memo, hlayout, ?_⟩
      by_contra hmemo
      exact hlong ⟨hlen, _, _, _, _, _, hlayout, Nat.not_le.mp hmemo⟩
    · rintro ⟨hlen, nonce, toAddr, value, varint, memo, hlayout, -⟩
      exact ⟨_, hlen, rfl, Or.inr ⟨_, _, _, _, _, hlayout⟩⟩
    · rintro tx' ⟨hlen, rfl, hcase⟩
      obtain ⟨nonce, toAddr, value, varint, memo, hlayout⟩ := hcase.resolve_left hheader
      exact ⟨nonce, toAddr, value, varint, memo, hlayout, hlayout.holds⟩

/-- The two disagree on a header with nothing behind it. -/
theorem not_acceptsFormat_header :
    ¬AcceptsFormat (Reference.sdk 64) (List.replicate 36 0) .zero := by
  rintro ⟨haccept, -⟩
  have hparses : Parses (List.replicate 36 0) (fieldsOf (List.replicate 36 0)) := by
    rw [parses_iff]
    exact ⟨by decide, rfl, Or.inl (by decide)⟩
  obtain ⟨-, _, _, _, _, _, hlayout, -⟩ := haccept.mp
    ⟨_, (deserializesTo_iff (Reference.readLaws (Or.inr rfl)) _ _ _).mpr hparses⟩
  have hpos := hlayout.varint_pos
  have hlen := hlayout.length
  rw [List.length_replicate] at hlen
  have : headerLen = 36 := rfl
  omega

/-- The condition met on a transaction with a two-byte memo. -/
theorem acceptsFormat_hi :
    AcceptsFormat (Reference.sdk 64) (List.replicate 36 0 ++ [2, 72, 105]) .zero :=
  (acceptsFormat_iff (Reference.readLaws (Or.inr rfl)) _ _).mpr ⟨by decide, by
    rintro ⟨-, _, _, _, _, _, hlayout, hlong⟩
    have hlen := hlayout.length
    have : headerLen = 36 := rfl
    have : maxMemoLen = 465 := rfl
    simp at hlen
    omega⟩

end BoilerplateApp
