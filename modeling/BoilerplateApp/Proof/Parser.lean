import BoilerplateApp.Transaction

/-!
# What the parser accepts

`transaction_deserialize` reads seven things one after the other, and the SDK laws say what each
read does. Followed to its end this gives the result for every input, first in the order of the code
and then as a predicate on the bytes alone, `Parses`, which no longer mentions buffers or the SDK.
-/

namespace BoilerplateApp

open Endian CompactSize

def headerLen : Nat := 8 + addressLen + 8

/-- The length field as the code reads it: its value and its size, both zero when it is missing or
incomplete. -/
def lengthField (rest : List UInt8) : Nat × Nat := (decode rest).getD (0, 0)

theorem lengthField_length (rest : List UInt8) : (lengthField rest).2 ≤ rest.length := by
  unfold lengthField
  cases h : decode rest with
  | none => simp
  | some field =>
      obtain ⟨value, used⟩ := field
      exact (decode_length h).2

theorem lengthField_lt (rest : List UInt8) : (lengthField rest).1 < 2 ^ 64 := by
  unfold lengthField
  cases h : decode rest with
  | none => simp
  | some field =>
      obtain ⟨value, used⟩ := field
      exact decode_lt h

theorem toNat_lengthField (rest : List UInt8) :
    (UInt64.ofNat (lengthField rest).1).toNat = (lengthField rest).1 :=
  UInt64.toNat_ofNat_of_lt' (lengthField_lt rest)

def fieldsOf (raw : List UInt8) : Transaction where
  nonce := UInt64.ofNat (decodeBE (raw.take 8))
  value := UInt64.ofNat (decodeBE ((raw.drop (8 + addressLen)).take 8))
  toAddr := 8
  memo := headerLen + (lengthField (raw.drop headerLen)).2
  memoLen := UInt64.ofNat (lengthField (raw.drop headerLen)).1

/-- `raw` is a transaction to the code, with the fields `tx`. -/
structure Parses (raw : List UInt8) (tx : Transaction) : Prop where
  length_le : raw.length ≤ maxTxLen
  header : headerLen ≤ raw.length
  fields : tx = fieldsOf raw
  total : headerLen + (lengthField (raw.drop headerLen)).2 + (lengthField (raw.drop headerLen)).1
    = raw.length
  ascii : ∀ b ∈ raw.drop (headerLen + (lengthField (raw.drop headerLen)).2), b ≤ 0x7F

/-! ### The encoding check -/

def isAscii (bytes : List UInt8) : Bool := bytes.all fun b => decide (b ≤ 0x7F)

theorem isAscii_iff {bytes : List UInt8} : isAscii bytes = true ↔ ∀ b ∈ bytes, b ≤ 0x7F := by
  simp only [isAscii, List.all_eq_true, decide_eq_true_eq]

theorem checkEncoding_eq {memo : List UInt8} {n : Nat} (hn : n ≤ memo.length) :
    transactionUtilsCheckEncoding memo n = some (isAscii (memo.take n)) := by
  induction memo generalizing n with
  | nil =>
      obtain rfl : n = 0 := by simpa using hn
      rfl
  | cons b memo ih =>
      cases n with
      | zero => rfl
      | succ n =>
          rw [transactionUtilsCheckEncoding]
          split
          · next hb => simp [isAscii, UInt8.not_le.mpr hb]
          · next hb =>
              rw [ih (by simpa using hn)]
              simp [isAscii, UInt8.not_lt.mp hb]

theorem le_length_of_checkEncoding {memo : List UInt8} {n : Nat}
    (h : transactionUtilsCheckEncoding memo n = some true) : n ≤ memo.length := by
  induction memo generalizing n with
  | nil =>
      cases n with
      | zero => exact Nat.zero_le _
      | succ n => simp [transactionUtilsCheckEncoding] at h
  | cons b memo ih =>
      cases n with
      | zero => exact Nat.zero_le _
      | succ n =>
          rw [transactionUtilsCheckEncoding] at h
          split at h
          · simp at h
          · rw [List.length_cons]
            exact Nat.succ_le_succ (ih h)

/-! ### The stages -/

section Stages

variable {sdk : Sdk} (hsdk : sdk.ReadLaws) {buf : Buffer} (hvalid : buf.Valid) (tx : Transaction)

include hsdk hvalid

theorem deserialize_nonceParsingError (hsize : buf.size ≤ maxTxLen)
    (hshort : buf.unread.length < 8) :
    ∃ buf' tx', transactionDeserialize sdk buf tx = some (.nonceParsingError, buf', tx') := by
  have hfail := (hsdk.readU64_missing buf hvalid hshort).1
  rcases hread : sdk.bufferReadU64 buf .be with ⟨ok, nonce, buf'⟩
  obtain rfl : ok = false := by rw [← hfail, hread]
  simp only [transactionDeserialize, if_neg (Nat.not_lt.mpr hsize), hread, Bool.not_false, if_true]
  exact ⟨_, _, rfl⟩

theorem deserialize_toParsingError (hsize : buf.size ≤ maxTxLen) (hnonce : 8 ≤ buf.unread.length)
    (hshort : buf.unread.length < 8 + addressLen) :
    ∃ buf' tx', transactionDeserialize sdk buf tx = some (.toParsingError, buf', tx') := by
  have hseek : sdk.bufferSeekCur (buf.advance 8) addressLen = (false, buf.advance 8) :=
    hsdk.seekCur_missing _ _ (hvalid.advance hnonce) (hsdk.fits_size (by decide)) (by
      rw [Buffer.unread_advance, List.length_drop]
      omega)
  simp only [transactionDeserialize, if_neg (Nat.not_lt.mpr hsize),
    hsdk.readU64 buf hvalid hnonce, hseek, Bool.not_true, Bool.not_false, Bool.false_eq_true,
    if_false, if_true]
  exact ⟨_, _, rfl⟩

theorem deserialize_valueParsingError (hsize : buf.size ≤ maxTxLen)
    (hto : 8 + addressLen ≤ buf.unread.length) (hshort : buf.unread.length < headerLen) :
    ∃ buf' tx', transactionDeserialize sdk buf tx = some (.valueParsingError, buf', tx') := by
  have hnonce : 8 ≤ buf.unread.length := le_trans (by decide) hto
  have hvalid8 := hvalid.advance hnonce
  have hto' : addressLen ≤ (buf.advance 8).unread.length := by
    rw [Buffer.unread_advance, List.length_drop]
    omega
  have hfail := (hsdk.readU64_missing _ (hvalid8.advance hto') (by
    simp only [Buffer.unread_advance, List.length_drop, headerLen] at *
    omega)).1
  rcases hread : sdk.bufferReadU64 ((buf.advance 8).advance addressLen) .be with ⟨ok, value, buf'⟩
  obtain rfl : ok = false := by rw [← hfail, hread]
  simp only [transactionDeserialize, if_neg (Nat.not_lt.mpr hsize),
    hsdk.readU64 buf hvalid hnonce,
    hsdk.seekCur _ _ hvalid8 (hsdk.fits_size (by decide)) hto', hread, Bool.not_true,
    Bool.not_false, Bool.false_eq_true, if_false, if_true]
  exact ⟨_, _, rfl⟩

theorem deserialize_of_short (hsize : buf.size ≤ maxTxLen)
    (hshort : buf.unread.length < headerLen) :
    ∃ status buf' tx', transactionDeserialize sdk buf tx = some (status, buf', tx')
      ∧ status ≠ .parsingOk := by
  by_cases hnonce : buf.unread.length < 8
  · obtain ⟨b, t, h⟩ := deserialize_nonceParsingError hsdk hvalid tx hsize hnonce
    exact ⟨_, b, t, h, by decide⟩
  by_cases hto : buf.unread.length < 8 + addressLen
  · obtain ⟨b, t, h⟩ :=
      deserialize_toParsingError hsdk hvalid tx hsize (Nat.not_lt.mp hnonce) hto
    exact ⟨_, b, t, h, by decide⟩
  · obtain ⟨b, t, h⟩ :=
      deserialize_valueParsingError hsdk hvalid tx hsize (Nat.not_lt.mp hto) hshort
    exact ⟨_, b, t, h, by decide⟩

omit hvalid in
theorem header_reads (hvalid : buf.Valid) (hheader : headerLen ≤ buf.unread.length) :
    sdk.bufferReadU64 buf .be
        = (true, UInt64.ofNat (decodeBE (buf.unread.take 8)), buf.advance 8)
      ∧ sdk.bufferSeekCur (buf.advance 8) addressLen = (true, buf.advance (8 + addressLen))
      ∧ sdk.bufferReadU64 (buf.advance (8 + addressLen)) .be
        = (true, UInt64.ofNat (decodeBE ((buf.unread.drop (8 + addressLen)).take 8)),
            buf.advance headerLen) := by
  have hlen : headerLen = 36 := rfl
  have haddr : addressLen = 20 := rfl
  refine ⟨hsdk.readU64 buf hvalid (by omega), ?_, ?_⟩
  · have hto : addressLen ≤ (buf.advance 8).unread.length := by
      rw [Buffer.unread_advance, List.length_drop]
      omega
    rw [hsdk.seekCur _ _ (hvalid.advance (by omega)) (hsdk.fits_size (by decide)) hto,
      Buffer.advance_advance]
  · have hvalue : 8 ≤ (buf.advance (8 + addressLen)).unread.length := by
      rw [Buffer.unread_advance, List.length_drop]
      omega
    rw [hsdk.readU64 _ (hvalid.advance (by omega)) hvalue, Buffer.advance_advance,
      Buffer.unread_advance]
    rfl

omit hvalid in
/-- The length field is read as `lengthField` says, and the test that follows never fires, because a
failing read leaves the length at zero. -/
theorem varint_reads (hvalid : buf.Valid) : ∃ ok,
    sdk.bufferReadVarint buf
        = (ok, UInt64.ofNat (lengthField buf.unread).1, buf.advance (lengthField buf.unread).2)
      ∧ ¬((!ok) = true ∧ (lengthField buf.unread).1 > maxMemoLen) := by
  cases hfield : decode buf.unread with
  | none =>
      refine ⟨false, ?_, ?_⟩
      · rw [hsdk.readVarint_missing _ hvalid hfield]
        simp [lengthField, hfield, Buffer.advance]
      · simp [lengthField, hfield]
  | some field =>
      refine ⟨true, ?_, by simp⟩
      rw [hsdk.readVarint _ field.1 field.2 hvalid hfield]
      simp [lengthField, hfield]

theorem deserialize_memo (hstart : buf.offset = 0) (hsize : buf.size ≤ maxTxLen)
    (hheader : headerLen ≤ buf.unread.length) :
    transactionDeserialize sdk buf tx =
      let field := lengthField (buf.unread.drop headerLen)
      let seek := sdk.bufferSeekCur (buf.advance (headerLen + field.2))
        (field.1 % 2 ^ sdk.sizeBits)
      if !seek.1 then some (.memoParsingError, seek.2, fieldsOf buf.unread)
      else
        match transactionUtilsCheckEncoding (seek.2.ptr.drop (headerLen + field.2)) field.1 with
        | none => none
        | some false => some (.memoEncodingError, seek.2, fieldsOf buf.unread)
        | some true =>
            some (if seek.2.offset = seek.2.size then .parsingOk else .wrongLengthError, seek.2,
              fieldsOf buf.unread) := by
  obtain ⟨hnonce, hto, hvalue⟩ := header_reads hsdk hvalid hheader
  obtain ⟨ok, hvarint, hguard⟩ := varint_reads hsdk (hvalid.advance hheader)
  rw [Buffer.unread_advance, Buffer.advance_advance] at hvarint
  rw [Buffer.unread_advance] at hguard
  simp only [transactionDeserialize, if_neg (Nat.not_lt.mpr hsize), hnonce, hto, hvalue, hvarint,
    toNat_lengthField, if_neg hguard, Bool.not_true, Bool.false_eq_true, if_false,
    Buffer.advance_offset, hstart, Nat.zero_add]
  rfl

/-- A memo whose declared length is there is scanned and then has to end the input. -/
theorem deserialize_of_le (hstart : buf.offset = 0) (hsize : buf.size ≤ maxTxLen)
    (hheader : headerLen ≤ buf.unread.length) {memoLen used : Nat}
    (hfield : lengthField (buf.unread.drop headerLen) = (memoLen, used))
    (hfits : headerLen + used + memoLen ≤ buf.unread.length) :
    transactionDeserialize sdk buf tx = some
      (if isAscii ((buf.unread.drop (headerLen + used)).take memoLen) then
          if headerLen + used + memoLen = buf.unread.length then .parsingOk
          else .wrongLengthError
        else .memoEncodingError,
        buf.advance (headerLen + used + memoLen), fieldsOf buf.unread) := by
  have hunread : buf.unread = buf.ptr.take buf.size := by rw [Buffer.unread, hstart, List.drop_zero]
  have hlen : buf.unread.length = buf.size := by rw [Buffer.length_unread hvalid, hstart]; omega
  have hmod : memoLen % 2 ^ sdk.sizeBits = memoLen := by
    refine Nat.mod_eq_of_lt (hsdk.fits_size ?_)
    have : maxTxLen = 510 := rfl
    omega
  have hvalidMemo : (buf.advance (headerLen + used)).Valid := hvalid.advance (by omega)
  have hseek : sdk.bufferSeekCur (buf.advance (headerLen + used)) memoLen
      = (true, buf.advance (headerLen + used + memoLen)) := by
    rw [hsdk.seekCur _ _ hvalidMemo (hmod ▸ Nat.mod_lt _ (by positivity)) (by
      rw [Buffer.unread_advance, List.length_drop]
      omega), Buffer.advance_advance]
  have hscan : (buf.ptr.drop (headerLen + used)).take memoLen
      = (buf.unread.drop (headerLen + used)).take memoLen := by
    rw [hunread, List.drop_take, List.take_take, Nat.min_eq_left (by omega)]
  have hinside : memoLen ≤ (buf.ptr.drop (headerLen + used)).length := by
    have := hvalid.2
    rw [List.length_drop]
    omega
  have hcheck := checkEncoding_eq hinside
  rw [deserialize_memo hsdk hvalid tx hstart hsize hheader]
  simp only [hfield, hmod, hseek, Bool.not_true, Bool.false_eq_true, if_false, Buffer.advance_ptr,
    hcheck, hscan, Buffer.advance_offset, Buffer.advance_size, hstart, Nat.zero_add, hlen]
  cases isAscii ((buf.unread.drop (headerLen + used)).take memoLen) <;> rfl

/-- A memo whose declared length is not there is never accepted: either the seek fails or the scan
leaves the memory. -/
theorem deserialize_ne_ok_of_lt (hstart : buf.offset = 0) (hsize : buf.size ≤ maxTxLen)
    (hmem : buf.ptr.length < 2 ^ sdk.sizeBits) (hheader : headerLen ≤ buf.unread.length)
    {memoLen used : Nat} (hfield : lengthField (buf.unread.drop headerLen) = (memoLen, used))
    (hlong : buf.unread.length < headerLen + used + memoLen) (buf' : Buffer) (tx' : Transaction) :
    transactionDeserialize sdk buf tx ≠ some (.parsingOk, buf', tx') := by
  have hlen : buf.unread.length = buf.size := by rw [Buffer.length_unread hvalid, hstart]; omega
  have hused : used ≤ (buf.unread.drop headerLen).length := by
    simpa [hfield] using lengthField_length (buf.unread.drop headerLen)
  rw [List.length_drop] at hused
  have hvalidMemo : (buf.advance (headerLen + used)).Valid := hvalid.advance (by omega)
  have hleft : (buf.advance (headerLen + used)).unread.length
      = buf.unread.length - (headerLen + used) := by
    rw [Buffer.unread_advance, List.length_drop]
  have hdist : memoLen % 2 ^ sdk.sizeBits < 2 ^ sdk.sizeBits := Nat.mod_lt _ (by positivity)
  rw [deserialize_memo hsdk hvalid tx hstart hsize hheader]
  by_cases hseek : memoLen % 2 ^ sdk.sizeBits ≤ (buf.advance (headerLen + used)).unread.length
  · simp only [hfield, hsdk.seekCur _ _ hvalidMemo hdist hseek, Bool.not_true, Bool.false_eq_true,
      if_false, Buffer.advance_ptr]
    cases hcheck : transactionUtilsCheckEncoding (buf.ptr.drop (headerLen + used)) memoLen with
    | none => simp
    | some ok =>
        cases ok with
        | false => simp
        | true =>
            -- the scan stayed in memory, so the length fits a `size_t` and the seek was not cut
            have hinside := le_length_of_checkEncoding hcheck
            rw [List.length_drop] at hinside
            rw [Nat.mod_eq_of_lt (by omega), hleft] at hseek
            omega
  · simp only [hfield, hsdk.seekCur_missing _ _ hvalidMemo hdist (Nat.not_le.mp hseek),
      Bool.not_false, if_true]
    simp

/-- **What the parser accepts.** The result is `PARSING_OK` exactly for the bytes that `Parses`
describes, and then all of the buffer is read. -/
theorem deserialize_ok_iff (hstart : buf.offset = 0) (hmem : buf.ptr.length < 2 ^ sdk.sizeBits)
    (buf' : Buffer) (tx' : Transaction) :
    transactionDeserialize sdk buf tx = some (.parsingOk, buf', tx')
      ↔ Parses buf.unread tx' ∧ buf' = buf.advance buf.size := by
  have hlen : buf.unread.length = buf.size := by rw [Buffer.length_unread hvalid, hstart]; omega
  by_cases hsize : buf.size ≤ maxTxLen
  swap
  · rw [transactionDeserialize, if_pos (Nat.not_le.mp hsize)]
    constructor
    · intro h
      simp at h
    · rintro ⟨hparses, -⟩
      exact absurd hparses.length_le (by rwa [hlen])
  by_cases hheader : headerLen ≤ buf.unread.length
  swap
  · obtain ⟨status, b, t, h, hne⟩ :=
      deserialize_of_short hsdk hvalid tx hsize (Nat.not_le.mp hheader)
    rw [h]
    constructor
    · intro heq
      simp only [Option.some.injEq, Prod.mk.injEq] at heq
      exact absurd heq.1 hne
    · rintro ⟨hparses, -⟩
      exact absurd hparses.header hheader
  rcases hfield : lengthField (buf.unread.drop headerLen) with ⟨memoLen, used⟩
  by_cases hfits : headerLen + used + memoLen ≤ buf.unread.length
  · rw [deserialize_of_le hsdk hvalid tx hstart hsize hheader hfield hfits]
    simp only [Option.some.injEq, Prod.mk.injEq]
    constructor
    · rintro ⟨hstatus, rfl, rfl⟩
      split_ifs at hstatus with hascii htotal
      refine ⟨⟨hlen ▸ hsize, hheader, rfl, ?_, ?_⟩, by rw [htotal, hlen]⟩
      · rw [hfield]
        exact htotal
      · rw [hfield]
        rwa [List.take_of_length_le (by rw [List.length_drop]; omega), isAscii_iff] at hascii
    · rintro ⟨hparses, rfl⟩
      have htotal := hparses.total
      have hascii := hparses.ascii
      rw [hfield] at htotal hascii
      simp only at htotal hascii
      refine ⟨?_, by rw [htotal, hlen], hparses.fields.symm⟩
      rw [if_pos (by
        rwa [List.take_of_length_le (by rw [List.length_drop]; omega), isAscii_iff]), if_pos htotal]
  · constructor
    · intro h
      exact absurd h (deserialize_ne_ok_of_lt hsdk hvalid tx hstart hsize hmem hheader hfield
        (Nat.not_le.mp hfits) _ _)
    · rintro ⟨hparses, -⟩
      have htotal := hparses.total
      rw [hfield] at htotal
      simp only at htotal
      omega

end Stages

end BoilerplateApp
