import BoilerplateApp.Proof.Format

/-!
# Why a transaction is rejected

The fields of a transaction are read one after the other, and there is a status for a fault in each
of them. `FirstFault` says which fault comes first, of the bytes alone. The parser reports it, except
for a length field that is at fault: the test that would report it never fires, so that an incomplete
length continues as an empty memo and one that is too large as a memo that is too short.
-/

namespace BoilerplateApp

open Endian CompactSize

/-- The length field is missing, incomplete or larger than `MAX_MEMO_LEN`. -/
def LengthFault (raw : List UInt8) : Prop :=
  ∀ memoLen used, decode (raw.drop headerLen) = some (memoLen, used) → maxMemoLen < memoLen

/-- The first fault of `raw` in reading order. -/
inductive FirstFault (raw : List UInt8) : ParserStatus → Prop
  | nonce (hshort : raw.length < 8) : FirstFault raw .nonceParsingError
  | toAddr (hnonce : 8 ≤ raw.length) (hshort : raw.length < 8 + addressLen) :
      FirstFault raw .toParsingError
  | value (hto : 8 + addressLen ≤ raw.length) (hshort : raw.length < headerLen) :
      FirstFault raw .valueParsingError
  | memoLength (hvalue : headerLen ≤ raw.length) (hlength : LengthFault raw) :
      FirstFault raw .memoLengthError
  | memo (hvalue : headerLen ≤ raw.length) {memoLen used : Nat}
      (hlength : decode (raw.drop headerLen) = some (memoLen, used)) (hmax : memoLen ≤ maxMemoLen)
      (hshort : (raw.drop (headerLen + used)).length < memoLen) :
      FirstFault raw .memoParsingError
  | encoding (hvalue : headerLen ≤ raw.length) {memoLen used : Nat}
      (hlength : decode (raw.drop headerLen) = some (memoLen, used)) (hmax : memoLen ≤ maxMemoLen)
      (hmemo : memoLen ≤ (raw.drop (headerLen + used)).length)
      (hbyte : ∃ b ∈ (raw.drop (headerLen + used)).take memoLen, 0x7F < b) :
      FirstFault raw .memoEncodingError
  | leftOver (hvalue : headerLen ≤ raw.length) {memoLen used : Nat}
      (hlength : decode (raw.drop headerLen) = some (memoLen, used)) (hmax : memoLen ≤ maxMemoLen)
      (hmemo : memoLen < (raw.drop (headerLen + used)).length)
      (hascii : ∀ b ∈ (raw.drop (headerLen + used)).take memoLen, b ≤ 0x7F) :
      FirstFault raw .wrongLengthError

/-- The parser returns a status, and it is that of the first fault. -/
def RejectsForFirstFault (sdk : Sdk) (raw : List UInt8) (tx : Transaction) : Prop :=
  ∃ status buf' tx', transactionDeserialize sdk (.ofBytes raw) tx = some (status, buf', tx')
    ∧ ∀ fault, status = fault ↔ FirstFault raw fault

section Faults

variable {sdk : Sdk} (hsdk : sdk.ReadLaws) {raw : List UInt8} (hlen : raw.length ≤ maxTxLen)
  (tx : Transaction) {fault : ParserStatus}

theorem lengthField_of_decode {memoLen used : Nat}
    (hlength : decode (raw.drop headerLen) = some (memoLen, used)) :
    lengthField (raw.drop headerLen) = (memoLen, used) := by
  rw [lengthField, hlength, Option.getD_some]

theorem exists_firstFault (hrejected : ¬Parses raw (fieldsOf raw)) (hlen : raw.length ≤ maxTxLen) :
    ∃ fault, FirstFault raw fault := by
  by_cases hnonce : raw.length < 8
  · exact ⟨_, .nonce hnonce⟩
  by_cases hto : raw.length < 8 + addressLen
  · exact ⟨_, .toAddr (Nat.not_lt.mp hnonce) hto⟩
  by_cases hvalue : raw.length < headerLen
  · exact ⟨_, .value (Nat.not_lt.mp hto) hvalue⟩
  rw [Nat.not_lt] at hvalue
  by_cases hfault : LengthFault raw
  · exact ⟨_, .memoLength hvalue hfault⟩
  obtain ⟨memoLen, used, hlength, hmax⟩ :
      ∃ memoLen used, decode (raw.drop headerLen) = some (memoLen, used) ∧ memoLen ≤ maxMemoLen := by
    simpa [LengthFault] using hfault
  by_cases hshort : (raw.drop (headerLen + used)).length < memoLen
  · exact ⟨_, .memo hvalue hlength hmax hshort⟩
  rw [Nat.not_lt] at hshort
  by_cases hascii : ∀ b ∈ (raw.drop (headerLen + used)).take memoLen, b ≤ 0x7F
  swap
  · exact ⟨_, .encoding hvalue hlength hmax hshort (by simpa using hascii)⟩
  by_cases hlong : memoLen < (raw.drop (headerLen + used)).length
  · exact ⟨_, .leftOver hvalue hlength hmax hlong hascii⟩
  -- nothing is left over, so the bytes parse
  have hall : (raw.drop (headerLen + used)).take memoLen = raw.drop (headerLen + used) :=
    List.take_of_length_le (Nat.not_lt.mp hlong)
  rw [hall] at hascii
  have hused : used ≤ (raw.drop headerLen).length := (decode_length hlength).2
  refine absurd ⟨hlen, hvalue, rfl, ?_, ?_⟩ hrejected
  · rw [lengthField_of_decode hlength]
    rw [List.length_drop] at hshort hlong hused
    dsimp only
    omega
  · rwa [lengthField_of_decode hlength]

include hsdk hlen

/-- The length field is never reported. -/
theorem deserialize_ne_memoLengthError (hvalue : headerLen ≤ raw.length) (buf' : Buffer)
    (tx' : Transaction) :
    transactionDeserialize sdk (.ofBytes raw) tx ≠ some (.memoLengthError, buf', tx') := by
  rw [deserialize_memo hsdk (Buffer.valid_ofBytes raw) tx rfl hlen (by rwa [Buffer.unread_ofBytes])]
  dsimp only
  split
  · simp
  · split
    · simp
    · simp
    · split <;> simp

/-- A memo that is too short, when its length is not too large for a `size_t`. -/
theorem deserialize_memoParsingError (hvalue : headerLen ≤ raw.length) {memoLen used : Nat}
    (hdecode : decode (raw.drop headerLen) = some (memoLen, used)) (hmax : memoLen ≤ maxMemoLen)
    (hshort : (raw.drop (headerLen + used)).length < memoLen) :
    ∃ buf' tx', transactionDeserialize sdk (.ofBytes raw) tx
      = some (.memoParsingError, buf', tx') := by
  have hvalid := Buffer.valid_ofBytes raw
  have hused : used ≤ (raw.drop headerLen).length := (decode_length hdecode).2
  rw [List.length_drop] at hused
  have hsize : memoLen < 2 ^ sdk.sizeBits := hsdk.fits_size (le_trans hmax (by decide))
  have hseek : sdk.bufferSeekCur (Buffer.advance (.ofBytes raw) (headerLen + used)) memoLen
      = (false, Buffer.advance (.ofBytes raw) (headerLen + used)) := by
    apply hsdk.seekCur_missing _ _ (hvalid.advance _) hsize
    · rwa [Buffer.unread_advance, Buffer.unread_ofBytes]
    · rw [Buffer.unread_ofBytes]
      omega
  rw [deserialize_memo hsdk hvalid tx rfl hlen (by rwa [Buffer.unread_ofBytes]),
    Buffer.unread_ofBytes, lengthField_of_decode hdecode]
  simp only [Nat.mod_eq_of_lt hsize, hseek, Bool.not_false, if_true]
  exact ⟨_, _, rfl⟩

/-- A memo that is there is scanned, and then has to end the input. -/
theorem deserialize_of_memo (hvalue : headerLen ≤ raw.length) {memoLen used : Nat}
    (hdecode : decode (raw.drop headerLen) = some (memoLen, used))
    (hmemo : memoLen ≤ (raw.drop (headerLen + used)).length) :
    ∃ buf' tx', transactionDeserialize sdk (.ofBytes raw) tx = some
      (if isAscii ((raw.drop (headerLen + used)).take memoLen) then
          if memoLen = (raw.drop (headerLen + used)).length then .parsingOk else .wrongLengthError
        else .memoEncodingError, buf', tx') := by
  have hused : used ≤ (raw.drop headerLen).length := (decode_length hdecode).2
  rw [List.length_drop] at hused hmemo
  have hresult := deserialize_of_le hsdk (Buffer.valid_ofBytes raw) tx rfl hlen
    (by rwa [Buffer.unread_ofBytes])
    (by rw [Buffer.unread_ofBytes, lengthField_of_decode hdecode])
    (by rw [Buffer.unread_ofBytes]; omega)
  have htotal : headerLen + used + memoLen = raw.length
      ↔ memoLen = (raw.drop (headerLen + used)).length := by
    rw [List.length_drop]
    omega
  rw [Buffer.unread_ofBytes] at hresult
  simp only [htotal] at hresult
  exact ⟨_, _, hresult⟩

/-- Every other fault is, where it comes first. -/
theorem deserialize_of_firstFault (hfault : FirstFault raw fault)
    (hlength : fault ≠ .memoLengthError) :
    ∃ buf' tx', transactionDeserialize sdk (.ofBytes raw) tx = some (fault, buf', tx') := by
  have hvalid := Buffer.valid_ofBytes raw
  have hunread := Buffer.unread_ofBytes raw
  cases hfault with
  | nonce hshort =>
      exact deserialize_nonceParsingError hsdk hvalid tx hlen (by rwa [hunread])
  | toAddr hnonce hshort =>
      exact deserialize_toParsingError hsdk hvalid tx hlen (by rwa [hunread]) (by rwa [hunread])
  | value hto hshort =>
      exact deserialize_valueParsingError hsdk hvalid tx hlen (by rwa [hunread]) (by rwa [hunread])
  | memoLength => exact absurd rfl hlength
  | memo hvalue hdecode hmax hshort =>
      exact deserialize_memoParsingError hsdk hlen tx hvalue hdecode hmax hshort
  | encoding hvalue hdecode _ hmemo hbyte =>
      obtain ⟨b, hb, hlarge⟩ := hbyte
      have hascii : ¬isAscii _ = true := fun h =>
        absurd (isAscii_iff.mp h b hb) (UInt8.not_le.mpr hlarge)
      have hresult := deserialize_of_memo hsdk hlen tx hvalue hdecode hmemo
      rwa [if_neg hascii] at hresult
  | leftOver hvalue hdecode _ hmemo hascii =>
      have hresult := deserialize_of_memo hsdk hlen tx hvalue hdecode hmemo.le
      rwa [if_pos (isAscii_iff.mpr hascii), if_neg hmemo.ne] at hresult

theorem not_rejectsForFirstFault (hvalue : headerLen ≤ raw.length) (hlength : LengthFault raw) :
    ¬RejectsForFirstFault sdk raw tx := by
  rintro ⟨status, buf', tx', hresult, hfaults⟩
  obtain rfl := (hfaults _).mpr (.memoLength hvalue hlength)
  exact deserialize_ne_memoLengthError hsdk hlen tx hvalue buf' tx' hresult

/-- **Where the status names the first fault.** For every rejected transaction whose length field is
not at fault. -/
theorem rejectsForFirstFault_iff (hrejected : ¬∃ tx', DeserializesTo sdk raw tx tx') :
    RejectsForFirstFault sdk raw tx ↔ ¬(headerLen ≤ raw.length ∧ LengthFault raw) := by
  constructor
  · rintro hfirst ⟨hvalue, hlength⟩
    exact not_rejectsForFirstFault hsdk hlen tx hvalue hlength hfirst
  · intro hlength
    have hreported : ∀ {fault}, FirstFault raw fault → ∃ buf' tx',
        transactionDeserialize sdk (.ofBytes raw) tx = some (fault, buf', tx') := by
      intro fault hfault
      apply deserialize_of_firstFault hsdk hlen tx hfault
      rintro rfl
      cases hfault with
      | memoLength hvalue hfault => exact hlength ⟨hvalue, hfault⟩
    obtain ⟨fault, hfault⟩ := exists_firstFault
      (fun hparses => hrejected ⟨_, (deserializesTo_iff hsdk raw tx _).mpr hparses⟩) hlen
    obtain ⟨buf', tx', hresult⟩ := hreported hfault
    refine ⟨fault, buf', tx', hresult, fun fault' => ⟨?_, ?_⟩⟩
    · rintro rfl
      exact hfault
    · intro hfault'
      obtain ⟨_, _, hresult'⟩ := hreported hfault'
      exact congrArg Prod.fst (Option.some.inj (hresult.symm.trans hresult'))

end Faults

/-- A header and the first byte of a length. -/
def cutLength : List UInt8 := List.replicate 36 0 ++ [0xFD]

/-- The incomplete length continues as an empty memo, and its byte is left over. -/
theorem not_rejectsForFirstFault_cutLength :
    (¬∃ tx', DeserializesTo (Reference.sdk 64) cutLength .zero tx')
      ∧ ¬RejectsForFirstFault (Reference.sdk 64) cutLength .zero := by
  have hsdk := Reference.readLaws (Or.inr rfl : 64 = 32 ∨ 64 = 64)
  have hdecode : decode (cutLength.drop headerLen) = none := by decide
  have hlength : LengthFault cutLength := by
    intro memoLen used hsome
    rw [hdecode] at hsome
    cases hsome
  refine ⟨?_, not_rejectsForFirstFault hsdk (by decide) .zero (by decide) hlength⟩
  rintro ⟨tx', hok⟩
  have htotal := ((deserializesTo_iff hsdk _ _ _).mp hok).total
  rw [lengthField, hdecode] at htotal
  exact absurd htotal (by decide)

/-- A memo of five bytes of which two are there. -/
theorem rejectsForFirstFault_shortMemo :
    RejectsForFirstFault (Reference.sdk 32) (List.replicate 36 0 ++ [5, 72, 105]) .zero := by
  have hsdk := Reference.readLaws (Or.inl rfl : 32 = 32 ∨ 32 = 64)
  have hfield : decode ((List.replicate 36 (0 : UInt8) ++ [5, 72, 105]).drop headerLen)
      = some (5, 1) := by decide
  apply (rejectsForFirstFault_iff hsdk (by decide) .zero ?_).mpr
  · rintro ⟨-, hlength⟩
    exact absurd (hlength 5 1 hfield) (by decide)
  · rintro ⟨tx', hok⟩
    have htotal := ((deserializesTo_iff hsdk _ _ _).mp hok).total
    rw [lengthField, hfield] at htotal
    exact absurd htotal (by decide)

end BoilerplateApp
