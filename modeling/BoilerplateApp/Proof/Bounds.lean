import BoilerplateApp.Proof.Parser
import BoilerplateApp.Reads
import BoilerplateApp.Reference

/-!
# The parser stays inside its input

The readers of the SDK do, so the question is the scan of the memo. Its length is a `uint64_t`, while
the seek that is to check it takes a `size_t`: a length of `2 ^ 32` or more loses its upper half on
the way to the check on a device, and keeps it in the loop. The test that would refuse such a length
never fires.
-/

namespace BoilerplateApp

open Endian CompactSize

/-! ### The scan -/

section Scan

variable {start : Nat} {memo : List UInt8} {n m : Nat}

theorem checkEncodingReads_eq_range' (start : Nat) (memo : List UInt8) (n : Nat) : ∃ len,
    transactionUtilsCheckEncodingReads start memo n = List.range' start len := by
  induction memo generalizing start n with
  | nil =>
      cases n with
      | zero => exact ⟨0, rfl⟩
      | succ n => exact ⟨1, rfl⟩
  | cons b memo ih =>
      cases n with
      | zero => exact ⟨0, rfl⟩
      | succ n =>
          obtain ⟨len, hlen⟩ := ih (start + 1) n
          by_cases hb : b > 0x7F
          · exact ⟨1, by rw [transactionUtilsCheckEncodingReads, if_pos hb]; rfl⟩
          · exact ⟨len + 1, by rw [transactionUtilsCheckEncodingReads, if_neg hb, hlen]; rfl⟩

/-- The scan comes to the `m`-th byte when the length says so and all bytes before are ASCII. -/
theorem mem_checkEncodingReads (start n : Nat) (hm : m ≤ memo.length) :
    start + m ∈ transactionUtilsCheckEncodingReads start memo n
      ↔ m < n ∧ ∀ b ∈ memo.take m, b ≤ 0x7F := by
  induction memo generalizing start n m with
  | nil =>
      obtain rfl : m = 0 := Nat.le_zero.mp hm
      cases n <;> simp [transactionUtilsCheckEncodingReads]
  | cons b memo ih =>
      cases n with
      | zero => simp [transactionUtilsCheckEncodingReads]
      | succ n =>
          cases m with
          | zero => simp [transactionUtilsCheckEncodingReads]
          | succ m =>
              have hnext := ih (start + 1) n (Nat.le_of_succ_le_succ hm)
              have hstart : start + (m + 1) = start + 1 + m := by omega
              have hne : start + 1 + m ≠ start := by omega
              rw [transactionUtilsCheckEncodingReads, List.mem_cons, hstart]
              by_cases hb : b > 0x7F
              · rw [if_pos hb]
                simp [hne, UInt8.not_le.mpr hb]
              · rw [if_neg hb, hnext]
                simp [hne, UInt8.not_lt.mp hb]

/-- A scan that does not come to the `m`-th byte stays before it, and takes at most `m` steps. -/
theorem checkEncodingReads_before
    (h : start + m ∉ transactionUtilsCheckEncodingReads start memo n) :
    (∀ i ∈ transactionUtilsCheckEncodingReads start memo n, i < start + m)
      ∧ (transactionUtilsCheckEncodingReads start memo n).length ≤ m := by
  obtain ⟨len, hlen⟩ := checkEncodingReads_eq_range' start memo n
  rw [hlen, List.mem_range'_1] at h
  rw [hlen, List.length_range']
  refine ⟨?_, by omega⟩
  intro i hi
  rw [List.mem_range'_1] at hi
  omega

theorem checkEncoding_eq_none_iff (start : Nat) (memo : List UInt8) (n : Nat) :
    transactionUtilsCheckEncoding memo n = none
      ↔ start + memo.length ∈ transactionUtilsCheckEncodingReads start memo n := by
  induction memo generalizing start n with
  | nil => cases n <;> simp [transactionUtilsCheckEncoding, transactionUtilsCheckEncodingReads]
  | cons b memo ih =>
      cases n with
      | zero => simp [transactionUtilsCheckEncoding, transactionUtilsCheckEncodingReads]
      | succ n =>
          have hend : start + (memo.length + 1) = start + 1 + memo.length := by omega
          have hne : start + 1 + memo.length ≠ start := by omega
          rw [transactionUtilsCheckEncoding, transactionUtilsCheckEncodingReads, List.mem_cons,
            List.length_cons, hend]
          by_cases hb : b > 0x7F
          · simp [if_pos hb, hne]
          · rw [if_neg hb, if_neg hb, ih (start + 1) n]
            simp [hne]

end Scan

/-! ### The whole parser -/

/-- A transaction whose declared memo length is cut by a `size_t` to what is there, and whose bytes
behind the length do not stop the scan. -/
structure Overruns (sizeBits : Nat) (raw : List UInt8) : Prop where
  length_le : raw.length ≤ maxTxLen
  header : headerLen ≤ raw.length
  long : 2 ^ sizeBits ≤ (lengthField (raw.drop headerLen)).1
  seeks : headerLen + (lengthField (raw.drop headerLen)).2
    + (lengthField (raw.drop headerLen)).1 % 2 ^ sizeBits ≤ raw.length
  ascii : ∀ b ∈ raw.drop (headerLen + (lengthField (raw.drop headerLen)).2), b ≤ 0x7F

instance (sizeBits : Nat) (raw : List UInt8) : Decidable (Overruns sizeBits raw) :=
  decidable_of_iff (raw.length ≤ maxTxLen ∧ headerLen ≤ raw.length
      ∧ 2 ^ sizeBits ≤ (lengthField (raw.drop headerLen)).1
      ∧ headerLen + (lengthField (raw.drop headerLen)).2
        + (lengthField (raw.drop headerLen)).1 % 2 ^ sizeBits ≤ raw.length
      ∧ isAscii (raw.drop (headerLen + (lengthField (raw.drop headerLen)).2)) = true)
    ⟨fun ⟨hlength, hheader, hlong, hseeks, hascii⟩ =>
        ⟨hlength, hheader, hlong, hseeks, isAscii_iff.mp hascii⟩,
      fun h => ⟨h.length_le, h.header, h.long, h.seeks, isAscii_iff.mpr h.ascii⟩⟩

section Parser

variable {sdk : Sdk} (hsdk : sdk.ReadLaws) {reads : BufferReads} (hreads : reads.Inside)
  {buf : Buffer} (hvalid : buf.Valid)

include hsdk hreads hvalid

theorem reads_of_short (hshort : buf.unread.length < headerLen) :
    (transactionDeserializeReads sdk reads buf).scan = []
      ∧ ∀ i ∈ (transactionDeserializeReads sdk reads buf).fields, i < buf.size := by
  have hheader : headerLen = 36 := rfl
  have haddr : addressLen = 20 := rfl
  have hinside := hreads.readU64 buf hvalid
  by_cases hsize : buf.size > maxTxLen
  · simp [transactionDeserializeReads, hsize]
  by_cases hnonce : 8 ≤ buf.unread.length
  swap
  · have hfail := (hsdk.readU64_missing buf hvalid (Nat.not_le.mp hnonce)).1
    rcases hread : sdk.bufferReadU64 buf .be with ⟨ok, nonce, buf'⟩
    obtain rfl : ok = false := by rw [← hfail, hread]
    simp only [transactionDeserializeReads, if_neg hsize, hread, Bool.not_false, if_true]
    exact ⟨trivial, hinside⟩
  have hvalid8 := hvalid.advance hnonce
  have hleft : (buf.advance 8).unread.length = buf.unread.length - 8 := by
    rw [Buffer.unread_advance, List.length_drop]
  by_cases hto : 8 + addressLen ≤ buf.unread.length
  swap
  · have hseek : sdk.bufferSeekCur (buf.advance 8) addressLen = (false, buf.advance 8) :=
      hsdk.seekCur_missing _ _ hvalid8 (hsdk.fits_size (by decide)) (by omega)
    simp only [transactionDeserializeReads, if_neg hsize, hsdk.readU64 buf hvalid hnonce, hseek,
      Bool.not_true, Bool.not_false, Bool.false_eq_true, if_false, if_true]
    exact ⟨trivial, hinside⟩
  · have hseek : sdk.bufferSeekCur (buf.advance 8) addressLen
        = (true, buf.advance (8 + addressLen)) := by
      rw [hsdk.seekCur _ _ hvalid8 (hsdk.fits_size (by decide)) (by omega), Buffer.advance_advance]
    have hvalid28 := hvalid.advance hto
    have hfail := (hsdk.readU64_missing _ hvalid28 (by
      rw [Buffer.unread_advance, List.length_drop]
      omega)).1
    rcases hread : sdk.bufferReadU64 (buf.advance (8 + addressLen)) .be with ⟨ok, value, buf'⟩
    obtain rfl : ok = false := by rw [← hfail, hread]
    simp only [transactionDeserializeReads, if_neg hsize, hsdk.readU64 buf hvalid hnonce, hseek,
      hread, Bool.not_true, Bool.not_false, Bool.false_eq_true, if_false, if_true]
    refine ⟨trivial, ?_⟩
    intro i hi
    rcases List.mem_append.mp hi with hi | hi
    · exact hinside i hi
    · exact hreads.readU64 _ hvalid28 i hi

theorem reads_memo (hstart : buf.offset = 0) (hsize : buf.size ≤ maxTxLen)
    (hheader : headerLen ≤ buf.unread.length) :
    ∃ fields : List Nat, (∀ i ∈ fields, i < buf.size)
      ∧ transactionDeserializeReads sdk reads buf =
        let field := lengthField (buf.unread.drop headerLen)
        let seek := sdk.bufferSeekCur (buf.advance (headerLen + field.2))
          (field.1 % 2 ^ sdk.sizeBits)
        ⟨fields, if seek.1 then
          transactionUtilsCheckEncodingReads (headerLen + field.2)
            (seek.2.ptr.drop (headerLen + field.2)) field.1
          else []⟩ := by
  obtain ⟨hnonce, hto, hvalue⟩ := header_reads hsdk hvalid hheader
  have hlen : headerLen = 36 := rfl
  have haddr : addressLen = 20 := rfl
  have hvalid28 : (buf.advance (8 + addressLen)).Valid := hvalid.advance (by omega)
  have hvalid36 := hvalid.advance hheader
  obtain ⟨ok, hvarint, hguard⟩ := varint_reads hsdk hvalid36
  rw [Buffer.unread_advance, Buffer.advance_advance] at hvarint
  rw [Buffer.unread_advance] at hguard
  refine ⟨reads.readU64 buf ++ reads.readU64 (buf.advance (8 + addressLen))
    ++ reads.readVarint (buf.advance headerLen), ?_, ?_⟩
  · intro i hi
    rcases List.mem_append.mp hi with hi | hi
    · rcases List.mem_append.mp hi with hi | hi
      · exact hreads.readU64 buf hvalid i hi
      · exact hreads.readU64 _ hvalid28 i hi
    · exact hreads.readVarint _ hvalid36 i hi
  · simp only [transactionDeserializeReads, if_neg (Nat.not_lt.mpr hsize), hnonce, hto, hvalue,
      hvarint, toNat_lengthField, if_neg hguard, Bool.not_true, Bool.false_eq_true, if_false,
      Buffer.advance_offset, hstart, Nat.zero_add]
    cases (sdk.bufferSeekCur (buf.advance (headerLen
      + (lengthField (buf.unread.drop headerLen)).2))
      ((lengthField (buf.unread.drop headerLen)).1 % 2 ^ sdk.sizeBits)).1 <;> rfl

theorem reads_shape (hstart : buf.offset = 0) :
    (∀ i ∈ (transactionDeserializeReads sdk reads buf).fields, i < buf.size)
      ∧ ∃ start ≤ buf.size, ∃ memo n, (transactionDeserializeReads sdk reads buf).scan
        = transactionUtilsCheckEncodingReads start memo n := by
  have hempty : (transactionDeserializeReads sdk reads buf).scan = [] →
      ∃ start ≤ buf.size, ∃ memo n, (transactionDeserializeReads sdk reads buf).scan
        = transactionUtilsCheckEncodingReads start memo n :=
    fun h => ⟨0, Nat.zero_le _, [], 0, h⟩
  by_cases hsize : buf.size ≤ maxTxLen
  swap
  · have hnone : transactionDeserializeReads sdk reads buf = ⟨[], []⟩ := by
      rw [transactionDeserializeReads, if_pos (Nat.not_le.mp hsize)]
    exact ⟨by simp [hnone], hempty (by rw [hnone])⟩
  by_cases hheader : headerLen ≤ buf.unread.length
  swap
  · obtain ⟨hscan, hfields⟩ := reads_of_short hsdk hreads hvalid (Nat.not_le.mp hheader)
    exact ⟨hfields, hempty hscan⟩
  obtain ⟨fields, hfields, hmemo⟩ := reads_memo hsdk hreads hvalid hstart hsize hheader
  have hused := lengthField_length (buf.unread.drop headerLen)
  rw [List.length_drop, Buffer.length_unread hvalid] at hused
  rw [Buffer.length_unread hvalid] at hheader
  rw [hmemo]
  refine ⟨hfields, headerLen + (lengthField (buf.unread.drop headerLen)).2, by omega, ?_⟩
  dsimp only
  split
  · exact ⟨_, _, rfl⟩
  · exact ⟨[], 0, rfl⟩

/-- The parser faults when its scan comes to the end of the memory behind the pointer. -/
theorem deserialize_eq_none_iff (hstart : buf.offset = 0) (tx : Transaction) :
    transactionDeserialize sdk buf tx = none
      ↔ buf.ptr.length ∈ (transactionDeserializeReads sdk reads buf).scan := by
  by_cases hsize : buf.size ≤ maxTxLen
  swap
  · simp [transactionDeserialize, transactionDeserializeReads, Nat.not_le.mp hsize]
  by_cases hheader : headerLen ≤ buf.unread.length
  swap
  · obtain ⟨status, buf', tx', hresult, -⟩ :=
      deserialize_of_short hsdk hvalid tx hsize (Nat.not_le.mp hheader)
    rw [hresult, (reads_of_short hsdk hreads hvalid (Nat.not_le.mp hheader)).1]
    simp
  obtain ⟨fields, -, hmemo⟩ := reads_memo hsdk hreads hvalid hstart hsize hheader
  rw [hmemo, deserialize_memo hsdk hvalid tx hstart hsize hheader]
  have hused := lengthField_length (buf.unread.drop headerLen)
  rw [List.length_drop] at hused
  rcases hfield : lengthField (buf.unread.drop headerLen) with ⟨memoLen, used⟩
  rw [hfield] at hused
  dsimp only at hused ⊢
  have hvalidMemo : (buf.advance (headerLen + used)).Valid := hvalid.advance (by omega)
  have hdist : memoLen % 2 ^ sdk.sizeBits < 2 ^ sdk.sizeBits := Nat.mod_lt _ (by positivity)
  by_cases hseek : memoLen % 2 ^ sdk.sizeBits ≤ (buf.advance (headerLen + used)).unread.length
  · have hend : headerLen + used + (buf.ptr.drop (headerLen + used)).length = buf.ptr.length := by
      have hinside := hvalidMemo.1.trans hvalidMemo.2
      simp only [Buffer.advance_offset, Buffer.advance_ptr, hstart] at hinside
      rw [List.length_drop]
      omega
    have hfault := checkEncoding_eq_none_iff (headerLen + used)
      (buf.ptr.drop (headerLen + used)) memoLen
    rw [hend] at hfault
    simp only [hsdk.seekCur _ _ hvalidMemo hdist hseek, Bool.not_true, Bool.false_eq_true, if_false,
      if_true, Buffer.advance_ptr, ← hfault]
    rcases transactionUtilsCheckEncoding (buf.ptr.drop (headerLen + used)) memoLen with
      _ | _ | _ <;> simp
  · simp [hsdk.seekCur_missing _ _ hvalidMemo hdist (Nat.not_le.mp hseek)]

end Parser

/-- A call on `raw`, with other memory behind it, reads nothing but `raw`, and its scan takes no more
steps than `raw` has bytes. -/
structure ReadsInside (sdk : Sdk) (reads : BufferReads) (raw behind : List UInt8) : Prop where
  inside : ∀ i ∈ (transactionDeserializeReads sdk reads ⟨raw ++ behind, raw.length, 0⟩).fields
    ++ (transactionDeserializeReads sdk reads ⟨raw ++ behind, raw.length, 0⟩).scan, i < raw.length
  steps : (transactionDeserializeReads sdk reads ⟨raw ++ behind, raw.length, 0⟩).scan.length
    ≤ raw.length

section Inside

variable {sdk : Sdk} (hsdk : sdk.ReadLaws) {reads : BufferReads} (hreads : reads.Inside)
  (raw behind : List UInt8)

theorem valid_front : (⟨raw ++ behind, raw.length, 0⟩ : Buffer).Valid :=
  ⟨Nat.zero_le _, by rw [List.length_append]; exact Nat.le_add_right _ _⟩

theorem unread_front : (⟨raw ++ behind, raw.length, 0⟩ : Buffer).unread = raw := by
  rw [Buffer.unread, List.drop_zero, List.take_left]

include hsdk hreads in
theorem mem_scan_iff : raw.length
      ∈ (transactionDeserializeReads sdk reads ⟨raw ++ behind, raw.length, 0⟩).scan
    ↔ Overruns sdk.sizeBits raw := by
  have hvalid := valid_front raw behind
  have hunread := unread_front raw behind
  by_cases hsize : raw.length ≤ maxTxLen
  swap
  · have hlong : raw.length > maxTxLen := Nat.not_le.mp hsize
    rw [transactionDeserializeReads, if_pos hlong]
    exact iff_of_false List.not_mem_nil fun h => hsize h.length_le
  by_cases hheader : headerLen ≤ raw.length
  swap
  · have hshort := (reads_of_short hsdk hreads hvalid (by
      rw [hunread]
      exact Nat.not_le.mp hheader)).1
    rw [hshort]
    exact iff_of_false List.not_mem_nil fun h => hheader h.header
  obtain ⟨fields, -, hmemo⟩ :=
    reads_memo hsdk hreads hvalid rfl hsize (by rwa [hunread])
  rw [hmemo, hunread]
  have hused := lengthField_length (raw.drop headerLen)
  rw [List.length_drop] at hused
  rcases hfield : lengthField (raw.drop headerLen) with ⟨memoLen, used⟩
  rw [hfield] at hused
  dsimp only at hused ⊢
  have hvalidMemo : (Buffer.advance ⟨raw ++ behind, raw.length, 0⟩ (headerLen + used)).Valid :=
    hvalid.advance (by rw [hunread]; omega)
  have hleft : (Buffer.advance ⟨raw ++ behind, raw.length, 0⟩ (headerLen + used)).unread.length
      = raw.length - (headerLen + used) := by
    rw [Buffer.unread_advance, hunread, List.length_drop]
  have hdist : memoLen % 2 ^ sdk.sizeBits < 2 ^ sdk.sizeBits := Nat.mod_lt _ (by positivity)
  by_cases hseek : headerLen + used + memoLen % 2 ^ sdk.sizeBits ≤ raw.length
  swap
  · rw [hsdk.seekCur_missing _ _ hvalidMemo hdist (by omega)]
    refine iff_of_false List.not_mem_nil fun h => hseek ?_
    have := h.seeks
    rwa [hfield] at this
  · rw [hsdk.seekCur _ _ hvalidMemo hdist (by omega)]
    have hscanned : ((raw ++ behind).drop (headerLen + used)).take
        (raw.length - (headerLen + used)) = raw.drop (headerLen + used) := by
      rw [List.drop_append_of_le_length (by omega), List.take_left' List.length_drop]
    have hend : raw.length = headerLen + used + (raw.length - (headerLen + used)) := by omega
    have hbehind : raw.length - (headerLen + used)
        ≤ ((raw ++ behind).drop (headerLen + used)).length := by
      rw [List.length_drop, List.length_append]
      omega
    have hmem := mem_checkEncodingReads (headerLen + used) memoLen hbehind
    rw [hscanned, ← hend] at hmem
    simp only [if_true, Buffer.advance_ptr, hmem]
    have hbound : raw.length < 2 ^ sdk.sizeBits := hsdk.fits_size (le_trans hsize (by decide))
    constructor
    · rintro ⟨hlong, hascii⟩
      refine ⟨hsize, hheader, ?_, ?_, ?_⟩
      · rw [hfield]
        by_contra hshort
        rw [Nat.mod_eq_of_lt (Nat.not_le.mp hshort)] at hseek
        omega
      · rwa [hfield]
      · rwa [hfield]
    · intro h
      have hlong := h.long
      have hascii := h.ascii
      rw [hfield] at hlong hascii
      exact ⟨by omega, hascii⟩

include hsdk hreads in
theorem readsInside_of_not_overruns (hno : ¬Overruns sdk.sizeBits raw) :
    ReadsInside sdk reads raw behind := by
  obtain ⟨hfields, start, hstart, memo, n, hscan⟩ :=
    reads_shape hsdk hreads (valid_front raw behind) rfl
  have hend : start + (raw.length - start) = raw.length := Nat.add_sub_cancel' hstart
  rw [← mem_scan_iff hsdk hreads raw behind, hscan, ← hend] at hno
  obtain ⟨hbefore, hsteps⟩ := checkEncodingReads_before hno
  rw [hend] at hbefore
  refine ⟨?_, by rw [hscan]; omega⟩
  intro i hi
  rcases List.mem_append.mp hi with hi | hi
  · exact hfields i hi
  · rw [hscan] at hi
    exact hbefore i hi

include hsdk hreads in
/-- **When the parser reads only its input.** Unless `raw` overruns. -/
theorem readsInside_iff : ReadsInside sdk reads raw behind ↔ ¬Overruns sdk.sizeBits raw := by
  constructor
  · intro hinside hoverruns
    have hmem := (mem_scan_iff hsdk hreads raw behind).mpr hoverruns
    exact Nat.lt_irrefl _ (hinside.inside _ (List.mem_append_right _ hmem))
  · exact readsInside_of_not_overruns hsdk hreads raw behind

include hsdk in
theorem deserialize_ne_none (hno : ¬Overruns sdk.sizeBits raw) (tx : Transaction) :
    transactionDeserialize sdk ⟨raw ++ behind, raw.length, 0⟩ tx ≠ none := by
  intro hnone
  have hreads : BufferReads.Inside ⟨fun _ => [], fun _ => []⟩ := ⟨nofun, nofun⟩
  have hend := (deserialize_eq_none_iff hsdk hreads (valid_front raw behind) rfl tx).mp hnone
  have hbefore := (readsInside_of_not_overruns hsdk hreads raw behind hno).inside _
    (List.mem_append_right _ hend)
  rw [List.length_append] at hbefore
  omega

end Inside

/-- A header and a memo length of `2 ^ 32`. -/
def longMemo : List UInt8 := List.replicate 36 0 ++ [0xFF, 0, 0, 0, 0, 1, 0, 0, 0]

theorem overruns_longMemo : Overruns 32 longMemo := by decide +kernel

open Reference in
/-- The seek cuts the length to zero, and the scan does not. -/
theorem not_readsInside_longMemo : ¬ReadsInside (sdk 32) bufferReads longMemo [] := by
  intro hinside
  have hend := (mem_scan_iff (readLaws (Or.inl rfl)) bufferReads_inside _ []).mpr overruns_longMemo
  exact Nat.lt_irrefl _ (hinside.inside _ (List.mem_append_right _ hend))

open Reference in
/-- The transaction of the reference device, with other memory behind it. -/
theorem readsInside_tx : ReadsInside (sdk 32) bufferReads tx [0x61, 0x62] :=
  (readsInside_iff (readLaws (Or.inl rfl)) bufferReads_inside tx _).mpr fun h =>
    absurd h.long (by decide +kernel)

end BoilerplateApp
