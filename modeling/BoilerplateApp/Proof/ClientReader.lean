import BoilerplateApp.ClientReader
import BoilerplateApp.Proof.Client

/-!
# The client reads what it writes

Each reader of the client takes exactly the bytes that its writer puts out, and raises a `ValueError`
on any shorter part of them. `from_bytes` is one reader after the other, so it does the same for a
whole transaction. The thresholds of the two varint functions differ, but the reader goes by the
first byte alone.
-/

namespace BoilerplateApp.Client

open Endian CompactSize Reading

def IsValueError (e : Raised) : Prop := ∃ text, e = .valueError text

section Readers

variable {bytes : List UInt8} {n : Nat}

theorem reads_read {size : Nat} (hlen : bytes.length = size) :
    Reads IsValueError (read size) bytes bytes :=
  reads_next ⟨_, rfl⟩ id hlen

theorem reads_readUint (hn : n < 2 ^ 64) :
    Reads IsValueError (readUint 64 .be) (encodeBE 8 n) n := by
  have hreads : Reads IsValueError (readUint 64 .be) (encodeBE 8 n) (decodeBE (encodeBE 8 n)) :=
    reads_next ⟨_, rfl⟩ decodeBE (length_encodeBE 8 n)
  rwa [decodeBE_encodeBE (lt_of_lt_of_eq hn (by norm_num))] at hreads

/-! ### The varint -/

/-- The sizes by which the reader goes are those of the format, with the first byte counted in when
it is the number itself. -/
theorem width_eq (first : UInt8) :
    (if [first] = [0xFD] then 2 else if [first] = [0xFE] then 4 else if [first] = [0xFF] then 8
      else 1) = if payloadWidth first = 0 then 1 else payloadWidth first := by
  simp only [payloadWidth, List.cons.injEq, and_true]
  by_cases h2 : first = 0xFD
  · simp [h2]
  by_cases h4 : first = 0xFE
  · simp [h4]
  by_cases h8 : first = 0xFF
  · simp [h8]
  · simp [h2, h4, h8]

theorem payloadWidth_ne_one (first : UInt8) : payloadWidth first ≠ 1 := by
  unfold payloadWidth
  split_ifs <;> decide

theorem readVarint_run (first : UInt8) (rest : List UInt8) :
    (readVarint none).run (first :: rest) =
      if payloadWidth first = 0 then .ok (first.toNat, rest)
      else if rest.length < payloadWidth first then .error (.valueError "Can't read varint!")
      else .ok (decodeLE (rest.take (payloadWidth first)), rest.drop (payloadWidth first)) := by
  have hfirst : (next 1 : Read (List UInt8)).run (first :: rest) = .ok ([first], rest) := rfl
  unfold readVarint
  dsimp only
  rw [bind_run_ok hfirst]
  simp only [width_eq, reduceCtorEq, if_false]
  by_cases hwidth : payloadWidth first = 0
  · simp [hwidth, decodeLE_cons]
    rfl
  · have hlong : payloadWidth first > 1 := by
      have := payloadWidth_ne_one first
      omega
    simp only [if_neg hwidth, if_pos hlong]
    rw [bind_run_ok (next_run _ _), List.length_take]
    by_cases hshort : rest.length < payloadWidth first
    · rw [if_pos hshort, if_pos (by omega)]
      rfl
    · rw [if_neg hshort, if_neg (by omega)]
      rfl

theorem readVarint_of_decode {s : List UInt8} {used : Nat} (h : decode s = some (n, used)) :
    (readVarint none).run s = .ok (n, s.drop used) := by
  cases s with
  | nil => cases h
  | cons first rest =>
      rw [decode] at h
      rw [readVarint_run]
      split_ifs at h ⊢
      · obtain ⟨rfl, rfl⟩ := Prod.mk.inj (Option.some.inj h)
        rfl
      · obtain ⟨rfl, rfl⟩ := Prod.mk.inj (Option.some.inj h)
        rw [Nat.add_comm, List.drop_succ_cons]

theorem readVarint_of_decode_none {s : List UInt8} (h : decode s = none) :
    ∃ e, (readVarint none).run s = .error e ∧ IsValueError e := by
  cases s with
  | nil => exact ⟨_, rfl, _, rfl⟩
  | cons first rest =>
      rw [decode] at h
      rw [readVarint_run]
      split_ifs at h ⊢
      exact ⟨_, rfl, _, rfl⟩

theorem reads_readVarint {varint : List UInt8} (h : writeVarint n = some varint) :
    Reads IsValueError (readVarint none) varint n where
  whole rest := by
    rw [readVarint_of_decode (decode_append (decode_writeVarint h) rest), List.drop_left]
  cut front hfront hne := by
    have hshort : front.length < varint.length :=
      lt_of_le_of_ne hfront.length_le fun heq => hne (hfront.eq_of_length heq)
    exact readVarint_of_decode_none (decode_cut (decode_writeVarint h) hfront hshort)

end Readers

/-! ### The constructor -/

theorem decodeAscii_eq {memo : List UInt8} (hascii : ∀ b ∈ memo, b ≤ 0x7F) :
    decodeAscii memo = .ok (memo.map fun b => Char.ofNat b.toNat) := by
  rw [decodeAscii, if_pos (List.all_eq_true.mpr fun b hb => decide_eq_true (hascii b hb))]

theorem toNat_asciiChar {n : Nat} (hn : n ≤ 0x7F) : (Char.ofNat n).toNat = n := by
  have hvalid : n.isValidChar := Or.inl (by omega)
  rw [Char.ofNat, dif_pos hvalid]
  rfl

theorem encodeAscii_map {memo : List UInt8} (hascii : ∀ b ∈ memo, b ≤ 0x7F) :
    encodeAscii (memo.map fun b => Char.ofNat b.toNat) = .ok memo := by
  have hchar : ∀ b ∈ memo, b.toNat ≤ 0x7F ∧ (Char.ofNat b.toNat).toNat = b.toNat := by
    intro b hb
    have hlow : b.toNat ≤ 0x7F := UInt8.le_iff_toNat_le.mp (hascii b hb)
    exact ⟨hlow, toNat_asciiChar hlow⟩
  have hall : (memo.map fun b => Char.ofNat b.toNat).all
      (fun c => decide (c.toNat ≤ 0x7F)) = true := by
    rw [List.all_map, List.all_eq_true]
    intro b hb
    obtain ⟨hlow, heq⟩ := hchar b hb
    exact decide_eq_true (le_of_eq_of_le heq hlow)
  have hmemo : (memo.map fun b => Char.ofNat b.toNat).map (fun c => UInt8.ofNat c.toNat) = memo := by
    rw [List.map_map]
    apply (List.map_congr_left _).trans (List.map_id memo)
    intro b hb
    rw [Function.comp_apply, (hchar b hb).2, UInt8.ofNat_toNat]
    rfl
  rw [encodeAscii, if_pos hall, hmemo]

/-- The constructor keeps the fields of a transaction. -/
theorem Transaction.init_eq (t : Transaction) {memo : List Char}
    (hmemo : encodeAscii memo = .ok t.memo) :
    Transaction.init t.nonce (.bytes t.toAddr) t.value memo = .ok t := by
  have hnonce : 0 ≤ (t.nonce : Int) ∧ (t.nonce : Int) ≤ uint64Max := by
    have := t.nonce_lt
    simp only [uint64Max]
    omega
  have hvalue : 0 ≤ (t.value : Int) ∧ (t.value : Int) ≤ uint64Max := by
    have := t.value_lt
    simp only [uint64Max]
    omega
  unfold Transaction.init
  dsimp only [To.toBytes]
  split
  · next e herror => cases hmemo.symm.trans herror
  · next memo' hmemo' =>
      obtain rfl := Except.ok.inj (hmemo.symm.trans hmemo')
      rw [dif_pos hnonce, dif_pos hvalue, dif_pos t.length_toAddr]
      rfl

/-! ### The whole transaction -/

theorem isSome_writeVarint {n : Nat} (hn : n < 2 ^ 64) : (writeVarint n).isSome = true := by
  unfold writeVarint
  split_ifs <;> first | rfl | omega

theorem Transaction.reads_fromBuf (t : Transaction) {raw : List UInt8}
    (h : t.serialize = some raw) : Reads IsValueError Transaction.fromBuf raw t := by
  obtain ⟨varint, hvarint, rfl⟩ := Option.map_eq_some_iff.mp h
  have hfields : Reads IsValueError Transaction.fromBuf
      (encodeBE 8 t.nonce ++ (t.toAddr ++ (encodeBE 8 t.value ++ (varint ++ (t.memo ++ ([] ++ []))))))
      t := by
    apply Reads.bind (reads_readUint t.nonce_lt)
    apply Reads.bind (reads_read t.length_toAddr)
    apply Reads.bind (reads_readUint t.value_lt)
    apply Reads.bind (reads_readVarint hvarint)
    apply Reads.bind (reads_read rfl)
    apply Reads.bind (Reads.lift (decodeAscii_eq t.ascii))
    exact Reads.lift (t.init_eq (encodeAscii_map t.ascii))
  simpa only [List.append_assoc, List.append_nil] using hfields

/-- **The client reads what it writes**, and raises a `ValueError` on anything shorter. -/
theorem Transaction.fromBytes_serialize (t : Transaction) (hmemo : t.memo.length < 2 ^ 64) :
    ∃ raw, t.serialize = some raw ∧ Transaction.fromBytes raw = .ok t
      ∧ ∀ front, front <+: raw → front ≠ raw →
        ∃ text, Transaction.fromBytes front = .error (.valueError text) := by
  obtain ⟨varint, hvarint⟩ := Option.isSome_iff_exists.mp (isSome_writeVarint hmemo)
  obtain ⟨raw, hraw⟩ : ∃ raw, t.serialize = some raw :=
    ⟨_, Option.map_eq_some_iff.mpr ⟨varint, hvarint, rfl⟩⟩
  have hreads := t.reads_fromBuf hraw
  refine ⟨raw, hraw, ?_, ?_⟩
  · have hwhole := hreads.whole []
    rw [List.append_nil] at hwhole
    rw [Transaction.fromBytes, hwhole]
    rfl
  · intro front hfront hne
    obtain ⟨_, herror, text, rfl⟩ := hreads.cut front hfront hne
    exact ⟨text, by rw [Transaction.fromBytes, herror]; rfl⟩

def hiTransaction : Transaction where
  nonce := 3
  toAddr := List.replicate 20 7
  value := 1000
  memo := [0x48, 0x69]
  nonce_lt := by decide
  value_lt := by decide
  length_toAddr := by decide
  ascii := isAscii_iff.mp (by decide)

/-- A transaction with a memo of two bytes, whole and without its last byte. -/
theorem Transaction.fromBytes_serialize_hi :
    ∃ raw, hiTransaction.serialize = some raw ∧ Transaction.fromBytes raw = .ok hiTransaction
      ∧ ∃ text, Transaction.fromBytes (raw.take 38) = .error (.valueError text) := by
  obtain ⟨raw, hraw, hwhole, hcut⟩ := Transaction.fromBytes_serialize hiTransaction (by decide)
  refine ⟨raw, hraw, hwhole, hcut _ (List.take_prefix 38 raw) ?_⟩
  intro htake
  have hlen := congrArg List.length htake
  rw [← Option.some.inj hraw] at hlen
  exact absurd hlen (by decide)

end BoilerplateApp.Client
