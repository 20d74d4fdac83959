import BoilerplateApp.Client
import BoilerplateApp.Proof.Format

/-!
# What the client sends and reads

The client has its own encoders. Here they meet the readers of the device: what `serialize` writes
is a documented transaction, the data of the first APDU carry the path, and the pieces of the
message are data that commands can have.
-/

namespace BoilerplateApp.Client

open Endian CompactSize

/-! ### Transactions -/

/-- The client takes the three-byte form from `0xFC` on, one too early. The device reads both. -/
theorem decode_writeVarint {n : Nat} {varint : List UInt8} (h : writeVarint n = some varint) :
    decode varint = some (n, varint.length) := by
  have hpayload : ∀ {first : UInt8} {width : Nat}, payloadWidth first = width → 0 < width →
      n < 256 ^ width → some (first :: encodeLE width n) = some varint →
      decode varint = some (n, varint.length) := by
    intro first width hwidth hpos hfits heq
    obtain rfl := Option.some.inj heq
    have hdecode := decode_payload hwidth hpos hfits []
    rw [List.append_nil] at hdecode
    rw [hdecode, List.length_cons, length_encodeLE, Nat.add_comm]
  unfold writeVarint at h
  split_ifs at h with h1 h2 h3 h4
  · obtain rfl := Option.some.inj h
    exact decode_byte (by omega) []
  · exact hpayload (by decide) (by norm_num) (by norm_num; omega) h
  · exact hpayload (by decide) (by norm_num) (by norm_num; omega) h
  · exact hpayload (by decide) (by norm_num) (by norm_num; omega) h

theorem exists_writeVarint {n : Nat} (hn : n ≤ 0xFFFF) :
    ∃ varint, writeVarint n = some varint ∧ varint.length ≤ 3 := by
  unfold writeVarint
  split_ifs
  · exact ⟨_, rfl, by simp⟩
  · exact ⟨_, rfl, by simp⟩

theorem Transaction.exists_serialize (t : Transaction) (hmemo : t.memo.length ≤ maxMemoLen) :
    ∃ raw varint, t.serialize = some raw ∧ raw.length ≤ maxTransactionLen
      ∧ Layout raw (encodeBE 8 t.nonce) t.toAddr (encodeBE 8 t.value) varint t.memo := by
  have hmax : maxMemoLen = 465 := rfl
  obtain ⟨varint, hvarint, hlen⟩ := exists_writeVarint (show t.memo.length ≤ 0xFFFF by omega)
  have hlayout : Layout (encodeBE 8 t.nonce ++ t.toAddr ++ encodeBE 8 t.value ++ varint ++ t.memo)
      (encodeBE 8 t.nonce) t.toAddr (encodeBE 8 t.value) varint t.memo :=
    ⟨rfl, length_encodeBE _ _, t.length_toAddr, length_encodeBE _ _, decode_writeVarint hvarint,
      t.ascii⟩
  refine ⟨_, varint, by rw [serialize, hvarint, Option.map_some], ?_, hlayout⟩
  calc _ = headerLen + varint.length + t.memo.length := hlayout.length
    _ ≤ 36 + 3 + 465 := Nat.add_le_add (Nat.add_le_add (le_of_eq rfl) hlen) hmemo
    _ ≤ maxTransactionLen := by decide

/-- The transaction `tx`, with pointers into `raw`, is `t`. -/
structure Transaction.Arrives (t : Transaction) (raw : List UInt8)
    (tx : BoilerplateApp.Transaction) : Prop where
  nonce_eq : tx.nonce.toNat = t.nonce
  value_eq : tx.value.toNat = t.value
  memoLen_eq : tx.memoLen.toNat = t.memo.length
  toAddr_eq : (raw.drop tx.toAddr).take addressLen = t.toAddr
  memo_eq : (raw.drop tx.memo).take tx.memoLen.toNat = t.memo

theorem Transaction.arrives {t : Transaction} {raw varint : List UInt8}
    (h : Layout raw (encodeBE 8 t.nonce) t.toAddr (encodeBE 8 t.value) varint t.memo) :
    t.Arrives raw (fieldsOf raw) := by
  have hholds := h.holds
  have hnonce : t.nonce < 256 ^ 8 := lt_of_lt_of_eq t.nonce_lt (by norm_num)
  have hvalue : t.value < 256 ^ 8 := lt_of_lt_of_eq t.value_lt (by norm_num)
  refine ⟨?_, ?_, hholds.memoLen_eq, hholds.toAddr_eq, hholds.memo_eq⟩
  · rw [hholds.nonce_eq, decodeBE_encodeBE hnonce]
  · rw [hholds.value_eq, decodeBE_encodeBE hvalue]

/-! ### Paths -/

theorem words_append (n : Nat) {word : List UInt8} (hword : word.length = 4) (rest : List UInt8) :
    words (n + 1) (word ++ rest) = UInt32.ofNat (decodeBE word) :: words n rest := by
  rw [words, List.range_succ_eq_map, List.map_cons, List.map_map, Nat.mul_zero, List.drop_zero,
    List.take_left' hword]
  congr 1
  apply List.map_congr_left
  intro i _
  have hdrop : (word ++ rest).drop (4 * (i + 1)) = rest.drop (4 * i) := by
    rw [show 4 * (i + 1) = 4 + 4 * i by omega, ← List.drop_drop, List.drop_left' hword]
  simp only [Function.comp, Nat.succ_eq_add_one, hdrop]

theorem words_encodeBE (path : List UInt32) :
    words path.length (path.flatMap fun component => encodeBE 4 component.toNat) = path := by
  induction path with
  | nil => rfl
  | cons component path ih =>
      have hfits : component.toNat < 256 ^ 4 := lt_of_lt_of_eq component.toNat_lt (by norm_num)
      rw [List.length_cons, List.flatMap_cons, words_append _ (length_encodeBE _ _), ih,
        decodeBE_encodeBE hfits, UInt32.ofNat_toNat]

/-- `pack_derivation_path` as Ragger documents it: the count of components, then each of them as
four big-endian bytes. -/
def PacksPaths (packDerivationPath : List UInt32 → List UInt8) : Prop :=
  ∀ path, path.length < 256 → packDerivationPath path
    = UInt8.ofNat path.length :: path.flatMap fun component => encodeBE 4 component.toNat

theorem length_flatMap_encodeBE (path : List UInt32) :
    (path.flatMap fun component => encodeBE 4 component.toNat).length = 4 * path.length := by
  induction path with
  | nil => rfl
  | cons component path ih =>
      rw [List.flatMap_cons, List.length_append, length_encodeBE, ih, List.length_cons]
      omega

section Paths

variable {packDerivationPath : List UInt32 → List UInt8} {path : List UInt32}
  (hpack : PacksPaths packDerivationPath) (hmax : path.length ≤ maxBip32Path)

include hpack hmax

theorem PacksPaths.length_pack : (packDerivationPath path).length = 1 + 4 * path.length := by
  have hten : maxBip32Path = 10 := rfl
  rw [hpack path (by omega), List.length_cons, length_flatMap_encodeBE, Nat.add_comm]

theorem PacksPaths.carriedPath_pack (hpos : 0 < path.length) :
    Command.carriedPath (packDerivationPath path) = some path := by
  have hten : maxBip32Path = 10 := rfl
  have hcount : (UInt8.ofNat path.length).toNat = path.length := by
    rw [UInt8.toNat_ofNat']
    omega
  rw [hpack path (by omega), Command.carriedPath, hcount, length_flatMap_encodeBE,
    if_pos ⟨hpos, hmax, le_refl _⟩, words_encodeBE]

end Paths

/-! ### Pieces -/

section Pieces

variable {message : List UInt8} {maxSize : Nat}

theorem flatten_slices (message : List UInt8) (maxSize n : Nat) :
    ((List.range n).map fun i => (message.drop (i * maxSize)).take maxSize).flatten
      = message.take (n * maxSize) := by
  induction n with
  | zero => rw [Nat.zero_mul, List.take_zero]; rfl
  | succ n ih =>
      rw [List.range_succ, List.map_append, List.flatten_append, ih, Nat.succ_mul, List.take_add]
      simp

theorem flatten_splitMessage (hpos : 0 < maxSize) :
    (splitMessage message maxSize).flatten = message := by
  rw [splitMessage, flatten_slices]
  apply List.take_of_length_le
  have hdiv := Nat.div_add_mod (message.length + maxSize - 1) maxSize
  have hmod := Nat.mod_lt (message.length + maxSize - 1) hpos
  rw [Nat.mul_comm] at hdiv
  omega

theorem length_of_mem_splitMessage {piece : List UInt8}
    (h : piece ∈ splitMessage message maxSize) : 0 < piece.length ∧ piece.length ≤ maxSize := by
  obtain ⟨i, hi, rfl⟩ := List.mem_map.mp h
  have hstart : i * maxSize < message.length ∧ 0 < maxSize := by
    have hpos : 0 < maxSize := by
      rcases Nat.eq_zero_or_pos maxSize with rfl | hpos
      · simp at hi
      · exact hpos
    have hle := (Nat.le_div_iff_mul_le hpos).mp (List.mem_range.mp hi)
    rw [Nat.succ_mul] at hle
    omega
  rw [List.length_take, List.length_drop]
  omega

theorem length_splitMessage : (splitMessage message maxSize).length
    = (message.length + maxSize - 1) / maxSize := by
  rw [splitMessage, List.length_map, List.length_range]

end Pieces

/-! ### Commands -/

section Commands

variable {p1 : Nat} {p2 : UInt8} {data : List UInt8}

theorem exists_command (p2 : UInt8) (hp1 : p1 ≤ p1Max.toNat) (hpos : 0 < data.length)
    (hmax : data.length ≤ maxApduLen) :
    ∃ cmd, Apdu.command ⟨cla, insSignTx, p1, p2, data⟩ = some cmd ∧ cmd.isSignTx
      ∧ cmd.p1.toNat = p1 ∧ cmd.p2 = p2 ∧ cmd.data = some data := by
  have hbyte : p1 < 256 := lt_of_le_of_lt hp1 (by decide)
  have hlen : data.length < 256 := Nat.lt_succ_of_le hmax
  refine ⟨_, dif_pos ⟨hbyte, hlen⟩, ⟨rfl, rfl⟩, ?_, rfl, ?_⟩
  · exact Nat.mod_eq_of_lt hbyte
  · exact if_neg (List.ne_nil_of_length_pos hpos)

theorem exists_command_chunk (hpos : 1 ≤ p1) (hp1 : p1 ≤ p1Max.toNat)
    (hp2 : p2 = p2Last ∨ p2 = p2More) (hdata : 0 < data.length ∧ data.length ≤ maxApduLen) :
    ∃ cmd, Apdu.command ⟨cla, insSignTx, p1, p2, data⟩ = some cmd ∧ cmd.continuesSession
      ∧ cmd.p2 = p2 ∧ cmd.data = some data := by
  obtain ⟨cmd, hcommand, hsign, hcmdp1, rfl, hcmd⟩ :=
    exists_command p2 hp1 hdata.1 hdata.2
  refine ⟨cmd, hcommand, ⟨hsign, ⟨?_, ?_⟩, hp2, by rw [hcmd]; nofun⟩, rfl, hcmd⟩
  · rw [UInt8.le_iff_toNat_le, hcmdp1]
    exact hpos
  · rw [UInt8.le_iff_toNat_le, hcmdp1]
    exact hp1

end Commands

/-! ### Replies -/

/-- A reply of `helper_send_response_sig` reads as the signature and the parity in it. -/
theorem unpackSignTxResponse_eq {signature : List UInt8} (hlen : signature.length < 256)
    (v : UInt8) :
    unpackSignTxResponse (UInt8.ofNat signature.length :: signature ++ [v])
      = some (signature.length, signature, v.toNat) := by
  have hcount : (UInt8.ofNat signature.length).toNat = signature.length := by
    rw [UInt8.toNat_ofNat', Nat.mod_eq_of_lt hlen]
  have hv : decodeBE [v] = v.toNat := by
    rw [decodeBE, List.reverse_singleton, decodeLE_cons, decodeLE_nil, Nat.mul_zero, Nat.add_zero]
  simp [unpackSignTxResponse, popSizePrefixed, popSized, hcount, hv]

end BoilerplateApp.Client
