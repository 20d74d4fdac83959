import BoilerplateApp.Reads
import BoilerplateApp.Run

/-!
# An SDK that follows its documentation

The library functions written out as the SDK documents them, for both widths of `size_t`, and the
proof that they satisfy the laws: what the development assumes of the SDK can be met. Behind them
come system calls that know the hash of one transaction, that of `test_sign_cmd.py`, and the
commands that carry it, so that concrete runs can be evaluated.
-/

namespace BoilerplateApp.Reference

open Endian Transition

def bufferReadU8 (buf : Buffer) : Bool × UInt8 × Buffer :=
  match buf.unread with
  | [] => (false, 0, buf)
  | b :: _ => (true, b, buf.advance 1)

def bufferReadU64 (buf : Buffer) (endianness : Endianness) : Bool × UInt64 × Buffer :=
  if buf.unread.length < 8 then (false, 0, buf)
  else
    let bytes := buf.unread.take 8
    let value := match endianness with
      | .be => decodeBE bytes
      | .le => decodeLE bytes
    (true, UInt64.ofNat value, buf.advance 8)

def bufferSeekCur (bits : Nat) (buf : Buffer) (offset : Nat) : Bool × Buffer :=
  if buf.unread.length < offset % 2 ^ bits then (false, buf)
  else (true, buf.advance (offset % 2 ^ bits))

def bufferReadVarint (buf : Buffer) : Bool × UInt64 × Buffer :=
  match CompactSize.decode buf.unread with
  | none => (false, 0, buf)
  | some (value, used) => (true, UInt64.ofNat value, buf.advance used)

theorem length_words (n : Nat) (bytes : List UInt8) : (words n bytes).length = n := by
  simp [words]

/-- The words that are there are written before the missing bytes are noticed. -/
def bufferReadBip32Path (buf : Buffer) (path : List.Vector UInt32 maxBip32Path) (n : Nat) :
    Bool × List.Vector UInt32 maxBip32Path × Buffer :=
  if h : n = 0 ∨ maxBip32Path < n then (false, path, buf)
  else
    let found := words (min n (buf.unread.length / 4)) buf.unread
    let path' : List.Vector UInt32 maxBip32Path :=
      ⟨Region.overlay path.toList 0 found, by
        rw [Region.length_overlay, path.toList_length]
        rw [path.toList_length, length_words]
        omega⟩
    if buf.unread.length < 4 * n then (false, path', buf) else (true, path', buf.advance (4 * n))

def bufferMove (buf : Buffer) (outLen : Nat) : Bool × List UInt8 × Buffer :=
  if outLen < buf.unread.length then (false, [], buf)
  else (true, buf.unread, buf.advance buf.unread.length)

def varintSize (value : UInt64) : UInt8 := UInt8.ofNat (CompactSize.size value.toNat)

def varintWrite (out : Nat → UInt8) (offset : Nat) (value : UInt64) : Int × (Nat → UInt8) :=
  (CompactSize.size value.toNat, Region.store out offset (CompactSize.encode value.toNat))

def writeU64Be (out : Nat → UInt8) (offset : Nat) (value : UInt64) : Nat → UInt8 :=
  Region.store out offset (encodeBE 8 value.toNat)

def formatFpu64 (dstLen : Nat) (value : UInt64) (decimals : UInt8) : Bool × List Char :=
  if (Nat.toDigits 10 value.toNat).length + 1 + decimals.toNat < dstLen then
    (true, fixedPoint value.toNat decimals.toNat)
  else (false, [])

def bip32PathFormat (path : List.Vector UInt32 maxBip32Path) (pathLen : UInt8) (outLen : Nat) :
    Bool × List Char :=
  let text := pathText (path.toList.take pathLen.toNat)
  if pathLen = 0 ∨ maxBip32Path < pathLen.toNat ∨ outLen ≤ text.length then (false, [])
  else (true, text)

def printHex (bytes : List UInt8) : List Char :=
  bytes.flatMap fun b =>
    [(Nat.digitChar (b.toNat / 16)).toUpper, (Nat.digitChar (b.toNat % 16)).toUpper]

def sdk (bits : Nat) : Sdk where
  sizeBits := bits
  bufferReadU8 := bufferReadU8
  bufferReadU64 := bufferReadU64
  bufferSeekCur := bufferSeekCur bits
  bufferReadVarint := bufferReadVarint
  bufferReadBip32Path := bufferReadBip32Path
  bufferMove := bufferMove
  varintSize := varintSize
  varintWrite := varintWrite
  writeU64Be := writeU64Be
  formatFpu64 := formatFpu64
  bip32PathFormat := bip32PathFormat
  printHex := printHex

theorem readLaws {bits : Nat} (hbits : bits = 32 ∨ bits = 64) : (sdk bits).ReadLaws where
  sizeBits := hbits
  readU8 buf b rest _ hunread := by simp [sdk, bufferReadU8, hunread]
  readU8_missing buf _ hunread := by simp [sdk, bufferReadU8, hunread]
  readU64 buf _ hlen := by simp [sdk, bufferReadU64, Nat.not_lt.mpr hlen]
  readU64_missing buf _ hlen := by simp [sdk, bufferReadU64, hlen]
  seekCur buf n _ hn hlen := by
    change n < 2 ^ bits at hn
    simp [sdk, bufferSeekCur, Nat.mod_eq_of_lt hn, Nat.not_lt.mpr hlen]
  seekCur_missing buf n _ hn hlen := by
    change n < 2 ^ bits at hn
    simp [sdk, bufferSeekCur, Nat.mod_eq_of_lt hn, hlen]
  readVarint buf value used _ hdecode := by simp [sdk, bufferReadVarint, hdecode]
  readVarint_missing buf _ hdecode := by simp [sdk, bufferReadVarint, hdecode]

theorem pathLaws (bits : Nat) : (sdk bits).PathLaws where
  readPath buf path n _ hpos hmax hlen := by
    have hfound : min n (buf.unread.length / 4) = n := by omega
    have hrefused : ¬(n = 0 ∨ maxBip32Path < n) := by omega
    have hread : ∃ path' : List.Vector UInt32 maxBip32Path,
        path'.toList = Region.overlay path.toList 0 (words n buf.unread)
          ∧ bufferReadBip32Path buf path n = (true, path', buf.advance (4 * n)) := by
      simp only [bufferReadBip32Path, dif_neg hrefused, if_neg (Nat.not_lt.mpr hlen), hfound]
      exact ⟨_, rfl, rfl⟩
    obtain ⟨path', hpath, hread⟩ := hread
    refine ⟨path', hread, ?_⟩
    have hfits : 0 + (words n buf.unread).length ≤ path.toList.length := by
      rw [length_words, path.toList_length]
      omega
    have htake := Region.take_overlay hfits
    rw [length_words, Nat.zero_add, List.take_zero, List.nil_append] at htake
    rw [hpath, htake]
  readPath_refused buf path n _ h := by
    simp only [sdk, bufferReadBip32Path]
    split
    · rfl
    · next hcount =>
        rw [if_pos (by omega)]

theorem moveLaws (bits : Nat) : (sdk bits).MoveLaws where
  move buf n _ hlen := by simp [sdk, bufferMove, Nat.not_lt.mpr hlen]

theorem writeLaws (bits : Nat) : (sdk bits).WriteLaws where
  varintSize value := by
    have := CompactSize.size_le value.toNat
    simp only [sdk, varintSize, UInt8.toNat_ofNat']
    omega
  varintWrite out offset value := rfl
  writeU64Be out offset value := rfl

theorem formatLaws (bits : Nat) : (sdk bits).FormatLaws where
  formatFpu64 dstLen value decimals h := by simp [sdk, formatFpu64, h]

theorem pathTextLaws (bits : Nat) : (sdk bits).PathTextLaws where
  format path len outLen hpos hmax hlen := by
    have hzero : len ≠ 0 := by
      rintro rfl
      exact absurd hpos (by decide)
    simp only [sdk, bip32PathFormat]
    rw [if_neg (by simp only [hzero, false_or]; omega)]
  format_tooLong path len outLen _ _ hlen := by
    simp only [sdk, bip32PathFormat]
    rw [if_pos (Or.inr (Or.inr hlen))]

theorem hexLaws (bits : Nat) : (sdk bits).HexLaws where
  printHex _ := rfl

theorem lawful {bits : Nat} (hbits : bits = 32 ∨ bits = 64) : (sdk bits).Lawful :=
  { readLaws hbits, pathLaws bits, moveLaws bits, writeLaws bits, formatLaws bits with }

/-- The eight bytes if they are there, the first byte of a length and then the others if they are
there. -/
def bufferReads : BufferReads where
  readU64 buf := if buf.unread.length < 8 then [] else List.range' buf.offset 8
  readVarint buf :=
    match buf.unread with
    | [] => []
    | first :: rest =>
        if rest.length < CompactSize.payloadWidth first then [buf.offset]
        else List.range' buf.offset (1 + CompactSize.payloadWidth first)

theorem bufferReads_inside : bufferReads.Inside where
  readU64 buf hvalid i hi := by
    have hlen := Buffer.length_unread hvalid
    simp only [bufferReads] at hi
    split at hi
    · cases hi
    · rw [List.mem_range'_1] at hi
      omega
  readVarint buf hvalid i hi := by
    have hlen := Buffer.length_unread hvalid
    simp only [bufferReads] at hi
    split at hi
    · cases hi
    · next first rest hunread =>
        rw [hunread, List.length_cons] at hlen
        split at hi
        · rw [List.mem_singleton.mp hi]
          omega
        · rw [List.mem_range'_1] at hi
          omega

/-! ### A device -/

/-- The transaction of `test_sign_tx_short_tx`. -/
def tx : List UInt8 :=
  [0, 0, 0, 0, 0, 0, 0, 1,
    0xDE, 0x0B, 0x29, 0x56, 0x69, 0xA9, 0xFD, 0x93, 0xD5, 0xF2, 0x8D, 0x9E, 0xC8, 0x5E, 0x40, 0xF4,
    0xCB, 0x69, 0x7B, 0xAE,
    0, 0, 0, 0, 0, 0, 0x02, 0x9A,
    0x0C, 0x46, 0x6F, 0x72, 0x20, 0x75, 0x20, 0x45, 0x74, 0x68, 0x44, 0x65, 0x76]

def txHash : Bytes 32 :=
  ⟨[12, 73, 142, 11, 9, 33, 27, 149, 170, 13, 115, 79, 19, 57, 21, 199, 84, 116, 238, 46, 29, 244,
    186, 176, 135, 223, 22, 246, 190, 109, 210, 71], rfl⟩

def keccak256 (message : List UInt8) : Bytes 32 :=
  if message = tx then txHash else List.Vector.replicate 32 1

def signature : Bytes maxDerSigLen :=
  ⟨[0x30, 0x44, 0x02, 0x20] ++ List.replicate 32 0x11 ++ [0x02, 0x20] ++ List.replicate 32 0x22
    ++ [0, 0], rfl⟩

def calls : Cx where
  cxKeccakInitNoThrow := cxOk
  cxHashNoThrow message := (cxOk, keccak256 message)
  bip32DeriveGetPubkey256 _ _ := (cxOk, ⟨List.Vector.replicate _ 4, zeros _⟩)
  bip32DeriveEcdsaSignHash256 _ _ _ := ⟨cxOk, signature, 70, 1⟩

theorem calls_hashes : calls.Hashes keccak256 := ⟨rfl, fun _ => rfl⟩

/-- `m/44'/1'/0'/0/0` -/
def path : List UInt32 := [0x8000002C, 0x80000001, 0x80000000, 0, 0]

def pathData : List UInt8 :=
  [5, 0x80, 0, 0, 0x2C, 0x80, 0, 0, 0x01, 0x80, 0, 0, 0, 0, 0, 0, 0, 0, 0, 0, 0]

def command (ins p1 p2 : UInt8) (data : List UInt8) (hlen : data.length < 256) : Event :=
  .apdu (some (.ofApdu cla ins p1 p2 data hlen))

def openEvent : Event := command insSignTx p1Start p2More pathData (by decide)

/-- SIGN_TX with P1 = 0 and a count of components that no path has. -/
def badOpenEvent : Event := command insSignTx p1Start p2More [255] (by decide)

def keyEvent : Event := command insGetPublicKey 0 0 pathData (by decide)

def displayEvent : Event := command insGetPublicKey 1 0 pathData (by decide)

def txEvent : Event := command insSignTx 1 p2Last tx (by decide)

/-- The first ten bytes of the transaction, announced as all of it. -/
def headEvent : Event := command insSignTx 1 p2Last (tx.take 10) (by decide)

def tailEvent : Event := command insSignTx 2 p2Last (tx.drop 10) (by decide)

/-- The run that takes `events` on this device, with a property of it that was computed. -/
theorem exists_run_of (P : Cx → Prop) (hcalls : P calls) (ui : Ui) (events : List Event)
    (p : List Entry → Device → Bool)
    (h : (execute (Device.next ui (sdk 64) calls) [] Device.boot events).any (fun r => p r.1 r.2)
      = true) :
    ∃ trace d, Run (app ui (sdk 64) P) trace d ∧ p trace d = true := by
  have hstep : ∀ s e s' o, Device.next ui (sdk 64) calls s e = some (s', o) →
      (app ui (sdk 64) P).Step s e s' o :=
    fun _ _ _ _ hnext => ⟨calls, hcalls, hnext⟩
  exact Run.exists_of_execute hstep events p h

theorem exists_run (ui : Ui) (events : List Event) (p : List Entry → Device → Bool)
    (h : (execute (Device.next ui (sdk 64) calls) [] Device.boot events).any (fun r => p r.1 r.2)
      = true) :
    ∃ trace d, Run (app ui (sdk 64) (Cx.Hashes keccak256)) trace d ∧ p trace d = true :=
  exists_run_of _ calls_hashes ui events p h

end BoilerplateApp.Reference
