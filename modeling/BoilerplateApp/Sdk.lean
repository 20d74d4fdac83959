import BoilerplateApp.Lib.CompactSize
import BoilerplateApp.Lib.Numerals
import BoilerplateApp.Types

/-!
# The SDK underneath the application

The application calls the BOLOS SDK, whose code is not part of this repository. Its functions are
parameters here: `Sdk` holds the library functions, which compute, and `Cx` the system calls, whose
results the device decides. What the application relies on is stated as laws, one group for each
part of the SDK, and a result names the groups it needs.
-/

namespace BoilerplateApp

open Endian

/-- `buffer_t`: the bytes from the pointer on, how many of them belong to the buffer, and how many
are already read. -/
structure Buffer where
  ptr : List UInt8
  size : Nat
  offset : Nat
  deriving DecidableEq, Repr

namespace Buffer

def ofBytes (bytes : List UInt8) : Buffer := ⟨bytes, bytes.length, 0⟩

/-- The offset stays inside the buffer, and the buffer inside the memory it points to. -/
def Valid (buf : Buffer) : Prop := buf.offset ≤ buf.size ∧ buf.size ≤ buf.ptr.length

def unread (buf : Buffer) : List UInt8 := (buf.ptr.take buf.size).drop buf.offset

def advance (buf : Buffer) (n : Nat) : Buffer := { buf with offset := buf.offset + n }

@[simp] theorem advance_ptr (buf : Buffer) (n : Nat) : (buf.advance n).ptr = buf.ptr := rfl
@[simp] theorem advance_size (buf : Buffer) (n : Nat) : (buf.advance n).size = buf.size := rfl
@[simp] theorem advance_offset (buf : Buffer) (n : Nat) :
    (buf.advance n).offset = buf.offset + n := rfl

theorem advance_advance (buf : Buffer) (m n : Nat) :
    (buf.advance m).advance n = buf.advance (m + n) := by
  simp [advance, Nat.add_assoc]

theorem length_unread {buf : Buffer} (hvalid : buf.Valid) :
    buf.unread.length = buf.size - buf.offset := by
  rw [unread, List.length_drop, List.length_take, Nat.min_eq_left hvalid.2]

@[simp] theorem unread_advance (buf : Buffer) (n : Nat) :
    (buf.advance n).unread = buf.unread.drop n := by
  simp [unread, List.drop_drop]

theorem Valid.advance {buf : Buffer} (hvalid : buf.Valid) {n : Nat}
    (hn : n ≤ buf.unread.length) : (buf.advance n).Valid := by
  rw [length_unread hvalid] at hn
  have := hvalid.1
  exact ⟨by simp only [advance_offset, advance_size]; omega, hvalid.2⟩

theorem valid_ofBytes (bytes : List UInt8) : (ofBytes bytes).Valid :=
  ⟨Nat.zero_le _, Nat.le_refl _⟩

@[simp] theorem unread_ofBytes (bytes : List UInt8) : (ofBytes bytes).unread = bytes := by
  simp [unread, ofBytes]

end Buffer

/-- `command_t`: the data are `none` for a null pointer, and `lc` bytes otherwise. -/
structure Command where
  cla : UInt8
  ins : UInt8
  p1 : UInt8
  p2 : UInt8
  lc : UInt8
  data : Option (List UInt8)
  length_data : ∀ bytes ∈ data, bytes.length = lc.toNat
  deriving DecidableEq

/-- The command that `apdu_parser` makes of an APDU: without data the pointer is null. -/
def Command.ofApdu (cla ins p1 p2 : UInt8) (data : List UInt8) (hlen : data.length < 256) :
    Command where
  cla := cla
  ins := ins
  p1 := p1
  p2 := p2
  lc := UInt8.ofNat data.length
  data := if data = [] then none else some data
  length_data := by
    intro bytes hbytes
    split at hbytes
    · cases hbytes
    · obtain rfl := Option.mem_some.mp hbytes
      rw [UInt8.toNat_ofNat', Nat.mod_eq_of_lt hlen]

inductive Endianness where
  | be
  | le
  deriving DecidableEq, Repr

/-- The library functions the application calls. A function with output parameters returns them
next to its result, whether it succeeds or not; memory is read and written from a pointer on. -/
structure Sdk where
  sizeBits : Nat
  bufferReadU8 : Buffer → Bool × UInt8 × Buffer
  bufferReadU64 : Buffer → Endianness → Bool × UInt64 × Buffer
  bufferSeekCur : Buffer → Nat → Bool × Buffer
  bufferReadVarint : Buffer → Bool × UInt64 × Buffer
  bufferReadBip32Path : Buffer → List.Vector UInt32 maxBip32Path → Nat →
    Bool × List.Vector UInt32 maxBip32Path × Buffer
  /-- The bytes written to the destination are the second component. -/
  bufferMove : Buffer → Nat → Bool × List UInt8 × Buffer
  varintSize : UInt64 → UInt8
  varintWrite : (Nat → UInt8) → Nat → UInt64 → Int × (Nat → UInt8)
  writeU64Be : (Nat → UInt8) → Nat → UInt64 → (Nat → UInt8)
  /-- The text written to the destination is the second component. -/
  formatFpu64 : Nat → UInt64 → UInt8 → Bool × List Char
  bip32PathFormat : List.Vector UInt32 maxBip32Path → UInt8 → Nat → Bool × List Char
  /-- The text that `%.*H` prints. -/
  printHex : List UInt8 → List Char

def cxOk : UInt32 := 0

structure SignResult where
  error : UInt32
  signature : Bytes maxDerSigLen
  sigLen : Nat
  info : UInt32

/-- The system calls of one moment: error code and output for every input. -/
structure Cx where
  cxKeccakInitNoThrow : UInt32
  cxHashNoThrow : List UInt8 → UInt32 × Bytes 32
  bip32DeriveGetPubkey256 : List.Vector UInt32 maxBip32Path → UInt8 → UInt32 × PubkeyCtx
  bip32DeriveEcdsaSignHash256 : List.Vector UInt32 maxBip32Path → UInt8 → Bytes 32 → SignResult

/-- The hash calls succeed and compute `keccak256`. -/
def Cx.Hashes (keccak256 : List UInt8 → Bytes 32) (cx : Cx) : Prop :=
  cx.cxKeccakInitNoThrow = cxOk ∧ ∀ message, cx.cxHashNoThrow message = (cxOk, keccak256 message)

/-- A signature has no more bytes than the buffer it is written to. -/
def Cx.SignaturesFit (cx : Cx) : Prop :=
  ∀ path len hash, (cx.bip32DeriveEcdsaSignHash256 path len hash).sigLen ≤ maxDerSigLen

/-- The derivation and the hash are the functions `derive` and `hash` of the path and of the
message. -/
structure Cx.Computes (derive : List UInt32 → UInt32 × PubkeyCtx) (keccakInit : UInt32)
    (hash : List UInt8 → UInt32 × Bytes 32) (cx : Cx) : Prop where
  derives : ∀ path len, len.toNat ≤ maxBip32Path →
    cx.bip32DeriveGetPubkey256 path len = derive (path.toList.take len.toNat)
  keccakInit : cx.cxKeccakInitNoThrow = keccakInit
  hash : cx.cxHashNoThrow = hash

/-! ### What the application relies on -/

/-- The `n` big-endian words at the start of `bytes`. -/
def words (n : Nat) (bytes : List UInt8) : List UInt32 :=
  (List.range n).map fun i => UInt32.ofNat (decodeBE ((bytes.drop (4 * i)).take 4))

/-- `value / 10 ^ decimals` in decimal, with exactly `decimals` digits behind the point. -/
def fixedPoint (value decimals : Nat) : List Char :=
  let fraction := Nat.toDigits 10 (value % 10 ^ decimals)
  Nat.toDigits 10 (value / 10 ^ decimals)
    ++ '.' :: (List.replicate (decimals - fraction.length) '0' ++ fraction)

/-- The low 31 bits of a component in decimal, with an apostrophe when it is hardened. -/
def componentText (component : UInt32) : List Char :=
  Nat.toDigits 10 (component.toNat % 2 ^ 31)
    ++ if 2 ^ 31 ≤ component.toNat then ['\''] else []

def pathText (path : List UInt32) : List Char :=
  ((path.map componentText).intersperse ['/']).flatten

/-- Reading from a buffer: a read moves the offset past what it read, and one that finds too few
bytes fails and leaves the buffer as it was. -/
structure Sdk.ReadLaws (sdk : Sdk) : Prop where
  sizeBits : sdk.sizeBits = 32 ∨ sdk.sizeBits = 64
  readU8 : ∀ buf b rest, buf.Valid → buf.unread = b :: rest →
    sdk.bufferReadU8 buf = (true, b, buf.advance 1)
  readU8_missing : ∀ buf, buf.Valid → buf.unread = [] → (sdk.bufferReadU8 buf).1 = false
  readU64 : ∀ buf, buf.Valid → 8 ≤ buf.unread.length →
    sdk.bufferReadU64 buf .be
      = (true, UInt64.ofNat (decodeBE (buf.unread.take 8)), buf.advance 8)
  readU64_missing : ∀ buf, buf.Valid → buf.unread.length < 8 →
    (sdk.bufferReadU64 buf .be).1 = false ∧ (sdk.bufferReadU64 buf .be).2.2 = buf
  seekCur : ∀ buf n, buf.Valid → n < 2 ^ sdk.sizeBits → n ≤ buf.unread.length →
    sdk.bufferSeekCur buf n = (true, buf.advance n)
  seekCur_missing : ∀ buf n, buf.Valid → n < 2 ^ sdk.sizeBits → buf.unread.length < n →
    sdk.bufferSeekCur buf n = (false, buf)
  readVarint : ∀ buf value used, buf.Valid → CompactSize.decode buf.unread = some (value, used) →
    sdk.bufferReadVarint buf = (true, UInt64.ofNat value, buf.advance used)
  readVarint_missing : ∀ buf, buf.Valid → CompactSize.decode buf.unread = none →
    sdk.bufferReadVarint buf = (false, 0, buf)

/-- Reading a path: `n` words, refused for no component, for more than the array holds and for
missing bytes. -/
structure Sdk.PathLaws (sdk : Sdk) : Prop where
  readPath : ∀ buf path n, buf.Valid → 0 < n → n ≤ maxBip32Path → 4 * n ≤ buf.unread.length →
    ∃ path', sdk.bufferReadBip32Path buf path n = (true, path', buf.advance (4 * n))
      ∧ path'.toList.take n = words n buf.unread
  readPath_refused : ∀ buf path n, buf.Valid →
    n = 0 ∨ maxBip32Path < n ∨ buf.unread.length < 4 * n →
    (sdk.bufferReadBip32Path buf path n).1 = false

/-- Moving a buffer: all the bytes not read yet, if the destination has room for them. -/
structure Sdk.MoveLaws (sdk : Sdk) : Prop where
  move : ∀ buf n, buf.Valid → buf.unread.length ≤ n →
    (sdk.bufferMove buf n).1 = true ∧ (sdk.bufferMove buf n).2.1 = buf.unread

/-- Writing numbers: eight big-endian bytes, or the shortest varint. -/
structure Sdk.WriteLaws (sdk : Sdk) : Prop where
  varintSize : ∀ value, (sdk.varintSize value).toNat = CompactSize.size value.toNat
  varintWrite : ∀ out offset value, sdk.varintWrite out offset value
    = ((CompactSize.size value.toNat : Int),
        Region.store out offset (CompactSize.encode value.toNat))
  writeU64Be : ∀ out offset value, sdk.writeU64Be out offset value
    = Region.store out offset (encodeBE 8 value.toNat)

/-- Formatting an amount: it succeeds when the destination is longer than the digits, the point and
the decimals. -/
structure Sdk.FormatLaws (sdk : Sdk) : Prop where
  formatFpu64 : ∀ dstLen value decimals,
    (Nat.toDigits 10 value.toNat).length + 1 + decimals.toNat < dstLen →
    sdk.formatFpu64 dstLen value decimals = (true, fixedPoint value.toNat decimals.toNat)

/-- Formatting a path: it succeeds when the destination is longer than the text. -/
structure Sdk.PathTextLaws (sdk : Sdk) : Prop where
  format : ∀ path len outLen, 0 < len.toNat → len.toNat ≤ maxBip32Path →
    (pathText (path.toList.take len.toNat)).length < outLen →
    sdk.bip32PathFormat path len outLen = (true, pathText (path.toList.take len.toNat))
  format_tooLong : ∀ path len outLen, 0 < len.toNat → len.toNat ≤ maxBip32Path →
    outLen ≤ (pathText (path.toList.take len.toNat)).length →
    (sdk.bip32PathFormat path len outLen).1 = false

/-- Printing bytes: two upper case digits each. -/
structure Sdk.HexLaws (sdk : Sdk) : Prop where
  printHex : ∀ bytes, sdk.printHex bytes = Hex.encode bytes

structure Sdk.Lawful (sdk : Sdk) : Prop extends
  sdk.ReadLaws, sdk.PathLaws, sdk.MoveLaws, sdk.WriteLaws, sdk.FormatLaws

theorem Sdk.ReadLaws.lt_size {sdk : Sdk} (hsdk : sdk.ReadLaws) {n : Nat} (hn : n < 2 ^ 32) :
    n < 2 ^ sdk.sizeBits := by
  rcases hsdk.sizeBits with h | h <;> rw [h] <;> omega

theorem Sdk.ReadLaws.fits_size {sdk : Sdk} (hsdk : sdk.ReadLaws) {n : Nat} (hn : n ≤ 2 ^ 16) :
    n < 2 ^ sdk.sizeBits :=
  hsdk.lt_size (lt_of_le_of_lt hn (by norm_num))

end BoilerplateApp
