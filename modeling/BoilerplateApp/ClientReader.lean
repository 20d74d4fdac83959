import BoilerplateApp.Client
import BoilerplateApp.Lib.Reading

/-!
# The Python client: transactions read back

The constructor of `Transaction` and `Transaction.from_bytes`, with the readers of
`boilerplate_utils.py` that it calls. A `BytesIO` is the list of the bytes that are left in it.
-/

namespace BoilerplateApp.Client

open Endian Reading

/-- What the functions raise. The texts of Python's own functions are left out. -/
inductive Raised where
  | valueError (text : String)
  | fromHexError
  | unicodeEncodeError
  | unicodeDecodeError
  | transactionError (text : String)
  deriving DecidableEq, Repr

abbrev Read (α : Type) := Reader UInt8 Raised α

def uint64Max : Int := 2 ^ 64 - 1

/-! ### Python's own functions -/

/-- `bytes.hex` -/
def hexText (bytes : List UInt8) : String :=
  String.ofList
    (bytes.flatMap fun b => [Nat.digitChar (b.toNat / 16), Nat.digitChar (b.toNat % 16)])

def hexDigit (c : Char) : Option Nat :=
  if '0' ≤ c ∧ c ≤ '9' then some (c.toNat - 48)
  else if 'a' ≤ c ∧ c ≤ 'f' then some (c.toNat - 87)
  else if 'A' ≤ c ∧ c ≤ 'F' then some (c.toNat - 55)
  else none

/-- `bytes.fromhex`: two digits a byte, and white space between the bytes. -/
def fromHex : List Char → Except Raised (List UInt8)
  | [] => .ok []
  | [c] => if c.toNat = 32 ∨ (9 ≤ c.toNat ∧ c.toNat ≤ 13) then .ok [] else .error .fromHexError
  | c :: c' :: text =>
      if c.toNat = 32 ∨ (9 ≤ c.toNat ∧ c.toNat ≤ 13) then fromHex (c' :: text)
      else
        match hexDigit c, hexDigit c' with
        | some high, some low => (fromHex text).map (UInt8.ofNat (16 * high + low) :: ·)
        | _, _ => .error .fromHexError

/-- `str.encode("ascii")` -/
def encodeAscii (text : List Char) : Except Raised (List UInt8) :=
  if text.all fun c => decide (c.toNat ≤ 0x7F) then .ok (text.map fun c => UInt8.ofNat c.toNat)
  else .error .unicodeEncodeError

/-- `bytes.decode("ascii")` -/
def decodeAscii (bytes : List UInt8) : Except Raised (List Char) :=
  if bytes.all fun b => decide (b ≤ 0x7F) then .ok (bytes.map fun b => Char.ofNat b.toNat)
  else .error .unicodeDecodeError

theorem ascii_of_encodeAscii {text : List Char} {bytes : List UInt8}
    (h : encodeAscii text = .ok bytes) : ∀ b ∈ bytes, b ≤ 0x7F := by
  rw [encodeAscii] at h
  split at h
  · next hascii =>
      obtain rfl := Except.ok.inj h
      intro b hb
      obtain ⟨c, hc, rfl⟩ := List.mem_map.mp hb
      have hlow : c.toNat ≤ 0x7F := of_decide_eq_true (List.all_eq_true.mp hascii c hc)
      rw [UInt8.le_iff_toNat_le, UInt8.toNat_ofNat']
      exact le_trans (Nat.mod_le _ _) hlow
  · cases h

/-! ### The constructor -/

/-- The argument `to`. -/
inductive To where
  | str (text : List Char)
  | bytes (addr : List UInt8)

/-- A text loses its first two characters, the `0x`. -/
def To.toBytes : To → Except Raised (List UInt8)
  | .str text => fromHex (text.drop 2)
  | .bytes addr => .ok addr

/-- `Transaction.__init__` with `do_check`, which is its default. -/
def Transaction.init (nonce : Int) (toAddr : To) (value : Int) (memo : List Char) :
    Except Raised Transaction :=
  match toAddr.toBytes with
  | .error e => .error e
  | .ok toAddr =>
      match hmemo : encodeAscii memo with
      | .error e => .error e
      | .ok memo =>
          if hnonce : 0 ≤ nonce ∧ nonce ≤ uint64Max then
            if hvalue : 0 ≤ value ∧ value ≤ uint64Max then
              if hto : toAddr.length = 20 then
                .ok ⟨nonce.toNat, toAddr, value.toNat, memo, by simp [uint64Max] at hnonce; omega,
                  by simp [uint64Max] at hvalue; omega, hto, ascii_of_encodeAscii hmemo⟩
              else .error (.transactionError ("Bad address: '" ++ hexText toAddr ++ "'!"))
            else .error (.transactionError ("Bad value: '" ++ toString value ++ "'!"))
          else .error (.transactionError ("Bad nonce: '" ++ toString nonce ++ "'!"))

/-! ### The readers -/

/-- `read_varint`, with the first byte in `pre` if the caller has read it already. -/
def readVarint (pre : Option (List UInt8)) : Read Nat := do
  let b ← match pre with
    | some (b :: bs) => pure (b :: bs)
    | _ => next 1
  if b = [] then throw (.valueError ("Can't read prefix: '" ++ hexText b ++ "'!"))
  else
    -- default to 1
    let n := if b = [0xFD] then 2 else if b = [0xFE] then 4 else if b = [0xFF] then 8 else 1
    let b ← if n > 1 then next n else pure b
    if b.length ≠ n then throw (.valueError "Can't read varint!") else return decodeLE b

def read (size : Nat) : Read (List UInt8) := do
  let b ← next size
  if b.length < size then
    throw (.valueError ("Can't read " ++ toString size ++ " bytes in buffer!"))
  else return b

def readUint (bitLen : Nat) (byteorder : Endianness) : Read Nat := do
  let size := bitLen / 8
  let b ← next size
  if b.length < size then
    throw (.valueError ("Can't read u" ++ toString bitLen ++ " in buffer!"))
  else
    match byteorder with
    | .be => return decodeBE b
    | .le => return decodeLE b

/-- `from_bytes` on a `BytesIO`. -/
def Transaction.fromBuf : Read Transaction := do
  let nonce ← readUint 64 .be
  let toAddr ← read 20
  let value ← readUint 64 .be
  let memoLen ← readVarint none
  let memo ← read memoLen
  let memo ← decodeAscii memo
  Transaction.init nonce (.bytes toAddr) value memo

/-- `from_bytes` on bytes. -/
def Transaction.fromBytes (hexa : List UInt8) : Except Raised Transaction :=
  (Transaction.fromBuf.run hexa).map Prod.fst

end BoilerplateApp.Client
