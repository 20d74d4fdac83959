import BoilerplateApp.Run

/-!
# The Python client

The part of `tests/application_client` that signs a transaction: its own encoder, the cutting into
APDUs, and the reader of the response. Integers are unbounded there, and what raises has no result.
-/

namespace BoilerplateApp.Client

open Endian

/-- `Transaction`, with what its constructor checks. The memo is the encoded one. -/
structure Transaction where
  nonce : Nat
  toAddr : List UInt8
  value : Nat
  memo : List UInt8
  nonce_lt : nonce < 2 ^ 64
  value_lt : value < 2 ^ 64
  length_toAddr : toAddr.length = 20
  ascii : ∀ b ∈ memo, b ≤ 0x7F

def writeVarint (n : Nat) : Option (List UInt8) :=
  if n < 0xFC then some (encodeLE 1 n)
  else if n ≤ 0xFFFF then some (0xFD :: encodeLE 2 n)
  else if n ≤ 0xFFFFFFFF then some (0xFE :: encodeLE 4 n)
  else if n ≤ 0xFFFFFFFFFFFFFFFF then some (0xFF :: encodeLE 8 n)
  else none

def Transaction.serialize (t : Transaction) : Option (List UInt8) :=
  (writeVarint t.memo.length).map fun varint =>
    encodeBE 8 t.nonce ++ t.toAddr ++ encodeBE 8 t.value ++ varint ++ t.memo

/-- `[message[x:x + max_size] for x in range(0, len(message), max_size)]` -/
def splitMessage (message : List UInt8) (maxSize : Nat) : List (List UInt8) :=
  (List.range ((message.length + maxSize - 1) / maxSize)).map fun i =>
    (message.drop (i * maxSize)).take maxSize

def maxApduLen : Nat := 255

structure Apdu where
  cla : UInt8
  ins : UInt8
  p1 : Nat
  p2 : UInt8
  data : List UInt8

/-- What the device's `apdu_parser` makes of it, if `p1` and the length of the data fit a byte. -/
def Apdu.command (a : Apdu) : Option Command :=
  if h : a.p1 < 256 ∧ a.data.length < 256 then
    some (.ofApdu a.cla a.ins (UInt8.ofNat a.p1) a.p2 a.data h.2)
  else none

/-- The loop over `messages[:-1]`. -/
def moreApdus : Nat → List (List UInt8) → List Apdu
  | _, [] => []
  | idx, msg :: messages => ⟨cla, insSignTx, idx, p2More, msg⟩ :: moreApdus (idx + 1) messages

/-- `sign_tx`: the APDUs it exchanges. `packDerivationPath` is the function of Ragger. -/
def signTx (packDerivationPath : List UInt32 → List UInt8) (path : List UInt32)
    (transaction : List UInt8) : Option (List Apdu) :=
  let messages := splitMessage transaction maxApduLen
  let idx := p1Start.toNat + 1
  messages.getLast?.map fun last =>
    ⟨cla, insSignTx, p1Start.toNat, p2More, packDerivationPath path⟩
      :: moreApdus idx messages.dropLast
      ++ [⟨cla, insSignTx, idx + messages.dropLast.length, p2Last, last⟩]

def popSized (buffer : List UInt8) (size : Nat) : List UInt8 × List UInt8 :=
  (buffer.drop size, buffer.take size)

def popSizePrefixed (buffer : List UInt8) : Option (List UInt8 × Nat × List UInt8) :=
  match buffer with
  | [] => none
  | len :: rest => some (rest.drop len.toNat, len.toNat, rest.take len.toNat)

/-- `unpack_sign_tx_response`: the length of the signature, the signature and `v`. -/
def unpackSignTxResponse (response : List UInt8) : Option (Nat × List UInt8 × Nat) :=
  match popSizePrefixed response with
  | none => none
  | some (response, derSigLen, derSig) =>
      let (response, v) := popSized response 1
      if response.length = 0 then some (derSigLen, derSig, decodeBE v) else none

end BoilerplateApp.Client
