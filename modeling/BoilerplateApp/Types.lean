import BoilerplateApp.Lib.Region

/-!
# Constants and data types

The constants of `constants.h`, `sw.h`, `dispatcher.h` and `transaction/types.h`, and the types of
`types.h`. Bytes are `UInt8`, arrays of fixed size are vectors, and a pointer into a buffer is the
offset from the start of that buffer.
-/

namespace BoilerplateApp

abbrev Bytes (n : Nat) := List.Vector UInt8 n

/-- An array filled with zeros, as `explicit_bzero` leaves it. -/
def zeros (n : Nat) : Bytes n := List.Vector.replicate n 0

def cla : UInt8 := 0xE0
def maxTransactionLen : Nat := 510
def maxDerSigLen : Nat := 72
def exponentSmallestUnit : UInt8 := 3
def maxTxLen : Nat := 510
def addressLen : Nat := 20
def maxMemoLen : Nat := 465

/-- `MAX_BIP32_PATH` of the SDK's `bip32.h`. -/
def maxBip32Path : Nat := 10

def pubkeyLen : Nat := 65
def chaincodeLen : Nat := 32

def p1Start : UInt8 := 0x00
def p1Max : UInt8 := 0x03
def p2Last : UInt8 := 0x00
def p2More : UInt8 := 0x80

/-! ### Status words -/

def swOk : UInt16 := 0x9000
def swDeny : UInt16 := 0x6985
def swWrongP1P2 : UInt16 := 0x6A86
def swWrongDataLength : UInt16 := 0x6A87
def swInsNotSupported : UInt16 := 0x6D00
def swClaNotSupported : UInt16 := 0x6E00
def swWrongResponseLength : UInt16 := 0xB000
def swDisplayBip32PathFail : UInt16 := 0xB001
def swDisplayAddressFail : UInt16 := 0xB002
def swDisplayAmountFail : UInt16 := 0xB003
def swWrongTxLength : UInt16 := 0xB004
def swTxParsingFail : UInt16 := 0xB005
def swTxHashFail : UInt16 := 0xB006
def swBadState : UInt16 := 0xB007
def swSignatureFail : UInt16 := 0xB008

/-! ### Types -/

def insGetVersion : UInt8 := 0x03
def insGetAppName : UInt8 := 0x04
def insGetPublicKey : UInt8 := 0x05
def insSignTx : UInt8 := 0x06

inductive State where
  | none
  | parsed
  | approved
  deriving DecidableEq, Repr

inductive RequestType where
  | confirmAddress
  | confirmTransaction
  deriving DecidableEq, Repr

inductive ParserStatus where
  | parsingOk
  | nonceParsingError
  | toParsingError
  | valueParsingError
  | memoLengthError
  | memoParsingError
  | memoEncodingError
  | wrongLengthError
  deriving DecidableEq, Repr

/-- `transaction_t`. Its pointers, `toAddr` for `to` and `memo`, are offsets into the buffer that
was parsed. -/
structure Transaction where
  nonce : UInt64
  value : UInt64
  toAddr : Nat
  memo : Nat
  memoLen : UInt64
  deriving DecidableEq, Repr

def Transaction.zero : Transaction := ⟨0, 0, 0, 0, 0⟩

structure PubkeyCtx where
  rawPublicKey : Bytes pubkeyLen
  chainCode : Bytes chaincodeLen
  deriving DecidableEq

structure TransactionCtx where
  rawTx : Bytes maxTransactionLen
  rawTxLen : Nat
  transaction : Transaction
  mHash : Bytes 32
  signature : Bytes maxDerSigLen
  signatureLen : UInt8
  v : UInt8
  deriving DecidableEq

/-- The bytes `raw_tx[0..raw_tx_len)`. -/
def TransactionCtx.received (tx : TransactionCtx) : List UInt8 := tx.rawTx.toList.take tx.rawTxLen

/-- `global_ctx_t`. The union of `pk_info` and `tx_info` is stored as its larger member `tx_info`;
`pkInfo` and `setPkInfo` read and write the same bytes as the smaller one. -/
structure GlobalCtx where
  state : State
  txInfo : TransactionCtx
  reqType : RequestType
  bip32Path : List.Vector UInt32 maxBip32Path
  bip32PathLen : UInt8
  deriving DecidableEq

def GlobalCtx.zero : GlobalCtx where
  state := .none
  txInfo := ⟨zeros _, 0, .zero, zeros _, zeros _, 0, 0⟩
  reqType := .confirmAddress
  bip32Path := List.Vector.replicate _ 0
  bip32PathLen := 0

theorem length_pkInfo_bytes (rawTx : Bytes maxTransactionLen) :
    (rawTx.toList.take pubkeyLen).length = pubkeyLen
      ∧ ((rawTx.toList.drop pubkeyLen).take chaincodeLen).length = chaincodeLen := by
  rw [List.length_take, List.length_take, List.length_drop, rawTx.toList_length]
  decide

/-- The member `pk_info`: the first 65 and the next 32 bytes of the union, which are the first
97 bytes of `raw_tx`. -/
def GlobalCtx.pkInfo (ctx : GlobalCtx) : PubkeyCtx where
  rawPublicKey := ⟨ctx.txInfo.rawTx.toList.take pubkeyLen, (length_pkInfo_bytes _).1⟩
  chainCode :=
    ⟨(ctx.txInfo.rawTx.toList.drop pubkeyLen).take chaincodeLen, (length_pkInfo_bytes _).2⟩

theorem length_setPkInfo (rawTx : Bytes maxTransactionLen) (pk : PubkeyCtx) :
    (Region.overlay rawTx.toList 0 (pk.rawPublicKey.toList ++ pk.chainCode.toList)).length
      = maxTransactionLen := by
  rw [Region.length_overlay, rawTx.toList_length]
  rw [List.length_append, List.Vector.toList_length, List.Vector.toList_length,
    List.Vector.toList_length]
  decide

def GlobalCtx.setPkInfo (ctx : GlobalCtx) (pk : PubkeyCtx) : GlobalCtx :=
  { ctx with txInfo.rawTx := ⟨_, length_setPkInfo ctx.txInfo.rawTx pk⟩ }

end BoilerplateApp
