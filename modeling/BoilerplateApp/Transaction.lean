import BoilerplateApp.Sdk

/-!
# Transactions: `deserialize.c`, `utils.c`, `serialize.c`

Parsing may read through a pointer that the SDK did not check. Such a read outside the memory behind
the pointer is a fault, so the functions that make it return an `Option`, and `none` is the fault.
-/

namespace BoilerplateApp

/-- `transaction_utils_check_encoding`: the loop over `memo[i]`, `i < memo_len`, where `memo` is the
memory from the pointer on. -/
def transactionUtilsCheckEncoding : List UInt8 → Nat → Option Bool
  | _, 0 => some true
  | [], _ + 1 => none
  | b :: memo, memoLen + 1 =>
      if b > 0x7F then some false else transactionUtilsCheckEncoding memo memoLen

/-- `transaction_utils_format_memo`: the result and the bytes written to `dst`. -/
def transactionUtilsFormatMemo (memo : Nat → UInt8) (memoLen : UInt64) (dst : Nat → UInt8)
    (dstLen : UInt64) : Bool × (Nat → UInt8) :=
  if memoLen.toNat > maxMemoLen ∨ dstLen < memoLen + 1 then (false, dst)
  else
    let dst := Region.store dst 0 (Region.read memo 0 memoLen.toNat)
    (true, Region.store dst memoLen.toNat [0])

/-- `transaction_deserialize`: the status, and what `buf` and `tx` hold afterwards. -/
def transactionDeserialize (sdk : Sdk) (buf : Buffer) (tx : Transaction) :
    Option (ParserStatus × Buffer × Transaction) :=
  if buf.size > maxTxLen then some (.wrongLengthError, buf, tx)
  else
    -- nonce
    let (ok, nonce, buf) := sdk.bufferReadU64 buf .be
    let tx := { tx with nonce := nonce }
    if !ok then some (.nonceParsingError, buf, tx)
    else
      let tx := { tx with toAddr := buf.offset }
      -- TO address
      let (ok, buf) := sdk.bufferSeekCur buf addressLen
      if !ok then some (.toParsingError, buf, tx)
      else
        -- amount value
        let (ok, value, buf) := sdk.bufferReadU64 buf .be
        let tx := { tx with value := value }
        if !ok then some (.valueParsingError, buf, tx)
        else
          -- length of memo
          let (ok, memoLen, buf) := sdk.bufferReadVarint buf
          let tx := { tx with memoLen := memoLen }
          if !ok ∧ tx.memoLen.toNat > maxMemoLen then some (.memoLengthError, buf, tx)
          else
            -- memo: the length is a `uint64_t`, the distance of the seek a `size_t`
            let tx := { tx with memo := buf.offset }
            let (ok, buf) := sdk.bufferSeekCur buf (tx.memoLen.toNat % 2 ^ sdk.sizeBits)
            if !ok then some (.memoParsingError, buf, tx)
            else
              match transactionUtilsCheckEncoding (buf.ptr.drop tx.memo) tx.memoLen.toNat with
              | none => none
              | some false => some (.memoEncodingError, buf, tx)
              | some true =>
                  some (if buf.offset = buf.size then .parsingOk else .wrongLengthError, buf, tx)

/-- The `int` that a `size_t` is cast to. -/
def intOfSize (offset : Nat) : Int := (offset : Int).bmod (2 ^ 32)

/-- `transaction_serialize`: the result and what `out` holds afterwards. The pointers of `tx` are
offsets into `mem`. -/
def transactionSerialize (sdk : Sdk) (mem : Nat → UInt8) (tx : Transaction) (out : Nat → UInt8)
    (outLen : Nat) : Int × (Nat → UInt8) :=
  -- the sum is computed in `uint64_t`, the type of `memo_len`
  if (UInt64.ofNat (8 + addressLen + 8) + (sdk.varintSize tx.memoLen).toUInt64
      + tx.memoLen).toNat > outLen then (-1, out)
  else
    -- nonce
    let out := sdk.writeU64Be out 0 tx.nonce
    -- to
    let out := Region.store out 8 (Region.read mem tx.toAddr addressLen)
    -- value
    let out := sdk.writeU64Be out (8 + addressLen) tx.value
    let offset := 8 + addressLen + 8
    -- memo length
    let (varintLen, out) := sdk.varintWrite out offset tx.memoLen
    if varintLen < 0 then (-1, out)
    else
      let offset := offset + varintLen.toNat
      -- memo
      let memoLen := tx.memoLen.toNat % 2 ^ sdk.sizeBits
      let out := Region.store out offset (Region.read mem tx.memo memoLen)
      (intOfSize ((offset + memoLen) % 2 ^ sdk.sizeBits), out)

end BoilerplateApp
