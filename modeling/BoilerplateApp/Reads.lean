import BoilerplateApp.Transaction

/-!
# What the parser looks at

`transaction_deserialize` and `transaction_utils_check_encoding` once more, now with the offsets of
the bytes they read as the result. Which bytes an SDK reader looks at is a parameter; the scan of the
memo is the code's own loop, one offset for each iteration.
-/

namespace BoilerplateApp

/-- The offsets of the bytes that the readers of the SDK look at, in the order of the accesses. -/
structure BufferReads where
  readU64 : Buffer → List Nat
  readVarint : Buffer → List Nat

/-- The readers compare with the size of the buffer before they look. -/
structure BufferReads.Inside (reads : BufferReads) : Prop where
  readU64 : ∀ buf, buf.Valid → ∀ i ∈ reads.readU64 buf, i < buf.size
  readVarint : ∀ buf, buf.Valid → ∀ i ∈ reads.readVarint buf, i < buf.size

/-- The accesses `memo[i]` of the loop, where `memo` is the memory from the pointer on and `start`
the offset of the pointer. The last one may be outside of the memory. -/
def transactionUtilsCheckEncodingReads : Nat → List UInt8 → Nat → List Nat
  | _, _, 0 => []
  | start, [], _ + 1 => [start]
  | start, b :: memo, memoLen + 1 =>
      start :: if b > 0x7F then [] else transactionUtilsCheckEncodingReads (start + 1) memo memoLen

/-- The accesses of one call of `transaction_deserialize`. -/
structure ParserReads where
  /-- By the readers of the SDK. -/
  fields : List Nat
  /-- By the scan of the memo. -/
  scan : List Nat

def transactionDeserializeReads (sdk : Sdk) (reads : BufferReads) (buf : Buffer) : ParserReads :=
  if buf.size > maxTxLen then ⟨[], []⟩
  else
    -- nonce
    let fields := reads.readU64 buf
    let (ok, _, buf) := sdk.bufferReadU64 buf .be
    if !ok then ⟨fields, []⟩
    else
      -- TO address
      let (ok, buf) := sdk.bufferSeekCur buf addressLen
      if !ok then ⟨fields, []⟩
      else
        -- amount value
        let fields := fields ++ reads.readU64 buf
        let (ok, _, buf) := sdk.bufferReadU64 buf .be
        if !ok then ⟨fields, []⟩
        else
          -- length of memo
          let fields := fields ++ reads.readVarint buf
          let (ok, memoLen, buf) := sdk.bufferReadVarint buf
          if !ok ∧ memoLen.toNat > maxMemoLen then ⟨fields, []⟩
          else
            -- memo
            let memo := buf.offset
            let (ok, buf) := sdk.bufferSeekCur buf (memoLen.toNat % 2 ^ sdk.sizeBits)
            if !ok then ⟨fields, []⟩
            else
              ⟨fields,
                transactionUtilsCheckEncodingReads memo (buf.ptr.drop memo) memoLen.toNat⟩

end BoilerplateApp
