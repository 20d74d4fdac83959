import BoilerplateApp.Transaction

/-!
# The state of the application, replies and decisions

The static variables of the application and of both user interfaces, the replies of
`send_reponse.c`, and the actions of `validate.c` that the user's decision runs. A function that may
reply, start a review or sign returns the state it leaves together with what it did, in order;
`none` is a memory fault.
-/

namespace BoilerplateApp

/-- The user interface a build has: BAGL on the Nano devices, NBGL on Stax. -/
inductive Ui where
  | bagl
  | nbgl
  deriving DecidableEq, Repr

/-- The functions that `g_validate_callback` of `bagl_display.c` can point to. -/
inductive ActionValidateCb where
  | uiActionValidatePubkey
  | uiActionValidateTransaction
  deriving DecidableEq, Repr

/-- What is on screen. BAGL shows a review as one flow; NBGL as a sequence of pages, where rejecting
a transaction asks for confirmation over the page it was asked from. -/
inductive Screen where
  | menu
  | status
  | pubkeyFlow
  | transactionFlow
  | addressStart
  | addressConfirmation
  | transactionStart
  | transactionReview
  | transactionRejection (under : Screen)
  deriving DecidableEq, Repr

/-- The static variables. `gAddress` is the buffer of `bagl_display.c`, which both of its flows
share, or the one of `nbgl_display_transaction.c`; `gAddressPubkey` is the one of
`nbgl_display_address.c`. Text buffers hold the characters before the terminating NUL. -/
structure Device where
  gContext : GlobalCtx
  gValidateCallback : Option ActionValidateCb
  gAmount : List Char
  gAddress : List Char
  gAddressPubkey : List Char
  screen : Screen
  deriving DecidableEq

/-- `app_main` before its loop. -/
def Device.boot : Device := ⟨.zero, none, [], [], [], .menu⟩

/-- What an event makes the application do besides changing its state. -/
inductive Effect where
  /-- `io_send_response_pointer`, or `io_send_sw` when there are no data. -/
  | send (sw : UInt16) (data : List UInt8)
  /-- `ux_flow_init` or `nbgl_useCaseReviewStart` puts a review on screen. -/
  | startReview (request : RequestType)
  /-- A call of `bip32_derive_ecdsa_sign_hash_256`. -/
  | sign (path : List.Vector UInt32 maxBip32Path) (pathLen : UInt8) (hash : Bytes 32)
  deriving DecidableEq

abbrev Outcome := Option (Device × List Effect)

def ioSendResponsePointer (d : Device) (data : List UInt8) (sw : UInt16) : Outcome :=
  some (d, [.send sw data])

def ioSendSw (d : Device) (sw : UInt16) : Outcome := some (d, [.send sw []])

/-! ### `send_reponse.c` -/

def helperSendResponsePubkey (d : Device) : Outcome :=
  let pk := d.gContext.pkInfo
  ioSendResponsePointer d
    (UInt8.ofNat pubkeyLen :: pk.rawPublicKey.toList
      ++ UInt8.ofNat chaincodeLen :: pk.chainCode.toList) swOk

/-- The response buffer has room for a signature of `MAX_DER_SIG_LEN` bytes. -/
def helperSendResponseSig (d : Device) : Outcome :=
  let tx := d.gContext.txInfo
  if tx.signatureLen.toNat > maxDerSigLen then none
  else
    ioSendResponsePointer d
      (tx.signatureLen :: tx.signature.toList.take tx.signatureLen.toNat ++ [tx.v]) swOk

/-! ### `address.c` -/

/-- `address_from_pubkey` with a large enough `out`: the last 20 bytes of the hash of the key
without its format byte. -/
def addressFromPubkey (cx : Cx) (publicKey : Bytes pubkeyLen) : Option (List UInt8) :=
  if cx.cxKeccakInitNoThrow ≠ cxOk then none
  else
    let (error, address) := cx.cxHashNoThrow (publicKey.toList.drop 1)
    if error ≠ cxOk then none else some (address.toList.drop (32 - addressLen))

/-! ### `validate.c` -/

def validatePubkey (d : Device) (choice : Bool) : Outcome :=
  if choice then helperSendResponsePubkey d else ioSendSw d swDeny

def cxEccinfoParityOdd : UInt32 := 1

/-- `crypto_sign_message`: whether it succeeds, the context it leaves and the call it makes. -/
def cryptoSignMessage (cx : Cx) (ctx : GlobalCtx) : Bool × GlobalCtx × Effect :=
  let call := Effect.sign ctx.bip32Path ctx.bip32PathLen ctx.txInfo.mHash
  let result := cx.bip32DeriveEcdsaSignHash256 ctx.bip32Path ctx.bip32PathLen ctx.txInfo.mHash
  let ctx := { ctx with txInfo.signature := result.signature }
  if result.error ≠ cxOk then (false, ctx, call)
  else
    (true,
      { ctx with
        txInfo.signatureLen := UInt8.ofNat result.sigLen
        txInfo.v := (result.info &&& cxEccinfoParityOdd).toUInt8 },
      call)

def validateTransaction (cx : Cx) (d : Device) (choice : Bool) : Outcome :=
  if choice then
    let d := { d with gContext.state := .approved }
    let (ok, ctx, call) := cryptoSignMessage cx d.gContext
    let d := { d with gContext := ctx }
    let reply :=
      if !ok then ioSendSw { d with gContext.state := .none } swSignatureFail
      else helperSendResponseSig d
    reply.map fun (d, effects) => (d, call :: effects)
  else ioSendSw { d with gContext.state := .none } swDeny

end BoilerplateApp
