import BoilerplateApp.ClientReader
import BoilerplateApp.Lib.Conversation
import BoilerplateApp.Lib.Simulation
import BoilerplateApp.Protocol

/-!
# The Python client: all of its commands

The other commands of `boilerplate_command_sender.py` that the application answers, the readers of
their responses, and what a caller gets from a command: the result that is read from the last
response, or an exception with the first status word that is not `SW_OK`. The other side of the
exchange is the application and the user, who decides every review that a command starts.
-/

namespace BoilerplateApp.Client

open Endian Transition

def p1Confirm : UInt8 := 0x01

/-! ### `boilerplate_command_sender.py` -/

section Sender

variable (packDerivationPath : List UInt32 → List UInt8)

def getVersion : Apdu := ⟨cla, insGetVersion, p1Start.toNat, p2Last, []⟩

def getAppName : Apdu := ⟨cla, insGetAppName, p1Start.toNat, p2Last, []⟩

def getPublicKey (path : List UInt32) : Apdu :=
  ⟨cla, insGetPublicKey, p1Start.toNat, p2Last, packDerivationPath path⟩

def getPublicKeyWithConfirmation (path : List UInt32) : Apdu :=
  ⟨cla, insGetPublicKey, p1Confirm.toNat, p2Last, packDerivationPath path⟩

/-- What `sign_tx` exchanges first. -/
def signTxStart (path : List UInt32) : Apdu :=
  ⟨cla, insSignTx, p1Start.toNat, p2More, packDerivationPath path⟩

end Sender

/-! ### `boilerplate_response_unpacker.py` -/

def unpackGetAppNameResponse (response : List UInt8) : Option (List Char) :=
  (decodeAscii response).toOption

def unpackGetVersionResponse : List UInt8 → Option (Nat × Nat × Nat)
  | [major, minor, patch] => some (major.toNat, minor.toNat, patch.toNat)
  | _ => none

/-- The response of the dashboard to `get_app_and_version`. -/
def unpackGetAppAndVersionResponse (response : List UInt8) : Option (List Char × List Char) := do
  let (response, _) := popSized response 1
  let (response, _, appNameRaw) ← popSizePrefixed response
  let (response, _, versionRaw) ← popSizePrefixed response
  let (response, _, _) ← popSizePrefixed response
  if response.length = 0 then
    return (← (decodeAscii appNameRaw).toOption, ← (decodeAscii versionRaw).toOption)
  else none

def unpackGetPublicKeyResponse (response : List UInt8) :
    Option (Nat × List UInt8 × Nat × List UInt8) := do
  let (response, pubKeyLen, pubKey) ← popSizePrefixed response
  let (response, chainCodeLen, chainCode) ← popSizePrefixed response
  if pubKeyLen = 65 ∧ chainCodeLen = 32 ∧ response.length = 0 then
    return (pubKeyLen, pubKey, chainCodeLen, chainCode)
  else none

/-! ### Calls of the client -/

inductive Operation where
  | version
  | appName
  | publicKey (path : List UInt32)
  | confirmedPublicKey (path : List UInt32)
  | signature (path : List UInt32) (transaction : List UInt8)
  deriving DecidableEq

/-- What a call comes to. `refused` is Ragger's exception for a status word, `raised` any other. -/
inductive Result where
  | version (major minor patch : Nat)
  | appName (name : List Char)
  | publicKey (pubKey chainCode : List UInt8)
  | signature (derSig : List UInt8) (v : Nat)
  | refused (sw : UInt16)
  | raised
  deriving DecidableEq

section Operation

variable (packDerivationPath : List UInt32 → List UInt8)

/-- Of an empty transaction only the path is sent: `messages[-1]` raises behind it. -/
def Operation.apdus : Operation → List Apdu
  | .version => [getVersion]
  | .appName => [getAppName]
  | .publicKey path => [getPublicKey packDerivationPath path]
  | .confirmedPublicKey path => [getPublicKeyWithConfirmation packDerivationPath path]
  | .signature path transaction =>
      (signTx packDerivationPath path transaction).getD [signTxStart packDerivationPath path]

def Operation.unpack : Operation → List UInt8 → Option Result
  | .version, response => (unpackGetVersionResponse response).map fun (major, minor, patch) =>
      .version major minor patch
  | .appName, response => (unpackGetAppNameResponse response).map .appName
  | .publicKey _, response | .confirmedPublicKey _, response =>
      (unpackGetPublicKeyResponse response).map fun (_, pubKey, _, chainCode) =>
        .publicKey pubKey chainCode
  | .signature _ [], _ => none
  | .signature _ _, response => (unpackSignTxResponse response).map fun (_, derSig, v) =>
      .signature derSig v

/-- The result for the last response. -/
def Operation.result (operation : Operation) (response : UInt16 × List UInt8) : Result :=
  if response.1 = swOk then (operation.unpack response.2).getD .raised else .refused response.1

/-- An APDU has room for 255 bytes of data. -/
def Operation.Sendable : Operation → Prop
  | .version | .appName => True
  | .publicKey path | .confirmedPublicKey path | .signature path _ =>
      1 + 4 * path.length ≤ maxApduLen

instance : DecidablePred Operation.Sendable
  | .version | .appName => inferInstanceAs (Decidable True)
  | .publicKey _ | .confirmedPublicKey _ | .signature _ _ => inferInstanceAs (Decidable (_ ≤ _))

end Operation

/-! ### The exchange with the device -/

section Exchange

variable (ui : Ui) (sdk : Sdk) (calls : Cx → Prop)

/-- The user touches the screen and decides nothing. -/
def Hidden (trace : List Entry) : Prop :=
  ∀ e ∈ trace, ∃ action, e.event = .user action ∧ e.before.decides ui action = none

/-- An APDU is answered at once, or starts a review, which the user decides with `choice` and which
is answered then. -/
inductive Exchanges (choice : Bool) (d : Device) (apdu : Apdu) :
    Device → UInt16 × List UInt8 → Prop
  | replied {cmd : Command} (hcmd : apdu.command = some cmd) {d' : Device} {sw : UInt16}
      {data : List UInt8}
      (hstep : (app ui sdk calls).Step d (.apdu (some cmd)) d' [.send sw data]) :
      Exchanges choice d apdu d' (sw, data)
  | decided {cmd : Command} (hcmd : apdu.command = some cmd) {d₁ d₂ d' : Device}
      {request request' : RequestType}
      (hstart : (app ui sdk calls).Step d (.apdu (some cmd)) d₁ [.startReview request])
      {trace : List Entry} (htouches : Steps (app ui sdk calls) d₁ trace d₂)
      (hhidden : Hidden ui trace) {action : UserAction}
      (hdecides : d₂.decides ui action = some (request', choice)) {effects : List Effect}
      (hdecide : (app ui sdk calls).Step d₂ (.user action) d' effects) {sw : UInt16}
      {data : List UInt8} (hsend : .send sw data ∈ effects) :
      Exchanges choice d apdu d' (sw, data)

/-- A call of the client while the user decides with `choice`. -/
def Performed (packDerivationPath : List UInt32 → List UInt8) (d : Device)
    (call : Operation × Bool) (d' : Device) (result : Result) : Prop :=
  ∃ response, Conversation.Performs (Exchanges ui sdk calls call.2) (fun r => r.1 = swOk) d
      (call.1.apdus packDerivationPath) d' response
    ∧ result = call.1.result response

end Exchange

/-! ### A wallet -/

/-- What a signing call puts out. -/
structure Signature where
  der : Bytes maxDerSigLen
  len : Nat
  info : UInt32
  len_le : len ≤ maxDerSigLen

/-- The keys, the hash and the signatures of a device. -/
structure Wallet where
  key : List UInt32 → PubkeyCtx
  keccak256 : List UInt8 → Bytes 32
  sign : List UInt32 → Bytes 32 → Signature

/-- The system calls succeed and are those of the wallet. -/
structure Wallet.Answers (w : Wallet) (cx : Cx) : Prop where
  derives : ∀ path len, len.toNat ≤ maxBip32Path →
    cx.bip32DeriveGetPubkey256 path len = (cxOk, w.key (path.toList.take len.toNat))
  hashes : cx.Hashes w.keccak256
  signs : ∀ path len hash, len.toNat ≤ maxBip32Path →
    cx.bip32DeriveEcdsaSignHash256 path len hash
      = let signature := w.sign (path.toList.take len.toNat) hash
        ⟨cxOk, signature.der, signature.len, signature.info⟩

def Wallet.cx (w : Wallet) : Cx where
  cxKeccakInitNoThrow := cxOk
  cxHashNoThrow message := (cxOk, w.keccak256 message)
  bip32DeriveGetPubkey256 path len := (cxOk, w.key (path.toList.take len.toNat))
  bip32DeriveEcdsaSignHash256 path len hash :=
    let signature := w.sign (path.toList.take len.toNat) hash
    ⟨cxOk, signature.der, signature.len, signature.info⟩

theorem Wallet.answers_cx (w : Wallet) : w.Answers w.cx :=
  ⟨fun _ _ _ => rfl, ⟨rfl, fun _ => rfl⟩, fun _ _ _ _ => rfl⟩

section Serve

variable (w : Wallet) (choice : Bool)

/-- A key that is exported at once, or after the user has confirmed its address. -/
def Wallet.serveKey (path : List UInt32) (display : Bool) : Result :=
  if path = [] ∨ maxBip32Path < path.length then .refused swWrongDataLength
  else if display ∧ 60 ≤ (pathText path).length then .refused swDisplayBip32PathFail
  else if display ∧ !choice then .refused swDeny
  else .publicKey (w.key path).rawPublicKey.toList (w.key path).chainCode.toList

def Wallet.serveSignature (path : List UInt32) (transaction : List UInt8) : Result :=
  if path = [] ∨ maxBip32Path < path.length then .refused swWrongDataLength
  else if transaction = [] then .raised
  else if maxTransactionLen < transaction.length then .refused swWrongTxLength
  else if !Protocol.wellFormed transaction then .refused swTxParsingFail
  else if !choice then .refused swDeny
  else
    let signature := w.sign path (w.keccak256 transaction)
    .signature (signature.der.toList.take signature.len)
      (signature.info &&& cxEccinfoParityOdd).toNat

/-- What a call comes to on a device with this wallet, of the call and the user's decision alone. -/
def Wallet.serve : Operation → Result
  | .version => .version 2 0 0
  | .appName => .appName ['B', 'o', 'i', 'l', 'e', 'r', 'p', 'l', 'a', 't', 'e']
  | .publicKey path => w.serveKey choice path false
  | .confirmedPublicKey path => w.serveKey choice path true
  | .signature path transaction => w.serveSignature choice path transaction

end Serve

end BoilerplateApp.Client
