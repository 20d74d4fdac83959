import BoilerplateApp.Device

/-!
# The two user interfaces

`bagl_display.c` and `nbgl_display_address.c`, `nbgl_display_transaction.c`. Both interfaces check
the context and format the same strings before they show a review, so that part is shared; how a
review is shown and which callback an action of the user fires is their own.
-/

namespace BoilerplateApp

/-- What the user can do with the screen: the buttons of a BAGL flow, the touches of an NBGL page.
`advance` taps through a page, `dismiss` closes a status page. -/
inductive UserAction where
  | advance
  | approve
  | reject
  | confirmRejection
  | cancelRejection
  | dismiss
  deriving DecidableEq, Repr

/-- `snprintf` of a text into an array of `size` characters. -/
def snprintf (size : Nat) (text : List Char) : List Char := text.take (size - 1)

/-- `snprintf(g_amount, sizeof(g_amount), "BOL %.*s", sizeof(amount), amount)` -/
def amountText (amount : List Char) : List Char :=
  snprintf 30 (['B', 'O', 'L', ' '] ++ amount.take 30)

/-- `snprintf(g_address, sizeof(g_address), "0x%.*H", ADDRESS_LEN, address)` -/
def addressText (sdk : Sdk) (address : List UInt8) : List Char :=
  snprintf 43 (['0', 'x'] ++ sdk.printHex address)

def uiMenuMain (d : Device) : Device := { d with screen := .menu }

/-! ### What both interfaces do before a review -/

section Review

variable (sdk : Sdk) (cx : Cx)

/-- The part of `ui_display_transaction` before the review is shown with `start`. -/
def formatTransaction (start : Device → Device) (d : Device) : Outcome :=
  if d.gContext.reqType ≠ .confirmTransaction ∨ d.gContext.state ≠ .parsed then
    ioSendSw { d with gContext.state := .none } swBadState
  else
    let tx := d.gContext.txInfo.transaction
    let d := { d with gAmount := [] }
    let (ok, amount) := sdk.formatFpu64 30 tx.value exponentSmallestUnit
    if !ok then ioSendSw d swDisplayAmountFail
    else
      let toBytes := (d.gContext.txInfo.rawTx.toList.drop tx.toAddr).take addressLen
      let d := { d with gAmount := amountText amount, gAddress := addressText sdk toBytes }
      some (start d, [.startReview .confirmTransaction])

/-- The part of `ui_display_address` before the review is shown with `start`; `setAddress` writes
the `g_address` of the interface. -/
def formatAddress (setAddress : Device → List Char → Device) (start : Device → Device)
    (d : Device) : Outcome :=
  if d.gContext.reqType ≠ .confirmAddress ∨ d.gContext.state ≠ .none then
    ioSendSw { d with gContext.state := .none } swBadState
  else if !(sdk.bip32PathFormat d.gContext.bip32Path d.gContext.bip32PathLen 60).1 then
    ioSendSw d swDisplayBip32PathFail
  else
    let d := setAddress d []
    match addressFromPubkey cx d.gContext.pkInfo.rawPublicKey with
    | none => ioSendSw d swDisplayAddressFail
    | some address =>
        some (start (setAddress d (addressText sdk address)), [.startReview .confirmAddress])

end Review

/-! ### BAGL -/

namespace Bagl

variable (sdk : Sdk) (cx : Cx)

def uiDisplayAddress : Device → Outcome :=
  formatAddress sdk cx (fun d text => { d with gAddress := text }) fun d =>
    { d with gValidateCallback := some .uiActionValidatePubkey, screen := .pubkeyFlow }

def uiDisplayTransaction : Device → Outcome :=
  formatTransaction sdk fun d =>
    { d with gValidateCallback := some .uiActionValidateTransaction, screen := .transactionFlow }

def uiActionValidatePubkey (d : Device) (choice : Bool) : Outcome :=
  (validatePubkey d choice).map fun (d, effects) => (uiMenuMain d, effects)

def uiActionValidateTransaction (d : Device) (choice : Bool) : Outcome :=
  (validateTransaction cx d choice).map fun (d, effects) => (uiMenuMain d, effects)

def validateCallback (d : Device) (choice : Bool) : Outcome :=
  match d.gValidateCallback with
  | none => none
  | some .uiActionValidatePubkey => uiActionValidatePubkey d choice
  | some .uiActionValidateTransaction => uiActionValidateTransaction cx d choice

/-- The steps of the flow on screen: only the last two have a callback. -/
def act (d : Device) (action : UserAction) : Outcome :=
  match d.screen, action with
  | .pubkeyFlow, .approve | .transactionFlow, .approve => validateCallback cx d true
  | .pubkeyFlow, .reject | .transactionFlow, .reject => validateCallback cx d false
  | _, _ => some (d, [])

end Bagl

/-! ### NBGL -/

namespace Nbgl

variable (sdk : Sdk) (cx : Cx)

def uiDisplayAddress : Device → Outcome :=
  formatAddress sdk cx (fun d text => { d with gAddressPubkey := text }) fun d =>
    { d with screen := .addressStart }

def uiDisplayTransaction : Device → Outcome :=
  formatTransaction sdk fun d => { d with screen := .transactionStart }

def nbglUseCaseStatus (d : Device) : Device := { d with screen := .status }

/-- `confirm_address_rejection` and `confirm_address_approval` -/
def confirmAddress (d : Device) (choice : Bool) : Outcome :=
  (validatePubkey d choice).map fun (d, effects) => (nbglUseCaseStatus d, effects)

/-- `review_continue` of the address review -/
def continueReview (d : Device) : Device := { d with screen := .addressConfirmation }

def confirmTransactionRejection (d : Device) : Outcome :=
  (validateTransaction cx d false).map fun (d, effects) => (nbglUseCaseStatus d, effects)

/-- `ask_transaction_rejection_confirmation`: the question is shown over the current page. -/
def askTransactionRejectionConfirmation (d : Device) : Device :=
  { d with screen := .transactionRejection d.screen }

def reviewChoice (d : Device) (confirm : Bool) : Outcome :=
  if confirm then
    (validateTransaction cx d true).map fun (d, effects) => (nbglUseCaseStatus d, effects)
  else some (askTransactionRejectionConfirmation d, [])

def reviewContinue (d : Device) : Device := { d with screen := .transactionReview }

/-- The callbacks the page on screen has. -/
def act (d : Device) (action : UserAction) : Outcome :=
  match d.screen, action with
  | .addressStart, .advance => some (continueReview d, [])
  | .addressStart, .reject => confirmAddress d false
  | .addressConfirmation, .approve => confirmAddress d true
  | .addressConfirmation, .reject => confirmAddress d false
  | .transactionStart, .advance => some (reviewContinue d, [])
  | .transactionStart, .reject => some (askTransactionRejectionConfirmation d, [])
  | .transactionReview, .approve => reviewChoice cx d true
  | .transactionReview, .reject => reviewChoice cx d false
  | .transactionRejection _, .confirmRejection => confirmTransactionRejection cx d
  | .transactionRejection under, .cancelRejection => some ({ d with screen := under }, [])
  | .status, .dismiss => some (uiMenuMain d, [])
  | _, _ => some (d, [])

end Nbgl

/-! ### The interface of a build -/

def uiDisplayAddress (ui : Ui) (sdk : Sdk) (cx : Cx) (d : Device) : Outcome :=
  match ui with
  | .bagl => Bagl.uiDisplayAddress sdk cx d
  | .nbgl => Nbgl.uiDisplayAddress sdk cx d

def uiDisplayTransaction (ui : Ui) (sdk : Sdk) (d : Device) : Outcome :=
  match ui with
  | .bagl => Bagl.uiDisplayTransaction sdk d
  | .nbgl => Nbgl.uiDisplayTransaction sdk d

def userAct (ui : Ui) (cx : Cx) (d : Device) (action : UserAction) : Outcome :=
  match ui with
  | .bagl => Bagl.act cx d action
  | .nbgl => Nbgl.act cx d action

end BoilerplateApp
