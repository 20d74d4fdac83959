import BoilerplateApp.Handler
import BoilerplateApp.Lib.Transition

/-!
# Runs, and what they show on the outside

After a handler returns, `app_main` waits for the next command whether or not a review is still on
screen, so the host's commands and the user's actions come in any order. A run is a sequence of both
from the booted application.

The rest of the module says what a run means to the host and to the user, in terms of the commands,
the answers and the reviews only, never of the context: which commands open a session, which bytes
its message has, which review was shown last.
-/

namespace BoilerplateApp

open Transition

inductive Event where
  /-- Bytes from the host, as `apdu_parser` reads them. -/
  | apdu (parsed : Option Command)
  | user (action : UserAction)
  deriving DecidableEq

def Device.next (ui : Ui) (sdk : Sdk) (cx : Cx) (d : Device) : Event → Outcome
  | .apdu parsed => appMain ui sdk cx d parsed
  | .user action => userAct ui cx d action

def Device.answer (ui : Ui) (sdk : Sdk) (d : Device) (call : Cx × Event) : Outcome :=
  Device.next ui sdk call.1 d call.2

/-- The application on a device whose system calls are at each event among `calls`. -/
def app (ui : Ui) (sdk : Sdk) (calls : Cx → Prop) : System Device Event (List Effect) where
  initial := Device.boot
  Step d event d' effects := ∃ cx, calls cx ∧ Device.next ui sdk cx d event = some (d', effects)

abbrev Entry := Transition.Entry Device Event (List Effect)

/-! ### Commands -/

namespace Command

variable (cmd : Command)

def isSignTx : Prop := cmd.cla = BoilerplateApp.cla ∧ cmd.ins = insSignTx

/-- A SIGN_TX command with P1 = 0 that passes the dispatcher's checks. -/
def opensSession : Prop :=
  cmd.isSignTx ∧ cmd.p1 = p1Start ∧ cmd.p2 = p2More ∧ cmd.data ≠ none

/-- A SIGN_TX command with P1 in 1..3 that passes the dispatcher's checks. -/
def continuesSession : Prop :=
  cmd.isSignTx ∧ (1 ≤ cmd.p1 ∧ cmd.p1 ≤ p1Max) ∧ (cmd.p2 = p2Last ∨ cmd.p2 = p2More)
    ∧ cmd.data ≠ none

/-- A GET_PUBLIC_KEY command that passes the dispatcher's checks. -/
def requestsKey : Prop :=
  cmd.cla = BoilerplateApp.cla ∧ cmd.ins = insGetPublicKey ∧ cmd.p1 ≤ 1 ∧ cmd.p2 = 0
    ∧ cmd.data ≠ none

/-- A SIGN_TX command with P1 in 1..3, whether or not it passes the dispatcher's checks. -/
def isChunk : Prop := cmd.isSignTx ∧ 1 ≤ cmd.p1 ∧ cmd.p1 ≤ p1Max

instance : Decidable cmd.isSignTx := inferInstanceAs (Decidable (_ ∧ _))
instance : Decidable cmd.opensSession := inferInstanceAs (Decidable (_ ∧ _))
instance : Decidable cmd.continuesSession := inferInstanceAs (Decidable (_ ∧ _))
instance : Decidable cmd.requestsKey := inferInstanceAs (Decidable (_ ∧ _))
instance : Decidable cmd.isChunk := inferInstanceAs (Decidable (_ ∧ _))

/-- The path that data carry: a count from 1 to `MAX_BIP32_PATH` and as many big-endian words. -/
def carriedPath (data : List UInt8) : Option (List UInt32) :=
  match data with
  | [] => none
  | n :: rest =>
      if 0 < n.toNat ∧ n.toNat ≤ maxBip32Path ∧ 4 * n.toNat ≤ rest.length then
        some (words n.toNat rest)
      else none

end Command

/-! ### The user -/

def Screen.reviewsTransaction : Screen → Prop
  | .transactionFlow | .transactionStart | .transactionReview | .transactionRejection _ => True
  | _ => False

def ActionValidateCb.request : ActionValidateCb → RequestType
  | .uiActionValidatePubkey => .confirmAddress
  | .uiActionValidateTransaction => .confirmTransaction

/-- The decision an action of the user makes: whether `validate_pubkey` or `validate_transaction` is
called, and with which choice. -/
def Device.decides (ui : Ui) (d : Device) (action : UserAction) : Option (RequestType × Bool) :=
  match ui, d.screen, action with
  | .bagl, .pubkeyFlow, .approve | .bagl, .transactionFlow, .approve =>
      d.gValidateCallback.map fun callback => (callback.request, true)
  | .bagl, .pubkeyFlow, .reject | .bagl, .transactionFlow, .reject =>
      d.gValidateCallback.map fun callback => (callback.request, false)
  | .nbgl, .addressConfirmation, .approve => some (.confirmAddress, true)
  | .nbgl, .addressStart, .reject | .nbgl, .addressConfirmation, .reject =>
      some (.confirmAddress, false)
  | .nbgl, .transactionReview, .approve => some (.confirmTransaction, true)
  | .nbgl, .transactionRejection _, .confirmRejection => some (.confirmTransaction, false)
  | _, _, _ => none

/-! ### Entries of a run -/

/-- The command of an event, if it is one that `apdu_parser` accepts. -/
def Event.command : Event → Option Command
  | .apdu parsed => parsed
  | .user _ => none

def answers (effects : List Effect) : List UInt16 :=
  effects.filterMap fun
    | .send sw _ => some sw
    | _ => none

namespace Trace

def commands (p : Command → Prop) [DecidablePred p] (e : Entry) : Bool :=
  match e.event.command with
  | none => false
  | some cmd => decide (p cmd)

/-- A dispatched SIGN_TX with P1 = 0. -/
def opens (e : Entry) : Bool := commands Command.opensSession e

def requests (e : Entry) : Bool := commands Command.requestsKey e

/-- One of the two commands that wipe the context. -/
def wipes (e : Entry) : Bool := opens e || requests e

/-- A dispatched SIGN_TX with P1 = 0 that was answered `SW_OK`. -/
def opensWell (e : Entry) : Bool := opens e && decide (answers e.output = [swOk])

def reviews (e : Entry) : Bool := decide (Effect.startReview .confirmTransaction ∈ e.output)

/-- The words with which a chunk is refused before its data are looked at. -/
def refusals : List UInt16 := [swWrongP1P2, swWrongDataLength, swBadState, swWrongTxLength]

def refused (effects : List Effect) : Bool := (answers effects).any fun sw => refusals.contains sw

/-- The data that a command adds to the message: those of a SIGN_TX with P1 in 1..3 that is not
refused. -/
def added (e : Entry) : List UInt8 :=
  match e.event.command with
  | none => []
  | some cmd => if cmd.isChunk ∧ refused e.output = false then cmd.data.getD [] else []

def refuses (e : Entry) : Bool := commands Command.isChunk e && refused e.output

/-- A SIGN_TX with P1 in 1..3 that is not refused, but answered with another word than `SW_OK`: the
message does not parse, or it cannot be hashed or shown. -/
def fails (e : Entry) : Bool :=
  commands Command.isChunk e
    && (answers e.output).any fun sw => !refusals.contains sw && decide (sw ≠ swOk)

/-- The message of the current session, in order of arrival. The trace has its newest entry first,
so what came since the last opening command is what stands before it. -/
def message (trace : List Entry) : List UInt8 :=
  ((trace.takeWhile fun e => !opens e).reverse).flatMap added

def lastWipe (trace : List Entry) : Option Entry := trace.find? wipes

def carries (e : Entry) : Option (List UInt32) :=
  if opens e then (e.event.command.bind (·.data)).bind Command.carriedPath else none

/-- The path of the current session: the one its opening command carried, if that was answered
`SW_OK` and no GET_PUBLIC_KEY came since. -/
def sessionPath (trace : List Entry) : Option (List UInt32) :=
  match lastWipe trace with
  | none => none
  | some e => if opensWell e then carries e else none

def decision (ui : Ui) (e : Entry) : Option Bool :=
  match e.event with
  | .apdu _ => none
  | .user action =>
      match e.before.decides ui action with
      | some (.confirmTransaction, choice) => some choice
      | _ => none

def atReview : List Entry → Prop
  | [] => False
  | e :: _ => reviews e = true

/-- The run up to and including the start of the last transaction review. -/
def lastReview (trace : List Entry) : List Entry := trace.dropWhile fun e => !reviews e

/-- The run since the start of the last transaction review. -/
def sinceReview (trace : List Entry) : List Entry := trace.takeWhile fun e => !reviews e

end Trace

end BoilerplateApp
