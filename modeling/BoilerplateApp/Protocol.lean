import BoilerplateApp.Run

/-!
# The application as its host sees it

What a command is answered depends on two things besides the command: the message of the session, if
there is one, and the review that waits for the user. This module is an abstract machine with these
two as its state; it knows no context, no screens and no handlers. A command passes four gates, the
same for all instructions, before it asks for anything. What the device's system calls return is
left open, so the machine may answer in more than one way where a call can fail.
-/

namespace BoilerplateApp.Protocol

/-! ### Commands -/

/-- What a command asks for. -/
inductive Request where
  | refused (sw : UInt16)
  | report
  | key (path : Option (List UInt32)) (display : Bool)
  | opening (path : Option (List UInt32))
  | chunk (data : List UInt8) (last : Bool)
  deriving DecidableEq

def instructions : List UInt8 := [insGetVersion, insGetAppName, insGetPublicKey, insSignTx]

/-- The parameters that an instruction allows. -/
def allows (ins p1 p2 : UInt8) : Bool :=
  if ins = insGetPublicKey then decide (p1 ≤ 1 ∧ p2 = 0)
  else if ins = insSignTx then
    decide (p1 = p1Start ∧ p2 = p2More
      ∨ (1 ≤ p1 ∧ p1 ≤ p1Max) ∧ (p2 = p2Last ∨ p2 = p2More))
  else decide (p1 = 0 ∧ p2 = 0)

def needsData (ins : UInt8) : Bool := decide (ins = insGetPublicKey ∨ ins = insSignTx)

/-- The gates: class, instruction, parameters and data. -/
def refusal (cmd : Command) : Option UInt16 :=
  if cmd.cla ≠ cla then some swClaNotSupported
  else if cmd.ins ∉ instructions then some swInsNotSupported
  else if !allows cmd.ins cmd.p1 cmd.p2 then some swWrongP1P2
  else if needsData cmd.ins ∧ cmd.data = none then some swWrongDataLength
  else none

/-- A command behind the gates. -/
def passed (cmd : Command) : Request :=
  let data := cmd.data.getD []
  if cmd.ins = insGetPublicKey then .key (Command.carriedPath data) (decide (cmd.p1 ≠ 0))
  else if cmd.ins = insSignTx then
    if cmd.p1 = p1Start then .opening (Command.carriedPath data)
    else .chunk data (decide (cmd.p2 = p2Last))
  else .report

/-- `none` is an APDU that does not parse. -/
def request : Option Command → Request
  | none => .refused swWrongDataLength
  | some cmd =>
      match refusal cmd with
      | some sw => .refused sw
      | none => passed cmd

/-! ### Messages -/

/-- The messages that are taken for a transaction: a header, a length and as many characters of
ASCII; a header alone is taken too. -/
def wellFormed (message : List UInt8) : Bool :=
  decide (message.length ≤ maxTxLen) && decide (36 ≤ message.length)
    && match CompactSize.decode (message.drop 36) with
      | none => decide (message.length = 36)
      | some (memoLen, used) => decide (36 + used + memoLen = message.length)
          && (message.drop (36 + used)).all fun b => decide (b ≤ 0x7F)

/-! ### The machine -/

structure Session where
  message : Option (List UInt8)
  pending : Option RequestType
  deriving DecidableEq

inductive Input where
  | command (parsed : Option Command)
  | decision (choice : Bool)
  deriving DecidableEq

inductive Answer where
  | word (sw : UInt16)
  | review (request : RequestType)
  deriving DecidableEq

/-- What the system calls of an event return, as far as it decides the answer. -/
structure Results where
  derivation : UInt32
  address : Bool
  hash : Bool
  signature : Bool
  deriving DecidableEq

def Results.success : Results := ⟨cxOk, true, true, true⟩

section Answer

variable (r : Results) (s : Session)

def keyAnswer (path : Option (List UInt32)) (display : Bool) : Session × Answer :=
  match path with
  | none => (s, .word swWrongDataLength)
  | some path =>
      if r.derivation ≠ cxOk then (s, .word r.derivation.toUInt16)
      else if !display then (s, .word swOk)
      else if 60 ≤ (pathText path).length then (s, .word swDisplayBip32PathFail)
      else if !r.address then (s, .word swDisplayAddressFail)
      else ({ s with pending := some .confirmAddress }, .review .confirmAddress)

def messageAnswer (message : List UInt8) (last : Bool) : Session × Answer :=
  let s := { s with message := some message }
  if !last then (s, .word swOk)
  else if !wellFormed message then (s, .word swTxParsingFail)
  else if !r.hash then (s, .word swTxHashFail)
  else ({ s with pending := some .confirmTransaction }, .review .confirmTransaction)

def requestAnswer : Request → Session × Answer
  | .refused sw => (s, .word sw)
  | .report => (s, .word swOk)
  | .key path display => keyAnswer r { s with message := none } path display
  -- a session is opened even when its path is refused
  | .opening path =>
      ({ s with message := some [] },
        .word (if path.isSome then swOk else swWrongDataLength))
  | .chunk data last =>
      match s.message with
      | none => (s, .word swBadState)
      | some message =>
          if maxTransactionLen < message.length + data.length then (s, .word swWrongTxLength)
          else messageAnswer r s (message ++ data) last

def decisionWord (request : RequestType) (choice : Bool) : UInt16 :=
  match request, choice with
  | _, false => swDeny
  | .confirmAddress, true => swOk
  | .confirmTransaction, true => if r.signature then swOk else swSignatureFail

/-- There is something to decide while a review is pending. -/
def answer : Input → Option (Session × Answer)
  | .command parsed => some (requestAnswer r s (request parsed))
  | .decision choice => s.pending.map fun request =>
      ({ s with pending := none }, .word (decisionWord r request choice))

end Answer

/-- The results that the calls `cx` can have. -/
structure Results.Of (cx : Cx) (r : Results) : Prop where
  derivation : r.derivation = cxOk
    ∨ ∃ path len, (cx.bip32DeriveGetPubkey256 path len).1 = r.derivation
  hashes : r.address = false ∨ r.hash = false →
    cx.cxKeccakInitNoThrow ≠ cxOk ∨ ∃ message, (cx.cxHashNoThrow message).1 ≠ cxOk
  signature : r.signature = false →
    ∃ path len hash, (cx.bip32DeriveEcdsaSignHash256 path len hash).error ≠ cxOk

/-- The machine on a device whose system calls are at each event among `calls`. -/
def protocol (calls : Cx → Prop) : Transition.System Session Input Answer where
  initial := ⟨none, none⟩
  Step s input s' output := ∃ cx r, calls cx ∧ r.Of cx ∧ answer r s input = some (s', output)

/-! ### What the host hears -/

def heard (e : Transition.Entry Session Input Answer) : Option (Input × List Answer) :=
  some (e.event, [e.output])

/-- The user's decisions are input, the other touches are not. -/
def input (ui : Ui) (d : Device) : Event → Option Input
  | .apdu parsed => some (.command parsed)
  | .user action => (d.decides ui action).map fun decision => .decision decision.2

def toAnswers (effects : List Effect) : List Answer :=
  effects.filterMap fun
    | .send sw _ => some (.word sw)
    | .startReview request => some (.review request)
    | .sign _ _ _ => none

/-- What the host hears of an entry of the application. -/
def heardFrom (ui : Ui) (e : Entry) : Option (Input × List Answer) :=
  (input ui e.before e.event).map fun i => (i, toAnswers e.output)

end BoilerplateApp.Protocol
