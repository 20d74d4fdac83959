import BoilerplateApp.Display

/-!
# Handlers and dispatcher

`handler_*.c`, `dispatcher.c` and the body of the loop of `app_main.c`.
-/

namespace BoilerplateApp

section Handlers

variable (ui : Ui) (sdk : Sdk) (cx : Cx)

/-- `MAJOR_VERSION`, `MINOR_VERSION`, `PATCH_VERSION` of the Makefile -/
def appVersion : List UInt8 := [2, 0, 0]

/-- `APPNAME` of the Makefile, `"Boilerplate"` in ASCII -/
def appName : List UInt8 := [66, 111, 105, 108, 101, 114, 112, 108, 97, 116, 101]

def handlerGetVersion (d : Device) : Outcome := ioSendResponsePointer d appVersion swOk

def handlerGetAppName (d : Device) : Outcome := ioSendResponsePointer d appName swOk

/-- `buffer_read_u8(cdata, &G_context.bip32_path_len) && buffer_read_bip32_path(…)`, the test that
both handlers start with: whether the path was read, and the context with what was written. -/
def readBip32Path (ctx : GlobalCtx) (cdata : Buffer) : Bool × GlobalCtx :=
  let (ok, len, cdata) := sdk.bufferReadU8 cdata
  let ctx := { ctx with bip32PathLen := len }
  if !ok then (false, ctx)
  else
    let (ok, path, _) := sdk.bufferReadBip32Path cdata ctx.bip32Path ctx.bip32PathLen.toNat
    (ok, { ctx with bip32Path := path })

def handlerGetPublicKey (d : Device) (cdata : Buffer) (display : Bool) : Outcome :=
  let ctx := { GlobalCtx.zero with reqType := .confirmAddress, state := .none }
  let (ok, ctx) := readBip32Path sdk ctx cdata
  let d := { d with gContext := ctx }
  if !ok then ioSendSw d swWrongDataLength
  else
    let (error, pk) := cx.bip32DeriveGetPubkey256 ctx.bip32Path ctx.bip32PathLen
    let d := { d with gContext := ctx.setPkInfo pk }
    -- the 32-bit error is passed as a 16-bit status word
    if error ≠ cxOk then ioSendSw d error.toUInt16
    else if display then uiDisplayAddress ui sdk cx d
    else helperSendResponsePubkey d

/-- The part of `handler_sign_tx` after the last chunk is in the buffer. -/
def reviewRawTx (d : Device) : Outcome :=
  let tx := d.gContext.txInfo
  match transactionDeserialize sdk ⟨tx.rawTx.toList, tx.rawTxLen, 0⟩ tx.transaction with
  | none => none
  | some (status, _, transaction) =>
      let d := { d with gContext.txInfo.transaction := transaction }
      if status ≠ .parsingOk then ioSendSw d swTxParsingFail
      else
        let d := { d with gContext.state := .parsed }
        if cx.cxKeccakInitNoThrow ≠ cxOk then ioSendSw d swTxHashFail
        else
          let (error, hash) := cx.cxHashNoThrow (tx.rawTx.toList.take tx.rawTxLen)
          let d := { d with gContext.txInfo.mHash := hash }
          if error ≠ cxOk then ioSendSw d swTxHashFail
          else uiDisplayTransaction ui sdk d

def handlerSignTx (d : Device) (cdata : Buffer) (chunk : UInt8) (more : Bool) : Outcome :=
  if chunk = 0 then
    -- first APDU, parse BIP32 path
    let ctx := { GlobalCtx.zero with reqType := .confirmTransaction, state := .none }
    let (ok, ctx) := readBip32Path sdk ctx cdata
    let d := { d with gContext := ctx }
    if !ok then ioSendSw d swWrongDataLength else ioSendSw d swOk
  else
    -- parse transaction
    let tx := d.gContext.txInfo
    if d.gContext.reqType ≠ .confirmTransaction then ioSendSw d swBadState
    else if tx.rawTxLen + cdata.size > maxTransactionLen then ioSendSw d swWrongTxLength
    else
      let (ok, moved, _) := sdk.bufferMove cdata cdata.size
      if !ok then ioSendSw d swTxParsingFail
      else
        match Region.write tx.rawTx tx.rawTxLen moved with
        | none => none
        | some rawTx =>
            let d := { d with
              gContext.txInfo.rawTx := rawTx
              gContext.txInfo.rawTxLen := tx.rawTxLen + cdata.size }
            if more then ioSendSw d swOk else reviewRawTx ui sdk cx d

def apduDispatcher (d : Device) (cmd : Command) : Outcome :=
  if cmd.cla ≠ cla then ioSendSw d swClaNotSupported
  else if cmd.ins = insGetVersion then
    if cmd.p1 ≠ 0 ∨ cmd.p2 ≠ 0 then ioSendSw d swWrongP1P2 else handlerGetVersion d
  else if cmd.ins = insGetAppName then
    if cmd.p1 ≠ 0 ∨ cmd.p2 ≠ 0 then ioSendSw d swWrongP1P2 else handlerGetAppName d
  else if cmd.ins = insGetPublicKey then
    if cmd.p1 > 1 ∨ cmd.p2 > 0 then ioSendSw d swWrongP1P2
    else
      match cmd.data with
      | none => ioSendSw d swWrongDataLength
      | some data =>
          handlerGetPublicKey ui sdk cx d ⟨data, cmd.lc.toNat, 0⟩ (decide (cmd.p1 ≠ 0))
  else if cmd.ins = insSignTx then
    if (cmd.p1 = p1Start ∧ cmd.p2 ≠ p2More) ∨ cmd.p1 > p1Max
        ∨ (cmd.p2 ≠ p2Last ∧ cmd.p2 ≠ p2More) then ioSendSw d swWrongP1P2
    else
      match cmd.data with
      | none => ioSendSw d swWrongDataLength
      | some data =>
          handlerSignTx ui sdk cx d ⟨data, cmd.lc.toNat, 0⟩ cmd.p1
            (decide (cmd.p2 &&& p2More ≠ 0))
  else ioSendSw d swInsNotSupported

/-- One turn of the loop of `app_main` with what `apdu_parser` makes of the bytes received: `none`
when it refuses them. -/
def appMain (d : Device) (parsed : Option Command) : Outcome :=
  match parsed with
  | none => ioSendSw d swWrongDataLength
  | some cmd => apduDispatcher ui sdk cx d cmd

end Handlers

end BoilerplateApp
