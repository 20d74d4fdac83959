import BoilerplateApp.Run

/-!
# What one event can do

`Happens` lists what an event can do to the device, one case for each way through the dispatcher,
the handlers and the two interfaces, and `next_happens` says that the list is complete. Everything
that is proved about runs is proved from this list.
-/

namespace BoilerplateApp

/-! ### The commands exclude each other -/

section Commands

variable {cmd : Command}

theorem Command.continuesSession.not_opens (h : cmd.continuesSession) : ¬cmd.opensSession := by
  rintro ⟨-, hp1, -⟩
  exact absurd h.2.1.1 (by rw [hp1]; decide)

theorem Command.continuesSession.not_requests (h : cmd.continuesSession) : ¬cmd.requestsKey :=
  fun hr => absurd (h.1.2.symm.trans hr.2.1) (by decide)

theorem Command.continuesSession.p1_ne_zero (h : cmd.continuesSession) : cmd.p1 ≠ 0 := by
  intro hzero
  exact absurd h.2.1.1 (by rw [hzero]; decide)

theorem Command.continuesSession.isChunk (h : cmd.continuesSession) : cmd.isChunk :=
  ⟨h.1, h.2.1⟩

theorem Command.opensSession.not_requests (h : cmd.opensSession) : ¬cmd.requestsKey :=
  fun hr => absurd (h.1.2.symm.trans hr.2.1) (by decide)

theorem Command.opensSession.not_isChunk (h : cmd.opensSession) : ¬cmd.isChunk := by
  rintro ⟨-, hp1, -⟩
  exact absurd hp1 (by rw [h.2.1]; decide)

theorem Command.requestsKey.not_opens (h : cmd.requestsKey) : ¬cmd.opensSession :=
  fun ho => ho.not_requests h

theorem Command.requestsKey.not_isChunk (h : cmd.requestsKey) : ¬cmd.isChunk :=
  fun hc => absurd (hc.1.2.symm.trans h.2.1) (by decide)

theorem not_requestsKey_of_parameters (hp : cmd.p1 > 1 ∨ cmd.p2 > 0) : ¬cmd.requestsKey := by
  rintro ⟨-, -, hp1, hp2, -⟩
  rcases hp with hlarge | hpos
  · exact absurd hlarge (UInt8.not_lt.mpr hp1)
  · rw [hp2] at hpos
    exact absurd hpos (by decide)

theorem requestsKey_of_parameters (hcla : cmd.cla = cla) (hins : cmd.ins = insGetPublicKey)
    (hp : ¬(cmd.p1 > 1 ∨ cmd.p2 > 0)) (hdata : cmd.data ≠ none) : cmd.requestsKey := by
  rw [not_or] at hp
  have hp2 : cmd.p2 = 0 := UInt8.le_antisymm (UInt8.not_lt.mp hp.2) UInt8.zero_le
  exact ⟨hcla, hins, UInt8.not_lt.mp hp.1, hp2, hdata⟩

theorem signTx_of_parameters (hs : cmd.isSignTx) (hp : ¬((cmd.p1 = p1Start ∧ cmd.p2 ≠ p2More)
    ∨ cmd.p1 > p1Max ∨ (cmd.p2 ≠ p2Last ∧ cmd.p2 ≠ p2More))) (hdata : cmd.data ≠ none) :
    cmd.opensSession ∨ cmd.continuesSession := by
  rw [not_or, not_or] at hp
  by_cases hstart : cmd.p1 = p1Start
  · left
    have hmore : cmd.p2 = p2More := by
      by_contra hmore
      exact hp.1 ⟨hstart, hmore⟩
    exact ⟨hs, hstart, hmore, hdata⟩
  · right
    have hpos : 1 ≤ cmd.p1 := by
      rw [UInt8.le_iff_toNat_le]
      exact Nat.pos_of_ne_zero fun hzero => hstart (UInt8.toNat_inj.mp hzero)
    have hp2 : cmd.p2 = p2Last ∨ cmd.p2 = p2More := by
      by_contra hp2
      exact hp.2.2 (not_or.mp hp2)
    exact ⟨hs, ⟨hpos, UInt8.not_lt.mp hp.2.1⟩, hp2, hdata⟩

theorem not_signTx_of_parameters (hp : (cmd.p1 = p1Start ∧ cmd.p2 ≠ p2More) ∨ cmd.p1 > p1Max
    ∨ (cmd.p2 ≠ p2Last ∧ cmd.p2 ≠ p2More)) : ¬(cmd.opensSession ∨ cmd.continuesSession) := by
  rintro (⟨-, hp1, hp2, -⟩ | ⟨-, ⟨hpos, hmax⟩, hp2, -⟩)
  · rw [hp1, hp2] at hp
    exact absurd hp (by decide)
  · rcases hp with ⟨hstart, -⟩ | hlarge | ⟨hlast, hmore⟩
    · rw [hstart] at hpos
      exact absurd hpos (by decide)
    · exact absurd hlarge (UInt8.not_lt.mpr hmax)
    · exact hp2.elim hlast hmore

end Commands

/-- A SIGN_TX command with P1 in 1..3 whose data are copied behind the bytes received so far. -/
structure Stores (sdk : Sdk) (d : Device) (cmd : Command) (data : List UInt8) (d₁ : Device) :
    Prop where
  continues : cmd.continuesSession
  data_eq : cmd.data = some data
  reqType : d.gContext.reqType = .confirmTransaction
  fits : d.gContext.txInfo.rawTxLen + cmd.lc.toNat ≤ maxTransactionLen
  moved : (sdk.bufferMove ⟨data, cmd.lc.toNat, 0⟩ cmd.lc.toNat).1 = true
  written : ∃ rawTx, Region.write d.gContext.txInfo.rawTx d.gContext.txInfo.rawTxLen
      (sdk.bufferMove ⟨data, cmd.lc.toNat, 0⟩ cmd.lc.toNat).2.1 = some rawTx
    ∧ d₁ = { d with
        gContext.txInfo.rawTx := rawTx
        gContext.txInfo.rawTxLen := d.gContext.txInfo.rawTxLen + cmd.lc.toNat }

def Device.deserialized (sdk : Sdk) (d : Device) : Option (ParserStatus × Buffer × Transaction) :=
  transactionDeserialize sdk ⟨d.gContext.txInfo.rawTx.toList, d.gContext.txInfo.rawTxLen, 0⟩
    d.gContext.txInfo.transaction

/-- The device when the parser has accepted the bytes received, with the hash then in `m_hash`. -/
def Device.parsed (d : Device) (tx : Transaction) (hash : Bytes 32) : Device :=
  { d with
    gContext.state := .parsed
    gContext.txInfo.transaction := tx
    gContext.txInfo.mHash := hash }

def Device.hashed (cx : Cx) (d : Device) : UInt32 × Bytes 32 :=
  cx.cxHashNoThrow d.gContext.txInfo.received

def GlobalCtx.fresh (request : RequestType) : GlobalCtx :=
  { GlobalCtx.zero with reqType := request, state := .none }

def Device.showing (ui : Ui) (d : Device) (request : RequestType) : Device :=
  match ui, request with
  | .bagl, .confirmAddress =>
      { d with gValidateCallback := some .uiActionValidatePubkey, screen := .pubkeyFlow }
  | .bagl, .confirmTransaction =>
      { d with gValidateCallback := some .uiActionValidateTransaction, screen := .transactionFlow }
  | .nbgl, .confirmAddress => { d with screen := .addressStart }
  | .nbgl, .confirmTransaction => { d with screen := .transactionStart }

/-- The device when the bytes received are parsed, hashed and shown for review. -/
def Device.reviewing (ui : Ui) (sdk : Sdk) (d : Device) (tx : Transaction) (hash : Bytes 32) :
    Device :=
  Device.showing ui
    { d.parsed tx hash with
      gAmount := amountText (sdk.formatFpu64 30 tx.value exponentSmallestUnit).2
      gAddress := addressText sdk
        ((d.gContext.txInfo.rawTx.toList.drop tx.toAddr).take addressLen) }
    .confirmTransaction

section Reviewing

variable (ui : Ui) (sdk : Sdk) (d : Device) (tx : Transaction) (hash : Bytes 32)

@[simp] theorem Device.reviewing_gContext :
    (d.reviewing ui sdk tx hash).gContext = (d.parsed tx hash).gContext := by
  cases ui <;> rfl

@[simp] theorem Device.reviewing_gAmount : (d.reviewing ui sdk tx hash).gAmount
    = amountText (sdk.formatFpu64 30 tx.value exponentSmallestUnit).2 := by
  cases ui <;> rfl

@[simp] theorem Device.reviewing_gAddress : (d.reviewing ui sdk tx hash).gAddress
    = addressText sdk ((d.gContext.txInfo.rawTx.toList.drop tx.toAddr).take addressLen) := by
  cases ui <;> rfl

end Reviewing

/-- What an event can do. The cases of a chunk start from the device `d₁` in which its data are
stored. -/
inductive Happens (ui : Ui) (sdk : Sdk) (cx : Cx) (d : Device) :
    Event → Device → List Effect → Prop
  /-- Refused before any handler, or one of the two commands that only report. -/
  | outside {parsed : Option Command} (sw : UInt16) (data : List UInt8)
      (hcmd : ∀ cmd ∈ parsed,
        ¬cmd.opensSession ∧ ¬cmd.continuesSession ∧ ¬cmd.requestsKey
          ∧ (cmd.isChunk → sw = swWrongP1P2 ∨ sw = swWrongDataLength)) :
      Happens ui sdk cx d (.apdu parsed) d [.send sw data]
  | opened {cmd : Command} {data : List UInt8} (hcmd : cmd.opensSession)
      (hdata : cmd.data = some data) {ok : Bool} {ctx : GlobalCtx}
      (hpath : readBip32Path sdk (.fresh .confirmTransaction) ⟨data, cmd.lc.toNat, 0⟩ = (ok, ctx)) :
      Happens ui sdk cx d (.apdu (some cmd)) { d with gContext := ctx }
        [.send (if ok then swOk else swWrongDataLength) []]
  | requested {cmd : Command} {data : List UInt8} (hcmd : cmd.requestsKey)
      (hdata : cmd.data = some data) {d' : Device} {effects : List Effect}
      (hrun : handlerGetPublicKey ui sdk cx d ⟨data, cmd.lc.toNat, 0⟩ (decide (cmd.p1 ≠ 0))
        = some (d', effects)) :
      Happens ui sdk cx d (.apdu (some cmd)) d' effects
  /-- A chunk outside a session. -/
  | badState {cmd : Command} (hcmd : cmd.continuesSession)
      (hreq : d.gContext.reqType ≠ .confirmTransaction) :
      Happens ui sdk cx d (.apdu (some cmd)) d [.send swBadState []]
  | wrongTxLength {cmd : Command} (hcmd : cmd.continuesSession)
      (hreq : d.gContext.reqType = .confirmTransaction)
      (hlong : maxTransactionLen < d.gContext.txInfo.rawTxLen + cmd.lc.toNat) :
      Happens ui sdk cx d (.apdu (some cmd)) d [.send swWrongTxLength []]
  /-- A chunk that the SDK does not copy. -/
  | unmoved {cmd : Command} {data : List UInt8} (hcmd : cmd.continuesSession)
      (hdata : cmd.data = some data) (hreq : d.gContext.reqType = .confirmTransaction)
      (hmove : (sdk.bufferMove ⟨data, cmd.lc.toNat, 0⟩ cmd.lc.toNat).1 = false) :
      Happens ui sdk cx d (.apdu (some cmd)) d [.send swTxParsingFail []]
  | stored {cmd : Command} {data : List UInt8} {d₁ : Device} (hstores : Stores sdk d cmd data d₁)
      (hmore : cmd.p2 = p2More) :
      Happens ui sdk cx d (.apdu (some cmd)) d₁ [.send swOk []]
  | parsingFail {cmd : Command} {data : List UInt8} {d₁ : Device}
      (hstores : Stores sdk d cmd data d₁) (hlast : cmd.p2 = p2Last) {status : ParserStatus}
      {buf : Buffer} {tx : Transaction} (hparse : d₁.deserialized sdk = some (status, buf, tx))
      (hstatus : status ≠ .parsingOk) :
      Happens ui sdk cx d (.apdu (some cmd)) { d₁ with gContext.txInfo.transaction := tx }
        [.send swTxParsingFail []]
  | hashFail {cmd : Command} {data : List UInt8} {d₁ : Device}
      (hstores : Stores sdk d cmd data d₁) (hlast : cmd.p2 = p2Last) {buf : Buffer}
      {tx : Transaction} (hparse : d₁.deserialized sdk = some (.parsingOk, buf, tx))
      (hash : Bytes 32) (hhash : cx.cxKeccakInitNoThrow ≠ cxOk ∨ (d₁.hashed cx).1 ≠ cxOk) :
      Happens ui sdk cx d (.apdu (some cmd)) (d₁.parsed tx hash) [.send swTxHashFail []]
  | amountFail {cmd : Command} {data : List UInt8} {d₁ : Device}
      (hstores : Stores sdk d cmd data d₁) (hlast : cmd.p2 = p2Last) {buf : Buffer}
      {tx : Transaction} (hparse : d₁.deserialized sdk = some (.parsingOk, buf, tx))
      (hhash : cx.cxKeccakInitNoThrow = cxOk ∧ (d₁.hashed cx).1 = cxOk)
      (hamount : (sdk.formatFpu64 30 tx.value exponentSmallestUnit).1 = false) :
      Happens ui sdk cx d (.apdu (some cmd))
        { d₁.parsed tx (d₁.hashed cx).2 with gAmount := [] } [.send swDisplayAmountFail []]
  /-- A last chunk after which the message is reviewed. -/
  | reviewed {cmd : Command} {data : List UInt8} {d₁ : Device}
      (hstores : Stores sdk d cmd data d₁) (hlast : cmd.p2 = p2Last) {buf : Buffer}
      {tx : Transaction} (hparse : d₁.deserialized sdk = some (.parsingOk, buf, tx))
      (hhash : cx.cxKeccakInitNoThrow = cxOk ∧ (d₁.hashed cx).1 = cxOk)
      (hamount : (sdk.formatFpu64 30 tx.value exponentSmallestUnit).1 = true) :
      Happens ui sdk cx d (.apdu (some cmd)) (d₁.reviewing ui sdk tx (d₁.hashed cx).2)
        [.startReview .confirmTransaction]
  /-- The user moves between the screens of a review, closes a page, or does what the screen does
  not react to. -/
  | moved {action : UserAction} (hdecides : d.decides ui action = none) (screen : Screen)
      (hscreen : screen.reviewsTransaction → d.screen.reviewsTransaction)
      (hflow : screen = d.screen ∨ screen ≠ .pubkeyFlow ∧ screen ≠ .transactionFlow ∨ ui = .nbgl) :
      Happens ui sdk cx d (.user action) { d with screen := screen } []
  | decidedPubkey {action : UserAction} {choice : Bool}
      (hdecides : d.decides ui action = some (.confirmAddress, choice)) {d₁ : Device}
      {effects : List Effect} (hvalidate : validatePubkey d choice = some (d₁, effects))
      (screen : Screen) (hscreen : screen = .menu ∨ screen = .status) :
      Happens ui sdk cx d (.user action) { d₁ with screen := screen } effects
  | decidedTransaction {action : UserAction} {choice : Bool}
      (hdecides : d.decides ui action = some (.confirmTransaction, choice)) {d₁ : Device}
      {effects : List Effect} (hvalidate : validateTransaction cx d choice = some (d₁, effects))
      (screen : Screen) (hscreen : screen = .menu ∨ screen = .status) :
      Happens ui sdk cx d (.user action) { d₁ with screen := screen } effects

/-! ### The list is complete -/

section Complete

variable {ui : Ui} {sdk : Sdk} {cx : Cx} {d d' : Device} {effects : List Effect}

theorem uiDisplayTransaction_formats (ui : Ui) (sdk : Sdk) :
    ∃ start, ∀ d, uiDisplayTransaction ui sdk d = formatTransaction sdk start d := by
  cases ui with
  | bagl => exact ⟨_, fun d => by rw [uiDisplayTransaction, Bagl.uiDisplayTransaction]⟩
  | nbgl => exact ⟨_, fun d => by rw [uiDisplayTransaction, Nbgl.uiDisplayTransaction]⟩

theorem uiDisplayTransaction_eq (ui : Ui) (sdk : Sdk)
    (hreq : d.gContext.reqType = .confirmTransaction)
    (tx : Transaction) (hash : Bytes 32) :
    uiDisplayTransaction ui sdk (d.parsed tx hash) =
      if (sdk.formatFpu64 30 tx.value exponentSmallestUnit).1 = false then
        some ({ d.parsed tx hash with gAmount := [] }, [.send swDisplayAmountFail []])
      else some (d.reviewing ui sdk tx hash, [.startReview .confirmTransaction]) := by
  rcases hamount : sdk.formatFpu64 30 tx.value exponentSmallestUnit with ⟨ok, amount⟩
  cases ui <;> cases ok <;>
    simp [uiDisplayTransaction, Bagl.uiDisplayTransaction, Nbgl.uiDisplayTransaction,
      formatTransaction, hreq, hamount, ioSendSw, Device.reviewing, Device.showing, Device.parsed]

theorem reviewRawTx_cases {d₁ : Device} (h : reviewRawTx ui sdk cx d₁ = some (d', effects)) :
    ∃ status buf tx, d₁.deserialized sdk = some (status, buf, tx)
      ∧ ((status ≠ .parsingOk ∧ d' = { d₁ with gContext.txInfo.transaction := tx }
          ∧ effects = [.send swTxParsingFail []])
        ∨ (status = .parsingOk
          ∧ (cx.cxKeccakInitNoThrow ≠ cxOk ∨ (d₁.hashed cx).1 ≠ cxOk)
          ∧ (∃ hash, d' = d₁.parsed tx hash) ∧ effects = [.send swTxHashFail []])
        ∨ (status = .parsingOk ∧ (cx.cxKeccakInitNoThrow = cxOk ∧ (d₁.hashed cx).1 = cxOk)
          ∧ uiDisplayTransaction ui sdk (d₁.parsed tx (d₁.hashed cx).2)
            = some (d', effects))) := by
  rw [reviewRawTx] at h
  split at h
  · cases h
  · next status buf tx hparse =>
      refine ⟨status, buf, tx, hparse, ?_⟩
      by_cases hstatus : status = .parsingOk
      swap
      · simp only [if_pos hstatus, ioSendSw, Option.some.injEq, Prod.mk.injEq] at h
        exact Or.inl ⟨hstatus, h.1.symm, h.2.symm⟩
      rw [if_neg (not_not.mpr hstatus)] at h
      by_cases hinit : cx.cxKeccakInitNoThrow = cxOk
      swap
      · simp only [if_pos hinit, ioSendSw, Option.some.injEq, Prod.mk.injEq] at h
        exact Or.inr (Or.inl ⟨hstatus, Or.inl hinit, ⟨_, h.1.symm⟩, h.2.symm⟩)
      rw [if_neg (not_not.mpr hinit)] at h
      by_cases hhash : (d₁.hashed cx).1 = cxOk
      · refine Or.inr (Or.inr ⟨hstatus, ⟨hinit, hhash⟩, ?_⟩)
        rw [← h]
        exact (if_neg (not_not.mpr hhash)).symm
      · refine Or.inr (Or.inl ⟨hstatus, Or.inr hhash, ?_⟩)
        have h' := (if_pos hhash).symm.trans h
        simp only [ioSendSw, Option.some.injEq, Prod.mk.injEq] at h'
        exact ⟨⟨_, h'.1.symm⟩, h'.2.symm⟩

theorem happens_last {cmd : Command} {data : List UInt8} {d₁ : Device}
    (hstores : Stores sdk d cmd data d₁) (hlast : cmd.p2 = p2Last)
    (h : reviewRawTx ui sdk cx d₁ = some (d', effects)) :
    Happens ui sdk cx d (.apdu (some cmd)) d' effects := by
  have hreq : d₁.gContext.reqType = .confirmTransaction := by
    obtain ⟨_, -, rfl⟩ := hstores.written
    exact hstores.reqType
  obtain ⟨status, buf, tx, hparse, hcase⟩ := reviewRawTx_cases h
  rcases hcase with ⟨hstatus, rfl, rfl⟩ | ⟨rfl, hhash, ⟨hash, rfl⟩, rfl⟩ | ⟨rfl, hhash, hdisplay⟩
  · exact .parsingFail hstores hlast hparse hstatus
  · exact .hashFail hstores hlast hparse hash hhash
  · rw [uiDisplayTransaction_eq ui sdk hreq] at hdisplay
    split at hdisplay
    · next hamount =>
        obtain ⟨rfl, rfl⟩ := Prod.mk.inj (Option.some.inj hdisplay)
        exact .amountFail hstores hlast hparse hhash hamount
    · next hamount =>
        obtain ⟨rfl, rfl⟩ := Prod.mk.inj (Option.some.inj hdisplay)
        exact .reviewed hstores hlast hparse hhash (by simpa using hamount)

theorem happens_continues {cmd : Command} {data : List UInt8} (hcmd : cmd.continuesSession)
    (hdata : cmd.data = some data)
    (h : handlerSignTx ui sdk cx d ⟨data, cmd.lc.toNat, 0⟩ cmd.p1
      (decide (cmd.p2 &&& p2More ≠ 0)) = some (d', effects)) :
    Happens ui sdk cx d (.apdu (some cmd)) d' effects := by
  rw [handlerSignTx, if_neg hcmd.p1_ne_zero] at h
  by_cases hreq : d.gContext.reqType = .confirmTransaction
  swap
  · simp only [if_pos hreq, ioSendSw, Option.some.injEq, Prod.mk.injEq] at h
    obtain ⟨rfl, rfl⟩ := h
    exact .badState hcmd hreq
  by_cases hfits : d.gContext.txInfo.rawTxLen + cmd.lc.toNat ≤ maxTransactionLen
  swap
  · have hlong := Nat.not_le.mp hfits
    simp only [if_neg (not_not.mpr hreq), if_pos hlong, ioSendSw, Option.some.injEq,
      Prod.mk.injEq] at h
    obtain ⟨rfl, rfl⟩ := h
    exact .wrongTxLength hcmd hreq hlong
  simp only [if_neg (not_not.mpr hreq), if_neg (Nat.not_lt.mpr hfits)] at h
  rcases hmove : sdk.bufferMove ⟨data, cmd.lc.toNat, 0⟩ cmd.lc.toNat with ⟨ok, moved, buf⟩
  cases ok with
  | false =>
      simp only [hmove, Bool.not_false, if_true, ioSendSw, Option.some.injEq, Prod.mk.injEq] at h
      obtain ⟨rfl, rfl⟩ := h
      exact .unmoved hcmd hdata hreq (by rw [hmove])
  | true =>
      simp only [hmove, Bool.not_true, Bool.false_eq_true, if_false] at h
      split at h
      · cases h
      · next rawTx hwrite =>
          have hstores : Stores sdk d cmd data _ :=
            ⟨hcmd, hdata, hreq, hfits, by rw [hmove], rawTx, by rw [hmove]; exact hwrite, rfl⟩
          rcases hcmd.2.2.1 with hp2 | hp2
          · rw [if_neg (by rw [hp2]; decide)] at h
            exact happens_last hstores hp2 h
          · rw [if_pos (by rw [hp2]; decide), ioSendSw] at h
            obtain ⟨rfl, rfl⟩ := Prod.mk.inj (Option.some.inj h)
            exact .stored hstores hp2

theorem happens_opens {cmd : Command} {data : List UInt8} (hcmd : cmd.opensSession)
    (hdata : cmd.data = some data) {more : Bool}
    (h : handlerSignTx ui sdk cx d ⟨data, cmd.lc.toNat, 0⟩ cmd.p1 more = some (d', effects)) :
    Happens ui sdk cx d (.apdu (some cmd)) d' effects := by
  have hp1 : cmd.p1 = 0 := hcmd.2.1
  rcases hpath : readBip32Path sdk (.fresh .confirmTransaction) ⟨data, cmd.lc.toNat, 0⟩
    with ⟨ok, ctx⟩
  have hpath' := hpath
  rw [GlobalCtx.fresh] at hpath'
  rw [handlerSignTx, if_pos hp1] at h
  simp only [hpath', ioSendSw] at h
  have hcase : Happens ui sdk cx d (.apdu (some cmd)) { d with gContext := ctx }
      [.send (if ok then swOk else swWrongDataLength) []] := .opened hcmd hdata hpath
  cases ok <;> simp only [Bool.not_true, Bool.not_false, Bool.false_eq_true, if_true, if_false,
    Option.some.injEq, Prod.mk.injEq] at h <;> obtain ⟨rfl, rfl⟩ := h <;> exact hcase

/-! ### The dispatcher -/

/-- Where the dispatcher sends a command, with what comes of it. -/
inductive Route (ui : Ui) (sdk : Sdk) (cx : Cx) (d : Device) (cmd : Command) : Outcome → Prop
  /-- A reply of the dispatcher itself, or of a command that only reports. -/
  | outside (hopens : ¬cmd.opensSession) (hcontinues : ¬cmd.continuesSession)
      (hrequests : ¬cmd.requestsKey) (sw : UInt16) (data : List UInt8)
      (hsign : cmd.isSignTx → sw = swWrongP1P2 ∨ sw = swWrongDataLength) :
      Route ui sdk cx d cmd (some (d, [.send sw data]))
  | getPublicKey (hcmd : cmd.requestsKey) {data : List UInt8} (hdata : cmd.data = some data) :
      Route ui sdk cx d cmd
        (handlerGetPublicKey ui sdk cx d ⟨data, cmd.lc.toNat, 0⟩ (decide (cmd.p1 ≠ 0)))
  | signTx (hcmd : cmd.opensSession ∨ cmd.continuesSession) {data : List UInt8}
      (hdata : cmd.data = some data) :
      Route ui sdk cx d cmd
        (handlerSignTx ui sdk cx d ⟨data, cmd.lc.toNat, 0⟩ cmd.p1
          (decide (cmd.p2 &&& p2More ≠ 0)))

theorem route_getPublicKey (ui : Ui) (sdk : Sdk) (cx : Cx) (d : Device) {cmd : Command}
    (hcla : cmd.cla = cla) (hins : cmd.ins = insGetPublicKey) :
    Route ui sdk cx d cmd (apduDispatcher ui sdk cx d cmd) := by
  have hsign : ¬cmd.isSignTx := fun hs => absurd (hins.symm.trans hs.2) (by decide)
  have houtside : ∀ sw data, ¬cmd.requestsKey → Route ui sdk cx d cmd (some (d, [.send sw data])) :=
    fun sw data hrequests => .outside (fun ho => hsign ho.1) (fun hc => hsign hc.1) hrequests sw data
      fun hs => absurd hs hsign
  rw [apduDispatcher, if_neg (not_not.mpr hcla), if_neg (by rw [hins]; decide),
    if_neg (by rw [hins]; decide), if_pos hins]
  by_cases hp : cmd.p1 > 1 ∨ cmd.p2 > 0
  · rw [if_pos hp]
    exact houtside _ _ (not_requestsKey_of_parameters hp)
  rw [if_neg hp]
  split
  · next hdata => exact houtside _ _ fun hr => hr.2.2.2.2 hdata
  · next data hdata =>
      exact .getPublicKey (requestsKey_of_parameters hcla hins hp (by simp [hdata])) hdata

theorem route_signTx (ui : Ui) (sdk : Sdk) (cx : Cx) (d : Device) {cmd : Command}
    (hcla : cmd.cla = cla) (hins : cmd.ins = insSignTx) :
    Route ui sdk cx d cmd (apduDispatcher ui sdk cx d cmd) := by
  have hs : cmd.isSignTx := ⟨hcla, hins⟩
  have hkey : ¬cmd.requestsKey := fun hr => absurd (hins.symm.trans hr.2.1) (by decide)
  rw [apduDispatcher, if_neg (not_not.mpr hcla), if_neg (by rw [hins]; decide),
    if_neg (by rw [hins]; decide), if_neg (by rw [hins]; decide), if_pos hins]
  by_cases hp : (cmd.p1 = p1Start ∧ cmd.p2 ≠ p2More) ∨ cmd.p1 > p1Max
      ∨ (cmd.p2 ≠ p2Last ∧ cmd.p2 ≠ p2More)
  · obtain ⟨hopens, hcontinues⟩ := not_or.mp (not_signTx_of_parameters hp)
    rw [if_pos hp]
    exact .outside hopens hcontinues hkey _ _ fun _ => Or.inl rfl
  rw [if_neg hp]
  split
  · next hdata =>
      exact .outside (fun ho => ho.2.2.2 hdata) (fun hc => hc.2.2.2 hdata) hkey _ _
        fun _ => Or.inr rfl
  · next data hdata => exact .signTx (signTx_of_parameters hs hp (by simp [hdata])) hdata

theorem apduDispatcher_route (ui : Ui) (sdk : Sdk) (cx : Cx) (d : Device) (cmd : Command) :
    Route ui sdk cx d cmd (apduDispatcher ui sdk cx d cmd) := by
  have houtside : ∀ sw data, ¬(cmd.cla = cla ∧ (cmd.ins = insGetPublicKey ∨ cmd.ins = insSignTx)) →
      Route ui sdk cx d cmd (some (d, [.send sw data])) := fun sw data hother =>
    .outside (fun ho => hother ⟨ho.1.1, Or.inr ho.1.2⟩) (fun hc => hother ⟨hc.1.1, Or.inr hc.1.2⟩)
      (fun hr => hother ⟨hr.1, Or.inl hr.2.1⟩) sw data
      fun hs => absurd ⟨hs.1, Or.inr hs.2⟩ hother
  by_cases hcla : cmd.cla = cla
  swap
  · rw [apduDispatcher, if_pos hcla]
    exact houtside _ _ fun hother => hcla hother.1
  by_cases hkey : cmd.ins = insGetPublicKey
  · exact route_getPublicKey ui sdk cx d hcla hkey
  by_cases hsign : cmd.ins = insSignTx
  · exact route_signTx ui sdk cx d hcla hsign
  -- the remaining instructions reply at once
  have hneither : ¬(cmd.cla = cla ∧ (cmd.ins = insGetPublicKey ∨ cmd.ins = insSignTx)) :=
    fun hother => hother.2.elim hkey hsign
  rw [apduDispatcher, if_neg (not_not.mpr hcla), if_neg hkey, if_neg hsign]
  split
  · split <;> exact houtside _ _ hneither
  · split
    · split <;> exact houtside _ _ hneither
    · exact houtside _ _ hneither

theorem next_route (ui : Ui) (sdk : Sdk) (cx : Cx) (d : Device) (cmd : Command) :
    Route ui sdk cx d cmd (Device.next ui sdk cx d (.apdu (some cmd))) :=
  apduDispatcher_route ui sdk cx d cmd

theorem next_signTx {cmd : Command} {data : List UInt8}
    (hcmd : cmd.opensSession ∨ cmd.continuesSession) (hdata : cmd.data = some data) :
    Device.next ui sdk cx d (.apdu (some cmd))
      = handlerSignTx ui sdk cx d ⟨data, cmd.lc.toNat, 0⟩ cmd.p1
        (decide (cmd.p2 &&& p2More ≠ 0)) := by
  have hroute := next_route ui sdk cx d cmd
  generalize Device.next ui sdk cx d (.apdu (some cmd)) = outcome at hroute ⊢
  cases hroute with
  | outside hopens hcontinues => exact absurd hcmd (not_or.mpr ⟨hopens, hcontinues⟩)
  | getPublicKey hkey => exact absurd hkey (hcmd.elim (·.not_requests) (·.not_requests))
  | signTx _ hdata' =>
      obtain rfl := Option.some.inj (hdata.symm.trans hdata')
      rfl

theorem next_getPublicKey {cmd : Command} {data : List UInt8} (hcmd : cmd.requestsKey)
    (hdata : cmd.data = some data) :
    Device.next ui sdk cx d (.apdu (some cmd))
      = handlerGetPublicKey ui sdk cx d ⟨data, cmd.lc.toNat, 0⟩ (decide (cmd.p1 ≠ 0)) := by
  have hroute := next_route ui sdk cx d cmd
  generalize Device.next ui sdk cx d (.apdu (some cmd)) = outcome at hroute ⊢
  cases hroute with
  | outside _ _ hrequests => exact absurd hcmd hrequests
  | signTx hsign => exact absurd hcmd (hsign.elim (·.not_requests) (·.not_requests))
  | getPublicKey _ hdata' =>
      obtain rfl := Option.some.inj (hdata.symm.trans hdata')
      rfl

theorem happens_command {cmd : Command} (h : apduDispatcher ui sdk cx d cmd = some (d', effects)) :
    Happens ui sdk cx d (.apdu (some cmd)) d' effects := by
  have hroute := apduDispatcher_route ui sdk cx d cmd
  rw [h] at hroute
  generalize houtcome : some (d', effects) = outcome at hroute
  cases hroute with
  | outside hopens hcontinues hrequests sw data hsign =>
      obtain ⟨rfl, rfl⟩ := Prod.mk.inj (Option.some.inj houtcome)
      apply Happens.outside
      intro cmd' hcmd'
      obtain rfl := Option.mem_some.mp hcmd'
      exact ⟨hopens, hcontinues, hrequests, fun hchunk => hsign hchunk.1⟩
  | getPublicKey hcmd hdata => exact .requested hcmd hdata houtcome.symm
  | signTx hcmd hdata =>
      rcases hcmd with hcmd | hcmd
      · exact happens_opens hcmd hdata houtcome.symm
      · exact happens_continues hcmd hdata houtcome.symm

/-! ### The user -/

theorem happens_idle {action : UserAction} (hdecides : d.decides ui action = none)
    (h : some (d, []) = some (d', effects)) : Happens ui sdk cx d (.user action) d' effects := by
  obtain ⟨rfl, rfl⟩ := Prod.mk.inj (Option.some.inj h)
  exact .moved hdecides d.screen id (Or.inl rfl)

theorem happens_pubkey {action : UserAction} {choice : Bool} {screen : Screen}
    (hdecides : d.decides ui action = some (.confirmAddress, choice))
    (hscreen : screen = .menu ∨ screen = .status)
    (h : (validatePubkey d choice).map (fun (d, effects) => ({ d with screen := screen }, effects))
      = some (d', effects)) : Happens ui sdk cx d (.user action) d' effects := by
  obtain ⟨⟨d₁, effects₁⟩, hvalidate, heq⟩ := Option.map_eq_some_iff.mp h
  obtain ⟨rfl, rfl⟩ := Prod.mk.inj heq
  exact .decidedPubkey hdecides hvalidate screen hscreen

theorem happens_transaction {action : UserAction} {choice : Bool} {screen : Screen}
    (hdecides : d.decides ui action = some (.confirmTransaction, choice))
    (hscreen : screen = .menu ∨ screen = .status)
    (h : (validateTransaction cx d choice).map
        (fun (d, effects) => ({ d with screen := screen }, effects)) = some (d', effects)) :
    Happens ui sdk cx d (.user action) d' effects := by
  obtain ⟨⟨d₁, effects₁⟩, hvalidate, heq⟩ := Option.map_eq_some_iff.mp h
  obtain ⟨rfl, rfl⟩ := Prod.mk.inj heq
  exact .decidedTransaction hdecides hvalidate screen hscreen

theorem happens_bagl {action : UserAction} (h : Bagl.act cx d action = some (d', effects)) :
    Happens .bagl sdk cx d (.user action) d' effects := by
  have hcallback : ∀ choice, d.decides .bagl action
        = d.gValidateCallback.map (fun callback => (callback.request, choice)) →
      Bagl.validateCallback cx d choice = some (d', effects) →
      Happens .bagl sdk cx d (.user action) d' effects := by
    intro choice hdecides hrun
    rcases hcb : d.gValidateCallback with _ | _ | _
    · simp [Bagl.validateCallback, hcb] at hrun
    · rw [hcb] at hdecides
      rw [Bagl.validateCallback, hcb] at hrun
      exact happens_pubkey hdecides (Or.inl rfl) hrun
    · rw [hcb] at hdecides
      rw [Bagl.validateCallback, hcb] at hrun
      exact happens_transaction hdecides (Or.inl rfl) hrun
  obtain ⟨ctx, callback, amount, address, addressPubkey, screen⟩ := d
  cases screen <;> cases action <;>
    first | exact happens_idle rfl h | exact hcallback _ rfl h

theorem happens_nbgl {action : UserAction} (h : Nbgl.act cx d action = some (d', effects)) :
    Happens .nbgl sdk cx d (.user action) d' effects := by
  -- a page that leads to another one
  have hpage : ∀ screen : Screen, some ({ d with screen := screen }, []) = some (d', effects) →
      d.decides .nbgl action = none →
      (screen.reviewsTransaction → d.screen.reviewsTransaction) →
      Happens .nbgl sdk cx d (.user action) d' effects := by
    intro screen heq hdecides hscreen
    obtain ⟨rfl, rfl⟩ := Prod.mk.inj (Option.some.inj heq)
    exact .moved hdecides screen hscreen (Or.inr (Or.inr rfl))
  obtain ⟨ctx, callback, amount, address, addressPubkey, screen⟩ := d
  cases screen <;> cases action <;>
    first
    | exact happens_idle rfl h
    | exact hpage _ h rfl id
    | exact hpage _ h rfl False.elim
    | exact hpage _ h rfl fun _ => trivial
    | exact happens_pubkey rfl (Or.inr rfl) h
    | exact happens_transaction rfl (Or.inr rfl) h

/-- **Every event is one of the cases.** -/
theorem next_happens {event : Event}
    (h : Device.next ui sdk cx d event = some (d', effects)) :
    Happens ui sdk cx d event d' effects := by
  cases event with
  | apdu parsed =>
      cases parsed with
      | none =>
          obtain ⟨rfl, rfl⟩ := Prod.mk.inj (Option.some.inj h)
          exact .outside _ _ (by simp)
      | some cmd => exact happens_command h
  | user action =>
      cases ui with
      | bagl => exact happens_bagl h
      | nbgl => exact happens_nbgl h

end Complete

end BoilerplateApp
