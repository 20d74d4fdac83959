import BoilerplateApp.Proof.Interfaces

/-!
# What the host learns

Two devices with the same SDK may hold different keys. Without the user's approval, and as long as
the host does not ask for a key without one, both answer every sequence of commands and touches
alike. The derived key is written over the bytes of the transaction, so the two contexts differ in
the union only, and only outside a session.
-/

namespace BoilerplateApp

open Transition

/-- `cx` and `cx'` differ in what is `hidden` at most: in the keys they derive, or in the signatures.
Whether a derivation succeeds is not hidden, and hashing succeeds. -/
structure Cx.SameOutside (hidden : RequestType → Prop) (cx cx' : Cx) : Prop where
  hashSucceeds : cx.HashSucceeds
  keccakInit : cx.cxKeccakInitNoThrow = cx'.cxKeccakInitNoThrow
  hash : cx.cxHashNoThrow = cx'.cxHashNoThrow
  error : ∀ path len,
    (cx.bip32DeriveGetPubkey256 path len).1 = (cx'.bip32DeriveGetPubkey256 path len).1
  keys : ¬hidden .confirmAddress → cx.bip32DeriveGetPubkey256 = cx'.bip32DeriveGetPubkey256
  signatures : ¬hidden .confirmTransaction →
    cx.bip32DeriveEcdsaSignHash256 = cx'.bip32DeriveEcdsaSignHash256

/-- The event does not ask for what is hidden: no GET_PUBLIC_KEY without the user when keys are, and
no approval of a review of what is. -/
def Guarded (hidden : RequestType → Prop) (ui : Ui) (d : Device) : Event → Prop
  | .apdu parsed => ∀ cmd ∈ parsed, hidden .confirmAddress → cmd.requestsKey → cmd.p1 ≠ 0
  | .user action => ∀ decision ∈ d.decides ui action, hidden decision.1 → decision.2 = false

instance (hidden : RequestType → Prop) [DecidablePred hidden] (ui : Ui) (d : Device) (event : Event) :
    Decidable (Guarded hidden ui d event) :=
  match event with
  | .apdu parsed => inferInstanceAs (Decidable (∀ cmd ∈ parsed,
      hidden .confirmAddress → cmd.requestsKey → cmd.p1 ≠ 0))
  | .user action => inferInstanceAs (Decidable (∀ decision ∈ d.decides ui action,
      hidden decision.1 → decision.2 = false))

/-- All that the host sees, and all that the user does. -/
def transcript (e : Entry) : Option (Event × List Effect) := some (e.event, e.output)

theorem Cx.SameOutside.symm {hidden : RequestType → Prop} {cx cx' : Cx}
    (h : cx.SameOutside hidden cx') : cx'.SameOutside hidden cx where
  hashSucceeds := ⟨h.keccakInit ▸ h.hashSucceeds.1, h.hash ▸ h.hashSucceeds.2⟩
  keccakInit := h.keccakInit.symm
  hash := h.hash.symm
  error path len := (h.error path len).symm
  keys hopen := (h.keys hopen).symm
  signatures hopen := (h.signatures hopen).symm

/-! ### Equal contexts -/

/-- The same context, with the same review on screen. The texts may differ. -/
structure SameHeld (d d' : Device) : Prop where
  gContext : d.gContext = d'.gContext
  screen : d.screen = d'.screen
  gValidateCallback : d.gValidateCallback = d'.gValidateCallback

section Commands

variable {ui : Ui} {sdk : Sdk} {cx cx' : Cx} {d d' : Device}

theorem respects_sameHeld : Respects ui ui sdk cx SameHeld where
  gContext h := h.gContext
  withContext ctx h := ⟨rfl, h.screen, h.gValidateCallback⟩
  address := by
    intro d d' h
    apply agree_uiDisplayAddress h.gContext h (fun ctx => ⟨rfl, h.screen, h.gValidateCallback⟩)
    · intro _
      exact ⟨by simpa using h.gContext, by simpa using h.screen, by simpa using h.gValidateCallback⟩
    · intro address
      cases ui with
      | bagl => exact ⟨h.gContext, rfl, rfl⟩
      | nbgl => exact ⟨h.gContext, rfl, h.gValidateCallback⟩
  transaction := by
    intro d d' h
    apply agree_uiDisplayTransaction h.gContext (fun ctx => ⟨rfl, h.screen, h.gValidateCallback⟩)
    · exact ⟨h.gContext, h.screen, h.gValidateCallback⟩
    · intro amount address
      cases ui with
      | bagl => exact ⟨h.gContext, rfl, rfl⟩
      | nbgl => exact ⟨h.gContext, rfl, h.gValidateCallback⟩

/-- SIGN_TX calls the hash only. -/
theorem handlerSignTx_congr (hinit : cx.cxKeccakInitNoThrow = cx'.cxKeccakInitNoThrow)
    (hhash : cx.cxHashNoThrow = cx'.cxHashNoThrow) :
    handlerSignTx ui sdk cx d = handlerSignTx ui sdk cx' d := by
  funext cdata chunk more
  simp only [handlerSignTx, reviewRawTx, hinit, hhash]

end Commands

/-! ### Contexts that differ in the union -/

def GlobalCtx.withRawTx (ctx : GlobalCtx) (rawTx : Bytes maxTransactionLen) : GlobalCtx :=
  { ctx with txInfo.rawTx := rawTx }

/-- Devices that the host cannot tell apart: when keys are hidden, the union may hold different
ones outside a session. -/
structure SameToHost (hidden : RequestType → Prop) (d d' : Device) : Prop where
  gContext : d'.gContext = d.gContext.withRawTx d'.gContext.txInfo.rawTx
  rawTx : ¬hidden .confirmAddress ∨ d.gContext.reqType = .confirmTransaction →
    d'.gContext.txInfo.rawTx = d.gContext.txInfo.rawTx
  screen : d.screen = d'.screen
  gValidateCallback : d.gValidateCallback = d'.gValidateCallback

section Same

variable {hidden : RequestType → Prop} {ui : Ui} {sdk : Sdk} {cx cx' : Cx} {d d' : Device}

theorem SameHeld.sameToHost (h : SameHeld d d') : SameToHost hidden d d' where
  gContext := by rw [h.gContext]; rfl
  rawTx _ := by rw [h.gContext]
  screen := h.screen
  gValidateCallback := h.gValidateCallback

theorem SameToHost.sameHeld (h : SameToHost hidden d d')
    (hopen : ¬hidden .confirmAddress ∨ d.gContext.reqType = .confirmTransaction) :
    SameHeld d d' where
  gContext := by rw [h.gContext, h.rawTx hopen]; rfl
  screen := h.screen
  gValidateCallback := h.gValidateCallback

theorem SameToHost.reqType (h : SameToHost hidden d d') :
    d'.gContext.reqType = d.gContext.reqType := by
  rw [h.gContext]
  rfl

theorem SameToHost.withContext (h : SameToHost hidden d d') (ctx : GlobalCtx) :
    SameToHost hidden { d with gContext := ctx } { d' with gContext := ctx } :=
  SameHeld.sameToHost ⟨rfl, h.screen, h.gValidateCallback⟩

theorem SameToHost.keyed (h : SameToHost hidden d d') {ctx : GlobalCtx}
    (hreq : ctx.reqType = .confirmAddress) {pk pk' : PubkeyCtx}
    (hkeys : ¬hidden .confirmAddress → pk = pk') :
    SameToHost hidden (d.keyed ctx pk) (d'.keyed ctx pk') where
  gContext := rfl
  rawTx hopen := by
    rcases hopen with hopen | hsession
    · rw [hkeys hopen]
      rfl
    · cases hreq.symm.trans hsession
  screen := h.screen
  gValidateCallback := h.gValidateCallback

theorem SameToHost.setAddress (h : SameToHost hidden d d') (text text' : List Char) :
    SameToHost hidden (d.setAddress ui text) (d'.setAddress ui text') := by
  cases ui <;> exact ⟨h.gContext, h.rawTx, h.screen, h.gValidateCallback⟩

theorem SameToHost.showing (h : SameToHost hidden d d') (request : RequestType) :
    SameToHost hidden (d.showing ui request) (d'.showing ui request) := by
  cases ui with
  | bagl => cases request <;> exact ⟨h.gContext, h.rawTx, rfl, rfl⟩
  | nbgl => cases request <;> exact ⟨h.gContext, h.rawTx, rfl, h.gValidateCallback⟩

/-! ### Commands -/

theorem agree_handlerSignTx (hcx : cx.SameOutside hidden cx') (h : SameToHost hidden d d')
    (cdata : Buffer) (chunk : UInt8) (more : Bool) :
    Agree (SameToHost hidden) (handlerSignTx ui sdk cx d cdata chunk more)
      (handlerSignTx ui sdk cx' d' cdata chunk more) := by
  rw [← handlerSignTx_congr hcx.keccakInit hcx.hash]
  by_cases hreq : d.gContext.reqType = .confirmTransaction
  · apply Agree.mono (respects_sameHeld.handlerSignTx (h.sameHeld (Or.inr hreq)) cdata chunk more)
    intro _ _ hheld
    exact hheld.sameToHost
  rw [handlerSignTx, handlerSignTx]
  dsimp only
  split
  · -- the context is wiped
    rcases readBip32Path sdk
      { GlobalCtx.zero with reqType := .confirmTransaction, state := .none } cdata with ⟨ok, ctx⟩
    cases ok <;> exact agree_ioSendSw (h.withContext ctx) _
  · have hreq' : d'.gContext.reqType ≠ .confirmTransaction := by rwa [h.reqType]
    rw [if_pos hreq']
    exact agree_ioSendSw h _

/-- The host is told the same about two keys, unless it is told the key. -/
theorem agree_handlerGetPublicKey (hcx : cx.SameOutside hidden cx') (h : SameToHost hidden d d')
    (cdata : Buffer) {display : Bool} (hdisplay : hidden .confirmAddress → display = true) :
    Agree (SameToHost hidden) (handlerGetPublicKey ui sdk cx d cdata display)
      (handlerGetPublicKey ui sdk cx' d' cdata display) := by
  have hkeyed : ∀ {ctx : GlobalCtx} {error : UInt32} {pk : PubkeyCtx},
      readBip32Path sdk (.fresh .confirmAddress) cdata = (true, ctx) →
      cx.bip32DeriveGetPubkey256 ctx.bip32Path ctx.bip32PathLen = (error, pk) →
      ∃ pk', cx'.bip32DeriveGetPubkey256 ctx.bip32Path ctx.bip32PathLen = (error, pk')
        ∧ (¬hidden .confirmAddress → pk = pk')
        ∧ SameToHost hidden (d.keyed ctx pk) (d'.keyed ctx pk') := by
    intro ctx error pk hpath hderive
    have hreq : ctx.reqType = .confirmAddress := by
      obtain ⟨_, _, rfl⟩ := readBip32Path_frame hpath
      rfl
    have herror := hcx.error ctx.bip32Path ctx.bip32PathLen
    rcases hderive' : cx'.bip32DeriveGetPubkey256 ctx.bip32Path ctx.bip32PathLen with ⟨error', pk'⟩
    rw [hderive, hderive'] at herror
    dsimp only at herror
    subst herror
    have hsame : ¬hidden .confirmAddress → pk = pk' := by
      intro hopen
      rw [hcx.keys hopen, hderive'] at hderive
      exact (Prod.mk.inj hderive).2.symm
    exact ⟨pk', rfl, hsame, h.keyed hreq hsame⟩
  obtain ⟨d₁, effects, hrequests⟩ := exists_requests ui sdk cx d cdata display
  rw [hrequests.run]
  cases hrequests with
  | refused hpath =>
      rw [(Requests.refused hpath).run]
      exact agree_ioSendSw (h.withContext _) _
  | underivable hpath hderive herror =>
      obtain ⟨pk', hderive', -, hsame⟩ := hkeyed hpath hderive
      rw [(Requests.underivable hpath hderive' herror).run]
      exact .some _ hsame
  | replied hpath hderive hsilent =>
      obtain ⟨pk', hderive', hkeys, hsame⟩ := hkeyed hpath hderive
      rw [(Requests.replied hpath hderive' hsilent).run]
      have hopen : ¬hidden .confirmAddress := fun hhidden => by
        cases hsilent.symm.trans (hdisplay hhidden)
      obtain rfl := hkeys hopen
      exact .some _ hsame
  | pathFail hpath hderive hshown hformat =>
      obtain ⟨pk', hderive', -, hsame⟩ := hkeyed hpath hderive
      rw [(Requests.pathFail hpath hderive' hshown hformat).run]
      exact .some _ hsame
  | addressFail hpath hderive hshown hformat haddress =>
      exact absurd haddress (hcx.hashSucceeds.addressFromPubkey _)
  | shown hpath hderive hshown hformat haddress =>
      obtain ⟨pk', hderive', -, hsame⟩ := hkeyed hpath hderive
      obtain ⟨address', haddress'⟩ := Option.ne_none_iff_exists'.mp
        (hcx.symm.hashSucceeds.addressFromPubkey pk'.rawPublicKey)
      rw [(Requests.shown hpath hderive' hshown hformat haddress').run]
      exact .some _ ((hsame.setAddress _ _).showing _)

theorem agree_appMain (hcx : cx.SameOutside hidden cx') (h : SameToHost hidden d d')
    {parsed : Option Command} (hguard : Guarded hidden ui d (.apdu parsed)) :
    Agree (SameToHost hidden) (appMain ui sdk cx d parsed) (appMain ui sdk cx' d' parsed) := by
  cases parsed with
  | none => exact agree_ioSendSw h _
  | some cmd =>
      apply agree_apduDispatcher h
      · intro data hrequests _
        apply agree_handlerGetPublicKey hcx h
        intro hhidden
        exact decide_eq_true (hguard cmd rfl hhidden hrequests)
      · intro data _
        exact agree_handlerSignTx hcx h _ _ _

/-! ### The user -/

theorem SameToHost.decides (h : SameToHost hidden d d') (action : UserAction) :
    d'.decides ui action = d.decides ui action := by
  unfold Device.decides
  rw [h.screen, h.gValidateCallback]

/-- A touch that does not decide looks at the screen only. -/
theorem agree_undecided {action : UserAction} (hscreen : d.screen = d'.screen)
    (hcallback : d.gValidateCallback = d'.gValidateCallback)
    (hdecides : d.decides ui action = none) :
    Agree (fun s s' => ∃ screen : Screen,
        s = { d with screen := screen } ∧ s' = { d' with screen := screen })
      (userAct ui cx d action) (userAct ui cx' d' action) := by
  obtain ⟨ctx, callback, amount, address, addressPubkey, screen⟩ := d
  obtain ⟨ctx', callback', amount', address', addressPubkey', screen'⟩ := d'
  dsimp only at hscreen hcallback
  subst hscreen hcallback
  cases ui with
  | bagl =>
      rcases callback with _ | _ | _ <;> cases screen <;> cases action <;>
        first | exact .some _ ⟨_, rfl, rfl⟩ | exact .none | cases hdecides
  | nbgl =>
      cases screen <;> cases action <;> first | exact .some _ ⟨_, rfl, rfl⟩ | cases hdecides

/-- The part of the context outside the union may be replaced in both. -/
theorem SameToHost.withUnion (h : SameToHost hidden d d') {ctx : GlobalCtx}
    (hrawTx : ctx.txInfo.rawTx = d.gContext.txInfo.rawTx)
    (hreq : ctx.reqType = d.gContext.reqType) :
    SameToHost hidden { d with gContext := ctx }
      { d' with gContext := ctx.withRawTx d'.gContext.txInfo.rawTx } where
  gContext := rfl
  rawTx hopen := (h.rawTx (hopen.imp_right hreq.symm.trans)).trans hrawTx.symm
  screen := h.screen
  gValidateCallback := h.gValidateCallback

theorem SameToHost.denied (h : SameToHost hidden d d') :
    SameToHost hidden { d with gContext.state := .none } { d' with gContext.state := .none } where
  gContext := congrArg (fun ctx : GlobalCtx => { ctx with state := .none }) h.gContext
  rawTx := h.rawTx
  screen := h.screen
  gValidateCallback := h.gValidateCallback

theorem SameToHost.helperSendResponseSig (h : SameToHost hidden d d') :
    Agree (SameToHost hidden) (helperSendResponseSig d) (helperSendResponseSig d') := by
  have hreply : ∀ s, s = d.gContext.withRawTx s.txInfo.rawTx →
      s.txInfo.signatureLen = d.gContext.txInfo.signatureLen
        ∧ s.txInfo.signature = d.gContext.txInfo.signature
        ∧ s.txInfo.v = d.gContext.txInfo.v := by
    intro s hs
    rw [hs]
    exact ⟨rfl, rfl, rfl⟩
  obtain ⟨hlen, hsignature, hv⟩ := hreply d'.gContext h.gContext
  simp only [BoilerplateApp.helperSendResponseSig, hlen, hsignature, hv]
  split
  · exact .none
  · exact .some _ h

/-- Signing neither reads nor writes the union. -/
theorem cryptoSignMessage_withRawTx (cx : Cx) (ctx : GlobalCtx) (rawTx : Bytes maxTransactionLen) :
    cryptoSignMessage cx (ctx.withRawTx rawTx)
      = ((cryptoSignMessage cx ctx).1, (cryptoSignMessage cx ctx).2.1.withRawTx rawTx,
        (cryptoSignMessage cx ctx).2.2) := by
  by_cases herror : (cx.bip32DeriveEcdsaSignHash256 ctx.bip32Path ctx.bip32PathLen
      ctx.txInfo.mHash).error ≠ cxOk
  · simp only [cryptoSignMessage, GlobalCtx.withRawTx, if_pos herror]
    exact if_pos herror
  · simp only [cryptoSignMessage, GlobalCtx.withRawTx, if_neg herror]
    exact if_neg herror

/-- A decision tells the host the same, unless it approves what is hidden. -/
theorem agree_validate_hidden (hcx : cx.SameOutside hidden cx') (h : SameToHost hidden d d')
    {request : RequestType} {choice : Bool} (hguard : hidden request → choice = false) :
    Agree (SameToHost hidden) (validate cx d request choice) (validate cx' d' request choice) := by
  have hopen : choice = true → ¬hidden request := by
    rintro rfl hhidden
    cases hguard hhidden
  cases request with
  | confirmAddress =>
      cases choice with
      | false => exact agree_ioSendSw h _
      | true =>
          have hheld := h.sameHeld (Or.inl (hopen rfl))
          apply Agree.mono (agree_validate cx .confirmAddress true hheld.gContext)
          rintro _ _ ⟨ctx, rfl, rfl⟩
          exact h.withContext ctx
  | confirmTransaction =>
      cases choice with
      | false => exact agree_ioSendSw h.denied _
      | true =>
          have hcrypto : cryptoSignMessage cx' = cryptoSignMessage cx := by
            funext ctx
            simp only [cryptoSignMessage, hcx.signatures (hopen rfl)]
          have hctx : GlobalCtx.withRawTx { d.gContext with state := .approved }
              d'.gContext.txInfo.rawTx = { d'.gContext with state := .approved } :=
            (congrArg (fun ctx : GlobalCtx => { ctx with state := .approved }) h.gContext).symm
          have hresult' := cryptoSignMessage_withRawTx cx { d.gContext with state := .approved }
            d'.gContext.txInfo.rawTx
          rcases hresult : cryptoSignMessage cx { d.gContext with state := .approved }
            with ⟨ok, ctx, call⟩
          rw [hctx, hresult] at hresult'
          have hframe : ctx.txInfo.rawTx = d.gContext.txInfo.rawTx
              ∧ ctx.reqType = d.gContext.reqType := by
            obtain ⟨_, _, _, _, hspec⟩ :=
              cryptoSignMessage_spec cx { d.gContext with state := .approved }
            obtain ⟨rfl, -⟩ := Prod.mk.inj (Prod.mk.inj (hresult.symm.trans hspec)).2
            exact ⟨rfl, rfl⟩
          have hsigned := h.withUnion hframe.1 hframe.2
          simp only [validate, validateTransaction, if_true, hcrypto, hresult, hresult']
          cases ok with
          | false => exact .some _ hsigned.denied
          | true => exact hsigned.helperSendResponseSig.map (g := (call :: ·)) fun _ _ h' => h'

theorem agree_userAct (hcx : cx.SameOutside hidden cx') (h : SameToHost hidden d d')
    {action : UserAction} (hguard : Guarded hidden ui d (.user action)) :
    Agree (SameToHost hidden) (userAct ui cx d action) (userAct ui cx' d' action) := by
  cases hdecides : d.decides ui action with
  | none =>
      apply Agree.mono (agree_undecided h.screen h.gValidateCallback hdecides)
      rintro _ _ ⟨screen, rfl, rfl⟩
      exact ⟨h.gContext, h.rawTx, rfl, h.gValidateCallback⟩
  | some decision =>
      obtain ⟨request, choice⟩ := decision
      have hchoice : hidden request → choice = false := hguard (request, choice) hdecides
      rw [userAct_decides _ hdecides, userAct_decides _ ((h.decides action).trans hdecides)]
      have hagree := agree_validate_hidden hcx h hchoice
      generalize validate cx d request choice = outcome at hagree ⊢
      generalize validate cx' d' request choice = outcome' at hagree ⊢
      cases hagree with
      | none => exact .none
      | some effects h' => exact .some effects ⟨h'.gContext, h'.rawTx, rfl, h'.gValidateCallback⟩

theorem SameToHost.guarded (h : SameToHost hidden d d') {event : Event}
    (hguard : Guarded hidden ui d event) : Guarded hidden ui d' event := by
  cases event with
  | apdu parsed => exact hguard
  | user action =>
      intro decision hdecides
      rw [h.decides] at hdecides
      exact hguard decision hdecides

end Same

/-! ### Runs -/

section Runs

variable {hidden : RequestType → Prop} {ui : Ui} {sdk : Sdk} {calls calls' : Cx → Prop}

theorem simulation_secret
    (hcalls : ∀ cx, calls cx → ∃ cx', calls' cx' ∧ cx.SameOutside hidden cx') :
    Simulation ((app ui sdk calls).restrict (Guarded hidden ui)) transcript
      ((app ui sdk calls').restrict (Guarded hidden ui)) transcript (SameToHost hidden) where
  initial := SameHeld.sameToHost ⟨rfl, rfl, rfl⟩
  step := by
    rintro ⟨before, event, after, output⟩ before' hrel ⟨hguard, cx, hcx, hnext⟩
    dsimp only at hrel hguard hnext ⊢
    obtain ⟨cx', hcx', hsame⟩ := hcalls cx hcx
    have hagree : Agree (SameToHost hidden) (Device.next ui sdk cx before event)
        (Device.next ui sdk cx' before' event) := by
      cases event with
      | apdu parsed => exact agree_appMain hsame hrel hguard
      | user action => exact agree_userAct hsame hrel hguard
    rw [hnext] at hagree
    obtain ⟨after', hnext', hafter⟩ := hagree.exists_some
    exact ⟨[⟨before', event, after', output⟩], after',
      .step _ .refl ⟨hrel.guarded hguard, cx', hcx', hnext'⟩, rfl, hafter⟩

/-- **Keys and signatures stay inside until the user approves.** Take two devices that differ in what
is hidden only: in the keys they derive, in the signatures they make, or in both. In every order of
commands and touches in which the host asks for no key without the user, where keys are hidden, and
the user approves no review of what is hidden, they answer alike: whatever the host sees of one of
them it can see of the other. -/
theorem keys_stay_inside
    (hcalls : ∀ cx, calls cx → ∃ cx', calls' cx' ∧ cx.SameOutside hidden cx')
    (hcalls' : ∀ cx', calls' cx' → ∃ cx, calls cx ∧ cx.SameOutside hidden cx') :
    behaviours ((app ui sdk calls).restrict (Guarded hidden ui)) transcript
      = behaviours ((app ui sdk calls').restrict (Guarded hidden ui)) transcript := by
  apply Set.Subset.antisymm (simulation_secret hcalls).behaviours_subset
  apply (simulation_secret ?_).behaviours_subset
  intro cx' hcx'
  obtain ⟨cx, hcx, hsame⟩ := hcalls' cx' hcx'
  exact ⟨cx, hcx, hsame.symm⟩

end Runs

namespace Reference

/-- A device like the one of `calls` that holds another key. -/
def otherCalls : Cx :=
  { calls with
    bip32DeriveGetPubkey256 := fun _ _ => (cxOk, ⟨List.Vector.replicate _ 5, zeros _⟩)
    bip32DeriveEcdsaSignHash256 := fun _ _ _ => ⟨cxOk, zeros _, 70, 0⟩ }

theorem sameOutside_otherCalls : calls.SameOutside (fun _ => True) otherCalls where
  hashSucceeds := calls_hashes.hashSucceeds
  keccakInit := rfl
  hash := rfl
  error _ _ := rfl
  keys hopen := absurd trivial hopen
  signatures hopen := absurd trivial hopen

end Reference

open Reference in
/-- An address that is shown but not confirmed, and a transaction that is denied. -/
theorem keys_stay_inside_denied :
    [(.user .reject, [.send swDeny []]), (txEvent, [.startReview .confirmTransaction]),
        (openEvent, [.send swOk []]), (displayEvent, [.startReview .confirmAddress])]
      ∈ behaviours ((app .bagl (sdk 64) (· = otherCalls)).restrict (Guarded (fun _ => True) .bagl))
        transcript := by
  have hcalls : ∀ cx, cx = calls →
      ∃ cx', cx' = otherCalls ∧ cx.SameOutside (fun _ => True) cx' := by
    rintro _ rfl
    exact ⟨_, rfl, sameOutside_otherCalls⟩
  have hcalls' : ∀ cx', cx' = otherCalls →
      ∃ cx, cx = calls ∧ cx.SameOutside (fun _ => True) cx' := by
    rintro _ rfl
    exact ⟨_, rfl, sameOutside_otherCalls⟩
  obtain ⟨trace, d, run, htrace⟩ := exists_run_of (· = calls) rfl .bagl
    [displayEvent, openEvent, txEvent, .user .reject]
    (fun trace _ => (trace.all fun e => decide (Guarded (fun _ => True) .bagl e.before e.event))
      && decide (observed transcript trace = [(.user .reject, [.send swDeny []]),
        (txEvent, [.startReview .confirmTransaction]), (openEvent, [.send swOk []]),
        (displayEvent, [.startReview .confirmAddress])])) (by decide +kernel)
  simp only [Bool.and_eq_true, List.all_eq_true, decide_eq_true_eq] at htrace
  rw [← keys_stay_inside hcalls hcalls']
  exact ⟨trace, d, run.restrict htrace.1, htrace.2⟩

end BoilerplateApp
