import BoilerplateApp.Lib.Simulation
import BoilerplateApp.Proof.Replies

/-!
# The two interfaces are one application

BAGL and NBGL builds have different screens, and a decision takes a different number of touches on
them. The handlers look at the context only, so a relation that contains "the same context" is kept
by a command as soon as the display functions keep it.
-/

namespace BoilerplateApp

open Transition

/-! ### What commands keep -/

/-- `Rel` contains "the same context", is kept when both contexts are replaced by one, and is kept by
the display functions, which answer the same. -/
structure Respects (ui ui' : Ui) (sdk : Sdk) (cx : Cx) (Rel : Device → Device → Prop) : Prop where
  gContext : ∀ {d d'}, Rel d d' → d.gContext = d'.gContext
  withContext : ∀ {d d'} (ctx : GlobalCtx), Rel d d' →
    Rel { d with gContext := ctx } { d' with gContext := ctx }
  address : ∀ {d d'}, Rel d d' →
    Agree Rel (uiDisplayAddress ui sdk cx d) (uiDisplayAddress ui' sdk cx d')
  transaction : ∀ {d d'}, Rel d d' →
    Agree Rel (uiDisplayTransaction ui sdk d) (uiDisplayTransaction ui' sdk d')

section Respects

variable {ui ui' : Ui} {sdk : Sdk} {cx : Cx} {Rel : Device → Device → Prop} {d d' : Device}

theorem agree_ioSendSw (hrel : Rel d d') (sw : UInt16) :
    Agree Rel (ioSendSw d sw) (ioSendSw d' sw) :=
  .some _ hrel

/-- Two dispatchers agree when their handlers do. -/
theorem agree_apduDispatcher {cx' : Cx} {cmd : Command} (hrel : Rel d d')
    (hkey : ∀ data, cmd.requestsKey → cmd.data = some data →
      Agree Rel (handlerGetPublicKey ui sdk cx d ⟨data, cmd.lc.toNat, 0⟩ (decide (cmd.p1 ≠ 0)))
        (handlerGetPublicKey ui' sdk cx' d' ⟨data, cmd.lc.toNat, 0⟩ (decide (cmd.p1 ≠ 0))))
    (hsign : ∀ data, cmd.data = some data →
      Agree Rel (handlerSignTx ui sdk cx d ⟨data, cmd.lc.toNat, 0⟩ cmd.p1
          (decide (cmd.p2 &&& p2More ≠ 0)))
        (handlerSignTx ui' sdk cx' d' ⟨data, cmd.lc.toNat, 0⟩ cmd.p1
          (decide (cmd.p2 &&& p2More ≠ 0)))) :
    Agree Rel (apduDispatcher ui sdk cx d cmd) (apduDispatcher ui' sdk cx' d' cmd) := by
  rw [apduDispatcher, apduDispatcher]
  split
  · exact agree_ioSendSw hrel _
  split
  · split
    · exact agree_ioSendSw hrel _
    · exact .some _ hrel
  split
  · split
    · exact agree_ioSendSw hrel _
    · exact .some _ hrel
  split
  · next hcla _ _ hins =>
      split
      · exact agree_ioSendSw hrel _
      · next hparams =>
          split
          · exact agree_ioSendSw hrel _
          · next data hdata =>
              have hdata' : cmd.data ≠ none := by rw [hdata]; exact Option.some_ne_none data
              exact hkey data (requestsKey_of_parameters (not_not.mp hcla) hins hparams hdata') hdata
  split
  · split
    · exact agree_ioSendSw hrel _
    · split
      · exact agree_ioSendSw hrel _
      · next hdata => exact hsign _ hdata
  · exact agree_ioSendSw hrel _

theorem Respects.helperSendResponsePubkey (h : Respects ui ui' sdk cx Rel) (hrel : Rel d d') :
    Agree Rel (helperSendResponsePubkey d) (helperSendResponsePubkey d') := by
  rw [BoilerplateApp.helperSendResponsePubkey, BoilerplateApp.helperSendResponsePubkey,
    h.gContext hrel]
  exact .some _ hrel

theorem Respects.handlerGetPublicKey (h : Respects ui ui' sdk cx Rel) (hrel : Rel d d')
    (cdata : Buffer) (display : Bool) :
    Agree Rel (handlerGetPublicKey ui sdk cx d cdata display)
      (handlerGetPublicKey ui' sdk cx d' cdata display) := by
  rw [BoilerplateApp.handlerGetPublicKey, BoilerplateApp.handlerGetPublicKey]
  rcases readBip32Path sdk { GlobalCtx.zero with reqType := .confirmAddress, state := .none } cdata
    with ⟨ok, ctx⟩
  have hkeyed : ∀ pk, Rel { d with gContext := ctx.setPkInfo pk }
      { d' with gContext := ctx.setPkInfo pk } := fun _ => h.withContext _ hrel
  dsimp only
  cases ok with
  | false => exact agree_ioSendSw (h.withContext ctx hrel) _
  | true =>
      simp only [Bool.not_true, Bool.false_eq_true, if_false]
      split
      · exact agree_ioSendSw (hkeyed _) _
      cases display with
      | false => exact h.helperSendResponsePubkey (hkeyed _)
      | true => exact h.address (hkeyed _)

theorem Respects.reviewRawTx (h : Respects ui ui' sdk cx Rel) (hrel : Rel d d') :
    Agree Rel (reviewRawTx ui sdk cx d) (reviewRawTx ui' sdk cx d') := by
  rw [BoilerplateApp.reviewRawTx, BoilerplateApp.reviewRawTx, h.gContext hrel]
  dsimp only
  split
  · exact .none
  split
  · exact agree_ioSendSw (h.withContext _ hrel) _
  split
  · exact agree_ioSendSw (h.withContext _ hrel) _
  split
  · exact agree_ioSendSw (h.withContext _ hrel) _
  · exact h.transaction (h.withContext _ hrel)

theorem Respects.handlerSignTx (h : Respects ui ui' sdk cx Rel) (hrel : Rel d d')
    (cdata : Buffer) (chunk : UInt8) (more : Bool) :
    Agree Rel (handlerSignTx ui sdk cx d cdata chunk more)
      (handlerSignTx ui' sdk cx d' cdata chunk more) := by
  rw [BoilerplateApp.handlerSignTx, BoilerplateApp.handlerSignTx, h.gContext hrel]
  dsimp only
  split
  · rcases readBip32Path sdk
      { GlobalCtx.zero with reqType := .confirmTransaction, state := .none } cdata with ⟨ok, ctx⟩
    cases ok <;> exact agree_ioSendSw (h.withContext ctx hrel) _
  split
  · exact agree_ioSendSw hrel _
  split
  · exact agree_ioSendSw hrel _
  split
  · exact agree_ioSendSw hrel _
  split
  · exact .none
  · split
    · exact agree_ioSendSw (h.withContext _ hrel) _
    · exact h.reviewRawTx (h.withContext _ hrel)

theorem Respects.apduDispatcher (h : Respects ui ui' sdk cx Rel) (hrel : Rel d d')
    (cmd : Command) :
    Agree Rel (apduDispatcher ui sdk cx d cmd) (apduDispatcher ui' sdk cx d' cmd) :=
  agree_apduDispatcher hrel (fun _ _ _ => h.handlerGetPublicKey hrel _ _)
    fun _ _ => h.handlerSignTx hrel _ _ _

theorem Respects.appMain (h : Respects ui ui' sdk cx Rel) (hrel : Rel d d')
    (parsed : Option Command) :
    Agree Rel (appMain ui sdk cx d parsed) (appMain ui' sdk cx d' parsed) := by
  cases parsed with
  | none => exact agree_ioSendSw hrel _
  | some cmd => exact h.apduDispatcher hrel cmd

end Respects

/-! ### The display functions -/

theorem uiDisplayAddress_formats (ui : Ui) (sdk : Sdk) (cx : Cx) : uiDisplayAddress ui sdk cx
    = formatAddress sdk cx (fun d text => d.setAddress ui text) fun d =>
        d.showing ui .confirmAddress := by
  cases ui <;> rfl

theorem uiDisplayTransaction_shows (ui : Ui) (sdk : Sdk) : uiDisplayTransaction ui sdk
    = formatTransaction sdk fun d => d.showing ui .confirmTransaction := by
  cases ui <;> rfl

section Display

variable {ui ui' : Ui} {sdk : Sdk} {cx : Cx} {Rel : Device → Device → Prop} {d d' : Device}

theorem agree_uiDisplayTransaction (hctx : d.gContext = d'.gContext)
    (hreset : ∀ ctx, Rel { d with gContext := ctx } { d' with gContext := ctx })
    (hamount : Rel { d with gAmount := [] } { d' with gAmount := [] })
    (hshowing : ∀ amount address,
      Rel (({ d with gAmount := amount, gAddress := address } : Device).showing ui
          .confirmTransaction)
        (({ d' with gAmount := amount, gAddress := address } : Device).showing ui'
          .confirmTransaction)) :
    Agree Rel (uiDisplayTransaction ui sdk d) (uiDisplayTransaction ui' sdk d') := by
  rw [uiDisplayTransaction_shows, uiDisplayTransaction_shows, formatTransaction, formatTransaction]
  simp only [hctx] at hamount hshowing ⊢
  split
  · exact .some _ (hreset _)
  split
  · exact .some _ hamount
  · exact .some _ (hshowing _ _)

theorem agree_uiDisplayAddress (hctx : d.gContext = d'.gContext) (hrel : Rel d d')
    (hreset : ∀ ctx, Rel { d with gContext := ctx } { d' with gContext := ctx })
    (hblank : addressFromPubkey cx d'.gContext.pkInfo.rawPublicKey = none →
      Rel (d.setAddress ui []) (d'.setAddress ui' []))
    (hshowing : ∀ address,
      Rel (((d.setAddress ui []).setAddress ui address).showing ui .confirmAddress)
        (((d'.setAddress ui' []).setAddress ui' address).showing ui' .confirmAddress)) :
    Agree Rel (uiDisplayAddress ui sdk cx d) (uiDisplayAddress ui' sdk cx d') := by
  rw [uiDisplayAddress_formats, uiDisplayAddress_formats, formatAddress, formatAddress]
  simp only [Device.setAddress_gContext, hctx]
  split
  · exact .some _ (hreset _)
  split
  · exact .some _ hrel
  split
  · next hnone => exact .some _ (hblank hnone)
  · exact .some _ (hshowing _)

end Display

/-! ### No review is a dead end -/

section Touches

variable {ui : Ui} {sdk : Sdk} {d : Device} {request : RequestType}

/-- From every page of a review, either decision is at most two touches away. -/
theorem exists_touches (sdk : Sdk) (hscreen : OnScreen ui d)
    (hreview : d.screen.review = some request) (cx : Cx) (choice : Bool) :
    ∃ (actions : List UserAction) (screen : Screen) (action : UserAction), actions.length ≤ 2
      ∧ Undecided ui sdk d (actions.map fun action => (cx, action)) { d with screen := screen }
      ∧ Device.decides ui { d with screen := screen } action = some (request, choice) := by
  obtain ⟨ctx, callback, amount, address, addressPubkey, screen⟩ := d
  cases ui with
  | bagl =>
      cases screen with
      | pubkeyFlow | transactionFlow =>
          obtain rfl : callback = _ := hscreen.2
          cases hreview
          cases choice with
          | false => exact ⟨[], _, .reject, by simp, ⟨[], rfl, by simp⟩, rfl⟩
          | true => exact ⟨[], _, .approve, by simp, ⟨[], rfl, by simp⟩, rfl⟩
      | menu | status => cases hreview
      | transactionRejection => cases hscreen.1
      | _ => cases hscreen
  | nbgl =>
      cases screen with
      | menu | status => cases hreview
      | pubkeyFlow | transactionFlow => cases hscreen.1
      | addressStart =>
          cases hreview
          cases choice with
          | false => exact ⟨[], _, .reject, by simp, ⟨[], rfl, by simp⟩, rfl⟩
          | true => exact ⟨[.advance], _, .approve, by simp, ⟨[[]], rfl, by simp⟩, rfl⟩
      | addressConfirmation =>
          cases hreview
          cases choice with
          | false => exact ⟨[], _, .reject, by simp, ⟨[], rfl, by simp⟩, rfl⟩
          | true => exact ⟨[], _, .approve, by simp, ⟨[], rfl, by simp⟩, rfl⟩
      | transactionStart =>
          cases hreview
          cases choice with
          | false => exact ⟨[.reject], _, .confirmRejection, by simp, ⟨[[]], rfl, by simp⟩, rfl⟩
          | true => exact ⟨[.advance], _, .approve, by simp, ⟨[[]], rfl, by simp⟩, rfl⟩
      | transactionReview =>
          cases hreview
          cases choice with
          | false => exact ⟨[.reject], _, .confirmRejection, by simp, ⟨[[]], rfl, by simp⟩, rfl⟩
          | true => exact ⟨[], _, .approve, by simp, ⟨[], rfl, by simp⟩, rfl⟩
      | transactionRejection under =>
          cases hreview
          cases choice with
          | false => exact ⟨[], _, .confirmRejection, by simp, ⟨[], rfl, by simp⟩, rfl⟩
          | true =>
              rcases hscreen.2 with rfl | rfl
              · exact ⟨[.cancelRejection, .advance], _, .approve, by simp, ⟨[[], []], rfl, by simp⟩,
                  rfl⟩
              · exact ⟨[.cancelRejection], _, .approve, by simp, ⟨[[]], rfl, by simp⟩, rfl⟩

theorem Undecided.onScreen {d' : Device} {moves : List (Cx × UserAction)} (hscreen : OnScreen ui d)
    (h : Undecided ui sdk d moves d') : OnScreen ui d' := by
  obtain ⟨outputs, hrespond, -⟩ := h
  refine respond_keeps (fun s => OnScreen ui s) (fun _ => True) ?_ hrespond (fun _ _ => trivial)
    hscreen
  intro s e s' o _ hs hnext _
  exact onScreen_step hs hnext

/-- **No review is a dead end.** In every state with a review on screen the user can still decide
either way: after at most two touches that do nothing else there is one that decides, is answered
once and closes the review. -/
theorem decision_reachable {calls : Cx → Prop} {trace : List Entry}
    (run : Run (app ui sdk calls) trace d) (hreview : d.screen.review = some request) {cx : Cx}
    (hcx : cx.SignaturesFit) (choice : Bool) :
    ∃ (actions : List UserAction) (d₁ : Device) (action : UserAction) (d' : Device)
      (effects : List Effect), actions.length ≤ 2
      ∧ Undecided ui sdk d (actions.map fun action => (cx, action)) d₁
      ∧ d₁.decides ui action = some (request, choice)
      ∧ Device.next ui sdk cx d₁ (.user action) = some (d', effects)
      ∧ (answers effects).length = 1 ∧ d'.screen.review = none := by
  have hscreen := onScreen_of_run run
  obtain ⟨actions, screen, action, hlen, hmoves, hdecides⟩ :=
    exists_touches sdk hscreen hreview cx choice
  obtain ⟨⟨d', effects⟩, hnext⟩ : ∃ result,
      Device.next ui sdk cx { d with screen := screen } (.user action) = some result :=
    Option.ne_none_iff_exists'.mp (userAct_ne_none hcx (hmoves.onScreen hscreen) action)
  obtain ⟨-, hclosed, hone⟩ := userAct_decided hdecides hnext
  exact ⟨actions, _, action, d', effects, hlen, hmoves, hdecides, hnext, hone, hclosed⟩

open Reference in
/-- The question whether to reject, over the second page: the user can still approve. -/
theorem decision_reachable_tx :
    ∃ trace d, Run (app .nbgl (Reference.sdk 64) (Cx.Hashes keccak256)) trace d
      ∧ d.screen = .transactionRejection .transactionReview
      ∧ ∃ (d₁ : Device) (action : UserAction) (d' : Device) (effects : List Effect),
        d₁.decides .nbgl action = some (.confirmTransaction, true)
        ∧ Device.next .nbgl (Reference.sdk 64) Reference.calls d₁ (.user action) = some (d', effects)
        ∧ (answers effects).length = 1 := by
  obtain ⟨trace, d, run, hscreen⟩ :=
    exists_run .nbgl [openEvent, txEvent, .user .advance, .user .reject]
      (fun _ d => decide (d.screen = .transactionRejection .transactionReview)) (by decide +kernel)
  have hscreen := of_decide_eq_true hscreen
  have hreview : d.screen.review = some .confirmTransaction := by
    rw [hscreen]
    rfl
  obtain ⟨-, d₁, action, d', effects, -, -, hdecides, hnext, hone, -⟩ :=
    decision_reachable run hreview signaturesFit true
  exact ⟨trace, d, run, hscreen, d₁, action, d', effects, hdecides, hnext, hone⟩

/-- Touches that do not decide are steps of every system that has them. -/
theorem steps_undecided {system : System Device Event (List Effect)} {cx : Cx} {d' : Device}
    (hsystem : ∀ d action d' effects, d.decides ui action = none →
      Device.next ui sdk cx d (.user action) = some (d', effects) →
      system.Step d (.user action) d' effects)
    {actions : List UserAction}
    (hmoves : Undecided ui sdk d (actions.map fun action => (cx, action)) d') :
    ∃ trace, Steps system d trace d'
      ∧ ∀ e ∈ trace, ∃ action, e.event = .user action ∧ e.before.decides ui action = none := by
  obtain ⟨outputs, hrespond, hsilent⟩ := hmoves
  obtain ⟨trace, hsteps, hevents, houtputs⟩ := exists_steps d hrespond
  have hentry : ∀ e ∈ trace, ∃ action, e.event = (cx, .user action)
      ∧ e.before.decides ui action = none := by
    intro e he
    have he' := List.mem_reverse.mpr he
    have hevent : e.event ∈ trace.reverse.map (·.event) := List.mem_map_of_mem he'
    have houtput : e.output ∈ trace.reverse.map (·.output) := List.mem_map_of_mem he'
    rw [hevents, List.map_map] at hevent
    rw [houtputs] at houtput
    obtain ⟨action, -, heq⟩ := List.mem_map.mp hevent
    refine ⟨action, heq.symm, ?_⟩
    -- a decision would have replied
    by_contra hdecides
    obtain ⟨decision, hdecides⟩ := Option.ne_none_iff_exists'.mp hdecides
    have hnext := hsteps.step_of_mem he
    rw [← heq] at hnext
    obtain ⟨-, -, hone⟩ := userAct_decided hdecides hnext
    rw [hsilent _ houtput] at hone
    cases hone
  refine ⟨trace.map (Entry.mapEvent Prod.snd), hsteps.mapEvent ?_, ?_⟩
  · intro e he hnext
    obtain ⟨action, hevent, hdecides⟩ := hentry e he
    rw [hevent] at hnext ⊢
    exact hsystem _ _ _ _ hdecides hnext
  · intro e' he'
    obtain ⟨e, he, rfl⟩ := List.mem_map.mp he'
    obtain ⟨action, hevent, hdecides⟩ := hentry e he
    exact ⟨action, congrArg Prod.snd hevent, hdecides⟩

/-- An observer who sees nothing of such touches sees nothing. -/
theorem observed_undecided {Obs : Type*} {see : Entry → Option Obs}
    (hsee : ∀ (e : Entry) action, e.event = .user action → e.before.decides ui action = none →
      see e = none)
    {trace : List Entry}
    (hhidden : ∀ e ∈ trace, ∃ action, e.event = .user action ∧ e.before.decides ui action = none) :
    observed see trace = [] := by
  apply List.filterMap_eq_nil_iff.mpr
  intro e he
  obtain ⟨action, hevent, hdecides⟩ := hhidden e he
  exact hsee e action hevent hdecides

end Touches

/-! ### Decisions -/

/-- What a decision runs. -/
def validate (cx : Cx) (d : Device) (request : RequestType) (choice : Bool) : Outcome :=
  match request with
  | .confirmAddress => validatePubkey d choice
  | .confirmTransaction => validateTransaction cx d choice

/-- What is on screen after a decision. -/
def Ui.afterDecision : Ui → Screen
  | .bagl => .menu
  | .nbgl => .status

section Decisions

variable {ui : Ui} {cx : Cx} {d d' : Device} {request : RequestType} {choice : Bool}
  {action : UserAction}

@[simp] theorem review_afterDecision (ui : Ui) : ui.afterDecision.review = none := by
  cases ui <;> rfl

theorem belongsTo_afterDecision (ui : Ui) (callback : Option ActionValidateCb) :
    ui.afterDecision.BelongsTo ui callback := by
  cases ui <;> trivial

theorem userAct_decides (cx : Cx) (h : d.decides ui action = some (request, choice)) :
    userAct ui cx d action = (validate cx d request choice).map
      fun r => ({ r.1 with screen := ui.afterDecision }, r.2) := by
  obtain ⟨ctx, callback, amount, address, addressPubkey, screen⟩ := d
  cases ui with
  | bagl =>
      rcases callback with _ | _ | _ <;> cases screen <;> cases action <;> cases h <;> rfl
  | nbgl => cases screen <;> cases action <;> cases h <;> rfl

/-- From a review on screen, hidden touches lead in every system that has them to one that
decides. -/
theorem exists_steps_decides {sdk : Sdk} {system : System Device Event (List Effect)}
    (hsystem : ∀ d action d' effects, Device.decides ui d action = none →
      Device.next ui sdk cx d (.user action) = some (d', effects) →
      system.Step d (.user action) d' effects)
    (hscreen : OnScreen ui d) (hreview : d.screen.review = some request) (choice : Bool) :
    ∃ trace screen action, Steps system d trace { d with screen := screen }
      ∧ (∀ e ∈ trace, ∃ action, e.event = .user action ∧ e.before.decides ui action = none)
      ∧ OnScreen ui { d with screen := screen }
      ∧ Device.decides ui { d with screen := screen } action = some (request, choice)
      ∧ Device.next ui sdk cx { d with screen := screen } (.user action)
        = (validate cx { d with screen := screen } request choice).map
          fun r => ({ r.1 with screen := ui.afterDecision }, r.2) := by
  obtain ⟨actions, screen, action, -, hmoves, hdecides⟩ :=
    exists_touches sdk hscreen hreview cx choice
  obtain ⟨trace, hsteps, hhidden⟩ := steps_undecided hsystem hmoves
  exact ⟨trace, screen, action, hsteps, hhidden, hmoves.onScreen hscreen, hdecides,
    userAct_decides cx hdecides⟩

/-- A decision reads and writes the context only. -/
theorem agree_validate (cx : Cx) (request : RequestType) (choice : Bool)
    (hctx : d.gContext = d'.gContext) :
    Agree (fun s s' => ∃ ctx : GlobalCtx,
        s = { d with gContext := ctx } ∧ s' = { d' with gContext := ctx })
      (validate cx d request choice) (validate cx d' request choice) := by
  have hsame : ∃ ctx : GlobalCtx, d = { d with gContext := ctx }
      ∧ d' = { d' with gContext := ctx } := ⟨d.gContext, rfl, by rw [hctx]⟩
  cases request with
  | confirmAddress =>
      cases choice with
      | false => exact .some _ hsame
      | true =>
          simp only [validate, validatePubkey, if_true, helperSendResponsePubkey, hctx]
          exact .some _ hsame
  | confirmTransaction =>
      cases choice with
      | false =>
          simp only [validate, validateTransaction, hctx]
          exact .some _ ⟨_, rfl, rfl⟩
      | true =>
          simp only [validate, validateTransaction, if_true, hctx]
          rcases cryptoSignMessage cx { d'.gContext with state := .approved }
            with ⟨ok, ctx, call⟩
          cases ok with
          | false => exact .some _ ⟨_, rfl, rfl⟩
          | true =>
              simp only [Bool.not_true, Bool.false_eq_true, if_false, helperSendResponseSig]
              split
              · exact .none
              · exact .some _ ⟨_, rfl, rfl⟩

end Decisions

/-! ### What both interfaces show -/

/-- What of a run does not depend on the interface. -/
inductive Seen where
  | command (parsed : Option Command) (effects : List Effect)
  | decision (request : RequestType) (choice : Bool) (texts : List (List Char))
      (effects : List Effect)
  deriving DecidableEq

/-- The address text of a review. -/
def Device.reviewAddress (ui : Ui) (d : Device) : RequestType → List Char
  | .confirmAddress => d.shownAddress ui
  | .confirmTransaction => d.gAddress

def Device.reviewTexts (ui : Ui) (d : Device) : RequestType → List (List Char)
  | .confirmAddress => [d.reviewAddress ui .confirmAddress]
  | .confirmTransaction => [d.gAmount, d.reviewAddress ui .confirmTransaction]

/-- The commands with what they make the application do, and the user's decisions, with the texts
that are decided about if `shows` says so. The other touches are not seen. -/
def seen (shows : Bool) (ui : Ui) (e : Entry) : Option Seen :=
  match e.event with
  | .apdu parsed => some (.command parsed e.output)
  | .user action => (e.before.decides ui action).map fun (request, choice) =>
      .decision request choice (if shows then e.before.reviewTexts ui request else []) e.output

/-- Hashing never fails. -/
def Cx.HashSucceeds (cx : Cx) : Prop :=
  cx.cxKeccakInitNoThrow = cxOk ∧ ∀ message, (cx.cxHashNoThrow message).1 = cxOk

theorem Cx.HashSucceeds.addressFromPubkey {cx : Cx} (hcx : cx.HashSucceeds)
    (key : Bytes pubkeyLen) : addressFromPubkey cx key ≠ none := by
  rw [BoilerplateApp.addressFromPubkey, if_neg (not_not.mpr hcx.1)]
  dsimp only
  rw [if_neg (not_not.mpr (hcx.2 _))]
  exact Option.some_ne_none _

theorem Cx.Hashes.hashSucceeds {keccak256 : List UInt8 → Bytes 32} {cx : Cx}
    (h : cx.Hashes keccak256) : cx.HashSucceeds :=
  ⟨h.1, fun message => by rw [h.2]⟩

section Texts

variable (ui : Ui) (d : Device) (request : RequestType)

@[simp] theorem Device.reviewTexts_withScreen (screen : Screen) :
    ({ d with screen := screen } : Device).reviewTexts ui request = d.reviewTexts ui request := by
  cases ui <;> cases request <;> rfl

@[simp] theorem Device.reviewTexts_withContext (ctx : GlobalCtx) :
    ({ d with gContext := ctx } : Device).reviewTexts ui request = d.reviewTexts ui request := by
  cases ui <;> cases request <;> rfl

@[simp] theorem Device.reviewTexts_showing (request' : RequestType) :
    (d.showing ui request').reviewTexts ui request = d.reviewTexts ui request := by
  cases ui <;> cases request <;> cases request' <;> rfl

end Texts

/-- Devices with the two interfaces in the same state of the application, which show the same texts
of the review on screen if `shows` says so. -/
structure SameApplication (shows : Bool) (ui ui' : Ui) (d d' : Device) : Prop where
  gContext : d.gContext = d'.gContext
  review : d.screen.review = d'.screen.review
  onScreen : OnScreen ui d
  onScreen' : OnScreen ui' d'
  texts : shows = true → ∀ request, d.screen.review = some request →
    d.reviewTexts ui request = d'.reviewTexts ui' request

section Same

variable {shows : Bool} {ui ui' : Ui} {sdk : Sdk} {cx : Cx} {d d' : Device}

theorem SameApplication.symm (h : SameApplication shows ui ui' d d') :
    SameApplication shows ui' ui d' d where
  gContext := h.gContext.symm
  review := h.review.symm
  onScreen := h.onScreen'
  onScreen' := h.onScreen
  texts hshows request hreview := (h.texts hshows request (h.review.trans hreview)).symm

theorem SameApplication.withScreen (h : SameApplication shows ui ui' d d') {screen : Screen}
    (hscreen : OnScreen ui { d with screen := screen })
    (hreview : screen.review = d.screen.review) :
    SameApplication shows ui ui' { d with screen := screen } d' where
  gContext := h.gContext
  review := hreview.trans h.review
  onScreen := hscreen
  onScreen' := h.onScreen'
  texts hshows request hrequest := by
    rw [Device.reviewTexts_withScreen]
    exact h.texts hshows request (hreview.symm.trans hrequest)

theorem SameApplication.withContext (h : SameApplication shows ui ui' d d') (ctx : GlobalCtx) :
    SameApplication shows ui ui' { d with gContext := ctx } { d' with gContext := ctx } where
  gContext := rfl
  review := h.review
  onScreen := h.onScreen
  onScreen' := h.onScreen'
  texts hshows request hrequest := by
    rw [Device.reviewTexts_withContext, Device.reviewTexts_withContext]
    exact h.texts hshows request hrequest

/-- Without a review on screen, the contexts are all there is. -/
theorem SameApplication.of_closed (hctx : d.gContext = d'.gContext)
    (hclosed : d.screen.review = none) (hclosed' : d'.screen.review = none)
    (hscreen : OnScreen ui d) (hscreen' : OnScreen ui' d') : SameApplication shows ui ui' d d' where
  gContext := hctx
  review := hclosed.trans hclosed'.symm
  onScreen := hscreen
  onScreen' := hscreen'
  texts _ request hrequest := by
    rw [hclosed] at hrequest
    cases hrequest

theorem respects_sameApplication (hcx : shows = true → cx.HashSucceeds) :
    Respects ui ui' sdk cx (SameApplication shows ui ui') where
  gContext h := h.gContext
  withContext ctx h := h.withContext ctx
  address := by
    intro d d' h
    apply agree_uiDisplayAddress h.gContext h (fun ctx => h.withContext ctx)
    · intro hnone
      refine ⟨by simpa using h.gContext, by simpa using h.review, h.onScreen.of_same (by simp)
        (by simp), h.onScreen'.of_same (by simp) (by simp), ?_⟩
      intro hshows
      exact absurd hnone ((hcx hshows).addressFromPubkey _)
    · intro address
      refine ⟨by simpa using h.gContext, ?_, (onScreen_showing _ _).1, (onScreen_showing _ _).1, ?_⟩
      · rw [(onScreen_showing _ _).2, (onScreen_showing _ _).2]
      · intro _ request hrequest
        rw [(onScreen_showing _ _).2] at hrequest
        cases hrequest
        simp [Device.reviewTexts, Device.reviewAddress]
  transaction := by
    intro d d' h
    apply agree_uiDisplayTransaction h.gContext (fun ctx => h.withContext ctx)
    · refine ⟨h.gContext, h.review, h.onScreen, h.onScreen', ?_⟩
      intro hshows request hrequest
      have htexts := h.texts hshows request hrequest
      cases request with
      | confirmAddress => cases ui <;> cases ui' <;> exact htexts
      | confirmTransaction => exact congrArg ([] :: ·) (List.cons.inj htexts).2
    · intro amount address
      refine ⟨by simpa using h.gContext, ?_, (onScreen_showing _ _).1, (onScreen_showing _ _).1, ?_⟩
      · rw [(onScreen_showing _ _).2, (onScreen_showing _ _).2]
      · intro _ request hrequest
        rw [(onScreen_showing _ _).2] at hrequest
        cases hrequest
        rw [Device.reviewTexts_showing, Device.reviewTexts_showing]
        rfl

end Same

section Simulation

variable {shows : Bool} {ui ui' : Ui} {sdk : Sdk} {cx : Cx} {calls : Cx → Prop} {d d' : Device}

theorem hidden_seen (e : Entry) (action : UserAction) (hevent : e.event = .user action)
    (hdecides : e.before.decides ui action = none) : seen shows ui e = none := by
  rw [seen, hevent]
  dsimp only
  rw [hdecides, Option.map_none]

theorem simulation_interfaces (hcalls : shows = true → ∀ cx, calls cx → cx.HashSucceeds)
    (hsame : SameApplication shows ui ui' d d') :
    Simulation ((app ui sdk calls).startingAt d) (seen shows ui)
      ((app ui' sdk calls).startingAt d') (seen shows ui') (SameApplication shows ui ui') where
  initial := hsame
  step := by
    rintro ⟨before, event, after, output⟩ before' hrel ⟨cx, hcx, hnext⟩
    dsimp only at hrel hnext ⊢
    cases event with
    | apdu parsed =>
        have hrespects : Respects ui ui' sdk cx (SameApplication shows ui ui') :=
          respects_sameApplication fun hshows => hcalls hshows cx hcx
        have hagree := hrespects.appMain hrel parsed
        rw [Device.next] at hnext
        rw [hnext] at hagree
        obtain ⟨after', hnext', hafter⟩ := hagree.exists_some
        exact ⟨[⟨before', .apdu parsed, after', output⟩], after', .step _ .refl ⟨cx, hcx, hnext'⟩,
          rfl, hafter⟩
    | user action =>
        cases hdecides : before.decides ui action with
        | none =>
            obtain ⟨screen, rfl, rfl, hscreen, hreview⟩ :=
              userAct_undecided hrel.onScreen hdecides hnext
            refine ⟨[], before', .refl, ?_, hrel.withScreen hscreen hreview⟩
            simp [seen, hdecides]
        | some decision =>
            obtain ⟨request, choice⟩ := decision
            have hreview := review_of_decides hrel.onScreen hdecides
            have hsystem : ∀ d₁ action d₁' effects, Device.decides ui' d₁ action = none →
                Device.next ui' sdk cx d₁ (.user action) = some (d₁', effects) →
                ((app ui' sdk calls).startingAt d').Step d₁ (.user action) d₁' effects :=
              fun _ _ _ _ _ hnext => ⟨cx, hcx, hnext⟩
            obtain ⟨moves, screen', action', hsteps, hhidden, -, hdecides', hact'⟩ :=
              exists_steps_decides hsystem hrel.onScreen' (hrel.review.symm.trans hreview) choice
            have hunseen : observed (seen shows ui') moves = [] :=
              observed_undecided hidden_seen hhidden
            have hact := userAct_decides cx hdecides
            rw [Device.next, hact] at hnext
            obtain ⟨⟨d₁, effects⟩, hvalidate, heq⟩ := Option.map_eq_some_iff.mp hnext
            obtain ⟨rfl, rfl⟩ := Prod.mk.inj heq
            have hcontext : before.gContext = { before' with screen := screen' }.gContext :=
              hrel.gContext
            have hagree := agree_validate cx request choice hcontext
            rw [hvalidate] at hagree
            obtain ⟨d₁', hvalidate', ctx, rfl, rfl⟩ := hagree.exists_some
            rw [hvalidate', Option.map_some] at hact'
            refine ⟨⟨_, .user action', _, effects⟩ :: moves, _, .step _ hsteps ⟨cx, hcx, hact'⟩, ?_,
              .of_closed rfl (review_afterDecision ui) (review_afterDecision ui')
                (belongsTo_afterDecision ui _) (belongsTo_afterDecision ui' _)⟩
            rw [observed_cons, hunseen, List.append_nil]
            simp only [seen, hdecides, hdecides', Option.map_some, Option.toList_some]
            cases shows with
            | false => rfl
            | true =>
                rw [if_pos rfl, if_pos rfl, hrel.texts rfl request hreview,
                  Device.reviewTexts_withScreen]

/-- From related devices the same can be seen. -/
theorem SameApplication.behaviours_eq (hcalls : shows = true → ∀ cx, calls cx → cx.HashSucceeds)
    (h : SameApplication shows ui ui' d d') :
    behaviours ((app ui sdk calls).startingAt d) (seen shows ui)
      = behaviours ((app ui' sdk calls).startingAt d') (seen shows ui') :=
  Set.Subset.antisymm (simulation_interfaces hcalls h).behaviours_subset
    (simulation_interfaces hcalls h.symm).behaviours_subset

theorem sameApplication_boot : SameApplication shows ui ui' .boot .boot :=
  .of_closed rfl rfl rfl trivial trivial

/-- **The two interfaces cannot be told apart.** Whatever the SDK does, the two builds have the same
behaviours: for every run of one there is a run of the other with the same commands, the same
decisions, and the same replies, reviews and signatures. When hashing never fails, the texts that the
user decides about are the same too. -/
theorem interfaces_agree (sdk : Sdk) (calls : Cx → Prop) (shows : Bool)
    (hcalls : shows = true → ∀ cx, calls cx → cx.HashSucceeds) :
    behaviours (app .bagl sdk calls) (seen shows .bagl)
      = behaviours (app .nbgl sdk calls) (seen shows .nbgl) :=
  sameApplication_boot.behaviours_eq hcalls

/-! ### A wiping command -/

/-- The two commands that wipe the context do not look at it. -/
theorem next_wipes {cmd : Command} (hwipes : cmd.opensSession ∨ cmd.requestsKey) (ctx : GlobalCtx) :
    Device.next ui sdk cx { d with gContext := ctx } (.apdu (some cmd))
      = Device.next ui sdk cx d (.apdu (some cmd)) := by
  rcases hwipes with hopens | hrequests
  · obtain ⟨data, hdata⟩ := Option.ne_none_iff_exists'.mp hopens.2.2.2
    rw [next_signTx (Or.inl hopens) hdata, next_signTx (Or.inl hopens) hdata, hopens.2.1]
    rfl
  · obtain ⟨data, hdata⟩ := Option.ne_none_iff_exists'.mp hrequests.2.2.2.2
    rw [next_getPublicKey hrequests hdata, next_getPublicKey hrequests hdata]
    rfl

/-- **Nothing of the past is left after a wipe.** In every reachable state without a review on
screen, a SIGN_TX with P1 = 0 or a GET_PUBLIC_KEY is answered as by a device that has just booted,
and what can be seen afterwards, in every order of commands and decisions, is what can be seen after
it there. -/
theorem wipes_like_boot (hcalls : shows = true → ∀ cx, calls cx → cx.HashSucceeds)
    {trace : List Entry} (run : Run (app ui sdk calls) trace d) (hclosed : d.screen.review = none)
    {cmd : Command} (hwipes : cmd.opensSession ∨ cmd.requestsKey) (hcx : calls cx) :
    Agree (fun s s' => behaviours ((app ui sdk calls).startingAt s) (seen shows ui)
        = behaviours ((app ui sdk calls).startingAt s') (seen shows ui))
      (Device.next ui sdk cx d (.apdu (some cmd)))
      (Device.next ui sdk cx .boot (.apdu (some cmd))) := by
  rw [← next_wipes hwipes Device.boot.gContext]
  have hsame : SameApplication shows ui ui { d with gContext := Device.boot.gContext } .boot :=
    .of_closed rfl hclosed rfl ((onScreen_of_run run).of_same rfl rfl) trivial
  apply Agree.mono
    ((respects_sameApplication fun hshows => hcalls hshows cx hcx).appMain hsame (some cmd))
  intro s s' h
  exact h.behaviours_eq hcalls

end Simulation

open Reference in
/-- A new session on a device that has signed a transaction. -/
theorem wipes_like_boot_signed :
    ∃ trace d, Run (app .bagl (sdk 64) (Cx.Hashes keccak256)) trace d
      ∧ d.gContext.state = .approved
      ∧ Agree (fun s s' =>
          behaviours ((app .bagl (sdk 64) (Cx.Hashes keccak256)).startingAt s) (seen true .bagl)
            = behaviours ((app .bagl (sdk 64) (Cx.Hashes keccak256)).startingAt s') (seen true .bagl))
        (Device.next .bagl (sdk 64) calls d openEvent)
        (Device.next .bagl (sdk 64) calls .boot openEvent) := by
  obtain ⟨trace, d, run, hstate⟩ := exists_run .bagl [openEvent, txEvent, .user .approve]
    (fun _ d => decide (d.screen.review = none) && decide (d.gContext.state = .approved))
    (by decide +kernel)
  simp only [Bool.and_eq_true, decide_eq_true_eq] at hstate
  exact ⟨trace, d, run, hstate.2, wipes_like_boot (fun _ cx hcx => hcx.hashSucceeds) run hstate.1
    (Or.inl (by decide)) calls_hashes⟩

open Reference in
/-- A transaction that is approved at once, which NBGL does not allow without a touch in between. -/
theorem interfaces_agree_tx :
    ∃ effects, [.decision .confirmTransaction true
        [['B', 'O', 'L', ' ', '0', '.', '6', '6', '6'],
          '0' :: 'x' :: Hex.encode ((tx.drop 8).take addressLen)] effects,
      .command txEvent.command [.startReview .confirmTransaction],
      .command openEvent.command [.send swOk []]]
      ∈ behaviours (app .nbgl (sdk 64) (Cx.Hashes keccak256)) (seen true .nbgl) := by
  obtain ⟨trace, d, run, htrace⟩ := exists_run .bagl [openEvent, txEvent, .user .approve]
    (fun trace _ => trace.head?.any fun e => decide (observed (seen true .bagl) trace =
      [.decision .confirmTransaction true
        [['B', 'O', 'L', ' ', '0', '.', '6', '6', '6'],
          '0' :: 'x' :: Hex.encode ((tx.drop 8).take addressLen)] e.output,
      .command txEvent.command [.startReview .confirmTransaction],
      .command openEvent.command [.send swOk []]])) (by decide +kernel)
  cases trace with
  | nil => cases htrace
  | cons e older => ?_
  refine ⟨e.output, ?_⟩
  rw [← interfaces_agree (sdk 64) (Cx.Hashes keccak256) true fun _ cx hcx => hcx.hashSucceeds]
  exact ⟨e :: older, d, run, of_decide_eq_true htrace⟩

end BoilerplateApp
