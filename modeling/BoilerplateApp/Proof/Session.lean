import BoilerplateApp.Proof.Effects

/-!
# The session the context is in

What the host and the user have seen decides what the context holds: the last command that wiped it
decides the request type and the path, and the chunks since decide the bytes received. `Progress`
sorts the entries of a run by what they mean for the session, and each part of the context is then
followed through the four kinds.
-/

namespace BoilerplateApp

open Transition Trace

/-! ### Traces that grow -/

section Grow

variable {e : Entry} {trace : List Entry}

theorem message_of_opens (h : opens e = true) : message (e :: trace) = [] := by
  simp [message, h]

theorem message_of_not_opens (h : opens e = false) :
    message (e :: trace) = message trace ++ added e := by
  simp [message, h]

theorem lastWipe_of_wipes (h : wipes e = true) : lastWipe (e :: trace) = some e := by
  simp [lastWipe, h]

theorem lastWipe_of_not_wipes (h : wipes e = false) :
    lastWipe (e :: trace) = lastWipe trace := by
  simp [lastWipe, h]

theorem sessionPath_of_not_wipes (h : wipes e = false) :
    sessionPath (e :: trace) = sessionPath trace := by
  rw [sessionPath, sessionPath, lastWipe_of_not_wipes h]

theorem opens_of_not_wipes (h : wipes e = false) : opens e = false :=
  (Bool.or_eq_false_iff.mp h).1

theorem wipes_of_opens (h : opens e = true) : wipes e = true := by
  rw [wipes, h, Bool.true_or]

theorem wipes_of_requests (h : requests e = true) : wipes e = true := by
  rw [wipes, h, Bool.or_true]

theorem not_opens_of_requests {e : Entry} (h : requests e = true) : opens e = false := by
  simp only [requests, opens, commands] at h ⊢
  split at h
  · cases h
  · next cmd hcmd => exact decide_eq_false (of_decide_eq_true h).not_opens

end Grow

/-! ### What the effects and the answers tell -/

section Tell

variable {ui : Ui} {sdk : Sdk} {cx : Cx} {d d' : Device} {effects : List Effect} {event : Event}

theorem happens_reviews (h : Happens ui sdk cx d event d' effects)
    (hreview : .startReview .confirmTransaction ∈ effects) :
    ∃ cmd data d₁ buf tx, event = .apdu (some cmd) ∧ Stores sdk d cmd data d₁
      ∧ d₁.deserialized sdk = some (.parsingOk, buf, tx)
      ∧ cmd.p2 = p2Last ∧ (cx.cxKeccakInitNoThrow = cxOk ∧ (d₁.hashed cx).1 = cxOk)
      ∧ d' = d₁.reviewing ui sdk tx (d₁.hashed cx).2 := by
  cases h with
  | reviewed hstores hlast hparse hhash _ =>
      exact ⟨_, _, _, _, _, rfl, hstores, hparse, hlast, hhash, rfl⟩
  | requested _ _ hrun => exact absurd hreview (handlerGetPublicKey_spec hrun).no_review
  | decidedPubkey _ hvalidate _ _ =>
      obtain ⟨-, _, _, rfl⟩ := validatePubkey_spec hvalidate
      simp at hreview
  | @decidedTransaction action choice _ _ _ hvalidate _ _ =>
      obtain ⟨-, _, _, rfl⟩ := validateTransaction_spec hvalidate
      cases choice <;> simp at hreview
  | _ => simp at hreview

theorem happens_signs (h : Happens ui sdk cx d event d' effects)
    {path : List.Vector UInt32 maxBip32Path} {len : UInt8} {hash : Bytes 32}
    (hsign : .sign path len hash ∈ effects) :
    decision ui ⟨d, event, d', effects⟩ = some true ∧ path = d.gContext.bip32Path
      ∧ len = d.gContext.bip32PathLen ∧ hash = d.gContext.txInfo.mHash := by
  cases h with
  | requested _ _ hrun => exact absurd hsign ((handlerGetPublicKey_spec hrun).no_sign _ _ _)
  | decidedPubkey _ hvalidate _ _ =>
      obtain ⟨-, _, _, rfl⟩ := validatePubkey_spec hvalidate
      simp at hsign
  | @decidedTransaction action choice hdecides _ _ hvalidate _ _ =>
      obtain ⟨-, _, _, rfl⟩ := validateTransaction_spec hvalidate
      cases choice with
      | false => simp at hsign
      | true =>
          simp only [if_true, List.mem_append, List.mem_singleton, Effect.sign.injEq, reduceCtorEq,
            or_false] at hsign
          exact ⟨by simp [decision, hdecides], hsign⟩
  | _ => simp at hsign

theorem refused_send (sw : UInt16) (data : List UInt8) :
    refused [.send sw data] = refusals.contains sw := by
  simp [refused, answers]

theorem happens_accepts (h : Happens ui sdk cx d event d' effects)
    (hchunk : commands Command.isChunk ⟨d, event, d', effects⟩ = true)
    (haccepts : refuses ⟨d, event, d', effects⟩ = false) :
    commands Command.continuesSession ⟨d, event, d', effects⟩ = true
      ∧ d.gContext.reqType = .confirmTransaction := by
  rw [refuses, hchunk, Bool.true_and] at haccepts
  cases h with
  | @outside parsed sw data hcmd =>
      cases parsed with
      | none => cases hchunk
      | some cmd =>
          rcases (hcmd cmd rfl).2.2.2 (of_decide_eq_true hchunk) with rfl | rfl <;>
            exact absurd haccepts (by rw [refused_send]; decide)
  | opened hcmd hdata hpath => exact absurd (of_decide_eq_true hchunk) hcmd.not_isChunk
  | requested hcmd hdata hrun => exact absurd (of_decide_eq_true hchunk) hcmd.not_isChunk
  | badState | wrongTxLength => exact absurd haccepts (by rw [refused_send]; decide)
  | unmoved hcmd hdata hreq hmove => exact ⟨decide_eq_true hcmd, hreq⟩
  | stored hstores | parsingFail hstores | hashFail hstores | amountFail hstores
  | reviewed hstores => exact ⟨decide_eq_true hstores.continues, hstores.reqType⟩
  | moved | decidedPubkey | decidedTransaction => cases hchunk

end Tell

/-! ### What an entry means for the session -/

/-- Nothing changed but the state, the signature and the parsed fields. -/
structure SameSession (ctx ctx' : GlobalCtx) : Prop where
  reqType : ctx'.reqType = ctx.reqType
  path : ctx'.bip32Path = ctx.bip32Path
  pathLen : ctx'.bip32PathLen = ctx.bip32PathLen
  rawTx : ctx'.txInfo.rawTx = ctx.txInfo.rawTx
  rawTxLen : ctx'.txInfo.rawTxLen = ctx.txInfo.rawTxLen

theorem SameSession.refl (ctx : GlobalCtx) : SameSession ctx ctx := ⟨rfl, rfl, rfl, rfl, rfl⟩

theorem SameSession.received {ctx ctx' : GlobalCtx} (h : SameSession ctx ctx') :
    ctx'.txInfo.received = ctx.txInfo.received := by
  rw [TransactionCtx.received, TransactionCtx.received, h.rawTx, h.rawTxLen]

/-- The four kinds of entries. -/
inductive Progress (sdk : Sdk) (e : Entry) : Prop
  /-- The session stays as it is. -/
  | kept (hwipes : wipes e = false) (hadded : sdk.MoveLaws → added e = [])
      (hsame : SameSession e.before.gContext e.after.gContext)
  /-- A new session, or a failed attempt to open one. -/
  | opened (hopens : opens e = true) {data : List UInt8}
      (hdata : e.event.command.bind (·.data) = some data)
      (hpath : readBip32Path sdk (.fresh .confirmTransaction) (.ofBytes data)
        = (opensWell e, e.after.gContext))
  /-- The session ends. -/
  | requested (hrequests : requests e = true) (hopens : opens e = false)
      (hreq : e.after.gContext.reqType = .confirmAddress)
  /-- The message of the session grows. -/
  | extended (hwipes : wipes e = false) {cmd : Command} {data : List UInt8} {d₁ : Device}
      (hstores : Stores sdk e.before cmd data d₁) (hadded : added e = data)
      (hsame : SameSession d₁.gContext e.after.gContext)

section Classify

variable {ui : Ui} {sdk : Sdk} {cx : Cx} {d d' : Device} {effects : List Effect} {cmd : Command}

theorem added_of_refused {sw : UInt16} (hsw : cmd.isChunk → sw ∈ refusals) (data : List UInt8) :
    added ⟨d, .apdu (some cmd), d', [.send sw data]⟩ = [] := by
  refine if_neg ?_
  rintro ⟨hchunk, hanswer⟩
  rw [refused_send, List.contains_eq_mem, decide_eq_false_iff_not] at hanswer
  exact hanswer (hsw hchunk)

theorem added_of_accepted {data : List UInt8} (hcmd : cmd.continuesSession)
    (hdata : cmd.data = some data) (hanswer : refused effects = false) :
    added ⟨d, .apdu (some cmd), d', effects⟩ = data := by
  refine (if_pos ⟨hcmd.isChunk, hanswer⟩).trans ?_
  rw [hdata, Option.getD_some]

theorem wipes_eq_false (hopens : ¬cmd.opensSession) (hrequests : ¬cmd.requestsKey) :
    wipes ⟨d, .apdu (some cmd), d', effects⟩ = false := by
  simp [wipes, opens, requests, commands, Event.command, hopens, hrequests]

theorem progress_stores {data : List UInt8} {d₁ : Device} (hstores : Stores sdk d cmd data d₁)
    (hanswer : refused effects = false)
    (hsame : SameSession d₁.gContext d'.gContext) :
    Progress sdk ⟨d, .apdu (some cmd), d', effects⟩ :=
  .extended (wipes_eq_false hstores.continues.not_opens hstores.continues.not_requests) hstores
    (added_of_accepted hstores.continues hstores.data_eq hanswer) hsame

/-- **Every entry is of one of the four kinds.** -/
theorem happens_progress {event : Event} (h : Happens ui sdk cx d event d' effects) :
    Progress sdk ⟨d, event, d', effects⟩ := by
  cases h with
  | @outside parsed sw data hcmd =>
      cases parsed with
      | none => exact .kept rfl (fun _ => rfl) (.refl _)
      | some cmd =>
          obtain ⟨hopens, -, hrequests, hchunk⟩ := hcmd cmd rfl
          apply Progress.kept (wipes_eq_false hopens hrequests) _ (.refl _)
          intro _
          apply added_of_refused
          intro hc
          rcases hchunk hc with rfl | rfl <;> decide
  | @opened cmd data hcmd hdata ok ctx hpath =>
      refine .opened ?_ hdata ?_
      · simp [opens, commands, Event.command, hcmd]
      · rw [← Command.buffer_eq hdata, hpath]
        cases ok <;> simp [opensWell, opens, commands, Event.command, hcmd, answers, swOk,
          swWrongDataLength]
  | @requested cmd data hcmd hdata d' effects hrun =>
      refine .requested ?_ ?_ (handlerGetPublicKey_spec hrun).reqType
      · simp [requests, commands, Event.command, hcmd]
      · simp [opens, commands, Event.command, hcmd.not_opens]
  | badState hcmd hreq =>
      exact .kept (wipes_eq_false hcmd.not_opens hcmd.not_requests)
        (fun _ => added_of_refused (fun _ => by decide) _) (.refl _)
  | wrongTxLength hcmd hreq hlong =>
      exact .kept (wipes_eq_false hcmd.not_opens hcmd.not_requests)
        (fun _ => added_of_refused (fun _ => by decide) _) (.refl _)
  | @unmoved cmd data hcmd hdata hreq hmove =>
      apply Progress.kept (wipes_eq_false hcmd.not_opens hcmd.not_requests) _ (.refl _)
      intro hlaws
      exact absurd hmove (by rw [(hlaws.moves hdata).1]; decide)
  | stored hstores hmore =>
      exact progress_stores hstores (by rw [refused_send]; decide) (.refl _)
  | parsingFail hstores hlast hparse hstatus =>
      exact progress_stores hstores (by rw [refused_send]; decide) ⟨rfl, rfl, rfl, rfl, rfl⟩
  | hashFail hstores hlast hparse hash hhash =>
      exact progress_stores hstores (by rw [refused_send]; decide) ⟨rfl, rfl, rfl, rfl, rfl⟩
  | amountFail hstores hlast hparse hhash hamount =>
      exact progress_stores hstores (by rw [refused_send]; decide) ⟨rfl, rfl, rfl, rfl, rfl⟩
  | reviewed hstores hlast hparse hhash hamount =>
      refine progress_stores hstores rfl ?_
      cases ui <;> exact ⟨rfl, rfl, rfl, rfl, rfl⟩
  | moved hdecides screen hscreen hflow => exact .kept rfl (fun _ => rfl) (.refl _)
  | decidedPubkey hdecides hvalidate screen hscreen =>
      obtain ⟨rfl, -⟩ := validatePubkey_spec hvalidate
      exact .kept rfl (fun _ => rfl) (.refl _)
  | decidedTransaction hdecides hvalidate screen hscreen =>
      obtain ⟨⟨_, _, _, _, rfl, -⟩, -⟩ := validateTransaction_spec hvalidate
      exact .kept rfl (fun _ => rfl) ⟨rfl, rfl, rfl, rfl, rfl⟩

end Classify

/-! ### The context follows the session -/

section Follow

variable {ui : Ui} {sdk : Sdk} {calls : Cx → Prop} {trace : List Entry} {d : Device}

theorem step_happens {e : Entry}
    (h : (app ui sdk calls).Step e.before e.event e.after e.output) :
    ∃ cx, calls cx ∧ Happens ui sdk cx e.before e.event e.after e.output := by
  obtain ⟨cx, hcx, hnext⟩ := h
  exact ⟨cx, hcx, next_happens hnext⟩

theorem step_progress {e : Entry}
    (h : (app ui sdk calls).Step e.before e.event e.after e.output) : Progress sdk e := by
  obtain ⟨cx, -, hhappens⟩ := step_happens h
  exact happens_progress hhappens

/-- **The request type follows the last wipe.** It is `CONFIRM_TRANSACTION` exactly when that was a
SIGN_TX, answered in whichever way. -/
theorem reqType_iff (run : Run (app ui sdk calls) trace d) :
    d.gContext.reqType = .confirmTransaction ↔ ∃ e, lastWipe trace = some e ∧ opens e = true := by
  apply run.tracks fun trace d => d.gContext.reqType = .confirmTransaction
    ↔ ∃ e, lastWipe trace = some e ∧ opens e = true
  · simp [app, Device.boot, GlobalCtx.zero, lastWipe]
  · intro trace e ih step
    cases step_progress step with
    | kept hwipes _ hsame => rw [hsame.reqType, lastWipe_of_not_wipes hwipes, ih]
    | opened hopens _ hpath =>
        obtain ⟨_, _, hframe⟩ := readBip32Path_frame hpath
        rw [lastWipe_of_wipes (wipes_of_opens hopens), hframe]
        simp [GlobalCtx.fresh, hopens]
    | requested hrequests hopens hreq =>
        rw [lastWipe_of_wipes (wipes_of_requests hrequests)]
        simp [hreq, hopens]
    | extended hwipes hstores _ hsame =>
        obtain ⟨_, _, rfl⟩ := hstores.frame
        rw [hsame.reqType, lastWipe_of_not_wipes hwipes]
        exact ih

/-- **The bytes received follow the message.** -/
theorem rawTx_eq_message (hmove : sdk.MoveLaws) (run : Run (app ui sdk calls) trace d)
    (hreq : d.gContext.reqType = .confirmTransaction) :
    d.gContext.txInfo.rawTxLen ≤ maxTransactionLen
      ∧ d.gContext.txInfo.received = message trace := by
  revert hreq
  apply run.tracks fun trace d => d.gContext.reqType = .confirmTransaction →
    d.gContext.txInfo.rawTxLen ≤ maxTransactionLen
      ∧ d.gContext.txInfo.received = message trace
  · simp [app, Device.boot, GlobalCtx.zero]
  · intro trace e ih step hreq
    cases step_progress step with
    | kept hwipes hadded hsame =>
        rw [hsame.reqType] at hreq
        rw [hsame.rawTxLen, hsame.received, message_of_not_opens (opens_of_not_wipes hwipes),
          hadded hmove, List.append_nil]
        exact ih hreq
    | opened hopens _ hpath =>
        obtain ⟨_, _, hframe⟩ := readBip32Path_frame hpath
        rw [hframe, message_of_opens hopens]
        simp [GlobalCtx.fresh, GlobalCtx.zero, TransactionCtx.received]
    | requested _ _ hreq' =>
        rw [hreq'] at hreq
        cases hreq
    | extended hwipes hstores hadded hsame =>
        obtain ⟨hlen, hraw⟩ := hstores.received hmove
        rw [hsame.rawTxLen, hsame.received, message_of_not_opens (opens_of_not_wipes hwipes), hraw,
          hadded, (ih hstores.reqType).2]
        exact ⟨hstores.rawTxLen_le, rfl⟩

theorem received_grows (hmove : sdk.MoveLaws) {newer older : List Entry} {e : Entry}
    (run : Run (app ui sdk calls) (newer ++ e :: older) d)
    (hnewer : ∀ x ∈ newer, wipes x = false) :
    e.after.gContext.txInfo.received <+: d.gContext.txInfo.received := by
  induction newer generalizing d with
  | nil =>
      obtain ⟨-, -, rfl⟩ := run.last
      exact List.prefix_refl _
  | cons newest newer ih =>
      obtain ⟨run', step, rfl⟩ := run.last
      have hgrown := ih run' fun x hx => hnewer x (List.mem_cons_of_mem _ hx)
      have hwipes := hnewer newest List.mem_cons_self
      cases step_progress step with
      | kept _ _ hsame => rwa [hsame.received]
      | opened hopens => rw [wipes_of_opens hopens] at hwipes; cases hwipes
      | requested hrequests => rw [wipes_of_requests hrequests] at hwipes; cases hwipes
      | extended _ hstores _ hsame =>
          rw [hsame.received, (hstores.received hmove).2]
          exact hgrown.trans (List.prefix_append _ _)

/-- **The path follows the session's opening command**, and is a proper one. -/
theorem path_of_sessionPath (hread : sdk.ReadLaws) (hpath : sdk.PathLaws)
    (run : Run (app ui sdk calls) trace d) {path : List UInt32}
    (hsession : sessionPath trace = some path) :
    d.gContext.bip32Path.toList.take d.gContext.bip32PathLen.toNat = path
      ∧ 0 < d.gContext.bip32PathLen.toNat ∧ d.gContext.bip32PathLen.toNat ≤ maxBip32Path := by
  have hfollows : ∀ path, sessionPath trace = some path →
      d.gContext.bip32Path.toList.take d.gContext.bip32PathLen.toNat = path
        ∧ 0 < d.gContext.bip32PathLen.toNat ∧ d.gContext.bip32PathLen.toNat ≤ maxBip32Path := by
    apply run.tracks fun trace d => ∀ path, sessionPath trace = some path →
      d.gContext.bip32Path.toList.take d.gContext.bip32PathLen.toNat = path
        ∧ 0 < d.gContext.bip32PathLen.toNat ∧ d.gContext.bip32PathLen.toNat ≤ maxBip32Path
    · simp [sessionPath, lastWipe]
    intro trace e ih step path hsession
    cases step_progress step with
    | kept hwipes _ hsame =>
        rw [sessionPath_of_not_wipes hwipes] at hsession
        rw [hsame.path, hsame.pathLen]
        exact ih path hsession
    | opened hopens hdata hread' =>
        simp only [sessionPath, lastWipe_of_wipes (wipes_of_opens hopens)] at hsession
        split_ifs at hsession with hwell
        rw [hwell] at hread'
        obtain ⟨hcarried, hpos, hmax⟩ := readBip32Path_ok hread hpath hread'
        rw [carries, if_pos hopens, hdata, Option.bind_some, hcarried] at hsession
        exact ⟨Option.some.inj hsession, hpos, hmax⟩
    | requested hrequests hopens _ =>
        simp [sessionPath, lastWipe_of_wipes (wipes_of_requests hrequests), opensWell, hopens]
          at hsession
    | extended hwipes hstores _ hsame =>
        obtain ⟨_, _, rfl⟩ := hstores.frame
        rw [sessionPath_of_not_wipes hwipes] at hsession
        rw [hsame.path, hsame.pathLen]
        exact ih path hsession
  exact hfollows path hsession

end Follow

end BoilerplateApp
