import BoilerplateApp.Proof.Keys

/-!
# What the handlers leave behind

One specification for each function that a case of `Happens` mentions: what a GET_PUBLIC_KEY, a
stored chunk and a decision change, and what they leave alone.
-/

namespace BoilerplateApp

variable {ui : Ui} {sdk : Sdk} {cx : Cx} {d d' : Device} {effects : List Effect}

/-! ### GET_PUBLIC_KEY -/

/-- The device after a GET_PUBLIC_KEY: an address request, with the screen as it was or an address
review, and nothing that concerns a transaction. -/
structure KeyRequested (ui : Ui) (d d' : Device) (effects : List Effect) : Prop where
  reqType : d'.gContext.reqType = .confirmAddress
  state : d'.gContext.state = .none
  screen : (d'.screen = d.screen ∧ d'.gValidateCallback = d.gValidateCallback)
    ∨ ∃ d₀ : Device, d₀.gValidateCallback = d.gValidateCallback
      ∧ d' = d₀.showing ui .confirmAddress
  no_review : .startReview .confirmTransaction ∉ effects
  no_sign : ∀ path len hash, .sign path len hash ∉ effects

theorem KeyRequested.of_send (hreq : d'.gContext.reqType = .confirmAddress)
    (hstate : d'.gContext.state = .none) (hscreen : d'.screen = d.screen)
    (hcallback : d'.gValidateCallback = d.gValidateCallback) (sw : UInt16) (data : List UInt8) :
    KeyRequested ui d d' [.send sw data] :=
  ⟨hreq, hstate, Or.inl ⟨hscreen, hcallback⟩, by simp, by simp⟩

theorem handlerGetPublicKey_spec {cdata : Buffer} {display : Bool}
    (h : handlerGetPublicKey ui sdk cx d cdata display = some (d', effects)) :
    KeyRequested ui d d' effects := by
  have hfresh : ∀ {ok : Bool} {ctx : GlobalCtx},
      readBip32Path sdk (.fresh .confirmAddress) cdata = (ok, ctx) →
      ctx.reqType = .confirmAddress ∧ ctx.state = .none := by
    intro ok ctx hpath
    obtain ⟨_, _, rfl⟩ := readBip32Path_frame hpath
    exact ⟨rfl, rfl⟩
  cases handlerGetPublicKey_requests h with
  | refused hpath | underivable hpath | replied hpath | pathFail hpath =>
      obtain ⟨hreq, hstate⟩ := hfresh hpath
      apply KeyRequested.of_send
      · exact hreq
      · exact hstate
      · rfl
      · rfl
  | addressFail hpath =>
      obtain ⟨hreq, hstate⟩ := hfresh hpath
      refine .of_send ?_ ?_ (by simp) (by simp) _ _ <;> rw [Device.setAddress_gContext]
      · exact hreq
      · exact hstate
  | shown hpath =>
      obtain ⟨hreq, hstate⟩ := hfresh hpath
      refine ⟨?_, ?_, Or.inr ⟨_, by simp, rfl⟩, by simp, by simp⟩ <;>
        rw [Device.showing_gContext, Device.setAddress_gContext]
      · exact hreq
      · exact hstate

/-! ### Chunks -/

theorem TransactionCtx.length_received {tx : TransactionCtx} (h : tx.rawTxLen ≤ maxTransactionLen) :
    tx.received.length = tx.rawTxLen :=
  List.length_take_of_le (by rwa [tx.rawTx.toList_length])

theorem Sdk.MoveLaws.moves (hmove : sdk.MoveLaws) {cmd : Command} {data : List UInt8}
    (hdata : cmd.data = some data) :
    (sdk.bufferMove ⟨data, cmd.lc.toNat, 0⟩ cmd.lc.toNat).1 = true
      ∧ (sdk.bufferMove ⟨data, cmd.lc.toNat, 0⟩ cmd.lc.toNat).2.1 = data := by
  have hmoved := hmove.move (.ofBytes data) cmd.lc.toNat (Buffer.valid_ofBytes data) (by
    rw [Buffer.unread_ofBytes, cmd.length_data data hdata])
  rwa [Buffer.unread_ofBytes, ← Command.buffer_eq hdata] at hmoved

section Stores

variable {cmd : Command} {data : List UInt8} {d₁ : Device}

theorem Stores.received (hmove : sdk.MoveLaws) (h : Stores sdk d cmd data d₁) :
    d₁.gContext.txInfo.rawTxLen = d.gContext.txInfo.rawTxLen + data.length
      ∧ d₁.gContext.txInfo.received = d.gContext.txInfo.received ++ data := by
  obtain ⟨rawTx, hwrite, rfl⟩ := h.written
  have hlc := cmd.length_data data h.data_eq
  rw [(hmove.moves h.data_eq).2] at hwrite
  obtain ⟨hfits, hraw⟩ := Region.toList_of_write hwrite
  refine ⟨by rw [hlc], ?_⟩
  simp only [TransactionCtx.received, ← hlc, hraw]
  exact Region.take_overlay (by rwa [List.Vector.toList_length])

theorem Stores.rawTxLen_le (h : Stores sdk d cmd data d₁) :
    d₁.gContext.txInfo.rawTxLen ≤ maxTransactionLen := by
  obtain ⟨rawTx, -, rfl⟩ := h.written
  exact h.fits

theorem Stores.frame (h : Stores sdk d cmd data d₁) :
    ∃ rawTx rawTxLen, d₁ = { d with
      gContext.txInfo.rawTx := rawTx, gContext.txInfo.rawTxLen := rawTxLen } := by
  obtain ⟨rawTx, -, rfl⟩ := h.written
  exact ⟨rawTx, _, rfl⟩

theorem Stores.reqType_eq (h : Stores sdk d cmd data d₁) :
    d₁.gContext.reqType = .confirmTransaction := by
  obtain ⟨_, _, rfl⟩ := h.frame
  exact h.reqType

theorem Stores.state_eq (h : Stores sdk d cmd data d₁) :
    d₁.gContext.state = d.gContext.state := by
  obtain ⟨_, _, rfl⟩ := h.frame
  rfl

end Stores

section Chunk

variable {cmd : Command} {data : List UInt8}

theorem exists_stores (hmove : sdk.MoveLaws) (hcmd : cmd.continuesSession)
    (hdata : cmd.data = some data) (hreq : d.gContext.reqType = .confirmTransaction)
    (hfits : d.gContext.txInfo.rawTxLen + data.length ≤ maxTransactionLen) :
    ∃ d₁, Stores sdk d cmd data d₁ := by
  obtain ⟨hmoved, hmovedData⟩ := hmove.moves hdata
  obtain ⟨rawTx, hwrite, -⟩ := Region.write_of_fits d.gContext.txInfo.rawTx hfits
  have hlc := cmd.length_data data hdata
  rw [← hmovedData] at hwrite
  exact ⟨_, hcmd, hdata, hreq, hlc ▸ hfits, hmoved, rawTx, hwrite, rfl⟩

theorem Stores.next_eq {d₁ : Device} (h : Stores sdk d cmd data d₁) :
    Device.next ui sdk cx d (.apdu (some cmd))
      = if cmd.p2 = p2More then some (d₁, [.send swOk []]) else reviewRawTx ui sdk cx d₁ := by
  obtain ⟨rawTx, hwrite, rfl⟩ := h.written
  rw [next_signTx (Or.inr h.continues) h.data_eq, handlerSignTx, if_neg h.continues.p1_ne_zero]
  rcases hmove : sdk.bufferMove ⟨data, cmd.lc.toNat, 0⟩ cmd.lc.toNat with ⟨ok, moved, buf⟩
  have hok := h.moved
  rw [hmove] at hok hwrite
  dsimp only at hok hwrite
  simp only [if_neg (not_not.mpr h.reqType), if_neg (Nat.not_lt.mpr h.fits), hok,
    Bool.not_true, Bool.false_eq_true, if_false, hwrite]
  rcases h.continues.2.2.1 with hp2 | hp2
  · rw [hp2]
    rfl
  · rw [hp2]
    rfl

end Chunk

/-! ### Decisions -/

theorem validatePubkey_spec {choice : Bool} (h : validatePubkey d choice = some (d', effects)) :
    d' = d ∧ ∃ sw data, effects = [.send sw data] := by
  cases choice <;> obtain ⟨rfl, rfl⟩ := Prod.mk.inj (Option.some.inj h) <;>
    exact ⟨rfl, _, _, rfl⟩

theorem cryptoSignMessage_spec (cx : Cx) (ctx : GlobalCtx) :
    ∃ ok signature signatureLen v, cryptoSignMessage cx ctx
      = (ok, { ctx with
          txInfo.signature := signature, txInfo.signatureLen := signatureLen, txInfo.v := v },
        .sign ctx.bip32Path ctx.bip32PathLen ctx.txInfo.mHash) := by
  rw [cryptoSignMessage]
  dsimp only
  split
  · exact ⟨_, _, _, _, rfl⟩
  · exact ⟨_, _, _, _, rfl⟩

/-- A decision about a transaction writes the state and the signature, and signs the hash in the
context when it is an approval. -/
theorem validateTransaction_spec {choice : Bool}
    (h : validateTransaction cx d choice = some (d', effects)) :
    (∃ state signature signatureLen v, d' = { d with
        gContext.state := state
        gContext.txInfo.signature := signature
        gContext.txInfo.signatureLen := signatureLen
        gContext.txInfo.v := v }
      ∧ (state = .none ∨ choice = true ∧ state = .approved))
    ∧ ∃ sw data, effects = (if choice then
        [.sign d.gContext.bip32Path d.gContext.bip32PathLen d.gContext.txInfo.mHash] else [])
      ++ [.send sw data] := by
  cases choice with
  | false =>
      obtain ⟨rfl, rfl⟩ := Prod.mk.inj (Option.some.inj h)
      exact ⟨⟨_, _, _, _, rfl, Or.inl rfl⟩, _, _, rfl⟩
  | true =>
      obtain ⟨ok, signature, signatureLen, v, hcrypto⟩ :=
        cryptoSignMessage_spec cx { d.gContext with state := .approved }
      simp only [validateTransaction, if_true, hcrypto] at h
      obtain ⟨⟨d₁, effects₁⟩, hreply, heq⟩ := Option.map_eq_some_iff.mp h
      obtain ⟨rfl, rfl⟩ := Prod.mk.inj heq
      cases ok with
      | false =>
          obtain ⟨rfl, rfl⟩ := Prod.mk.inj (Option.some.inj hreply)
          exact ⟨⟨_, _, _, _, rfl, Or.inl rfl⟩, _, _, rfl⟩
      | true =>
          simp only [Bool.not_true, Bool.false_eq_true, if_false, helperSendResponseSig] at hreply
          split at hreply
          · cases hreply
          · obtain ⟨rfl, rfl⟩ := Prod.mk.inj (Option.some.inj hreply)
            exact ⟨⟨_, _, _, _, rfl, Or.inr ⟨rfl, rfl⟩⟩, _, _, rfl⟩

end BoilerplateApp
