import BoilerplateApp.ClientCommands
import BoilerplateApp.Proof.ClientReader
import BoilerplateApp.Proof.EndToEnd
import BoilerplateApp.Proof.Protocol

/-!
# The client and the device: every command

A device with a wallet serves its client without a history: what a call of the client comes to is a
function of the call and of the user's decision, whatever was called before and in whatever state the
device was found. Each exchange has its rule of total correctness, and the rules of conversations put
them together.
-/

namespace BoilerplateApp.Client

open Transition Conversation

/-! ### Exchanges -/

section Exchanges

variable {ui : Ui} {sdk : Sdk} {calls : Cx → Prop} {choice : Bool} {d d' : Device} {apdu : Apdu}
  {cmd : Command} {sw : UInt16} {data : List UInt8}

theorem Hidden.steps {trace : List Entry} (hhidden : Hidden ui trace) (hscreen : OnScreen ui d)
    (hsteps : Steps (app ui sdk calls) d trace d') :
    OnScreen ui d' ∧ d'.gContext = d.gContext ∧ d'.screen.review = d.screen.review := by
  induction hsteps with
  | refl => exact ⟨hscreen, rfl, rfl⟩
  | step entry _ hstep ih =>
      obtain ⟨hentry, hrest⟩ := List.forall_mem_cons.mp hhidden
      obtain ⟨hbefore, hctx, hreview⟩ := ih hrest
      obtain ⟨before, event, after, output⟩ := entry
      obtain ⟨action, hevent, hdecides⟩ := hentry
      obtain ⟨cx, -, hnext⟩ := hstep
      dsimp only at hbefore hctx hreview hevent hdecides hnext ⊢
      rw [hevent] at hnext
      obtain ⟨screen, rfl, -, hafter, hsame⟩ := userAct_undecided hbefore hdecides hnext
      exact ⟨hafter, hctx, hsame.trans hreview⟩

/-- An APDU that is answered at once. -/
theorem yields_replied {Post : Device → Prop} (hcalls : ∃ cx, calls cx)
    (hcmd : apdu.command = some cmd)
    (h : ∀ cx, calls cx → ∃ d', Device.next ui sdk cx d (.apdu (some cmd))
      = some (d', [.send sw data]) ∧ Post d') :
    Yields (Exchanges ui sdk calls choice d apdu) (sw, data) Post where
  exists_outcome := by
    obtain ⟨cx, hcx⟩ := hcalls
    obtain ⟨d', hnext, -⟩ := h cx hcx
    exact ⟨d', .replied hcmd ⟨cx, hcx, hnext⟩⟩
  of_outcome := by
    rintro d' reply hexchange
    cases hexchange with
    | replied hcmd' hstep =>
        obtain rfl := Option.some.inj (hcmd.symm.trans hcmd')
        obtain ⟨cx, hcx, hnext⟩ := hstep
        obtain ⟨d₁, hnext', hpost⟩ := h cx hcx
        obtain ⟨rfl, heffects⟩ := Prod.mk.inj (Option.some.inj (hnext.symm.trans hnext'))
        obtain ⟨rfl, rfl⟩ := Effect.send.inj (List.cons.inj heffects).1
        exact ⟨rfl, hpost⟩
    | decided hcmd' hstart =>
        obtain rfl := Option.some.inj (hcmd.symm.trans hcmd')
        obtain ⟨cx, hcx, hnext⟩ := hstart
        obtain ⟨d₁, hnext', -⟩ := h cx hcx
        cases hnext.symm.trans hnext'

/-- An APDU that starts a review, which is answered when the user decides it. -/
theorem yields_decided {P : GlobalCtx → Prop} (hcalls : ∃ cx, calls cx)
    (hcmd : apdu.command = some cmd) {request : RequestType}
    (hstart : ∀ cx, calls cx → ∃ d₁, Device.next ui sdk cx d (.apdu (some cmd))
        = some (d₁, [.startReview request])
      ∧ OnScreen ui d₁ ∧ d₁.screen.review = some request ∧ P d₁.gContext)
    (hdecide : ∀ cx d₂, calls cx → P d₂.gContext → ∃ d₃ effects,
      validate cx d₂ request choice = some (d₃, effects)
        ∧ ∀ sw' data', .send sw' data' ∈ effects ↔ sw' = sw ∧ data' = data) :
    Yields (Exchanges ui sdk calls choice d apdu) (sw, data) (OnScreen ui) where
  exists_outcome := by
    obtain ⟨cx, hcx⟩ := hcalls
    obtain ⟨d₁, hnext, hscreen, hreview, hctx⟩ := hstart cx hcx
    have hsystem : ∀ d action d' effects, Device.decides ui d action = none →
        Device.next ui sdk cx d (.user action) = some (d', effects) →
        (app ui sdk calls).Step d (.user action) d' effects :=
      fun _ _ _ _ _ hnext => ⟨cx, hcx, hnext⟩
    obtain ⟨trace, screen, action, hsteps, hhidden, -, hdecides, hact⟩ :=
      exists_steps_decides hsystem hscreen hreview choice
    obtain ⟨d₃, effects, hvalidate, hsends⟩ := hdecide cx { d₁ with screen := screen } hcx hctx
    rw [hvalidate, Option.map_some] at hact
    exact ⟨_, .decided hcmd ⟨cx, hcx, hnext⟩ hsteps hhidden hdecides ⟨cx, hcx, hact⟩
      ((hsends sw data).mpr ⟨rfl, rfl⟩)⟩
  of_outcome := by
    rintro d' reply hexchange
    cases hexchange with
    | replied hcmd' hstep =>
        obtain rfl := Option.some.inj (hcmd.symm.trans hcmd')
        obtain ⟨cx, hcx, hnext⟩ := hstep
        obtain ⟨d₁, hnext', -⟩ := hstart cx hcx
        cases hnext.symm.trans hnext'
    | @decided cmd' hcmd' d₁ d₂ _ _ request' hstep trace htouches hhidden action hdecides effects
        hclose sw' data' hsend =>
        obtain rfl := Option.some.inj (hcmd.symm.trans hcmd')
        obtain ⟨cx, hcx, hnext⟩ := hstep
        obtain ⟨d₁', hnext', hscreen, hreview, hctx⟩ := hstart cx hcx
        obtain ⟨rfl, -⟩ := Prod.mk.inj (Option.some.inj (hnext.symm.trans hnext'))
        obtain ⟨hscreen₂, hctx₂, hreview₂⟩ := hhidden.steps hscreen htouches
        have hrequest := (review_of_decides hscreen₂ hdecides).symm.trans (hreview₂.trans hreview)
        obtain rfl := Option.some.inj hrequest
        obtain ⟨cx', hcx', hact⟩ := hclose
        rw [← hctx₂] at hctx
        obtain ⟨d₃, effects', hvalidate, hsends⟩ := hdecide cx' d₂ hcx' hctx
        have hact' := userAct_decides cx' hdecides
        rw [hvalidate, Option.map_some] at hact'
        obtain ⟨rfl, rfl⟩ := Prod.mk.inj (Option.some.inj (hact.symm.trans hact'))
        obtain ⟨rfl, rfl⟩ := (hsends _ _).mp hsend
        exact ⟨rfl, belongsTo_afterDecision ui _⟩

/-- The screen stays one of the interface's. -/
theorem yields_replied_onScreen (hcalls : ∃ cx, calls cx) (hscreen : OnScreen ui d)
    (hcmd : apdu.command = some cmd)
    (h : ∀ cx, calls cx → ∃ d', Device.next ui sdk cx d (.apdu (some cmd))
      = some (d', [.send sw data])) :
    Yields (Exchanges ui sdk calls choice d apdu) (sw, data) (OnScreen ui) := by
  apply yields_replied hcalls hcmd
  intro cx hcx
  obtain ⟨d', hnext⟩ := h cx hcx
  exact ⟨d', hnext, onScreen_step hscreen hnext⟩

end Exchanges

/-! ### Paths -/

theorem Apdu.exists_command (a : Apdu) (hp1 : a.p1 < 256) (hne : a.data ≠ [])
    (hlen : a.data.length < 256) :
    ∃ cmd, a.command = some cmd ∧ cmd.cla = a.cla ∧ cmd.ins = a.ins
      ∧ cmd.p1 = UInt8.ofNat a.p1 ∧ cmd.p2 = a.p2 ∧ cmd.data = some a.data :=
  ⟨_, dif_pos ⟨hp1, hlen⟩, rfl, rfl, rfl, rfl, if_neg hne⟩

section Paths

variable {packDerivationPath : List UInt32 → List UInt8} {path : List UInt32}
  (hpack : PacksPaths packDerivationPath) (hsend : 1 + 4 * path.length ≤ maxApduLen)

include hpack hsend

theorem length_pack : (packDerivationPath path).length = 1 + 4 * path.length := by
  have hmax : maxApduLen = 255 := rfl
  rw [hpack path (by omega), List.length_cons, length_flatMap_encodeBE, Nat.add_comm]

theorem carriedPath_pack_none (hbad : path = [] ∨ maxBip32Path < path.length) :
    Command.carriedPath (packDerivationPath path) = none := by
  have hmax : maxApduLen = 255 := rfl
  have hcount : (UInt8.ofNat path.length).toNat = path.length := by
    rw [UInt8.toNat_ofNat']
    omega
  rw [hpack path (by omega), Command.carriedPath, hcount]
  rcases hbad with rfl | hlong
  · rfl
  · rw [if_neg (by omega)]

theorem exists_path_command (ins p1 p2 : UInt8) :
    ∃ cmd, Apdu.command ⟨cla, ins, p1.toNat, p2, packDerivationPath path⟩ = some cmd
      ∧ cmd.cla = cla ∧ cmd.ins = ins ∧ cmd.p1 = p1 ∧ cmd.p2 = p2
      ∧ cmd.data = some (packDerivationPath path) := by
  have hmax : maxApduLen = 255 := rfl
  have hlen := length_pack hpack hsend
  have hne : packDerivationPath path ≠ [] := by
    intro hnil
    rw [hnil, List.length_nil] at hlen
    omega
  obtain ⟨cmd, hcmd, hcla, hins, hp1, hp2, hdata⟩ :=
    Apdu.exists_command ⟨cla, ins, p1.toNat, p2, packDerivationPath path⟩ p1.toNat_lt hne (by
      dsimp only
      omega)
  exact ⟨cmd, hcmd, hcla, hins, hp1.trans UInt8.ofNat_toNat, hp2, hdata⟩

end Paths

/-! ### GET_PUBLIC_KEY -/

/-- The response to a GET_PUBLIC_KEY. -/
def keyResponse (w : Wallet) (choice : Bool) (path : List UInt32) (display : Bool) :
    UInt16 × List UInt8 :=
  if path = [] ∨ maxBip32Path < path.length then (swWrongDataLength, [])
  else if display ∧ 60 ≤ (pathText path).length then (swDisplayBip32PathFail, [])
  else if display ∧ !choice then (swDeny, [])
  else (swOk, keyReply (w.key path))

section Key

variable {ui : Ui} {sdk : Sdk} {w : Wallet} {choice : Bool} {d : Device} {cmd : Command}
  {packDerivationPath : List UInt32 → List UInt8} {path : List UInt32}

theorem validatePubkey_sends (pk : PubkeyCtx) (cx : Cx) {d₂ : Device}
    (hkey : d₂.gContext.pkInfo = pk) : ∃ d₃ effects,
    validate cx d₂ .confirmAddress choice = some (d₃, effects)
      ∧ ∀ sw data, .send sw data ∈ effects
        ↔ sw = (if choice then swOk else swDeny) ∧ data = (if choice then keyReply pk else []) := by
  cases choice with
  | false => exact ⟨_, _, rfl, fun sw data => by simp⟩
  | true => exact ⟨_, _, rfl, fun sw data => by simp [← hkey, keyReply]⟩

theorem yields_key (w : Wallet) (choice : Bool) (hsdk : sdk.Lawful) (htext : sdk.PathTextLaws)
    (hpack : PacksPaths packDerivationPath) (path : List UInt32)
    (hsend : 1 + 4 * path.length ≤ maxApduLen) (hscreen : OnScreen ui d) (p1 : UInt8)
    (hp1 : p1 ≤ 1) :
    Yields (Exchanges ui sdk w.Answers choice d
        ⟨cla, insGetPublicKey, p1.toNat, p2Last, packDerivationPath path⟩)
      (keyResponse w choice path (decide (p1 ≠ 0))) (OnScreen ui) := by
  have hcalls : ∃ cx, w.Answers cx := ⟨w.cx, w.answers_cx⟩
  obtain ⟨cmd, hcmd, hcla, hins, rfl, hp2, hdata⟩ :=
    exists_path_command hpack hsend insGetPublicKey p1 p2Last
  have hkey : cmd.requestsKey := ⟨hcla, hins, hp1, hp2, by simp [hdata]⟩
  have hrun : ∀ {cx d' effects}, Requests ui sdk cx d (.ofBytes (packDerivationPath path))
      (decide (cmd.p1 ≠ 0)) d' effects →
      Device.next ui sdk cx d (.apdu (some cmd)) = some (d', effects) := by
    intro cx d' effects hrequests
    rw [next_getPublicKey hkey hdata, Command.buffer_eq hdata, hrequests.run]
  rcases hresult : readBip32Path sdk (.fresh .confirmAddress) (.ofBytes (packDerivationPath path))
    with ⟨ok, ctx⟩
  have hisSome := Protocol.isSome_carriedPath hsdk.toReadLaws hsdk.toPathLaws
    (.fresh .confirmAddress) (packDerivationPath path)
  rw [hresult] at hisSome
  dsimp only at hisSome
  rw [keyResponse]
  split
  · next hbad =>
      rw [carriedPath_pack_none hpack hsend hbad] at hisSome
      obtain rfl : ok = false := hisSome.symm
      exact yields_replied_onScreen hcalls hscreen hcmd fun cx _ => ⟨_, hrun (.refused hresult)⟩
  · next hgood =>
      obtain ⟨hne, hlen⟩ := not_or.mp hgood
      have hcarried := hpack.carriedPath_pack (Nat.not_lt.mp hlen) (List.length_pos_of_ne_nil hne)
      rw [hcarried] at hisSome
      obtain rfl : ok = true := hisSome.symm
      obtain ⟨htake, hpos, hmax⟩ := readBip32Path_ok hsdk.toReadLaws hsdk.toPathLaws hresult
      obtain rfl := Option.some.inj (hcarried.symm.trans htake)
      have hderive : ∀ cx, w.Answers cx → cx.bip32DeriveGetPubkey256 ctx.bip32Path ctx.bip32PathLen
          = (cxOk, w.key (ctx.bip32Path.toList.take ctx.bip32PathLen.toNat)) :=
        fun cx hcx => hcx.derives _ _ hmax
      have hformat := Protocol.bip32PathFormat_iff htext hpos hmax
      by_cases hdisplay : cmd.p1 = 0
      · rw [if_neg (by simp [hdisplay]), if_neg (by simp [hdisplay])]
        exact yields_replied_onScreen hcalls hscreen hcmd fun cx hcx =>
          ⟨_, hrun (.replied hresult (hderive cx hcx) (by simp [hdisplay]))⟩
      have hshows : decide (cmd.p1 ≠ 0) = true := decide_eq_true hdisplay
      simp only [hshows, true_and]
      split
      · next hlong =>
          have hfail : (sdk.bip32PathFormat ctx.bip32Path ctx.bip32PathLen 60).1 = false :=
            Bool.eq_false_iff.mpr fun hok => hformat.mp hok hlong
          exact yields_replied_onScreen hcalls hscreen hcmd fun cx hcx =>
            ⟨_, hrun (.pathFail hresult (hderive cx hcx) hshows hfail)⟩
      · next hshort =>
          have hreview : Yields (Exchanges ui sdk w.Answers choice d
              ⟨cla, insGetPublicKey, cmd.p1.toNat, p2Last, packDerivationPath
                (ctx.bip32Path.toList.take ctx.bip32PathLen.toNat)⟩)
              (if choice then swOk else swDeny, if choice then
                keyReply (w.key (ctx.bip32Path.toList.take ctx.bip32PathLen.toNat)) else [])
              (OnScreen ui) := by
            apply yields_decided (P := fun after => after.pkInfo
              = w.key (ctx.bip32Path.toList.take ctx.bip32PathLen.toNat)) hcalls hcmd _
              fun cx d₂ _ hpk => validatePubkey_sends _ cx hpk
            intro cx hcx
            obtain ⟨address, haddress⟩ := Option.ne_none_iff_exists'.mp
              (Cx.HashSucceeds.addressFromPubkey ⟨hcx.hashes.1, fun message => by
                rw [hcx.hashes.2]⟩ (w.key _).rawPublicKey)
            refine ⟨_, hrun (.shown hresult (hderive cx hcx) hshows (hformat.mpr hshort) haddress),
              (onScreen_showing _ _).1, (onScreen_showing _ _).2, ?_⟩
            rw [Device.showing_gContext, Device.setAddress_gContext, Device.keyed_pkInfo]
          cases choice with
          | false => exact hreview
          | true => exact hreview

end Key

/-! ### SIGN_TX -/

/-- The reply with a signature of the wallet. -/
def signatureData (s : Signature) : List UInt8 :=
  UInt8.ofNat s.len :: s.der.toList.take s.len ++ [(s.info &&& cxEccinfoParityOdd).toUInt8]

/-- The response to the chunk with which `raw` is complete or too long. -/
def messageResponse (w : Wallet) (choice : Bool) (path : List UInt32) (raw : List UInt8) :
    UInt16 × List UInt8 :=
  if maxTransactionLen < raw.length then (swWrongTxLength, [])
  else if !Protocol.wellFormed raw then (swTxParsingFail, [])
  else if !choice then (swDeny, [])
  else (swOk, signatureData (w.sign path (w.keccak256 raw)))

section Sign

variable {ui : Ui} {sdk : Sdk} {w : Wallet} {choice : Bool} {d : Device} {cmd : Command}
  {packDerivationPath : List UInt32 → List UInt8} {path : List UInt32} {received piece : List UInt8}
  {idx : Nat} {p2 : UInt8}

theorem yields_opening_bad (hsdk : sdk.Lawful) (hpack : PacksPaths packDerivationPath)
    (hsend : 1 + 4 * path.length ≤ maxApduLen) (hscreen : OnScreen ui d)
    (hbad : path = [] ∨ maxBip32Path < path.length) :
    Yields (Exchanges ui sdk w.Answers choice d (signTxStart packDerivationPath path))
      (swWrongDataLength, []) (OnScreen ui) := by
  obtain ⟨cmd, hcmd, hcla, hins, hp1, hp2, hdata⟩ :=
    exists_path_command hpack hsend insSignTx p1Start p2More
  have hopens : cmd.opensSession := ⟨⟨hcla, hins⟩, hp1, hp2, by simp [hdata]⟩
  have hzero : cmd.p1 = 0 := hp1
  have hfails : (readBip32Path sdk (.fresh .confirmTransaction)
      (.ofBytes (packDerivationPath path))).1 = false := by
    rw [← Protocol.isSome_carriedPath hsdk.toReadLaws hsdk.toPathLaws,
      carriedPath_pack_none hpack hsend hbad]
    rfl
  rcases hresult : readBip32Path sdk (.fresh .confirmTransaction)
    (.ofBytes (packDerivationPath path)) with ⟨ok, ctx⟩
  rw [hresult] at hfails
  obtain rfl : ok = false := hfails
  apply yields_replied_onScreen ⟨w.cx, w.answers_cx⟩ hscreen hcmd
  intro cx _
  refine ⟨{ d with gContext := ctx }, ?_⟩
  rw [GlobalCtx.fresh] at hresult
  rw [next_signTx (Or.inl hopens) hdata, handlerSignTx, if_pos hzero, Command.buffer_eq hdata]
  simp only [hresult, Bool.not_false, if_true]
  rfl

theorem yields_opening (w : Wallet) (choice : Bool) (hsdk : sdk.Lawful)
    (hpack : PacksPaths packDerivationPath)
    (hscreen : OnScreen ui d) (hne : path ≠ []) (hmax : path.length ≤ maxBip32Path) :
    Yields (Exchanges ui sdk w.Answers choice d (signTxStart packDerivationPath path)) (swOk, [])
      (fun d' => OnScreen ui d' ∧ Receiving path [] d') := by
  obtain ⟨cmd, hcmd, hopens, hdata, hcarried⟩ :=
    exists_opening hpack (List.length_pos_of_ne_nil hne) hmax
  apply yields_replied ⟨w.cx, w.answers_cx⟩ hcmd
  intro cx _
  obtain ⟨d', hnext, hreceiving⟩ :=
    next_opens ui cx d hsdk.toReadLaws hsdk.toPathLaws hopens hdata hcarried
  exact ⟨d', hnext, onScreen_step hscreen hnext, hreceiving⟩

theorem yields_chunk (hsdk : sdk.Lawful) (hscreen : OnScreen ui d)
    (hreceiving : Receiving path received d) (hpos : 1 ≤ idx) (hmax : idx ≤ p1Max.toNat)
    (hpiece : 0 < piece.length ∧ piece.length ≤ maxApduLen)
    (hfits : received.length + piece.length ≤ maxTransactionLen) :
    Yields (Exchanges ui sdk w.Answers choice d ⟨cla, insSignTx, idx, p2More, piece⟩) (swOk, [])
      (fun d' => OnScreen ui d' ∧ Receiving path (received ++ piece) d') := by
  obtain ⟨cmd, hcmd, hcontinues, hp2, hdata⟩ :=
    exists_command_chunk hpos hmax (Or.inr rfl) hpiece
  obtain ⟨d', hstores, hreceived⟩ := hreceiving.stores hsdk.toMoveLaws hcontinues hdata hfits
  apply yields_replied ⟨w.cx, w.answers_cx⟩ hcmd
  intro cx _
  have hnext : Device.next ui sdk cx d (.apdu (some cmd)) = some (d', [.send swOk []]) := by
    rw [hstores.next_eq, if_pos hp2]
  exact ⟨d', hnext, onScreen_step hscreen hnext, hreceived⟩

theorem yields_tooLong (hscreen : OnScreen ui d) (hreceiving : Receiving path received d)
    (hpos : 1 ≤ idx) (hmax : idx ≤ p1Max.toNat) (hp2 : p2 = p2Last ∨ p2 = p2More)
    (hpiece : 0 < piece.length ∧ piece.length ≤ maxApduLen)
    (hlong : maxTransactionLen < received.length + piece.length) :
    Yields (Exchanges ui sdk w.Answers choice d ⟨cla, insSignTx, idx, p2, piece⟩)
      (swWrongTxLength, []) (OnScreen ui) := by
  obtain ⟨cmd, hcmd, hcontinues, -, hdata⟩ := exists_command_chunk hpos hmax hp2 hpiece
  apply yields_replied_onScreen ⟨w.cx, w.answers_cx⟩ hscreen hcmd
  intro cx _
  refine ⟨d, ?_⟩
  rw [← hreceiving.rawTxLen, cmd.length_data piece hdata] at hlong
  rw [next_signTx (Or.inr hcontinues) hdata, handlerSignTx, if_neg hcontinues.p1_ne_zero,
    if_neg (not_not.mpr hreceiving.reqType), if_pos hlong, ioSendSw]

theorem validateTransaction_sends (hmax : path.length ≤ maxBip32Path) (hash : Bytes 32) {cx : Cx}
    (hcx : w.Answers cx) {d₂ : Device} (hlen : d₂.gContext.bip32PathLen.toNat = path.length)
    (hpath : d₂.gContext.bip32Path.toList.take path.length = path)
    (hhash : d₂.gContext.txInfo.mHash = hash) : ∃ d₃ effects,
    validate cx d₂ .confirmTransaction choice = some (d₃, effects)
      ∧ ∀ sw data, .send sw data ∈ effects ↔ sw = (if choice then swOk else swDeny)
        ∧ data = (if choice then signatureData (w.sign path hash) else []) := by
  cases choice with
  | false => exact ⟨_, _, rfl, fun sw data => by simp⟩
  | true =>
      have hsigns := hcx.signs d₂.gContext.bip32Path d₂.gContext.bip32PathLen
        d₂.gContext.txInfo.mHash (hlen ▸ hmax)
      rw [hlen, hpath, hhash] at hsigns
      rw [← hhash] at hsigns
      obtain ⟨d₃, hvalidate⟩ := validateTransaction_of_signed hsigns rfl
        (w.sign path d₂.gContext.txInfo.mHash).len_le
      refine ⟨d₃, _, hvalidate, fun sw data => ?_⟩
      simp [signatureData, hhash]

theorem yields_last (hsdk : sdk.Lawful) (hscreen : OnScreen ui d)
    (hreceiving : Receiving path received d) (hpath : path.length ≤ maxBip32Path) (hpos : 1 ≤ idx)
    (hmax : idx ≤ p1Max.toNat) (hpiece : 0 < piece.length ∧ piece.length ≤ maxApduLen)
    (hfits : received.length + piece.length ≤ maxTransactionLen)
    (hharmless : ¬Overruns sdk.sizeBits (received ++ piece)) :
    Yields (Exchanges ui sdk w.Answers choice d ⟨cla, insSignTx, idx, p2Last, piece⟩)
      (messageResponse w choice path (received ++ piece)) (OnScreen ui) := by
  obtain ⟨cmd, hcmd, hcontinues, hp2, hdata⟩ :=
    exists_command_chunk hpos hmax (Or.inl rfl) hpiece
  have hshort : ¬maxTransactionLen < (received ++ piece).length := by
    rw [List.length_append]
    exact Nat.not_lt.mpr hfits
  rw [messageResponse, if_neg hshort]
  cases hwell : Protocol.wellFormed (received ++ piece) with
  | false =>
      obtain ⟨d₁, hstores, hreceived⟩ := hreceiving.stores hsdk.toMoveLaws hcontinues hdata hfits
      rw [← hreceived.received_eq] at hharmless hwell
      obtain ⟨⟨status, buf, tx⟩, hparse⟩ := Option.ne_none_iff_exists'.mp
        (deserialized_ne_none hsdk.toReadLaws hstores.rawTxLen_le hharmless)
      have hstatus : status ≠ .parsingOk := by
        intro hok
        rw [(Protocol.wellFormed_of_deserialized hsdk.toReadLaws hstores.rawTxLen_le hparse).mpr hok]
          at hwell
        cases hwell
      apply yields_replied_onScreen ⟨w.cx, w.answers_cx⟩ hscreen hcmd
      intro cx _
      rw [Device.deserialized] at hparse
      rw [hstores.next_eq, if_neg (by rw [hp2]; decide)]
      simp only [reviewRawTx, hparse, if_pos hstatus]
      exact ⟨_, rfl⟩
  | true =>
      have hreview : Yields (Exchanges ui sdk w.Answers choice d ⟨cla, insSignTx, idx, p2Last, piece⟩)
          (if choice then swOk else swDeny, if choice then
            signatureData (w.sign path (w.keccak256 (received ++ piece))) else [])
          (OnScreen ui) := by
        apply yields_decided (P := fun ctx => ctx.bip32PathLen.toNat = path.length
          ∧ ctx.bip32Path.toList.take path.length = path
          ∧ ctx.txInfo.mHash = w.keccak256 (received ++ piece)) ⟨w.cx, w.answers_cx⟩ hcmd
        · intro cx hcx
          obtain ⟨d₁, hreceived, hnext⟩ := hreceiving.next_last ui hsdk hcx.hashes hcontinues hp2
            hdata (Protocol.wellFormed_iff.mp hwell)
          refine ⟨_, hnext, (onScreen_showing _ _).1, (onScreen_showing _ _).2, ?_⟩
          rw [Device.reviewing_gContext]
          exact ⟨hreceived.bip32PathLen, hreceived.bip32Path, rfl⟩
        · rintro cx d₂ hcx ⟨hlen, htake, hhash⟩
          exact validateTransaction_sends hpath _ hcx hlen htake hhash
      cases choice with
      | false => exact hreview
      | true => exact hreview

end Sign

/-! ### Messages in pieces -/

theorem length_of_splitMessage {message last : List UInt8} {messages : List (List UInt8)}
    {maxSize : Nat} (hsplit : splitMessage message maxSize = messages ++ [last]) :
    ∀ piece ∈ messages, piece.length = maxSize := by
  have hlength := congrArg List.length hsplit
  rw [length_splitMessage, List.length_append, List.length_singleton] at hlength
  rw [splitMessage, hlength, List.range_succ, List.map_append, List.map_singleton] at hsplit
  obtain ⟨hmessages, -⟩ := List.append_inj' hsplit rfl
  intro piece hpiece
  rw [← hmessages] at hpiece
  obtain ⟨i, hi, rfl⟩ := List.mem_map.mp hpiece
  have hcount := Nat.div_mul_le_self (message.length + maxSize - 1) maxSize
  rw [hlength] at hcount
  have hbefore : (i + 1) * maxSize ≤ messages.length * maxSize :=
    Nat.mul_le_mul_right maxSize (List.mem_range.mp hi)
  rw [Nat.succ_mul] at hcount hbefore
  rw [List.length_take, List.length_drop]
  omega

theorem exists_split {raw : List UInt8} (hne : raw ≠ []) :
    ∃ messages last, splitMessage raw maxApduLen = messages ++ [last]
      ∧ messages.flatten ++ last = raw ∧ (∀ piece ∈ messages, piece.length = maxApduLen)
      ∧ 0 < last.length ∧ last.length ≤ maxApduLen := by
  have hflatten : (splitMessage raw maxApduLen).flatten = raw := flatten_splitMessage (by decide)
  rcases List.eq_nil_or_concat (splitMessage raw maxApduLen) with hnil | ⟨messages, last, hconcat⟩
  · rw [hnil, List.flatten_nil] at hflatten
    exact absurd hflatten.symm hne
  · rw [List.concat_eq_append] at hconcat
    have hlast : last ∈ splitMessage raw maxApduLen := by
      rw [hconcat]
      exact List.mem_append_right _ (List.mem_singleton_self last)
    refine ⟨messages, last, hconcat, ?_, length_of_splitMessage hconcat,
      length_of_mem_splitMessage hlast⟩
    rw [← hflatten, hconcat, List.flatten_append, List.flatten_singleton]

section Pieces

variable {ui : Ui} {sdk : Sdk} {w : Wallet} {choice : Bool} {d : Device}
  {packDerivationPath : List UInt32 → List UInt8} {path : List UInt32} {received last : List UInt8}
  {messages : List (List UInt8)} {idx : Nat}

/-- The exchange of the pieces ends at the third one at the latest, for there is room for two. -/
theorem yields_pieces (hsdk : sdk.Lawful) (hpath : path.length ≤ maxBip32Path)
    (hlast : 0 < last.length ∧ last.length ≤ maxApduLen)
    (hpieces : ∀ piece ∈ messages, piece.length = maxApduLen) (hscreen : OnScreen ui d)
    (hreceiving : Receiving path received d) (hidx : received.length + 255 = 255 * idx)
    (hroom : received.length ≤ maxTransactionLen)
    (hharmless : ¬Overruns sdk.sizeBits (received ++ (messages.flatten ++ last))) :
    Yields (Performs (Exchanges ui sdk w.Answers choice) (fun r => r.1 = swOk) d
        (moreApdus idx messages ++ [⟨cla, insSignTx, idx + messages.length, p2Last, last⟩]))
      (messageResponse w choice path (received ++ (messages.flatten ++ last))) (OnScreen ui) := by
  have hapdu : maxApduLen = 255 := rfl
  have htx : maxTransactionLen = 510 := rfl
  have hp1 : p1Max.toNat = 3 := rfl
  have hrefused : ¬((swWrongTxLength, ([] : List UInt8)).1 = swOk) := by decide
  induction messages generalizing d received idx with
  | nil =>
      rw [List.flatten_nil, List.nil_append] at hharmless ⊢
      rw [moreApdus, List.nil_append, List.length_nil, Nat.add_zero]
      by_cases hfits : received.length + last.length ≤ maxTransactionLen
      · exact Conversation.yields_last (yields_last hsdk hscreen hreceiving hpath (by omega)
          (by omega) hlast hfits hharmless)
      · rw [messageResponse, if_pos (by rw [List.length_append]; omega)]
        exact Conversation.yields_last (yields_tooLong hscreen hreceiving (by omega) (by omega)
          (Or.inl rfl) hlast (by omega))
  | cons piece messages ih =>
      obtain ⟨hpiece, hrest⟩ := List.forall_mem_cons.mp hpieces
      have hsplit : received ++ ((piece :: messages).flatten ++ last)
          = received ++ piece ++ (messages.flatten ++ last) := by
        rw [List.flatten_cons, List.append_assoc, List.append_assoc]
      rw [hsplit] at hharmless ⊢
      rw [moreApdus, List.cons_append]
      by_cases hfits : received.length + piece.length ≤ maxTransactionLen
      · refine yields_more (yields_chunk hsdk hscreen hreceiving (by omega) (by omega) (by omega)
          hfits) rfl (by simp) ?_
        rintro d₁ ⟨hscreen₁, hreceiving₁⟩
        have hidx₁ : (received ++ piece).length + 255 = 255 * (idx + 1) := by
          rw [List.length_append]
          omega
        have hroom₁ : (received ++ piece).length ≤ maxTransactionLen := by
          rwa [List.length_append]
        have hmore := ih hrest hscreen₁ hreceiving₁ hidx₁ hroom₁ hharmless
        rwa [Nat.add_right_comm idx 1, Nat.add_assoc] at hmore
      · rw [messageResponse, if_pos (by rw [List.length_append, List.length_append]; omega)]
        exact yields_stopped (yields_tooLong hscreen hreceiving (by omega) (by omega) (Or.inr rfl)
          (by omega) (by omega)) hrefused

end Pieces

/-! ### Responses -/

theorem popSizePrefixed_append (data : List UInt8) (hlen : data.length < 256) (rest : List UInt8) :
    popSizePrefixed (UInt8.ofNat data.length :: (data ++ rest)) = some (rest, data.length, data) := by
  have hcount : (UInt8.ofNat data.length).toNat = data.length := by
    rw [UInt8.toNat_ofNat', Nat.mod_eq_of_lt hlen]
  rw [popSizePrefixed, hcount, List.drop_left, List.take_left]

theorem unpackGetPublicKeyResponse_reply (pk : PubkeyCtx) :
    unpackGetPublicKeyResponse (keyReply pk)
      = some (65, pk.rawPublicKey.toList, 32, pk.chainCode.toList) := by
  have hkey : pk.rawPublicKey.toList.length = 65 := pk.rawPublicKey.toList_length
  have hchain : pk.chainCode.toList.length = 32 := pk.chainCode.toList_length
  have hfirst := popSizePrefixed_append pk.rawPublicKey.toList (by omega)
    (UInt8.ofNat chaincodeLen :: pk.chainCode.toList)
  have hsecond := popSizePrefixed_append pk.chainCode.toList (by omega) []
  rw [hkey] at hfirst
  rw [hchain, List.append_nil] at hsecond
  have hreply : keyReply pk = UInt8.ofNat 65 :: (pk.rawPublicKey.toList
      ++ UInt8.ofNat chaincodeLen :: pk.chainCode.toList) := rfl
  have hlen : UInt8.ofNat chaincodeLen = UInt8.ofNat 32 := rfl
  rw [unpackGetPublicKeyResponse, hreply, hfirst]
  dsimp only [bind, Option.bind]
  rw [hlen, hsecond]
  rfl

theorem unpackSignTxResponse_data (s : Signature) : unpackSignTxResponse (signatureData s)
    = some (s.len, s.der.toList.take s.len, (s.info &&& cxEccinfoParityOdd).toNat) :=
  unpackSignTxResponse_reply ⟨cxOk, s.der, s.len, s.info⟩ s.len_le

/-! #### Responses that were cut -/

theorem popSizePrefixed_take (data : List UInt8) (hlen : data.length < 256) (rest : List UInt8)
    (k : Nat) : popSizePrefixed ((UInt8.ofNat data.length :: (data ++ rest)).take (k + 1))
      = some (rest.take (k - data.length), data.length, data.take k) := by
  have hcount : (UInt8.ofNat data.length).toNat = data.length := by
    rw [UInt8.toNat_ofNat', Nat.mod_eq_of_lt hlen]
  rw [List.take_succ_cons, popSizePrefixed, hcount, List.drop_take, List.drop_left, List.take_take,
    List.take_append, Nat.sub_eq_zero_of_le (Nat.min_le_left _ _), List.take_zero, List.append_nil]
  rcases Nat.le_total data.length k with hle | hle
  · rw [Nat.min_eq_left hle, List.take_of_length_le (le_refl _), List.take_of_length_le hle]
  · rw [Nat.min_eq_right hle]

/-- A key is noticed to be cut unless it is only its chain code that misses bytes. -/
theorem unpackGetPublicKeyResponse_cut (pk : PubkeyCtx) (k : Nat) :
    (unpackGetPublicKeyResponse ((keyReply pk).take k)).isSome = decide (67 ≤ k) := by
  have hkey : pk.rawPublicKey.toList.length = 65 := pk.rawPublicKey.toList_length
  have hchain : pk.chainCode.toList.length = 32 := pk.chainCode.toList_length
  cases k with
  | zero => rfl
  | succ k =>
      have hfirst := popSizePrefixed_take pk.rawPublicKey.toList (by omega)
        (UInt8.ofNat 32 :: pk.chainCode.toList) k
      rw [hkey] at hfirst
      have hreply : keyReply pk = UInt8.ofNat 65 :: (pk.rawPublicKey.toList
          ++ UInt8.ofNat 32 :: pk.chainCode.toList) := rfl
      rw [unpackGetPublicKeyResponse, hreply, hfirst]
      dsimp only [bind, Option.bind]
      by_cases hlong : 66 ≤ k
      swap
      · rw [Nat.sub_eq_zero_of_le (by omega), List.take_zero, popSizePrefixed,
          decide_eq_false (by omega)]
        rfl
      · obtain ⟨j, rfl⟩ := Nat.exists_eq_add_of_le hlong
        have hsecond := popSizePrefixed_take pk.chainCode.toList (by omega) [] j
        rw [hchain, List.append_nil, List.take_nil] at hsecond
        rw [show 66 + j - 65 = j + 1 by omega, hsecond, decide_eq_true (by omega)]
        rfl

/-- A signature is never noticed to be cut, as long as its length is there. -/
theorem unpackSignTxResponse_cut (s : Signature) (k : Nat) :
    (unpackSignTxResponse ((signatureData s).take k)).isSome = decide (1 ≤ k) := by
  have hmax : maxDerSigLen = 72 := rfl
  have hbound := s.len_le
  have hlen : (s.der.toList.take s.len).length = s.len :=
    List.length_take_of_le (le_of_le_of_eq hbound s.der.toList_length.symm)
  cases k with
  | zero => rfl
  | succ k =>
      have hfirst := popSizePrefixed_take (s.der.toList.take s.len) (by omega)
        [(s.info &&& cxEccinfoParityOdd).toUInt8] k
      rw [hlen, ← List.cons_append] at hfirst
      have hone : ((([(s.info &&& cxEccinfoParityOdd).toUInt8] : List UInt8).take
          (k - s.len)).drop 1).length = 0 := by
        rw [List.length_drop, List.length_take, List.length_singleton]
        omega
      rw [unpackSignTxResponse, signatureData, hfirst, decide_eq_true (Nat.le_add_left 1 k)]
      simp only [popSized, hone, if_true, Option.isSome_some]

/-- What `unpack_get_app_and_version_response` is written for. -/
structure AppAndVersion where
  formatId : UInt8
  appName : List UInt8
  version : List UInt8
  unused : List UInt8
  length_appName : appName.length < 256
  length_version : version.length < 256
  length_unused : unused.length < 256
  ascii_appName : ∀ b ∈ appName, b ≤ 0x7F
  ascii_version : ∀ b ∈ version, b ≤ 0x7F

def AppAndVersion.data (a : AppAndVersion) : List UInt8 :=
  a.formatId :: UInt8.ofNat a.appName.length :: (a.appName
    ++ UInt8.ofNat a.version.length :: (a.version
      ++ UInt8.ofNat a.unused.length :: (a.unused ++ [])))

theorem unpackGetAppAndVersionResponse_take (a : AppAndVersion) (k : Nat) :
    unpackGetAppAndVersionResponse (a.data.take k)
      = if 4 + a.appName.length + a.version.length ≤ k then
          some (a.appName.map fun b => Char.ofNat b.toNat,
            a.version.map fun b => Char.ofNat b.toNat)
        else none := by
  by_cases hshort : k = 0 ∨ k = 1
  · rw [if_neg (by omega)]
    rcases hshort with rfl | rfl <;> rfl
  obtain ⟨k, rfl⟩ := Nat.exists_eq_add_of_le' (show 2 ≤ k by omega)
  rw [unpackGetAppAndVersionResponse, AppAndVersion.data, List.take_succ_cons]
  simp only [popSized, List.drop_one, List.tail_cons, Option.bind_eq_bind,
    popSizePrefixed_take _ a.length_appName, Option.bind_some]
  by_cases hversion : a.appName.length + 1 ≤ k
  swap
  · rw [Nat.sub_eq_zero_of_le (by omega), if_neg (by omega)]
    rfl
  obtain ⟨j, rfl⟩ := Nat.exists_eq_add_of_le hversion
  rw [show a.appName.length + 1 + j - a.appName.length = j + 1 by omega,
    popSizePrefixed_take _ a.length_version, Option.bind_some]
  dsimp only
  by_cases hunused : a.version.length + 1 ≤ j
  swap
  · rw [Nat.sub_eq_zero_of_le (by omega), if_neg (by omega)]
    rfl
  obtain ⟨i, rfl⟩ := Nat.exists_eq_add_of_le hunused
  -- both names are whole
  have hname : a.appName.length ≤ a.appName.length + 1 + (a.version.length + 1 + i) := by omega
  have hnumber : a.version.length ≤ a.version.length + 1 + i := by omega
  have henough : 4 + a.appName.length + a.version.length
      ≤ a.appName.length + 1 + (a.version.length + 1 + i) + 2 := by omega
  rw [show a.version.length + 1 + i - a.version.length = i + 1 by omega,
    popSizePrefixed_take _ a.length_unused, Option.bind_some, if_pos henough,
    List.take_of_length_le hname, List.take_of_length_le hnumber, List.take_nil,
    decodeAscii_eq a.ascii_appName, decodeAscii_eq a.ascii_version]
  rfl

/-- **Which responses the client notices to be cut.** Of a version, every cut; of a name, none. Of
the other three, a cut is noticed as long as it takes a length byte, and what is missing from the
last field is not: a key may lose bytes of its chain code, and a signature all of its bytes. -/
theorem unpackers_cut (k : Nat) :
    (unpackGetVersionResponse (appVersion.take k)).isSome = decide (3 ≤ k)
      ∧ (unpackGetAppNameResponse (appName.take k)).isSome = true
      ∧ (∀ pk, (unpackGetPublicKeyResponse ((keyReply pk).take k)).isSome = decide (67 ≤ k))
      ∧ (∀ s, (unpackSignTxResponse ((signatureData s).take k)).isSome = decide (1 ≤ k))
      ∧ ∀ a : AppAndVersion, (unpackGetAppAndVersionResponse (a.data.take k)).isSome
        = decide (4 + a.appName.length + a.version.length ≤ k) := by
  refine ⟨?_, ?_, fun pk => unpackGetPublicKeyResponse_cut pk k,
    fun s => unpackSignTxResponse_cut s k, ?_⟩
  · by_cases hk : 3 ≤ k
    · rw [List.take_of_length_le hk, decide_eq_true hk]
      rfl
    · have hshort : k = 0 ∨ k = 1 ∨ k = 2 := by omega
      rcases hshort with rfl | rfl | rfl <;> rfl
  · have hascii : ∀ b ∈ appName.take k, b ≤ 0x7F := by
      intro b hb
      exact isAscii_iff.mp (by decide : isAscii appName = true) b (List.mem_of_mem_take hb)
    rw [unpackGetAppNameResponse, decodeAscii_eq hascii]
    rfl
  · intro a
    rw [unpackGetAppAndVersionResponse_take]
    split
    · next hle => exact (decide_eq_true hle).symm
    · next hlt => exact (decide_eq_false hlt).symm

section Results

variable {w : Wallet} {choice : Bool} {path : List UInt32}

theorem result_refused (operation : Operation) {sw : UInt16} (hsw : sw ≠ swOk) (data : List UInt8) :
    operation.result (sw, data) = .refused sw :=
  if_neg hsw

theorem result_keyResponse (w : Wallet) (choice : Bool) (path : List UInt32) (operation : Operation)
    (hunpack : ∀ response, operation.unpack response = (unpackGetPublicKeyResponse response).map
      fun (_, pubKey, _, chainCode) => .publicKey pubKey chainCode) (display : Bool) :
    operation.result (keyResponse w choice path display) = w.serveKey choice path display := by
  rw [keyResponse, Wallet.serveKey]
  split
  · exact result_refused _ (by decide) _
  split
  · exact result_refused _ (by decide) _
  split
  · exact result_refused _ (by decide) _
  · rw [Operation.result, if_pos rfl, hunpack, unpackGetPublicKeyResponse_reply]
    rfl

theorem result_messageResponse {transaction : List UInt8} (hpath : path ≠ [])
    (hmax : path.length ≤ maxBip32Path) (hne : transaction ≠ []) :
    (Operation.signature path transaction).result (messageResponse w choice path transaction)
      = w.serveSignature choice path transaction := by
  have hgood : ¬(path = [] ∨ maxBip32Path < path.length) :=
    not_or.mpr ⟨hpath, Nat.not_lt.mpr hmax⟩
  rw [messageResponse, Wallet.serveSignature, if_neg hgood, if_neg hne]
  split
  · exact result_refused _ (by decide) _
  split
  · exact result_refused _ (by decide) _
  split
  · exact result_refused _ (by decide) _
  · obtain ⟨first, rest, rfl⟩ := List.exists_cons_of_ne_nil hne
    rw [Operation.result, if_pos rfl]
    simp only [Operation.unpack, unpackSignTxResponse_data, Option.map_some, Option.getD_some]

end Results

/-! ### Calls -/

/-- The call does not send a message that makes the parser read past its input. -/
def Operation.Harmless (sizeBits : Nat) : Operation → Prop
  | .signature _ transaction => ¬Overruns sizeBits transaction
  | _ => True

section Calls

variable {ui : Ui} {sdk : Sdk} {w : Wallet} {choice : Bool} {d : Device}
  {packDerivationPath : List UInt32 → List UInt8}

theorem yields_signature (w : Wallet) (choice : Bool) (hsdk : sdk.Lawful)
    (hpack : PacksPaths packDerivationPath) (hscreen : OnScreen ui d) (path : List UInt32)
    (transaction : List UInt8)
    (hsend : 1 + 4 * path.length ≤ maxApduLen) (hharmless : ¬Overruns sdk.sizeBits transaction) :
    ∃ response, Yields (Performs (Exchanges ui sdk w.Answers choice) (fun r => r.1 = swOk) d
        ((Operation.signature path transaction).apdus packDerivationPath)) response (OnScreen ui)
      ∧ (Operation.signature path transaction).result response
        = w.serveSignature choice path transaction := by
  have hrefused : ¬((swWrongDataLength, ([] : List UInt8)).1 = swOk) := by decide
  have hapdus : ∃ rest, (Operation.signature path transaction).apdus packDerivationPath
      = signTxStart packDerivationPath path :: rest := by
    rw [Operation.apdus, signTx]
    cases (splitMessage transaction maxApduLen).getLast? with
    | none => exact ⟨[], rfl⟩
    | some last => exact ⟨_, rfl⟩
  by_cases hbad : path = [] ∨ maxBip32Path < path.length
  · obtain ⟨rest, hapdus⟩ := hapdus
    refine ⟨(swWrongDataLength, []), ?_, ?_⟩
    · rw [hapdus]
      exact yields_stopped (yields_opening_bad hsdk hpack hsend hscreen hbad) hrefused
    · rw [Wallet.serveSignature, if_pos hbad]
      exact result_refused _ (by decide) _
  obtain ⟨hpath, hmax⟩ := not_or.mp hbad
  rw [Nat.not_lt] at hmax
  have hopening := yields_opening w choice hsdk hpack hscreen hpath hmax
  by_cases hne : transaction = []
  · subst hne
    refine ⟨(swOk, []), (Conversation.yields_last hopening).mono fun _ hpost => hpost.1, ?_⟩
    rw [Wallet.serveSignature, if_neg hbad, if_pos rfl]
    rfl
  obtain ⟨messages, last, hsplit, rfl, hpieces, hlast⟩ := exists_split hne
  refine ⟨_, ?_, result_messageResponse hpath hmax hne⟩
  rw [Operation.apdus, signTx_eq hsplit, Option.getD_some]
  refine yields_more hopening (show (swOk, ([] : List UInt8)).1 = swOk from rfl) (by simp) ?_
  rintro d₁ ⟨hscreen₁, hreceiving⟩
  exact yields_pieces hsdk hmax hlast hpieces hscreen₁ hreceiving rfl (Nat.zero_le _) hharmless

theorem yields_call (hsdk : sdk.Lawful) (htext : sdk.PathTextLaws)
    (hpack : PacksPaths packDerivationPath) (hscreen : OnScreen ui d) (operation : Operation)
    (hsend : operation.Sendable) (hharmless : operation.Harmless sdk.sizeBits) :
    Yields (Performed ui sdk w.Answers packDerivationPath d (operation, choice))
      (w.serve choice operation) (OnScreen ui) := by
  have hcalls : ∃ cx, w.Answers cx := ⟨w.cx, w.answers_cx⟩
  cases operation with
  | version =>
      have hreplied : Yields (Exchanges ui sdk w.Answers choice d getVersion) (swOk, appVersion)
          (OnScreen ui) :=
        yields_replied_onScreen hcalls hscreen rfl fun _ _ => ⟨d, rfl⟩
      exact (Conversation.yields_last hreplied).map (Operation.result .version)
  | appName =>
      have hreplied : Yields (Exchanges ui sdk w.Answers choice d getAppName) (swOk, appName)
          (OnScreen ui) :=
        yields_replied_onScreen hcalls hscreen rfl fun _ _ => ⟨d, rfl⟩
      exact (Conversation.yields_last hreplied).map (Operation.result .appName)
  | publicKey path =>
      have hreplied := yields_key w choice hsdk htext hpack path hsend hscreen p1Start (by decide)
      rw [Wallet.serve, ← result_keyResponse w choice path (.publicKey path) fun _ => rfl]
      exact (Conversation.yields_last hreplied).map (Operation.result (.publicKey path))
  | confirmedPublicKey path =>
      have hreplied := yields_key w choice hsdk htext hpack path hsend hscreen p1Confirm (by decide)
      rw [Wallet.serve, ← result_keyResponse w choice path (.confirmedPublicKey path) fun _ => rfl]
      exact (Conversation.yields_last hreplied).map (Operation.result (.confirmedPublicKey path))
  | signature path transaction =>
      obtain ⟨response, hyields, hresult⟩ :=
        yields_signature w choice hsdk hpack hscreen path transaction hsend hharmless
      rw [Wallet.serve, ← hresult]
      exact hyields.map (Operation.result (.signature path transaction))

/-- **The device serves its client without a history.** From every state of every run, calls of the
client whose data fit its commands and whose messages do not overrun can be made one after the
other, and whatever happens in between on the screen, their results are those of a wallet that
remembers nothing: each is a function of the call and of the user's decision about it. -/
theorem client_served (hsdk : sdk.Lawful) (htext : sdk.PathTextLaws)
    (hpack : PacksPaths packDerivationPath) {calls : Cx → Prop} {trace : List Entry}
    (run : Run (app ui sdk calls) trace d) (w : Wallet) {ops : List (Operation × Bool)}
    (hops : ∀ op ∈ ops, op.1.Sendable ∧ op.1.Harmless sdk.sizeBits) :
    Yields (Converses (Performed ui sdk w.Answers packDerivationPath) d ops)
      (ops.map fun op => w.serve op.2 op.1) (OnScreen ui) := by
  apply yields_conversation _ (onScreen_of_run run)
  intro d hscreen op hop
  obtain ⟨hsend, hharmless⟩ := hops op hop
  exact yields_call hsdk htext hpack hscreen op.1 hsend hharmless

end Calls

namespace Reference

open BoilerplateApp.Reference

def wallet : Wallet where
  key _ := ⟨List.Vector.replicate _ 4, zeros _⟩
  keccak256 := keccak256
  sign _ _ := ⟨signature, 70, 1, by decide⟩

/-- A path that nobody would take, a refused address, a transaction cut short, and a whole one. -/
def session : List (Operation × Bool) :=
  [(.publicKey [], true), (.confirmedPublicKey path, false), (.signature path (tx.take 40), true),
    (.signature path tx, true)]

end Reference

open BoilerplateApp.Reference Reference in
theorem client_served_session :
    Yields (Converses (Performed .nbgl (sdk 32) wallet.Answers packDerivationPath) Device.boot
        session)
      [.refused swWrongDataLength, .refused swDeny, .refused swTxParsingFail,
        .signature (signature.toList.take 70) 1] (OnScreen .nbgl) := by
  have hharmless : ∀ raw : List UInt8, (lengthField (raw.drop headerLen)).1 < 2 ^ 32 →
      ¬Overruns 32 raw := fun raw hlt hover => absurd hover.long (Nat.not_le.mpr hlt)
  have hops : ∀ op ∈ session, op.1.Sendable ∧ op.1.Harmless 32 := by
    simp only [session, List.forall_mem_cons, List.not_mem_nil, false_imp_iff, implies_true,
      and_true]
    refine ⟨⟨?_, trivial⟩, ⟨?_, trivial⟩, ⟨?_, hharmless _ ?_⟩, ?_, hharmless _ ?_⟩ <;> decide
  have hpack : PacksPaths packDerivationPath := fun _ _ => rfl
  have run : Run (app .nbgl (sdk 32) (Cx.Hashes keccak256)) [] Device.boot := .initial
  have hserved := client_served (lawful (Or.inl rfl)) (pathTextLaws 32) hpack run wallet hops
  have hresults : session.map (fun op => wallet.serve op.2 op.1)
      = [.refused swWrongDataLength, .refused swDeny, .refused swTxParsingFail,
        .signature (signature.toList.take 70) 1] := by decide +kernel
  rwa [hresults] at hserved

end BoilerplateApp.Client
