import BoilerplateApp.Proof.Step

/-!
# Paths and keys

Both commands start by reading a path, and accept the same data for it. `Requests` then lists every
way through `handler_get_public_key` and `ui_display_address`: five replies and the start of an
address review.
-/

namespace BoilerplateApp

/-! ### Paths -/

section Paths

variable {sdk : Sdk}

theorem Command.buffer_eq {cmd : Command} {data : List UInt8} (hdata : cmd.data = some data) :
    (⟨data, cmd.lc.toNat, 0⟩ : Buffer) = .ofBytes data := by
  rw [Buffer.ofBytes, cmd.length_data data hdata]

theorem readBip32Path_frame {ctx ctx' : GlobalCtx} {cdata : Buffer} {ok : Bool}
    (h : readBip32Path sdk ctx cdata = (ok, ctx')) :
    ∃ len path, ctx' = { ctx with bip32PathLen := len, bip32Path := path } := by
  rcases hlen : sdk.bufferReadU8 cdata with ⟨read, len, cdata'⟩
  simp only [readBip32Path, hlen] at h
  cases read with
  | false => exact ⟨len, ctx.bip32Path, (Prod.mk.inj h).2.symm⟩
  | true => exact ⟨len, _, (Prod.mk.inj h).2.symm⟩

theorem unread_count (n : UInt8) (rest : List UInt8) :
    (Buffer.advance (.ofBytes (n :: rest)) 1).unread = rest
      ∧ (Buffer.advance (.ofBytes (n :: rest)) 1).Valid := by
  constructor
  · rw [Buffer.unread_advance, Buffer.unread_ofBytes, List.drop_one, List.tail_cons]
  · apply (Buffer.valid_ofBytes (n :: rest)).advance
    rw [Buffer.unread_ofBytes, List.length_cons]
    omega

theorem readBip32Path_cons (hread : sdk.ReadLaws) (ctx : GlobalCtx) (n : UInt8)
    (rest : List UInt8) :
    readBip32Path sdk ctx (.ofBytes (n :: rest)) =
      let result := sdk.bufferReadBip32Path (Buffer.advance (.ofBytes (n :: rest)) 1)
        ctx.bip32Path n.toNat
      (result.1, { ctx with bip32PathLen := n, bip32Path := result.2.1 }) := by
  have hlen := hread.readU8 _ n rest (Buffer.valid_ofBytes _) (Buffer.unread_ofBytes _)
  simp only [readBip32Path, hlen, Bool.not_true, Bool.false_eq_true, if_false]

/-- A path that is read is the one that the data carry, and has a component for each count from 1 to
`MAX_BIP32_PATH`. -/
theorem readBip32Path_ok (hread : sdk.ReadLaws) (hpath : sdk.PathLaws) {ctx ctx' : GlobalCtx}
    {data : List UInt8} (h : readBip32Path sdk ctx (.ofBytes data) = (true, ctx')) :
    Command.carriedPath data = some (ctx'.bip32Path.toList.take ctx'.bip32PathLen.toNat)
      ∧ 0 < ctx'.bip32PathLen.toNat ∧ ctx'.bip32PathLen.toNat ≤ maxBip32Path := by
  cases data with
  | nil =>
      have hfail := hread.readU8_missing _ (Buffer.valid_ofBytes []) (Buffer.unread_ofBytes [])
      rcases hlen : sdk.bufferReadU8 (.ofBytes []) with ⟨ok, len, cdata'⟩
      rw [hlen] at hfail
      obtain rfl : ok = false := hfail
      simp [readBip32Path, hlen] at h
  | cons n rest =>
      obtain ⟨hrest, hvalid⟩ := unread_count n rest
      rw [readBip32Path_cons hread] at h
      by_cases hcount : 0 < n.toNat ∧ n.toNat ≤ maxBip32Path ∧ 4 * n.toNat ≤ rest.length
      · obtain ⟨path', hwords, htake⟩ := hpath.readPath _ ctx.bip32Path n.toNat hvalid hcount.1
          hcount.2.1 (by rw [hrest]; exact hcount.2.2)
        rw [hwords] at h
        obtain ⟨-, rfl⟩ := Prod.mk.inj h
        refine ⟨?_, hcount.1, hcount.2.1⟩
        rw [Command.carriedPath, if_pos hcount, htake, hrest]
      · have hrefused := hpath.readPath_refused _ ctx.bip32Path n.toNat hvalid (by
          rw [hrest]
          omega)
        exact absurd (hrefused.symm.trans (Prod.mk.inj h).1) (by decide)

theorem readBip32Path_of_carriedPath (hread : sdk.ReadLaws) (hpath : sdk.PathLaws) (ctx : GlobalCtx)
    {data : List UInt8} {path : List UInt32} (h : Command.carriedPath data = some path) :
    (readBip32Path sdk ctx (.ofBytes data)).1 = true := by
  cases data with
  | nil => cases h
  | cons n rest =>
      obtain ⟨hrest, hvalid⟩ := unread_count n rest
      rw [Command.carriedPath] at h
      split at h
      · next hcount =>
          obtain ⟨path', hwords, -⟩ := hpath.readPath _ ctx.bip32Path n.toNat hvalid hcount.1
            hcount.2.1 (by rw [hrest]; exact hcount.2.2)
          rw [readBip32Path_cons hread, hwords]
      · cases h

end Paths

/-! ### The key in the union -/

theorem pkInfo_setPkInfo (ctx : GlobalCtx) (pk : PubkeyCtx) : (ctx.setPkInfo pk).pkInfo = pk := by
  obtain ⟨⟨key, hkey⟩, ⟨chain, hchain⟩⟩ := pk
  have hbytes : (ctx.setPkInfo ⟨⟨key, hkey⟩, ⟨chain, hchain⟩⟩).txInfo.rawTx.toList
      = key ++ (chain ++ ctx.txInfo.rawTx.toList.drop (key ++ chain).length) := by
    change Region.overlay ctx.txInfo.rawTx.toList 0 (key ++ chain) = _
    rw [Region.overlay, List.take_zero, List.nil_append, Nat.zero_add, List.append_assoc]
  rw [GlobalCtx.pkInfo]
  congr 1
  · apply List.Vector.eq
    change List.take pubkeyLen (ctx.setPkInfo _).txInfo.rawTx.toList = key
    rw [hbytes, List.take_left' hkey]
  · apply List.Vector.eq
    change List.take chaincodeLen (List.drop pubkeyLen (ctx.setPkInfo _).txInfo.rawTx.toList)
      = chain
    rw [hbytes, List.drop_left' hkey, List.take_left' hchain]

/-! ### The address on screen -/

/-- The `g_address` of the address review. -/
def Device.shownAddress (ui : Ui) (d : Device) : List Char :=
  match ui with
  | .bagl => d.gAddress
  | .nbgl => d.gAddressPubkey

def Device.setAddress (ui : Ui) (d : Device) (text : List Char) : Device :=
  match ui with
  | .bagl => { d with gAddress := text }
  | .nbgl => { d with gAddressPubkey := text }

section Address

variable (ui : Ui) (d : Device) (text : List Char) (request : RequestType)

@[simp] theorem Device.setAddress_gContext : (d.setAddress ui text).gContext = d.gContext := by
  cases ui <;> rfl

@[simp] theorem Device.setAddress_screen : (d.setAddress ui text).screen = d.screen := by
  cases ui <;> rfl

@[simp] theorem Device.setAddress_gValidateCallback :
    (d.setAddress ui text).gValidateCallback = d.gValidateCallback := by
  cases ui <;> rfl

@[simp] theorem Device.shownAddress_setAddress :
    (d.setAddress ui text).shownAddress ui = text := by
  cases ui <;> rfl

@[simp] theorem Device.showing_gContext : (d.showing ui request).gContext = d.gContext := by
  cases ui <;> cases request <;> rfl

@[simp] theorem Device.shownAddress_showing :
    (d.showing ui request).shownAddress ui = d.shownAddress ui := by
  cases ui <;> cases request <;> rfl

end Address

/-! ### Every way through the handler -/

/-- The device with a fresh context into which a path was read and a key derived. -/
def Device.keyed (d : Device) (ctx : GlobalCtx) (pk : PubkeyCtx) : Device :=
  { d with gContext := ctx.setPkInfo pk }

section Keyed

variable (d : Device) (ctx : GlobalCtx) (pk : PubkeyCtx)

@[simp] theorem Device.keyed_pkInfo : (d.keyed ctx pk).gContext.pkInfo = pk :=
  pkInfo_setPkInfo ctx pk

@[simp] theorem Device.keyed_bip32Path : (d.keyed ctx pk).gContext.bip32Path = ctx.bip32Path := rfl

@[simp] theorem Device.keyed_bip32PathLen :
    (d.keyed ctx pk).gContext.bip32PathLen = ctx.bip32PathLen := rfl

@[simp] theorem Device.keyed_screen : (d.keyed ctx pk).screen = d.screen := rfl

@[simp] theorem Device.keyed_gValidateCallback :
    (d.keyed ctx pk).gValidateCallback = d.gValidateCallback := rfl

end Keyed

/-- The reply with a key and its chain code. -/
def keyReply (pk : PubkeyCtx) : List UInt8 :=
  UInt8.ofNat pubkeyLen :: pk.rawPublicKey.toList
    ++ UInt8.ofNat chaincodeLen :: pk.chainCode.toList

/-- What a GET_PUBLIC_KEY can do. -/
inductive Requests (ui : Ui) (sdk : Sdk) (cx : Cx) (d : Device) (cdata : Buffer) (display : Bool) :
    Device → List Effect → Prop
  | refused {ctx : GlobalCtx}
      (hpath : readBip32Path sdk (.fresh .confirmAddress) cdata = (false, ctx)) :
      Requests ui sdk cx d cdata display { d with gContext := ctx }
        [.send swWrongDataLength []]
  | underivable {ctx : GlobalCtx}
      (hpath : readBip32Path sdk (.fresh .confirmAddress) cdata = (true, ctx)) {error : UInt32}
      {pk : PubkeyCtx}
      (hderive : cx.bip32DeriveGetPubkey256 ctx.bip32Path ctx.bip32PathLen = (error, pk))
      (herror : error ≠ cxOk) :
      Requests ui sdk cx d cdata display (d.keyed ctx pk) [.send error.toUInt16 []]
  | replied {ctx : GlobalCtx}
      (hpath : readBip32Path sdk (.fresh .confirmAddress) cdata = (true, ctx)) {pk : PubkeyCtx}
      (hderive : cx.bip32DeriveGetPubkey256 ctx.bip32Path ctx.bip32PathLen = (cxOk, pk))
      (hdisplay : display = false) :
      Requests ui sdk cx d cdata display (d.keyed ctx pk) [.send swOk (keyReply pk)]
  | pathFail {ctx : GlobalCtx}
      (hpath : readBip32Path sdk (.fresh .confirmAddress) cdata = (true, ctx)) {pk : PubkeyCtx}
      (hderive : cx.bip32DeriveGetPubkey256 ctx.bip32Path ctx.bip32PathLen = (cxOk, pk))
      (hdisplay : display = true)
      (hformat : (sdk.bip32PathFormat ctx.bip32Path ctx.bip32PathLen 60).1 = false) :
      Requests ui sdk cx d cdata display (d.keyed ctx pk) [.send swDisplayBip32PathFail []]
  | addressFail {ctx : GlobalCtx}
      (hpath : readBip32Path sdk (.fresh .confirmAddress) cdata = (true, ctx)) {pk : PubkeyCtx}
      (hderive : cx.bip32DeriveGetPubkey256 ctx.bip32Path ctx.bip32PathLen = (cxOk, pk))
      (hdisplay : display = true)
      (hformat : (sdk.bip32PathFormat ctx.bip32Path ctx.bip32PathLen 60).1 = true)
      (haddress : addressFromPubkey cx pk.rawPublicKey = none) :
      Requests ui sdk cx d cdata display ((d.keyed ctx pk).setAddress ui [])
        [.send swDisplayAddressFail []]
  | shown {ctx : GlobalCtx}
      (hpath : readBip32Path sdk (.fresh .confirmAddress) cdata = (true, ctx)) {pk : PubkeyCtx}
      (hderive : cx.bip32DeriveGetPubkey256 ctx.bip32Path ctx.bip32PathLen = (cxOk, pk))
      (hdisplay : display = true)
      (hformat : (sdk.bip32PathFormat ctx.bip32Path ctx.bip32PathLen 60).1 = true)
      {address : List UInt8} (haddress : addressFromPubkey cx pk.rawPublicKey = some address) :
      Requests ui sdk cx d cdata display
        (((d.keyed ctx pk).setAddress ui (addressText sdk address)).showing ui .confirmAddress)
        [.startReview .confirmAddress]

section Requests

variable {ui : Ui} {sdk : Sdk} {cx : Cx} {d d' : Device} {cdata : Buffer} {display : Bool}
  {effects : List Effect}

theorem uiDisplayAddress_eq (hreq : d.gContext.reqType = .confirmAddress)
    (hstate : d.gContext.state = .none) :
    uiDisplayAddress ui sdk cx d =
      if (sdk.bip32PathFormat d.gContext.bip32Path d.gContext.bip32PathLen 60).1 = false then
        some (d, [.send swDisplayBip32PathFail []])
      else
        match addressFromPubkey cx d.gContext.pkInfo.rawPublicKey with
        | none => some (d.setAddress ui [], [.send swDisplayAddressFail []])
        | some address =>
            some ((d.setAddress ui (addressText sdk address)).showing ui .confirmAddress,
              [.startReview .confirmAddress]) := by
  cases hformat : (sdk.bip32PathFormat d.gContext.bip32Path d.gContext.bip32PathLen 60).1 <;>
    cases haddress : addressFromPubkey cx d.gContext.pkInfo.rawPublicKey <;>
      cases ui <;>
        simp [uiDisplayAddress, Bagl.uiDisplayAddress, Nbgl.uiDisplayAddress, formatAddress, hreq,
          hstate, hformat, haddress, ioSendSw, Device.setAddress, Device.showing]

theorem handlerGetPublicKey_of_path {ctx : GlobalCtx}
    (hpath : readBip32Path sdk (.fresh .confirmAddress) cdata = (true, ctx)) {error : UInt32}
    {pk : PubkeyCtx}
    (hderive : cx.bip32DeriveGetPubkey256 ctx.bip32Path ctx.bip32PathLen = (error, pk)) :
    handlerGetPublicKey ui sdk cx d cdata display =
      if error ≠ cxOk then some (d.keyed ctx pk, [.send error.toUInt16 []])
      else if display then uiDisplayAddress ui sdk cx (d.keyed ctx pk)
      else some (d.keyed ctx pk, [.send swOk (keyReply pk)]) := by
  rw [GlobalCtx.fresh] at hpath
  have hreply : helperSendResponsePubkey (d.keyed ctx pk)
      = some (d.keyed ctx pk, [.send swOk (keyReply pk)]) := by
    rw [helperSendResponsePubkey, Device.keyed_pkInfo]
    rfl
  rw [handlerGetPublicKey]
  simp only [hpath, hderive, Bool.not_true, Bool.false_eq_true, if_false]
  rw [← hreply]
  rfl

theorem Requests.run (h : Requests ui sdk cx d cdata display d' effects) :
    handlerGetPublicKey ui sdk cx d cdata display = some (d', effects) := by
  have hdisplayed : ∀ {ctx pk}, readBip32Path sdk (.fresh .confirmAddress) cdata = (true, ctx) →
      cx.bip32DeriveGetPubkey256 ctx.bip32Path ctx.bip32PathLen = (cxOk, pk) → display = true →
      handlerGetPublicKey ui sdk cx d cdata display
        = uiDisplayAddress ui sdk cx (d.keyed ctx pk) := by
    intro ctx pk hpath hderive hdisplay
    rw [handlerGetPublicKey_of_path hpath hderive, if_neg (by simp), if_pos hdisplay]
  have hready : ∀ {ctx pk}, readBip32Path sdk (.fresh .confirmAddress) cdata = (true, ctx) →
      (d.keyed ctx pk).gContext.reqType = .confirmAddress
        ∧ (d.keyed ctx pk).gContext.state = .none := by
    intro ctx pk hpath
    obtain ⟨_, _, rfl⟩ := readBip32Path_frame hpath
    exact ⟨rfl, rfl⟩
  cases h with
  | refused hpath =>
      rw [GlobalCtx.fresh] at hpath
      simp [handlerGetPublicKey, hpath, ioSendSw]
  | underivable hpath hderive herror =>
      rw [handlerGetPublicKey_of_path hpath hderive, if_pos herror]
  | replied hpath hderive hdisplay =>
      rw [handlerGetPublicKey_of_path hpath hderive, if_neg (by simp), if_neg (by simp [hdisplay])]
  | pathFail hpath hderive hdisplay hformat =>
      obtain ⟨hreq, hstate⟩ := hready hpath
      rw [hdisplayed hpath hderive hdisplay, uiDisplayAddress_eq hreq hstate]
      simp [hformat]
  | addressFail hpath hderive hdisplay hformat haddress =>
      obtain ⟨hreq, hstate⟩ := hready hpath
      rw [hdisplayed hpath hderive hdisplay, uiDisplayAddress_eq hreq hstate]
      simp [hformat, haddress]
  | shown hpath hderive hdisplay hformat haddress =>
      obtain ⟨hreq, hstate⟩ := hready hpath
      rw [hdisplayed hpath hderive hdisplay, uiDisplayAddress_eq hreq hstate]
      simp [hformat, haddress]

/-- The list is complete. -/
theorem exists_requests (ui : Ui) (sdk : Sdk) (cx : Cx) (d : Device) (cdata : Buffer)
    (display : Bool) : ∃ d' effects, Requests ui sdk cx d cdata display d' effects := by
  rcases hpath : readBip32Path sdk (.fresh .confirmAddress) cdata with ⟨ok, ctx⟩
  rcases hderive : cx.bip32DeriveGetPubkey256 ctx.bip32Path ctx.bip32PathLen with ⟨error, pk⟩
  cases ok with
  | false => exact ⟨_, _, .refused hpath⟩
  | true =>
      by_cases herror : error = cxOk
      swap
      · exact ⟨_, _, .underivable hpath hderive herror⟩
      subst herror
      cases hdisplay : display with
      | false => exact ⟨_, _, .replied hpath hderive rfl⟩
      | true =>
          cases hformat : (sdk.bip32PathFormat ctx.bip32Path ctx.bip32PathLen 60).1 with
          | false => exact ⟨_, _, .pathFail hpath hderive rfl hformat⟩
          | true =>
              cases haddress : addressFromPubkey cx pk.rawPublicKey with
              | none => exact ⟨_, _, .addressFail hpath hderive rfl hformat haddress⟩
              | some address => exact ⟨_, _, .shown hpath hderive rfl hformat haddress⟩

theorem handlerGetPublicKey_requests
    (h : handlerGetPublicKey ui sdk cx d cdata display = some (d', effects)) :
    Requests ui sdk cx d cdata display d' effects := by
  obtain ⟨d₁, effects₁, hrequests⟩ := exists_requests ui sdk cx d cdata display
  obtain ⟨rfl, rfl⟩ := Prod.mk.inj (Option.some.inj (hrequests.run.symm.trans h))
  exact hrequests

end Requests

end BoilerplateApp
