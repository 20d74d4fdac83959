import BoilerplateApp.Proof.Client
import BoilerplateApp.Proof.Review
import BoilerplateApp.Proof.Screens

/-!
# The client and the device

From any state of the device, the APDUs of `sign_tx` lead to a review of exactly the transaction the
client serialized, and an approval of it to a reply that the client reads back.
-/

namespace BoilerplateApp

open Transition Client

section Device

variable {ui : Ui} {sdk : Sdk} {cx : Cx} {d : Device} {cmd : Command} {data : List UInt8}

/-! ### SIGN_TX -/

theorem reviewRawTx_of_parses (hread : sdk.ReadLaws) (hformat : sdk.FormatLaws)
    {keccak256 : List UInt8 → Bytes 32} (hcx : cx.Hashes keccak256)
    (hreq : d.gContext.reqType = .confirmTransaction)
    (hlen : d.gContext.txInfo.rawTxLen ≤ maxTransactionLen) {tx : BoilerplateApp.Transaction}
    (hparses : Parses d.gContext.txInfo.received tx) :
    reviewRawTx ui sdk cx d
      = some (d.reviewing ui sdk tx (keccak256 d.gContext.txInfo.received),
          [.startReview .confirmTransaction]) := by
  obtain ⟨buf, hparse⟩ := (deserialized_iff hread hlen tx).mpr hparses
  have hhash := hcx.2 d.gContext.txInfo.received
  rw [TransactionCtx.received] at hhash
  rw [Device.deserialized] at hparse
  simp only [reviewRawTx, hparse, hcx.1, hhash, ne_eq, not_true_eq_false, if_false]
  have hshow := uiDisplayTransaction_eq ui sdk hreq tx (keccak256 d.gContext.txInfo.received)
  rw [formatFpu64_ok hformat, if_neg (by decide)] at hshow
  exact hshow

/-! ### A session -/

/-- A session on `path` has received the bytes `received`. -/
structure Receiving (path : List UInt32) (received : List UInt8) (d : Device) : Prop where
  reqType : d.gContext.reqType = .confirmTransaction
  received_eq : d.gContext.txInfo.received = received
  rawTxLen : d.gContext.txInfo.rawTxLen = received.length
  bip32PathLen : d.gContext.bip32PathLen.toNat = path.length
  bip32Path : d.gContext.bip32Path.toList.take path.length = path

variable {path : List UInt32} {received : List UInt8}

theorem next_opens (ui : Ui) (cx : Cx) (d : Device) (hread : sdk.ReadLaws) (hpath : sdk.PathLaws)
    (hcmd : cmd.opensSession) (hdata : cmd.data = some data)
    (hcarried : Command.carriedPath data = some path) :
    ∃ d', Device.next ui sdk cx d (.apdu (some cmd)) = some (d', [.send swOk []])
      ∧ Receiving path [] d' := by
  have hp1 : cmd.p1 = 0 := hcmd.2.1
  rcases hbip32 : readBip32Path sdk (.fresh .confirmTransaction) (.ofBytes data) with ⟨ok, ctx⟩
  obtain rfl : ok = true := by
    have hok := readBip32Path_of_carriedPath hread hpath (.fresh .confirmTransaction) hcarried
    rwa [hbip32] at hok
  obtain ⟨htake, -, hmax⟩ := readBip32Path_ok hread hpath hbip32
  obtain rfl := Option.some.inj (hcarried.symm.trans htake)
  obtain ⟨len, path', rfl⟩ := readBip32Path_frame hbip32
  refine ⟨{ d with gContext := { GlobalCtx.fresh .confirmTransaction with
    bip32PathLen := len, bip32Path := path' } }, ?_, rfl, rfl, rfl, ?_, ?_⟩
  · rw [next_signTx (Or.inl hcmd) hdata, handlerSignTx, if_pos hp1, Command.buffer_eq hdata]
    rw [GlobalCtx.fresh] at hbip32
    simp only [hbip32, Bool.not_true, Bool.false_eq_true, if_false]
    rfl
  · have hlen : len.toNat ≤ path'.toList.length := by rwa [path'.toList_length]
    exact (List.length_take_of_le hlen).symm
  · dsimp only
    rw [List.length_take, path'.toList_length, Nat.min_eq_left hmax]

theorem Receiving.stores (h : Receiving path received d) (hmove : sdk.MoveLaws)
    (hcmd : cmd.continuesSession) (hdata : cmd.data = some data)
    (hfits : received.length + data.length ≤ maxTransactionLen) :
    ∃ d₁, Stores sdk d cmd data d₁ ∧ Receiving path (received ++ data) d₁ := by
  obtain ⟨d₁, hstores⟩ := exists_stores hmove hcmd hdata h.reqType (h.rawTxLen ▸ hfits)
  obtain ⟨hlen, hreceived⟩ := hstores.received hmove
  refine ⟨d₁, hstores, hstores.reqType_eq, ?_, ?_, ?_, ?_⟩
  · rw [hreceived, h.received_eq]
  · rw [hlen, h.rawTxLen, List.length_append]
  · obtain ⟨_, _, rfl⟩ := hstores.frame
    exact h.bip32PathLen
  · obtain ⟨_, _, rfl⟩ := hstores.frame
    exact h.bip32Path

theorem Receiving.respond_more (ui : Ui) (h : Receiving path received d) (hmove : sdk.MoveLaws)
    {messages : List (List UInt8)} {idx : Nat} {cxs : List Cx} (hcxs : cxs.length = messages.length)
    (hpieces : ∀ piece ∈ messages, 0 < piece.length ∧ piece.length ≤ maxApduLen)
    (hpos : 1 ≤ idx) (hmax : idx + messages.length ≤ p1Max.toNat + 1)
    (hfits : received.length + messages.flatten.length ≤ maxTransactionLen) :
    ∃ d', respond (Device.answer ui sdk) d
        (cxs.zip ((moreApdus idx messages).map fun a => .apdu a.command))
        = some (d', List.replicate messages.length [.send swOk []])
      ∧ Receiving path (received ++ messages.flatten) d' := by
  induction messages generalizing idx cxs d received with
  | nil =>
      refine ⟨d, ?_, by rwa [List.flatten_nil, List.append_nil]⟩
      rw [moreApdus, List.map_nil, List.zip_nil_right]
      rfl
  | cons piece messages ih =>
      cases cxs with
      | nil => cases hcxs
      | cons cx cxs =>
          obtain ⟨hpiece, hrest⟩ := List.forall_mem_cons.mp hpieces
          rw [List.flatten_cons, List.length_append] at hfits
          rw [List.length_cons] at hmax
          obtain ⟨cmd, hcommand, hcontinues, hp2, hdata⟩ :=
            exists_command_chunk hpos (by omega) (Or.inr rfl) hpiece
          obtain ⟨d₁, hstores, hreceiving⟩ := h.stores hmove hcontinues hdata (by omega)
          obtain ⟨d', hrespond, hlast⟩ := ih hreceiving (Nat.succ.inj hcxs) hrest
            (show 1 ≤ idx + 1 by omega) (by omega) (by rw [List.length_append]; omega)
          have hnext :
              Device.answer ui sdk d (cx, .apdu (some cmd)) = some (d₁, [.send swOk []]) := by
            rw [Device.answer, hstores.next_eq, if_pos hp2]
          refine ⟨d', ?_, by rwa [List.flatten_cons, ← List.append_assoc]⟩
          rw [moreApdus, List.map_cons, List.zip_cons_cons, hcommand, List.length_cons,
            List.replicate_succ]
          exact respond_cons hnext hrespond

theorem Receiving.next_last (ui : Ui) (h : Receiving path received d) (hsdk : sdk.Lawful)
    {keccak256 : List UInt8 → Bytes 32} (hcx : cx.Hashes keccak256) (hcmd : cmd.continuesSession)
    (hp2 : cmd.p2 = p2Last) (hdata : cmd.data = some data) {tx : BoilerplateApp.Transaction}
    (hparses : Parses (received ++ data) tx) :
    ∃ d₁ : Device, Receiving path (received ++ data) d₁
      ∧ Device.next ui sdk cx d (.apdu (some cmd))
        = some (d₁.reviewing ui sdk tx (keccak256 (received ++ data)),
            [.startReview .confirmTransaction]) := by
  have hfits : received.length + data.length ≤ maxTransactionLen := by
    rw [← List.length_append]
    exact hparses.length_le
  obtain ⟨d₁, hstores, hreceiving⟩ := h.stores hsdk.toMoveLaws hcmd hdata hfits
  refine ⟨d₁, hreceiving, ?_⟩
  rw [← hreceiving.received_eq] at hparses ⊢
  rw [hstores.next_eq, if_neg (by rw [hp2]; decide)]
  exact reviewRawTx_of_parses hsdk.toReadLaws hsdk.toFormatLaws hcx hreceiving.reqType
    hstores.rawTxLen_le hparses

end Device

/-! ### An approval -/

section Approval

variable {ui : Ui} {sdk : Sdk} {cx : Cx} {d d' : Device} {action : UserAction} {choice : Bool}

theorem userAct_of_decides (h : d.decides ui action = some (.confirmTransaction, choice)) :
    ∃ screen, userAct ui cx d action = (validateTransaction cx d choice).map
      fun (d, effects) => ({ d with screen := screen }, effects) := by
  obtain ⟨ctx, callback, amount, address, addressPubkey, screen⟩ := d
  cases ui with
  | bagl =>
      rcases callback with _ | _ | _ <;> cases screen <;> cases action <;> cases h <;>
        exact ⟨.menu, rfl⟩
  | nbgl => cases screen <;> cases action <;> cases h <;> exact ⟨.status, rfl⟩

theorem validateTransaction_of_signed {result : SignResult}
    (hresult : cx.bip32DeriveEcdsaSignHash256 d.gContext.bip32Path d.gContext.bip32PathLen
      d.gContext.txInfo.mHash = result) (hok : result.error = cxOk)
    (hlen : result.sigLen ≤ maxDerSigLen) :
    ∃ d₁, validateTransaction cx d true = some (d₁,
      [.sign d.gContext.bip32Path d.gContext.bip32PathLen d.gContext.txInfo.mHash,
        .send swOk (UInt8.ofNat result.sigLen :: result.signature.toList.take result.sigLen
          ++ [(result.info &&& cxEccinfoParityOdd).toUInt8])]) := by
  have hmax : maxDerSigLen = 72 := rfl
  have hsigLen : (UInt8.ofNat result.sigLen).toNat = result.sigLen := by
    rw [UInt8.toNat_ofNat']
    omega
  simp only [validateTransaction, cryptoSignMessage, hresult, hok, ne_eq, not_true_eq_false,
    if_false, if_true, Bool.not_true, Bool.false_eq_true, helperSendResponseSig, hsigLen,
    Nat.not_lt.mpr hlen, ioSendResponsePointer, Option.map_some]
  exact ⟨_, rfl⟩

theorem unpackSignTxResponse_reply (result : SignResult) (hlen : result.sigLen ≤ maxDerSigLen) :
    unpackSignTxResponse (UInt8.ofNat result.sigLen :: result.signature.toList.take result.sigLen
        ++ [(result.info &&& cxEccinfoParityOdd).toUInt8])
      = some (result.sigLen, result.signature.toList.take result.sigLen,
          (result.info &&& cxEccinfoParityOdd).toNat) := by
  have htake : (result.signature.toList.take result.sigLen).length = result.sigLen :=
    List.length_take_of_le (le_of_le_of_eq hlen result.signature.toList_length.symm)
  have hparity : (result.info &&& cxEccinfoParityOdd).toUInt8.toNat
      = (result.info &&& cxEccinfoParityOdd).toNat := by
    rw [UInt32.toNat_toUInt8, UInt32.toNat_and]
    apply Nat.mod_eq_of_lt
    exact lt_of_le_of_lt Nat.and_le_right (by decide)
  have hunpack := unpackSignTxResponse_eq
    (show (result.signature.toList.take result.sigLen).length < 256 from
      lt_of_le_of_lt (le_of_eq_of_le htake hlen) (by decide))
    (result.info &&& cxEccinfoParityOdd).toUInt8
  rwa [htake, hparity] at hunpack

theorem exists_undecided (tx : BoilerplateApp.Transaction) (hash : Bytes 32) (cx : Cx) :
    ∃ (actions : List UserAction) (d' : Device), Undecided ui sdk (d.reviewing ui sdk tx hash)
        (actions.map fun action => (cx, action)) d'
      ∧ d'.decides ui .approve = some (.confirmTransaction, true) := by
  cases ui with
  | bagl => exact ⟨[], _, ⟨_, rfl, by simp⟩, rfl⟩
  | nbgl => exact ⟨[.advance], _, ⟨_, rfl, by simp⟩, rfl⟩

/-- What the client gets for an approval of what is under review in `d`: when the signature can be
made, a reply that it reads as that signature. -/
def ApprovalReadsBack (ui : Ui) (sdk : Sdk) (d : Device) : Prop :=
  ∀ moves d₁ cx action, Undecided ui sdk d moves d₁ →
    d₁.decides ui action = some (.confirmTransaction, true) →
    ∀ result, cx.bip32DeriveEcdsaSignHash256 d.gContext.bip32Path d.gContext.bip32PathLen
      d.gContext.txInfo.mHash = result → result.error = cxOk → result.sigLen ≤ maxDerSigLen →
    ∃ d₂ reply, Device.next ui sdk cx d₁ (.user action) = some (d₂,
        [.sign d.gContext.bip32Path d.gContext.bip32PathLen d.gContext.txInfo.mHash,
          .send swOk reply])
      ∧ unpackSignTxResponse reply = some (result.sigLen,
          result.signature.toList.take result.sigLen, (result.info &&& cxEccinfoParityOdd).toNat)

theorem approvalReadsBack (ui : Ui) (sdk : Sdk) (d : Device) : ApprovalReadsBack ui sdk d := by
  intro moves d₁ cx action hmoves hdecides result hresult hok hlen
  rw [← hmoves.gContext_eq] at hresult ⊢
  obtain ⟨screen, hact⟩ := userAct_of_decides hdecides
  obtain ⟨d₂, hvalidate⟩ := validateTransaction_of_signed hresult hok hlen
  refine ⟨{ d₂ with screen := screen }, _, ?_, unpackSignTxResponse_reply result hlen⟩
  rw [Device.next, hact, hvalidate, Option.map_some]

end Approval

/-! ### The whole exchange -/

section Exchange

variable {sdk : Sdk} {packDerivationPath : List UInt32 → List UInt8}

theorem exists_pieces {raw : List UInt8} (hpos : 0 < raw.length)
    (hmax : raw.length ≤ maxTransactionLen) :
    ∃ messages last, splitMessage raw maxApduLen = messages ++ [last]
      ∧ messages.flatten ++ last = raw ∧ messages.length + 1 ≤ p1Max.toNat
      ∧ ∀ piece ∈ messages ++ [last], 0 < piece.length ∧ piece.length ≤ maxApduLen := by
  have hflatten : (splitMessage raw maxApduLen).flatten = raw := flatten_splitMessage (by decide)
  have hlength : (splitMessage raw maxApduLen).length ≤ 2 := by
    rw [length_splitMessage]
    calc (raw.length + maxApduLen - 1) / maxApduLen
        ≤ (maxTransactionLen + maxApduLen - 1) / maxApduLen :=
          Nat.div_le_div_right (Nat.sub_le_sub_right (Nat.add_le_add_right hmax _) _)
      _ = 2 := by decide
  rcases List.eq_nil_or_concat (splitMessage raw maxApduLen) with hnil | ⟨messages, last, hconcat⟩
  · rw [hnil, List.flatten_nil] at hflatten
    rw [← hflatten] at hpos
    exact absurd hpos (Nat.lt_irrefl 0)
  · have hsplit : splitMessage raw maxApduLen = messages ++ [last] := by
      rw [hconcat, List.concat_eq_append]
    refine ⟨messages, last, hsplit, ?_, ?_, ?_⟩
    · rw [← hflatten, hsplit, List.flatten_append, List.flatten_singleton]
    · rw [hsplit, List.length_append, List.length_singleton] at hlength
      exact le_trans hlength (by decide)
    · intro piece hpiece
      rw [← hsplit] at hpiece
      exact length_of_mem_splitMessage hpiece

theorem signTx_eq {path : List UInt32} {raw last : List UInt8} {messages : List (List UInt8)}
    (hsplit : splitMessage raw maxApduLen = messages ++ [last]) :
    signTx packDerivationPath path raw
      = some (⟨cla, insSignTx, p1Start.toNat, p2More, packDerivationPath path⟩
        :: moreApdus 1 messages
        ++ [⟨cla, insSignTx, 1 + messages.length, p2Last, last⟩]) := by
  simp only [signTx, hsplit, List.getLast?_concat, Option.map_some, List.dropLast_concat]
  rfl

theorem length_moreApdus (idx : Nat) (messages : List (List UInt8)) :
    (moreApdus idx messages).length = messages.length := by
  induction messages generalizing idx with
  | nil => rfl
  | cons message messages ih => rw [moreApdus, List.length_cons, ih, List.length_cons]

theorem command_of_mem_moreApdus {messages : List (List UInt8)} {idx : Nat}
    (hpieces : ∀ piece ∈ messages, 0 < piece.length ∧ piece.length ≤ maxApduLen) (hpos : 1 ≤ idx)
    (hmax : idx + messages.length ≤ p1Max.toNat + 1) :
    ∀ a ∈ moreApdus idx messages, a.command ≠ none := by
  induction messages generalizing idx with
  | nil => exact fun a ha => nomatch ha
  | cons piece messages ih =>
      obtain ⟨hpiece, hrest⟩ := List.forall_mem_cons.mp hpieces
      rw [List.length_cons] at hmax
      obtain ⟨cmd, hcommand, -⟩ := exists_command_chunk hpos (by omega) (Or.inr rfl) hpiece
      rw [moreApdus, List.forall_mem_cons]
      refine ⟨by rw [hcommand]; nofun, ?_⟩
      exact ih hrest (by omega) (by omega)

variable {path : List UInt32} (hpack : PacksPaths packDerivationPath) (hpos : 0 < path.length)
  (hmax : path.length ≤ maxBip32Path) {messages : List (List UInt8)} {last : List UInt8}
  (hcount : messages.length + 1 ≤ p1Max.toNat)
  (hpieces : ∀ piece ∈ messages ++ [last], 0 < piece.length ∧ piece.length ≤ maxApduLen)

include hpack hpos hmax in
theorem exists_opening :
    ∃ cmd, Apdu.command ⟨cla, insSignTx, p1Start.toNat, p2More, packDerivationPath path⟩ = some cmd
      ∧ cmd.opensSession ∧ cmd.data = some (packDerivationPath path)
      ∧ Command.carriedPath (packDerivationPath path) = some path := by
  have hlen := hpack.length_pack hmax
  have hlimit : packDerivationPath path ≠ [] := by
    intro hnil
    rw [hnil, List.length_nil] at hlen
    omega
  have hstart : p1Start.toNat ≤ p1Max.toNat := by decide
  have hfits : (packDerivationPath path).length ≤ maxApduLen := by
    rw [hlen]
    exact le_trans (Nat.add_le_add_left (Nat.mul_le_mul_left 4 hmax) 1) (by decide)
  obtain ⟨cmd, hcommand, hsign, hp1, hp2, hdata⟩ :=
    exists_command p2More hstart (List.length_pos_of_ne_nil hlimit) hfits
  refine ⟨cmd, hcommand, ⟨hsign, UInt8.toNat_inj.mp hp1, hp2, ?_⟩, hdata,
    hpack.carriedPath_pack hmax hpos⟩
  rw [hdata]
  nofun

include hcount hpieces in
theorem exists_closing :
    ∃ cmd, Apdu.command ⟨cla, insSignTx, 1 + messages.length, p2Last, last⟩ = some cmd
      ∧ cmd.continuesSession ∧ cmd.p2 = p2Last ∧ cmd.data = some last :=
  exists_command_chunk (Nat.le_add_right 1 _) (by omega) (Or.inl rfl)
    (hpieces last (List.mem_append_right _ List.mem_cons_self))

include hpack hpos hmax hcount hpieces in
theorem respond_apdus (hsdk : sdk.Lawful) {ui : Ui} {keccak256 : List UInt8 → Bytes 32}
    (d : Device) {cx cx' : Cx} (hcx' : cx'.Hashes keccak256) {cxs : List Cx}
    (hcxs : cxs.length = messages.length) {tx : BoilerplateApp.Transaction}
    (hparses : Parses (messages.flatten ++ last) tx) :
    ∃ d₁ : Device, Receiving path (messages.flatten ++ last) d₁
      ∧ respond (Device.answer ui sdk) d ((cx :: (cxs ++ [cx'])).zip
          ((Apdu.mk cla insSignTx p1Start.toNat p2More (packDerivationPath path)
            :: moreApdus 1 messages
            ++ [Apdu.mk cla insSignTx (1 + messages.length) p2Last last]).map
              fun a => Event.apdu a.command))
        = some (d₁.reviewing ui sdk tx (keccak256 (messages.flatten ++ last)),
            List.replicate (messages.length + 1) [.send swOk []]
              ++ [[.startReview .confirmTransaction]]) := by
  obtain ⟨opening, hopening, hopens, hpathData, hcarried⟩ := exists_opening hpack hpos hmax
  obtain ⟨closing, hclosing, hcontinues, hp2, hlastData⟩ := exists_closing hcount hpieces
  obtain ⟨d₂, hfirst, hsession⟩ : ∃ d₂, Device.answer ui sdk d (cx, .apdu (some opening))
      = some (d₂, [.send swOk []]) ∧ Receiving path [] d₂ :=
    next_opens ui cx d hsdk.toReadLaws hsdk.toPathLaws hopens hpathData hcarried
  have hroom : (messages.flatten ++ last).length ≤ maxTransactionLen := hparses.length_le
  rw [List.length_append] at hroom
  obtain ⟨d₃, hmore, hreceived⟩ := hsession.respond_more ui hsdk.toMoveLaws hcxs
    (fun piece hpiece => hpieces piece (List.mem_append_left _ hpiece)) (le_refl 1) (by omega)
    (by rw [List.length_nil]; omega)
  obtain ⟨d₁, hreceiving, hend⟩ : ∃ d₁ : Device, Receiving path (messages.flatten ++ last) d₁
      ∧ Device.answer ui sdk d₃ (cx', .apdu (some closing))
        = some (d₁.reviewing ui sdk tx (keccak256 (messages.flatten ++ last)),
            [.startReview .confirmTransaction]) :=
    hreceived.next_last ui hsdk hcx' hcontinues hp2 hlastData hparses
  refine ⟨d₁, hreceiving, ?_⟩
  rw [List.cons_append, List.map_cons, List.map_append, List.zip_cons_cons, hopening,
    List.replicate_succ, List.cons_append, List.zip_append
      (by rw [List.length_map, length_moreApdus, hcxs]), List.map_singleton, hclosing]
  apply respond_cons hfirst
  apply respond_append hmore
  exact respond_cons hend rfl

/-- The device reviews the transaction `t`, sent as `raw`, for the path `path`. -/
structure UnderReview (keccak256 : List UInt8 → Bytes 32) (t : Client.Transaction)
    (raw : List UInt8) (path : List UInt32) (d : Device) : Prop where
  received_eq : d.gContext.txInfo.received = raw
  arrives : t.Arrives raw d.gContext.txInfo.transaction
  mHash_eq : d.gContext.txInfo.mHash = keccak256 raw
  bip32PathLen_eq : d.gContext.bip32PathLen.toNat = path.length
  bip32Path_eq : d.gContext.bip32Path.toList.take path.length = path

/-- **Client and device agree.** A transaction that the client can build serializes and is sent in
commands that the device can parse. From any state of the device, all of them but the last are
answered `SW_OK`, and the last starts a review of the bytes sent, as the transaction and for the path
that the client meant. The user can approve it, and the reply to an approval reads back as the
signature that was made. -/
theorem sign_tx_agrees (hsdk : sdk.Lawful) (hpack : PacksPaths packDerivationPath)
    (t : Client.Transaction) (hmemo : t.memo.length ≤ maxMemoLen) {path : List UInt32}
    (hpos : 0 < path.length) (hmax : path.length ≤ maxBip32Path) :
    ∃ raw apdus, t.serialize = some raw ∧ signTx packDerivationPath path raw = some apdus
      ∧ (∀ a ∈ apdus, a.command ≠ none)
      ∧ ∀ (ui : Ui) (keccak256 : List UInt8 → Bytes 32) (d : Device) (cxs : List Cx),
        cxs.length = apdus.length → (∀ cx ∈ cxs, cx.Hashes keccak256) →
        ∃ d', respond (Device.answer ui sdk) d (cxs.zip (apdus.map fun a => .apdu a.command))
            = some (d', List.replicate (apdus.length - 1) [.send swOk []]
              ++ [[.startReview .confirmTransaction]])
          ∧ UnderReview keccak256 t raw path d'
          ∧ (∀ cx, ∃ (actions : List UserAction) (d₁ : Device),
              Undecided ui sdk d' (actions.map fun action => (cx, action)) d₁
                ∧ d₁.decides ui .approve = some (.confirmTransaction, true))
          ∧ ApprovalReadsBack ui sdk d' := by
  obtain ⟨raw, varint, hserialize, hroom, hlayout⟩ := t.exists_serialize hmemo
  have hraw : 0 < raw.length := by
    have hlen := hlayout.length
    have hheader : headerLen = 36 := rfl
    omega
  obtain ⟨messages, last, hsplit, hjoin, hcount, hpieces⟩ := exists_pieces hraw hroom
  subst hjoin
  refine ⟨_, _, hserialize, signTx_eq hsplit, ?_, ?_⟩
  · obtain ⟨opening, hopening, -⟩ := exists_opening hpack hpos hmax
    obtain ⟨closing, hclosing, -⟩ := exists_closing hcount hpieces
    intro a ha
    rcases List.mem_append.mp ha with ha | ha
    · rcases List.mem_cons.mp ha with rfl | ha
      · rw [hopening]
        nofun
      · apply command_of_mem_moreApdus _ (le_refl 1) (by omega) a ha
        exact fun piece hpiece => hpieces piece (List.mem_append_left _ hpiece)
    · obtain rfl := List.mem_singleton.mp ha
      rw [hclosing]
      nofun
  · intro ui keccak256 d cxs hcxs hhashes
    simp only [List.length_append, List.length_cons, length_moreApdus, List.length_nil] at hcxs ⊢
    obtain ⟨cx, cxs, rfl⟩ := List.exists_cons_of_length_eq_add_one hcxs
    rcases List.eq_nil_or_concat cxs with rfl | ⟨cxs, cx', hconcat⟩
    · cases hcxs
    rw [List.concat_eq_append] at hconcat
    subst hconcat
    obtain ⟨d₁, hreceiving, hrespond⟩ := respond_apdus hpack hpos hmax hcount hpieces hsdk d
      (hhashes cx' (by simp)) (by simpa using hcxs) (hlayout.parses hroom)
    refine ⟨_, hrespond, ⟨?_, ?_, ?_, ?_, ?_⟩, exists_undecided _ _, approvalReadsBack _ _ _⟩ <;>
      rw [Device.reviewing_gContext]
    · exact hreceiving.received_eq
    · exact t.arrives hlayout
    · rfl
    · exact hreceiving.bip32PathLen
    · exact hreceiving.bip32Path

end Exchange

namespace Reference

/-- The transaction of `test_sign_tx_short_tx`, as the client builds it. -/
def shortTx : Client.Transaction where
  nonce := 1
  toAddr := (tx.drop 8).take 20
  value := 666
  memo := tx.drop 37
  nonce_lt := by decide
  value_lt := by decide
  length_toAddr := by decide
  ascii := isAscii_iff.mp (by decide)

def packDerivationPath (path : List UInt32) : List UInt8 :=
  UInt8.ofNat path.length :: path.flatMap fun component => Endian.encodeBE 4 component.toNat

end Reference

open Reference in
/-- The exchange for this transaction with a freshly booted device with pages. -/
theorem sign_tx_agrees_shortTx :
    ∃ apdus d moves d₁ d₂ reply, signTx packDerivationPath path tx = some apdus
      ∧ respond (Device.answer .nbgl (sdk 64)) Device.boot
          ([calls, calls].zip (apdus.map fun a => .apdu a.command))
        = some (d, [[.send swOk []], [.startReview .confirmTransaction]])
      ∧ UnderReview keccak256 shortTx tx path d
      ∧ Undecided .nbgl (sdk 64) d moves d₁
      ∧ Device.next .nbgl (sdk 64) calls d₁ (.user .approve) = some (d₂,
          [.sign d.gContext.bip32Path d.gContext.bip32PathLen txHash, .send swOk reply])
      ∧ unpackSignTxResponse reply = some (70, signature.toList.take 70, 1) := by
  have hpack : PacksPaths packDerivationPath := fun _ _ => rfl
  have hpos : 0 < path.length := by decide
  obtain ⟨raw, apdus, hserialize, hsign, -, hagree⟩ :=
    sign_tx_agrees (lawful (Or.inr rfl)) hpack shortTx (by decide) hpos (by decide)
  have hserialized : shortTx.serialize = some tx := by decide
  obtain rfl := Option.some.inj (hserialized.symm.trans hserialize)
  have htwo : (signTx packDerivationPath path tx).map List.length = some 2 := by decide
  rw [hsign] at htwo
  have htwo : apdus.length = 2 := Option.some.inj htwo
  obtain ⟨d, hrespond, hreview, hmoves, happroval⟩ :=
    hagree .nbgl keccak256 Device.boot [calls, calls] htwo.symm (by simp [calls_hashes])
  rw [htwo] at hrespond
  obtain ⟨actions, d₁, hundecided, hdecides⟩ := hmoves calls
  obtain ⟨d₂, reply, hnext, hunpack⟩ :=
    happroval _ d₁ calls .approve hundecided hdecides ⟨cxOk, signature, 70, 1⟩ rfl rfl (by decide)
  rw [hreview.mHash_eq] at hnext
  exact ⟨apdus, d, _, d₁, d₂, reply, hsign, hrespond, hreview, hundecided, hnext, hunpack⟩

end BoilerplateApp
