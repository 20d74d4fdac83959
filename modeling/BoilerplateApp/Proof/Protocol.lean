import BoilerplateApp.Proof.Arguments
import BoilerplateApp.Proof.Interfaces
import BoilerplateApp.Proof.Review
import BoilerplateApp.Proof.StatusWords
import BoilerplateApp.Protocol

/-!
# The application follows its protocol

Every event of the application is a step of the abstract machine or nothing at all to it: the message
of the session is what the context has received, if the context belongs to a session, and the pending
review is the one on screen. So the machine predicts the answer to every command and decision, in
every order of both.
-/

namespace BoilerplateApp.Protocol

open Transition

/-! ### Messages -/

theorem wellFormed_iff {raw : List UInt8} : wellFormed raw = true ↔ Parses raw (fieldsOf raw) := by
  have hheader : headerLen = 36 := rfl
  rw [wellFormed, Bool.and_eq_true, Bool.and_eq_true, decide_eq_true_eq, decide_eq_true_eq]
  cases hdecode : CompactSize.decode (raw.drop 36) with
  | none =>
      have hfield : lengthField (raw.drop headerLen) = (0, 0) := by
        rw [hheader, lengthField, hdecode, Option.getD_none]
      constructor
      · rintro ⟨⟨hle, hlen⟩, hexact⟩
        have hexact : raw.length = 36 := of_decide_eq_true hexact
        refine ⟨hle, hlen, rfl, ?_, ?_⟩
        · rw [hfield, hexact]
          rfl
        · rw [hfield]
          dsimp only
          rw [Nat.add_zero, hheader, List.drop_of_length_le (le_of_eq hexact)]
          exact List.forall_mem_nil _
      · rintro ⟨hle, hlen, -, htotal, -⟩
        rw [hfield] at htotal
        exact ⟨⟨hle, hlen⟩, decide_eq_true htotal.symm⟩
  | some field =>
      obtain ⟨memoLen, used⟩ := field
      have hfield : lengthField (raw.drop headerLen) = (memoLen, used) := by
        rw [hheader, lengthField, hdecode, Option.getD_some]
      rw [Bool.and_eq_true, decide_eq_true_eq]
      change _ ∧ _ ∧ isAscii _ = true ↔ _
      rw [isAscii_iff]
      constructor
      · rintro ⟨⟨hle, hlen⟩, htotal, hascii⟩
        exact ⟨hle, hlen, rfl, by rwa [hfield], by rwa [hfield]⟩
      · rintro ⟨hle, hlen, -, htotal, hascii⟩
        rw [hfield] at htotal hascii
        exact ⟨⟨hle, hlen⟩, htotal, hascii⟩

/-! ### Commands -/

/-- The dispatcher does with `cmd` what the request says. -/
inductive Dispatches (cmd : Command) : Request → Prop
  | refused (sw : UInt16)
      (h : ∀ ui sdk cx d, apduDispatcher ui sdk cx d cmd = some (d, [.send sw []])) :
      Dispatches cmd (.refused sw)
  | report (data : List UInt8)
      (h : ∀ ui sdk cx d, apduDispatcher ui sdk cx d cmd = some (d, [.send swOk data])) :
      Dispatches cmd .report
  | key (hcmd : cmd.requestsKey) {data : List UInt8} (hdata : cmd.data = some data) :
      Dispatches cmd (.key (Command.carriedPath data) (decide (cmd.p1 ≠ 0)))
  | opening (hcmd : cmd.opensSession) {data : List UInt8} (hdata : cmd.data = some data) :
      Dispatches cmd (.opening (Command.carriedPath data))
  | chunk (hcmd : cmd.continuesSession) {data : List UInt8} (hdata : cmd.data = some data) :
      Dispatches cmd (.chunk data (decide (cmd.p2 = p2Last)))

section Commands

variable {cmd : Command}

theorem allows_key_iff (p1 p2 : UInt8) :
    allows insGetPublicKey p1 p2 = true ↔ ¬(p1 > 1 ∨ p2 > 0) := by
  rw [allows, if_pos rfl, decide_eq_true_eq, not_or, UInt8.not_lt, UInt8.not_lt]
  refine and_congr Iff.rfl ⟨?_, fun hle => UInt8.le_antisymm hle UInt8.zero_le⟩
  rintro rfl
  exact UInt8.le_refl 0

theorem allows_signTx_iff (p1 p2 : UInt8) : allows insSignTx p1 p2 = true
    ↔ ¬((p1 = p1Start ∧ p2 ≠ p2More) ∨ p1 > p1Max ∨ (p2 ≠ p2Last ∧ p2 ≠ p2More)) := by
  rw [allows, if_neg (by decide), if_pos rfl, decide_eq_true_eq]
  by_cases hstart : p1 = p1Start
  · have hsmall : ¬p1Start > p1Max := by decide
    have hzero : ¬1 ≤ p1Start := by decide
    by_cases hmore : p2 = p2More <;> simp [hstart, hsmall, hzero, hmore]
  · have hpos : 1 ≤ p1 := by
      rw [UInt8.le_iff_toNat_le]
      exact Nat.pos_of_ne_zero fun hzero => hstart (UInt8.toNat_inj.mp hzero)
    simp only [hstart, false_and, false_or, hpos, true_and, not_or, UInt8.not_lt, not_and_or,
      not_not]

theorem dispatches_simple (hcla : cmd.cla = cla)
    (hins : cmd.ins = insGetVersion ∨ cmd.ins = insGetAppName) :
    Dispatches cmd (request (some cmd)) := by
  have hkey : cmd.ins ≠ insGetPublicKey := by
    rcases hins with hins | hins <;> rw [hins] <;> decide
  have hsign : cmd.ins ≠ insSignTx := by
    rcases hins with hins | hins <;> rw [hins] <;> decide
  have hknown : cmd.ins ∈ instructions := by
    rcases hins with hins | hins <;> rw [hins] <;> decide
  by_cases hp : cmd.p1 = 0 ∧ cmd.p2 = 0
  · have hrequest : request (some cmd) = .report := by
      simp [request, refusal, passed, hcla, hknown, allows, needsData, hkey, hsign, hp]
    rw [hrequest]
    rcases hins with hins | hins
    · exact .report appVersion fun _ _ _ _ => by
        simp [apduDispatcher, hcla, hins, hp, handlerGetVersion, ioSendResponsePointer]
    · exact .report appName fun _ _ _ _ => by
        simp [apduDispatcher, hcla, hins, hp, handlerGetAppName, ioSendResponsePointer,
          insGetVersion, insGetAppName]
  · have hrequest : request (some cmd) = .refused swWrongP1P2 := by
      simp [request, refusal, hcla, hknown, allows, hkey, hsign, hp]
    have hp' : cmd.p1 ≠ 0 ∨ cmd.p2 ≠ 0 := not_and_or.mp hp
    rw [hrequest]
    rcases hins with hins | hins
    · exact .refused _ fun _ _ _ _ => by simp [apduDispatcher, hcla, hins, hp', ioSendSw]
    · exact .refused _ fun _ _ _ _ => by
        simp [apduDispatcher, hcla, hins, hp', ioSendSw, insGetVersion, insGetAppName]

theorem dispatches_key (hcla : cmd.cla = cla) (hins : cmd.ins = insGetPublicKey) :
    Dispatches cmd (request (some cmd)) := by
  have hknown : insGetPublicKey ∈ instructions := by decide
  have hneed : needsData insGetPublicKey = true := by decide
  have hallows := allows_key_iff cmd.p1 cmd.p2
  by_cases hp : cmd.p1 > 1 ∨ cmd.p2 > 0
  · have hrefused : allows insGetPublicKey cmd.p1 cmd.p2 = false :=
      Bool.eq_false_iff.mpr fun h => hallows.mp h hp
    have hrequest : request (some cmd) = .refused swWrongP1P2 := by
      simp [request, refusal, hcla, hins, hknown, hrefused]
    rw [hrequest]
    exact .refused _ fun _ _ _ _ => by
      rw [apduDispatcher, if_neg (not_not.mpr hcla), if_neg (by rw [hins]; decide),
        if_neg (by rw [hins]; decide), if_pos hins, if_pos hp, ioSendSw]
  have hallowed := hallows.mpr hp
  cases hdata : cmd.data with
  | none =>
      have hrequest : request (some cmd) = .refused swWrongDataLength := by
        simp [request, refusal, hcla, hins, hknown, hneed, hallowed, hdata]
      rw [hrequest]
      exact .refused _ fun _ _ _ _ => by
        rw [apduDispatcher, if_neg (not_not.mpr hcla), if_neg (by rw [hins]; decide),
          if_neg (by rw [hins]; decide), if_pos hins, if_neg hp, hdata]
        rfl
  | some data =>
      have hrequest : request (some cmd)
          = .key (Command.carriedPath data) (decide (cmd.p1 ≠ 0)) := by
        simp [request, refusal, passed, hcla, hins, hknown, hallowed, hdata]
      rw [hrequest]
      exact .key (requestsKey_of_parameters hcla hins hp (by simp [hdata])) hdata

theorem dispatches_signTx (hcla : cmd.cla = cla) (hins : cmd.ins = insSignTx) :
    Dispatches cmd (request (some cmd)) := by
  have hknown : insSignTx ∈ instructions := by decide
  have hneed : needsData insSignTx = true := by decide
  have hkey : insSignTx ≠ insGetPublicKey := by decide
  have hallows := allows_signTx_iff cmd.p1 cmd.p2
  by_cases hp : (cmd.p1 = p1Start ∧ cmd.p2 ≠ p2More) ∨ cmd.p1 > p1Max
      ∨ (cmd.p2 ≠ p2Last ∧ cmd.p2 ≠ p2More)
  · have hrefused : allows insSignTx cmd.p1 cmd.p2 = false :=
      Bool.eq_false_iff.mpr fun h => hallows.mp h hp
    have hrequest : request (some cmd) = .refused swWrongP1P2 := by
      simp [request, refusal, hcla, hins, hknown, hrefused]
    rw [hrequest]
    exact .refused _ fun _ _ _ _ => by
      rw [apduDispatcher, if_neg (not_not.mpr hcla), if_neg (by rw [hins]; decide),
        if_neg (by rw [hins]; decide), if_neg (by rw [hins]; decide), if_pos hins, if_pos hp,
        ioSendSw]
  have hallowed := hallows.mpr hp
  cases hdata : cmd.data with
  | none =>
      have hrequest : request (some cmd) = .refused swWrongDataLength := by
        simp [request, refusal, hcla, hins, hknown, hneed, hallowed, hdata]
      rw [hrequest]
      exact .refused _ fun _ _ _ _ => by
        rw [apduDispatcher, if_neg (not_not.mpr hcla), if_neg (by rw [hins]; decide),
          if_neg (by rw [hins]; decide), if_neg (by rw [hins]; decide), if_pos hins, if_neg hp,
          hdata]
        rfl
  | some data =>
      have hpasses : refusal cmd = none := by
        simp [refusal, hcla, hins, hknown, hallowed, hdata]
      rcases signTx_of_parameters ⟨hcla, hins⟩ hp (by simp [hdata]) with hopens | hcontinues
      · have hrequest : request (some cmd) = .opening (Command.carriedPath data) := by
          simp [request, hpasses, passed, hins, hkey, hopens.2.1, hdata]
        rw [hrequest]
        exact .opening hopens hdata
      · have hrequest : request (some cmd) = .chunk data (decide (cmd.p2 = p2Last)) := by
          simp [request, hpasses, passed, hins, hkey, hcontinues.p1_ne_zero, p1Start, hdata]
        rw [hrequest]
        exact .chunk hcontinues hdata

/-- The gates and the requests are those of the dispatcher. -/
theorem dispatches (cmd : Command) : Dispatches cmd (request (some cmd)) := by
  by_cases hcla : cmd.cla = cla
  swap
  · have hrequest : request (some cmd) = .refused swClaNotSupported := by
      simp [request, refusal, hcla]
    rw [hrequest]
    exact .refused _ fun _ _ _ _ => by rw [apduDispatcher, if_pos hcla, ioSendSw]
  by_cases hins : cmd.ins ∈ instructions
  swap
  · have hrequest : request (some cmd) = .refused swInsNotSupported := by
      simp [request, refusal, hcla, hins]
    simp only [instructions, List.mem_cons, List.not_mem_nil, or_false, not_or] at hins
    obtain ⟨hversion, hname, hkey, hsign⟩ := hins
    rw [hrequest]
    exact .refused _ fun _ _ _ _ => by
      rw [apduDispatcher, if_neg (not_not.mpr hcla), if_neg hversion, if_neg hname, if_neg hkey,
        if_neg hsign, ioSendSw]
  · simp only [instructions, List.mem_cons, List.not_mem_nil, or_false] at hins
    rcases hins with hins | hins | hins | hins
    · exact dispatches_simple hcla (Or.inl hins)
    · exact dispatches_simple hcla (Or.inr hins)
    · exact dispatches_key hcla hins
    · exact dispatches_signTx hcla hins

end Commands

/-! ### One event -/

/-- The device is where the machine is. -/
structure Follows (ui : Ui) (d : Device) (s : Session) : Prop where
  message : s.message = if d.gContext.reqType = .confirmTransaction then
    some d.gContext.txInfo.received else none
  pending : s.pending = d.screen.review
  rawTxLen : d.gContext.reqType = .confirmTransaction →
    d.gContext.txInfo.rawTxLen ≤ maxTransactionLen
  onScreen : OnScreen ui d

/-- The machine has a step that answers like the device and follows it. -/
def Answers (ui : Ui) (cx : Cx) (s : Session) (input : Input) (d' : Device)
    (effects : List Effect) : Prop :=
  ∃ r s' a, r.Of cx ∧ answer r s input = some (s', a) ∧ toAnswers effects = [a] ∧ Follows ui d' s'

section Results

variable {cx : Cx}

theorem Results.of_success (cx : Cx) : Results.success.Of cx :=
  ⟨Or.inl rfl, fun h => by cases h <;> contradiction, nofun⟩

theorem not_hashSucceeds (h : ¬cx.HashSucceeds) :
    cx.cxKeccakInitNoThrow ≠ cxOk ∨ ∃ message, (cx.cxHashNoThrow message).1 ≠ cxOk := by
  by_contra hall
  rw [not_or, not_not, not_exists] at hall
  exact h ⟨hall.1, fun message => not_not.mp (hall.2 message)⟩

end Results

section Step

variable {ui : Ui} {sdk : Sdk} {cx : Cx} {d d' : Device} {s : Session} {cmd : Command}
  {data : List UInt8} {effects : List Effect}

theorem Follows.length_received (h : Follows ui d s)
    (hreq : d.gContext.reqType = .confirmTransaction) :
    d.gContext.txInfo.received.length = d.gContext.txInfo.rawTxLen :=
  TransactionCtx.length_received (h.rawTxLen hreq)

theorem Follows.outside_session {pending : Option RequestType}
    (hreq : d'.gContext.reqType = .confirmAddress) (hpending : pending = d'.screen.review)
    (hscreen : OnScreen ui d') : Follows ui d' ⟨none, pending⟩ where
  message := by simp [hreq]
  pending := hpending
  rawTxLen h := by simp [hreq] at h
  onScreen := hscreen

theorem Follows.in_session {message : List UInt8} {pending : Option RequestType}
    (hreq : d'.gContext.reqType = .confirmTransaction)
    (hmessage : d'.gContext.txInfo.received = message)
    (hlen : d'.gContext.txInfo.rawTxLen ≤ maxTransactionLen)
    (hpending : pending = d'.screen.review) (hscreen : OnScreen ui d') :
    Follows ui d' ⟨some message, pending⟩ where
  message := by rw [if_pos hreq, hmessage]
  pending := hpending
  rawTxLen _ := hlen
  onScreen := hscreen

/-! #### GET_PUBLIC_KEY -/

theorem isSome_carriedPath (hread : sdk.ReadLaws) (hpath : sdk.PathLaws) (ctx : GlobalCtx)
    (data : List UInt8) : (Command.carriedPath data).isSome
      = (readBip32Path sdk ctx (.ofBytes data)).1 := by
  rw [Bool.eq_iff_iff, readBip32Path_iff hread hpath, carriesPath_iff, Option.isSome_iff_exists]

theorem bip32PathFormat_iff (htext : sdk.PathTextLaws) {ctx : GlobalCtx}
    (hpos : 0 < ctx.bip32PathLen.toNat) (hmax : ctx.bip32PathLen.toNat ≤ maxBip32Path) :
    (sdk.bip32PathFormat ctx.bip32Path ctx.bip32PathLen 60).1 = true
      ↔ ¬60 ≤ (pathText (ctx.bip32Path.toList.take ctx.bip32PathLen.toNat)).length := by
  constructor
  · intro hok hlong
    rw [htext.format_tooLong _ _ _ hpos hmax hlong] at hok
    cases hok
  · intro hshort
    rw [htext.format _ _ _ hpos hmax (Nat.not_le.mp hshort)]

theorem answers_of_requests (hread : sdk.ReadLaws) (hpath : sdk.PathLaws)
    (htext : sdk.PathTextLaws) (hfollows : Follows ui d s) {parsed : Option Command}
    {display : Bool} (hrequest : request parsed = .key (Command.carriedPath data) display)
    (h : Requests ui sdk cx d (.ofBytes data) display d' effects) :
    Answers ui cx s (.command parsed) d' effects := by
  have hreq : ∀ {ok ctx}, readBip32Path sdk (.fresh .confirmAddress) (.ofBytes data) = (ok, ctx) →
      ctx.reqType = .confirmAddress := by
    intro ok ctx hresult
    obtain ⟨_, _, rfl⟩ := readBip32Path_frame hresult
    rfl
  have hkeyed : ∀ {ctx pk}, readBip32Path sdk (.fresh .confirmAddress) (.ofBytes data) = (true, ctx) →
      (d.keyed ctx pk).gContext.reqType = .confirmAddress := by
    intro ctx pk hresult
    change ctx.reqType = _
    exact hreq hresult
  have hanswer : ∀ {r s' a}, keyAnswer r ⟨none, s.pending⟩ (Command.carriedPath data) display
      = (s', a) → answer r s (.command parsed) = some (s', a) := by
    intro r s' a hkey
    rw [answer, hrequest, requestAnswer, hkey]
  cases h with
  | refused hresult =>
      have hnone := isSome_carriedPath hread hpath (.fresh .confirmAddress) data
      rw [hresult, Option.isSome_eq_false_iff, Option.isNone_iff_eq_none] at hnone
      refine ⟨.success, _, _, Results.of_success cx, hanswer ?_, rfl,
        .outside_session (hreq hresult) hfollows.pending hfollows.onScreen⟩
      rw [hnone, keyAnswer]
  | underivable hresult hderive herror =>
      obtain ⟨hcarried, -, -⟩ := readBip32Path_ok hread hpath hresult
      refine ⟨{ Results.success with derivation := _ }, _, _,
        { Results.of_success cx with derivation := Or.inr ⟨_, _, congrArg Prod.fst hderive⟩ },
        hanswer ?_, rfl, .outside_session (hkeyed hresult) hfollows.pending hfollows.onScreen⟩
      rw [hcarried, keyAnswer, if_pos herror]
  | replied hresult hderive hdisplay =>
      obtain ⟨hcarried, -, -⟩ := readBip32Path_ok hread hpath hresult
      refine ⟨.success, _, _, Results.of_success cx, hanswer ?_, rfl,
        .outside_session (hkeyed hresult) hfollows.pending hfollows.onScreen⟩
      rw [hcarried, keyAnswer, if_neg (by simp [Results.success]), if_pos (by simp [hdisplay])]
  | pathFail hresult hderive hdisplay hformat =>
      obtain ⟨hcarried, hpos, hmax⟩ := readBip32Path_ok hread hpath hresult
      have hlong := mt (bip32PathFormat_iff htext hpos hmax).mpr (by simp [hformat])
      refine ⟨.success, _, _, Results.of_success cx, hanswer ?_, rfl,
        .outside_session (hkeyed hresult) hfollows.pending hfollows.onScreen⟩
      rw [hcarried, keyAnswer, if_neg (by simp [Results.success]), if_neg (by simp [hdisplay]),
        if_pos (not_not.mp hlong)]
  | addressFail hresult hderive hdisplay hformat haddress =>
      obtain ⟨hcarried, hpos, hmax⟩ := readBip32Path_ok hread hpath hresult
      have hshort := (bip32PathFormat_iff htext hpos hmax).mp hformat
      have hhash := not_hashSucceeds fun hcx => hcx.addressFromPubkey _ haddress
      refine ⟨{ Results.success with address := false }, ⟨none, s.pending⟩, _,
        { Results.of_success cx with hashes := fun _ => hhash }, hanswer ?_, rfl,
        .outside_session ?_ ?_ ?_⟩
      · rw [hcarried, keyAnswer, if_neg (by simp [Results.success]), if_neg (by simp [hdisplay]),
          if_neg hshort]
        rfl
      · rw [Device.setAddress_gContext]
        exact hkeyed hresult
      · rw [Device.setAddress_screen]
        exact hfollows.pending
      · exact hfollows.onScreen.of_same (by simp) (by simp)
  | shown hresult hderive hdisplay hformat haddress =>
      obtain ⟨hcarried, hpos, hmax⟩ := readBip32Path_ok hread hpath hresult
      have hshort := (bip32PathFormat_iff htext hpos hmax).mp hformat
      refine ⟨.success, ⟨none, some .confirmAddress⟩, _, Results.of_success cx, hanswer ?_, rfl,
        .outside_session ?_ (onScreen_showing _ _).2.symm (onScreen_showing _ _).1⟩
      · rw [hcarried, keyAnswer, if_neg (by simp [Results.success]), if_neg (by simp [hdisplay]),
          if_neg hshort]
        rfl
      · rw [Device.showing_gContext, Device.setAddress_gContext]
        exact hkeyed hresult

/-! #### SIGN_TX -/

theorem answers_of_opens (hread : sdk.ReadLaws) (hpath : sdk.PathLaws) (hfollows : Follows ui d s)
    (hcmd : cmd.opensSession) (hdata : cmd.data = some data)
    (hrequest : request (some cmd) = .opening (Command.carriedPath data))
    (h : Happens ui sdk cx d (.apdu (some cmd)) d' effects) :
    Answers ui cx s (.command (some cmd)) d' effects := by
  cases h with
  | outside _ _ hother => exact absurd hcmd (hother cmd rfl).1
  | requested hkey => exact absurd hcmd hkey.not_opens
  | badState hchunk | wrongTxLength hchunk | unmoved hchunk => exact absurd hcmd hchunk.not_opens
  | stored hstores | parsingFail hstores | hashFail hstores | amountFail hstores
  | reviewed hstores => exact absurd hcmd hstores.continues.not_opens
  | @opened _ data' _ hdata' ok ctx hresult =>
      obtain rfl := Option.some.inj (hdata.symm.trans hdata')
      rw [Command.buffer_eq hdata] at hresult
      have hisSome := isSome_carriedPath hread hpath (.fresh .confirmTransaction) data
      rw [hresult] at hisSome
      obtain ⟨_, _, rfl⟩ := readBip32Path_frame hresult
      refine ⟨.success, ⟨some [], s.pending⟩, .word (if ok then swOk else swWrongDataLength),
        Results.of_success cx, ?_, rfl,
        .in_session rfl rfl (Nat.zero_le _) hfollows.pending hfollows.onScreen⟩
      rw [answer, hrequest, requestAnswer, hisSome]

theorem wellFormed_of_deserialized (hread : sdk.ReadLaws)
    (hlen : d.gContext.txInfo.rawTxLen ≤ maxTransactionLen) {status : ParserStatus} {buf : Buffer}
    {tx : BoilerplateApp.Transaction} (hparse : d.deserialized sdk = some (status, buf, tx)) :
    wellFormed d.gContext.txInfo.received = true ↔ status = .parsingOk := by
  rw [wellFormed_iff]
  constructor
  · intro hparses
    obtain ⟨_, hok⟩ := (deserialized_iff hread hlen _).mpr hparses
    exact (Prod.mk.inj (Option.some.inj (hparse.symm.trans hok))).1
  · rintro rfl
    have hparses := (deserialized_iff hread hlen tx).mp ⟨buf, hparse⟩
    rwa [← hparses.fields]

section Stored

variable {d₁ : Device}

theorem answer_of_stores (hmove : sdk.MoveLaws) (hfollows : Follows ui d s)
    (hstores : Stores sdk d cmd data d₁) {last : Bool}
    (hrequest : request (some cmd) = .chunk data last) (r : Results) :
    answer r s (.command (some cmd))
      = some (messageAnswer r s d₁.gContext.txInfo.received last) := by
  have hfits : ¬maxTransactionLen < d.gContext.txInfo.received.length + data.length := by
    rw [hfollows.length_received hstores.reqType, cmd.length_data data hstores.data_eq, Nat.not_lt]
    exact hstores.fits
  have hmessage := hfollows.message
  rw [if_pos hstores.reqType] at hmessage
  simp only [answer, hrequest, requestAnswer, hmessage, if_neg hfits, (hstores.received hmove).2]

/-- A device with the bytes of `d₁` and the screen of the device before the chunk. -/
theorem Follows.of_stores (hfollows : Follows ui d s) (hstores : Stores sdk d cmd data d₁)
    {tx : TransactionCtx} {state : State} {amount : List Char} (hraw : tx.rawTx = d₁.gContext.txInfo.rawTx)
    (hlen : tx.rawTxLen = d₁.gContext.txInfo.rawTxLen) :
    Follows ui { d₁ with gContext.txInfo := tx, gContext.state := state, gAmount := amount }
      ⟨some d₁.gContext.txInfo.received, s.pending⟩ := by
  apply Follows.in_session
  · exact hstores.reqType_eq
  · rw [TransactionCtx.received, TransactionCtx.received, hraw, hlen]
  · rw [hlen]
    exact hstores.rawTxLen_le
  · obtain ⟨_, _, rfl⟩ := hstores.frame
    exact hfollows.pending
  · obtain ⟨_, _, rfl⟩ := hstores.frame
    exact hfollows.onScreen

end Stored

theorem answers_of_stores (hread : sdk.ReadLaws) (hmove : sdk.MoveLaws) (hformat : sdk.FormatLaws)
    (hfollows : Follows ui d s) (hcmd : cmd.continuesSession) (hdata : cmd.data = some data)
    (hrequest : request (some cmd) = .chunk data (decide (cmd.p2 = p2Last)))
    (h : Happens ui sdk cx d (.apdu (some cmd)) d' effects) :
    Answers ui cx s (.command (some cmd)) d' effects := by
  cases h with
  | outside _ _ hother => exact absurd hcmd (hother cmd rfl).2.1
  | requested hkey => exact absurd hkey hcmd.not_requests
  | opened hopens => exact absurd hopens hcmd.not_opens
  | badState _ hreq =>
      have hmessage := hfollows.message
      rw [if_neg hreq] at hmessage
      refine ⟨.success, s, .word swBadState, Results.of_success cx, ?_, rfl, hfollows⟩
      simp only [answer, hrequest, requestAnswer, hmessage]
  | wrongTxLength _ hreq hlong =>
      have hmessage := hfollows.message
      rw [if_pos hreq] at hmessage
      rw [← cmd.length_data data hdata, ← hfollows.length_received hreq] at hlong
      refine ⟨.success, s, .word swWrongTxLength, Results.of_success cx, ?_, rfl, hfollows⟩
      simp only [answer, hrequest, requestAnswer, hmessage, if_pos hlong]
  | unmoved _ hdata' _ hunmoved => exact absurd hunmoved (by rw [(hmove.moves hdata').1]; decide)
  | @stored _ data' _ hstores hmore =>
      obtain rfl := Option.some.inj (hdata.symm.trans hstores.data_eq)
      refine ⟨.success, _, .word swOk, Results.of_success cx, ?_, rfl,
        hfollows.of_stores hstores rfl rfl⟩
      rw [answer_of_stores hmove hfollows hstores hrequest, messageAnswer, hmore]
      rfl
  | @parsingFail _ data' _ hstores hlast _ _ _ hparse hstatus =>
      obtain rfl := Option.some.inj (hdata.symm.trans hstores.data_eq)
      have hbad := mt (wellFormed_of_deserialized hread hstores.rawTxLen_le hparse).mp hstatus
      refine ⟨.success, _, .word swTxParsingFail, Results.of_success cx, ?_, rfl,
        hfollows.of_stores hstores rfl rfl⟩
      rw [answer_of_stores hmove hfollows hstores hrequest, messageAnswer, hlast]
      simp only [decide_true, Bool.not_true, Bool.false_eq_true, if_false, hbad, Bool.not_false,
        if_true]
  | @hashFail _ data' _ hstores hlast _ _ hparse hash hhash =>
      obtain rfl := Option.some.inj (hdata.symm.trans hstores.data_eq)
      have hgood := (wellFormed_of_deserialized hread hstores.rawTxLen_le hparse).mpr rfl
      refine ⟨{ Results.success with hash := false }, _, .word swTxHashFail,
        { Results.of_success cx with hashes := fun _ => hhash.imp_right fun h => ⟨_, h⟩ }, ?_, rfl,
        hfollows.of_stores hstores rfl rfl⟩
      rw [answer_of_stores hmove hfollows hstores hrequest, messageAnswer, hlast]
      simp only [decide_true, Bool.not_true, Bool.false_eq_true, if_false, hgood, Bool.not_false,
        if_true]
  | amountFail _ _ _ _ hamount =>
      rw [formatFpu64_ok hformat] at hamount
      cases hamount
  | @reviewed _ data' d₁ hstores hlast _ tx hparse hhash hamount =>
      obtain rfl := Option.some.inj (hdata.symm.trans hstores.data_eq)
      have hgood := (wellFormed_of_deserialized hread hstores.rawTxLen_le hparse).mpr rfl
      refine ⟨.success, ⟨some d₁.gContext.txInfo.received, some .confirmTransaction⟩,
        .review .confirmTransaction, Results.of_success cx, ?_, rfl, .in_session ?_ ?_ ?_ ?_ ?_⟩
      · rw [answer_of_stores hmove hfollows hstores hrequest, messageAnswer, hlast]
        simp only [decide_true, Bool.not_true, Bool.false_eq_true, if_false, hgood, Results.success]
      · rw [Device.reviewing_gContext]
        exact hstores.reqType_eq
      · rw [Device.reviewing_gContext]
        rfl
      · rw [Device.reviewing_gContext]
        exact hstores.rawTxLen_le
      · exact (onScreen_showing _ _).2.symm
      · exact (onScreen_showing _ _).1

/-! #### Decisions -/

theorem toAnswers_validate {request : RequestType} {choice : Bool}
    (h : validate cx d request choice = some (d', effects)) :
    ∃ r, r.Of cx ∧ toAnswers effects = [.word (decisionWord r request choice)] := by
  cases request with
  | confirmAddress =>
      obtain rfl := validatePubkey_replies h
      refine ⟨.success, Results.of_success cx, ?_⟩
      cases choice <;> rfl
  | confirmTransaction =>
      obtain rfl := validateTransaction_replies h
      cases choice with
      | false => exact ⟨.success, Results.of_success cx, rfl⟩
      | true =>
          by_cases hsign : (signing cx d).error = cxOk
          · refine ⟨.success, Results.of_success cx, ?_⟩
            rw [if_pos rfl, if_pos hsign]
            rfl
          · refine ⟨{ Results.success with signature := false },
              { Results.of_success cx with signature := fun _ => ⟨_, _, _, hsign⟩ }, ?_⟩
            rw [if_pos rfl, if_neg hsign]
            rfl

theorem Follows.of_validate (hfollows : Follows ui d s) {request : RequestType} {choice : Bool}
    (h : validate cx d request choice = some (d', effects)) {screen : Screen}
    (hclosed : screen.review = none) (hbelongs : ∀ callback, screen.BelongsTo ui callback) :
    Follows ui { d' with screen := screen } { s with pending := none } := by
  have hsame : d'.gContext.reqType = d.gContext.reqType
      ∧ d'.gContext.txInfo.received = d.gContext.txInfo.received
      ∧ d'.gContext.txInfo.rawTxLen = d.gContext.txInfo.rawTxLen := by
    cases request with
    | confirmAddress =>
        obtain ⟨rfl, -⟩ := validatePubkey_spec h
        exact ⟨rfl, rfl, rfl⟩
    | confirmTransaction =>
        obtain ⟨⟨_, _, _, _, rfl, -⟩, -⟩ := validateTransaction_spec h
        exact ⟨rfl, rfl, rfl⟩
  obtain ⟨hreq, hreceived, hlen⟩ := hsame
  refine ⟨?_, hclosed.symm, ?_, hbelongs _⟩
  · dsimp only
    rw [hreq, hreceived]
    exact hfollows.message
  · dsimp only
    rw [hreq, hlen]
    exact hfollows.rawTxLen

end Step

section Event

variable {ui : Ui} {sdk : Sdk} {cx : Cx} {d d' : Device} {s : Session} {effects : List Effect}

theorem answers_of_command (hsdk : sdk.Lawful) (htext : sdk.PathTextLaws)
    (hfollows : Follows ui d s) {parsed : Option Command}
    (h : Device.next ui sdk cx d (.apdu parsed) = some (d', effects)) :
    Answers ui cx s (.command parsed) d' effects := by
  cases parsed with
  | none =>
      obtain ⟨rfl, rfl⟩ := Prod.mk.inj (Option.some.inj h)
      exact ⟨.success, s, _, Results.of_success cx, rfl, rfl, hfollows⟩
  | some cmd =>
      have hdispatches := dispatches cmd
      generalize hrequest : request (some cmd) = asked at hdispatches
      cases hdispatches with
      | refused sw hdispatch =>
          obtain ⟨rfl, rfl⟩ := Prod.mk.inj (Option.some.inj ((hdispatch ui sdk cx d).symm.trans h))
          refine ⟨.success, s, .word sw, Results.of_success cx, ?_, rfl, hfollows⟩
          rw [answer, hrequest, requestAnswer]
      | report data hdispatch =>
          obtain ⟨rfl, rfl⟩ := Prod.mk.inj (Option.some.inj ((hdispatch ui sdk cx d).symm.trans h))
          refine ⟨.success, s, .word swOk, Results.of_success cx, ?_, rfl, hfollows⟩
          rw [answer, hrequest, requestAnswer]
      | key hcmd hdata =>
          rw [next_getPublicKey hcmd hdata, Command.buffer_eq hdata] at h
          exact answers_of_requests hsdk.toReadLaws hsdk.toPathLaws htext hfollows hrequest
            (handlerGetPublicKey_requests h)
      | opening hcmd hdata =>
          exact answers_of_opens hsdk.toReadLaws hsdk.toPathLaws hfollows hcmd hdata hrequest
            (next_happens h)
      | chunk hcmd hdata =>
          exact answers_of_stores hsdk.toReadLaws hsdk.toMoveLaws hsdk.toFormatLaws hfollows hcmd
            hdata hrequest (next_happens h)

theorem answers_of_decision (hfollows : Follows ui d s) {action : UserAction}
    {request : RequestType} {choice : Bool}
    (hdecides : d.decides ui action = some (request, choice))
    (h : Device.next ui sdk cx d (.user action) = some (d', effects)) :
    Answers ui cx s (.decision choice) d' effects := by
  have hpending := hfollows.pending.trans (review_of_decides hfollows.onScreen hdecides)
  have hact := userAct_decides cx hdecides
  rw [Device.next, hact] at h
  obtain ⟨⟨d₁, effects⟩, hvalidate, heq⟩ := Option.map_eq_some_iff.mp h
  obtain ⟨rfl, rfl⟩ := Prod.mk.inj heq
  obtain ⟨r, hr, hanswers⟩ := toAnswers_validate hvalidate
  refine ⟨r, _, _, hr, ?_, hanswers, hfollows.of_validate hvalidate (review_afterDecision ui)
    (belongsTo_afterDecision ui)⟩
  rw [answer, hpending, Option.map_some]

/-- **Every event that the host hears of is answered like the machine answers it**, and the others
are nothing to the machine. -/
theorem answers_of_next (hsdk : sdk.Lawful) (htext : sdk.PathTextLaws) (hfollows : Follows ui d s)
    {event : Event} (h : Device.next ui sdk cx d event = some (d', effects)) :
    match input ui d event with
    | none => Follows ui d' s
    | some i => Answers ui cx s i d' effects := by
  cases event with
  | apdu parsed => exact answers_of_command hsdk htext hfollows h
  | user action =>
      rw [input]
      cases hdecides : d.decides ui action with
      | none =>
          obtain ⟨screen, rfl, -, hscreen, hreview⟩ :=
            userAct_undecided hfollows.onScreen hdecides h
          exact ⟨hfollows.message, hfollows.pending.trans hreview.symm, hfollows.rawTxLen, hscreen⟩
      | some decision => exact answers_of_decision hfollows hdecides h

end Event

/-! ### Runs -/

/-- What the machine knows of a device. -/
def sessionOf (d : Device) : Session where
  message := if d.gContext.reqType = .confirmTransaction then some d.gContext.txInfo.received
    else none
  pending := d.screen.review

theorem Follows.eq_sessionOf {ui : Ui} {d : Device} {s : Session} (h : Follows ui d s) :
    s = sessionOf d := by
  obtain ⟨message, pending⟩ := s
  obtain ⟨rfl, rfl, -, -⟩ := h
  rfl

/-- The input is not the end of a message that makes the parser read past its input. -/
def Session.Harmless (sizeBits : Nat) (s : Session) : Input → Prop
  | .decision _ => True
  | .command parsed => ∀ data message, request parsed = .chunk data true →
      s.message = some message → ¬Overruns sizeBits (message ++ data)

/-- The system calls do what they are asked for. -/
structure Succeeds (cx : Cx) : Prop where
  derives : ∀ path len, (cx.bip32DeriveGetPubkey256 path len).1 = cxOk
  hashes : cx.HashSucceeds
  signs : ∀ path len hash, (cx.bip32DeriveEcdsaSignHash256 path len hash).error = cxOk
  fits : cx.SignaturesFit

section Runs

variable {ui : Ui} {sdk : Sdk} {calls : Cx → Prop} {cx : Cx}

theorem Succeeds.results_eq (hcx : Succeeds cx) {r : Results} (hr : r.Of cx) : r = .success := by
  obtain ⟨derivation, address, hash, signature⟩ := r
  obtain ⟨hderivation, hhashes, hsignature⟩ := hr
  obtain rfl : derivation = cxOk := by
    rcases hderivation with hok | ⟨path, len, herror⟩
    · exact hok
    · exact herror.symm.trans (hcx.derives path len)
  have hgood : ¬(address = false ∨ hash = false) := by
    intro hbad
    rcases hhashes hbad with hinit | ⟨message, hmessage⟩
    · exact hinit hcx.hashes.1
    · exact hmessage (hcx.hashes.2 message)
  obtain ⟨haddress, hhash⟩ := not_or.mp hgood
  have hsigns : signature ≠ false := by
    intro hbad
    obtain ⟨path, len, hash, herror⟩ := hsignature hbad
    exact herror (hcx.signs path len hash)
  rw [Bool.not_eq_false] at haddress hhash
  rw [ne_eq, Bool.not_eq_false] at hsigns
  rw [haddress, hhash, hsigns, Results.success]

theorem simulation_protocol (hsdk : sdk.Lawful) (htext : sdk.PathTextLaws)
    (allowed : Session → Input → Prop) :
    Simulation ((app ui sdk calls).restrict fun d e => ∀ i ∈ input ui d e, allowed (sessionOf d) i)
      (heardFrom ui) ((protocol calls).restrict allowed) heard (Follows ui) where
  initial := ⟨rfl, rfl, fun _ => Nat.zero_le _, trivial⟩
  step := by
    rintro ⟨d, event, d', effects⟩ s hfollows ⟨hallowed, cx, hcx, hnext⟩
    dsimp only at hfollows hallowed hnext ⊢
    have hanswers := answers_of_next hsdk htext hfollows hnext
    cases hinput : input ui d event with
    | none =>
        rw [hinput] at hanswers
        refine ⟨[], s, .refl, ?_, hanswers⟩
        rw [heardFrom, hinput]
        rfl
    | some i =>
        rw [hinput] at hanswers
        obtain ⟨r, s', a, hr, hanswer, hheard, hafter⟩ := hanswers
        have hi := hallowed i hinput
        rw [← hfollows.eq_sessionOf] at hi
        refine ⟨[⟨s, i, s', a⟩], s', .step _ .refl ⟨hi, cx, r, hcx, hr, hanswer⟩, ?_, hafter⟩
        rw [heardFrom, hinput, Option.map_some, hheard]
        rfl

/-- **The application refines its protocol.** Whatever the host and the user do and whatever the
system calls return, what the host hears is what the machine answers. -/
theorem refines_protocol (hsdk : sdk.Lawful) (htext : sdk.PathTextLaws) :
    behaviours (app ui sdk calls) (heardFrom ui) ⊆ behaviours (protocol calls) heard := by
  have hsim : Simulation ((app ui sdk calls).restrict fun d e => ∀ i ∈ input ui d e, True)
      (heardFrom ui) ((protocol calls).restrict fun _ _ => True) heard (Follows ui) :=
    simulation_protocol hsdk htext fun _ _ => True
  simp only [implies_true, System.restrict_true] at hsim
  exact hsim.behaviours_subset

open Reference in
/-- A transaction that is reviewed, and a key that is asked for before it is approved. -/
theorem refines_protocol_tx :
    [(.decision true, [.word swOk]), (.command keyEvent.command, [.word swOk]),
      (.command txEvent.command, [.review .confirmTransaction]),
      (.command openEvent.command, [.word swOk])]
      ∈ behaviours (protocol (Cx.Hashes keccak256)) heard := by
  obtain ⟨trace, d, run, hheard⟩ := exists_run .bagl [openEvent, txEvent, keyEvent, .user .approve]
    (fun trace _ => decide (observed (heardFrom .bagl) trace =
      [(.decision true, [.word swOk]), (.command keyEvent.command, [.word swOk]),
        (.command txEvent.command, [.review .confirmTransaction]),
        (.command openEvent.command, [.word swOk])])) (by decide +kernel)
  exact refines_protocol (lawful (Or.inr rfl)) (pathTextLaws 64)
    ⟨trace, d, run, of_decide_eq_true hheard⟩

theorem request_of_continues {cmd : Command} (hcmd : cmd.continuesSession) {data : List UInt8}
    (hdata : cmd.data = some data) :
    request (some cmd) = .chunk data (decide (cmd.p2 = p2Last)) := by
  obtain ⟨⟨hcla, hins⟩, hp1, hp2, -⟩ := hcmd
  have hallows : allows insSignTx cmd.p1 cmd.p2 = true := by
    rw [allows, if_neg (by decide), if_pos rfl]
    exact decide_eq_true (Or.inr ⟨hp1, hp2⟩)
  have hstart : cmd.p1 ≠ p1Start := Command.continuesSession.p1_ne_zero
    ⟨⟨hcla, hins⟩, hp1, hp2, by simp [hdata]⟩
  have hknown : insSignTx ∈ instructions := by decide
  have hkey : insSignTx ≠ insGetPublicKey := by decide
  simp [request, refusal, passed, hcla, hins, hknown, hallows, hdata, hkey, hstart]

/-- A harmless command has a result. -/
theorem next_ne_none (hsdk : sdk.Lawful) (hfits : cx.SignaturesFit) {d : Device} {s : Session}
    (hfollows : Follows ui d s) {parsed : Option Command}
    (hharmless : s.Harmless sdk.sizeBits (.command parsed)) :
    Device.next ui sdk cx d (.apdu parsed) ≠ none := by
  intro hnone
  obtain ⟨cmd, data, hevent, hdata, hcmd, hlast, hreq, hover⟩ :=
    next_eq_none hsdk.toReadLaws hsdk.toMoveLaws hfits hfollows.onScreen hnone
  obtain rfl := Event.apdu.inj hevent
  have hmessage := hfollows.message
  rw [if_pos hreq] at hmessage
  have hrequest := request_of_continues hcmd hdata
  rw [decide_eq_true hlast] at hrequest
  exact hharmless data _ hrequest hmessage hover

theorem validate_ne_none (hfits : cx.SignaturesFit) (d : Device) (request : RequestType)
    (choice : Bool) : validate cx d request choice ≠ none := by
  cases request with
  | confirmAddress => cases choice <;> nofun
  | confirmTransaction => exact validateTransaction_ne_none hfits d choice

theorem simulation_app (hsdk : sdk.Lawful) (htext : sdk.PathTextLaws)
    (hcalls : ∀ cx, calls cx → Succeeds cx) :
    Simulation ((protocol calls).restrict (Session.Harmless sdk.sizeBits)) heard
      ((app ui sdk calls).restrict fun d e =>
        ∀ i ∈ input ui d e, (sessionOf d).Harmless sdk.sizeBits i)
      (heardFrom ui) (fun s d => Follows ui d s) where
  initial := ⟨rfl, rfl, fun _ => Nat.zero_le _, trivial⟩
  step := by
    rintro ⟨s, i, s', a⟩ d hfollows ⟨hharmless, cx, r, hcx, hr, hanswer⟩
    dsimp only at hfollows hharmless hanswer ⊢
    have hsucceeds := hcalls cx hcx
    obtain rfl := hsucceeds.results_eq hr
    -- whatever event the input comes from, its answer is the machine's
    have hone : ∀ {d₁ : Device} {event : Event} {d' : Device} {effects : List Effect},
        Follows ui d₁ s → input ui d₁ event = some i →
        Device.next ui sdk cx d₁ event = some (d', effects) →
        Steps ((app ui sdk calls).restrict fun d e =>
          ∀ i ∈ input ui d e, (sessionOf d).Harmless sdk.sizeBits i) d₁
          [⟨d₁, event, d', effects⟩] d'
        ∧ (heardFrom ui ⟨d₁, event, d', effects⟩).toList = [(i, [a])] ∧ Follows ui d' s' := by
      intro d₁ event d' effects hfollows₁ hinput hnext
      have hanswers := answers_of_next hsdk htext hfollows₁ hnext
      rw [hinput] at hanswers
      obtain ⟨r, s₁, a₁, hr₁, hanswer₁, hheard, hafter⟩ := hanswers
      obtain rfl := hsucceeds.results_eq hr₁
      obtain ⟨rfl, rfl⟩ := Prod.mk.inj (Option.some.inj (hanswer₁.symm.trans hanswer))
      refine ⟨.step _ .refl ⟨?_, cx, hcx, hnext⟩, ?_, hafter⟩
      · dsimp only
        rw [hinput, ← hfollows₁.eq_sessionOf]
        rintro _ ⟨⟩
        exact hharmless
      · rw [heardFrom, hinput, Option.map_some, hheard]
        rfl
    cases i with
    | command parsed =>
        obtain ⟨⟨d', effects⟩, hnext⟩ := Option.ne_none_iff_exists'.mp
          (next_ne_none hsdk hsucceeds.fits hfollows hharmless)
        obtain ⟨hsteps, hheard, hafter⟩ := hone hfollows rfl hnext
        exact ⟨_, d', hsteps, by rw [observed_cons, hheard]; rfl, hafter⟩
    | decision choice =>
        obtain ⟨request, hpending, -⟩ := Option.map_eq_some_iff.mp hanswer
        have hreview := hfollows.pending.symm.trans hpending
        have hsystem : ∀ d action d' effects, Device.decides ui d action = none →
            Device.next ui sdk cx d (.user action) = some (d', effects) →
            ((app ui sdk calls).restrict fun d e =>
              ∀ i ∈ input ui d e, (sessionOf d).Harmless sdk.sizeBits i).Step
              d (.user action) d' effects := by
          intro d action d' effects hnone hnext
          refine ⟨?_, cx, hcx, hnext⟩
          dsimp only
          rw [input, hnone]
          nofun
        obtain ⟨trace, screen, action, hsteps, hhidden, hscreen, hdecides, hact⟩ :=
          exists_steps_decides hsystem hfollows.onScreen hreview choice
        have hunheard : observed (heardFrom ui) trace = [] := by
          apply observed_undecided _ hhidden
          intro e action hevent hnone
          rw [heardFrom, hevent, input, hnone]
          rfl
        have hfollows₁ : Follows ui { d with screen := screen } s :=
          ⟨hfollows.message, hpending.trans (review_of_decides hscreen hdecides).symm,
            hfollows.rawTxLen, hscreen⟩
        obtain ⟨⟨d', effects⟩, hnext⟩ : ∃ result,
            Device.next ui sdk cx { d with screen := screen } (.user action) = some result := by
          rw [hact]
          obtain ⟨result, hvalidate⟩ := Option.ne_none_iff_exists'.mp
            (validate_ne_none hsucceeds.fits { d with screen := screen } request choice)
          rw [hvalidate]
          exact ⟨_, rfl⟩
        have hinput : input ui { d with screen := screen } (.user action)
            = some (.decision choice) := by
          rw [input, hdecides, Option.map_some]
        obtain ⟨hlast, hheard, hafter⟩ := hone hfollows₁ hinput hnext
        refine ⟨_, d', hlast.trans hsteps, ?_, hafter⟩
        rw [observed_append, hunheard, observed_cons, hheard]
        rfl

/-- **The application implements its protocol.** When the system calls succeed, everything that the
machine can answer can be heard of the application, and nothing else, in every order of commands and
decisions that does not end a message that makes the parser read past its input. -/
theorem implements_protocol (hsdk : sdk.Lawful) (htext : sdk.PathTextLaws)
    (hcalls : ∀ cx, calls cx → Succeeds cx) :
    behaviours ((app ui sdk calls).restrict fun d e =>
        ∀ i ∈ input ui d e, (sessionOf d).Harmless sdk.sizeBits i) (heardFrom ui)
      = behaviours ((protocol calls).restrict (Session.Harmless sdk.sizeBits)) heard :=
  Set.Subset.antisymm (simulation_protocol hsdk htext _).behaviours_subset
    (simulation_app hsdk htext hcalls).behaviours_subset

end Runs

open Reference in
/-- An address that the user refuses, from the machine's run. -/
theorem implements_protocol_address :
    [(.decision false, [.word swDeny]),
      (.command displayEvent.command, [.review .confirmAddress])]
      ∈ behaviours ((app .nbgl (sdk 32) (· = calls)).restrict fun d e =>
        ∀ i ∈ input .nbgl d e, (sessionOf d).Harmless 32 i) (heardFrom .nbgl) := by
  have hcalls : ∀ cx, cx = calls → Succeeds cx := by
    rintro _ rfl
    exact ⟨fun _ _ => rfl, ⟨rfl, fun _ => rfl⟩, fun _ _ _ => rfl, signaturesFit⟩
  change _ ∈ behaviours ((app .nbgl (sdk 32) (· = calls)).restrict fun d e =>
    ∀ i ∈ input .nbgl d e, (sessionOf d).Harmless (sdk 32).sizeBits i) (heardFrom .nbgl)
  rw [implements_protocol (lawful (Or.inl rfl)) (pathTextLaws 32) hcalls]
  have hharmless : ∀ s : Session, s.Harmless 32 (.command displayEvent.command) := by
    intro s data message hrequest
    have hkey : request displayEvent.command = .key (some path) true := by decide +kernel
    rw [hkey] at hrequest
    cases hrequest
  let asked : Transition.Entry Session Input Answer :=
    ⟨⟨none, none⟩, .command displayEvent.command, ⟨none, some .confirmAddress⟩,
      .review .confirmAddress⟩
  let denied : Transition.Entry Session Input Answer :=
    ⟨⟨none, some .confirmAddress⟩, .decision false, ⟨none, none⟩, .word swDeny⟩
  have hasked : Run ((protocol (· = calls)).restrict (Session.Harmless (sdk 32).sizeBits)) [asked]
      asked.after :=
    .step asked .initial
      ⟨hharmless _, calls, .success, rfl, Results.of_success calls, by decide +kernel⟩
  have hdenied : Run ((protocol (· = calls)).restrict (Session.Harmless (sdk 32).sizeBits))
      [denied, asked] denied.after :=
    .step denied hasked ⟨trivial, calls, .success, rfl, Results.of_success calls, rfl⟩
  exact ⟨_, _, hdenied, rfl⟩

end BoilerplateApp.Protocol
