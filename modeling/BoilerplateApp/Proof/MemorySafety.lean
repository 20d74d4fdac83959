import BoilerplateApp.Proof.Interfaces

/-!
# Memory faults

An event has no result when it makes the application leave its memory. Two events do: the last chunk
of a message that overruns, since the bytes of `raw_tx` behind the message are still the zeros of the
opening command and do not stop the scan either, and an approval after which the signing call puts
out more bytes than the response buffer has room for.
-/

namespace BoilerplateApp

open Transition Trace CompactSize

/-! ### The parser -/

/-- A scan of more bytes than there are leaves the memory when all of them are ASCII. -/
theorem checkEncoding_eq_none {memo : List UInt8} {n : Nat} (hlong : memo.length < n)
    (hascii : ∀ b ∈ memo, b ≤ 0x7F) : transactionUtilsCheckEncoding memo n = none := by
  induction memo generalizing n with
  | nil =>
      obtain ⟨n, rfl⟩ := Nat.exists_eq_succ_of_ne_zero (Nat.ne_zero_of_lt hlong)
      rfl
  | cons b memo ih =>
      obtain ⟨n, rfl⟩ := Nat.exists_eq_succ_of_ne_zero (Nat.ne_zero_of_lt hlong)
      have hb : ¬b > 0x7F := UInt8.not_lt.mpr (hascii b List.mem_cons_self)
      rw [transactionUtilsCheckEncoding, if_neg hb]
      exact ih (Nat.lt_of_succ_lt_succ hlong) fun x hx => hascii x (List.mem_cons_of_mem _ hx)

section Parser

variable {sdk : Sdk} {raw behind : List UInt8}

theorem deserialize_of_overruns (hread : sdk.ReadLaws) (hover : Overruns sdk.sizeBits raw)
    (hbehind : ∀ b ∈ behind, b ≤ 0x7F) (hmem : (raw ++ behind).length < 2 ^ sdk.sizeBits)
    (tx : Transaction) :
    transactionDeserialize sdk ⟨raw ++ behind, raw.length, 0⟩ tx = none := by
  have hvalid := valid_front raw behind
  have hunread := unread_front raw behind
  have hheader := hover.header
  have hlong := hover.long
  have hseeks := hover.seeks
  have hascii := hover.ascii
  have hused := lengthField_length (raw.drop headerLen)
  rw [List.length_drop] at hused
  rw [deserialize_memo hread hvalid tx rfl hover.length_le (by rwa [hunread]), hunread]
  rcases hfield : lengthField (raw.drop headerLen) with ⟨memoLen, used⟩
  rw [hfield] at hlong hseeks hascii hused
  dsimp only at hlong hseeks hascii hused ⊢
  have hvalidMemo : (Buffer.advance ⟨raw ++ behind, raw.length, 0⟩ (headerLen + used)).Valid :=
    hvalid.advance (by rw [hunread]; omega)
  have hleft : (Buffer.advance ⟨raw ++ behind, raw.length, 0⟩ (headerLen + used)).unread.length
      = raw.length - (headerLen + used) := by
    rw [Buffer.unread_advance, hunread, List.length_drop]
  have hdist : memoLen % 2 ^ sdk.sizeBits < 2 ^ sdk.sizeBits := Nat.mod_lt _ (by positivity)
  have hscan : transactionUtilsCheckEncoding ((raw ++ behind).drop (headerLen + used)) memoLen
      = none := by
    apply checkEncoding_eq_none
    · rw [List.length_drop]
      omega
    · intro b hb
      rw [List.drop_append_of_le_length (by omega)] at hb
      exact (List.mem_append.mp hb).elim (hascii b) (hbehind b)
  rw [hread.seekCur _ _ hvalidMemo hdist (by omega)]
  simp only [Bool.not_true, Bool.false_eq_true, if_false, Buffer.advance_ptr, hscan]

end Parser

/-! ### What is behind the message -/

/-- The bytes of `raw_tx` behind the message are zeros while a session is open. -/
def Padded (ctx : GlobalCtx) : Prop :=
  ctx.reqType = .confirmTransaction →
    ∀ b ∈ ctx.txInfo.rawTx.toList.drop ctx.txInfo.rawTxLen, b = 0

section Padding

variable {ui : Ui} {sdk : Sdk} {calls : Cx → Prop} {trace : List Entry} {d d₁ : Device}
  {cmd : Command} {data : List UInt8}

theorem SameSession.padded {ctx ctx' : GlobalCtx} (h : SameSession ctx ctx') (hpadded : Padded ctx) :
    Padded ctx' := by
  rwa [Padded, h.reqType, h.rawTx, h.rawTxLen]

theorem padded_fresh (request : RequestType) : Padded (.fresh request) := by
  intro _ b hb
  exact List.eq_of_mem_replicate (n := maxTransactionLen) (List.mem_of_mem_drop hb)

theorem Stores.padded (hmove : sdk.MoveLaws) (h : Stores sdk d cmd data d₁)
    (hpadded : Padded d.gContext) : Padded d₁.gContext := by
  obtain ⟨rawTx, hwrite, rfl⟩ := h.written
  rw [(hmove.moves h.data_eq).2] at hwrite
  obtain ⟨hfits, hraw⟩ := Region.toList_of_write hwrite
  rw [← List.Vector.toList_length d.gContext.txInfo.rawTx] at hfits
  have hdrop := Region.drop_overlay hfits 0
  rw [Nat.add_zero, cmd.length_data data h.data_eq] at hdrop
  intro hreq b hb
  simp only [hraw, hdrop, ← List.drop_drop] at hb
  exact hpadded hreq b (List.mem_of_mem_drop hb)

theorem padded_of_run (hmove : sdk.MoveLaws) (run : Run (app ui sdk calls) trace d) :
    Padded d.gContext := by
  apply run.tracks fun _ d => Padded d.gContext
  · intro hreq
    cases hreq
  · intro trace e hpadded step
    cases step_progress step with
    | kept _ _ hsame => exact hsame.padded hpadded
    | opened _ _ hpath =>
        obtain ⟨_, _, hframe⟩ := readBip32Path_frame hpath
        rw [hframe]
        exact padded_fresh .confirmTransaction
    | requested _ _ hreq => exact fun h => absurd (hreq.symm.trans h) (by decide)
    | extended _ hstores _ hsame => exact hsame.padded (hstores.padded hmove hpadded)

end Padding

/-! ### Chunks -/

section Chunk

variable {ui : Ui} {sdk : Sdk} {cx : Cx} {d : Device} {cmd : Command} {data : List UInt8}

theorem deserialized_of_overruns (hread : sdk.ReadLaws)
    (hlen : d.gContext.txInfo.rawTxLen ≤ maxTransactionLen)
    (hreq : d.gContext.reqType = .confirmTransaction) (hpadded : Padded d.gContext)
    (hover : Overruns sdk.sizeBits d.gContext.txInfo.received) : d.deserialized sdk = none := by
  have hraw := d.gContext.txInfo.rawTx.toList_length
  have hreceived := TransactionCtx.length_received hlen
  have hwhole : d.gContext.txInfo.received
      ++ d.gContext.txInfo.rawTx.toList.drop d.gContext.txInfo.rawTxLen
      = d.gContext.txInfo.rawTx.toList := List.take_append_drop _ _
  have hmem : d.gContext.txInfo.rawTx.toList.length < 2 ^ sdk.sizeBits :=
    hread.fits_size (le_trans (le_of_eq hraw) (by decide))
  rw [← hwhole] at hmem
  have hresult := deserialize_of_overruns hread hover (fun b hb => by rw [hpadded hreq b hb]; decide)
    hmem d.gContext.txInfo.transaction
  rwa [hreceived, hwhole] at hresult

/-- The last chunk of a message that overruns has no result. -/
theorem next_of_overruns (hread : sdk.ReadLaws) (hmove : sdk.MoveLaws) (hcmd : cmd.continuesSession)
    (hdata : cmd.data = some data) (hlast : cmd.p2 = p2Last)
    (hreq : d.gContext.reqType = .confirmTransaction) (hpadded : Padded d.gContext)
    (hlen : d.gContext.txInfo.rawTxLen ≤ maxTransactionLen)
    (hover : Overruns sdk.sizeBits (d.gContext.txInfo.received ++ data)) :
    Device.next ui sdk cx d (.apdu (some cmd)) = none := by
  have hfits := hover.length_le
  rw [List.length_append, TransactionCtx.length_received hlen] at hfits
  obtain ⟨d₁, hstores⟩ := exists_stores hmove hcmd hdata hreq hfits
  have hfault : d₁.deserialized sdk = none := by
    apply deserialized_of_overruns hread hstores.rawTxLen_le hstores.reqType_eq
      (hstores.padded hmove hpadded)
    rwa [(hstores.received hmove).2]
  have hmore : cmd.p2 ≠ p2More := by
    rw [hlast]
    decide
  rw [Device.deserialized] at hfault
  rw [hstores.next_eq, if_neg hmore, reviewRawTx, hfault]

end Chunk

/-! ### Approvals -/

/-- The signing call succeeds, and the length it puts out does not fit the response. -/
def Cx.SignsTooLong (cx : Cx) (ctx : GlobalCtx) : Prop :=
  let result := cx.bip32DeriveEcdsaSignHash256 ctx.bip32Path ctx.bip32PathLen ctx.txInfo.mHash
  result.error = cxOk ∧ maxDerSigLen < result.sigLen % 2 ^ 8

section Approval

variable {ui : Ui} {sdk : Sdk} {cx : Cx} {d : Device} {action : UserAction}

theorem validateTransaction_eq_none_iff {choice : Bool} :
    validateTransaction cx d choice = none ↔ choice = true ∧ cx.SignsTooLong d.gContext := by
  cases choice with
  | false => exact iff_of_false nofun fun h => absurd h.1 nofun
  | true =>
      simp only [validateTransaction, cryptoSignMessage, Cx.SignsTooLong, if_true, true_and]
      by_cases herror : (cx.bip32DeriveEcdsaSignHash256 d.gContext.bip32Path
          d.gContext.bip32PathLen d.gContext.txInfo.mHash).error = cxOk
      · simp [herror, helperSendResponseSig, ioSendResponsePointer]
      · simp [herror, ioSendSw]

theorem userAct_idle_ne_none (hscreen : OnScreen ui d) (hdecides : d.decides ui action = none) :
    userAct ui cx d action ≠ none := by
  obtain ⟨ctx, callback, amount, address, addressPubkey, screen⟩ := d
  cases ui with
  | bagl =>
      cases screen with
      | pubkeyFlow | transactionFlow =>
          obtain rfl : callback = _ := hscreen.2
          cases action <;> first | exact Option.some_ne_none _ | cases hdecides
      | _ => exact Option.some_ne_none _
  | nbgl => cases screen <;> cases action <;> first | exact Option.some_ne_none _ | cases hdecides

/-- What the user does has a result, unless it approves a signature that is too long. -/
theorem userAct_eq_none_iff (hscreen : OnScreen ui d) :
    userAct ui cx d action = none
      ↔ d.decides ui action = some (.confirmTransaction, true) ∧ cx.SignsTooLong d.gContext := by
  cases hdecides : d.decides ui action with
  | none => exact iff_of_false (userAct_idle_ne_none hscreen hdecides) nofun
  | some decision =>
      obtain ⟨request, choice⟩ := decision
      rw [userAct_decides cx hdecides, Option.map_eq_none_iff]
      cases request with
      | confirmAddress => exact iff_of_false (by cases choice <;> nofun) nofun
      | confirmTransaction =>
          rw [validate, validateTransaction_eq_none_iff]
          simp

end Approval

/-! ### Runs -/

/-- The event is the last chunk of a message that overruns. -/
def EndsOverrun (sizeBits : Nat) (trace : List Entry) : Event → Prop
  | .apdu (some cmd) => cmd.continuesSession ∧ cmd.p2 = p2Last
      ∧ (lastWipe trace).any opens = true ∧ Overruns sizeBits (message trace ++ cmd.data.getD [])
  | _ => False

instance (sizeBits : Nat) (trace : List Entry) :
    ∀ event, Decidable (EndsOverrun sizeBits trace event)
  | .apdu (some _) => inferInstanceAs (Decidable (_ ∧ _))
  | .apdu none => inferInstanceAs (Decidable False)
  | .user _ => inferInstanceAs (Decidable False)

/-- The event approves a transaction whose signature is too long. -/
def ApprovesTooLong (ui : Ui) (cx : Cx) (d : Device) : Event → Prop
  | .user action => d.decides ui action = some (.confirmTransaction, true)
      ∧ cx.SignsTooLong d.gContext
  | _ => False

/-- No length is too long for a `size_t` of 64 bits. -/
theorem not_endsOverrun (trace : List Entry) (event : Event) : ¬EndsOverrun 64 trace event := by
  intro h
  cases event with
  | user action => exact h
  | apdu parsed =>
      cases parsed with
      | none => exact h
      | some cmd => exact absurd h.2.2.2.long (Nat.not_le.mpr (lengthField_lt _))

theorem not_approvesTooLong {cx : Cx} (hcx : cx.SignaturesFit) (ui : Ui) (d : Device)
    (event : Event) : ¬ApprovesTooLong ui cx d event := by
  intro h
  cases event with
  | apdu parsed => exact h
  | user action =>
      obtain ⟨-, -, hlong⟩ := h
      have hmax : maxDerSigLen = 72 := rfl
      have hfits := hcx d.gContext.bip32Path d.gContext.bip32PathLen d.gContext.txInfo.mHash
      omega

section Runs

variable {ui : Ui} {sdk : Sdk} {cx : Cx} {calls : Cx → Prop} {trace : List Entry} {d : Device}

/-- A command does not sign. -/
theorem next_apdu_sign (cx : Cx)
    (sign : List.Vector UInt32 maxBip32Path → UInt8 → Bytes 32 → SignResult)
    (d : Device) (parsed : Option Command) :
    Device.next ui sdk { cx with bip32DeriveEcdsaSignHash256 := sign } d (.apdu parsed)
      = Device.next ui sdk cx d (.apdu parsed) := rfl

/-- The only events without a result. -/
theorem next_eq_none_iff (hread : sdk.ReadLaws) (hmove : sdk.MoveLaws)
    (run : Run (app ui sdk calls) trace d) (event : Event) :
    Device.next ui sdk cx d event = none
      ↔ EndsOverrun sdk.sizeBits trace event ∨ ApprovesTooLong ui cx d event := by
  cases event with
  | user action => exact (userAct_eq_none_iff (onScreen_of_run run)).trans (or_iff_right id).symm
  | apdu parsed =>
      constructor
      · intro h
        rw [← next_apdu_sign cx fun _ _ _ => ⟨cxOk, zeros _, 0, 0⟩] at h
        obtain ⟨cmd, data, hevent, hdata, hcmd, hlast, hreq, hover⟩ :=
          next_eq_none hread hmove (fun _ _ _ => Nat.zero_le _) (onScreen_of_run run) h
        cases hevent
        have hopens := (Option.any_eq_true _ _).mpr ((reqType_iff run).mp hreq)
        rw [(rawTx_eq_message hmove run hreq).2] at hover
        refine Or.inl ⟨hcmd, hlast, hopens, ?_⟩
        rwa [hdata]
      · rintro (h | h)
        · cases parsed with
          | none => exact h.elim
          | some cmd =>
              obtain ⟨hcmd, hlast, hopens, hover⟩ := h
              obtain ⟨data, hdata⟩ := Option.ne_none_iff_exists'.mp hcmd.2.2.2
              have hreq := (reqType_iff run).mpr ((Option.any_eq_true _ _).mp hopens)
              obtain ⟨hlen, hreceived⟩ := rawTx_eq_message hmove run hreq
              rw [hdata, Option.getD_some, ← hreceived] at hover
              exact next_of_overruns hread hmove hcmd hdata hlast hreq (padded_of_run hmove run) hlen
                hover
        · exact h.elim

/-- **When the application leaves its memory.** In every reachable state, whatever the system calls
return: when the host ends a message that overruns, which a build with a `size_t` of 64 bits does not
know, and when the user approves a signature that does not fit the response. Nothing else that the
host or the user can do faults. -/
theorem faults_iff (hread : sdk.ReadLaws) (hmove : sdk.MoveLaws)
    (run : Run (app ui sdk calls) trace d) (event : Event) :
    (Device.next ui sdk cx d event = none
        ↔ EndsOverrun sdk.sizeBits trace event ∨ ApprovesTooLong ui cx d event)
      ∧ (sdk.sizeBits = 64 → ¬EndsOverrun sdk.sizeBits trace event) :=
  ⟨next_eq_none_iff hread hmove run event, fun hsize => hsize ▸ not_endsOverrun trace event⟩

end Runs

open Reference in
/-- One chunk is enough on a device, and does no harm to a build for 64 bits. -/
theorem faults_iff_longMemo :
    (∃ trace d, Run (app .bagl (sdk 32) (Cx.Hashes keccak256)) trace d
      ∧ Device.next .bagl (sdk 32) calls d (command insSignTx 1 p2Last longMemo (by decide)) = none)
    ∧ ∃ trace d, Run (app .bagl (sdk 64) (Cx.Hashes keccak256)) trace d
      ∧ Device.next .bagl (sdk 64) calls d (command insSignTx 1 p2Last longMemo (by decide))
        ≠ none := by
  constructor
  · have hstep : ∀ s e s' o, Device.next .bagl (sdk 32) calls s e = some (s', o) →
        (app .bagl (sdk 32) (Cx.Hashes keccak256)).Step s e s' o :=
      fun _ _ _ _ hnext => ⟨calls, calls_hashes, hnext⟩
    obtain ⟨trace, d, run, htrace⟩ := Run.exists_of_execute hstep [openEvent]
      (fun trace _ => decide ((lastWipe trace).any opens = true ∧ message trace = []))
      (by decide +kernel)
    obtain ⟨hopens, hmessage⟩ := of_decide_eq_true htrace
    refine ⟨trace, d, run, ((faults_iff (readLaws (Or.inl rfl)) (moveLaws 32) run _).1).mpr
      (Or.inl ⟨by decide, rfl, hopens, ?_⟩)⟩
    rw [hmessage]
    exact overruns_longMemo
  · obtain ⟨trace, d, run, -⟩ := exists_run .bagl [openEvent] (fun _ _ => true) (by decide +kernel)
    refine ⟨trace, d, run, fun hnone => ?_⟩
    have hfaults := (faults_iff (readLaws (Or.inr rfl)) (moveLaws 64) run _).1.mp hnone
    exact hfaults.elim (not_endsOverrun _ _) id

end BoilerplateApp
