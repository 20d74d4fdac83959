import BoilerplateApp.Proof.Recorded

/-!
# Status words

Every exit of the handlers has a word of its own, and the errors of the hash and of the signature are
translated to one. The error of the derivation is not: `handler_get_public_key` passes its low half
on. And an approval is answered for what is in the context when the user approves, which commands may
have changed since the review started.
-/

namespace BoilerplateApp

open Transition Trace

/-- The table of `COMMANDS.md`. -/
def documentedWords : List UInt16 :=
  [swDeny, swWrongP1P2, swWrongDataLength, swInsNotSupported, swClaNotSupported,
    swWrongResponseLength, swDisplayBip32PathFail, swDisplayAddressFail, swDisplayAmountFail,
    swWrongTxLength, swTxParsingFail, swTxHashFail, swBadState, swSignatureFail, swOk]

/-- A documented word that reports a failure. -/
def Reports (sw : UInt16) : Prop := sw ∈ documentedWords ∧ sw ≠ swOk

instance (sw : UInt16) : Decidable (Reports sw) := inferInstanceAs (Decidable (_ ∧ _))

/-- The reply with a signature. -/
def signatureReply (result : SignResult) : List UInt8 :=
  UInt8.ofNat result.sigLen
    :: result.signature.toList.take (UInt8.ofNat result.sigLen).toNat
    ++ [(result.info &&& cxEccinfoParityOdd).toUInt8]

/-- What was asked for has been done, and `data` are its result. A chunk asks to be stored, and the
approval of a review for the key or the signature of the request under review. -/
inductive Succeeded (ui : Ui) (sdk : Sdk) (older : List Call) (e : Call) : List UInt8 → Prop
  | version {cmd : Command} (hevent : e.event.2 = .apdu (some cmd)) (hcla : cmd.cla = cla)
      (hins : cmd.ins = insGetVersion) (hp : cmd.p1 = 0 ∧ cmd.p2 = 0) :
      Succeeded ui sdk older e appVersion
  | appName {cmd : Command} (hevent : e.event.2 = .apdu (some cmd)) (hcla : cmd.cla = cla)
      (hins : cmd.ins = insGetAppName) (hp : cmd.p1 = 0 ∧ cmd.p2 = 0) :
      Succeeded ui sdk older e appName
  | key {cmd : Command} (hevent : e.event.2 = .apdu (some cmd)) (hp1 : cmd.p1 = 0) {pk : PubkeyCtx}
      (hderive : derivation sdk e.event.1 e.event.2 = some (cxOk, pk)) :
      Succeeded ui sdk older e (keyReply pk)
  | opened (hpath : openedPath sdk e.event.2
      = some (e.after.gContext.bip32Path, e.after.gContext.bip32PathLen)) :
      Succeeded ui sdk older e []
  | stored {cmd : Command} {data : List UInt8} (hevent : e.event.2 = .apdu (some cmd))
      (hmore : cmd.p2 = p2More) (hstores : Stores sdk e.before cmd data e.after) :
      Succeeded ui sdk older e []
  | address (happroves : approved ui e.before e.event.2 = some .confirmAddress) {r : Call}
      (hreview : Call.lastDisplay older = some r) {pk : PubkeyCtx}
      (hderive : derivation sdk r.event.1 r.event.2 = some (cxOk, pk)) :
      Succeeded ui sdk older e (keyReply pk)
  | signature (happroves : approved ui e.before e.event.2 = some .confirmTransaction) {r : Call}
      {oldest : List Call} (hreview : Call.lastReview older = r :: oldest)
      (hcompletes : Completes sdk r) {path : List.Vector UInt32 maxBip32Path} {len : UInt8}
      (hpath : Call.sessionPath sdk (r :: oldest) = some (path, len))
      (hcall : .sign path len r.after.gContext.txInfo.mHash ∈ e.output)
      (hsign : (e.event.1.bip32DeriveEcdsaSignHash256 path len
        r.after.gContext.txInfo.mHash).error = cxOk) :
      Succeeded ui sdk older e (signatureReply
        (e.event.1.bip32DeriveEcdsaSignHash256 path len r.after.gContext.txInfo.mHash))

/-- Every word of the entry is in the table. -/
def Documented (e : Call) : Prop := ∀ sw ∈ answers e.output, sw ∈ documentedWords

/-- `SW_OK` only answers what has succeeded. -/
def OkSound (ui : Ui) (sdk : Sdk) (older : List Call) (e : Call) : Prop :=
  ∀ data, .send swOk data ∈ e.output → Succeeded ui sdk older e data

/-! ### The conditions -/

/-- The low half of the error of a derivation that fails. -/
def narrowedError (sdk : Sdk) (e : Call) : Option UInt16 :=
  match derivation sdk e.event.1 e.event.2 with
  | none => none
  | some (error, _) => if error = cxOk then none else some error.toUInt16

def Translates (sdk : Sdk) (e : Call) : Prop := ∀ sw ∈ narrowedError sdk e, sw ∈ documentedWords

/-- When an address is approved, its key is still in the context. -/
def KeepsKey (ui : Ui) (older : List Call) (e : Call) : Prop :=
  approved ui e.before e.event.2 = some .confirmAddress →
    ∀ r ∈ Call.lastDisplay older, e.before.gContext.pkInfo = r.after.gContext.pkInfo

/-- When a transaction is approved and signed, its hash and its path are still in the context, and
its session was opened with a path. -/
def KeepsHash (ui : Ui) (sdk : Sdk) (older : List Call) (e : Call) : Prop :=
  approved ui e.before e.event.2 = some .confirmTransaction →
    (signing e.event.1 e.before).error = cxOk →
    (∀ r ∈ (Call.lastReview older).head?,
      e.before.gContext.bip32Path = r.after.gContext.bip32Path
        ∧ e.before.gContext.bip32PathLen = r.after.gContext.bip32PathLen
        ∧ e.before.gContext.txInfo.mHash = r.after.gContext.txInfo.mHash)
    ∧ (Call.sessionPath sdk (Call.lastReview older)).isSome = true

def Orderly (ui : Ui) (sdk : Sdk) (older : List Call) (e : Call) : Prop :=
  narrowedError sdk e ≠ some swOk ∧ KeepsKey ui older e ∧ KeepsHash ui sdk older e

instance (sdk : Sdk) (e : Call) : Decidable (Translates sdk e) :=
  Option.decidableForallMem (narrowedError sdk e)

instance (ui : Ui) (older : List Call) (e : Call) : Decidable (KeepsKey ui older e) :=
  inferInstanceAs (Decidable (_ → ∀ _ ∈ _, _))

instance (ui : Ui) (sdk : Sdk) (older : List Call) (e : Call) :
    Decidable (KeepsHash ui sdk older e) :=
  inferInstanceAs (Decidable (_ → _ → _ ∧ _))

instance (ui : Ui) (sdk : Sdk) (older : List Call) (e : Call) : Decidable (Orderly ui sdk older e) :=
  inferInstanceAs (Decidable (_ ∧ _ ∧ _))

/-! ### Commands -/

section Commands

variable {ui : Ui} {sdk : Sdk} {cx : Cx} {d d' : Device} {cmd : Command} {data : List UInt8}
  {older : List Call} {e : Call}

theorem narrowedError_of_none (h : derivation sdk e.event.1 e.event.2 = none) :
    narrowedError sdk e = none := by
  rw [narrowedError, h]

theorem narrowedError_of_derivation {error : UInt32} {pk : PubkeyCtx}
    (h : derivation sdk e.event.1 e.event.2 = some (error, pk)) :
    narrowedError sdk e = if error = cxOk then none else some error.toUInt16 := by
  rw [narrowedError, h]

/-- The words of an entry are sound whatever comes before it. -/
def WordsSound (ui : Ui) (sdk : Sdk) (e : Call) : Prop :=
  Documented e ∧ ∀ older, OkSound ui sdk older e

theorem wordsSound_of_reports {sw : UInt16} (houtput : e.output = [.send sw data])
    (hsw : Reports sw) : WordsSound ui sdk e := by
  refine ⟨?_, fun older data' hsend => ?_⟩
  · rw [Documented, houtput]
    exact List.forall_mem_singleton.mpr hsw.1
  · rw [houtput, List.mem_singleton] at hsend
    exact absurd (Effect.send.inj hsend).1.symm hsw.2

theorem wordsSound_of_succeeded (houtput : e.output = [.send swOk data])
    (hdone : ∀ older, Succeeded ui sdk older e data) : WordsSound ui sdk e := by
  refine ⟨?_, fun older data' hsend => ?_⟩
  · rw [Documented, houtput]
    exact List.forall_mem_singleton.mpr (by decide)
  · rw [houtput, List.mem_singleton] at hsend
    obtain ⟨-, rfl⟩ := Effect.send.inj hsend
    exact hdone older

theorem wordsSound_of_review {request : RequestType} (houtput : e.output = [.startReview request]) :
    WordsSound ui sdk e := by
  refine ⟨?_, fun older data' hsend => ?_⟩
  · rw [Documented, houtput]
    exact List.forall_mem_nil _
  · rw [houtput, List.mem_singleton] at hsend
    cases hsend

/-- The dispatcher answers a command that it does not dispatch with a refusal, or with the version
or the name. -/
theorem apduDispatcher_replies (ui : Ui) (sdk : Sdk) (cx : Cx) (d : Device)
    (hsign : ¬(cmd.opensSession ∨ cmd.continuesSession))
    (hkey : ¬cmd.requestsKey) :
    ∃ sw data, apduDispatcher ui sdk cx d cmd = some (d, [.send sw data])
      ∧ (Reports sw ∨ sw = swOk ∧ cmd.cla = cla ∧ (cmd.p1 = 0 ∧ cmd.p2 = 0)
        ∧ (cmd.ins = insGetVersion ∧ data = appVersion
          ∨ cmd.ins = insGetAppName ∧ data = appName)) := by
  by_cases hcla : cmd.cla = cla
  swap
  · exact ⟨_, _, by rw [apduDispatcher, if_pos hcla, ioSendSw], Or.inl (by decide)⟩
  rw [apduDispatcher, if_neg (not_not.mpr hcla)]
  split
  · next hins =>
      split
      · exact ⟨_, _, rfl, Or.inl (by decide)⟩
      · next hp => exact ⟨_, _, rfl, Or.inr ⟨rfl, hcla, by simpa using hp, Or.inl ⟨hins, rfl⟩⟩⟩
  split
  · next hins =>
      split
      · exact ⟨_, _, rfl, Or.inl (by decide)⟩
      · next hp => exact ⟨_, _, rfl, Or.inr ⟨rfl, hcla, by simpa using hp, Or.inr ⟨hins, rfl⟩⟩⟩
  split
  · next hins =>
      split
      · exact ⟨_, _, rfl, Or.inl (by decide)⟩
      · next hp =>
          split
          · exact ⟨_, _, rfl, Or.inl (by decide)⟩
          · next hdata =>
              exact absurd (requestsKey_of_parameters hcla hins hp (by simp [hdata])) hkey
  split
  · next hins =>
      split
      · exact ⟨_, _, rfl, Or.inl (by decide)⟩
      · next hp =>
          split
          · exact ⟨_, _, rfl, Or.inl (by decide)⟩
          · next hdata =>
              exact absurd (signTx_of_parameters ⟨hcla, hins⟩ hp (by simp [hdata])) hsign
  · exact ⟨_, _, rfl, Or.inl (by decide)⟩

theorem wordsSound_of_other {parsed : Option Command} (hevent : e.event.2 = .apdu parsed)
    (hsign : ∀ cmd ∈ parsed, ¬(cmd.opensSession ∨ cmd.continuesSession))
    (hkey : ∀ cmd ∈ parsed, ¬cmd.requestsKey)
    (hnext : Device.next ui sdk e.event.1 e.before e.event.2 = some (e.after, e.output)) :
    WordsSound ui sdk e := by
  rw [hevent] at hnext
  cases parsed with
  | none =>
      obtain ⟨-, houtput⟩ := Prod.mk.inj (Option.some.inj hnext)
      exact wordsSound_of_reports houtput.symm (by decide)
  | some cmd =>
      obtain ⟨sw, data, hreply, hcase⟩ :=
        apduDispatcher_replies ui sdk e.event.1 e.before (hsign cmd rfl) (hkey cmd rfl)
      obtain ⟨-, houtput⟩ := Prod.mk.inj (Option.some.inj (hreply.symm.trans hnext))
      rcases hcase with hsw | ⟨rfl, hcla, hp, ⟨hins, rfl⟩ | ⟨hins, rfl⟩⟩
      · exact wordsSound_of_reports houtput.symm hsw
      · exact wordsSound_of_succeeded houtput.symm fun _ => .version hevent hcla hins hp
      · exact wordsSound_of_succeeded houtput.symm fun _ => .appName hevent hcla hins hp

theorem wordsSound_of_signTx (hevent : e.event.2 = .apdu (some cmd))
    (hcmd : cmd.opensSession ∨ cmd.continuesSession)
    (hnext : Device.next ui sdk e.event.1 e.before e.event.2 = some (e.after, e.output)) :
    WordsSound ui sdk e := by
  obtain ⟨before, ⟨cx, event⟩, after, output⟩ := e
  dsimp only at hevent hnext
  subst hevent
  cases next_happens hnext with
  | outside sw data hother =>
      obtain ⟨hopens, hcontinues, -⟩ := hother cmd rfl
      exact absurd hcmd (not_or.mpr ⟨hopens, hcontinues⟩)
  | requested hkey => exact absurd hkey (hcmd.elim (·.not_requests) (·.not_requests))
  | @opened _ data hopens hdata ok ctx hpath =>
      cases ok with
      | false => exact wordsSound_of_reports rfl (by decide)
      | true =>
          apply wordsSound_of_succeeded rfl
          intro older
          apply Succeeded.opened
          rw [openedPath_of_opens hopens hdata hpath, if_pos rfl]
  | stored hstores hmore =>
      exact wordsSound_of_succeeded rfl fun _ => .stored rfl hmore hstores
  | badState | wrongTxLength | unmoved | parsingFail | hashFail | amountFail =>
      exact wordsSound_of_reports rfl (by decide)
  | reviewed => exact wordsSound_of_review rfl

theorem not_succeeded_of_derivation {error : UInt32} {pk : PubkeyCtx}
    (hevent : e.event.2 = .apdu (some cmd)) (hcmd : cmd.requestsKey)
    (hderive : derivation sdk e.event.1 e.event.2 = some (error, pk)) (herror : error ≠ cxOk) :
    ¬Succeeded ui sdk older e data := by
  intro hdone
  cases hdone with
  | version hevent' _ hins _ | appName hevent' _ hins _ =>
      obtain rfl := Option.some.inj (Event.apdu.inj (hevent.symm.trans hevent'))
      exact absurd (hins.symm.trans hcmd.2.1) (by decide)
  | key _ _ hderive' =>
      obtain ⟨rfl, -⟩ := Prod.mk.inj (Option.some.inj (hderive.symm.trans hderive'))
      exact herror rfl
  | opened hpath =>
      rw [hevent, openedPath_of_not_opens hcmd.not_opens] at hpath
      cases hpath
  | stored hevent' _ hstores =>
      obtain rfl := Option.some.inj (Event.apdu.inj (hevent.symm.trans hevent'))
      exact hstores.continues.not_requests hcmd
  | address happroves | signature happroves =>
      rw [hevent] at happroves
      cases happroves

/-- A GET_PUBLIC_KEY is answered with the low half of an error, or soundly. -/
theorem key_words (hevent : e.event.2 = .apdu (some cmd)) (hcmd : cmd.requestsKey)
    (hnext : Device.next ui sdk e.event.1 e.before e.event.2 = some (e.after, e.output)) :
    (narrowedError sdk e = none ∧ WordsSound ui sdk e)
      ∨ ∃ sw, narrowedError sdk e = some sw ∧ e.output = [.send sw []]
        ∧ ∀ older data, ¬Succeeded ui sdk older e data := by
  obtain ⟨data, hdata⟩ := Option.ne_none_iff_exists'.mp hcmd.2.2.2.2
  have hderived : ∀ {ctx : GlobalCtx} {error : UInt32} {pk : PubkeyCtx},
      readBip32Path sdk (.fresh .confirmAddress) ⟨data, cmd.lc.toNat, 0⟩ = (true, ctx) →
      e.event.1.bip32DeriveGetPubkey256 ctx.bip32Path ctx.bip32PathLen = (error, pk) →
      derivation sdk e.event.1 e.event.2 = some (error, pk) := by
    intro ctx error pk hpath hderive
    rw [hevent, derivation_of_requests hcmd hdata hpath, if_pos rfl, hderive]
  have hnone : ∀ {pk : PubkeyCtx}, derivation sdk e.event.1 e.event.2 = some (cxOk, pk) →
      narrowedError sdk e = none := by
    intro pk hok
    rw [narrowedError_of_derivation hok, if_pos rfl]
  rw [hevent, next_getPublicKey hcmd hdata] at hnext
  generalize e.after = after, houtput : e.output = output at hnext
  cases handlerGetPublicKey_requests hnext with
  | refused hpath =>
      refine Or.inl ⟨narrowedError_of_none ?_, wordsSound_of_reports houtput (by decide)⟩
      rw [hevent, derivation_of_requests hcmd hdata hpath]
      rfl
  | @underivable ctx hpath error pk hderive herror =>
      have hfailed := hderived hpath hderive
      right
      refine ⟨error.toUInt16, ?_, rfl, fun _ _ => ?_⟩
      · rw [narrowedError_of_derivation hfailed, if_neg herror]
      · exact not_succeeded_of_derivation hevent hcmd hfailed herror
  | replied hpath hderive hdisplay =>
      have hok := hderived hpath hderive
      have hp1 : cmd.p1 = 0 := by simpa using hdisplay
      exact Or.inl ⟨hnone hok, wordsSound_of_succeeded houtput fun _ => .key hevent hp1 hok⟩
  | pathFail hpath hderive | addressFail hpath hderive =>
      exact Or.inl ⟨hnone (hderived hpath hderive), wordsSound_of_reports houtput (by decide)⟩
  | shown hpath hderive =>
      exact Or.inl ⟨hnone (hderived hpath hderive), wordsSound_of_review houtput⟩

theorem command_words {parsed : Option Command} (hevent : e.event.2 = .apdu parsed)
    (hnext : Device.next ui sdk e.event.1 e.before e.event.2 = some (e.after, e.output)) :
    (narrowedError sdk e = none ∧ WordsSound ui sdk e)
      ∨ ∃ sw, narrowedError sdk e = some sw ∧ e.output = [.send sw []]
        ∧ ∀ older data, ¬Succeeded ui sdk older e data := by
  by_cases hkey : ∃ cmd ∈ parsed, cmd.requestsKey
  · obtain ⟨cmd, hparsed, hcmd⟩ := hkey
    rw [Option.mem_def.mp hparsed] at hevent
    exact key_words hevent hcmd hnext
  left
  constructor
  · apply narrowedError_of_none
    rw [hevent]
    cases parsed with
    | none => rfl
    | some cmd => exact derivation_of_not_requests fun hcmd => hkey ⟨cmd, rfl, hcmd⟩
  · by_cases hsign : ∃ cmd ∈ parsed, cmd.opensSession ∨ cmd.continuesSession
    · obtain ⟨cmd, hparsed, hcmd⟩ := hsign
      rw [Option.mem_def.mp hparsed] at hevent
      exact wordsSound_of_signTx hevent hcmd hnext
    · exact wordsSound_of_other hevent (fun cmd hmem hcmd => hsign ⟨cmd, hmem, hcmd⟩)
        (fun cmd hmem hcmd => hkey ⟨cmd, hmem, hcmd⟩) hnext

theorem words_iff_of_apdu {parsed : Option Command} (hevent : e.event.2 = .apdu parsed)
    (hnext : Device.next ui sdk e.event.1 e.before e.event.2 = some (e.after, e.output)) :
    (Documented e ↔ Translates sdk e) ∧ (OkSound ui sdk older e ↔ Orderly ui sdk older e) := by
  have horderly : Orderly ui sdk older e ↔ narrowedError sdk e ≠ some swOk := by
    have hnone : approved ui e.before e.event.2 = none := by rw [hevent, approved]
    simp [Orderly, KeepsKey, KeepsHash, hnone]
  rw [horderly]
  rcases command_words hevent hnext with ⟨hnone, hsound⟩ | ⟨sw, hsw, houtput, hfailed⟩
  · rw [Translates, hnone]
    exact ⟨iff_of_true hsound.1 (by simp), iff_of_true (hsound.2 older) (by simp)⟩
  · rw [Documented, Translates, OkSound, hsw, houtput]
    constructor
    · simp [answers]
    · constructor
      · rintro hok heq
        obtain rfl := Option.some.inj heq
        exact hfailed older [] (hok [] (List.mem_singleton_self _))
      · rintro hne data hsend
        obtain ⟨rfl, -⟩ := Effect.send.inj (List.mem_singleton.mp hsend)
        exact absurd rfl hne

end Commands

/-! ### Decisions -/

section Decisions

variable {ui : Ui} {sdk : Sdk} {cx : Cx} {d d' : Device} {effects : List Effect}
  {older : List Call} {e : Call}

theorem validatePubkey_replies {choice : Bool}
    (h : validatePubkey d choice = some (d', effects)) :
    effects = [if choice then .send swOk (keyReply d.gContext.pkInfo) else .send swDeny []] := by
  cases choice with
  | false => exact (Prod.mk.inj (Option.some.inj h)).2.symm
  | true => exact (Prod.mk.inj (Option.some.inj h)).2.symm

theorem validateTransaction_replies {choice : Bool}
    (h : validateTransaction cx d choice = some (d', effects)) :
    effects = if choice then
      [.sign d.gContext.bip32Path d.gContext.bip32PathLen d.gContext.txInfo.mHash,
        if (signing cx d).error = cxOk then .send swOk (signatureReply (signing cx d))
        else .send swSignatureFail []]
    else [.send swDeny []] := by
  cases choice with
  | false => exact (Prod.mk.inj (Option.some.inj h)).2.symm
  | true =>
      simp only [validateTransaction, cryptoSignMessage, if_true] at h
      rw [if_pos rfl]
      by_cases hsign : (signing cx d).error = cxOk
      · rw [if_pos hsign]
        rw [signing] at hsign
        simp only [hsign, ne_eq, not_true_eq_false, if_false, Bool.not_true, Bool.false_eq_true,
          helperSendResponseSig] at h
        split at h
        · cases h
        · exact (Prod.mk.inj (Option.some.inj h)).2.symm
      · rw [if_neg hsign]
        rw [signing] at hsign
        simp only [hsign, ne_eq, not_false_eq_true, if_true, Bool.not_false, ioSendSw,
          Option.map_some] at h
        exact (Prod.mk.inj (Option.some.inj h)).2.symm

theorem keyReply_injective {pk pk' : PubkeyCtx} (h : keyReply pk = keyReply pk') : pk = pk' := by
  obtain ⟨key, chain⟩ := pk
  obtain ⟨key', chain'⟩ := pk'
  obtain ⟨hkey, hchain⟩ := List.append_inj (List.cons.inj h).2 (by simp)
  congr 1
  · exact List.Vector.eq _ _ hkey
  · exact List.Vector.eq _ _ (List.cons.inj hchain).2

/-- What has succeeded when a user's action is answered `SW_OK`. -/
theorem succeeded_approval {action : UserAction} {reply : List UInt8}
    (hevent : e.event.2 = .user action) (hdone : Succeeded ui sdk older e reply) :
    (approved ui e.before e.event.2 = some .confirmAddress
        ∧ ∃ r pk, Call.lastDisplay older = some r
          ∧ derivation sdk r.event.1 r.event.2 = some (cxOk, pk) ∧ reply = keyReply pk)
      ∨ (approved ui e.before e.event.2 = some .confirmTransaction
        ∧ ∃ r oldest path len, Call.lastReview older = r :: oldest
          ∧ Call.sessionPath sdk (r :: oldest) = some (path, len)
          ∧ .sign path len r.after.gContext.txInfo.mHash ∈ e.output) := by
  cases hdone with
  | version hevent' | appName hevent' | key hevent' | stored hevent' =>
      cases hevent.symm.trans hevent'
  | opened hpath =>
      rw [hevent] at hpath
      cases hpath
  | address happroves hlast hderive => exact Or.inl ⟨happroves, _, _, hlast, hderive, rfl⟩
  | signature happroves hlast _ hpath hcall =>
      exact Or.inr ⟨happroves, _, _, _, _, hlast, hpath, hcall⟩

/-- An approved address is answered soundly exactly when the key is that of the review. -/
theorem okSound_iff_of_address {action : UserAction} (run : Run (recorded ui sdk) older e.before)
    (hevent : e.event.2 = .user action)
    (hdecides : e.before.decides ui action = some (.confirmAddress, true))
    (houtput : e.output = [.send swOk (keyReply e.before.gContext.pkInfo)]) :
    OkSound ui sdk older e ↔ KeepsKey ui older e := by
  have happroves : approved ui e.before e.event.2 = some .confirmAddress := by
    rw [hevent, approved, hdecides]
  obtain ⟨r, hlast⟩ :=
    exists_lastDisplay run (review_of_decides (onScreen_recorded run) hdecides)
  have hderived := derivation_of_lastDisplay run hlast
  constructor
  · intro hok _ r' hr'
    obtain rfl := Option.some.inj (hlast.symm.trans hr')
    have hdone := hok _ (by rw [houtput]; exact List.mem_singleton_self _)
    rcases succeeded_approval hevent hdone with
      ⟨-, r', pk, hlast', hderive, hreply⟩ | ⟨happroves', -⟩
    · obtain rfl := Option.some.inj (hlast.symm.trans hlast')
      obtain ⟨-, hpk⟩ := Prod.mk.inj (Option.some.inj (hderived.symm.trans hderive))
      rw [hpk]
      exact keyReply_injective hreply
    · cases happroves.symm.trans happroves'
  · intro hkeeps data hsend
    rw [houtput, List.mem_singleton] at hsend
    obtain ⟨-, rfl⟩ := Effect.send.inj hsend
    rw [hkeeps happroves r hlast]
    exact .address happroves hlast hderived

/-- A transaction that is approved and signed is answered soundly exactly when its hash and its path
are those of the review. -/
theorem okSound_iff_of_transaction {action : UserAction}
    (run : Run (recorded ui sdk) older e.before) (hevent : e.event.2 = .user action)
    (hdecides : e.before.decides ui action = some (.confirmTransaction, true))
    (hsign : (signing e.event.1 e.before).error = cxOk)
    (houtput : e.output = [.sign e.before.gContext.bip32Path e.before.gContext.bip32PathLen
        e.before.gContext.txInfo.mHash,
      .send swOk (signatureReply (signing e.event.1 e.before))]) :
    OkSound ui sdk older e ↔ KeepsHash ui sdk older e := by
  have happroves : approved ui e.before e.event.2 = some .confirmTransaction := by
    rw [hevent, approved, hdecides]
  obtain ⟨r, oldest, hlast⟩ :=
    exists_lastReview run (review_of_decides (onScreen_recorded run) hdecides)
  obtain ⟨hcompletes, runr⟩ := completes_of_lastReview run hlast
  constructor
  · intro hok _ _
    have hdone := hok _ (by rw [houtput]; exact List.mem_cons_of_mem _ List.mem_cons_self)
    rcases succeeded_approval hevent hdone with
      ⟨happroves', -⟩ | ⟨-, r', oldest', path, len, hlast', hsession, hcall⟩
    · cases happroves.symm.trans happroves'
    · obtain ⟨rfl, rfl⟩ := List.cons.inj (hlast.symm.trans hlast')
      rw [houtput, List.mem_pair] at hcall
      obtain ⟨rfl, rfl, hhash⟩ := Effect.sign.inj (hcall.resolve_right (by simp))
      obtain ⟨hpath, hlen⟩ := Prod.mk.inj (path_of_opened runr hsession)
      rw [hlast, hsession]
      refine ⟨?_, rfl⟩
      intro r' hr'
      obtain rfl := Option.mem_some.mp hr'
      exact ⟨hpath.symm, hlen.symm, hhash.symm⟩
  · intro hkeeps data hsend
    rw [houtput, List.mem_pair] at hsend
    obtain ⟨-, rfl⟩ := Effect.send.inj (hsend.resolve_left (by simp))
    obtain ⟨hsame, hopened⟩ := hkeeps happroves hsign
    rw [hlast] at hsame hopened
    obtain ⟨hpath, hlen, hhash⟩ := hsame r rfl
    obtain ⟨⟨path, len⟩, hsession⟩ := Option.isSome_iff_exists.mp hopened
    obtain ⟨rfl, rfl⟩ := Prod.mk.inj (path_of_opened runr hsession)
    rw [signing, hpath, hlen, hhash] at hsign ⊢
    apply Succeeded.signature happroves hlast hcompletes hsession _ hsign
    rw [houtput, hpath, hlen, hhash]
    exact List.mem_cons_self

theorem documented_of_user {action : UserAction} (hevent : e.event.2 = .user action)
    (hnext : Device.next ui sdk e.event.1 e.before e.event.2 = some (e.after, e.output)) :
    Documented e := by
  rw [hevent] at hnext
  rw [Documented]
  generalize e.after = after, e.output = output at hnext
  cases next_happens hnext with
  | moved => exact List.forall_mem_nil _
  | @decidedPubkey _ choice _ _ _ hvalidate =>
      obtain rfl := validatePubkey_replies hvalidate
      cases choice <;> exact List.forall_mem_singleton.mpr (by decide)
  | @decidedTransaction _ choice _ _ _ hvalidate =>
      obtain rfl := validateTransaction_replies hvalidate
      cases choice with
      | false => exact List.forall_mem_singleton.mpr (by decide)
      | true =>
          rw [if_pos rfl]
          split <;> exact List.forall_mem_singleton.mpr (by decide)

theorem okSound_iff_of_user {action : UserAction} (run : Run (recorded ui sdk) older e.before)
    (hevent : e.event.2 = .user action)
    (hnext : Device.next ui sdk e.event.1 e.before e.event.2 = some (e.after, e.output)) :
    OkSound ui sdk older e ↔ KeepsKey ui older e ∧ KeepsHash ui sdk older e := by
  have hother : (∀ data, .send swOk data ∉ e.output) →
      KeepsKey ui older e ∧ KeepsHash ui sdk older e →
      (OkSound ui sdk older e ↔ KeepsKey ui older e ∧ KeepsHash ui sdk older e) :=
    fun hno hkeeps => iff_of_true (fun data hsend => absurd hsend (hno data)) hkeeps
  rw [hevent] at hnext
  generalize e.after = after, houtput : e.output = output at hnext
  cases next_happens hnext with
  | moved hdecides =>
      apply hother
      · simp [houtput]
      · simp [KeepsKey, KeepsHash, hevent, approved, hdecides]
  | @decidedPubkey _ choice hdecides _ _ hvalidate =>
      obtain rfl := validatePubkey_replies hvalidate
      cases choice with
      | false =>
          apply hother
          · simp [houtput, swOk, swDeny]
          · simp [KeepsKey, KeepsHash, hevent, approved, hdecides]
      | true =>
          rw [okSound_iff_of_address run hevent hdecides houtput]
          simp [KeepsHash, hevent, approved, hdecides]
  | @decidedTransaction _ choice hdecides _ _ hvalidate =>
      obtain rfl := validateTransaction_replies hvalidate
      cases choice with
      | false =>
          apply hother
          · simp [houtput, swOk, swDeny]
          · simp [KeepsKey, KeepsHash, hevent, approved, hdecides]
      | true =>
          by_cases hsign : (signing e.event.1 e.before).error = cxOk
          · rw [if_pos hsign] at houtput
            rw [okSound_iff_of_transaction run hevent hdecides hsign houtput]
            simp [KeepsKey, hevent, approved, hdecides]
          · rw [if_neg hsign] at houtput
            apply hother
            · simp [houtput, swOk, swSignatureFail]
            · simp [KeepsKey, KeepsHash, hevent, approved, hdecides, hsign]

theorem words_iff_of_user {action : UserAction} (run : Run (recorded ui sdk) older e.before)
    (hevent : e.event.2 = .user action)
    (hnext : Device.next ui sdk e.event.1 e.before e.event.2 = some (e.after, e.output)) :
    (Documented e ↔ Translates sdk e) ∧ (OkSound ui sdk older e ↔ Orderly ui sdk older e) := by
  have hnarrowed : narrowedError sdk e = none := by
    apply narrowedError_of_none
    rw [hevent]
    rfl
  rw [Translates, Orderly, hnarrowed]
  constructor
  · exact iff_of_true (documented_of_user hevent hnext) (by simp)
  · rw [okSound_iff_of_user run hevent hnext]
    simp

end Decisions

/-- **Status words are sound** exactly as far as the errors of derivations and the approvals allow:
every word is documented if and only if the low half of every error is, and `SW_OK` only answers
what has succeeded if and only if all steps are orderly. -/
theorem status_words_sound_iff {ui : Ui} {sdk : Sdk} {trace : List Call} {d : Device}
    (run : Run (recorded ui sdk) trace d) :
    (Always (fun _ e => Documented e) trace ↔ Always (fun _ e => Translates sdk e) trace)
      ∧ (Always (OkSound ui sdk) trace ↔ Always (Orderly ui sdk) trace) := by
  have hstep : ∀ older (e : Call), Run (recorded ui sdk) (e :: older) e.after →
      (Documented e ↔ Translates sdk e)
        ∧ (OkSound ui sdk older e ↔ Orderly ui sdk older e) := by
    intro older e run
    obtain ⟨run', hnext, -⟩ := run.last
    cases hevent : e.event.2 with
    | apdu parsed => exact words_iff_of_apdu hevent hnext
    | user action => exact words_iff_of_user run' hevent hnext
  refine ⟨⟨run.always ?_, run.always ?_⟩, ⟨run.always ?_, run.always ?_⟩⟩ <;> intro older e run
  · exact (hstep older e run).1.mp
  · exact (hstep older e run).1.mpr
  · exact (hstep older e run).2.mp
  · exact (hstep older e run).2.mpr

namespace Reference

/-- A recorded run that takes `events`, with a property of it that was computed. -/
theorem exists_recorded (ui : Ui) (events : List (Cx × Event)) (p : List Call → Bool)
    (h : (execute (Device.answer ui (sdk 64)) [] Device.boot events).any (fun r => p r.1) = true) :
    ∃ trace d, Run (recorded ui (sdk 64)) trace d ∧ p trace = true := by
  have hstep : ∀ s e s' o, Device.answer ui (sdk 64) s e = some (s', o) →
      (recorded ui (sdk 64)).Step s e s' o := fun _ _ _ _ hnext => hnext
  exact Run.exists_of_execute hstep events (fun trace _ => p trace) h

/-- A device whose derivations fail with `CX_INTERNAL_ERROR`. -/
def underivable : Cx :=
  { calls with bip32DeriveGetPubkey256 := fun _ _ => (0xFFFFFF85, ⟨zeros _, zeros _⟩) }

end Reference

open Reference in
/-- A derivation fails, and the word is `0xFF85`. -/
theorem not_status_words_sound :
    ¬∀ trace d, Run (recorded .bagl (sdk 64)) trace d →
      Always (fun _ e => Documented e) trace ∧ Always (OkSound .bagl (sdk 64)) trace := by
  intro h
  obtain ⟨trace, d, run, htrace⟩ := exists_recorded .bagl [(underivable, keyEvent)]
    (fun trace => trace.head?.any fun e => decide (answers e.output = [0xFF85])) (by decide +kernel)
  cases trace with
  | nil => cases htrace
  | cons e older =>
      have hword : answers e.output = [0xFF85] := of_decide_eq_true htrace
      have hdocumented := (h _ d run).1.1 0xFF85 (by rw [hword]; exact List.mem_singleton_self _)
      exact absurd hdocumented (by decide)

open Reference in
/-- An address and a transaction, both approved. -/
theorem status_words_sound_approvals :
    ∃ trace d, Run (recorded .bagl (sdk 64)) trace d ∧ trace.length = 5
      ∧ Always (fun _ e => Documented e) trace ∧ Always (OkSound .bagl (sdk 64)) trace := by
  obtain ⟨trace, d, run, htrace⟩ := exists_recorded .bagl
    [(calls, displayEvent), (calls, .user .approve), (calls, openEvent), (calls, txEvent),
      (calls, .user .approve)]
    (fun trace => decide (trace.length = 5)
      && decide (Always (fun _ e => Translates (sdk 64) e) trace)
      && decide (Always (Orderly .bagl (sdk 64)) trace)) (by decide +kernel)
  simp only [Bool.and_eq_true, decide_eq_true_eq] at htrace
  obtain ⟨⟨hlength, htranslates⟩, horderly⟩ := htrace
  have hlaw := status_words_sound_iff run
  exact ⟨trace, d, run, hlength, hlaw.1.mpr htranslates, hlaw.2.mpr horderly⟩

end BoilerplateApp
