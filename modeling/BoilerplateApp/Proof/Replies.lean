import BoilerplateApp.Proof.Bounds
import BoilerplateApp.Proof.Format
import BoilerplateApp.Proof.Screens
import BoilerplateApp.Proof.Session

/-!
# One reply for each command

A command replies when it is dispatched or leaves a review on screen, and then the decision that
closes the review replies. So a device owes a reply exactly while a review is on screen, as long as
the host waits for each reply before it sends the next command.
-/

namespace BoilerplateApp

open Transition

namespace Trace

def isCommand (e : Entry) : Bool :=
  match e.event with
  | .apdu _ => true
  | .user _ => false

def commandCount (trace : List Entry) : Nat := trace.countP isCommand

def replyCount (trace : List Entry) : Nat := (trace.map fun e => (answers e.output).length).sum

/-- There has been a reply since the last command. -/
def answered : List Entry → Bool
  | [] => true
  | e :: older => decide (0 < (answers e.output).length) || (!isCommand e && answered older)

/-- The condition on the host: it sends a command after the last one was answered. -/
def Synchronous (older : List Entry) : Event → Prop
  | .apdu _ => answered older = true
  | .user _ => True

instance (older : List Entry) : ∀ event, Decidable (Synchronous older event)
  | .apdu _ => inferInstanceAs (Decidable (answered older = true))
  | .user _ => inferInstanceAs (Decidable True)

/-- The user decides a review. -/
def decides (ui : Ui) (e : Entry) : Bool :=
  match e.event with
  | .apdu _ => false
  | .user action => (e.before.decides ui action).isSome

end Trace

open Trace

/-- The replies that are still to come. -/
def Device.owed (d : Device) : Nat := if d.screen.review = none then 0 else 1

/-- Of the entries from a command up to the next one, or up to now, exactly one replies, and none as
long as the review of the command is on screen. A user action replies once when it decides a review,
which closes the review, and not at all otherwise. -/
structure AnsweredOnce (ui : Ui) (trace : List Entry) (d : Device) : Prop where
  command : ∀ later own e older, trace = later ++ (own ++ e :: older) → isCommand e = true →
    (∀ x ∈ own, isCommand x = false) → (∀ c ∈ later.getLast?, isCommand c = true) →
    (later ≠ [] ∨ d.screen.review = none → replyCount (own ++ [e]) = 1)
      ∧ (later = [] → d.screen.review ≠ none → replyCount (own ++ [e]) = 0)
  user : ∀ x ∈ trace, isCommand x = false →
    ((answers x.output).length = if decides ui x then 1 else 0)
      ∧ (decides ui x = true → x.before.screen.review ≠ none ∧ x.after.screen.review = none)

/-! ### One event -/

section Step

variable {ui : Ui} {sdk : Sdk} {calls : Cx → Prop} {e : Entry}

theorem answered_of_synchronous {older : List Entry} (h : Synchronous older e.event)
    (hcommand : isCommand e = true) : answered older = true := by
  obtain ⟨before, event, after, output⟩ := e
  cases event with
  | apdu parsed => exact h
  | user action => cases hcommand

theorem replies_of_user (hscreen : OnScreen ui e.before)
    (hstep : (app ui sdk calls).Step e.before e.event e.after e.output)
    (huser : isCommand e = false) :
    ((answers e.output).length = if decides ui e then 1 else 0)
      ∧ (answers e.output).length + e.after.owed = e.before.owed
      ∧ (decides ui e = true → e.before.screen.review ≠ none ∧ e.after.screen.review = none) := by
  obtain ⟨before, event, after, output⟩ := e
  obtain ⟨cx, -, hnext⟩ := hstep
  cases event with
  | apdu parsed => cases huser
  | user action =>
      dsimp only at hscreen hnext ⊢
      cases hdecides : before.decides ui action with
      | none =>
          obtain ⟨screen, rfl, rfl, -, hreview⟩ := userAct_undecided hscreen hdecides hnext
          simp [decides, hdecides, answers, Device.owed, hreview]
      | some decision =>
          obtain ⟨-, hclosed, hone⟩ := userAct_decided hdecides hnext
          have hopen := review_of_decides hscreen hdecides
          simp [decides, hdecides, Device.owed, hclosed, hopen, hone]

/-- A command that finds no review on screen replies, or leaves one there. -/
theorem replies_of_command (hclosed : e.before.owed = 0)
    (hstep : (app ui sdk calls).Step e.before e.event e.after e.output)
    (hcommand : isCommand e = true) : (answers e.output).length + e.after.owed = 1 := by
  obtain ⟨before, event, after, output⟩ := e
  obtain ⟨cx, -, hnext⟩ := hstep
  cases event with
  | user action => cases hcommand
  | apdu parsed =>
      dsimp only at hclosed hnext ⊢
      cases happens_dispatched (next_happens hnext) with
      | replied hscreen =>
          simp only [Device.owed, hscreen] at hclosed ⊢
          simp [answers, hclosed]
      | reviewing d₀ request => simp [answers, Device.owed, (onScreen_showing d₀ request).2]

end Step

/-! ### Runs -/

section Runs

variable {ui : Ui} {sdk : Sdk} {calls : Cx → Prop} {trace : List Entry} {d : Device}

/-- Commands, replies and what is owed balance, and the host can tell when nothing is owed. -/
theorem balance (run : Run (app ui sdk calls) trace d)
    (hsync : Always (fun older e => Synchronous older e.event) trace) :
    replyCount trace + d.owed = commandCount trace ∧ (answered trace = true ↔ d.owed = 0) := by
  induction run with
  | initial => exact ⟨rfl, by simp [answered, app, Device.boot, Device.owed, Screen.review]⟩
  | @step trace e run hstep ih =>
      obtain ⟨hcount, hanswered⟩ := ih hsync.2
      cases hcommand : isCommand e with
      | true =>
          have hclosed := hanswered.mp (answered_of_synchronous hsync.1 hcommand)
          have hreplies := replies_of_command hclosed hstep hcommand
          have hmore : commandCount (e :: trace) = commandCount trace + 1 :=
            List.countP_cons_of_pos hcommand
          constructor
          · rw [hmore, replyCount, List.map_cons, List.sum_cons, ← replyCount]
            omega
          · simp only [answered, hcommand, Bool.not_true, Bool.false_and, Bool.or_false,
              decide_eq_true_eq]
            omega
      | false =>
          obtain ⟨-, hreplies, -⟩ := replies_of_user (onScreen_of_run run) hstep hcommand
          have hsame : commandCount (e :: trace) = commandCount trace :=
            List.countP_cons_of_neg (by simp [hcommand])
          constructor
          · rw [hsame, replyCount, List.map_cons, List.sum_cons, ← replyCount]
            omega
          · have hle : e.before.owed ≤ 1 := by
              rw [Device.owed]
              split <;> omega
            simp only [answered, hcommand, Bool.not_false, Bool.true_and, Bool.or_eq_true,
              decide_eq_true_eq, hanswered]
            omega

theorem commandCount_own {own : List Entry} (hown : ∀ x ∈ own, isCommand x = false) {e : Entry}
    (hcommand : isCommand e = true) (older : List Entry) :
    commandCount (own ++ e :: older) = commandCount older + 1 := by
  have hnone : own.countP isCommand = 0 :=
    List.countP_eq_zero.mpr fun x hx => by simp [hown x hx]
  rw [commandCount, List.countP_append, hnone, List.countP_cons_of_pos hcommand, Nat.zero_add,
    commandCount]

theorem replyCount_append (newer older : List Entry) :
    replyCount (newer ++ older) = replyCount newer + replyCount older := by
  rw [replyCount, List.map_append, List.sum_append, ← replyCount, ← replyCount]

theorem replies_of_newest {own older : List Entry} {e : Entry}
    (run : Run (app ui sdk calls) (own ++ e :: older) d)
    (hsync : Always (fun older e => Synchronous older e.event) (own ++ e :: older))
    (hcommand : isCommand e = true) (hown : ∀ x ∈ own, isCommand x = false) :
    replyCount (own ++ [e]) + d.owed = 1 := by
  have hsuffix : e :: older <:+ own ++ e :: older := List.suffix_append _ _
  obtain ⟨_, rune⟩ := run.earlier hsuffix
  have hsynce := hsync.suffix hsuffix
  obtain ⟨hcount, -⟩ := balance run hsync
  obtain ⟨hcountOlder, hanswered⟩ := balance rune.last.1 hsynce.2
  have hclosed := hanswered.mp (answered_of_synchronous hsynce.1 hcommand)
  have hsplit : own ++ e :: older = (own ++ [e]) ++ older := by simp
  rw [commandCount_own hown hcommand, hsplit, replyCount_append] at hcount
  omega

/-- Where every event has a result, a host that waits for its replies gets one for each command. -/
theorem answeredOnce_of_run (run : Run (app ui sdk calls) trace d)
    (hsync : Always (fun older e => Synchronous older e.event) trace) :
    AnsweredOnce ui trace d := by
  constructor
  · rintro later own e older rfl hcommand hown hlater
    rcases List.eq_nil_or_concat later with rfl | ⟨later, c, hconcat⟩
    · have hreplies := replies_of_newest run hsync hcommand hown
      rw [Device.owed] at hreplies
      refine ⟨fun hclosed => ?_, fun _ hopen => ?_⟩
      · rwa [if_pos (hclosed.resolve_left (not_not.mpr rfl))] at hreplies
      · rw [if_neg hopen] at hreplies
        omega
    · rw [List.concat_eq_append] at hconcat
      subst hconcat
      -- the next command was sent after a reply
      have hsuffix : c :: (own ++ e :: older) <:+ (later ++ [c]) ++ (own ++ e :: older) := by
        rw [List.append_assoc]
        exact List.suffix_append _ _
      have hnext : isCommand c = true := hlater c (by simp)
      obtain ⟨_, runc⟩ := run.earlier hsuffix
      have hsyncc := hsync.suffix hsuffix
      have hreplies := replies_of_newest runc.last.1 hsyncc.2 hcommand hown
      have hclosed := (balance runc.last.1 hsyncc.2).2.mp (answered_of_synchronous hsyncc.1 hnext)
      refine ⟨fun _ => ?_, fun hnil => ?_⟩
      · omega
      · simp at hnil
  · intro x hx huser
    obtain ⟨newer, older, rfl⟩ := List.append_of_mem hx
    obtain ⟨_, runx⟩ := run.earlier (List.suffix_append newer (x :: older))
    obtain ⟨hone, -, hcloses⟩ :=
      replies_of_user (onScreen_of_run runx.last.1) (run.step_of_mem hx) huser
    exact ⟨hone, hcloses⟩

end Runs

/-! ### Every event has a result -/

section Results

variable {ui : Ui} {sdk : Sdk} {cx : Cx} {d : Device} {action : UserAction} {event : Event}

theorem deserialized_ne_none (hread : sdk.ReadLaws)
    (hlen : d.gContext.txInfo.rawTxLen ≤ maxTransactionLen)
    (hno : ¬Overruns sdk.sizeBits d.gContext.txInfo.received) : d.deserialized sdk ≠ none := by
  have hreceived : d.gContext.txInfo.received.length = d.gContext.txInfo.rawTxLen :=
    List.length_take_of_le (by rwa [d.gContext.txInfo.rawTx.toList_length])
  have hresult := deserialize_ne_none hread d.gContext.txInfo.received
    (d.gContext.txInfo.rawTx.toList.drop d.gContext.txInfo.rawTxLen) hno
    d.gContext.txInfo.transaction
  rwa [hreceived, TransactionCtx.received, List.take_append_drop] at hresult

theorem uiDisplayTransaction_ne_none : uiDisplayTransaction ui sdk d ≠ none := by
  obtain ⟨start, hformat⟩ := uiDisplayTransaction_formats ui sdk
  rw [hformat, formatTransaction]
  dsimp only [ioSendSw]
  split
  · exact Option.some_ne_none _
  · split <;> exact Option.some_ne_none _

theorem reviewRawTx_ne_none (h : d.deserialized sdk ≠ none) : reviewRawTx ui sdk cx d ≠ none := by
  rw [reviewRawTx]
  split
  · next hnone => exact absurd hnone h
  · dsimp only [ioSendSw]
    split
    · exact Option.some_ne_none _
    · split
      · exact Option.some_ne_none _
      · split
        · exact Option.some_ne_none _
        · exact uiDisplayTransaction_ne_none

/-- A chunk always has a result, unless it is the last one of a message that overruns. -/
theorem next_continues_eq_none (hread : sdk.ReadLaws) (hmove : sdk.MoveLaws) {cmd : Command}
    {data : List UInt8} (hcmd : cmd.continuesSession) (hdata : cmd.data = some data)
    (h : Device.next ui sdk cx d (.apdu (some cmd)) = none) :
    cmd.p2 = p2Last ∧ d.gContext.reqType = .confirmTransaction
      ∧ Overruns sdk.sizeBits (d.gContext.txInfo.received ++ data) := by
  have hlc := cmd.length_data data hdata
  have hp1 := hcmd.p1_ne_zero
  by_cases hreq : d.gContext.reqType = .confirmTransaction
  swap
  · rw [next_signTx (Or.inr hcmd) hdata, handlerSignTx, if_neg hp1] at h
    simp [hreq, ioSendSw] at h
  by_cases hfits : d.gContext.txInfo.rawTxLen + cmd.lc.toNat ≤ maxTransactionLen
  swap
  · rw [next_signTx (Or.inr hcmd) hdata, handlerSignTx, if_neg hp1] at h
    simp [hreq, Nat.not_le.mp hfits, ioSendSw] at h
  obtain ⟨d₁, hstores⟩ := exists_stores hmove hcmd hdata hreq (by rwa [hlc])
  rw [hstores.next_eq] at h
  split at h
  · cases h
  · next hmore =>
      refine ⟨hcmd.2.2.1.resolve_right hmore, hreq, ?_⟩
      by_contra hno
      rw [← (hstores.received hmove).2] at hno
      exact reviewRawTx_ne_none (deserialized_ne_none hread hstores.rawTxLen_le hno) h

theorem validateTransaction_ne_none (hcx : cx.SignaturesFit) (d : Device) (choice : Bool) :
    validateTransaction cx d choice ≠ none := by
  cases choice with
  | false => nofun
  | true =>
      have hmax : maxDerSigLen = 72 := rfl
      have hfits := hcx d.gContext.bip32Path d.gContext.bip32PathLen d.gContext.txInfo.mHash
      have hlen : (cx.bip32DeriveEcdsaSignHash256 d.gContext.bip32Path d.gContext.bip32PathLen
          d.gContext.txInfo.mHash).sigLen % 256 ≤ maxDerSigLen := by
        omega
      simp only [validateTransaction, cryptoSignMessage, if_true]
      split <;> simp [ioSendSw, helperSendResponseSig, ioSendResponsePointer, hlen]

theorem userAct_ne_none (hcx : cx.SignaturesFit) (hscreen : OnScreen ui d) (action : UserAction) :
    userAct ui cx d action ≠ none := by
  have hmap : ∀ {outcome : Outcome}, outcome ≠ none →
      ∀ f : Device × List Effect → Device × List Effect, outcome.map f ≠ none :=
    fun hne f h => hne (Option.map_eq_none_iff.mp h)
  have hpubkey : ∀ choice, validatePubkey d choice ≠ none := by
    intro choice
    cases choice <;> nofun
  have htransaction := validateTransaction_ne_none hcx d
  obtain ⟨ctx, callback, amount, address, addressPubkey, screen⟩ := d
  cases ui with
  | bagl =>
      cases screen with
      | pubkeyFlow =>
          obtain rfl : callback = _ := hscreen.2
          cases action <;> first | exact hmap (hpubkey _) _ | nofun
      | transactionFlow =>
          obtain rfl : callback = _ := hscreen.2
          cases action <;> first | exact hmap (htransaction _) _ | nofun
      | _ => nofun
  | nbgl =>
      cases screen <;> cases action <;>
        first
        | exact hmap (hpubkey _) _
        | exact hmap (htransaction _) _
        | nofun

/-- **The only event without a result** is the end of a message that makes the parser read past its
input. -/
theorem next_eq_none (hread : sdk.ReadLaws) (hmove : sdk.MoveLaws) (hcx : cx.SignaturesFit)
    (hscreen : OnScreen ui d) (h : Device.next ui sdk cx d event = none) :
    ∃ cmd data, event = .apdu (some cmd) ∧ cmd.data = some data ∧ cmd.continuesSession
      ∧ cmd.p2 = p2Last ∧ d.gContext.reqType = .confirmTransaction
      ∧ Overruns sdk.sizeBits (d.gContext.txInfo.received ++ data) := by
  cases event with
  | user action => exact absurd h (userAct_ne_none hcx hscreen action)
  | apdu parsed =>
      cases parsed with
      | none => cases h
      | some cmd =>
          have hroute := next_route ui sdk cx d cmd
          rw [h] at hroute
          generalize houtcome : (none : Outcome) = outcome at hroute
          cases hroute with
          | outside => cases houtcome
          | getPublicKey =>
              obtain ⟨d', effects, hrequests⟩ := exists_requests ui sdk cx d _ _
              exact absurd (houtcome.trans hrequests.run) nofun
          | signTx hcmd hdata =>
              rcases hcmd with hopens | hcontinues
              · have hp1 : cmd.p1 = 0 := hopens.2.1
                rw [handlerSignTx, if_pos hp1] at houtcome
                dsimp only [ioSendSw] at houtcome
                split at houtcome <;> cases houtcome
              · obtain ⟨hlast, hreq, hover⟩ :=
                  next_continues_eq_none hread hmove hcontinues hdata h
                exact ⟨cmd, _, rfl, hdata, hcontinues, hlast, hreq, hover⟩

end Results

theorem Reference.signaturesFit : Reference.calls.SignaturesFit := fun _ _ _ => by
  change 70 ≤ maxDerSigLen
  decide

end BoilerplateApp
