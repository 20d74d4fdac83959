import BoilerplateApp.Proof.Effects
import BoilerplateApp.Reference

/-!
# Refused and read-only commands

Every refusal of the dispatcher, and the two of `handler_sign_tx` that come before a chunk is
stored, stand in front of the first write to the context. Such a command is answered and leaves the
device as it is, so it can be inserted into a run without any other answer changing.
-/

namespace BoilerplateApp

open Transition

/-- A command that only reports, or that the dispatcher refuses. -/
inductive Command.Harmless (cmd : Command) : Prop
  | getVersion (hins : cmd.ins = insGetVersion)
  | getAppName (hins : cmd.ins = insGetAppName)
  | wrongCla (hcla : cmd.cla ≠ BoilerplateApp.cla)
  | unknownIns (hins : cmd.ins ∉ [insGetVersion, insGetAppName, insGetPublicKey, insSignTx])
  | keyParameters (hins : cmd.ins = insGetPublicKey) (hp : cmd.p1 > 1 ∨ cmd.p2 > 0)
  | signParameters (hins : cmd.ins = insSignTx)
      (hp : (cmd.p1 = p1Start ∧ cmd.p2 ≠ p2More) ∨ cmd.p1 > p1Max
        ∨ (cmd.p2 ≠ p2Last ∧ cmd.p2 ≠ p2More))
  | noData (hdata : cmd.data = none)

/-- What can be inserted when the device is in the state `d`. -/
inductive Harmless (ui : Ui) (sdk : Sdk) (cx : Cx) (d : Device) : Event → Prop
  | unparsed : Harmless ui sdk cx d (.apdu none)
  | command {cmd : Command} (hcmd : cmd.Harmless) : Harmless ui sdk cx d (.apdu (some cmd))
  /-- A chunk that is answered with one of the two words. -/
  | refusedChunk {cmd : Command} (hsign : cmd.isSignTx) (hp1 : 1 ≤ cmd.p1) {d' : Device}
      {effects : List Effect}
      (hnext : Device.next ui sdk cx d (.apdu (some cmd)) = some (d', effects))
      (hanswer : swBadState ∈ answers effects ∨ swWrongTxLength ∈ answers effects) :
      Harmless ui sdk cx d (.apdu (some cmd))

/-- Whether `next` answers `event` in the state `d` and leaves the state as it is. -/
def AnswersOnly (ui : Ui) (sdk : Sdk) (cx : Cx) (d : Device) (event : Event) : Prop :=
  ∃ effects, Device.next ui sdk cx d event = some (d, effects)
    ∧ ∃ sw data, effects = [.send sw data]

section Commands

variable {cmd : Command}

theorem Command.Harmless.not_signTx (h : cmd.Harmless) :
    ¬(cmd.opensSession ∨ cmd.continuesSession) := by
  intro hcmd
  have hsign : cmd.isSignTx := hcmd.elim (·.1) (·.1)
  cases h with
  | getVersion hins | getAppName hins => exact absurd (hins.symm.trans hsign.2) (by decide)
  | wrongCla hcla => exact hcla hsign.1
  | unknownIns hins =>
      rw [hsign.2] at hins
      exact hins (by decide)
  | keyParameters hins => exact absurd (hins.symm.trans hsign.2) (by decide)
  | noData hdata => exact hcmd.elim (fun ho => ho.2.2.2 hdata) (fun hc => hc.2.2.2 hdata)
  | signParameters _ hp => exact not_signTx_of_parameters hp hcmd

theorem Command.Harmless.not_requestsKey (h : cmd.Harmless) : ¬cmd.requestsKey := by
  intro hcmd
  have hkey : cmd.ins = insGetPublicKey := hcmd.2.1
  cases h with
  | getVersion hins | getAppName hins | signParameters hins =>
      exact absurd (hins.symm.trans hkey) (by decide)
  | wrongCla hcla => exact hcla hcmd.1
  | unknownIns hins =>
      rw [hkey] at hins
      exact hins (by decide)
  | keyParameters _ hp => exact not_requestsKey_of_parameters hp hcmd
  | noData hdata => exact hcmd.2.2.2.2 hdata

end Commands

section Interference

variable {ui : Ui} {sdk : Sdk} {cx : Cx} {d : Device} {event : Event}

theorem Command.Harmless.answersOnly {cmd : Command} (h : cmd.Harmless) :
    AnswersOnly ui sdk cx d (.apdu (some cmd)) := by
  have hroute := next_route ui sdk cx d cmd
  rw [AnswersOnly]
  generalize Device.next ui sdk cx d (.apdu (some cmd)) = outcome at hroute ⊢
  cases hroute with
  | outside _ _ _ sw data => exact ⟨_, rfl, sw, data, rfl⟩
  | getPublicKey hcmd => exact absurd hcmd h.not_requestsKey
  | signTx hcmd => exact absurd hcmd h.not_signTx

/-- The two words are answered before anything is stored. -/
theorem refusedChunk_answersOnly {cmd : Command} (hsign : cmd.isSignTx) (hp1 : 1 ≤ cmd.p1)
    {d' : Device} {effects : List Effect}
    (hnext : Device.next ui sdk cx d (.apdu (some cmd)) = some (d', effects))
    (hanswer : swBadState ∈ answers effects ∨ swWrongTxLength ∈ answers effects) :
    AnswersOnly ui sdk cx d (.apdu (some cmd)) := by
  cases next_happens hnext with
  | outside | badState | wrongTxLength | unmoved => exact ⟨_, hnext, _, _, rfl⟩
  | opened hcmd =>
      rw [hcmd.2.1] at hp1
      exact absurd hp1 (by decide)
  | requested hcmd => exact absurd (hsign.2.symm.trans hcmd.2.1) (by decide)
  | stored | parsingFail | hashFail | amountFail | reviewed =>
      simp [answers, swBadState, swWrongTxLength, swOk, swTxParsingFail, swTxHashFail,
        swDisplayAmountFail] at hanswer

theorem Harmless.answersOnly (h : Harmless ui sdk cx d event) :
    AnswersOnly ui sdk cx d event := by
  cases h with
  | unparsed => exact ⟨_, rfl, _, _, rfl⟩
  | command hcmd => exact hcmd.answersOnly
  | refusedChunk hsign hp1 hnext hanswer => exact refusedChunk_answersOnly hsign hp1 hnext hanswer

/-- **Refused and read-only commands do not interfere.** Inserted at any point of a run, they are
answered one by one and leave the device as it is, and whatever comes after them has the effects and
ends in the state that it has without them. -/
theorem harmless_inserted {before inserted : List Event} {first : List (List Effect)}
    (hbefore : respond (Device.next ui sdk cx) Device.boot before = some (d, first))
    (hinserted : ∀ event ∈ inserted, Harmless ui sdk cx d event) :
    ∃ replies, respond (Device.next ui sdk cx) d inserted = some (d, replies)
      ∧ replies.length = inserted.length ∧ (∀ reply ∈ replies, ∃ sw data, reply = [.send sw data])
      ∧ ∀ after,
        respond (Device.next ui sdk cx) Device.boot (before ++ after)
          = (respond (Device.next ui sdk cx) d after).map
            (fun rest => (rest.1, first ++ rest.2))
        ∧ respond (Device.next ui sdk cx) Device.boot (before ++ (inserted ++ after))
          = (respond (Device.next ui sdk cx) d after).map
            (fun rest => (rest.1, first ++ (replies ++ rest.2))) := by
  obtain ⟨replies, hreplies, hlength, hsends⟩ :=
    respond_silent fun event hevent => (hinserted event hevent).answersOnly
  refine ⟨replies, hreplies, hlength, hsends, ?_⟩
  intro after
  constructor
  · rw [respond_append_eq, hbefore, Option.bind_some]
  · exact respond_insert hbefore hreplies

end Interference

open Reference in
/-- Bytes that are no APDU and a command with an unknown instruction, between the start of a session
and its transaction. -/
theorem harmless_inserted_tx :
    ∃ d first replies, respond (Device.next .bagl (sdk 64) calls) Device.boot [openEvent]
        = some (d, first)
      ∧ respond (Device.next .bagl (sdk 64) calls) Device.boot
          ([openEvent] ++ ([.apdu none, command 0x07 1 0 tx (by decide)] ++ [txEvent]))
        = (respond (Device.next .bagl (sdk 64) calls) d [txEvent]).map
          (fun rest => (rest.1, first ++ (replies ++ rest.2))) := by
  have hsome : (respond (Device.next .bagl (sdk 64) calls) Device.boot [openEvent]).isSome = true :=
    by decide +kernel
  obtain ⟨⟨d, first⟩, hbefore⟩ := Option.isSome_iff_exists.mp hsome
  have hunknown : (Command.ofApdu cla 0x07 1 0 tx (by decide)).Harmless := .unknownIns (by decide)
  have hinserted : ∀ event ∈ [.apdu none, command 0x07 1 0 tx (by decide)],
      Harmless .bagl (sdk 64) calls d event :=
    List.forall_mem_cons.mpr ⟨.unparsed, List.forall_mem_singleton.mpr (.command hunknown)⟩
  obtain ⟨replies, -, -, -, hafter⟩ := harmless_inserted hbefore hinserted
  exact ⟨d, first, replies, hbefore, (hafter [txEvent]).2⟩

end BoilerplateApp
