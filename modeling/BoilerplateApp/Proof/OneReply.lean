import BoilerplateApp.Proof.MemorySafety
import BoilerplateApp.Proof.Recorded

/-!
# Every command is answered

A host that waits for each reply gets one for each command that has a result. What remains are the
commands that have none. So here the device is given the events it receives, each with the results
of its system calls, and takes them for as long as they have results: the last one may be the end of
a message that overruns, and that command is never answered.
-/

namespace BoilerplateApp

open Transition Trace

section Received

variable (ui : Ui) (sdk : Sdk)

/-- Every event that a device takes since it booted satisfies `P`, together with the run before it. -/
def EachReceived (P : List Entry → Event → Prop) (calls : List (Cx × Event)) : Prop :=
  EachTaken (Device.answer ui sdk) (fun trace call => P (trace.map Call.entry) call.2) []
    Device.boot calls

instance {P : List Entry → Event → Prop} [∀ trace event, Decidable (P trace event)]
    (calls : List (Cx × Event)) : Decidable (EachReceived ui sdk P calls) :=
  inferInstanceAs (Decidable (EachTaken _ _ _ _ _))

/-- Every event has a result, without which a command is never answered, and every command one
reply, which is still to come while its review is on screen. -/
def OneReply (calls : List (Cx × Event)) : Prop :=
  ∃ trace d, execute (Device.answer ui sdk) [] Device.boot calls = some (trace, d)
    ∧ AnsweredOnce ui (trace.map Call.entry) d

end Received

section Runs

variable {ui : Ui} {sdk : Sdk} {calls : List (Cx × Event)}

/-- When signatures fit, events have results to the end unless one ends a message that overruns. -/
theorem execute_ne_none_iff (hread : sdk.ReadLaws) (hmove : sdk.MoveLaws)
    (hfit : ∀ call ∈ calls, call.1.SignaturesFit) :
    execute (Device.answer ui sdk) [] Device.boot calls ≠ none
      ↔ EachReceived ui sdk (fun trace event => ¬EndsOverrun sdk.sizeBits trace event) calls := by
  have hboot : Run (recorded ui sdk) [] Device.boot := .initial
  apply hboot.execute_ne_none_iff fun _ _ _ _ hnext => hnext
  intro call hcall trace d run
  have hsigns := not_approvesTooLong (hfit call hcall) ui d call.2
  exact not_congr ((next_eq_none_iff hread hmove (app_of_recorded run) call.2).trans
    (or_iff_left hsigns))

/-- What the device could take to the end was answered. -/
theorem oneReply_of_execute (hsync : EachReceived ui sdk Synchronous calls)
    (h : execute (Device.answer ui sdk) [] Device.boot calls ≠ none) : OneReply ui sdk calls := by
  obtain ⟨⟨trace, d⟩, hexecute⟩ := Option.ne_none_iff_exists'.mp h
  have run : Run (recorded ui sdk) trace d :=
    Run.execute (fun _ _ _ _ hnext => hnext) .initial hexecute
  have hwaits : Always (fun older e => Synchronous older e.event) (trace.map Call.entry) :=
    always_mapEvent.mpr (hsync.always hexecute trivial)
  exact ⟨trace, d, hexecute, answeredOnce_of_run (app_of_recorded run) hwaits⟩

end Runs

section Examples

open Reference

/-- A session, and as its message a header and a memo length of `2 ^ 32`. -/
def longMemoCalls : List (Cx × Event) :=
  [(Reference.calls, openEvent),
    (Reference.calls, command insSignTx 1 p2Last longMemo (by decide))]

/-- A rejection that is called off, and then an approval. -/
def calledOff : List (Cx × Event) :=
  [openEvent, txEvent, .user .advance, .user .reject, .user .cancelRejection,
    .user .approve].map fun event => (Reference.calls, event)

end Examples

end BoilerplateApp
