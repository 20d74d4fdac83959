import BoilerplateApp.Proof.Session
import BoilerplateApp.Reference

/-!
# How a message is cut does not matter

The host may send a message in chunks of any lengths, and other calls of the SDK may succeed or fail
in between. The chunks are copied one behind the other, so only the last command sees the message,
and it sees all of it.
-/

namespace BoilerplateApp

open Transition

/-- The device with `data` behind the bytes received so far, or `none` when they do not fit. -/
def Device.storing (d : Device) (data : List UInt8) : Option Device :=
  (Region.write d.gContext.txInfo.rawTx d.gContext.txInfo.rawTxLen data).map fun rawTx => { d with
    gContext.txInfo.rawTx := rawTx
    gContext.txInfo.rawTxLen := d.gContext.txInfo.rawTxLen + data.length }

/-- The chunks, each with the system calls that are there when it comes, and the last one carry the
message between them. Each passes the dispatcher's checks with P1 in 1..3. -/
structure Cuts (message : List UInt8) (chunks : List (Cx × Command)) (last : Command) : Prop where
  more : ∀ chunk ∈ chunks, chunk.2.continuesSession ∧ chunk.2.p2 = p2More
  final : last.continuesSession ∧ last.p2 = p2Last
  message_eq : (chunks.flatMap fun chunk => chunk.2.data.getD []) ++ last.data.getD [] = message

/-- What the device is left in, and what the last chunk made it do. -/
def deliver (ui : Ui) (sdk : Sdk) (cx : Cx) (d : Device) (chunks : List (Cx × Command))
    (last : Command) : Option (Device × Option (List Effect)) :=
  (respond (Device.answer ui sdk) d
      ((chunks.map fun chunk => (chunk.1, .apdu (some chunk.2))) ++ [(cx, .apdu (some last))])).map
    fun result => (result.1, result.2.getLast?)

section Storing

variable {sdk : Sdk} {d d₁ : Device} {cmd : Command} {data : List UInt8}

theorem storing_nil (hlen : d.gContext.txInfo.rawTxLen ≤ maxTransactionLen) :
    d.storing [] = some d := by
  rw [Device.storing, Region.write_nil hlen]
  rfl

theorem storing_append (d : Device) (data data' : List UInt8) :
    d.storing (data ++ data') = (d.storing data).bind (·.storing data') := by
  rw [Device.storing, Region.write_append, Device.storing, Option.map_bind, Option.bind_map,
    List.length_append]
  congr 1
  funext rawTx
  simp only [Function.comp_apply, Device.storing, Nat.add_assoc]

theorem Stores.storing_eq (hmove : sdk.MoveLaws) (h : Stores sdk d cmd data d₁) :
    d.storing data = some d₁ := by
  obtain ⟨rawTx, hwrite, rfl⟩ := h.written
  rw [(hmove.moves h.data_eq).2] at hwrite
  rw [Device.storing, hwrite, Option.map_some, cmd.length_data data h.data_eq]

theorem getD_data (hcmd : cmd.continuesSession) : cmd.data = some (cmd.data.getD []) := by
  obtain ⟨data, hdata⟩ := Option.ne_none_iff_exists'.mp hcmd.2.2.2
  rw [hdata, Option.getD_some]

end Storing

section Deliver

variable {ui : Ui} {sdk : Sdk} {cx : Cx} {d : Device} {message : List UInt8}
  {chunks chunks' : List (Cx × Command)} {last last' : Command}

/-- The chunks before the last one are copied one behind the other. -/
theorem respond_chunks (ui : Ui) (hmove : sdk.MoveLaws)
    (hreq : d.gContext.reqType = .confirmTransaction)
    (hmore : ∀ chunk ∈ chunks, chunk.2.continuesSession ∧ chunk.2.p2 = p2More)
    (hfits : d.gContext.txInfo.rawTxLen
      + (chunks.flatMap fun chunk => chunk.2.data.getD []).length ≤ maxTransactionLen) :
    ∃ d₁ outputs, respond (Device.answer ui sdk) d
        (chunks.map fun chunk => (chunk.1, .apdu (some chunk.2))) = some (d₁, outputs)
      ∧ d.storing (chunks.flatMap fun chunk => chunk.2.data.getD []) = some d₁
      ∧ d₁.gContext.reqType = .confirmTransaction
      ∧ d₁.gContext.txInfo.rawTxLen = d.gContext.txInfo.rawTxLen
        + (chunks.flatMap fun chunk => chunk.2.data.getD []).length := by
  induction chunks generalizing d with
  | nil => exact ⟨d, [], rfl, storing_nil (by simpa using hfits), hreq, rfl⟩
  | cons chunk chunks ih =>
      obtain ⟨⟨hcmd, hp2⟩, hrest⟩ := List.forall_mem_cons.mp hmore
      rw [List.flatMap_cons, List.length_append] at hfits
      obtain ⟨d₁, hstores⟩ := exists_stores hmove hcmd (getD_data hcmd) hreq (by omega)
      obtain ⟨hlen, -⟩ := hstores.received hmove
      obtain ⟨d₂, outputs, hrespond, hstoring, hreq₂, hlen₂⟩ :=
        ih hstores.reqType_eq hrest (by omega)
      have hnext : Device.answer ui sdk d (chunk.1, .apdu (some chunk.2))
          = some (d₁, [.send swOk []]) := by
        rw [Device.answer, hstores.next_eq, if_pos hp2]
      refine ⟨d₂, _, respond_cons hnext hrespond, ?_, hreq₂, ?_⟩
      · rw [List.flatMap_cons, storing_append, hstores.storing_eq hmove, Option.bind_some, hstoring]
      · rw [hlen₂, hlen, List.flatMap_cons, List.length_append, Nat.add_assoc]

/-- Inside a session the outcome is that of the whole message. -/
theorem deliver_eq (hmove : sdk.MoveLaws) (hreq : d.gContext.reqType = .confirmTransaction)
    (hcuts : Cuts message chunks last)
    (hfits : d.gContext.txInfo.rawTxLen + message.length ≤ maxTransactionLen) :
    deliver ui sdk cx d chunks last = (d.storing message).bind fun d₁ =>
      (reviewRawTx ui sdk cx d₁).map fun result => (result.1, some result.2) := by
  rw [← hcuts.message_eq] at hfits ⊢
  rw [List.length_append] at hfits
  obtain ⟨d₁, outputs, hrespond, hstoring, hreq₁, hlen⟩ :=
    respond_chunks ui hmove hreq hcuts.more (by omega)
  obtain ⟨hcmd, hp2⟩ := hcuts.final
  obtain ⟨d₂, hstores⟩ := exists_stores hmove hcmd (getD_data hcmd) hreq₁ (by omega)
  rw [storing_append, hstoring, Option.bind_some, hstores.storing_eq hmove, Option.bind_some]
  rw [deliver, respond_append_eq, hrespond, Option.bind_some, respond, Device.answer,
    hstores.next_eq, if_neg (by rw [hp2]; decide)]
  cases reviewRawTx ui sdk cx d₂ with
  | none => rfl
  | some result => simp [respond]

/-- Outside a session every chunk is refused. -/
theorem deliver_refused (hreq : d.gContext.reqType ≠ .confirmTransaction)
    (hcuts : Cuts message chunks last) :
    deliver ui sdk cx d chunks last = some (d, some [.send swBadState []]) := by
  have hnext : ∀ cx cmd, cmd.continuesSession →
      Device.next ui sdk cx d (.apdu (some cmd)) = some (d, [.send swBadState []]) := by
    intro cx cmd hcmd
    rw [next_signTx (Or.inr hcmd) (getD_data hcmd), handlerSignTx, if_neg hcmd.p1_ne_zero]
    exact if_pos hreq
  have hsilent : ∀ e ∈ chunks.map fun chunk => (chunk.1, Event.apdu (some chunk.2)),
      ∃ output, Device.answer ui sdk d e = some (d, output) ∧ output = [.send swBadState []] := by
    intro e he
    obtain ⟨chunk, hchunk, rfl⟩ := List.mem_map.mp he
    exact ⟨_, hnext _ _ (hcuts.more chunk hchunk).1, rfl⟩
  obtain ⟨outputs, hrespond, -, -⟩ := respond_silent hsilent
  rw [deliver, respond_append_eq, hrespond, Option.bind_some, respond, Device.answer,
    hnext _ _ hcuts.final.1]
  simp [respond]

/-- **How a message is cut does not matter.** In every state of the device, two sequences of chunks
that carry the same bytes leave it in the same state, and their last commands are answered alike, or
both start the review: no matter how many chunks there are, how long each is, which values of P1 they
have and what the system calls did before the last one. The message must fit the buffer, since a
chunk that does not fit is refused alone. -/
theorem cut_irrelevant (hmove : sdk.MoveLaws) (hcuts : Cuts message chunks last)
    (hcuts' : Cuts message chunks' last')
    (hfits : d.gContext.txInfo.rawTxLen + message.length ≤ maxTransactionLen) :
    deliver ui sdk cx d chunks last = deliver ui sdk cx d chunks' last' := by
  by_cases hreq : d.gContext.reqType = .confirmTransaction
  · rw [deliver_eq hmove hreq hcuts hfits, deliver_eq hmove hreq hcuts' hfits]
  · rw [deliver_refused hreq hcuts, deliver_refused hreq hcuts']

end Deliver

open Reference in
/-- A transaction in one chunk, and in two. -/
theorem cut_irrelevant_two :
    ∃ (trace : List Entry) (d : Device) (whole head tail : Command),
      Run (app .bagl (sdk 64) (Cx.Hashes keccak256)) trace d
      ∧ d.gContext.reqType = .confirmTransaction
      ∧ .apdu (some whole) = txEvent ∧ head.data = some (tx.take 10) ∧ .apdu (some tail) = tailEvent
      ∧ deliver .bagl (sdk 64) calls d [] whole
        = deliver .bagl (sdk 64) calls d [(calls, head)] tail := by
  obtain ⟨trace, d, run, hd⟩ := exists_run .bagl [openEvent]
    (fun _ d => decide (d.gContext.reqType = .confirmTransaction ∧ d.gContext.txInfo.rawTxLen = 0))
    (by decide +kernel)
  obtain ⟨hreq, hlen⟩ := of_decide_eq_true hd
  refine ⟨trace, d, _, .ofApdu cla insSignTx 1 p2More (tx.take 10) (by decide), _, run, hreq, rfl,
    rfl, rfl, cut_irrelevant (moveLaws 64) (?_ : Cuts tx _ _) ?_ ?_⟩
  · exact ⟨nofun, ⟨by decide, rfl⟩, by decide⟩
  · exact ⟨by decide, ⟨by decide, rfl⟩, by decide⟩
  · rw [hlen]
    decide

end BoilerplateApp
