import BoilerplateApp.Proof.Format
import BoilerplateApp.Proof.Session

/-!
# How a message is assembled

The bytes received are the message of the session, whatever came in between, and a review shows and
hashes that message and nothing else. Chunks that are refused can be left out of a run without any
effect on it; chunks that fail later than that are part of the message.
-/

namespace BoilerplateApp

open Transition Trace

/-! ### Reviews -/

/-- What is on screen are the amount and the address of `message`. -/
def Shows (sdk : Sdk) (message : List UInt8) (d : Device) : Prop :=
  ∃ tx, DeserializesTo sdk message .zero tx
    ∧ d.gAmount = amountText (sdk.formatFpu64 30 tx.value exponentSmallestUnit).2
    ∧ d.gAddress = addressText sdk ((message.drop tx.toAddr).take addressLen)

section Reviews

variable {sdk : Sdk} {d : Device}

theorem deserialized_iff (hread : sdk.ReadLaws)
    (hlen : d.gContext.txInfo.rawTxLen ≤ maxTransactionLen) (tx : Transaction) :
    (∃ buf, d.deserialized sdk = some (.parsingOk, buf, tx))
      ↔ Parses d.gContext.txInfo.received tx := by
  have hraw := d.gContext.txInfo.rawTx.toList_length
  have hvalid : (⟨d.gContext.txInfo.rawTx.toList, d.gContext.txInfo.rawTxLen, 0⟩ : Buffer).Valid :=
    ⟨Nat.zero_le _, le_of_le_of_eq hlen hraw.symm⟩
  have hmem : d.gContext.txInfo.rawTx.toList.length < 2 ^ sdk.sizeBits :=
    hread.fits_size (le_trans (le_of_eq hraw) (by decide))
  simp only [Device.deserialized, deserialize_ok_iff hread hvalid _ rfl hmem, Buffer.unread,
    List.drop_zero, exists_and_left, exists_eq, and_true, TransactionCtx.received]

theorem Parses.take_toAddr {ctx : TransactionCtx} {tx : Transaction} (h : Parses ctx.received tx) :
    (ctx.received.drop tx.toAddr).take addressLen
      = (ctx.rawTx.toList.drop tx.toAddr).take addressLen := by
  have hheader := h.header
  have hlen : headerLen = 36 := rfl
  rw [TransactionCtx.received, List.length_take] at hheader
  rw [h.fields, TransactionCtx.received, List.drop_take, List.take_take, Nat.min_eq_left]
  simp only [fieldsOf, addressLen]
  omega

end Reviews

section Assembly

variable {ui : Ui} {sdk : Sdk} {keccak256 : List UInt8 → Bytes 32} {trace : List Entry} {d : Device}

/-- When a review starts, what is parsed, hashed and shown is the message. -/
theorem review_spec (hread : sdk.ReadLaws) (hmove : sdk.MoveLaws)
    (run : Run (app ui sdk (Cx.Hashes keccak256)) trace d) (hreview : atReview trace) :
    DeserializesTo sdk (message trace) .zero d.gContext.txInfo.transaction
      ∧ d.gContext.txInfo.mHash = keccak256 (message trace) ∧ Shows sdk (message trace) d := by
  cases trace with
  | nil => exact hreview.elim
  | cons e older =>
      obtain ⟨-, step, rfl⟩ := run.last
      obtain ⟨cx, hcx, hhappens⟩ := step_happens step
      obtain ⟨cmd, data, d₁, buf, tx, -, hstores, hparse, -, -, hafter⟩ :=
        happens_reviews hhappens (of_decide_eq_true hreview)
      have hreq : e.after.gContext.reqType = .confirmTransaction := by
        obtain ⟨_, _, rfl⟩ := hstores.frame
        rw [hafter, Device.reviewing_gContext]
        exact hstores.reqType
      obtain ⟨-, hmessage⟩ := rawTx_eq_message hmove run hreq
      have hraw : d₁.gContext.txInfo.received = message (e :: older) := by
        rw [← hmessage, hafter, Device.reviewing_gContext]
        rfl
      have hparses := (deserialized_iff hread hstores.rawTxLen_le tx).mp ⟨buf, hparse⟩
      have hto := hparses.take_toAddr
      rw [hraw] at hparses hto
      have hok := (deserializesTo_iff hread (message (e :: older)) .zero tx).mpr hparses
      have hhash : (d₁.hashed cx).2 = keccak256 (message (e :: older)) := by
        rw [Device.hashed, hraw, hcx.2]
      rw [hafter, Device.reviewing_gContext]
      refine ⟨hok, hhash, tx, hok, Device.reviewing_gAmount .., ?_⟩
      rw [Device.reviewing_gAddress, hto]

/-- **A message is assembled from its chunks.** As long as the request is to confirm a transaction,
the bytes received are the message of the session. A review parses and hashes that message, so that
it does not matter into which chunks the message was cut. -/
theorem message_assembled (hread : sdk.ReadLaws) (hmove : sdk.MoveLaws)
    (run : Run (app ui sdk (Cx.Hashes keccak256)) trace d) :
    (d.gContext.reqType = .confirmTransaction →
      d.gContext.txInfo.rawTxLen ≤ maxTransactionLen
        ∧ d.gContext.txInfo.received = message trace)
    ∧ (atReview trace → d.gContext.txInfo.mHash = keccak256 (message trace)
        ∧ DeserializesTo sdk (message trace) .zero d.gContext.txInfo.transaction)
    ∧ ∀ {ui' : Ui} {trace' : List Entry} {d' : Device},
      Run (app ui' sdk (Cx.Hashes keccak256)) trace' d' → atReview trace → atReview trace' →
      message trace = message trace' →
      d.gContext.txInfo.mHash = d'.gContext.txInfo.mHash
        ∧ d.gContext.txInfo.transaction = d'.gContext.txInfo.transaction
        ∧ d.gAmount = d'.gAmount ∧ d.gAddress = d'.gAddress := by
  refine ⟨rawTx_eq_message hmove run, ?_, ?_⟩
  · intro hreview
    obtain ⟨hok, hhash, -⟩ := review_spec hread hmove run hreview
    exact ⟨hhash, hok⟩
  · intro ui' trace' d' run' hreview hreview' hmessage
    obtain ⟨hok, hhash, tx, htx, hamount, haddress⟩ := review_spec hread hmove run hreview
    obtain ⟨hok', hhash', tx', htx', hamount', haddress'⟩ := review_spec hread hmove run' hreview'
    rw [← hmessage] at hok' hhash' htx' haddress'
    rw [deserializesTo_iff hread] at hok hok' htx htx'
    obtain rfl : tx = tx' := htx.fields.trans htx'.fields.symm
    exact ⟨hhash.trans hhash'.symm, hok.fields.trans hok'.fields.symm,
      hamount.trans hamount'.symm, haddress.trans haddress'.symm⟩

end Assembly

open Reference in
theorem message_assembled_tx :
    ∃ trace d, Run (app .bagl (sdk 64) (Cx.Hashes keccak256)) trace d ∧ message trace = tx
      ∧ d.gContext.txInfo.mHash = keccak256 tx
      ∧ DeserializesTo (sdk 64) tx .zero d.gContext.txInfo.transaction := by
  obtain ⟨trace, d, run, htrace⟩ := exists_run .bagl [openEvent, txEvent]
    (fun trace _ => decide (message trace = tx) && trace.head?.any reviews) (by decide +kernel)
  obtain ⟨hmessage, hhead⟩ := (Bool.and_eq_true _ _).mp htrace
  have hmessage := of_decide_eq_true hmessage
  have hreview : atReview trace := by
    cases trace with
    | nil => cases hhead
    | cons e older => exact hhead
  have hspec := (message_assembled (readLaws (Or.inr rfl)) (moveLaws 64) run).2.1 hreview
  rw [hmessage] at hspec
  exact ⟨trace, d, run, hmessage, hspec⟩

/-! ### Refused and failing chunks -/

section Chunks

variable {ui : Ui} {sdk : Sdk} {cx : Cx} {calls : Cx → Prop} {trace : List Entry} {d d' : Device}
  {effects : List Effect} {event : Event}

theorem happens_refuses (h : Happens ui sdk cx d event d' effects)
    (hrefuses : refuses ⟨d, event, d', effects⟩ = true) : d' = d := by
  obtain ⟨hchunk, hanswer⟩ := (Bool.and_eq_true _ _).mp hrefuses
  cases h with
  | outside | badState | wrongTxLength | unmoved => rfl
  | opened hcmd hdata hpath => exact absurd (of_decide_eq_true hchunk) hcmd.not_isChunk
  | requested hcmd hdata hrun => exact absurd (of_decide_eq_true hchunk) hcmd.not_isChunk
  | stored | parsingFail | hashFail | amountFail =>
      exact absurd hanswer (by rw [refused_send]; decide)
  | reviewed => cases hanswer
  | moved | decidedPubkey | decidedTransaction => cases hchunk

theorem happens_fails (hmove : sdk.MoveLaws) (h : Happens ui sdk cx d event d' effects)
    (hfails : fails ⟨d, event, d', effects⟩ = true) :
    ∃ cmd data d₁, event = .apdu (some cmd) ∧ Stores sdk d cmd data d₁
      ∧ SameSession d₁.gContext d'.gContext := by
  obtain ⟨hchunk, hanswer⟩ := (Bool.and_eq_true _ _).mp hfails
  cases h with
  | @outside parsed sw data hcmd =>
      cases parsed with
      | none => cases hchunk
      | some cmd =>
          rcases (hcmd cmd rfl).2.2.2 (of_decide_eq_true hchunk) with rfl | rfl <;>
            exact absurd hanswer (by simp [answers]; decide)
  | badState | wrongTxLength => exact absurd hanswer (by simp [answers]; decide)
  | unmoved hcmd hdata hreq hmove' => exact absurd hmove' (by rw [(hmove.moves hdata).1]; decide)
  | opened hcmd hdata hpath => exact absurd (of_decide_eq_true hchunk) hcmd.not_isChunk
  | requested hcmd hdata hrun => exact absurd (of_decide_eq_true hchunk) hcmd.not_isChunk
  | stored | reviewed => exact absurd hanswer (by simp [answers])
  | parsingFail hstores | hashFail hstores | amountFail hstores =>
      exact ⟨_, _, _, rfl, hstores, ⟨rfl, rfl, rfl, rfl, rfl⟩⟩
  | moved | decidedPubkey | decidedTransaction => cases hchunk

/-- **Refused chunks leave no trace, failing ones do.** A run stays a run, to the same state, when
all refused chunks are left out of it. A chunk that fails is appended to the bytes received, and
stays behind them as long as no command wipes the context. -/
theorem chunks_erased (hmove : sdk.MoveLaws) (run : Run (app ui sdk calls) trace d) :
    (∀ e ∈ trace, refuses e = true → e.after = e.before)
    ∧ Run (app ui sdk calls) (trace.filter fun e => !refuses e) d
    ∧ ∀ newer e older, trace = newer ++ e :: older → fails e = true →
      ∃ data, e.event.command.bind (·.data) = some data
        ∧ e.after.gContext.txInfo.rawTxLen = e.before.gContext.txInfo.rawTxLen + data.length
        ∧ e.after.gContext.txInfo.received = e.before.gContext.txInfo.received ++ data
        ∧ ((∀ x ∈ newer, wipes x = false) →
          e.before.gContext.txInfo.received ++ data <+: d.gContext.txInfo.received) := by
  have hrefused : ∀ e ∈ trace, refuses e = true → e.after = e.before := by
    intro e he hrefuses
    obtain ⟨cx, -, hhappens⟩ := step_happens (run.step_of_mem he)
    exact happens_refuses hhappens hrefuses
  refine ⟨hrefused, run.erase hrefused, ?_⟩
  rintro newer e older rfl hfails
  have he : e ∈ newer ++ e :: older := List.mem_append_right _ List.mem_cons_self
  obtain ⟨cx, -, hhappens⟩ := step_happens (run.step_of_mem he)
  obtain ⟨cmd, data, d₁, hevent, hstores, hsame⟩ := happens_fails hmove hhappens hfails
  obtain ⟨hlen, hreceived⟩ := hstores.received hmove
  refine ⟨data, ?_, hsame.rawTxLen.trans hlen, hsame.received.trans hreceived, ?_⟩
  · rw [hevent]
    exact hstores.data_eq
  · intro hnewer
    rw [← hreceived, ← hsame.received]
    exact received_grows hmove run hnewer

end Chunks

open Reference in
/-- The first ten bytes of a transaction, announced as all of it, do not parse and are kept. -/
theorem not_chunks_leave_no_trace :
    ¬∀ trace d, Run (app .bagl (sdk 64) (Cx.Hashes keccak256)) trace d →
      ∀ e ∈ trace, commands Command.isChunk e = true → answers e.output ≠ [swOk] →
        reviews e = false →
          e.after.gContext.txInfo.received = e.before.gContext.txInfo.received := by
  intro h
  obtain ⟨trace, d, run, htrace⟩ := exists_run .bagl [openEvent, headEvent]
    (fun trace _ => trace.any fun e => commands Command.isChunk e
      && decide (answers e.output ≠ [swOk]) && !reviews e
      && decide (e.after.gContext.txInfo.received ≠ e.before.gContext.txInfo.received))
    (by decide +kernel)
  obtain ⟨e, he, hkept⟩ := List.any_eq_true.mp htrace
  simp only [Bool.and_eq_true, decide_eq_true_eq, Bool.not_eq_true'] at hkept
  obtain ⟨⟨⟨hchunk, hanswer⟩, hreview⟩, hkept⟩ := hkept
  exact hkept (h trace d run e he hchunk hanswer hreview)

open Reference in
/-- The law on a run in which the rest of the transaction follows, and both are reviewed. -/
theorem chunks_erased_tx :
    ∃ trace d, Run (app .bagl (sdk 64) (Cx.Hashes keccak256)) trace d
      ∧ message trace = tx ∧ ∃ newer e older, trace = newer ++ e :: older ∧ fails e = true
        ∧ e.after.gContext.txInfo.received <+: d.gContext.txInfo.received := by
  obtain ⟨trace, d, run, htrace⟩ := exists_run .bagl [openEvent, headEvent, tailEvent]
    (fun trace _ => decide (message trace = tx) && decide (trace.length = 3)
      && (trace.tail.head?.any fails) && (trace.head?.any fun e => !wipes e)) (by decide +kernel)
  simp only [Bool.and_eq_true, decide_eq_true_eq] at htrace
  obtain ⟨⟨⟨hmessage, hlength⟩, hfails⟩, hwipes⟩ := htrace
  obtain ⟨e₃, e₂, e₁, rfl⟩ := List.length_eq_three.mp hlength
  obtain ⟨data, -, -, hreceived, hstays⟩ :=
    (chunks_erased (moveLaws 64) run).2.2 [e₃] e₂ [e₁] rfl hfails
  refine ⟨_, d, run, hmessage, [e₃], e₂, [e₁], rfl, hfails, ?_⟩
  rw [hreceived]
  exact hstays (by simpa using hwipes)

end BoilerplateApp
