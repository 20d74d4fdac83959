import BoilerplateApp.Proof.Confirm
import BoilerplateApp.Proof.MemorySafety
import BoilerplateApp.Proof.Review

/-!
# What an approval gives away

`validate_transaction` signs the hash that the context holds when the user approves, and
`validate_pubkey` sends the bytes in the place of the key, whatever has happened since the review was
put on screen. In every order of commands and touches, the hash is that of the message last reviewed
or, after a wipe, thirty-two zeros. The key is the one last asked for or, while a session is open,
the beginning of what the host has sent as its message.
-/

namespace BoilerplateApp

open Transition Trace

/-! ### The context after a GET_PUBLIC_KEY -/

section Requests

variable {ui : Ui} {sdk : Sdk} {cx : Cx} {d d' : Device} {cdata : Buffer} {display : Bool}
  {effects : List Effect}

theorem readBip32Path_txInfo {request : RequestType} {ok : Bool} {ctx : GlobalCtx}
    (h : readBip32Path sdk (.fresh request) cdata = (ok, ctx)) :
    ctx.txInfo = GlobalCtx.zero.txInfo := by
  obtain ⟨_, _, rfl⟩ := readBip32Path_frame h
  rfl

theorem requests_mHash (h : Requests ui sdk cx d cdata display d' effects) :
    d'.gContext.txInfo.mHash = zeros 32 := by
  have hfresh : ∀ {ok ctx}, readBip32Path sdk (.fresh .confirmAddress) cdata = (ok, ctx) →
      ctx.txInfo.mHash = zeros 32 :=
    fun hpath => congrArg TransactionCtx.mHash (readBip32Path_txInfo hpath)
  have hkeyed : ∀ {ctx : GlobalCtx} (pk : PubkeyCtx),
      (d.keyed ctx pk).gContext.txInfo.mHash = ctx.txInfo.mHash := fun _ => rfl
  cases h with
  | refused hpath => exact hfresh hpath
  | underivable hpath | replied hpath | pathFail hpath => rw [hkeyed, hfresh hpath]
  | addressFail hpath => rw [Device.setAddress_gContext, hkeyed, hfresh hpath]
  | shown hpath =>
      rw [Device.showing_gContext, Device.setAddress_gContext, hkeyed, hfresh hpath]

end Requests

/-! ### Signatures -/

/-- What an approval of a transaction signs. -/
inductive SignsHash (sdk : Sdk) (keccak256 : List UInt8 → Bytes 32) (older : List Entry)
    (d : Device) (hash : Bytes 32) : Prop
  /-- The message last reviewed, whose amount and address are on screen. -/
  | reviewed (hkept : ∀ x ∈ sinceReview older, wipes x = false)
      (hhash : hash = keccak256 (message (lastReview older)))
      (hshows : Shows sdk (message (lastReview older)) d)
  | wiped (hwiped : ∃ x ∈ sinceReview older, wipes x = true) (hhash : hash = zeros 32)

section Signatures

variable {ui : Ui} {sdk : Sdk} {calls : Cx → Prop} {keccak256 : List UInt8 → Bytes 32} {e : Entry}
  {trace : List Entry} {d : Device}

theorem sinceReview_of_reviews (h : reviews e = true) : sinceReview (e :: trace) = [] := by
  simp [sinceReview, h]

theorem mHash_of_wipes (step : (app ui sdk calls).Step e.before e.event e.after e.output)
    (hwipes : wipes e = true) : e.after.gContext.txInfo.mHash = zeros 32 := by
  cases step_progress step with
  | kept hkept | extended hkept =>
      rw [hkept] at hwipes
      cases hwipes
  | opened _ _ hpath => exact congrArg TransactionCtx.mHash (readBip32Path_txInfo hpath)
  | requested hrequests =>
      obtain ⟨cx, -, hnext⟩ := step
      obtain ⟨data, display, -, hresult⟩ := next_requests hnext hrequests
      exact requests_mHash hresult

/-- After a wipe there is no hash until the next review. -/
theorem wiped_mHash (hformat : sdk.FormatLaws)
    (run : Run (app ui sdk (Cx.Hashes keccak256)) trace d)
    (hwiped : ∃ x ∈ sinceReview trace, wipes x = true) :
    d.gContext.txInfo.mHash = zeros 32 := by
  induction run with
  | initial =>
      obtain ⟨x, hx, -⟩ := hwiped
      cases hx
  | @step trace e run step ih =>
      obtain ⟨x, hx, hwipes⟩ := hwiped
      cases hreviews : reviews e with
      | true =>
          rw [sinceReview_of_reviews hreviews] at hx
          cases hx
      | false =>
          rw [sinceReview_of_not_reviews hreviews] at hx
          cases hkept : wipes e with
          | true => exact mHash_of_wipes step hkept
          | false =>
              have hx : x ∈ sinceReview trace := by
                rcases List.mem_cons.mp hx with rfl | hx
                · rw [hkept] at hwipes
                  cases hwipes
                · exact hx
              obtain ⟨cx, hcx, hhappens⟩ := step_happens step
              have hsame := happens_keeps_review hcx hformat hhappens hkept
                (of_decide_eq_false hreviews)
              exact hsame.1.trans (ih ⟨x, hx, hwipes⟩)

/-- **No message is signed that was not reviewed.** In every run, whatever commands come between a
review and its approval: a signature is over the message last reviewed, whose amount and address are
on screen, or over thirty-two zeros, when a command has wiped the context since the review. -/
theorem signed_hash (hread : sdk.ReadLaws) (hmove : sdk.MoveLaws) (hformat : sdk.FormatLaws)
    (run : Run (app ui sdk (Cx.Hashes keccak256)) (e :: trace) d)
    {path : List.Vector UInt32 maxBip32Path} {len : UInt8} {hash : Bytes 32}
    (hsign : .sign path len hash ∈ e.output) :
    decision ui e = some true ∧ atReview (lastReview trace)
      ∧ SignsHash sdk keccak256 trace e.before hash := by
  obtain ⟨run', step, -⟩ := run.last
  obtain ⟨cx, -, hhappens⟩ := step_happens step
  obtain ⟨happroves, -, -, rfl⟩ := happens_signs hhappens hsign
  have hreview := lastReview_ne_nil run' (hasShown_of_decision happroves)
  refine ⟨happroves, atReview_lastReview hreview, ?_⟩
  by_cases hwiped : ∃ x ∈ sinceReview trace, wipes x = true
  · exact .wiped hwiped (wiped_mHash hformat run' hwiped)
  · have hkept : ∀ x ∈ sinceReview trace, wipes x = false := by
      intro x hx
      exact Bool.eq_false_iff.mpr fun hwipes => hwiped ⟨x, hx, hwipes⟩
    obtain ⟨hhash, hshows⟩ := reviewed_message hread hmove hformat run' hreview hkept
    exact .reviewed hkept hhash hshows

end Signatures

/-! ### Keys -/

def PubkeyCtx.bytes (pk : PubkeyCtx) : List UInt8 := pk.rawPublicKey.toList ++ pk.chainCode.toList

/-- The zeros that stand in the place of a key after a wipe. -/
def noKey : List UInt8 := List.replicate (pubkeyLen + chaincodeLen) 0

/-- The key of a path, and nothing without a path. -/
def keyOf (derive : List UInt32 → UInt32 × PubkeyCtx) : Option (List UInt32) → List UInt8
  | none => noKey
  | some path => (derive path).2.bytes

/-- What stands in the place of a key: that of the last GET_PUBLIC_KEY, and while a session is open
the beginning of its message. -/
def heldKey (derive : List UInt32 → UInt32 × PubkeyCtx) (trace : List Entry) : List UInt8 :=
  if (lastWipe trace).any opens then (message trace ++ noKey).take (pubkeyLen + chaincodeLen)
  else keyOf derive ((lastWipe trace).bind requestedPath)

section Keys

variable {ui : Ui} {sdk : Sdk} {calls : Calls} {cx : Cx} {e : Entry} {trace : List Entry}
  {d d' : Device} {data : List UInt8} {display : Bool} {effects : List Effect}

theorem pkInfo_bytes (ctx : GlobalCtx) :
    ctx.pkInfo.bytes = ctx.txInfo.rawTx.toList.take (pubkeyLen + chaincodeLen) :=
  List.take_add.symm

theorem take_append_zeros {message : List UInt8} {k n : Nat} (h : n ≤ message.length + k) :
    (message ++ List.replicate k 0).take n = (message ++ List.replicate n 0).take n := by
  rw [List.take_append, List.take_append, List.take_replicate, List.take_replicate]
  congr 2
  omega

/-- The union holds the message, and zeros behind it. -/
theorem pkInfo_of_session (hmove : sdk.MoveLaws) (run : Run (app ui sdk calls.Are) trace d)
    (hopens : (lastWipe trace).any opens = true) :
    d.gContext.pkInfo.bytes = (message trace ++ noKey).take (pubkeyLen + chaincodeLen) := by
  have hreq := (reqType_iff run).mpr ((Option.any_eq_true _ _).mp hopens)
  obtain ⟨hlen, hreceived⟩ := rawTx_eq_message hmove run hreq
  have hraw := d.gContext.txInfo.rawTx.toList_length
  have hzeros : d.gContext.txInfo.rawTx.toList.drop d.gContext.txInfo.rawTxLen
      = List.replicate (maxTransactionLen - d.gContext.txInfo.rawTxLen) 0 :=
    List.eq_replicate_iff.mpr ⟨by rw [List.length_drop, hraw], padded_of_run hmove run hreq⟩
  have hmessage := TransactionCtx.length_received hlen
  rw [hreceived] at hmessage
  have hfits : pubkeyLen + chaincodeLen
      ≤ (message trace).length + (maxTransactionLen - d.gContext.txInfo.rawTxLen) := by
    have hsmall : pubkeyLen + chaincodeLen ≤ maxTransactionLen := by decide
    omega
  calc d.gContext.pkInfo.bytes
      = d.gContext.txInfo.rawTx.toList.take (pubkeyLen + chaincodeLen) := pkInfo_bytes _
    _ = (d.gContext.txInfo.received
          ++ d.gContext.txInfo.rawTx.toList.drop d.gContext.txInfo.rawTxLen).take
            (pubkeyLen + chaincodeLen) := by
        rw [TransactionCtx.received, List.take_append_drop]
    _ = (message trace ++ noKey).take (pubkeyLen + chaincodeLen) := by
        rw [hreceived, hzeros, take_append_zeros hfits, noKey]

theorem pkInfo_of_wiped {ctx : GlobalCtx} (h : ctx.txInfo = GlobalCtx.zero.txInfo) :
    ctx.pkInfo.bytes = noKey := by
  rw [pkInfo_bytes, h]
  exact List.take_replicate

theorem requests_bytes (hcx : calls.Are cx) (hread : sdk.ReadLaws) (hpath : sdk.PathLaws)
    (h : Requests ui sdk cx d (.ofBytes data) display d' effects) :
    d'.gContext.pkInfo.bytes = keyOf calls.derive (Command.carriedPath data) := by
  cases hcarried : Command.carriedPath data with
  | some path => rw [requests_pkInfo hcx hread hpath hcarried h, keyOf]
  | none =>
      have hrefused : ∀ {ctx}, readBip32Path sdk (.fresh .confirmAddress) (.ofBytes data)
          ≠ (true, ctx) := by
        intro ctx hresult
        have hsome := (readBip32Path_ok hread hpath hresult).1
        rw [hcarried] at hsome
        cases hsome
      cases h with
      | refused hresult => exact pkInfo_of_wiped (readBip32Path_txInfo hresult)
      | underivable hresult | replied hresult | pathFail hresult | addressFail hresult
      | shown hresult => exact absurd hresult hrefused

/-- Outside of a session the key is that of the last GET_PUBLIC_KEY. -/
theorem pkInfo_of_asked (hread : sdk.ReadLaws) (hpath : sdk.PathLaws)
    (run : Run (app ui sdk calls.Are) trace d) (hopens : (lastWipe trace).any opens = false) :
    d.gContext.pkInfo.bytes = keyOf calls.derive ((lastWipe trace).bind requestedPath) := by
  induction run with
  | initial => exact pkInfo_of_wiped rfl
  | @step trace e run step ih =>
      cases step_progress step with
      | kept hwipes _ hsame =>
          rw [lastWipe_of_not_wipes hwipes] at hopens ⊢
          rw [pkInfo_bytes, hsame.rawTx, ← pkInfo_bytes]
          exact ih hopens
      | opened hopened =>
          rw [lastWipe_of_wipes (wipes_of_opens hopened), Option.any_some, hopened] at hopens
          cases hopens
      | requested hrequests =>
          obtain ⟨cx, hcx, hnext⟩ := step
          obtain ⟨data, display, hasked, hresult⟩ := next_requests hnext hrequests
          rw [lastWipe_of_wipes (wipes_of_requests hrequests), Option.bind_some]
          exact (requests_bytes hcx hread hpath hresult).trans (congrArg _ hasked.symm)
      | extended hwipes hstores =>
          -- chunks are stored in a session only
          rw [lastWipe_of_not_wipes hwipes] at hopens
          have hsession := (Option.any_eq_true _ _).mpr ((reqType_iff run).mp hstores.reqType)
          rw [hopens] at hsession
          cases hsession

theorem pkInfo_eq_heldKey (hread : sdk.ReadLaws) (hpath : sdk.PathLaws) (hmove : sdk.MoveLaws)
    (run : Run (app ui sdk calls.Are) trace d) :
    d.gContext.pkInfo.bytes = heldKey calls.derive trace := by
  rw [heldKey]
  split
  · next hopens => exact pkInfo_of_session hmove run hopens
  · next hopens => exact pkInfo_of_asked hread hpath run (Bool.eq_false_iff.mpr hopens)

/-- **What is exported when an address is approved.** In every run, whatever commands come between
the review and its approval: the key of the last GET_PUBLIC_KEY, zeros if that carried no path, and
when a SIGN_TX has opened a session since, the bytes that the host has sent as its message. -/
theorem exported_key (hread : sdk.ReadLaws) (hpath : sdk.PathLaws) (hmove : sdk.MoveLaws)
    (run : Run (app ui sdk calls.Are) (e :: trace) d) (happroves : approvesAddress ui e = true) :
    ∃ pk : PubkeyCtx, e.output = [.send swOk (keyReply pk)]
      ∧ pk.bytes = heldKey calls.derive trace := by
  obtain ⟨run', ⟨cx, -, hnext⟩, -⟩ := run.last
  have hheld := pkInfo_eq_heldKey hread hpath hmove run'
  obtain ⟨before, event, after, output⟩ := e
  cases event with
  | apdu parsed => cases happroves
  | user action =>
      have hdecides : before.decides ui action = some (.confirmAddress, true) :=
        of_decide_eq_true happroves
      obtain ⟨d', hreply⟩ := next_approve_pubkey sdk cx hdecides
      obtain ⟨-, rfl⟩ := Prod.mk.inj (Option.some.inj (hreply.symm.trans hnext))
      exact ⟨_, rfl, hheld⟩

end Keys

open Reference in
/-- A new session while a review is pending: the approval signs zeros. -/
theorem signed_hash_wiped :
    ∃ trace d, Run (app .bagl (sdk 64) (Cx.Hashes keccak256)) trace d
      ∧ ∃ e older path len, trace = e :: older ∧ .sign path len (zeros 32) ∈ e.output
        ∧ SignsHash (sdk 64) keccak256 older e.before (zeros 32) := by
  obtain ⟨trace, d, run, htrace⟩ :=
    exists_run .bagl [openEvent, txEvent, openEvent, .user .approve]
      (fun trace d => trace.head?.any fun e : Entry =>
        e.output.contains (.sign d.gContext.bip32Path d.gContext.bip32PathLen (zeros 32)))
      (by decide +kernel)
  cases trace with
  | nil => cases htrace
  | cons e older =>
      have hsign := List.contains_iff_mem.mp htrace
      obtain ⟨-, -, hsigns⟩ :=
        signed_hash (readLaws (Or.inr rfl)) (moveLaws 64) (formatLaws 64) run hsign
      exact ⟨_, d, run, e, older, _, _, rfl, hsign, hsigns⟩

open Reference in
/-- A session with three bytes while an address is on screen: they are exported as the key. -/
theorem exported_key_chunk :
    ∃ trace d, Run (app .bagl (sdk 64) functions.Are) trace d
      ∧ ∃ e older, trace = e :: older ∧ approvesAddress .bagl e = true
        ∧ ∃ pk : PubkeyCtx, e.output = [.send swOk (keyReply pk)]
          ∧ pk.bytes = [1, 2, 3] ++ List.replicate 94 0 := by
  obtain ⟨trace, d, run, htrace⟩ := exists_run_of _ functions_are .bagl
    [displayEvent, openEvent, command insSignTx 1 p2More [1, 2, 3] (by decide), .user .approve]
    (fun trace _ => trace.head?.any (approvesAddress .bagl)
      && decide (heldKey functions.derive trace.tail = [1, 2, 3] ++ List.replicate 94 0))
    (by decide +kernel)
  obtain ⟨happroves, hheld⟩ := (Bool.and_eq_true _ _).mp htrace
  cases trace with
  | nil => cases happroves
  | cons e older =>
      obtain ⟨pk, houtput, hbytes⟩ :=
        exported_key (readLaws (Or.inr rfl)) (pathLaws 64) (moveLaws 64) run happroves
      exact ⟨_, d, run, e, older, rfl, happroves, pk, houtput,
        hbytes.trans (of_decide_eq_true hheld)⟩

end BoilerplateApp
