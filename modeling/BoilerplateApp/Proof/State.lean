import BoilerplateApp.Proof.Review

/-!
# What the state flag says, and when a session ends

`state` is set when a message parses and when it is approved, and is not looked at when a chunk is
stored or an approval arrives late, so it can outlive what it says. And a decision of the user
resets `state` or sets it to approved, while chunks are accepted by the request type alone: only
a GET_PUBLIC_KEY closes a session.
-/

namespace BoilerplateApp

open Transition Trace

/-! ### The state flag -/

/-- What `STATE_PARSED` and `STATE_APPROVED` say: the bytes received parse as the stored
transaction, and the hash is theirs. -/
def StateSound (sdk : Sdk) (keccak256 : List UInt8 → Bytes 32) (d : Device) : Prop :=
  d.gContext.state ≠ .none → d.gContext.reqType = .confirmTransaction
    ∧ DeserializesTo sdk d.gContext.txInfo.received .zero d.gContext.txInfo.transaction
    ∧ d.gContext.txInfo.mHash = keccak256 d.gContext.txInfo.received

/-- A chunk in a state that is set either adds nothing, or is the last one of a message that parses
again. -/
def SteadyChunk (sdk : Sdk) (d : Device) (cmd : Command) : Prop :=
  ∀ data, cmd.data = some data → cmd.continuesSession →
    d.gContext.reqType = .confirmTransaction →
    d.gContext.txInfo.rawTxLen + data.length ≤ maxTransactionLen → d.gContext.state ≠ .none →
    (cmd.p2 = p2More ∧ data = []) ∨ (cmd.p2 = p2Last
      ∧ ∃ tx, DeserializesTo sdk (d.gContext.txInfo.received ++ data) .zero tx)

/-- The condition on an entry: chunks are steady, and a transaction is approved only while the state
is set. -/
structure Steady (ui : Ui) (sdk : Sdk) (e : Entry) : Prop where
  chunk : ∀ cmd, e.event = .apdu (some cmd) → SteadyChunk sdk e.before cmd
  approval : decision ui e = some true → e.before.gContext.state ≠ .none

section State

variable {ui : Ui} {sdk : Sdk} {cx : Cx} {keccak256 : List UInt8 → Bytes 32} {d d' : Device}
  {effects : List Effect} {event : Event} {cmd : Command} {data : List UInt8}

theorem StateSound.of_gContext (h : StateSound sdk keccak256 d) (heq : d'.gContext = d.gContext) :
    StateSound sdk keccak256 d' := by
  rw [StateSound, heq]
  exact h

theorem stateSound_parsed (hread : sdk.ReadLaws) (hcx : cx.Hashes keccak256)
    (hreq : d.gContext.reqType = .confirmTransaction)
    (hlen : d.gContext.txInfo.rawTxLen ≤ maxTransactionLen) {buf : Buffer} {tx : Transaction}
    (hparse : d.deserialized sdk = some (.parsingOk, buf, tx)) :
    StateSound sdk keccak256 (d.parsed tx (d.hashed cx).2) := by
  intro _
  have hparses := (deserialized_iff hread hlen tx).mp ⟨buf, hparse⟩
  refine ⟨hreq, (deserializesTo_iff hread _ _ _).mpr hparses, ?_⟩
  change (d.hashed cx).2 = keccak256 d.gContext.txInfo.received
  rw [Device.hashed, hcx.2]

theorem stores_state (hmove : sdk.MoveLaws) {d₁ : Device} (hstores : Stores sdk d cmd data d₁)
    (hsteady : SteadyChunk sdk d cmd) (hstate : d.gContext.state ≠ .none) :
    (cmd.p2 = p2More ∧ d₁.gContext.txInfo.received = d.gContext.txInfo.received)
      ∨ (cmd.p2 = p2Last ∧ ∃ tx, DeserializesTo sdk d₁.gContext.txInfo.received .zero tx) := by
  obtain ⟨-, hreceived⟩ := hstores.received hmove
  have hfits := hstores.fits
  rw [← cmd.length_data data hstores.data_eq] at hfits
  rcases hsteady data hstores.data_eq hstores.continues hstores.reqType hfits hstate with
    ⟨hp2, rfl⟩ | ⟨hp2, htx⟩
  · exact Or.inl ⟨hp2, by rw [hreceived, List.append_nil]⟩
  · exact Or.inr ⟨hp2, by rwa [hreceived]⟩

theorem happens_stateSound (hread : sdk.ReadLaws) (hmove : sdk.MoveLaws)
    (hcx : cx.Hashes keccak256) (h : Happens ui sdk cx d event d' effects)
    (hsound : StateSound sdk keccak256 d) (hsteady : Steady ui sdk ⟨d, event, d', effects⟩) :
    StateSound sdk keccak256 d' := by
  cases h with
  | outside | badState | wrongTxLength | unmoved => exact hsound
  | opened _ _ hpath =>
      obtain ⟨_, _, rfl⟩ := readBip32Path_frame hpath
      exact fun hstate => absurd rfl hstate
  | requested _ _ hrun =>
      exact fun hstate => absurd (handlerGetPublicKey_spec hrun).state hstate
  | stored hstores hmore =>
      intro hstate
      have hstate' : d.gContext.state ≠ .none := hstores.state_eq ▸ hstate
      obtain ⟨hreq, hok, hhash⟩ := hsound hstate'
      rcases stores_state hmove hstores (hsteady.chunk _ rfl) hstate' with
        ⟨-, hreceived⟩ | ⟨hlast, -⟩
      · obtain ⟨_, _, rfl⟩ := hstores.frame
        rw [hreceived]
        exact ⟨hreq, hok, hhash⟩
      · rw [hmore] at hlast
        exact absurd hlast (by decide)
  | @parsingFail cmd data d₁ hstores hlast status buf tx hparse hstatus =>
      intro hstate
      have hstate' : d.gContext.state ≠ .none := hstores.state_eq ▸ hstate
      rcases stores_state hmove hstores (hsteady.chunk _ rfl) hstate' with
        ⟨hmore, -⟩ | ⟨-, tx', hok⟩
      · rw [hlast] at hmore
        exact absurd hmore (by decide)
      · obtain ⟨buf', hparse'⟩ := (deserialized_iff hread hstores.rawTxLen_le tx').mpr
          ((deserializesTo_iff hread _ _ _).mp hok)
        rw [hparse'] at hparse
        exact absurd (Prod.mk.inj (Option.some.inj hparse)).1.symm hstatus
  | hashFail _ _ _ _ hhash =>
      rcases hhash with hinit | hhash
      · exact absurd hcx.1 hinit
      · exact absurd (congrArg Prod.fst (hcx.2 _)) hhash
  | amountFail hstores _ hparse _ _ =>
      exact (stateSound_parsed hread hcx hstores.reqType_eq hstores.rawTxLen_le
        hparse).of_gContext rfl
  | reviewed hstores _ hparse _ _ =>
      exact (stateSound_parsed hread hcx hstores.reqType_eq hstores.rawTxLen_le
        hparse).of_gContext (Device.reviewing_gContext ..)
  | moved => exact hsound
  | decidedPubkey _ hvalidate _ _ =>
      obtain ⟨rfl, -⟩ := validatePubkey_spec hvalidate
      exact hsound
  | @decidedTransaction action choice hdecides _ _ hvalidate _ _ =>
      obtain ⟨⟨state, _, _, _, rfl, hstate⟩, -⟩ := validateTransaction_spec hvalidate
      intro hset
      rcases hstate with rfl | ⟨rfl, -⟩
      · exact absurd rfl hset
      · exact hsound (hsteady.approval (by simp [decision, hdecides]))

/-- **`STATE_PARSED` and `STATE_APPROVED` mean what they say**, in every state reached by steady
steps. -/
theorem state_sound (hread : sdk.ReadLaws) (hmove : sdk.MoveLaws) {trace : List Entry}
    (run : Run (app ui sdk (Cx.Hashes keccak256)) trace d)
    (hsteady : Always (fun _ e => Steady ui sdk e) trace) : StateSound sdk keccak256 d := by
  apply run.invariant_of_always (StateSound sdk keccak256) _ _ hsteady
  · intro hstate
    exact absurd rfl hstate
  · intro _ e hsound hsteady step
    obtain ⟨cx, hcx, hhappens⟩ := step_happens step
    exact happens_stateSound hread hmove hcx hhappens hsound hsteady

end State

open Reference in
/-- A key is requested while a review is pending: the approval sets the state of an address
request to approved. -/
theorem not_state_sound :
    ¬∀ trace d, Run (app .bagl (sdk 64) (Cx.Hashes keccak256)) trace d →
      StateSound (sdk 64) keccak256 d := by
  intro h
  obtain ⟨trace, d, run, hd⟩ := exists_run .bagl [openEvent, txEvent, keyEvent, .user .approve]
    (fun _ d => decide (d.gContext.state = .approved ∧ d.gContext.reqType = .confirmAddress))
    (by decide +kernel)
  obtain ⟨hstate, hreq⟩ := of_decide_eq_true hd
  have hsound := (h trace d run (by rw [hstate]; decide)).1
  rw [hreq] at hsound
  cases hsound

open Reference in
/-- A review and its approval, with nothing in between. -/
theorem state_sound_tx :
    ∃ trace d, Run (app .bagl (sdk 64) (Cx.Hashes keccak256)) trace d
      ∧ d.gContext.state = .approved ∧ StateSound (sdk 64) keccak256 d := by
  obtain ⟨trace, d, run, htrace⟩ := exists_run .bagl [openEvent, txEvent, .user .approve]
    (fun trace d => decide (d.gContext.state = .approved) && decide (Always
      (fun (_ : List Entry) (e : Entry) =>
        (e.event.command ≠ none → e.before.gContext.state = .none)
          ∧ (decision .bagl e = some true → e.before.gContext.state ≠ .none)) trace))
    (by decide +kernel)
  obtain ⟨hstate, hquiet⟩ := (Bool.and_eq_true _ _).mp htrace
  refine ⟨trace, d, run, of_decide_eq_true hstate,
    state_sound (readLaws (Or.inr rfl)) (moveLaws 64) run ?_⟩
  apply (of_decide_eq_true hquiet).mono
  intro _ e hquiet
  refine ⟨?_, hquiet.2⟩
  intro cmd hevent _ _ _ _ _ hset
  exact absurd (hquiet.1 (by rw [hevent]; exact Option.some_ne_none cmd)) hset

/-! ### The end of a session -/

/-- A decision about a transaction has been made, and no SIGN_TX with P1 = 0 was answered `SW_OK`
since. -/
def Decided (ui : Ui) (trace : List Entry) : Prop :=
  ∃ newer e older, trace = newer ++ e :: older ∧ decision ui e ≠ none
    ∧ ∀ x ∈ newer, opensWell x = false

section Decided

variable {ui : Ui} {sdk : Sdk} {calls : Cx → Prop} {trace : List Entry} {d : Device}

/-- Behind a decision there is a command that wiped the context: the one that opened the session of
the review. -/
theorem lastWipe_of_decided (run : Run (app ui sdk calls) trace d) (h : Decided ui trace) :
    ∃ w, lastWipe trace = some w := by
  obtain ⟨newer, e, older, rfl, hdecision, -⟩ := h
  obtain ⟨choice, hchoice⟩ := Option.ne_none_iff_exists'.mp hdecision
  obtain ⟨_, rune⟩ := run.earlier (List.suffix_append newer (e :: older))
  have hreview := lastReview_ne_nil rune.last.1 (hasShown_of_decision hchoice)
  have hsuffix : lastReview older <:+ older := List.dropWhile_suffix _
  have hat := atReview_lastReview hreview
  cases hlast : lastReview older with
  | nil => exact absurd hlast hreview
  | cons r oldest =>
      rw [hlast] at hat hsuffix
      obtain ⟨_, runr⟩ := rune.last.1.earlier hsuffix
      obtain ⟨runr', step, -⟩ := runr.last
      obtain ⟨cx, -, hhappens⟩ := step_happens step
      obtain ⟨_, _, _, _, _, -, hstores, -⟩ :=
        happens_reviews hhappens (of_decide_eq_true hat)
      obtain ⟨w, hw, -⟩ := (reqType_iff runr').mp hstores.reqType
      have hmem : w ∈ newer ++ e :: older :=
        List.mem_append_right _ (List.mem_cons_of_mem _
          (hsuffix.subset (List.mem_cons_of_mem _ (List.mem_of_find?_eq_some hw))))
      exact Option.isSome_iff_exists.mp
        (List.find?_isSome.mpr ⟨w, hmem, List.find?_some hw⟩)

theorem happens_badState_iff {cx : Cx} {event : Event} {d d' : Device} {effects : List Effect}
    (h : Happens ui sdk cx d event d' effects)
    (hchunk : commands Command.continuesSession ⟨d, event, d', effects⟩ = true) :
    (answers effects = [swBadState] ∧ d'.gContext = d.gContext)
      ↔ d.gContext.reqType ≠ .confirmTransaction := by
  have haccepted : d.gContext.reqType = .confirmTransaction → answers effects ≠ [swBadState] →
      ((answers effects = [swBadState] ∧ d'.gContext = d.gContext)
        ↔ d.gContext.reqType ≠ .confirmTransaction) := fun hreq hanswer =>
    ⟨fun h => absurd h.1 hanswer, fun h => absurd hreq h⟩
  cases h with
  | @outside parsed sw data hcmd =>
      cases parsed with
      | none => cases hchunk
      | some cmd => exact absurd (of_decide_eq_true hchunk) (hcmd cmd rfl).2.1
  | opened hcmd => exact absurd hcmd (of_decide_eq_true hchunk).not_opens
  | requested hcmd => exact absurd hcmd (of_decide_eq_true hchunk).not_requests
  | badState hcmd hreq => exact ⟨fun _ => hreq, fun _ => ⟨rfl, rfl⟩⟩
  | wrongTxLength _ hreq _ | unmoved _ _ hreq _ =>
      exact haccepted hreq (by simp [answers]; decide)
  | stored hstores | parsingFail hstores | hashFail hstores | amountFail hstores =>
      exact haccepted hstores.reqType (by simp [answers]; decide)
  | reviewed hstores => exact haccepted hstores.reqType (by simp [answers])
  | moved | decidedPubkey | decidedTransaction => cases hchunk

/-- **When a session ends.** After a decision, a chunk is refused, with nothing changed, exactly when
the last command that wiped the context is a GET_PUBLIC_KEY. -/
theorem refused_after_decision_iff {e : Entry} (run : Run (app ui sdk calls) (e :: trace) d)
    (hchunk : commands Command.continuesSession e = true) (hdecided : Decided ui trace) :
    (answers e.output = [swBadState] ∧ e.after.gContext = e.before.gContext)
      ↔ (lastWipe trace).any requests = true := by
  obtain ⟨run', step, -⟩ := run.last
  obtain ⟨w, hw⟩ := lastWipe_of_decided run' hdecided
  have hreq : e.before.gContext.reqType = .confirmTransaction ↔ opens w = true := by
    rw [reqType_iff run', hw]
    simp
  have hwipes : wipes w = true := List.find?_some hw
  obtain ⟨cx, -, hhappens⟩ := step_happens step
  rw [happens_badState_iff hhappens hchunk, hw, Option.any_some, ne_eq, hreq]
  exact ⟨fun hopens => ((Bool.or_eq_true _ _).mp hwipes).resolve_left hopens,
    fun hrequests => by rw [not_opens_of_requests hrequests]; decide⟩

end Decided

/-- The newest entry is a chunk that was taken right after a decision. -/
def takenAfterDecision : List Entry → Bool
  | e :: x :: _ => commands Command.continuesSession e && decide (answers e.output = [swOk])
      && (decision .bagl x).isSome
  | _ => false

open Reference in
/-- A transaction is rejected, and a chunk that follows is accepted. -/
theorem not_refused_after_decision :
    ¬∀ trace d, Run (app .bagl (sdk 64) (Cx.Hashes keccak256)) trace d →
      ∀ e older, trace = e :: older → commands Command.continuesSession e = true →
        Decided .bagl older →
        answers e.output = [swBadState] ∧ e.after.gContext = e.before.gContext := by
  intro h
  obtain ⟨trace, d, run, htrace⟩ := exists_run .bagl
    [openEvent, txEvent, .user .reject, command insSignTx 1 p2More tx (by decide)]
    (fun trace _ => takenAfterDecision trace) (by decide +kernel)
  rcases trace with _ | ⟨e, _ | ⟨x, older⟩⟩
  · cases htrace
  · cases htrace
  · simp only [takenAfterDecision, Bool.and_eq_true, decide_eq_true_eq] at htrace
    obtain ⟨⟨hchunk, hanswer⟩, hdecision⟩ := htrace
    have hdecided : Decided .bagl (x :: older) :=
      ⟨[], x, older, rfl, Option.isSome_iff_ne_none.mp hdecision, by simp⟩
    have hrefused := (h _ d run e _ rfl hchunk hdecided).1
    rw [hanswer] at hrefused
    exact absurd hrefused (by decide)

/-- The newest entry is a chunk, and a key was requested between it and a decision. -/
def chunkAfterKey : List Entry → Bool
  | e :: k :: x :: _ => commands Command.continuesSession e && requests k && !opensWell k
      && (decision .bagl x).isSome
  | _ => false

open Reference in
/-- A key is requested after the decision, and a chunk that follows is refused. -/
theorem refused_after_decision_key :
    ∃ trace d, Run (app .bagl (sdk 64) (Cx.Hashes keccak256)) trace d
      ∧ ∃ e older, trace = e :: older ∧ Decided .bagl older ∧ answers e.output = [swBadState]
        ∧ e.after.gContext = e.before.gContext := by
  obtain ⟨trace, d, run, htrace⟩ := exists_run .bagl
    [openEvent, txEvent, .user .approve, keyEvent, tailEvent]
    (fun trace _ => chunkAfterKey trace) (by decide +kernel)
  rcases trace with _ | ⟨e, _ | ⟨k, _ | ⟨x, older⟩⟩⟩
  · cases htrace
  · cases htrace
  · cases htrace
  · simp only [chunkAfterKey, Bool.and_eq_true, Bool.not_eq_true'] at htrace
    obtain ⟨⟨⟨hchunk, hrequests⟩, hwell⟩, hdecision⟩ := htrace
    have hdecided : Decided .bagl (k :: x :: older) :=
      ⟨[k], x, older, rfl, Option.isSome_iff_ne_none.mp hdecision, by simpa using hwell⟩
    have hlast : (lastWipe (k :: x :: older)).any requests = true := by
      rw [lastWipe_of_wipes (wipes_of_requests hrequests), Option.any_some, hrequests]
    exact ⟨_, d, run, e, _, rfl, hdecided,
      (refused_after_decision_iff run hchunk hdecided).mpr hlast⟩

end BoilerplateApp
