import BoilerplateApp.Proof.Path
import BoilerplateApp.Proof.Texts

/-!
# What is approved is what is signed

The strings of a review live in the user interface, the hash and the path it is about in the
context. A command that wipes the context while a review is pending separates the two, and
`validate_transaction` does not look: it signs whatever hash is there, thirty-two zeros after a
wipe. As long as no wipe comes between the review and its approval, what is signed is the message
whose amount and address are on screen.
-/

namespace BoilerplateApp

open Transition Trace

/-! ### A decision needs a review -/

/-- A transaction review has been put on screen, or its callback installed. -/
def Device.hasShown (d : Device) : Prop :=
  d.screen.reviewsTransaction ∨ d.gValidateCallback = some .uiActionValidateTransaction

section Shown

variable {ui : Ui} {sdk : Sdk} {cx : Cx} {d d' : Device} {effects : List Effect} {event : Event}

theorem hasShown_of_decides {action : UserAction} {choice : Bool}
    (h : d.decides ui action = some (.confirmTransaction, choice)) : d.hasShown := by
  obtain ⟨ctx, callback, amount, address, addressPubkey, screen⟩ := d
  cases ui with
  | nbgl =>
      left
      cases screen <;> cases action <;>
        simp [Device.decides, Screen.reviewsTransaction] at h ⊢
  | bagl =>
      right
      rcases callback with _ | _ | _ <;> cases screen <;> cases action <;>
        simp [Device.decides, ActionValidateCb.request] at h ⊢

theorem hasShown_of_decision {e : Entry} {choice : Bool} (h : decision ui e = some choice) :
    e.before.hasShown := by
  obtain ⟨before, event, after, output⟩ := e
  cases event with
  | apdu parsed => cases h
  | user action =>
      simp only [decision] at h
      split at h
      · next hdecides => exact hasShown_of_decides hdecides
      · cases h

theorem happens_hasShown (h : Happens ui sdk cx d event d' effects) (hshown : d'.hasShown) :
    d.hasShown ∨ .startReview .confirmTransaction ∈ effects := by
  cases h with
  | reviewed => exact Or.inr List.mem_cons_self
  | requested _ _ hrun =>
      left
      rcases (handlerGetPublicKey_spec hrun).screen with ⟨hscreen, hcallback⟩ | ⟨d₀, hcb, rfl⟩
      · rwa [Device.hasShown, hscreen, hcallback] at hshown
      · cases ui with
        | bagl => simp [Device.hasShown, Device.showing, Screen.reviewsTransaction] at hshown
        | nbgl =>
            simp only [Device.hasShown, Device.showing, Screen.reviewsTransaction, false_or, hcb]
              at hshown
            exact Or.inr hshown
  | stored hstores | parsingFail hstores | hashFail hstores | amountFail hstores =>
      obtain ⟨_, _, rfl⟩ := hstores.frame
      exact Or.inl hshown
  | moved _ screen hscreen _ => exact Or.inl (hshown.imp_left hscreen)
  | decidedPubkey _ hvalidate screen hscreen =>
      obtain ⟨rfl, -⟩ := validatePubkey_spec hvalidate
      rcases hscreen with rfl | rfl <;> exact Or.inl (Or.inr (hshown.resolve_left False.elim))
  | decidedTransaction _ hvalidate screen hscreen =>
      obtain ⟨⟨_, _, _, _, rfl, -⟩, -⟩ := validateTransaction_spec hvalidate
      rcases hscreen with rfl | rfl <;> exact Or.inl (Or.inr (hshown.resolve_left False.elim))
  | _ => exact Or.inl hshown

theorem formatFpu64_ok (hformat : sdk.FormatLaws) (value : UInt64) :
    (sdk.formatFpu64 30 value exponentSmallestUnit).1 = true := by
  rw [formatFpu64_eq hformat]

theorem happens_keeps_review {keccak256 : List UInt8 → Bytes 32} (hcx : cx.Hashes keccak256)
    (hformat : sdk.FormatLaws) (h : Happens ui sdk cx d event d' effects)
    (hwipes : wipes ⟨d, event, d', effects⟩ = false)
    (hreviews : .startReview .confirmTransaction ∉ effects) :
    d'.gContext.txInfo.mHash = d.gContext.txInfo.mHash ∧ d'.gAmount = d.gAmount
      ∧ d'.gAddress = d.gAddress := by
  cases h with
  | opened hcmd => simp [wipes, opens, commands, Event.command, hcmd] at hwipes
  | requested hcmd => simp [wipes, requests, commands, Event.command, hcmd] at hwipes
  | stored hstores | parsingFail hstores =>
      obtain ⟨_, _, rfl⟩ := hstores.frame
      exact ⟨rfl, rfl, rfl⟩
  | hashFail _ _ _ _ hhash =>
      rcases hhash with hinit | hhash
      · exact absurd hcx.1 hinit
      · exact absurd (congrArg Prod.fst (hcx.2 _)) hhash
  | amountFail _ _ _ _ hamount => exact absurd hamount (by rw [formatFpu64_ok hformat]; decide)
  | reviewed => simp at hreviews
  | decidedPubkey _ hvalidate _ _ =>
      obtain ⟨rfl, -⟩ := validatePubkey_spec hvalidate
      exact ⟨rfl, rfl, rfl⟩
  | decidedTransaction _ hvalidate _ _ =>
      obtain ⟨⟨_, _, _, _, rfl, -⟩, -⟩ := validateTransaction_spec hvalidate
      exact ⟨rfl, rfl, rfl⟩
  | _ => exact ⟨rfl, rfl, rfl⟩

end Shown

/-! ### The last review -/

section Traces

variable {e : Entry} {trace : List Entry}

theorem lastReview_of_reviews (h : reviews e = true) : lastReview (e :: trace) = e :: trace := by
  simp [lastReview, h]

theorem lastReview_of_not_reviews (h : reviews e = false) :
    lastReview (e :: trace) = lastReview trace := by
  simp [lastReview, h]

theorem sinceReview_of_not_reviews (h : reviews e = false) :
    sinceReview (e :: trace) = e :: sinceReview trace := by
  simp [sinceReview, h]

theorem sinceReview_append_lastReview (trace : List Entry) :
    sinceReview trace ++ lastReview trace = trace :=
  List.takeWhile_append_dropWhile

theorem atReview_lastReview (h : lastReview trace ≠ []) : atReview (lastReview trace) := by
  induction trace with
  | nil => exact absurd rfl h
  | cons e trace ih =>
      cases hreviews : reviews e with
      | true =>
          rw [lastReview_of_reviews hreviews]
          exact hreviews
      | false =>
          rw [lastReview_of_not_reviews hreviews] at h ⊢
          exact ih h

theorem lastWipe_lastReview (h : ∀ x ∈ sinceReview trace, wipes x = false) :
    lastWipe (lastReview trace) = lastWipe trace := by
  have hnone : (sinceReview trace).find? wipes = none :=
    List.find?_eq_none.mpr fun x hx => by rw [h x hx]; decide
  conv_rhs => rw [← sinceReview_append_lastReview trace]
  rw [lastWipe, lastWipe, List.find?_append, hnone, Option.none_or]

end Traces

section Runs

variable {ui : Ui} {sdk : Sdk} {calls : Cx → Prop} {keccak256 : List UInt8 → Bytes 32}
  {trace : List Entry} {d : Device}

theorem lastReview_ne_nil (run : Run (app ui sdk calls) trace d) (hshown : d.hasShown) :
    lastReview trace ≠ [] := by
  revert hshown
  apply run.tracks fun trace d => d.hasShown → lastReview trace ≠ []
  · rintro (h | h) <;> cases h
  · intro trace e ih step hshown
    cases hreviews : reviews e with
    | true => simp [lastReview_of_reviews hreviews]
    | false =>
        obtain ⟨cx, -, hhappens⟩ := step_happens step
        rw [lastReview_of_not_reviews hreviews]
        exact ih ((happens_hasShown hhappens hshown).resolve_right (of_decide_eq_false hreviews))

/-- Until the context is wiped, the hash in it and the strings on screen are those of the message
that was last reviewed. -/
theorem reviewed_message (hread : sdk.ReadLaws) (hmove : sdk.MoveLaws) (hformat : sdk.FormatLaws)
    (run : Run (app ui sdk (Cx.Hashes keccak256)) trace d) (hreview : lastReview trace ≠ [])
    (hwipes : ∀ x ∈ sinceReview trace, wipes x = false) :
    d.gContext.txInfo.mHash = keccak256 (message (lastReview trace))
      ∧ Shows sdk (message (lastReview trace)) d := by
  induction run with
  | initial => exact absurd rfl hreview
  | @step trace e run step ih =>
      cases hreviews : reviews e with
      | true =>
          rw [lastReview_of_reviews hreviews]
          exact (review_spec hread hmove (.step e run step) hreviews).2
      | false =>
          rw [sinceReview_of_not_reviews hreviews] at hwipes
          rw [lastReview_of_not_reviews hreviews] at hreview ⊢
          obtain ⟨cx, hcx, hhappens⟩ := step_happens step
          obtain ⟨hhash, hamount, haddress⟩ := happens_keeps_review hcx hformat hhappens
            (hwipes e List.mem_cons_self) (of_decide_eq_false hreviews)
          obtain ⟨hhash', tx, htx, hamount', haddress'⟩ :=
            ih hreview fun x hx => hwipes x (List.mem_cons_of_mem _ hx)
          exact ⟨hhash.trans hhash', tx, htx, hamount.trans hamount', haddress.trans haddress'⟩

/-- A signature over the message that was last reviewed, whose amount and address are on screen, with
the path of its session. -/
structure SignsReview (sdk : Sdk) (keccak256 : List UInt8 → Bytes 32) (older : List Entry)
    (d : Device) (path : List.Vector UInt32 maxBip32Path) (len : UInt8) (hash : Bytes 32) :
    Prop where
  reviewed : atReview (lastReview older)
  hash_eq : hash = keccak256 (message (lastReview older))
  shows : Shows sdk (message (lastReview older)) d
  path : UsesPath (lastReview older) path len

/-- The condition on an entry: when a transaction is approved, no command has wiped the context
since its review, and its session was opened with a path. -/
def Undisturbed (ui : Ui) (older : List Entry) (e : Entry) : Prop :=
  decision ui e = some true → (∀ x ∈ sinceReview older, wipes x = false)
    ∧ (lastWipe (lastReview older)).any (fun w => (carries w).isSome) = true

instance (ui : Ui) (older : List Entry) (e : Entry) : Decidable (Undisturbed ui older e) :=
  inferInstanceAs (Decidable (_ → _ ∧ _))

/-- **What is approved is what is signed**, in a run whose approvals are all undisturbed. -/
theorem approved_is_signed (hsdk : sdk.Lawful)
    (run : Run (app ui sdk (Cx.Hashes keccak256)) trace d) (hsteps : Always (Undisturbed ui) trace) :
    Always (fun older e => ∀ path len hash, .sign path len hash ∈ e.output →
      SignsReview sdk keccak256 older e.before path len hash) trace := by
  apply run.always _ hsteps
  intro older e run hundisturbed path len hash hsign
  obtain ⟨run', step, -⟩ := run.last
  obtain ⟨cx, -, hhappens⟩ := step_happens step
  obtain ⟨happroves, rfl, rfl, rfl⟩ := happens_signs hhappens hsign
  obtain ⟨hwipes, hsession⟩ := hundisturbed happroves
  have hreview := lastReview_ne_nil run' (hasShown_of_decision happroves)
  obtain ⟨hhash, hshows⟩ := reviewed_message hsdk.toReadLaws hsdk.toMoveLaws hsdk.toFormatLaws
    run' hreview hwipes
  have hlast := lastWipe_lastReview hwipes
  rw [hlast] at hsession
  obtain ⟨w, hw, hcarries⟩ := (Option.any_eq_true _ _).mp hsession
  obtain ⟨hpos, hmax, hpath⟩ :=
    usesPath_of_carries hsdk.toReadLaws hsdk.toPathLaws run' hw hcarries
  refine ⟨atReview_lastReview hreview, hhash, hshows, hpos, hmax, ?_⟩
  rw [← hpath, sessionPath, sessionPath, hlast]

end Runs

open Reference in
/-- A new session while a review is pending: the approval signs zeros, not what is on screen. -/
theorem not_approved_is_signed :
    ¬∀ trace d, Run (app .bagl (sdk 64) (Cx.Hashes keccak256)) trace d →
      Always (fun older e => ∀ path len hash, .sign path len hash ∈ e.output →
        SignsReview (sdk 64) keccak256 older e.before path len hash) trace := by
  intro h
  obtain ⟨trace, d, run, htrace⟩ :=
    exists_run .bagl [openEvent, txEvent, openEvent, .user .approve]
      (fun trace _ => trace.head?.any fun e => e.output.any fun
        | .sign _ _ hash => decide (hash ≠ keccak256 (message (lastReview trace.tail)))
        | _ => false) (by decide +kernel)
  cases trace with
  | nil => cases htrace
  | cons e older =>
      obtain ⟨effect, heffect, hwrong⟩ := List.any_eq_true.mp htrace
      cases effect with
      | send | startReview => cases hwrong
      | sign path len hash =>
          exact of_decide_eq_true hwrong ((h _ d run).1 path len hash heffect).hash_eq

open Reference in
/-- An undisturbed review, approved. -/
theorem approved_is_signed_tx :
    ∃ trace d, Run (app .nbgl (sdk 64) (Cx.Hashes keccak256)) trace d
      ∧ ∃ e older path len, trace = e :: older ∧ .sign path len txHash ∈ e.output
        ∧ SignsReview (sdk 64) keccak256 older e.before path len txHash := by
  obtain ⟨trace, d, run, htrace⟩ :=
    exists_run .nbgl [openEvent, txEvent, .user .advance, .user .approve]
      (fun trace d => decide (Always (Undisturbed .nbgl) trace) && trace.head?.any fun e : Entry =>
        e.output.contains (.sign d.gContext.bip32Path d.gContext.bip32PathLen txHash))
      (by decide +kernel)
  obtain ⟨hsteps, hsign⟩ := (Bool.and_eq_true _ _).mp htrace
  have hlaw := approved_is_signed (lawful (Or.inr rfl)) run (of_decide_eq_true hsteps)
  cases trace with
  | nil => cases hsign
  | cons e older =>
      have hsign := List.contains_iff_mem.mp hsign
      exact ⟨_, d, run, e, older, _, _, rfl, hsign, hlaw.1 _ _ _ hsign⟩

end BoilerplateApp
