import BoilerplateApp.Proof.Interfaces

/-!
# Reviews are decided once

A decision takes its review off the screen, and only a new review puts one there again. So over any
stretch of a run there are no more decisions than reviews, and no more signatures than decisions. On
NBGL no decision about a transaction is the first touch of its review.
-/

namespace BoilerplateApp

open Transition

def Effect.isSign : Effect → Bool
  | .sign _ _ _ => true
  | .send _ _ | .startReview _ => false

def Effect.isReview : Effect → Bool
  | .startReview _ => true
  | _ => false

namespace Trace

def effects (trace : List Entry) : List Effect := trace.flatMap (·.output)

def reviewCount (request : RequestType) (trace : List Entry) : Nat :=
  (effects trace).count (.startReview request)

def signCount (trace : List Entry) : Nat := (effects trace).countP Effect.isSign

/-- The user decides a review of the request. -/
def decidesOn (ui : Ui) (request : RequestType) (e : Entry) : Bool :=
  match e.event with
  | .apdu _ => false
  | .user action => (e.before.decides ui action).any fun decision => decide (decision.1 = request)

def decisionCount (ui : Ui) (request : RequestType) (trace : List Entry) : Nat :=
  trace.countP (decidesOn ui request)

/-- The user approves a transaction. -/
def approves (ui : Ui) (e : Entry) : Bool := decide (decision ui e = some true)

def approvalCount (ui : Ui) (trace : List Entry) : Nat := trace.countP (approves ui)

end Trace

open Trace

/-- The reviews of the request that wait for a decision. -/
def Device.pending (d : Device) (request : RequestType) : Nat :=
  if d.screen.review = some request then 1 else 0

section Counts

variable {ui : Ui} {e : Entry} {trace : List Entry} {request : RequestType} {d : Device}

theorem reviewCount_cons : reviewCount request (e :: trace)
    = e.output.count (.startReview request) + reviewCount request trace :=
  List.count_append

theorem signCount_cons : signCount (e :: trace) = e.output.countP Effect.isSign + signCount trace :=
  List.countP_append

theorem decisionCount_cons : decisionCount ui request (e :: trace)
    = decisionCount ui request trace + if decidesOn ui request e then 1 else 0 :=
  List.countP_cons

theorem approvalCount_cons :
    approvalCount ui (e :: trace) = approvalCount ui trace + if approves ui e then 1 else 0 :=
  List.countP_cons

theorem pending_of_review (h : d.screen.review = some request) (request' : RequestType) :
    d.pending request' = if request = request' then 1 else 0 := by
  simp [Device.pending, h]

theorem pending_of_closed (h : d.screen.review = none) (request : RequestType) :
    d.pending request = 0 := by
  simp [Device.pending, h]

end Counts

section Step

variable {ui : Ui} {sdk : Sdk} {calls : Cx → Prop} {e : Entry}

/-- A decision has a review behind it, and an event that leaves one more on screen started it. -/
theorem decision_step (hscreen : OnScreen ui e.before)
    (hstep : (app ui sdk calls).Step e.before e.event e.after e.output) (request : RequestType) :
    (if decidesOn ui request e then 1 else 0) + e.after.pending request
      ≤ e.output.count (.startReview request) + e.before.pending request := by
  obtain ⟨before, event, after, output⟩ := e
  obtain ⟨cx, -, hnext⟩ := hstep
  dsimp only at hscreen hnext ⊢
  cases event with
  | apdu parsed =>
      have hnot : decidesOn ui request ⟨before, .apdu parsed, after, output⟩ = false := rfl
      rw [hnot, if_neg Bool.false_ne_true, Nat.zero_add]
      cases happens_dispatched (next_happens hnext) with
      | replied hsame =>
          simp only [Device.pending, hsame]
          omega
      | reviewing d₀ request' =>
          rw [pending_of_review (onScreen_showing d₀ request').2]
          by_cases hrequest : request' = request
          · subst hrequest
            simp
          · rw [if_neg hrequest]
            omega
  | user action =>
      cases hdecides : before.decides ui action with
      | none =>
          obtain ⟨screen, rfl, rfl, -, hreview⟩ := userAct_undecided hscreen hdecides hnext
          simp [decidesOn, hdecides, Device.pending, hreview]
      | some decision =>
          obtain ⟨request', choice⟩ := decision
          obtain ⟨-, hclosed, -⟩ := userAct_decided hdecides hnext
          rw [pending_of_closed hclosed, pending_of_review (review_of_decides hscreen hdecides)]
          simp [decidesOn, hdecides]

theorem sign_step (hstep : (app ui sdk calls).Step e.before e.event e.after e.output) :
    e.output.countP Effect.isSign ≤ if approves ui e then 1 else 0 := by
  obtain ⟨before, event, after, output⟩ := e
  obtain ⟨cx, -, hnext⟩ := hstep
  dsimp only at hnext ⊢
  cases event with
  | apdu parsed =>
      cases happens_dispatched (next_happens hnext) <;> simp [Effect.isSign]
  | user action =>
      cases next_happens hnext with
      | moved => simp
      | decidedPubkey _ hvalidate =>
          obtain ⟨-, sw, data, rfl⟩ := validatePubkey_spec hvalidate
          simp [Effect.isSign]
      | @decidedTransaction _ choice hdecides _ _ hvalidate =>
          obtain ⟨-, sw, data, rfl⟩ := validateTransaction_spec hvalidate
          cases choice <;> simp [approves, decision, hdecides, Effect.isSign, List.countP_cons]

theorem approves_step (ui : Ui) (e : Entry) : (if approves ui e then 1 else 0)
    ≤ if decidesOn ui .confirmTransaction e then 1 else 0 := by
  obtain ⟨before, event, after, output⟩ := e
  cases event with
  | apdu parsed => simp [approves, decision]
  | user action =>
      cases hdecides : before.decides ui action with
      | none => simp [approves, decision, hdecides]
      | some result =>
          obtain ⟨request, choice⟩ := result
          cases request with
          | confirmAddress => simp [approves, decision, hdecides]
          | confirmTransaction => cases choice <;> simp [approves, decidesOn, decision, hdecides]

end Step

section Runs

variable {ui : Ui} {sdk : Sdk} {calls : Cx → Prop} {older newer : List Entry} {d₀ d : Device}

theorem decisions_le_reviews (hscreen : OnScreen ui d₀) (steps : Steps (app ui sdk calls) d₀ newer d)
    (request : RequestType) :
    decisionCount ui request newer + d.pending request
      ≤ reviewCount request newer + d₀.pending request := by
  suffices h : OnScreen ui d ∧ decisionCount ui request newer + d.pending request
      ≤ reviewCount request newer + d₀.pending request from h.2
  induction steps with
  | refl => exact ⟨hscreen, Nat.le_refl _⟩
  | step e _ hstep ih =>
      obtain ⟨hscreen', hcount⟩ := ih
      have hone := decision_step hscreen' hstep request
      obtain ⟨cx, -, hnext⟩ := hstep
      refine ⟨onScreen_step hscreen' hnext, ?_⟩
      rw [decisionCount_cons, reviewCount_cons]
      omega

theorem signatures_le_approvals (steps : Steps (app ui sdk calls) d₀ newer d) :
    signCount newer ≤ approvalCount ui newer
      ∧ approvalCount ui newer ≤ decisionCount ui .confirmTransaction newer := by
  induction steps with
  | refl => exact ⟨Nat.le_refl _, Nat.le_refl _⟩
  | step e _ hstep ih =>
      have hsign := sign_step hstep
      have happrove := approves_step ui e
      rw [signCount_cons, approvalCount_cons, decisionCount_cons]
      omega

/-- **No review is used twice.** Over any stretch of a run, whatever the system calls return and
however commands and touches are mixed, there are at most as many decisions about a kind of request
as reviews of it were started, with the one that was on screen at the beginning, and one less if one
is still on screen. There are at most as many signatures as approvals of transactions, and approvals
are decisions. -/
theorem signatures_le_reviews (run : Run (app ui sdk calls) older d₀)
    (steps : Steps (app ui sdk calls) d₀ newer d) :
    (∀ request, decisionCount ui request newer + d.pending request
      ≤ reviewCount request newer + d₀.pending request)
      ∧ signCount newer ≤ approvalCount ui newer
      ∧ approvalCount ui newer ≤ decisionCount ui .confirmTransaction newer :=
  ⟨decisions_le_reviews (onScreen_of_run run) steps, signatures_le_approvals steps⟩

end Runs

open Reference in
/-- A transaction that is denied, and one that is signed. -/
theorem signatures_le_reviews_two :
    ∃ trace d, Run (app .nbgl (sdk 64) (Cx.Hashes keccak256)) trace d
      ∧ signCount trace = 1 ∧ reviewCount .confirmTransaction trace = 2
      ∧ signCount trace ≤ approvalCount .nbgl trace
      ∧ decisionCount .nbgl .confirmTransaction trace ≤ reviewCount .confirmTransaction trace := by
  obtain ⟨trace, d, run, htrace⟩ := exists_run .nbgl
    [openEvent, txEvent, .user .reject, .user .confirmRejection, openEvent, txEvent, .user .advance,
      .user .approve]
    (fun trace _ => decide (signCount trace = 1 ∧ reviewCount .confirmTransaction trace = 2))
    (by decide +kernel)
  obtain ⟨hsigns, hreviews⟩ := of_decide_eq_true htrace
  obtain ⟨hdecisions, happrovals, -⟩ := signatures_le_reviews .initial run.steps
  have hcount := hdecisions .confirmTransaction
  have hboot : Device.boot.pending .confirmTransaction = 0 := rfl
  refine ⟨trace, d, run, hsigns, hreviews, happrovals, ?_⟩
  change _ ≤ _ + Device.boot.pending .confirmTransaction at hcount
  omega

/-! ### Touches on NBGL -/

namespace Trace

/-- The run since the start of the last review. -/
def sinceStart (trace : List Entry) : List Entry :=
  trace.takeWhile fun e => !e.output.any Effect.isReview

/-- The user has touched a page of a transaction since its review was started. -/
def Touched (action : UserAction) (trace : List Entry) : Prop :=
  ∃ e ∈ sinceStart trace, e.event = .user action
    ∧ e.before.screen.review = some .confirmTransaction

/-- What was touched on the way to a page. -/
def Passed (trace : List Entry) : Screen → Prop
  | .transactionReview => Touched .advance trace
  | .transactionRejection under =>
      Touched .reject trace ∧ (under = .transactionReview → Touched .advance trace)
  | _ => True

end Trace

section Touches

variable {sdk : Sdk} {calls : Cx → Prop} {e : Entry} {trace : List Entry} {action : UserAction}
  {screen : Screen} {d : Device}

theorem sinceStart_cons (hsilent : e.output.any Effect.isReview = false) :
    sinceStart (e :: trace) = e :: sinceStart trace := by
  simp [sinceStart, hsilent]

theorem touched_cons (h : Touched action trace) (hsilent : e.output.any Effect.isReview = false) :
    Touched action (e :: trace) := by
  obtain ⟨x, hx, hevent, hreview⟩ := h
  refine ⟨x, ?_, hevent, hreview⟩
  rw [sinceStart_cons hsilent]
  exact List.mem_cons_of_mem e hx

theorem touched_head (hsilent : e.output.any Effect.isReview = false)
    (hevent : e.event = .user action)
    (hreview : e.before.screen.review = some .confirmTransaction) : Touched action (e :: trace) := by
  refine ⟨e, ?_, hevent, hreview⟩
  rw [sinceStart_cons hsilent]
  exact List.mem_cons_self

theorem passed_cons (h : Passed trace screen) (hsilent : e.output.any Effect.isReview = false) :
    Passed (e :: trace) screen := by
  cases screen with
  | transactionReview => exact touched_cons h hsilent
  | transactionRejection under =>
      exact ⟨touched_cons h.1 hsilent, fun hunder => touched_cons (h.2 hunder) hsilent⟩
  | _ => trivial

theorem passed_closed (hclosed : screen.review = none) : Passed trace screen := by
  cases screen with
  | transactionReview | transactionRejection => cases hclosed
  | _ => trivial

/-- A touch that does not decide turns a page, and remembers the pages of the review. -/
theorem passed_touch {cx : Cx} {before after : Device} {output : List Effect}
    (hscreen : OnScreen .nbgl before) (hpassed : Passed trace before.screen)
    (hdecides : before.decides .nbgl action = none)
    (hnext : Device.next .nbgl sdk cx before (.user action) = some (after, output)) :
    Passed (⟨before, .user action, after, output⟩ :: trace) after.screen := by
  obtain ⟨screen, rfl, rfl, -, -⟩ := userAct_undecided hscreen hdecides hnext
  have hsame : ∀ e : Entry, e.output = [] → e.before.screen = before.screen →
      Passed (e :: trace) e.before.screen := by
    intro e houtput hbefore
    rw [hbefore]
    exact passed_cons hpassed (by rw [houtput]; rfl)
  obtain ⟨ctx, callback, amount, address, addressPubkey, page⟩ := before
  cases page with
  | transactionStart =>
      cases action with
      | advance =>
          cases hnext
          exact touched_head rfl rfl rfl
      | reject =>
          cases hnext
          exact ⟨touched_head rfl rfl rfl, nofun⟩
      | _ =>
          cases hnext
          exact hsame _ rfl rfl
  | transactionReview =>
      cases action with
      | approve => cases hdecides
      | reject =>
          cases hnext
          exact ⟨touched_head rfl rfl rfl, fun _ => touched_cons hpassed rfl⟩
      | _ =>
          cases hnext
          exact hsame _ rfl rfl
  | transactionRejection under =>
      cases action with
      | confirmRejection => cases hdecides
      | cancelRejection =>
          cases hnext
          rcases hscreen.2 with rfl | rfl
          · trivial
          · exact touched_cons (hpassed.2 rfl) rfl
      | _ =>
          cases hnext
          exact hsame _ rfl rfl
  | _ => cases action <;> cases hnext <;> trivial

theorem passed_of_run (run : Run (app .nbgl sdk calls) trace d) : Passed trace d.screen := by
  suffices h : OnScreen .nbgl d ∧ Passed trace d.screen from h.2
  apply run.tracks fun trace d => OnScreen .nbgl d ∧ Passed trace d.screen
  · exact ⟨trivial, trivial⟩
  rintro trace ⟨before, event, after, output⟩ ⟨hscreen, hpassed⟩ ⟨cx, -, hnext⟩
  dsimp only at hscreen hpassed hnext ⊢
  refine ⟨onScreen_step hscreen hnext, ?_⟩
  cases event with
  | apdu parsed =>
      cases happens_dispatched (next_happens hnext) with
      | replied hsame =>
          rw [hsame]
          exact passed_cons hpassed rfl
      | reviewing d₀ request => cases request <;> trivial
  | user action =>
      cases hdecides : before.decides .nbgl action with
      | none => exact passed_touch hscreen hpassed hdecides hnext
      | some decision => exact passed_closed (userAct_decided hdecides hnext).2.1

/-- **On NBGL one touch decides nothing about a transaction.** Whenever the user approves or denies
a transaction, there was another touch on it since its review started: the page was turned before an
approval, and the rejection asked for before it was confirmed. -/
theorem decision_touched (run : Run (app .nbgl sdk calls) (e :: trace) d) {choice : Bool}
    (hdecision : decision .nbgl e = some choice) :
    Touched (if choice then .advance else .reject) trace := by
  have hpassed := passed_of_run run.last.1
  obtain ⟨⟨ctx, callback, amount, address, addressPubkey, page⟩, event, after, output⟩ := e
  cases event with
  | apdu parsed => cases hdecision
  | user action =>
      cases page with
      | transactionReview =>
          cases action with
          | approve =>
              cases hdecision
              exact hpassed
          | _ => cases hdecision
      | transactionRejection =>
          cases action with
          | confirmRejection =>
              cases hdecision
              exact hpassed.1
          | _ => cases hdecision
      | _ => cases action <;> cases hdecision

end Touches

open Reference in
/-- An approval after the question whether to reject was taken back. -/
theorem decision_touched_back :
    ∃ trace d, Run (app .nbgl (sdk 64) (Cx.Hashes keccak256)) trace d
      ∧ (∃ e older, trace = e :: older ∧ approves .nbgl e = true ∧ Touched .advance older) := by
  obtain ⟨trace, d, run, htrace⟩ := exists_run .nbgl
    [openEvent, txEvent, .user .reject, .user .cancelRejection, .user .advance, .user .approve]
    (fun trace _ => trace.head?.any (approves .nbgl)) (by decide +kernel)
  cases trace with
  | nil => cases htrace
  | cons e older =>
      exact ⟨_, d, run, e, older, rfl, htrace, decision_touched run (of_decide_eq_true htrace)⟩

end BoilerplateApp
