import BoilerplateApp.Proof.Effects

/-!
# What is on screen

A review stays on screen until the user decides it, whatever the host sends: a command either leaves
the screen alone and replies, or starts a review and does not reply. A decision replies and takes
the review off the screen, and every other action of the user moves within it.
-/

namespace BoilerplateApp

open Transition

/-- The review a screen belongs to. -/
def Screen.review : Screen → Option RequestType
  | .menu | .status => none
  | .pubkeyFlow | .addressStart | .addressConfirmation => some .confirmAddress
  | .transactionFlow | .transactionStart | .transactionReview | .transactionRejection _ =>
      some .confirmTransaction

/-- The screens of the two interfaces: a BAGL flow has the callback of its request installed, and an
NBGL page asks for the confirmation of a rejection only over the pages of a transaction. -/
def Screen.BelongsTo (ui : Ui) (callback : Option ActionValidateCb) : Screen → Prop
  | .menu | .status => True
  | .pubkeyFlow => ui = .bagl ∧ callback = some .uiActionValidatePubkey
  | .transactionFlow => ui = .bagl ∧ callback = some .uiActionValidateTransaction
  | .addressStart | .addressConfirmation | .transactionStart | .transactionReview => ui = .nbgl
  | .transactionRejection under =>
      ui = .nbgl ∧ (under = .transactionStart ∨ under = .transactionReview)

def OnScreen (ui : Ui) (d : Device) : Prop := d.screen.BelongsTo ui d.gValidateCallback

section Step

variable {ui : Ui} {sdk : Sdk} {cx : Cx} {d d' : Device} {effects : List Effect}
  {action : UserAction}

theorem onScreen_closed {screen : Screen} (hscreen : screen = .menu ∨ screen = .status) :
    OnScreen ui { d with screen := screen } ∧ screen.review = none := by
  rcases hscreen with rfl | rfl <;> exact ⟨trivial, rfl⟩

theorem onScreen_showing (d : Device) (request : RequestType) :
    OnScreen ui (d.showing ui request) ∧ (d.showing ui request).screen.review = some request := by
  cases ui <;> cases request <;> simp [OnScreen, Device.showing, Screen.BelongsTo, Screen.review]

theorem OnScreen.of_same (h : OnScreen ui d) (hscreen : d'.screen = d.screen)
    (hcallback : d'.gValidateCallback = d.gValidateCallback) : OnScreen ui d' := by
  rwa [OnScreen, hscreen, hcallback]

/-! ### The user -/

theorem review_of_decides (hscreen : OnScreen ui d) {request : RequestType} {choice : Bool}
    (h : d.decides ui action = some (request, choice)) : d.screen.review = some request := by
  obtain ⟨ctx, callback, amount, address, addressPubkey, screen⟩ := d
  cases ui with
  | bagl =>
      cases screen with
      | pubkeyFlow | transactionFlow =>
          obtain rfl : callback = _ := hscreen.2
          cases action <;> cases h <;> rfl
      | _ => cases action <;> cases h
  | nbgl => cases screen <;> cases action <;> cases h <;> rfl

/-- What the user does without deciding changes the screen only, and stays in the review. -/
theorem userAct_undecided (hscreen : OnScreen ui d) (hdecides : d.decides ui action = none)
    (h : userAct ui cx d action = some (d', effects)) :
    ∃ screen : Screen, d' = { d with screen := screen } ∧ effects = []
      ∧ OnScreen ui d' ∧ screen.review = d.screen.review := by
  have hpage : ∀ screen : Screen, some ({ d with screen := screen }, []) = some (d', effects) →
      screen.BelongsTo ui d.gValidateCallback → screen.review = d.screen.review →
      ∃ screen : Screen, d' = { d with screen := screen } ∧ effects = []
        ∧ OnScreen ui d' ∧ screen.review = d.screen.review := by
    intro screen heq hbelongs hreview
    obtain ⟨rfl, rfl⟩ := Prod.mk.inj (Option.some.inj heq)
    exact ⟨screen, rfl, rfl, hbelongs, hreview⟩
  obtain ⟨ctx, callback, amount, address, addressPubkey, screen⟩ := d
  cases ui with
  | bagl =>
      cases screen with
      | pubkeyFlow | transactionFlow =>
          obtain rfl : callback = _ := hscreen.2
          cases action <;> first | exact hpage _ h hscreen rfl | cases hdecides
      | _ => exact hpage _ h hscreen rfl
  | nbgl =>
      cases screen with
      | transactionRejection under =>
          rcases hscreen.2 with rfl | rfl <;> cases action <;>
            first | exact hpage _ h hscreen rfl | exact hpage _ h rfl rfl | cases hdecides
      | _ =>
          cases action <;>
            first
            | exact hpage _ h hscreen rfl
            | exact hpage _ h rfl rfl
            | exact hpage _ h ⟨rfl, Or.inl rfl⟩ rfl
            | exact hpage _ h ⟨rfl, Or.inr rfl⟩ rfl
            | exact hpage _ h trivial rfl
            | cases hdecides

/-- A decision replies once and takes the review off the screen. -/
theorem userAct_decided {request : RequestType} {choice : Bool}
    (hdecides : d.decides ui action = some (request, choice))
    (h : Device.next ui sdk cx d (.user action) = some (d', effects)) :
    OnScreen ui d' ∧ d'.screen.review = none ∧ (answers effects).length = 1 := by
  cases next_happens h with
  | moved hnone => cases hdecides.symm.trans hnone
  | decidedPubkey _ hvalidate screen hscreen =>
      obtain ⟨-, sw, data, rfl⟩ := validatePubkey_spec hvalidate
      obtain ⟨hclosed, hreview⟩ := onScreen_closed hscreen
      exact ⟨hclosed, hreview, rfl⟩
  | @decidedTransaction _ choice _ _ _ hvalidate screen hscreen =>
      obtain ⟨-, sw, data, rfl⟩ := validateTransaction_spec hvalidate
      obtain ⟨hclosed, hreview⟩ := onScreen_closed hscreen
      refine ⟨hclosed, hreview, ?_⟩
      cases choice <;> rfl

/-- The user touches the screen without deciding anything. -/
def Undecided (ui : Ui) (sdk : Sdk) (d : Device) (moves : List (Cx × UserAction)) (d' : Device) :
    Prop :=
  ∃ outputs, respond (Device.answer ui sdk) d (moves.map fun move => (move.1, .user move.2))
      = some (d', outputs)
    ∧ ∀ effects ∈ outputs, effects = []

theorem Undecided.gContext_eq {moves : List (Cx × UserAction)} (h : Undecided ui sdk d moves d') :
    d'.gContext = d.gContext := by
  obtain ⟨outputs, hrespond, houtputs⟩ := h
  refine respond_keeps (fun s => s.gContext = d.gContext) (· = []) ?_ hrespond houtputs rfl
  rintro s ⟨cx, event⟩ s' _ hmem hs hnext rfl
  obtain ⟨⟨_, action⟩, -, heq⟩ := List.mem_map.mp hmem
  obtain ⟨rfl, rfl⟩ := Prod.mk.inj heq
  rw [← hs]
  cases next_happens hnext with
  | moved => rfl
  | decidedPubkey _ hvalidate =>
      obtain ⟨-, _, _, heffects⟩ := validatePubkey_spec hvalidate
      cases heffects
  | decidedTransaction _ hvalidate =>
      obtain ⟨-, _, _, heffects⟩ := validateTransaction_spec hvalidate
      simp at heffects

/-! ### The host -/

/-- A command either replies and leaves the screen alone, or starts a review. -/
inductive Dispatched (ui : Ui) (d : Device) : Device → List Effect → Prop
  | replied {d' : Device} (hscreen : d'.screen = d.screen)
      (hcallback : d'.gValidateCallback = d.gValidateCallback) (sw : UInt16) (data : List UInt8) :
      Dispatched ui d d' [.send sw data]
  | reviewing (d₀ : Device) (request : RequestType) :
      Dispatched ui d (d₀.showing ui request) [.startReview request]

theorem requests_dispatched {cdata : Buffer} {display : Bool}
    (h : Requests ui sdk cx d cdata display d' effects) : Dispatched ui d d' effects := by
  cases h with
  | refused | underivable | replied | pathFail => apply Dispatched.replied <;> rfl
  | addressFail => exact .replied (by simp) (by simp) _ _
  | shown => exact .reviewing _ _

theorem happens_dispatched {parsed : Option Command}
    (h : Happens ui sdk cx d (.apdu parsed) d' effects) : Dispatched ui d d' effects := by
  cases h with
  | outside | opened | badState | wrongTxLength | unmoved => apply Dispatched.replied <;> rfl
  | requested _ _ hrun => exact requests_dispatched (handlerGetPublicKey_requests hrun)
  | stored hstores | parsingFail hstores | hashFail hstores | amountFail hstores =>
      obtain ⟨_, _, rfl⟩ := hstores.frame
      apply Dispatched.replied <;> rfl
  | reviewed => exact .reviewing _ _

theorem Dispatched.onScreen (h : Dispatched ui d d' effects) (hscreen : OnScreen ui d) :
    OnScreen ui d' := by
  cases h with
  | replied hsame hcallback => exact hscreen.of_same hsame hcallback
  | reviewing d₀ request => exact (onScreen_showing d₀ request).1

/-- A review that is on screen after an event was there before, or starts. -/
theorem next_review {request : RequestType} {event : Event} (hscreen : OnScreen ui d)
    (hnext : Device.next ui sdk cx d event = some (d', effects))
    (hreview : d'.screen.review = some request) :
    .startReview request ∈ effects ∨ d.screen.review = some request := by
  cases event with
  | user action =>
      right
      cases hdecides : d.decides ui action with
      | none =>
          obtain ⟨screen, rfl, -, -, hsame⟩ := userAct_undecided hscreen hdecides hnext
          exact hsame.symm.trans hreview
      | some decision =>
          obtain ⟨-, hclosed, -⟩ := userAct_decided hdecides hnext
          rw [hclosed] at hreview
          cases hreview
  | apdu parsed =>
      cases happens_dispatched (next_happens hnext) with
      | replied hsame =>
          rw [hsame] at hreview
          exact Or.inr hreview
      | reviewing d₀ request' =>
          rw [(onScreen_showing d₀ request').2] at hreview
          obtain rfl := Option.some.inj hreview
          exact Or.inl List.mem_cons_self

end Step

/-! ### Runs -/

section Runs

variable {ui : Ui} {sdk : Sdk} {calls : Cx → Prop} {trace : List Entry} {d : Device}

theorem onScreen_step {cx : Cx} {d' : Device} {event : Event} {effects : List Effect}
    (hscreen : OnScreen ui d) (h : Device.next ui sdk cx d event = some (d', effects)) :
    OnScreen ui d' := by
  cases event with
  | apdu parsed => exact (happens_dispatched (next_happens h)).onScreen hscreen
  | user action =>
      cases hdecides : d.decides ui action with
      | none =>
          obtain ⟨_, -, -, hscreen', -⟩ := userAct_undecided hscreen hdecides h
          exact hscreen'
      | some decision => exact (userAct_decided hdecides h).1

/-- In every state of every run, what is on screen belongs to the interface and its callback. -/
theorem onScreen_of_run (run : Run (app ui sdk calls) trace d) : OnScreen ui d := by
  apply run.tracks fun _ d => OnScreen ui d
  · exact trivial
  · rintro _ e hscreen ⟨cx, -, hnext⟩
    exact onScreen_step hscreen hnext

end Runs

end BoilerplateApp
