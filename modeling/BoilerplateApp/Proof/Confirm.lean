import BoilerplateApp.Proof.Address
import BoilerplateApp.Proof.Session

/-!
# The address that is confirmed

`validate_pubkey` replies with whatever key is in the context when the user approves, and the context
shares its bytes with a transaction. A command that wipes it while an address is on screen replaces
the key, or leaves zeros there. As long as the last wipe asked for the path of the review, the key in
the reply is the one whose address was shown.
-/

namespace BoilerplateApp

open Transition Trace

namespace Trace

/-- A GET_PUBLIC_KEY that puts an address on screen. -/
def displays (e : Entry) : Bool := decide (Effect.startReview .confirmAddress ∈ e.output)

def lastDisplay (trace : List Entry) : Option Entry := trace.find? displays

/-- The path that a GET_PUBLIC_KEY carries. -/
def requestedPath (e : Entry) : Option (List UInt32) :=
  if requests e then (e.event.command.bind (·.data)).bind Command.carriedPath else none

/-- The user approves an address. -/
def approvesAddress (ui : Ui) (e : Entry) : Bool :=
  match e.event with
  | .apdu _ => false
  | .user action => decide (e.before.decides ui action = some (.confirmAddress, true))

theorem lastDisplay_of_displays {e : Entry} (h : displays e = true) (trace : List Entry) :
    lastDisplay (e :: trace) = some e := by
  simp [lastDisplay, h]

theorem lastDisplay_of_not_displays {e : Entry} (h : displays e = false) (trace : List Entry) :
    lastDisplay (e :: trace) = lastDisplay trace := by
  simp [lastDisplay, h]

end Trace

/-- The derivation, the hash and its initialization, of which the device's calls are functions. -/
structure Calls where
  derive : List UInt32 → UInt32 × PubkeyCtx
  keccakInit : UInt32
  hash : List UInt8 → UInt32 × Bytes 32

def Calls.Are (calls : Calls) (cx : Cx) : Prop :=
  cx.Computes calls.derive calls.keccakInit calls.hash

/-- What the address review that was last put on screen promises: the device holds the text of the
address of its key, or none. -/
structure Displayed (ui : Ui) (sdk : Sdk) (calls : Calls) (trace : List Entry) (d : Device)
    (path : List UInt32) : Prop where
  displayed : (lastDisplay trace).bind requestedPath = some path
  shown : ∃ address, (∀ cx, calls.Are cx →
      addressFromPubkey cx (calls.derive path).2.rawPublicKey = some address)
    ∧ (d.shownAddress ui = addressText sdk address ∨ d.shownAddress ui = [])

section Step

variable {ui : Ui} {sdk : Sdk} {calls : Calls} {cx : Cx} {d d' : Device} {effects : List Effect}
  {data : List UInt8} {path : List UInt32} {display : Bool}

theorem Calls.Are.addressFromPubkey_eq {cx' : Cx} (hcx : calls.Are cx) (hcx' : calls.Are cx')
    (key : Bytes pubkeyLen) : addressFromPubkey cx key = addressFromPubkey cx' key := by
  rw [addressFromPubkey, addressFromPubkey, hcx.keccakInit, hcx'.keccakInit, hcx.hash, hcx'.hash]

theorem Calls.Are.derive_of_path (hcx : calls.Are cx) (hread : sdk.ReadLaws)
    (hpath : sdk.PathLaws) {ctx₀ ctx : GlobalCtx}
    (hresult : readBip32Path sdk ctx₀ (.ofBytes data) = (true, ctx)) {error : UInt32}
    {pk : PubkeyCtx}
    (hderive : cx.bip32DeriveGetPubkey256 ctx.bip32Path ctx.bip32PathLen = (error, pk)) :
    ∃ path, Command.carriedPath data = some path ∧ calls.derive path = (error, pk) := by
  obtain ⟨hcarried, -, hmax⟩ := readBip32Path_ok hread hpath hresult
  exact ⟨_, hcarried, by rw [← hcx.derives _ _ hmax, hderive]⟩

theorem requests_pkInfo (hcx : calls.Are cx) (hread : sdk.ReadLaws) (hpath : sdk.PathLaws)
    (hcarried : Command.carriedPath data = some path)
    (h : Requests ui sdk cx d (.ofBytes data) display d' effects) :
    d'.gContext.pkInfo = (calls.derive path).2 := by
  have hkey : ∀ {ctx : GlobalCtx} {error : UInt32} {pk : PubkeyCtx},
      readBip32Path sdk (.fresh .confirmAddress) (.ofBytes data) = (true, ctx) →
      cx.bip32DeriveGetPubkey256 ctx.bip32Path ctx.bip32PathLen = (error, pk) →
      (d.keyed ctx pk).gContext.pkInfo = (calls.derive path).2 := by
    intro ctx error pk hresult hderive
    obtain ⟨path', hcarried', hpk⟩ := hcx.derive_of_path hread hpath hresult hderive
    obtain rfl := Option.some.inj (hcarried.symm.trans hcarried')
    rw [hpk, Device.keyed_pkInfo]
  cases h with
  | refused hresult =>
      have hok := readBip32Path_of_carriedPath hread hpath (.fresh .confirmAddress) hcarried
      rw [hresult] at hok
      cases hok
  | underivable hresult hderive | replied hresult hderive | pathFail hresult hderive =>
      exact hkey hresult hderive
  | addressFail hresult hderive =>
      rw [Device.setAddress_gContext]
      exact hkey hresult hderive
  | shown hresult hderive =>
      rw [Device.showing_gContext, Device.setAddress_gContext]
      exact hkey hresult hderive

theorem requests_shown (hcx : calls.Are cx) (hread : sdk.ReadLaws) (hpath : sdk.PathLaws)
    (h : Requests ui sdk cx d (.ofBytes data) display d' effects)
    (hdisplays : .startReview .confirmAddress ∈ effects) :
    ∃ path address, Command.carriedPath data = some path
      ∧ addressFromPubkey cx (calls.derive path).2.rawPublicKey = some address
      ∧ d'.shownAddress ui = addressText sdk address := by
  cases h with
  | shown hresult hderive _ _ haddress =>
      obtain ⟨path, hcarried, hpk⟩ := hcx.derive_of_path hread hpath hresult hderive
      exact ⟨path, _, hcarried, by rwa [hpk], by simp⟩
  | _ => simp at hdisplays

/-- Without a display, the address on screen stays or is erased. -/
theorem requests_not_shown {cdata : Buffer} (h : Requests ui sdk cx d cdata display d' effects)
    (hdisplays : .startReview .confirmAddress ∉ effects) :
    d'.shownAddress ui = d.shownAddress ui ∨ d'.shownAddress ui = [] := by
  cases h with
  | refused | underivable | replied | pathFail =>
      left
      cases ui <;> rfl
  | addressFail => exact Or.inr (by simp)
  | shown => simp at hdisplays

/-- What an entry that is no display leaves of an address review. -/
theorem happens_keeps_display {event : Event} (hscreen : OnScreen ui d)
    (hnext : Device.next ui sdk cx d event = some (d', effects))
    (hdisplays : .startReview .confirmAddress ∉ effects)
    (hreview : d'.screen.review = some .confirmAddress) :
    d.screen.review = some .confirmAddress
      ∧ (d'.shownAddress ui = d.shownAddress ui ∨ d'.shownAddress ui = []) := by
  refine ⟨(next_review hscreen hnext hreview).resolve_left hdisplays, ?_⟩
  cases next_happens hnext with
  | requested _ _ hrun => exact requests_not_shown (handlerGetPublicKey_requests hrun) hdisplays
  | reviewed =>
      rw [Device.reviewing, (onScreen_showing _ _).2] at hreview
      cases hreview
  | stored hstores | parsingFail hstores | hashFail hstores | amountFail hstores =>
      obtain ⟨_, _, rfl⟩ := hstores.frame
      left
      cases ui <;> rfl
  | decidedPubkey _ hvalidate =>
      obtain ⟨rfl, -⟩ := validatePubkey_spec hvalidate
      left
      cases ui <;> rfl
  | decidedTransaction _ hvalidate =>
      obtain ⟨⟨_, _, _, _, rfl, -⟩, -⟩ := validateTransaction_spec hvalidate
      left
      cases ui <;> rfl
  | _ =>
      left
      cases ui <;> rfl

theorem requests_of_displays {event : Event} (h : Happens ui sdk cx d event d' effects)
    (hdisplays : .startReview .confirmAddress ∈ effects) :
    requests ⟨d, event, d', effects⟩ = true := by
  cases h with
  | requested hcmd => exact decide_eq_true hcmd
  | decidedPubkey _ hvalidate =>
      obtain ⟨-, _, _, rfl⟩ := validatePubkey_spec hvalidate
      simp at hdisplays
  | @decidedTransaction _ choice _ _ _ hvalidate =>
      obtain ⟨-, _, _, rfl⟩ := validateTransaction_spec hvalidate
      cases choice <;> simp at hdisplays
  | _ => simp at hdisplays

theorem next_requests {event : Event} (hnext : Device.next ui sdk cx d event = some (d', effects))
    (hrequests : requests ⟨d, event, d', effects⟩ = true) :
    ∃ data display, requestedPath ⟨d, event, d', effects⟩ = Command.carriedPath data
      ∧ Requests ui sdk cx d (.ofBytes data) display d' effects := by
  rcases event with (_ | cmd) | _
  · cases hrequests
  · have hcmd : cmd.requestsKey := of_decide_eq_true hrequests
    obtain ⟨data, hdata⟩ := Option.ne_none_iff_exists'.mp hcmd.2.2.2.2
    refine ⟨data, decide (cmd.p1 ≠ 0), ?_, ?_⟩
    · rw [requestedPath, if_pos hrequests, Event.command, Option.bind_some, hdata,
        Option.bind_some]
    · rw [next_getPublicKey hcmd hdata, Command.buffer_eq hdata] at hnext
      exact handlerGetPublicKey_requests hnext
  · cases hrequests

end Step

/-! ### Runs -/

section Runs

variable {ui : Ui} {sdk : Sdk} {calls : Calls} (hread : sdk.ReadLaws) (hpath : sdk.PathLaws)
  {trace : List Entry} {d : Device}

include hread hpath

/-- While an address review is on screen, its address is, or none. -/
theorem displayed_of_review (run : Run (app ui sdk calls.Are) trace d)
    (hreview : d.screen.review = some .confirmAddress) :
    ∃ path, Displayed ui sdk calls trace d path := by
  induction run with
  | initial => cases hreview
  | @step trace e run step ih =>
      obtain ⟨cx, hcx, hnext⟩ := step
      cases hdisplays : displays e with
      | true =>
          have hstarts := of_decide_eq_true hdisplays
          obtain ⟨data, display, hasked, hrequests⟩ :=
            next_requests hnext (requests_of_displays (next_happens hnext) hstarts)
          obtain ⟨path, address, hcarried, haddress, hshown⟩ :=
            requests_shown hcx hread hpath hrequests hstarts
          refine ⟨path, ?_, address, ?_, Or.inl hshown⟩
          · rw [lastDisplay_of_displays hdisplays, Option.bind_some, ← hcarried]
            exact hasked
          · intro cx' hcx'
            rw [hcx'.addressFromPubkey_eq hcx, haddress]
      | false =>
          obtain ⟨hreview', hkept⟩ := happens_keeps_display (onScreen_of_run run) hnext
            (of_decide_eq_false hdisplays) hreview
          obtain ⟨path, hdisplayed, address, haddress, hshown⟩ := ih hreview'
          refine ⟨path, ?_, address, haddress, ?_⟩
          · rw [lastDisplay_of_not_displays hdisplays, hdisplayed]
          · rcases hkept with hsame | herased
            · rwa [hsame]
            · exact Or.inr herased

/-- Until the next wipe, the key in the context is that of the path last asked for. -/
theorem pkInfo_of_requestedPath (run : Run (app ui sdk calls.Are) trace d) {path : List UInt32}
    (hlast : (lastWipe trace).bind requestedPath = some path) :
    d.gContext.pkInfo = (calls.derive path).2 := by
  have hsame_pkInfo : ∀ {ctx ctx' : GlobalCtx}, SameSession ctx ctx' → ctx'.pkInfo = ctx.pkInfo := by
    intro ctx ctx' hsame
    simp only [GlobalCtx.pkInfo, hsame.rawTx]
  induction run with
  | initial => cases hlast
  | @step trace e run step ih =>
      cases step_progress step with
      | kept hwipes _ hsame =>
          rw [lastWipe_of_not_wipes hwipes] at hlast
          rw [hsame_pkInfo hsame, ih hlast]
      | opened hopens =>
          rw [lastWipe_of_wipes (wipes_of_opens hopens), Option.bind_some, requestedPath] at hlast
          split at hlast
          · next hrequests => rw [not_opens_of_requests hrequests] at hopens; cases hopens
          · cases hlast
      | requested hrequests =>
          rw [lastWipe_of_wipes (wipes_of_requests hrequests), Option.bind_some] at hlast
          obtain ⟨cx, hcx, hnext⟩ := step
          obtain ⟨data, display, hasked, hresult⟩ := next_requests hnext hrequests
          exact requests_pkInfo hcx hread hpath (hasked.symm.trans hlast) hresult
      | extended hwipes hstores =>
          -- chunks are stored in a session only
          rw [lastWipe_of_not_wipes hwipes] at hlast
          obtain ⟨w, hw, hopens⟩ := (reqType_iff run).mp hstores.reqType
          rw [hw, Option.bind_some, requestedPath] at hlast
          split at hlast
          · next hrequests => rw [not_opens_of_requests hrequests] at hopens; cases hopens
          · cases hlast

end Runs

/-- The approval replies with the key of the path that was displayed, and the address of this key is
on screen. -/
def ConfirmsShown (ui : Ui) (sdk : Sdk) (calls : Calls) (older : List Entry) (e : Entry) : Prop :=
  ∃ path address, (lastDisplay older).bind requestedPath = some path
    ∧ e.output = [.send swOk (keyReply (calls.derive path).2)]
    ∧ (∀ cx, calls.Are cx →
      addressFromPubkey cx (calls.derive path).2.rawPublicKey = some address)
    ∧ e.before.shownAddress ui = addressText sdk address

/-- The condition on an entry: when an address is approved, the command that wiped the context last
asked for the path that was displayed, and the address has not been erased. -/
def Untouched (ui : Ui) (older : List Entry) (e : Entry) : Prop :=
  approvesAddress ui e = true →
    (lastWipe older).bind requestedPath = (lastDisplay older).bind requestedPath
      ∧ e.before.shownAddress ui ≠ []

instance (ui : Ui) (older : List Entry) (e : Entry) : Decidable (Untouched ui older e) :=
  inferInstanceAs (Decidable (_ → _ ∧ _))

/-- **The confirmed address is the exported one**, in a run whose approvals are all untouched. -/
theorem address_confirmed {ui : Ui} {sdk : Sdk} {calls : Calls} (hread : sdk.ReadLaws)
    (hpath : sdk.PathLaws) {trace : List Entry} {d : Device}
    (run : Run (app ui sdk calls.Are) trace d) (hsteps : Always (Untouched ui) trace) :
    Always (fun older e => approvesAddress ui e = true → ConfirmsShown ui sdk calls older e)
      trace := by
  apply run.always _ hsteps
  intro older e run huntouched happroves
  obtain ⟨run', step, -⟩ := run.last
  obtain ⟨hasked, hshown⟩ := huntouched happroves
  obtain ⟨before, event, after, output⟩ := e
  cases event with
  | apdu parsed => cases happroves
  | user action =>
      have hdecides : before.decides ui action = some (.confirmAddress, true) :=
        of_decide_eq_true happroves
      have hreview := review_of_decides (onScreen_of_run run') hdecides
      obtain ⟨path, hdisplayed, address, haddress, htext⟩ :=
        displayed_of_review hread hpath run' hreview
      have hkey := pkInfo_of_requestedPath hread hpath run' (hasked.trans hdisplayed)
      obtain ⟨cx, hcx, hnext⟩ := step
      obtain ⟨d', hreply⟩ := next_approve_pubkey sdk cx hdecides
      obtain ⟨-, rfl⟩ := Prod.mk.inj (Option.some.inj (hreply.symm.trans hnext))
      exact ⟨path, address, hdisplayed, by rw [hkey], haddress, htext.resolve_right hshown⟩

namespace Reference

/-- What the calls of this device compute: one key for every path. -/
def functions : Calls where
  derive _ := (cxOk, ⟨List.Vector.replicate _ 4, zeros _⟩)
  keccakInit := cxOk
  hash message := (cxOk, keccak256 message)

theorem functions_are : functions.Are calls := ⟨fun _ _ _ => rfl, rfl, rfl⟩

end Reference

open Reference in
/-- A transaction session is opened while an address is on screen: the key that is confirmed is
zeros. -/
theorem not_address_confirmed :
    ¬∀ trace d, Run (app .bagl (sdk 64) functions.Are) trace d →
      Always (fun older e => approvesAddress .bagl e = true →
        ConfirmsShown .bagl (sdk 64) functions older e) trace := by
  intro h
  obtain ⟨trace, d, run, htrace⟩ := exists_run_of _ functions_are .bagl
    [displayEvent, openEvent, .user .approve]
    (fun trace _ => trace.head?.any fun e => approvesAddress .bagl e
      && decide (e.output = [.send swOk (keyReply ⟨zeros _, zeros _⟩)])) (by decide +kernel)
  cases trace with
  | nil => cases htrace
  | cons e older =>
      obtain ⟨happroves, houtput⟩ := (Bool.and_eq_true _ _).mp htrace
      obtain ⟨path, address, -, hconfirms, -⟩ := (h _ d run).1 happroves
      simp only [of_decide_eq_true houtput, functions, List.cons.injEq, Effect.send.injEq]
        at hconfirms
      exact absurd hconfirms.1.2 (by decide +kernel)

open Reference in
/-- The key is asked for once more, with the same path, while its address is on screen. -/
theorem address_confirmed_path :
    ∃ trace d, Run (app .nbgl (sdk 64) functions.Are) trace d
      ∧ ∃ e older, trace = e :: older ∧ ConfirmsShown .nbgl (sdk 64) functions older e := by
  obtain ⟨trace, d, run, htrace⟩ := exists_run_of _ functions_are .nbgl
    [displayEvent, .user .advance, keyEvent, .user .approve]
    (fun trace _ => decide (Always (Untouched .nbgl) trace)
      && trace.head?.any (approvesAddress .nbgl)) (by decide +kernel)
  obtain ⟨hsteps, happroves⟩ := (Bool.and_eq_true _ _).mp htrace
  have hlaw := address_confirmed (readLaws (Or.inr rfl)) (pathLaws 64) run
    (of_decide_eq_true hsteps)
  cases trace with
  | nil => cases happroves
  | cons e older => exact ⟨_, d, run, e, older, rfl, hlaw.1 happroves⟩

end BoilerplateApp
