import BoilerplateApp.Proof.Confirm

/-!
# Runs that record the system calls

In a run of `app` the system calls of each event are among those that the device can make. Here an
event comes with its calls, which may return anything and something else each time, so that a
property of a run can say what they returned.
-/

namespace BoilerplateApp

open Transition Trace

def recorded (ui : Ui) (sdk : Sdk) : System Device (Cx × Event) (List Effect) where
  initial := Device.boot
  Step d call d' effects := Device.answer ui sdk d call = some (d', effects)

abbrev Call := Transition.Entry Device (Cx × Event) (List Effect)

/-! ### What the calls of an event return -/

section Returns

variable (sdk : Sdk) (cx : Cx)

/-- The path in the data of a command, if it is read. -/
def readPath (request : RequestType) (cmd : Command) :
    Option (List.Vector UInt32 maxBip32Path × UInt8) :=
  match cmd.data with
  | none => none
  | some data =>
      let (ok, ctx) := readBip32Path sdk (.fresh request) ⟨data, cmd.lc.toNat, 0⟩
      if ok then some (ctx.bip32Path, ctx.bip32PathLen) else none

/-- What the derivation of a GET_PUBLIC_KEY returns, if its path is read. -/
def derivation (event : Event) : Option (UInt32 × PubkeyCtx) :=
  match event.command with
  | none => none
  | some cmd =>
      if cmd.requestsKey then
        (readPath sdk .confirmAddress cmd).map fun (path, len) =>
          cx.bip32DeriveGetPubkey256 path len
      else none

/-- The path of a SIGN_TX with P1 = 0, if it is read. -/
def openedPath (event : Event) : Option (List.Vector UInt32 maxBip32Path × UInt8) :=
  match event.command with
  | none => none
  | some cmd => if cmd.opensSession then readPath sdk .confirmTransaction cmd else none

/-- What signing the hash in the context returns. -/
def signing (d : Device) : SignResult :=
  cx.bip32DeriveEcdsaSignHash256 d.gContext.bip32Path d.gContext.bip32PathLen
    d.gContext.txInfo.mHash

end Returns

/-- The request that the user approves. -/
def approved (ui : Ui) (d : Device) : Event → Option RequestType
  | .apdu _ => none
  | .user action =>
      match d.decides ui action with
      | some (request, true) => some request
      | _ => none

/-- A last chunk that completes a message: it is stored, and all the bytes received are parsed and
hashed. The hash is then in the context. -/
inductive Completes (sdk : Sdk) (e : Call) : Prop
  | intro {cmd : Command} {data : List UInt8} {d₁ : Device} {buf : Buffer} {tx : Transaction}
      (hevent : e.event.2 = .apdu (some cmd)) (hstores : Stores sdk e.before cmd data d₁)
      (hlast : cmd.p2 = p2Last) (hparse : d₁.deserialized sdk = some (.parsingOk, buf, tx))
      (hinit : e.event.1.cxKeccakInitNoThrow = cxOk)
      (hhash : d₁.hashed e.event.1 = (cxOk, e.after.gContext.txInfo.mHash))

section Read

variable {sdk : Sdk} {cx : Cx} {cmd : Command} {data : List UInt8} {ok : Bool} {ctx : GlobalCtx}

theorem readPath_eq {request : RequestType} (hdata : cmd.data = some data)
    (hpath : readBip32Path sdk (.fresh request) ⟨data, cmd.lc.toNat, 0⟩ = (ok, ctx)) :
    readPath sdk request cmd = if ok then some (ctx.bip32Path, ctx.bip32PathLen) else none := by
  simp [readPath, hdata, hpath]

theorem derivation_of_not_requests (h : ¬cmd.requestsKey) :
    derivation sdk cx (.apdu (some cmd)) = none := by
  simp [derivation, Event.command, h]

theorem derivation_of_requests (hcmd : cmd.requestsKey) (hdata : cmd.data = some data)
    (hpath : readBip32Path sdk (.fresh .confirmAddress) ⟨data, cmd.lc.toNat, 0⟩ = (ok, ctx)) :
    derivation sdk cx (.apdu (some cmd)) = if ok then
      some (cx.bip32DeriveGetPubkey256 ctx.bip32Path ctx.bip32PathLen) else none := by
  cases ok <;> simp [derivation, Event.command, hcmd, readPath_eq hdata hpath]

theorem openedPath_of_not_opens (h : ¬cmd.opensSession) :
    openedPath sdk (.apdu (some cmd)) = none := by
  simp [openedPath, Event.command, h]

theorem openedPath_of_opens (hcmd : cmd.opensSession) (hdata : cmd.data = some data)
    (hpath : readBip32Path sdk (.fresh .confirmTransaction) ⟨data, cmd.lc.toNat, 0⟩ = (ok, ctx)) :
    openedPath sdk (.apdu (some cmd))
      = if ok then some (ctx.bip32Path, ctx.bip32PathLen) else none := by
  simp [openedPath, Event.command, hcmd, readPath_eq hdata hpath]

end Read

/-! ### What was requested last -/

namespace Call

def entry (e : Call) : Entry := e.mapEvent Prod.snd

/-- The GET_PUBLIC_KEY that put an address on screen last. -/
def lastDisplay (trace : List Call) : Option Call :=
  trace.find? fun e => displays (entry e)

/-- The run up to and including the start of the last transaction review. -/
def lastReview (trace : List Call) : List Call :=
  trace.dropWhile fun e => !reviews (entry e)

def lastWipe (trace : List Call) : Option Call := trace.find? fun e => wipes (entry e)

/-- The path of the current session, if its opening command carried one. -/
def sessionPath (sdk : Sdk) (trace : List Call) :
    Option (List.Vector UInt32 maxBip32Path × UInt8) :=
  (lastWipe trace).bind fun w => openedPath sdk w.event.2

end Call

/-! ### Runs -/

section Runs

variable {ui : Ui} {sdk : Sdk} {trace : List Call} {d : Device}

/-- Without its calls, a recorded run is one of the application on a device that can return
anything. -/
theorem app_of_recorded (run : Run (recorded ui sdk) trace d) :
    Run (app ui sdk fun _ => True) (trace.map Call.entry) d :=
  run.mapEvent rfl fun _ call _ _ hnext => ⟨call.1, trivial, hnext⟩

theorem onScreen_recorded (run : Run (recorded ui sdk) trace d) : OnScreen ui d :=
  onScreen_of_run (app_of_recorded run)

end Runs

/-! ### What a review was started by -/

section Reviews

variable {ui : Ui} {sdk : Sdk} {cx : Cx} {d d' : Device} {effects : List Effect} {e : Call}
  {older trace : List Call} {request : RequestType}

/-- A review that is on screen was started in the run. -/
theorem exists_review (run : Run (recorded ui sdk) trace d)
    (hreview : d.screen.review = some request) : ∃ r ∈ trace, .startReview request ∈ r.output := by
  induction run with
  | initial => cases hreview
  | step e run step ih =>
      rcases next_review (onScreen_recorded run) step hreview with hstarts | hbefore
      · exact ⟨e, List.mem_cons_self, hstarts⟩
      · obtain ⟨r, hmem, hstarts⟩ := ih hbefore
        exact ⟨r, List.mem_cons_of_mem _ hmem, hstarts⟩

theorem exists_lastDisplay (run : Run (recorded ui sdk) trace d)
    (hreview : d.screen.review = some .confirmAddress) :
    ∃ r, Call.lastDisplay trace = some r := by
  obtain ⟨r, hmem, hstarts⟩ := exists_review run hreview
  exact Option.isSome_iff_exists.mp
    (List.find?_isSome.mpr ⟨r, hmem, decide_eq_true hstarts⟩)

theorem exists_lastReview (run : Run (recorded ui sdk) trace d)
    (hreview : d.screen.review = some .confirmTransaction) :
    ∃ r oldest, Call.lastReview trace = r :: oldest := by
  obtain ⟨r, hmem, hstarts⟩ := exists_review run hreview
  apply List.exists_cons_of_ne_nil
  intro hnil
  have hnot := List.dropWhile_eq_nil_iff.mp hnil r hmem
  rw [Bool.not_eq_true', reviews, decide_eq_false_iff_not] at hnot
  exact hnot hstarts

/-- The request of an address review derived the key that it left in the context. -/
theorem derivation_of_displays
    (hnext : Device.next ui sdk e.event.1 e.before e.event.2 = some (e.after, e.output))
    (hdisplays : displays (Call.entry e) = true) :
    derivation sdk e.event.1 e.event.2 = some (cxOk, e.after.gContext.pkInfo) := by
  obtain ⟨before, ⟨cx, event⟩, after, output⟩ := e
  have hstarts : .startReview .confirmAddress ∈ output := of_decide_eq_true hdisplays
  have hrequests := requests_of_displays (next_happens hnext) hstarts
  dsimp only at hnext ⊢
  rcases event with (_ | cmd) | _
  · cases hrequests
  · have hcmd : cmd.requestsKey := of_decide_eq_true hrequests
    obtain ⟨data, hdata⟩ := Option.ne_none_iff_exists'.mp hcmd.2.2.2.2
    rw [next_getPublicKey hcmd hdata] at hnext
    cases handlerGetPublicKey_requests hnext with
    | shown hpath hderive =>
        rw [derivation_of_requests hcmd hdata hpath, if_pos rfl, hderive]
        simp
    | _ => simp at hstarts
  · cases hrequests

theorem derivation_of_lastDisplay (run : Run (recorded ui sdk) trace d) {r : Call}
    (hlast : Call.lastDisplay trace = some r) :
    derivation sdk r.event.1 r.event.2 = some (cxOk, r.after.gContext.pkInfo) := by
  have hstep := run.step_of_mem (List.mem_of_find?_eq_some hlast)
  have hdisplays : displays (Call.entry r) = true :=
    List.find?_some (p := fun e : Call => displays (Call.entry e)) hlast
  exact derivation_of_displays hstep hdisplays

/-- The request of a transaction review completed its message. -/
theorem completes_of_reviews
    (hnext : Device.next ui sdk e.event.1 e.before e.event.2 = some (e.after, e.output))
    (hreviews : reviews (Call.entry e) = true) : Completes sdk e := by
  obtain ⟨cmd, data, d₁, buf, tx, hevent, hstores, hparse, hlast, hhash, hafter⟩ :=
    happens_reviews (next_happens hnext) (of_decide_eq_true hreviews)
  refine .intro hevent hstores hlast hparse hhash.1 ?_
  rw [hafter, Device.reviewing_gContext]
  exact Prod.ext hhash.2 rfl

theorem completes_of_lastReview (run : Run (recorded ui sdk) trace d) {r : Call}
    {oldest : List Call} (hlast : Call.lastReview trace = r :: oldest) :
    Completes sdk r ∧ Run (recorded ui sdk) (r :: oldest) r.after := by
  have hsuffix : r :: oldest <:+ trace := by
    rw [← hlast]
    exact List.dropWhile_suffix _
  obtain ⟨state, runr⟩ := run.earlier hsuffix
  obtain ⟨-, hstep, rfl⟩ := runr.last
  have hreviews : reviews (Call.entry r) = true := by
    have hhead := List.head?_dropWhile_not (fun e : Call => !reviews (Call.entry e)) trace
    rw [← Call.lastReview, hlast] at hhead
    simpa using hhead
  exact ⟨completes_of_reviews hstep hreviews, runr⟩

theorem lastWipe_cons (e : Call) (trace : List Call) :
    Call.lastWipe (e :: trace)
      = if wipes (Call.entry e) then some e else Call.lastWipe trace := by
  rw [Call.lastWipe, List.find?_cons]
  cases wipes (Call.entry e) <;> rfl

theorem openedPath_of_not_opening (h : opens (Call.entry e) = false) :
    openedPath sdk e.event.2 = none := by
  obtain ⟨before, ⟨cx, event⟩, after, output⟩ := e
  rcases event with (_ | cmd) | _
  · rfl
  · exact openedPath_of_not_opens (of_decide_eq_false h)
  · rfl

theorem openedPath_of_opening (h : opens (Call.entry e) = true) {data : List UInt8}
    (hdata : e.event.2.command.bind (·.data) = some data) {ok : Bool} {ctx : GlobalCtx}
    (hpath : readBip32Path sdk (.fresh .confirmTransaction) (.ofBytes data) = (ok, ctx)) :
    openedPath sdk e.event.2 = if ok then some (ctx.bip32Path, ctx.bip32PathLen) else none := by
  obtain ⟨before, ⟨cx, event⟩, after, output⟩ := e
  rcases event with (_ | cmd) | _
  · cases h
  · rw [← Command.buffer_eq hdata] at hpath
    exact openedPath_of_opens (of_decide_eq_true h) hdata hpath
  · cases h

/-- The path in the context is the one that the session was opened with. -/
theorem path_of_opened (run : Run (recorded ui sdk) trace d)
    {path : List.Vector UInt32 maxBip32Path × UInt8}
    (hpath : Call.sessionPath sdk trace = some path) :
    (d.gContext.bip32Path, d.gContext.bip32PathLen) = path := by
  induction run with
  | initial => cases hpath
  | @step trace e run step ih =>
      rw [Call.sessionPath, lastWipe_cons] at hpath
      have hkept : wipes (Call.entry e) = false →
          (e.before.gContext.bip32Path, e.before.gContext.bip32PathLen) = path := by
        intro hwipes
        rw [hwipes] at hpath
        exact ih hpath
      have hprogress : Progress sdk (Call.entry e) := happens_progress (next_happens step)
      cases hprogress with
      | kept hwipes _ hsame =>
          rw [← hkept hwipes]
          exact Prod.ext hsame.path hsame.pathLen
      | opened hopens hdata hread =>
          rw [if_pos (wipes_of_opens hopens), Option.bind_some,
            openedPath_of_opening hopens hdata hread] at hpath
          split at hpath
          · exact Option.some.inj hpath
          · cases hpath
      | requested hrequests hopens =>
          rw [if_pos (wipes_of_requests hrequests), Option.bind_some,
            openedPath_of_not_opening hopens] at hpath
          cases hpath
      | extended hwipes hstores _ hsame =>
          rw [← hkept hwipes]
          obtain ⟨_, _, rfl⟩ := hstores.frame
          exact Prod.ext hsame.path hsame.pathLen

end Reviews

end BoilerplateApp
