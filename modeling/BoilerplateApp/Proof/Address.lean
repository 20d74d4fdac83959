import BoilerplateApp.Proof.Arguments
import BoilerplateApp.Proof.Screens

/-!
# Displaying an address

With P1 = 1 a GET_PUBLIC_KEY does what it does with P1 = 0, but first formats the path into a buffer
of 60 characters, and is refused when the text does not fit. Ten components can take twice that.
-/

namespace BoilerplateApp

open Transition

section Decide

variable {ui : Ui} {sdk : Sdk} {cx : Cx} {d : Device} {action : UserAction}

theorem next_approve_pubkey (sdk : Sdk) (cx : Cx)
    (h : d.decides ui action = some (.confirmAddress, true)) :
    ∃ d', Device.next ui sdk cx d (.user action)
      = some (d', [.send swOk (keyReply d.gContext.pkInfo)]) := by
  obtain ⟨ctx, callback, amount, address, addressPubkey, screen⟩ := d
  cases ui with
  | bagl =>
      rcases callback with _ | _ | _ <;> cases screen <;> cases action <;> cases h <;>
        exact ⟨_, rfl⟩
  | nbgl =>
      cases screen <;> cases action <;> cases h
      exact ⟨_, rfl⟩

/-- The user can approve what is under review in `d`, and is answered with `reply`. -/
def ApprovalReplies (ui : Ui) (sdk : Sdk) (d : Device) (reply : List UInt8) : Prop :=
  (∀ cx, ∃ (actions : List UserAction) (d₁ : Device),
    Undecided ui sdk d (actions.map fun action => (cx, action)) d₁
      ∧ d₁.decides ui .approve = some (.confirmAddress, true))
  ∧ ∀ moves d₁ cx action, Undecided ui sdk d moves d₁ →
    d₁.decides ui action = some (.confirmAddress, true) →
    ∃ d₂, Device.next ui sdk cx d₁ (.user action) = some (d₂, [.send swOk reply])

theorem approvalReplies_showing (ui : Ui) (sdk : Sdk) (d : Device) :
    ApprovalReplies ui sdk (d.showing ui .confirmAddress) (keyReply d.gContext.pkInfo) := by
  constructor
  · intro cx
    cases ui with
    | bagl => exact ⟨[], _, ⟨_, rfl, by simp⟩, rfl⟩
    | nbgl => exact ⟨[.advance], _, ⟨_, rfl, by simp⟩, rfl⟩
  · intro moves d₁ cx action hmoves hdecides
    obtain ⟨d₂, hnext⟩ := next_approve_pubkey sdk cx hdecides
    rw [hmoves.gContext_eq, Device.showing_gContext] at hnext
    exact ⟨d₂, hnext⟩

end Decide

/-- Whatever the device replies to `cmd₀`, it starts an address review for `cmd₁`, and the same reply
follows when that is approved. -/
def DisplaysKey (ui : Ui) (sdk : Sdk) (cx : Cx) (cmd₀ cmd₁ : Command) : Prop :=
  ∀ d d' d₀ reply, Device.next ui sdk cx d (.apdu (some cmd₀)) = some (d₀, [.send swOk reply]) →
    ∃ d₁, Device.next ui sdk cx d' (.apdu (some cmd₁)) = some (d₁, [.startReview .confirmAddress])
      ∧ ApprovalReplies ui sdk d₁ reply

section Display

variable {ui : Ui} {sdk : Sdk} {cx : Cx} {d : Device} {data : List UInt8} {path : List UInt32}
  (hread : sdk.ReadLaws) (hpath : sdk.PathLaws) (htext : sdk.PathTextLaws)
  (hderive : ∀ path len, (cx.bip32DeriveGetPubkey256 path len).1 = cxOk)
  (hhash : ∀ publicKey, addressFromPubkey cx publicKey ≠ none)
  (hcarried : Command.carriedPath data = some path)

include hread hpath hderive hcarried in
theorem exists_key : ∃ ctx pk,
    readBip32Path sdk (.fresh .confirmAddress) (.ofBytes data) = (true, ctx)
    ∧ cx.bip32DeriveGetPubkey256 ctx.bip32Path ctx.bip32PathLen = (cxOk, pk)
    ∧ ctx.bip32Path.toList.take ctx.bip32PathLen.toNat = path ∧ 0 < ctx.bip32PathLen.toNat
    ∧ ctx.bip32PathLen.toNat ≤ maxBip32Path := by
  have hok := readBip32Path_of_carriedPath hread hpath (.fresh .confirmAddress) hcarried
  rcases hresult : readBip32Path sdk (.fresh .confirmAddress) (.ofBytes data) with ⟨ok, ctx⟩
  obtain rfl : ok = true := by rwa [hresult] at hok
  obtain ⟨htake, hpos, hmax⟩ := readBip32Path_ok hread hpath hresult
  have hpk := hderive ctx.bip32Path ctx.bip32PathLen
  exact ⟨ctx, _, rfl, Prod.ext hpk rfl, Option.some.inj (htake.symm.trans hcarried), hpos, hmax⟩

include hread hpath htext hderive hhash hcarried in
/-- **When an address can be displayed.** GET_PUBLIC_KEY with P1 = 0 is answered `SW_OK`, and with
P1 = 1 displays the address of the same key exactly when the text of the path has less than 60
characters. -/
theorem displaysKey_iff {cmd₀ cmd₁ : Command} (hcmd₀ : cmd₀.requestsKey) (hp₀ : cmd₀.p1 = 0)
    (hdata₀ : cmd₀.data = some data) (hcmd₁ : cmd₁.requestsKey) (hp₁ : cmd₁.p1 = 1)
    (hdata₁ : cmd₁.data = some data) :
    (∀ d, ∃ d₀ reply, Device.next ui sdk cx d (.apdu (some cmd₀)) = some (d₀, [.send swOk reply]))
    ∧ (DisplaysKey ui sdk cx cmd₀ cmd₁ ↔ (pathText path).length < 60)
    ∧ (60 ≤ (pathText path).length → ∀ d, ∃ d₁,
        Device.next ui sdk cx d (.apdu (some cmd₁))
          = some (d₁, [.send swDisplayBip32PathFail []])) := by
  obtain ⟨ctx, pk, hresult, hpk, rfl, hpos, hmax⟩ :=
    exists_key hread hpath hderive hcarried
  obtain ⟨address, haddress⟩ := Option.ne_none_iff_exists'.mp (hhash pk.rawPublicKey)
  have hreplied : ∀ d, Device.next ui sdk cx d (.apdu (some cmd₀))
      = some (d.keyed ctx pk, [.send swOk (keyReply pk)]) := by
    intro d
    rw [next_getPublicKey hcmd₀ hdata₀, Command.buffer_eq hdata₀]
    exact (Requests.replied hresult hpk (by rw [hp₀]; decide)).run
  have hdisplay : decide (cmd₁.p1 ≠ 0) = true := by
    rw [hp₁]
    decide
  have hrefused : 60 ≤ (pathText (ctx.bip32Path.toList.take ctx.bip32PathLen.toNat)).length →
      ∀ d, Device.next ui sdk cx d (.apdu (some cmd₁))
        = some (d.keyed ctx pk, [.send swDisplayBip32PathFail []]) := by
    intro hlong d
    have hformat := htext.format_tooLong _ _ _ hpos hmax hlong
    rw [next_getPublicKey hcmd₁ hdata₁, Command.buffer_eq hdata₁]
    exact (Requests.pathFail hresult hpk hdisplay hformat).run
  refine ⟨fun d => ⟨_, _, hreplied d⟩, ⟨?_, ?_⟩, fun hlong d => ⟨_, hrefused hlong d⟩⟩
  · intro hdisplays
    by_contra hlong
    obtain ⟨d₁, hnext, -⟩ := hdisplays Device.boot Device.boot _ _ (hreplied Device.boot)
    rw [hrefused (Nat.not_lt.mp hlong)] at hnext
    simp at hnext
  · intro hshort d d' d₀ reply hreply
    have hformat := congrArg Prod.fst (htext.format _ _ _ hpos hmax hshort)
    obtain ⟨-, heffects⟩ := Prod.mk.inj (Option.some.inj ((hreplied d).symm.trans hreply))
    obtain rfl : keyReply pk = reply := by simpa using heffects
    refine ⟨((d'.keyed ctx pk).setAddress ui (addressText sdk address)).showing ui .confirmAddress,
      ?_, ?_⟩
    · rw [next_getPublicKey hcmd₁ hdata₁, Command.buffer_eq hdata₁]
      exact (Requests.shown hresult hpk hdisplay hformat haddress).run
    · have happroval := approvalReplies_showing ui sdk
        ((d'.keyed ctx pk).setAddress ui (addressText sdk address))
      rwa [Device.setAddress_gContext, Device.keyed_pkInfo] at happroval

end Display

/-- Ten components of ten digits, hardened. -/
def longPath : List UInt8 := 10 :: List.replicate 40 0xFF

open Reference in
/-- The text of this path has 119 characters. -/
theorem not_displaysKey_longPath :
    ¬DisplaysKey .bagl (sdk 64) calls (.ofApdu cla insGetPublicKey 0 0 longPath (by decide))
      (.ofApdu cla insGetPublicKey 1 0 longPath (by decide)) := by
  intro h
  have hreplied : (Device.next .bagl (sdk 64) calls Device.boot
      (.apdu (some (.ofApdu cla insGetPublicKey 0 0 longPath (by decide))))).map (·.2)
        = some [.send swOk (keyReply ⟨List.Vector.replicate _ 4, zeros _⟩)] := by decide +kernel
  have hrefused : (Device.next .bagl (sdk 64) calls Device.boot
      (.apdu (some (.ofApdu cla insGetPublicKey 1 0 longPath (by decide))))).map (·.2)
        = some [.send swDisplayBip32PathFail []] := by decide +kernel
  obtain ⟨⟨d₀, effects⟩, hreply, rfl⟩ := Option.map_eq_some_iff.mp hreplied
  obtain ⟨d₁, hnext, -⟩ := h Device.boot Device.boot d₀ _ hreply
  rw [hnext] at hrefused
  simp at hrefused

open Reference in
/-- The path of the tests, whose text has 15 characters. -/
theorem displaysKey_path :
    DisplaysKey .nbgl (sdk 64) calls (.ofApdu cla insGetPublicKey 0 0 pathData (by decide))
      (.ofApdu cla insGetPublicKey 1 0 pathData (by decide)) :=
  (displaysKey_iff (readLaws (Or.inr rfl)) (pathLaws 64) (pathTextLaws 64) (fun _ _ => rfl)
    (fun _ => by simp [addressFromPubkey, calls])
    (show Command.carriedPath pathData = some path by decide) (by decide) rfl rfl (by decide) rfl
    rfl).2.1.mpr (by decide)

end BoilerplateApp
