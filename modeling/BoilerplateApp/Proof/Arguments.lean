import BoilerplateApp.Proof.Effects
import BoilerplateApp.Reference

/-!
# The path argument

Both commands read the path of their data in the same way: a count, and as many words as it says.
What comes behind the words is not looked at, as no handler compares the length of its data with
what it has read.
-/

namespace BoilerplateApp

open Endian

/-- The error codes that the SDK documents all lie at the top of the 32-bit range. -/
def Cx.DocumentedErrors (cx : Cx) : Prop :=
  ∀ path len, (cx.bip32DeriveGetPubkey256 path len).1 = cxOk
    ∨ 0xFFFFFF00 ≤ (cx.bip32DeriveGetPubkey256 path len).1

/-- A count from 1 to `MAX_BIP32_PATH` with at least as many words behind it. -/
def CarriesPath (data : List UInt8) : Prop :=
  ∃ n, data.head? = some n ∧ 1 ≤ n.toNat ∧ n.toNat ≤ maxBip32Path ∧ 1 + 4 * n.toNat ≤ data.length

/-- The same with nothing behind the words. -/
def IsPath (data : List UInt8) : Prop :=
  ∃ n, data.head? = some n ∧ 1 ≤ n.toNat ∧ n.toNat ≤ maxBip32Path ∧ data.length = 1 + 4 * n.toNat

/-- The context holds the count and the words of `data`. -/
structure StoresPath (data : List UInt8) (ctx : GlobalCtx) : Prop where
  pathLen : data.head? = some ctx.bip32PathLen
  path : ∀ i < ctx.bip32PathLen.toNat, ∃ component,
    ctx.bip32Path.toList[i]? = some component
      ∧ component.toNat = decodeBE ((data.drop (1 + 4 * i)).take 4)

/-- The command takes its data for a path exactly when `Accepted` holds of them, and then stores that
path. -/
def AcceptsPath (Accepted : List UInt8 → Prop) (ui : Ui) (sdk : Sdk) (cx : Cx) (d : Device)
    (cmd : Command) (data : List UInt8) : Prop :=
  ∃ d' effects, Device.next ui sdk cx d (.apdu (some cmd)) = some (d', effects)
    ∧ (swWrongDataLength ∉ answers effects ↔ Accepted data)
    ∧ (Accepted data → StoresPath data d'.gContext)

section Path

variable {sdk : Sdk} {ctx ctx' : GlobalCtx} {data : List UInt8}

theorem carriesPath_iff : CarriesPath data ↔ ∃ path, Command.carriedPath data = some path := by
  cases data with
  | nil => simp [CarriesPath, Command.carriedPath]
  | cons n rest =>
      simp only [CarriesPath, Command.carriedPath, List.head?_cons, Option.some.injEq,
        exists_eq_left', List.length_cons]
      constructor
      · rintro ⟨hpos, hmax, hlen⟩
        exact ⟨_, if_pos ⟨hpos, hmax, by omega⟩⟩
      · rintro ⟨path, hcarried⟩
        split at hcarried
        · next hcount => exact ⟨hcount.1, hcount.2.1, by omega⟩
        · cases hcarried

theorem readBip32Path_iff (hread : sdk.ReadLaws) (hpath : sdk.PathLaws) (ctx : GlobalCtx)
    (data : List UInt8) : (readBip32Path sdk ctx (.ofBytes data)).1 = true ↔ CarriesPath data := by
  rw [carriesPath_iff]
  constructor
  · intro hok
    exact ⟨_, (readBip32Path_ok hread hpath (Prod.ext hok rfl)).1⟩
  · rintro ⟨path, hcarried⟩
    exact readBip32Path_of_carriedPath hread hpath ctx hcarried

theorem words_getElem? {n i : Nat} (hi : i < n) (bytes : List UInt8) :
    (words n bytes)[i]? = some (UInt32.ofNat (decodeBE ((bytes.drop (4 * i)).take 4))) := by
  rw [words, List.getElem?_map, List.getElem?_range hi, Option.map_some]

theorem toNat_word (bytes : List UInt8) :
    (UInt32.ofNat (decodeBE (bytes.take 4))).toNat = decodeBE (bytes.take 4) := by
  have hbytes := decodeBE_lt (bytes.take 4)
  have hlen : (bytes.take 4).length ≤ 4 := List.length_take_le 4 bytes
  have hword : decodeBE (bytes.take 4) < 2 ^ 32 :=
    lt_of_lt_of_le hbytes (Nat.pow_le_pow_right (by norm_num) hlen)
  rw [UInt32.toNat_ofNat']
  exact Nat.mod_eq_of_lt hword

theorem readBip32Path_stores (hread : sdk.ReadLaws) (hpath : sdk.PathLaws)
    (h : readBip32Path sdk ctx (.ofBytes data) = (true, ctx')) : StoresPath data ctx' := by
  obtain ⟨hcarried, hpos, hmax⟩ := readBip32Path_ok hread hpath h
  cases data with
  | nil => cases hcarried
  | cons n rest =>
      have hlen : ctx'.bip32PathLen = n := by
        rw [readBip32Path_cons hread] at h
        rw [← (Prod.mk.inj h).2]
      rw [Command.carriedPath] at hcarried
      split at hcarried
      swap
      · cases hcarried
      have hwords := Option.some.inj hcarried
      refine ⟨by rw [hlen, List.head?_cons], ?_⟩
      intro i hi
      refine ⟨_, ?_, toNat_word _⟩
      have htake := congrArg (fun path => path[i]?) hwords
      simp only [List.getElem?_take_of_lt hi] at htake
      rw [← htake, words_getElem? (by rwa [← hlen]), Nat.add_comm, List.drop_succ_cons]

end Path

section Commands

variable {ui : Ui} {sdk : Sdk} {cx : Cx} {d : Device} {cmd : Command} {data : List UInt8}

theorem toUInt16_ne_of_documented {error : UInt32} (herror : 0xFFFFFF00 ≤ error) :
    error.toUInt16 ≠ swWrongDataLength := by
  intro h
  have hnat := congrArg UInt16.toNat h
  have hlow : (0xFFFFFF00 : UInt32).toNat ≤ error.toNat := UInt32.le_iff_toNat_le.mp herror
  have hhigh := error.toNat_lt
  rw [UInt32.toNat_toUInt16] at hnat
  have hconst : (0xFFFFFF00 : UInt32).toNat = 4294967040 := rfl
  have hword : swWrongDataLength.toNat = 27271 := rfl
  omega

theorem acceptsPath_of_opens (hread : sdk.ReadLaws) (hpath : sdk.PathLaws)
    (hcmd : cmd.opensSession) (hdata : cmd.data = some data) :
    AcceptsPath CarriesPath ui sdk cx d cmd data := by
  have hp1 : cmd.p1 = 0 := hcmd.2.1
  rcases hresult : readBip32Path sdk (.fresh .confirmTransaction) (.ofBytes data) with ⟨ok, ctx⟩
  have hiff := readBip32Path_iff hread hpath (.fresh .confirmTransaction) data
  rw [hresult] at hiff
  have hnext : Device.next ui sdk cx d (.apdu (some cmd)) = some ({ d with gContext := ctx },
      [.send (if ok then swOk else swWrongDataLength) []]) := by
    rw [next_signTx (Or.inl hcmd) hdata, handlerSignTx, if_pos hp1, Command.buffer_eq hdata]
    rw [GlobalCtx.fresh] at hresult
    simp only [hresult]
    cases ok <;> rfl
  refine ⟨_, _, hnext, ?_, ?_⟩
  · rw [← hiff]
    cases ok <;> simp [answers, swOk, swWrongDataLength]
  · intro hcarries
    obtain rfl : ok = true := hiff.mpr hcarries
    exact readBip32Path_stores hread hpath hresult

theorem acceptsPath_of_requests (hread : sdk.ReadLaws) (hpath : sdk.PathLaws)
    (herrors : cx.DocumentedErrors) (hcmd : cmd.requestsKey) (hdata : cmd.data = some data) :
    AcceptsPath CarriesPath ui sdk cx d cmd data := by
  have hiff := readBip32Path_iff hread hpath (.fresh .confirmAddress) data
  obtain ⟨d', effects, hrequests⟩ := exists_requests ui sdk cx d ⟨data, cmd.lc.toNat, 0⟩
    (decide (cmd.p1 ≠ 0))
  refine ⟨d', effects, (next_getPublicKey hcmd hdata).trans hrequests.run, ?_⟩
  rw [Command.buffer_eq hdata] at hrequests
  have hcarries : ∀ {ctx : GlobalCtx},
      readBip32Path sdk (.fresh .confirmAddress) (.ofBytes data) = (true, ctx) →
      CarriesPath data := by
    intro ctx hresult
    rw [hresult] at hiff
    exact hiff.mp rfl
  have hstored : ∀ {ctx ctx' : GlobalCtx},
      readBip32Path sdk (.fresh .confirmAddress) (.ofBytes data) = (true, ctx) →
      ctx'.bip32PathLen = ctx.bip32PathLen → ctx'.bip32Path = ctx.bip32Path →
      StoresPath data ctx' := by
    intro ctx ctx' hresult hlen hwords
    have hstores := readBip32Path_stores hread hpath hresult
    refine ⟨?_, ?_⟩
    · rw [hlen]
      exact hstores.pathLen
    · rw [hlen, hwords]
      exact hstores.path
  cases hrequests with
  | refused hresult =>
      rw [hresult] at hiff
      have hnot : ¬CarriesPath data := fun hcarries => Bool.false_ne_true (hiff.mpr hcarries)
      exact ⟨iff_of_false (by simp [answers]) hnot, fun hcarries => absurd hcarries hnot⟩
  | @underivable ctx hresult error pk hderive herror =>
      refine ⟨iff_of_true ?_ (hcarries hresult), fun _ => hstored hresult rfl rfl⟩
      have hdocumented := herrors ctx.bip32Path ctx.bip32PathLen
      rw [hderive] at hdocumented
      have hword := toUInt16_ne_of_documented (hdocumented.resolve_left herror)
      simpa [answers] using hword.symm
  | replied hresult =>
      refine ⟨iff_of_true ?_ (hcarries hresult), fun _ => hstored hresult rfl rfl⟩
      simp [answers, swWrongDataLength, swOk]
  | pathFail hresult =>
      refine ⟨iff_of_true ?_ (hcarries hresult), fun _ => hstored hresult rfl rfl⟩
      simp [answers, swWrongDataLength, swDisplayBip32PathFail]
  | addressFail hresult =>
      rw [Device.setAddress_gContext]
      refine ⟨iff_of_true ?_ (hcarries hresult), fun _ => hstored hresult rfl rfl⟩
      simp [answers, swWrongDataLength, swDisplayAddressFail]
  | shown hresult =>
      rw [Device.showing_gContext, Device.setAddress_gContext]
      refine ⟨iff_of_true ?_ (hcarries hresult), fun _ => hstored hresult rfl rfl⟩
      simp [answers]

/-- **What both commands take for a path**: at least as many words as the count says. -/
theorem path_accepted_iff (hread : sdk.ReadLaws) (hpath : sdk.PathLaws)
    (herrors : cx.DocumentedErrors) (hcmd : cmd.opensSession ∨ cmd.requestsKey)
    (hdata : cmd.data = some data) : AcceptsPath CarriesPath ui sdk cx d cmd data := by
  rcases hcmd with hopens | hrequests
  · exact acceptsPath_of_opens hread hpath hopens hdata
  · exact acceptsPath_of_requests hread hpath herrors hrequests hdata

end Commands

/-- A path of one component, with a byte behind it. -/
def trailingPath : List UInt8 := [1, 0, 0, 0, 0, 0xAA]

open Reference in
/-- The byte behind the path is not noticed. -/
theorem not_acceptsPath_exactly :
    ¬AcceptsPath IsPath .bagl (sdk 64) calls Device.boot
      (.ofApdu cla insSignTx p1Start p2More trailingPath (by decide)) trailingPath := by
  rintro ⟨d', effects, hnext, haccepts, -⟩
  have hanswer : (Device.next .bagl (sdk 64) calls Device.boot
      (.apdu (some (.ofApdu cla insSignTx p1Start p2More trailingPath (by decide))))).map
        (fun result => answers result.2) = some [swOk] := by decide +kernel
  rw [hnext, Option.map_some] at hanswer
  obtain ⟨n, hcount, -, -, hlen⟩ := haccepts.mp (by
    rw [Option.some.inj hanswer]
    decide)
  obtain rfl : n = 1 := (Option.some.inj hcount).symm
  exact absurd hlen (by decide)

open Reference in
theorem path_accepted_trailing :
    AcceptsPath CarriesPath .bagl (sdk 64) calls Device.boot
      (.ofApdu cla insGetPublicKey 0 0 trailingPath (by decide)) trailingPath :=
  path_accepted_iff (readLaws (Or.inr rfl)) (pathLaws 64) (fun _ _ => Or.inl rfl)
    (Or.inr (by decide)) rfl

end BoilerplateApp
