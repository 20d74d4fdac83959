import BoilerplateApp.Proof.Session
import BoilerplateApp.Reference

/-!
# The path of a review and of a signature

SIGN_TX with P1 = 0 sets the request type and writes the count of the path before it checks the
path, and its error return undoes neither. Chunks look at the request type only, so after a refused
P1 = 0 they are stored, reviewed and signed with a path that nobody gave. A host and a user that are
careful about two things never see this: no chunk is sent in a session without a path, and no
transaction is approved in one.
-/

namespace BoilerplateApp

open Transition Trace

section Runs

variable {ui : Ui} {sdk : Sdk} {calls : Cx → Prop} {trace : List Entry} {d : Device}

theorem opensWell_of_carries (hread : sdk.ReadLaws) (hpath : sdk.PathLaws)
    (run : Run (app ui sdk calls) trace d) {e : Entry} (he : e ∈ trace) {path : List UInt32}
    (hcarries : carries e = some path) : opensWell e = true := by
  rw [carries] at hcarries
  split at hcarries
  swap
  · cases hcarries
  · next hopens =>
      cases step_progress (run.step_of_mem he) with
      | kept hwipes => rw [opens_of_not_wipes hwipes] at hopens; cases hopens
      | opened _ hdata hread' =>
          rw [hdata, Option.bind_some] at hcarries
          have hok := readBip32Path_of_carriedPath hread hpath (.fresh .confirmTransaction) hcarries
          rwa [hread'] at hok
      | requested _ hnot => rw [hnot] at hopens; cases hopens
      | extended hwipes => rw [opens_of_not_wipes hwipes] at hopens; cases hopens

theorem sessionPath_of_carries (hread : sdk.ReadLaws) (hpath : sdk.PathLaws)
    (run : Run (app ui sdk calls) trace d) {w : Entry} (hlast : lastWipe trace = some w)
    {path : List UInt32} (hcarries : carries w = some path) : sessionPath trace = some path := by
  have hwell := opensWell_of_carries hread hpath run (List.mem_of_find?_eq_some hlast) hcarries
  simp only [sessionPath, hlast, if_pos hwell, hcarries]

/-- The `len` components of `path` are the path of the session, and within its array. -/
structure UsesPath (trace : List Entry) (path : List.Vector UInt32 maxBip32Path) (len : UInt8) :
    Prop where
  pos : 0 < len.toNat
  le : len.toNat ≤ maxBip32Path
  path_eq : sessionPath trace = some (path.toList.take len.toNat)

/-- What is promised of an entry: reviews and signatures use the path of the session, and chunks are
accepted only in a session whose opening command was answered `SW_OK`. -/
structure PathValid (older : List Entry) (e : Entry) : Prop where
  review : reviews e = true →
    UsesPath older e.after.gContext.bip32Path e.after.gContext.bip32PathLen
  sign : ∀ path len hash, .sign path len hash ∈ e.output → UsesPath older path len
  chunk : commands Command.isChunk e = true → refuses e = false →
    ∃ w, lastWipe older = some w ∧ opensWell w = true

/-- The condition on an entry: a chunk does not follow a P1 = 0 without a path, and a transaction is
approved only behind a P1 = 0 with a path. -/
def Careful (ui : Ui) (older : List Entry) (e : Entry) : Prop :=
  (commands Command.continuesSession e = true →
      (lastWipe older).all (fun w => !opens w || (carries w).isSome) = true)
    ∧ (decision ui e = some true → (lastWipe older).any (fun w => (carries w).isSome) = true)

instance (ui : Ui) (older : List Entry) (e : Entry) : Decidable (Careful ui older e) :=
  inferInstanceAs (Decidable (_ ∧ _))

theorem usesPath_of_carries (hread : sdk.ReadLaws) (hpath : sdk.PathLaws)
    (run : Run (app ui sdk calls) trace d) {w : Entry} (hlast : lastWipe trace = some w)
    (hcarries : (carries w).isSome = true) :
    UsesPath trace d.gContext.bip32Path d.gContext.bip32PathLen := by
  obtain ⟨path, hcarries⟩ := Option.isSome_iff_exists.mp hcarries
  have hsession := sessionPath_of_carries hread hpath run hlast hcarries
  obtain ⟨rfl, hpos, hmax⟩ := path_of_sessionPath hread hpath run hsession
  exact ⟨hpos, hmax, hsession⟩

/-- **No review and no signature without a valid path**, in a run whose steps are all careful. -/
theorem path_valid (hread : sdk.ReadLaws) (hpath : sdk.PathLaws)
    (run : Run (app ui sdk calls) trace d) (hcareful : Always (Careful ui) trace) :
    Always PathValid trace := by
  apply run.always _ hcareful
  intro older e run hcareful
  obtain ⟨run', step, -⟩ := run.last
  obtain ⟨cx, -, hhappens⟩ := step_happens step
  -- an accepted chunk belongs to a session, and a careful one to a session with a path
  have hcarries : commands Command.continuesSession e = true →
      e.before.gContext.reqType = .confirmTransaction →
      ∃ w, lastWipe older = some w ∧ (carries w).isSome = true := by
    intro hcontinues hreq
    obtain ⟨w, hlast, hopens⟩ := (reqType_iff run').mp hreq
    have hall := hcareful.1 hcontinues
    rw [hlast, Option.all_some, hopens, Bool.not_true, Bool.false_or] at hall
    exact ⟨w, hlast, hall⟩
  refine ⟨?_, ?_, ?_⟩
  · intro hreview
    obtain ⟨cmd, data, d₁, buf, tx, hevent, hstores, -, -, -, hafter⟩ :=
      happens_reviews hhappens (of_decide_eq_true hreview)
    have hcontinues : commands Command.continuesSession e = true := by
      simp [commands, Event.command, hevent, hstores.continues]
    obtain ⟨w, hlast, hpath'⟩ := hcarries hcontinues hstores.reqType
    have huses := usesPath_of_carries hread hpath run' hlast hpath'
    obtain ⟨_, _, rfl⟩ := hstores.frame
    rw [hafter, Device.reviewing_gContext]
    exact huses
  · intro path len hash hsign
    obtain ⟨happroves, rfl, rfl, -⟩ := happens_signs hhappens hsign
    obtain ⟨w, hlast, hcarries⟩ := (Option.any_eq_true _ _).mp (hcareful.2 happroves)
    exact usesPath_of_carries hread hpath run' hlast hcarries
  · intro hchunk haccepts
    obtain ⟨hcontinues, hreq⟩ := happens_accepts hhappens hchunk haccepts
    obtain ⟨w, hlast, hcarries⟩ := hcarries hcontinues hreq
    obtain ⟨path, hcarries⟩ := Option.isSome_iff_exists.mp hcarries
    exact ⟨w, hlast, opensWell_of_carries hread hpath run' (List.mem_of_find?_eq_some hlast)
      hcarries⟩

end Runs

open Reference in
/-- After a P1 = 0 that announces 255 components and is refused, a transaction is reviewed and
signed, with 255 for the length of a path of ten components. -/
theorem not_path_valid :
    ¬∀ trace d, Run (app .bagl (sdk 64) (Cx.Hashes keccak256)) trace d → Always PathValid trace := by
  intro h
  obtain ⟨trace, d, run, htrace⟩ := exists_run .bagl [badOpenEvent, txEvent, .user .approve]
    (fun trace _ => trace.head?.any fun e => e.output.any fun
      | .sign _ len _ => decide (maxBip32Path < len.toNat)
      | _ => false) (by decide +kernel)
  cases trace with
  | nil => cases htrace
  | cons e older =>
      obtain ⟨effect, heffect, hlong⟩ := List.any_eq_true.mp htrace
      cases effect with
      | send | startReview => cases hlong
      | sign path len hash =>
          exact absurd ((h _ d run).1.sign path len hash heffect).le
            (Nat.not_le.mpr (of_decide_eq_true hlong))

open Reference in
/-- A careful run that ends with a signature. -/
theorem path_valid_tx :
    ∃ trace d, Run (app .bagl (sdk 64) (Cx.Hashes keccak256)) trace d ∧ Always PathValid trace
      ∧ ∃ e older hash, trace = e :: older
        ∧ .sign d.gContext.bip32Path d.gContext.bip32PathLen hash ∈ e.output := by
  obtain ⟨trace, d, run, htrace⟩ := exists_run .bagl [openEvent, txEvent, .user .approve]
    (fun trace d => decide (Always (Careful .bagl) trace) && trace.head?.any fun e : Entry =>
      e.output.contains (.sign d.gContext.bip32Path d.gContext.bip32PathLen txHash))
    (by decide +kernel)
  obtain ⟨hcareful, hsign⟩ := (Bool.and_eq_true _ _).mp htrace
  refine ⟨trace, d, run, path_valid (readLaws (Or.inr rfl)) (pathLaws 64) run
    (of_decide_eq_true hcareful), ?_⟩
  cases trace with
  | nil => cases hsign
  | cons e older => exact ⟨e, older, txHash, rfl, List.contains_iff_mem.mp hsign⟩

end BoilerplateApp
