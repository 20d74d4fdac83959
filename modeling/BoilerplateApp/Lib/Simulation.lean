import BoilerplateApp.Lib.Transition
import Mathlib.Data.Set.Basic

/-!
# Simulations

An observer sees something of an entry of a run, or nothing. Systems with different states, events
and outputs can be compared by what the observers see: if every step of one is matched by steps of
the other that look the same, then everything that can be seen of the first can be seen of the
second. Two systems that are functions of their events are compared one event at a time.
-/

namespace Transition

variable {State Event Output State' Event' Output' Obs : Type*}

/-- Steps that lead from a state to another, the newest entry first. -/
inductive Steps (system : System State Event Output) (start : State) :
    List (Entry State Event Output) → State → Prop
  | refl : Steps system start [] start
  | step {trace : List (Entry State Event Output)} (entry : Entry State Event Output)
      (steps : Steps system start trace entry.before)
      (step : system.Step entry.before entry.event entry.after entry.output) :
      Steps system start (entry :: trace) entry.after

section Steps

variable {system : System State Event Output} {start middle state : State}
  {trace newer : List (Entry State Event Output)}

theorem Steps.trans (steps : Steps system middle newer state)
    (before : Steps system start trace middle) : Steps system start (newer ++ trace) state := by
  induction steps with
  | refl => exact before
  | step entry _ step ih => exact .step entry ih step

theorem Run.append (run : Run system trace middle) (steps : Steps system middle newer state) :
    Run system (newer ++ trace) state := by
  induction steps with
  | refl => exact run
  | step entry _ step ih => exact .step entry ih step

theorem Run.steps (run : Run system trace state) : Steps system system.initial trace state := by
  induction run with
  | initial => exact .refl
  | step entry _ step ih => exact .step entry ih step

theorem Steps.mapEvent {Event' : Type*} {system' : System State Event' Output} {f : Event → Event'}
    (hstep : ∀ entry ∈ trace, system.Step entry.before entry.event entry.after entry.output →
      system'.Step entry.before (f entry.event) entry.after entry.output)
    (steps : Steps system start trace state) :
    Steps system' start (trace.map (Entry.mapEvent f)) state := by
  induction steps with
  | refl => exact .refl
  | step entry _ step ih =>
      obtain ⟨hentry, htrace⟩ := List.forall_mem_cons.mp hstep
      exact .step (entry.mapEvent f) (ih htrace) (hentry step)

theorem Steps.step_of_mem {entry : Entry State Event Output} (steps : Steps system start trace state)
    (hmem : entry ∈ trace) :
    system.Step entry.before entry.event entry.after entry.output := by
  induction steps with
  | refl => cases hmem
  | step newest _ step ih =>
      rcases List.mem_cons.mp hmem with rfl | hmem
      · exact step
      · exact ih hmem

/-- The system of a function. -/
def System.ofNext (next : State → Event → Option (State × Output)) (initial : State) :
    System State Event Output where
  initial := initial
  Step s event s' output := next s event = some (s', output)

theorem exists_steps {next : State → Event → Option (State × Output)} (initial : State)
    {events : List Event} {outputs : List Output}
    (h : respond next start events = some (state, outputs)) :
    ∃ trace, Steps (.ofNext next initial) start trace state
      ∧ trace.reverse.map (·.event) = events ∧ trace.reverse.map (·.output) = outputs := by
  induction events generalizing start outputs with
  | nil =>
      obtain ⟨rfl, rfl⟩ := Prod.mk.inj (Option.some.inj h)
      exact ⟨[], .refl, rfl, rfl⟩
  | cons event events ih =>
      rw [respond] at h
      split at h
      · cases h
      · next first output hnext =>
          obtain ⟨⟨state', outputs'⟩, hrespond, heq⟩ := Option.map_eq_some_iff.mp h
          obtain ⟨rfl, rfl⟩ := Prod.mk.inj heq
          obtain ⟨newer, hsteps, hevents, houtputs⟩ := ih hrespond
          let entry : Entry State Event Output := ⟨start, event, first, output⟩
          refine ⟨newer ++ [entry], hsteps.trans (.step entry .refl hnext), ?_, ?_⟩
          · rw [List.reverse_append, List.map_append, hevents]
            rfl
          · rw [List.reverse_append, List.map_append, houtputs]
            rfl

end Steps

def System.startingAt (system : System State Event Output) (start : State) :
    System State Event Output :=
  { system with initial := start }

/-- The steps whose events are allowed where they come. -/
def System.restrict (system : System State Event Output) (allowed : State → Event → Prop) :
    System State Event Output where
  initial := system.initial
  Step s event s' output := allowed s event ∧ system.Step s event s' output

theorem System.restrict_true (system : System State Event Output) :
    system.restrict (fun _ _ => True) = system := by
  simp only [System.restrict, true_and]

theorem Run.restrict {system : System State Event Output}
    {trace : List (Entry State Event Output)} {state : State} {allowed : State → Event → Prop}
    (run : Run system trace state) (hallowed : ∀ e ∈ trace, allowed e.before e.event) :
    Run (system.restrict allowed) trace state := by
  induction run with
  | initial => exact .initial
  | step entry _ step ih =>
      obtain ⟨hentry, htrace⟩ := List.forall_mem_cons.mp hallowed
      exact .step entry (ih htrace) ⟨hentry, step⟩

/-! ### Observers -/

/-- What is seen of a trace, newest first. -/
def observed (see : Entry State Event Output → Option Obs)
    (trace : List (Entry State Event Output)) : List Obs :=
  trace.filterMap see

/-- What can be seen of the runs of a system. -/
def behaviours (system : System State Event Output) (see : Entry State Event Output → Option Obs) :
    Set (List Obs) :=
  {seen | ∃ trace state, Run system trace state ∧ observed see trace = seen}

section Observed

variable {see : Entry State Event Output → Option Obs} {entry : Entry State Event Output}

@[simp] theorem observed_nil : observed see [] = [] := rfl

theorem observed_append (newer trace : List (Entry State Event Output)) :
    observed see (newer ++ trace) = observed see newer ++ observed see trace :=
  List.filterMap_append

theorem observed_cons (trace : List (Entry State Event Output)) :
    observed see (entry :: trace) = (see entry).toList ++ observed see trace := by
  rw [observed, List.filterMap_cons]
  cases see entry <;> rfl

end Observed

/-- Every step of `system` from a state that `Rel` relates to one of `system'` is matched by steps
from there that show what it shows and end in related states. -/
structure Simulation (system : System State Event Output)
    (see : Entry State Event Output → Option Obs) (system' : System State' Event' Output')
    (see' : Entry State' Event' Output' → Option Obs) (Rel : State → State' → Prop) : Prop where
  initial : Rel system.initial system'.initial
  step : ∀ (entry : Entry State Event Output) (state' : State'), Rel entry.before state' →
    system.Step entry.before entry.event entry.after entry.output →
    ∃ newer after', Steps system' state' newer after' ∧ observed see' newer = (see entry).toList
      ∧ Rel entry.after after'

section Simulation

variable {system : System State Event Output} {see : Entry State Event Output → Option Obs}
  {system' : System State' Event' Output'} {see' : Entry State' Event' Output' → Option Obs}
  {Rel : State → State' → Prop} {trace : List (Entry State Event Output)} {state : State}

theorem Simulation.run (sim : Simulation system see system' see' Rel)
    (run : Run system trace state) :
    ∃ trace' state', Run system' trace' state' ∧ observed see' trace' = observed see trace
      ∧ Rel state state' := by
  induction run with
  | initial => exact ⟨[], _, .initial, rfl, sim.initial⟩
  | @step trace entry _ step ih =>
      obtain ⟨trace', before', run', hseen, hrel⟩ := ih
      obtain ⟨newer, after', hsteps, hnewer, hafter⟩ := sim.step entry before' hrel step
      refine ⟨newer ++ trace', after', run'.append hsteps, ?_, hafter⟩
      rw [observed_append, hnewer, hseen, observed_cons]

theorem Simulation.behaviours_subset (sim : Simulation system see system' see' Rel) :
    behaviours system see ⊆ behaviours system' see' := by
  rintro _ ⟨trace, state, run, rfl⟩
  obtain ⟨trace', state', run', hseen, -⟩ := sim.run run
  exact ⟨trace', state', run', hseen⟩

end Simulation

/-! ### Two functions, one event at a time -/

/-- Both have no result, or both have one with the same output and related states. -/
inductive Agree (Rel : State → State' → Prop) :
    Option (State × Output) → Option (State' × Output) → Prop
  | none : Agree Rel none none
  | some {state : State} {state' : State'} (output : Output) (hrel : Rel state state') :
      Agree Rel (some (state, output)) (some (state', output))

section Agree

variable {Rel Rel' : State → State' → Prop} {state : State} {state' : State'}

theorem Agree.mono {result : Option (State × Output)} {result' : Option (State' × Output)}
    (h : Agree Rel result result') (himp : ∀ s s', Rel s s' → Rel' s s') :
    Agree Rel' result result' := by
  cases h with
  | none => exact .none
  | some output hrel => exact .some output (himp _ _ hrel)

theorem Agree.map {result : Option (State × Output)} {result' : Option (State' × Output)}
    (h : Agree Rel result result') {f : State → State} {f' : State' → State'}
    {g : Output → Output} (hmap : ∀ s s', Rel s s' → Rel' (f s) (f' s')) :
    Agree Rel' (result.map fun r => (f r.1, g r.2)) (result'.map fun r => (f' r.1, g r.2)) := by
  cases h with
  | none => exact .none
  | some output hrel => exact .some _ (hmap _ _ hrel)

theorem Agree.exists_some {result' : Option (State' × Output)} {output : Output}
    (h : Agree Rel (Option.some (state, output)) result') :
    ∃ state', result' = Option.some (state', output) ∧ Rel state state' := by
  cases h with
  | some _ hrel => exact ⟨_, rfl, hrel⟩

end Agree

end Transition
