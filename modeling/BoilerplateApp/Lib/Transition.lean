import Mathlib.Data.List.Basic

/-!
# Systems that answer events

A system holds a state; each event it takes moves it to a next state and produces an output. A run
is kept as its trace, the newest entry first, and every entry records the states around its event,
so that a property can speak about what was seen so far as well as about the state.
-/

namespace Transition

variable {State Event Output : Type*}

structure System (State Event Output : Type*) where
  initial : State
  Step : State → Event → State → Output → Prop

structure Entry (State Event Output : Type*) where
  before : State
  event : Event
  after : State
  output : Output

/-- The entry of a system whose events say less. -/
def Entry.mapEvent {Event' : Type*} (f : Event → Event') (entry : Entry State Event Output) :
    Entry State Event' Output :=
  ⟨entry.before, f entry.event, entry.after, entry.output⟩

/-- The runs of a system, by their traces and the state they end in. -/
inductive Run (system : System State Event Output) :
    List (Entry State Event Output) → State → Prop
  | initial : Run system [] system.initial
  | step {trace : List (Entry State Event Output)} (entry : Entry State Event Output)
      (run : Run system trace entry.before)
      (step : system.Step entry.before entry.event entry.after entry.output) :
      Run system (entry :: trace) entry.after

section Rules

variable {system : System State Event Output} {trace : List (Entry State Event Output)}
  {state : State} {entry : Entry State Event Output}

theorem Run.last (run : Run system (entry :: trace) state) :
    Run system trace entry.before
      ∧ system.Step entry.before entry.event entry.after entry.output ∧ state = entry.after := by
  cases run with
  | step _ run step => exact ⟨run, step, rfl⟩

theorem Run.earlier (run : Run system trace state) {older : List (Entry State Event Output)}
    (hsuffix : older <:+ trace) : ∃ state', Run system older state' := by
  induction run with
  | initial => exact ⟨_, by rw [List.suffix_nil.mp hsuffix]; exact .initial⟩
  | @step trace entry run hstep ih =>
      rcases List.suffix_cons_iff.mp hsuffix with rfl | hsuffix
      · exact ⟨_, .step entry run hstep⟩
      · exact ih hsuffix

/-- A relation between what was seen and the state: it holds of the empty trace, and every step
keeps it. -/
theorem Run.tracks (Rel : List (Entry State Event Output) → State → Prop)
    (hinitial : Rel [] system.initial)
    (hstep : ∀ (trace : List (Entry State Event Output)) (entry : Entry State Event Output),
      Rel trace entry.before →
      system.Step entry.before entry.event entry.after entry.output →
      Rel (entry :: trace) entry.after)
    (run : Run system trace state) : Rel trace state := by
  induction run with
  | initial => exact hinitial
  | step entry _ step ih => exact hstep _ entry ih step

theorem Run.step_of_mem (run : Run system trace state) (hmem : entry ∈ trace) :
    system.Step entry.before entry.event entry.after entry.output := by
  induction run with
  | initial => cases hmem
  | step newest _ step ih =>
      rcases List.mem_cons.mp hmem with rfl | hmem
      · exact step
      · exact ih hmem

theorem Run.mapEvent {Event' : Type*} {system' : System State Event' Output} {f : Event → Event'}
    (hinitial : system.initial = system'.initial)
    (hstep : ∀ s e s' o, system.Step s e s' o → system'.Step s (f e) s' o)
    (run : Run system trace state) : Run system' (trace.map (Entry.mapEvent f)) state := by
  induction run with
  | initial =>
      rw [hinitial]
      exact .initial
  | step entry _ step ih => exact .step (entry.mapEvent f) ih (hstep _ _ _ _ step)

/-- Steps that leave the state as it was can be left out of a run: the remaining entries, each with
its own states and output, are a run to the same state. -/
theorem Run.erase {silent : Entry State Event Output → Bool}
    (hsilent : ∀ entry ∈ trace, silent entry → entry.after = entry.before)
    (run : Run system trace state) : Run system (trace.filter fun e => !silent e) state := by
  induction run with
  | initial => exact .initial
  | @step trace entry _ step ih =>
      have ih' := ih fun e he => hsilent e (List.mem_cons_of_mem _ he)
      by_cases hs : silent entry
      · rw [List.filter_cons_of_neg (by simp [hs]), hsilent entry List.mem_cons_self hs]
        exact ih'
      · rw [List.filter_cons_of_pos (by simp [hs])]
        exact .step entry ih' step

end Rules

/-! ### Laws about every step -/

section Always

variable {P Q : List (Entry State Event Output) → Entry State Event Output → Prop}

/-- Every entry of a trace satisfies `P`, together with the entries before it. -/
def Always (P : List (Entry State Event Output) → Entry State Event Output → Prop) :
    List (Entry State Event Output) → Prop
  | [] => True
  | entry :: older => P older entry ∧ Always P older

instance [∀ older entry, Decidable (P older entry)] :
    ∀ trace : List (Entry State Event Output), Decidable (Always P trace)
  | [] => inferInstanceAs (Decidable True)
  | entry :: older =>
      have : Decidable (Always P older) := instDecidableAlways older
      inferInstanceAs (Decidable (P older entry ∧ Always P older))

theorem Always.mono {trace : List (Entry State Event Output)} (h : Always Q trace)
    (himp : ∀ older (entry : Entry State Event Output), Q older entry → P older entry) :
    Always P trace := by
  induction trace with
  | nil => trivial
  | cons entry older ih => exact ⟨himp _ _ h.1, ih h.2⟩

theorem Always.suffix {trace older : List (Entry State Event Output)} (h : Always P trace)
    (hsuffix : older <:+ trace) : Always P older := by
  induction trace with
  | nil => rwa [List.suffix_nil.mp hsuffix]
  | cons entry trace ih =>
      rcases List.suffix_cons_iff.mp hsuffix with rfl | hsuffix
      · exact h
      · exact ih h.2 hsuffix

theorem always_mapEvent {Event' : Type*} {f : Event' → Event}
    {trace : List (Entry State Event' Output)} :
    Always P (trace.map (Entry.mapEvent f))
      ↔ Always (fun older e => P (older.map (Entry.mapEvent f)) (e.mapEvent f)) trace := by
  induction trace with
  | nil => exact Iff.rfl
  | cons entry older ih => exact and_congr_right' ih

variable {system : System State Event Output} {trace : List (Entry State Event Output)}
  {state : State}

theorem Run.always (hstep : ∀ older (entry : Entry State Event Output),
      Run system (entry :: older) entry.after → Q older entry → P older entry)
    (run : Run system trace state) (hsteps : Always Q trace) : Always P trace := by
  induction run with
  | initial => trivial
  | step entry run step ih =>
      exact ⟨hstep _ entry (.step entry run step) hsteps.1, ih hsteps.2⟩

/-- An invariant that is kept by the steps that meet a condition. -/
theorem Run.invariant_of_always (Inv : State → Prop) (hinitial : Inv system.initial)
    (hstep : ∀ older (entry : Entry State Event Output), Inv entry.before → Q older entry →
      system.Step entry.before entry.event entry.after entry.output → Inv entry.after)
    (run : Run system trace state) (hsteps : Always Q trace) : Inv state := by
  induction run with
  | initial => exact hinitial
  | step entry _ step ih => exact hstep _ entry (ih hsteps.2) hsteps.1 step

end Always

/-! ### Systems given by a function -/

/-- Takes the events in order, oldest first, on top of a trace that ended in `state`. -/
def execute (next : State → Event → Option (State × Output)) :
    List (Entry State Event Output) → State → List Event →
      Option (List (Entry State Event Output) × State)
  | trace, state, [] => some (trace, state)
  | trace, state, event :: events =>
      match next state event with
      | none => none
      | some (state', output) =>
          execute next (⟨state, event, state', output⟩ :: trace) state' events

/-- Every event that is taken on top of a trace satisfies `P`, together with the trace it finds. An
event without a result is the last one that is taken. -/
def EachTaken (next : State → Event → Option (State × Output))
    (P : List (Entry State Event Output) → Event → Prop) :
    List (Entry State Event Output) → State → List Event → Prop
  | _, _, [] => True
  | trace, state, event :: events =>
      P trace event ∧
        match next state event with
        | none => True
        | some (state', output) =>
            EachTaken next P (⟨state, event, state', output⟩ :: trace) state' events

instance {next : State → Event → Option (State × Output)}
    {P : List (Entry State Event Output) → Event → Prop}
    [∀ trace event, Decidable (P trace event)] :
    ∀ trace state events, Decidable (EachTaken next P trace state events)
  | _, _, [] => inferInstanceAs (Decidable True)
  | trace, state, event :: events =>
      match h : next state event with
      | none => decidable_of_iff (P trace event) (by simp [EachTaken, h])
      | some (state', output) =>
          let trace' := ⟨state, event, state', output⟩ :: trace
          have : Decidable (EachTaken next P trace' state' events) := instDecidableEachTaken _ _ _
          decidable_of_iff (P trace event ∧ EachTaken next P trace' state' events)
            (by simp [EachTaken, h, trace'])

/-- The outputs of the events, oldest first, and the state they end in. -/
def respond (next : State → Event → Option (State × Output)) :
    State → List Event → Option (State × List Output)
  | state, [] => some (state, [])
  | state, event :: events =>
      match next state event with
      | none => none
      | some (state', output) =>
          (respond next state' events).map fun (last, outputs) => (last, output :: outputs)

section Respond

variable {next : State → Event → Option (State × Output)} {state state' last : State}
  {event : Event} {events : List Event} {output : Output} {outputs : List Output}

theorem respond_cons (hnext : next state event = some (state', output))
    (hrest : respond next state' events = some (last, outputs)) :
    respond next state (event :: events) = some (last, output :: outputs) := by
  simp only [respond, hnext, hrest, Option.map_some]

theorem respond_append_eq (state : State) (events events' : List Event) :
    respond next state (events ++ events')
      = (respond next state events).bind fun first =>
          (respond next first.1 events').map fun rest => (rest.1, first.2 ++ rest.2) := by
  induction events generalizing state with
  | nil => simp [respond]
  | cons event events ih =>
      rw [List.cons_append, respond, respond]
      cases next state event with
      | none => rfl
      | some result =>
          dsimp only
          rw [ih, Option.map_bind, Option.bind_map]
          congr 1
          funext first
          rw [Function.comp_apply, Function.comp_apply, Option.map_map]
          rfl

theorem respond_append {events' : List Event} {outputs' : List Output}
    (hfirst : respond next state events = some (state', outputs))
    (hrest : respond next state' events' = some (last, outputs')) :
    respond next state (events ++ events') = some (last, outputs ++ outputs') := by
  rw [respond_append_eq, hfirst, Option.bind_some, hrest, Option.map_some]

theorem respond_silent {P : Output → Prop}
    (hsilent : ∀ e ∈ events, ∃ output, next state e = some (state, output) ∧ P output) :
    ∃ outputs, respond next state events = some (state, outputs)
      ∧ outputs.length = events.length ∧ ∀ output ∈ outputs, P output := by
  induction events with
  | nil => exact ⟨[], rfl, rfl, by simp⟩
  | cons event events ih =>
      obtain ⟨hevent, hevents⟩ := List.forall_mem_cons.mp hsilent
      obtain ⟨output, hnext, houtput⟩ := hevent
      obtain ⟨outputs, hrespond, hlength, houtputs⟩ := ih hevents
      refine ⟨output :: outputs, respond_cons hnext hrespond, ?_, ?_⟩
      · rw [List.length_cons, List.length_cons, hlength]
      · exact List.forall_mem_cons.mpr ⟨houtput, houtputs⟩

/-- Silent events anywhere in a sequence: the others have the outputs they had. -/
theorem respond_insert {before after inserted : List Event} {first answers : List Output}
    (hbefore : respond next state before = some (state', first))
    (hinserted : respond next state' inserted = some (state', answers)) :
    respond next state (before ++ (inserted ++ after))
      = (respond next state' after).map fun rest => (rest.1, first ++ (answers ++ rest.2)) := by
  rw [respond_append_eq, hbefore, Option.bind_some, respond_append_eq, hinserted,
    Option.bind_some, Option.map_map]
  rfl

theorem respond_keeps (Inv : State → Prop) (P : Output → Prop)
    (hstep : ∀ s e s' o, e ∈ events → Inv s → next s e = some (s', o) → P o → Inv s')
    (h : respond next state events = some (last, outputs)) (houtputs : ∀ o ∈ outputs, P o)
    (hstate : Inv state) : Inv last := by
  induction events generalizing state outputs with
  | nil =>
      obtain ⟨rfl, rfl⟩ := Prod.mk.inj (Option.some.inj h)
      exact hstate
  | cons event events ih =>
      rw [respond] at h
      split at h
      · cases h
      · next state₁ output hnext =>
          obtain ⟨⟨state₂, outputs₁⟩, hrespond, heq⟩ := Option.map_eq_some_iff.mp h
          obtain ⟨rfl, rfl⟩ := Prod.mk.inj heq
          apply ih _ hrespond
          · intro o ho
            exact houtputs o (List.mem_cons_of_mem _ ho)
          · exact hstep _ _ _ _ List.mem_cons_self hstate hnext (houtputs _ List.mem_cons_self)
          · intro s e s' o he
            exact hstep s e s' o (List.mem_cons_of_mem _ he)

end Respond

/-- Executing from a run, where every result of the function is a step, extends the run. -/
theorem Run.execute {system : System State Event Output}
    {next : State → Event → Option (State × Output)}
    (hnext : ∀ s e s' o, next s e = some (s', o) → system.Step s e s' o)
    {trace trace' : List (Entry State Event Output)} {state state' : State} {events : List Event}
    (run : Run system trace state)
    (h : Transition.execute next trace state events = some (trace', state')) :
    Run system trace' state' := by
  induction events generalizing trace state with
  | nil =>
      obtain ⟨rfl, rfl⟩ := Prod.mk.inj (Option.some.inj h)
      exact run
  | cons event events ih =>
      rw [Transition.execute] at h
      split at h
      · cases h
      · next state₁ output hstep =>
          exact ih (.step ⟨state, event, state₁, output⟩ run (hnext _ _ _ _ hstep)) h

section Taken

variable {system : System State Event Output} {next : State → Event → Option (State × Output)}
  {P : List (Entry State Event Output) → Event → Prop}
  {trace trace' : List (Entry State Event Output)} {state state' : State} {events : List Event}

theorem eachTaken_of_forall (h : ∀ trace event, P trace event)
    (trace : List (Entry State Event Output)) (state : State) (events : List Event) :
    EachTaken next P trace state events := by
  induction events generalizing trace state with
  | nil => trivial
  | cons event events ih =>
      refine ⟨h _ _, ?_⟩
      split
      · trivial
      · exact ih _ _

/-- What every event satisfies when it is taken, every entry satisfies when all have been. -/
theorem EachTaken.always (h : EachTaken next P trace state events)
    (hexecute : Transition.execute next trace state events = some (trace', state'))
    (hbefore : Always (fun older e => P older e.event) trace) :
    Always (fun older e => P older e.event) trace' := by
  induction events generalizing trace state with
  | nil =>
      obtain ⟨rfl, -⟩ := Prod.mk.inj (Option.some.inj hexecute)
      exact hbefore
  | cons event events ih =>
      rw [Transition.execute] at hexecute
      obtain ⟨hevent, hevents⟩ := h
      split at hexecute
      · cases hexecute
      · next state₁ output hnext =>
          rw [hnext] at hevents
          exact ih hevents hexecute ⟨hevent, hbefore⟩

/-- Events have results to the end when each has the property that decides, after a run, whether an
event has one. -/
theorem Run.execute_ne_none_iff
    (hnext : ∀ s e s' o, next s e = some (s', o) → system.Step s e s' o)
    (hresult : ∀ event ∈ events, ∀ trace state, Run system trace state →
      (next state event ≠ none ↔ P trace event))
    (run : Run system trace state) :
    Transition.execute next trace state events ≠ none ↔ EachTaken next P trace state events := by
  induction events generalizing trace state with
  | nil => exact iff_of_true (Option.some_ne_none _) trivial
  | cons event events ih =>
      obtain ⟨hevent, hevents⟩ := List.forall_mem_cons.mp hresult
      have hfirst := hevent trace state run
      rw [Transition.execute, EachTaken]
      cases hstep : next state event with
      | none => exact iff_of_false (not_not.mpr rfl) fun h => hfirst.mpr h.1 hstep
      | some result =>
          have hmeets := hfirst.mp (by simp [hstep])
          exact (ih hevents (.step ⟨state, event, result.1, result.2⟩ run
            (hnext _ _ _ _ hstep))).trans (and_iff_right hmeets).symm

end Taken

/-- A run of the events, with a property of it that was computed. -/
theorem Run.exists_of_execute {system : System State Event Output}
    {next : State → Event → Option (State × Output)}
    (hnext : ∀ s e s' o, next s e = some (s', o) → system.Step s e s' o) (events : List Event)
    (p : List (Entry State Event Output) → State → Bool)
    (h : (Transition.execute next [] system.initial events).any (fun r => p r.1 r.2) = true) :
    ∃ trace state, Run system trace state ∧ p trace state = true := by
  obtain ⟨⟨trace, state⟩, hexecute, hp⟩ := (Option.any_eq_true _ _).mp h
  exact ⟨trace, state, Run.execute hnext .initial hexecute, hp⟩

end Transition
