import Mathlib.Data.List.Basic

/-!
# Conversations

A client sends requests and waits for each reply. An operation is a list of requests, which is given
up at the first reply that is not accepted; a conversation is one operation after the other. What
they come to is stated as total correctness: `Yields` says that there is an outcome, and that every
outcome has the one reply and leaves a state of which something is known.
-/

namespace Conversation

variable {State Request Reply Operation Result : Type*}

/-- There is an outcome; and every outcome is `reply`, in a state with `Post`. -/
structure Yields (outcome : State → Reply → Prop) (reply : Reply) (Post : State → Prop) : Prop where
  exists_outcome : ∃ s, outcome s reply
  of_outcome : ∀ s r, outcome s r → r = reply ∧ Post s

/-- The requests one after the other. The reply is the last one. -/
inductive Performs (exchange : State → Request → State → Reply → Prop) (accepted : Reply → Prop) :
    State → List Request → State → Reply → Prop
  | last {s s' : State} {request : Request} {reply : Reply}
      (hexchange : exchange s request s' reply) : Performs exchange accepted s [request] s' reply
  | stopped {s s' : State} {request : Request} {requests : List Request} {reply : Reply}
      (hexchange : exchange s request s' reply) (hrefused : ¬accepted reply) :
      Performs exchange accepted s (request :: requests) s' reply
  | more {s s₁ s' : State} {request : Request} {requests : List Request} {reply₁ reply : Reply}
      (hexchange : exchange s request s₁ reply₁) (haccepted : accepted reply₁)
      (hrest : Performs exchange accepted s₁ requests s' reply) :
      Performs exchange accepted s (request :: requests) s' reply

section Yields

variable {outcome : State → Reply → Prop} {reply : Reply} {Post Post' : State → Prop}

theorem Yields.mono (h : Yields outcome reply Post) (himp : ∀ s, Post s → Post' s) :
    Yields outcome reply Post' where
  exists_outcome := h.exists_outcome
  of_outcome s r hs := (h.of_outcome s r hs).imp_right (himp s)

theorem Yields.map (h : Yields outcome reply Post) (f : Reply → Result) :
    Yields (fun s result => ∃ r, outcome s r ∧ result = f r) (f reply) Post where
  exists_outcome := by
    obtain ⟨s, hs⟩ := h.exists_outcome
    exact ⟨s, reply, hs, rfl⟩
  of_outcome := by
    rintro s _ ⟨r, hs, rfl⟩
    obtain ⟨rfl, hpost⟩ := h.of_outcome s r hs
    exact ⟨rfl, hpost⟩

theorem Yields.post_of_outcome {s : State} {r : Reply} (h : Yields outcome reply Post)
    (hs : outcome s r) : Post s :=
  (h.of_outcome s r hs).2

end Yields

section Performs

variable {exchange : State → Request → State → Reply → Prop} {accepted : Reply → Prop} {s : State}
  {request : Request} {requests : List Request} {reply reply₁ : Reply} {Post Post₁ : State → Prop}

theorem Performs.requests_ne_nil {s' : State} (h : Performs exchange accepted s requests s' reply) :
    requests ≠ [] := by
  cases h <;> exact List.cons_ne_nil _ _

theorem yields_last (h : Yields (exchange s request) reply Post) :
    Yields (Performs exchange accepted s [request]) reply Post where
  exists_outcome := by
    obtain ⟨s', hs'⟩ := h.exists_outcome
    exact ⟨s', .last hs'⟩
  of_outcome := by
    intro s' r hperforms
    cases hperforms with
    | last hexchange | stopped hexchange => exact h.of_outcome s' r hexchange
    | more _ _ hrest => exact absurd rfl hrest.requests_ne_nil

theorem yields_stopped (h : Yields (exchange s request) reply Post) (hrefused : ¬accepted reply) :
    Yields (Performs exchange accepted s (request :: requests)) reply Post where
  exists_outcome := by
    obtain ⟨s', hs'⟩ := h.exists_outcome
    exact ⟨s', .stopped hs' hrefused⟩
  of_outcome := by
    intro s' r hperforms
    cases hperforms with
    | last hexchange | stopped hexchange => exact h.of_outcome s' r hexchange
    | more hexchange haccepted =>
        obtain ⟨rfl, -⟩ := h.of_outcome _ _ hexchange
        exact absurd haccepted hrefused

theorem yields_more (h : Yields (exchange s request) reply₁ Post₁) (haccepted : accepted reply₁)
    (hne : requests ≠ [])
    (hrest : ∀ s₁, Post₁ s₁ → Yields (Performs exchange accepted s₁ requests) reply Post) :
    Yields (Performs exchange accepted s (request :: requests)) reply Post where
  exists_outcome := by
    obtain ⟨s₁, hs₁⟩ := h.exists_outcome
    obtain ⟨s', hs'⟩ := (hrest s₁ (h.post_of_outcome hs₁)).exists_outcome
    exact ⟨s', .more hs₁ haccepted hs'⟩
  of_outcome := by
    intro s' r hperforms
    cases hperforms with
    | last => exact absurd rfl hne
    | stopped hexchange hrefused =>
        obtain ⟨rfl, -⟩ := h.of_outcome _ _ hexchange
        exact absurd haccepted hrefused
    | more hexchange _ hrest' =>
        exact (hrest _ (h.post_of_outcome hexchange)).of_outcome s' r hrest'

end Performs

/-! ### Operations -/

/-- One operation after the other, each with its result. -/
inductive Converses (perform : State → Operation → State → Result → Prop) :
    State → List Operation → State → List Result → Prop
  | done {s : State} : Converses perform s [] s []
  | next {s s₁ s' : State} {operation : Operation} {operations : List Operation} {result : Result}
      {results : List Result} (hperform : perform s operation s₁ result)
      (hrest : Converses perform s₁ operations s' results) :
      Converses perform s (operation :: operations) s' (result :: results)

/-- **A server without a history.** If each operation has a result of its own in every state with
`Inv`, and leaves such a state, then a conversation has the results of its operations. -/
theorem yields_conversation {perform : State → Operation → State → Result → Prop}
    {serve : Operation → Result} {Inv : State → Prop} {operations : List Operation}
    (h : ∀ s, Inv s → ∀ operation ∈ operations,
      Yields (perform s operation) (serve operation) Inv) {s : State} (hs : Inv s) :
    Yields (Converses perform s operations) (operations.map serve) Inv := by
  induction operations generalizing s with
  | nil =>
      refine ⟨⟨s, .done⟩, ?_⟩
      intro s' results hconverses
      cases hconverses with
      | done => exact ⟨rfl, hs⟩
  | cons operation operations ih =>
      have hfirst := h s hs operation List.mem_cons_self
      have hrest : ∀ s₁, Inv s₁ →
          Yields (Converses perform s₁ operations) (operations.map serve) Inv :=
        fun s₁ hs₁ => ih (fun s hs o ho => h s hs o (List.mem_cons_of_mem _ ho)) hs₁
      constructor
      · obtain ⟨s₁, hs₁⟩ := hfirst.exists_outcome
        obtain ⟨s', hs'⟩ := (hrest s₁ (hfirst.post_of_outcome hs₁)).exists_outcome
        exact ⟨s', .next hs₁ hs'⟩
      · intro s' results hconverses
        cases hconverses with
        | next hperform hconverses =>
            obtain ⟨rfl, hs₁⟩ := hfirst.of_outcome _ _ hperform
            obtain ⟨rfl, hs'⟩ := (hrest _ hs₁).of_outcome _ _ hconverses
            exact ⟨rfl, hs'⟩

end Conversation
