import Mathlib.Data.List.Infix

/-!
# Readers of a stream

A reader takes what it needs from the front of the symbols that are left, or fails. A format without
an end mark can be read back only if no value ends where a longer one goes on; `Reads` says this of
one value: the reader takes exactly its symbols, whatever follows, and fails on every shorter part
of them. `Takes` says the converse of a reader: what it took and what it made of it are in a
relation. Readers that follow one another keep both.
-/

namespace Reading

abbrev Reader (σ ε α : Type) := StateT (List σ) (Except ε) α

variable {σ ε α β : Type}

/-- The next `size` symbols, or as many as are left. -/
def next (size : Nat) : Reader σ ε (List σ) := fun s => .ok (s.take size, s.drop size)

@[simp] theorem next_run (size : Nat) (s : List σ) :
    (next size : Reader σ ε (List σ)).run s = .ok (s.take size, s.drop size) := rfl

structure Reads (Fails : ε → Prop) (read : Reader σ ε α) (symbols : List σ) (value : α) : Prop where
  whole : ∀ rest, read.run (symbols ++ rest) = .ok (value, rest)
  cut : ∀ front, front <+: symbols → front ≠ symbols → ∃ e, read.run front = .error e ∧ Fails e

variable {Fails : ε → Prop} {read : Reader σ ε α} {symbols : List σ} {value : α}

theorem bind_run_ok {s s' : List σ} (h : read.run s = .ok (value, s')) (k : α → Reader σ ε β) :
    (read >>= k).run s = (k value).run s' := by
  rw [StateT.run_bind, h]
  rfl

theorem bind_run_error {s : List σ} {e : ε} (h : read.run s = .error e) (k : α → Reader σ ε β) :
    (read >>= k).run s = .error e := by
  rw [StateT.run_bind, h]
  rfl

theorem cut_append_cases {front left right : List σ} (h : front <+: left ++ right)
    (hne : front ≠ left ++ right) :
    (front <+: left ∧ front ≠ left)
      ∨ ∃ more, front = left ++ more ∧ more <+: right ∧ more ≠ right := by
  by_cases hleft : left <+: front
  · obtain ⟨more, rfl⟩ := hleft
    refine Or.inr ⟨more, rfl, (List.prefix_append_right_inj left).mp h, ?_⟩
    rintro rfl
    exact hne rfl
  · refine Or.inl ⟨?_, ?_⟩
    · exact (List.prefix_or_prefix_of_prefix h (List.prefix_append left right)).resolve_right hleft
    · rintro rfl
      exact hleft (List.prefix_refl front)

/-- What is decided without reading. -/
theorem Reads.lift {x : Except ε α} (h : x = .ok value) :
    Reads Fails (liftM x : Reader σ ε α) [] value where
  whole rest := by
    subst h
    rfl
  cut front hfront hne := absurd (List.prefix_nil.mp hfront) hne

theorem Reads.bind {k : α → Reader σ ε β} {symbols' : List σ} {value' : β}
    (h : Reads Fails read symbols value) (hk : Reads Fails (k value) symbols' value') :
    Reads Fails (read >>= k) (symbols ++ symbols') value' where
  whole rest := by
    rw [List.append_assoc, bind_run_ok (h.whole _), hk.whole]
  cut front hfront hne := by
    rcases cut_append_cases hfront hne with ⟨hcut, hshort⟩ | ⟨more, rfl, hcut, hshort⟩
    · obtain ⟨e, herror, hfails⟩ := h.cut front hcut hshort
      exact ⟨e, bind_run_error herror k, hfails⟩
    · obtain ⟨e, herror, hfails⟩ := hk.cut more hcut hshort
      exact ⟨e, by rw [bind_run_ok (h.whole more), herror], hfails⟩

/-- A reader that takes `size` symbols and fails when there are fewer. -/
theorem reads_next {size : Nat} {e : ε} (hfails : Fails e) (f : List σ → α)
    (hlen : symbols.length = size) :
    Reads Fails (do
      let taken ← next size
      if taken.length < size then throw e else pure (f taken)) symbols (f symbols) where
  whole rest := by
    rw [bind_run_ok (next_run size _), List.take_left' hlen, List.drop_left' hlen,
      if_neg (Nat.not_lt.mpr hlen.ge)]
    rfl
  cut front hfront hne := by
    have hle := hfront.length_le
    have hlength : front.length ≠ symbols.length := fun heq => hne (hfront.eq_of_length heq)
    have hshort : (front.take size).length < size := by
      rw [List.length_take]
      omega
    rw [bind_run_ok (next_run size _), if_pos hshort]
    exact ⟨e, rfl, hfails⟩

/-! ### What a reader has taken -/

/-- Whenever the reader succeeds, it has taken symbols that `P` relates to its value. -/
def Takes (read : Reader σ ε α) (P : List σ → α → Prop) : Prop :=
  ∀ s v s', read.run s = .ok (v, s') → ∃ taken, s = taken ++ s' ∧ P taken v

section Takes

variable {P Q : List σ → α → Prop}

theorem Takes.mono (h : Takes read P) (himp : ∀ taken v, P taken v → Q taken v) : Takes read Q := by
  intro s v s' hrun
  obtain ⟨taken, heq, hP⟩ := h s v s' hrun
  exact ⟨taken, heq, himp _ _ hP⟩

theorem Takes.bind {k : α → Reader σ ε β} {R : α → List σ → β → Prop} (h : Takes read P)
    (hk : ∀ a, Takes (k a) (R a)) :
    Takes (read >>= k) fun taken v => ∃ a left right, taken = left ++ right ∧ P left a
      ∧ R a right v := by
  intro s v s' hrun
  rw [StateT.run_bind] at hrun
  cases hread : read.run s with
  | error e =>
      rw [hread] at hrun
      cases hrun
  | ok result =>
      obtain ⟨a, s₁⟩ := result
      rw [hread] at hrun
      obtain ⟨left, rfl, hP⟩ := h s a s₁ hread
      obtain ⟨right, rfl, hR⟩ := hk a s₁ v s' hrun
      exact ⟨left ++ right, by rw [List.append_assoc], a, left, right, rfl, hP, hR⟩

theorem takes_lift (x : Except ε α) :
    Takes (liftM x : Reader σ ε α) fun taken v => taken = [] ∧ x = .ok v := by
  intro s v s' hrun
  cases x with
  | error e => cases hrun
  | ok value =>
      obtain ⟨rfl, rfl⟩ := Prod.mk.inj (Except.ok.inj hrun)
      exact ⟨[], rfl, rfl, rfl⟩

theorem takes_next {size : Nat} {e : ε} (f : List σ → α) :
    Takes (do
      let taken ← next size
      if taken.length < size then throw e else pure (f taken) : Reader σ ε α)
      fun taken v => taken.length = size ∧ v = f taken := by
  intro s v s' hrun
  rw [bind_run_ok (next_run size s)] at hrun
  split at hrun
  · cases hrun
  · next hlong =>
      obtain ⟨rfl, rfl⟩ := Prod.mk.inj (Except.ok.inj hrun)
      rw [List.length_take] at hlong
      refine ⟨s.take size, (List.take_append_drop size s).symm, ?_, rfl⟩
      rw [List.length_take]
      omega

end Takes

end Reading
