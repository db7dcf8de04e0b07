import Mathlib.Tactic.Common

/-! Computations that change a state and may stop with an error. The state that a step has reached
survives its failure. -/
/-- A step from a state to a state with a result. -/
structure Fallible (σ ε α : Type) where
  run : σ → σ × Except ε α

namespace Fallible
variable {σ ε α β : Type}

instance : Monad (Fallible σ ε) where
  pure a := ⟨fun s => (s, .ok a)⟩
  bind m f := ⟨fun s =>
    match m.run s with
    | (s', .ok a) => (f a).run s'
    | (s', .error e) => (s', .error e)⟩

def ofExcept (result : Except ε α) : Fallible σ ε α := ⟨fun s => (s, result)⟩

/-- A look at the state that may fail. -/
def query (f : σ → Except ε α) : Fallible σ ε α := ⟨fun s => (s, f s)⟩

def gets (f : σ → α) : Fallible σ ε α := ⟨fun s => (s, .ok (f s))⟩

/-- A step that changes the state or fails without a trace. -/
def update (f : σ → Except ε σ) : Fallible σ ε Unit := ⟨fun s =>
  match f s with
  | .ok s' => (s', .ok ())
  | .error e => (s, .error e)⟩

/-- A computation that leaves the state alone. -/
def Reads (m : Fallible σ ε α) : Prop := ∀ s, (m.run s).1 = s

/-- What holds of the result and of the state behind it. -/
def Triple (pre : σ → Prop) (m : Fallible σ ε α) (post : Except ε α → σ → Prop) : Prop :=
  ∀ s, pre s → post (m.run s).2 (m.run s).1

theorem run_bind_of_ok {m : Fallible σ ε α} {f : α → Fallible σ ε β} {s s' : σ} {a : α}
    (h : m.run s = (s', .ok a)) : (m >>= f).run s = (f a).run s' := by
  simp only [bind, h]

theorem run_bind_of_error {m : Fallible σ ε α} {f : α → Fallible σ ε β} {s s' : σ} {e : ε}
    (h : m.run s = (s', .error e)) : (m >>= f).run s = (s', .error e) := by
  simp only [bind, h]

theorem run_query (f : σ → Except ε α) (s : σ) : (query f).run s = (s, f s) := rfl

theorem run_update_of_ok {f : σ → Except ε σ} {s s' : σ} (h : f s = .ok s') :
    (update f).run s = (s', .ok ()) := by
  simp only [update, h]

theorem run_update_of_error {f : σ → Except ε σ} {s : σ} {e : ε} (h : f s = .error e) :
    (update f).run s = (s, .error e) := by
  simp only [update, h]

@[simp] theorem run_gets_bind (f : σ → α) (k : α → Fallible σ ε β) (s : σ) :
    (gets f >>= k).run s = (k (f s)).run s := rfl

@[simp] theorem run_pure (a : α) (s : σ) : (pure a : Fallible σ ε α).run s = (s, .ok a) := rfl

theorem run_bind_eq_ok_iff {m : Fallible σ ε α} {f : α → Fallible σ ε β} {s s' : σ} {b : β} :
    (m >>= f).run s = (s', .ok b) ↔
      ∃ s₁ a, m.run s = (s₁, .ok a) ∧ (f a).run s₁ = (s', .ok b) := by
  rcases result : m.run s with ⟨s₁, e | a⟩
  · simp [run_bind_of_error result]
  · simp [run_bind_of_ok result]

theorem run_bind_eq_error_iff {m : Fallible σ ε α} {f : α → Fallible σ ε β} {s s' : σ} {e : ε} :
    (m >>= f).run s = (s', .error e) ↔ m.run s = (s', .error e) ∨
      ∃ s₁ a, m.run s = (s₁, .ok a) ∧ (f a).run s₁ = (s', .error e) := by
  rcases result : m.run s with ⟨s₁, e | a⟩
  · simp [run_bind_of_error result]
  · simp [run_bind_of_ok result]

theorem run_ofExcept_eq_iff {result result' : Except ε α} {s s' : σ} :
    (ofExcept result).run s = (s', result') ↔ s = s' ∧ result = result' := by
  simp [ofExcept]

theorem run_query_eq_iff {f : σ → Except ε α} {result : Except ε α} {s s' : σ} :
    (query f).run s = (s', result) ↔ s = s' ∧ f s = result := by
  simp [query]

theorem run_update_eq_error_iff {f : σ → Except ε σ} {s s' : σ} {e : ε} :
    (update f).run s = (s', .error e) ↔ s = s' ∧ f s = .error e := by
  cases result : f s with
  | error e => simp [run_update_of_error result]
  | ok s₁ => simp [run_update_of_ok result]

theorem run_update_eq_ok_iff {f : σ → Except ε σ} {s s' : σ} {u : Unit} :
    (update f).run s = (s', .ok u) ↔ f s = .ok s' := by
  cases result : f s with
  | error e => simp [run_update_of_error result]
  | ok s₁ => simp [run_update_of_ok result]

theorem state_eq {m : Fallible σ ε α} {s s' : σ} {result : Except ε α}
    (done : m.run s = (s', result)) (reads : Reads m) : s' = s := by
  rw [← reads s, done]

theorem Reads.query (f : σ → Except ε α) : Reads (Fallible.query f) := fun _ => rfl

theorem Reads.pure (a : α) : Reads (Pure.pure a : Fallible σ ε α) := fun _ => rfl

theorem Reads.bind {m : Fallible σ ε α} {f : α → Fallible σ ε β} (first : Reads m)
    (next : ∀ a, Reads (f a)) : Reads (m >>= f) := by
  intro s
  have same := first s
  rcases result : m.run s with ⟨s', e | a⟩
  · rw [run_bind_of_error result, ← same, result]
  · rw [run_bind_of_ok result, next, ← same, result]

namespace Triple
variable {pre pre' : σ → Prop} {m : Fallible σ ε α} {mid : Except ε α → σ → Prop}
  {f : α → Fallible σ ε β} {post : Except ε β → σ → Prop}

/-- A step that is known from `pre'` goes first, also where more is known. -/
theorem bind (first : Triple pre' m mid) (before : ∀ s, pre s → pre' s)
    (next : ∀ a, Triple (mid (.ok a)) (f a) post)
    (stop : ∀ e s, mid (.error e) s → post (.error e) s) : Triple pre (m >>= f) post := by
  intro s holds
  have reached := first s (before s holds)
  rcases result : m.run s with ⟨s', _ | _⟩
  · rw [result] at reached
    rw [run_bind_of_error result]
    exact stop _ _ reached
  · rw [result] at reached
    rw [run_bind_of_ok result]
    exact next _ _ reached

theorem gets {g : σ → α} (next : ∀ a, Triple (fun s => pre s ∧ g s = a) (f a) post) :
    Triple pre (Fallible.gets g >>= f) post := by
  intro s holds
  exact next (g s) s ⟨holds, rfl⟩

theorem ofExcept {result : Except ε α}
    (next : ∀ a, result = .ok a → Triple pre (f a) post)
    (stop : ∀ e, result = .error e → ∀ s, pre s → post (.error e) s) :
    Triple pre (Fallible.ofExcept result >>= f) post := by
  intro s holds
  cases result with
  | error e => exact stop e rfl s holds
  | ok a => exact next a rfl s holds

end Triple
end Fallible
