import ReflinkForest.Lib.Bytes

/-! Two systems that answer the same calls. If one call on related states fails alike or succeeds in
related states, then so does every sequence of calls. -/
namespace Simulation
open Except

variable {ε σ τ ι : Type}

/-- Calls in order with their results; a call that fails leaves the state as it was. -/
def run (step : σ → ι → Except ε σ) : σ → List ι → σ × List (Except ε Unit)
  | s, [] => (s, [])
  | s, call :: calls =>
    match step s call with
    | .error e => ((run step s calls).1, .error e :: (run step s calls).2)
    | .ok s' => ((run step s' calls).1, .ok () :: (run step s' calls).2)

section Run
variable {step : σ → ι → Except ε σ} {s : σ}

theorem run_invariant {I : σ → Prop} (keeps : ∀ s s' call, step s call = .ok s' → I s → I s')
    (start : I s) (calls : List ι) : I (run step s calls).1 := by
  induction calls generalizing s with
  | nil => exact start
  | cons call calls ih =>
    rw [run]
    split
    · exact ih start
    · rename_i done
      exact ih (keeps _ _ _ done start)

end Run

section Order
variable {step : σ → ι → Except ε σ} {R : σ → σ → Prop}

theorem foldlM_related
    (keeps : ∀ s s' t call, R s t → step s call = .ok s' → ∃ t', step t call = .ok t' ∧ R s' t')
    {calls : List ι} {s s' t : σ} (states : R s t) (done : calls.foldlM step s = .ok s') :
    ∃ t', calls.foldlM step t = .ok t' ∧ R s' t' := by
  induction calls generalizing s t with
  | nil =>
    cases done
    exact ⟨t, rfl, states⟩
  | cons call calls ih =>
    rw [List.foldlM_cons] at done ⊢
    obtain ⟨next, first, rest⟩ := bind_eq_ok_iff.mp done
    obtain ⟨next', first', related⟩ := keeps _ _ _ _ states first
    rw [first']
    exact ih related rest

/-- If neighbouring calls can be exchanged, calls that all succeed in one order succeed in every
order, in related states. -/
theorem foldlM_perm (refl : ∀ s, R s s) (trans : ∀ s t u, R s t → R t u → R s u)
    (keeps : ∀ s s' t call, R s t → step s call = .ok s' → ∃ t', step t call = .ok t' ∧ R s' t')
    (swaps : ∀ s s' s'' a b, step s a = .ok s' → step s' b = .ok s'' →
      ∃ t' t'', step s b = .ok t' ∧ step t' a = .ok t'' ∧ R s'' t'')
    {calls calls' : List ι} (perm : calls.Perm calls') {s s' : σ}
    (done : calls.foldlM step s = .ok s') : ∃ t', calls'.foldlM step s = .ok t' ∧ R s' t' := by
  induction perm generalizing s s' with
  | nil => exact ⟨s', done, refl s'⟩
  | cons call _ ih =>
    rw [List.foldlM_cons] at done ⊢
    obtain ⟨next, first, rest⟩ := bind_eq_ok_iff.mp done
    rw [first]
    exact ih rest
  | swap a b calls =>
    simp only [List.foldlM_cons] at done ⊢
    obtain ⟨s₁, first, rest⟩ := bind_eq_ok_iff.mp done
    obtain ⟨s₂, second, rest⟩ := bind_eq_ok_iff.mp rest
    obtain ⟨t₁, t₂, first', second', related⟩ := swaps _ _ _ _ _ first second
    rw [first', ok_bind, second', ok_bind]
    exact foldlM_related keeps related rest
  | trans _ _ ih ih' =>
    obtain ⟨t, middle, related⟩ := ih done
    obtain ⟨u, last, related'⟩ := ih' middle
    exact ⟨u, last, trans _ _ _ related related'⟩
end Order

/-- Two results that fail alike or succeed in related states. -/
inductive Related (R : σ → τ → Prop) : Except ε σ → Except ε τ → Prop where
  | error (e : ε) : Related R (.error e) (.error e)
  | ok {s : σ} {t : τ} (states : R s t) : Related R (.ok s) (.ok t)

variable {R : σ → τ → Prop} {step : σ → ι → Except ε σ} {step' : τ → ι → Except ε τ}

theorem Related.require {p q : Prop} [Decidable p] [Decidable q] {e : ε} {x : Except ε σ}
    {y : Except ε τ} (same : p ↔ q) (rest : p → Related R x y) :
    Related R (Except.require p e >>= fun _ => x) (Except.require q e >>= fun _ => y) := by
  by_cases holds : p
  · rw [require_pos holds, require_pos (same.mp holds)]
    exact rest holds
  · rw [require_neg holds, require_neg fun other => holds (same.mpr other)]
    exact .error e

theorem Related.run (simulates : ∀ s t call, R s t → Related R (step s call) (step' t call))
    {s : σ} {t : τ} (states : R s t) (calls : List ι) :
    (Simulation.run step s calls).2 = (Simulation.run step' t calls).2 ∧
      R (Simulation.run step s calls).1 (Simulation.run step' t calls).1 := by
  induction calls generalizing s t with
  | nil => exact ⟨rfl, states⟩
  | cons call calls ih =>
    have answers := simulates s t call states
    rw [Simulation.run, Simulation.run]
    generalize step s call = x at answers
    generalize step' t call = y at answers
    cases answers with
    | error e =>
      obtain ⟨results, later⟩ := ih states
      exact ⟨congrArg (Except.error e :: ·) results, later⟩
    | ok next =>
      obtain ⟨results, later⟩ := ih next
      exact ⟨congrArg (Except.ok () :: ·) results, later⟩
end Simulation
