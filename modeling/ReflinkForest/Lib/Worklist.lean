import ReflinkForest.Lib.Bytes
import Mathlib.Algebra.BigOperators.Group.List.Basic
import Mathlib.Data.List.Nodup

/-! First-in first-out worklists: the loop over `pop_front`, and its instance that expands every
item once. -/
namespace Worklist
open Except List

variable {α β σ ε : Type}

/-- Visit the pending items in order. `none` means that the fuel ran out. -/
def drain (visit : σ → α → Except ε (σ × List α)) :
    ℕ → σ → List α → Option (Except ε σ)
  | _, state, [] => some (.ok state)
  | 0, _, _ :: _ => none
  | fuel + 1, state, item :: pending =>
    match visit state item with
    | .error e => some (.error e)
    | .ok (state', more) => drain visit fuel state' (pending ++ more)

section Rules
variable {visit : σ → α → Except ε (σ × List α)}

variable {fuel : ℕ} {state : σ} {pending : List α}

/-- A loop ends with the invariant, or fails at an item it reached with the invariant. -/
theorem drain_outcome (Inv : σ → List α → Prop)
    (step : ∀ state item pending state' more, Inv state (item :: pending) →
      visit state item = .ok (state', more) → Inv state' (pending ++ more))
    (start : Inv state pending) {outcome : Except ε σ}
    (run : drain visit fuel state pending = some outcome) :
    (∃ final, outcome = .ok final ∧ Inv final []) ∨
      ∃ e state item pending, outcome = .error e ∧ Inv state (item :: pending) ∧
        visit state item = .error e := by
  induction fuel generalizing state pending with
  | zero =>
    cases pending with
    | nil => exact .inl ⟨state, by simpa [drain] using run.symm, start⟩
    | cons item pending => simp [drain] at run
  | succ fuel ih =>
    cases pending with
    | nil => exact .inl ⟨state, by simpa [drain] using run.symm, start⟩
    | cons item pending =>
      rw [drain] at run
      rcases visited : visit state item with e | ⟨state', more⟩
      · rw [visited] at run
        exact .inr ⟨e, state, item, pending, (Option.some.inj run).symm, start, visited⟩
      · rw [visited] at run
        exact ih (step _ _ _ _ _ start visited) run

/-- A visit pays for the items it pushes from the credit of the state. -/
theorem drain_terminates (credit : σ → ℕ)
    (pays : ∀ state item state' more, visit state item = .ok (state', more) →
      credit state' + more.length ≤ credit state)
    (enough : credit state + pending.length ≤ fuel) :
    ∃ outcome, drain visit fuel state pending = some outcome := by
  induction fuel generalizing state pending with
  | zero =>
    cases pending with
    | nil => exact ⟨_, rfl⟩
    | cons item pending => simp at enough
  | succ fuel ih =>
    cases pending with
    | nil => exact ⟨_, rfl⟩
    | cons item pending =>
      rw [drain]
      rcases visited : visit state item with e | ⟨state', more⟩
      · exact ⟨_, rfl⟩
      · have paid := pays _ _ _ _ visited
        simp only [length_cons] at enough
        exact ih (by rw [length_append]; omega)
end Rules

section Closure
variable [DecidableEq α]

/-- Expand an item at its first visit and skip it at every later one. The
state is the list of seen items and the list of what their expansion gave. -/
def visitOnce (expand : α → Except ε (β × List α)) (state : List α × List β) (item : α) :
    Except ε ((List α × List β) × List α) :=
  if item ∈ state.1 then
    .ok (state, [])
  else do
    let (output, more) ← expand item
    .ok ((state.1 ++ [item], state.2 ++ [output]), more)

/-- The closure of the roots under successful expansion. -/
inductive Reaches (expand : α → Except ε (β × List α)) (roots : List α) : α → Prop
  | root {item : α} : item ∈ roots → Reaches expand roots item
  | child {item next : α} {output : β} {more : List α} : Reaches expand roots item →
      expand item = .ok (output, more) → next ∈ more → Reaches expand roots next

variable {expand : α → Except ε (β × List α)} {roots : List α}

variable {state state' : List α × List β} {item : α} {more : List α} {fuel : ℕ}

theorem visitOnce_eq_ok (h : visitOnce expand state item = .ok (state', more)) :
    (item ∈ state.1 ∧ state' = state ∧ more = []) ∨
      (item ∉ state.1 ∧ ∃ output, expand item = .ok (output, more) ∧
        state' = (state.1 ++ [item], state.2 ++ [output])) := by
  rw [visitOnce] at h
  split at h
  case isTrue seen =>
    simp only [ok.injEq, Prod.mk.injEq] at h
    exact .inl ⟨seen, h.1.symm, h.2.symm⟩
  case isFalse fresh =>
    obtain ⟨⟨output, found⟩, expanded, h⟩ := bind_eq_ok_iff.mp h
    simp only [ok.injEq, Prod.mk.injEq] at h
    obtain ⟨rfl, rfl⟩ := h
    exact .inr ⟨fresh, output, expanded, rfl⟩

/-- What holds between two visits of a walk from `roots`. -/
structure Closing (expand : α → Except ε (β × List α)) (roots : List α)
    (state : List α × List β) (pending : List α) : Prop where
  nodup : state.1.Nodup
  outputs : List.Forall₂ (fun item output => ∃ more, expand item = .ok (output, more))
    state.1 state.2
  reached : ∀ item ∈ state.1 ++ pending, Reaches expand roots item
  starts : ∀ item ∈ roots, item ∈ state.1 ++ pending
  closed : ∀ item ∈ state.1, ∀ output more, expand item = .ok (output, more) →
    ∀ next ∈ more, next ∈ state.1 ++ pending

omit [DecidableEq α] in
theorem Closing.start : Closing expand roots ([], []) roots where
  nodup := nodup_nil
  outputs := .nil
  reached item member := .root (by simpa using member)
  starts item member := by simpa using member
  closed item member := by simp at member

theorem Closing.visit {pending : List α} (inv : Closing expand roots state (item :: pending))
    (h : visitOnce expand state item = .ok (state', more)) :
    Closing expand roots state' (pending ++ more) := by
  rcases visitOnce_eq_ok h with ⟨seen, rfl, rfl⟩ | ⟨fresh, output, expanded, rfl⟩
  · have moved : ∀ next, next ∈ state'.1 ++ item :: pending →
      next ∈ state'.1 ++ (pending ++ []) := by
      intro next mem
      simp only [mem_append, mem_cons, append_nil] at mem ⊢
      rcases mem with mem | rfl | mem
      · exact .inl mem
      · exact .inl seen
      · exact .inr mem
    exact ⟨inv.nodup, inv.outputs, fun next mem => inv.reached next (by simp at mem ⊢; tauto),
      fun next mem => moved next (inv.starts next mem),
      fun parent mem output more expanded next child =>
        moved next (inv.closed parent mem output more expanded next child)⟩
  · have moved : ∀ next, next ∈ state.1 ++ item :: pending →
        next ∈ (state.1 ++ [item]) ++ (pending ++ more) := by
      intro next mem
      simp only [mem_append, mem_cons] at mem ⊢
      tauto
    have here : Reaches expand roots item := inv.reached item (by simp)
    refine ⟨?_, ?_, ?_, fun next mem => moved next (inv.starts next mem), ?_⟩
    · exact inv.nodup.append (nodup_singleton item) (by simpa using fresh)
    · exact rel_append inv.outputs (.cons ⟨more, expanded⟩ .nil)
    · intro next mem
      simp only [mem_append, mem_singleton] at mem
      rcases mem with (mem | rfl) | mem | mem
      · exact inv.reached next (by simp [mem])
      · exact here
      · exact inv.reached next (by simp [mem])
      · exact .child here expanded mem
    · intro parent mem output' more' expanded' next child
      rcases mem_append.mp mem with mem | same
      · exact moved next (inv.closed parent mem output' more' expanded' next child)
      · rw [mem_singleton] at same
        subst same
        rw [expanded, ok.injEq, Prod.mk.injEq] at expanded'
        obtain ⟨rfl, rfl⟩ := expanded'
        exact mem_append_right _ (mem_append_right _ child)

/-- A finished walk has seen every reachable item exactly once, and its outputs
are those of the seen items in the order of the visits. -/
theorem drain_visitOnce {final : List α × List β}
    (run : drain (visitOnce expand) fuel ([], []) roots = some (.ok final)) :
    final.1.Nodup ∧ (∀ item, item ∈ final.1 ↔ Reaches expand roots item) ∧
      List.Forall₂ (fun item output => ∃ more, expand item = .ok (output, more))
        final.1 final.2 := by
  obtain ⟨_, ⟨⟩, inv⟩ | ⟨_, _, _, _, ⟨⟩, _⟩ :=
    drain_outcome (Closing expand roots) (fun _ _ _ _ _ inv h => inv.visit h) .start run
  refine ⟨inv.nodup, ?_, inv.outputs⟩
  intro item
  constructor
  · intro mem
    exact inv.reached item (by simpa using mem)
  · intro reaches
    induction reaches with
    | root mem => simpa using inv.starts _ mem
    | child _ expanded mem ih => simpa using inv.closed _ ih _ _ expanded _ mem

/-- The walk succeeds exactly when every reachable item can be expanded. -/
theorem drain_visitOnce_ok_iff {outcome : Except ε (List α × List β)}
    (run : drain (visitOnce expand) fuel ([], []) roots = some outcome) :
    (∃ final, outcome = .ok final) ↔
      ∀ item, Reaches expand roots item → ∃ result, expand item = .ok result := by
  constructor
  · intro finished item reaches
    obtain ⟨final, rfl⟩ := finished
    obtain ⟨-, seen, outputs⟩ := drain_visitOnce run
    obtain ⟨i, bound, rfl⟩ := getElem_of_mem ((seen item).mpr reaches)
    obtain ⟨more, expanded⟩ := outputs.get bound (outputs.length_eq ▸ bound)
    exact ⟨_, expanded⟩
  · intro expands
    obtain ⟨final, same, _⟩ | ⟨e, state, item, pending, _, inv, failed⟩ :=
      drain_outcome (Closing expand roots) (fun _ _ _ _ _ inv h => inv.visit h) .start run
    · exact ⟨final, same⟩
    · obtain ⟨result, expanded⟩ := expands item (inv.reached item (by simp))
      by_cases seen : item ∈ state.1 <;> simp [visitOnce, seen, expanded, ok_bind] at failed

/-- The number of items that an expansion pushes. -/
def degree (expand : α → Except ε (β × List α)) (item : α) : ℕ :=
  match expand item with
  | .ok (_, more) => more.length
  | .error _ => 0

/-- What the items of `items` outside `seen` can still push. -/
def owed (expand : α → Except ε (β × List α)) (items seen : List α) : ℕ :=
  ((items.filter (· ∉ seen)).map (degree expand)).sum

variable (expand) in
theorem owed_cons (head : α) (items seen : List α) :
    owed expand (head :: items) seen =
      (if head ∈ seen then 0 else degree expand head) + owed expand items seen := by
  by_cases old : head ∈ seen <;> simp [owed, old]

variable (expand) in
theorem owed_append_le (items seen : List α) (item : α) :
    owed expand items (seen ++ [item]) ≤ owed expand items seen := by
  induction items with
  | nil => exact Nat.le_refl _
  | cons head items ih =>
    simp only [owed_cons, mem_append, mem_singleton]
    by_cases old : head ∈ seen
    · simpa [old] using ih
    · by_cases same : head = item <;> simp [old, same] <;> omega

variable (expand) in
theorem owed_pays {items seen : List α} (known : item ∈ items) (fresh : item ∉ seen) :
    owed expand items (seen ++ [item]) + degree expand item ≤ owed expand items seen := by
  induction items with
  | nil => simp at known
  | cons head items ih =>
    simp only [owed_cons, mem_append, mem_singleton]
    by_cases same : head = item
    · subst same
      have rest := owed_append_le expand items seen head
      simp [fresh]
      omega
    · have paid := ih ((mem_cons.mp known).resolve_left fun h => same h.symm)
      simp only [same, or_false]
      omega

/-- Fuel for a walk whose expansions succeed only on `items`. -/
def enoughFuel (expand : α → Except ε (β × List α)) (items roots : List α) : ℕ :=
  roots.length + (items.map (degree expand)).sum

theorem drain_enoughFuel (items : List α)
    (known : ∀ item result, expand item = .ok result → item ∈ items) :
    ∃ outcome, drain (visitOnce expand) (enoughFuel expand items roots) ([], []) roots =
      some outcome := by
  apply drain_terminates fun state : List α × List β => owed expand items state.1
  · intro state item state' more visited
    rcases visitOnce_eq_ok visited with ⟨_, rfl, rfl⟩ | ⟨fresh, output, expanded, rfl⟩
    · simp
    · have paid := owed_pays expand (known _ _ expanded) fresh
      rwa [degree, expanded] at paid
  · simp [owed, enoughFuel]
    omega
end Closure
end Worklist
