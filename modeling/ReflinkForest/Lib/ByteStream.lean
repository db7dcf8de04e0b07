import Mathlib.Data.List.Basic
import Mathlib.Tactic

/-! Readers and writers that move less than they are asked to. Copying with a limit delivers the
whole stream or stops at the limit. -/
namespace ByteStream
open List

/-- A reader of finitely many items. A read that delivers nothing is the end. -/
structure Reader (α ε ρ : Type) where
  read : ρ → ℕ → Except ε (List α × ρ)
  left : ρ → ℕ
  left_lt : ∀ r len items r', read r len = .ok (items, r') → items ≠ [] → left r' < left r

/-- A write returns how many of the items it took. -/
structure Writer (α ε ω : Type) where
  write : ω → List α → ω × Except ε ℕ

section Loops
variable {α ε ρ ω : Type}

/-- Write until nothing is left; a writer that takes nothing is the error `zero`. -/
def Writer.writeAll (W : Writer α ε ω) (zero : ε) (w : ω) (items : List α) : ω × Except ε Unit :=
  if items = [] then (w, .ok ())
  else
    match W.write w items with
    | (w, .error e) => (w, .error e)
    | (w, .ok 0) => (w, .error zero)
    | (w, .ok (n + 1)) => W.writeAll zero w (items.drop (n + 1))
termination_by items.length
decreasing_by
  have some := List.length_pos_iff.mpr ‹_›
  rw [List.length_drop]
  omega

/-- Read with a buffer of `len` items and write what was read, to the end of the reader. -/
def copy (R : Reader α ε ρ) (W : Writer α ε ω) (zero : ε) (len : ℕ) (r : ρ) (w : ω) :
    ω × Except ε ρ :=
  match _read : R.read r len with
  | .error e => (w, .error e)
  | .ok (items, r') =>
    if items = [] then (w, .ok r')
    else
      match W.writeAll zero w items with
      | (w, .error e) => (w, .error e)
      | (w, .ok ()) => copy R W zero len r' w
termination_by R.left r
decreasing_by exact R.left_lt _ _ _ _ ‹_› ‹_›

/-- Everything a reader delivers, and how it ends. -/
def Reader.drain (R : Reader α ε ρ) (len : ℕ) (r : ρ) : List α × Except ε ρ :=
  match _read : R.read r len with
  | .error e => ([], .error e)
  | .ok (items, r') =>
    if items = [] then ([], .ok r')
    else
      let rest := R.drain len r'
      (items ++ rest.1, rest.2)
termination_by R.left r
decreasing_by exact R.left_lt _ _ _ _ ‹_› ‹_›
end Loops

section Collecting
variable {α ε ρ ω : Type} {W : Writer α ε ω}
  {inv : ω → Prop} {out : ω → List α} {limit : ℕ} {w : ω} {items : List α}

/-- A writer that collects items up to a limit: it takes at least one item of what fits and
refuses what does not, unchanged. -/
structure Writer.Collects (W : Writer α ε ω) (inv : ω → Prop) (out : ω → List α) (limit : ℕ) :
    Prop where
  bounded : ∀ w, inv w → (out w).length ≤ limit
  takes : ∀ w items, inv w → items ≠ [] → (out w).length + items.length ≤ limit →
    ∃ n w', 0 < n ∧ n ≤ items.length ∧ W.write w items = (w', .ok n) ∧ inv w' ∧
      out w' = out w ++ items.take n
  refuses : ∀ w items, inv w → limit < (out w).length + items.length →
    ∃ e, W.write w items = (w, .error e)

theorem Writer.Collects.writeAll_of_le (collects : W.Collects inv out limit) (zero : ε)
    (holds : inv w) (fits : (out w).length + items.length ≤ limit) :
    ∃ w', W.writeAll zero w items = (w', .ok ()) ∧ inv w' ∧ out w' = out w ++ items := by
  induction size : items.length using Nat.strong_induction_on generalizing w items with
  | _ size ih =>
    rw [Writer.writeAll]
    by_cases empty : items = []
    · rw [if_pos empty]
      exact ⟨w, rfl, holds, by rw [empty, append_nil]⟩
    · obtain ⟨n, next, some, within, written, kept, grown⟩ :=
        collects.takes w items holds empty fits
      obtain ⟨n, rfl⟩ := Nat.exists_eq_succ_of_ne_zero some.ne'
      have rest : (out next).length + (items.drop (n + 1)).length ≤ limit := by
        rw [grown, length_append, length_take, length_drop]
        omega
      obtain ⟨last, finished, kept, all⟩ := ih _ (by rw [length_drop]; omega) kept rest rfl
      rw [if_neg empty, written]
      refine ⟨last, finished, kept, ?_⟩
      rw [all, grown, append_assoc, take_append_drop]

theorem Writer.Collects.writeAll_of_lt (collects : W.Collects inv out limit) (zero : ε)
    (holds : inv w) (exceeds : limit < (out w).length + items.length) :
    ∃ e, W.writeAll zero w items = (w, .error e) := by
  have some : items ≠ [] := by
    intro empty
    have bound := collects.bounded w holds
    rw [empty, length_nil] at exceeds
    omega
  obtain ⟨e, refused⟩ := collects.refuses w items holds exceeds
  exact ⟨e, by rw [Writer.writeAll, if_neg some, refused]⟩

/-- Copying delivers the whole stream when it fits, and fails behind a part of it otherwise. -/
theorem Writer.Collects.copy (collects : W.Collects inv out limit) (zero : ε)
    (R : Reader α ε ρ) (len : ℕ) (r : ρ) (holds : inv w) :
    ∃ w' result, copy R W zero len r w = (w', result) ∧ inv w' ∧
      out w' <+: out w ++ (R.drain len r).1 ∧
      ((out w).length + (R.drain len r).1.length ≤ limit →
        out w' = out w ++ (R.drain len r).1 ∧ result = (R.drain len r).2) ∧
      (limit < (out w).length + (R.drain len r).1.length → ∃ e, result = .error e) := by
  have bound := collects.bounded w holds
  induction size : R.left r using Nat.strong_induction_on generalizing r w with
  | _ size ih =>
    rw [ByteStream.copy, Reader.drain]
    split
    next e delivered =>
      refine ⟨w, .error e, rfl, holds, ?_, ?_, ?_⟩
      · exact prefix_append _ _
      · intro _
        exact ⟨(append_nil _).symm, rfl⟩
      · intro exceeds
        exact ⟨e, rfl⟩
    next items r' delivered =>
      by_cases empty : items = []
      · rw [if_pos empty, if_pos empty]
        refine ⟨w, .ok r', rfl, holds, prefix_append _ _, ?_, ?_⟩
        · intro _
          exact ⟨(append_nil _).symm, rfl⟩
        · intro exceeds
          rw [length_nil] at exceeds
          omega
      · rw [if_neg empty, if_neg empty]
        simp only [length_append, ← append_assoc]
        by_cases fits : (out w).length + items.length ≤ limit
        · obtain ⟨next, written, kept, grown⟩ := collects.writeAll_of_le zero holds fits
          obtain ⟨last, result, copied, kept, front, whole, fails⟩ :=
            ih _ (size ▸ R.left_lt _ _ _ _ delivered empty) r' kept (collects.bounded next kept) rfl
          rw [written]
          rw [grown] at front whole fails
          rw [length_append] at whole fails
          refine ⟨last, result, copied, kept, front, ?_, ?_⟩
          · intro small
            exact whole (by omega)
          · intro exceeds
            exact fails (by omega)
        · obtain ⟨e, refused⟩ := collects.writeAll_of_lt zero holds (not_le.mp fits)
          rw [refused]
          refine ⟨w, .error e, rfl, holds, ?_, ?_, ?_⟩
          · rw [append_assoc]
            exact prefix_append _ _
          · intro small
            omega
          · intro _
            exact ⟨e, rfl⟩
end Collecting

section Slices
variable {α ε : Type}

/-- Reads a list in pieces and ends as given. `pieces` says how many items the next read delivers
at most, by the number of items left; before the end it is at least one. -/
def sliced (pieces : ℕ → ℕ) (ends : Except ε Unit) : Reader α ε (List α) where
  read items len :=
    if items = [] then ends.map fun _ => ([], [])
    else
      let count := min len (max 1 (pieces items.length))
      .ok (items.take count, items.drop count)
  left := List.length
  left_lt := by
    intro items len delivered rest read some
    split at read
    · cases ends with
      | error e => cases read
      | ok => cases read; exact absurd rfl some
    · rename_i more
      cases read
      have taken : 0 < (items.take (min len (max 1 (pieces items.length)))).length :=
        List.length_pos_iff.mpr some
      rw [List.length_take] at taken
      rw [List.length_drop]
      omega

theorem drain_sliced (pieces : ℕ → ℕ) (ends : Except ε Unit) {len : ℕ} (buffer : 0 < len)
    (items : List α) :
    (sliced pieces ends).drain len items = (items, ends.map fun _ => []) := by
  induction size : items.length using Nat.strong_induction_on generalizing items with
  | _ size ih =>
    by_cases empty : items = []
    · have delivered : (sliced pieces ends : Reader α ε (List α)).read items len =
          ends.map fun _ => ([], []) := if_pos empty
      rw [Reader.drain]
      cases ends with
      | error e =>
        split
        next e' failed => rw [delivered] at failed; cases failed; rw [empty]; rfl
        next failed => rw [delivered] at failed; cases failed
      | ok =>
        split
        next failed => rw [delivered] at failed; cases failed
        next finished => rw [delivered] at finished; cases finished; rw [if_pos rfl, empty]; rfl
    · have some := length_pos_iff.mpr empty
      obtain ⟨count, counted⟩ : ∃ count, count = min len (max 1 (pieces items.length)) := ⟨_, rfl⟩
      have delivered : (sliced pieces ends : Reader α ε (List α)).read items len =
          .ok (items.take count, items.drop count) := by
        rw [counted]
        exact if_neg empty
      have taken : items.take count ≠ [] := by
        rw [← length_pos_iff, length_take]
        omega
      rw [Reader.drain]
      split
      next failed => rw [delivered] at failed; cases failed
      next found =>
        rw [delivered] at found
        cases found
        have shorter : (items.drop count).length < items.length := by
          rw [length_drop]
          omega
        rw [if_neg taken, ih _ (size ▸ shorter) _ rfl]
        simp only [take_append_drop]
end Slices
end ByteStream
