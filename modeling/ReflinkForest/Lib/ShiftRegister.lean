import Mathlib.Data.BitVec
import Mathlib.Logic.Function.Iterate

/-! Reflected shift registers with feedback, as used by cyclic redundancy checks. A short burst is
seen in the final state. -/
/-- Lists that agree at every position outside the window `lo ≤ i < hi`. -/
def AgreeOutside {α : Type*} (lo hi : ℕ) (left right : List α) : Prop :=
  ∀ i, i < lo ∨ hi ≤ i → left[i]? = right[i]?

namespace AgreeOutside
variable {α β : Type*} {lo hi : ℕ} {left right : List α}

section
variable (agree : AgreeOutside lo hi left right)
include agree

theorem take (n : ℕ) :
    AgreeOutside lo hi (left.take n) (right.take n) := by
  intro i outside
  rw [List.getElem?_take, List.getElem?_take, agree i outside]

theorem drop (n : ℕ) :
    AgreeOutside (lo - n) (hi - n) (left.drop n) (right.drop n) := by
  intro i outside
  rw [List.getElem?_drop, List.getElem?_drop]
  exact agree (n + i) (by omega)

theorem map (f : α → β) :
    AgreeOutside lo hi (left.map f) (right.map f) := by
  intro i outside
  rw [List.getElem?_map, List.getElem?_map, agree i outside]

theorem append_right
    (length : left.length = right.length) (rest : List α) :
    AgreeOutside lo hi (left ++ rest) (right ++ rest) := by
  intro i outside
  simp only [List.getElem?_append, length, agree i outside]

theorem take_eq {n : ℕ} (before : n ≤ lo) :
    left.take n = right.take n := by
  refine List.ext_getElem? fun i => ?_
  rw [List.getElem?_take, List.getElem?_take]
  split
  · exact agree i (.inl (by omega))
  · rfl

theorem drop_eq {n : ℕ} (behind : hi ≤ n) :
    left.drop n = right.drop n := by
  refine List.ext_getElem? fun i => ?_
  rw [List.getElem?_drop, List.getElem?_drop]
  exact agree (n + i) (.inr (by omega))

theorem exists_ne (differ : left ≠ right) :
    ∃ i, lo ≤ i ∧ i < hi ∧ left[i]? ≠ right[i]? := by
  by_contra none
  push Not at none
  refine differ (List.ext_getElem? fun i => ?_)
  by_cases outside : i < lo ∨ hi ≤ i
  · exact agree i outside
  · exact none i (by omega) (by omega)

/-- The common surroundings of the window and its two contents. -/
theorem split :
    ∃ before after inner inner', left = before ++ inner ++ after ∧
      right = before ++ inner' ++ after ∧ inner.length ≤ hi - lo := by
  have parts (xs : List α) :
      xs = xs.take lo ++ (xs.drop lo).take (max lo hi - lo) ++ xs.drop (max lo hi) := by
    have reach : lo + (max lo hi - lo) = max lo hi := by omega
    rw [List.append_assoc, ← reach, ← List.drop_drop, Nat.add_sub_cancel_left,
      List.take_append_drop, List.take_append_drop]
  refine ⟨_, _, _, (right.drop lo).take (max lo hi - lo), parts left, ?_, by simp; omega⟩
  rw [agree.take_eq le_rfl, agree.drop_eq (le_max_right lo hi)]
  exact parts right
end
end AgreeOutside

namespace ShiftRegister
variable {w : ℕ} (poly : BitVec w)

/-- One bit leaves the register; a one that leaves is fed back. -/
def step (x : BitVec w) : BitVec w := (x >>> 1) ^^^ (if x.getLsbD 0 then poly else 0)

/-- One byte enters the register. -/
def feed (state : BitVec w) (byte : BitVec 8) : BitVec w :=
  (step poly)^[8] (state ^^^ byte.setWidth w)

/-- Bytes side by side, the first one lowest. -/
def pack : List (BitVec 8) → BitVec w
  | [] => 0
  | byte :: bytes => byte.setWidth w ^^^ (pack bytes <<< 8)

variable {poly} {x y : BitVec w}

theorem step_xor : step poly (x ^^^ y) = step poly x ^^^ step poly y := by
  unfold step
  rw [BitVec.ushiftRight_xor_distrib, BitVec.getLsbD_xor]
  cases x.getLsbD 0 <;> cases y.getLsbD 0 <;> ext i <;> simp <;> grind

theorem iterate_step_xor (n : ℕ) :
    (step poly)^[n] (x ^^^ y) = (step poly)^[n] x ^^^ (step poly)^[n] y := by
  induction n generalizing x y with
  | zero => rfl
  | succ n ih => rw [Function.iterate_succ_apply, step_xor, ih, Function.iterate_succ_apply,
      Function.iterate_succ_apply]

/-- The bit that leaves can be read off the top of the register. -/
theorem step_injective (top : poly.getLsbD (w - 1) = true) : Function.Injective (step poly) := by
  intro x y same
  have lowest : ∀ z : BitVec w, (step poly z).getLsbD (w - 1) = z.getLsbD 0 := by
    intro z
    have high : z.getLsbD (1 + (w - 1)) = false := BitVec.getLsbD_of_ge z _ (by omega)
    unfold step
    cases low : z.getLsbD 0 <;> simp [high, top]
  have low : x.getLsbD 0 = y.getLsbD 0 := by rw [← lowest x, ← lowest y, same]
  have shifted : x >>> 1 = y >>> 1 := by
    unfold step at same
    rw [low] at same
    exact (BitVec.xor_left_inj _).mp same
  refine BitVec.eq_of_getLsbD_eq fun i inside => ?_
  cases i with
  | zero => exact low
  | succ i =>
    have bit := congrArg (fun z => z.getLsbD i) shifted
    simpa [Nat.add_comm] using bit

theorem step_shiftLeft (high : x.getLsbD (w - 1) = false) : step poly (x <<< 1) = x := by
  unfold step
  have low : (x <<< 1).getLsbD 0 = false := by simp
  rw [low]
  refine BitVec.eq_of_getLsbD_eq fun i inside => ?_
  by_cases last : i = w - 1
  · subst last
    simp [high]
  · have room : 1 + i < w := by omega
    simp [room, BitVec.getLsbD_eq_getElem inside]

/-- Bits that have room above them come back down unchanged. -/
theorem iterate_step_shiftLeft (n : ℕ) (room : ∀ i, w - n ≤ i → x.getLsbD i = false) :
    (step poly)^[n] (x <<< n) = x := by
  induction n with
  | zero => simp
  | succ n ih =>
    have high : (x <<< n).getLsbD (w - 1) = false := by
      rw [BitVec.getLsbD_shiftLeft]
      have vacant := room (w - 1 - n) (by omega)
      simp [vacant]
    rw [Function.iterate_succ_apply, BitVec.shiftLeft_add, step_shiftLeft high]
    exact ih fun i above => room i (by omega)

theorem getLsbD_pack_cons {byte : BitVec 8} {bytes : List (BitVec 8)} {i : ℕ} (inside : i < w) :
    (pack (byte :: bytes) : BitVec w).getLsbD i
      = if i < 8 then byte.getLsbD i else (pack bytes : BitVec w).getLsbD (i - 8) := by
  rw [pack, BitVec.getLsbD_xor, BitVec.getLsbD_setWidth, BitVec.getLsbD_shiftLeft]
  split
  · simp [*]
  · have outside : byte.getLsbD i = false := BitVec.getLsbD_of_ge byte i (by omega)
    simp [*]

theorem getLsbD_pack {bytes : List (BitVec 8)} {i : ℕ} (above : 8 * bytes.length ≤ i) :
    (pack bytes : BitVec w).getLsbD i = false := by
  induction bytes generalizing i with
  | nil => simp [pack]
  | cons byte bytes ih =>
    rw [List.length_cons] at above
    have rest := @ih (i - 8) (by omega)
    have outside : byte.getLsbD i = false := BitVec.getLsbD_of_ge byte i (by omega)
    simp [pack, rest, outside]

/-- Feeding few bytes is loading them side by side and shifting them through. -/
theorem foldl_feed {state : BitVec w} {bytes : List (BitVec 8)}
    (fits : 8 * bytes.length ≤ w) :
    bytes.foldl (feed poly) state
      = (step poly)^[8 * bytes.length] (state ^^^ pack bytes) := by
  induction bytes generalizing state with
  | nil => simp [pack]
  | cons byte bytes ih =>
    rw [List.length_cons] at fits
    have lowered : (step poly)^[8] (pack bytes <<< 8) = (pack bytes : BitVec w) :=
      iterate_step_shiftLeft 8 fun i above => getLsbD_pack (by omega)
    have loaded : feed poly state byte ^^^ pack bytes
        = (step poly)^[8] (state ^^^ pack (byte :: bytes)) := by
      rw [pack, ← BitVec.xor_assoc, iterate_step_xor, lowered, feed]
    rw [List.foldl_cons, ih (by omega), loaded, ← Function.iterate_add_apply, List.length_cons,
      Nat.mul_succ]

theorem pack_injective {left right : List (BitVec 8)} (fits : 8 * left.length ≤ w)
    (length : left.length = right.length) (same : (pack left : BitVec w) = pack right) :
    left = right := by
  induction left generalizing right with
  | nil => exact (List.length_eq_zero_iff.mp length.symm).symm
  | cons byte bytes ih =>
    cases right with
    | nil => simp at length
    | cons other others =>
      simp only [List.length_cons] at fits length
      have bits : ∀ i, i < w → _ := fun i inside =>
        (getLsbD_pack_cons inside).symm.trans
          ((congrArg (fun packed => packed.getLsbD i) same).trans (getLsbD_pack_cons inside))
      have head : byte = other := by
        refine BitVec.eq_of_getLsbD_eq fun i inside => ?_
        simpa [inside] using bits i (by omega)
      have tail : (pack bytes : BitVec w) = pack others := by
        refine BitVec.eq_of_getLsbD_eq fun i inside => ?_
        by_cases low : i + 8 < w
        · have high : ¬ i + 8 < 8 := by omega
          simpa only [high, if_false, Nat.add_sub_cancel] using bits (i + 8) low
        · rw [getLsbD_pack (by omega), getLsbD_pack (by omega)]
      rw [head, ih (by omega) (by omega) tail]

section Invertible
variable (top : poly.getLsbD (w - 1) = true)
include top

theorem feed_injective (byte : BitVec 8) : Function.Injective (feed poly · byte) := by
  intro x y same
  exact (BitVec.xor_left_inj _).mp ((step_injective top).iterate 8 same)

theorem foldl_feed_injective (bytes : List (BitVec 8)) :
    Function.Injective (bytes.foldl (feed poly)) := by
  induction bytes with
  | nil => exact Function.injective_id
  | cons byte bytes ih => exact ih.comp (feed_injective top byte)

/-- Two messages that differ inside a window no wider than the register leave different states. -/
theorem foldl_feed_burst {state : BitVec w} {left right : List (BitVec 8)} {lo hi : ℕ}
    (length : left.length = right.length) (agree : AgreeOutside lo hi left right)
    (fits : 8 * (hi - lo) ≤ w)
    (same : left.foldl (feed poly) state = right.foldl (feed poly) state) : left = right := by
  obtain ⟨before, after, inner, inner', rfl, rfl, narrow⟩ := agree.split
  have inside : inner.length = inner'.length := by simpa using length
  simp only [List.foldl_append] at same
  have window := foldl_feed_injective top after same
  generalize before.foldl (feed poly) state = reached at window
  rw [foldl_feed (by omega), foldl_feed (by omega), ← inside] at window
  have loaded := (step_injective top).iterate _ window
  rw [pack_injective (by omega) inside ((BitVec.xor_right_inj _).mp loaded)]
end Invertible
end ShiftRegister
