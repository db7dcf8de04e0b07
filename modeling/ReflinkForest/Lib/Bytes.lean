import Mathlib.Data.Vector.Basic
import Mathlib.Data.List.Lex
import Mathlib.Order.Basic
import Mathlib.Tactic

/-! Byte strings: the byte order, big-endian integers, slices and positioned writes, together with
the bind rule for fallible computations. -/
instance Bytes.linearOrderUInt8 : LinearOrder UInt8 where
  le_refl := UInt8.le_refl
  le_trans _ _ _ := UInt8.le_trans
  le_antisymm _ _ := UInt8.le_antisymm
  le_total := UInt8.le_total
  lt_iff_le_not_ge a b := by
    simp only [UInt8.lt_iff_toNat_lt, UInt8.le_iff_toNat_le]
    omega
  toDecidableLE := inferInstance

/-- `Result::map` for a call that also changes a state. -/
abbrev Prod.mapOk {σ ε α β : Type} (out : σ × Except ε α) (f : α → β) : σ × Except ε β :=
  out.map id fun result => result.map f

namespace Except
open List
variable {ε α β : Type}

variable {x : Except ε α} {f : α → Except ε β} {r : β} {a : α} {ε' σ : Type} {xs : List α}

theorem bind_eq_ok_iff :
    (x >>= f) = .ok r ↔ ∃ a, x = .ok a ∧ f a = .ok r := by
  cases x with
  | error e | ok a => simp [bind, Except.bind]

theorem bind_eq_error_iff {e : ε} :
    (x >>= f) = .error e ↔ x = .error e ∨ ∃ a, x = .ok a ∧ f a = .error e := by
  cases x with
  | error e' | ok a => simp [bind, Except.bind]

theorem bind_congr_ok {g : α → Except ε β} (same : ∀ a, x = .ok a → f a = g a) :
    x >>= f = x >>= g := by
  cases x with
  | error e => rfl
  | ok a => exact same a rfl

@[simp] theorem ok_bind (a : α) (f : α → Except ε β) :
    ((Except.ok a : Except ε α) >>= f) = f a := rfl

@[simp] theorem error_bind (e : ε) (f : α → Except ε β) :
    ((Except.error e : Except ε α) >>= f) = .error e := rfl

/-- Continue when `p` holds, fail with `e` otherwise. -/
def require (p : Prop) [Decidable p] (e : ε) : Except ε Unit :=
  if p then .ok () else .error e

section Require
variable {p : Prop} [Decidable p] {e : ε} {u : Unit}

@[simp] theorem require_eq_ok : require p e = .ok u ↔ p := by
  by_cases h : p <;> simp [require, h]

/-- A check in front of the rest of a computation, once `bind_eq_ok_iff` has split them. -/
theorem exists_require {q : Prop} : (∃ u, require p e = .ok u ∧ q) ↔ p ∧ q := by
  simp only [require_eq_ok, exists_const]

theorem require_pos (h : p) : require p e = .ok () := if_pos h

theorem require_neg (h : ¬p) : require p e = .error e := if_neg h

@[simp] theorem require_eq_error {e' : ε} : require p e = .error e' ↔ ¬p ∧ e = e' := by
  by_cases h : p <;> simp [require, h]
end Require

theorem require_bind_eq_ok {p : Prop} [Decidable p] {e : ε} {f : Unit → Except ε β} :
    (require p e >>= f) = .ok r ↔ p ∧ f () = .ok r := by
  by_cases h : p <;> simp [require, h]

/-- `Option::ok_or`. -/
def ofOption (e : ε) : Option α → Except ε α
  | some a => .ok a
  | none => .error e

/-- Fails on what a search for an obstacle found. -/
def refuse (found : Option α) (e : α → ε) : Except ε Unit :=
  match found with
  | none => .ok ()
  | some a => .error (e a)

@[simp] theorem refuse_eq_ok {found : Option α} {e : α → ε} {u : Unit} :
    refuse found e = .ok u ↔ found = none := by
  cases found <;> simp [refuse]

@[simp] theorem ofOption_eq_ok {e : ε} {o : Option α} :
    ofOption e o = .ok a ↔ o = some a := by
  cases o <;> simp [ofOption]

@[simp] theorem ofOption_some (e : ε) (a : α) : ofOption e (some a) = .ok a := rfl

@[simp] theorem ofOption_none (e : ε) : ofOption e (none : Option α) = .error e := rfl

/-- `Result::map_err`. -/
def mapErr {ε' : Type} (g : ε → ε') : Except ε α → Except ε' α
  | .ok a => .ok a
  | .error e => .error (g e)

@[simp] theorem mapErr_eq_ok {g : ε → ε'} :
    mapErr g x = .ok a ↔ x = .ok a := by
  cases x <;> simp [mapErr]

theorem mapErr_eq_error {g : ε → ε'} {e : ε'} :
    mapErr g x = .error e ↔ ∃ e', x = .error e' ∧ g e' = e := by
  cases x <;> simp [mapErr]

@[simp] theorem mapErr_ok (g : ε → ε') (a : α) :
    mapErr g (.ok a : Except ε α) = .ok a := rfl

@[simp] theorem toOption_eq_some : x.toOption = some a ↔ x = .ok a := by
  cases x <;> simp [Except.toOption]

theorem exists_ok_of_toBool (h : x.toBool = true) : ∃ a, x = .ok a := by
  cases x with
  | ok a => exact ⟨a, rfl⟩
  | error e => simp [Except.toBool] at h

theorem foldlM_flatMap {β : Type} {f : α → List β} {g : σ → β → Except ε σ} (xs : List α) (s : σ) :
    (xs.flatMap f).foldlM g s = xs.foldlM (fun s x => (f x).foldlM g s) s := by
  induction xs generalizing s with
  | nil => rfl
  | cons x xs ih =>
    rw [flatMap_cons, foldlM_append, foldlM_cons]
    exact bind_congr fun s => ih s

theorem foldlM_congr {f g : σ → α → Except ε σ} (same : ∀ x ∈ xs, ∀ s, f s x = g s x) (s : σ) :
    xs.foldlM f s = xs.foldlM g s := by
  induction xs generalizing s with
  | nil => rfl
  | cons x xs ih =>
    rw [foldlM_cons, foldlM_cons, same x mem_cons_self]
    exact bind_congr fun s => ih (fun y mem => same y (mem_cons_of_mem _ mem)) s

theorem foldlM_eq_flatMap {β : Type} {f : List β → α → Except ε (List β)} {g : α → List β}
    {s s' : List β}
    (effect : ∀ x ∈ xs, ∀ before after, f before x = .ok after → after = before ++ g x)
    (h : xs.foldlM f s = .ok s') : s' = s ++ xs.flatMap g := by
  induction xs generalizing s with
  | nil =>
    cases h
    simp
  | cons x xs ih =>
    rw [foldlM_cons] at h
    obtain ⟨middle, first, rest⟩ := bind_eq_ok_iff.mp h
    rw [ih (fun y mem => effect y (mem_cons_of_mem _ mem)) rest,
      effect x mem_cons_self s middle first, flatMap_cons, append_assoc]

theorem forM_congr {f g : α → Except ε Unit} (same : ∀ x ∈ xs, f x = g x) :
    xs.forM f = xs.forM g := by
  induction xs with
  | nil => rfl
  | cons x xs ih =>
    have rest := ih fun y mem => same y (mem_cons_of_mem _ mem)
    unfold List.forM
    rw [same x mem_cons_self, rest]

theorem exists_bind_eq_ok (runs : ∃ a, x = .ok a) (continues : ∀ a, ∃ b, f a = .ok b) :
    ∃ b, (x >>= f) = .ok b := by
  obtain ⟨a, rfl⟩ := runs
  exact continues a

theorem exists_foldlM_eq_ok {f : σ → α → Except ε σ} (runs : ∀ x ∈ xs, ∀ s, ∃ s', f s x = .ok s')
    (s : σ) : ∃ s', xs.foldlM f s = .ok s' := by
  induction xs generalizing s with
  | nil => exact ⟨s, rfl⟩
  | cons x xs ih =>
    obtain ⟨s', step⟩ := runs x mem_cons_self s
    rw [foldlM_cons, step]
    exact ih (fun y mem => runs y (mem_cons_of_mem _ mem)) s'

theorem foldlM_eq_ok_mem {f : σ → α → Except ε σ} {s s' : σ} (h : xs.foldlM f s = .ok s') {x : α}
    (mem : x ∈ xs) : ∃ before after, f before x = .ok after := by
  induction xs generalizing s with
  | nil => simp at mem
  | cons y ys ih =>
    rw [foldlM_cons] at h
    obtain ⟨middle, first, rest⟩ := bind_eq_ok_iff.mp h
    rcases mem_cons.mp mem with rfl | later
    · exact ⟨s, middle, first⟩
    · exact ih rest later

theorem forM_eq_ok_iff {f : α → Except ε Unit} :
    xs.forM f = .ok () ↔ ∀ x ∈ xs, f x = .ok () := by
  induction xs with
  | nil => simp [pure, Except.pure]
  | cons x xs ih =>
    have unfold : (x :: xs).forM f = .ok () ↔ ∃ u, f x = .ok u ∧ xs.forM f = .ok () :=
      bind_eq_ok_iff
    rw [unfold, forall_mem_cons, ← ih]
    exact ⟨fun ⟨_, h⟩ => h, fun h => ⟨(), h⟩⟩

theorem mapM_eq_ok_iff {ys : List β} :
    xs.mapM f = .ok ys ↔ List.Forall₂ (fun x y => f x = .ok y) xs ys := by
  induction xs generalizing ys with
  | nil => simp [pure, Except.pure, eq_comm]
  | cons x xs ih =>
    rw [mapM_cons, bind_eq_ok_iff]
    simp only [bind_eq_ok_iff, ih, pure, Except.pure, Except.ok.injEq]
    constructor
    · rintro ⟨y, first, ys', rest, rfl⟩
      exact .cons first rest
    · intro listed
      cases listed with
      | cons first rest => exact ⟨_, first, _, rest, rfl⟩
end Except

namespace Bytes
abbrev Str := List UInt8

/-- `w` big-endian bytes of `v`, high-order byte first. -/
def be : ℕ → ℕ → Str
  | 0, _ => []
  | w + 1, v => UInt8.ofNat (v / 256 ^ w) :: be w v

def beNat (bs : Str) : ℕ := bs.foldl (fun acc b => acc * 256 + b.toNat) 0

@[simp] theorem length_be (w v : ℕ) : (be w v).length = w := by
  induction w with
  | zero => rfl
  | succ w ih => simp [be, ih]

private theorem foldl_be (bs : Str) (acc : ℕ) :
    bs.foldl (fun acc b => acc * 256 + b.toNat) acc = acc * 256 ^ bs.length + beNat bs := by
  induction bs generalizing acc with
  | nil => simp [beNat]
  | cons b bs ih =>
    simp only [List.foldl_cons, beNat, List.length_cons, zero_mul, zero_add]
    rw [ih, ih b.toNat, pow_succ]
    ring

@[simp] theorem beNat_nil : beNat [] = 0 := rfl

theorem beNat_cons (b : UInt8) (bs : Str) :
    beNat (b :: bs) = b.toNat * 256 ^ bs.length + beNat bs := by
  simp only [beNat, List.foldl_cons, zero_mul, zero_add]
  exact foldl_be bs b.toNat

theorem beNat_lt (bs : Str) : beNat bs < 256 ^ bs.length := by
  induction bs with
  | nil => simp
  | cons b bs ih =>
    have hb := b.toNat_lt
    rw [beNat_cons, List.length_cons, pow_succ]
    nlinarith

theorem beNat_be_mod (w v : ℕ) : beNat (be w v) = v % 256 ^ w := by
  induction w with
  | zero => simp [be, Nat.mod_one]
  | succ w ih =>
    rw [be, beNat_cons, length_be, ih]
    have hb : (UInt8.ofNat (v / 256 ^ w)).toNat = v / 256 ^ w % 256 := by simp
    rw [hb, pow_succ, Nat.mod_mul]
    ring

theorem beNat_be {w v : ℕ} (h : v < 256 ^ w) : beNat (be w v) = v := by
  rw [beNat_be_mod, Nat.mod_eq_of_lt h]

theorem be_add_mul (w v k : ℕ) : be w (k * 256 ^ w + v) = be w v := by
  induction w generalizing k with
  | zero => rfl
  | succ w ih =>
    have hdiv : (k * 256 ^ (w + 1) + v) / 256 ^ w = v / 256 ^ w + 256 * k := by
      rw [pow_succ, show k * (256 ^ w * 256) + v = v + 256 ^ w * (256 * k) by ring]
      exact Nat.add_mul_div_left _ _ (by positivity)
    have htail : be w (k * 256 ^ (w + 1) + v) = be w v := by
      rw [pow_succ, show k * (256 ^ w * 256) + v = (k * 256) * 256 ^ w + v by ring]
      exact ih (k * 256)
    rw [be, be, htail, hdiv]
    congr 1
    apply UInt8.toNat_inj.mp
    simp

theorem be_beNat (bs : Str) : be bs.length (beNat bs) = bs := by
  induction bs with
  | nil => rfl
  | cons b bs ih =>
    rw [List.length_cons, be, beNat_cons, be_add_mul, ih]
    congr 1
    have hd : (b.toNat * 256 ^ bs.length + beNat bs) / 256 ^ bs.length = b.toNat := by
      rw [Nat.add_comm, Nat.add_mul_div_right _ _ (by positivity),
        Nat.div_eq_of_lt (beNat_lt bs), Nat.zero_add]
    rw [hd]
    simp

def u16 (v : UInt16) : Str := be 2 v.toNat
def u32 (v : UInt32) : Str := be 4 v.toNat
def u64 (v : UInt64) : Str := be 8 v.toNat

@[simp] theorem length_u16 (v : UInt16) : (u16 v).length = 2 := length_be _ _
@[simp] theorem length_u32 (v : UInt32) : (u32 v).length = 4 := length_be _ _
@[simp] theorem length_u64 (v : UInt64) : (u64 v).length = 8 := length_be _ _

def toU16 (bs : Str) : UInt16 := UInt16.ofNat (beNat bs)
def toU32 (bs : Str) : UInt32 := UInt32.ofNat (beNat bs)
def toU64 (bs : Str) : UInt64 := UInt64.ofNat (beNat bs)

@[simp] theorem toU16_u16 (v : UInt16) : toU16 (u16 v) = v := by
  have hv : v.toNat < 256 ^ 2 := v.toNat_lt
  simp [toU16, u16, beNat_be hv]

@[simp] theorem toU32_u32 (v : UInt32) : toU32 (u32 v) = v := by
  have hv : v.toNat < 256 ^ 4 := v.toNat_lt
  simp [toU32, u32, beNat_be hv]

@[simp] theorem toU64_u64 (v : UInt64) : toU64 (u64 v) = v := by
  have hv : v.toNat < 256 ^ 8 := v.toNat_lt
  simp [toU64, u64, beNat_be hv]

variable {bs a b : Str} {off len i : ℕ}

theorem u16_toU16 (h : bs.length = 2) : u16 (toU16 bs) = bs := by
  have hlt : beNat bs < 2 ^ 16 := by simpa [h] using beNat_lt bs
  rw [u16, toU16, UInt16.toNat_ofNat_of_lt' hlt, ← h, be_beNat]

theorem u32_toU32 (h : bs.length = 4) : u32 (toU32 bs) = bs := by
  have hlt : beNat bs < 2 ^ 32 := by simpa [h] using beNat_lt bs
  rw [u32, toU32, UInt32.toNat_ofNat_of_lt' hlt, ← h, be_beNat]

theorem u64_toU64 (h : bs.length = 8) : u64 (toU64 bs) = bs := by
  have hlt : beNat bs < 2 ^ 64 := by simpa [h] using beNat_lt bs
  rw [u64, toU64, UInt64.toNat_ofNat_of_lt' hlt, ← h, be_beNat]

/-- `len` bytes from `off`; shorter when the string ends first. -/
def slice (bs : Str) (off len : ℕ) : Str := (bs.drop off).take len

theorem length_slice (h : off + len ≤ bs.length) :
    (slice bs off len).length = len := by
  simp only [slice, List.length_take, List.length_drop]
  omega

theorem u16_slice (h : off + 2 ≤ bs.length) :
    u16 (toU16 (slice bs off 2)) = slice bs off 2 := u16_toU16 (length_slice h)

theorem u32_slice (h : off + 4 ≤ bs.length) :
    u32 (toU32 (slice bs off 4)) = slice bs off 4 := u32_toU32 (length_slice h)

theorem u64_slice (h : off + 8 ≤ bs.length) :
    u64 (toU64 (slice bs off 8)) = slice bs off 8 := u64_toU64 (length_slice h)

theorem slice_append_right (h : a.length ≤ off) :
    slice (a ++ b) off len = slice b (off - a.length) len := by
  simp [slice, List.drop_append, List.drop_eq_nil_of_le h]

theorem slice_append_self (h : a.length = len) :
    slice (a ++ b) 0 len = a := by
  subst h
  simp [slice]

theorem slice_self (h : a.length = len) : slice a 0 len = a := by
  simp [slice, ← h]

theorem slice_slice {off' len' : ℕ} (h : off' + len' ≤ len) :
    slice (slice bs off len) off' len' = slice bs (off + off') len' := by
  simp only [slice, List.drop_take, List.drop_drop, List.take_take]
  congr 1
  omega

theorem slice_drop (bs : Str) (n off len : ℕ) :
    slice (bs.drop n) off len = slice bs (n + off) len := by
  simp [slice, List.drop_drop]

theorem slice_add (bs : Str) (off len len' : ℕ) :
    slice bs off (len + len') = slice bs off len ++ slice bs (off + len) len' := by
  simp only [slice]
  rw [List.take_add, List.drop_drop]

theorem slice_append_drop (bs : Str) (off len : ℕ) :
    slice bs off len ++ bs.drop (off + len) = bs.drop off := by
  simp only [slice]
  rw [← List.drop_drop, List.take_append_drop]

def byteAt (bs : Str) (i : ℕ) : UInt8 := bs.getD i 0

theorem slice_one (h : i + 1 ≤ bs.length) :
    slice bs i 1 = [byteAt bs i] := by
  have hi : i < bs.length := h
  rw [slice, List.drop_eq_getElem_cons hi, List.take_succ_cons, List.take_zero]
  simp [byteAt, hi]

/-- A slice of known length, as a fixed-size array. -/
def sliceVec (bs : Str) (off n : ℕ) : List.Vector UInt8 n :=
  .ofFn fun i => byteAt bs (off + i)

theorem toList_sliceVec {n : ℕ} (h : off + n ≤ bs.length) :
    (sliceVec bs off n).toList = slice bs off n := by
  apply List.ext_getElem
  · rw [List.Vector.toList_length, length_slice h]
  · intro i hi hi'
    have hlt : i < n := by simpa using hi
    have hoff : off + i < bs.length := by omega
    simp [sliceVec, List.Vector.toList_ofFn, slice, byteAt, hoff]

theorem slice_eq_append_iff (h : a.length ≤ len) : slice bs off len = a ++ b ↔
    slice bs off a.length = a ∧ slice bs (off + a.length) (len - a.length) = b := by
  rw [← Nat.add_sub_of_le h, slice_add, Nat.add_sub_cancel_left]
  refine ⟨fun same => ?_, fun ⟨front, rest⟩ => by rw [front, rest]⟩
  have long : a.length ≤ bs.length - off := by
    have := congrArg List.length same
    simp only [slice, List.length_append, List.length_take, List.length_drop] at this
    omega
  exact List.append_inj same (by simp [slice, long])

theorem slice_eq_u16_iff {v : UInt16} (h : off + 2 ≤ bs.length) :
    slice bs off 2 = u16 v ↔ toU16 (slice bs off 2) = v :=
  ⟨fun same => same ▸ toU16_u16 v, fun same => same ▸ (u16_slice h).symm⟩

theorem slice_eq_u32_iff {v : UInt32} (h : off + 4 ≤ bs.length) :
    slice bs off 4 = u32 v ↔ toU32 (slice bs off 4) = v :=
  ⟨fun same => same ▸ toU32_u32 v, fun same => same ▸ (u32_slice h).symm⟩

theorem slice_eq_u64_iff {v : UInt64} (h : off + 8 ≤ bs.length) :
    slice bs off 8 = u64 v ↔ toU64 (slice bs off 8) = v :=
  ⟨fun same => same ▸ toU64_u64 v, fun same => same ▸ (u64_slice h).symm⟩

theorem slice_eq_toList_iff {n : ℕ} {v : List.Vector UInt8 n} (h : off + n ≤ bs.length) :
    slice bs off n = v.toList ↔ sliceVec bs off n = v := by
  rw [← toList_sliceVec h, List.Vector.toList_injective.eq_iff]

/-- `pwrite`: replace the bytes at `off`, extending with zeros past the end. -/
def writeAt (bs : Str) (off : ℕ) (data : Str) : Str :=
  (bs ++ List.replicate (off - bs.length) 0).take off ++ data ++ bs.drop (off + data.length)

theorem writeAt_end (bs data : Str) : writeAt bs bs.length data = bs ++ data := by
  simp [writeAt, List.drop_eq_nil_of_le]

theorem writeAt_append (a junk data : Str) :
    writeAt (a ++ junk) a.length data = a ++ data ++ junk.drop data.length := by
  have h : a.length - (a ++ junk).length = 0 := by simp
  rw [writeAt, h, List.replicate_zero, List.append_nil, List.take_left, List.drop_append]
  simp
end Bytes
