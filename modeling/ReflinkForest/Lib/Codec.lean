import ReflinkForest.Lib.Bytes

/-! Readers of byte strings that are exact for an encoding, and counted lists of them. -/
namespace Codec
open Bytes Except List

variable {ε α : Type}

abbrev Reader (ε α : Type) := Str → Except ε (α × Str)

/-- The reader returns a value precisely when the input is its encoding and the rest. -/
def Exact (read : Reader ε α) (valid : α → Prop) (encode : α → Str) : Prop :=
  ∀ input value rest, read input = .ok (value, rest) ↔ valid value ∧ input = encode value ++ rest

/-- Truncated input is refused with the error `e`. -/
def take (e : ε) (length : ℕ) : Reader ε Str := fun input => do
  .require (length ≤ input.length) e
  .ok (input.take length, input.drop length)

def array (e : ε) (n : ℕ) : Reader ε (List.Vector UInt8 n) := fun input =>
  if h : n ≤ input.length then .ok (⟨input.take n, List.length_take_of_le h⟩, input.drop n)
  else .error e

def readU8 (e : ε) : Reader ε UInt8 := fun input => do
  let (bytes, rest) ← take e 1 input
  .ok (byteAt bytes 0, rest)

def readU16 (e : ε) : Reader ε UInt16 := fun input => do
  let (bytes, rest) ← take e 2 input
  .ok (toU16 bytes, rest)

def readU32 (e : ε) : Reader ε UInt32 := fun input => do
  let (bytes, rest) ← take e 4 input
  .ok (toU32 bytes, rest)

def readU64 (e : ε) : Reader ε UInt64 := fun input => do
  let (bytes, rest) ← take e 8 input
  .ok (toU64 bytes, rest)

def many (item : Reader ε α) : ℕ → Reader ε (List α)
  | 0, input => .ok ([], input)
  | count + 1, input => do
    let (first, input) ← item input
    let (others, input) ← many item count input
    .ok (first :: others, input)

/-- Room for every item, given room for the least that an item can take. -/
theorem length_le_div_of_flatMap {α : Type} {encode : α → Str} {least : ℕ} {items : List α}
    (positive : 0 < least) (long : ∀ item ∈ items, least ≤ (encode item).length) (rest : Str) :
    items.length ≤ (items.flatMap encode ++ rest).length / least := by
  rw [Nat.le_div_iff_mul_le positive, length_append, length_flatMap]
  have sum := card_nsmul_le_sum (items.map fun item => (encode item).length) least
    (by simpa using long)
  rw [length_map, smul_eq_mul] at sum
  omega

section Frames
variable {a b rest rest' : Str}

/-- A header of fixed size that gives the length of what follows marks where that ends. -/
theorem framed_inj {header : ℕ → Str} {size : ℕ} (sized : ∀ n, (header n).length = size)
    (measures : header a.length = header b.length → a.length = b.length)
    (h : header a.length ++ (a ++ rest) = header b.length ++ (b ++ rest')) :
    a = b ∧ rest = rest' := by
  obtain ⟨headers, bodies⟩ := append_inj h (by rw [sized, sized])
  exact append_inj bodies (measures headers)

theorem u32_framed_inj (small : a.length < 2 ^ 32) (small' : b.length < 2 ^ 32)
    (h : u32 (UInt32.ofNat a.length) ++ (a ++ rest) =
      u32 (UInt32.ofNat b.length) ++ (b ++ rest')) : a = b ∧ rest = rest' := by
  apply framed_inj (fun n => length_u32 (UInt32.ofNat n)) _ h
  intro headers
  rw [← UInt32.toNat_ofNat_of_lt' small, ← toU32_u32 (UInt32.ofNat a.length), headers, toU32_u32,
    UInt32.toNat_ofNat_of_lt' small']

theorem u64_framed_inj (small : a.length < 2 ^ 64) (small' : b.length < 2 ^ 64)
    (h : u64 (UInt64.ofNat a.length) ++ (a ++ rest) =
      u64 (UInt64.ofNat b.length) ++ (b ++ rest')) : a = b ∧ rest = rest' := by
  apply framed_inj (fun n => length_u64 (UInt64.ofNat n)) _ h
  intro headers
  rw [← UInt64.toNat_ofNat_of_lt' small, ← toU64_u64 (UInt64.ofNat a.length), headers, toU64_u64,
    UInt64.toNat_ofNat_of_lt' small']

/-- Items that can be told apart, and from the mark that ends them, are read back one by one. -/
theorem flatMap_ended_inj {α β : Type} {Agree : α → β → Prop} {encode : α → Str}
    {encode' : β → Str} {mark : Str} {xs : List α} {ys : List β}
    (apart : ∀ x ∈ xs, ∀ y ∈ ys, ∀ rest rest', encode x ++ rest = encode' y ++ rest' →
      Agree x y ∧ rest = rest')
    (unended : ∀ x ∈ xs, ∀ rest rest', encode x ++ rest ≠ mark ++ rest')
    (unended' : ∀ y ∈ ys, ∀ rest rest', encode' y ++ rest ≠ mark ++ rest')
    (h : xs.flatMap encode ++ (mark ++ rest) = ys.flatMap encode' ++ (mark ++ rest')) :
    List.Forall₂ Agree xs ys ∧ rest = rest' := by
  induction xs generalizing ys with
  | nil =>
    cases ys with
    | nil => exact ⟨.nil, append_cancel_left h⟩
    | cons y ys =>
      rw [flatMap_cons, append_assoc] at h
      exact absurd h.symm (unended' y mem_cons_self _ _)
  | cons x xs ih =>
    rw [flatMap_cons, append_assoc] at h
    cases ys with
    | nil => exact absurd h (unended x mem_cons_self _ _)
    | cons y ys =>
      rw [flatMap_cons, append_assoc] at h
      obtain ⟨agree, later⟩ := apart x mem_cons_self y mem_cons_self _ _ h
      obtain ⟨agrees, same⟩ := ih
        (fun x hx y hy => apart x (mem_cons_of_mem _ hx) y (mem_cons_of_mem _ hy))
        (fun x hx => unended x (mem_cons_of_mem _ hx))
        (fun y hy => unended' y (mem_cons_of_mem _ hy)) later
      exact ⟨.cons agree agrees, same⟩
end Frames

section Exactness
variable {e : ε} {input bytes rest : Str}

theorem take_eq_ok_iff {length : ℕ} : take e length input = .ok (bytes, rest) ↔
    bytes.length = length ∧ input = bytes ++ rest := by
  simp only [take, require_bind_eq_ok, ok.injEq, Prod.mk.injEq]
  constructor
  · rintro ⟨fits, rfl, rfl⟩
    exact ⟨length_take_of_le fits, (take_append_drop _ _).symm⟩
  · rintro ⟨rfl, rfl⟩
    exact ⟨by simp, take_left, drop_left⟩

/-- A number of fixed width is read exactly when its bytes can be recovered from it. -/
theorem fixed_eq_ok_iff {width : ℕ} {decode : Str → α} {encode : α → Str}
    (back : ∀ bytes : Str, bytes.length = width → encode (decode bytes) = bytes)
    (length : ∀ value, (encode value).length = width)
    (forth : ∀ value, decode (encode value) = value) {value : α} :
    (do let (bytes, rest) ← take e width input; Except.ok (ε := ε) (decode bytes, rest)) =
      .ok (value, rest) ↔ input = encode value ++ rest := by
  simp only [bind_eq_ok_iff, Prod.exists, take_eq_ok_iff, ok.injEq, Prod.mk.injEq]
  constructor
  · rintro ⟨bytes, _, ⟨exactly, rfl⟩, rfl, rfl⟩
    rw [back bytes exactly]
  · rintro rfl
    exact ⟨_, _, ⟨length value, rfl⟩, forth value, rfl⟩

theorem readU8_eq_ok_iff {value : UInt8} :
    readU8 e input = .ok (value, rest) ↔ input = value :: rest := by
  have back : ∀ bytes : Str, bytes.length = 1 → [byteAt bytes 0] = bytes := by
    intro bytes one
    obtain ⟨byte, rfl⟩ := length_eq_one_iff.mp one
    rfl
  exact @fixed_eq_ok_iff ε UInt8 e input rest 1 (fun bytes => byteAt bytes 0) (fun byte => [byte])
    back (fun _ => rfl) (fun _ => rfl) value

theorem readU16_eq_ok_iff {value : UInt16} :
    readU16 e input = .ok (value, rest) ↔ input = u16 value ++ rest :=
  fixed_eq_ok_iff (fun _ => u16_toU16) length_u16 toU16_u16

theorem readU32_eq_ok_iff {value : UInt32} :
    readU32 e input = .ok (value, rest) ↔ input = u32 value ++ rest :=
  fixed_eq_ok_iff (fun _ => u32_toU32) length_u32 toU32_u32

theorem readU64_eq_ok_iff {value : UInt64} :
    readU64 e input = .ok (value, rest) ↔ input = u64 value ++ rest :=
  fixed_eq_ok_iff (fun _ => u64_toU64) length_u64 toU64_u64

theorem array_eq_ok_iff {n : ℕ} {value : List.Vector UInt8 n} :
    array e n input = .ok (value, rest) ↔ input = value.toList ++ rest := by
  unfold array
  constructor
  · intro h
    split at h
    · cases h
      exact (take_append_drop n input).symm
    · cases h
  · rintro rfl
    have length := value.toList_length
    rw [dif_pos (by simp [length])]
    have head : (value.toList ++ rest).take n = value.toList := take_left' length
    have tail : (value.toList ++ rest).drop n = rest := drop_left' length
    exact congrArg Except.ok (Prod.ext (Subtype.ext head) tail)
end Exactness

/-- A counted list of items is read exactly when each item is. -/
theorem Exact.many {item : Reader ε α} {valid : α → Prop} {encode : α → Str}
    (h : Exact item valid encode) (count : ℕ) :
    Exact (many item count) (fun values => values.length = count ∧ ∀ value ∈ values, valid value)
      (·.flatMap encode) := by
  induction count with
  | zero =>
    intro input values rest
    simp only [Codec.many, ok.injEq, Prod.mk.injEq, length_eq_zero_iff]
    constructor
    · rintro ⟨rfl, rfl⟩
      simp
    · rintro ⟨⟨rfl, _⟩, rfl⟩
      simp
  | succ count ih =>
    intro input values rest
    simp only [Codec.many, bind_eq_ok_iff, Prod.exists, ok.injEq, Prod.mk.injEq]
    constructor
    · rintro ⟨first, _, read, others, _, more, rfl, rfl⟩
      obtain ⟨valid, rfl⟩ := (h _ _ _).mp read
      obtain ⟨⟨counted, valids⟩, rfl⟩ := (ih _ _ _).mp more
      simp only [length_cons, counted, forall_mem_cons, flatMap_cons,
        append_assoc, true_and, and_true]
      exact ⟨valid, valids⟩
    · rintro ⟨⟨counted, valids⟩, rfl⟩
      obtain ⟨first, others, rfl⟩ := exists_cons_of_length_eq_add_one counted
      obtain ⟨valid, valids⟩ := forall_mem_cons.mp valids
      refine ⟨first, others.flatMap encode ++ rest, (h _ _ _).mpr ⟨valid, ?_⟩, others, rest,
        (ih _ _ _).mpr ⟨⟨Nat.succ_injective counted, valids⟩, rfl⟩, rfl, rfl⟩
      rw [flatMap_cons, append_assoc]
end Codec
