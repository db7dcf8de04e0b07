import Mathlib.Data.List.AList
import Mathlib.Data.List.Sort
import ReflinkForest.Lib.Bytes

/-! Finite maps as association lists without duplicate keys, and their enumeration in the order of a
key. -/
section Ordered
variable {α L : Type} [LinearOrder L] {key : α → L}

theorem pairwise_lt_insertionSort {xs : List α} (distinct : (xs.map key).Nodup) :
    (xs.insertionSort fun a b => key a ≤ key b).Pairwise fun a b => key a < key b := by
  have ascending : (xs.insertionSort fun a b => key a ≤ key b).Pairwise
      fun a b => key a ≤ key b := by
    have total : Std.Total fun a b : α => key a ≤ key b := ⟨fun a b => le_total _ _⟩
    have trans : IsTrans α fun a b => key a ≤ key b := ⟨fun a b c => le_trans⟩
    exact List.pairwise_insertionSort (fun a b : α => key a ≤ key b) _
  have sorted := ((List.perm_insertionSort (fun a b => key a ≤ key b) xs).map key).nodup_iff
  have different := List.pairwise_map.mp (sorted.mpr distinct)
  exact ascending.imp₂ (fun a b le ne => le.lt_of_ne ne) different

/-- Only one list has given members in the order of a key. -/
theorem eq_of_pairwise_lt_of_mem_iff {left right : List α}
    (leftSorted : left.Pairwise fun a b => key a < key b)
    (rightSorted : right.Pairwise fun a b => key a < key b)
    (same : ∀ e, e ∈ left ↔ e ∈ right) : left = right := by
  have nodup {list : List α} (sorted : list.Pairwise fun a b => key a < key b) :
      list.Nodup := sorted.imp fun lt => by
    rintro rfl
    exact lt_irrefl _ lt
  have permuted := (List.perm_ext_iff_of_nodup (nodup leftSorted) (nodup rightSorted)).mpr same
  exact permuted.eq_of_pairwise (fun a b _ _ lt gt => absurd gt lt.asymm) leftSorted rightSorted
end Ordered

abbrev FinMap (K V : Type) := AList fun _ : K => V

namespace FinMap
open Bytes List AList
variable {K V : Type} [DecidableEq K]

theorem lookup_insert_eq (m : FinMap K V) (a k : K) (v : V) :
    (m.insert a v).lookup k = if k = a then some v else m.lookup k := by
  by_cases h : k = a
  · subst h
    simp
  · rw [if_neg h, lookup_insert_ne h]

theorem lookup_erase_eq (m : FinMap K V) (a k : K) :
    (m.erase a).lookup k = if k = a then none else m.lookup k := by
  by_cases h : k = a
  · subst h
    simp
  · rw [if_neg h, lookup_erase_ne h]

theorem mem_of_lookup {m : FinMap K V} {k : K} {v : V} (found : m.lookup k = some v) : k ∈ m :=
  lookup_isSome.mp (by rw [found]; rfl)

theorem exists_lookup {m : FinMap K V} {k : K} (mem : k ∈ m) : ∃ v, m.lookup k = some v :=
  Option.isSome_iff_exists.mp (lookup_isSome.mpr mem)

theorem length_keys_erase_le (m : FinMap K V) (a : K) :
    (m.erase a).keys.length ≤ m.keys.length :=
  ((kerase_sublist a m.entries).map Sigma.fst).length_le

def eraseAll (m : FinMap K V) (keys : List K) : FinMap K V := keys.foldl (fun m k => m.erase k) m

theorem lookup_eraseAll_of_notMem {keys : List K} {k : K} (unlisted : k ∉ keys)
    (m : FinMap K V) : (m.eraseAll keys).lookup k = m.lookup k := by
  unfold eraseAll
  induction keys generalizing m with
  | nil => rfl
  | cons key keys ih =>
    rw [mem_cons, not_or] at unlisted
    rw [foldl_cons, ih unlisted.2, lookup_erase_ne unlisted.1]

theorem lookup_eraseAll_of_mem {keys : List K} {k : K} (listed : k ∈ keys) (m : FinMap K V) :
    (m.eraseAll keys).lookup k = none := by
  induction keys generalizing m with
  | nil => simp at listed
  | cons key keys ih =>
    by_cases later : k ∈ keys
    · exact ih later _
    · obtain rfl := (mem_cons.mp listed).resolve_right later
      exact (lookup_eraseAll_of_notMem later _).trans (lookup_erase k m)

/-- The entries whose key satisfies `p`. -/
def filterKeys (p : K → Bool) (m : FinMap K V) : FinMap K V :=
  ⟨m.entries.filter fun e => p e.1, m.nodupKeys.sublist List.filter_sublist⟩

theorem lookup_filterKeys (p : K → Bool) (m : FinMap K V) (k : K) :
    (m.filterKeys p).lookup k = if p k then m.lookup k else none := by
  ext v
  rw [← Option.mem_def, mem_lookup_iff, filterKeys, mem_filter]
  split <;> simp_all [← Option.mem_def, mem_lookup_iff]

/-- Entries as pairs, sorted by `key`. -/
def sortedBy {L : Type} [LE L] [DecidableLE L] (key : K × V → L) (m : FinMap K V) : List (K × V) :=
  (m.entries.map fun e => (e.1, e.2)).insertionSort fun a b => key a ≤ key b

theorem mem_sortedBy {L : Type} [LE L] [DecidableLE L] {key : K × V → L} {m : FinMap K V} {k : K}
    {v : V} :
    (k, v) ∈ m.sortedBy key ↔ m.lookup k = some v := by
  rw [sortedBy, (perm_insertionSort _ _).mem_iff, ← Option.mem_def, mem_lookup_iff, mem_map]
  constructor
  · rintro ⟨e, he, heq⟩
    obtain ⟨rfl, rfl⟩ := Prod.mk.inj heq
    exact he
  · exact fun h => ⟨⟨k, v⟩, h, rfl⟩

omit [DecidableEq K] in
theorem nodup_keys_sortedBy {L : Type} [LE L] [DecidableLE L] (key : K × V → L) (m : FinMap K V) :
    ((m.sortedBy key).map Prod.fst).Nodup := by
  have sorted := (perm_insertionSort (fun a b => key a ≤ key b)
    (m.entries.map fun e => (e.1, e.2))).map Prod.fst
  rw [sortedBy, sorted.nodup_iff, map_map]
  exact m.nodupKeys

omit [DecidableEq K] in
/-- An enumeration in the order of the keys repeats none. -/
theorem pairwise_sortedBy {L : Type} [LinearOrder L] {key : K → L} (injective : key.Injective)
    (m : FinMap K V) :
    (m.sortedBy fun e => key e.1).Pairwise fun a b => key a.1 < key b.1 := by
  have distinct : ((m.entries.map Sigma.fst).map key).Nodup := m.keys_nodup.map injective
  apply @pairwise_lt_insertionSort (K × V) L _ fun e => key e.1
  rw [map_map] at distinct ⊢
  exact distinct

omit [DecidableEq K] in
/-- Only one list has given members in the order of their keys. -/
theorem eq_of_pairwise_of_mem_iff {L : Type} [LinearOrder L] {key : K → L}
    {left right : List (K × V)}
    (leftSorted : left.Pairwise fun a b => key a.1 < key b.1)
    (rightSorted : right.Pairwise fun a b => key a.1 < key b.1)
    (same : ∀ e, e ∈ left ↔ e ∈ right) : left = right :=
  eq_of_pairwise_lt_of_mem_iff leftSorted rightSorted same
end FinMap
