import Mathlib.Data.Nat.Digits.Defs
import ReflinkForest.Git.TreeObject

/-! The text of a Git tree: the parser accepts concatenated entries and nothing else. -/
namespace ReflinkForest
open Bytes Except List

/-- One to six octal digits with the value of an entry mode. -/
structure OctalMode (digits : Str) (mode : TreeMode) : Prop where
  nonempty : digits ≠ []
  short : digits.length ≤ 6
  octal : ∀ digit ∈ digits, 0x30 ≤ digit ∧ digit ≤ 0x37
  value : Nat.ofDigits 8 (digits.reverse.map fun digit => (digit - 0x30).toNat) = mode.bits

/-- A name may hold spaces. -/
structure EntryName (name : Str) : Prop where
  nonempty : name ≠ []
  noNul : 0 ∉ name
  noSlash : 0x2f ∉ name

/-- The bytes of one entry. -/
def EntryText (algorithm : HashAlgorithm) (text : Str) (entry : GitTreeEntry) : Prop :=
  ∃ digits, OctalMode digits entry.mode ∧ EntryName entry.name ∧
    entry.oid.algorithm = algorithm ∧ text = treeEntryBytes digits entry.name entry.oid

/-- The bytes of a tree: the texts of its entries in order. -/
def TreeText (algorithm : HashAlgorithm) (bytes : Str) (entries : List GitTreeEntry) : Prop :=
  ∃ texts, List.Forall₂ (EntryText algorithm) texts entries ∧ bytes = texts.flatten

section Separators
variable {α : Type} {p : α → Bool}

/-- The first hit splits a list into what stands before it and what stands behind it. -/
theorem findIdx?_eq_some_iff_append {xs : List α} {i : ℕ} :
    xs.findIdx? p = some i ↔ ∃ front x rear, xs = front ++ x :: rear ∧
      (∀ y ∈ front, p y = false) ∧ p x = true ∧ front.length = i := by
  constructor
  · intro found
    obtain ⟨inside, hit, before⟩ := List.findIdx?_eq_some_iff_getElem.mp found
    refine ⟨xs.take i, xs[i], xs.drop (i + 1), ?_, ?_, hit, length_take_of_le inside.le⟩
    · rw [cons_getElem_drop_succ, take_append_drop]
    · intro y mem
      obtain ⟨j, bound, rfl⟩ := getElem_of_mem mem
      rw [length_take] at bound
      rw [getElem_take]
      exact Bool.eq_false_iff.mpr (before j (by omega))
  · rintro ⟨front, x, rear, rfl, before, hit, rfl⟩
    rw [List.findIdx?_append, List.findIdx?_eq_none_iff.mpr before, Option.none_or,
      List.findIdx?_cons, if_pos hit]
    simp
end Separators

section Modes
variable {digits : Str} {mode : TreeMode}

/-- The digits as Horner's rule reads them. -/
theorem foldlM_octal_eq_some_iff {acc value : ℕ} :
    digits.foldlM (fun mode byte => if 0x30 ≤ byte ∧ byte ≤ 0x37 then
        some (mode * 8 + (byte - 0x30).toNat) else none) acc = some value ↔
      (∀ digit ∈ digits, 0x30 ≤ digit ∧ digit ≤ 0x37) ∧
        value = acc * 8 ^ digits.length +
          Nat.ofDigits 8 (digits.reverse.map fun digit => (digit - 0x30).toNat) := by
  induction digits generalizing acc with
  | nil => simp [Nat.ofDigits_nil, eq_comm]
  | cons digit digits ih =>
    rw [foldlM_cons, forall_mem_cons, reverse_cons, map_append, Nat.ofDigits_append, length_cons]
    by_cases octal : 0x30 ≤ digit ∧ digit ≤ 0x37
    · rw [if_pos octal]
      have shifted : (acc * 8 + (digit - 0x30).toNat) * 8 ^ digits.length =
          acc * 8 ^ (digits.length + 1) + 8 ^ digits.length * (digit - 0x30).toNat := by ring
      simp only [Option.bind_eq_bind, Option.bind_some, ih, octal, shifted, true_and,
        length_map, length_reverse, map_cons, map_nil, Nat.ofDigits_singleton,
        add_assoc, add_comm (Nat.ofDigits _ _)]
    · simp [octal]

theorem TreeMode.ofBits_eq_some_iff {bits : ℕ} :
    TreeMode.ofBits bits = some mode ↔ mode.bits = bits := by
  constructor
  · intro found
    have hit := List.find?_some found
    rwa [decide_eq_true_eq] at hit
  · rintro rfl
    cases mode <;> rfl

theorem parseTreeMode_eq_some_iff :
    parseTreeMode digits = some mode ↔ OctalMode digits mode := by
  unfold parseTreeMode
  constructor
  · intro parsed
    split_ifs at parsed with bad
    obtain ⟨value, octal, bits⟩ := Option.bind_eq_some_iff.mp parsed
    obtain ⟨digitsOctal, rfl⟩ := foldlM_octal_eq_some_iff.mp octal
    rw [not_or, not_lt] at bad
    rw [TreeMode.ofBits_eq_some_iff, zero_mul, zero_add] at bits
    exact ⟨bad.1, bad.2, digitsOctal, bits.symm⟩
  · rintro ⟨nonempty, short, octal, value⟩
    have read : octalValue digits = some mode.bits :=
      foldlM_octal_eq_some_iff.mpr ⟨octal, by rw [value, zero_mul, zero_add]⟩
    rw [if_neg (not_or.mpr ⟨nonempty, not_lt.mpr short⟩), read, Option.bind_some,
      TreeMode.ofBits_eq_some_iff]
end Modes

section Parser
variable {object : GitObject} {entry : GitTreeEntry} {entries : List GitTreeEntry}
  {remaining rest : Str}

theorem OctalMode.notMem {digits : Str} {mode : TreeMode} (octal : OctalMode digits mode)
    {byte : UInt8} (below : byte < 0x30) : byte ∉ digits := fun mem =>
  absurd (octal.octal byte mem).1 (not_le.mpr below)

theorem treeEntryBytes_append (digits name tail : Str) (oid : GitOid) :
    treeEntryBytes digits name oid ++ tail =
      (digits ++ 0x20 :: name) ++ 0 :: (oid.bytes ++ tail) := by
  simp [treeEntryBytes]

/-- One turn of the loop takes the text of one entry off the input. -/
theorem parseTreeEntry_eq_ok_iff : parseTreeEntry object remaining = .ok (entry, rest) ↔
    ∃ text, EntryText object.oid.algorithm text entry ∧ remaining = text ++ rest := by
  simp only [parseTreeEntry, bind_eq_ok_iff, require_eq_ok, ofOption_eq_ok, mapErr_eq_ok,
    exists_const, parseTreeMode_eq_some_iff, findIdx?_eq_some_iff_append, ok.injEq, Prod.mk.injEq,
    decide_eq_true_eq, decide_eq_false_iff_not, GitOid.new_eq_ok_iff]
  constructor
  · rintro ⟨_, ⟨header, _, tail, rfl, noNul, rfl, rfl⟩, _, ⟨digits, _, name, split, _, rfl, rfl⟩,
      ⟨nonempty, noSlash⟩, mode, octal, _, oid, ⟨algorithm, bytes⟩, rfl, rfl⟩
    rw [take_left] at split nonempty noSlash octal ⊢
    subst split
    have behind : (digits ++ 0x20 :: name).drop (digits.length + 1) = name := by simp
    rw [behind] at nonempty noSlash ⊢
    rw [take_left] at octal
    rw [slice, ← drop_drop, drop_left, drop_one, tail_cons] at bytes
    refine ⟨_, ⟨digits, octal, ⟨nonempty, fun mem => noNul 0 (by simp [mem]) rfl, noSlash⟩,
      algorithm, rfl⟩, ?_⟩
    rw [treeEntryBytes_append, bytes, ← drop_drop, ← drop_drop, drop_left,
      drop_one, tail_cons, take_append_drop]
  · rintro ⟨_, ⟨digits, octal, ⟨nonempty, noNul, noSlash⟩, algorithm, rfl⟩, rfl⟩
    rw [treeEntryBytes_append]
    have behind : (digits ++ 0x20 :: entry.name).drop (digits.length + 1) = entry.name := by simp
    have length : entry.oid.bytes.length = object.oid.algorithm.oidLen := by
      rw [entry.oid.length_eq, algorithm]
    refine ⟨_, ⟨digits ++ 0x20 :: entry.name, 0, _, rfl, ?_, rfl, rfl⟩, _,
      ⟨digits, 0x20, entry.name, take_left, ?_, rfl, rfl⟩, ?_⟩
    · intro byte mem
      rw [mem_append, mem_cons] at mem
      rcases mem with digit | rfl | inName
      · exact fun nul => octal.notMem (by decide) (nul ▸ digit)
      · decide
      · exact fun nul => noNul (nul ▸ inName)
    · exact fun byte mem space => octal.notMem (by decide) (space ▸ mem)
    · rw [take_left, behind, take_left]
      refine ⟨⟨nonempty, noSlash⟩, entry.mode, octal, ?_, entry.oid, ⟨algorithm, ?_⟩, rfl, ?_⟩
      · simp only [length_append, length_cons, length]
        omega
      · rw [slice, ← drop_drop, drop_left, drop_one, tail_cons, take_left' length]
      · rw [← drop_drop, ← drop_drop, drop_left, drop_one, tail_cons, drop_left' length]

variable {algorithm : HashAlgorithm} {bytes : Str}

theorem EntryText.ne_nil {text : Str} (h : EntryText algorithm text entry) : text ≠ [] := by
  obtain ⟨digits, octal, _, _, rfl⟩ := h
  intro empty
  simp [treeEntryBytes] at empty

theorem treeText_nil_iff :
    TreeText algorithm bytes [] ↔ bytes = [] := by
  simp [TreeText]

theorem treeText_cons_iff :
    TreeText algorithm bytes (entry :: entries) ↔
      ∃ rest text, (EntryText algorithm text entry ∧ bytes = text ++ rest) ∧
        TreeText algorithm rest entries := by
  simp only [TreeText, forall₂_cons_right_iff]
  constructor
  · rintro ⟨_, ⟨text, texts, first, others, rfl⟩, rfl⟩
    exact ⟨texts.flatten, text, ⟨first, flatten_cons⟩, texts, others, rfl⟩
  · rintro ⟨_, text, ⟨first, rfl⟩, texts, others, rfl⟩
    exact ⟨text :: texts, ⟨text, texts, first, others, rfl⟩, flatten_cons.symm⟩

/-- The loop reads a list of entries exactly where their texts make up the input. -/
theorem parseTreeLoop_eq_ok_iff :
    parseTreeLoop object remaining.length remaining = .ok entries ↔
      TreeText object.oid.algorithm remaining entries := by
  induction entries generalizing remaining with
  | nil =>
    rw [treeText_nil_iff]
    by_cases empty : remaining = []
    · subst empty
      simp [parseTreeLoop]
    · simp [parseTreeLoop_cons empty, bind_eq_ok_iff, empty]
  | cons entry entries ih =>
    rw [treeText_cons_iff]
    by_cases empty : remaining = []
    · subst empty
      have none : ∀ rest text, EntryText object.oid.algorithm text entry → [] ≠ text ++ rest :=
        fun _ _ first joined => first.ne_nil (append_eq_nil_iff.mp joined.symm).1
      simp only [parseTreeLoop, length_nil, ok.injEq, reduceCtorEq, false_iff]
      rintro ⟨rest, text, ⟨first, joined⟩, _⟩
      exact none rest text first joined
    · simp only [parseTreeLoop_cons empty, bind_eq_ok_iff, Prod.exists, ok.injEq,
        List.cons.injEq, parseTreeEntry_eq_ok_iff]
      constructor
      · rintro ⟨first, rest, ⟨text, parsed, split⟩, others, looped, rfl, rfl⟩
        exact ⟨rest, text, ⟨parsed, split⟩, ih.mp looped⟩
      · rintro ⟨rest, text, parsed, others⟩
        exact ⟨entry, rest, ⟨text, parsed⟩, entries, ih.mpr others, rfl, rfl⟩

theorem parseTreeEntries_tree (oid : GitOid) (bytes : Str) :
    parseTreeEntries ⟨oid, .tree, bytes⟩ = .ok entries ↔ TreeText oid.algorithm bytes entries := by
  rw [parseTreeEntries, require_pos rfl, ok_bind, parseTreeLoop_eq_ok_iff]

/-- The parser accepts the texts of trees and no others, and a text has one list of entries. -/
theorem parseTreeEntries_eq_ok_iff_treeText (oid : GitOid) (bytes : Str) :
    (∀ entries, parseTreeEntries ⟨oid, .tree, bytes⟩ = .ok entries ↔
      TreeText oid.algorithm bytes entries) ∧
    ∀ entries entries', TreeText oid.algorithm bytes entries →
      TreeText oid.algorithm bytes entries' → entries = entries' := by
  refine ⟨fun entries => parseTreeEntries_tree oid bytes, fun entries entries' text text' => ?_⟩
  have parsed := (parseTreeEntries_tree oid bytes).mpr text
  rw [(parseTreeEntries_tree oid bytes).mpr text'] at parsed
  exact (ok.inj parsed).symm
end Parser
end ReflinkForest
