import ReflinkForest.Lib.PathTree

/-! Paths as component lists and as one list with separators, and where their orders agree. -/
namespace JoinedPath
open List

variable {α : Type} {sep : α}

def joined (sep : α) (names : List (List α)) : List α := [sep].intercalate names

@[simp] theorem joined_singleton (name : List α) : joined sep [name] = name := by simp [joined]

theorem joined_cons_cons (name next : List α) (names : List (List α)) :
    joined sep (name :: next :: names) = name ++ sep :: joined sep (next :: names) := by
  simp [joined, intercalate_cons_cons]

theorem exists_joined_cons (sep : α) (name : List α) (names : List (List α)) :
    ∃ tail, joined sep (name :: names) = name ++ tail ∧
      (names = [] ∧ tail = [] ∨ names ≠ [] ∧ ∃ more, tail = sep :: more) := by
  cases names with
  | nil => exact ⟨[], by simp, .inl ⟨rfl, rfl⟩⟩
  | cons next names => exact ⟨_, joined_cons_cons name next names, .inr ⟨by simp, _, rfl⟩⟩

variable [LinearOrder α]

/-- A list comes before another as a prefix of it, or whatever follows the two. -/
theorem lt_cases {a b : List α} (h : a < b) :
    (∃ c more, b = a ++ c :: more) ∨ ∀ tail tail', a ++ tail < b ++ tail' := by
  induction a generalizing b with
  | nil =>
    cases b with
    | nil => exact absurd h (lt_irrefl _)
    | cons c more => exact .inl ⟨c, more, rfl⟩
  | cons x a ih =>
    cases b with
    | nil => exact absurd h (not_lt_nil _)
    | cons y b =>
      rcases cons_lt_cons_iff.mp h with first | ⟨rfl, rest⟩
      · exact .inr fun _ _ => cons_lt_cons_iff.mpr (.inl first)
      · rcases ih rest with ⟨c, more, rfl⟩ | always
        · exact .inl ⟨c, more, rfl⟩
        · exact .inr fun tail tail' => cons_lt_cons_iff.mpr (.inr ⟨rfl, always tail tail'⟩)

theorem append_left_lt_iff {front a b : List α} : front ++ a < front ++ b ↔ a < b := by
  constructor
  · intro h
    by_contra not
    rcases lt_or_eq_of_le (not_lt.mp not) with less | rfl
    · exact lt_asymm h (append_left_lt less)
    · exact lt_irrefl _ h
  · exact append_left_lt

/-- Something below a component, and a sibling of the component that goes on with an element that
sorts before the separator. -/
def Inverted (sep : α) (a b : List (List α)) : Prop :=
  ∃ above name rest rest' c more, a = above ++ name :: rest ∧ rest ≠ [] ∧
    b = above ++ (name ++ c :: more) :: rest' ∧ c < sep

theorem inverted_cons {name : List α} {a b : List (List α)} :
    Inverted sep (name :: a) (name :: b) ↔ Inverted sep a b := by
  constructor
  · rintro ⟨above, dir, rest, rest', c, more, hA, nonempty, hB, small⟩
    cases above with
    | nil =>
      have longer := congrArg List.length ((cons.inj hA).1.symm.trans (cons.inj hB).1)
      simp at longer
    | cons first above =>
      exact ⟨above, dir, rest, rest', c, more, (cons.inj hA).2, nonempty,
        (cons.inj hB).2, small⟩
  · rintro ⟨above, dir, rest, rest', c, more, rfl, nonempty, rfl, small⟩
    exact ⟨name :: above, dir, rest, rest', c, more, rfl, nonempty, rfl, small⟩

theorem inverted_of_ne {x y : List α} {a b : List (List α)} (different : x ≠ y) :
    Inverted sep (x :: a) (y :: b) ↔ a ≠ [] ∧ ∃ c more, y = x ++ c :: more ∧ c < sep := by
  constructor
  · rintro ⟨above, dir, rest, rest', c, more, hA, nonempty, hB, small⟩
    cases above with
    | nil =>
      obtain ⟨rfl, rfl⟩ := cons.inj hA
      obtain ⟨rfl, rfl⟩ := cons.inj hB
      exact ⟨nonempty, c, more, rfl, small⟩
    | cons first above =>
      exact absurd ((cons.inj hA).1.trans (cons.inj hB).1.symm) different
  · rintro ⟨nonempty, c, more, rfl, small⟩
    exact ⟨[], x, a, b, c, more, rfl, nonempty, rfl, small⟩

theorem Inverted.lt {a b : List (List α)} (h : Inverted sep a b) : a < b := by
  obtain ⟨above, name, rest, rest', c, more, rfl, _, rfl, _⟩ := h
  exact append_left_lt (cons_lt_cons_iff.mpr (.inl (PathTree.lt_append_cons _ _ _)))

/-- Where the order of component lists and the order of the joined lists part. -/
theorem joined_lt_iff {a b : List (List α)} (plain : ∀ name ∈ b, sep ∉ name) (before : a < b)
    (apart : ¬ a <+: b) : joined sep a < joined sep b ↔ ¬ Inverted sep a b := by
  induction a generalizing b with
  | nil => exact absurd nil_prefix apart
  | cons x a ih =>
    cases b with
    | nil => exact absurd before (not_lt_nil _)
    | cons y b =>
      rcases cons_lt_cons_iff.mp before with first | ⟨rfl, rest⟩
      · obtain ⟨tail, joinedA, endA⟩ := exists_joined_cons sep x a
        obtain ⟨tail', joinedB, _⟩ := exists_joined_cons sep y b
        rw [joinedA, joinedB, inverted_of_ne first.ne]
        rcases lt_cases first with ⟨c, more, rfl⟩ | always
        · rw [append_assoc]
          rcases endA with ⟨rfl, rfl⟩ | ⟨nonempty, rest, rfl⟩
          · refine iff_of_true ?_ (by simp)
            exact append_left_lt (nil_lt_cons _ _)
          · have noSep : c ≠ sep := by
              rintro rfl
              exact plain _ mem_cons_self (by simp)
            rw [append_left_lt_iff, cons_append, cons_lt_cons_iff,
              or_iff_left fun same => noSep same.1.symm]
            simp only [nonempty, ne_eq, not_false_eq_true, true_and, append_cancel_left_eq,
              cons.injEq]
            constructor
            · rintro large ⟨_, _, ⟨rfl, _⟩, small⟩
              exact lt_asymm small large
            · intro none_
              exact lt_of_le_of_ne (not_lt.mp fun small => none_ ⟨c, more, ⟨rfl, rfl⟩, small⟩)
                noSep.symm
        · refine iff_of_true (always _ _) ?_
          rintro ⟨_, c, more, rfl, _⟩
          have reversed := always (c :: more) []
          rw [append_nil] at reversed
          exact lt_irrefl _ reversed
      · have apart' : ¬ a <+: b := fun h => apart (cons_prefix_cons.mpr ⟨rfl, h⟩)
        rw [inverted_cons, ← ih (fun name mem => plain name (mem_cons_of_mem _ mem)) rest apart']
        cases a with
        | nil => exact absurd nil_prefix apart'
        | cons next a =>
          cases b with
          | nil => exact absurd rest (not_lt_nil _)
          | cons next' b =>
            rw [joined_cons_cons, joined_cons_cons, append_left_lt_iff, cons_lt_cons_iff,
              or_iff_right (lt_irrefl sep), and_iff_right rfl]

/-- When a list in component order is also in the order of the joined lists. -/
theorem pairwise_joined_lt_iff {paths : List (List (List α))}
    (plain : ∀ path ∈ paths, ∀ name ∈ path, sep ∉ name) (sorted : paths.Pairwise (· < ·))
    (apart : paths.Pairwise fun a b => ¬ a <+: b) :
    (paths.map (joined sep)).Pairwise (· < ·) ↔
      ∀ a ∈ paths, ∀ b ∈ paths, ¬ Inverted sep a b := by
  rw [pairwise_map]
  induction paths with
  | nil => simp
  | cons path paths ih =>
    obtain ⟨before, sorted⟩ := pairwise_cons.mp sorted
    obtain ⟨free, apart⟩ := pairwise_cons.mp apart
    have step : ∀ later ∈ paths, (joined sep path < joined sep later ↔ ¬ Inverted sep path later) :=
      fun later mem => joined_lt_iff (plain later (mem_cons_of_mem _ mem))
        (before later mem) (free later mem)
    have self : ¬ Inverted sep path path := fun h => lt_irrefl _ h.lt
    have back : ∀ later ∈ paths, ¬ Inverted sep later path := fun later mem h =>
      lt_asymm h.lt (before later mem)
    rw [pairwise_cons, ih (fun later mem => plain later (mem_cons_of_mem _ mem)) sorted apart]
    simp only [forall_mem_cons]
    constructor
    · rintro ⟨first, rest⟩
      exact ⟨⟨self, fun later mem => (step later mem).mp (first later mem)⟩,
        fun later mem => ⟨back later mem, rest later mem⟩⟩
    · rintro ⟨⟨_, first⟩, rest⟩
      exact ⟨fun later mem => (step later mem).mpr (first later mem),
        fun later mem => (rest later mem).2⟩
end JoinedPath
