import ReflinkForest.Lib.FinMap

/-! Directory trees as finite maps from component lists to nodes. -/
inductive PathNode (β : Type) where
  | directory
  | leaf (content : β)
  deriving DecidableEq

abbrev PathTree (α β : Type) := FinMap (List α) (PathNode β)

namespace PathTree
open Except List FinMap

inductive Error where
  | notFound | notADirectory | alreadyExists
  deriving DecidableEq

section Ancestors
variable {α : Type}

/-- The strict prefixes of a path but the root, shortest first. -/
def ancestors (path : List α) : List (List α) :=
  (List.range' 1 (path.length - 1)).map path.take

theorem mem_ancestors {path above : List α} :
    above ∈ ancestors path ↔ above ≠ [] ∧ above <+: path ∧ above ≠ path := by
  simp only [ancestors, mem_map, mem_range'_1]
  constructor
  · rintro ⟨n, bounds, rfl⟩
    have length : (path.take n).length = n := by rw [length_take]; omega
    refine ⟨fun empty => ?_, take_prefix _ _, fun whole => ?_⟩
    · rw [empty, length_nil] at length
      omega
    · rw [whole] at length
      omega
  · rintro ⟨nonempty, ⟨rest, rfl⟩, different⟩
    have positive := length_pos_iff.mpr nonempty
    have more : 0 < rest.length := by
      rw [length_pos_iff]
      rintro rfl
      simp at different
    exact ⟨above.length, by rw [length_append]; omega, by simp⟩

theorem ancestors_map {γ : Type} (f : α → γ) (path : List α) :
    ancestors (path.map f) = (ancestors path).map (List.map f) := by
  simp [ancestors, map_take]

theorem ancestors_trans {path middle above : List α} (h : above ∈ ancestors middle)
    (h' : middle ∈ ancestors path) : above ∈ ancestors path := by
  rw [mem_ancestors] at h h' ⊢
  refine ⟨h.1, h.2.1.trans h'.2.1, ?_⟩
  rintro rfl
  exact h'.2.2 (h'.2.1.eq_of_length (le_antisymm h'.2.1.length_le h.2.1.length_le))

theorem lt_append_cons [LinearOrder α] (above : List α) (a : α) (rest : List α) :
    above < above ++ a :: rest := by
  induction above with
  | nil => exact nil_lt_cons a rest
  | cons b above ih => exact cons_lt_cons_iff.mpr (.inr ⟨rfl, ih⟩)

theorem lt_of_mem_ancestors [LinearOrder α] {path above : List α} (h : above ∈ ancestors path) :
    above < path := by
  obtain ⟨_, ⟨rest, rfl⟩, different⟩ := mem_ancestors.mp h
  cases rest with
  | nil => simp at different
  | cons a rest => exact lt_append_cons above a rest

/-- In a sorted list no path stands before one of its ancestors. -/
theorem pairwise_ancestors [LinearOrder α] {paths : List (List α)}
    (sorted : paths.Pairwise (· < ·)) :
    paths.Pairwise fun path later => later ∉ ancestors path := by
  apply sorted.imp
  intro path later before above
  exact lt_asymm before (lt_of_mem_ancestors above)

variable {path other : List α} {name : α}

theorem getLast?_of_dropLast {key : List α} :
    (key.dropLast = path ∧ key.getLast? = some name) ↔ key = path ++ [name] := by
  constructor
  · rintro ⟨rfl, last⟩
    exact (dropLast_append_getLast? name last).symm
  · rintro rfl
    simp

theorem eq_append_of_prefix (inside : path <+: other) (different : path ≠ other) :
    ∃ name, path ++ [name] <+: other := by
  obtain ⟨rest, rfl⟩ := inside
  cases rest with
  | nil => simp at different
  | cons name rest => exact ⟨name, by simp⟩

theorem not_prefix_of_ne_names {other' : List α} {name' : α} (different : name ≠ name')
    (h : path ++ [name] <+: other) (h' : path ++ [name'] <+: other') : ¬ other' <+: other := by
  intro inside
  have both := prefix_of_prefix_length_le h (h'.trans inside) (by simp)
  have same := both.eq_of_length (by simp)
  simp only [append_cancel_left_eq, List.cons.injEq, and_true] at same
  exact different same
end Ancestors

section Create
variable {α β : Type} [DecidableEq α]

def openDirectory (t : PathTree α β) (path : List α) : Except Error Unit :=
  match t.lookup path with
  | none => .error .notFound
  | some (.leaf _) => .error .notADirectory
  | some .directory => .ok ()

/-- Make an entry after walking down to its parent. -/
def create (t : PathTree α β) (path : List α) (node : PathNode β) :
    Except Error (PathTree α β) := do
  (ancestors path).forM (openDirectory t)
  .require (t.lookup path = none) .alreadyExists
  .ok (t.insert path node)

/-- Keep a directory, or make one. -/
def ensureDirectory (t : PathTree α β) (path : List α) : Except Error (PathTree α β) :=
  match t.lookup path with
  | some .directory => .ok t
  | some (.leaf _) => .error .notADirectory
  | none => .ok (t.insert path .directory)

/-- Make what is missing above an entry. -/
def makeParents (t : PathTree α β) (path : List α) : Except Error (PathTree α β) :=
  (ancestors path).foldlM ensureDirectory t

def makeDirectories (t : PathTree α β) (paths : List (List α)) : Except Error (PathTree α β) :=
  paths.foldlM (fun t path => create t path .directory) t

/-- The tree holds these directories and these leaves, and nothing else. -/
def Holds (t : PathTree α β) (directories : List (List α)) (leaves : List (List α × β)) : Prop :=
  ∀ path node, t.lookup path = some node ↔
    (path ∈ directories ∧ node = .directory) ∨ ∃ content, (path, content) ∈ leaves ∧
      node = .leaf content

variable {t t' : PathTree α β} {path : List α} {node : PathNode β} {content : β}
  {directories : List (List α)} {leaves : List (List α × β)}

theorem holds_empty : Holds (∅ : PathTree α β) [] [] := by
  intro path node
  simp

theorem openDirectory_eq_ok_iff :
    openDirectory t path = .ok () ↔ t.lookup path = some .directory := by
  unfold openDirectory
  split <;> simp_all

theorem create_eq_ok_iff :
    create t path node = .ok t' ↔ (∀ above ∈ ancestors path, t.lookup above = some .directory) ∧
      t.lookup path = none ∧ t' = t.insert path node := by
  simp only [create, bind_eq_ok_iff, require_eq_ok, ok.injEq, Unique.exists_iff,
    PUnit.default_eq_unit, forM_eq_ok_iff, openDirectory_eq_ok_iff]
  rw [eq_comm (a := t')]

theorem foldlM_ensureDirectory_self {paths : List (List α)}
    (made : ∀ path ∈ paths, t.lookup path = some .directory) :
    paths.foldlM ensureDirectory t = .ok t := by
  induction paths with
  | nil => rfl
  | cons path paths ih =>
    rw [foldlM_cons, ensureDirectory, made path mem_cons_self]
    exact ih fun later mem => made later (mem_cons_of_mem _ mem)

section
variable (h : Holds t directories leaves)
include h

theorem Holds.lookup_directory (mem : path ∈ directories) :
    t.lookup path = some .directory :=
  (h path _).mpr (.inl ⟨mem, rfl⟩)

theorem Holds.lookup_eq_none (noDirectory : path ∉ directories)
    (noLeaf : path ∉ leaves.map Prod.fst) : t.lookup path = none := by
  cases found : t.lookup path with
  | none => rfl
  | some node =>
    rcases (h path node).mp found with ⟨mem, _⟩ | ⟨content, mem, _⟩
    · exact absurd mem noDirectory
    · exact absurd (mem_map_of_mem mem) noLeaf

theorem Holds.insert_directory
    (noLeaf : path ∉ leaves.map Prod.fst) :
    Holds (t.insert path .directory) (directories ++ [path]) leaves := by
  intro other node
  rw [lookup_insert_eq]
  by_cases same : other = path
  · subst same
    rw [if_pos rfl, Option.some.injEq]
    constructor
    · rintro rfl
      exact .inl ⟨by simp, rfl⟩
    · rintro (⟨_, rfl⟩ | ⟨content, mem, _⟩)
      · rfl
      · exact absurd (mem_map_of_mem mem) noLeaf
  · rw [if_neg same, h other node, mem_append, mem_singleton, or_iff_left same]

theorem Holds.create_directory
    (parents : ∀ above ∈ ancestors path, above ∈ directories) (noDirectory : path ∉ directories)
    (noLeaf : path ∉ leaves.map Prod.fst) :
    create t path .directory = .ok (t.insert path .directory) ∧
      Holds (t.insert path .directory) (directories ++ [path]) leaves := by
  have absent := h.lookup_eq_none noDirectory noLeaf
  exact ⟨create_eq_ok_iff.mpr ⟨fun above mem => h.lookup_directory (parents above mem),
    absent, rfl⟩, h.insert_directory noLeaf⟩

theorem Holds.ensureDirectory
    (noLeaf : path ∉ leaves.map Prod.fst) :
    ∃ t', t.ensureDirectory path = .ok t' ∧ Holds t' (directories ++ [path]) leaves := by
  by_cases made : path ∈ directories
  · refine ⟨t, by rw [PathTree.ensureDirectory, h.lookup_directory made], ?_⟩
    intro other node
    rw [h other node, mem_append, mem_singleton,
      or_iff_left_of_imp fun same : other = path => same ▸ made]
  · refine ⟨_, ?_, h.insert_directory noLeaf⟩
    rw [PathTree.ensureDirectory, h.lookup_eq_none made noLeaf]

theorem Holds.foldlM_ensureDirectory {paths : List (List α)}
    (noLeaf : ∀ path ∈ paths, path ∉ leaves.map Prod.fst) :
    ∃ t', paths.foldlM PathTree.ensureDirectory t = .ok t' ∧
      Holds t' (directories ++ paths) leaves := by
  induction paths generalizing t directories with
  | nil => exact ⟨t, rfl, by simpa using h⟩
  | cons path paths ih =>
    obtain ⟨middle, ensured, held⟩ := h.ensureDirectory (noLeaf path mem_cons_self)
    obtain ⟨t', rest, holds⟩ := ih held fun later mem =>
      noLeaf later (mem_cons_of_mem _ mem)
    refine ⟨t', by rw [foldlM_cons, ensured]; exact rest, ?_⟩
    rwa [append_assoc] at holds

theorem Holds.create_leaf
    (parents : ∀ above ∈ ancestors path, above ∈ directories) (noDirectory : path ∉ directories)
    (noLeaf : path ∉ leaves.map Prod.fst) (content : β) :
    create t path (.leaf content) = .ok (t.insert path (.leaf content)) ∧
      Holds (t.insert path (.leaf content)) directories (leaves ++ [(path, content)]) := by
  have absent := h.lookup_eq_none noDirectory noLeaf
  refine ⟨create_eq_ok_iff.mpr ⟨fun above mem => h.lookup_directory (parents above mem),
    absent, rfl⟩, ?_⟩
  intro other node
  rw [lookup_insert_eq]
  by_cases same : other = path
  · subst same
    rw [if_pos rfl, Option.some.injEq]
    constructor
    · rintro rfl
      exact .inr ⟨content, by simp, rfl⟩
    · rintro (⟨mem, _⟩ | ⟨content', mem, rfl⟩)
      · exact absurd mem noDirectory
      · rcases mem_append.mp mem with old | new
        · exact absurd (mem_map_of_mem old) noLeaf
        · simp only [mem_singleton, Prod.mk.injEq, true_and] at new
          rw [new]
  · rw [if_neg same, h other node]
    simp [same]

omit h in
/-- Paths that stand behind their ancestors can be made one after the other. -/
theorem makeDirectories_holds {made paths : List (List α)} (h : Holds t made leaves)
    (distinct : (made ++ paths).Nodup)
    (order : paths.Pairwise fun path later => later ∉ ancestors path)
    (closed : ∀ path ∈ paths, ∀ above ∈ ancestors path, above ∈ made ++ paths)
    (apart : ∀ path ∈ paths, path ∉ leaves.map Prod.fst) :
    ∃ t', makeDirectories t paths = .ok t' ∧ Holds t' (made ++ paths) leaves := by
  induction paths generalizing t made with
  | nil => exact ⟨t, rfl, by simpa using h⟩
  | cons path paths ih =>
    obtain ⟨first, order⟩ := pairwise_cons.mp order
    have fresh : path ∉ made := by
      intro mem
      exact (nodup_append.mp distinct).2.2 path mem path (by simp) rfl
    have parents : ∀ above ∈ ancestors path, above ∈ made := by
      intro above mem
      rcases mem_append.mp (closed path (by simp) above mem) with old | rest
      · exact old
      · rcases mem_cons.mp rest with rfl | later
        · exact absurd rfl (mem_ancestors.mp mem).2.2
        · exact absurd mem (first above later)
    obtain ⟨created, held⟩ := h.create_directory parents fresh (apart path (by simp))
    have regroup : made ++ [path] ++ paths = made ++ path :: paths := by simp
    obtain ⟨t', made', holds⟩ := ih held (regroup ▸ distinct) order
      (fun later mem => regroup ▸ closed later (by simp [mem]))
      (fun later mem => apart later (by simp [mem]))
    exact ⟨t', by rw [makeDirectories, foldlM_cons, created]; exact made', regroup ▸ holds⟩

/-- A leaf with the directories that lead to it. -/
def place (t : PathTree α β) (leaf : List α × β) : Except Error (PathTree α β) := do
  let t ← t.makeParents leaf.1
  t.create leaf.1 (.leaf leaf.2)

/-- Leaves can be placed in any order when none stands above another. -/
theorem Holds.foldlM_place {more : List (List α × β)}
    (distinct : ((leaves ++ more).map Prod.fst).Nodup)
    (apart : ∀ leaf ∈ more, ∀ other ∈ leaves ++ more, other.1 ∉ ancestors leaf.1)
    (below : ∀ leaf ∈ more, leaf.1 ∉ directories)
    (flat : ∀ leaf ∈ more, ∀ other ∈ more, leaf.1 ∉ ancestors other.1) :
    ∃ t', more.foldlM place t = .ok t' ∧
      Holds t' (directories ++ more.flatMap fun leaf => ancestors leaf.1) (leaves ++ more) := by
  induction more generalizing t directories leaves with
  | nil => exact ⟨t, rfl, by simpa using h⟩
  | cons leaf more ih =>
    have regroup : leaves ++ [leaf] ++ more = leaves ++ leaf :: more := by simp
    have noLeaf : ∀ above ∈ ancestors leaf.1, above ∉ leaves.map Prod.fst := by
      intro above mem inside
      obtain ⟨other, present, rfl⟩ := mem_map.mp inside
      exact apart leaf mem_cons_self other (mem_append_left _ present) mem
    obtain ⟨middle, made, held⟩ := h.foldlM_ensureDirectory noLeaf
    have fresh : leaf.1 ∉ directories ++ ancestors leaf.1 := by
      intro mem
      rcases mem_append.mp mem with old | above
      · exact below leaf mem_cons_self old
      · exact flat leaf mem_cons_self leaf mem_cons_self above
    have unplaced : leaf.1 ∉ leaves.map Prod.fst := by
      rw [map_append, map_cons] at distinct
      intro mem
      exact (nodup_append.mp distinct).2.2 _ mem _ mem_cons_self rfl
    obtain ⟨created, placed⟩ := held.create_leaf (fun above mem =>
      mem_append_right _ mem) fresh unplaced leaf.2
    obtain ⟨t', rest, holds⟩ := ih placed (regroup ▸ distinct)
      (fun later mem other present => apart later (mem_cons_of_mem _ mem) other
        (regroup ▸ present))
      (fun later mem inside => by
        rcases mem_append.mp inside with old | above
        · exact below later (mem_cons_of_mem _ mem) old
        · exact flat later (mem_cons_of_mem _ mem) leaf mem_cons_self above)
      (fun later mem other present => flat later (mem_cons_of_mem _ mem) other
        (mem_cons_of_mem _ present))
    refine ⟨t', ?_, ?_⟩
    · rw [foldlM_cons, place, makeParents, made, ok_bind, created]
      exact rest
    · rwa [append_assoc, regroup] at holds
end

/-- Entries that stand behind their parents can be made one after the other. -/
def createAll (t : PathTree α β) (entries : List (List α × PathNode β)) :
    Except Error (PathTree α β) :=
  entries.foldlM (fun t entry => create t entry.1 entry.2) t

theorem createAll_lookup {entries : List (List α × PathNode β)}
    (fresh : ∀ entry ∈ entries, t.lookup entry.1 = none)
    (distinct : (entries.map Prod.fst).Nodup)
    (order : entries.Pairwise fun entry later => later.1 ∉ ancestors entry.1)
    (parents : ∀ entry ∈ entries, ∀ above ∈ ancestors entry.1,
      t.lookup above = some .directory ∨ (above, .directory) ∈ entries) :
    ∃ t', createAll t entries = .ok t' ∧ ∀ path node, t'.lookup path = some node ↔
      t.lookup path = some node ∨ (path, node) ∈ entries := by
  induction entries generalizing t with
  | nil => exact ⟨t, rfl, by simp⟩
  | cons entry entries ih =>
    obtain ⟨path, node⟩ := entry
    obtain ⟨first, order⟩ := pairwise_cons.mp order
    rw [map_cons, nodup_cons] at distinct
    have absent : t.lookup path = none := fresh _ mem_cons_self
    have created : create t path node = .ok (t.insert path node) := by
      refine create_eq_ok_iff.mpr ⟨?_, absent, rfl⟩
      intro above mem
      rcases parents _ mem_cons_self above mem with made | listed
      · exact made
      · rcases mem_cons.mp listed with own | later
        · exact absurd (Prod.mk.inj own).1 (mem_ancestors.mp mem).2.2
        · exact absurd mem (first _ later)
    have apart : ∀ later ∈ entries, later.1 ≠ path := by
      rintro later mem rfl
      exact distinct.1 (mem_map.mpr ⟨later, mem, rfl⟩)
    obtain ⟨t', made, holds⟩ := ih (t := t.insert path node)
      (by
        intro later mem
        rw [lookup_insert_eq, if_neg (apart later mem)]
        exact fresh later (mem_cons_of_mem _ mem))
      distinct.2 order
      (by
        intro later mem above inside
        rw [lookup_insert_eq]
        rcases parents later (mem_cons_of_mem _ mem) above inside with old | listed
        · left
          split_ifs with same
          · rw [same, absent] at old
            cases old
          · exact old
        · rcases mem_cons.mp listed with own | rest
          · obtain ⟨rfl, rfl⟩ := Prod.mk.inj own
            exact .inl (if_pos rfl)
          · exact .inr rest)
    refine ⟨t', by rw [createAll, foldlM_cons, created]; exact made, ?_⟩
    intro other found
    rw [holds, lookup_insert_eq, mem_cons, Prod.mk.injEq]
    split_ifs with same
    · subst same
      rw [absent, Option.some.injEq, eq_comm]
      simp
    · simp [same]
end Create

section Listing
variable {α β : Type} [DecidableEq α]

/-- Every entry lies below directories, and the root has none. -/
def Closed (t : PathTree α β) : Prop :=
  ∀ path ∈ t, path ≠ [] ∧ ∀ above ∈ ancestors path, t.lookup above = some .directory

instance [DecidableEq β] (t : PathTree α β) : Decidable t.Closed :=
  inferInstanceAs (Decidable (∀ path ∈ t.keys,
    path ≠ [] ∧ ∀ above ∈ ancestors path, t.lookup above = some .directory))

/-- The names in a directory, in the order in which the map lists them. -/
def childNames (t : PathTree α β) (path : List α) : List α :=
  t.keys.filterMap fun key => if key.dropLast = path then key.getLast? else none

def height (t : PathTree α β) : ℕ := (t.keys.map List.length).foldr max 0

/-- The entries below a directory, each in front of its own entries. -/
def walk (t : PathTree α β) : ℕ → List α → List (List α)
  | 0, _ => []
  | fuel + 1, path => (t.childNames path).flatMap fun name =>
      (path ++ [name]) :: walk t fuel (path ++ [name])

variable {t : PathTree α β} {path other : List α} {name : α} {fuel : ℕ}

theorem mem_childNames : name ∈ t.childNames path ↔ path ++ [name] ∈ t := by
  rw [childNames, mem_filterMap, AList.mem_keys]
  constructor
  · rintro ⟨key, mem, found⟩
    split_ifs at found with parent
    rw [← getLast?_of_dropLast.mp ⟨parent, found⟩]
    exact mem
  · intro mem
    exact ⟨_, mem, by simp⟩

theorem nodup_childNames : (t.childNames path).Nodup := by
  refine List.Nodup.filterMap ?_ t.keys_nodup
  intro key key' name found found'
  split_ifs at found found' with parent parent'
  · rw [getLast?_of_dropLast.mp ⟨parent, found⟩, getLast?_of_dropLast.mp ⟨parent', found'⟩]
  all_goals simp_all

omit [DecidableEq α] in
theorem length_le_height (mem : path ∈ t) : path.length ≤ t.height := by
  unfold height
  rw [AList.mem_keys] at mem
  generalize t.keys = keys at mem ⊢
  induction keys with
  | nil => simp at mem
  | cons key keys ih =>
    rw [map_cons, foldr_cons]
    rcases mem_cons.mp mem with rfl | later
    · exact le_max_left _ _
    · exact (ih later).trans (le_max_right _ _)

omit [DecidableEq α] in
theorem height_le {n : ℕ} (short : ∀ path ∈ t, path.length ≤ n) : t.height ≤ n := by
  unfold height
  simp only [AList.mem_keys] at short
  generalize t.keys = keys at short ⊢
  induction keys with
  | nil => exact Nat.zero_le n
  | cons key keys ih =>
    rw [map_cons, foldr_cons]
    exact max_le (short key mem_cons_self)
      (ih fun path mem => short path (mem_cons_of_mem _ mem))

/-- What a directory entry begins is in the tree as well. -/
theorem Closed.mem_of_prefix (closed : t.Closed) (mem : other ∈ t) (nonempty : path ≠ [])
    (inside : path <+: other) : path ∈ t := by
  by_cases same : path = other
  · exact same ▸ mem
  · have directory := (closed other mem).2 path (mem_ancestors.mpr ⟨nonempty, inside, same⟩)
    exact mem_of_lookup directory

theorem Closed.lookup_below_leaf (closed : t.Closed) {content : β}
    (leaf : t.lookup path = some (.leaf content)) (name : α) (rest : List α) :
    t.lookup (path ++ name :: rest) = none := by
  rw [AList.lookup_eq_none]
  intro mem
  have nonempty := (closed path (mem_of_lookup leaf)).1
  have directory := (closed _ mem).2 path
    (mem_ancestors.mpr ⟨nonempty, prefix_append _ _, by simp⟩)
  rw [leaf] at directory
  cases directory

theorem Closed.erase_leaf (closed : t.Closed) {content : β}
    (leaf : t.lookup path = some (.leaf content)) : Closed (t.erase path) := by
  intro other mem
  obtain ⟨_, stored⟩ := AList.mem_erase.mp mem
  obtain ⟨nonempty, above⟩ := closed other stored
  refine ⟨nonempty, fun directory inside => ?_⟩
  have listed := above directory inside
  rw [AList.lookup_erase_ne, listed]
  rintro rfl
  rw [leaf] at listed
  cases listed

theorem prefix_of_mem_walk (mem : other ∈ t.walk fuel path) :
    other ∈ t ∧ path <+: other ∧ path ≠ other := by
  induction fuel generalizing path with
  | zero => simp [walk] at mem
  | succ fuel ih =>
    rw [walk, mem_flatMap] at mem
    obtain ⟨name, child, mem⟩ := mem
    rcases mem_cons.mp mem with rfl | below
    · exact ⟨mem_childNames.mp child, prefix_append _ _, by simp⟩
    · obtain ⟨inside, prefixed, _⟩ := ih below
      refine ⟨inside, (prefix_append _ _).trans prefixed, ?_⟩
      rintro rfl
      have := prefixed.length_le
      simp at this

/-- A walk with enough fuel meets exactly the entries below the directory. -/
theorem Closed.mem_walk (closed : t.Closed) (enough : t.height ≤ path.length + fuel) :
    other ∈ t.walk fuel path ↔ other ∈ t ∧ path <+: other ∧ path ≠ other := by
  refine ⟨prefix_of_mem_walk, ?_⟩
  rintro ⟨mem, inside, different⟩
  induction fuel generalizing path with
  | zero =>
    have short := (length_le_height mem).trans enough
    exact absurd (inside.eq_of_length (le_antisymm inside.length_le short)) different
  | succ fuel ih =>
    obtain ⟨name, next⟩ := eq_append_of_prefix inside different
    have child := closed.mem_of_prefix mem (append_ne_nil_of_right_ne_nil _ (by simp)) next
    rw [walk, mem_flatMap]
    refine ⟨name, mem_childNames.mpr child, mem_cons.mpr ?_⟩
    by_cases same : path ++ [name] = other
    · exact .inl same.symm
    · refine .inr (ih ?_ next same)
      rw [length_append, length_singleton]
      omega

/-- Each entry is met once, and no entry is met behind one that it contains. -/
theorem pairwise_walk : (t.walk fuel path).Pairwise fun met later => ¬ later <+: met := by
  induction fuel generalizing path with
  | zero => exact .nil
  | succ fuel ih =>
    rw [walk, pairwise_flatMap]
    refine ⟨?_, ?_⟩
    · intro name _
      rw [pairwise_cons]
      refine ⟨?_, ih⟩
      intro later mem inside
      obtain ⟨_, prefixed, different⟩ := prefix_of_mem_walk mem
      exact different (prefixed.eq_of_length (le_antisymm prefixed.length_le inside.length_le))
    · refine nodup_childNames.imp ?_
      intro name name' different met mem later member'
      have first : path ++ [name] <+: met := by
        rcases mem_cons.mp mem with rfl | below
        · exact prefix_rfl
        · exact (prefix_of_mem_walk below).2.1
      have second : path ++ [name'] <+: later := by
        rcases mem_cons.mp member' with rfl | below
        · exact prefix_rfl
        · exact (prefix_of_mem_walk below).2.1
      exact not_prefix_of_ne_names different first second

theorem Closed.mem_walk_root (closed : t.Closed) : path ∈ t.walk (t.height + 1) [] ↔ path ∈ t := by
  rw [closed.mem_walk (by simp)]
  exact ⟨fun h => h.1, fun h => ⟨h, nil_prefix, (closed path h).1.symm⟩⟩

/-- The whole tree, each entry in front of its own entries. -/
def walkEntries (t : PathTree α β) : List (List α × PathNode β) :=
  (t.walk (t.height + 1) []).map fun path => (path, (t.lookup path).getD .directory)

theorem map_fst_walkEntries : t.walkEntries.map Prod.fst = t.walk (t.height + 1) [] := by
  rw [walkEntries, map_map]
  exact map_id' _

theorem Closed.mem_walkEntries (closed : t.Closed) {node : PathNode β} :
    (path, node) ∈ t.walkEntries ↔ t.lookup path = some node := by
  simp only [walkEntries, mem_map, Prod.mk.injEq, closed.mem_walk_root]
  constructor
  · rintro ⟨_, mem, rfl, rfl⟩
    obtain ⟨node, found⟩ := exists_lookup mem
    rw [found, Option.getD_some]
  · intro found
    exact ⟨path, mem_of_lookup found, rfl, by rw [found, Option.getD_some]⟩

/-- Making the entries of a closed tree one after the other copies it. -/
theorem Closed.createAll_walkEntries (closed : t.Closed) :
    ∃ t', createAll ∅ t.walkEntries = .ok t' ∧ ∀ path, t'.lookup path = t.lookup path := by
  have ordered : (t.walk (t.height + 1) []).Pairwise fun met later => ¬ later <+: met :=
    pairwise_walk
  have distinct : (t.walkEntries.map Prod.fst).Nodup := by
    rw [map_fst_walkEntries]
    refine ordered.imp fun apart same => apart ?_
    rw [same]
  have order : t.walkEntries.Pairwise fun entry later => later.1 ∉ ancestors entry.1 := by
    rw [walkEntries, pairwise_map]
    exact ordered.imp fun apart above => apart (mem_ancestors.mp above).2.1
  obtain ⟨t', created, holds⟩ := createAll_lookup (t := ∅) (by simp) distinct order (by
    rintro ⟨path, node⟩ mem above inside
    have present : path ∈ t :=
      mem_of_lookup (closed.mem_walkEntries.mp mem)
    exact .inr (closed.mem_walkEntries.mpr ((closed path present).2 above inside)))
  refine ⟨t', created, fun path => ?_⟩
  ext node
  rw [holds, closed.mem_walkEntries]
  simp
end Listing

section Sorted
variable {α β : Type} [LinearOrder α] {t t' : PathTree α β} {path : List α} {name : α}

def sortedNames (t : PathTree α β) (path : List α) : List α :=
  (t.childNames path).insertionSort (· ≤ ·)

theorem mem_sortedNames : name ∈ t.sortedNames path ↔ path ++ [name] ∈ t :=
  (perm_insertionSort _ _).mem_iff.trans mem_childNames

theorem pairwise_sortedNames : (t.sortedNames path).Pairwise (· < ·) := by
  have ascending : (t.sortedNames path).Pairwise (· ≤ ·) := pairwise_insertionSort _ _
  have distinct : (t.sortedNames path).Nodup :=
    (perm_insertionSort _ _).nodup_iff.mpr nodup_childNames
  exact (ascending.and distinct).imp fun h => lt_of_le_of_ne h.1 h.2

theorem sortedNames_eq_filter {kept : α → Bool}
    (same : ∀ name, path ++ [name] ∈ t' ↔ path ++ [name] ∈ t ∧ kept name) :
    t'.sortedNames path = (t.sortedNames path).filter kept := by
  refine pairwise_sortedNames.eq_of_mem_iff (pairwise_sortedNames.filter _) fun name => ?_
  rw [mem_filter, mem_sortedNames, mem_sortedNames, same]

theorem sortedNames_congr (same : ∀ name, path ++ [name] ∈ t' ↔ path ++ [name] ∈ t) :
    t'.sortedNames path = t.sortedNames path :=
  pairwise_sortedNames.eq_of_mem_iff pairwise_sortedNames fun name => by
    rw [mem_sortedNames, mem_sortedNames, same]

theorem sortedNames_eq_nil (deep : t.height ≤ path.length) : t.sortedNames path = [] := by
  rw [eq_nil_iff_forall_not_mem]
  intro name mem
  have long := length_le_height (mem_sortedNames.mp mem)
  rw [length_append, length_singleton] at long
  omega
end Sorted
end PathTree
