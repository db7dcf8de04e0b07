import ReflinkForest.Git.TreeObject
import ReflinkForest.Lib.PathTree

/-! Validated checkout paths and the plan of a raw checkout. -/
namespace ReflinkForest
open Bytes Except List PathTree

structure CheckoutLimits where
  maxEntries : ℕ := 1000000
  maxComponents : ℕ := 128
  maxComponentBytes : ℕ := 255
  maxPathBytes : ℕ := 4096

structure TreeName where
  bytes : Str
  nonempty : bytes ≠ []
  noNul : 0 ∉ bytes
  noSlash : 0x2f ∉ bytes
  notDot : bytes ≠ ascii "."
  notDotDot : bytes ≠ ascii ".."
  deriving DecidableEq

structure RelativePath where
  components : List TreeName
  nonempty : components ≠ []
  deriving DecidableEq

inductive CheckoutError where
  | emptyPath
  | absolutePath
  | emptyComponent
  | nulByte
  | slashInComponent
  | dotComponent
  | dotDotComponent
  | componentTooLong (actual limit : ℕ)
  | pathTooLong (actual limit : ℕ)
  | tooManyComponents (actual limit : ℕ)
  | tooManyEntries (actual limit : ℕ)
  | invalidGitMode (mode : ℕ)
  | duplicatePath (path : RelativePath)
  | pathConflict (ancestor descendant : RelativePath)
  deriving DecidableEq

inductive TreeEntryMode where
  | regular | executable | symlink | gitlink
  deriving DecidableEq

namespace TreeEntryMode
def gitMode : TreeEntryMode → ℕ
  | .regular => 0x81a4
  | .executable => 0x81ed
  | .symlink => 0xa000
  | .gitlink => 0xe000

def fromGitMode (mode : ℕ) : Except CheckoutError TreeEntryMode :=
  .ofOption (.invalidGitMode mode)
    ([.regular, .executable, .symlink, .gitlink].find? (·.gitMode = mode))
end TreeEntryMode

section Paths
variable {limits : CheckoutLimits}

def TreeName.new (name : Str) (limits : CheckoutLimits) : Except CheckoutError TreeName :=
  if nonempty : name = [] then .error .emptyComponent
  else if noNul : 0 ∈ name then .error .nulByte
  else if noSlash : 0x2f ∈ name then .error .slashInComponent
  else if notDot : name = ascii "." then .error .dotComponent
  else if notDotDot : name = ascii ".." then .error .dotDotComponent
  else if limits.maxComponentBytes < name.length then
    .error (.componentTooLong name.length limits.maxComponentBytes)
  else .ok ⟨name, nonempty, noNul, noSlash, notDot, notDotDot⟩

theorem TreeName.ext' {a b : TreeName} (h : a.bytes = b.bytes) : a = b := by
  cases a
  cases b
  cases h
  rfl

theorem TreeName.bytes_injective : Function.Injective TreeName.bytes := fun _ _ => TreeName.ext'

theorem TreeName.new_eq_ok_iff {name : Str} {result : TreeName} :
    TreeName.new name limits = .ok result ↔
      result.bytes = name ∧ name.length ≤ limits.maxComponentBytes := by
  constructor
  · intro h
    unfold TreeName.new at h
    split_ifs at h with _ _ _ _ _ long
    cases h
    exact ⟨rfl, not_lt.mp long⟩
  · rintro ⟨rfl, short⟩
    unfold TreeName.new
    rw [dif_neg result.nonempty, dif_neg result.noNul, dif_neg result.noSlash,
      dif_neg result.notDot, dif_neg result.notDotDot, if_neg (not_lt.mpr short)]

/-- Component bytes and the separators between them. -/
def encodedPathLen (components : List TreeName) : ℕ :=
  (components.map (·.bytes.length)).sum + (components.length - 1)

def validatePathShape (components : List TreeName) (limits : CheckoutLimits) :
    Except CheckoutError Unit := do
  .require (components ≠ []) .emptyPath
  .refuse (components.find? fun c => limits.maxComponentBytes < c.bytes.length)
    fun c => .componentTooLong c.bytes.length limits.maxComponentBytes
  .require (components.length ≤ limits.maxComponents)
    (.tooManyComponents components.length limits.maxComponents)
  .require (encodedPathLen components ≤ limits.maxPathBytes)
    (.pathTooLong (encodedPathLen components) limits.maxPathBytes)

/-- The shape that `validatePathShape` accepts. -/
structure PathWithin (limits : CheckoutLimits) (components : List TreeName) : Prop where
  nonempty : components ≠ []
  names : ∀ c ∈ components, c.bytes.length ≤ limits.maxComponentBytes
  depth : components.length ≤ limits.maxComponents
  bytes : encodedPathLen components ≤ limits.maxPathBytes

theorem validatePathShape_eq_ok_iff {components : List TreeName} {u : Unit} :
    validatePathShape components limits = .ok u ↔ PathWithin limits components := by
  simp only [validatePathShape, bind_eq_ok_iff, require_eq_ok, exists_const,
    Except.refuse_eq_ok, List.find?_eq_none, decide_eq_true_iff, not_lt]
  constructor
  · rintro ⟨nonempty, names, depth, bytes⟩
    exact ⟨nonempty, names, depth, bytes⟩
  · rintro ⟨nonempty, names, depth, bytes⟩
    exact ⟨nonempty, names, depth, bytes⟩

namespace RelativePath
def fromComponents (components : List TreeName) (limits : CheckoutLimits) :
    Except CheckoutError RelativePath :=
  match components with
  | [] => .error .emptyPath
  | c :: cs => do
    validatePathShape (c :: cs) limits
    .ok ⟨c :: cs, by simp⟩

def join (path : RelativePath) (child : TreeName) (limits : CheckoutLimits) :
    Except CheckoutError RelativePath :=
  fromComponents (path.components ++ [child]) limits

/-- The path of a child, below the root when there is no parent. -/
def child (parent : Option RelativePath) (name : TreeName) (limits : CheckoutLimits) :
    Except CheckoutError RelativePath :=
  match parent with
  | some parent => parent.join name limits
  | none => fromComponents [name] limits

/-- Slash-separated raw path bytes. -/
def asBytes (path : RelativePath) : Str := [0x2f].intercalate (path.components.map (·.bytes))

/-- Component bytes, by which paths are ordered. -/
def names (path : RelativePath) : List Str := path.components.map (·.bytes)

def parentPaths (path : RelativePath) : List RelativePath :=
  (PathTree.ancestors path.components).attach.map fun above =>
    ⟨above.1, (PathTree.mem_ancestors.mp above.2).1⟩

def isAncestorOf (path other : RelativePath) : Bool :=
  path.components.length < other.components.length && path.components.isPrefixOf other.components

theorem ext' {a b : RelativePath} (h : a.components = b.components) : a = b := by
  cases a
  cases b
  cases h
  rfl

theorem names_injective : Function.Injective names := by
  intro a b h
  exact ext' (map_injective_iff.mpr TreeName.bytes_injective h)

theorem fromComponents_eq_ok_iff {components : List TreeName} {path : RelativePath} :
    fromComponents components limits = .ok path ↔
      path.components = components ∧ PathWithin limits components := by
  cases components with
  | nil => simp [fromComponents, path.nonempty]
  | cons c cs =>
    simp only [fromComponents, bind_eq_ok_iff, validatePathShape_eq_ok_iff, exists_const, ok.injEq]
    constructor
    · rintro ⟨within, rfl⟩
      exact ⟨rfl, within⟩
    · rintro ⟨same, within⟩
      exact ⟨within, ext' same.symm⟩

/-- The components above a child. -/
def above (parent : Option RelativePath) : List TreeName :=
  match parent with
  | some parent => parent.components
  | none => []

theorem child_eq_ok_iff {parent : Option RelativePath} {name : TreeName} {path : RelativePath} :
    child parent name limits = .ok path ↔
      path.components = above parent ++ [name] ∧ PathWithin limits (above parent ++ [name]) := by
  cases parent with
  | none => rw [child, fromComponents_eq_ok_iff, above, nil_append]
  | some parent => rw [child, join, fromComponents_eq_ok_iff, above]

theorem mem_parentPaths {path above : RelativePath} :
    above ∈ path.parentPaths ↔ above.components ∈ ancestors path.components := by
  simp only [parentPaths, mem_map, mem_attach, true_and, Subtype.exists]
  constructor
  · rintro ⟨_, mem, rfl⟩
    exact mem
  · intro mem
    exact ⟨_, mem, rfl⟩

theorem mem_ancestors_names {path : RelativePath} {above : List Str} :
    above ∈ ancestors path.names ↔ ∃ parent ∈ path.parentPaths, parent.names = above := by
  rw [names, ancestors_map, mem_map]
  constructor
  · rintro ⟨components, mem, rfl⟩
    exact ⟨⟨components, (mem_ancestors.mp mem).1⟩, mem_parentPaths.mpr mem, rfl⟩
  · rintro ⟨parent, mem, rfl⟩
    exact ⟨parent.components, mem_parentPaths.mp mem, rfl⟩

theorem names_prefix {path parent : RelativePath} (h : parent ∈ path.parentPaths) :
    parent.names <+: path.names :=
  (mem_ancestors.mp (mem_ancestors_names.mpr ⟨parent, h, rfl⟩)).2.1

theorem parentPaths_trans {path middle above : RelativePath} (h : above ∈ middle.parentPaths)
    (h' : middle ∈ path.parentPaths) : above ∈ path.parentPaths := by
  rw [mem_parentPaths] at h h' ⊢
  exact ancestors_trans h h'

theorem isAncestorOf_iff {path other : RelativePath} :
    path.isAncestorOf other = true ↔ path ∈ other.parentPaths := by
  rw [mem_parentPaths, mem_ancestors, isAncestorOf, Bool.and_eq_true, decide_eq_true_iff,
    isPrefixOf_iff_prefix]
  constructor
  · rintro ⟨shorter, above⟩
    exact ⟨path.nonempty, above, fun same => by rw [same] at shorter; omega⟩
  · rintro ⟨_, above, different⟩
    refine ⟨lt_of_le_of_ne above.length_le fun same => ?_, above⟩
    exact different (above.eq_of_length same)
end RelativePath
end Paths

structure PlannedObject where
  mode : TreeEntryMode
  oid : GitOid

structure PlannedEntry where
  path : RelativePath
  object : PlannedObject

structure CheckoutPlan where
  directories : List RelativePath
  entries : List PlannedEntry

/-- The entries of a plan so far, none of them below another. -/
structure CheckoutPlanBuilder where
  limits : CheckoutLimits
  entries : FinMap RelativePath PlannedObject
  apart : ∀ path ∈ entries, ∀ above ∈ path.parentPaths, above ∉ entries

namespace CheckoutPlanBuilder
def new (limits : CheckoutLimits) : CheckoutPlanBuilder := ⟨limits, ∅, by simp⟩

def paths (builder : CheckoutPlanBuilder) : List RelativePath :=
  (builder.entries.sortedBy fun e => e.1.names).map (·.1)

theorem mem_paths {builder : CheckoutPlanBuilder} {path : RelativePath} :
    path ∈ builder.paths ↔ path ∈ builder.entries := by
  rw [paths, mem_map, ← AList.lookup_isSome, Option.isSome_iff_exists]
  constructor
  · rintro ⟨⟨_, object⟩, mem, rfl⟩
    exact ⟨object, FinMap.mem_sortedBy.mp mem⟩
  · rintro ⟨object, found⟩
    exact ⟨(path, object), FinMap.mem_sortedBy.mpr found, rfl⟩

theorem apart_insert {entries : FinMap RelativePath PlannedObject} {path : RelativePath}
    (object : PlannedObject)
    (apart : ∀ other ∈ entries, ∀ above ∈ other.parentPaths, above ∉ entries)
    (noneAbove : ∀ above ∈ path.parentPaths, above ∉ entries)
    (noneBelow : ∀ other ∈ entries, path ∉ other.parentPaths) :
    ∀ other ∈ entries.insert path object, ∀ above ∈ other.parentPaths,
      above ∉ entries.insert path object := by
  intro other mem above higher inserted
  rw [AList.mem_insert] at mem inserted
  rcases mem with rfl | mem <;> rcases inserted with rfl | inserted
  · exact (mem_ancestors.mp (RelativePath.mem_parentPaths.mp higher)).2.2 rfl
  · exact noneAbove above higher inserted
  · exact noneBelow other mem higher
  · exact apart other mem above higher inserted

def add (builder : CheckoutPlanBuilder) (path : RelativePath) (object : PlannedObject) :
    Except CheckoutError CheckoutPlanBuilder := do
  validatePathShape path.components builder.limits
  .require (path ∉ builder.entries) (.duplicatePath path)
  .require (builder.entries.keys.length + 1 ≤ builder.limits.maxEntries)
    (.tooManyEntries (builder.entries.keys.length + 1) builder.limits.maxEntries)
  match above : path.parentPaths.find? (· ∈ builder.entries) with
  | some ancestor => .error (.pathConflict ancestor path)
  | none =>
    match below : builder.paths.find? (path.isAncestorOf ·) with
    | some descendant => .error (.pathConflict path descendant)
    | none =>
      .ok ⟨builder.limits, builder.entries.insert path object, apart_insert object builder.apart
        (by simpa using above) fun other member => by
          have := List.find?_eq_none.mp below other (mem_paths.mpr member)
          rwa [RelativePath.isAncestorOf_iff] at this⟩

def addTreeEntry (builder : CheckoutPlanBuilder) (parent : Option RelativePath) (name : TreeName)
    (object : PlannedObject) : Except CheckoutError CheckoutPlanBuilder := do
  let path ← RelativePath.child parent name builder.limits
  builder.add path object

def finish (builder : CheckoutPlanBuilder) : CheckoutPlan where
  directories := (builder.paths.flatMap (·.parentPaths)).dedup.insertionSort
    fun a b => a.names ≤ b.names
  entries := (builder.entries.sortedBy fun e => e.1.names).map fun e => ⟨e.1, e.2⟩

variable {builder builder' : CheckoutPlanBuilder} {path : RelativePath} {object : PlannedObject}

theorem ext' (limits : builder.limits = builder'.limits)
    (entries : builder.entries = builder'.entries) :
    builder = builder' := by
  cases builder
  cases builder'
  cases limits
  cases entries
  rfl

/-- What a path must satisfy to join the entries of a builder. -/
structure Admits (builder : CheckoutPlanBuilder) (path : RelativePath) : Prop where
  within : PathWithin builder.limits path.components
  fresh : path ∉ builder.entries
  room : builder.entries.keys.length + 1 ≤ builder.limits.maxEntries
  noneAbove : ∀ above ∈ path.parentPaths, above ∉ builder.entries
  noneBelow : ∀ other ∈ builder.entries, path ∉ other.parentPaths

theorem add_eq_ok_iff : builder.add path object = .ok builder' ↔ builder.Admits path ∧
    builder'.limits = builder.limits ∧ builder'.entries = builder.entries.insert path object := by
  simp only [add, bind_eq_ok_iff, validatePathShape_eq_ok_iff, require_eq_ok, exists_const]
  constructor
  · rintro ⟨within, fresh, room, h⟩
    split at h
    · simp at h
    · rename_i above
      split at h
      · simp at h
      · rename_i below
        cases h
        refine ⟨⟨within, fresh, room, by simpa using above, ?_⟩, rfl, rfl⟩
        intro other mem higher
        exact List.find?_eq_none.mp below other (mem_paths.mpr mem)
          (RelativePath.isAncestorOf_iff.mpr higher)
  · rintro ⟨admits, limits, entries⟩
    refine ⟨admits.within, admits.fresh, admits.room, ?_⟩
    split
    · rename_i ancestor found
      exact absurd (by simpa using List.find?_some found)
        (admits.noneAbove ancestor (mem_of_find?_eq_some found))
    · split
      · rename_i descendant found
        exact absurd (RelativePath.isAncestorOf_iff.mp (List.find?_some found))
          (admits.noneBelow descendant (mem_paths.mp (mem_of_find?_eq_some found)))
      · exact congrArg Except.ok (ext' limits.symm entries.symm)

theorem add_of_admits (object : PlannedObject) (admits : builder.Admits path) :
    ∃ builder', builder.add path object = .ok builder' ∧ builder'.limits = builder.limits ∧
      builder'.entries = builder.entries.insert path object :=
  ⟨⟨builder.limits, builder.entries.insert path object,
    apart_insert object builder.apart admits.noneAbove admits.noneBelow⟩,
    add_eq_ok_iff.mpr ⟨admits, rfl, rfl⟩, rfl, rfl⟩

theorem mem_finish_directories {directory : RelativePath} :
    directory ∈ builder.finish.directories ↔ ∃ path ∈ builder.entries,
      directory ∈ path.parentPaths := by
  rw [finish, (perm_insertionSort _ _).mem_iff, mem_dedup, mem_flatMap]
  simp only [mem_paths]

theorem mem_finish_entries {entry : PlannedEntry} :
    entry ∈ builder.finish.entries ↔ builder.entries.lookup entry.path = some entry.object := by
  rw [finish, mem_map]
  constructor
  · rintro ⟨⟨path, object⟩, mem, rfl⟩
    exact FinMap.mem_sortedBy.mp mem
  · intro found
    exact ⟨_, FinMap.mem_sortedBy.mpr found, rfl⟩

theorem finish_entries_nodup : (builder.finish.entries.map (·.path)).Nodup := by
  have keys : ((builder.entries.sortedBy fun e => e.1.names).map (·.1)).Nodup := by
    refine ((perm_insertionSort _ _).map Prod.fst).nodup_iff.mpr ?_
    rw [map_map]
    exact builder.entries.keys_nodup
  simpa [finish, Function.comp_def] using keys

theorem finish_directories_sorted :
    (builder.finish.directories.map (·.names)).Pairwise (· < ·) := by
  rw [pairwise_map]
  have ordered := pairwise_insertionSort (fun a b : RelativePath => a.names ≤ b.names)
    (builder.paths.flatMap (·.parentPaths)).dedup
  have distinct : builder.finish.directories.Nodup :=
    (perm_insertionSort _ _).nodup_iff.mpr (nodup_dedup _)
  refine (ordered.and distinct).imp ?_
  rintro a b ⟨le, different⟩
  exact lt_of_le_of_ne le fun same => different (RelativePath.names_injective same)
end CheckoutPlanBuilder

end ReflinkForest
