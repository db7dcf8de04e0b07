import ReflinkForest.Core.Identity
import ReflinkForest.Lib.JoinedPath

/-! Relative paths and trees of a backup, and the check that every stored path passes. -/
namespace ReflinkForest
open Bytes List

inductive BackupIoError where
  | notFound | alreadyExists | notADirectory | isADirectory | invalidInput
  deriving DecidableEq

/-- Paths in errors are the bytes of the path. -/
inductive BackupError where
  | io (error : BackupIoError)
  | unsafeSource (path : Str)
  | invalidManifest
  | invalidColdTierLayout
  | verificationFailed (path : Str)
  | destinationExists
  | unsafeDestination
  deriving DecidableEq

def slash : UInt8 := 0x2f

def ValidComponent (name : Str) : Prop :=
  name ≠ [] ∧ 0 ∉ name ∧ slash ∉ name ∧ name ≠ ascii "." ∧ name ≠ ascii ".."

instance (name : Str) : Decidable (ValidComponent name) := by
  unfold ValidComponent
  infer_instance

/-- A name that a directory can hold. -/
structure FileName where
  bytes : Str
  valid : ValidComponent bytes
  deriving DecidableEq

open FileName

namespace FileName
variable {a b : FileName}

@[ext] theorem ext' (h : a.bytes = b.bytes) : a = b := by
  cases a
  cases b
  simp_all

theorem bytes_injective : Function.Injective bytes := fun _ _ => ext'

/-- Names are ordered by their bytes, and paths by their names. -/
instance : LinearOrder FileName := LinearOrder.lift' bytes bytes_injective

theorem lt_iff : a < b ↔ a.bytes < b.bytes := Iff.rfl

def ofBytes (name : Str) : Option FileName :=
  if h : ValidComponent name then some ⟨name, h⟩ else none

theorem ofBytes_eq_some {name : Str} {n : FileName} : ofBytes name = some n ↔ n.bytes = name := by
  unfold ofBytes
  constructor
  · intro h
    split at h
    · cases h
      rfl
    · cases h
  · rintro rfl
    rw [dif_pos n.valid]
end FileName

def maxManifestPathBytes : ℕ := 1024 * 1024

def validatePathBytes (path : Str) : Except BackupError Unit := do
  .require (path ≠ [] ∧ path.length ≤ maxManifestPathBytes ∧ 0 ∉ path ∧
    path.head? ≠ some slash ∧ path.getLast? ≠ some slash) .invalidManifest
  .require (∀ component ∈ path.splitOn slash,
    component ≠ [] ∧ component ≠ ascii "." ∧ component ≠ ascii "..") .invalidManifest

/-- The bytes of a path below a root. -/
def pathBytes (names : List FileName) : Str := [slash].intercalate (names.map FileName.bytes)

/-- The components of a path that was checked. -/
def pathNames (path : Str) : List FileName := (path.splitOn slash).filterMap FileName.ofBytes

section Bytes
variable {names names' : List FileName} {path : Str}

theorem mem_splitOn_slash {component : Str} (h : component ∈ path.splitOn slash) :
    slash ∉ component ∧ ∀ byte ∈ component, byte ∈ path := by
  induction path generalizing component with
  | nil =>
    rw [splitOn_nil, mem_singleton] at h
    simp [h]
  | cons first path ih =>
    rw [List.splitOn, splitOnP_cons_eq_if_modifyHead] at h
    split_ifs at h with separator
    · rcases mem_cons.mp h with rfl | later
      · simp
      · obtain ⟨noSlash, inside⟩ := ih later
        exact ⟨noSlash, fun byte mem => mem_cons_of_mem _ (inside byte mem)⟩
    · obtain ⟨head, tail, split⟩ := exists_cons_of_ne_nil (splitOn_ne_nil slash path)
      rw [List.splitOn] at split
      rw [split, modifyHead_cons] at h
      rw [List.splitOn, split] at ih
      rcases mem_cons.mp h with rfl | later
      · obtain ⟨noSlash, inside⟩ := ih mem_cons_self
        refine ⟨?_, ?_⟩
        · rw [mem_cons, not_or]
          exact ⟨fun same => separator (by simp [same]), noSlash⟩
        · intro byte mem
          rcases mem_cons.mp mem with rfl | rest
          · exact mem_cons_self
          · exact mem_cons_of_mem _ (inside byte rest)
      · obtain ⟨noSlash, inside⟩ := ih (mem_cons_of_mem _ later)
        exact ⟨noSlash, fun byte mem => mem_cons_of_mem _ (inside byte mem)⟩

theorem splitOn_pathBytes (nonempty : names ≠ []) :
    (pathBytes names).splitOn slash = names.map bytes := by
  apply splitOn_intercalate
  · intro name mem
    obtain ⟨n, _, rfl⟩ := mem_map.mp mem
    exact n.valid.2.2.1
  · simpa using nonempty

theorem pathBytes_ne_nil (nonempty : names ≠ []) : pathBytes names ≠ [] := by
  intro empty
  obtain ⟨name, rest, rfl⟩ := exists_cons_of_ne_nil nonempty
  have split := splitOn_pathBytes nonempty
  rw [empty, splitOn_nil, map_cons, List.cons.injEq] at split
  exact name.valid.1 split.1.symm

theorem pathNames_pathBytes (nonempty : names ≠ []) : pathNames (pathBytes names) = names := by
  rw [pathNames, splitOn_pathBytes nonempty, filterMap_map]
  have same : ofBytes ∘ bytes = some := by
    funext n
    exact ofBytes_eq_some.mpr rfl
  rw [same, filterMap_some]

theorem pathBytes_injective (nonempty : names ≠ []) (nonempty' : names' ≠ [])
    (h : pathBytes names = pathBytes names') : names = names' := by
  rw [← pathNames_pathBytes nonempty, h, pathNames_pathBytes nonempty']

theorem pathBytes_cons_cons (name next : FileName) (names : List FileName) :
    pathBytes (name :: next :: names) = name.bytes ++ slash :: pathBytes (next :: names) := by
  simp [pathBytes, intercalate_cons_cons]

@[simp] theorem pathBytes_singleton (name : FileName) : pathBytes [name] = name.bytes := by
  simp [pathBytes]

theorem mem_pathBytes {byte : UInt8} (h : byte ∈ pathBytes names) :
    byte = slash ∨ ∃ name ∈ names, byte ∈ name.bytes := by
  induction names with
  | nil => simp [pathBytes] at h
  | cons name names ih =>
    cases names with
    | nil =>
      rw [pathBytes_singleton] at h
      exact .inr ⟨name, mem_cons_self, h⟩
    | cons next names =>
      rw [pathBytes_cons_cons, mem_append, mem_cons] at h
      rcases h with own | rfl | below
      · exact .inr ⟨name, mem_cons_self, own⟩
      · exact .inl rfl
      · rcases ih below with h | ⟨other, mem, h⟩
        · exact .inl h
        · exact .inr ⟨other, mem_cons_of_mem _ mem, h⟩

theorem head?_pathBytes : (pathBytes names).head? ≠ some slash := by
  cases names with
  | nil => simp [pathBytes]
  | cons name names =>
    obtain ⟨byte, rest, same⟩ := exists_cons_of_ne_nil name.valid.1
    have first : (pathBytes (name :: names)).head? = some byte := by
      cases names with
      | nil => rw [pathBytes_singleton, same, List.head?_cons]
      | cons next names => rw [pathBytes_cons_cons, same, cons_append, List.head?_cons]
    rw [first]
    intro h
    have inside : slash ∈ name.bytes := by rw [same, Option.some.inj h]; exact mem_cons_self
    exact name.valid.2.2.1 inside

theorem getLast?_pathBytes : (pathBytes names).getLast? ≠ some slash := by
  induction names with
  | nil => simp [pathBytes]
  | cons name names ih =>
    cases names with
    | nil =>
      rw [pathBytes_singleton]
      intro h
      exact name.valid.2.2.1 (mem_of_getLast? h)
    | cons next names =>
      rw [pathBytes_cons_cons, List.getLast?_append, List.getLast?_cons]
      cases last : (pathBytes (next :: names)).getLast? with
      | none =>
        exact absurd (List.getLast?_eq_none_iff.mp last) (pathBytes_ne_nil (cons_ne_nil _ _))
      | some byte =>
        rw [last] at ih
        simpa using ih

theorem validatePathBytes_eq_ok_iff : validatePathBytes path = .ok () ↔
    path.length ≤ maxManifestPathBytes ∧ ∃ names, names ≠ [] ∧ path = pathBytes names := by
  rw [validatePathBytes, Except.require_bind_eq_ok, Except.require_eq_ok]
  constructor
  · rintro ⟨⟨_, short, noZero, _, _⟩, components⟩
    refine ⟨short, ?_⟩
    have valid : ∀ component ∈ path.splitOn slash, ValidComponent component := by
      intro component mem
      obtain ⟨nonempty, dot, dots⟩ := components component mem
      obtain ⟨noSlash, inside⟩ := mem_splitOn_slash mem
      exact ⟨nonempty, fun zero => noZero (inside 0 zero), noSlash, dot, dots⟩
    refine ⟨(path.splitOn slash).pmap FileName.mk valid, ?_, ?_⟩
    · simp [splitOn_ne_nil]
    · rw [pathBytes, map_pmap, pmap_eq_map, map_id', intercalate_splitOn]
  · rintro ⟨short, names, nonempty, rfl⟩
    refine ⟨⟨pathBytes_ne_nil nonempty, short, ?_, head?_pathBytes, getLast?_pathBytes⟩, ?_⟩
    · intro zero
      rcases mem_pathBytes zero with h | ⟨name, _, h⟩
      · cases h
      · exact name.valid.2.1 h
    · rw [splitOn_pathBytes nonempty]
      intro component mem
      obtain ⟨name, _, rfl⟩ := mem_map.mp mem
      exact ⟨name.valid.1, name.valid.2.2.2⟩
end Bytes

section Order
/-- A file below a directory, and a sibling of the directory whose name goes on with a byte that
sorts before the separator. -/
def InvertedPair (a b : List FileName) : Prop :=
  ∃ above name rest sibling rest' byte more, a = above ++ name :: rest ∧ rest ≠ [] ∧
    b = above ++ sibling :: rest' ∧ sibling.bytes = name.bytes ++ byte :: more ∧ byte < slash

variable {a b : List FileName}

theorem inverted_map_bytes :
    JoinedPath.Inverted slash (a.map bytes) (b.map bytes) ↔
      InvertedPair a b := by
  constructor
  · rintro ⟨above, name, rest, rest', byte, more, hA, nonempty, hB, small⟩
    obtain ⟨front, later, rfl, rfl, tail⟩ := map_eq_append_iff.mp hA
    obtain ⟨dir, inside, rfl, rfl, rfl⟩ := map_eq_cons_iff.mp tail
    obtain ⟨front', later', rfl, same, tail'⟩ := map_eq_append_iff.mp hB
    obtain ⟨sibling, others, rfl, longer, _⟩ := map_eq_cons_iff.mp tail'
    obtain rfl := map_injective_iff.mpr bytes_injective same
    exact ⟨_, dir, inside, sibling, others, byte, more, rfl, by simpa using nonempty, rfl, longer,
      small⟩
  · rintro ⟨above, name, rest, sibling, rest', byte, more, rfl, nonempty, rfl, longer, small⟩
    exact ⟨above.map bytes, name.bytes, rest.map bytes, rest'.map bytes,
      byte, more, by simp, by simpa using nonempty, by simp [longer], small⟩

theorem map_bytes_lt_iff :
    a.map bytes < b.map bytes ↔ a < b := by
  induction a generalizing b with
  | nil =>
    cases b with
    | nil => simp
    | cons y b => simp [nil_lt_cons]
  | cons x a ih =>
    cases b with
    | nil => simp
    | cons y b =>
      rw [map_cons, map_cons, cons_lt_cons_iff, cons_lt_cons_iff, ih,
        lt_iff, bytes_injective.eq_iff]

theorem InvertedPair.lt (h : InvertedPair a b) : a < b :=
  map_bytes_lt_iff.mp (inverted_map_bytes.mpr h).lt

/-- Where the order of paths and the order of their bytes part. -/
theorem pathBytes_lt_iff (before : a < b) (apart : ¬ a <+: b) :
    pathBytes a < pathBytes b ↔ ¬ InvertedPair a b := by
  rw [← inverted_map_bytes]
  apply JoinedPath.joined_lt_iff
  · intro name mem
    obtain ⟨file, _, rfl⟩ := mem_map.mp mem
    exact file.valid.2.2.1
  · exact map_bytes_lt_iff.mpr before
  · rwa [prefix_map_iff_of_injective bytes_injective]
end Order

/-- A checked path relative to a root. -/
structure BackupPath where
  names : List FileName
  nonempty : names ≠ []
  short : (pathBytes names).length ≤ maxManifestPathBytes
  deriving DecidableEq

def BackupPath.bytes (path : BackupPath) : Str := pathBytes path.names

/-- What a directory holds besides directories. A file is shorter than `2 ^ 64` bytes. -/
inductive FileObject where
  | regular (content : Str) (small : content.length < 2 ^ 64)
  | special
  deriving DecidableEq

/-- A tree below a root, without following links. -/
abbrev BackupTree := PathTree FileName FileObject

/-- A directory tree as found on disk. -/
structure SourceTree where
  tree : BackupTree
  closed : tree.Closed
end ReflinkForest
