import ReflinkForest.Backup.Checkpoint

/-! Digests of the authoritative entries of a cold tier: a file by its content, a directory by a
stream that names everything below it. -/
namespace ReflinkForest
open Bytes Except List PathTree AList FinMap

def authoritativeDirectoryMagic : Str := ascii "RFAUTD01"

section Digest
variable (P : Primitives)

def hashAuthoritativeName (hasher : Str) (name : FileName) : Except BackupError Str := do
  .require (name.bytes.length < 2 ^ 32) .invalidColdTierLayout
  .ok (hasher ++ u32 (UInt32.ofNat name.bytes.length) ++ name.bytes)

def hashAuthoritativeFileContents (hasher content : Str) : Str :=
  hasher ++ u64 (UInt64.ofNat content.length) ++ content

/-- The bytes that a directory feeds to the hasher. A tree is never deeper than its height. -/
def hashAuthoritativeDirectoryEntries (t : BackupTree) (authority : Str) :
    ℕ → List FileName → Str → Except BackupError Str
  | 0, _, hasher => .ok (hasher ++ ascii "E")
  | fuel + 1, directory, hasher => do
    let children := t.sortedNames directory
    children.forM fun name =>
      .mapErr (fun _ => .verificationFailed authority) (validatePathBytes name.bytes)
    let hasher ← children.foldlM (fun hasher name =>
      match t.lookup (directory ++ [name]) with
      | some (.leaf (.regular content _)) => do
        let hasher ← hashAuthoritativeName (hasher ++ ascii "F") name
        .ok (hashAuthoritativeFileContents hasher content)
      | some .directory => do
        let hasher ← hashAuthoritativeName (hasher ++ ascii "D") name
        hashAuthoritativeDirectoryEntries t authority fuel (directory ++ [name]) hasher
      | _ => .error (.verificationFailed authority)) hasher
    .ok (hasher ++ ascii "E")

def symlinkMetadata (t : BackupTree) (path : List FileName) :
    Except PathTree.Error (PathNode FileObject) := do
  (PathTree.ancestors path).forM (PathTree.openDirectory t)
  .ofOption .notFound (t.lookup path)

def hashAuthoritativeEntry (root : BackupTree) (relative : BackupPath) :
    Except BackupError Digest :=
  match symlinkMetadata root relative.names with
  | .ok (.leaf (.regular content _)) => .ok (P.sha256 content)
  | .ok .directory => do
    let hasher ← hashAuthoritativeDirectoryEntries root relative.bytes (root.height + 1)
      relative.names authoritativeDirectoryMagic
    .ok (P.sha256 hasher)
  | .ok (.leaf .special) => .error (.verificationFailed relative.bytes)
  | .error .notFound => .error (.verificationFailed relative.bytes)
  | .error e => .error (ioError e)
end Digest

section Agreement
variable {P : Primitives} {t t' : BackupTree} {directory : List FileName} {authority : Str}
  {fuel fuel' : ℕ} {relative : BackupPath}

theorem hashAuthoritativeDirectoryEntries_empty (empty : t.sortedNames directory = [])
    (hasher : Str) : hashAuthoritativeDirectoryEntries t authority fuel directory hasher =
      .ok (hasher ++ ascii "E") := by
  cases fuel with
  | zero => rfl
  | succ fuel =>
    rw [hashAuthoritativeDirectoryEntries, empty]
    rfl

theorem hashAuthoritativeDirectoryEntries_congr
    (same : ∀ name rest, t.lookup (directory ++ name :: rest) =
      t'.lookup (directory ++ name :: rest))
    (enough : t.height ≤ directory.length + fuel) (enough' : t'.height ≤ directory.length + fuel')
    (hasher : Str) : hashAuthoritativeDirectoryEntries t authority fuel directory hasher =
      hashAuthoritativeDirectoryEntries t' authority fuel' directory hasher := by
  have names : t.sortedNames directory = t'.sortedNames directory :=
    sortedNames_congr fun name => by
      rw [← lookup_isSome, ← lookup_isSome, same name []]
  induction fuel generalizing directory fuel' hasher with
  | zero =>
    have empty := sortedNames_eq_nil enough
    rw [hashAuthoritativeDirectoryEntries_empty empty,
      hashAuthoritativeDirectoryEntries_empty (names ▸ empty)]
  | succ fuel ih =>
    cases fuel' with
    | zero =>
      have empty := sortedNames_eq_nil enough'
      rw [hashAuthoritativeDirectoryEntries_empty empty,
        hashAuthoritativeDirectoryEntries_empty (names.symm ▸ empty)]
    | succ fuel' =>
      rw [hashAuthoritativeDirectoryEntries, hashAuthoritativeDirectoryEntries, names]
      refine bind_congr fun _ =>
        congrArg (· >>= _) (foldlM_congr (fun name _ hasher => ?_) _)
      rw [same name []]
      split
      · rfl
      · refine bind_congr fun hasher => ?_
        have below : ∀ next rest, t.lookup (directory ++ [name] ++ next :: rest) =
            t'.lookup (directory ++ [name] ++ next :: rest) := by
          intro next rest
          rw [append_assoc]
          exact same name (next :: rest)
        refine ih below ?_ ?_ hasher (sortedNames_congr fun next => ?_)
        · simp only [length_append, length_singleton]
          omega
        · simp only [length_append, length_singleton]
          omega
        · rw [← lookup_isSome, ← lookup_isSome, below next []]
      · rfl

theorem symlinkMetadata_congr {path : List FileName} (nonempty : path ≠ [])
    (same : ∀ above, above ≠ [] → above <+: path → t.lookup above = t'.lookup above) :
    symlinkMetadata t path = symlinkMetadata t' path := by
  unfold symlinkMetadata
  rw [same path nonempty (prefix_refl _)]
  refine congrArg (· >>= _) (Except.forM_congr fun above mem => ?_)
  obtain ⟨nonempty', inside, _⟩ := mem_ancestors.mp mem
  unfold openDirectory
  rw [same above nonempty' inside]

theorem symlinkMetadata_eq_ok {path : List FileName} {node : PathNode FileObject}
    (h : symlinkMetadata t path = .ok node) : t.lookup path = some node := by
  obtain ⟨_, _, found⟩ := bind_eq_ok_iff.mp h
  exact ofOption_eq_ok.mp found

theorem hashAuthoritativeEntry_congr
    (same : ∀ path, path ≠ [] → path <+: relative.names ∨ relative.names <+: path →
      t.lookup path = t'.lookup path) :
    hashAuthoritativeEntry P t relative = hashAuthoritativeEntry P t' relative := by
  unfold hashAuthoritativeEntry
  rw [symlinkMetadata_congr relative.nonempty fun above nonempty inside =>
    same above nonempty (.inl inside)]
  have stream : ∀ hasher, hashAuthoritativeDirectoryEntries t relative.bytes (t.height + 1)
      relative.names hasher = hashAuthoritativeDirectoryEntries t' relative.bytes (t'.height + 1)
      relative.names hasher :=
    hashAuthoritativeDirectoryEntries_congr
      (fun name rest => same _ (by simp) (.inr (prefix_append _ _))) (by omega) (by omega)
  rw [stream]

theorem hashAuthoritativeEntry_mem {digest : Digest}
    (h : hashAuthoritativeEntry P t relative = .ok digest) : relative.names ∈ t := by
  unfold hashAuthoritativeEntry at h
  split at h
  case h_1 found => exact mem_of_lookup (symlinkMetadata_eq_ok found)
  case h_2 found => exact mem_of_lookup (symlinkMetadata_eq_ok found)
  all_goals cases h
end Agreement

section Stream
variable {P : Primitives} {t kept : BackupTree} {directory : List FileName} {authority : Str}
  {fuel : ℕ}

def entryStream (t : BackupTree) (below : List FileName → Str) (directory : List FileName)
    (name : FileName) : Str :=
  match t.lookup (directory ++ [name]) with
  | some (.leaf (.regular content _)) =>
    ascii "F" ++ u32 (UInt32.ofNat name.bytes.length) ++ name.bytes ++
      u64 (UInt64.ofNat content.length) ++ content
  | some .directory =>
    ascii "D" ++ u32 (UInt32.ofNat name.bytes.length) ++ name.bytes ++ below (directory ++ [name])
  | _ => []

/-- What the hasher is fed when nothing goes wrong. -/
def directoryStream (t : BackupTree) : ℕ → List FileName → Str
  | 0, _ => ascii "E"
  | fuel + 1, directory => (t.sortedNames directory).flatMap
      (entryStream t (directoryStream t fuel) directory) ++ ascii "E"

theorem hashAuthoritativeName_eq_ok_iff {name : FileName} {hasher hasher' : Str} :
    hashAuthoritativeName hasher name = .ok hasher' ↔ name.bytes.length < 2 ^ 32 ∧
      hasher' = hasher ++ u32 (UInt32.ofNat name.bytes.length) ++ name.bytes := by
  rw [hashAuthoritativeName, require_bind_eq_ok, ok.injEq, eq_comm (a := hasher')]

theorem hashAuthoritativeDirectoryEntries_eq_ok {hasher hasher' : Str}
    (h : hashAuthoritativeDirectoryEntries t authority fuel directory hasher = .ok hasher') :
    hasher' = hasher ++ directoryStream t fuel directory := by
  induction fuel generalizing directory hasher hasher' with
  | zero =>
    cases h
    rfl
  | succ fuel ih =>
    simp only [hashAuthoritativeDirectoryEntries, bind_eq_ok_iff, ok.injEq] at h
    obtain ⟨_, _, fed, folded, rfl⟩ := h
    rw [directoryStream, ← append_assoc]
    congr 1
    refine Except.foldlM_eq_flatMap (fun name _ before after step => ?_) folded
    rw [entryStream]
    split at step
    · obtain ⟨named, hashed, rest⟩ := bind_eq_ok_iff.mp step
      obtain ⟨_, rfl⟩ := hashAuthoritativeName_eq_ok_iff.mp hashed
      cases rest
      simp [hashAuthoritativeFileContents]
    · obtain ⟨named, hashed, rest⟩ := bind_eq_ok_iff.mp step
      obtain ⟨_, rfl⟩ := hashAuthoritativeName_eq_ok_iff.mp hashed
      rw [ih rest]
      simp
    · cases step

theorem hashAuthoritativeEntry_directory {relative : BackupPath} {digest : Digest}
    (directory : t.lookup relative.names = some .directory)
    (hashed : hashAuthoritativeEntry P t relative = .ok digest)
    (enough : t.height ≤ relative.names.length + fuel) :
    digest = P.sha256 (authoritativeDirectoryMagic ++ directoryStream t fuel relative.names) := by
  unfold hashAuthoritativeEntry at hashed
  split at hashed
  case h_1 found =>
    rw [symlinkMetadata_eq_ok found] at directory
    cases directory
  case h_2 found =>
    obtain ⟨hasher, fed, same⟩ := bind_eq_ok_iff.mp hashed
    cases same
    have enough' : t.height ≤ relative.names.length + (t.height + 1) := by omega
    rw [hashAuthoritativeDirectoryEntries_congr (fun _ _ => rfl) enough' enough] at fed
    rw [hashAuthoritativeDirectoryEntries_eq_ok fed]
  all_goals cases hashed
end Stream

section Files
variable {t kept : BackupTree} {directory path : List FileName} {fuel : ℕ}

/-- A regular file is found at the path or below it. -/
def HoldsFile (t : BackupTree) (path : List FileName) : Prop :=
  ∃ file, IsRegular t file ∧ path <+: file

instance : DecidablePred (HoldsFile t) := fun path =>
  decidable_of_iff (∃ file ∈ regularPaths t, path <+: file) (by simp only [mem_regularPaths]; rfl)

/-- The files of a tree with the directories that lead to them. -/
def FilesOnly (t kept : BackupTree) : Prop :=
  ∀ path, kept.lookup path = if HoldsFile t path then t.lookup path else none

section
variable (files : FilesOnly t kept)
include files

theorem FilesOnly.mem_iff :
    path ∈ kept ↔ path ∈ t ∧ HoldsFile t path := by
  rw [← lookup_isSome, ← lookup_isSome, files path]
  split_ifs with holds <;> simp [holds]

theorem FilesOnly.lookup_of_holdsFile (holds : HoldsFile t path) :
    kept.lookup path = t.lookup path := by
  rw [files path, if_pos holds]

theorem FilesOnly.lookup_leaf_iff (plain : Plain t)
    {object : FileObject} :
    kept.lookup path = some (.leaf object) ↔ t.lookup path = some (.leaf object) := by
  rw [files path]
  constructor
  · intro found
    split_ifs at found with holds
    exact found
  · intro found
    cases object with
    | special => exact absurd found (plain path)
    | regular content small =>
      have holds : HoldsFile t path := ⟨path, ⟨content, small, found⟩, prefix_refl _⟩
      rw [if_pos holds, found]

omit files in
theorem flatMap_filter_of_nil {α β : Type} {f : α → List β} {kept : α → Bool} {xs : List α}
    (dropped : ∀ x ∈ xs, kept x = false → f x = []) :
    (xs.filter kept).flatMap f = xs.flatMap f := by
  induction xs with
  | nil => rfl
  | cons x xs ih =>
    have rest := ih fun y mem => dropped y (mem_cons_of_mem _ mem)
    rw [flatMap_cons, filter_cons]
    split_ifs with keep
    · rw [flatMap_cons, rest]
    · rw [rest, dropped x mem_cons_self (by simpa using keep), nil_append]

theorem FilesOnly.directoryStream_succ :
    directoryStream kept (fuel + 1) directory = (t.sortedNames directory).flatMap
      (entryStream kept (directoryStream kept fuel) directory) ++ ascii "E" := by
  have names : kept.sortedNames directory =
      (t.sortedNames directory).filter fun name => HoldsFile t (directory ++ [name]) :=
    sortedNames_eq_filter fun name => by
      rw [files.mem_iff, decide_eq_true_eq]
  rw [directoryStream, names, flatMap_filter_of_nil]
  intro name _ dropped
  have absent : kept.lookup (directory ++ [name]) = none := by
    rw [files (directory ++ [name]), if_neg (of_decide_eq_false dropped)]
  rw [entryStream, absent]

theorem FilesOnly.length_entryStream_le {name : FileName}
    {below below' : List FileName → Str}
    (shorter : (below' (directory ++ [name])).length ≤ (below (directory ++ [name])).length) :
    (entryStream kept below' directory name).length ≤
      (entryStream t below directory name).length := by
  unfold entryStream
  rw [files (directory ++ [name])]
  split_ifs with holds
  · split
    · exact le_rfl
    · simp only [length_append]
      omega
    · exact le_rfl
  · exact Nat.zero_le _

theorem FilesOnly.length_directoryStream_le :
    (directoryStream kept fuel directory).length ≤ (directoryStream t fuel directory).length := by
  induction fuel generalizing directory with
  | zero => exact le_rfl
  | succ fuel ih =>
    rw [files.directoryStream_succ, directoryStream, length_append, length_append,
      length_flatMap, length_flatMap]
    refine Nat.add_le_add_right (sum_le_sum fun name _ => ?_) _
    exact files.length_entryStream_le ih

/-- A directory without files is missing from the shorter stream. -/
theorem FilesOnly.length_directoryStream_lt (closed : t.Closed)
    {name : FileName} {rest : List FileName} (enough : t.height ≤ directory.length + fuel)
    (found : t.lookup (directory ++ name :: rest) = some .directory)
    (fileless : ¬ HoldsFile t (directory ++ name :: rest)) :
    (directoryStream kept fuel directory).length < (directoryStream t fuel directory).length := by
  have present : directory ++ name :: rest ∈ t := mem_of_lookup found
  induction fuel generalizing directory name rest with
  | zero =>
    have long := length_le_height present
    simp only [length_append, length_cons] at long
    omega
  | succ fuel ih =>
    have inside : directory ++ [name] <+: directory ++ name :: rest := by
      rw [prefix_append_right_inj]
      exact ⟨rest, rfl⟩
    have child : t.lookup (directory ++ [name]) = some .directory := by
      cases rest with
      | nil => exact found
      | cons next rest =>
        exact (closed _ present).2 _
          (mem_ancestors.mpr ⟨by simp, inside, by simp⟩)
    have mem : name ∈ t.sortedNames directory :=
      mem_sortedNames.mpr (mem_of_lookup child)
    have strict : (entryStream kept (directoryStream kept fuel) directory name).length <
        (entryStream t (directoryStream t fuel) directory name).length := by
      unfold entryStream
      rw [files (directory ++ [name]), child]
      split_ifs with holds
      · cases rest with
        | nil => exact absurd holds fileless
        | cons next rest =>
          have split : directory ++ name :: next :: rest = directory ++ [name] ++ next :: rest := by
            simp
          rw [split] at found fileless present
          have shorter := ih (by simp only [length_append, length_singleton]; omega)
            found fileless present
          simp only [length_append]
          omega
      · simp only [length_append, length_nil]
        have tag : (ascii "D").length = 1 := by decide
        omega
    rw [files.directoryStream_succ, directoryStream, length_append, length_append,
      length_flatMap, length_flatMap]
    refine Nat.add_lt_add_right (sum_lt_sum _ _ (fun name _ => ?_) ⟨name, mem, strict⟩) _
    exact files.length_entryStream_le files.length_directoryStream_le

theorem FilesOnly.height_le : kept.height ≤ t.height :=
  PathTree.height_le fun _ mem => length_le_height (files.mem_iff.mp mem).1

/-- The digest tells a directory from its files alone. -/
def DigestSeparates (P : Primitives) (t kept : BackupTree) (relative : BackupPath) : Prop :=
  P.sha256 (authoritativeDirectoryMagic ++ directoryStream kept (t.height + 1) relative.names) =
    P.sha256 (authoritativeDirectoryMagic ++ directoryStream t (t.height + 1) relative.names) →
  directoryStream kept (t.height + 1) relative.names =
    directoryStream t (t.height + 1) relative.names

/-- Every directory from here on leads to a file. -/
def FilesBelow (t : BackupTree) (path : List FileName) : Prop :=
  ∀ directory, t.lookup directory = some .directory → path <+: directory → HoldsFile t directory

theorem FilesOnly.lookup_eq (plain : Plain t) {relative : BackupPath}
    (holds : FilesBelow t relative.names) (present : relative.names ∈ t) {path : List FileName}
    (near : path <+: relative.names ∨ relative.names <+: path) :
    kept.lookup path = t.lookup path := by
  have fileAt : ∀ path ∈ t, relative.names <+: path → HoldsFile t path := by
    intro path mem inside
    obtain ⟨node, found⟩ := exists_lookup mem
    cases node with
    | directory => exact holds path found inside
    | leaf object =>
      cases object with
      | regular content small => exact ⟨path, ⟨content, small, found⟩, prefix_refl _⟩
      | special => exact absurd found (plain path)
  rw [files path]
  split_ifs with isHeld
  · rfl
  · symm
    rw [AList.lookup_eq_none]
    intro mem
    rcases near with above | below
    · obtain ⟨file, regular, inside⟩ := fileAt _ present (prefix_refl _)
      exact isHeld ⟨file, regular, above.trans inside⟩
    · exact isHeld (fileAt path mem below)

/-- A directory keeps its digest when only files are kept exactly if it has no directory
without files. -/
theorem FilesOnly.hashAuthoritativeEntry_iff {P : Primitives} {relative : BackupPath}
    {digest : Digest} (plain : Plain t) (closed : t.Closed)
    (separates : DigestSeparates P t kept relative)
    (hashed : hashAuthoritativeEntry P t relative = .ok digest) :
    hashAuthoritativeEntry P kept relative = .ok digest ↔ FilesBelow t relative.names := by
  have present := hashAuthoritativeEntry_mem hashed
  constructor
  · intro hashed' directory found inside
    by_contra fileless
    have root : t.lookup relative.names = some .directory := by
      by_cases same : relative.names = directory
      · rw [same, found]
      · exact (closed directory (mem_of_lookup found)).2 _
          (mem_ancestors.mpr ⟨relative.nonempty, inside, same⟩)
    obtain ⟨_, held⟩ := files.mem_iff.mp (hashAuthoritativeEntry_mem hashed')
    have root' : kept.lookup relative.names = some .directory := by
      rw [files relative.names, if_pos held, root]
    have streams := hashAuthoritativeEntry_directory root' hashed' (Nat.le_add_left_of_le
      (files.height_le.trans (Nat.le_succ _)))
    rw [hashAuthoritativeEntry_directory root hashed (Nat.le_add_left_of_le (Nat.le_succ _))]
      at streams
    obtain ⟨rest, rfl⟩ := inside
    cases rest with
    | nil => exact fileless (by rwa [append_nil])
    | cons name rest =>
      have shorter := files.length_directoryStream_lt closed
        (Nat.le_add_left_of_le (Nat.le_succ t.height)) found fileless
      exact shorter.ne (congrArg List.length (separates streams.symm))
  · intro holds
    rw [← hashed]
    exact hashAuthoritativeEntry_congr fun path _ near =>
      files.lookup_eq plain holds present near
end
end Files
end ReflinkForest
