import ReflinkForest.Backup.Authority

/-! The digest of a directory authority binds the whole tree: the hashed bytes can be read back in
one way only, however the directory is listed and its files are read. -/
namespace ReflinkForest
open Bytes Except List PathTree

def authorityBufferBytes : ℕ := 64 * 1024

/-- How a tree answers while it is hashed: the order in which a directory is listed, and what the
reads of a file return before the one that returns nothing. -/
structure DirectoryReading (t : BackupTree) where
  listing : List FileName → List FileName
  parts : List FileName → List Str
  listed : ∀ directory name, name ∈ listing directory ↔ directory ++ [name] ∈ t
  once : ∀ directory, (listing directory).Nodup
  whole : ∀ path content small, t.lookup path = some (.leaf (.regular content small)) →
    (parts path).flatten = content
  filled : ∀ path, ∀ part ∈ parts path, part ≠ [] ∧ part.length ≤ authorityBufferBytes

def hashAuthoritativeParts (authority : Str) : ℕ → List Str → Str → Except BackupError Str
  | remaining, [], hasher => do
    .require (remaining = 0) (.verificationFailed authority)
    .ok hasher
  | remaining, part :: parts, hasher => do
    .require (part.length ≤ remaining) (.verificationFailed authority)
    hashAuthoritativeParts authority (remaining - part.length) parts (hasher ++ part)

namespace DirectoryReading
variable {t : BackupTree} (reading : DirectoryReading t) (authority : Str)

def hashEntries : ℕ → List FileName → Str → Except BackupError Str
  | 0, _, hasher => .ok (hasher ++ ascii "E")
  | fuel + 1, directory, hasher => do
    (reading.listing directory).forM fun name =>
      .mapErr (fun _ => .verificationFailed authority) (validatePathBytes name.bytes)
    let children := (reading.listing directory).insertionSort (· ≤ ·)
    let hasher ← children.foldlM (fun hasher name =>
      match t.lookup (directory ++ [name]) with
      | some (.leaf (.regular content _)) => do
        let hasher ← hashAuthoritativeName (hasher ++ ascii "F") name
        hashAuthoritativeParts authority content.length (reading.parts (directory ++ [name]))
          (hasher ++ u64 (UInt64.ofNat content.length))
      | some .directory => do
        let hasher ← hashAuthoritativeName (hasher ++ ascii "D") name
        hashEntries fuel (directory ++ [name]) hasher
      | _ => .error (.verificationFailed authority)) hasher
    .ok (hasher ++ ascii "E")

/-- The bytes that `hash_authoritative_directory` hashes. -/
def hashAuthoritativeDirectory (directory : List FileName) : Except BackupError Str :=
  reading.hashEntries authority (t.height + 1) directory authoritativeDirectoryMagic

/-- Every tree can be read: names in their order and files byte by byte. -/
instance : Inhabited (DirectoryReading t) where
  default :=
    { listing := t.sortedNames
      parts := fun path => match t.lookup path with
        | some (.leaf (.regular content _)) => content.map fun byte => [byte]
        | _ => []
      listed := fun _ _ => PathTree.mem_sortedNames
      once := fun _ => PathTree.pairwise_sortedNames.imp ne_of_lt
      whole := by
        intro path content small found
        rw [found, ← List.flatMap_def, List.flatMap_singleton']
      filled := by
        intro path part member
        split at member
        · obtain ⟨byte, _, rfl⟩ := List.mem_map.mp member
          exact ⟨by simp, by simp [authorityBufferBytes]⟩
        · cases member }

variable {authority}

theorem hashAuthoritativeParts_flatten (parts : List Str) (hasher : Str) :
    hashAuthoritativeParts authority parts.flatten.length parts hasher =
      .ok (hasher ++ parts.flatten) := by
  induction parts generalizing hasher with
  | nil => simp [hashAuthoritativeParts, Except.require]
  | cons part parts ih =>
    have fits : part.length ≤ (part :: parts).flatten.length := by simp
    have left : (part :: parts).flatten.length - part.length = parts.flatten.length := by simp
    rw [hashAuthoritativeParts, require_pos fits, ok_bind, left, ih, flatten_cons, append_assoc]

/-- Checks that fail with one error only do not depend on their order. -/
theorem forM_perm {ε α : Type} {check : α → Except ε Unit} {e : ε}
    (only : ∀ x, check x = .ok () ∨ check x = .error e) {xs ys : List α} (perm : xs.Perm ys) :
    xs.forM check = ys.forM check := by
  induction perm with
  | nil => rfl
  | cons x _ ih => exact congrArg (check x >>= fun _ => ·) ih
  | swap x y xs =>
    rw [List.forM, List.forM, List.forM, List.forM]
    rcases only x with hx | hx <;> rcases only y with hy | hy <;> rw [hx, hy] <;> rfl
  | trans _ _ ih ih' => exact ih.trans ih'

theorem listing_perm (directory : List FileName) :
    (reading.listing directory).Perm (t.sortedNames directory) := by
  apply (perm_ext_iff_of_nodup (reading.once directory)
    (pairwise_sortedNames.imp ne_of_lt)).mpr
  intro name
  rw [reading.listed, mem_sortedNames]

theorem insertionSort_listing (directory : List FileName) :
    (reading.listing directory).insertionSort (· ≤ ·) = t.sortedNames directory :=
  ((perm_insertionSort _ _).trans (reading.listing_perm directory)).eq_of_pairwise
    (fun _ _ _ _ => le_antisymm) (pairwise_insertionSort _ _)
    (pairwise_sortedNames.imp le_of_lt)

theorem hashEntries_eq (fuel : ℕ) (directory : List FileName) (hasher : Str) :
    reading.hashEntries authority fuel directory hasher =
      hashAuthoritativeDirectoryEntries t authority fuel directory hasher := by
  induction fuel generalizing directory hasher with
  | zero => rfl
  | succ fuel ih =>
    have only : ∀ name : FileName,
        Except.mapErr (fun _ => BackupError.verificationFailed authority)
          (validatePathBytes name.bytes) = .ok () ∨
        Except.mapErr (fun _ => BackupError.verificationFailed authority)
          (validatePathBytes name.bytes) = .error (.verificationFailed authority) := by
      intro name
      cases validatePathBytes name.bytes with
      | error e => exact .inr rfl
      | ok u => exact .inl rfl
    rw [hashEntries, hashAuthoritativeDirectoryEntries, reading.insertionSort_listing,
      forM_perm only (reading.listing_perm directory)]
    refine bind_congr fun _ => congrArg (· >>= _) (foldlM_congr (fun name _ hasher => ?_) _)
    rcases found : t.lookup (directory ++ [name]) with _ | (_ | (⟨content, small⟩ | _))
    · rfl
    · exact bind_congr fun named => ih (directory ++ [name]) named
    · refine bind_congr fun named => ?_
      have whole := reading.whole _ content small found
      rw [← whole, hashAuthoritativeParts_flatten]
      rfl
    · rfl
end DirectoryReading

section Success
variable {t : BackupTree} {directory : List FileName} {authority : Str}

/-- Below the directory are regular files and directories with valid names. -/
structure Hashable (t : BackupTree) (directory : List FileName) : Prop where
  plain : ∀ below, t.lookup (directory ++ below) ≠ some (.leaf .special)
  named : ∀ below, directory ++ below ∈ t → ∀ name ∈ below, validatePathBytes name.bytes = .ok ()

section
variable (hashable : Hashable t directory)
include hashable

theorem Hashable.child (name : FileName) :
    Hashable t (directory ++ [name]) where
  plain below := by
    rw [append_assoc]
    exact hashable.plain _
  named below mem next inside := by
    rw [append_assoc] at mem
    exact hashable.named _ mem next (mem_append_right _ inside)

theorem Hashable.valid {name : FileName}
    (mem : directory ++ [name] ∈ t) : validatePathBytes name.bytes = .ok () :=
  hashable.named [name] mem name (mem_singleton_self name)

theorem Hashable.length_lt {name : FileName}
    (mem : directory ++ [name] ∈ t) : name.bytes.length < 2 ^ 32 := by
  have short := (validatePathBytes_length (hashable.valid mem)).2.1
  unfold maxManifestPathBytes at short
  omega

theorem Hashable.exists_hashed (fuel : ℕ) (hasher : Str) :
    ∃ hasher', hashAuthoritativeDirectoryEntries t authority fuel directory hasher =
      .ok hasher' := by
  induction fuel generalizing directory hasher with
  | zero => exact ⟨_, rfl⟩
  | succ fuel ih =>
    have checked : (t.sortedNames directory).forM (fun name =>
        Except.mapErr (fun _ => BackupError.verificationFailed authority)
          (validatePathBytes name.bytes)) = .ok () := by
      rw [forM_eq_ok_iff]
      intro name listed
      rw [hashable.valid (mem_sortedNames.mp listed)]
      rfl
    rw [hashAuthoritativeDirectoryEntries, checked, ok_bind]
    apply Except.exists_bind_eq_ok _ fun _ => ⟨_, rfl⟩
    apply Except.exists_foldlM_eq_ok
    intro name listed hasher
    have member := mem_sortedNames.mp listed
    have named : ∀ hasher, hashAuthoritativeName hasher name = .ok
        (hasher ++ u32 (UInt32.ofNat name.bytes.length) ++ name.bytes) := fun hasher =>
      hashAuthoritativeName_eq_ok_iff.mpr ⟨hashable.length_lt member, rfl⟩
    rcases found : t.lookup (directory ++ [name]) with _ | (_ | (⟨content, small⟩ | _))
    · exact absurd member (AList.lookup_eq_none.mp found)
    · dsimp only
      rw [named, ok_bind]
      exact ih (hashable.child name) _
    · dsimp only
      rw [named, ok_bind]
      exact ⟨_, rfl⟩
    · exact absurd found (hashable.plain _)

theorem Hashable.hashed (fuel : ℕ) (hasher : Str) :
    hashAuthoritativeDirectoryEntries t authority fuel directory hasher =
      .ok (hasher ++ directoryStream t fuel directory) := by
  obtain ⟨hasher', hashed⟩ := hashable.exists_hashed fuel hasher
  rw [hashed, hashAuthoritativeDirectoryEntries_eq_ok hashed]
end
end Success

section Separation
variable {t t' : BackupTree} {directory directory' : List FileName} {rest rest' : Str}

theorem lookup_of_height_le (deep : t.height ≤ directory.length) (name : FileName)
    (tail : List FileName) : t.lookup (directory ++ name :: tail) = none := by
  rw [AList.lookup_eq_none]
  intro mem
  have long := length_le_height mem
  simp only [length_append, length_cons] at long
  omega

theorem lookup_of_not_listed (closed : t.Closed) {name : FileName}
    (unlisted : name ∉ t.sortedNames directory) (tail : List FileName) :
    t.lookup (directory ++ name :: tail) = none := by
  rw [AList.lookup_eq_none]
  intro mem
  apply unlisted
  rw [mem_sortedNames]
  apply closed.mem_of_prefix mem (by simp)
  rw [prefix_append_right_inj]
  exact ⟨tail, rfl⟩

/-- An entry starts with its kind, its name and the length of what it holds. -/
theorem Hashable.entryStream_cases (hashable : Hashable t directory) {name : FileName}
    (mem : directory ++ [name] ∈ t) (below : List FileName → Str) :
    (∃ content small, t.lookup (directory ++ [name]) = some (.leaf (.regular content small)) ∧
      entryStream t below directory name = 70 :: (u32 (UInt32.ofNat name.bytes.length) ++
        (name.bytes ++ (u64 (UInt64.ofNat content.length) ++ content)))) ∨
    (t.lookup (directory ++ [name]) = some .directory ∧
      entryStream t below directory name = 68 :: (u32 (UInt32.ofNat name.bytes.length) ++
        (name.bytes ++ below (directory ++ [name])))) := by
  have file : ascii "F" = [70] := rfl
  have directoryTag : ascii "D" = [68] := rfl
  rcases found : t.lookup (directory ++ [name]) with _ | (_ | (⟨content, small⟩ | _))
  · exact absurd mem (AList.lookup_eq_none.mp found)
  · right
    rw [entryStream, found, directoryTag]
    simp
  · left
    refine ⟨content, small, rfl, ?_⟩
    rw [entryStream, found, file]
    simp
  · exact absurd found (hashable.plain _)

theorem Hashable.entryStream_ne_end (hashable : Hashable t directory) {name : FileName}
    (mem : directory ++ [name] ∈ t) (below : List FileName → Str) (rest rest' : Str) :
    entryStream t below directory name ++ rest ≠ ascii "E" ++ rest' := by
  have mark : ascii "E" = [69] := rfl
  rw [mark]
  rcases hashable.entryStream_cases mem below with ⟨_, _, _, stream⟩ | ⟨_, stream⟩ <;>
    · rw [stream]
      simp

/-- One entry can be told from another, and from what follows, if this holds of the directories
below. -/
theorem entryStream_inj {below below' : List FileName → Str} (closed : t.Closed)
    (closed' : t'.Closed) (hashable : Hashable t directory) (hashable' : Hashable t' directory')
    (nested : ∀ name rest rest',
      below (directory ++ [name]) ++ rest = below' (directory' ++ [name]) ++ rest' →
      rest = rest' ∧ ∀ next tail, t.lookup (directory ++ [name] ++ next :: tail) =
        t'.lookup (directory' ++ [name] ++ next :: tail))
    {name name' : FileName} (mem : directory ++ [name] ∈ t)
    (member' : directory' ++ [name'] ∈ t')
    (h : entryStream t below directory name ++ rest =
      entryStream t' below' directory' name' ++ rest') :
    ((∀ tail, t.lookup (directory ++ name :: tail) = t'.lookup (directory' ++ name :: tail)) ∧
      name = name') ∧ rest = rest' := by
  have short := hashable.length_lt mem
  have short' := hashable'.length_lt member'
  rcases hashable.entryStream_cases mem below with
    ⟨content, small, found, stream⟩ | ⟨found, stream⟩ <;>
  rcases hashable'.entryStream_cases member' below' with
    ⟨content', small', found', stream'⟩ | ⟨found', stream'⟩ <;>
  simp only [stream, stream', cons_append, List.cons.injEq, append_assoc] at h
  · obtain ⟨names, contents⟩ := Codec.u32_framed_inj short short' h.2
    cases FileName.bytes_injective names
    obtain ⟨rfl, rfl⟩ := Codec.u64_framed_inj small small' contents
    refine ⟨⟨fun tail => ?_, rfl⟩, rfl⟩
    cases tail with
    | nil => rw [found, found']
    | cons next tail =>
      rw [append_cons, append_cons directory', closed.lookup_below_leaf found,
        closed'.lookup_below_leaf found']
  · exact absurd h.1 (by decide)
  · exact absurd h.1 (by decide)
  · obtain ⟨names, inner⟩ := Codec.u32_framed_inj short short' h.2
    cases FileName.bytes_injective names
    obtain ⟨rfl, lookups⟩ := nested name _ _ inner
    refine ⟨⟨fun tail => ?_, rfl⟩, rfl⟩
    cases tail with
    | nil => rw [found, found']
    | cons next tail =>
      rw [append_cons, append_cons directory']
      exact lookups next tail

/-- The stream of a directory shows where it ends and all that is below the directory. -/
theorem directoryStream_inj {fuel : ℕ} (closed : t.Closed) (closed' : t'.Closed)
    (hashable : Hashable t directory) (hashable' : Hashable t' directory')
    (enough : t.height ≤ directory.length + fuel) (enough' : t'.height ≤ directory'.length + fuel)
    (h : directoryStream t fuel directory ++ rest = directoryStream t' fuel directory' ++ rest') :
    rest = rest' ∧ ∀ name tail,
      t.lookup (directory ++ name :: tail) = t'.lookup (directory' ++ name :: tail) := by
  induction fuel generalizing directory directory' rest rest' with
  | zero =>
    refine ⟨append_cancel_left h, fun name tail => ?_⟩
    rw [lookup_of_height_le enough, lookup_of_height_le enough']
  | succ fuel ih =>
    rw [directoryStream, directoryStream, append_assoc, append_assoc] at h
    have nested : ∀ name rest rest', directoryStream t fuel (directory ++ [name]) ++ rest =
        directoryStream t' fuel (directory' ++ [name]) ++ rest' → rest = rest' ∧ ∀ next tail,
          t.lookup (directory ++ [name] ++ next :: tail) =
            t'.lookup (directory' ++ [name] ++ next :: tail) := by
      intro name rest rest'
      apply ih (hashable.child name) (hashable'.child name)
      · simp only [length_append, length_singleton]
        omega
      · simp only [length_append, length_singleton]
        omega
    obtain ⟨agree, same⟩ := Codec.flatMap_ended_inj
      (fun name listed name' listed' rest rest' => entryStream_inj closed closed' hashable
        hashable' nested (mem_sortedNames.mp listed) (mem_sortedNames.mp listed'))
      (fun name listed => hashable.entryStream_ne_end (mem_sortedNames.mp listed) _)
      (fun name listed => hashable'.entryStream_ne_end (mem_sortedNames.mp listed) _) h
    obtain ⟨lookups, names⟩ := (forall₂_and_left _ _).mp agree
    rw [forall₂_eq_eq_eq] at names
    refine ⟨same, fun name tail => ?_⟩
    by_cases listed : name ∈ t.sortedNames directory
    · exact lookups name listed tail
    · rw [lookup_of_not_listed closed listed, lookup_of_not_listed closed' (names ▸ listed)]

theorem directoryStream_congr (same : ∀ name tail,
      t.lookup (directory ++ name :: tail) = t'.lookup (directory' ++ name :: tail)) (fuel : ℕ) :
    directoryStream t fuel directory = directoryStream t' fuel directory' := by
  induction fuel generalizing directory directory' with
  | zero => rfl
  | succ fuel ih =>
    have names : t.sortedNames directory = t'.sortedNames directory' := by
      apply pairwise_sortedNames.eq_of_mem_iff pairwise_sortedNames
      intro name
      rw [mem_sortedNames, mem_sortedNames, ← AList.lookup_isSome,
        ← AList.lookup_isSome, same name []]
    have entries : entryStream t (directoryStream t fuel) directory =
        entryStream t' (directoryStream t' fuel) directory' := by
      funext name
      have inner : directoryStream t fuel (directory ++ [name]) =
          directoryStream t' fuel (directory' ++ [name]) := by
        apply ih
        intro next tail
        rw [append_assoc, append_assoc]
        exact same name (next :: tail)
      rw [entryStream, entryStream, same name [], inner]
    rw [directoryStream, directoryStream, names, entries]
end Separation

/-- A directory tree of regular files and subdirectories with valid names. -/
structure AuthorityDirectory where
  tree : BackupTree
  path : List FileName
  closed : tree.Closed
  present : path = [] ∨ tree.lookup path = some .directory
  hashable : Hashable tree path

namespace AuthorityDirectory
variable (s s' : AuthorityDirectory)

/-- The same names, kinds, nesting and file contents. -/
def SameTree : Prop := ∀ name tail,
  s.tree.lookup (s.path ++ name :: tail) = s'.tree.lookup (s'.path ++ name :: tail)

theorem hashAuthoritativeDirectory_eq (reading : DirectoryReading s.tree) (authority : Str)
    {fuel : ℕ} (enough : s.tree.height ≤ fuel) :
    reading.hashAuthoritativeDirectory authority s.path =
      .ok (authoritativeDirectoryMagic ++ directoryStream s.tree fuel s.path) := by
  rw [DirectoryReading.hashAuthoritativeDirectory, reading.hashEntries_eq,
    hashAuthoritativeDirectoryEntries_congr (fun _ _ => rfl) (by omega) (Nat.le_add_left_of_le
    enough), s.hashable.hashed]

/-- Two directory authorities are hashed from the same bytes exactly if they are the same tree,
however they are listed and read. -/
theorem hashAuthoritativeDirectory_binds_tree (reading : DirectoryReading s.tree)
    (reading' : DirectoryReading s'.tree) (authority authority' : Str) :
    ∃ stream stream', reading.hashAuthoritativeDirectory authority s.path = .ok stream ∧
      reading'.hashAuthoritativeDirectory authority' s'.path = .ok stream' ∧
      (stream = stream' ↔ s.SameTree s') := by
  have enough : s.tree.height ≤ s.tree.height + s'.tree.height := by omega
  have enough' : s'.tree.height ≤ s.tree.height + s'.tree.height := by omega
  refine ⟨_, _, s.hashAuthoritativeDirectory_eq reading authority enough,
    s'.hashAuthoritativeDirectory_eq reading' authority' enough', ?_⟩
  rw [append_cancel_left_eq]
  constructor
  · intro streams
    have ended := congrArg (· ++ ([] : Str)) streams
    exact (directoryStream_inj s.closed s'.closed s.hashable s'.hashable
      (Nat.le_add_left_of_le enough) (Nat.le_add_left_of_le enough') ended).2
  · intro same
    exact directoryStream_congr same _
end AuthorityDirectory
end ReflinkForest
