import ReflinkForest.Backup.Manifest

/-! Checkpoints: a source tree is copied into a private directory, its inventory is written beside
it, and the whole is published by one rename. -/
namespace ReflinkForest
open Bytes Except List PathTree

def ioError : PathTree.Error → BackupError
  | .notFound => .io .notFound
  | .notADirectory => .io .notADirectory
  | .alreadyExists => .io .alreadyExists

def manifestFileName : FileName := ⟨ascii "manifest-v1", by decide⟩

section Copy
variable (P : Primitives)

def openFile (t : BackupTree) (path : List FileName) : Except BackupError FileObject :=
  match t.lookup path with
  | some (.leaf (.regular content small)) => .ok (.regular content small)
  | some (.leaf .special) => .error (.io .invalidInput)
  | some .directory => .error (.io .isADirectory)
  | none => .error (.io .notFound)

def hashFile (t : BackupTree) (path : List FileName) : Except BackupError (UInt64 × Digest) :=
  match t.lookup path with
  | some (.leaf (.regular content _)) => .ok (UInt64.ofNat content.length, P.sha256 content)
  | some (.leaf .special) => .error (.io .invalidInput)
  | some .directory => .error (.io .isADirectory)
  | none => .error (.io .notFound)

/-- Copies one entry of the source. -/
def copyEntry (source : BackupTree) (s : BackupTree × List BackupFile) (relative : List FileName) :
    Except BackupError (BackupTree × List BackupFile) :=
  match source.lookup relative with
  | some .directory => do
    let destination ← .mapErr ioError (s.1.create relative .directory)
    .ok (destination, s.2)
  | some (.leaf (.regular content small)) => do
    let destination ← .mapErr ioError (s.1.makeParents relative)
    let destination ← .mapErr ioError
      (destination.create relative (.leaf (.regular content small)))
    let (bytes, sha256) ← hashFile P destination relative
    .ok (destination, s.2 ++ [⟨pathBytes relative, bytes, sha256⟩])
  | some (.leaf .special) => .error (.unsafeSource (pathBytes relative))
  | none => .error (.io .notFound)

/-- Copies what is below a directory. A tree is never deeper than its height. -/
def copyTree (source : BackupTree) : ℕ → List FileName → BackupTree × List BackupFile →
    Except BackupError (BackupTree × List BackupFile)
  | 0, _, s => .ok s
  | fuel + 1, current, s => (source.childNames current).foldlM (fun s name => do
      let s ← copyEntry P source s (current ++ [name])
      if source.lookup (current ++ [name]) = some .directory then
        copyTree source fuel (current ++ [name]) s
      else .ok s) s

def sortFiles (files : List BackupFile) : List BackupFile :=
  files.insertionSort fun a b => pathNames a.relative ≤ pathNames b.relative

def createFile (t : BackupTree) (path : List FileName) (bytes : Str) :
    Except BackupError BackupTree :=
  if small : bytes.length < 2 ^ 64 then
    .mapErr ioError (t.create path (.leaf (.regular bytes small)))
  else .error (.io .invalidInput)

def writeManifest (t : BackupTree) (manifest : BackupManifest) : Except BackupError BackupTree := do
  .require (t.lookup [manifestFileName] = none) (.io .alreadyExists)
  let bytes ← encodeManifest P manifest
  createFile t [manifestFileName] bytes

def verifyFile (t : BackupTree) (file : BackupFile) : Except BackupError Unit := do
  validatePathBytes file.relative
  let (bytes, digest) ← hashFile P t (pathNames file.relative)
  .require (bytes = file.bytes ∧ digest = file.sha256) (.verificationFailed file.relative)

def verifyTree (t : BackupTree) (manifest : BackupManifest) : Except BackupError Unit :=
  manifest.files.forM (verifyFile P t)

/-- What is found at the parent of a destination. -/
inductive DestinationParent where
  | noParent | missing | unsafeParent | directory

def DestinationParent.check : DestinationParent → Except BackupError Unit
  | .noParent => .error (.io .invalidInput)
  | .missing => .error (.io .notFound)
  | .unsafeParent => .error .unsafeDestination
  | .directory => .ok ()

structure BackupDestination where
  parent : DestinationParent
  tree : Option BackupTree

def BackupDestination.fresh : BackupDestination := ⟨.directory, none⟩

/-- The private directory, ready to be renamed. -/
def stageCheckpoint (source : BackupTree) : Except BackupError (BackupTree × BackupManifest) := do
  let (tree, files) ← copyTree P source (source.height + 1) [] (∅, [])
  let manifest : BackupManifest := ⟨sortFiles files⟩
  let tree ← writeManifest P tree manifest
  verifyTree P tree manifest
  .ok (tree, manifest)

/-- An error removes the private directory. -/
def checkpoint (source : BackupTree) (destination : BackupDestination) :
    BackupDestination × Except BackupError BackupManifest :=
  let staged : Except BackupError (BackupTree × BackupManifest) := do
    .require (destination.tree.isNone) .destinationExists
    destination.parent.check
    stageCheckpoint P source
  match staged with
  | .error e => (destination, .error e)
  | .ok (tree, manifest) => ({ destination with tree := some tree }, .ok manifest)

def loadManifest (root : BackupTree) : Except BackupError BackupManifest := do
  match ← openFile root [manifestFileName] with
  | .regular bytes _ => decodeBackupManifestBytes P bytes
  | .special => .error (.io .invalidInput)
end Copy

section Copied
variable {P : Primitives} {source destination : BackupTree} {files : List BackupFile}
  {path : List FileName} {fuel : ℕ}

theorem copyTree_eq_foldlM (closed : source.Closed) (s : BackupTree × List BackupFile) :
    copyTree P source fuel path s = (source.walk fuel path).foldlM (copyEntry P source) s := by
  induction fuel generalizing path s with
  | zero => rfl
  | succ fuel ih =>
    rw [copyTree, PathTree.walk, foldlM_flatMap]
    refine foldlM_congr (fun name _ s => ?_) s
    rw [foldlM_cons]
    refine bind_congr fun s => ?_
    split_ifs with directory
    · exact ih s
    · have noEntries : source.walk fuel (path ++ [name]) = [] := by
        rw [eq_nil_iff_forall_not_mem]
        intro other mem
        obtain ⟨inside, prefixed, different⟩ := prefix_of_mem_walk mem
        exact directory ((closed other inside).2 _
          (PathTree.mem_ancestors.mpr ⟨by simp, prefixed, different⟩))
      rw [noEntries]
      rfl

/-- The inventory entry of a path, when it names a regular file. -/
def fileEntry (P : Primitives) (source : BackupTree) (path : List FileName) : Option BackupFile :=
  match source.lookup path with
  | some (.leaf (.regular content _)) =>
    some ⟨pathBytes path, UInt64.ofNat content.length, P.sha256 content⟩
  | _ => none

theorem copyEntry_of_create {node : PathNode FileObject} (found : source.lookup path = some node)
    (plain : node ≠ .leaf .special) {destination' : BackupTree}
    (created : destination.create path node = .ok destination') :
    copyEntry P source (destination, files) path =
      .ok (destination', files ++ (fileEntry P source path).toList) := by
  obtain ⟨parents, absent, rfl⟩ := create_eq_ok_iff.mp created
  unfold copyEntry fileEntry
  simp only [found]
  cases node with
  | directory => simp only [created, mapErr_ok, ok_bind, Option.toList_none, append_nil]
  | leaf object =>
    cases object with
    | special => exact absurd rfl plain
    | regular content small =>
      have made : destination.makeParents path = .ok destination :=
        foldlM_ensureDirectory_self parents
      simp only [made, created, mapErr_ok, ok_bind, hashFile, AList.lookup_insert,
        Option.toList_some]

theorem copyEntries_of_createAll {paths : List (List FileName)} {entries}
    (listed : entries.map Prod.fst = paths)
    (found : ∀ entry ∈ entries, source.lookup entry.1 = some entry.2 ∧ entry.2 ≠ .leaf .special)
    {destination' : BackupTree} (created : destination.createAll entries = .ok destination') :
    paths.foldlM (copyEntry P source) (destination, files) =
      .ok (destination', files ++ paths.filterMap (fileEntry P source)) := by
  subst listed
  induction entries generalizing destination files with
  | nil =>
    cases created
    simp [pure, Except.pure]
  | cons entry entries ih =>
    rw [PathTree.createAll, foldlM_cons] at created
    obtain ⟨middle, first, rest⟩ := bind_eq_ok_iff.mp created
    obtain ⟨lookup, plain⟩ := found entry mem_cons_self
    have joined : ∀ more, (fileEntry P source entry.1).toList ++
      more.filterMap (fileEntry P source) =
        (entry.1 :: more).filterMap (fileEntry P source) := by
      intro more
      rw [filterMap_cons]
      cases fileEntry P source entry.1 <;> rfl
    rw [map_cons, foldlM_cons, copyEntry_of_create lookup plain first, ok_bind, ih (fun
      later mem => found later (mem_cons_of_mem _ mem)) rest, append_assoc, joined]

/-- Only directories and regular files. -/
def Plain (t : BackupTree) : Prop := ∀ path, t.lookup path ≠ some (.leaf .special)

instance (t : BackupTree) : Decidable (Plain t) :=
  decidable_of_iff (∀ path ∈ t.keys, t.lookup path ≠ some (.leaf .special))
    ⟨fun h path special => h path
      (AList.mem_keys.mp (AList.lookup_isSome.mp (by rw [special]; rfl))) special,
    fun h path _ => h path⟩

/-- The regular files in the order in which they are copied. -/
def inventory (P : Primitives) (source : BackupTree) : List BackupFile :=
  (source.walk (source.height + 1) []).filterMap (fileEntry P source)

theorem copyTree_plain (closed : source.Closed) (plain : Plain source) :
    ∃ destination, copyTree P source (source.height + 1) [] (∅, []) =
      .ok (destination, inventory P source) ∧
      ∀ path, destination.lookup path = source.lookup path := by
  obtain ⟨destination, created, same⟩ := closed.createAll_walkEntries
  refine ⟨destination, ?_, same⟩
  rw [copyTree_eq_foldlM closed, copyEntries_of_createAll map_fst_walkEntries ?_ created]
  · rfl
  · rintro ⟨path, node⟩ mem
    have found := closed.mem_walkEntries.mp mem
    exact ⟨found, fun special => plain path (special ▸ found)⟩

theorem plain_of_copyTree {copied : BackupTree × List BackupFile} (closed : source.Closed)
    (h : copyTree P source (source.height + 1) [] (∅, []) = .ok copied) : Plain source := by
  intro path special
  rw [copyTree_eq_foldlM closed] at h
  have present : path ∈ source := FinMap.mem_of_lookup special
  obtain ⟨before, after, step⟩ := Except.foldlM_eq_ok_mem h (closed.mem_walk_root.mpr present)
  simp only [copyEntry, special] at step
  cases step
end Copied

section Inventory
variable {P : Primitives} {source : BackupTree} {path : List FileName} {file : BackupFile}

def IsRegular (t : BackupTree) (path : List FileName) : Prop :=
  ∃ content small, t.lookup path = some (.leaf (.regular content small))

theorem fileEntry_eq_some_iff : fileEntry P source path = some file ↔ ∃ content small,
    source.lookup path = some (.leaf (.regular content small)) ∧
      file = ⟨pathBytes path, UInt64.ofNat content.length, P.sha256 content⟩ := by
  unfold fileEntry
  constructor
  · intro h
    split at h
    · rename_i content small found
      cases h
      exact ⟨content, small, found, rfl⟩
    · cases h
  · rintro ⟨content, small, found, rfl⟩
    rw [found]

theorem mem_inventory (closed : source.Closed) : file ∈ inventory P source ↔
    ∃ path content small, source.lookup path = some (.leaf (.regular content small)) ∧
      file = ⟨pathBytes path, UInt64.ofNat content.length, P.sha256 content⟩ := by
  simp only [inventory, mem_filterMap, closed.mem_walk_root, fileEntry_eq_some_iff]
  constructor
  · rintro ⟨path, _, content, small, found, same⟩
    exact ⟨path, content, small, found, same⟩
  · rintro ⟨path, content, small, found, same⟩
    exact ⟨path, FinMap.mem_of_lookup found, content, small, found, same⟩

theorem IsRegular.mem (regular : IsRegular source path) : path ∈ source := by
  obtain ⟨content, small, found⟩ := regular
  exact FinMap.mem_of_lookup found

theorem IsRegular.not_below {other : List FileName} (closed : source.Closed)
    (regular : IsRegular source path) (regular' : IsRegular source other)
    (different : path ≠ other) :
    ¬ path <+: other := by
  intro inside
  obtain ⟨content, small, found⟩ := regular
  have directory := (closed other regular'.mem).2 path
    (PathTree.mem_ancestors.mpr ⟨(closed path (IsRegular.mem ⟨_, _, found⟩)).1, inside, different⟩)
  rw [found] at directory
  cases directory

theorem inventory_names (closed : source.Closed) :
    (inventory P source).Pairwise fun a b => pathNames a.relative ≠ pathNames b.relative := by
  rw [inventory, pairwise_filterMap]
  refine (pairwise_walk (t := source)).imp_of_mem ?_
  intro met later mem member' apart a entry b entry' same
  obtain ⟨_, _, found, rfl⟩ := fileEntry_eq_some_iff.mp entry
  obtain ⟨_, _, found', rfl⟩ := fileEntry_eq_some_iff.mp entry'
  rw [pathNames_pathBytes (closed met (IsRegular.mem ⟨_, _, found⟩)).1,
    pathNames_pathBytes (closed later (IsRegular.mem ⟨_, _, found'⟩)).1] at same
  exact apart (by rw [same])

theorem sortFiles_perm (files : List BackupFile) : (sortFiles files).Perm files :=
  perm_insertionSort _ _

theorem sortFiles_sorted {files : List BackupFile}
    (distinct : files.Pairwise fun a b => pathNames a.relative ≠ pathNames b.relative) :
    (sortFiles files).Pairwise fun a b => pathNames a.relative < pathNames b.relative := by
  let before : BackupFile → BackupFile → Prop := fun a b =>
    pathNames a.relative ≤ pathNames b.relative
  have : Std.Total before := ⟨fun a b => le_total _ _⟩
  have : IsTrans BackupFile before := ⟨fun _ _ _ => le_trans⟩
  have sorted : (sortFiles files).Pairwise before := pairwise_insertionSort before files
  have apart : (sortFiles files).Pairwise fun a b => pathNames a.relative ≠ pathNames b.relative :=
    ((sortFiles_perm files).pairwise_iff fun h => h.symm).mpr distinct
  exact (sorted.and apart).imp fun h => lt_of_le_of_ne h.1 h.2

theorem mem_sortFiles {files : List BackupFile} : file ∈ sortFiles files ↔ file ∈ files :=
  (sortFiles_perm files).mem_iff

theorem pathNames_relative (closed : source.Closed) (mem : file ∈ inventory P source) :
    IsRegular source (pathNames file.relative) ∧
      file.relative = pathBytes (pathNames file.relative) := by
  obtain ⟨path, content, small, found, rfl⟩ := (mem_inventory closed).mp mem
  have regular : IsRegular source path := ⟨content, small, found⟩
  rw [pathNames_pathBytes (closed path regular.mem).1]
  exact ⟨regular, rfl⟩

/-- The sorted inventory can be encoded unless a directory and its sibling are inverted. -/
theorem sortFiles_inventory_lt_iff (closed : source.Closed) :
    ((sortFiles (inventory P source)).map BackupFile.relative).Pairwise (· < ·) ↔
      ∀ a b, IsRegular source a → IsRegular source b → ¬ InvertedPair a b := by
  have sorted := sortFiles_sorted (inventory_names (P := P) closed)
  rw [pairwise_map]
  constructor
  · intro ascending a b regular regular' inverted
    obtain ⟨content, small, found⟩ := regular
    obtain ⟨content', small', found'⟩ := regular'
    let agree : BackupFile → BackupFile → Prop := fun x y =>
      (pathNames x.relative < pathNames y.relative → x.relative < y.relative) ∧
        (pathNames y.relative < pathNames x.relative → y.relative < x.relative)
    have : Std.Symm agree := ⟨fun _ _ h => ⟨h.2, h.1⟩⟩
    have agreement : (sortFiles (inventory P source)).Pairwise agree :=
      (sorted.and ascending).imp fun h => ⟨fun _ => h.2, fun later => absurd later h.1.asymm⟩
    have order := (agreement.forall_of_forall
      (fun x _ => ⟨fun h => absurd h (lt_irrefl _), fun h => absurd h (lt_irrefl _)⟩)
      (mem_sortFiles.mpr ((mem_inventory closed).mpr ⟨a, _, _, found, rfl⟩))
      (mem_sortFiles.mpr ((mem_inventory closed).mpr ⟨b, _, _, found', rfl⟩))).1
    rw [pathNames_pathBytes (closed a (IsRegular.mem ⟨_, _, found⟩)).1,
      pathNames_pathBytes (closed b (IsRegular.mem ⟨_, _, found'⟩)).1] at order
    have apart := IsRegular.not_below closed ⟨_, _, found⟩ ⟨_, _, found'⟩ inverted.lt.ne
    exact (pathBytes_lt_iff inverted.lt apart).mp (order inverted.lt) inverted
  · intro noInversion
    refine sorted.imp_of_mem fun {x y} hx hy before => ?_
    obtain ⟨regular, bytes⟩ := pathNames_relative closed (mem_sortFiles.mp hx)
    obtain ⟨regular', bytes'⟩ := pathNames_relative closed (mem_sortFiles.mp hy)
    rw [bytes, bytes', pathBytes_lt_iff before (regular.not_below closed regular' before.ne)]
    exact noInversion _ _ regular regular'

instance : DecidablePred (IsRegular source) := fun path =>
  match found : source.lookup path with
  | some (.leaf (.regular content small)) => .isTrue ⟨content, small, found⟩
  | some (.leaf .special) | some .directory | none =>
    .isFalse fun ⟨_, _, h⟩ => by rw [found] at h; cases h

def regularPaths (t : BackupTree) : List (List FileName) := t.keys.filter (IsRegular t ·)

theorem mem_regularPaths : path ∈ regularPaths source ↔ IsRegular source path := by
  simp only [regularPaths, mem_filter, decide_eq_true_eq]
  exact ⟨fun h => h.2, fun h => ⟨AList.mem_keys.mp h.mem, h⟩⟩

theorem inventory_relative_perm (closed : source.Closed) :
    ((inventory P source).map BackupFile.relative).Perm ((regularPaths source).map pathBytes) := by
  have listed : ((inventory P source).map BackupFile.relative).Nodup :=
    pairwise_map.mpr ((inventory_names closed).imp fun h same => h (by rw [same]))
  have paths : ((regularPaths source).map pathBytes).Nodup := by
    refine List.Nodup.map_on ?_ (source.keys_nodup.filter _)
    intro a ha b hb same
    exact pathBytes_injective (closed a (mem_regularPaths.mp ha).mem).1
      (closed b (mem_regularPaths.mp hb).mem).1 same
  refine (perm_ext_iff_of_nodup listed paths).mpr fun bytes => ?_
  simp only [mem_map, mem_inventory closed, mem_regularPaths]
  constructor
  · rintro ⟨_, ⟨path, content, small, found, rfl⟩, rfl⟩
    exact ⟨path, ⟨content, small, found⟩, rfl⟩
  · rintro ⟨path, ⟨content, small, found⟩, rfl⟩
    exact ⟨_, ⟨path, content, small, found, rfl⟩, rfl⟩
end Inventory

section Staged
variable {P : Primitives} {source tree : BackupTree} {manifest : BackupManifest} {bytes : Str}

theorem length_le_of_encodeManifest (h : encodeManifest P manifest = .ok bytes) :
    bytes.length ≤ maxManifestBytes := by
  simp only [encodeManifest, bind_eq_ok_iff, exists_require, ok.injEq] at h
  obtain ⟨_, _, _, small, rfl⟩ := h
  exact small

theorem createFile_root_eq_ok_iff {name : FileName} {tree' : BackupTree} :
    createFile tree [name] bytes = .ok tree' ↔ tree.lookup [name] = none ∧ ∃ small,
      tree' = tree.insert [name] (.leaf (.regular bytes small)) := by
  unfold createFile
  constructor
  · intro written
    split_ifs at written with small
    obtain ⟨_, fresh, rfl⟩ := create_eq_ok_iff.mp (mapErr_eq_ok.mp written)
    exact ⟨fresh, small, rfl⟩
  · rintro ⟨fresh, small, rfl⟩
    rw [dif_pos small, mapErr_eq_ok, create_eq_ok_iff]
    exact ⟨by simp [PathTree.ancestors], fresh, rfl⟩

theorem writeManifest_eq_ok_iff {tree' : BackupTree} : writeManifest P tree manifest = .ok tree' ↔
    tree.lookup [manifestFileName] = none ∧ ∃ bytes small, encodeManifest P manifest = .ok bytes ∧
      tree' = tree.insert [manifestFileName] (.leaf (.regular bytes small)) := by
  simp only [writeManifest, bind_eq_ok_iff, exists_require, createFile_root_eq_ok_iff]
  constructor
  · rintro ⟨fresh, bytes, encoded, _, small, rfl⟩
    exact ⟨fresh, bytes, small, encoded, rfl⟩
  · rintro ⟨fresh, bytes, small, encoded, rfl⟩
    exact ⟨fresh, bytes, encoded, fresh, small, rfl⟩

theorem verifyFile_eq_ok_iff {file : BackupFile} : verifyFile P tree file = .ok () ↔
    validatePathBytes file.relative = .ok () ∧
      hashFile P tree (pathNames file.relative) = .ok (file.bytes, file.sha256) := by
  simp only [verifyFile, bind_eq_ok_iff, require_eq_ok, Unique.exists_iff,
    PUnit.default_eq_unit, Prod.exists]
  refine and_congr_right fun _ => ⟨?_, fun h => ⟨_, _, h, rfl, rfl⟩⟩
  rintro ⟨bytes, digest, hashed, rfl, rfl⟩
  exact hashed

/-- What a successful checkpoint establishes. -/
structure Checkpointed (P : Primitives) (source tree : BackupTree) (manifest : BackupManifest) :
    Prop where
  plain : Plain source
  listed : manifest = ⟨sortFiles (inventory P source)⟩
  absent : source.lookup [manifestFileName] = none
  encoded : ∃ bytes small, encodeManifest P manifest = .ok bytes ∧
    tree.lookup [manifestFileName] = some (.leaf (.regular bytes small))
  copied : ∀ path, path ≠ [manifestFileName] → tree.lookup path = source.lookup path

theorem checkpointed_of_copy {copy : BackupTree} (plain : Plain source)
    (same : ∀ path, copy.lookup path = source.lookup path)
    (absent : copy.lookup [manifestFileName] = none) (small : bytes.length < 2 ^ 64)
    (encoded : encodeManifest P ⟨sortFiles (inventory P source)⟩ = .ok bytes) :
    Checkpointed P source (copy.insert [manifestFileName] (.leaf (.regular bytes small)))
      ⟨sortFiles (inventory P source)⟩ where
  plain := plain
  listed := rfl
  absent := (same _).symm.trans absent
  encoded := ⟨bytes, small, encoded, AList.lookup_insert _⟩
  copied := fun path elsewhere => (AList.lookup_insert_ne elsewhere).trans (same path)

/-- The inventory is verified wherever the files of the source are found. -/
theorem Checkpointed.verifyTree_of_agreement {root : BackupTree}
    (checkpointed : Checkpointed P source tree manifest) (closed : source.Closed)
    (same : ∀ path, IsRegular source path → root.lookup path = source.lookup path) :
    verifyTree P root manifest = .ok () := by
  obtain ⟨bytes, small, encoded, _⟩ := checkpointed.encoded
  have valid := (encodeManifest_isOk_iff.mp ⟨bytes, encoded⟩).2.1
  refine forM_eq_ok_iff.mpr fun file mem => ?_
  refine verifyFile_eq_ok_iff.mpr ⟨valid file mem, ?_⟩
  rw [checkpointed.listed] at mem
  obtain ⟨path, content, _, found, rfl⟩ := (mem_inventory closed).mp (mem_sortFiles.mp mem)
  have regular : IsRegular source path := ⟨_, _, found⟩
  rw [pathNames_pathBytes (closed path regular.mem).1, hashFile, same path regular, found]

theorem IsRegular.ne_of_absent {path absent : List FileName} (regular : IsRegular source path)
    (missing : source.lookup absent = none) : path ≠ absent := by
  rintro rfl
  obtain ⟨_, _, found⟩ := regular
  rw [missing] at found
  cases found

theorem Checkpointed.verifyTree (checkpointed : Checkpointed P source tree manifest)
    (closed : source.Closed) : verifyTree P tree manifest = .ok () :=
  checkpointed.verifyTree_of_agreement closed fun path regular =>
    checkpointed.copied path (regular.ne_of_absent checkpointed.absent)

theorem stageCheckpoint_eq_ok (closed : source.Closed)
    (h : stageCheckpoint P source = .ok (tree, manifest)) :
    Checkpointed P source tree manifest := by
  simp only [stageCheckpoint, bind_eq_ok_iff, Prod.exists, ok.injEq, Prod.mk.injEq] at h
  obtain ⟨copy, files, copied, _, written, _, _, rfl, rfl⟩ := h
  have plain := plain_of_copyTree closed copied
  obtain ⟨copy', copied', same⟩ := copyTree_plain (P := P) closed plain
  obtain ⟨rfl, rfl⟩ : copy = copy' ∧ files = inventory P source := by
    simpa using copied.symm.trans copied'
  obtain ⟨absent, bytes, small, encoded, rfl⟩ := writeManifest_eq_ok_iff.mp written
  exact checkpointed_of_copy plain same absent small encoded

theorem stageCheckpoint_of_encode (closed : source.Closed) (plain : Plain source)
    (absent : source.lookup [manifestFileName] = none)
    (encoded : encodeManifest P ⟨sortFiles (inventory P source)⟩ = .ok bytes) :
    ∃ tree, stageCheckpoint P source = .ok (tree, ⟨sortFiles (inventory P source)⟩) := by
  obtain ⟨copy, copied, same⟩ := copyTree_plain (P := P) closed plain
  have small : bytes.length < 2 ^ 64 :=
    lt_of_le_of_lt (length_le_of_encodeManifest encoded) (by decide)
  have fresh := (same [manifestFileName]).trans absent
  have written := writeManifest_eq_ok_iff.mpr ⟨fresh, bytes, small, encoded, rfl⟩
  have verified := (checkpointed_of_copy plain same fresh small encoded).verifyTree closed
  refine ⟨copy.insert [manifestFileName] (.leaf (.regular bytes small)), ?_⟩
  simp only [stageCheckpoint, copied, ok_bind, written, verified]

theorem checkpoint_eq_ok_iff {destination after : BackupDestination} :
    checkpoint P source destination = (after, .ok manifest) ↔ destination.tree = none ∧
      destination.parent = .directory ∧ ∃ tree, stageCheckpoint P source = .ok (tree, manifest) ∧
        after = ⟨.directory, some tree⟩ := by
  obtain ⟨parent, old⟩ := destination
  unfold checkpoint
  cases old with
  | some old => simp [Except.require, error_bind]
  | none =>
    cases parent <;> simp [Except.require, DestinationParent.check]
    cases stageCheckpoint P source with
    | error e => simp
    | ok staged =>
      obtain ⟨tree, listed⟩ := staged
      simp [eq_comm, and_comm]

theorem checkpoint_of_error {destination after : BackupDestination} {e : BackupError}
    (h : checkpoint P source destination = (after, .error e)) : after = destination := by
  simp only [checkpoint] at h
  split at h
  · exact (Prod.mk.inj h).1.symm
  · cases (Prod.mk.inj h).2

/-- What a source and a destination need for a checkpoint. -/
structure Checkpointable (P : Primitives) (source : BackupTree) (destination : BackupDestination) :
    Prop where
  vacant : destination.tree = none
  parent : destination.parent = .directory
  plain : Plain source
  absent : source.lookup [manifestFileName] = none
  encodes : ∃ bytes, encodeManifest P ⟨sortFiles (inventory P source)⟩ = .ok bytes

theorem exists_checkpoint_iff (closed : source.Closed) {destination : BackupDestination} :
    (∃ after manifest, checkpoint P source destination = (after, .ok manifest)) ↔
      Checkpointable P source destination := by
  simp only [checkpoint_eq_ok_iff]
  constructor
  · rintro ⟨_, _, vacant, parent, _, staged, _⟩
    have checkpointed := stageCheckpoint_eq_ok closed staged
    obtain ⟨bytes, _, encoded, _⟩ := checkpointed.encoded
    exact ⟨vacant, parent, checkpointed.plain, checkpointed.absent, bytes,
      checkpointed.listed ▸ encoded⟩
  · rintro ⟨vacant, parent, plain, absent, bytes, encoded⟩
    obtain ⟨tree, staged⟩ := stageCheckpoint_of_encode closed plain absent encoded
    exact ⟨_, _, vacant, parent, tree, staged, rfl⟩

/-- The checkpoint succeeds, lists the regular files and can be loaded. -/
def CheckpointWorks (P : Primitives) (source : BackupTree) : Prop :=
  ∃ tree manifest, checkpoint P source .fresh = (⟨.directory, some tree⟩, .ok manifest) ∧
    (manifest.files.map BackupFile.relative).Nodup ∧
    (∀ file, file ∈ manifest.files ↔ ∃ path content small,
      source.lookup path = some (.leaf (.regular content small)) ∧
        file = ⟨pathBytes path, UInt64.ofNat content.length, P.sha256 content⟩) ∧
    loadManifest P tree = .ok manifest

theorem checkpointWorks_iff_encodes (closed : source.Closed) (plain : Plain source)
    (absent : source.lookup [manifestFileName] = none) : CheckpointWorks P source ↔
      ∃ bytes, encodeManifest P ⟨sortFiles (inventory P source)⟩ = .ok bytes := by
  constructor
  · rintro ⟨tree, manifest, done, _⟩
    exact ((exists_checkpoint_iff closed).mp ⟨_, _, done⟩).encodes
  · rintro ⟨bytes, encoded⟩
    obtain ⟨tree, staged⟩ := stageCheckpoint_of_encode closed plain absent encoded
    have checkpointed := stageCheckpoint_eq_ok closed staged
    refine ⟨tree, _, checkpoint_eq_ok_iff.mpr ⟨rfl, rfl, tree, staged, rfl⟩, ?_, ?_, ?_⟩
    · exact (encodeManifest_isOk_iff.mp ⟨bytes, encoded⟩).2.2.1.imp fun h => h.ne
    · exact fun file => mem_sortFiles.trans (mem_inventory closed)
    · obtain ⟨bytes', _, encoded', stored⟩ := checkpointed.encoded
      rw [loadManifest, openFile, stored]
      exact decodeBackupManifestBytes_eq_ok_iff.mpr encoded'

theorem manifestSize_perm {paths paths' : List Str} (perm : paths.Perm paths') :
    manifestSize paths = manifestSize paths' := by
  unfold manifestSize
  rw [(perm.map _).sum_eq]

/-- A tree within the limits is checkpointed unless the byte order of its paths and the order of
their components disagree, or its inventory is too large. -/
theorem checkpoint_works_iff (P : Primitives) (source : SourceTree) (plain : Plain source.tree)
    (short : ∀ path, IsRegular source.tree path → (pathBytes path).length ≤ maxManifestPathBytes)
    (few : (regularPaths source.tree).length ≤ maxManifestEntries)
    (absent : source.tree.lookup [manifestFileName] = none) : CheckpointWorks P source.tree ↔
      (∀ a b, IsRegular source.tree a → IsRegular source.tree b → ¬ InvertedPair a b) ∧
        manifestSize ((regularPaths source.tree).map pathBytes) ≤ maxManifestBytes := by
  obtain ⟨tree, closed⟩ := source
  have perm : ((sortFiles (inventory P tree)).map BackupFile.relative).Perm
      ((regularPaths tree).map pathBytes) :=
    ((sortFiles_perm _).map _).trans (inventory_relative_perm closed)
  have count : (sortFiles (inventory P tree)).length = (regularPaths tree).length := by
    simpa using perm.length_eq
  have valid : ∀ file ∈ sortFiles (inventory P tree), validatePathBytes file.relative = .ok () := by
    intro file member
    obtain ⟨regular, bytes⟩ := pathNames_relative closed (mem_sortFiles.mp member)
    rw [bytes, validatePathBytes_eq_ok_iff]
    exact ⟨short _ regular, _, (closed _ regular.mem).1, rfl⟩
  rw [checkpointWorks_iff_encodes closed plain absent, encodeManifest_isOk_iff, count,
    manifestSize_perm perm, sortFiles_inventory_lt_iff closed]
  exact ⟨fun h => h.2.2, fun h => ⟨few, valid, h⟩⟩
end Staged

def byteFile (byte : UInt8) : PathNode FileObject := .leaf (.regular [byte] (by simp))

def nameA : FileName := ⟨ascii "a", by decide⟩
def nameAB : FileName := ⟨ascii "a.b", by decide⟩
def nameC : FileName := ⟨ascii "c", by decide⟩
def nameD : FileName := ⟨ascii "d", by decide⟩

def nestedTree : SourceTree where
  tree := (((∅ : BackupTree).insert [nameA] .directory).insert [nameA, nameC] (byteFile 1)).insert
    [nameD] (byteFile 2)
  closed := by decide +kernel

/-- The same with a sibling of the directory, whose name continues with a full stop. -/
def siblingTree : SourceTree where
  tree := nestedTree.tree.insert [nameAB] (byteFile 3)
  closed := by decide +kernel

theorem nestedTree_checkpointed : CheckpointWorks .reference nestedTree.tree := by
  have short : ∀ path ∈ regularPaths nestedTree.tree,
      (pathBytes path).length ≤ maxManifestPathBytes := by decide +kernel
  have ordered : ∀ a ∈ regularPaths nestedTree.tree, ∀ b ∈ regularPaths nestedTree.tree,
      a < b → ¬ a <+: b ∧ pathBytes a < pathBytes b := by decide +kernel
  refine (checkpoint_works_iff .reference nestedTree (by decide +kernel)
    (fun path regular => short path (mem_regularPaths.mpr regular)) (by decide +kernel)
    (by decide +kernel)).mpr ⟨?_, by decide +kernel⟩
  intro a b regular regular' inverted
  obtain ⟨apart, lt⟩ := ordered a (mem_regularPaths.mpr regular) b (mem_regularPaths.mpr regular')
    inverted.lt
  exact (pathBytes_lt_iff inverted.lt apart).mp lt inverted

theorem siblingTree_not_checkpointed : Plain siblingTree.tree ∧
    (∀ path, IsRegular siblingTree.tree path → (pathBytes path).length ≤ maxManifestPathBytes) ∧
    (regularPaths siblingTree.tree).length ≤ maxManifestEntries ∧
    siblingTree.tree.lookup [manifestFileName] = none ∧
    checkpoint .reference siblingTree.tree .fresh = (.fresh, .error .invalidManifest) := by
  have short : ∀ path ∈ regularPaths siblingTree.tree,
      (pathBytes path).length ≤ maxManifestPathBytes := by decide +kernel
  refine ⟨by decide +kernel, fun path regular => short path (mem_regularPaths.mpr regular),
    by decide +kernel, by decide +kernel, ?_⟩
  have refused : (checkpoint .reference siblingTree.tree .fresh).2 = .error .invalidManifest := by
    decide +kernel
  exact Prod.ext (checkpoint_of_error (Prod.ext rfl refused)) refused

end ReflinkForest
