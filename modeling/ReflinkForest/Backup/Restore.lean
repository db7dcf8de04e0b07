import ReflinkForest.Backup.ColdTier

/-! Restoring a checkpoint: files are placed with the directories that lead to them, and a directory
without files is not made again. -/
namespace ReflinkForest
open Bytes Except List PathTree

section Restore
variable (P : Primitives)

def restoreEntry (backupRoot temporary : BackupTree) (entry : BackupFile) :
    Except BackupError BackupTree := do
  validatePathBytes entry.relative
  let path := pathNames entry.relative
  let temporary ← .mapErr ioError (temporary.makeParents path)
  let input ← openFile backupRoot path
  .mapErr ioError (temporary.create path (.leaf input))

/-- An error removes the private directory. -/
def restoreWithVerification (backupRoot : BackupTree) (manifest : BackupManifest)
    (destination : BackupDestination) (verify : BackupTree → Except BackupError Unit) :
    BackupDestination × Except BackupError Unit :=
  let staged : Except BackupError BackupTree := do
    .require (destination.tree.isNone) .destinationExists
    verifyTree P backupRoot manifest
    destination.parent.check
    let temporary ← manifest.files.foldlM (restoreEntry backupRoot) ∅
    verifyTree P temporary manifest
    verify temporary
    .ok temporary
  match staged with
  | .error e => (destination, .error e)
  | .ok tree => ({ destination with tree := some tree }, .ok ())

def loadColdTierDescriptor (root : BackupTree) :
    Except BackupError ColdTierCheckpointDescriptor := do
  match ← openFile root [coldDescriptorFileName] with
  | .regular bytes _ => decodeColdTierCheckpointDescriptorBytes P bytes
  | .special => .error (.io .invalidInput)

variable (authoritativePaths : ColdTierAuthoritativePaths) (chunkPaths : ColdTierChunkPaths)

/-- The checks of the backup before a destination is made. -/
def admitColdTier (backupRoot : BackupTree) (manifest : BackupManifest) :
    Except BackupError ColdTierCheckpointDescriptor := do
  let descriptor ← loadColdTierDescriptor P backupRoot
  validateColdTierLayout descriptor authoritativePaths chunkPaths
  verifyTree P backupRoot manifest
  verifyColdDescriptorAuthority P descriptor authoritativePaths backupRoot
  verifyColdDescriptorChunks descriptor chunkPaths backupRoot (some manifest)
  .ok descriptor

def restoreColdTier (backupRoot : BackupTree) (manifest : BackupManifest)
    (destination : BackupDestination) : BackupDestination × Except BackupError Unit :=
  match admitColdTier P authoritativePaths chunkPaths backupRoot manifest with
  | .error e => (destination, .error e)
  | .ok descriptor => restoreWithVerification P backupRoot manifest destination fun temporary => do
    verifyColdDescriptorAuthority P descriptor authoritativePaths temporary
    verifyColdDescriptorChunks descriptor chunkPaths temporary (some manifest)
end Restore

section Restored
variable {P : Primitives} {source backup root : BackupTree} {manifest : BackupManifest}

variable {path : List FileName} {object : FileObject} {t t' : BackupTree}

theorem openFile_eq_ok_iff :
    openFile root path = .ok object ↔ object ≠ .special ∧
      root.lookup path = some (.leaf object) := by
  unfold openFile
  constructor
  · intro h
    split at h
    case h_1 found =>
      cases h
      exact ⟨by simp, found⟩
    all_goals cases h
  · rintro ⟨plain, found⟩
    rw [found]
    cases object with
    | regular content small => rfl
    | special => exact absurd rfl plain

def objectAt (t : BackupTree) (path : List FileName) : FileObject :=
  match t.lookup path with
  | some (.leaf object) => object
  | _ => .special

theorem IsRegular.objectAt (regular : IsRegular source path) :
    objectAt source path ≠ .special ∧ source.lookup path = some (.leaf (objectAt source path)) := by
  obtain ⟨content, small, found⟩ := regular
  simp [ReflinkForest.objectAt, found]

/-- The files of an inventory, as they are placed. -/
def placements (source : BackupTree) (files : List BackupFile) :
    List (List FileName × FileObject) :=
  files.map fun file => (pathNames file.relative, objectAt source (pathNames file.relative))

theorem restoreEntry_of_place {file : BackupFile}
    (valid : validatePathBytes file.relative = .ok ())
    (regular : IsRegular source (pathNames file.relative))
    (same : backup.lookup (pathNames file.relative) = source.lookup (pathNames file.relative))
    (placed : t.place (pathNames file.relative, objectAt source (pathNames file.relative)) =
      .ok t') :
    restoreEntry backup t file = .ok t' := by
  obtain ⟨middle, made, created⟩ := bind_eq_ok_iff.mp placed
  have opened : openFile backup (pathNames file.relative) =
      .ok (objectAt source (pathNames file.relative)) :=
    openFile_eq_ok_iff.mpr ⟨regular.objectAt.1, same.trans regular.objectAt.2⟩
  simp only [restoreEntry, valid, made, opened, created, ok_bind, mapErr_ok]

theorem restoreEntries_of_place {files : List BackupFile}
    (valid : ∀ file ∈ files, validatePathBytes file.relative = .ok ())
    (regular : ∀ file ∈ files, IsRegular source (pathNames file.relative))
    (same : ∀ path, IsRegular source path → backup.lookup path = source.lookup path)
    (placed : (placements source files).foldlM place t = .ok t') :
    files.foldlM (restoreEntry backup) t = .ok t' := by
  induction files generalizing t with
  | nil =>
    cases placed
    rfl
  | cons file files ih =>
    rw [placements, map_cons, foldlM_cons] at placed
    obtain ⟨middle, first, rest⟩ := bind_eq_ok_iff.mp placed
    have here := regular file mem_cons_self
    rw [foldlM_cons, restoreEntry_of_place (valid file mem_cons_self) here
      (same _ here) first, ok_bind]
    exact ih (fun later mem => valid later (mem_cons_of_mem _ mem))
      (fun later mem => regular later (mem_cons_of_mem _ mem)) rest

theorem mem_placements (closed : source.Closed) :
    (path, object) ∈ placements source (sortFiles (inventory P source)) ↔
      object ≠ .special ∧ source.lookup path = some (.leaf object) := by
  simp only [placements, mem_map, mem_sortFiles, Prod.mk.injEq]
  constructor
  · rintro ⟨file, mem, rfl, rfl⟩
    exact (pathNames_relative closed mem).1.objectAt
  · rintro ⟨plain, found⟩
    cases object with
    | special => exact absurd rfl plain
    | regular content small =>
      have names := pathNames_pathBytes
        (closed path (FinMap.mem_of_lookup found)).1
      refine ⟨_, (mem_inventory closed).mpr ⟨path, content, small, found, rfl⟩, names, ?_⟩
      rw [names, objectAt, found]

theorem isRegular_of_leaf (plain : object ≠ .special)
    (found : source.lookup path = some (.leaf object)) : IsRegular source path := by
  cases object with
  | regular content small => exact ⟨content, small, found⟩
  | special => exact absurd rfl plain

theorem isRegular_of_placements (closed : source.Closed) {leaf : List FileName × FileObject}
    (mem : leaf ∈ placements source (sortFiles (inventory P source))) :
    IsRegular source leaf.1 :=
  let listed := (mem_placements closed).mp mem
  isRegular_of_leaf listed.1 listed.2

theorem nodup_placements (closed : source.Closed) :
    ((placements source (sortFiles (inventory P source))).map Prod.fst).Nodup := by
  rw [placements, map_map]
  exact pairwise_map.mpr ((sortFiles_sorted (inventory_names closed)).imp fun h => h.ne)

theorem filesOnly_of_holds {restored : BackupTree} {leaves : List (List FileName × FileObject)}
    (closed : source.Closed)
    (listed : ∀ path object, (path, object) ∈ leaves ↔
      object ≠ .special ∧ source.lookup path = some (.leaf object))
    (holds : restored.Holds (leaves.flatMap fun leaf => ancestors leaf.1) leaves) :
    FilesOnly source restored := by
  have regular : ∀ path object, (path, object) ∈ leaves → IsRegular source path := by
    intro path object mem
    obtain ⟨plain, found⟩ := (listed path object).mp mem
    exact isRegular_of_leaf plain found
  intro path
  ext node
  rw [holds path node]
  constructor
  · rintro (⟨mem, rfl⟩ | ⟨object, mem, rfl⟩)
    · obtain ⟨⟨file, object⟩, placed, above⟩ := mem_flatMap.mp mem
      have isFile := regular file object placed
      rw [if_pos ⟨file, isFile, (mem_ancestors.mp above).2.1⟩]
      exact (closed file isFile.mem).2 path above
    · rw [if_pos ⟨path, regular path object mem, prefix_refl _⟩]
      exact ((listed path object).mp mem).2
  · split_ifs with held
    · intro found
      obtain ⟨file, isFile, inside⟩ := held
      have placed := (listed file _).mpr isFile.objectAt
      by_cases same : path = file
      · subst same
        rw [isFile.objectAt.2, Option.some.injEq] at found
        exact .inr ⟨_, placed, found.symm⟩
      · have above : path ∈ ancestors file := mem_ancestors.mpr
          ⟨(closed path (FinMap.mem_of_lookup found)).1, inside, same⟩
        rw [(closed file isFile.mem).2 path above, Option.some.injEq] at found
        exact .inl ⟨mem_flatMap.mpr ⟨_, placed, above⟩, found.symm⟩
    · intro found
      cases found

/-- Restoring the inventory gives the files and the directories that lead to them. -/
theorem restoreEntries_filesOnly (closed : source.Closed)
    (valid : ∀ file ∈ sortFiles (inventory P source), validatePathBytes file.relative = .ok ())
    (same : ∀ path, IsRegular source path → backup.lookup path = source.lookup path) :
    ∃ restored, (sortFiles (inventory P source)).foldlM (restoreEntry backup) ∅ = .ok restored ∧
      FilesOnly source restored := by
  have apart : ∀ leaf ∈ placements source (sortFiles (inventory P source)),
      ∀ other ∈ [] ++ placements source (sortFiles (inventory P source)),
      other.1 ∉ ancestors leaf.1 := by
    intro leaf mem other member' above
    obtain ⟨_, inside, different⟩ := mem_ancestors.mp above
    exact (isRegular_of_placements closed member').not_below closed
      (isRegular_of_placements closed mem) different inside
  obtain ⟨restored, placed, holds⟩ := holds_empty.foldlM_place (nodup_placements closed)
    apart (by simp) fun leaf mem other member' => apart other member' leaf mem
  exact ⟨restored, restoreEntries_of_place valid (fun file mem =>
    (pathNames_relative closed (mem_sortFiles.mp mem)).1) same placed,
    filesOnly_of_holds closed (fun _ _ => mem_placements closed) holds⟩
end Restored

section RoundTrip
variable {P : Primitives} {descriptor : ColdTierCheckpointDescriptor}
  {authoritativePaths : ColdTierAuthoritativePaths} {chunkPaths : ColdTierChunkPaths}
  {guard : Except BackupError Unit} {source backup restored : BackupTree}
  {manifest : BackupManifest} {destination after : BackupDestination}

/-- What a successful cold-tier checkpoint leaves. -/
structure ColdCheckpointed (P : Primitives) (descriptor : ColdTierCheckpointDescriptor)
    (authoritativePaths : ColdTierAuthoritativePaths) (chunkPaths : ColdTierChunkPaths)
    (source backup : BackupTree) (manifest : BackupManifest) : Prop where
  layout : validateColdTierLayout descriptor authoritativePaths chunkPaths = .ok ()
  authority : verifyColdDescriptorAuthority P descriptor authoritativePaths source = .ok ()
  chunks : verifyColdDescriptorChunks descriptor chunkPaths source none = .ok ()
  checkpointed : ∃ tree, Checkpointed P source tree manifest
  stored : ∃ bytes small, encodeColdDescriptor P descriptor = .ok bytes ∧
    backup.lookup [coldDescriptorFileName] = some (.leaf (.regular bytes small))
  absent : source.lookup [coldDescriptorFileName] = none
  copied : ∀ path, path ≠ [manifestFileName] → path ≠ [coldDescriptorFileName] →
    backup.lookup path = source.lookup path

theorem checkpointColdTier_eq_ok (closed : source.Closed)
    (done : checkpointColdTier P descriptor authoritativePaths chunkPaths guard source destination =
      (after, .ok manifest)) (left : after.tree = some backup) :
    ColdCheckpointed P descriptor authoritativePaths chunkPaths source backup manifest := by
  cases prepared : prepareColdTier P descriptor authoritativePaths chunkPaths guard source with
  | error e => simp [checkpointColdTier, prepared] at done
  | ok u =>
    rcases published : checkpoint P source destination with ⟨middle, result⟩
    cases result with
    | error e => simp [checkpointColdTier, prepared, published] at done
    | ok listed =>
      obtain ⟨_, _, tree, staged, rfl⟩ := checkpoint_eq_ok_iff.mp published
      have checkpointed := stageCheckpoint_eq_ok closed staged
      cases finished : finishColdTier P descriptor authoritativePaths chunkPaths tree listed with
      | error e => simp [checkpointColdTier, prepared, published, finished] at done
      | ok root =>
        obtain ⟨absent, bytes, small, encoded, rfl⟩ :=
          (checkpointed.finishColdTier_eq_ok_iff closed prepared).mp finished
        simp only [checkpointColdTier, prepared, published, finished, Option.getD_some,
          Prod.mk.injEq, ok.injEq] at done
        obtain ⟨rfl, rfl⟩ := done
        cases left
        obtain ⟨_, layout, authority, chunks⟩ := prepareColdTier_eq_ok prepared
        exact {
          layout, authority, chunks, absent
          checkpointed := ⟨tree, checkpointed⟩
          stored := ⟨bytes, small, encoded, AList.lookup_insert _⟩
          copied := fun path elsewhere elsewhere' =>
            (AList.lookup_insert_ne elsewhere').trans (checkpointed.copied path elsewhere) }

variable (cold : ColdCheckpointed P descriptor authoritativePaths chunkPaths source backup manifest)
  (closed : source.Closed)

include cold closed

variable {path : List FileName}

theorem ColdCheckpointed.lookup_near {relative : BackupPath} (present : relative.names ∈ source)
    (near : path <+: relative.names ∨ relative.names <+: path) :
    backup.lookup path = source.lookup path := by
  obtain ⟨tree, checkpointed⟩ := cold.checkpointed
  exact cold.copied path (ne_singleton_of_near closed present checkpointed.absent near)
    (ne_singleton_of_near closed present cold.absent near)

omit closed in
theorem ColdCheckpointed.lookup_regular (regular : IsRegular source path) :
    backup.lookup path = source.lookup path := by
  obtain ⟨tree, checkpointed⟩ := cold.checkpointed
  exact cold.copied path (regular.ne_of_absent checkpointed.absent)
    (regular.ne_of_absent cold.absent)

theorem ColdCheckpointed.admitColdTier :
    admitColdTier P authoritativePaths chunkPaths backup manifest = .ok descriptor := by
  obtain ⟨tree, checkpointed⟩ := cold.checkpointed
  obtain ⟨bytes, small, encoded, stored⟩ := cold.stored
  have opened : openFile backup [coldDescriptorFileName] = .ok (.regular bytes small) :=
    openFile_eq_ok_iff.mpr ⟨by simp, stored⟩
  have loaded : loadColdTierDescriptor P backup = .ok descriptor := by
    rw [loadColdTierDescriptor, opened, ok_bind]
    exact decodeColdTierCheckpointDescriptorBytes_eq_ok_iff.mpr encoded
  have verified := checkpointed.verifyTree_of_agreement closed
    fun path regular => cold.lookup_regular regular
  have authority := verifyColdDescriptorAuthority_of_agreement cold.authority
    fun relative present path _ near => cold.lookup_near closed present near
  have chunks := checkpointed.verifyColdDescriptorChunks closed cold.chunks
    fun relative regular path _ above => cold.lookup_near closed regular.mem (.inl above)
  simp only [ReflinkForest.admitColdTier, loaded, cold.layout, verified, authority, chunks, ok_bind]

/-- Everything but the digests of the authoritative entries is restored. -/
theorem ColdCheckpointed.restoreColdTier_eq : ∃ restored, FilesOnly source restored ∧
    restoreColdTier P authoritativePaths chunkPaths backup manifest .fresh =
      match verifyColdDescriptorAuthority P descriptor authoritativePaths restored with
      | .ok () => (⟨.directory, some restored⟩, .ok ())
      | .error e => (.fresh, .error e) := by
  obtain ⟨tree, checkpointed⟩ := cold.checkpointed
  obtain ⟨bytes, _, encoded, _⟩ := checkpointed.encoded
  have valid := (encodeManifest_isOk_iff.mp ⟨bytes, encoded⟩).2.1
  have regular := fun path (regular : IsRegular source path) => cold.lookup_regular regular
  rw [checkpointed.listed] at valid
  obtain ⟨restored, placed, files⟩ := restoreEntries_filesOnly closed valid regular
  rw [show sortFiles (inventory P source) = manifest.files by rw [checkpointed.listed]] at placed
  refine ⟨restored, files, ?_⟩
  have verified := checkpointed.verifyTree_of_agreement closed regular
  have verified' := checkpointed.verifyTree_of_agreement closed
    fun path isFile => files.lookup_of_holdsFile ⟨path, isFile, prefix_refl _⟩
  have chunks := checkpointed.verifyColdDescriptorChunks closed cold.chunks
    fun relative isFile path _ above => files.lookup_of_holdsFile ⟨_, isFile, above⟩
  simp only [restoreColdTier, cold.admitColdTier closed, restoreWithVerification,
    BackupDestination.fresh, Option.isNone_none, Except.require, if_true, ok_bind, verified,
    DestinationParent.check, placed, verified', chunks]
  cases verifyColdDescriptorAuthority P descriptor authoritativePaths restored <;> rfl
end RoundTrip

/-- A cold-tier checkpoint can be restored exactly when no directory without files is part of an
authoritative entry. -/
theorem restoreColdTier_works_iff (P : Primitives) (descriptor : ColdTierCheckpointDescriptor)
    (authoritativePaths : ColdTierAuthoritativePaths) (chunkPaths : ColdTierChunkPaths)
    (guard : Except BackupError Unit) (source : SourceTree) (destination after : BackupDestination)
    (backup : BackupTree) (manifest : BackupManifest)
    (done : checkpointColdTier P descriptor authoritativePaths chunkPaths guard source.tree
      destination = (after, .ok manifest)) (left : after.tree = some backup)
    (separates : ∀ kept, FilesOnly source.tree kept → ∀ path ∈ authoritativePaths.all,
      DigestSeparates P source.tree kept path) :
    (∃ restored, restoreColdTier P authoritativePaths chunkPaths backup manifest .fresh =
      (⟨.directory, some restored⟩, .ok ()) ∧ ∀ path object,
        restored.lookup path = some (.leaf object) ↔
          source.tree.lookup path = some (.leaf object)) ↔
      ∀ path ∈ authoritativePaths.all, FilesBelow source.tree path.names := by
  obtain ⟨source, closed⟩ := source
  have cold := checkpointColdTier_eq_ok closed done left
  obtain ⟨tree, checkpointed⟩ := cold.checkpointed
  obtain ⟨restored, files, result⟩ := cold.restoreColdTier_eq closed
  have hashed := verifyColdDescriptorAuthority_eq_ok_iff.mp cold.authority
  have digests : verifyColdDescriptorAuthority P descriptor authoritativePaths restored = .ok () ↔
      ∀ path ∈ authoritativePaths.all, FilesBelow source path.names := by
    have paths : authoritativePaths.all = (authoritativePaths.bound descriptor).map Prod.fst := rfl
    rw [verifyColdDescriptorAuthority_eq_ok_iff, paths, forall_mem_map]
    refine forall₂_congr fun entry member => ?_
    exact files.hashAuthoritativeEntry_iff checkpointed.plain closed
      (separates restored files entry.1 (paths ▸ mem_map_of_mem member)) (hashed entry member)
  rw [← digests, result]
  constructor
  · rintro ⟨other, same, _⟩
    split at same
    · assumption
    · cases (Prod.mk.inj same).2
  · intro verified
    rw [verified]
    exact ⟨restored, rfl, fun path object => files.lookup_leaf_iff checkpointed.plain⟩

section Examples
variable {result : BackupDestination × Except BackupError BackupManifest}

theorem exists_coldTier (done : result.2.toBool = true ∧ result.1.tree.isSome) :
    ∃ after backup manifest, result = (after, .ok manifest) ∧ after.tree = some backup := by
  obtain ⟨manifest, ok⟩ := exists_ok_of_toBool done.1
  obtain ⟨backup, left⟩ := Option.isSome_iff_exists.mp done.2
  exact ⟨result.1, backup, manifest, Prod.ext rfl ok, left⟩

theorem metadataTree_restored : ∃ after backup manifest restored,
    checkpointColdTier .reference metadataDescriptor metadataPaths noChunks (.ok ())
      metadataTree.tree .fresh = (after, .ok manifest) ∧ after.tree = some backup ∧
    restoreColdTier .reference metadataPaths noChunks backup manifest .fresh =
      (⟨.directory, some restored⟩, .ok ()) ∧ ∀ path object,
        restored.lookup path = some (.leaf object) ↔
          metadataTree.tree.lookup path = some (.leaf object) := by
  have published : ∃ after backup manifest, checkpointColdTier .reference metadataDescriptor
      metadataPaths noChunks (.ok ()) metadataTree.tree .fresh = (after, .ok manifest) ∧
      after.tree = some backup := exists_coldTier (by decide +kernel)
  obtain ⟨after, backup, manifest, done, left⟩ := published
  have files : ∀ path ∈ metadataPaths.all, ∀ name ∈ metadataTree.tree.sortedNames path.names,
      IsRegular metadataTree.tree (path.names ++ [name]) := by decide +kernel
  have onlyCatalog : ∀ path ∈ metadataTree.tree.keys,
      metadataTree.tree.lookup path = some .directory → path = catalogPath.names := by
    decide +kernel
  have inCatalog : IsRegular metadataTree.tree (catalogPath.names ++ [nameC]) := by decide +kernel
  have works := restoreColdTier_works_iff .reference metadataDescriptor metadataPaths noChunks
    (.ok ()) metadataTree .fresh after backup manifest done left fun kept only path member _ => by
      rw [only.directoryStream_succ, directoryStream]
      refine congrArg (· ++ _) (flatMap_congr fun name mem => ?_)
      obtain ⟨content, small, found⟩ := files path member name mem
      rw [entryStream, entryStream,
        only.lookup_of_holdsFile ⟨_, ⟨content, small, found⟩, prefix_refl _⟩, found]
  obtain ⟨restored, result, same⟩ := works.mpr fun path _ directory found _ => by
    rw [onlyCatalog directory (AList.mem_keys.mp (FinMap.mem_of_lookup found)) found]
    exact ⟨_, inCatalog, prefix_append _ _⟩
  exact ⟨after, backup, manifest, restored, done, left, result, same⟩

/-- The catalog is an empty directory. -/
def emptyCatalogTree : SourceTree where
  tree := (((∅ : BackupTree).insert catalogPath.names .directory).insert configPath.names
    (byteFile 2)).insert pinsPath.names (byteFile 3)
  closed := by decide +kernel

def emptyCatalogDescriptor : ColdTierCheckpointDescriptor :=
  let digest := Primitives.reference.sha256
  ⟨1, 0, [], digest (authoritativeDirectoryMagic ++ ascii "E"), digest [2], digest [3]⟩

theorem exists_unrestored (restore : BackupTree → BackupManifest → Except BackupError Unit)
    {e : BackupError}
    (done : result.2.toBool = true ∧ result.1.tree.isSome)
    (failed : (match result with
      | (after, .ok manifest) => restore (after.tree.getD ∅) manifest
      | _ => .ok ()) = .error e) :
    ∃ after backup manifest, result = (after, .ok manifest) ∧ after.tree = some backup ∧
      restore backup manifest = .error e := by
  obtain ⟨after, backup, manifest, rfl, left⟩ := exists_coldTier done
  refine ⟨after, backup, manifest, rfl, left, ?_⟩
  simpa only [left, Option.getD_some] using failed

theorem emptyCatalogTree_not_restored : ∃ after backup manifest,
    checkpointColdTier .reference emptyCatalogDescriptor metadataPaths noChunks (.ok ())
      emptyCatalogTree.tree .fresh = (after, .ok manifest) ∧ after.tree = some backup ∧
    (restoreColdTier .reference metadataPaths noChunks backup manifest .fresh).2 =
      .error (.verificationFailed catalogPath.bytes) :=
  exists_unrestored (fun backup manifest =>
    (restoreColdTier .reference metadataPaths noChunks backup manifest .fresh).2)
    (by decide +kernel) (by decide +kernel)
end Examples
end ReflinkForest
