import ReflinkForest.Backup.Authority

/-! Cold-tier checkpoints: a checkpoint whose authoritative entries and chunks are bound to a
descriptor. -/
namespace ReflinkForest
open Bytes Except List

def coldDescriptorFileName : FileName := ⟨ascii "cold-tier-v1", by decide⟩

/-- What follows the last full stop of a file name, unless that is its first byte. -/
def extension (name : Str) : Option Str :=
  let after := (name.reverse.takeWhile (· ≠ 0x2e)).reverse
  if after.length + 1 < name.length then some after else none

def ChunkClassification.suffix : ChunkClassification → Str
  | .opened => ascii "open"
  | .sealed => ascii "sealed"

def chunkPathHasClassification (path : BackupPath) (classification : ChunkClassification) : Bool :=
  (path.names.getLast?.bind fun name => extension name.bytes) = some classification.suffix

structure ColdTierChunkPath where
  generation : UInt32
  chunkId : UInt64
  classification : ChunkClassification
  relative : BackupPath

/-- File names for the chunks, in the order of their identities. -/
structure ColdTierChunkPaths where
  entries : List ColdTierChunkPath
  few : entries.length ≤ maxColdDescriptorChunks
  sorted : entries.Pairwise fun a b =>
    chunkKey a.generation a.chunkId < chunkKey b.generation b.chunkId
  classified : ∀ entry ∈ entries, chunkPathHasClassification entry.relative entry.classification
  distinct : (entries.map ColdTierChunkPath.relative).Nodup

/-- Three distinct paths below the root. -/
structure ColdTierAuthoritativePaths where
  catalog : BackupPath
  config : BackupPath
  pinsManifest : BackupPath
  distinct : catalog ≠ config ∧ catalog ≠ pinsManifest ∧ config ≠ pinsManifest

def ColdTierAuthoritativePaths.all (paths : ColdTierAuthoritativePaths) : List BackupPath :=
  [paths.catalog, paths.config, paths.pinsManifest]

def pathsOverlap (left right : BackupPath) : Bool :=
  left.names.isPrefixOf right.names || right.names.isPrefixOf left.names

section ColdTier
variable (P : Primitives) (descriptor : ColdTierCheckpointDescriptor)
  (authoritativePaths : ColdTierAuthoritativePaths) (chunkPaths : ColdTierChunkPaths)

/-- The file names form a one-to-one map of the chunks and stay clear of the other entries. -/
def validateColdTierLayout : Except BackupError Unit := do
  .require (descriptor.chunks.length = chunkPaths.entries.length) .invalidColdTierLayout
  (descriptor.chunks.zip chunkPaths.entries).forM fun (chunk, entry) => do
    .require (chunk.generation = entry.generation ∧ chunk.chunkId = entry.chunkId ∧
      chunk.classification = entry.classification ∧
      chunkPathHasClassification entry.relative chunk.classification) .invalidColdTierLayout
    .require ((∀ path ∈ authoritativePaths.all, ¬ pathsOverlap entry.relative path) ∧
      entry.relative.names ≠ [manifestFileName] ∧ entry.relative.names ≠ [coldDescriptorFileName])
      .invalidColdTierLayout

def verifyColdDescriptorAuthority (root : BackupTree) : Except BackupError Unit := do
  let catalogDigest ← hashAuthoritativeEntry P root authoritativePaths.catalog
  let configDigest ← hashAuthoritativeEntry P root authoritativePaths.config
  let pinsManifestDigest ← hashAuthoritativeEntry P root authoritativePaths.pinsManifest
  .require (catalogDigest = descriptor.catalogDigest)
    (.verificationFailed authoritativePaths.catalog.bytes)
  .require (configDigest = descriptor.configDigest)
    (.verificationFailed authoritativePaths.config.bytes)
  .require (pinsManifestDigest = descriptor.pinsManifestDigest)
    (.verificationFailed authoritativePaths.pinsManifest.bytes)

/-- The inventory has one entry for a chunk, with the size of its durable bytes. -/
def checkInventory (manifest : Option BackupManifest) (relative : BackupPath)
    (chunk : ColdChunkDescriptor) : Except BackupError Unit :=
  match manifest with
  | none => .ok ()
  | some manifest => Except.require ((manifest.files.filter
      (·.relative = relative.bytes)).map BackupFile.bytes = [chunk.validPrefix])
      (.verificationFailed relative.bytes)

def verifyColdDescriptorChunks (root : BackupTree) (manifest : Option BackupManifest) :
    Except BackupError Unit := do
  .require (chunkPaths.entries.length = descriptor.chunks.length) .invalidColdTierLayout
  descriptor.chunks.forM fun chunk => do
    let entry ← .ofOption .invalidColdTierLayout (chunkPaths.entries.find? fun entry =>
      entry.generation = chunk.generation ∧ entry.chunkId = chunk.chunkId)
    checkInventory manifest entry.relative chunk
    verifyColdChunkFile root entry.relative chunk

/-- The checks before anything is copied. -/
def prepareColdTier (guard : Except BackupError Unit) (source : BackupTree) :
    Except BackupError Unit := do
  guard
  validateColdDescriptor descriptor
  validateColdTierLayout descriptor authoritativePaths chunkPaths
  verifyColdDescriptorAuthority P descriptor authoritativePaths source
  verifyColdDescriptorChunks descriptor chunkPaths source none

/-- The checks on the published tree, and the descriptor beside it. -/
def finishColdTier (root : BackupTree) (manifest : BackupManifest) :
    Except BackupError BackupTree := do
  verifyColdDescriptorAuthority P descriptor authoritativePaths root
  verifyColdDescriptorChunks descriptor chunkPaths root (some manifest)
  let bytes ← encodeColdDescriptor P descriptor
  createFile root [coldDescriptorFileName] bytes

def checkpointColdTier (guard : Except BackupError Unit) (source : BackupTree)
    (destination : BackupDestination) : BackupDestination × Except BackupError BackupManifest :=
  match prepareColdTier P descriptor authoritativePaths chunkPaths guard source with
  | .error e => (destination, .error e)
  | .ok () =>
    match checkpoint P source destination with
    | (destination, .error e) => (destination, .error e)
    | (destination, .ok manifest) =>
      match finishColdTier P descriptor authoritativePaths chunkPaths
          (destination.tree.getD ∅) manifest with
      | .error e => (destination, .error e)
      | .ok root => ({ destination with tree := some root }, .ok manifest)
end ColdTier

section Checks
variable {P : Primitives} {descriptor : ColdTierCheckpointDescriptor}
  {authoritativePaths : ColdTierAuthoritativePaths} {chunkPaths : ColdTierChunkPaths}
  {t t' root : BackupTree} {relative : BackupPath} {path : List FileName} {name : FileName}

/-- The authoritative paths with the digests that the descriptor has for them. -/
def ColdTierAuthoritativePaths.bound (paths : ColdTierAuthoritativePaths)
    (descriptor : ColdTierCheckpointDescriptor) : List (BackupPath × Digest) :=
  [(paths.catalog, descriptor.catalogDigest), (paths.config, descriptor.configDigest),
    (paths.pinsManifest, descriptor.pinsManifestDigest)]

theorem verifyColdDescriptorAuthority_eq_ok_iff :
    verifyColdDescriptorAuthority P descriptor authoritativePaths root = .ok () ↔
      ∀ entry ∈ authoritativePaths.bound descriptor,
        hashAuthoritativeEntry P root entry.1 = .ok entry.2 := by
  simp only [verifyColdDescriptorAuthority, bind_eq_ok_iff, require_eq_ok, exists_const,
    ColdTierAuthoritativePaths.bound, forall_mem_cons, not_mem_nil,
    IsEmpty.forall_iff, implies_true, and_true]
  constructor
  · rintro ⟨_, catalog, _, config, _, pins, rfl, rfl, rfl⟩
    exact ⟨catalog, config, pins⟩
  · rintro ⟨catalog, config, pins⟩
    exact ⟨_, catalog, _, config, _, pins, rfl, rfl, rfl⟩

theorem verifyColdDescriptorChunks_eq_ok_iff {manifest : Option BackupManifest} :
    verifyColdDescriptorChunks descriptor chunkPaths root manifest = .ok () ↔
      chunkPaths.entries.length = descriptor.chunks.length ∧ ∀ chunk ∈ descriptor.chunks,
        ∃ entry, (chunkPaths.entries.find? fun entry =>
          entry.generation = chunk.generation ∧ entry.chunkId = chunk.chunkId) = some entry ∧
          checkInventory manifest entry.relative chunk = .ok () ∧
          verifyColdChunkFile root entry.relative chunk = .ok () := by
  simp only [verifyColdDescriptorChunks, bind_eq_ok_iff, require_eq_ok,
    forM_eq_ok_iff, ofOption_eq_ok, Unique.exists_iff, PUnit.default_eq_unit]

theorem verifyColdChunkFile_congr {chunk : ColdChunkDescriptor}
    (same : ∀ path, path ≠ [] → path <+: relative.names → t.lookup path = t'.lookup path) :
    verifyColdChunkFile t relative chunk = verifyColdChunkFile t' relative chunk := by
  have paths : checkedColdChunkPath t relative = checkedColdChunkPath t' relative := by
    unfold checkedColdChunkPath
    rw [same relative.names relative.nonempty (prefix_refl _)]
    refine congrArg (· >>= _) (Except.forM_congr fun above mem => ?_)
    obtain ⟨nonempty, inside, _⟩ := PathTree.mem_ancestors.mp mem
    rw [same above nonempty inside]
  unfold verifyColdChunkFile
  rw [paths]

theorem verifyColdChunkFile_regular {chunk : ColdChunkDescriptor}
    (h : verifyColdChunkFile t relative chunk = .ok ()) : ∃ content small,
      t.lookup relative.names = some (.leaf (.regular content small)) ∧
        UInt64.ofNat content.length = chunk.validPrefix := by
  obtain ⟨content, found, rest⟩ := bind_eq_ok_iff.mp h
  obtain ⟨length, _⟩ := require_bind_eq_ok.mp rest
  obtain ⟨small, regular⟩ := checkedColdChunkPath_eq_ok found
  exact ⟨content, small, regular, by rw [length, UInt64.ofNat_toNat]⟩

/-- A path beside an entry of a tree is not a missing entry of its root. -/
theorem ne_singleton_of_near (closed : t.Closed) (present : relative.names ∈ t)
    (absent : t.lookup [name] = none) (near : path <+: relative.names ∨ relative.names <+: path) :
    path ≠ [name] := by
  rintro rfl
  rw [AList.lookup_eq_none] at absent
  rcases near with above | below
  · exact absent (closed.mem_of_prefix present (by simp) above)
  · have same : relative.names = [name] := by
      obtain ⟨first, rest, names⟩ := exists_cons_of_ne_nil relative.nonempty
      rw [names] at below ⊢
      obtain ⟨rfl, tail⟩ := cons_prefix_cons.mp below
      rw [prefix_nil.mp tail]
    exact absent (same ▸ present)

theorem filter_relative_of_mem {files : List BackupFile} {file : BackupFile}
    (distinct : (files.map BackupFile.relative).Nodup) (mem : file ∈ files) :
    (files.filter fun other => other.relative = file.relative) = [file] := by
  induction files with
  | nil => simp at mem
  | cons other files ih =>
    rw [map_cons, nodup_cons] at distinct
    rcases mem_cons.mp mem with rfl | later
    · have none : (files.filter fun other => other.relative = file.relative) = [] := by
        refine filter_eq_nil_iff.mpr fun other inside same => distinct.1 ?_
        rw [← of_decide_eq_true same]
        exact mem_map_of_mem inside
      rw [filter_cons_of_pos (by simp), none]
    · have different : other.relative ≠ file.relative := by
        intro same
        exact distinct.1 (same ▸ mem_map_of_mem later)
      rw [filter_cons_of_neg (by simpa using different), ih distinct.2 later]
end Checks

section Atomicity
variable {P : Primitives} {descriptor : ColdTierCheckpointDescriptor}
  {authoritativePaths : ColdTierAuthoritativePaths} {chunkPaths : ColdTierChunkPaths}
  {guard : Except BackupError Unit} {source tree root : BackupTree} {manifest : BackupManifest}

theorem prepareColdTier_eq_ok
    (h : prepareColdTier P descriptor authoritativePaths chunkPaths guard source = .ok ()) :
    validateColdDescriptor descriptor = .ok () ∧
      validateColdTierLayout descriptor authoritativePaths chunkPaths = .ok () ∧
      verifyColdDescriptorAuthority P descriptor authoritativePaths source = .ok () ∧
      verifyColdDescriptorChunks descriptor chunkPaths source none = .ok () := by
  simp only [prepareColdTier, bind_eq_ok_iff] at h
  obtain ⟨_, _, _, valid, _, layout, _, authority, chunks⟩ := h
  exact ⟨valid, layout, authority, chunks⟩

/-- The checks pass on a tree that agrees with the source around each of its entries. -/
theorem verifyColdDescriptorAuthority_of_agreement
    (authority : verifyColdDescriptorAuthority P descriptor authoritativePaths source = .ok ())
    (same : ∀ relative : BackupPath, relative.names ∈ source → ∀ path, path ≠ [] →
      path <+: relative.names ∨ relative.names <+: path → root.lookup path = source.lookup path) :
    verifyColdDescriptorAuthority P descriptor authoritativePaths root = .ok () := by
  rw [verifyColdDescriptorAuthority_eq_ok_iff] at authority ⊢
  intro entry mem
  rw [← authority entry mem]
  exact hashAuthoritativeEntry_congr
    (same entry.1 (hashAuthoritativeEntry_mem (authority entry mem)))

section
variable (checkpointed : Checkpointed P source tree manifest)
include checkpointed

theorem Checkpointed.checkInventory
    (closed : source.Closed) {relative : BackupPath} {chunk : ColdChunkDescriptor}
    (verified : verifyColdChunkFile source relative chunk = .ok ()) :
    checkInventory (some manifest) relative chunk = .ok () := by
  obtain ⟨content, small, found, size⟩ := verifyColdChunkFile_regular verified
  obtain ⟨bytes, _, encoded, _⟩ := checkpointed.encoded
  have distinct : (manifest.files.map BackupFile.relative).Nodup :=
    (encodeManifest_isOk_iff.mp ⟨bytes, encoded⟩).2.2.1.imp fun h => h.ne
  have listed : (⟨relative.bytes, UInt64.ofNat content.length, P.sha256 content⟩ : BackupFile) ∈
      manifest.files := by
    rw [checkpointed.listed]
    exact mem_sortFiles.mpr ((mem_inventory closed).mpr ⟨_, _, _, found, rfl⟩)
  have only := filter_relative_of_mem distinct listed
  rw [ReflinkForest.checkInventory, require_eq_ok, only, ← size]
  rfl

theorem Checkpointed.verifyColdDescriptorChunks
    (closed : source.Closed)
    (chunks : verifyColdDescriptorChunks descriptor chunkPaths source none = .ok ())
    (same : ∀ relative : BackupPath, IsRegular source relative.names → ∀ path, path ≠ [] →
      path <+: relative.names → root.lookup path = source.lookup path) :
    verifyColdDescriptorChunks descriptor chunkPaths root (some manifest) = .ok () := by
  rw [verifyColdDescriptorChunks_eq_ok_iff] at chunks ⊢
  refine ⟨chunks.1, fun chunk mem => ?_⟩
  obtain ⟨entry, found, _, verified⟩ := chunks.2 chunk mem
  obtain ⟨content, small, regular, _⟩ := verifyColdChunkFile_regular verified
  refine ⟨entry, found, checkpointed.checkInventory closed verified, ?_⟩
  rw [← verified]
  exact verifyColdChunkFile_congr (same entry.relative ⟨content, small, regular⟩)

theorem Checkpointed.lookup_near
    (closed : source.Closed) {relative : BackupPath} (present : relative.names ∈ source)
    {path : List FileName} (near : path <+: relative.names ∨ relative.names <+: path) :
    tree.lookup path = source.lookup path :=
  checkpointed.copied path (ne_singleton_of_near closed present checkpointed.absent near)

/-- After the checkpoint only the file of the descriptor can be in the way. -/
theorem Checkpointed.finishColdTier_eq_ok_iff
    (closed : source.Closed)
    (prepared : prepareColdTier P descriptor authoritativePaths chunkPaths guard source = .ok ()) :
    finishColdTier P descriptor authoritativePaths chunkPaths tree manifest = .ok root ↔
      source.lookup [coldDescriptorFileName] = none ∧ ∃ bytes small,
        encodeColdDescriptor P descriptor = .ok bytes ∧
        root = tree.insert [coldDescriptorFileName] (.leaf (.regular bytes small)) := by
  obtain ⟨_, _, authority, chunks⟩ := prepareColdTier_eq_ok prepared
  have authority' := verifyColdDescriptorAuthority_of_agreement authority
    fun relative present path _ near => checkpointed.lookup_near closed present near
  have chunks' := checkpointed.verifyColdDescriptorChunks closed chunks
    fun relative regular path _ above => checkpointed.lookup_near closed regular.mem (.inl above)
  have apart : [coldDescriptorFileName] ≠ [manifestFileName] := by decide
  simp only [finishColdTier, authority', chunks', ok_bind, bind_eq_ok_iff,
    createFile_root_eq_ok_iff, checkpointed.copied _ apart]
  constructor
  · rintro ⟨bytes, encoded, fresh, small, rfl⟩
    exact ⟨fresh, bytes, small, encoded, rfl⟩
  · rintro ⟨fresh, bytes, small, encoded, rfl⟩
    exact ⟨bytes, encoded, fresh, small, rfl⟩
end

theorem encodeColdDescriptor_of_valid (valid : validateColdDescriptor descriptor = .ok ()) :
    ∃ bytes, encodeColdDescriptor P descriptor = .ok bytes ∧ bytes.length < 2 ^ 64 := by
  have few := (validateColdDescriptor_few valid).1
  refine ⟨descriptor.payload ++ (P.sha256 descriptor.payload).toList, ?_, ?_⟩
  · rw [encodeColdDescriptor, valid, ok_bind]
  · rw [length_append, descriptor.length_payload, List.Vector.toList_length]
    simp only [maxColdDescriptorChunks, coldDescriptorHeaderLen, coldDescriptorChunkLen,
      coldDescriptorDigestsLen] at few ⊢
    omega

/-- A failure leaves nothing behind unless a copied entry is in the way of the descriptor. -/
theorem checkpointColdTier_atomic_iff (source : SourceTree) {destination : BackupDestination}
    (absent : destination.tree = none) :
    (∀ after e, checkpointColdTier P descriptor authoritativePaths chunkPaths guard source.tree
      destination = (after, .error e) → after.tree = none) ↔
      ¬ (prepareColdTier P descriptor authoritativePaths chunkPaths guard source.tree = .ok () ∧
        Checkpointable P source.tree destination ∧
        source.tree.lookup [coldDescriptorFileName] ≠ none) := by
  obtain ⟨source, closed⟩ := source
  rw [← exists_checkpoint_iff closed]
  cases prepared : prepareColdTier P descriptor authoritativePaths chunkPaths guard source with
  | error e => simp [checkpointColdTier, prepared, absent]
  | ok u =>
    rcases copied : checkpoint P source destination with ⟨after, result⟩
    cases result with
    | error e =>
      have kept := checkpoint_of_error copied
      simp [checkpointColdTier, prepared, copied, kept, absent]
    | ok manifest =>
      obtain ⟨_, _, tree, staged, rfl⟩ := checkpoint_eq_ok_iff.mp copied
      have checkpointed := stageCheckpoint_eq_ok closed staged
      by_cases free : source.lookup [coldDescriptorFileName] = none
      · obtain ⟨bytes, encoded, small⟩ := encodeColdDescriptor_of_valid (P := P)
          (prepareColdTier_eq_ok prepared).1
        have finished := (checkpointed.finishColdTier_eq_ok_iff closed prepared).mpr
          ⟨free, bytes, small, encoded, rfl⟩
        simp [checkpointColdTier, prepared, copied, finished, free]
      · cases finished : finishColdTier P descriptor authoritativePaths chunkPaths tree manifest
          with
        | ok root =>
          exact absurd ((checkpointed.finishColdTier_eq_ok_iff closed prepared).mp finished).1 free
        | error e => simp [checkpointColdTier, prepared, copied, finished, free]
end Atomicity

def catalogPath : BackupPath := ⟨[⟨ascii "catalog", by decide⟩], by simp, by decide⟩
def configPath : BackupPath := ⟨[⟨ascii "config", by decide⟩], by simp, by decide⟩
def pinsPath : BackupPath := ⟨[⟨ascii "pins", by decide⟩], by simp, by decide⟩

def metadataPaths : ColdTierAuthoritativePaths := ⟨catalogPath, configPath, pinsPath, by decide⟩

def noChunks : ColdTierChunkPaths := ⟨[], by decide, .nil, by simp, .nil⟩

def metadataTree : SourceTree where
  tree := ((((∅ : BackupTree).insert catalogPath.names .directory).insert
    (catalogPath.names ++ [nameC]) (byteFile 1)).insert configPath.names (byteFile 2)).insert
    pinsPath.names (byteFile 3)
  closed := by decide +kernel

def metadataDescriptor : ColdTierCheckpointDescriptor :=
  let digest := Primitives.reference.sha256
  ⟨1, 0, [], digest (authoritativeDirectoryMagic ++
    directoryStream metadataTree.tree 3 catalogPath.names), digest [2], digest [3]⟩

/-- A file whose name goes on where that of the catalog ends. -/
def catalogSiblingTree : SourceTree where
  tree := metadataTree.tree.insert [⟨ascii "catalog.b", by decide⟩] (byteFile 4)
  closed := by decide +kernel

theorem catalogSiblingTree_atomic : BackupDestination.fresh.tree = none ∧
    (checkpointColdTier .reference metadataDescriptor metadataPaths noChunks (.ok ())
      catalogSiblingTree.tree .fresh).2 = .error .invalidManifest ∧ ∀ after e,
    checkpointColdTier .reference metadataDescriptor metadataPaths noChunks (.ok ())
      catalogSiblingTree.tree .fresh = (after, .error e) → after.tree = none :=
  ⟨rfl, by decide +kernel, (checkpointColdTier_atomic_iff catalogSiblingTree rfl).mpr
    fun inTheWay => inTheWay.2.2 (by decide +kernel)⟩

theorem exists_published {result : BackupDestination × Except BackupError BackupManifest}
    {e : BackupError} (h : result.2 = .error e ∧ result.1.tree.isSome) :
    ∃ after tree, result = (after, .error e) ∧ after.tree = some tree := by
  obtain ⟨tree, found⟩ := Option.isSome_iff_exists.mp h.2
  exact ⟨result.1, tree, Prod.ext rfl h.1, found⟩

/-- A root entry with the name of the descriptor's file. -/
def obstructedTree : SourceTree where
  tree := metadataTree.tree.insert [coldDescriptorFileName] (byteFile 4)
  closed := by decide +kernel

theorem obstructedTree_published : BackupDestination.fresh.tree = none ∧ ∃ after tree,
    checkpointColdTier .reference metadataDescriptor metadataPaths noChunks (.ok ())
      obstructedTree.tree .fresh = (after, .error (.io .alreadyExists)) ∧ after.tree = some tree :=
  ⟨rfl, exists_published (by decide +kernel)⟩

end ReflinkForest
