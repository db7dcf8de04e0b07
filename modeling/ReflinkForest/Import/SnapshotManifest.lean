import ReflinkForest.Git.TreeObject
import ReflinkForest.Index.Catalog

/-! Repository snapshot manifests and their publication. -/
namespace ReflinkForest
open Bytes Except

inductive LocalRefKind where
  | branch | tag
  deriving DecidableEq

structure SnapshotRef where
  name : Str
  kind : LocalRefKind
  target : GitOid
  deriving DecidableEq

structure RefSnapshot where
  algorithm : HashAlgorithm
  refs : List SnapshotRef
  deriving DecidableEq

def RefSnapshot.roots (snapshot : RefSnapshot) : List GitOid := snapshot.refs.map (·.target)

structure ImportSummary where
  objectsSeen : UInt64 := 0
  objectsWritten : UInt64 := 0
  objectsDeduplicated : UInt64 := 0
  rawBytes : UInt64 := 0
  deriving DecidableEq

structure ImportResult where
  snapshot : RefSnapshot
  summary : ImportSummary
  deriving DecidableEq

structure PersistedRef where
  name : Str
  kind : LocalRefKind
  target : GitOid
  deriving DecidableEq

structure OptionalManifestField where
  tag : UInt16
  value : Str
  deriving DecidableEq

inductive ImportPolicy where
  | localBranchesAndTags
  deriving DecidableEq

structure SnapshotManifest where
  repository : RepoId
  snapshotId : SnapshotId
  nativeObjectFormat : HashAlgorithm
  importPolicy : ImportPolicy
  refs : List PersistedRef
  summary : ImportSummary
  importedUnixSecs : UInt64
  toolVersion : Str
  optionalFields : List OptionalManifestField
  deriving DecidableEq

inductive SnapshotManifestError where
  | io
  | invalid (reason : String)
  | unsupportedVersion (version : UInt16)
  | lengthOverflow
  deriving DecidableEq

def maxSnapshotManifestBytes : ℕ := 16 * 1024 * 1024
def manifestRefNameMaxBytes : ℕ := 64 * 1024
def manifestToolVersionMaxBytes : ℕ := 64 * 1024
def manifestOptionalFieldMaxBytes : ℕ := 4 * 1024 * 1024

def LocalRefKind.namespace : LocalRefKind → Str
  | .branch => ascii "refs/heads/"
  | .tag => ascii "refs/tags/"

namespace SnapshotManifest
def validateRef (m : SnapshotManifest) (previousName : Option Str) (reference : PersistedRef) :
    Except SnapshotManifestError Unit := do
  .require (reference.name ≠ [] ∧ reference.name.length ≤ manifestRefNameMaxBytes)
    (.invalid "snapshot manifest ref name is empty or too large")
  .require (reference.target.algorithm = m.nativeObjectFormat)
    (.invalid "snapshot manifest ref OID algorithm disagrees with native object format")
  .require (reference.kind.namespace <+: reference.name)
    (.invalid "snapshot manifest ref is outside its local namespace")
  .require (∀ previous ∈ previousName, previous < reference.name)
    (.invalid "snapshot manifest refs are not strictly byte sorted")

def validateRefs (m : SnapshotManifest) :
    Option Str → List PersistedRef → Except SnapshotManifestError Unit
  | _, [] => .ok ()
  | previousName, reference :: refs => do
    m.validateRef previousName reference
    m.validateRefs (some reference.name) refs

def validateOptionalFields :
    List OptionalManifestField → List OptionalManifestField → Except SnapshotManifestError Unit
  | _, [] => .ok ()
  | prior, field :: fields => do
    .require (field.tag ≠ 0 ∧ field.value.length ≤ manifestOptionalFieldMaxBytes)
      (.invalid "snapshot manifest contains an invalid optional field")
    .require (∀ other ∈ prior, other.tag ≠ field.tag)
      (.invalid "snapshot manifest repeats an optional field tag")
    validateOptionalFields (prior ++ [field]) fields

/-- The addition of the counters is checked, so a sum beyond 64 bits is inconsistent. -/
def validate (m : SnapshotManifest) : Except SnapshotManifestError Unit := do
  .require (m.toolVersion ≠ [] ∧ m.toolVersion.length ≤ manifestToolVersionMaxBytes)
    (.invalid "snapshot manifest tool version is empty or too large")
  .require (m.summary.objectsWritten.toNat + m.summary.objectsDeduplicated.toNat =
      m.summary.objectsSeen.toNat)
    (.invalid "snapshot manifest import counters are inconsistent")
  .require (m.refs.length < 2 ^ 32) (.invalid "snapshot manifest has too many refs")
  m.validateRefs none m.refs
  .require (m.optionalFields.length < 2 ^ 32)
    (.invalid "snapshot manifest has too many optional fields")
  validateOptionalFields [] m.optionalFields

def ofImport (repository : RepoId) (snapshotId : SnapshotId) (result : ImportResult)
    (importedUnixSecs : UInt64) (toolVersion : Str) : SnapshotManifest where
  repository := repository
  snapshotId := snapshotId
  nativeObjectFormat := result.snapshot.algorithm
  importPolicy := .localBranchesAndTags
  refs := result.snapshot.refs.map fun r => ⟨r.name, r.kind, r.target⟩
  summary := result.summary
  importedUnixSecs := importedUnixSecs
  toolVersion := toolVersion
  optionalFields := []

def fromImport (repository : RepoId) (snapshotId : SnapshotId) (result : ImportResult)
    (importedUnixSecs : UInt64) (toolVersion : Str) :
    Except SnapshotManifestError SnapshotManifest := do
  let manifest := ofImport repository snapshotId result importedUnixSecs toolVersion
  manifest.validate
  .ok manifest

/-- Bytes of the encoded manifest: the fixed fields, the tool version, then 5 bytes and the
name and ID of each ref, and 6 bytes and the value of each optional field. -/
def encodedLength (m : SnapshotManifest) : ℕ :=
  96 + m.toolVersion.length +
    (m.refs.map fun r => 5 + r.name.length + r.target.bytes.length).sum +
    (m.optionalFields.map fun f => 6 + f.value.length).sum

/-- When `encode_snapshot_manifest` succeeds on a validated manifest: the length prefixes of the
tool version and of the ref names have 16 bits. -/
def encodeChecks (m : SnapshotManifest) : Except SnapshotManifestError Unit := do
  .require (m.toolVersion.length < 2 ^ 16) .lengthOverflow
  .require (∀ r ∈ m.refs, r.name.length < 2 ^ 16) .lengthOverflow
  .require (m.encodedLength ≤ maxSnapshotManifestBytes)
    (.invalid "snapshot manifest exceeds the maximum size")
end SnapshotManifest

/-- The manifest directory: one durable file for each repository and snapshot. -/
abbrev ManifestStore := FinMap (RepoId × SnapshotId) SnapshotManifest

inductive SnapshotPublicationStatus where
  | published | alreadyReady
  deriving DecidableEq

inductive SnapshotPublicationError where
  | manifest (error : SnapshotManifestError)
  | catalog (error : CatalogError)
  | snapshotAlreadyReady
  | snapshotNotMarkedIncomplete
  | persistedManifestMismatch
  deriving DecidableEq

def writeSnapshotManifest (manifests : ManifestStore) (manifest : SnapshotManifest) :
    Except SnapshotManifestError ManifestStore := do
  manifest.validate
  manifest.encodeChecks
  .ok (manifests.insert (manifest.repository, manifest.snapshotId) manifest)

def readSnapshotManifest (manifests : ManifestStore) (repository : RepoId)
    (snapshot : SnapshotId) : Except SnapshotManifestError SnapshotManifest := do
  let manifest ← .ofOption .io (manifests.lookup (repository, snapshot))
  manifest.validate
  .ok manifest

def setVisibility (catalog : InMemoryCatalog) (manifest : SnapshotManifest)
    (visibility : SnapshotVisibility) : Except SnapshotPublicationError InMemoryCatalog :=
  .mapErr .catalog
    (catalog.apply [.repositorySnapshot manifest.repository manifest.snapshotId visibility])

def beginSnapshotPublication (catalog : InMemoryCatalog) (manifest : SnapshotManifest) :
    Except SnapshotPublicationError InMemoryCatalog := do
  .mapErr .manifest manifest.validate
  match catalog.repositorySnapshot manifest.repository manifest.snapshotId with
  | some .ready => .error .snapshotAlreadyReady
  | some .incomplete => .ok catalog
  | none => setVisibility catalog manifest .incomplete

def finishPersistedSnapshotPublication (catalog : InMemoryCatalog) (manifest : SnapshotManifest) :
    Except SnapshotPublicationError (InMemoryCatalog × SnapshotPublicationStatus) :=
  match catalog.repositorySnapshot manifest.repository manifest.snapshotId with
  | some .ready => .ok (catalog, .alreadyReady)
  | some .incomplete => do
    let catalog ← setVisibility catalog manifest .ready
    .ok (catalog, .published)
  | none => .error .snapshotNotMarkedIncomplete

def finishSnapshotPublication (catalog : InMemoryCatalog) (manifests : ManifestStore)
    (expected : SnapshotManifest) :
    Except SnapshotPublicationError (InMemoryCatalog × SnapshotPublicationStatus) := do
  let persisted ← .mapErr .manifest
    (readSnapshotManifest manifests expected.repository expected.snapshotId)
  .require (persisted = expected) .persistedManifestMismatch
  finishPersistedSnapshotPublication catalog persisted

/-- What a publication leaves behind, also when a later stage fails. -/
@[ext] structure SnapshotPublication where
  catalog : InMemoryCatalog
  manifests : ManifestStore
  result : Except SnapshotPublicationError SnapshotPublicationStatus

def publishSnapshotManifest (catalog : InMemoryCatalog) (manifests : ManifestStore)
    (manifest : SnapshotManifest) : SnapshotPublication :=
  match beginSnapshotPublication catalog manifest with
  | .error e => ⟨catalog, manifests, .error e⟩
  | .ok begun =>
    match writeSnapshotManifest manifests manifest with
    | .error e => ⟨begun, manifests, .error (.manifest e)⟩
    | .ok written =>
      match finishSnapshotPublication begun written manifest with
      | .error e => ⟨begun, written, .error e⟩
      | .ok (finished, status) => ⟨finished, written, .ok status⟩

/-- Everything but the visibility of one snapshot is as before. -/
structure Shows (c : InMemoryCatalog) (repository : RepoId) (snapshot : SnapshotId)
    (visibility : SnapshotVisibility) (c' : InMemoryCatalog) : Prop where
  aliases : c'.aliases = c.aliases
  objects : c'.objects = c.objects
  metas : c'.metas = c.metas
  rebuild : c'.objectLocationRebuildInProgress = c.objectLocationRebuildInProgress
  visibility : ∀ r s, c'.repositorySnapshot r s =
    if (r, s) = (repository, snapshot) then some visibility else c.repositorySnapshot r s

section Lemmas
variable {c c' c'' : InMemoryCatalog} {manifests manifests' : ManifestStore}
  {manifest : SnapshotManifest} {visibility : SnapshotVisibility}

theorem setVisibility_eq_ok (h : setVisibility c manifest visibility = .ok c') :
    Shows c manifest.repository manifest.snapshotId visibility c' := by
  rw [setVisibility, mapErr_eq_ok] at h
  rw [InMemoryCatalog.apply_eq_foldl h]
  exact ⟨rfl, rfl, rfl, rfl, fun r s => FinMap.lookup_insert_eq _ _ _ _⟩

theorem Shows.trans {repository : RepoId} {snapshot : SnapshotId}
    {visibility' : SnapshotVisibility} (h : Shows c repository snapshot visibility c')
    (h' : Shows c' repository snapshot visibility' c'') :
    Shows c repository snapshot visibility' c'' := by
  refine ⟨h'.aliases.trans h.aliases, h'.objects.trans h.objects, h'.metas.trans h.metas,
    h'.rebuild.trans h.rebuild, ?_⟩
  intro r s
  rw [h'.visibility, h.visibility]
  split <;> rfl

theorem beginSnapshotPublication_eq_ok (h : beginSnapshotPublication c manifest = .ok c') :
    c.repositorySnapshot manifest.repository manifest.snapshotId ≠ some .ready ∧
      (c' = c ∨ setVisibility c manifest .incomplete = .ok c') := by
  simp only [beginSnapshotPublication, bind_eq_ok_iff] at h
  obtain ⟨_, _, h⟩ := h
  split at h
  · simp at h
  · rename_i shown
    exact ⟨by simp [shown], .inl (ok.inj h).symm⟩
  · rename_i shown
    exact ⟨by simp [shown], .inr h⟩

theorem writeSnapshotManifest_eq_ok
    (h : writeSnapshotManifest manifests manifest = .ok manifests') :
    manifest.validate = .ok () ∧
      manifests' = manifests.insert (manifest.repository, manifest.snapshotId) manifest := by
  simp only [writeSnapshotManifest, bind_eq_ok_iff, ok.injEq] at h
  obtain ⟨_, valid, _, _, rfl⟩ := h
  exact ⟨valid, rfl⟩

theorem finishPersistedSnapshotPublication_eq_ok {status : SnapshotPublicationStatus}
    (notReady : c.repositorySnapshot manifest.repository manifest.snapshotId ≠ some .ready)
    (h : finishPersistedSnapshotPublication c manifest = .ok (c', status)) :
    setVisibility c manifest .ready = .ok c' := by
  unfold finishPersistedSnapshotPublication at h
  split at h
  · rename_i shown
    exact absurd shown notReady
  · obtain ⟨shown, set, same⟩ := bind_eq_ok_iff.mp h
    simp only [ok.injEq, Prod.mk.injEq] at same
    exact same.1 ▸ set
  · simp at h

theorem publishSnapshotManifest_eq_ok {status : SnapshotPublicationStatus}
    (h : publishSnapshotManifest c manifests manifest = ⟨c', manifests', .ok status⟩) :
    manifest.validate = .ok () ∧
      manifests' = manifests.insert (manifest.repository, manifest.snapshotId) manifest ∧
      Shows c manifest.repository manifest.snapshotId .ready c' := by
  unfold publishSnapshotManifest at h
  split at h
  · simp at h
  rename_i begun start
  split at h
  · simp at h
  rename_i written write
  split at h
  · simp at h
  rename_i finished status' finish
  simp only [SnapshotPublication.mk.injEq, ok.injEq] at h
  obtain ⟨rfl, rfl, rfl⟩ := h
  obtain ⟨valid, rfl⟩ := writeSnapshotManifest_eq_ok write
  obtain ⟨notReady, begins⟩ := beginSnapshotPublication_eq_ok start
  simp only [finishSnapshotPublication, bind_eq_ok_iff, exists_require] at finish
  obtain ⟨persisted, _, rfl, finish⟩ := finish
  refine ⟨valid, rfl, ?_⟩
  rcases begins with rfl | begins
  · exact setVisibility_eq_ok (finishPersistedSnapshotPublication_eq_ok notReady finish)
  · have marked := setVisibility_eq_ok begins
    have stillNot : begun.repositorySnapshot persisted.repository persisted.snapshotId ≠
        some .ready := by
      simp [marked.visibility]
    exact marked.trans
      (setVisibility_eq_ok (finishPersistedSnapshotPublication_eq_ok stillNot finish))
end Lemmas

end ReflinkForest
