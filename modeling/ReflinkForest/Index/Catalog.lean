import ReflinkForest.Lib.FinMap
import ReflinkForest.Format.Record

/-! The catalog: typed key/value families, atomic batches, and the derived queries of the `Catalog`
trait, as the in-memory backend implements them. -/
namespace ReflinkForest
open Bytes

structure RepoId where
  bytes : List.Vector UInt8 16
  deriving DecidableEq

structure SnapshotId where
  bytes : List.Vector UInt8 16
  deriving DecidableEq

structure WorkspaceId where
  bytes : List.Vector UInt8 16
  deriving DecidableEq

structure GcPinId where
  bytes : List.Vector UInt8 16
  deriving DecidableEq

inductive SnapshotVisibility where
  | incomplete | ready
  deriving DecidableEq

structure RepositorySnapshot where
  repository : RepoId
  snapshot : SnapshotId
  visibility : SnapshotVisibility

structure GcPin where
  id : GcPinId
  generation : UInt32

inductive GcRoot where
  | repositorySnapshot (repository : RepoId) (snapshot : SnapshotId)
  | workspacePin (workspace : WorkspaceId) (generation : UInt32)
  | explicitPin (pin : GcPin)

structure ObjectLocation where
  generation : UInt32
  chunkId : UInt64
  offset : UInt64
  recordLength : UInt64
  storedLength : UInt64
  rawLength : UInt64
  kind : ObjectKind
  codec : Codec
  flags : UInt16
  payloadCrc32c : UInt32
  deriving DecidableEq

inductive ChunkState where
  | opened | sealed | retired
  deriving DecidableEq

structure ChunkMetadata where
  state : ChunkState
  size : UInt64
  recordCount : UInt64

inductive CatalogError where
  | invalidEncoding
  | unsupportedVersion (version : UInt8)
  | unsupportedOperation (operation : String)
  | objectLocationRebuildInProgress
  | objectLocationRebuildNotInProgress
  | duplicateRebuiltObjectLocation (id : ContentId)
  | aliasConflict (repo : RepoId) (oid : GitOid) (existing requested : ContentId)
  | backend (error : String)
  deriving DecidableEq

def currentGenerationMetaKey : Str := ascii "current_generation"
def objectLocationRebuildMetaKey : Str := ascii "object_location_rebuild_v1"

inductive Operation where
  | objectLocation (id : ContentId) (location : ObjectLocation)
  | oidAlias (repo : RepoId) (oid : GitOid) (id : ContentId)
  | repository (id : RepoId) (record : Str)
  | deleteRepository (id : RepoId)
  | repositorySnapshot (repo : RepoId) (snapshot : SnapshotId) (visibility : SnapshotVisibility)
  | deleteRepositorySnapshot (repo : RepoId) (snapshot : SnapshotId)
  | chunkMetadata (generation : UInt32) (chunkId : UInt64) (metadata : ChunkMetadata)
  | putMeta (key value : Str)
  | workspace (id : WorkspaceId) (record : Str)
  | workspaceName (name : Str) (id : WorkspaceId)
  | workspacePin (id : WorkspaceId) (generation : UInt32)
  | deleteWorkspacePin (id : WorkspaceId)
  | gcPin (id : GcPinId) (generation : UInt32)
  | deleteGcPin (id : GcPinId)
  | job (jobId record : Str)

namespace Operation
def currentGeneration (generation : UInt32) : Operation :=
  .putMeta currentGenerationMetaKey (u32 generation)
end Operation

structure InMemoryCatalog where
  objects : FinMap ContentId ObjectLocation := ∅
  objectLocationRebuildInProgress : Bool := false
  aliases : FinMap (RepoId × GitOid) ContentId := ∅
  repositories : FinMap RepoId Str := ∅
  repositorySnapshots : FinMap (RepoId × SnapshotId) SnapshotVisibility := ∅
  chunks : FinMap (UInt32 × UInt64) ChunkMetadata := ∅
  metas : FinMap Str Str := ∅
  workspaces : FinMap WorkspaceId Str := ∅
  workspaceNames : FinMap Str WorkspaceId := ∅
  workspacePins : FinMap WorkspaceId UInt32 := ∅
  gcPins : FinMap GcPinId UInt32 := ∅
  jobs : FinMap Str Str := ∅

namespace InMemoryCatalog
section
variable (c : InMemoryCatalog)

/-- Effect of one operation on the staged copy. -/
def stage : Operation → InMemoryCatalog
  | .objectLocation id location => { c with objects := c.objects.insert id location }
  | .oidAlias repo oid id => { c with aliases := c.aliases.insert (repo, oid) id }
  | .repository id record => { c with repositories := c.repositories.insert id record }
  | .deleteRepository id => { c with repositories := c.repositories.erase id }
  | .repositorySnapshot repo snapshot visibility =>
    { c with repositorySnapshots := c.repositorySnapshots.insert (repo, snapshot) visibility }
  | .deleteRepositorySnapshot repo snapshot =>
    { c with repositorySnapshots := c.repositorySnapshots.erase (repo, snapshot) }
  | .chunkMetadata generation chunkId metadata =>
    { c with chunks := c.chunks.insert (generation, chunkId) metadata }
  | .putMeta key value => { c with metas := c.metas.insert key value }
  | .workspace id record => { c with workspaces := c.workspaces.insert id record }
  | .workspaceName name id => { c with workspaceNames := c.workspaceNames.insert name id }
  | .workspacePin id generation =>
    { c with workspacePins := c.workspacePins.insert id generation }
  | .deleteWorkspacePin id => { c with workspacePins := c.workspacePins.erase id }
  | .gcPin id generation => { c with gcPins := c.gcPins.insert id generation }
  | .deleteGcPin id => { c with gcPins := c.gcPins.erase id }
  | .job jobId record => { c with jobs := c.jobs.insert jobId record }

/-- Aliases are write-once: rebinding one to another content ID is refused. -/
def aliasConflict : Operation → Option CatalogError
  | .oidAlias repo oid id =>
    match c.aliases.lookup (repo, oid) with
    | some existing => if existing = id then none else some (.aliasConflict repo oid existing id)
    | none => none
  | _ => none

def stageAll (c : InMemoryCatalog) : List Operation → Except CatalogError InMemoryCatalog
  | [] => .ok c
  | op :: ops =>
    match c.aliasConflict op with
    | some error => .error error
    | none => stageAll (c.stage op) ops

def writesRebuildMarker : Operation → Bool
  | .putMeta key _ => key = objectLocationRebuildMetaKey
  | _ => false

/-- Apply a batch to a staged copy; an error leaves the catalog as it was. -/
def apply (batch : List Operation) : Except CatalogError InMemoryCatalog := do
  .require (c.objectLocationRebuildInProgress = false) .objectLocationRebuildInProgress
  .require (batch.any writesRebuildMarker = false)
    (.unsupportedOperation "direct object-location rebuild metadata mutation")
  stageAll c batch

def objectLocation (id : ContentId) : Option ObjectLocation :=
  if c.objectLocationRebuildInProgress then none else c.objects.lookup id

def oidAlias (repo : RepoId) (oid : GitOid) : Option ContentId :=
  c.aliases.lookup (repo, oid)

def chunk (generation : UInt32) (chunkId : UInt64) : Option ChunkMetadata :=
  c.chunks.lookup (generation, chunkId)

def repositorySnapshot (repository : RepoId) (snapshot : SnapshotId) : Option SnapshotVisibility :=
  c.repositorySnapshots.lookup (repository, snapshot)

def currentGeneration : Option UInt32 :=
  match c.metas.lookup currentGenerationMetaKey with
  | some value => if value.length = 4 then some (toU32 value) else none
  | none => none

def workspace (id : WorkspaceId) : Option Str := c.workspaces.lookup id

def workspaceName (name : Str) : Option WorkspaceId :=
  c.workspaceNames.lookup name

def workspacePin (id : WorkspaceId) : Option UInt32 :=
  c.workspacePins.lookup id

/-- Snapshot visibility records in `(repository, snapshot)` order. -/
def repositorySnapshotList : List RepositorySnapshot :=
  (c.repositorySnapshots.sortedBy fun e => e.1.1.bytes.toList ++ e.1.2.bytes.toList).map
    fun e => ⟨e.1.1, e.1.2, e.2⟩

def workspacePinList : List (WorkspaceId × UInt32) :=
  c.workspacePins.sortedBy fun e => e.1.bytes.toList

def gcPinList : List GcPin :=
  (c.gcPins.sortedBy fun e => e.1.bytes.toList).map fun e => ⟨e.1, e.2⟩

/-- Every durable root: ready snapshots, then workspace pins, then explicit
pins. Each part is enumerated in order and the derived order of `GcRoot` sorts
by part first, so the final `sort_unstable` moves nothing. -/
def gcRoots : List GcRoot :=
  (c.repositorySnapshotList.filter (·.visibility = .ready)).map
      (fun s => .repositorySnapshot s.repository s.snapshot) ++
    c.workspacePinList.map (fun p => .workspacePin p.1 p.2) ++
    c.gcPinList.map .explicitPin

/-- Drop a repository record and all its snapshot records in one batch. -/
def deleteRepository (repository : RepoId) : Except CatalogError InMemoryCatalog :=
  c.apply (.deleteRepository repository ::
    (c.repositorySnapshotList.filter (·.repository = repository)).map
      fun s => .deleteRepositorySnapshot repository s.snapshot)

end

section Lemmas
variable {c c' : InMemoryCatalog} {op : Operation} {batch : List Operation}

theorem stageAll_cons_eq_ok {ops : List Operation} :
    c.stageAll (op :: ops) = .ok c' ↔
      c.aliasConflict op = none ∧ (c.stage op).stageAll ops = .ok c' := by
  rw [stageAll]
  cases c.aliasConflict op <;> simp

theorem stageAll_eq_foldl (h : c.stageAll batch = .ok c') : c' = batch.foldl stage c := by
  induction batch generalizing c with
  | nil => simpa [stageAll, eq_comm] using h
  | cons op ops ih =>
    simp only [stageAll] at h
    split at h
    · cases h
    · exact ih h

theorem stageAll_of_no_conflict (h : ∀ op ∈ batch, ∀ c, aliasConflict c op = none) :
    c.stageAll batch = .ok (batch.foldl stage c) := by
  induction batch generalizing c with
  | nil => rfl
  | cons op ops ih =>
    rw [stageAll, h op (by simp)]
    exact ih fun op' hop' => h op' (by simp [hop'])

theorem apply_eq_ok_iff : c.apply batch = .ok c' ↔ c.objectLocationRebuildInProgress = false ∧
    batch.any writesRebuildMarker = false ∧ c.stageAll batch = .ok c' := by
  simp only [apply, Except.bind_eq_ok_iff, Except.exists_require]

theorem apply_of_no_conflict (hc : c.objectLocationRebuildInProgress = false)
    (hmarker : batch.any writesRebuildMarker = false)
    (h : ∀ op ∈ batch, ∀ c, aliasConflict c op = none) :
    c.apply batch = .ok (batch.foldl stage c) :=
  apply_eq_ok_iff.mpr ⟨hc, hmarker, stageAll_of_no_conflict h⟩

theorem apply_eq_foldl (h : c.apply batch = .ok c') : c' = batch.foldl stage c :=
  stageAll_eq_foldl (apply_eq_ok_iff.mp h).2.2

/-- Queries that no operation of a batch changes keep their value. -/
theorem apply_frame {α : Type} (query : InMemoryCatalog → α) (h : c.apply batch = .ok c')
    (hop : ∀ op ∈ batch, ∀ c, query (stage c op) = query c) : query c' = query c := by
  rw [apply_eq_foldl h]
  clear h
  induction batch generalizing c with
  | nil => rfl
  | cons op ops ih =>
    rw [List.foldl_cons, ih fun op' hop' => hop op' (by simp [hop'])]
    exact hop op (by simp) c

/-- What no operation of a batch can bring about held before it. -/
theorem apply_reflects (Q : InMemoryCatalog → Prop) (h : c.apply batch = .ok c')
    (hop : ∀ op ∈ batch, ∀ c, Q (stage c op) → Q c) (hq : Q c') : Q c := by
  rw [apply_eq_foldl h] at hq
  clear h
  induction batch generalizing c with
  | nil => exact hq
  | cons op ops ih =>
    exact hop op (by simp) c (ih (fun op' hop' => hop op' (by simp [hop'])) hq)

@[simp] theorem stage_rebuild (c : InMemoryCatalog) (op : Operation) :
    (c.stage op).objectLocationRebuildInProgress = c.objectLocationRebuildInProgress := by
  cases op <;> rfl

theorem apply_rebuild (h : c.apply batch = .ok c') :
    c'.objectLocationRebuildInProgress = false := by
  rw [apply_frame objectLocationRebuildInProgress h fun _ _ _ => stage_rebuild _ _]
  exact (apply_eq_ok_iff.mp h).1

theorem objectLocation_eq (h : c.objectLocationRebuildInProgress = false) (id : ContentId) :
    c.objectLocation id = c.objects.lookup id := by
  simp [objectLocation, h]
end Lemmas
end InMemoryCatalog
end ReflinkForest
