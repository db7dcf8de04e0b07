import ReflinkForest.Index.CatalogEncoding

/-! The catalog in RocksDB. The database does not fail and every column family exists. -/
namespace ReflinkForest
open Bytes ColumnStore Catalog

inductive ColumnFamily where
  | objectLocations | oidAliases | repositories | repoSnapshots | refs | chunks | cacheObjects
  | workspaces | workspaceNames | pins | jobs | metas
  deriving DecidableEq

structure RocksDbCatalog where
  db : Database ColumnFamily Str Str := .empty

/-- The derived order of `RepositorySnapshot`, field by field. -/
def RepositorySnapshot.sortKey (s : RepositorySnapshot) : Str :=
  s.repository.bytes.toList ++ s.snapshot.bytes.toList ++ [s.visibility.toTag]

/-- The order of pairs of a pin's ID and its generation. -/
def pinSortKey (id : List.Vector UInt8 16) (generation : UInt32) : Str :=
  id.toList ++ u32 generation

/-- The derived order of `GcRoot`, by variant first. -/
def GcRoot.sortKey : GcRoot → Str
  | .repositorySnapshot repository snapshot =>
    0 :: (repository.bytes.toList ++ snapshot.bytes.toList)
  | .workspacePin workspace generation => 1 :: pinSortKey workspace.bytes generation
  | .explicitPin pin => 2 :: pinSortKey pin.id.bytes pin.generation

namespace RocksDbCatalog
variable (c : RocksDbCatalog)

def readObjectLocationRebuildState : Except CatalogError ObjectLocationRebuildState :=
  match c.db.get .metas (encodeMetaKey objectLocationRebuildMetaKey) with
  | none => .ok .idle
  | some value => decodeObjectLocationRebuildMarker value

/-- What an alias names before an operation, with the earlier ones of its batch pending. -/
def existingAlias (pending : FinMap (RepoId × GitOid) ContentId) (repo : RepoId) (oid : GitOid) :
    Except CatalogError (Option ContentId) :=
  match pending.lookup (repo, oid) with
  | some id => .ok (some id)
  | none =>
    match c.db.get .oidAliases (encodeOidAliasKey repo oid) with
    | none => .ok none
    | some value => do
      let id ← decodeContentIdValue value
      .ok (some id)

/-- The loop that validates all conflicts before the write. -/
def checkAliases (c : RocksDbCatalog) :
    FinMap (RepoId × GitOid) ContentId → List Operation → Except CatalogError Unit
  | _, [] => .ok ()
  | pending, .oidAlias repo oid requested :: batch => do
    let existing ← c.existingAlias pending repo oid
    match existing with
    | some id => Except.require (id = requested) (.aliasConflict repo oid id requested)
    | none => .ok ()
    c.checkAliases (pending.insert (repo, oid) requested) batch
  | pending, _ :: batch => c.checkAliases pending batch

def writeOf : Operation → Write ColumnFamily Str Str
  | .objectLocation id location =>
    .put .objectLocations (encodeObjectLocationKey id) (encodeObjectLocationValue location)
  | .oidAlias repo oid id => .put .oidAliases (encodeOidAliasKey repo oid) (encodeContentIdValue id)
  | .repository id record => .put .repositories (encodeRepositoryKey id) (encodeOpaqueValue record)
  | .deleteRepository id => .delete .repositories (encodeRepositoryKey id)
  | .repositorySnapshot repository snapshot visibility =>
    .put .repoSnapshots (encodeRepositorySnapshotKey repository snapshot)
      (encodeSnapshotVisibilityValue visibility)
  | .deleteRepositorySnapshot repository snapshot =>
    .delete .repoSnapshots (encodeRepositorySnapshotKey repository snapshot)
  | .chunkMetadata generation chunkId metadata =>
    .put .chunks (encodeChunkKey generation chunkId) (encodeChunkValue metadata)
  | .putMeta key value => .put .metas (encodeMetaKey key) (encodeOpaqueValue value)
  | .workspace id record => .put .workspaces (encodeWorkspaceKey id) (encodeOpaqueValue record)
  | .workspaceName name id =>
    .put .workspaceNames (encodeWorkspaceNameKey name) (encodeWorkspaceIdValue id)
  | .workspacePin id generation =>
    .put .pins (encodeWorkspacePinKey id) (encodeWorkspacePinValue generation)
  | .deleteWorkspacePin id => .delete .pins (encodeWorkspacePinKey id)
  | .gcPin id generation => .put .pins (encodeGcPinKey id) (encodeGcPinValue generation)
  | .deleteGcPin id => .delete .pins (encodeGcPinKey id)
  | .job jobId record => .put .jobs (encodeJobKey jobId) (encodeOpaqueValue record)

def apply (batch : List Operation) : Except CatalogError RocksDbCatalog := do
  let state ← c.readObjectLocationRebuildState
  .require (state ≠ .inProgress) .objectLocationRebuildInProgress
  .require (batch.any InMemoryCatalog.writesRebuildMarker = false)
    (.unsupportedOperation "direct object-location rebuild metadata mutation")
  c.checkAliases ∅ batch
  .ok ⟨c.db.write (batch.map writeOf)⟩

def clearObjectLocationsAndMarkRebuild : RocksDbCatalog :=
  ⟨c.db.write [.deleteRange .objectLocations [catalogVersion] [catalogVersion + 1],
    .put .metas (encodeMetaKey objectLocationRebuildMetaKey)
      (encodeOpaqueValue [objectLocationRebuildInProgressMarker])]⟩

def beginObjectLocationRebuild : Except CatalogError RocksDbCatalog := do
  let state ← c.readObjectLocationRebuildState
  .require (state ≠ .inProgress) .objectLocationRebuildInProgress
  .ok c.clearObjectLocationsAndMarkRebuild

def restartObjectLocationRebuild : Except CatalogError RocksDbCatalog := do
  let state ← c.readObjectLocationRebuildState
  .require (state = .inProgress) .objectLocationRebuildNotInProgress
  .ok c.clearObjectLocationsAndMarkRebuild

/-- The loop that refuses a content ID of this batch or of an earlier one. -/
def checkRebuilt (c : RocksDbCatalog) :
    List ContentId → List ObjectLocationEntry → Except CatalogError Unit
  | _, [] => .ok ()
  | seen, entry :: entries => do
    .require (entry.contentId ∉ seen ∧
        c.db.get .objectLocations (encodeObjectLocationKey entry.contentId) = none)
      (.duplicateRebuiltObjectLocation entry.contentId)
    c.checkRebuilt (entry.contentId :: seen) entries

def appendRebuiltObjectLocations (entries : List ObjectLocationEntry) :
    Except CatalogError RocksDbCatalog := do
  let state ← c.readObjectLocationRebuildState
  .require (state = .inProgress) .objectLocationRebuildNotInProgress
  c.checkRebuilt [] entries
  .ok ⟨c.db.write (entries.map fun entry => .put .objectLocations
    (encodeObjectLocationKey entry.contentId) (encodeObjectLocationValue entry.location))⟩

def finishObjectLocationRebuild : Except CatalogError RocksDbCatalog := do
  let state ← c.readObjectLocationRebuildState
  .require (state = .inProgress) .objectLocationRebuildNotInProgress
  .ok ⟨c.db.write [.delete .metas (encodeMetaKey objectLocationRebuildMetaKey)]⟩

def rebuildStep : InMemoryCatalog.RebuildStep → Except CatalogError RocksDbCatalog
  | .beginRebuild => c.beginObjectLocationRebuild
  | .restartRebuild => c.restartObjectLocationRebuild
  | .append entries => c.appendRebuiltObjectLocations entries
  | .finish => c.finishObjectLocationRebuild

/-- One record of a family, if it is there and can be decoded. -/
def lookupRecord {α : Type} (family : ColumnFamily) (key : Str)
    (decode : Str → Except CatalogError α) : Option α :=
  (c.db.get family key).bind fun value => (decode value).toOption

def objectLocation (id : ContentId) : Option ObjectLocation :=
  match c.readObjectLocationRebuildState with
  | .ok .idle =>
    c.lookupRecord .objectLocations (encodeObjectLocationKey id) decodeObjectLocationValue
  | _ => none

def oidAlias (repo : RepoId) (oid : GitOid) : Option ContentId :=
  c.lookupRecord .oidAliases (encodeOidAliasKey repo oid) decodeContentIdValue

def repository (id : RepoId) : Option Str :=
  c.lookupRecord .repositories (encodeRepositoryKey id) decodeOpaqueValue

def repositorySnapshot (repository : RepoId) (snapshot : SnapshotId) : Option SnapshotVisibility :=
  c.lookupRecord .repoSnapshots (encodeRepositorySnapshotKey repository snapshot)
    decodeSnapshotVisibilityValue

def chunk (generation : UInt32) (chunkId : UInt64) : Option ChunkMetadata :=
  c.lookupRecord .chunks (encodeChunkKey generation chunkId) decodeChunkValue

/-- The rebuild marker is never shown. -/
def metaValue (key : Str) : Option Str :=
  if key = objectLocationRebuildMetaKey then none
  else c.lookupRecord .metas (encodeMetaKey key) decodeOpaqueValue

def currentGeneration : Option UInt32 :=
  match c.metaValue currentGenerationMetaKey with
  | some value => if value.length = 4 then some (toU32 value) else none
  | none => none

def workspace (id : WorkspaceId) : Option Str :=
  c.lookupRecord .workspaces (encodeWorkspaceKey id) decodeOpaqueValue

def workspaceName (name : Str) : Option WorkspaceId :=
  c.lookupRecord .workspaceNames (encodeWorkspaceNameKey name) decodeWorkspaceIdValue

def workspacePin (id : WorkspaceId) : Option UInt32 :=
  c.lookupRecord .pins (encodeWorkspacePinKey id) decodeWorkspacePinValue

def job (jobId : Str) : Option Str :=
  c.lookupRecord .jobs (encodeJobKey jobId) decodeOpaqueValue

def visitObjectLocations : Except CatalogError (List ObjectLocationEntry) := do
  let state ← c.readObjectLocationRebuildState
  .require (state ≠ .inProgress) .objectLocationRebuildInProgress
  (c.db.iterator .objectLocations).mapM fun e => do
    let id ← decodeObjectLocationKey e.1
    let location ← decodeObjectLocationValue e.2
    .ok ⟨id, location⟩

def visitOidAliases : Except CatalogError (List OidAliasEntry) :=
  (c.db.iterator .oidAliases).mapM fun e => do
    let (repository, oid) ← decodeOidAliasKey e.1
    let id ← decodeContentIdValue e.2
    .ok ⟨repository, oid, id⟩

def visitChunks : Except CatalogError (List ChunkEntry) := do
  let state ← c.readObjectLocationRebuildState
  .require (state ≠ .inProgress) .objectLocationRebuildInProgress
  (c.db.iterator .chunks).mapM fun e => do
    let (generation, chunkId) ← decodeChunkKey e.1
    let metadata ← decodeChunkValue e.2
    .ok ⟨generation, chunkId, metadata⟩

def repositorySnapshots : Except CatalogError (List RepositorySnapshot) := do
  let snapshots ← (c.db.iterator .repoSnapshots).mapM fun e => do
    let (repository, snapshot) ← decodeRepositorySnapshotKey e.1
    let visibility ← decodeSnapshotVisibilityValue e.2
    .ok (⟨repository, snapshot, visibility⟩ : RepositorySnapshot)
  .ok (snapshots.insertionSort fun a b => a.sortKey ≤ b.sortKey)

/-- The loop over the pins that decodes the keys of one length and skips those of another. -/
def collectPins {α : Type} (length skipped : ℕ) (decode : Str → Str → Except CatalogError α) :
    List (Str × Str) → Except CatalogError (List α)
  | [] => .ok []
  | (key, value) :: entries =>
    if key.length = length then do
      let pin ← decode key value
      let pins ← collectPins length skipped decode entries
      .ok (pin :: pins)
    else do
      .require (key.length = skipped) .invalidEncoding
      collectPins length skipped decode entries

def decodeWorkspacePin (key value : Str) : Except CatalogError (WorkspaceId × UInt32) := do
  let id ← decodeWorkspacePinKey key
  let generation ← decodeWorkspacePinValue value
  .ok (id, generation)

def decodeGcPin (key value : Str) : Except CatalogError GcPin := do
  let id ← decodeGcPinKey key
  let generation ← decodeGcPinValue value
  .ok ⟨id, generation⟩

def workspacePins : Except CatalogError (List (WorkspaceId × UInt32)) := do
  let pins ← collectPins 17 18 decodeWorkspacePin (c.db.iterator .pins)
  .ok (pins.insertionSort fun a b => pinSortKey a.1.bytes a.2 ≤ pinSortKey b.1.bytes b.2)

def gcPins : Except CatalogError (List GcPin) := do
  let pins ← collectPins 18 17 decodeGcPin (c.db.iterator .pins)
  .ok (pins.insertionSort fun a b =>
    pinSortKey a.id.bytes a.generation ≤ pinSortKey b.id.bytes b.generation)

def gcRoots : Except CatalogError (List GcRoot) := do
  let snapshots ← c.repositorySnapshots
  let workspacePins ← c.workspacePins
  let pins ← c.gcPins
  let roots := (snapshots.filter (·.visibility = .ready)).map
      (fun s => GcRoot.repositorySnapshot s.repository s.snapshot) ++
    workspacePins.map (fun p => .workspacePin p.1 p.2) ++ pins.map .explicitPin
  .ok (roots.insertionSort fun a b => a.sortKey ≤ b.sortKey)

end RocksDbCatalog

namespace InMemoryCatalog
def repository (c : InMemoryCatalog) (id : RepoId) : Option Str := c.repositories.lookup id

def metaValue (c : InMemoryCatalog) (key : Str) : Option Str := c.metas.lookup key

def job (c : InMemoryCatalog) (jobId : Str) : Option Str := c.jobs.lookup jobId
end InMemoryCatalog

inductive CatalogCall where
  | apply (batch : List Operation)
  | rebuild (step : InMemoryCatalog.RebuildStep)

def RocksDbCatalog.call (c : RocksDbCatalog) : CatalogCall → Except CatalogError RocksDbCatalog
  | .apply batch => c.apply batch
  | .rebuild step => c.rebuildStep step

def InMemoryCatalog.call (c : InMemoryCatalog) : CatalogCall → Except CatalogError InMemoryCatalog
  | .apply batch => c.apply batch
  | .rebuild step => c.rebuildStep step
end ReflinkForest
