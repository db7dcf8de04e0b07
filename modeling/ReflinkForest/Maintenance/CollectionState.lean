import ReflinkForest.Import.LocalRefs
import ReflinkForest.Maintenance.Compaction
import ReflinkForest.Maintenance.MarkCompleteness

/-! A cold store that imports, deletes and collects, one whole step at a time, with the Git
repository behind every published snapshot. -/
namespace ReflinkForest
open Bytes Worklist

structure ColdInstance where
  catalog : InMemoryCatalog
  chunks : ChunkStore
  manifests : ManifestStore
  manager : GenerationManager
  /-- The repository each snapshot was imported from; kept for the specification only. -/
  sources : FinMap (RepoId × SnapshotId) LocalRepository

def manifestSource (manifests : ManifestStore) : ManifestSource := fun repository snapshot =>
  .mapErr (fun _ => "snapshot manifest cannot be read")
    (readSnapshotManifest manifests repository snapshot)

/-- An object that an import of the repository brings in. -/
def LocalRepository.Reachable (source : LocalRepository) (object : GitObject) : Prop :=
  Reaches source.database.expand source.snapshotLocalRefs.roots object.oid ∧
    source.database.readObject object.oid = .ok object

def GitObject.contentId (P : Primitives) (object : GitObject) : ContentId :=
  ContentId.forObject P object.kind object.data

/-- Objects that are told apart by their digests. -/
abbrev ObjectSet := ObjectKind → Str → Prop

variable (P : Primitives) (U : ObjectSet)

/-- The digests tell the objects of `U` apart. -/
structure HashesApart : Prop where
  content : ∀ {kind data kind' data'}, U kind data → U kind' data' →
    ContentId.forObject P kind data = ContentId.forObject P kind' data' →
    kind = kind' ∧ data = data'
  native : ∀ {algorithm kind data kind' data'}, U kind data → U kind' data' →
    GitOid.forObject P algorithm kind data = GitOid.forObject P algorithm kind' data' →
    kind = kind' ∧ data = data'

/-- No tree of `U` has references under both hash algorithms. -/
def FormatsApart : Prop :=
  ∀ data oid oid' refs refs', U .tree data → oid.algorithm ≠ oid'.algorithm →
    parseTreeReferences ⟨oid, .tree, data⟩ = .ok refs →
    parseTreeReferences ⟨oid', .tree, data⟩ = .ok refs' → refs' = []

theorem FormatsApart.refs_eq_nil {U : ObjectSet} (formats : FormatsApart U)
    {kind : ObjectKind} {data : Str} {oid oid' : GitOid} {refs refs' : List GitOid}
    (known : U kind data) (differ : oid.algorithm ≠ oid'.algorithm)
    (h : referencedOids ⟨oid, kind, data⟩ = .ok refs)
    (h' : referencedOids ⟨oid', kind, data⟩ = .ok refs') : refs' = [] := by
  by_cases tree : kind = .tree
  · subst tree
    exact formats data oid oid' refs refs' known differ h h'
  · exact (referencedOids_algorithm tree h h').resolve_left differ

/-- A Git repository whose reachable objects are well-formed objects of `U`, all present. -/
structure Importable (codec : Codec) (source : LocalRepository) : Prop where
  member : ∀ object, source.Reachable object → U object.kind object.data
  hashed : ∀ object, source.Reachable object →
    GitOid.forObject P source.database.algorithm object.kind object.data = object.oid
  closed : ∀ object, source.Reachable object →
    ∃ refs, referencedOids object = .ok refs ∧ ∀ next ∈ refs, next ∈ source.database.objects
  roots : ∀ root ∈ source.snapshotLocalRefs.roots, root ∈ source.database.objects
  small : ∀ object, source.Reachable object →
    (object.importRecord P codec).encoding.length ≤ maxRecoveryRecordBytes

section Reachability
variable {P : Primitives} {U : ObjectSet} {codec : Codec} {source : LocalRepository}
  {object : GitObject}

theorem Importable.oid_eq (importable : Importable P U codec source)
    (reachable : source.Reachable object) :
    GitOid.forObject P object.oid.algorithm object.kind object.data = object.oid := by
  have hashed := importable.hashed _ reachable
  rw [← hashed, GitOid.forObject_algorithm]

/-- The objects behind the references of a reachable object are reachable. -/
theorem Importable.children (importable : Importable P U codec source)
    (reachable : source.Reachable object) :
    ∃ refs, referencedOids object = .ok refs ∧
      ∀ oid ∈ refs, ∃ child, source.Reachable child ∧ child.oid = oid := by
  obtain ⟨refs, references, stored⟩ := importable.closed _ reachable
  refine ⟨refs, references, ?_⟩
  intro oid mem
  obtain ⟨child, read⟩ := ObjectDatabase.readObject_of_mem (stored oid mem)
  have same := (ObjectDatabase.readObject_eq_ok_iff.mp read).1
  have reach : Reaches source.database.expand source.snapshotLocalRefs.roots oid :=
    .child reachable.1 (ObjectDatabase.expand_eq_ok_iff.mpr ⟨reachable.2, references⟩) mem
  exact ⟨child, ⟨same ▸ reach, same ▸ read⟩, same⟩
end Reachability

/-- `location` holds a record of an object of `U` with content ID `id`. -/
def Holds (chunks : ChunkStore) (id : ContentId) (location : ObjectLocation) : Prop :=
  ∃ record data, Stored P chunks location record ∧ record.contentId = id ∧
    decodeObjectPayload P record = .ok data ∧ U record.kind data

/-- The object behind an alias, with references that have aliases of their own. -/
def AliasedObject (catalog : InMemoryCatalog) (repository : RepoId) (oid : GitOid) (id : ContentId)
    : Prop :=
  ∃ kind data refs, U kind data ∧ GitOid.forObject P oid.algorithm kind data = oid ∧
    ContentId.forObject P kind data = id ∧ referencedOids ⟨oid, kind, data⟩ = .ok refs ∧
    ∀ next ∈ refs, ∃ id', catalog.oidAlias repository next = some id'

/-- A ready snapshot whose objects are all in the current generation. -/
structure ReadySnapshot (s : ColdInstance) (generation : UInt32) (repository : RepoId)
    (snapshot : SnapshotId) (source : LocalRepository) : Prop where
  importable : ∃ codec, Importable P U codec source
  manifest : ∃ manifest, readSnapshotManifest s.manifests repository snapshot = .ok manifest ∧
    manifest.repository = repository ∧ manifest.snapshotId = snapshot ∧
    manifest.refs.map (·.target) = source.snapshotLocalRefs.roots
  aliased : ∀ object, source.Reachable object →
    s.catalog.oidAlias repository object.oid = some (object.contentId P)
  located : ∀ object, source.Reachable object → ∃ location,
    s.catalog.objectLocation (object.contentId P) = some location ∧ location.generation = generation

/-- What holds between two steps. -/
structure ColdInvariant (s : ColdInstance) (generation : UInt32) : Prop where
  current : s.catalog.currentGeneration = some generation
  writable : s.catalog.objectLocationRebuildInProgress = false
  tidy : ChunkWriter.Tidy s.chunks
  live : ∀ key file, s.chunks.lookup key = some file → key.1 = generation
  bounded : ∀ id location, s.catalog.objectLocation id = some location →
    location.generation ≤ generation
  holds : ∀ id location, s.catalog.objectLocation id = some location →
    location.generation = generation → Holds P U s.chunks id location
  aliases : ∀ repository oid id, s.catalog.oidAlias repository oid = some id →
    AliasedObject P U s.catalog repository oid id
  ready : ∀ repository snapshot, s.catalog.repositorySnapshot repository snapshot = some .ready →
    ∃ source, s.sources.lookup (repository, snapshot) = some source ∧
      ReadySnapshot P U s generation repository snapshot source

/-- A store with a current generation and nothing in it. -/
structure ColdInstance.Initial (s : ColdInstance) (generation : UInt32) : Prop where
  current : s.catalog.currentGeneration = some generation
  writable : s.catalog.objectLocationRebuildInProgress = false
  objects : s.catalog.objects = ∅
  aliases : s.catalog.aliases = ∅
  snapshots : s.catalog.repositorySnapshots = ∅
  chunks : s.chunks = ∅

theorem ColdInstance.Initial.invariant {P : Primitives} {U : ObjectSet}
    {s : ColdInstance} {generation : UInt32} (initial : s.Initial generation) :
    ColdInvariant P U s generation := by
  have none : ∀ id, s.catalog.objectLocation id = none := by
    intro id
    rw [InMemoryCatalog.objectLocation_eq initial.writable, initial.objects]
    rfl
  refine ⟨initial.current, initial.writable, ?_, ?_, ?_, ?_, ?_, ?_⟩
  · intro key file found
    simp [initial.chunks] at found
  · intro key file found
    simp [initial.chunks] at found
  · intro id location found
    simp [none] at found
  · intro id location found
    simp [none] at found
  · intro r oid id found
    simp [InMemoryCatalog.oidAlias, initial.aliases] at found
  · intro r snapshot shown
    simp [InMemoryCatalog.repositorySnapshot, initial.snapshots] at shown

def emptyInstance : ColdInstance :=
  ⟨{ metas := AList.singleton currentGenerationMetaKey (u32 1) }, ∅, ∅, { active := some 1 }, ∅⟩

theorem emptyInstance_initial : emptyInstance.Initial 1 := by
  refine ⟨by decide +kernel, rfl, rfl, rfl, rfl, rfl⟩

/-- A whole import: the objects go to a chunk of the current generation, then the snapshot is
published as ready. -/
inductive ImportStep (s : ColdInstance) (source : LocalRepository) : ColdInstance → Prop
  | mk {repository : RepoId} {snapshot : SnapshotId} {codec : Codec} {w w' : ChunkWriter}
      {generation : UInt32} {indexed published : InMemoryCatalog} {result : ImportResult}
      {importedUnixSecs : UInt64} {toolVersion : Str} {manifest : SnapshotManifest}
      {manifests : ManifestStore} {status : SnapshotPublicationStatus}
      (importable : Importable P U codec source)
      (current : s.catalog.currentGeneration = some generation)
      (opens : ChunkWriter.OpensChunk P s.chunks w) (inCurrent : w.header.generation = generation)
      (imports : importLocalRefsWithCodec P source w s.catalog repository generation
        w.header.chunkId codec = (w', indexed, .ok result))
      (describes : SnapshotManifest.fromImport repository snapshot result importedUnixSecs
        toolVersion = .ok manifest)
      (publishes : publishSnapshotManifest indexed s.manifests manifest =
        ⟨published, manifests, .ok status⟩) :
      ImportStep s source
        ⟨published, s.chunks.insert w'.key w'.file, manifests, s.manager,
          s.sources.insert (repository, snapshot) source⟩

/-- Deleting one snapshot, or a repository with all its snapshots. -/
inductive DeleteStep (s : ColdInstance) : ColdInstance → Prop
  | snapshot {repository : RepoId} {snapshot : SnapshotId} {catalog : InMemoryCatalog}
      (h : s.catalog.apply [.deleteRepositorySnapshot repository snapshot] = .ok catalog) :
      DeleteStep s { s with catalog := catalog }
  | repository {repository : RepoId} {catalog : InMemoryCatalog}
      (h : s.catalog.deleteRepository repository = .ok catalog) :
      DeleteStep s { s with catalog := catalog }

/-- A whole collection: mark, compact into a new chunk of a larger generation, retire the old
generation. -/
inductive CollectStep (s : ColdInstance) : ColdInstance → Prop
  | mk {retained : List RetainedObjectRef} {limits : MarkLimits}
      {live : LiveObjects} {header : ChunkHeader} {source target : UInt32}
      {w : ChunkWriter} {catalog : InMemoryCatalog} {manager manager' : GenerationManager}
      {chunks : ChunkStore} {outcome : CompactionOutcome}
      (marks : completedMarkSet P s.catalog (manifestSource s.manifests) (chunkReader P s.chunks)
        retained limits = .ok live)
      (inTarget : header.generation = target)
      (compacts : compactCompletedMarkSet P (chunkDestination P) (chunkReader P s.chunks) target
        s.catalog s.manager source live (.create header) = ⟨w, catalog, manager, .ok outcome⟩)
      (retires : retireCompactedGeneration catalog manager (s.chunks.insert w.key w.file) source
        target = (manager', chunks, .ok ())) :
      CollectStep s ⟨catalog, chunks, s.manifests, manager', s.sources⟩

/-- No object of the repository has a location outside the current generation. -/
def StaleFree (s : ColdInstance) (source : LocalRepository) : Prop :=
  ∀ object, source.Reachable object → ∀ location,
    s.catalog.objectLocation (object.contentId P) = some location →
    s.catalog.currentGeneration = some location.generation
end ReflinkForest
