import ReflinkForest.Maintenance.CollectionState

/-! Runs of imports, deletions and collections. Deduplication can bind a new alias to a location in
a retired generation. -/
namespace ReflinkForest
open Bytes Worklist Except List InMemoryCatalog FinMap

variable {P : Primitives} {U : ObjectSet} {s s' : ColdInstance}
  {generation : UInt32} {source : LocalRepository}

section Import
/-- The objects of an import step are indexed, the snapshot is not published yet. -/
structure Indexing (P : Primitives) (U : ObjectSet) (s : ColdInstance)
    (source : LocalRepository) (generation : UInt32) (repository : RepoId) (codec : Codec)
    (w w' : ChunkWriter) (indexed : InMemoryCatalog) (objects : List GitObject) : Prop where
  importable : Importable P U codec source
  inCurrent : w.header.generation = generation
  sameFile : ∀ file, s.chunks.lookup w.key = some file → file = w.file
  mem_iff : ∀ object, object ∈ objects ↔ source.Reachable object
  imported : Imported P w s.catalog repository (objects.map (·.importRecord P codec)) w' indexed

variable {repository : RepoId} {codec : Codec} {w w' : ChunkWriter} {indexed : InMemoryCatalog}
  {objects : List GitObject}

section
variable (x : Indexing P U s source generation repository codec w w' indexed objects)
include x

theorem Indexing.mem_records {record : ObjectRecord}
    (mem : record ∈ objects.map (·.importRecord P codec)) :
    ∃ object, source.Reachable object ∧ record = object.importRecord P codec := by
  obtain ⟨object, inside, rfl⟩ := mem_map.mp mem
  exact ⟨object, (x.mem_iff object).mp inside, rfl⟩

theorem Indexing.aliased {object : GitObject} (reachable : source.Reachable object) :
    indexed.oidAlias repository object.oid = some (object.contentId P) :=
  x.imported.bound (object.importRecord P codec)
    (mem_map_of_mem ((x.mem_iff object).mpr reachable))

section
variable (inv : ColdInvariant P U s generation)
include inv

/-- Old records stay in their chunks, new ones are in the chunk of the writer. -/
theorem Indexing.holds (inverts : P.ZstdInverts) {id : ContentId}
    {location : ObjectLocation} (found : indexed.objectLocation id = some location)
    (current : location.generation = generation) :
    Holds P U (s.chunks.insert w'.key w'.file) id location := by
  have key : w'.key = w.key := by rw [ChunkWriter.key, x.imported.header_eq, ChunkWriter.key]
  rcases x.imported.newLocation id location found with old | ⟨record, member, rfl, verified, offset,
    rfl, holds⟩
  · obtain ⟨record, data, stored, same, decoded, known⟩ := inv.holds id location old current
    refine ⟨record, data, stored.mono ?_, same, decoded, known⟩
    intro file before
    rw [lookup_insert_eq]
    split
    case isTrue here =>
      rw [here, key] at before
      exact ⟨w'.file, rfl, x.sameFile file before ▸ x.imported.grows⟩
    case isFalse => exact ⟨file, before, prefix_refl _⟩
  · obtain ⟨object, reachable, rfl⟩ := x.mem_records member
    refine ⟨object.importRecord P codec, object.data, ⟨⟨w'.file, w.header, offset, ?_, holds, rfl⟩,
      x.importable.small _ reachable, verified⟩, rfl,
      decodeObjectPayload_of_verified inverts verified, x.importable.member _ reachable⟩
    rw [key]
    exact AList.lookup_insert _

theorem Indexing.aliases {r : RepoId} {oid : GitOid} {id : ContentId}
    (found : indexed.oidAlias r oid = some id) : AliasedObject P U indexed r oid id := by
  rcases x.imported.newAlias r oid id found with old | ⟨rfl, record, member, rfl, rfl⟩
  · obtain ⟨kind, data, refs, known, native, content, references, bound⟩ :=
      inv.aliases r oid id old
    refine ⟨kind, data, refs, known, native, content, references, ?_⟩
    intro next inside
    obtain ⟨id', before⟩ := bound next inside
    exact ⟨id', x.imported.keepsAlias _ _ _ before⟩
  · obtain ⟨object, reachable, rfl⟩ := x.mem_records member
    obtain ⟨refs, references, children⟩ := x.importable.children reachable
    refine ⟨object.kind, object.data, refs, x.importable.member _ reachable,
      x.importable.oid_eq reachable, rfl, references, ?_⟩
    intro next inside
    obtain ⟨child, reach, rfl⟩ := children next inside
    exact ⟨child.contentId P, x.aliased reach⟩

/-- Without stale locations everything that was imported is in the current generation. -/
theorem Indexing.located (fresh : StaleFree P s source)
    {object : GitObject} (reachable : source.Reachable object) :
    ∃ location, indexed.objectLocation (object.contentId P) = some location ∧
      location.generation = generation := by
  obtain ⟨location, found⟩ := x.imported.located (object.importRecord P codec)
    (mem_map_of_mem ((x.mem_iff object).mpr reachable))
  refine ⟨location, found, ?_⟩
  rcases x.imported.newLocation _ _ found with old | ⟨_, _, _, _, offset, rfl, _⟩
  · have same := fresh object reachable location old
    rw [inv.current, Option.some.injEq] at same
    exact same.symm
  · exact x.inCurrent
end
end

theorem Indexing.ofImport {result : ImportResult} (inv : ColdInvariant P U s generation)
    (importable : Importable P U codec source) (opens : ChunkWriter.OpensChunk P s.chunks w)
    (inCurrent : w.header.generation = generation)
    (imports : importLocalRefsWithCodec P source w s.catalog repository generation
      w.header.chunkId codec = (w', indexed, .ok result)) :
    result.snapshot = source.snapshotLocalRefs ∧ ∃ objects summary,
      Indexing P U s source generation repository codec w w' indexed objects ∧
      importObjects P repository generation w.header.chunkId codec w s.catalog {} objects =
        (w', indexed, .ok summary) := by
  obtain ⟨clean, sameFile⟩ := opens.clean inv.tidy
  obtain ⟨sameSnapshot, objects, summary, walked, imported⟩ :=
    importLocalRefsWithCodec_eq_ok imports
  obtain ⟨_, mem_iff⟩ := ObjectDatabase.reachableObjects_eq_ok importable.roots walked
  have small : ∀ object ∈ objects,
      (object.importRecord P codec).encoding.length ≤ maxRecoveryRecordBytes := by
    intro object mem
    exact importable.small _ ((mem_iff object).mp mem)
  exact ⟨sameSnapshot, objects, summary, ⟨importable, inCurrent, sameFile, mem_iff,
    importObjects_eq_ok clean inv.writable small imported⟩, imported⟩

/-- How the state after an import step comes from the indexed one. -/
structure Publishing (s : ColdInstance) (source : LocalRepository) (repository : RepoId)
    (snapshot : SnapshotId) (w' : ChunkWriter) (indexed : InMemoryCatalog)
    (manifest : SnapshotManifest) (s' : ColdInstance) : Prop where
  shows : Shows indexed repository snapshot .ready s'.catalog
  chunks : s'.chunks = s.chunks.insert w'.key w'.file
  manifests : s'.manifests = s.manifests.insert (repository, snapshot) manifest
  sources : s'.sources = s.sources.insert (repository, snapshot) source
  valid : manifest.validate = .ok ()
  identity : manifest.repository = repository ∧ manifest.snapshotId = snapshot
  refs : manifest.refs.map (·.target) = source.snapshotLocalRefs.roots

theorem ImportStep.inversion (inv : ColdInvariant P U s generation)
    (step : ImportStep P U s source s') :
    ∃ repository snapshot codec w w' indexed objects manifest summary,
      Indexing P U s source generation repository codec w w' indexed objects ∧
      Publishing s source repository snapshot w' indexed manifest s' ∧
      ChunkWriter.OpensChunk P s.chunks w ∧
      importObjects P repository generation w.header.chunkId codec w s.catalog {} objects =
        (w', indexed, .ok summary) := by
  obtain @⟨repository, snapshot, codec, w, w', generation', indexed, published, result, _, _,
    manifest, manifests, status, importable, current, opens, inCurrent, imports, describes,
    publishes⟩ := step
  obtain rfl : generation' = generation := by simpa [inv.current] using current.symm
  obtain ⟨sameSnapshot, objects, summary, indexing, ran⟩ :=
    Indexing.ofImport inv importable opens inCurrent imports
  obtain ⟨valid, rfl, shows⟩ := publishSnapshotManifest_eq_ok publishes
  simp only [SnapshotManifest.fromImport, bind_eq_ok_iff, ok.injEq] at describes
  obtain ⟨_, _, rfl⟩ := describes
  refine ⟨repository, snapshot, codec, w, w', indexed, objects, _, summary, indexing,
    ⟨shows, rfl, rfl, rfl, valid, ⟨rfl, rfl⟩, ?_⟩, opens, ran⟩
  rw [SnapshotManifest.ofImport, sameSnapshot, map_map]
  rfl

section Published
variable {snapshot : SnapshotId} {manifest : SnapshotManifest}

section
variable (x : Publishing s source repository snapshot w' indexed manifest s')
include x

theorem Publishing.oidAlias
    (r : RepoId) (oid : GitOid) : s'.catalog.oidAlias r oid = indexed.oidAlias r oid := by
  rw [InMemoryCatalog.oidAlias, InMemoryCatalog.oidAlias, x.shows.aliases]

theorem Publishing.objectLocation (id : ContentId) :
    s'.catalog.objectLocation id = indexed.objectLocation id := by
  rw [InMemoryCatalog.objectLocation, InMemoryCatalog.objectLocation, x.shows.objects,
    x.shows.rebuild]

theorem Publishing.readSnapshotManifest :
    readSnapshotManifest s'.manifests repository snapshot = .ok manifest := by
  rw [ReflinkForest.readSnapshotManifest, x.manifests, AList.lookup_insert, ofOption_some,
    ok_bind, x.valid]
  rfl

theorem Publishing.readSnapshotManifest_ne {r : RepoId}
    {other : SnapshotId} (different : (r, other) ≠ (repository, snapshot)) :
    ReflinkForest.readSnapshotManifest s'.manifests r other =
      ReflinkForest.readSnapshotManifest s.manifests r other := by
  rw [ReflinkForest.readSnapshotManifest, x.manifests, lookup_insert_eq, if_neg different]
  rfl
end
end Published

theorem ColdInvariant.import_step (inverts : P.ZstdInverts) (inv : ColdInvariant P U s generation)
    (fresh : StaleFree P s source) (step : ImportStep P U s source s') :
    ColdInvariant P U s' generation := by
  obtain ⟨repository, snapshot, codec, w, w', indexed, objects, manifest, _, indexing, publishing,
    _⟩ := step.inversion inv
  have imported := indexing.imported
  have key : w'.key = w.key := by rw [ChunkWriter.key, imported.header_eq, ChunkWriter.key]
  refine ⟨?_, ?_, ?_, ?_, ?_, ?_, ?_, ?_⟩
  · rw [← inv.current, currentGeneration, publishing.shows.metas,
      imported.only.metas]
    rfl
  · rw [publishing.shows.rebuild, imported.only.writable]
  · intro k file found
    rw [publishing.chunks, lookup_insert_eq] at found
    split at found
    case isTrue here => exact here ▸ Option.some.inj found ▸ imported.clean.tidy
    case isFalse => exact inv.tidy k file found
  · intro k file found
    rw [publishing.chunks, lookup_insert_eq] at found
    split at found
    case isTrue here => rw [here, key]; exact indexing.inCurrent
    case isFalse => exact inv.live k file found
  · intro id location found
    rw [publishing.objectLocation] at found
    rcases imported.newLocation id location found with old | ⟨_, _, _, _, offset, rfl, _⟩
    · exact inv.bounded id location old
    · exact indexing.inCurrent ▸ UInt32.le_refl _
  · intro id location found current
    rw [publishing.objectLocation] at found
    rw [publishing.chunks]
    exact indexing.holds inv inverts found current
  · intro r oid id found
    rw [publishing.oidAlias] at found
    obtain ⟨kind, data, refs, known, native, content, references, bound⟩ :=
      indexing.aliases inv found
    refine ⟨kind, data, refs, known, native, content, references, ?_⟩
    intro next inside
    rw [publishing.oidAlias]
    exact bound next inside
  · intro r other ready
    rw [publishing.shows.visibility] at ready
    rw [publishing.sources, lookup_insert_eq]
    by_cases here : (r, other) = (repository, snapshot)
    · obtain ⟨rfl, rfl⟩ := Prod.mk.inj here
      refine ⟨source, if_pos rfl, ⟨⟨codec, indexing.importable⟩, ⟨manifest,
        publishing.readSnapshotManifest, publishing.identity.1, publishing.identity.2,
        publishing.refs⟩, ?_, ?_⟩⟩
      · intro object reachable
        rw [publishing.oidAlias]
        exact indexing.aliased reachable
      · intro object reachable
        rw [publishing.objectLocation]
        exact indexing.located inv fresh reachable
    · rw [if_neg here] at ready ⊢
      rw [repositorySnapshot, imported.only.snapshots] at ready
      obtain ⟨older, found, snapshotted⟩ := inv.ready r other ready
      refine ⟨older, found, ⟨snapshotted.importable, ?_, ?_, ?_⟩⟩
      · rw [publishing.readSnapshotManifest_ne here]
        exact snapshotted.manifest
      · intro object reachable
        rw [publishing.oidAlias]
        exact imported.keepsAlias _ _ _ (snapshotted.aliased object reachable)
      · intro object reachable
        obtain ⟨location, before, current⟩ := snapshotted.located object reachable
        rw [publishing.objectLocation]
        exact ⟨location, imported.keepsLocation _ _ before, current⟩
end Import

/-- Operations that only hide repositories and snapshots. -/
def Operation.Deletes : Operation → Prop
  | .deleteRepository _ => True
  | .deleteRepositorySnapshot _ _ => True
  | _ => False

/-- A deletion changes the visibility of snapshots and the repository records only. -/
structure Hides (c c' : InMemoryCatalog) : Prop where
  aliases : c'.aliases = c.aliases
  objects : c'.objects = c.objects
  metas : c'.metas = c.metas
  rebuild : c'.objectLocationRebuildInProgress = c.objectLocationRebuildInProgress
  ready : ∀ repository snapshot, c'.repositorySnapshot repository snapshot = some .ready →
    c.repositorySnapshot repository snapshot = some .ready

theorem Hides.objectLocation {c c' : InMemoryCatalog} (hides : Hides c c') (id : ContentId) :
    c'.objectLocation id = c.objectLocation id := by
  rw [InMemoryCatalog.objectLocation, InMemoryCatalog.objectLocation, hides.objects, hides.rebuild]

theorem hides_of_apply {c c' : InMemoryCatalog} {batch : List Operation}
    (deletes : ∀ op ∈ batch, op.Deletes) (h : c.apply batch = .ok c') : Hides c c' := by
  have frame : ∀ {α : Type} (query : InMemoryCatalog → α),
      (∀ op c, op.Deletes → query (c.stage op) = query c) → query c' = query c := by
    intro α query same
    exact apply_frame query h fun op mem c => same op c (deletes op mem)
  refine ⟨frame _ ?_, frame _ ?_, frame _ ?_, frame _ ?_, ?_⟩
  · intro op c d
    cases op <;> first | rfl | exact d.elim
  · intro op c d
    cases op <;> first | rfl | exact d.elim
  · intro op c d
    cases op <;> first | rfl | exact d.elim
  · intro op c d
    exact stage_rebuild c op
  · intro repository snapshot
    refine apply_reflects
      (fun c => c.repositorySnapshot repository snapshot = some .ready) h ?_
    intro op mem c shown
    have d := deletes op mem
    cases op with
    | deleteRepository id => exact shown
    | deleteRepositorySnapshot r s =>
      simp only [repositorySnapshot, stage,
        lookup_erase_eq] at shown
      split at shown
      · simp at shown
      · exact shown
    | _ => exact d.elim

theorem DeleteStep.hides (step : DeleteStep s s') :
    ∃ catalog, s' = { s with catalog := catalog } ∧ Hides s.catalog catalog := by
  cases step with
  | snapshot h =>
    refine ⟨_, rfl, hides_of_apply ?_ h⟩
    intro op mem
    rw [mem_singleton] at mem
    exact mem ▸ trivial
  | repository h =>
    refine ⟨_, rfl, hides_of_apply ?_ h⟩
    intro op mem
    rcases mem_cons.mp mem with rfl | mem
    · trivial
    · obtain ⟨_, _, rfl⟩ := mem_map.mp mem
      trivial

theorem ColdInvariant.delete_step (inv : ColdInvariant P U s generation) (step : DeleteStep s s') :
    ColdInvariant P U s' generation := by
  obtain ⟨catalog, rfl, hides⟩ := step.hides
  have aliases : ∀ r oid, catalog.oidAlias r oid = s.catalog.oidAlias r oid := by
    intro r oid
    rw [InMemoryCatalog.oidAlias, InMemoryCatalog.oidAlias, hides.aliases]
  have locations := hides.objectLocation
  refine ⟨?_, hides.rebuild.trans inv.writable, inv.tidy, inv.live, ?_, ?_, ?_, ?_⟩
  · rw [← inv.current, currentGeneration, hides.metas]
    rfl
  · intro id location found
    exact inv.bounded id location (locations id ▸ found)
  · intro id location found
    exact inv.holds id location (locations id ▸ found)
  · intro r oid id found
    simp only [AliasedObject, aliases] at found ⊢
    exact inv.aliases r oid id found
  · intro r snapshot shown
    obtain ⟨source, found, snapshotted⟩ := inv.ready r snapshot (hides.ready r snapshot shown)
    refine ⟨source, found, ⟨snapshotted.importable, snapshotted.manifest, ?_, ?_⟩⟩
    · intro object reachable
      rw [aliases]
      exact snapshotted.aliased object reachable
    · intro object reachable
      rw [locations]
      exact snapshotted.located object reachable

section Collect
variable {repository : RepoId} {snapshot : SnapshotId} {object : GitObject}
  {retained : List RetainedObjectRef} {limits : MarkLimits}

section
variable (inv : ColdInvariant P U s generation)
include inv

/-- A location that can be read belongs to the current generation. -/
theorem ColdInvariant.holds_of_read {id : ContentId} {location : ObjectLocation}
    {record : ObjectRecord} (found : s.catalog.objectLocation id = some location)
    (read : chunkReader P s.chunks id location = .ok record) :
    Stored P s.chunks location record ∧ record.contentId = id ∧
      ∃ data, decodeObjectPayload P record = .ok data ∧ U record.kind data := by
  rw [chunkReader, mapErr_eq_ok] at read
  have opened := read
  rw [ChunkStore.readRecord, bind_eq_ok_iff] at opened
  obtain ⟨file, opened, _⟩ := opened
  have current := inv.live _ _ (ofOption_eq_ok.mp opened)
  obtain ⟨record', data, stored, same, decoded, known⟩ := inv.holds id location found current
  rw [stored.readRecord, ok.injEq] at read
  subst read
  exact ⟨stored, same, data, decoded, known⟩

/-- Every object that a reference decodes to is an object of `U` under its alias. -/
theorem ColdInvariant.lookup {reference : RetainedObjectRef}
    (found : lookupObject P s.catalog (chunkReader P s.chunks) reference = some object) :
    object.oid = reference.oid ∧ U object.kind object.data ∧
      s.catalog.oidAlias reference.repository reference.oid = some (object.contentId P) := by
  simp only [lookupObject, Option.bind_eq_bind, Option.bind_eq_some_iff, Option.some.injEq,
    toOption_eq_some] at found
  obtain ⟨id, aliased, location, located, record, read, raw, decoded, rfl⟩ := found
  obtain ⟨_, same, data, decoded', known⟩ := inv.holds_of_read located read
  rw [decoded, ok.injEq] at decoded'
  subst decoded'
  refine ⟨rfl, known, ?_⟩
  rw [aliased, ← same, ← (decodeObjectPayload_eq_ok_iff.mp decoded).2.2]
  rfl

omit inv in
/-- References with one object ID and one alias decode to one object. -/
theorem lookupObject_congr {catalog : InMemoryCatalog} {reader : CompactionReader}
    {first second : RetainedObjectRef} (sameOid : first.oid = second.oid)
    (sameAlias : catalog.oidAlias first.repository first.oid =
      catalog.oidAlias second.repository second.oid) :
    lookupObject P catalog reader first = lookupObject P catalog reader second := by
  rw [lookupObject, sameAlias, sameOid, lookupObject]

variable (apart : HashesApart P U)
include apart

theorem ColdInvariant.alias_unique {r r' : RepoId} {oid : GitOid} {id id' : ContentId}
    (found : s.catalog.oidAlias r oid = some id) (found' : s.catalog.oidAlias r' oid = some id') :
    id = id' := by
  obtain ⟨kind, data, _, known, native, content, _⟩ := inv.aliases r oid id found
  obtain ⟨kind', data', _, known', native', content', _⟩ := inv.aliases r' oid id' found'
  obtain ⟨rfl, rfl⟩ := apart.native known known' (native.trans native'.symm)
  exact content.symm.trans content'

theorem ColdInvariant.agrees (formats : FormatsApart U) :
    SharedContentAgrees P s.catalog (manifestSource s.manifests) (chunkReader P s.chunks)
      retained := by
  intro first second id _ _ aliased aliased' object oids found parsed oid mem
  obtain ⟨named, known, content⟩ := inv.lookup found
  rw [aliased', Option.some.injEq] at content
  obtain ⟨kind, data, refs, known₁, native₁, content₁, references₁, bound₁⟩ :=
    inv.aliases _ _ _ aliased
  obtain ⟨rfl, rfl⟩ := apart.content known known₁ (content.symm.trans content₁.symm)
  obtain ⟨kind₂, data₂, refs₂, known₂, native₂, content₂, references₂, bound₂⟩ :=
    inv.aliases _ _ _ aliased'
  obtain ⟨rfl, rfl⟩ := apart.content known known₂ (content.symm.trans content₂.symm)
  have whole : (⟨second.oid, object.kind, object.data⟩ : GitObject) = object := by rw [← named]
  rw [whole, parsed, ok.injEq] at references₂
  subst references₂
  by_cases algorithm : first.oid.algorithm = second.oid.algorithm
  · have sameOid : first.oid = second.oid := by rw [← native₁, ← native₂, algorithm]
    refine ⟨⟨object, oids, ?_, parsed, mem⟩, ?_⟩
    · rw [lookupObject_congr sameOid (aliased.trans aliased'.symm), found]
    · rw [sameOid, whole, parsed, ok.injEq] at references₁
      obtain ⟨idA, aliasA⟩ := bound₁ oid (references₁ ▸ mem)
      obtain ⟨idB, aliasB⟩ := bound₂ oid mem
      rw [aliasA, aliasB, inv.alias_unique apart aliasA aliasB]
  · have none : oids = [] :=
      formats.refs_eq_nil known algorithm references₁ (whole ▸ parsed)
    simp [none] at mem

/-- Every object of a ready snapshot passes the checks of the mark phase. -/
theorem ReadySnapshot.resolves
    (ready : ReadySnapshot P U s generation repository snapshot source)
    (reachable : source.Reachable object) :
    ∃ location, Resolves P s.catalog (chunkReader P s.chunks) generation ⟨repository, object.oid⟩
      (object.contentId P) location object := by
  obtain ⟨codec, importable⟩ := ready.importable
  obtain ⟨location, located, current⟩ := ready.located object reachable
  obtain ⟨record, data, stored, same, decoded, known⟩ := inv.holds _ _ located current
  have content := (decodeObjectPayload_eq_ok_iff.mp decoded).2.2
  obtain ⟨kind, rfl⟩ := apart.content known (importable.member _ reachable)
    (content.trans same)
  refine ⟨location, ready.aliased object reachable, located, current, ⟨record, ?_, same, kind,
    decoded⟩, importable.oid_eq reachable, rfl⟩
  rw [chunkReader, stored.readRecord, mapErr_ok]

theorem ReadySnapshot.markReachable
    (shown : s.catalog.repositorySnapshot repository snapshot = some .ready)
    (ready : ReadySnapshot P U s generation repository snapshot source) {oid : GitOid}
    (reach : Reaches source.database.expand source.snapshotLocalRefs.roots oid) :
    MarkReachable P s.catalog (manifestSource s.manifests) (chunkReader P s.chunks) retained
      ⟨repository, oid⟩ := by
  induction reach with
  | root mem =>
    obtain ⟨manifest, read, _, _, refs⟩ := ready.manifest
    rw [← refs] at mem
    obtain ⟨reference, inside, rfl⟩ := mem_map.mp mem
    refine .root (.inl ⟨repository, snapshot, shown, ?_⟩)
    rw [snapshotRefs, manifestSource, read, mapErr_ok]
    exact mem_map.mpr ⟨reference, inside, rfl⟩
  | @child oid next object more reach expanded mem ih =>
    obtain ⟨read, references⟩ := ObjectDatabase.expand_eq_ok_iff.mp expanded
    obtain ⟨rfl, _⟩ := ObjectDatabase.readObject_eq_ok_iff.mp read
    obtain ⟨location, resolves⟩ := ready.resolves inv apart ⟨reach, read⟩
    exact .child ih resolves.lookupObject_eq references mem
end

/-- The source generation disappears and its marked records continue in the target. -/
structure Collecting (P : Primitives) (s : ColdInstance) (generation target : UInt32)
    (live shadows : LiveObjects) (w : ChunkWriter) (s' : ColdInstance) :
    Prop where
  marks : ∃ retained limits, completedMarkSet P s.catalog (manifestSource s.manifests)
    (chunkReader P s.chunks) retained limits = .ok live
  larger : generation < target
  publishes : Publishes s.catalog target shadows s'.catalog
  manifests : s'.manifests = s.manifests
  sources : s'.sources = s.sources
  chunks : s'.chunks = FinMap.filterKeys (·.1 ≠ generation) (s.chunks.insert w.key w.file)
  clean : w.Clean
  inTarget : w.header.generation = target
  ids : shadows.map Prod.fst = live.map Prod.fst
  copies : ∀ id shadow, (id, shadow) ∈ shadows → ∃ location record offset, (id, location) ∈ live ∧
    Stored P s.chunks location record ∧ shadow = record.locationAt w.header offset ∧
    HoldsRecord w.file w.header offset record ∧ shadow.generation = target

/-- Once the compaction is published, the old generation is not needed any more. -/
theorem Collecting.of_compaction (inv : ColdInvariant P U s generation)
    {retained : List RetainedObjectRef} {limits : MarkLimits} {header : ChunkHeader}
    {live : LiveObjects} {old target : UInt32} {w : ChunkWriter}
    {catalog : InMemoryCatalog} {manager : GenerationManager} {outcome : CompactionOutcome}
    (marks : completedMarkSet P s.catalog (manifestSource s.manifests) (chunkReader P s.chunks)
      retained limits = .ok live) (inTarget : header.generation = target)
    (compacts : compactCompletedMarkSet P (chunkDestination P) (chunkReader P s.chunks) target
      s.catalog s.manager old live (.create header) = ⟨w, catalog, manager, .ok outcome⟩)
    (manager' : GenerationManager) : old = generation ∧ ∃ shadows,
      Collecting P s generation target live shadows w ⟨catalog, FinMap.filterKeys
        (·.1 ≠ generation) (s.chunks.insert w.key w.file), s.manifests, manager', s.sources⟩ ∧
      Copied P s.chunks live (w.header.encode) w.file := by
  obtain ⟨copied, shadows, larger, current, copies, syncs, publishes⟩ :=
    compactCompletedMarkSet_eq_ok compacts rfl
  obtain rfl : old = generation := by simpa [inv.current] using current.symm
  obtain rfl : w = copied.synced := by simpa [chunkDestination] using syncs.symm
  have stores : ∀ id location, (id, location) ∈ live → ∃ record,
    Stored P s.chunks location record := by
    intro id location mem
    obtain ⟨located, here⟩ := completedMarkSet_located marks mem
    have same : location.generation = old := by simpa [inv.current] using here.symm
    obtain ⟨record, _, stored, _⟩ := inv.holds id location located same
    exact ⟨record, stored⟩
  have empty : (ChunkWriter.create header).Clean :=
    ⟨[], ChunkWriter.create_behind header, by simp [ChunkWriter.create], by simp⟩
  obtain ⟨clean, sameHeader, same, ids, each⟩ := copyLive_chunk empty stores copies
  have headers : copied.synced.header = header := sameHeader
  refine ⟨rfl, shadows, ⟨⟨retained, limits, marks⟩, larger, publishes, rfl, rfl, rfl, clean.synced,
    headers ▸ inTarget, ids, ?_⟩, by rw [headers]; exact same⟩
  intro id shadow mem
  obtain ⟨location, record, offset, inside, stored, same, holds, placed⟩ := each id shadow mem
  rw [headers]
  exact ⟨location, record, offset, inside, stored, same, holds, placed⟩

theorem CollectStep.inversion (inv : ColdInvariant P U s generation) (step : CollectStep P s s') :
    ∃ target live shadows w, Collecting P s generation target live shadows w s' ∧
      Copied P s.chunks live (w.header.encode) w.file := by
  obtain @⟨_, _, live, _, _, target, w, _, _, manager', _, _, marks, inTarget, compacts, retires⟩ :=
    step
  obtain ⟨rfl, shadows, collecting⟩ :=
    Collecting.of_compaction inv marks inTarget compacts manager'
  rw [retireCompactedGeneration_eq_ok retires]
  exact ⟨target, live, shadows, w, collecting⟩

theorem Collecting.lookup_chunks {target : UInt32}
    {live shadows : LiveObjects}
    {w : ChunkWriter} (inv : ColdInvariant P U s generation)
    (collecting : Collecting P s generation target live shadows w s') (key : UInt32 × UInt64)
    (file : Str) : s'.chunks.lookup key = some file ↔ key = w.key ∧ file = w.file := by
  have different : w.header.generation ≠ generation :=
    collecting.inTarget ▸ (UInt32.ne_of_lt collecting.larger).symm
  rw [collecting.chunks, lookup_filterKeys, lookup_insert_eq]
  by_cases here : key = w.key
  · rw [if_pos (by simp [here, ChunkWriter.key, different]), if_pos here]
    simp [here, eq_comm]
  · rw [if_neg here]
    constructor
    · intro found
      split_ifs at found with kept
      have old := inv.live key file found
      simp [old] at kept
    · exact fun same => absurd same.1 here

theorem ColdInvariant.collected {target : UInt32} {live shadows : LiveObjects}
    {w : ChunkWriter} (apart : HashesApart P U) (formats : FormatsApart U)
    (inv : ColdInvariant P U s generation)
    (collecting : Collecting P s generation target live shadows w s') :
    ColdInvariant P U s' target := by
  have only := collecting.lookup_chunks inv
  obtain ⟨⟨retained, limits, marks⟩, larger, publishes, manifests, sources, _, clean, inTarget, ids,
    each⟩ := collecting
  have opened : s'.chunks.lookup w.key = some w.file := (only _ _).mpr ⟨rfl, rfl⟩
  have aliases : ∀ r oid, s'.catalog.oidAlias r oid = s.catalog.oidAlias r oid := by
    intro r oid
    rw [InMemoryCatalog.oidAlias, InMemoryCatalog.oidAlias, publishes.aliases]
  refine ⟨publishes.current, publishes.writable, ?_, ?_, ?_, ?_, ?_, ?_⟩
  · intro key file found
    obtain ⟨rfl, rfl⟩ := (only key file).mp found
    exact clean.tidy
  · intro key file found
    obtain ⟨rfl, _⟩ := (only key file).mp found
    exact inTarget
  · intro id location found
    rcases publishes.moved id with ⟨_, same⟩ | ⟨shadow, mem, same⟩
    · exact UInt32.le_of_lt (UInt32.lt_of_le_of_lt (inv.bounded id location (same ▸ found)) larger)
    · obtain ⟨_, _, _, _, _, _, _, placed⟩ := each id shadow mem
      rw [same, Option.some.injEq] at found
      exact found ▸ placed ▸ UInt32.le_refl _
  · intro id location found placed
    rcases publishes.moved id with ⟨_, same⟩ | ⟨shadow, mem, same⟩
    · have bound := inv.bounded id location (same ▸ found)
      exact absurd (placed ▸ bound) (UInt32.not_le.mpr larger)
    · obtain ⟨before, record, offset, inside, stored, rfl, holds, _⟩ := each id shadow mem
      rw [same, Option.some.injEq] at found
      subst found
      obtain ⟨_, content, data, decoded, known⟩ := inv.holds_of_read
        (completedMarkSet_located marks inside).1 (mapErr_eq_ok.mpr stored.readRecord)
      exact ⟨record, data, ⟨⟨w.file, w.header, offset, opened, holds, rfl⟩, stored.small,
        stored.verified⟩, content, decoded, known⟩
  · intro r oid id found
    simp only [AliasedObject, aliases] at found ⊢
    exact inv.aliases r oid id found
  · intro r snapshot shown
    rw [repositorySnapshot, publishes.snapshots] at shown
    obtain ⟨source, found, ready⟩ := inv.ready r snapshot shown
    refine ⟨source, by rw [sources, found], ⟨ready.importable, ?_, ?_, ?_⟩⟩
    · rw [manifests]
      exact ready.manifest
    · intro object reachable
      rw [aliases]
      exact ready.aliased object reachable
    · intro object reachable
      have complete := markComplete_of_agrees marks (inv.agrees apart formats)
      obtain ⟨_, id, location, _, _, resolves, mem⟩ :=
        complete _ (ready.markReachable inv apart shown reachable.1)
      have content := resolves.aliased.symm.trans (ready.aliased object reachable)
      rw [Option.some.injEq] at content
      subst content
      rcases publishes.moved (object.contentId P) with ⟨absent, _⟩ | ⟨shadow, inside, same⟩
      · rw [ids] at absent
        exact absurd (mem_map_of_mem mem) absent
      · obtain ⟨_, _, _, _, _, _, _, placed⟩ := each _ shadow inside
        exact ⟨shadow, same, placed⟩

theorem ColdInvariant.collect_step (apart : HashesApart P U) (formats : FormatsApart U)
    (inv : ColdInvariant P U s generation) (step : CollectStep P s s') :
    ∃ target, ColdInvariant P U s' target := by
  obtain ⟨target, _, _, _, collecting, _⟩ := step.inversion inv
  exact ⟨target, inv.collected apart formats collecting⟩
end Collect
end ReflinkForest
