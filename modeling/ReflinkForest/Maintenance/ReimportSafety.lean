import ReflinkForest.Maintenance.CollectionRun

/-! When an import after garbage collection is safe. -/
namespace ReflinkForest
open Bytes Worklist Except InMemoryCatalog SnapshotManifest

variable {P : Primitives} {U : ObjectSet} {s s' : ColdInstance}
  {generation : UInt32} {source : LocalRepository}

/-- Every object of every ready snapshot is read back through its alias. -/
def Resolved (P : Primitives) (s : ColdInstance) : Prop :=
  ∀ repository snapshot source,
    s.catalog.repositorySnapshot repository snapshot = some .ready →
    s.sources.lookup (repository, snapshot) = some source → ∀ object, source.Reachable object →
    ∃ id location record, s.catalog.oidAlias repository object.oid = some id ∧
      s.catalog.objectLocation id = some location ∧
      s.catalog.currentGeneration = some location.generation ∧
      s.chunks.readRecord P location = .ok record ∧ record.kind = object.kind ∧
      decodeObjectPayload P record = .ok object.data

def MarkError.IsLocationError : MarkError → Prop
  | .missingLocation _ => True
  | .locationOutsideCurrentGeneration _ _ _ => True
  | _ => False

/-- The next mark phase does not fail over a missing or stale location. -/
def MarksOn (P : Primitives) (s : ColdInstance) : Prop :=
  ∀ limits e, completedMarkSet P s.catalog (manifestSource s.manifests) (chunkReader P s.chunks) []
    limits = .error e → ¬ e.IsLocationError

def ColdInstance.Safe (P : Primitives) (s : ColdInstance) : Prop := Resolved P s ∧ MarksOn P s

section Marks
variable {walk : MarkWalk} {references : List RetainedObjectRef} {e : MarkError}

theorem queueAll_error (h : walk.queueAll references = .error e) : ¬ e.IsLocationError := by
  induction references generalizing walk with
  | nil => simp [MarkWalk.queueAll, pure, Except.pure] at h
  | cons reference references ih =>
    rw [MarkWalk.queueAll, List.foldlM_cons, bind_eq_error_iff] at h
    rcases h with h | ⟨next, _, h⟩
    · simp only [MarkWalk.queue, bind_eq_error_iff, require_eq_error, reduceCtorEq,
        and_false, exists_false, or_false] at h
      exact h.2 ▸ id
    · exact ih h

variable {manifests : ManifestSource} {limits : MarkLimits} {catalog : InMemoryCatalog}
  {reference : RetainedObjectRef}

theorem queueSnapshots_error {seen : ℕ} {snapshots : List (RepoId × SnapshotId)}
    (h : queueSnapshots manifests limits seen walk snapshots = .error e) : ¬ e.IsLocationError := by
  induction snapshots generalizing seen walk with
  | nil => simp [queueSnapshots] at h
  | cons head rest ih =>
    simp only [queueSnapshots, bind_eq_error_iff, require_eq_error,
      queueSnapshot, mapErr_eq_error] at h
    rcases h with ⟨_, rfl⟩ | ⟨_, _, (⟨_, _, rfl⟩ | ⟨_, _, ⟨_, _, rfl⟩ | ⟨_, _, ⟨_, rfl⟩ |
      ⟨_, _, queued⟩⟩⟩) | ⟨_, _, later⟩⟩
    · exact id
    · exact id
    · exact id
    · exact id
    · exact queueAll_error queued
    · exact ih later

theorem queueRoots_error {retained : List RetainedObjectRef}
    (h : queueRoots catalog manifests retained limits = .error e) : ¬ e.IsLocationError := by
  simp only [queueRoots, bind_eq_error_iff, require_eq_error] at h
  rcases h with snapshots | ⟨_, _, ⟨_, rfl⟩ | ⟨_, _, queued⟩⟩
  · exact queueSnapshots_error snapshots
  · exact id
  · exact queueAll_error queued

/-- After the checks on a reference only limits and malformed objects stop the loop. -/
theorem markVisit_error {reader : CompactionReader} {id : ContentId} {location : ObjectLocation}
    {object : GitObject}
    (resolves : Resolves P catalog reader generation reference id location object)
    (h : markVisit P catalog reader generation walk reference = .error e) :
    ¬ e.IsLocationError := by
  simp only [markVisit, bind_eq_error_iff, reduceCtorEq, and_false, exists_false, or_false] at h
  unfold markReference at h
  split at h
  · simp at h
  rw [resolveReference_eq_ok_iff.mpr resolves, ok_bind, bind_eq_error_iff] at h
  rcases h with inserted | ⟨⟨located, fresh⟩, _, h⟩
  · unfold MarkWalk.insertLocation at inserted
    split at inserted
    · simp at inserted
    · simp only [bind_eq_error_iff, require_eq_error, reduceCtorEq, and_false,
        exists_false, or_false] at inserted
      exact inserted.2 ▸ fun h => h
  · cases fresh with
    | false => simp at h
    | true =>
      simp only [if_true, bind_eq_error_iff, mapErr_eq_error] at h
      rcases h with ⟨_, _, rfl⟩ | ⟨_, _, queued⟩
      · exact fun h => h
      · exact queueAll_error queued

/-- Without retained references the mark phase walks the ready snapshots and nothing else. -/
theorem ColdInvariant.reachable_source (apart : HashesApart P U)
    (inv : ColdInvariant P U s generation)
    (reach : MarkReachable P s.catalog (manifestSource s.manifests) (chunkReader P s.chunks) []
      reference) :
    ∃ snapshot source object, ReadySnapshot P U s generation reference.repository snapshot source ∧
      source.Reachable object ∧ object.oid = reference.oid := by
  induction reach with
  | @root reference root =>
    rcases root with ⟨repository, snapshot, shown, mem⟩ | impossible
    · obtain ⟨source, _, ready⟩ := inv.ready repository snapshot shown
      obtain ⟨manifest, read, _, _, refs⟩ := ready.manifest
      obtain ⟨codec, importable⟩ := ready.importable
      rw [snapshotRefs, manifestSource, read, mapErr_ok] at mem
      obtain ⟨ref, inside, rfl⟩ := List.mem_map.mp mem
      have root : ref.target ∈ source.snapshotLocalRefs.roots :=
        refs ▸ List.mem_map_of_mem inside
      obtain ⟨object, found⟩ := ObjectDatabase.readObject_of_mem (importable.roots _ root)
      have same := (ObjectDatabase.readObject_eq_ok_iff.mp found).1
      exact ⟨snapshot, source, object, ready, ⟨.root (same ▸ root), same ▸ found⟩, same⟩
    · simp at impossible
  | @child reference object oids oid _ found parsed mem ih =>
    obtain ⟨snapshot, source, parent, ready, reachable, same⟩ := ih
    obtain ⟨codec, importable⟩ := ready.importable
    obtain ⟨_, resolves⟩ := ready.resolves inv apart reachable
    rw [same] at resolves
    have decoded := resolves.lookupObject_eq.symm.trans found
    rw [Option.some.injEq] at decoded
    subst decoded
    obtain ⟨refs, references, children⟩ := importable.children reachable
    rw [parsed, ok.injEq] at references
    obtain ⟨next, reach, named⟩ := children oid (references ▸ mem)
    exact ⟨snapshot, source, next, ready, reach, named⟩

theorem ColdInvariant.marksOn (apart : HashesApart P U) (inv : ColdInvariant P U s generation) :
    MarksOn P s := by
  intro limits e h
  simp only [completedMarkSet, inv.current, ofOption_some, ok_bind,
    bind_eq_error_iff, reduceCtorEq, and_false, exists_false, or_false] at h
  rcases h with roots | ⟨walk, queued, h⟩
  · exact queueRoots_error roots
  obtain ⟨fresh, starts⟩ := queueRoots_eq_ok queued
  obtain ⟨outcome, ended⟩ :=
    markLoop_terminates P s.catalog (chunkReader P s.chunks) generation fresh
  rw [ended, Option.getD_some] at h
  subst h
  obtain ⟨_, ⟨⟩, _⟩ | ⟨_, state, item, pending, ⟨⟩, marking, failed⟩ := drain_outcome
    (Marking P s.catalog (manifestSource s.manifests) (chunkReader P s.chunks) [] generation)
    (fun _ _ _ _ _ m visited => m.visit visited) (Marking.start fresh starts) ended
  obtain ⟨snapshot, source, object, ready, reachable, same⟩ :=
    inv.reachable_source apart (marking.reached item (by simp))
  obtain ⟨_, resolves⟩ := ready.resolves inv apart reachable
  rw [same] at resolves
  exact markVisit_error resolves failed
end Marks

theorem ColdInvariant.safe (apart : HashesApart P U) (inv : ColdInvariant P U s generation) :
    s.Safe P := by
  refine ⟨?_, inv.marksOn apart⟩
  intro repository snapshot source shown found object reachable
  obtain ⟨source', found', ready⟩ := inv.ready repository snapshot shown
  rw [found, Option.some.injEq] at found'
  subst found'
  obtain ⟨location, resolves⟩ := ready.resolves inv apart reachable
  obtain ⟨record, read, _, kind, decoded⟩ := resolves.decoded
  rw [chunkReader, mapErr_eq_ok] at read
  exact ⟨_, location, record, resolves.aliased, resolves.located, by
    rw [inv.current, resolves.current], read, kind, decoded⟩

/-- An import leaves the locations it finds alone, so a stale one stays stale. -/
theorem ImportStep.staleFree_of_resolved (inv : ColdInvariant P U s generation)
    (step : ImportStep P U s source s') (resolved : Resolved P s') : StaleFree P s source := by
  obtain ⟨repository, snapshot, codec, w, w', indexed, objects, manifest, _, indexing, publishing,
    _⟩ := step.inversion inv
  intro object reachable location stale
  have shown : s'.catalog.repositorySnapshot repository snapshot = some .ready := by
    rw [publishing.shows.visibility, if_pos rfl]
  have found : s'.sources.lookup (repository, snapshot) = some source := by
    rw [publishing.sources, AList.lookup_insert]
  obtain ⟨id, location', _, aliased, located, current, _⟩ :=
    resolved repository snapshot source shown found object reachable
  rw [publishing.oidAlias, indexing.aliased reachable, Option.some.injEq] at aliased
  subst aliased
  rw [publishing.objectLocation, indexing.imported.keepsLocation _ _ stale,
    Option.some.injEq] at located
  subst located
  rw [← current, currentGeneration, currentGeneration,
    publishing.shows.metas, indexing.imported.only.metas]

/-- Runs of whole steps whose imports meet `condition`. -/
inductive ColdRun (P : Primitives) (U : ObjectSet)
    (condition : ColdInstance → LocalRepository → Prop) (s₀ : ColdInstance) : ColdInstance → Prop
  | start : ColdRun P U condition s₀ s₀
  | import {s s' : ColdInstance} {source : LocalRepository} (run : ColdRun P U condition s₀ s)
      (meets : condition s source) (step : ImportStep P U s source s') :
      ColdRun P U condition s₀ s'
  | delete {s s' : ColdInstance} (run : ColdRun P U condition s₀ s) (step : DeleteStep s s') :
      ColdRun P U condition s₀ s'
  | collect {s s' : ColdInstance} (run : ColdRun P U condition s₀ s) (step : CollectStep P s s') :
      ColdRun P U condition s₀ s'

theorem ColdRun.invariant {s₀ : ColdInstance} (inverts : P.ZstdInverts) (apart : HashesApart P U)
    (formats : FormatsApart U) (initial : s₀.Initial generation)
    (run : ColdRun P U (StaleFree P) s₀ s) : ∃ generation, ColdInvariant P U s generation := by
  induction run with
  | start => exact ⟨generation, initial.invariant⟩
  | «import» _ fresh step ih =>
    obtain ⟨current, inv⟩ := ih
    exact ⟨current, inv.import_step inverts fresh step⟩
  | delete _ step ih =>
    obtain ⟨current, inv⟩ := ih
    exact ⟨current, inv.delete_step step⟩
  | collect _ step ih =>
    obtain ⟨current, inv⟩ := ih
    exact inv.collect_step apart formats step

/-- Along a run whose imports meet no stale location every state is safe, and the next import
leads to a safe state exactly when it meets none either. -/
theorem coldRun_safe_iff (P : Primitives) (U : ObjectKind → Str → Prop) (inverts : P.ZstdInverts)
    (apart : HashesApart P U) (formats : FormatsApart U) (s₀ : ColdInstance) (generation : UInt32)
    (initial : s₀.Initial generation) (s : ColdInstance)
    (run : ColdRun P U (StaleFree P) s₀ s) :
    s.Safe P ∧ ∀ source s', ImportStep P U s source s' → (s'.Safe P ↔ StaleFree P s source) := by
  obtain ⟨current, inv⟩ := run.invariant inverts apart formats initial
  refine ⟨inv.safe apart, ?_⟩
  intro source s' step
  constructor
  · intro safe
    exact step.staleFree_of_resolved inv safe.1
  · intro fresh
    exact (inv.import_step inverts fresh step).safe apart

section Examples
/-- A tag ref that points straight at a blob. -/
def blobSource : LocalRepository where
  database := ⟨.sha1, AList.singleton taggedBlob.oid (taggedBlob.kind, taggedBlob.data), by
    decide +kernel⟩
  refs := [⟨ascii "refs/tags/v1", .tag, taggedBlob.oid⟩]

/-- The only object of the runs below. -/
def IsTaggedBlob (kind : ObjectKind) (data : Str) : Prop := kind = .blob ∧ data = ascii "hello"

theorem isTaggedBlob_apart (P : Primitives) : HashesApart P IsTaggedBlob := by
  constructor
  · rintro _ _ _ _ ⟨rfl, rfl⟩ ⟨rfl, rfl⟩ _
    exact ⟨rfl, rfl⟩
  · rintro _ _ _ _ _ ⟨rfl, rfl⟩ ⟨rfl, rfl⟩ _
    exact ⟨rfl, rfl⟩

theorem isTaggedBlob_formats : FormatsApart IsTaggedBlob := by
  intro data oid oid' refs refs' known
  exact absurd known.1 (by decide)

variable {object : GitObject} {header : ChunkHeader}

theorem blobSource_readObject {oid : GitOid}
    (read : blobSource.database.readObject oid = .ok object) : object = taggedBlob := by
  obtain ⟨same, found⟩ := ObjectDatabase.readObject_eq_ok_iff.mp read
  have only := AList.mem_lookup_iff.mp found
  simp only [blobSource, AList.singleton_entries, List.mem_singleton, Sigma.mk.injEq, heq_eq_eq,
    Prod.mk.injEq] at only
  obtain ⟨rfl, kind, data⟩ := only
  cases object
  cases same
  cases kind
  cases data
  rfl

theorem blobSource_importable : Importable .reference IsTaggedBlob .raw blobSource := by
  refine ⟨?_, ?_, ?_, ?_, ?_⟩
  · intro object reachable
    rw [blobSource_readObject reachable.2]
    exact ⟨rfl, rfl⟩
  · intro object reachable
    rw [blobSource_readObject reachable.2]
    rfl
  · intro object reachable
    rw [blobSource_readObject reachable.2]
    exact ⟨[], rfl, by simp⟩
  · intro root mem
    rw [List.mem_singleton.mp mem]
    exact AList.mem_keys.mpr (List.mem_singleton.mpr rfl)
  · intro object reachable
    rw [blobSource_readObject reachable.2]
    decide +kernel

/-- Imports a repository into a new chunk and publishes `manifest`. -/
def ColdInstance.importInto (P : Primitives) (s : ColdInstance) (source : LocalRepository)
    (codec : Codec) (header : ChunkHeader) (manifest : SnapshotManifest) :
    ColdInstance × Except ImportError ImportResult ×
      Except SnapshotPublicationError SnapshotPublicationStatus :=
  let imported := importLocalRefsWithCodec P source (.create header) s.catalog manifest.repository
    header.generation header.chunkId codec
  let published := publishSnapshotManifest imported.2.1 s.manifests manifest
  (⟨published.catalog, s.chunks.insert imported.1.key imported.1.file, published.manifests,
    s.manager,
    s.sources.insert (manifest.repository, manifest.snapshotId) source⟩, imported.2.2,
    published.result)

theorem ColdInstance.importInto_step {codec : Codec}
    {manifest : SnapshotManifest} {result : ImportResult} {status : SnapshotPublicationStatus}
    {importedUnixSecs : UInt64} {toolVersion : Str} (importable : Importable P U codec source)
    (current : s.catalog.currentGeneration = some header.generation)
    (fresh : s.chunks.lookup (header.generation, header.chunkId) = none)
    (describes : fromImport manifest.repository manifest.snapshotId result
      importedUnixSecs toolVersion = .ok manifest)
    (outcome : (s.importInto P source codec header manifest).2 = (.ok result, .ok status)) :
    ImportStep P U s source (s.importInto P source codec header manifest).1 := by
  obtain ⟨imported, published⟩ := Prod.ext_iff.mp outcome
  simp only [importInto] at imported published ⊢
  exact .mk importable current (.created header fresh rfl) rfl
    (Prod.ext rfl (Prod.ext rfl imported)) describes (SnapshotPublication.ext rfl rfl published)

/-- Collects into a new chunk of its generation. -/
def ColdInstance.collectInto (P : Primitives) (s : ColdInstance) (header : ChunkHeader)
    (source : UInt32) (live : LiveObjects) :
    ColdInstance × Except MaintenanceError CompactionOutcome × Except MaintenanceError Unit :=
  let compacted := compactCompletedMarkSet P (chunkDestination P) (chunkReader P s.chunks)
    header.generation s.catalog s.manager source live (.create header)
  let retired := retireCompactedGeneration compacted.catalog compacted.manager
    (s.chunks.insert compacted.writer.key compacted.writer.file) source header.generation
  (⟨compacted.catalog, retired.2.1, s.manifests, retired.1, s.sources⟩, compacted.result,
    retired.2.2)

theorem ColdInstance.collectInto_step {source : UInt32}
    {live : LiveObjects} {limits : MarkLimits} {outcome : CompactionOutcome}
    (marks : completedMarkSet P s.catalog (manifestSource s.manifests) (chunkReader P s.chunks) []
      limits = .ok live)
    (ends : (s.collectInto P header source live).2 = (.ok outcome, .ok ())) :
    CollectStep P s (s.collectInto P header source live).1 := by
  obtain ⟨compacts, retires⟩ := Prod.ext_iff.mp ends
  simp only [collectInto] at compacts retires ⊢
  exact .mk marks rfl (Compaction.ext rfl rfl rfl compacts) (Prod.ext rfl (Prod.ext rfl retires))

/-- The manifest of the import of `blobSource` that counted `summary`. -/
def blobManifest (snapshot : UInt8) (summary : ImportSummary) : SnapshotManifest :=
  .ofImport (repoId 1) (snapshotId snapshot) ⟨blobSource.snapshotLocalRefs, summary⟩ 0 (ascii "1")

theorem blobManifest_describes {snapshot : UInt8} {summary : ImportSummary}
    (valid : (blobManifest snapshot summary).validate = .ok ()) :
    fromImport (blobManifest snapshot summary).repository
      (blobManifest snapshot summary).snapshotId ⟨blobSource.snapshotLocalRefs, summary⟩ 0
      (ascii "1") = .ok (blobManifest snapshot summary) := by
  unfold blobManifest at valid ⊢
  rw [fromImport]
  simp only [ofImport] at valid ⊢
  rw [valid, ok_bind]

def onceImported : ColdInstance :=
  (emptyInstance.importInto .reference blobSource .raw ⟨1, 0, 0, 0⟩ (blobManifest 1 ⟨1, 1, 0, 5⟩)).1

def onceDeleted : ColdInstance :=
  { onceImported with
    catalog := onceImported.catalog.stage (.deleteRepositorySnapshot (repoId 1) (snapshotId 1)) }

def onceCollected : ColdInstance := (onceDeleted.collectInto .reference ⟨2, 0, 0, 0⟩ 1 []).1

def reimported : ColdInstance :=
  (onceCollected.importInto .reference blobSource .raw ⟨2, 1, 0, 0⟩ (blobManifest 2 ⟨1, 0, 1, 5⟩)).1

theorem emptyInstance_staleFree (source : LocalRepository) :
    StaleFree .reference emptyInstance source := by
  intro object _ location found
  rw [objectLocation_eq rfl] at found
  simp [emptyInstance] at found

theorem onceImported_step :
    ImportStep .reference IsTaggedBlob emptyInstance blobSource onceImported := by
  have outcome : (emptyInstance.importInto .reference blobSource .raw ⟨1, 0, 0, 0⟩
      (blobManifest 1 ⟨1, 1, 0, 5⟩)).2 =
        (.ok ⟨blobSource.snapshotLocalRefs, ⟨1, 1, 0, 5⟩⟩, .ok .published) := by decide +kernel
  exact ColdInstance.importInto_step blobSource_importable (by decide +kernel) (by decide +kernel)
    (blobManifest_describes (by decide +kernel)) outcome

theorem onceImported_safe : onceImported.Safe .reference ∧
    (onceImported.Safe .reference ↔ StaleFree .reference emptyInstance blobSource) := by
  have safe_iff := coldRun_safe_iff .reference IsTaggedBlob Primitives.reference_zstdInverts
    (isTaggedBlob_apart _) isTaggedBlob_formats emptyInstance 1 emptyInstance_initial
  have started := (safe_iff emptyInstance .start).2 blobSource onceImported onceImported_step
  exact ⟨started.mpr (emptyInstance_staleFree _), started⟩

theorem onceCollected_run {condition : ColdInstance → LocalRepository → Prop}
    (meets : condition emptyInstance blobSource) :
    ColdRun .reference IsTaggedBlob condition emptyInstance onceCollected := by
  have imported := ColdRun.import .start meets onceImported_step
  have deleted : DeleteStep onceImported onceDeleted :=
    .snapshot (apply_of_no_conflict (by decide +kernel) (by decide) (by simp
      [aliasConflict]))
  have marks : completedMarkSet .reference onceDeleted.catalog
    (manifestSource onceDeleted.manifests)
      (chunkReader .reference onceDeleted.chunks) [] {} = .ok [] := by decide +kernel
  have ends : (onceDeleted.collectInto .reference ⟨2, 0, 0, 0⟩ 1 []).2 = (.ok ⟨1, 2, 0⟩,
    .ok ()) := by
    decide +kernel
  exact .collect (.delete imported deleted) (ColdInstance.collectInto_step marks ends)

theorem reimported_step :
    ImportStep .reference IsTaggedBlob onceCollected blobSource reimported := by
  have outcome : (onceCollected.importInto .reference blobSource .raw ⟨2, 1, 0, 0⟩
      (blobManifest 2 ⟨1, 0, 1, 5⟩)).2 =
        (.ok ⟨blobSource.snapshotLocalRefs, ⟨1, 0, 1, 5⟩⟩, .ok .published) := by decide +kernel
  exact ColdInstance.importInto_step blobSource_importable (by decide +kernel) (by decide +kernel)
    (blobManifest_describes (by decide +kernel)) outcome

theorem not_staleFree (reachable : source.Reachable object)
    (stale : (s.catalog.objectLocation (object.contentId P)).any
      (fun location => s.catalog.currentGeneration ≠ some location.generation) = true) :
    ¬ StaleFree P s source := by
  intro fresh
  cases found : s.catalog.objectLocation (object.contentId P) with
  | none => simp [found] at stale
  | some location =>
    rw [found, Option.any_some, decide_eq_true_iff] at stale
    exact stale (fresh object reachable location found)

/-- A deleted blob keeps its location in the retired generation, and the next import trusts it. -/
theorem reimported_unsafe :
    ¬ ∀ (P : Primitives) (U : ObjectKind → Str → Prop), P.ZstdInverts → HashesApart P U →
      FormatsApart U → ∀ (s₀ : ColdInstance) (generation : UInt32), s₀.Initial generation →
      ∀ s, ColdRun P U (fun _ _ => True) s₀ s → s.Safe P := by
  intro claim
  have reached : ColdRun .reference IsTaggedBlob (fun _ _ => True) emptyInstance reimported :=
    .import (onceCollected_run trivial) trivial reimported_step
  have safe := claim .reference IsTaggedBlob Primitives.reference_zstdInverts
    (isTaggedBlob_apart _) isTaggedBlob_formats emptyInstance 1 emptyInstance_initial reimported
      reached
  obtain ⟨current, inv⟩ := (onceCollected_run (emptyInstance_staleFree _)).invariant
    Primitives.reference_zstdInverts (isTaggedBlob_apart _) isTaggedBlob_formats
    emptyInstance_initial
  have fresh := reimported_step.staleFree_of_resolved inv safe.1
  have reachable : blobSource.Reachable taggedBlob :=
    ⟨.root (List.mem_singleton.mpr rfl), by decide +kernel⟩
  exact not_staleFree reachable (by decide +kernel) fresh
end Examples
end ReflinkForest
