import ReflinkForest.Maintenance.ShelvedRecords
import ReflinkForest.Store.RebuildExactness

/-! Rebuilding the locations of a store that imports, deletes and collects. -/
namespace ReflinkForest
open Bytes InMemoryCatalog

section Remaining
variable {π : Type} {P : Primitives} {U : ObjectSet} {s s' : ColdInstance}
  {generation : UInt32} {source : LocalRepository} {chunks files : ChunkStore}
  {key : π → UInt32 × UInt64} {suffix : π → ChunkSuffix} {paths : List π}

/-- Chunk files under the paths of their chunks. -/
def ChunkStore.disk (files : ChunkStore) (key : π → UInt32 × UInt64) (suffix : π → ChunkSuffix) :
    ChunkDisk π where
  suffix := suffix
  file path := files.lookup (key path)

/-- A chunk file as it was left, or sealed since. -/
def IntactFile (P : Primitives) (suffix : ChunkSuffix) (file kept : Str) : Prop :=
  match suffix with
  | .opened => kept = file
  | .sealed => ∃ v, Sealed P kept v ∧ kept = file ++ v.footer.encode
  | .other => False

/-- The paths of all chunk files, each of them intact. -/
structure Remaining (P : Primitives) (chunks files : ChunkStore) (key : π → UInt32 × UInt64)
    (suffix : π → ChunkSuffix) (paths : List π) : Prop where
  all : ∀ k file, chunks.lookup k = some file → ∃ path ∈ paths, key path = k
  once : ∀ p ∈ paths, ∀ q ∈ paths, key p = key q → p = q
  intact : ∀ path ∈ paths, ∃ file kept, chunks.lookup (key path) = some file ∧
    files.lookup (key path) = some kept ∧ IntactFile P (suffix path) file kept

theorem IntactFile.complete {suffix : ChunkSuffix} {file kept : Str} {header : ChunkHeader}
    {rs : List ObjectRecord} (intact : IntactFile P suffix file kept)
    (complete : CompleteChunk P .opened file header rs) :
    CompleteChunk P suffix kept header rs := by
  cases suffix with
  | opened =>
    obtain rfl : kept = file := intact
    exact complete
  | sealed =>
    obtain ⟨v, sealed, appended⟩ := intact
    have whole : file = v.header.encode ++ encodings v.records :=
      List.append_cancel_right (appended.symm.trans sealed.whole)
    obtain ⟨rfl, rfl⟩ := complete.unique ⟨whole, sealed.scannable, complete.2.2⟩
    exact ⟨v.footer, sealed⟩
  | other => exact intact.elim

/-- The remaining files as the input of a rebuild. -/
structure Displayed (P : Primitives) (U : ObjectSet) (s : ColdInstance)
    (generation : UInt32) (files : ChunkStore) (key : π → UInt32 × UInt64)
    (suffix : π → ChunkSuffix) (paths : List π) (header : π → ChunkHeader)
    (records : π → List ObjectRecord) : Prop where
  intact : IntactChunks P (files.disk key suffix) header records paths
  named : ∀ path ∈ paths, key path = ((header path).generation, (header path).chunkId)
  current : ∀ path ∈ paths, (header path).generation = generation
  known : ∀ path ∈ paths, ∀ r ∈ records path, KnownRecord P U s.catalog generation r
  inChunks : ∀ id, InChunks P s.chunks id → ∃ path ∈ paths, ∃ r ∈ records path, r.contentId = id

theorem Remaining.displayed (remaining : Remaining P s.chunks files key suffix paths)
    (inv : ColdInvariant P U s generation) (shelved : Shelved P U s generation) :
    ∃ header records, Displayed P U s generation files key suffix paths header records := by
  have each (path : π) : ∃ header rs, path ∈ paths → ∃ file kept,
      s.chunks.lookup (key path) = some file ∧ files.lookup (key path) = some kept ∧
      IntactFile P (suffix path) file kept ∧ key path = (header.generation, header.chunkId) ∧
      CompleteChunk P .opened file header rs ∧ ∀ r ∈ rs,
        KnownRecord P U s.catalog generation r := by
    by_cases mem : path ∈ paths
    · obtain ⟨file, kept, stored, found, intact⟩ := remaining.intact path mem
      obtain ⟨header, rs, named, complete, known⟩ := shelved.chunks _ _ stored
      exact ⟨header, rs, fun _ => ⟨file, kept, stored, found, intact, named, complete, known⟩⟩
    · exact ⟨⟨0, 0, 0, 0⟩, [], fun here => absurd here mem⟩
  choose header records shown using each
  refine ⟨header, records, ⟨fun path mem => ?_, ?_⟩, fun path mem => ?_, fun path mem => ?_,
    fun path mem => ?_, ?_⟩
  · obtain ⟨file, kept, _, found, intact, _, complete, _⟩ := shown path mem
    exact ⟨kept, found, intact.complete complete⟩
  · intro p pMem q qMem different generation chunk
    obtain ⟨_, _, _, _, _, pKey, _⟩ := shown p pMem
    obtain ⟨_, _, _, _, _, qKey, _⟩ := shown q qMem
    exact different (remaining.once p pMem q qMem (by rw [pKey, qKey, generation, chunk]))
  · obtain ⟨_, _, _, _, _, named, _⟩ := shown path mem
    exact named
  · obtain ⟨file, _, stored, _, _, named, _⟩ := shown path mem
    have live := inv.live _ file stored
    rwa [named] at live
  · obtain ⟨_, _, _, _, _, _, _, known⟩ := shown path mem
    exact known
  · rintro id ⟨k, file, header', rs, stored, complete', r, member, rfl⟩
    obtain ⟨path, mem, rfl⟩ := remaining.all k file stored
    obtain ⟨file', _, stored', _, _, _, complete, _⟩ := shown path mem
    rw [stored, Option.some.injEq] at stored'
    subst stored'
    obtain ⟨rfl, rfl⟩ := complete'.unique complete
    exact ⟨path, mem, r, member, rfl⟩

/-- The content of every alias has a location in the current generation. -/
def AliasesCurrent (s : ColdInstance) : Prop :=
  ∀ repository oid id, s.catalog.oidAlias repository oid = some id →
    ∃ location, s.catalog.objectLocation id = some location ∧
      s.catalog.currentGeneration = some location.generation

theorem AliasesCurrent.import_step (inv : ColdInvariant P U s generation)
    (fresh : StaleFree P s source) (step : ImportStep P U s source s')
    (aliases : AliasesCurrent s) : AliasesCurrent s' := by
  obtain ⟨repository, snapshot, codec, w, w', indexed, objects, manifest, _, indexing, publishing,
    _⟩ := step.inversion inv
  have current : s'.catalog.currentGeneration = s.catalog.currentGeneration := by
    rw [currentGeneration, publishing.shows.metas, indexing.imported.only.metas]
    rfl
  intro r oid id found
  rw [publishing.oidAlias] at found
  simp only [publishing.objectLocation, current]
  rcases indexing.imported.newAlias r oid id found with old | ⟨_, record, mem, _, rfl⟩
  · obtain ⟨location, located, here⟩ := aliases r oid id old
    exact ⟨location, indexing.imported.keepsLocation _ _ located, here⟩
  · obtain ⟨object, reachable, rfl⟩ := indexing.mem_records mem
    obtain ⟨location, located, here⟩ := indexing.located inv fresh reachable
    exact ⟨location, located, by rw [inv.current, here]⟩

theorem AliasesCurrent.delete_step (step : DeleteStep s s') (aliases : AliasesCurrent s) :
    AliasesCurrent s' := by
  obtain ⟨catalog, rfl, hides⟩ := step.hides
  intro r oid id found
  rw [oidAlias, hides.aliases] at found
  obtain ⟨location, located, current⟩ := aliases r oid id found
  refine ⟨location, ?_, ?_⟩
  · rw [← located, objectLocation, hides.objects, hides.rebuild]
    rfl
  · rw [← current, currentGeneration, hides.metas]
    rfl

variable {header : π → ChunkHeader} {records : π → List ObjectRecord}

/-- Chunks with the content of every alias can be rebuilt. -/
theorem Displayed.rebuildable (apart : HashesApart P U) (inv : ColdInvariant P U s generation)
    (shelved : Shelved P U s generation)
    (displayed : Displayed P U s generation files key suffix paths header records)
    (aliases : AliasesCurrent s) :
    Rebuildable P (files.disk key suffix) header records s.catalog paths := by
  refine ⟨displayed.intact, ?_, ?_⟩
  · intro repo oid id aliased
    obtain ⟨location, located, current⟩ := aliases repo oid id aliased
    rw [inv.current, Option.some.injEq] at current
    exact displayed.inChunks id (shelved.records id location located current.symm)
  · intro repo oid id aliased path mem record member named raw decodes
    obtain ⟨kind, data, _, known, native, content, _⟩ := inv.aliases repo oid id aliased
    obtain ⟨data', decodes', known'⟩ := (displayed.known path mem record member).decoded
    rw [decodes, Except.ok.injEq] at decodes'
    subst decodes'
    have same := (decodeObjectPayload_eq_ok_iff.mp decodes).2.2
    obtain ⟨kinds, raws⟩ := apart.content known' known (same.trans (named.trans content.symm))
    rw [kinds, raws, native]

/-- After the rebuild every object of a ready snapshot is read back. -/
theorem Displayed.resolved (apart : HashesApart P U) (inv : ColdInvariant P U s generation)
    (displayed : Displayed P U s generation files key suffix paths header records)
    (rebuildable : Rebuildable P (files.disk key suffix) header records s.catalog paths)
    {final : InMemoryCatalog} (rebuilt : Rebuilt header records paths s.catalog final) :
    Resolved P { s with catalog := final, chunks := files } := by
  have kept {α : Type} (query : InMemoryCatalog → α)
      (same : ∀ objects rebuilding, query (s.catalog.withLocations objects rebuilding) =
        query s.catalog) : query final = query s.catalog := by
    rw [← rebuilt.others]
    exact same _ _
  intro repository snapshot source ready found object reachable
  rw [kept (·.repositorySnapshot repository snapshot) fun _ _ => rfl] at ready
  obtain ⟨source', found', published⟩ := inv.ready repository snapshot ready
  rw [found, Option.some.injEq] at found'
  subst found'
  have aliased := published.aliased object reachable
  obtain ⟨path, mem, record, member, named⟩ := rebuildable.stored _ _ _ aliased
  obtain ⟨before, after, split⟩ := List.append_of_mem member
  obtain ⟨chosen, located⟩ :=
    rebuilt.present _ _ ⟨path, mem, before, record, after, split, named, rfl⟩
  obtain ⟨⟨place, there, front, copy, back, parts, same, rfl⟩, _⟩ := (rebuilt.first _ _).mp located
  obtain ⟨file, opened, complete⟩ := displayed.intact.complete place there
  obtain ⟨holds, _, small, verified⟩ := (parts ▸ complete).holdsRecord
  have inside : copy ∈ records place := parts ▸ List.mem_append_right _ List.mem_cons_self
  obtain ⟨data, decoded, known⟩ := (displayed.known place there copy inside).decoded
  obtain ⟨codec, importable⟩ := published.importable
  have content := (decodeObjectPayload_eq_ok_iff.mp decoded).2.2
  obtain ⟨kind, rfl⟩ := apart.content known (importable.member _ reachable) (content.trans same)
  refine ⟨_, _, copy, ?_, located, ?_, ?_, kind, decoded⟩
  · rw [← aliased]
    exact kept (·.oidAlias repository object.oid) fun _ _ => rfl
  · rw [kept (·.currentGeneration) fun _ _ => rfl, inv.current, ← displayed.current place there]
    rfl
  · have stored : files.lookup ((header place).generation, (header place).chunkId) = some file :=
      displayed.named place there ▸ opened
    rw [ChunkStore.readRecord]
    simp only [ObjectRecord.locationAt, stored, Except.ofOption_some, Except.ok_bind]
    exact holds.readRecordAt small (verified rfl)

variable [LinearOrder π]

/-- In every state of a run the remaining files can be rebuilt exactly when no alias has outlived
its content. Imports and deletions keep that. -/
theorem coldRun_rebuilds_iff (P : Primitives) (U : ObjectKind → Str → Prop)
    (inverts : P.ZstdInverts) (apart : HashesApart P U) (formats : FormatsApart U)
    (s₀ : ColdInstance) (generation : UInt32) (initial : s₀.Initial generation) (s : ColdInstance)
    (run : ColdRun P U (StaleFree P) s₀ s) :
    (∀ (files : ChunkStore) (key : π → UInt32 × UInt64) suffix paths maximum,
      Remaining P s.chunks files key suffix paths → 0 < maximum →
      ((∃ catalog report, rebuildObjectLocations P (files.disk key suffix) s.catalog paths maximum =
          (catalog, .ok report) ∧ Resolved P { s with catalog := catalog, chunks := files }) ↔
        AliasesCurrent s)) ∧
    (AliasesCurrent s →
      (∀ source s', StaleFree P s source → ImportStep P U s source s' → AliasesCurrent s') ∧
      ∀ s', DeleteStep s s' → AliasesCurrent s') := by
  obtain ⟨current, inv, shelved⟩ := run.shelved inverts apart formats initial
  refine ⟨fun files key suffix paths maximum remaining positive => ?_, fun aliases =>
    ⟨fun source s' fresh step => aliases.import_step inv fresh step,
      fun s' step => aliases.delete_step step⟩⟩
  obtain ⟨header, records, displayed⟩ := remaining.displayed inv shelved
  constructor
  · rintro ⟨catalog, report, rebuilt, _⟩ repo oid id aliased
    have idle : s.catalog.objectLocationRebuildState = .idle := by
      simp [objectLocationRebuildState, inv.writable]
    cases passes : preflightObjectLocationRebuild P (files.disk key suffix) s.catalog paths with
    | error e =>
      obtain ⟨e, failed⟩ := rebuildObjectLocations_of_preflight_error maximum idle passes
      rw [failed] at rebuilt
      simp at rebuilt
    | ok preflight =>
      obtain ⟨path, mem, r, member, named⟩ := displayed.intact.aliases_stored passes aliased
      obtain ⟨location, located, here⟩ := (displayed.known path mem r member).located
      exact ⟨location, named ▸ located, by rw [inv.current, here]⟩
  · intro aliases
    have rebuildable := displayed.rebuildable apart inv shelved aliases
    obtain ⟨final, rebuilt, reruns⟩ := rebuildable.exists_rebuilt
    obtain ⟨report, done⟩ := reruns s.catalog.objects s.catalog.objectLocationRebuildInProgress
      paths maximum (fun _ => Iff.rfl) positive
    exact ⟨final, report, done, displayed.resolved apart inv rebuildable rebuilt⟩
end Remaining

theorem remaining_singleton {P : Primitives} {chunks : ChunkStore} {k : UInt32 × UInt64}
    {file : Str}
    (only : chunks.entries = [⟨k, file⟩]) :
    Remaining P chunks chunks (fun _ : Unit => k) (fun _ => .opened) [()] := by
  have lookup (k' : UInt32 × UInt64) (file' : Str) :
      chunks.lookup k' = some file' ↔ k' = k ∧ file' = file := by
    rw [← Option.mem_def, AList.mem_lookup_iff, only, List.mem_singleton, Sigma.mk.injEq, heq_eq_eq]
  refine ⟨fun k' file' found => ⟨(), by simp, ((lookup k' file').mp found).1.symm⟩, by simp, ?_⟩
  intro _ _
  exact ⟨file, file, (lookup k file).mpr ⟨rfl, rfl⟩, (lookup k file).mpr ⟨rfl, rfl⟩, rfl⟩

theorem onceImported_rebuilds :
    Remaining .reference onceImported.chunks onceImported.chunks (fun _ : Unit => (1, 0))
        (fun _ => .opened) [()] ∧
      ∃ catalog report, rebuildObjectLocations .reference
        (onceImported.chunks.disk (fun _ : Unit => (1, 0)) fun _ => .opened) onceImported.catalog
        [()] 1 = (catalog, .ok report) ∧
        Resolved .reference { onceImported with catalog := catalog, chunks :=
          onceImported.chunks } := by
  have iff := coldRun_rebuilds_iff (π := Unit) .reference IsTaggedBlob
    Primitives.reference_zstdInverts (isTaggedBlob_apart _) isTaggedBlob_formats emptyInstance 1
    emptyInstance_initial
  have remaining : Remaining .reference onceImported.chunks onceImported.chunks
      (fun _ : Unit => (1, 0)) (fun _ => .opened) [()] :=
    remaining_singleton (show onceImported.chunks.entries =
      [⟨(1, 0), (onceImported.chunks.lookup (1, 0)).getD []⟩] by decide +kernel)
  have started : AliasesCurrent emptyInstance := by
    intro repository oid id found
    simp [oidAlias, emptyInstance] at found
  have fresh := emptyInstance_staleFree blobSource
  have aliases := ((iff emptyInstance .start).2 started).1 _ _ fresh onceImported_step
  exact ⟨remaining, ((iff onceImported (.import .start fresh onceImported_step)).1 _ _ _ _ 1
    remaining
    Nat.one_pos).mpr aliases⟩

/-- No object of the repository was imported before. -/
def ImportedOnce (P : Primitives) (s : ColdInstance) (source : LocalRepository) : Prop :=
  ∀ object, source.Reachable object → s.catalog.objectLocation (object.contentId P) = none

/-- The alias of a collected blob stops every rebuild. -/
theorem onceCollected_not_rebuilt :
    ¬ ∀ (P : Primitives) (U : ObjectKind → Str → Prop), P.ZstdInverts → HashesApart P U →
      FormatsApart U → ∀ (s₀ : ColdInstance) (generation : UInt32), s₀.Initial generation →
      ∀ s, ColdRun P U (ImportedOnce P) s₀ s →
      ∀ (π : Type) (_ : LinearOrder π) (files : ChunkStore) (key : π → UInt32 × UInt64) suffix paths
        maximum, Remaining P s.chunks files key suffix paths → 0 < maximum →
        ∃ catalog report, rebuildObjectLocations P (files.disk key suffix) s.catalog paths maximum =
          (catalog, .ok report) ∧ Resolved P { s with catalog := catalog, chunks := files } := by
  intro claim
  have once : ImportedOnce .reference emptyInstance blobSource := by
    intro object _
    rw [objectLocation_eq rfl]
    rfl
  have remaining : Remaining .reference onceCollected.chunks onceCollected.chunks
      (fun _ : Unit => (2, 0)) (fun _ => .opened) [()] :=
    remaining_singleton (show onceCollected.chunks.entries =
      [⟨(2, 0), ChunkHeader.encode ⟨2, 0, 0, 0⟩⟩] by decide +kernel)
  obtain ⟨catalog, report, rebuilt, _⟩ := claim .reference IsTaggedBlob
    Primitives.reference_zstdInverts (isTaggedBlob_apart _) isTaggedBlob_formats emptyInstance 1
    emptyInstance_initial onceCollected (onceCollected_run once) Unit inferInstance _ _ _ _ 1
      remaining
    Nat.one_pos
  have refused : (rebuildObjectLocations .reference
      (onceCollected.chunks.disk (fun _ : Unit => (2, 0)) fun _ => .opened) onceCollected.catalog
      [()] 1).2 = .error (.preservedAliasMissingContent (repoId 1) taggedBlob.oid
        (taggedBlob.contentId .reference)) := by decide +kernel
  rw [rebuilt] at refused
  simp at refused

end ReflinkForest
