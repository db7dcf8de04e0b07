import ReflinkForest.Maintenance.MarkSet
import ReflinkForest.Store.ChunkStore

/-! Copying a completed mark set into a new generation, publishing it in one catalog batch, and
retiring the generation it came from. -/
namespace ReflinkForest
open Bytes Except InMemoryCatalog

/-- The lease file `leases/<generation>/<process>-<nonce>`. -/
structure LeasePath where
  generation : UInt32
  process : UInt32
  nonce : ℕ
  deriving DecidableEq

inductive MaintenanceError where
  | io (error : String)
  | invalidGenerationPointer
  | invalidCompactionPlan (reason : String)
  | compactionSourceIsNotCurrent (source : UInt32) (current : Option UInt32)
  | compactionSourceLocation (expectedGeneration actualGeneration : UInt32)
  | compactionRecordIdMismatch (id : ContentId)
  | compactionShadowLocation (expectedGeneration actualGeneration : UInt32)
  | compactionRead (error : String ⊕ CodecError)
  | compactionWrite (error : String)
  | compactionNotPublished (source target : UInt32) (current : Option UInt32)
  | pinnedGeneration (generation : UInt32)
  | activeReaders (generation : UInt32)
  | retiringGeneration (generation : UInt32)
  | cannotRetireActiveGeneration (generation : UInt32)
  | destinationExists (generation : UInt32)
  | unsafeLeaseEntry (path : LeasePath)
  | catalog (error : CatalogError)
  deriving DecidableEq

/-- The files of a generation manager: the active pointer, the retiring markers, the leases and
the retired generations in the trash. -/
structure GenerationManager where
  active : Option UInt32 := none
  retiring : List UInt32 := []
  leases : List UInt32 := []
  trash : List UInt32 := []

namespace GenerationManager
def publishActive (manager : GenerationManager) (generation : UInt32) : GenerationManager :=
  { manager with active := some generation }

/-- A lease that is dropped before anyone else looks leaves no trace. -/
def lease (manager : GenerationManager) (generation : UInt32) : Except MaintenanceError Unit :=
  .require (generation ∉ manager.retiring) (.retiringGeneration generation)

def stopAdmittingLeases (manager : GenerationManager) (generation : UInt32) : GenerationManager :=
  if generation ∈ manager.retiring then manager
  else { manager with retiring := generation :: manager.retiring }

/-- Admission stays stopped when a lease or the trash refuses the retirement. -/
def retireGeneration (manager : GenerationManager) (generation : UInt32) :
    GenerationManager × Except MaintenanceError Unit :=
  if manager.active = some generation then
    (manager, .error (.cannotRetireActiveGeneration generation))
  else
    let stopped := manager.stopAdmittingLeases generation
    if generation ∈ stopped.leases then
      (stopped, .error (.activeReaders generation))
    else if generation ∈ stopped.trash then
      (stopped, .error (.destinationExists generation))
    else
      ({ stopped with trash := generation :: stopped.trash }, .ok ())
end GenerationManager

structure CompactionWriter (σ : Type) where
  append : σ → ObjectRecord → σ × Except String ObjectLocation
  syncData : σ → σ × Except String Unit
  verify : σ → ContentId → ObjectLocation → Except String Unit

structure CompactionOutcome where
  sourceGeneration : UInt32
  targetGeneration : UInt32
  copiedRecords : ℕ
  deriving DecidableEq

@[ext] structure Compaction (σ : Type) where
  writer : σ
  catalog : InMemoryCatalog
  manager : GenerationManager
  result : Except MaintenanceError CompactionOutcome

def publicationBatch (generation : UInt32) (locations : LiveObjects) :
    List Operation :=
  locations.map (fun e => .objectLocation e.1 e.2) ++ [.currentGeneration generation]

def publishGeneration (catalog : InMemoryCatalog) (manager : GenerationManager)
    (generation : UInt32) (locations : LiveObjects) :
    Except MaintenanceError (InMemoryCatalog × GenerationManager) := do
  let catalog ← .mapErr .catalog (catalog.apply (publicationBatch generation locations))
  .ok (catalog, manager.publishActive generation)

/-- The plan must be strictly ascending and lie in the source generation. -/
def validateLive (source : UInt32) :
    Option ContentId → LiveObjects → Except MaintenanceError Unit
  | _, [] => .ok ()
  | previous, (id, location) :: live => do
    .require (∀ p ∈ previous, p < id)
      (.invalidCompactionPlan "live objects must be strictly ascending by ContentId")
    .require (location.generation = source)
      (.compactionSourceLocation source location.generation)
    validateLive source (some id) live

section Copy
variable {σ : Type} (P : Primitives) (writer : CompactionWriter σ) (reader : CompactionReader)
  (target : UInt32)

/-- Read and verify one source record. -/
def readLive (id : ContentId) (location : ObjectLocation) :
    Except MaintenanceError ObjectRecord := do
  let record ← .mapErr (fun e => .compactionRead (.inl e)) (reader id location)
  .require (record.contentId = id) (.compactionRecordIdMismatch id)
  .mapErr (fun e => .compactionRead (.inr e)) (verifyObjectRecord P record)
  .ok record

/-- The loop that appends every live record to the target. -/
def copyLive : σ → LiveObjects →
    σ × Except MaintenanceError LiveObjects
  | state, [] => (state, .ok [])
  | state, (id, location) :: live =>
    match readLive P reader id location with
    | .error e => (state, .error e)
    | .ok record =>
      match writer.append state record with
      | (state, .error e) => (state, .error (.compactionWrite e))
      | (state, .ok shadow) =>
        if shadow.generation = target then
          match copyLive state live with
          | (state, .error e) => (state, .error e)
          | (state, .ok shadows) => (state, .ok ((id, shadow) :: shadows))
        else (state, .error (.compactionShadowLocation target shadow.generation))

def verifyShadows (state : σ) : LiveObjects → Except MaintenanceError Unit
  | [] => .ok ()
  | (id, location) :: shadows => do
    .mapErr .compactionWrite (writer.verify state id location)
    verifyShadows state shadows

def checkPlan (catalog : InMemoryCatalog) (source : UInt32)
    (live : LiveObjects) : Except MaintenanceError Unit := do
  .require (source < target)
    (.invalidCompactionPlan "target generation must be greater than the source generation")
  .require (catalog.currentGeneration = some source)
    (.compactionSourceIsNotCurrent source catalog.currentGeneration)
  validateLive source none live

/-- All target records are durable and verified before the batch that publishes them. -/
def compactCompletedMarkSet (catalog : InMemoryCatalog) (manager : GenerationManager)
    (source : UInt32) (live : LiveObjects) (state : σ) : Compaction σ :=
  match checkPlan target catalog source live with
  | .error e => ⟨state, catalog, manager, .error e⟩
  | .ok () =>
    match copyLive P writer reader target state live with
    | (state, .error e) => ⟨state, catalog, manager, .error e⟩
    | (state, .ok shadows) =>
      match writer.syncData state with
      | (state, .error e) => ⟨state, catalog, manager, .error (.compactionWrite e)⟩
      | (state, .ok ()) =>
        match verifyShadows writer state shadows with
        | .error e => ⟨state, catalog, manager, .error e⟩
        | .ok () =>
          match publishGeneration catalog manager target shadows with
          | .error e => ⟨state, catalog, manager, .error e⟩
          | .ok (catalog, manager) =>
            ⟨state, catalog, manager, .ok ⟨source, target, shadows.length⟩⟩
end Copy

/-- A pin of a workspace or of an operator on the generation. -/
def hasSourcePin (catalog : InMemoryCatalog) (source : UInt32) : Bool :=
  catalog.gcRoots.any fun
    | .workspacePin _ generation => generation = source
    | .explicitPin pin => pin.generation = source
    | .repositorySnapshot _ _ => false

def reconcileActiveGeneration (catalog : InMemoryCatalog) (manager : GenerationManager) :
    GenerationManager :=
  match catalog.currentGeneration with
  | some generation => manager.publishActive generation
  | none => manager

def checkRetirement (catalog : InMemoryCatalog) (source target : UInt32) :
    Except MaintenanceError Unit := do
  .require (source < target) (.invalidCompactionPlan
    "published target generation must be greater than the source generation")
  .require (catalog.currentGeneration = some target)
    (.compactionNotPublished source target catalog.currentGeneration)
  .require (hasSourcePin catalog source = false) (.pinnedGeneration source)

/-- Moves the directory of the source generation to the trash. -/
def retireCompactedGeneration (catalog : InMemoryCatalog) (manager : GenerationManager)
    (chunks : ChunkStore) (source target : UInt32) :
    GenerationManager × ChunkStore × Except MaintenanceError Unit :=
  match checkRetirement catalog source target with
  | .error e => (manager, chunks, .error e)
  | .ok () =>
    match (reconcileActiveGeneration catalog manager).retireGeneration source with
    | (manager, .error e) => (manager, chunks, .error e)
    | (manager, .ok ()) => (manager, chunks.filterKeys (·.1 ≠ source), .ok ())

section Publication
variable {catalog catalog' : InMemoryCatalog} {manager manager' : GenerationManager}
  {generation : UInt32} {locations : LiveObjects}

theorem foldl_putLocations (c : InMemoryCatalog) (id : ContentId) :
    let after := (locations.map fun e => Operation.objectLocation e.1 e.2).foldl
      InMemoryCatalog.stage c
    (id ∉ locations.map Prod.fst ∧ after.objects.lookup id = c.objects.lookup id) ∨
      ∃ location, (id, location) ∈ locations ∧ after.objects.lookup id = some location := by
  induction locations generalizing c with
  | nil => exact .inl ⟨by simp, rfl⟩
  | cons head rest ih =>
    rcases ih (c.stage (.objectLocation head.1 head.2)) with ⟨absent, same⟩ | ⟨location, mem,
      same⟩
    · by_cases here : id = head.1
      · right
        subst here
        exact ⟨head.2, by simp, same.trans (AList.lookup_insert _)⟩
      · left
        refine ⟨by simpa [here] using absent, same.trans ?_⟩
        exact (FinMap.lookup_insert_eq _ _ _ _).trans (if_neg here)
    · exact .inr ⟨location, List.mem_cons_of_mem _ mem, same⟩

/-- The batch moves the given objects and the current generation and nothing else. -/
structure Publishes (catalog : InMemoryCatalog) (generation : UInt32)
    (locations : LiveObjects) (catalog' : InMemoryCatalog) : Prop where
  current : catalog'.currentGeneration = some generation
  writable : catalog'.objectLocationRebuildInProgress = false
  aliases : catalog'.aliases = catalog.aliases
  snapshots : catalog'.repositorySnapshots = catalog.repositorySnapshots
  moved : ∀ id, (id ∉ locations.map Prod.fst ∧
      catalog'.objectLocation id = catalog.objectLocation id) ∨
    ∃ location, (id, location) ∈ locations ∧ catalog'.objectLocation id = some location

theorem publishGeneration_eq_ok
    (h : publishGeneration catalog manager generation locations = .ok (catalog', manager')) :
    Publishes catalog generation locations catalog' ∧
      manager' = manager.publishActive generation := by
  simp only [publishGeneration, bind_eq_ok_iff, mapErr_eq_ok, ok.injEq, Prod.mk.injEq] at h
  obtain ⟨applied, h, rfl, rfl⟩ := h
  have staged := apply_eq_foldl h
  rw [publicationBatch, List.foldl_append] at staged
  have frame : ∀ {α : Type} (query : InMemoryCatalog → α),
      (∀ c (e : ContentId × ObjectLocation),
        query (c.stage (.objectLocation e.1 e.2)) = query c) →
      (∀ c, query (c.stage (.currentGeneration generation)) = query c) →
      query applied = query catalog := by
    intro α query locates publishes
    refine apply_frame query h ?_
    intro op mem c
    rcases List.mem_append.mp mem with put | last
    · obtain ⟨e, _, rfl⟩ := List.mem_map.mp put
      exact locates c e
    · rw [List.mem_singleton] at last
      exact last ▸ publishes c
  refine ⟨⟨?_, apply_rebuild h, frame (·.aliases) (fun _ _ => rfl) fun _ => rfl,
    frame (·.repositorySnapshots) (fun _ _ => rfl) fun _ => rfl, ?_⟩, rfl⟩
  · rw [staged]
    simp [InMemoryCatalog.currentGeneration, InMemoryCatalog.stage, Operation.currentGeneration]
  · intro id
    rw [objectLocation_eq (apply_rebuild h), objectLocation_eq (apply_eq_ok_iff.mp h).1, staged]
    exact foldl_putLocations catalog id
end Publication

section Spec
variable {σ : Type} {P : Primitives} {writer : CompactionWriter σ} {reader : CompactionReader}
  {source target : UInt32} {catalog : InMemoryCatalog} {manager : GenerationManager}
  {live : LiveObjects} {state : σ}

theorem compactCompletedMarkSet_eq_ok {final : Compaction σ} {outcome : CompactionOutcome}
    (h : compactCompletedMarkSet P writer reader target catalog manager source live state = final)
    (ok : final.result = .ok outcome) :
    ∃ copied shadows, source < target ∧ catalog.currentGeneration = some source ∧
      copyLive P writer reader target state live = (copied, .ok shadows) ∧
      writer.syncData copied = (final.writer, .ok ()) ∧
      Publishes catalog target shadows final.catalog := by
  unfold compactCompletedMarkSet at h
  split at h
  · simp [← h] at ok
  rename_i plan
  split at h
  · simp [← h] at ok
  rename_i copied shadows copy
  split at h
  · simp [← h] at ok
  rename_i synced sync
  split at h
  · simp [← h] at ok
  split at h
  · simp [← h] at ok
  rename_i catalog' manager' publish
  subst h
  simp only [checkPlan, require_bind_eq_ok] at plan
  exact ⟨copied, shadows, plan.1, plan.2.1, copy, sync, (publishGeneration_eq_ok publish).1⟩
end Spec

theorem retireCompactedGeneration_eq_ok {catalog : InMemoryCatalog}
    {manager manager' : GenerationManager} {chunks chunks' : ChunkStore} {source target : UInt32}
    (h : retireCompactedGeneration catalog manager chunks source target =
      (manager', chunks', .ok ())) : chunks' = chunks.filterKeys (·.1 ≠ source) := by
  unfold retireCompactedGeneration at h
  split at h
  · simp at h
  split at h
  · simp at h
  · simp only [Prod.mk.injEq, and_true] at h
    exact h.2.symm

def chunkReader (P : Primitives) (chunks : ChunkStore) : CompactionReader := fun _ location =>
  .mapErr (fun _ => "cold record cannot be read") (chunks.readRecord P location)

/-- A writer that appends to one chunk of the target generation. -/
def chunkDestination (P : Primitives) : CompactionWriter ChunkWriter where
  append writer record :=
    match writer.append P none record with
    | (writer, .error _) => (writer, .error "append failed")
    | (writer, .ok location) => (writer, .ok (record.locationAt writer.header location.offset))
  syncData writer := (writer.synced, .ok ())
  verify writer id location :=
    match readRecordAt P writer.durable location with
    | .ok record => Except.require (record.contentId = id) "unexpected content ID"
    | .error _ => .error "verification failed"

section ChunkCopy
variable {P : Primitives} {chunks : ChunkStore} {target : UInt32} {w w' : ChunkWriter}
  {live shadows : LiveObjects}

theorem readLive_chunkReader {id : ContentId} {location : ObjectLocation}
    {record stored : ObjectRecord}
    (stores : Stored P chunks location stored)
    (h : readLive P (chunkReader P chunks) id location = .ok record) :
    record = stored ∧ record.contentId = id := by
  simp only [readLive, chunkReader, bind_eq_ok_iff, mapErr_eq_ok, ok.injEq,
    require_eq_ok, stores.readRecord] at h
  obtain ⟨read, rfl, _, named, _, _, rfl⟩ := h
  exact ⟨rfl, named⟩

/-- A file that grew by one verified record for every live object. -/
def Copied (P : Primitives) (chunks : ChunkStore) (live : LiveObjects)
    (before after : Str) : Prop :=
  ∃ copies, after = before ++ encodings copies ∧
    copies.map ObjectRecord.contentId = live.map Prod.fst ∧
    ∀ record ∈ copies, Scannable P true record ∧
      ∃ id location, (id, location) ∈ live ∧ Stored P chunks location record

/-- Every shadow location holds the record of its source location. -/
theorem copyLive_chunk (clean : w.Clean)
    (stores : ∀ id location, (id, location) ∈ live → ∃ record, Stored P chunks location record)
    (h : copyLive P (chunkDestination P) (chunkReader P chunks) target w live =
      (w', .ok shadows)) :
    w'.Clean ∧ w'.header = w.header ∧ Copied P chunks live w.file w'.file ∧
      shadows.map Prod.fst = live.map Prod.fst ∧
      ∀ id shadow, (id, shadow) ∈ shadows → ∃ location record offset, (id, location) ∈ live ∧
        Stored P chunks location record ∧ shadow = record.locationAt w.header offset ∧
        HoldsRecord w'.file w.header offset record ∧ shadow.generation = target := by
  induction live generalizing w shadows with
  | nil =>
    simp only [copyLive, Prod.mk.injEq, ok.injEq] at h
    obtain ⟨rfl, rfl⟩ := h
    exact ⟨clean, rfl, ⟨[], by simp, rfl, by simp⟩, rfl, by simp⟩
  | cons head live ih =>
    obtain ⟨id, location⟩ := head
    obtain ⟨record, stored⟩ := stores id location (by simp)
    rw [copyLive] at h
    split at h
    · simp at h
    rename_i read readOk
    obtain ⟨rfl, named⟩ := readLive_chunkReader stored readOk
    split at h
    · simp at h
    rename_i w₁ shadow appended
    simp only [chunkDestination] at appended
    split at appended
    · simp at appended
    rename_i w₂ place appendOk
    obtain ⟨verified, fits, room, rfl, rfl⟩ := ChunkWriter.append_eq_ok appendOk
    simp only [Prod.mk.injEq, ok.injEq] at appended
    obtain ⟨rfl, rfl⟩ := appended
    obtain ⟨cleaned, written, holds⟩ := clean.appended fits stored.small room
    split at h
    case isFalse => simp at h
    rename_i inTarget
    split at h
    · simp at h
    rename_i w₃ rest copied
    simp only [Prod.mk.injEq, ok.injEq] at h
    obtain ⟨rfl, rfl⟩ := h
    obtain ⟨cleanEnd, header, grows, ids, each⟩ :=
      ih cleaned (fun i l mem => stores i l (by simp [mem])) copied
    obtain ⟨copies, grown, contents, members⟩ := grows
    refine ⟨cleanEnd, header, ⟨read :: copies, ?_, by simp [named, contents], ?_⟩, by simp [ids],
      ?_⟩
    · rw [grown, written, encodings_cons, List.append_assoc]
    · intro other mem
      rcases List.mem_cons.mp mem with rfl | mem
      · exact ⟨⟨fits, stored.small, fun _ => verified⟩, id, location, by simp, stored⟩
      · obtain ⟨scannable, id', location', inside, stored'⟩ := members other mem
        exact ⟨scannable, id', location', by simp [inside], stored'⟩
    · intro id' shadow' mem
      rcases List.mem_cons.mp mem with same | mem
      · obtain ⟨rfl, rfl⟩ := Prod.mk.inj same
        refine ⟨location, read, w.nextOffset, by simp, stored, rfl, ?_, inTarget⟩
        rw [grown, written]
        exact holds.append _
      · obtain ⟨location', record', offset, inside, rest⟩ := each id' shadow' mem
        exact ⟨location', record', offset, by simp [inside], rest⟩
end ChunkCopy
end ReflinkForest
