import ReflinkForest.Git.ReachableWalk
import ReflinkForest.Import.SnapshotManifest
import ReflinkForest.Store.ChunkStore

/-! Importing the local branches and tags of a Git repository: every object of the walk becomes one
record. -/
namespace ReflinkForest
open Bytes

/-- A Git backend: the local refs and the objects behind them. -/
structure LocalRepository where
  database : ObjectDatabase
  refs : List SnapshotRef

def LocalRepository.snapshotLocalRefs (repository : LocalRepository) : RefSnapshot :=
  ⟨repository.database.algorithm, repository.refs⟩

inductive ImportError where
  | git (error : GitBackendError)
  | store (error : StoreError)
  | lengthOverflow
  deriving DecidableEq

section Import
variable (P : Primitives)

def countSeen (summary : ImportSummary) (object : GitObject) :
    Except ImportError ImportSummary := do
  .require (summary.objectsSeen.toNat + 1 < 2 ^ 64) .lengthOverflow
  .require (summary.rawBytes.toNat + object.data.length < 2 ^ 64) .lengthOverflow
  .ok { summary with
    objectsSeen := summary.objectsSeen + 1
    rawBytes := summary.rawBytes + UInt64.ofNat object.data.length }

def countStored (summary : ImportSummary) : Option RecordLocation → Except ImportError ImportSummary
  | some _ => do
    .require (summary.objectsWritten.toNat + 1 < 2 ^ 64) .lengthOverflow
    .ok { summary with objectsWritten := summary.objectsWritten + 1 }
  | none => do
    .require (summary.objectsDeduplicated.toNat + 1 < 2 ^ 64) .lengthOverflow
    .ok { summary with objectsDeduplicated := summary.objectsDeduplicated + 1 }

/-- The record that the importer builds for an object. -/
def GitObject.importRecord (codec : Codec) (object : GitObject) : ObjectRecord :=
  objectRecord P codec object.oid object.kind object.data

/-- The loop over the objects of the walk. A failure keeps what was appended before it. -/
def importObjects (repo : RepoId) (generation : UInt32) (chunkId : UInt64) (codec : Codec) :
    ChunkWriter → InMemoryCatalog → ImportSummary → List GitObject →
      ChunkWriter × InMemoryCatalog × Except ImportError ImportSummary
  | writer, catalog, summary, [] => (writer, catalog, .ok summary)
  | writer, catalog, summary, object :: objects =>
    match countSeen summary object with
    | .error e => (writer, catalog, .error e)
    | .ok seen =>
      match writer.appendAndIndex P catalog {} repo generation chunkId
          (object.importRecord P codec) with
      | (writer', catalog', .error e) => (writer', catalog', .error (.store e))
      | (writer', catalog', .ok out) =>
        match countStored seen out with
        | .error e => (writer', catalog', .error e)
        | .ok stored =>
          importObjects repo generation chunkId codec writer' catalog' stored objects

def importLocalRefsWithCodec (backend : LocalRepository) (writer : ChunkWriter)
    (catalog : InMemoryCatalog) (repo : RepoId) (generation : UInt32) (chunkId : UInt64)
    (codec : Codec) : ChunkWriter × InMemoryCatalog × Except ImportError ImportResult :=
  let snapshot := backend.snapshotLocalRefs
  match backend.database.reachableObjects snapshot.roots with
  | .error e => (writer, catalog, .error (.git e))
  | .ok objects =>
    match importObjects P repo generation chunkId codec writer catalog {} objects with
    | (writer', catalog', .error e) => (writer', catalog', .error e)
    | (writer', catalog', .ok summary) => (writer', catalog', .ok ⟨snapshot, summary⟩)
end Import

/-- The effect of a run of successful calls for `records` on one repository. -/
structure Imported (P : Primitives) (w : ChunkWriter) (c : InMemoryCatalog) (repo : RepoId)
    (records : List ObjectRecord) (w' : ChunkWriter) (c' : InMemoryCatalog) : Prop where
  clean : w'.Clean
  header_eq : w'.header = w.header
  grows : w.file <+: w'.file
  only : ChunkWriter.IndexesOnly c c'
  bound : ∀ record ∈ records, c'.oidAlias repo record.primaryOid = some record.contentId
  keepsAlias : ∀ r oid id, c.oidAlias r oid = some id → c'.oidAlias r oid = some id
  newAlias : ∀ r oid id, c'.oidAlias r oid = some id → c.oidAlias r oid = some id ∨
    (r = repo ∧ ∃ record ∈ records, oid = record.primaryOid ∧ id = record.contentId)
  located : ∀ record ∈ records, ∃ location, c'.objectLocation record.contentId = some location
  keepsLocation : ∀ id location, c.objectLocation id = some location →
    c'.objectLocation id = some location
  newLocation : ∀ id location, c'.objectLocation id = some location →
    c.objectLocation id = some location ∨
      ∃ record ∈ records, id = record.contentId ∧ verifyObjectRecord P record = .ok () ∧
        ∃ offset, location = record.locationAt w.header offset ∧
          HoldsRecord w'.file w.header offset record

namespace Imported
variable {P : Primitives} {w w' w'' : ChunkWriter} {c c' c'' : InMemoryCatalog} {repo : RepoId}
  {record : ObjectRecord} {records : List ObjectRecord}

theorem nil (clean : w.Clean) (writable : c.objectLocationRebuildInProgress = false) :
    Imported P w c repo [] w c where
  clean := clean
  header_eq := rfl
  grows := List.prefix_refl _
  only := ⟨rfl, rfl, ⟨rfl, rfl⟩, writable⟩
  bound record member := by simp at member
  keepsAlias _ _ _ found := found
  newAlias _ _ _ found := .inl found
  located record member := by simp at member
  keepsLocation _ _ found := found
  newLocation _ _ found := .inl found

theorem cons (head : ChunkWriter.Indexed P w c repo record w' c')
    (tail : Imported P w' c' repo records w'' c'') :
    Imported P w c repo (record :: records) w'' c'' := by
  have keepsAlias : ∀ r oid id, c.oidAlias r oid = some id → c'.oidAlias r oid = some id := by
    intro r oid id found
    rw [head.aliases]
    split
    case isTrue same =>
      obtain ⟨rfl, rfl⟩ := Prod.mk.inj same
      rw [head.bound id found]
    case isFalse => exact found
  have keepsLocation : ∀ id location, c.objectLocation id = some location →
      c'.objectLocation id = some location := by
    intro id location found
    rcases head.locations id with same | ⟨_, missing, _⟩
    · rw [same, found]
    · simp [missing] at found
  refine ⟨tail.clean, tail.header_eq.trans head.header_eq, head.grows.trans tail.grows,
    head.only.trans tail.only, ?_, ?_, ?_, ?_, ?_, ?_⟩
  · intro other mem
    rcases List.mem_cons.mp mem with rfl | mem
    · exact tail.keepsAlias _ _ _ (by rw [head.aliases, if_pos rfl])
    · exact tail.bound other mem
  · intro r oid id found
    exact tail.keepsAlias _ _ _ (keepsAlias _ _ _ found)
  · intro r oid id found
    rcases tail.newAlias r oid id found with old | ⟨rfl, other, mem, rfl, rfl⟩
    · rw [head.aliases] at old
      split at old
      case isTrue same =>
        obtain ⟨rfl, rfl⟩ := Prod.mk.inj same
        exact .inr ⟨rfl, record, by simp, rfl, (Option.some.inj old).symm⟩
      case isFalse => exact .inl old
    · exact .inr ⟨rfl, other, by simp [mem], rfl, rfl⟩
  · intro other mem
    rcases List.mem_cons.mp mem with rfl | mem
    · obtain ⟨location, found⟩ := head.located
      exact ⟨location, tail.keepsLocation _ _ found⟩
    · exact tail.located other mem
  · intro id location found
    exact tail.keepsLocation _ _ (keepsLocation _ _ found)
  · intro id location found
    rcases tail.newLocation id location found with old | ⟨other, mem, rfl, verified, offset,
      rfl, holds⟩
    · rcases head.locations id with same | ⟨rfl, _, verified, offset, located, holds⟩
      · exact .inl (same ▸ old)
      · rw [located, Option.some.injEq] at old
        obtain ⟨more, grown⟩ := tail.grows
        exact .inr ⟨record, by simp, rfl, verified, offset, old.symm, grown ▸ holds.append more⟩
    · rw [head.header_eq] at holds
      exact .inr ⟨other, by simp [mem], rfl, verified, offset, by rw [head.header_eq], holds⟩
end Imported

section Lemmas
variable {P : Primitives} {w w' : ChunkWriter} {c c' : InMemoryCatalog} {repo : RepoId}
  {generation : UInt32} {chunkId : UInt64} {codec : Codec} {objects : List GitObject}

theorem importObjects_eq_ok {summary summary' : ImportSummary} (clean : w.Clean)
    (writable : c.objectLocationRebuildInProgress = false)
    (small : ∀ object ∈ objects,
      (object.importRecord P codec).encoding.length ≤ maxRecoveryRecordBytes)
    (h : importObjects P repo generation chunkId codec w c summary objects =
      (w', c', .ok summary')) :
    Imported P w c repo (objects.map (·.importRecord P codec)) w' c' := by
  induction objects generalizing w c summary with
  | nil =>
    simp only [importObjects, Prod.mk.injEq] at h
    obtain ⟨rfl, rfl, _⟩ := h
    exact .nil clean writable
  | cons object objects ih =>
    rw [importObjects] at h
    split at h
    · simp at h
    split at h
    · simp at h
    · rename_i w₁ c₁ out called
      have indexed := ChunkWriter.appendAndIndex_indexed clean (small object (by simp)) called
      split at h
      · simp at h
      · exact .cons indexed (ih indexed.clean indexed.only.writable
          (fun other mem => small other (by simp [mem])) h)

theorem importLocalRefsWithCodec_eq_ok {backend : LocalRepository} {result : ImportResult}
    (h : importLocalRefsWithCodec P backend w c repo generation chunkId codec =
      (w', c', .ok result)) :
    result.snapshot = backend.snapshotLocalRefs ∧ ∃ objects summary,
      backend.database.reachableObjects backend.snapshotLocalRefs.roots = .ok objects ∧
      importObjects P repo generation chunkId codec w c {} objects = (w', c', .ok summary) := by
  rw [importLocalRefsWithCodec] at h
  split at h
  · simp at h
  · rename_i objects walked
    split at h
    · simp at h
    · rename_i w₁ c₁ summary imported
      simp only [Prod.mk.injEq, Except.ok.injEq] at h
      obtain ⟨rfl, rfl, rfl⟩ := h
      exact ⟨rfl, objects, summary, walked, imported⟩
end Lemmas
end ReflinkForest
