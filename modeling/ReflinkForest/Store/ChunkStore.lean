import ReflinkForest.Store.Recovery

/-! The chunk files of all generations, and what one successful append does to them and to the
catalog. -/
namespace ReflinkForest
open Bytes InMemoryCatalog

abbrev ChunkStore := FinMap (UInt32 × UInt64) Str

/-- Open the chunk that a location names and read the record there. -/
def ChunkStore.readRecord (P : Primitives) (chunks : ChunkStore) (location : ObjectLocation) :
    Except StoreError ObjectRecord := do
  let file ← .ofOption (.io .notFound) (chunks.lookup (location.generation, location.chunkId))
  readRecordAt P file location

/-- `location` addresses the complete verified record `r` in a live chunk. -/
structure Stored (P : Primitives) (chunks : ChunkStore) (location : ObjectLocation)
    (r : ObjectRecord) : Prop where
  held : ∃ file header offset, chunks.lookup (location.generation, location.chunkId) = some file ∧
    HoldsRecord file header offset r ∧ location = r.locationAt header offset
  small : r.encoding.length ≤ maxRecoveryRecordBytes
  verified : verifyObjectRecord P r = .ok ()

namespace Stored
variable {P : Primitives} {chunks chunks' : ChunkStore} {location : ObjectLocation}
  {r : ObjectRecord}

theorem readRecord (h : Stored P chunks location r) : chunks.readRecord P location = .ok r := by
  obtain ⟨file, header, offset, found, held, rfl⟩ := h.held
  rw [ChunkStore.readRecord, found, Except.ofOption_some, Except.ok_bind]
  exact held.readRecordAt h.small h.verified

/-- Records stay where they are while their chunk only grows. -/
theorem mono (h : Stored P chunks location r)
    (grows : ∀ file, chunks.lookup (location.generation, location.chunkId) = some file →
      ∃ file', chunks'.lookup (location.generation, location.chunkId) = some file' ∧
        file <+: file') : Stored P chunks' location r := by
  obtain ⟨file, header, offset, found, held, same⟩ := h.held
  obtain ⟨file', found', more, rfl⟩ := grows file found
  exact ⟨⟨_, header, offset, found', held.append more, same⟩, h.small, h.verified⟩
end Stored

namespace ChunkWriter
variable {P : Primitives} {w w' : ChunkWriter} {chunks : ChunkStore}

/-- The file of the writer holds complete small records and nothing else. -/
def Clean (w : ChunkWriter) : Prop :=
  ∃ rs, w.Behind rs ∧ w.file = w.header.encode ++ encodings rs ∧
    ∀ r ∈ rs, r.encoding.length ≤ maxRecoveryRecordBytes

/-- Where the writer keeps its chunk. -/
def key (w : ChunkWriter) : UInt32 × UInt64 := (w.header.generation, w.header.chunkId)

/-- The writer is on a new chunk, or on a chunk of the store that was reopened. -/
inductive OpensChunk (P : Primitives) (chunks : ChunkStore) (w : ChunkWriter) : Prop
  | created (header : ChunkHeader) (fresh : chunks.lookup (header.generation, header.chunkId) =
    none)
      (same : w = .create header)
  | reopened {file : Str} {recovery : Recovery} (found : chunks.lookup w.key = some file)
      (h : ChunkWriter.openRecovered P file = .ok (w, recovery))

/-- Chunk files as a run of whole imports and collections leaves them. -/
def Tidy (chunks : ChunkStore) : Prop :=
  ∀ key file, chunks.lookup key = some file → ∃ (header : ChunkHeader) (rs : List ObjectRecord),
    key = (header.generation, header.chunkId) ∧ file = header.encode ++ encodings rs ∧
    file.length < 2 ^ 64 ∧ ∀ r ∈ rs, r.Fits ∧ r.encoding.length ≤ maxRecoveryRecordBytes

/-- A chunk that a writer has finished with. -/
theorem Clean.tidy (clean : w.Clean) : ∃ (header : ChunkHeader) (rs : List ObjectRecord),
    w.key = (header.generation, header.chunkId) ∧ w.file = header.encode ++ encodings rs ∧
    w.file.length < 2 ^ 64 ∧ ∀ r ∈ rs, r.Fits ∧ r.encoding.length ≤ maxRecoveryRecordBytes := by
  obtain ⟨rs, behind, file_eq, sizes⟩ := clean
  refine ⟨w.header, rs, rfl, file_eq, ?_, fun r hr => ⟨behind.fits r hr, sizes r hr⟩⟩
  have bound := behind.nextOffset_lt
  rw [behind.nextOffset_eq] at bound
  rw [file_eq]
  simpa [chunkHeaderLen] using bound

theorem OpensChunk.clean (tidy : Tidy chunks) (h : OpensChunk P chunks w) :
    w.Clean ∧ ∀ file, chunks.lookup w.key = some file → file = w.file := by
  cases h with
  | created header fresh same =>
    subst same
    refine ⟨⟨[], create_behind header, by simp [create], by simp⟩, ?_⟩
    intro file found
    rw [key, create, fresh] at found
    simp at found
  | @reopened file recovery found opened =>
    obtain ⟨header, rs, _, rfl, short, small⟩ := tidy _ _ found
    have scannable : ∀ r ∈ rs, Scannable P false r :=
      fun r hr => ⟨(small r hr).1, (small r hr).2, by simp⟩
    obtain ⟨w₁, recovery₁, opened₁, file₁, _⟩ := openRecovered_records header scannable
    rw [opened, Except.ok.injEq, Prod.mk.injEq] at opened₁
    obtain ⟨rfl, rfl⟩ := opened₁
    have reopened : Opened P w := .recovered short opened
    obtain ⟨rs', behind, scans, durable⟩ := reopened.behind
    refine ⟨⟨rs', behind, reopened.file_eq_durable.trans durable, fun r hr => (scans r hr).2.1⟩, ?_⟩
    intro other same
    rw [found, Option.some.injEq] at same
    rw [← same, file₁]

theorem Clean.appended (clean : w.Clean) {r : ObjectRecord} (fits : r.Fits)
    (small : r.encoding.length ≤ maxRecoveryRecordBytes)
    (room : w.nextOffset + r.encoding.length < 2 ^ 64) :
    (w.appended r.encoding).Clean ∧ (w.appended r.encoding).file = w.file ++ r.encoding ∧
      HoldsRecord (w.file ++ r.encoding) w.header w.nextOffset r := by
  obtain ⟨rs, behind, file_eq, sizes⟩ := clean
  have offset : w.nextOffset = w.file.length := by
    rw [behind.nextOffset_eq, file_eq]
    simp [chunkHeaderLen]
  have written : (w.appended r.encoding).file = w.file ++ r.encoding := by
    rw [ChunkWriter.appended, offset, writeAt_end]
  refine ⟨⟨rs ++ [r], behind.appended fits room, ?_, ?_⟩, written, ?_⟩
  · rw [written, file_eq]
    simp [ChunkWriter.appended, encodings_append]
  · intro r' mem
    rcases List.mem_append.mp mem with old | last
    · exact sizes r' old
    · rw [List.mem_singleton] at last
      exact last ▸ small
  · refine ⟨?_, fits, ?_, room, ?_⟩
    · rw [file_eq, List.append_assoc]
      exact List.prefix_append _ _
    · rw [behind.nextOffset_eq]
      exact Nat.le_add_right _ _
    · rw [offset, List.drop_left]

theorem Clean.synced (clean : w.Clean) : w.synced.Clean := by
  obtain ⟨rs, behind, file_eq, sizes⟩ := clean
  exact ⟨rs, ⟨behind.file_eq, behind.nextOffset_eq, behind.recordCount_eq, behind.crc_eq,
    behind.fits, behind.nextOffset_lt⟩, file_eq, sizes⟩

/-- Everything but aliases, locations and chunk states is as before. -/
structure IndexesOnly (c c' : InMemoryCatalog) : Prop where
  snapshots : c'.repositorySnapshots = c.repositorySnapshots
  metas : c'.metas = c.metas
  pins : c'.workspacePins = c.workspacePins ∧ c'.gcPins = c.gcPins
  writable : c'.objectLocationRebuildInProgress = false

theorem IndexesOnly.trans {c c' c'' : InMemoryCatalog} (h : IndexesOnly c c')
    (h' : IndexesOnly c' c'') : IndexesOnly c c'' :=
  ⟨h'.snapshots.trans h.snapshots, h'.metas.trans h.metas,
    ⟨h'.pins.1.trans h.pins.1, h'.pins.2.trans h.pins.2⟩, h'.writable⟩

/-- The effect of one successful call on the catalog and on the chunk. -/
structure Indexed (P : Primitives) (w : ChunkWriter) (c : InMemoryCatalog) (repo : RepoId)
    (record : ObjectRecord) (w' : ChunkWriter) (c' : InMemoryCatalog) : Prop where
  clean : w'.Clean
  header_eq : w'.header = w.header
  grows : w.file <+: w'.file
  only : IndexesOnly c c'
  aliases : ∀ r oid, c'.oidAlias r oid =
    if (r, oid) = (repo, record.primaryOid) then some record.contentId else c.oidAlias r oid
  bound : ∀ id, c.oidAlias repo record.primaryOid = some id → id = record.contentId
  locations : ∀ id, c'.objectLocation id = c.objectLocation id ∨
    (id = record.contentId ∧ c.objectLocation id = none ∧ verifyObjectRecord P record = .ok () ∧
      ∃ offset, c'.objectLocation id = some (record.locationAt w.header offset) ∧
        HoldsRecord w'.file w.header offset record)
  located : ∃ location, c'.objectLocation record.contentId = some location

section Lemmas
variable {c c' : InMemoryCatalog} {faults : AppendFaults} {repo : RepoId} {generation : UInt32}
  {chunkId : UInt64} {record : ObjectRecord} {out : Option RecordLocation}

theorem aliasConflict_eq_none {oid : GitOid} {id : ContentId}
    (h : c.aliasConflict (.oidAlias repo oid id) = none) (other : ContentId)
    (found : c.oidAlias repo oid = some other) : other = id := by
  rw [InMemoryCatalog.oidAlias] at found
  by_contra different
  simp [InMemoryCatalog.aliasConflict, found, different] at h

theorem appendAndIndex_indexed (clean : w.Clean)
    (small : record.encoding.length ≤ maxRecoveryRecordBytes)
    (h : w.appendAndIndex P c faults repo generation chunkId record = (w', c', .ok out)) :
    Indexed P w c repo record w' c' := by
  obtain ⟨_, ⟨location, located, rfl, rfl, applied⟩ |
    ⟨missing, verified, fits, room, rfl, rfl, applied⟩⟩ := appendAndIndex_eq_ok h
  · have staged := apply_eq_foldl applied
    have conflict : c.aliasConflict (.oidAlias repo record.primaryOid record.contentId) = none :=
      (stageAll_cons_eq_ok.mp (apply_eq_ok_iff.mp applied).2.2).1
    refine ⟨clean, rfl, List.prefix_refl _, ⟨?_, ?_, ?_, apply_rebuild applied⟩, ?_,
      aliasConflict_eq_none conflict, ?_, ?_⟩
    · rw [staged]; rfl
    · rw [staged]; rfl
    · rw [staged]; exact ⟨rfl, rfl⟩
    · intro r oid
      rw [staged]
      exact FinMap.lookup_insert_eq _ _ _ _
    · intro id
      exact .inl (aliasBatch_objectLocation applied id)
    · exact ⟨location, by rw [aliasBatch_objectLocation applied, located]⟩
  · obtain ⟨cleaned, written, holds⟩ := clean.appended fits small room
    have staged := apply_eq_foldl applied
    have stages := (apply_eq_ok_iff.mp applied).2.2
    rw [indexBatch, stageAll_cons_eq_ok, stageAll_cons_eq_ok]
      at stages
    refine ⟨cleaned.synced, rfl, ?_, ⟨?_, ?_, ?_, apply_rebuild applied⟩, ?_, ?_,
      ?_, ?_⟩
    · rw [synced, written]
      exact List.prefix_append _ _
    · rw [staged]; rfl
    · rw [staged]; rfl
    · rw [staged]; exact ⟨rfl, rfl⟩
    · intro r oid
      rw [staged]
      exact FinMap.lookup_insert_eq _ _ _ _
    · intro id found
      exact aliasConflict_eq_none stages.2.1 id found
    · intro id
      rw [indexBatch_objectLocation applied]
      by_cases same : id = record.contentId
      · right
        subst same
        refine ⟨rfl, missing, verified, w.nextOffset, by simp; rfl, ?_⟩
        rw [synced, written]
        exact holds
      · left
        rw [if_neg same]
    · exact ⟨_, by rw [indexBatch_objectLocation applied, if_pos rfl]⟩
end Lemmas
end ChunkWriter
end ReflinkForest
