import ReflinkForest.Store.RotatingWriter

/-! What rotation keeps within the target size. A record that the catalog rejects stays in its
chunk. -/
namespace ReflinkForest
open Bytes Except List Function Fallible ChunkWriter

namespace ChunkWriter
variable {P : Primitives} {w w' : ChunkWriter} {c c' : InMemoryCatalog} {repo : RepoId}
  {generation : UInt32} {chunkId : UInt64} {record : ObjectRecord} {rs : List ObjectRecord}
  {result : Except StoreError (Option RecordLocation)}

/-- The file holds the complete records `rs` and nothing else. -/
structure Holds (w : ChunkWriter) (rs : List ObjectRecord) : Prop where
  behind : w.Behind rs
  file_eq : w.file = w.header.encode ++ encodings rs

theorem create_holds (header : ChunkHeader) : (create header).Holds [] where
  behind := create_behind header
  file_eq := by simp [create]

theorem Holds.nextOffset_eq (holds : w.Holds rs) : w.nextOffset = w.file.length := by
  rw [holds.behind.nextOffset_eq, holds.file_eq]
  simp [chunkHeaderLen]

theorem Holds.written (holds : w.Holds rs) (data : Str) :
    writeAt w.file w.nextOffset data = w.file ++ data := by
  rw [holds.nextOffset_eq, writeAt_end]

theorem Holds.appended (holds : w.Holds rs) (fits : record.Fits)
    (room : w.nextOffset + record.encoding.length < 2 ^ 64) :
    (w.appended record.encoding).synced.Holds (rs ++ [record]) where
  behind := by
    have behind := holds.behind.appended fits room
    exact ⟨behind.file_eq, behind.nextOffset_eq, behind.recordCount_eq, behind.crc_eq,
      behind.fits, behind.nextOffset_lt⟩
  file_eq := by
    change writeAt w.file w.nextOffset record.encoding = _
    rw [holds.written, holds.file_eq, encodings_append]
    simp [ChunkWriter.appended, synced]

theorem Holds.holdsRecord (holds : w.Holds rs) (fits : record.Fits)
    (room : w.nextOffset + record.encoding.length < 2 ^ 64) :
    HoldsRecord (w.appended record.encoding).synced.file w.header w.nextOffset record := by
  have after := holds.appended fits room
  have length := holds.behind.nextOffset_eq
  rw [length]
  apply holdsRecord_of_prefix rs []
  · rw [after.file_eq]
    exact prefix_refl _
  · exact fits
  · rw [encodings_append, length_append, ← Nat.add_assoc, ← length]
    simpa using room

/-- Without I/O errors a call either leaves the writer alone or appends the whole record, which it
then publishes or, refused by the catalog, leaves without a location. -/
theorem appendAndIndex_cases (room : w.nextOffset + record.encoding.length < 2 ^ 64)
    (count : w.recordCount + 1 < 2 ^ 64)
    (h : w.appendAndIndex P c {} repo generation chunkId record = (w', c', result)) :
    (w' = w ∧ (∀ id, c'.objectLocation id = c.objectLocation id) ∧
      ∀ location, result ≠ .ok (some location)) ∨
    (c.objectLocation record.contentId = none ∧ verifyObjectRecord P record = .ok () ∧
      record.Fits ∧ w' = (w.appended record.encoding).synced ∧
      ((c' = c ∧ ∀ location, result ≠ .ok (some location)) ∨
        (result = .ok (some ⟨w.nextOffset, record.encoding.length⟩) ∧
          c.apply (w'.indexBatch repo record w.nextOffset) = .ok c'))) := by
  cases appendAndIndex_appendOutcome h with
  | refused e => exact .inl ⟨rfl, fun _ => rfl, by simp⟩
  | aliased writable known applied => exact .inl ⟨rfl, aliasBatch_objectLocation applied, by simp⟩
  | notAppended missing failed =>
    exact .inl ⟨append_eq_error room count failed, fun _ => rfl, by simp⟩
  | notSynced missing appended failing e => cases failing
  | notPublished missing appended e =>
    obtain ⟨verified, fits, _, rfl, rfl⟩ := append_eq_ok appended
    exact .inr ⟨missing, verified, fits, rfl, .inl ⟨rfl, by simp⟩⟩
  | published writable missing appended applied =>
    obtain ⟨verified, fits, _, rfl, rfl⟩ := append_eq_ok appended
    exact .inr ⟨missing, verified, fits, rfl, .inr ⟨rfl, applied⟩⟩

theorem appendAndIndex_known {faults : AppendFaults} {place : ObjectLocation}
    (known : c.objectLocation record.contentId = some place)
    (h : w.appendAndIndex P c faults repo generation chunkId record = (w', c', result)) :
    w' = w ∧ (∀ id, c'.objectLocation id = c.objectLocation id) ∧
      ∀ location, result ≠ .ok (some location) := by
  cases appendAndIndex_appendOutcome h with
  | refused e => exact ⟨rfl, fun _ => rfl, by simp⟩
  | aliased writable _ applied => exact ⟨rfl, aliasBatch_objectLocation applied, by simp⟩
  | notAppended missing _ | notSynced missing _ _ _ | notPublished missing _ _
  | published _ missing _ _ => cases known.symm.trans missing

theorem sealAndPublish_cases {sealedExists : Option Str} {files : ChunkFiles}
    {outcome : Except StoreError SealedChunk}
    (h : w.sealAndPublish c sealedExists {} = (files, c', outcome)) :
    files = ⟨some w.file, sealedExists⟩ ∨
      (sealedExists = none ∧ files = ⟨none, some w.sealedFile⟩) := by
  cases sealAndPublish_sealOutcome h with
  | refused e => exact .inl rfl
  | notRenamed _ _ failing _ => simp at failing
  | notPublished absent _ | published absent _ _ => exact .inr ⟨absent, rfl⟩

theorem createAndPublish_cases {header : ChunkHeader} {existing opened : Option Str}
    {outcome : Except StoreError ChunkWriter}
    (h : createAndPublish header existing {} c = (opened, c', outcome)) :
    (existing.isSome ∧ opened = existing ∧ ∀ writer, outcome ≠ .ok writer) ∨
      (existing = none ∧ opened = some header.encode ∧
        ∀ writer, outcome = .ok writer → writer = create header) := by
  cases createAndPublish_createOutcome h with
  | refused found _ => exact .inl ⟨by simpa using found, rfl, by simp⟩
  | torn _ failing _ => cases failing
  | notPublished absent _ | published absent _ => exact .inr ⟨absent, rfl, by simp⟩
end ChunkWriter

namespace Rotation
/-- Sealed, a chunk with these records has at most `target` bytes, or it holds one record that alone
exceeds it. -/
def Bounded (target : ℕ) (rs : List ObjectRecord) : Prop :=
  chunkHeaderLen + (encodings rs).length + sealedChunkFooterLen ≤ target ∨
    ∃ r, rs = [r] ∧ target < chunkHeaderLen + r.encoding.length + sealedChunkFooterLen

/-- The open chunk, in a directory that was `start` before the writer was created. -/
structure ActiveChunk (start : UInt64 → ChunkFiles) (s : Rotation) (w : ChunkWriter) : Prop where
  records : ∃ rs, w.Holds rs ∧ Bounded s.writer.targetSize.toNat rs
  files_eq : s.files w.header.chunkId = ⟨some w.file, (start w.header.chunkId).sealed⟩
  generation_eq : w.header.generation = s.writer.generation
  created : w.header.chunkId ∈ s.created

/-- A sealed file within the bound. -/
def SealedWithin (target : ℕ) (file : Str) : Prop :=
  ∃ (header : ChunkHeader) (rs : List ObjectRecord) (footer : SealedChunkFooter),
    file = header.encode ++ encodings rs ++ footer.encode ∧ Bounded target rs

structure Sound (start : UInt64 → ChunkFiles) (s : Rotation) : Prop where
  target_ge : chunkHeaderLen + sealedChunkFooterLen ≤ s.writer.targetSize.toNat
  active : ∀ w, s.writer.active = some w → ActiveChunk start s w
  sealed : ∀ id file, (s.files id).sealed = some file → (start id).sealed = none →
    SealedWithin s.writer.targetSize.toNat file
  ascending : s.created.Pairwise (· < ·)
  below : ∀ id ∈ s.created, id < s.writer.nextChunkId
  untouched : ∀ id, id ∉ s.created → s.files id = start id

/-- Chunks of the writer only grow, under whichever name, and located content stays located. -/
structure Grows (s s' : Rotation) : Prop where
  generation_eq : s'.writer.generation = s.writer.generation
  targetSize_eq : s'.writer.targetSize = s.writer.targetSize
  files : ∀ id ∈ s.created, ∀ file, (s.files id).content = some file →
    ∃ file', (s'.files id).content = some file' ∧ file <+: file'
  created : s.created <+: s'.created
  located : ∀ id place, s.catalog.objectLocation id = some place →
    s'.catalog.objectLocation id = some place

theorem Grows.refl (s : Rotation) : Grows s s where
  generation_eq := rfl
  targetSize_eq := rfl
  files _ _ file found := ⟨file, found, prefix_refl _⟩
  created := prefix_refl _
  located _ _ found := found

theorem Grows.trans {s s' s'' : Rotation} (h : Grows s s') (h' : Grows s' s'') : Grows s s'' where
  generation_eq := h'.generation_eq.trans h.generation_eq
  targetSize_eq := h'.targetSize_eq.trans h.targetSize_eq
  files id mem file found := by
    obtain ⟨file', found', longer⟩ := h.files id mem file found
    obtain ⟨file'', found'', longer'⟩ := h'.files id (h.created.subset mem) file' found'
    exact ⟨file'', found'', longer.trans longer'⟩
  created := h.created.trans h'.created
  located id place found := h'.located id place (h.located id place found)

/-- Since `origin` the invariant was kept and nothing was lost. -/
def Since (start : UInt64 → ChunkFiles) (origin s : Rotation) : Prop :=
  Sound start s ∧ Grows origin s

section Steps
variable {start : UInt64 → ChunkFiles} {s : Rotation} {w : ChunkWriter}
  {target length : ℕ} {active : Option ChunkWriter} {id : UInt64} {files : ChunkFiles}
  {catalog : InMemoryCatalog} {s' : Rotation} {location : RotatedRecordLocation}

theorem bounded_nil (h : chunkHeaderLen + sealedChunkFooterLen ≤ target) :
    Bounded target [] := by
  left
  simpa using h

/-- A record goes behind others only where the sealed chunk stays within the target. -/
theorem bounded_append {rs : List ObjectRecord} {r : ObjectRecord}
    (room : chunkHeaderLen + (encodings rs).length + r.encoding.length + sealedChunkFooterLen ≤
      target ∨ rs = []) : Bounded target (rs ++ [r]) := by
  have length : (encodings (rs ++ [r])).length = (encodings rs).length + r.encoding.length := by
    simp [encodings_append]
  rcases room with fits | rfl
  · left
    omega
  · by_cases fits : chunkHeaderLen + r.encoding.length + sealedChunkFooterLen ≤ target
    · left
      simp only [encodings_nil, length_nil] at length
      omega
    · exact .inr ⟨r, rfl, not_le.mp fits⟩

section
variable (sound : Sound start s)
include sound

theorem Sound.withChunk (created : id ∈ s.created)
    (chunk : ∀ w, active = some w → ActiveChunk start (s.withChunk active id files catalog) w)
    (bounded : ∀ file, files.sealed = some file → (start id).sealed = none →
      SealedWithin s.writer.targetSize.toNat file) :
    Sound start (s.withChunk active id files catalog) where
  target_ge := sound.target_ge
  active := chunk
  sealed := by
    intro other file found fresh
    by_cases here : other = id
    · subst here
      rw [withChunk_files, update_self] at found
      exact bounded file found fresh
    · rw [withChunk_files, update_of_ne here] at found
      exact sound.sealed other file found fresh
  ascending := sound.ascending
  below := sound.below
  untouched := by
    intro other old
    have elsewhere : other ≠ id := fun same => old (same ▸ created)
    exact (update_of_ne elsewhere _ _).trans (sound.untouched other old)

omit sound in
theorem Grows.withChunk
    (longer : ∀ file, (s.files id).content = some file →
      ∃ file', files.content = some file' ∧ file <+: file')
    (located : ∀ id place, s.catalog.objectLocation id = some place →
      catalog.objectLocation id = some place) :
    Grows s (s.withChunk active id files catalog) where
  generation_eq := rfl
  targetSize_eq := rfl
  files := by
    intro other _ file found
    by_cases here : other = id
    · subst here
      rw [withChunk_files, update_self]
      exact longer file found
    · rw [withChunk_files, update_of_ne here]
      exact ⟨file, found, prefix_refl _⟩
  created := prefix_refl _
  located := located

theorem sealActive_keeps (active : s.writer.active = some w) :
    Since start s ((sealActive w {}).run s).1 := by
  have chunk := sound.active w active
  obtain ⟨rs, holds, bounded⟩ := chunk.records
  have same := sealAndPublish_sameLocations w s.catalog (s.files w.header.chunkId).sealed {}
  rcases outcome : w.sealAndPublish s.catalog (s.files w.header.chunkId).sealed {} with
    ⟨files, catalog, result⟩
  rw [outcome] at same
  simp only [sealActive, outcome]
  have cases := sealAndPublish_cases outcome
  constructor
  · apply sound.withChunk chunk.created (by simp)
    intro file found fresh
    rcases cases with rfl | ⟨_, rfl⟩
    · exact sound.sealed _ _ found fresh
    · cases found
      refine ⟨w.header, rs, w.sealFooter, ?_, bounded⟩
      rw [sealedFile, holds.written, holds.file_eq]
  · apply Grows.withChunk
    · intro file found
      rw [chunk.files_eq] at found
      cases found
      rcases cases with rfl | ⟨_, rfl⟩
      · exact ⟨w.file, rfl, prefix_refl _⟩
      · refine ⟨w.sealedFile, rfl, ?_⟩
        rw [sealedFile, holds.written]
        exact prefix_append _ _
    · intro id place found
      exact (same id).trans found

theorem sealCurrent_keeps : Since start s ((sealCurrent {}).run s).1 := by
  cases active : s.writer.active with
  | none =>
    rw [sealCurrent, run_bind_of_error (activeMut_of_none active)]
    exact ⟨sound, .refl s⟩
  | some w =>
    rw [sealCurrent, run_bind_of_ok (activeMut_of_some active)]
    exact sealActive_keeps sound active

omit sound in
theorem nextChunkId_lt (next : id.toNat + 1 < 2 ^ 64) : id < id + 1 := by
  rw [UInt64.lt_iff_toNat_lt, UInt64.toNat_add]
  simp only [UInt64.toNat_one]
  omega

theorem Sound.numbered (later : s.writer.nextChunkId ≤ id) :
    Sound start { s with writer := { s.writer with nextChunkId := id }, catalog := catalog } where
  target_ge := sound.target_ge
  active w same := by
    obtain ⟨records, files_eq, generation_eq, created⟩ := sound.active w same
    exact ⟨records, files_eq, generation_eq, created⟩
  sealed := sound.sealed
  ascending := sound.ascending
  below id member := UInt64.lt_of_lt_of_le (sound.below id member) later
  untouched := sound.untouched

/-- The new chunk has a larger id than every chunk before it. -/
theorem Sound.created (next : s.writer.nextChunkId.toNat + 1 < 2 ^ 64)
    {opened : Str}
    (chunk : ∀ w, active = some w → w = .create s.nextHeader ∧ opened = s.nextHeader.encode) :
    Sound start
      { writer := { s.writer with nextChunkId := s.writer.nextChunkId + 1, active := active }
        files := Function.update s.files s.writer.nextChunkId
          ⟨some opened, (s.files s.writer.nextChunkId).sealed⟩
        catalog := catalog
        created := s.created ++ [s.writer.nextChunkId] } where
  target_ge := sound.target_ge
  active := by
    intro w same
    have untouched := sound.untouched _ fun old =>
      UInt64.lt_irrefl _ (sound.below _ old)
    obtain ⟨rfl, rfl⟩ := chunk w same
    refine ⟨⟨[], ChunkWriter.create_holds _, bounded_nil sound.target_ge⟩, ?_, rfl,
      by simp [ChunkWriter.create, nextHeader]⟩
    simp only [ChunkWriter.create, nextHeader, update_self, untouched]
  sealed := by
    intro id file found fresh
    by_cases here : id = s.writer.nextChunkId
    · subst here
      simp only [update_self] at found
      exact sound.sealed _ file found fresh
    · simp only [update_of_ne here] at found
      exact sound.sealed id file found fresh
  ascending := by
    rw [pairwise_append]
    refine ⟨sound.ascending, pairwise_singleton _ _, ?_⟩
    intro id mem last same
    rw [mem_singleton] at same
    rw [same]
    exact sound.below id mem
  below := by
    intro id mem
    have above := nextChunkId_lt next
    rcases mem_append.mp mem with old | last
    · exact UInt64.lt_trans (sound.below id old) above
    · rw [mem_singleton] at last
      rw [last]
      exact above
  untouched := by
    intro id old
    simp only [mem_append, mem_singleton, not_or] at old
    exact (update_of_ne old.2 _ _).trans (sound.untouched id old.1)

theorem Sound.grows
    (generation_eq : s'.writer.generation = s.writer.generation)
    (targetSize_eq : s'.writer.targetSize = s.writer.targetSize)
    (files : ∀ id, id ≠ s.writer.nextChunkId → s'.files id = s.files id)
    (created : s.created <+: s'.created) (same : SameLocations s.catalog s'.catalog) :
    Grows s s' where
  generation_eq := generation_eq
  targetSize_eq := targetSize_eq
  files id mem file found := by
    have old : id ≠ s.writer.nextChunkId := by
      intro next
      subst next
      exact UInt64.lt_irrefl _ (sound.below _ mem)
    exact ⟨file, by rw [files id old, found], prefix_refl _⟩
  created := created
  located id place found := (same id).trans found

/-- The open chunk is new. -/
def Fresh (s : Rotation) : Prop :=
  ∃ w, s.writer.active = some w ∧ w.nextOffset = chunkHeaderLen ∧ w.recordCount = 0

theorem createNext_keeps (lost : s.writer.active = none) :
    Since start s ((createNext {}).run s).1 ∧
      (((createNext {}).run s).2 = .ok () → Fresh ((createNext {}).run s).1) := by
  have same := createAndPublish_sameLocations s.nextHeader (s.files s.writer.nextChunkId).opened {}
    s.catalog
  simp only [createNext]
  split
  · rename_i next
    rcases outcome : createAndPublish s.nextHeader
      (s.files s.writer.nextChunkId).opened {} s.catalog with ⟨opened, catalog, result⟩
    rw [outcome] at same
    rcases createAndPublish_cases outcome with ⟨taken, rfl, failed⟩ |
      ⟨absent, rfl, writer⟩
    · cases result with
      | ok writer => exact absurd rfl (failed writer)
      | error error =>
        have created : (s.files s.writer.nextChunkId).opened.isNone = false := by
          simpa using taken
        simp only [created, Bool.false_and, Bool.false_eq_true, if_false, update_eq_self]
        refine ⟨⟨sound.numbered (UInt64.le_of_lt (nextChunkId_lt next)),
          sound.grows rfl rfl ?_ (prefix_refl _) same⟩, by simp⟩
        intro id _
        rfl
    · have created : (s.files s.writer.nextChunkId).opened.isNone = true := by rw [absent]; rfl
      simp only [created, Option.isSome_some, Bool.and_self, if_true]
      have grows : ∀ active, Grows s
          { writer := { s.writer with nextChunkId := s.writer.nextChunkId + 1, active := active }
            files := Function.update s.files s.writer.nextChunkId
              ⟨some s.nextHeader.encode, (s.files s.writer.nextChunkId).sealed⟩
            catalog := catalog
            created := s.created ++ [s.writer.nextChunkId] } := by
        intro active
        refine sound.grows rfl rfl ?_ (prefix_append _ _) same
        intro id old
        exact update_of_ne old _ _
      cases result with
      | error error =>
        refine ⟨⟨sound.created next ?_, grows _⟩, by simp⟩
        rw [lost]
        simp
      | ok new =>
        obtain rfl := writer new rfl
        refine ⟨⟨sound.created next ?_, grows _⟩, fun _ => ⟨_, rfl, rfl, rfl⟩⟩
        simp
  · exact ⟨⟨sound, .refl s⟩, by simp⟩

theorem rotate_keeps :
    Since start s ((rotate {}).run s).1 ∧
      (((rotate {}).run s).2 = .ok () → Fresh ((rotate {}).run s).1) := by
  obtain ⟨sound', grows⟩ := sealCurrent_keeps sound
  rcases outcome : (sealCurrent {}).run s with ⟨s', _ | _⟩
  · rw [outcome] at sound' grows
    rw [rotate, run_bind_of_error outcome]
    exact ⟨⟨sound', grows⟩, by simp⟩
  · have lost : s'.writer.active = none := by
      cases active : s.writer.active with
      | none =>
        rw [sealCurrent, run_bind_of_error (activeMut_of_none active)] at outcome
        cases outcome
      | some w =>
        rw [sealCurrent, run_bind_of_ok (activeMut_of_some active)] at outcome
        exact congrArg (fun result => result.1.writer.active) outcome.symm
    rw [outcome] at sound' grows
    rw [rotate, run_bind_of_ok outcome]
    obtain ⟨⟨sound'', grows'⟩, fresh⟩ := createNext_keeps sound' lost
    exact ⟨⟨sound'', grows.trans grows'⟩, fresh⟩
end

/-- What the open chunk has room for: within the target, or as its only record. -/
def Room (length : ℕ) (s : Rotation) : Prop :=
  ∀ w, s.writer.active = some w → w.nextOffset + length + sealedChunkFooterLen < 2 ^ 64 ∧
    (w.nextOffset + length + sealedChunkFooterLen ≤ s.writer.targetSize.toNat ∨ w.recordCount = 0)

theorem Fresh.room (fresh : Fresh s)
    (fits : chunkHeaderLen + length + sealedChunkFooterLen < 2 ^ 64) : Room length s := by
  intro w active
  obtain ⟨w', active', offset, count⟩ := fresh
  rw [active, Option.some.injEq] at active'
  subst active'
  exact ⟨by rw [offset]; exact fits, .inr count⟩

/-- A record behind its returned location, with the location the catalog has for it. -/
structure Placed (P : Primitives) (record : ObjectRecord) (location : RotatedRecordLocation)
    (s : Rotation) : Prop where
  verified : verifyObjectRecord P record = .ok ()
  created : location.chunkId ∈ s.created
  length_eq : location.location.recordLength = record.encoding.length
  found : ∃ (header : ChunkHeader) (file : Str), header.generation = location.generation ∧
    header.chunkId = location.chunkId ∧ (s.files location.chunkId).content = some file ∧
    HoldsRecord file header location.location.offset record ∧
    s.catalog.objectLocation record.contentId =
      some (record.locationAt header location.location.offset)

theorem Placed.grows {P : Primitives} {record : ObjectRecord} (placed : Placed P record location s)
    (grows : Grows s s') :
    Placed P record location s' where
  verified := placed.verified
  created := grows.created.subset placed.created
  length_eq := placed.length_eq
  found := by
    obtain ⟨header, file, generation, chunkId, content, holds, located⟩ := placed.found
    obtain ⟨file', content', more, rfl⟩ := grows.files _ placed.created file content
    exact ⟨header, _, generation, chunkId, content', holds.append more, grows.located _ _ located⟩

variable {P : Primitives} {repo : RepoId} {record : ObjectRecord}

theorem Sound.extended (sound : Sound start s) (active : s.writer.active = some w)
    {w' : ChunkWriter} {rs : List ObjectRecord}
    (header_eq : w'.header = w.header) (holds : w'.Holds rs)
    (bounded : Bounded s.writer.targetSize.toNat rs) (longer : w.file <+: w'.file)
    (located : ∀ id place, s.catalog.objectLocation id = some place →
      catalog.objectLocation id = some place) :
    Since start s (s.withChunk (some w') w.header.chunkId
      ⟨some w'.file, (s.files w.header.chunkId).sealed⟩ catalog) := by
  have chunk := sound.active w active
  constructor
  · refine sound.withChunk chunk.created ?_ fun file => sound.sealed _ file
    intro w'' same
    cases same
    refine ⟨⟨rs, holds, bounded⟩, ?_, ?_, ?_⟩
    · rw [withChunk_files, header_eq, update_self, chunk.files_eq]
    · rw [header_eq]
      exact chunk.generation_eq
    · rw [header_eq]
      exact chunk.created
  · refine .withChunk ?_ located
    intro file found
    rw [chunk.files_eq] at found
    cases found
    exact ⟨w'.file, rfl, longer⟩

theorem appendTo_keeps (P : Primitives) (repo : RepoId) (sound : Sound start s)
    (active : s.writer.active = some w) (room : Room record.encoding.length s) :
    Since start s ((appendTo P w {} repo record).run s).1 ∧
    ∀ out, ((appendTo P w {} repo record).run s).2 = .ok out → ∀ location, out.2 = some location →
      ∀ oversized, Placed P record ⟨s.writer.generation, out.1, location, oversized⟩
        ((appendTo P w {} repo record).run s).1 := by
  have chunk := sound.active w active
  obtain ⟨rs, holds, bounded⟩ := chunk.records
  obtain ⟨fits, within⟩ := room w active
  have next : w.nextOffset + record.encoding.length < 2 ^ 64 := by omega
  rcases outcome : w.appendAndIndex P s.catalog {} repo s.writer.generation w.header.chunkId
    record with ⟨w', catalog, result⟩
  simp only [appendTo, outcome]
  rcases appendAndIndex_cases next holds.behind.recordCount_lt outcome with
    ⟨rfl, same, nothing⟩ | ⟨missing, verified, recordFits, rfl, published⟩
  · refine ⟨sound.extended active rfl holds bounded (prefix_refl _)
      fun id place found => (same id).trans found, ?_⟩
    intro out same location found
    cases result with
    | error error => cases same
    | ok appended =>
      cases same
      exact absurd (congrArg Except.ok found) (nothing location)
  · have holds' := holds.appended recordFits next
    have bounded' : Bounded s.writer.targetSize.toNat (rs ++ [record]) := by
      apply bounded_append
      rw [← holds.behind.nextOffset_eq]
      refine within.imp_right fun empty => ?_
      rw [holds.behind.recordCount_eq] at empty
      exact length_eq_zero_iff.mp empty
    have longer : w.file <+: (w.appended record.encoding).synced.file := by
      change w.file <+: writeAt w.file w.nextOffset record.encoding
      rw [holds.written]
      exact prefix_append _ _
    rcases published with ⟨rfl, nothing⟩ | ⟨rfl, applied⟩
    · refine ⟨sound.extended active rfl holds' bounded' longer fun _ _ found => found, ?_⟩
      intro out same location found
      cases result with
      | error error => cases same
      | ok appended =>
        cases same
        exact absurd (congrArg Except.ok found) (nothing location)
    · have located := indexBatch_objectLocation applied
      refine ⟨sound.extended active rfl holds' bounded' longer ?_, ?_⟩
      · intro id place found
        rw [located, if_neg, found]
        rintro rfl
        rw [missing] at found
        cases found
      · intro out same location found oversized
        cases same
        cases found
        refine ⟨verified, chunk.created, rfl, w.header, (w.appended record.encoding).synced.file,
          chunk.generation_eq, rfl, ?_, holds.holdsRecord recordFits next, ?_⟩
        · rw [withChunk_files, update_self]
          rfl
        · exact (located _).trans (if_pos rfl)

theorem encodedLength_eq_ok_iff : encodedLength record = .ok length ↔
    record.Fits ∧ length = record.encoding.length ∧
      chunkHeaderLen + length + sealedChunkFooterLen < 2 ^ 64 := by
  simp only [encodedLength, bind_eq_ok_iff, mapErr_eq_ok, encodeRecord_eq_ok_iff,
    exists_require, pure, Except.pure, ok.injEq]
  constructor
  · rintro ⟨_, ⟨fits, rfl⟩, room, rfl⟩
    exact ⟨fits, rfl, room⟩
  · rintro ⟨fits, rfl, room⟩
    exact ⟨_, ⟨fits, rfl⟩, room, rfl⟩

variable {origin : Rotation}

theorem Since.step (since : Since start origin s) (step : Since start s s') :
    Since start origin s' :=
  ⟨step.1, since.2.trans step.2⟩

theorem wouldExceedTarget_room (length : ℕ) :
    Fallible.Triple (Since start origin) (wouldExceedTarget length) fun result s =>
      Since start origin s ∧ ∀ exceeds, result = .ok exceeds → exceeds = false → Room length s := by
  intro s since
  cases active : s.writer.active with
  | none =>
    rw [wouldExceedTarget, run_bind_of_error (activeMut_of_none active)]
    exact ⟨since, by simp⟩
  | some w =>
    rw [run_wouldExceedTarget active]
    split
    · rename_i fits
      refine ⟨since, ?_⟩
      intro exceeds same no w' active'
      obtain rfl := Option.some.inj (active.symm.trans active')
      cases same
      simp only [Bool.and_eq_false_iff, decide_eq_false_iff_not, not_lt, bne_eq_false_iff_eq] at no
      exact ⟨fits, no⟩
    · exact ⟨since, by simp⟩

theorem rotateIf_room (needed : Bool)
    (fits : chunkHeaderLen + length + sealedChunkFooterLen < 2 ^ 64) :
    Fallible.Triple (fun s => Since start origin s ∧ (needed = false → Room length s))
      (rotateIf needed {}) fun result s =>
        Since start origin s ∧ (result = .ok () → Room length s) := by
  intro s h
  cases needed with
  | true =>
    obtain ⟨kept, fresh⟩ := rotate_keeps h.1.1
    exact ⟨h.1.step kept, fun ok => (fresh ok).room fits⟩
  | false => exact ⟨h.1, fun _ => h.2 rfl⟩

theorem rotateIf_placed (needed : Bool) :
    Fallible.Triple (fun s => Since start origin s ∧ Placed P record location s)
      (rotateIf needed {}) fun _ s => Since start origin s ∧ Placed P record location s := by
  intro s h
  cases needed with
  | true =>
    have kept := (rotate_keeps h.1.1).1
    exact ⟨h.1.step kept, h.2.grows kept.2⟩
  | false => exact h

theorem appendActive_placed :
    Fallible.Triple (fun s => Since start origin s ∧ Room record.encoding.length s)
      (appendActive P {} repo record) fun result s => Since start origin s ∧
        ∀ out, result = .ok out → ∀ location, out.2 = some location → ∀ oversized,
          Placed P record ⟨origin.writer.generation, out.1, location, oversized⟩ s := by
  intro s h
  cases active : s.writer.active with
  | none =>
    rw [appendActive, run_bind_of_error (activeMut_of_none active)]
    exact ⟨h.1, by simp⟩
  | some w =>
    rw [appendActive, run_bind_of_ok (activeMut_of_some active)]
    obtain ⟨kept, placed⟩ := appendTo_keeps P repo h.1.1 active h.2
    rw [← h.1.2.generation_eq]
    exact ⟨h.1.step kept, placed⟩

/-- Whether the record is too large for an empty chunk of the target size. -/
def Oversized (s : Rotation) (record : ObjectRecord) : Prop :=
  s.writer.targetSize.toNat < chunkHeaderLen + record.encoding.length + sealedChunkFooterLen

/-- What a call leaves: the invariant, and the record behind each location it returns. -/
def Appended (P : Primitives) (start : UInt64 → ChunkFiles) (origin : Rotation)
    (record : ObjectRecord) (result : Except Stop (Option RotatedRecordLocation)) (s : Rotation) :
    Prop :=
  Since start origin s ∧ ∀ location, result = .ok (some location) → Placed P record location s ∧
    (location.dedicatedOversized = true ↔ Oversized origin record)

theorem appendNew_appended (repo : RepoId) (record : ObjectRecord) :
    Fallible.Triple (Since start origin) (appendNew P ⟨repo, record, {}⟩)
      (Appended P start origin record) := by
  unfold appendNew
  apply Fallible.Triple.ofExcept
  · intro length encoded s since
    obtain ⟨_, rfl, fits⟩ := encodedLength_eq_ok_iff.mp (mapErr_eq_ok.mp encoded)
    have flag : s.oversized record.encoding.length = true ↔ Oversized origin record := by
      rw [Rotation.oversized, since.2.targetSize_eq, decide_eq_true_iff, Oversized]
    rw [run_gets_bind]
    refine Fallible.Triple.bind (wouldExceedTarget_room record.encoding.length)
      (fun _ h => h) ?_ ?_ s since
    · intro exceeds
      refine Fallible.Triple.bind (rotateIf_room exceeds fits)
        (fun _ h => ⟨h.1, h.2 exceeds rfl⟩) ?_ ?_
      · intro _ t ready
        rw [run_gets_bind, ready.1.2.generation_eq]
        refine Fallible.Triple.bind appendActive_placed (fun _ h => h) ?_ ?_ t
          ⟨ready.1, ready.2 rfl⟩
        · intro out
          apply Fallible.Triple.ofExcept
          · intro location found t appended
            have place := ofOption_eq_ok.mp found
            have placed := appended.2 out rfl location place (s.oversized record.encoding.length)
            refine Fallible.Triple.bind (rotateIf_placed (s.oversized record.encoding.length))
              (fun _ h => h) ?_ ?_ t ⟨appended.1, placed⟩
            · intro _ t h
              refine ⟨h.1, ?_⟩
              intro result same
              cases same
              exact ⟨h.2, flag⟩
            · intro stop t h
              exact ⟨h.1, by simp⟩
          · intro stop _ t appended
            exact ⟨appended.1, by simp⟩
        · intro stop t h
          exact ⟨h.1, by simp⟩
      · intro stop t h
        exact ⟨h.1, by simp⟩
    · intro stop t h
      exact ⟨h.1, by simp⟩
  · intro stop _ s since
    exact ⟨since, by simp⟩

/-- A call for content with a location changes nothing but the catalog. -/
theorem appendKnown_run (sound : Sound start s) (call : AppendCall) {place : ObjectLocation}
    (known : s.catalog.objectLocation call.record.contentId = some place) :
    ∃ catalog, ((appendKnown P call).run s).1 = { s with catalog := catalog } ∧
      SameLocations s.catalog catalog ∧
      ∀ location, ((appendKnown P call).run s).2 ≠ .ok (some location) := by
  rw [appendKnown, run_gets_bind]
  cases active : s.writer.active with
  | none =>
    have panics : (appendActive P call.faults.append call.repo call.record).run s =
        (s, .error (.panic noActiveChunk)) := by
      rw [appendActive, run_bind_of_error (activeMut_of_none active)]
    rw [run_bind_of_error panics]
    exact ⟨s.catalog, rfl, fun _ => rfl, by simp⟩
  | some w =>
    rcases outcome : w.appendAndIndex P s.catalog call.faults.append call.repo s.writer.generation
      w.header.chunkId call.record with ⟨w', catalog, result⟩
    obtain ⟨rfl, same, nothing⟩ := appendAndIndex_known known outcome
    have unchanged : s.withChunk (some w') w'.header.chunkId
        ⟨some w'.file, (s.files w'.header.chunkId).sealed⟩ catalog =
        { s with catalog := catalog } := by
      have files := (sound.active w' active).files_eq
      have sealed := congrArg ChunkFiles.sealed files
      rw [sealed, ← files, withChunk, update_eq_self, ← active]
    have run : (appendActive P call.faults.append call.repo call.record).run s =
        ({ s with catalog := catalog },
          (Except.mapErr Stop.error result).map fun out => (w'.header.chunkId, out)) := by
      rw [appendActive, run_bind_of_ok (activeMut_of_some active)]
      simp only [appendTo, outcome, unchanged]
    refine ⟨catalog, ?_⟩
    cases result with
    | error error =>
      rw [run_bind_of_error run]
      exact ⟨rfl, same, by simp⟩
    | ok out =>
      rw [run_bind_of_ok run]
      refine ⟨rfl, same, ?_⟩
      intro location found
      cases out with
      | none => cases found
      | some other => exact nothing other rfl

theorem appendAndIndex_appended (repo : RepoId) (record : ObjectRecord) :
    Fallible.Triple (Since start origin) (appendAndIndex P ⟨repo, record, {}⟩)
      (Appended P start origin record) := by
  intro s since
  rw [appendAndIndex, run_gets_bind]
  cases known : s.catalog.objectLocation record.contentId with
  | none => exact appendNew_appended repo record s since
  | some place =>
    obtain ⟨catalog, run, same, nothing⟩ :=
      appendKnown_run (P := P) since.1 ⟨repo, record, {}⟩ known
    simp only [Option.isSome_some, if_true]
    rw [run]
    refine ⟨since.step ⟨since.1.numbered (UInt64.le_refl _), ?_⟩, ?_⟩
    · exact since.1.grows rfl rfl (fun _ _ => rfl) (prefix_refl _) same
    · intro location found
      exact absurd found (nothing location)

/-- Call after call the invariant is kept, and every location that was returned still leads to its
record. -/
theorem run_appended (calls : List AppendCall) (quiet : ∀ call ∈ calls, call.faults = {})
    (since : Since start origin s) :
    Since start origin (run P s calls).1 ∧
      ∀ pair ∈ calls.zip (run P s calls).2, ∀ location, pair.2 = .ok (some location) →
        Placed P pair.1.record location (run P s calls).1 ∧
          (location.dedicatedOversized = true ↔ Oversized origin pair.1.record) := by
  induction calls generalizing s origin with
  | nil => exact ⟨since, by simp⟩
  | cons call calls ih =>
    obtain ⟨repo, record, faults⟩ := call
    have silent : faults = {} := quiet _ mem_cons_self
    subst silent
    have later := fun call mem => quiet call (mem_cons_of_mem _ mem)
    obtain ⟨since', here⟩ := appendAndIndex_appended (P := P) repo record s since
    obtain ⟨last, behind⟩ := ih later since'
    have grows := (ih later ⟨since'.1, .refl _⟩).1.2
    refine ⟨last, ?_⟩
    intro pair mem location found
    rcases mem_cons.mp mem with rfl | mem
    · obtain ⟨placed, flag⟩ := here location found
      exact ⟨placed.grows grows, flag⟩
    · exact behind pair mem location found

theorem create_sound {generation : UInt32}
    {firstChunkId targetSize createdUnixSecs : UInt64}
    (created : create start catalog generation firstChunkId targetSize createdUnixSecs {} =
      (s, .ok ())) : Sound start s ∧ s.writer.targetSize = targetSize := by
  simp only [create] at created
  split at created
  · cases created
  rename_i large
  have sound : Sound start ⟨⟨generation, targetSize, createdUnixSecs, firstChunkId, none⟩, start,
      catalog, []⟩ := by
    constructor
    · exact not_lt.mp large
    · simp
    · intro id file found fresh
      rw [fresh] at found
      cases found
    · exact List.Pairwise.nil
    · simp
    · simp
  have kept := (createNext_keeps sound rfl).1
  rw [created] at kept
  exact ⟨kept.1, kept.2.targetSize_eq⟩

/-- Reading at a returned location, as the catalog has it, gives the record. -/
def ReadsBack (P : Primitives) (s : Rotation) (record : ObjectRecord)
    (location : RotatedRecordLocation) : Prop :=
  ∃ file place, (s.files location.chunkId).content = some file ∧
    s.catalog.objectLocation record.contentId = some place ∧
    place.generation = location.generation ∧ place.chunkId = location.chunkId ∧
    place.offset.toNat = location.location.offset ∧
    place.recordLength.toNat = location.location.recordLength ∧
    readRecordAt P file place = .ok record

theorem Placed.readsBack (placed : Placed P record location s)
    (small : record.encoding.length ≤ maxRecoveryRecordBytes) : ReadsBack P s record location := by
  obtain ⟨header, file, generation, chunkId, content, holds, located⟩ := placed.found
  refine ⟨file, _, content, located, generation, chunkId, holds.toNat_offset, ?_,
    holds.readRecordAt small placed.verified⟩
  rw [holds.toNat_recordLength, placed.length_eq]

theorem Bounded.sealedLength {rs : List ObjectRecord} {header : ChunkHeader}
    {footer : SealedChunkFooter} (bounded : Bounded target rs) :
    (header.encode ++ encodings rs ++ footer.encode).length ≤ target ∨ ∃ r, rs = [r] ∧
      target < chunkHeaderLen + r.encoding.length + sealedChunkFooterLen := by
  refine bounded.imp_left fun within => ?_
  simpa [chunkHeaderLen, sealedChunkFooterLen, Nat.add_assoc] using within
end Steps

/-- Without I/O errors a rotating writer keeps every chunk it seals within its target or to one
record beyond it, numbers its chunks upwards, returns locations that lead to their records,
rotates for no content that has a location, and flags exactly the records that no empty chunk of
the target size could take. -/
theorem rotation_bounds (P : Primitives) {start : UInt64 → ChunkFiles} {catalog : InMemoryCatalog}
    {generation : UInt32} {firstChunkId targetSize createdUnixSecs : UInt64} {origin : Rotation}
    {calls : List AppendCall}
    (created : create start catalog generation firstChunkId targetSize createdUnixSecs {} =
      (origin, .ok ()))
    (quiet : ∀ call ∈ calls, call.faults = {})
    (small : ∀ call ∈ calls, call.record.encoding.length ≤ maxRecoveryRecordBytes) :
    (∀ id file, ((run P origin calls).1.files id).sealed = some file → (start id).sealed = none →
      ∃ (header : ChunkHeader) (rs : List ObjectRecord) (footer : SealedChunkFooter),
        file = header.encode ++ encodings rs ++ footer.encode ∧
        (file.length ≤ targetSize.toNat ∨ ∃ r, rs = [r] ∧
          targetSize.toNat < chunkHeaderLen + r.encoding.length + sealedChunkFooterLen)) ∧
    (run P origin calls).1.created.Pairwise (· < ·) ∧
    (∀ pair ∈ calls.zip (run P origin calls).2, ∀ location, pair.2 = .ok (some location) →
      ReadsBack P (run P origin calls).1 pair.1.record location ∧
      (location.dedicatedOversized = true ↔
        targetSize.toNat <
          chunkHeaderLen + pair.1.record.encoding.length + sealedChunkFooterLen)) ∧
    ∀ front call rest, calls = front ++ call :: rest →
      ((run P origin front).1.catalog.objectLocation call.record.contentId).isSome →
      ∃ catalog', ((appendAndIndex P call).run (run P origin front).1).1 =
        { (run P origin front).1 with catalog := catalog' } := by
  obtain ⟨sound, target_eq⟩ := create_sound created
  have begin : Since start origin origin := ⟨sound, .refl origin⟩
  obtain ⟨⟨final, grows⟩, returned⟩ := run_appended (P := P) calls quiet begin
  refine ⟨?_, final.ascending, ?_, ?_⟩
  · intro id file found fresh
    obtain ⟨header, rs, footer, rfl, bounded⟩ := final.sealed id file found fresh
    rw [grows.targetSize_eq, target_eq] at bounded
    exact ⟨header, rs, footer, rfl, bounded.sealedLength⟩
  · intro pair member location found
    obtain ⟨placed, flag⟩ := returned pair member location found
    refine ⟨placed.readsBack (small pair.1 (List.of_mem_zip member).1), ?_⟩
    rw [flag, Oversized, target_eq]
  · intro front call rest split known
    have quietFront : ∀ call ∈ front, call.faults = {} := by
      intro other member
      apply quiet
      rw [split]
      exact List.mem_append_left _ member
    have reached := (run_appended (P := P) front quietFront begin).1.1
    obtain ⟨place, located⟩ := Option.isSome_iff_exists.mp known
    obtain ⟨catalog', same, _⟩ := appendKnown_run (P := P) reached call located
    refine ⟨catalog', ?_⟩
    rw [appendAndIndex, Fallible.run_gets_bind, if_pos known, same]

def narrowCall : AppendCall := ⟨⟨.replicate 16 0⟩, ChunkWriter.emptyBlob, {}⟩

theorem rotation_bounds_narrow : ∃ file,
    ((run .reference narrow [narrowCall]).1.files 0).sealed = some file ∧
    ∃ (header : ChunkHeader) (rs : List ObjectRecord) (footer : SealedChunkFooter),
      file = header.encode ++ encodings rs ++ footer.encode ∧
      (file.length ≤ UInt64.toNat 128 ∨ ∃ r, rs = [r] ∧
        UInt64.toNat 128 < chunkHeaderLen + r.encoding.length + sealedChunkFooterLen) := by
  have ok : (create (fun _ => ⟨none, none⟩) {} 1 0 128 0 {}).2 = .ok () := by decide +kernel
  have created : create (fun _ => ⟨none, none⟩) {} 1 0 128 0 {} = (narrow, .ok ()) :=
    Prod.ext rfl ok
  have length : narrowCall.record.encoding.length ≤ maxRecoveryRecordBytes := by decide +kernel
  have small : ∀ call ∈ [narrowCall], call.record.encoding.length ≤ maxRecoveryRecordBytes := by
    intro call member
    rw [List.mem_singleton.mp member]
    exact length
  have quiet : ∀ call ∈ [narrowCall], call.faults = {} := by
    intro call member
    rw [List.mem_singleton.mp member]
    rfl
  have rotated : ((run .reference narrow [narrowCall]).1.files 0).sealed.isSome := by
    decide +kernel
  obtain ⟨file, found⟩ := Option.isSome_iff_exists.mp rotated
  exact ⟨file, found, (rotation_bounds .reference created quiet small).1 0 file found rfl⟩
end Rotation
end ReflinkForest
