import ReflinkForest.Store.CrashSafety
import ReflinkForest.Store.SealedChunk

/-! The life of chunks: which catalog states follow which, and which file bytes are final. -/
namespace ReflinkForest
open Bytes Except List InMemoryCatalog ChunkWriter Function Option

abbrev ChunkKey := UInt32 × UInt64

def ChunkHeader.key (header : ChunkHeader) : ChunkKey := (header.generation, header.chunkId)

/-- The catalog's entry for a chunk. -/
def InMemoryCatalog.chunkAt (c : InMemoryCatalog) (key : ChunkKey) : Option ChunkMetadata :=
  c.chunk key.1 key.2

/-- Chunk files, live writers and the catalog. A chunk has at most one live writer. -/
structure ChunkWorld where
  files : ChunkKey → ChunkFiles
  writers : ChunkKey → Option ChunkWriter
  catalog : InMemoryCatalog

/-- The operations on chunks. A fault of `createAndPublish` or `sealAndPublish` is the step in
front of which the call stops, by an error or by a crash. A crash leaves of a chunk that is being
written an image that extends what was synchronised. -/
inductive ChunkOperation where
  | createAndPublish (header : ChunkHeader) (faults : CreateFaults)
  | openRecovered (key : ChunkKey)
  | publishOpen (key : ChunkKey) (fault : Option String)
  | appendAndIndex (key : ChunkKey) (fault : Option String) (repo : RepoId) (generation : UInt32)
      (chunkId : UInt64) (record : ObjectRecord)
  | sealAndPublish (key : ChunkKey) (faults : SealFaults)
  | reconcileChunk (key : ChunkKey) (suffix : ChunkSuffix) (fault : Option String)
  | crash (image : ChunkKey → Str)

namespace ChunkWorld
def set (s : ChunkWorld) (key : ChunkKey) (files : ChunkFiles) (writer : Option ChunkWriter)
    (catalog : InMemoryCatalog) : ChunkWorld where
  files := Function.update s.files key files
  writers := Function.update s.writers key writer
  catalog := catalog

/-- What a crash leaves of a chunk. -/
def crashed (files : ChunkFiles) (writer : Option ChunkWriter) (image : Str) : ChunkFiles :=
  match writer with
  | none => files
  | some w => if w.durable <+: image then ⟨some image, files.sealed⟩ else files

def step (P : Primitives) (s : ChunkWorld) : ChunkOperation → ChunkWorld
  | .createAndPublish header faults =>
    if (s.writers header.key).isSome then s
    else
      match ChunkWriter.createAndPublish header (s.files header.key).opened faults s.catalog with
      | (opened, catalog, result) =>
        s.set header.key ⟨opened, (s.files header.key).sealed⟩ result.toOption catalog
  | .openRecovered key =>
    match s.writers key, (s.files key).opened with
    | none, some file =>
      match ChunkWriter.openRecovered P file with
      | .error _ => s
      | .ok (writer, _) =>
        s.set key ⟨some writer.file, (s.files key).sealed⟩ (some writer) s.catalog
    | _, _ => s
  | .publishOpen key fault =>
    match s.writers key with
    | none => s
    | some writer =>
      match writer.publishOpen fault s.catalog with
      | .error _ => s
      | .ok catalog => { s with catalog := catalog }
  | .appendAndIndex key fault repo generation chunkId record =>
    match s.writers key with
    | none => s
    | some writer =>
      match writer.appendAndIndex P s.catalog { catalog := fault } repo generation chunkId
          record with
      | (writer', catalog, _) =>
        s.set key ⟨some writer'.file, (s.files key).sealed⟩ (some writer') catalog
  | .sealAndPublish key faults =>
    match s.writers key with
    | none => s
    | some writer =>
      match writer.sealAndPublish s.catalog (s.files key).sealed faults with
      | (files, catalog, _) => s.set key files none catalog
  | .reconcileChunk key suffix fault =>
    if (s.writers key).isSome then s
    else
      let outcome := reconcileChunk P fault s.catalog suffix (s.files key)
      s.set key outcome.files none outcome.catalog
  | .crash image =>
    { s with
      files := fun key => crashed (s.files key) (s.writers key) (image key)
      writers := fun _ => none }

def run (P : Primitives) (s : ChunkWorld) (operations : List ChunkOperation) : ChunkWorld :=
  operations.foldl (step P) s
end ChunkWorld

section Catalog
variable {c c' : InMemoryCatalog} {key : ChunkKey}

/-- The entry of one chunk goes from absent or open to open. -/
structure Opens (key : ChunkKey) (c c' : InMemoryCatalog) : Prop where
  others : ∀ other, other ≠ key → c'.chunkAt other = c.chunkAt other
  before : ∀ m, c.chunkAt key = some m → m.state = .opened
  after : ∃ m, c'.chunkAt key = some m ∧ m.state = .opened

/-- The entry of one chunk becomes sealed unless it was retired. -/
structure Seals (key : ChunkKey) (c c' : InMemoryCatalog) : Prop where
  others : ∀ other, other ≠ key → c'.chunkAt other = c.chunkAt other
  before : ∀ m, c.chunkAt key = some m → m.state ≠ .retired
  after : ∃ m, c'.chunkAt key = some m ∧ m.state = .sealed

variable {header : ChunkHeader} {fault : Option String} {w' : ChunkWriter} {faults : AppendFaults}
  {repo : RepoId} {generation : UInt32} {chunkId : UInt64}
  {result : Except StoreError (Option RecordLocation)} {file : Str}

theorem chunkAt_chunkMetadata {m : ChunkMetadata}
    (applied : applyWith fault c [.chunkMetadata header.generation header.chunkId m] = .ok c') :
    (∀ other, other ≠ header.key → c'.chunkAt other = c.chunkAt other) ∧
      c'.chunkAt header.key = some m := by
  rw [apply_eq_foldl (applyWith_eq_ok applied)]
  simp only [foldl_cons, foldl_nil, InMemoryCatalog.stage, InMemoryCatalog.chunkAt,
    InMemoryCatalog.chunk, ChunkHeader.key, FinMap.lookup_insert_eq]
  exact ⟨fun other different => if_neg different, if_pos trivial⟩

theorem ChunkWriter.publishOpen_opens {w : ChunkWriter}
    (published : w.publishOpen fault c = .ok c') : Opens w.header.key c c' := by
  simp only [publishOpen, bind_eq_ok_iff] at published
  obtain ⟨_, writable, applied⟩ := published
  obtain ⟨others, entry⟩ := chunkAt_chunkMetadata applied
  exact ⟨others, ensureCatalogWritable_eq_ok_iff.mp writable, _, entry, rfl⟩

theorem publishSealedMetadata_seals {footer : SealedChunkFooter}
    (published : publishSealedMetadata fault c header footer = .ok c') :
    Seals header.key c c' := by
  simp only [publishSealedMetadata, bind_eq_ok_iff] at published
  obtain ⟨_, allowed, applied⟩ := published
  obtain ⟨others, entry⟩ := chunkAt_chunkMetadata applied
  refine ⟨others, ?_, _, entry, rfl⟩
  intro m found
  change c.chunk header.generation header.chunkId = some m at found
  simpa [ensureNotRetired, found] using allowed

/-- The writer after a call, and the catalog after one that fails. -/
theorem ChunkWriter.appendAndIndex_outcome {P : Primitives} {w : ChunkWriter}
    {record : ObjectRecord}
    (h : w.appendAndIndex P c faults repo generation chunkId record = (w', c', result)) :
    (w' = w ∨ w' = (w.append P faults.write record).1 ∨
      w' = (w.append P faults.write record).1.synced) ∧ (c' = c ∨ ∃ out, result = .ok out) := by
  cases appendAndIndex_appendOutcome h with
  | refused e => exact ⟨.inl rfl, .inl rfl⟩
  | aliased _ _ _ => exact ⟨.inl rfl, .inr ⟨_, rfl⟩⟩
  | notAppended _ failed => exact ⟨.inr (.inl (by rw [failed])), .inl rfl⟩
  | notSynced _ appended _ _ => exact ⟨.inr (.inl (by rw [appended])), .inl rfl⟩
  | notPublished _ appended _ => exact ⟨.inr (.inr (by rw [appended])), .inl rfl⟩
  | published _ _ appended _ => exact ⟨.inr (.inr (by rw [appended])), .inr ⟨_, rfl⟩⟩

theorem ChunkWriter.appendAndIndex_catalog {P : Primitives} {w : ChunkWriter}
    {record : ObjectRecord}
    (h : w.appendAndIndex P c faults repo generation chunkId record = (w', c', result)) :
    (∀ key, c'.chunkAt key = c.chunkAt key) ∨ Opens w.header.key c c' := by
  rcases (appendAndIndex_outcome h).2 with rfl | ⟨out, rfl⟩
  · exact .inl fun _ => rfl
  obtain ⟨writable, ⟨_, _, _, _, applied⟩ | ⟨_, _, _, _, rfl, _, applied⟩⟩ :=
    appendAndIndex_eq_ok h
  · exact .inl fun key => aliasBatch_chunk applied key.1 key.2
  · have entry := indexBatch_chunk applied
    refine .inr ⟨?_, ensureCatalogWritable_eq_ok_iff.mp writable, openMetadata _, entry, rfl⟩
    intro other different
    rw [apply_eq_foldl applied]
    simp only [indexBatch, foldl_cons, foldl_nil, InMemoryCatalog.stage,
      InMemoryCatalog.chunkAt, InMemoryCatalog.chunk, FinMap.lookup_insert_eq]
    exact if_neg different

theorem ChunkWriter.createAndPublish_catalog {existing opened : Option Str}
    {faults : CreateFaults} {result : Except StoreError ChunkWriter}
    (h : createAndPublish header existing faults c = (opened, c', result)) :
    c' = c ∨ Opens header.key c c' := by
  cases createAndPublish_createOutcome h with
  | refused _ _ | torn _ _ _ | notPublished _ _ => exact .inl rfl
  | published _ applied => exact .inr (publishOpen_opens applied)

/-- Sealing stops with the `.open` name in place, or renames the sealed file. -/
theorem ChunkWriter.sealAndPublish_outcome {w : ChunkWriter} {sealedExists : Option Str}
    {faults : SealFaults} {files : ChunkFiles} {result : Except StoreError SealedChunk}
    (h : w.sealAndPublish c sealedExists faults = (files, c', result)) :
    (files.sealed = sealedExists ∧ c' = c ∧ ∃ file, files.opened = some file ∧
      (file = w.file ∨ ∃ data, file = writeAt w.file w.nextOffset data)) ∨
    (sealedExists = none ∧ files = ⟨none, some w.sealedFile⟩ ∧
      (c' = c ∨ Seals w.header.key c c')) := by
  cases sealAndPublish_sealOutcome h with
  | refused _ => exact .inl ⟨rfl, rfl, _, rfl, .inl rfl⟩
  | notRenamed absent data _ _ => exact .inl ⟨absent.symm, rfl, _, rfl, .inr ⟨data, rfl⟩⟩
  | notPublished absent _ => exact .inr ⟨absent, rfl, .inl rfl⟩
  | published absent _ applied =>
    exact .inr ⟨absent, rfl, .inr (publishSealedMetadata_seals applied)⟩

/-- What a reconciliation does to a chunk's files and to the catalog. -/
inductive ChunkReconciled (P : Primitives) (c : InMemoryCatalog) (files : ChunkFiles) :
    ChunkFiles → InMemoryCatalog → Prop
  | kept : ChunkReconciled P c files files c
  | published {file : Str} {header : ChunkHeader} {c' : InMemoryCatalog}
      (found : files.sealed = some file) (named : header.encode <+: file)
      (seals : Seals header.key c c') : ChunkReconciled P c files files c'
  | renamed {file : Str} {v : VerifiedSealedChunk} {c' : InMemoryCatalog}
      (found : files = ⟨some file, none⟩) (verified : verifySealedFile P file = .ok v)
      (seals : c' = c ∨ Seals v.header.key c c') : ChunkReconciled P c files ⟨none, some file⟩ c'
  | truncated {file recovered : Str} {header : ChunkHeader} {c' : InMemoryCatalog}
      (found : files = ⟨some file, none⟩) (unsealed : isSealed P file = false)
      (named : header.encode <+: file) (kept : header.encode <+: recovered)
      (opens : c' = c ∨ Opens header.key c c') : ChunkReconciled P c files ⟨some recovered, none⟩ c'

theorem header_prefix_of_verified {P : Primitives} {v : VerifiedSealedChunk}
    (verified : verifySealedFile P file = .ok v) : v.header.encode <+: file := by
  rw [(verifySealedFile_eq_ok verified).1, append_assoc]
  exact prefix_append _ _

theorem reconcileOpen_reconciled {P : Primitives} (fault : Option String)
    (unsealed : isSealed P file = false) :
    ChunkReconciled P c ⟨some file, none⟩ (reconcileOpen P fault c file).files
      (reconcileOpen P fault c file).catalog := by
  unfold reconcileOpen
  split
  · exact .kept
  rename_i writable
  obtain ⟨header, read, _⟩ := bind_eq_ok_iff.mp writable
  rw [readChunkHeader_eq_ok_iff] at read
  obtain ⟨kept, scannable, inside, recovered, _⟩ := recoverFile_eq (P := P) read
  have named : header.encode <+: header.encode ++ encodings kept := prefix_append _ _
  simp only [recovered, openRecovered_records_eq header scannable]
  split
  · exact .truncated rfl unsealed read named (.inl rfl)
  · rename_i published
    exact .truncated rfl unsealed read named (.inr (publishOpen_opens published))

theorem reconcileChunk_reconciled (P : Primitives) (fault : Option String) (c : InMemoryCatalog)
    (suffix : ChunkSuffix) (files : ChunkFiles) :
    ChunkReconciled P c files (reconcileChunk P fault c suffix files).files
      (reconcileChunk P fault c suffix files).catalog := by
  unfold reconcileChunk
  split
  · exact .kept
  split
  · exact .kept
  · exact .kept
  · split
    · exact .kept
    · rename_i published
      simp only [bind_eq_ok_iff, pure, Except.pure, ok.injEq, Prod.mk.injEq]
        at published
      obtain ⟨v, verified, _, sealed, rfl, rfl⟩ := published
      exact .published rfl (header_prefix_of_verified verified) (publishSealedMetadata_seals sealed)
  · split
    · rename_i verified
      split
      · exact .renamed rfl verified (.inl rfl)
      · exact .renamed rfl verified (.inr (publishSealedMetadata_seals ‹_›))
    · rename_i rejected
      apply reconcileOpen_reconciled
      rw [isSealed, rejected]
      rfl
end Catalog

section Shape
variable {P : Primitives} {key : ChunkKey} {w : ChunkWriter}

/-- A header in front of the file names this chunk. -/
def Named (key : ChunkKey) (file : Str) : Prop :=
  ∀ header : ChunkHeader, header.encode <+: file → header.key = key

variable {header : ChunkHeader} {file : Str}

theorem named_of_prefix (here : header.encode <+: file) :
    Named header.key file := by
  intro other found
  rw [header_unique file found here]

/-- Part of a header names the same chunk or none. -/
theorem named_take (header : ChunkHeader) (n : ℕ) : Named header.key (header.encode.take n) := by
  intro other found
  rw [header_unique header.encode (found.trans (List.take_prefix _ _)) (prefix_refl _)]

theorem prefix_writeAt {front : Str} {offset : ℕ} (inside : front <+: file)
    (before : front.length ≤ offset) (data : Str) : front <+: writeAt file offset data := by
  obtain ⟨rest, rfl⟩ := inside
  rw [writeAt, append_assoc, append_assoc, take_append]
  rw [take_of_length_le before, append_assoc]
  exact prefix_append _ _

theorem length_le_writeAt (file : Str) (offset : ℕ) (data : Str) :
    file.length ≤ (writeAt file offset data).length ∧
      offset + data.length ≤ (writeAt file offset data).length := by
  simp only [writeAt, length_append, length_take, length_replicate, length_drop]
  omega

/-- A writer of the chunk `key`: its file is a header and complete records, or longer than the
64-bit lengths a footer can state. -/
structure Live (key : ChunkKey) (w : ChunkWriter) : Prop where
  key_eq : w.header.key = key
  offset_ge : chunkHeaderLen ≤ w.nextOffset
  durable_named : w.header.encode <+: w.durable
  file_named : w.header.encode <+: w.file
  shape : (w.nextOffset = w.file.length ∧ ∃ rs, (∀ r ∈ rs, ObjectRecord.Fits r) ∧
    w.file = w.header.encode ++ encodings rs) ∨ 2 ^ 64 ≤ w.file.length

theorem create_live (header : ChunkHeader) : Live header.key (.create header) where
  key_eq := rfl
  offset_ge := le_rfl
  durable_named := prefix_refl _
  file_named := prefix_refl _
  shape := .inl ⟨header.length_encode.symm, [], by simp, by simp [create]⟩

theorem Live.named (live : Live key w) : Named key w.file :=
  live.key_eq ▸ named_of_prefix live.file_named

theorem createAndPublish_live {existing opened : Option Str} {faults : CreateFaults}
    {c c' : InMemoryCatalog} {result : Except StoreError ChunkWriter}
    (h : createAndPublish header existing faults c = (opened, c', result)) :
    (opened = existing ∧ result.toOption = none) ∨
      (existing = none ∧ ∃ file, opened = some file ∧ Named header.key file ∧
        ∀ w, result.toOption = some w → Live header.key w ∧ file = w.file) := by
  cases createAndPublish_createOutcome h with
  | refused _ _ => exact .inl ⟨rfl, rfl⟩
  | torn absent _ _ => exact .inr ⟨absent, _, rfl, named_take header _, by simp [Except.toOption]⟩
  | notPublished absent _ =>
    exact .inr ⟨absent, _, rfl, named_of_prefix (prefix_refl _), by simp [Except.toOption]⟩
  | published absent _ =>
    refine .inr ⟨absent, _, rfl, named_of_prefix (prefix_refl _), ?_⟩
    intro w same
    cases same
    exact ⟨create_live header, rfl⟩

theorem openRecovered_live {recovery : Recovery} (named : Named key file)
    (opened : openRecovered P file = .ok (w, recovery)) :
    Live key w ∧ isSealed P file = false ∧ ∃ header : ChunkHeader, header.encode <+: file := by
  simp only [openRecovered, bind_eq_ok_iff, exists_require, pure, Except.pure, ok.injEq,
    Prod.mk.injEq] at opened
  obtain ⟨unsealed, ⟨kept, recovery'⟩, recovered, rfl, rfl⟩ := opened
  have read : ∃ header, readChunkHeader file = .ok header := by
    rw [recoverFile, bind_eq_ok_iff] at recovered
    exact ⟨_, recovered.choose_spec.1⟩
  obtain ⟨header, read⟩ := read
  rw [readChunkHeader_eq_ok_iff] at read
  obtain ⟨rs, scannable, _, same, _⟩ := recoverFile_eq (P := P) read
  rw [same] at recovered
  cases recovered
  refine ⟨⟨named header read, ?_, ?_, ?_, ?_⟩, unsealed, header, read⟩
  · simp [chunkHeaderLen]
  · exact prefix_append _ _
  · exact prefix_append _ _
  · exact .inl ⟨rfl, rs, fun r mem => (scannable r mem).1, rfl⟩

theorem Live.synced (live : Live key w) : Live key w.synced where
  key_eq := live.key_eq
  offset_ge := live.offset_ge
  durable_named := live.file_named
  file_named := live.file_named
  shape := live.shape

theorem Live.append (live : Live key w) (record : ObjectRecord) :
    Live key (w.append P none record).1 := by
  unfold ChunkWriter.append
  split
  · exact live
  split
  · exact live
  rename_i encoded
  obtain ⟨fits, rfl⟩ := encodeRecord_eq_ok_iff.mp (mapErr_eq_ok.mp encoded)
  have longer := length_le_writeAt w.file w.nextOffset record.encoding
  have named : w.header.encode <+: writeAt w.file w.nextOffset record.encoding := by
    apply prefix_writeAt live.file_named
    rw [ChunkHeader.length_encode]
    exact live.offset_ge
  have exact_or_huge : ∀ w' : ChunkWriter, w'.header = w.header →
      w'.file = writeAt w.file w.nextOffset record.encoding →
      w'.nextOffset = w.nextOffset + record.encoding.length →
      (w'.nextOffset = w'.file.length ∧ ∃ rs, (∀ r ∈ rs, r.Fits) ∧
        w'.file = w'.header.encode ++ encodings rs) ∨ 2 ^ 64 ≤ w'.file.length := by
    intro w' header file offset
    rcases live.shape with ⟨here, rs, fitsAll, whole⟩ | huge
    · refine .inl ⟨?_, rs ++ [record], ?_, ?_⟩
      · rw [offset, file, here, writeAt_end, length_append]
      · rw [forall_mem_append, forall_mem_singleton]
        exact ⟨fitsAll, fits⟩
      · rw [file, here, writeAt_end, header, whole, encodings_append]
        simp
    · right
      rw [file]
      omega
  split
  · cases ‹none = some _›
  split
  · split
    · exact ⟨live.key_eq, le_trans live.offset_ge (Nat.le_add_right _ _), live.durable_named, named,
        exact_or_huge _ rfl rfl rfl⟩
    · exact ⟨live.key_eq, le_trans live.offset_ge (Nat.le_add_right _ _), live.durable_named, named,
        exact_or_huge _ rfl rfl rfl⟩
  · rename_i overflow
    refine ⟨live.key_eq, live.offset_ge, live.durable_named, named, .inr ?_⟩
    change 2 ^ 64 ≤ (writeAt w.file w.nextOffset record.encoding).length
    omega

/-- A complete sealed file, whatever the size of its records. -/
def Complete (file : Str) : Prop :=
  ∃ (header : ChunkHeader) (rs : List ObjectRecord) (footer : SealedChunkFooter),
    (∀ r ∈ rs, ObjectRecord.Fits r) ∧ file = header.encode ++ encodings rs ++ footer.encode ∧
    footer.finalLength.toNat = file.length ∧ footer.recordCount.toNat = rs.length ∧
    footer.recordsCrc32c = crc32c (encodings rs)

/-- A footer is no run of records. -/
theorem records_not_complete {rs : List ObjectRecord} (fits : ∀ r ∈ rs, r.Fits) :
    ¬ Complete (header.encode ++ encodings rs) := by
  rintro ⟨header', rs', footer, fits', whole, _⟩
  rw [append_assoc] at whole
  obtain ⟨_, bytes⟩ := append_inj whole (by simp)
  have inside : encodings rs' <+: encodings rs := by
    rw [bytes]
    exact prefix_append _ _
  rcases encodings_prefix_total fits' fits inside (prefix_refl _) with
    ⟨more, rfl⟩ | ⟨more, rfl⟩
  · rw [encodings_append, append_cancel_left_eq] at bytes
    cases more with
    | nil =>
      have length := congrArg List.length bytes
      simp at length
    | cons r more =>
      apply encoding_append_ne_footer r footer (encodings more) []
      rw [append_nil, ← encodings_cons, bytes]
  · have length := congrArg List.length bytes
    simp at length

theorem Complete.length_lt (complete : Complete file) : file.length < 2 ^ 64 := by
  obtain ⟨_, _, footer, _, _, length, _⟩ := complete
  rw [← length]
  exact footer.finalLength.toNat_lt

theorem Live.not_complete (live : Live key w) : ¬ Complete w.file := by
  intro complete
  rcases live.shape with ⟨_, rs, fits, whole⟩ | huge
  · rw [whole] at complete
    exact records_not_complete fits complete
  · exact absurd complete.length_lt (not_lt.mpr huge)
end Shape

namespace ChunkWorld
/-- The chunk has this file, under either name. -/
def OnDisk (s : ChunkWorld) (key : ChunkKey) (file : Str) : Prop :=
  (s.files key).opened = some file ∨ (s.files key).sealed = some file

structure Inv (s : ChunkWorld) : Prop where
  live : ∀ key w, s.writers key = some w → Live key w ∧ (s.files key).opened = some w.file
  named : ∀ key file, s.OnDisk key file → Named key file
  sealed : ∀ key m, s.catalog.chunkAt key = some m → m.state = .sealed →
    (s.files key).sealed.isSome

/-- What work on one chunk leaves alone and what it keeps true. -/
structure Worked (P : Primitives) (s : ChunkWorld) (key : ChunkKey) (files : ChunkFiles)
    (writer : Option ChunkWriter) (catalog : InMemoryCatalog) : Prop where
  sealed : ∀ file, (s.files key).sealed = some file → files.sealed = some file
  verified : ∀ file, s.writers key = none → (s.files key).opened = some file →
    isSealed P file = true → writer = none ∧ (files.opened = some file ∨ files.sealed = some file)
  named : ∀ file, files.opened = some file ∨ files.sealed = some file → Named key file
  live : ∀ w, writer = some w → Live key w ∧ files.opened = some w.file
  catalog : (∀ other, catalog.chunkAt other = s.catalog.chunkAt other) ∨
    Opens key s.catalog catalog ∨ (Seals key s.catalog catalog ∧ files.sealed.isSome)

/-- An operation does nothing, works on one chunk, or crashes. -/
inductive Stepped (P : Primitives) (s : ChunkWorld) : ChunkWorld → Prop
  | idle : Stepped P s s
  | work {key : ChunkKey} {files : ChunkFiles} {writer : Option ChunkWriter}
      {catalog : InMemoryCatalog} (work : Worked P s key files writer catalog) :
      Stepped P s (s.set key files writer catalog)
  | crash (image : ChunkKey → Str) : Stepped P s
      { s with
        files := fun key => crashed (s.files key) (s.writers key) (image key)
        writers := fun _ => none }

section Steps
variable {P : Primitives} {s s' : ChunkWorld} {key : ChunkKey} {fault : Option String} {file : Str}
  {w : ChunkWriter} {files : ChunkFiles} {writer : Option ChunkWriter} {catalog : InMemoryCatalog}

theorem worked_create (inv : Inv s) (header : ChunkHeader) (faults : CreateFaults)
    {opened : Option Str} {result : Except StoreError ChunkWriter}
    (h : createAndPublish header (s.files header.key).opened faults s.catalog =
      (opened, catalog, result)) :
    Worked P s header.key ⟨opened, (s.files header.key).sealed⟩ result.toOption catalog := by
  have entry : (∀ other, catalog.chunkAt other = s.catalog.chunkAt other) ∨
      Opens header.key s.catalog catalog :=
    (createAndPublish_catalog h).imp_left fun same _ => by rw [same]
  rcases createAndPublish_live h with ⟨rfl, failed⟩ | ⟨absent, file, rfl, named, live⟩
  · exact ⟨fun _ same => same, fun file _ same _ => ⟨failed, .inl same⟩,
      fun file => inv.named header.key file, by simp [failed], entry.imp_right .inl⟩
  · refine ⟨fun _ same => same, by simp [absent], ?_, ?_, entry.imp_right .inl⟩
    · rintro other (same | same)
      · cases same
        exact named
      · exact inv.named header.key other (.inr same)
    · intro w same
      obtain ⟨here, rfl⟩ := live w same
      exact ⟨here, rfl⟩

/-- Work that leaves a live writer, of a file that was not verified as sealed. -/
theorem worked_of_live (inv : Inv s) (live : Live key w)
    (unsealed : ∀ file, s.writers key = none → (s.files key).opened = some file →
      isSealed P file = false)
    (entry : (∀ other, catalog.chunkAt other = s.catalog.chunkAt other) ∨
      Opens key s.catalog catalog) :
    Worked P s key ⟨some w.file, (s.files key).sealed⟩ (some w) catalog where
  sealed _ same := same
  verified file free opened verified := by
    rw [unsealed file free opened] at verified
    cases verified
  named := by
    rintro other (same | same)
    · cases same
      exact live.named
    · exact inv.named key other (.inr same)
  live := by
    rintro _ ⟨⟩
    exact ⟨live, rfl⟩
  catalog := entry.imp_right .inl

theorem worked_publishOpen (inv : Inv s) (writer : s.writers key = some w)
    (published : w.publishOpen fault s.catalog = .ok catalog) :
    Worked P s key (s.files key) (some w) catalog := by
  obtain ⟨live, opened⟩ := inv.live key w writer
  have opens := publishOpen_opens published
  rw [live.key_eq] at opens
  have work := worked_of_live (P := P) inv live (by simp [writer]) (.inr opens)
  rwa [← opened] at work

theorem worked_openRecovered (inv : Inv s) {recovery : Recovery}
    (found : (s.files key).opened = some file)
    (opened : openRecovered P file = .ok (w, recovery)) :
    Worked P s key ⟨some w.file, (s.files key).sealed⟩ (some w) s.catalog := by
  obtain ⟨live, unsealed, _⟩ := openRecovered_live (inv.named key file (.inl found)) opened
  exact worked_of_live inv live (by simp [found, unsealed]) (.inl fun _ => rfl)

theorem worked_appendAndIndex (inv : Inv s) {w' : ChunkWriter} {repo : RepoId}
    {generation : UInt32} {chunkId : UInt64} {record : ObjectRecord}
    {result : Except StoreError (Option RecordLocation)} (writer : s.writers key = some w)
    (h : w.appendAndIndex P s.catalog { catalog := fault } repo generation chunkId record =
      (w', catalog, result)) :
    Worked P s key ⟨some w'.file, (s.files key).sealed⟩ (some w') catalog := by
  obtain ⟨live, _⟩ := inv.live key w writer
  have entry := appendAndIndex_catalog h
  rw [live.key_eq] at entry
  apply worked_of_live inv _ (by simp [writer]) entry
  rcases (appendAndIndex_outcome h).1 with rfl | rfl | rfl
  · exact live
  · exact live.append record
  · exact (live.append record).synced

theorem worked_sealAndPublish (inv : Inv s) {faults : SealFaults}
    {result : Except StoreError SealedChunk} (writer : s.writers key = some w)
    (h : w.sealAndPublish s.catalog (s.files key).sealed faults = (files, catalog, result)) :
    Worked P s key files none catalog := by
  obtain ⟨live, _⟩ := inv.live key w writer
  have named : ∀ data, Named key (writeAt w.file w.nextOffset data) := by
    intro data
    rw [← live.key_eq]
    apply named_of_prefix
    apply prefix_writeAt live.file_named
    rw [ChunkHeader.length_encode]
    exact live.offset_ge
  rcases sealAndPublish_outcome h with ⟨sealed, rfl, file, opened, content⟩ |
    ⟨absent, rfl, entry⟩
  · refine ⟨fun _ same => sealed.trans same, by simp [writer], ?_, by simp, .inl fun _ => rfl⟩
    rintro other (same | same)
    · rw [opened, Option.some.injEq] at same
      subst same
      rcases content with rfl | ⟨data, rfl⟩
      · exact live.named
      · exact named data
    · rw [sealed] at same
      exact inv.named key other (.inr same)
  · refine ⟨by simp [absent], by simp [writer], ?_, by simp, ?_⟩
    · rintro other (same | same)
      · cases same
      · cases same
        exact named _
    · rw [live.key_eq] at entry
      rcases entry with rfl | seals
      · exact .inl fun _ => rfl
      · exact .inr (.inr ⟨seals, rfl⟩)

theorem worked_reconcileChunk (inv : Inv s)
    (h : ChunkReconciled P s.catalog (s.files key) files catalog) :
    Worked P s key files none catalog := by
  have named := inv.named key
  unfold OnDisk at named
  cases h with
  | kept =>
    exact ⟨fun _ same => same, fun _ _ same _ => ⟨rfl, .inl same⟩, named, by simp,
      .inl fun _ => rfl⟩
  | @published file header _ found front seals =>
    refine ⟨fun _ same => same, fun _ _ same _ => ⟨rfl, .inl same⟩, named, by simp, ?_⟩
    rw [named file (.inr found) header front] at seals
    exact .inr (.inr ⟨seals, by rw [found]; rfl⟩)
  | @renamed file v _ found verified seals =>
    rw [found] at named
    refine ⟨by simp [found], ?_, ?_, by simp, ?_⟩
    · intro other _ same _
      rw [found] at same
      exact ⟨rfl, .inr same⟩
    · rintro other (same | same)
      · cases same
      · exact named other (.inl same)
    · rw [named file (.inl rfl) v.header (header_prefix_of_verified verified)] at seals
      rcases seals with same | seals
      · exact .inl fun _ => by rw [same]
      · exact .inr (.inr ⟨seals, rfl⟩)
  | @truncated file recovered header _ found unsealed front kept opens =>
    rw [found] at named
    have here := named file (.inl rfl) header front
    rw [here] at opens
    refine ⟨by simp [found], by simp [found, unsealed], ?_, by simp, ?_⟩
    · rintro other (same | same)
      · cases same
        exact here ▸ named_of_prefix kept
      · cases same
    · exact (opens.imp_left fun same _ => by rw [same]).imp_right .inl

theorem set_self (s : ChunkWorld) (key : ChunkKey) (catalog : InMemoryCatalog) :
    s.set key (s.files key) (s.writers key) catalog = { s with catalog := catalog } := by
  simp [set]

theorem step_stepped (inv : Inv s) (operation : ChunkOperation) :
    Stepped P s (step P s operation) := by
  cases operation with
  | createAndPublish header faults =>
    simp only [step]
    split
    · exact .idle
    · exact .work (worked_create inv header faults rfl)
  | openRecovered key =>
    simp only [step]
    split
    · rename_i file _ found
      split
      · exact .idle
      · rename_i opened
        exact .work (worked_openRecovered inv found opened)
    · exact .idle
  | publishOpen key fault =>
    simp only [step]
    split
    · exact .idle
    · rename_i writer
      split
      · exact .idle
      · rename_i published
        have work := worked_publishOpen (P := P) inv writer published
        rw [← set_self s key]
        exact .work (writer ▸ work)
  | appendAndIndex key fault repo generation chunkId record =>
    simp only [step]
    split
    · exact .idle
    · rename_i writer
      exact .work (worked_appendAndIndex inv writer rfl)
  | sealAndPublish key faults =>
    simp only [step]
    split
    · exact .idle
    · rename_i writer
      exact .work (worked_sealAndPublish inv writer rfl)
  | reconcileChunk key suffix fault =>
    simp only [step]
    split
    · exact .idle
    · exact .work (worked_reconcileChunk inv (reconcileChunk_reconciled P fault _ suffix _))
  | crash image => exact .crash image

theorem Worked.sealed_isSome (work : Worked P s key files writer catalog)
    (some : (s.files key).sealed.isSome) : files.sealed.isSome := by
  obtain ⟨file, found⟩ := isSome_iff_exists.mp some
  rw [work.sealed file found]
  rfl

theorem Worked.inv (inv : Inv s) (work : Worked P s key files writer catalog) :
    Inv (s.set key files writer catalog) where
  live other w found := by
    by_cases here : other = key
    · subst here
      simp only [set, update_self] at found ⊢
      exact work.live w found
    · simp only [set, update_of_ne here] at found ⊢
      exact inv.live other w found
  named other file found := by
    by_cases here : other = key
    · subst here
      simp only [set, OnDisk, update_self] at found
      exact work.named file found
    · simp only [set, OnDisk, update_of_ne here] at found
      exact inv.named other file found
  sealed other m found state := by
    have before : ∀ m, s.catalog.chunkAt other = some m → m.state = .sealed →
        ((s.set key files writer catalog).files other).sealed.isSome := by
      intro m found state
      have kept := inv.sealed other m found state
      by_cases here : other = key
      · subst here
        simp only [set, update_self]
        exact work.sealed_isSome kept
      · simpa only [set, update_of_ne here] using kept
    rcases work.catalog with same | opens | ⟨seals, done⟩
    · exact before m ((same other).symm.trans found) state
    · by_cases here : other = key
      · subst here
        obtain ⟨m', entry, opened⟩ := opens.after
        obtain rfl := Option.some.inj (entry.symm.trans found)
        rw [opened] at state
        cases state
      · exact before m ((opens.others other here).symm.trans found) state
    · by_cases here : other = key
      · subst here
        simpa only [set, update_self] using done
      · exact before m ((seals.others other here).symm.trans found) state

@[simp] theorem crashed_sealed (files : ChunkFiles) (writer : Option ChunkWriter) (image : Str) :
    (crashed files writer image).sealed = files.sealed := by
  unfold crashed
  split
  · rfl
  · split <;> rfl

theorem crashed_inv (inv : Inv s) (image : ChunkKey → Str) :
    Inv { s with
      files := fun key => crashed (s.files key) (s.writers key) (image key)
      writers := fun _ => none } where
  live := by simp
  named key file found := by
    simp only [OnDisk, crashed] at found
    split at found
    · exact inv.named key file found
    · rename_i w writer
      split at found
      · rename_i extends_
        rcases found with same | same
        · cases same
          have live := (inv.live key w writer).1
          have named := named_of_prefix (live.durable_named.trans extends_)
          rwa [live.key_eq] at named
        · exact inv.named key file (.inr same)
      · exact inv.named key file found
  sealed key m found state := by
    rw [crashed_sealed]
    exact inv.sealed key m found state

theorem Stepped.inv (stepped : Stepped P s s') (inv : Inv s) : Inv s' := by
  cases stepped with
  | idle => exact inv
  | work work => exact work.inv inv
  | crash image => exact crashed_inv inv image

/-- The file has its final bytes: it is under the `.sealed` name, or verification accepts it where
it is and nobody writes it. -/
def Final (P : Primitives) (key : ChunkKey) (file : Str) (s : ChunkWorld) : Prop :=
  (s.files key).sealed = some file ∨
    ((s.files key).opened = some file ∧ s.writers key = none ∧ isSealed P file = true)

theorem Final.onDisk (final : Final P key file s) : s.OnDisk key file :=
  final.elim .inr fun h => .inl h.1

theorem Stepped.sealed (stepped : Stepped P s s') (sealed : (s.files key).sealed = some file) :
    (s'.files key).sealed = some file := by
  cases stepped with
  | idle => exact sealed
  | @work other _ _ _ work =>
    by_cases here : key = other
    · subst here
      simpa only [set, update_self] using work.sealed file sealed
    · simpa only [set, update_of_ne here] using sealed
  | crash image => exact (crashed_sealed _ _ _).trans sealed

theorem Stepped.final (stepped : Stepped P s s') (final : Final P key file s) :
    Final P key file s' := by
  rcases final with sealed | ⟨opened, free, verified⟩
  · exact .inl (stepped.sealed sealed)
  cases stepped with
  | idle => exact .inr ⟨opened, free, verified⟩
  | @work other _ _ _ work =>
    by_cases here : key = other
    · subst here
      simp only [Final, set, update_self]
      obtain ⟨none, kept⟩ := work.verified file free opened verified
      exact kept.elim (fun kept => .inr ⟨kept, none, verified⟩) .inl
    · simp only [Final, set, update_of_ne here]
      exact .inr ⟨opened, free, verified⟩
  | crash image =>
    right
    simp only [crashed, free]
    exact ⟨opened, trivial, verified⟩

/-- The catalog states a chunk may go through. -/
def Advances (before after : Option ChunkState) : Prop :=
  after = before ∨ (before = none ∧ (after = some .opened ∨ after = some .sealed)) ∨
    (before = some .opened ∧ after = some .sealed)

theorem Advances.trans {a b c : Option ChunkState} (h : Advances a b) (h' : Advances b c) :
    Advances a c := by
  unfold Advances at *
  grind

def stateAt (s : ChunkWorld) (key : ChunkKey) : Option ChunkState :=
  (s.catalog.chunkAt key).map ChunkMetadata.state

/-- A later catalog: states have advanced and retired entries are as they were. -/
structure Later (s s' : ChunkWorld) : Prop where
  advances : ∀ key, Advances (s.stateAt key) (s'.stateAt key)
  retired : ∀ key m, s.catalog.chunkAt key = some m → m.state = .retired →
    s'.catalog.chunkAt key = some m

theorem Later.refl (s : ChunkWorld) : Later s s := ⟨fun _ => .inl rfl, fun _ _ found _ => found⟩

theorem Later.trans {s s'' : ChunkWorld} (h : Later s s') (h' : Later s' s'') : Later s s'' :=
  ⟨fun key => (h.advances key).trans (h'.advances key),
    fun key m found state => h'.retired key m (h.retired key m found state) state⟩

theorem later_of_same (same : ∀ key, s'.catalog.chunkAt key = s.catalog.chunkAt key) :
    Later s s' := by
  refine ⟨fun key => .inl ?_, fun key m found _ => (same key).trans found⟩
  rw [stateAt, stateAt, same key]

/-- One entry changes, from none or an entry that is not retired. -/
theorem later_of_entry
    (others : ∀ other, other ≠ key → s'.catalog.chunkAt other = s.catalog.chunkAt other)
    (advances : Advances (s.stateAt key) (s'.stateAt key))
    (writable : ∀ m, s.catalog.chunkAt key = some m → m.state ≠ .retired) : Later s s' := by
  constructor
  · intro other
    by_cases here : other = key
    · subst here
      exact advances
    · left
      rw [stateAt, stateAt, others other here]
  · intro other m found state
    by_cases here : other = key
    · subst here
      exact absurd state (writable m found)
    · exact (others other here).trans found

theorem Worked.later (work : Worked P s key files writer catalog) :
    Later s (s.set key files writer catalog) := by
  rcases work.catalog with same | opens | ⟨seals, _⟩
  · exact later_of_same same
  · obtain ⟨m, entry, opened⟩ := opens.after
    have after : (s.set key files writer catalog).stateAt key = some .opened := by
      simp [stateAt, set, entry, opened]
    apply later_of_entry opens.others
    · rw [after, stateAt]
      cases before : s.catalog.chunkAt key with
      | none => simp [Advances]
      | some old => simp [Advances, opens.before old before]
    · intro old before
      rw [opens.before old before]
      simp
  · obtain ⟨m, entry, sealed⟩ := seals.after
    have after : (s.set key files writer catalog).stateAt key = some .sealed := by
      simp [stateAt, set, entry, sealed]
    apply later_of_entry seals.others _ seals.before
    rw [after, stateAt]
    cases before : s.catalog.chunkAt key with
    | none => simp [Advances]
    | some old =>
      cases state : old.state with
      | opened | sealed => simp [Advances, state]
      | retired => exact absurd state (seals.before old before)

theorem Stepped.later (stepped : Stepped P s s') : Later s s' := by
  cases stepped with
  | idle => exact .refl s
  | work work => exact work.later
  | crash image => exact later_of_same fun _ => rfl

theorem run_kept (inv : Inv s) (operations : List ChunkOperation) :
    Inv (run P s operations) ∧ Later s (run P s operations) ∧
      (∀ key file, (s.files key).sealed = some file →
        ((run P s operations).files key).sealed = some file) ∧
      ∀ key file, Final P key file s → Final P key file (run P s operations) := by
  induction operations generalizing s with
  | nil => exact ⟨inv, .refl s, fun _ _ sealed => sealed, fun _ _ final => final⟩
  | cons operation operations ih =>
    have stepped := step_stepped (P := P) inv operation
    obtain ⟨last, later, sealed, final⟩ := ih (stepped.inv inv)
    exact ⟨last, stepped.later.trans later,
      fun key file here => sealed key file (stepped.sealed here),
      fun key file here => final key file (stepped.final here)⟩
end Steps

/-- No chunk is being written, every sealed file names its chunk, and every chunk that the catalog
has as sealed has its sealed file. -/
structure Start (s : ChunkWorld) : Prop where
  unopened : ∀ key, (s.files key).opened = none ∧ s.writers key = none
  named : ∀ key file, (s.files key).sealed = some file → Named key file
  sealed : ∀ key, s.stateAt key = some .sealed → (s.files key).sealed.isSome

theorem Start.inv {s : ChunkWorld} (start : Start s) : Inv s where
  live key w found := by
    rw [(start.unopened key).2] at found
    cases found
  named key file found := by
    rcases found with opened | sealed
    · rw [(start.unopened key).1] at opened
      cases opened
    · exact start.named key file sealed
  sealed key m found state := start.sealed key (by rw [stateAt, found, ← state]; rfl)

variable {file : Str}

theorem Inv.unwritten {s : ChunkWorld} {key : ChunkKey} (inv : Inv s) (complete : Complete file)
    (opened : (s.files key).opened = some file) :
    s.writers key = none := by
  cases writer : s.writers key with
  | none => rfl
  | some w =>
    obtain ⟨live, same⟩ := inv.live key w writer
    rw [opened, Option.some.injEq] at same
    rw [same] at complete
    exact absurd complete live.not_complete

/-- A complete file under the `.open` name that verification rejects is cut by the next recovery. -/
theorem openRecovered_cuts {P : Primitives} {s : ChunkWorld} {key : ChunkKey} (inv : Inv s)
    (complete : Complete file) (opened : (s.files key).opened = some file)
    (unnamed : (s.files key).sealed ≠ some file) (rejected : isSealed P file = false) :
    ¬ (step P s (.openRecovered key)).OnDisk key file := by
  have free := inv.unwritten complete opened
  obtain ⟨header, rs, footer, fits, whole, _⟩ := id complete
  have front : header.encode <+: file := by
    rw [whole, append_assoc]
    exact prefix_append _ _
  obtain ⟨kept, scannable, _, recovered, _⟩ := recoverFile_eq (P := P) front
  have reopened : ∃ w recovery, openRecovered P file = .ok (w, recovery) ∧
      w.file = header.encode ++ encodings kept := by
    rw [openRecovered, require_pos rejected, ok_bind, recovered, ok_bind]
    exact ⟨_, _, rfl, rfl⟩
  obtain ⟨w, recovery, reopened, cut⟩ := reopened
  simp only [step, free, opened, reopened, OnDisk, set, update_self, Option.some.injEq, not_or]
  refine ⟨?_, unnamed⟩
  intro same
  rw [← same, cut] at complete
  exact records_not_complete (fun r mem => (scannable r mem).1) complete

/-- Along every run catalog states only advance and retired entries stay; a chunk that the catalog
has as sealed keeps its sealed file; and a complete file keeps its bytes in every continuation if
and only if it has its `.sealed` name or verification accepts it. -/
theorem chunk_states_monotone_iff (P : Primitives) {s₀ : ChunkWorld} (start : Start s₀)
    (operations : List ChunkOperation) :
    (∀ later, Later (run P s₀ operations) (run P (run P s₀ operations) later)) ∧
    (∀ key, (run P s₀ operations).stateAt key = some .sealed →
      ∃ file, ((run P s₀ operations).files key).sealed = some file ∧
        ∀ later, ((run P (run P s₀ operations) later).files key).sealed = some file) ∧
    ∀ key file, (run P s₀ operations).OnDisk key file → Complete file →
      ((∀ later, (run P (run P s₀ operations) later).OnDisk key file) ↔
        (((run P s₀ operations).files key).sealed = some file ∨
          ∃ v, verifySealedFile P file = .ok v)) := by
  obtain ⟨inv, _⟩ := run_kept (P := P) start.inv operations
  generalize run P s₀ operations = s at *
  refine ⟨fun later => (run_kept inv later).2.1, ?_, ?_⟩
  · intro key state
    obtain ⟨m, found, state⟩ := map_eq_some_iff.mp state
    obtain ⟨file, sealed⟩ := isSome_iff_exists.mp (inv.sealed key m found state)
    exact ⟨file, sealed, fun later => (run_kept inv later).2.2.1 key file sealed⟩
  · intro key file disk complete
    rw [← isSealed_eq_true]
    constructor
    · intro always
      by_contra neither
      rw [not_or, Bool.not_eq_true] at neither
      have opened := disk.resolve_right neither.1
      exact openRecovered_cuts inv complete opened neither.1 neither.2 (always [.openRecovered key])
    · intro final later
      have here : Final P key file s := by
        rcases disk with opened | sealed
        · exact final.imp_right fun verified => ⟨opened, inv.unwritten complete opened, verified⟩
        · exact .inl sealed
      exact ((run_kept inv later).2.2.2 key file here).onDisk

def fresh : ChunkWorld := ⟨fun _ => ⟨none, none⟩, fun _ => none, {}⟩

theorem fresh_start : Start fresh := by
  constructor
  · intro key
    exact ⟨rfl, rfl⟩
  · intro key file found
    cases found
  · intro key state
    cases state

theorem chunk_states_monotone_created : Start fresh ∧ ∀ later,
    Later (run .reference fresh [.createAndPublish ⟨1, 0, 0, 0⟩ {}])
      (run .reference (run .reference fresh [.createAndPublish ⟨1, 0, 0, 0⟩ {}]) later) :=
  ⟨fresh_start, (chunk_states_monotone_iff .reference fresh_start _).1⟩

section Unrenamed
variable {P : Primitives} {record : ObjectRecord}

/-- Create a chunk, append one record, and stop in front of the rename. -/
def sealInterrupted (header : ChunkHeader) (repo : RepoId) (record : ObjectRecord) :
    List ChunkOperation :=
  [.createAndPublish header {},
    .appendAndIndex header.key none repo header.generation header.chunkId record,
    .sealAndPublish header.key { rename := true }]

theorem sealAndPublish_unrenamed {w : ChunkWriter} {c : InMemoryCatalog}
    (writable : ensureCatalogWritable c w.header = .ok ())
    (room : w.nextOffset + sealedChunkFooterLen < 2 ^ 64) :
    w.sealAndPublish c none { rename := true } =
      (⟨some w.sealedFile, none⟩, c, .error (.io .writeFailed)) := by
  simp only [sealAndPublish, writable, isSome_none, Bool.false_eq_true,
    if_false, if_neg (not_le.mpr room), if_true]

theorem run_sealInterrupted (header : ChunkHeader) (repo : RepoId)
    (verified : verifyObjectRecord P record = .ok ()) (fits : record.Fits)
    (room : chunkHeaderLen + record.encoding.length + sealedChunkFooterLen < 2 ^ 64) :
    (run P fresh (sealInterrupted header repo record)).files header.key =
      ⟨some ((create header).appended record.encoding).synced.sealedFile, none⟩ := by
  -- the catalog after the creation
  obtain ⟨c₁, applied⟩ := applyWith_chunkMetadata_ok (c := {}) rfl header.generation
    header.chunkId (create header).openMetadata
  have batch := applyWith_eq_ok applied
  have published : (create header).publishOpen none {} = .ok c₁ := applied
  have opens := publishOpen_opens published
  have writable : ensureCatalogWritable c₁ header = .ok () := by
    obtain ⟨m, entry, opened⟩ := opens.after
    rw [ensureCatalogWritable_eq_ok_iff]
    intro m' found
    obtain rfl := Option.some.inj (entry.symm.trans found)
    exact opened
  have missing : c₁.objectLocation record.contentId = none := applyWith_chunkMetadata applied _
  have unbound : c₁.oidAlias repo record.primaryOid = none :=
    apply_frame (·.oidAlias repo record.primaryOid) batch (by simp; intros; rfl)
  -- the appended record
  obtain ⟨w, c₂, appended⟩ := appendAndIndex_new (w := .create header) writable
    (apply_rebuild batch) missing
    (by rw [show c₁.oidAlias repo record.primaryOid = none from unbound]; simp) verified fits
    (by simp only [create]; omega) (by simp [create])
  obtain ⟨_, ⟨_, located, _⟩ | ⟨_, _, _, _, rfl, _, applied₂⟩⟩ :=
    appendAndIndex_eq_ok appended
  · rw [missing] at located
    cases located
  have writable₂ : ensureCatalogWritable c₂
      ((create header).appended record.encoding).synced.header = .ok () := by
    rw [ensureCatalogWritable_eq_ok_iff]
    intro m found
    obtain rfl := Option.some.inj ((indexBatch_chunk applied₂).symm.trans found)
    rfl
  have created : createAndPublish header none {} {} =
      (some header.encode, c₁, .ok (.create header)) := by
    simp only [createAndPublish, isSome_none, Bool.false_eq_true, if_false,
      Bool.or_self, published]
  have appended' : (create header).appendAndIndex P c₁ {} repo header.generation
    header.chunkId record = _ := appended
  simp only [run, sealInterrupted, foldl_cons, foldl_nil, step, fresh, created, set,
    isSome_none, Bool.false_eq_true, if_false, update_self, Except.toOption,
    appended', sealAndPublish_unrenamed writable₂ room]

theorem complete_sealedFile (header : ChunkHeader) (fits : record.Fits)
    (room : chunkHeaderLen + record.encoding.length + sealedChunkFooterLen < 2 ^ 64) :
    Complete ((create header).appended record.encoding).synced.sealedFile := by
  have behind := (create_behind header).appended fits
    (by simp only [create]; omega)
  have short : ((create header).appended record.encoding).file.length ≤
      ((create header).appended record.encoding).nextOffset + sealedChunkFooterLen := by
    have whole : ((create header).appended record.encoding).file =
        header.encode ++ record.encoding := by
      have offset : (create header).nextOffset = header.encode.length :=
        header.length_encode.symm
      rw [appended, offset]
      exact writeAt_end _ _
    rw [whole, length_append, ChunkHeader.length_encode]
    simp [appended, create, chunkHeaderLen]
  obtain ⟨whole, length, count, checksum⟩ := behind.footer_of_short room short
  exact ⟨header, [record], _, forall_mem_singleton.mpr fits, whole, length, count.symm,
    checksum.symm⟩

theorem isSealed_sealedFile (header : ChunkHeader) (fits : record.Fits)
    (room : chunkHeaderLen + record.encoding.length + sealedChunkFooterLen < 2 ^ 64)
    (big : maxRecoveryRecordBytes < record.encoding.length) :
    isSealed P ((create header).appended record.encoding).synced.sealedFile =
      false := by
  have behind := (create_behind header).appended fits
    (by simp only [create]; omega)
  obtain ⟨junk, whole, _⟩ := behind.sealedFile_eq
  rw [Bool.eq_false_iff, Ne, isSealed_eq_true]
  rintro ⟨v, verified⟩
  have front : header.encode ++ encodings [record] <+:
      ((create header).appended record.encoding).synced.sealedFile := by
    change _ <+: ((create header).appended record.encoding).sealedFile
    rw [whole, append_assoc]
    exact prefix_append _ _
  have member := (verifySealedFile_records verified (forall_mem_singleton.mpr fits)
    front).subset mem_cons_self
  have scannable := (verifySealedFile_eq_ok verified).2.1 record member
  exact absurd scannable.2.1 (not_le.mpr big)

theorem complete_file_cut (P : Primitives) (repo : RepoId) (oid : GitOid) (raw : Str)
    (short : raw.length + 500 < 2 ^ 64) (big : maxRecoveryRecordBytes < raw.length + 148) :
    ∃ file, (run P fresh (sealInterrupted ⟨1, 0, 0, 0⟩ repo
      (objectRecord P .raw oid .blob raw))).OnDisk (1, 0) file ∧ Complete file ∧
      ¬ (run P (run P fresh (sealInterrupted ⟨1, 0, 0, 0⟩ repo
        (objectRecord P .raw oid .blob raw))) [.openRecovered (1, 0)]).OnDisk (1, 0) file := by
  set record := objectRecord P .raw oid .blob raw with definition
  have total : record.total = raw.length + 148 := record.total_eq
  have fits : record.Fits := by
    unfold ObjectRecord.Fits
    omega
  have verified : verifyObjectRecord P record = .ok () :=
    verifyObjectRecord_eq_ok_iff.mpr ⟨raw, decodeObjectPayload_objectRecord (by simp) (by omega)⟩
  have least := le_alignUp (raw.length + 148)
  have length : record.encoding.length = alignUp (raw.length + 148) := by
    rw [record.length_encoding, total]
  have most : record.encoding.length < raw.length + 200 := by
    rw [length, alignUp]
    omega
  have room : chunkHeaderLen + record.encoding.length + sealedChunkFooterLen < 2 ^ 64 := by
    simp only [chunkHeaderLen, sealedChunkFooterLen]
    omega
  have files := run_sealInterrupted ⟨1, 0, 0, 0⟩ repo verified fits room
  have opened := congrArg ChunkFiles.opened files
  have complete := complete_sealedFile ⟨1, 0, 0, 0⟩ fits room
  refine ⟨_, .inl opened, complete, ?_⟩
  have inv := (run_kept (P := P) fresh_start.inv (sealInterrupted ⟨1, 0, 0, 0⟩ repo record)).1
  apply openRecovered_cuts inv complete opened
  · rw [files]
    simp
  · exact isSealed_sealedFile _ fits room (by omega)
end Unrenamed

/-- A chunk with one 64 MiB blob is sealed up to the rename. The complete file is then cut by the
next recovery. -/
theorem complete_chunk_changes :
    ¬ ∀ (s₀ : ChunkWorld) (operations later : List ChunkOperation) (key : ChunkKey) (file : Str),
      Start s₀ → (run .reference s₀ operations).OnDisk key file → Complete file →
      (run .reference (run .reference s₀ operations) later).OnDisk key file := by
  intro all
  obtain ⟨file, disk, complete, cut⟩ := complete_file_cut .reference ⟨.replicate 16 0⟩
    (.forObject .reference .sha1 .blob (zeros (64 * 1024 * 1024))) (zeros (64 * 1024 * 1024))
    (by rw [length_zeros]; norm_num) (by rw [length_zeros, maxRecoveryRecordBytes]; norm_num)
  exact cut (all fresh _ [.openRecovered (1, 0)] (1, 0) file fresh_start disk complete)
end ChunkWorld
end ReflinkForest
