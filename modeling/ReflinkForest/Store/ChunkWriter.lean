import ReflinkForest.Store.RecordReader

/-! The append-only chunk writer: append, synchronise, then publish in one catalog batch. -/
namespace ReflinkForest
open Bytes InMemoryCatalog

variable (P : Primitives)

structure RecordLocation where
  offset : ℕ
  recordLength : ℕ
  deriving DecidableEq

/-- Which I/O of one append fails: the write after some bytes, the data
synchronisation, or the catalog backend. -/
structure AppendFaults where
  write : Option ℕ := none
  sync : Bool := false
  catalog : Option String := none

/-- Which step of creating a chunk fails: the exclusive creation, the write of the header after
some bytes, its synchronisation, the directory or the catalog. -/
structure CreateFaults where
  create : Option StoreIoError := none
  write : Option ℕ := none
  sync : Bool := false
  syncDirectory : Bool := false
  catalog : Option String := none

/-- `file` is the content written through the handle, `durable` its content at
the last `sync_data`. -/
structure ChunkWriter where
  file : Str
  durable : Str
  header : ChunkHeader
  nextOffset : ℕ
  recordCount : ℕ
  recordsCrc32c : Crc32c

def ensureCatalogWritable (catalog : InMemoryCatalog) (header : ChunkHeader) :
    Except StoreError Unit :=
  match catalog.chunk header.generation header.chunkId with
  | some metadata =>
    .require (metadata.state = .opened)
      (.catalogChunkStateConflict header.generation header.chunkId metadata.state)
  | none => .ok ()

/-- Apply a batch to a backend that may fail. -/
def applyWith (fault : Option String) (catalog : InMemoryCatalog) (batch : List Operation) :
    Except StoreError InMemoryCatalog :=
  match fault with
  | some error => .error (.catalog (.backend error))
  | none => .mapErr .catalog (catalog.apply batch)

namespace ChunkWriter
/-- A new chunk whose header has been written and synchronised. -/
def create (header : ChunkHeader) : ChunkWriter where
  file := header.encode
  durable := header.encode
  header := header
  nextOffset := chunkHeaderLen
  recordCount := 0
  recordsCrc32c := Crc32c.new

/-- Chunk metadata published for the writable state. -/
def openMetadata (w : ChunkWriter) : ChunkMetadata :=
  ⟨.opened, UInt64.ofNat w.nextOffset, UInt64.ofNat w.recordCount⟩

def publishOpen (w : ChunkWriter) (fault : Option String) (catalog : InMemoryCatalog) :
    Except StoreError InMemoryCatalog := do
  ensureCatalogWritable catalog w.header
  applyWith fault catalog
    [.chunkMetadata w.header.generation w.header.chunkId w.openMetadata]

/-- Create the `.open` file of a chunk and publish its writable state. `existing` is what the name
held before; the first component of the result is what it holds afterwards. -/
def createAndPublish (header : ChunkHeader) (existing : Option Str) (faults : CreateFaults)
    (catalog : InMemoryCatalog) : Option Str × InMemoryCatalog × Except StoreError ChunkWriter :=
  match faults.create with
  | some error => (existing, catalog, .error (.io error))
  | none =>
    if existing.isSome then (existing, catalog, .error (.io .alreadyExists))
    else
      match faults.write with
      | some n => (some (header.encode.take n), catalog, .error (.io .writeFailed))
      | none =>
        if faults.sync || faults.syncDirectory then
          (some header.encode, catalog, .error (.io .syncFailed))
        else
          match (create header).publishOpen faults.catalog catalog with
          | .error error => (some header.encode, catalog, .error error)
          | .ok catalog' => (some header.encode, catalog', .ok (create header))

/-- `write_all` of a complete record and the bookkeeping after it. -/
def appended (w : ChunkWriter) (encoded : Str) : ChunkWriter :=
  { w with
    file := writeAt w.file w.nextOffset encoded
    nextOffset := w.nextOffset + encoded.length
    recordCount := w.recordCount + 1
    recordsCrc32c := w.recordsCrc32c.update encoded }

/-- Append one record. A failed write leaves any prefix of the encoding at the
current offset and the bookkeeping as it was. -/
def append (w : ChunkWriter) (write : Option ℕ) (record : ObjectRecord) :
    ChunkWriter × Except StoreError RecordLocation :=
  match Except.mapErr StoreError.codec (verifyObjectRecord P record) with
  | .error error => (w, .error error)
  | .ok () =>
    match Except.mapErr StoreError.format (encodeRecord record) with
    | .error error => (w, .error error)
    | .ok encoded =>
      match write with
      | some n =>
        ({ w with file := writeAt w.file w.nextOffset (encoded.take n) },
          .error (.io .writeFailed))
      | none =>
        if w.nextOffset + encoded.length < 2 ^ 64 then
          if w.recordCount + 1 < 2 ^ 64 then
            (w.appended encoded, .ok ⟨w.nextOffset, encoded.length⟩)
          else
            ({ w with
              file := writeAt w.file w.nextOffset encoded
              nextOffset := w.nextOffset + encoded.length }, .error .offsetOverflow)
        else
          ({ w with file := writeAt w.file w.nextOffset encoded }, .error .offsetOverflow)

def synced (w : ChunkWriter) : ChunkWriter := { w with durable := w.file }

/-- Everything written so far becomes durable, or the call fails. -/
def syncData (w : ChunkWriter) (fails : Bool) : ChunkWriter × Except StoreError Unit :=
  if fails then (w, .error (.io .syncFailed)) else (w.synced, .ok ())

/-- The batch that makes a freshly appended record visible. -/
def indexBatch (w : ChunkWriter) (repo : RepoId) (record : ObjectRecord) (offset : ℕ) :
    List Operation :=
  [.objectLocation record.contentId (record.locationAt w.header offset),
   .oidAlias repo record.primaryOid record.contentId,
   .chunkMetadata w.header.generation w.header.chunkId w.openMetadata]

/-- Append and publish one object, or only its alias when the catalog already
has a location for its content. -/
def appendAndIndex (w : ChunkWriter) (catalog : InMemoryCatalog) (faults : AppendFaults)
    (repo : RepoId) (generation : UInt32) (chunkId : UInt64) (record : ObjectRecord) :
    ChunkWriter × InMemoryCatalog × Except StoreError (Option RecordLocation) :=
  if w.header.generation ≠ generation then
    (w, catalog, .error (.locationMismatch "generation"))
  else if w.header.chunkId ≠ chunkId then
    (w, catalog, .error (.locationMismatch "chunk_id"))
  else
    match ensureCatalogWritable catalog w.header with
    | .error error => (w, catalog, .error error)
    | .ok () =>
      match catalog.objectLocation record.contentId with
      | some _ =>
        match applyWith faults.catalog catalog
            [.oidAlias repo record.primaryOid record.contentId] with
        | .error error => (w, catalog, .error error)
        | .ok catalog' => (w, catalog', .ok none)
      | none =>
        match w.append P faults.write record with
        | (w₁, .error error) => (w₁, catalog, .error error)
        | (w₁, .ok location) =>
          match w₁.syncData faults.sync with
          | (w₂, .error error) => (w₂, catalog, .error error)
          | (w₂, .ok ()) =>
            match applyWith faults.catalog catalog
                (w₂.indexBatch repo record location.offset) with
            | .error error => (w₂, catalog, .error error)
            | .ok catalog' => (w₂, catalog', .ok (some location))

/-- The writer stands behind the complete records `rs`; bytes of failed writes
may follow them. -/
structure Behind (w : ChunkWriter) (rs : List ObjectRecord) : Prop where
  file_eq : ∃ junk, w.file = w.header.encode ++ encodings rs ++ junk
  nextOffset_eq : w.nextOffset = chunkHeaderLen + (encodings rs).length
  recordCount_eq : w.recordCount = rs.length
  crc_eq : w.recordsCrc32c = Crc32c.new.update (encodings rs)
  fits : ∀ r ∈ rs, r.Fits
  nextOffset_lt : w.nextOffset < 2 ^ 64

theorem create_behind (header : ChunkHeader) : (create header).Behind [] where
  file_eq := ⟨[], by simp [create]⟩
  nextOffset_eq := rfl
  recordCount_eq := rfl
  crc_eq := rfl
  fits := by simp
  nextOffset_lt := by simp [create, chunkHeaderLen]

section Lemmas
variable {P} {w w' : ChunkWriter} {catalog catalog' : InMemoryCatalog} {faults : AppendFaults}
  {repo : RepoId} {generation : UInt32} {chunkId : UInt64} {record : ObjectRecord}
  {rs : List ObjectRecord}

theorem append_eq_ok {write : Option ℕ} {location : RecordLocation}
    (h : w.append P write record = (w', .ok location)) :
    verifyObjectRecord P record = .ok () ∧ record.Fits ∧
      w.nextOffset + record.encoding.length < 2 ^ 64 ∧ w' = w.appended record.encoding ∧
      location = ⟨w.nextOffset, record.encoding.length⟩ := by
  unfold append at h
  split at h
  · simp at h
  rename_i hverify
  split at h
  · simp at h
  rename_i encoded henc
  simp only [Except.mapErr_eq_ok] at hverify henc
  obtain ⟨hfit, rfl⟩ := encodeRecord_eq_ok_iff.mp henc
  split at h
  · simp at h
  split_ifs at h with hnext hcount
  · simp only [Prod.mk.injEq, Except.ok.injEq] at h
    exact ⟨hverify, hfit, hnext, h.1.symm, h.2.symm⟩
  · simp at h
  · simp at h

theorem Behind.appended (h : w.Behind rs) (hfit : record.Fits)
    (hnext : w.nextOffset + record.encoding.length < 2 ^ 64) :
    (w.appended record.encoding).Behind (rs ++ [record]) := by
  obtain ⟨junk, hfile⟩ := h.file_eq
  have hoff : w.nextOffset = (w.header.encode ++ encodings rs).length := by
    rw [h.nextOffset_eq]
    simp [chunkHeaderLen]
  constructor
  · refine ⟨junk.drop record.encoding.length, ?_⟩
    simp only [ChunkWriter.appended, hfile, hoff, writeAt_append]
    simp
  · simp [ChunkWriter.appended, h.nextOffset_eq, Nat.add_assoc]
  · simp [ChunkWriter.appended, h.recordCount_eq]
  · simp [ChunkWriter.appended, h.crc_eq]
  · simp only [List.mem_append, List.mem_singleton]
    rintro r (hr | rfl)
    · exact h.fits r hr
    · exact hfit
  · exact hnext

theorem applyWith_eq_ok {fault : Option String} {batch : List Operation}
    (h : applyWith fault catalog batch = .ok catalog') : catalog.apply batch = .ok catalog' := by
  cases fault with
  | some e => simp [applyWith] at h
  | none => simpa [applyWith] using h

variable {header : ChunkHeader} {offset : ℕ} {oid : GitOid} {id : ContentId}

theorem ensureCatalogWritable_eq_ok_iff :
    ensureCatalogWritable catalog header = .ok () ↔
      ∀ m, catalog.chunk header.generation header.chunkId = some m → m.state = .opened := by
  unfold ensureCatalogWritable
  split <;> rename_i hm <;> simp [hm]

/-- What a call of `createAndPublish` can do, by how far it gets. -/
inductive CreateOutcome (header : ChunkHeader) (existing : Option Str) (faults : CreateFaults)
    (catalog : InMemoryCatalog) :
    Option Str → InMemoryCatalog → Except StoreError ChunkWriter → Prop
  | refused (found : faults.create.isSome ∨ existing.isSome) (e : StoreError) :
      CreateOutcome header existing faults catalog existing catalog (.error e)
  | torn {n : ℕ} (absent : existing = none) (failing : faults.write = some n) (e : StoreError) :
      CreateOutcome header existing faults catalog (some (header.encode.take n)) catalog (.error e)
  | notPublished (absent : existing = none) (e : StoreError) :
      CreateOutcome header existing faults catalog (some header.encode) catalog (.error e)
  | published {catalog' : InMemoryCatalog} (absent : existing = none)
      (applied : (create header).publishOpen faults.catalog catalog = .ok catalog') :
      CreateOutcome header existing faults catalog (some header.encode) catalog'
        (.ok (create header))

theorem createAndPublish_createOutcome {existing opened : Option Str} {faults : CreateFaults}
    {result : Except StoreError ChunkWriter}
    (h : createAndPublish header existing faults catalog = (opened, catalog', result)) :
    CreateOutcome header existing faults catalog opened catalog' result := by
  unfold createAndPublish at h
  split at h
  · rename_i failing
    cases h
    exact .refused (.inl (by rw [failing]; rfl)) _
  split at h
  · rename_i found
    cases h
    exact .refused (.inr found) _
  rename_i absent
  have absent : existing = none := by simpa using absent
  split at h
  · rename_i failing
    cases h
    exact .torn absent failing _
  split at h
  · cases h
    exact .notPublished absent _
  split at h
  · cases h
    exact .notPublished absent _
  · rename_i applied
    cases h
    exact .published absent applied

/-- What a call of `appendAndIndex` can do, by how far it gets. -/
inductive AppendOutcome (P : Primitives) (w : ChunkWriter) (catalog : InMemoryCatalog)
    (faults : AppendFaults) (repo : RepoId) (record : ObjectRecord) :
    ChunkWriter → InMemoryCatalog → Except StoreError (Option RecordLocation) → Prop
  | refused (e : StoreError) :
      AppendOutcome P w catalog faults repo record w catalog (.error e)
  | aliased {place : ObjectLocation} {catalog' : InMemoryCatalog}
      (writable : ensureCatalogWritable catalog w.header = .ok ())
      (known : catalog.objectLocation record.contentId = some place)
      (applied : catalog.apply [.oidAlias repo record.primaryOid record.contentId] =
        .ok catalog') :
      AppendOutcome P w catalog faults repo record w catalog' (.ok none)
  | notAppended {w' : ChunkWriter} {e : StoreError}
      (missing : catalog.objectLocation record.contentId = none)
      (failed : w.append P faults.write record = (w', .error e)) :
      AppendOutcome P w catalog faults repo record w' catalog (.error e)
  | notSynced {w' : ChunkWriter} {location : RecordLocation}
      (missing : catalog.objectLocation record.contentId = none)
      (appended : w.append P faults.write record = (w', .ok location))
      (failing : faults.sync = true) (e : StoreError) :
      AppendOutcome P w catalog faults repo record w' catalog (.error e)
  | notPublished {w' : ChunkWriter} {location : RecordLocation}
      (missing : catalog.objectLocation record.contentId = none)
      (appended : w.append P faults.write record = (w', .ok location)) (e : StoreError) :
      AppendOutcome P w catalog faults repo record w'.synced catalog (.error e)
  | published {w' : ChunkWriter} {location : RecordLocation} {catalog' : InMemoryCatalog}
      (writable : ensureCatalogWritable catalog w.header = .ok ())
      (missing : catalog.objectLocation record.contentId = none)
      (appended : w.append P faults.write record = (w', .ok location))
      (applied : catalog.apply (w'.synced.indexBatch repo record location.offset) =
        .ok catalog') :
      AppendOutcome P w catalog faults repo record w'.synced catalog' (.ok (some location))

theorem appendAndIndex_appendOutcome {result : Except StoreError (Option RecordLocation)}
    (h : w.appendAndIndex P catalog faults repo generation chunkId record =
      (w', catalog', result)) :
    AppendOutcome P w catalog faults repo record w' catalog' result := by
  unfold appendAndIndex at h
  split at h
  · cases h
    exact .refused _
  split at h
  · cases h
    exact .refused _
  split at h
  · cases h
    exact .refused _
  rename_i writable
  split at h
  · rename_i known
    split at h
    · cases h
      exact .refused _
    · rename_i applied
      cases h
      exact .aliased writable known (applyWith_eq_ok applied)
  rename_i missing
  split at h
  · rename_i failed
    cases h
    exact .notAppended missing failed
  rename_i appended
  unfold syncData at h
  split_ifs at h with failing
  · cases h
    exact .notSynced missing appended failing _
  · simp only at h
    split at h
    · cases h
      exact .notPublished missing appended _
    · rename_i applied
      cases h
      exact .published writable missing appended (applyWith_eq_ok applied)

/-- The two ways a call succeeds: a new record, durable before its batch, or an
alias to content that already has a location. -/
theorem appendAndIndex_eq_ok {out : Option RecordLocation}
    (h : w.appendAndIndex P catalog faults repo generation chunkId record =
      (w', catalog', .ok out)) :
    ensureCatalogWritable catalog w.header = .ok () ∧
    ((∃ location, catalog.objectLocation record.contentId = some location ∧ w' = w ∧
        out = none ∧
        catalog.apply [.oidAlias repo record.primaryOid record.contentId] = .ok catalog') ∨
      (catalog.objectLocation record.contentId = none ∧ verifyObjectRecord P record = .ok () ∧
        record.Fits ∧ w.nextOffset + record.encoding.length < 2 ^ 64 ∧
        w' = (w.appended record.encoding).synced ∧
        out = some ⟨w.nextOffset, record.encoding.length⟩ ∧
        catalog.apply (w'.indexBatch repo record w.nextOffset) = .ok catalog')) := by
  cases appendAndIndex_appendOutcome h with
  | aliased writable known applied =>
    exact ⟨writable, .inl ⟨_, known, rfl, rfl, applied⟩⟩
  | published writable missing appended applied =>
    obtain ⟨verified, fits, room, rfl, rfl⟩ := append_eq_ok appended
    exact ⟨writable, .inr ⟨missing, verified, fits, room, rfl, rfl, applied⟩⟩

/-- With room for the record, a write that does not fail leaves no trace of a refused record. -/
theorem append_eq_error {e : StoreError} (room : w.nextOffset + record.encoding.length < 2 ^ 64)
    (count : w.recordCount + 1 < 2 ^ 64) (h : w.append P none record = (w', .error e)) :
    w' = w := by
  unfold append at h
  split at h
  · cases h
    rfl
  split at h
  · cases h
    rfl
  rename_i encoded
  obtain ⟨_, rfl⟩ := encodeRecord_eq_ok_iff.mp (Except.mapErr_eq_ok.mp encoded)
  rw [if_pos room, if_pos count] at h
  cases h

theorem indexBatch_objectLocation
    (h : catalog.apply (w.indexBatch repo record offset) = .ok catalog') (id : ContentId) :
    catalog'.objectLocation id = if id = record.contentId
      then some (record.locationAt w.header offset) else catalog.objectLocation id := by
  rw [objectLocation_eq (apply_rebuild h), objectLocation_eq (apply_eq_ok_iff.mp h).1,
    apply_eq_foldl h]
  simp [indexBatch, stage, FinMap.lookup_insert_eq]

theorem indexBatch_chunk (h : catalog.apply (w.indexBatch repo record offset) = .ok catalog') :
    catalog'.chunk w.header.generation w.header.chunkId = some w.openMetadata := by
  rw [apply_eq_foldl h]
  simp [indexBatch, stage, chunk]

theorem aliasBatch_objectLocation (h : catalog.apply [.oidAlias repo oid id] = .ok catalog')
    (id' : ContentId) :
    catalog'.objectLocation id' = catalog.objectLocation id' :=
  apply_frame (·.objectLocation id') h (by simp; intros; rfl)

theorem aliasBatch_chunk (h : catalog.apply [.oidAlias repo oid id] = .ok catalog') (g : UInt32)
    (n : UInt64) :
    catalog'.chunk g n = catalog.chunk g n :=
  apply_frame (·.chunk g n) h (by simp; intros; rfl)

/-- A batch for a new record commits unless its alias is bound elsewhere. -/
theorem indexBatch_ok (hc : catalog.objectLocationRebuildInProgress = false)
    (halias : ∀ id, catalog.oidAlias repo record.primaryOid = some id → id = record.contentId)
    (w : ChunkWriter) (offset : ℕ) :
    ∃ c, catalog.apply (w.indexBatch repo record offset) = .ok c := by
  refine ⟨(w.indexBatch repo record offset).foldl stage catalog,
    apply_eq_ok_iff.mpr ⟨hc, rfl, ?_⟩⟩
  have hno : (catalog.stage (.objectLocation record.contentId
      (record.locationAt w.header offset))).aliasConflict
        (.oidAlias repo record.primaryOid record.contentId) = none := by
    simp only [aliasConflict, stage]
    cases h : catalog.aliases.lookup (repo, record.primaryOid) with
    | none => rfl
    | some id => simp [halias id h]
  simp [indexBatch, stageAll, hno]
  simp [aliasConflict]

theorem appendAndIndex_new (hwritable : ensureCatalogWritable catalog w.header = .ok ())
    (hc : catalog.objectLocationRebuildInProgress = false)
    (hnone : catalog.objectLocation record.contentId = none)
    (halias : ∀ id, catalog.oidAlias repo record.primaryOid = some id → id = record.contentId)
    (hverify : verifyObjectRecord P record = .ok ()) (hfit : record.Fits)
    (hnext : w.nextOffset + record.encoding.length < 2 ^ 64) (hcount : w.recordCount + 1 < 2 ^ 64) :
    ∃ w' c', w.appendAndIndex P catalog {} repo w.header.generation w.header.chunkId record =
      (w', c', .ok (some ⟨w.nextOffset, record.encoding.length⟩)) := by
  have happend : w.append P none record =
      (w.appended record.encoding, .ok ⟨w.nextOffset, record.encoding.length⟩) := by
    rw [append, hverify, encodeRecord_eq_ok_iff.mpr ⟨hfit, rfl⟩]
    simp only [Except.mapErr_ok, if_pos hnext, if_pos hcount]
  obtain ⟨c', hc'⟩ := indexBatch_ok hc halias (w.appended record.encoding).synced w.nextOffset
  refine ⟨(w.appended record.encoding).synced, c', ?_⟩
  unfold appendAndIndex
  simp only [ne_eq, not_true_eq_false, if_false, hwritable, hnone, happend, syncData,
    Bool.false_eq_true, applyWith, hc', Except.mapErr_ok]
end Lemmas
end ChunkWriter
end ReflinkForest
