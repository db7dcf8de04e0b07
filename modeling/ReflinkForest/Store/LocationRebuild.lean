import Mathlib.Data.Prod.Lex
import ReflinkForest.Index.RebuildProtocol
import ReflinkForest.Store.SealedChunk

/-! Rebuilding the object locations of a catalog from its chunk files. The counters of the report
are natural numbers. -/
namespace ReflinkForest
open Bytes Except List

/-- Chunk files by path. The suffix belongs to the path. -/
structure ChunkDisk (π : Type) where
  suffix : π → ChunkSuffix
  file : π → Option Str

structure LocationRebuildReport where
  chunkFiles : ℕ := 0
  sealedChunks : ℕ := 0
  openChunks : ℕ := 0
  scannedRecords : ℕ := 0
  selectedLocations : ℕ := 0
  duplicateRecords : ℕ := 0
  preservedAliasesVerified : ℕ := 0
  catalogBatchesWritten : ℕ := 0
  deriving DecidableEq

structure RebuildCandidate (π : Type) where
  entry : ObjectLocationEntry
  path : π
  deriving DecidableEq

structure LocationRebuildPreflight (π : Type) where
  entries : List (RebuildCandidate π)
  report : LocationRebuildReport
  deriving DecidableEq

inductive RebuildChunkState where
  | opened | sealed
  deriving DecidableEq

structure RebuildChunkScan where
  header : ChunkHeader
  state : RebuildChunkState
  records : ℕ

def rebuildLocationOrder (location : ObjectLocation) : ℕ ×ₗ ℕ ×ₗ ℕ :=
  toLex (location.generation.toNat, toLex (location.chunkId.toNat, location.offset.toNat))

def rebuildLocationPrecedes (current : Option UInt32) (candidate existing : ObjectLocation) :
    Bool :=
  match current with
  | none => rebuildLocationOrder candidate < rebuildLocationOrder existing
  | some generation =>
    if candidate.generation = generation ∧ existing.generation ≠ generation then true
    else if candidate.generation ≠ generation ∧ existing.generation = generation then false
    else rebuildLocationOrder candidate < rebuildLocationOrder existing

/-- The object ID of a streamed object, over the length its record declares. -/
def gitOidHasher (P : Primitives) (algorithm : HashAlgorithm) (kind : ObjectKind)
    (rawLength : UInt64) (raw : Str) : GitOid :=
  match algorithm with
  | .sha1 => ⟨.sha1, (P.sha1 (GitOid.objectHeader kind rawLength.toNat ++ raw)).toList,
      by simp [HashAlgorithm.oidLen]⟩
  | .sha256 => ⟨.sha256, (P.sha256 (GitOid.objectHeader kind rawLength.toNat ++ raw)).toList,
      by simp [HashAlgorithm.oidLen]⟩

section Preflight
variable {π : Type} (P : Primitives) (disk : ChunkDisk π)

/-- What the visitor of a scan collects. -/
def collectCandidates (header : ChunkHeader) (path : π) :
    ℕ → List ObjectRecord → List (RebuildCandidate π)
  | _, [] => []
  | offset, record :: records =>
    ⟨⟨record.contentId, record.locationAt header offset⟩, path⟩ ::
      collectCandidates header path (offset + record.encoding.length) records

def scanChunkForLocationRebuild (path : π) :
    Except StoreError (RebuildChunkScan × List (RebuildCandidate π)) := do
  let file ← .ofOption (.io .notFound) (disk.file path)
  let header ← readChunkHeader file
  match disk.suffix path with
  | .sealed =>
    let verified ← verifySealedFile P file
    .ok (⟨header, .sealed, verified.footer.recordCount.toNat⟩,
      collectCandidates header path chunkHeaderLen verified.records)
  | .other => .error .notAnOpenChunk
  | .opened =>
    match verifySealedFile P file with
    | .ok _ => .error .openChunkContainsSealedFooter
    | .error _ =>
      let scan ← scanRecords P file file.length true
      .ok (⟨header, .opened, scan.records.length⟩,
        collectCandidates header path chunkHeaderLen scan.records)

structure PreflightState (π : Type) where
  identities : List (UInt32 × UInt64) := []
  selected : FinMap ContentId (RebuildCandidate π) := ∅
  report : LocationRebuildReport := {}

variable (current : Option UInt32)

def selectCandidate (state : PreflightState π) (candidate : RebuildCandidate π) :
    PreflightState π where
  identities := state.identities
  selected := state.selected.keepFirst
    (fun a b => rebuildLocationPrecedes current a.entry.location b.entry.location)
    candidate.entry.contentId candidate
  report :=
    if (state.selected.lookup candidate.entry.contentId).isNone then state.report
    else { state.report with duplicateRecords := state.report.duplicateRecords + 1 }

/-- One turn of the loop over the paths. -/
def scanPath (state : PreflightState π) (path : π) : Except StoreError (PreflightState π) := do
  let (chunk, candidates) ← scanChunkForLocationRebuild P disk path
  .require ((chunk.header.generation, chunk.header.chunkId) ∉ state.identities)
    (.duplicateRebuildChunkIdentity chunk.header.generation chunk.header.chunkId)
  let report := { state.report with
    chunkFiles := state.report.chunkFiles + 1
    openChunks := state.report.openChunks + if chunk.state = .opened then 1 else 0
    sealedChunks := state.report.sealedChunks + if chunk.state = .sealed then 1 else 0
    scannedRecords := state.report.scannedRecords + chunk.records }
  .ok (candidates.foldl (selectCandidate current)
    ⟨(chunk.header.generation, chunk.header.chunkId) :: state.identities, state.selected, report⟩)

/-- The object ID is computed anew for every alias; the source keeps the ones it has. -/
def verifyPreservedAlias (selected : FinMap ContentId (RebuildCandidate π))
    (preserved : OidAliasEntry) : Except StoreError Unit :=
  match selected.lookup preserved.contentId with
  | none => .error (.preservedAliasMissingContent preserved.repository preserved.oid
      preserved.contentId)
  | some candidate => do
    let file ← .ofOption (.io .notFound) (disk.file candidate.path)
    let location := candidate.entry.location
    let (_, raw) ← streamDecodedRecordAt P file location
    let actual := gitOidHasher P preserved.oid.algorithm location.kind location.rawLength raw
    .require (actual = preserved.oid)
      (.preservedAliasContentMismatch preserved.repository preserved.oid preserved.contentId)

variable [LinearOrder π]

/-- Sorted paths repeat next to each other. -/
def preflightObjectLocationRebuild (catalog : InMemoryCatalog) (paths : List π) :
    Except StoreError (LocationRebuildPreflight π) := do
  let state ← (paths.insertionSort (· ≤ ·)).dedup.foldlM
    (scanPath P disk catalog.currentGeneration) {}
  catalog.visitOidAliases.forM (verifyPreservedAlias P disk state.selected)
  .ok ⟨(state.selected.sortedBy fun e => e.1.key).map Prod.snd,
    { state.report with
      preservedAliasesVerified := catalog.visitOidAliases.length
      selectedLocations := state.selected.entries.length }⟩

/-- The catalog writes that an interruption lets through. -/
def interrupted (stop : Option ℕ) (steps : List InMemoryCatalog.RebuildStep) :
    List InMemoryCatalog.RebuildStep :=
  match stop with
  | none => steps
  | some n => steps.take n

/-- A rebuild that is interrupted after `stop` catalog writes. -/
def rebuildUntil (stop : Option ℕ) (catalog : InMemoryCatalog) (paths : List π)
    (maximumBatchEntries : ℕ) : InMemoryCatalog × Except StoreError LocationRebuildReport :=
  if maximumBatchEntries = 0 then (catalog, .error .invalidLocationRebuildBatchSize)
  else
    let state := catalog.objectLocationRebuildState
    let restart := if state = .inProgress then [.restartRebuild] else []
    match catalog.rebuildSteps (interrupted stop restart) with
    | (catalog, .error e) => (catalog, .error (.catalog e))
    | (catalog, .ok ()) =>
      match preflightObjectLocationRebuild P disk catalog paths with
      | .error e => (catalog, .error e)
      | .ok preflight =>
        let batches := (preflight.entries.map RebuildCandidate.entry).toChunks maximumBatchEntries
        let writes := (if state = .idle then [.beginRebuild] else []) ++ batches.map .append ++
          [.finish]
        match catalog.rebuildSteps (interrupted (stop.map (· - restart.length)) writes) with
        | (catalog, .error e) => (catalog, .error (.catalog e))
        | (catalog, .ok ()) =>
          (catalog, .ok { preflight.report with catalogBatchesWritten := batches.length })

def rebuildObjectLocations (catalog : InMemoryCatalog) (paths : List π)
    (maximumBatchEntries : ℕ) : InMemoryCatalog × Except StoreError LocationRebuildReport :=
  rebuildUntil P disk none catalog paths maximumBatchEntries
end Preflight

section Order
variable {current : Option UInt32} {candidate existing : ObjectLocation}

/-- Copies in the current generation come first, then the lowest place. -/
def rebuildRank (current : Option UInt32) (location : ObjectLocation) : ℕ ×ₗ ℕ ×ₗ ℕ ×ₗ ℕ :=
  toLex (if some location.generation = current then 0 else 1, rebuildLocationOrder location)

theorem rebuildLocationPrecedes_iff : rebuildLocationPrecedes current candidate existing = true ↔
    rebuildRank current candidate < rebuildRank current existing := by
  simp only [rebuildRank, Prod.Lex.toLex_lt_toLex]
  cases current with
  | none => simp [rebuildLocationPrecedes]
  | some generation =>
    by_cases first : candidate.generation = generation <;>
      by_cases second : existing.generation = generation <;>
      simp [rebuildLocationPrecedes, first, second]
end Order

section Scan
variable {π : Type} {P : Primitives} {disk : ChunkDisk π} {path : π} {file : Str}
  {header : ChunkHeader} {records : List ObjectRecord}

/-- A chunk file that is complete: sealed, or open and ending behind a record. -/
def CompleteChunk (P : Primitives) (suffix : ChunkSuffix) (file : Str) (header : ChunkHeader)
    (records : List ObjectRecord) : Prop :=
  match suffix with
  | .sealed => ∃ footer, Sealed P file ⟨header, footer, records⟩
  | .opened => file = header.encode ++ encodings records ∧
    (∀ r ∈ records, Scannable P true r) ∧ file.length < 2 ^ 64
  | .other => False

theorem mem_collectCandidates {offset : ℕ} {candidate : RebuildCandidate π} :
    candidate ∈ collectCandidates header path offset records ↔
      ∃ before record after, records = before ++ record :: after ∧
        candidate = ⟨⟨record.contentId,
          record.locationAt header (offset + (encodings before).length)⟩, path⟩ := by
  induction records generalizing offset with
  | nil => simp [collectCandidates]
  | cons head records ih =>
    rw [collectCandidates, mem_cons, ih]
    constructor
    · rintro (rfl | ⟨before, record, after, rfl, rfl⟩)
      · exact ⟨[], head, records, rfl, rfl⟩
      · refine ⟨head :: before, record, after, rfl, ?_⟩
        rw [encodings_cons, length_append, Nat.add_assoc]
    · rintro ⟨_ | ⟨first, before⟩, record, after, split, rfl⟩
      · obtain ⟨rfl, rfl⟩ := List.cons.inj split
        exact .inl rfl
      · obtain ⟨rfl, rfl⟩ := List.cons.inj split
        refine .inr ⟨before, record, after, rfl, ?_⟩
        rw [encodings_cons, length_append, Nat.add_assoc]

/-- An open chunk is no sealed one: no record looks like a footer. -/
theorem verifySealedFile_open (whole : file = header.encode ++ encodings records)
    (scannable : ∀ r ∈ records, Scannable P true r) :
    ∃ e, verifySealedFile P file = .error e := by
  cases verified : verifySealedFile P file with
  | error e => exact ⟨e, rfl⟩
  | ok v =>
    have sealed := verifySealedFile_eq_ok_iff.mp verified
    have region : encodings records = encodings v.records ++ v.footer.encode := by
      rw [← header.drop_encode (encodings records), ← whole, sealed.whole, append_assoc,
        v.header.drop_encode]
    have footer := v.footer.length_encode
    rcases encodings_prefix_total (fun r mem => (sealed.scannable r mem).1)
      (fun r mem => (scannable r mem).1) (region ▸ prefix_append _ _) prefix_rfl with
      ⟨more, rfl⟩ | ⟨more, more_eq⟩
    · rw [encodings_append, append_cancel_left_eq] at region
      cases more with
      | nil => simp [← region] at footer
      | cons first more =>
        rw [encodings_cons, ← append_nil v.footer.encode] at region
        exact absurd region (encoding_append_ne_footer first v.footer _ _)
    · have length := congrArg List.length region
      rw [← more_eq, encodings_append] at length
      simp only [length_append] at length
      omega

theorem scanChunkForLocationRebuild_complete (found : disk.file path = some file)
    (complete : CompleteChunk P (disk.suffix path) file header records) :
    ∃ state, scanChunkForLocationRebuild P disk path = .ok (⟨header, state, records.length⟩,
      collectCandidates header path chunkHeaderLen records) := by
  unfold scanChunkForLocationRebuild
  rw [found, ofOption_some, ok_bind]
  cases suffix : disk.suffix path with
  | sealed =>
    rw [suffix] at complete
    obtain ⟨footer, sealed⟩ := complete
    have read : readChunkHeader file = .ok header := by
      rw [readChunkHeader_eq_ok_iff, sealed.whole, append_assoc]
      exact prefix_append _ _
    refine ⟨.sealed, ?_⟩
    simp only [read, ok_bind, sealed.verifySealedFile, ← sealed.count]
  | opened =>
    rw [suffix] at complete
    obtain ⟨whole, scannable, _⟩ := complete
    obtain ⟨e, refused⟩ := verifySealedFile_open whole scannable
    have read : readChunkHeader file = .ok header := by
      rw [readChunkHeader_eq_ok_iff, whole]
      exact prefix_append _ _
    have length : file.length = chunkHeaderLen + (encodings records).length := by
      rw [whole, length_append, header.length_encode]
      rfl
    have scan : scanRecords P file file.length true = .ok (RecordScan.start.after records) := by
      have front : encodings records <+: file.drop chunkHeaderLen := by
        rw [whole, header.drop_encode]
      rw [length]
      exact scanRecords_exact scannable front length.ge
    refine ⟨.opened, ?_⟩
    simp only [read, ok_bind, refused, scan]
    rfl
  | other =>
    rw [suffix] at complete
    exact complete.elim

theorem CompleteChunk.holdsRecord {suffix : ChunkSuffix} {before after : List ObjectRecord}
    {record : ObjectRecord}
    (complete : CompleteChunk P suffix file header (before ++ record :: after)) :
    HoldsRecord file header (chunkHeaderLen + (encodings before).length) record ∧
      Scannable P true record := by
  obtain ⟨rest, whole, scannable, small⟩ : ∃ rest,
      file = header.encode ++ encodings (before ++ record :: after) ++ rest ∧
      (∀ r ∈ before ++ record :: after, Scannable P true r) ∧ file.length < 2 ^ 64 := by
    cases suffix with
    | sealed =>
      obtain ⟨footer, sealed⟩ := complete
      exact ⟨footer.encode, sealed.whole, sealed.scannable, sealed.length ▸ UInt64.toNat_lt _⟩
    | opened =>
      obtain ⟨whole, scannable, small⟩ := complete
      exact ⟨[], by rw [append_nil, whole], scannable, small⟩
    | other => exact complete.elim
  have here := scannable record (by simp)
  have drop : file.drop (chunkHeaderLen + (encodings before).length) =
      record.encoding ++ (encodings after ++ rest) := by
    rw [← drop_drop, whole, append_assoc, header.drop_encode, encodings_append,
      encodings_cons, append_assoc, drop_left, append_assoc]
  have length := congrArg List.length drop
  rw [length_drop, length_append] at length
  have positive := record.length_encoding_pos
  refine ⟨⟨?_, here.1, Nat.le_add_right _ _, by omega, ?_⟩, here⟩
  · rw [whole, append_assoc]
    exact prefix_append _ _
  · rw [drop]
    exact prefix_append _ _
end Scan
end ReflinkForest
