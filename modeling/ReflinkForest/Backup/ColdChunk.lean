import ReflinkForest.Backup.Path
import ReflinkForest.Core.Reference
import ReflinkForest.Store.Recovery

/-! The chunk check of a cold-tier backup, a second scanner that knows nothing of the footer of a
sealed chunk. -/
namespace ReflinkForest
open Bytes Except List

inductive ChunkClassification where
  | opened | sealed
  deriving DecidableEq

structure ColdChunkDescriptor where
  generation : UInt32
  chunkId : UInt64
  classification : ChunkClassification
  validPrefix : UInt64

/-- Ceiling on a record of an untrusted backup: 64 MiB. -/
def maxColdChunkRecordBytes : ℕ := 64 * 1024 * 1024

section Check
variable (root : BackupTree) (relative : BackupPath)

/-- Every component but the last is a directory, and the last a regular file. -/
def checkedColdChunkPath : Except BackupError Str := do
  (PathTree.ancestors relative.names).forM fun above =>
    .require (root.lookup above = some .directory) (.verificationFailed relative.bytes)
  match root.lookup relative.names with
  | some (.leaf (.regular content _)) => .ok content
  | _ => .error (.verificationFailed relative.bytes)

/-- One record of the loop; its length is returned. -/
def coldRecordLen (file : Str) (offset : ℕ) : Except BackupError ℕ := do
  let failed := BackupError.verificationFailed relative.bytes
  let remaining := file.length - offset
  .require (recordHeaderLen ≤ remaining) failed
  let recordHeader ← .mapErr (fun _ => failed) (readExact file offset recordHeaderLen)
  let recordLen ← .mapErr (fun _ => failed) (encodedRecordLenFromHeader recordHeader)
  .require (recordLen ≤ maxColdChunkRecordBytes ∧ recordLen ≤ remaining) failed
  let rest ← .mapErr (fun _ => failed)
    (readExact file (offset + recordHeaderLen) (recordLen - recordHeaderLen))
  let (_, consumed) ← .mapErr (fun _ => failed) (decodeRecord (recordHeader ++ rest))
  .require (consumed = recordLen) failed
  .ok recordLen

/-- The loop over the records. Each one consumes bytes, so the fuel does not run out. -/
def coldRecords (file : Str) : ℕ → ℕ → Except BackupError Unit
  | 0, _ => .ok ()
  | fuel + 1, offset =>
    if offset < file.length then do
      let recordLen ← coldRecordLen relative file offset
      coldRecords file fuel (offset + recordLen)
    else .ok ()

def verifyColdChunkFile (expected : ColdChunkDescriptor) : Except BackupError Unit := do
  let file ← checkedColdChunkPath root relative
  let failed := BackupError.verificationFailed relative.bytes
  .require (file.length = expected.validPrefix.toNat) failed
  let header ← .mapErr (fun _ => failed) (readChunkHeader file)
  .require (header.generation = expected.generation ∧
    header.chunkId = expected.chunkId) failed
  coldRecords relative file file.length chunkHeaderLen
end Check

section Scan
variable {relative : BackupPath} {file : Str} {offset : ℕ}

/-- Records that the backup takes wherever it finds them. -/
def ColdRecord (r : ObjectRecord) : Prop := r.Fits ∧ r.encoding.length ≤ maxColdChunkRecordBytes

theorem readExact_append {file head rest : Str} {first more : ℕ}
    (head_eq : readExact file offset first = .ok head)
    (rest_eq : readExact file (offset + first) more = .ok rest) :
    readExact file offset (first + more) = .ok (head ++ rest) := by
  rw [readExact_eq_ok_iff] at *
  obtain ⟨_, rfl⟩ := head_eq
  obtain ⟨fits, rfl⟩ := rest_eq
  refine ⟨by omega, ?_⟩
  rw [slice, slice, slice, take_add, drop_drop]

theorem coldRecordLen_eq_ok_iff {n : ℕ} : coldRecordLen relative file offset = .ok n ↔
    ∃ r, ColdRecord r ∧ n = r.encoding.length ∧ r.encoding <+: file.drop offset := by
  simp only [coldRecordLen, bind_eq_ok_iff, exists_require, mapErr_eq_ok, ok.injEq]
  constructor
  · rintro ⟨_, head, readHead, len, _, ⟨small, _⟩, rest, readRest, ⟨r, consumed⟩, decoded, same,
      rfl⟩
    obtain ⟨fits, rfl, encoded⟩ := decodeRecord_eq_ok_iff.mp decoded
    have whole := (readExact_eq_ok_iff.mp (readExact_append readHead readRest)).2
    rw [whole] at encoded
    rw [← r.length_encoding] at same
    exact ⟨r, ⟨fits, by omega⟩, same.symm, encoded.trans (List.take_prefix _ _)⟩
  · rintro ⟨r, ⟨fits, small⟩, rfl, encoded⟩
    have long := r.length_encoding_pos
    have inside := encoded.length_le
    rw [length_drop] at inside
    have header : recordHeaderLen = 128 := rfl
    have readHead := readExact_of_le (show offset + recordHeaderLen ≤ file.length by omega)
    have readRest := readExact_of_le
      (show offset + recordHeaderLen + (r.encoding.length - recordHeaderLen) ≤ file.length by omega)
    have whole := (readExact_eq_ok_iff.mp (readExact_append readHead readRest)).2
    rw [show recordHeaderLen + (r.encoding.length - recordHeaderLen) = r.encoding.length by omega,
      slice_of_prefix_drop encoded] at whole
    have decoded : decodeRecord r.encoding = .ok (r, r.encoding.length) :=
      decodeRecord_eq_ok_iff.mpr ⟨fits, r.length_encoding, prefix_rfl⟩
    exact ⟨by omega, _, readHead, _, encodedRecordLenFromHeader_of_record fits encoded,
      ⟨small, inside⟩, _, readRest, _, by rw [whole]; exact decoded, rfl, rfl⟩

theorem coldRecords_eq_ok_iff {fuel : ℕ} (enough : file.length ≤ offset + fuel)
    (inside : offset ≤ file.length) : coldRecords relative file fuel offset = .ok () ↔
      ∃ rs, (∀ r ∈ rs, ColdRecord r) ∧ file.drop offset = encodings rs := by
  induction fuel generalizing offset with
  | zero =>
    rw [coldRecords, drop_of_length_le (by omega)]
    exact iff_of_true rfl ⟨[], by simp, rfl⟩
  | succ fuel ih =>
    rw [coldRecords]
    split_ifs with more
    · rw [bind_eq_ok_iff]
      constructor
      · rintro ⟨n, first, rest⟩
        obtain ⟨r, cold, rfl, encoded⟩ := coldRecordLen_eq_ok_iff.mp first
        have long := r.length_encoding_pos
        have fits := encoded.length_le
        rw [length_drop] at fits
        obtain ⟨rs, colds, drop⟩ := (ih (by omega) (by omega)).mp rest
        refine ⟨r :: rs, by simpa using ⟨cold, colds⟩, ?_⟩
        obtain ⟨tail, same⟩ := encoded
        rw [← drop_drop, ← same, drop_left] at drop
        rw [← same, drop, encodings_cons]
      · rintro ⟨rs, colds, drop⟩
        cases rs with
        | nil =>
          rw [encodings_nil, drop_eq_nil_iff] at drop
          omega
        | cons r rs =>
          rw [encodings_cons] at drop
          have encoded : r.encoding <+: file.drop offset := ⟨_, drop.symm⟩
          have long := r.length_encoding_pos
          have fits := encoded.length_le
          rw [length_drop] at fits
          refine ⟨_, coldRecordLen_eq_ok_iff.mpr ⟨r, colds r mem_cons_self, rfl, encoded⟩, ?_⟩
          refine (ih (by omega) (by omega)).mpr
            ⟨rs, fun other mem => colds other (mem_cons_of_mem _ mem), ?_⟩
          rw [← drop_drop, drop, drop_left]
    · rw [drop_of_length_le (by omega)]
      exact iff_of_true rfl ⟨[], by simp, rfl⟩
end Scan

section Verdict
variable {root : BackupTree} {relative : BackupPath} {expected : ColdChunkDescriptor} {file : Str}

theorem verifyColdChunkFile_eq_ok_iff (found : checkedColdChunkPath root relative = .ok file) :
    verifyColdChunkFile root relative expected = .ok () ↔
      file.length = expected.validPrefix.toNat ∧ ∃ header : ChunkHeader, ∃ rs,
        header.generation = expected.generation ∧ header.chunkId = expected.chunkId ∧
        (∀ r ∈ rs, ColdRecord r) ∧ file = header.encode ++ encodings rs := by
  simp only [verifyColdChunkFile, found, ok_bind, exists_require,
    bind_eq_ok_iff, mapErr_eq_ok, readChunkHeader_eq_ok_iff]
  refine and_congr_right fun _ => exists_congr fun header => ?_
  constructor
  · rintro ⟨⟨rest, rfl⟩, ⟨generation, chunkId⟩, scanned⟩
    obtain ⟨rs, colds, drop⟩ :=
      (coldRecords_eq_ok_iff (by omega) (by simp [chunkHeaderLen])).mp scanned
    rw [header.drop_encode] at drop
    exact ⟨rs, generation, chunkId, colds, by rw [drop]⟩
  · rintro ⟨rs, generation, chunkId, colds, rfl⟩
    refine ⟨prefix_append _ _, ⟨generation, chunkId⟩, ?_⟩
    refine (coldRecords_eq_ok_iff (by omega) (by simp [chunkHeaderLen])).mpr ⟨rs, colds, ?_⟩
    exact header.drop_encode _

theorem checkedColdChunkPath_eq_ok (h : checkedColdChunkPath root relative = .ok file) :
    ∃ small, root.lookup relative.names = some (.leaf (.regular file small)) := by
  obtain ⟨_, _, h⟩ := bind_eq_ok_iff.mp h
  split at h
  · rename_i content small found
    cases h
    exact ⟨small, found⟩
  · cases h

/-- The store accepts the bytes of a chunk under the suffix of its class. An open chunk with a
whole footer counts as sealed. -/
def StoreValid (P : Primitives) (classification : ChunkClassification) (file : Str) : Prop :=
  match classification with
  | .sealed => ∃ verified, verifySealedChunk P .sealed file = .ok verified
  | .opened => isSealed P file = false ∧ ∃ count, verifyChunk P .opened file = .ok count

variable {P : Primitives} {header : ChunkHeader}

theorem opened_records (valid : StoreValid P .opened file)
    (read : readChunkHeader file = .ok header) :
    ∃ rs, (∀ r ∈ rs, ColdRecord r) ∧ file = header.encode ++ encodings rs := by
  obtain ⟨unsealed, count, verified⟩ := valid
  rw [isSealed, Bool.eq_false_iff] at unsealed
  simp only [verifyChunk, read, ok_bind] at verified
  split at verified
  · rename_i sealed
    rw [sealed] at unsealed
    exact absurd rfl unsealed
  · obtain ⟨scan, scanned, _⟩ := bind_eq_ok_iff.mp verified
    obtain ⟨rs, rfl, scannable, encoded, _, stop⟩ := scanRecords_eq_ok scanned
    rw [or_iff_left (by simp), RecordScan.after_finish] at stop
    obtain ⟨rest, rfl⟩ := readChunkHeader_eq_ok_iff.mp read
    rw [header.drop_encode] at encoded
    refine ⟨rs, fun r mem => ⟨(scannable r mem).1, (scannable r mem).2.1⟩, ?_⟩
    have whole : (encodings rs).length = rest.length := by
      simp only [RecordScan.start, length_append, header.length_encode] at stop
      simp only [chunkHeaderLen] at stop
      omega
    rw [encoded.eq_of_length whole]

/-- A chunk that the store considers valid passes the backup when it is open, and only then. -/
theorem verifyColdChunkFile_ok_iff_opened {classification : ChunkClassification}
    (found : checkedColdChunkPath root relative = .ok file)
    (read : readChunkHeader file = .ok header) (valid : StoreValid P classification file) :
    verifyColdChunkFile root relative
        ⟨header.generation, header.chunkId, classification, UInt64.ofNat file.length⟩ = .ok () ↔
      classification = .opened := by
  rw [verifyColdChunkFile_eq_ok_iff found]
  obtain ⟨small, _⟩ := checkedColdChunkPath_eq_ok found
  have length := (UInt64.toNat_ofNat_of_lt' small).symm
  cases classification with
  | opened =>
    obtain ⟨rs, colds, whole⟩ := opened_records valid read
    exact iff_of_true ⟨length, header, rs, rfl, rfl, colds, whole⟩ rfl
  | sealed =>
    refine iff_of_false ?_ (by simp)
    rintro ⟨_, other, rs, _, _, colds, rfl⟩
    obtain ⟨verified, accepted⟩ := valid
    have unsealed : isSealed P (other.encode ++ encodings rs) = false :=
      isSealed_records fun r member => (colds r member).1
    have sealed : isSealed P (other.encode ++ encodings rs) = true :=
      isSealed_eq_true.mpr ⟨verified, (require_bind_eq_ok.mp accepted).2⟩
    rw [unsealed] at sealed
    cases sealed
end Verdict

/-- A chunk without records, before and after it is sealed. -/
def emptyChunkHeader : ChunkHeader := ⟨7, 1, 0, 0⟩

def emptyOpenChunk : Str := emptyChunkHeader.encode

def emptySealedChunk : Str :=
  emptyChunkHeader.encode ++ (SealedChunkFooter.mk 0 128 (crc32c [])).encode

def openChunkPath : BackupPath := ⟨[⟨ascii "1.open", by decide⟩], by simp, by decide⟩

def sealedChunkPath : BackupPath := ⟨[⟨ascii "1.sealed", by decide⟩], by simp, by decide⟩

def chunkTree (path : BackupPath) (content : Str) (small : content.length < 2 ^ 64) : BackupTree :=
  AList.singleton path.names (.leaf (.regular content small))

theorem emptyOpenChunk_accepted :
    verifyColdChunkFile (chunkTree openChunkPath emptyOpenChunk (by decide +kernel))
      openChunkPath ⟨emptyChunkHeader.generation, emptyChunkHeader.chunkId, .opened,
        UInt64.ofNat emptyOpenChunk.length⟩ = .ok () := by
  have found : checkedColdChunkPath (chunkTree openChunkPath emptyOpenChunk (by decide +kernel))
      openChunkPath = .ok emptyOpenChunk := by decide +kernel
  have read : readChunkHeader emptyOpenChunk = .ok emptyChunkHeader := by decide +kernel
  have counted : (verifyChunk .reference .opened emptyOpenChunk).toBool = true := by decide +kernel
  have valid : StoreValid .reference .opened emptyOpenChunk :=
    ⟨by decide +kernel, exists_ok_of_toBool counted⟩
  exact (verifyColdChunkFile_ok_iff_opened found read valid).mpr rfl

theorem emptySealedChunk_rejected : StoreValid .reference .sealed emptySealedChunk ∧
    readChunkHeader emptySealedChunk = .ok emptyChunkHeader ∧
    checkedColdChunkPath (chunkTree sealedChunkPath emptySealedChunk (by decide +kernel))
      sealedChunkPath = .ok emptySealedChunk ∧
    verifyColdChunkFile (chunkTree sealedChunkPath emptySealedChunk (by decide +kernel))
      sealedChunkPath ⟨emptyChunkHeader.generation, emptyChunkHeader.chunkId, .sealed,
        UInt64.ofNat emptySealedChunk.length⟩ =
          .error (.verificationFailed sealedChunkPath.bytes) := by
  have accepted : (verifySealedChunk .reference .sealed emptySealedChunk).toBool = true := by
    decide +kernel
  exact ⟨exists_ok_of_toBool accepted, by decide +kernel, by decide +kernel,
    by decide +kernel⟩

end ReflinkForest
