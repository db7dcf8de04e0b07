import ReflinkForest.Core.Reference
import ReflinkForest.Store.Recovery

/-! Sealed chunks: which files verification accepts, and what sealing leaves after failed appends.
-/
namespace ReflinkForest
open Bytes List SealedChunkFooter
open Except hiding error

section Canonical
variable {P : Primitives} {file : Str} {v : VerifiedSealedChunk}

structure Sealed (P : Primitives) (file : Str) (v : VerifiedSealedChunk) : Prop where
  whole : file = v.header.encode ++ encodings v.records ++ v.footer.encode
  scannable : ∀ r ∈ v.records, Scannable P true r
  length : v.footer.finalLength.toNat = file.length
  count : v.records.length = v.footer.recordCount.toNat
  checksum : crc32c (encodings v.records) = v.footer.recordsCrc32c

/-- A scan that ends with the last of the records in front of it accepts them all. -/
theorem scanRecords_exact {strict : Bool} {rs : List ObjectRecord}
    (scannable : ∀ r ∈ rs, Scannable P strict r) (front : encodings rs <+: file.drop chunkHeaderLen)
    (inside : chunkHeaderLen + (encodings rs).length ≤ file.length) :
    scanRecords P file (chunkHeaderLen + (encodings rs).length) strict =
      .ok (RecordScan.start.after rs) := by
  rw [scanRecords_records scannable front le_rfl inside]
  have finished : ¬ (RecordScan.start.after rs).finish <
    chunkHeaderLen + (encodings rs).length := by
    rw [RecordScan.after_finish]
    exact lt_irrefl _
  cases chunkHeaderLen + (encodings rs).length - rs.length with
  | zero => rfl
  | succ fuel => rw [scanLoop, if_neg finished]

theorem Sealed.length_eq (sealed : Sealed P file v) :
    file.length = chunkHeaderLen + (encodings v.records).length + sealedChunkFooterLen := by
  rw [sealed.whole]
  simp [chunkHeaderLen, sealedChunkFooterLen, Nat.add_assoc]

theorem Sealed.verifySealedFile (sealed : Sealed P file v) : verifySealedFile P file = .ok v := by
  have length := sealed.length_eq
  have header : v.header.encode <+: file := by
    rw [sealed.whole, append_assoc]
    exact prefix_append _ _
  have footerOffset : file.length - sealedChunkFooterLen =
      (v.header.encode ++ encodings v.records).length := by
    rw [length, Nat.add_sub_cancel, length_append, ChunkHeader.length_encode]
    rfl
  have footer : slice file (file.length - sealedChunkFooterLen) sealedChunkFooterLen =
      v.footer.encode := by
    rw [footerOffset, sealed.whole, slice, drop_left, take_of_length_le]
    simp [sealedChunkFooterLen]
  have records : encodings v.records <+: file.drop chunkHeaderLen := by
    rw [sealed.whole, append_assoc, v.header.drop_encode]
    exact prefix_append _ _
  have scan : scanRecords P file (file.length - sealedChunkFooterLen) true =
      .ok (RecordScan.start.after v.records) := by
    rw [length, Nat.add_sub_cancel]
    exact scanRecords_exact sealed.scannable records (by omega)
  simp only [ReflinkForest.verifySealedFile, bind_eq_ok_iff, exists_require,
    mapErr_eq_ok, readChunkHeader_eq_ok_iff, readExact_eq_ok_iff,
    decode_eq_ok_iff, pure, Except.pure, ok.injEq]
  refine ⟨v.header, header, by omega, _, ⟨by omega, rfl⟩, v.footer, ?_, sealed.length, _, scan, ?_,
    sealed.count, sealed.checksum, rfl⟩
  · rw [footer]
  · rw [RecordScan.after_finish, length, Nat.add_sub_cancel]
    rfl

theorem verifySealedFile_eq_ok_iff : verifySealedFile P file = .ok v ↔ Sealed P file v := by
  refine ⟨fun h => ?_, Sealed.verifySealedFile⟩
  obtain ⟨whole, scannable, length, count, checksum⟩ := verifySealedFile_eq_ok h
  exact ⟨whole, scannable, length, count, checksum⟩

/-- A record and a footer differ within their first four bytes. -/
theorem encoding_append_ne_footer (r : ObjectRecord) (footer : SealedChunkFooter)
    (rest rest' : Str) :
    r.encoding ++ rest ≠ footer.encode ++ rest' := by
  intro same
  have magic := congrArg (List.take 4) same
  have record : (r.encoding ++ rest).take 4 = recordMagic := by
    rw [ObjectRecord.encoding, RecordMetadata.encode, sealBlock, RecordMetadata.fields]
    simp [recordMagic, ascii]
  have sealedMagic : (footer.encode ++ rest').take 4 = sealedChunkFooterMagic.take 4 := by
    rw [encode, sealBlock, fields]
    simp [sealedChunkFooterMagic, ascii]
  rw [record, sealedMagic] at magic
  exact absurd magic (by decide)

/-- Encodings of records, each with what verification asks of it. -/
theorem forall₂_encodeRecord_iff {rs : List ObjectRecord} {encoded : List Str} :
    List.Forall₂ (fun r bytes => verifyObjectRecord P r = .ok () ∧ encodeRecord r = .ok bytes ∧
      bytes.length ≤ maxRecoveryRecordBytes) rs encoded ↔
      (∀ r ∈ rs, Scannable P true r) ∧ encoded = rs.map ObjectRecord.encoding := by
  induction rs generalizing encoded with
  | nil => simp
  | cons r rs ih =>
    rw [forall₂_cons_left_iff]
    constructor
    · rintro ⟨bytes, rest, ⟨verified, encodes, small⟩, others, rfl⟩
      obtain ⟨fits, rfl⟩ := encodeRecord_eq_ok_iff.mp encodes
      obtain ⟨scannable, rfl⟩ := ih.mp others
      refine ⟨forall_mem_cons.mpr ⟨⟨fits, small, fun _ => verified⟩, scannable⟩, rfl⟩
    · rintro ⟨scannable, rfl⟩
      obtain ⟨⟨fits, small, verified⟩, others⟩ := forall_mem_cons.mp scannable
      exact ⟨_, _, ⟨verified rfl, encodeRecord_eq_ok_iff.mpr ⟨fits, rfl⟩, small⟩,
        ih.mpr ⟨others, rfl⟩,
        rfl⟩
end Canonical

/-- Verification accepts exactly the canonical files. -/
theorem verifySealedChunk_ok_iff_canonical (P : Primitives) (file : Str) :
    (∃ v, verifySealedChunk P .sealed file = .ok v) ↔
      ∃ (header : ChunkHeader) (rs : List ObjectRecord) (encoded : List Str)
        (footer : SealedChunkFooter),
        List.Forall₂ (fun r bytes => verifyObjectRecord P r = .ok () ∧ encodeRecord r = .ok bytes ∧
          bytes.length ≤ maxRecoveryRecordBytes) rs encoded ∧
        footer.recordCount.toNat = rs.length ∧ footer.finalLength.toNat = file.length ∧
        footer.recordsCrc32c = crc32c encoded.flatten ∧
        file = header.encode ++ encoded.flatten ++ footer.encode := by
  simp only [verifySealedChunk, bind_eq_ok_iff, require_eq_ok, exists_const, true_and,
    verifySealedFile_eq_ok_iff]
  constructor
  · rintro ⟨v, sealed⟩
    exact ⟨v.header, v.records, _, v.footer, forall₂_encodeRecord_iff.mpr ⟨sealed.scannable, rfl⟩,
      sealed.count.symm, sealed.length, sealed.checksum.symm, sealed.whole⟩
  · rintro ⟨header, rs, encoded, footer, records, count, length, checksum, whole⟩
    obtain ⟨scannable, rfl⟩ := forall₂_encodeRecord_iff.mp records
    exact ⟨⟨header, footer, rs⟩, whole, scannable, length, count.symm, checksum.symm⟩

/-- Which step of sealing fails: the synchronisation of the records, the write of the footer
after some bytes, its synchronisation, the rename, the directory or the catalog. -/
structure SealFaults where
  syncRecords : Bool := false
  write : Option ℕ := none
  syncFooter : Bool := false
  rename : Bool := false
  syncDirectory : Bool := false
  catalog : Option String := none

structure SealedChunk where
  header : ChunkHeader
  footer : SealedChunkFooter

namespace ChunkWriter
/-- The footer that describes what the writer has appended. -/
def sealFooter (w : ChunkWriter) : SealedChunkFooter where
  recordCount := UInt64.ofNat w.recordCount
  finalLength := UInt64.ofNat (w.nextOffset + sealedChunkFooterLen)
  recordsCrc32c := w.recordsCrc32c.finalize

def sealedFile (w : ChunkWriter) : Str := writeAt w.file w.nextOffset w.sealFooter.encode

/-- Write the footer, rename the file, publish the sealed state. -/
def sealAndPublish (w : ChunkWriter) (catalog : InMemoryCatalog) (sealedExists : Option Str)
    (faults : SealFaults) : ChunkFiles × InMemoryCatalog × Except StoreError SealedChunk :=
  let files : ChunkFiles := ⟨some w.file, sealedExists⟩
  match ensureCatalogWritable catalog w.header with
  | .error error => (files, catalog, .error error)
  | .ok () =>
    if sealedExists.isSome then (files, catalog, .error .conflictingChunkPaths)
    else if 2 ^ 64 ≤ w.nextOffset + sealedChunkFooterLen then
      (files, catalog, .error .offsetOverflow)
    else if faults.syncRecords then (files, catalog, .error (.io .syncFailed))
    else
      match faults.write with
      | some n =>
        (⟨some (writeAt w.file w.nextOffset (w.sealFooter.encode.take n)), none⟩, catalog,
          .error (.io .writeFailed))
      | none =>
        if faults.syncFooter then (⟨some w.sealedFile, none⟩, catalog, .error (.io .syncFailed))
        else if faults.rename then (⟨some w.sealedFile, none⟩, catalog, .error (.io .writeFailed))
        else if faults.syncDirectory then
          (⟨none, some w.sealedFile⟩, catalog, .error (.io .syncFailed))
        else
          match publishSealedMetadata faults.catalog catalog w.header w.sealFooter with
          | .error error => (⟨none, some w.sealedFile⟩, catalog, .error error)
          | .ok catalog' => (⟨none, some w.sealedFile⟩, catalog', .ok ⟨w.header, w.sealFooter⟩)

/-- A series of appends, each with the bytes after which its write fails; the records of those
that succeed are returned. -/
def appendAll (P : Primitives) (w : ChunkWriter) :
    List (Option ℕ × ObjectRecord) → ChunkWriter × List ObjectRecord
  | [] => (w, [])
  | (write, record) :: calls =>
    match w.append P write record with
    | (w', .ok _) =>
      let (last, appended) := appendAll P w' calls
      (last, record :: appended)
    | (w', .error _) => appendAll P w' calls

section Lemmas
variable {P : Primitives} {w w' : ChunkWriter} {rs rs' : List ObjectRecord} {record : ObjectRecord}
  {catalog catalog' : InMemoryCatalog} {faults : SealFaults} {files : ChunkFiles}
  {sealedExists : Option Str} {sealed : SealedChunk}

/-- What a call of `sealAndPublish` can do, by how far it gets. -/
inductive SealOutcome (w : ChunkWriter) (catalog : InMemoryCatalog) (sealedExists : Option Str)
    (faults : SealFaults) : ChunkFiles → InMemoryCatalog → Except StoreError SealedChunk → Prop
  | refused (e : StoreError) :
      SealOutcome w catalog sealedExists faults ⟨some w.file, sealedExists⟩ catalog (.error e)
  | notRenamed (absent : sealedExists = none) (data : Str)
      (failing : faults.write.isSome ∨ faults.syncFooter ∨ faults.rename) (e : StoreError) :
      SealOutcome w catalog sealedExists faults
        ⟨some (Bytes.writeAt w.file w.nextOffset data), none⟩ catalog (.error e)
  | notPublished (absent : sealedExists = none) (e : StoreError) :
      SealOutcome w catalog sealedExists faults ⟨none, some w.sealedFile⟩ catalog (.error e)
  | published {catalog' : InMemoryCatalog} (absent : sealedExists = none)
      (fits : w.nextOffset + sealedChunkFooterLen < 2 ^ 64)
      (applied : publishSealedMetadata faults.catalog catalog w.header w.sealFooter =
        .ok catalog') :
      SealOutcome w catalog sealedExists faults ⟨none, some w.sealedFile⟩ catalog'
        (.ok ⟨w.header, w.sealFooter⟩)

theorem sealAndPublish_sealOutcome {result : Except StoreError SealedChunk}
    (h : w.sealAndPublish catalog sealedExists faults = (files, catalog', result)) :
    SealOutcome w catalog sealedExists faults files catalog' result := by
  simp only [sealAndPublish] at h
  split at h
  · cases h
    exact .refused _
  split at h
  · cases h
    exact .refused _
  rename_i absent
  have absent : sealedExists = none := by simpa using absent
  split at h
  · cases h
    exact .refused _
  rename_i fits
  split at h
  · cases h
    exact .refused _
  split at h
  · rename_i failing
    cases h
    exact .notRenamed absent _ (.inl (by rw [failing]; rfl)) _
  split at h
  · rename_i failing
    cases h
    exact .notRenamed absent _ (.inr (.inl failing)) _
  split at h
  · rename_i failing
    cases h
    exact .notRenamed absent _ (.inr (.inr failing)) _
  split at h
  · cases h
    exact .notPublished absent _
  split at h
  · cases h
    exact .notPublished absent _
  · rename_i applied
    cases h
    exact .published absent (not_le.mp fits) applied

theorem sealAndPublish_eq_ok
    (h : w.sealAndPublish catalog sealedExists faults = (files, catalog', .ok sealed)) :
    w.nextOffset + sealedChunkFooterLen < 2 ^ 64 ∧ files = ⟨none, some w.sealedFile⟩ ∧
      sealed = ⟨w.header, w.sealFooter⟩ := by
  cases sealAndPublish_sealOutcome h with
  | published _ fits _ => exact ⟨fits, rfl, rfl⟩

section
variable (behind : w.Behind rs)
include behind

theorem Behind.recordCount_lt : w.recordCount + 1 < 2 ^ 64 := by
  have long := length_le_length_encodings rs
  have offset := behind.nextOffset_eq
  have small := behind.nextOffset_lt
  rw [behind.recordCount_eq]
  simp only [chunkHeaderLen] at offset
  omega

theorem Behind.writeAt (data : Str) :
    Behind { w with file := Bytes.writeAt w.file w.nextOffset data } rs where
  file_eq := by
    obtain ⟨junk, file⟩ := behind.file_eq
    have offset : w.nextOffset = (w.header.encode ++ encodings rs).length := by
      rw [behind.nextOffset_eq]
      simp [chunkHeaderLen]
    refine ⟨data ++ junk.drop data.length, ?_⟩
    simp only [file, offset, writeAt_append]
    simp only [append_assoc]
  nextOffset_eq := behind.nextOffset_eq
  recordCount_eq := behind.recordCount_eq
  crc_eq := behind.crc_eq
  fits := behind.fits
  nextOffset_lt := behind.nextOffset_lt

theorem append_error {write : Option ℕ} {error : StoreError}
    (h : w.append P write record = (w', .error error)) : w'.Behind rs := by
  unfold append at h
  split at h
  · cases h
    exact behind
  split at h
  · cases h
    exact behind
  split at h
  · cases h
    exact behind.writeAt _
  · rw [if_pos behind.recordCount_lt] at h
    split_ifs at h
    · cases h
    · cases h
      exact behind.writeAt _

/-- Step by step the writer stays behind the records that were appended. -/
theorem appendAll_behind {calls : List (Option ℕ × ObjectRecord)}
    (scannable : ∀ r ∈ rs, Scannable P true r)
    (small : ∀ call ∈ calls, call.2.encoding.length ≤ maxRecoveryRecordBytes)
    (ran : w.appendAll P calls = (w', rs')) :
    w'.Behind (rs ++ rs') ∧ ∀ r ∈ rs ++ rs', Scannable P true r := by
  induction calls generalizing w rs rs' with
  | nil =>
    cases ran
    rw [append_nil]
    exact ⟨behind, scannable⟩
  | cons call calls ih =>
    obtain ⟨write, record⟩ := call
    have later := fun other mem => small other (mem_cons_of_mem _ mem)
    rw [appendAll] at ran
    split at ran
    · rename_i w₁ location appended
      obtain ⟨verified, fits, next, rfl, _⟩ := append_eq_ok appended
      obtain ⟨rfl, rfl⟩ := Prod.mk.inj ran
      have step : ∀ r ∈ rs ++ [record], Scannable P true r := by
        rw [forall_mem_append, forall_mem_singleton]
        exact ⟨scannable, fits, small (write, record) mem_cons_self, fun _ => verified⟩
      have rest := ih (behind.appended fits next) step later rfl
      rwa [append_assoc] at rest
    · rename_i w₁ error failed
      exact ih (append_error behind failed) scannable later ran

/-- Sealed bytes, with what an earlier failed write left behind the footer. -/
theorem Behind.sealedFile_eq : ∃ junk,
    w.sealedFile = w.header.encode ++ encodings rs ++ w.sealFooter.encode ++ junk ∧
      junk.length = w.file.length - (w.nextOffset + sealedChunkFooterLen) := by
  obtain ⟨junk, file⟩ := behind.file_eq
  have offset : w.nextOffset = (w.header.encode ++ encodings rs).length := by
    rw [behind.nextOffset_eq]
    simp [chunkHeaderLen]
  refine ⟨junk.drop w.sealFooter.encode.length, ?_, ?_⟩
  · rw [sealedFile, file, offset, writeAt_append]
  · rw [file, offset, length_drop, length_append, length_encode]
    simp only [sealedChunkFooterLen]
    omega

/-- The footer describes the records in front of it. -/
theorem Behind.footer_of_short
    (fits : w.nextOffset + sealedChunkFooterLen < 2 ^ 64)
    (short : w.file.length ≤ w.nextOffset + sealedChunkFooterLen) :
    w.sealedFile = w.header.encode ++ encodings rs ++ w.sealFooter.encode ∧
      w.sealFooter.finalLength.toNat = w.sealedFile.length ∧
      rs.length = w.sealFooter.recordCount.toNat ∧
      crc32c (encodings rs) = w.sealFooter.recordsCrc32c := by
  obtain ⟨junk, file, length⟩ := behind.sealedFile_eq
  rw [Nat.sub_eq_zero_of_le short, length_eq_zero_iff] at length
  rw [length, append_nil] at file
  have offset := behind.nextOffset_eq
  have count := behind.recordCount_lt
  refine ⟨file, ?_, ?_, ?_⟩
  · rw [file, sealFooter, UInt64.toNat_ofNat', Nat.mod_eq_of_lt fits, offset]
    simp [chunkHeaderLen, sealedChunkFooterLen, Nat.add_assoc]
  · rw [sealFooter, UInt64.toNat_ofNat', Nat.mod_eq_of_lt (by omega), behind.recordCount_eq]
  · rw [crc32c, ← behind.crc_eq]
    rfl

theorem Behind.sealed_of_short (scannable : ∀ r ∈ rs, Scannable P true r)
    (fits : w.nextOffset + sealedChunkFooterLen < 2 ^ 64)
    (short : w.file.length ≤ w.nextOffset + sealedChunkFooterLen) :
    Sealed P w.sealedFile ⟨w.header, w.sealFooter, rs⟩ := by
  obtain ⟨whole, length, count, checksum⟩ := behind.footer_of_short fits short
  exact ⟨whole, scannable, length, count, checksum⟩
end

/-- The footer behind complete records is the last thing in a file that verification accepts. -/
theorem not_sealed_of_junk {header : ChunkHeader} {footer : SealedChunkFooter} {junk : Str}
    (fits : ∀ r ∈ rs, r.Fits) (nonempty : junk ≠ []) {v : VerifiedSealedChunk} :
    ¬ Sealed P (header.encode ++ encodings rs ++ footer.encode ++ junk) v := by
  intro sealed
  have inside : header.encode ++ encodings rs <+:
      header.encode ++ encodings rs ++ footer.encode ++ junk := by
    rw [append_assoc]
    exact prefix_append _ _
  obtain ⟨more, records⟩ := verifySealedFile_records sealed.verifySealedFile fits inside
  have whole := sealed.whole
  rw [← records, encodings_append] at whole
  simp only [append_assoc] at whole
  obtain ⟨_, whole⟩ := append_inj whole (by simp)
  rw [append_cancel_left_eq] at whole
  cases more with
  | nil =>
    have length := congrArg List.length whole
    simp only [encodings_nil, nil_append, length_append, length_encode] at length
    exact nonempty (length_eq_zero_iff.mp (by omega))
  | cons r more =>
    rw [encodings_cons, append_assoc] at whole
    exact encoding_append_ne_footer r footer _ _ whole.symm
end Lemmas

/-- After any series of appends, sealing gives a valid file with exactly the appended records if and
only if no more than a footer's length of failed writes lies behind the last record. -/
theorem sealAndPublish_sound_iff (P : Primitives) {w₀ w : ChunkWriter} {kept rs : List ObjectRecord}
    {calls : List (Option ℕ × ObjectRecord)} {catalog catalog' : InMemoryCatalog}
    {sealedExists : Option Str} {faults : SealFaults} {files : ChunkFiles} {sealed : SealedChunk}
    (behind : w₀.Behind kept) (scannable : ∀ r ∈ kept, Scannable P true r)
    (small : ∀ call ∈ calls, call.2.encoding.length ≤ maxRecoveryRecordBytes)
    (ran : w₀.appendAll P calls = (w, rs))
    (done : w.sealAndPublish catalog sealedExists faults = (files, catalog', .ok sealed)) :
    (∃ file v, files.sealed = some file ∧ verifySealedChunk P .sealed file = .ok v ∧
      v.records = kept ++ rs) ↔ w.file.length ≤ w.nextOffset + sealedChunkFooterLen := by
  obtain ⟨fits, rfl, _⟩ := sealAndPublish_eq_ok done
  obtain ⟨behind', scannable'⟩ := appendAll_behind behind scannable small ran
  simp only [verifySealedChunk, require_pos, ok_bind, verifySealedFile_eq_ok_iff,
    Option.some.injEq]
  constructor
  · rintro ⟨_, v, rfl, accepted, _⟩
    by_contra long
    obtain ⟨junk, file, length⟩ := behind'.sealedFile_eq
    have nonempty : junk ≠ [] := by
      rintro rfl
      rw [List.length_nil] at length
      omega
    rw [file] at accepted
    exact not_sealed_of_junk behind'.fits nonempty accepted
  · intro short
    exact ⟨_, _, rfl, behind'.sealed_of_short scannable' fits short, rfl⟩

def emptyBlob : ObjectRecord :=
  objectRecord .reference .raw (.forObject .reference .sha1 .blob []) .blob []

/-- The writer after appends to a new chunk. -/
def afterAppends (calls : List (Option ℕ × ObjectRecord)) : ChunkWriter × List ObjectRecord :=
  (create ⟨1, 0, 0, 0⟩).appendAll .reference calls

theorem appendAll_afterAppends {calls : List (Option ℕ × ObjectRecord)} {rs : List ObjectRecord}
    (appended : (afterAppends calls).2 = rs) :
    (create ⟨1, 0, 0, 0⟩).appendAll .reference calls = ((afterAppends calls).1, rs) := by
  subst appended
  rfl

theorem exists_sealed {w : ChunkWriter}
    (ok : (w.sealAndPublish {} none {}).2.2.toBool = true) : ∃ files catalog sealed,
      w.sealAndPublish {} none {} = (files, catalog, .ok sealed) := by
  obtain ⟨sealed, result⟩ := exists_ok_of_toBool ok
  exact ⟨_, _, sealed, Prod.ext rfl (Prod.ext rfl result)⟩

theorem sealAndPublish_after_short_failure : ∃ files catalog sealed file v,
    (afterAppends [(some 10, emptyBlob), (none, emptyBlob)]).2 = [emptyBlob] ∧
    (afterAppends [(some 10, emptyBlob), (none, emptyBlob)]).1.sealAndPublish {} none {} =
      (files, catalog, .ok sealed) ∧ files.sealed = some file ∧
    verifySealedChunk .reference .sealed file = .ok v ∧ v.records = [] ++ [emptyBlob] := by
  have appended : (afterAppends [(some 10, emptyBlob), (none, emptyBlob)]).2 = [emptyBlob] := by
    decide +kernel
  have small : emptyBlob.encoding.length ≤ maxRecoveryRecordBytes := by decide +kernel
  obtain ⟨files, catalog, sealed, done⟩ := exists_sealed
    (w := (afterAppends [(some 10, emptyBlob), (none, emptyBlob)]).1) (by decide +kernel)
  obtain ⟨file, v, name, accepted, records⟩ := (sealAndPublish_sound_iff .reference
    (create_behind ⟨1, 0, 0, 0⟩) (by simp) (by simpa using small) (appendAll_afterAppends appended)
    done).mpr (by decide +kernel)
  exact ⟨files, catalog, sealed, file, v, appended, done, name, accepted, records⟩

theorem sealAndPublish_after_long_failure : ∃ files catalog sealed file,
    emptyBlob.encoding.length ≤ maxRecoveryRecordBytes ∧
    (afterAppends [(some 100, emptyBlob)]).2 = [] ∧
    (afterAppends [(some 100, emptyBlob)]).1.sealAndPublish {} none {} =
      (files, catalog, .ok sealed) ∧ files.sealed = some file ∧
    (verifySealedChunk .reference .sealed file).toBool = false := by
  obtain ⟨files, catalog, sealed, done⟩ := exists_sealed
    (w := (afterAppends [(some 100, emptyBlob)]).1) (by decide +kernel)
  obtain ⟨_, rfl, _⟩ := sealAndPublish_eq_ok done
  exact ⟨_, catalog, sealed, _, by decide +kernel, by decide +kernel, done, rfl, by decide +kernel⟩

end ChunkWriter
end ReflinkForest
