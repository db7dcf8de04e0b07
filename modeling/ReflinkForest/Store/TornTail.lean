import ReflinkForest.Store.CrashSafety
import ReflinkForest.Store.SealedChunk

/-! Torn tails: what reconciliation makes of complete records followed by a part of a record or of
the footer, and of a chunk whose footer is complete. -/
namespace ReflinkForest
open Bytes Except List InMemoryCatalog

section Tail
variable {P : Primitives} {header : ChunkHeader} {rs : List ObjectRecord} {tail : Str}
  {footer : SealedChunkFooter}

/-- The footer that sealing these records writes. -/
structure MatchingFooter (rs : List ObjectRecord) (footer : SealedChunkFooter) : Prop where
  count : footer.recordCount.toNat = rs.length
  length : footer.finalLength.toNat =
    chunkHeaderLen + (encodings rs).length + sealedChunkFooterLen
  checksum : footer.recordsCrc32c = crc32c (encodings rs)

/-- A write behind the records that was cut short. -/
inductive TornTail (rs : List ObjectRecord) : Str → Prop
  | record {next : ObjectRecord} {encoded tail : Str} (encodes : encodeRecord next = .ok encoded)
      (inside : tail <+: encoded) (cut : tail ≠ encoded) : TornTail rs tail
  | footer {footer : SealedChunkFooter} {tail : Str} (matching : MatchingFooter rs footer)
      (inside : tail <+: footer.encode) (cut : tail ≠ footer.encode) : TornTail rs tail

/-- Neither a record nor a footer is complete in these bytes. -/
structure Incomplete (tail : Str) : Prop where
  record : ∀ r : ObjectRecord, r.Fits → ¬ r.encoding <+: tail
  footer : ∀ footer : SealedChunkFooter, tail ≠ footer.encode

theorem incomplete_nil : Incomplete [] where
  record r _ complete := by
    have long := r.length_encoding_pos
    rw [prefix_nil.mp complete, length_nil] at long
    omega
  footer footer same := by
    have length := congrArg List.length same
    rw [SealedChunkFooter.length_encode] at length
    cases length

theorem TornTail.not_record (torn : TornTail rs tail) {r : ObjectRecord} (fits : r.Fits) :
    ¬ r.encoding <+: tail := by
  intro complete
  cases torn with
  | record encodes inside cut =>
    obtain ⟨nextFits, rfl⟩ := encodeRecord_eq_ok_iff.mp encodes
    obtain rfl := encoding_prefix_inj fits nextFits (complete.trans inside) (prefix_refl _)
    exact cut (inside.eq_of_length_le complete.length_le)
  | footer matching inside cut =>
    have long := complete.length_le.trans inside.length_le
    have := r.length_encoding_pos
    rw [SealedChunkFooter.length_encode] at long
    omega

theorem TornTail.not_footer (torn : TornTail rs tail) : tail ≠ footer.encode := by
  rintro rfl
  cases torn with
  | @record next _ _ encodes inside cut =>
    obtain ⟨_, rfl⟩ := encodeRecord_eq_ok_iff.mp encodes
    obtain ⟨rest, same⟩ := inside
    exact encoding_append_ne_footer next footer [] rest (by rw [append_nil, same])
  | footer matching inside cut =>
    exact cut (inside.eq_of_length (by simp))

theorem TornTail.incomplete (torn : TornTail rs tail) : Incomplete tail :=
  ⟨fun _ fits => torn.not_record fits, fun _ => torn.not_footer⟩

theorem Incomplete.not_sealed (torn : Incomplete tail) (fits : ∀ r ∈ rs, r.Fits) :
    isSealed P (header.encode ++ encodings rs ++ tail) = false := by
  rw [Bool.eq_false_iff, Ne, isSealed_eq_true]
  rintro ⟨v, accepted⟩
  have sealed := verifySealedFile_eq_ok_iff.mp accepted
  obtain ⟨more, records⟩ := verifySealedFile_records accepted fits (prefix_append _ _)
  have whole := sealed.whole
  rw [← records, encodings_append] at whole
  simp only [append_assoc] at whole
  obtain ⟨_, whole⟩ := append_inj whole (by simp)
  rw [append_cancel_left_eq] at whole
  cases more with
  | nil => exact torn.footer _ whole
  | cons r more =>
    rw [encodings_cons, append_assoc] at whole
    have fitsNext : r.Fits := (sealed.scannable r (by simp [← records])).1
    exact torn.record r fitsNext ⟨_, whole.symm⟩

theorem Scannable.relaxed {r : ObjectRecord} (h : Scannable P true r) : Scannable P false r :=
  ⟨h.1, h.2.1, fun strict => absurd strict (by simp)⟩

theorem Incomplete.recoverFile (torn : Incomplete tail)
    (scannable : ∀ r ∈ rs, Scannable P false r) :
    recoverFile P (header.encode ++ encodings rs ++ tail) = .ok (header.encode ++ encodings rs,
      .of header rs (header.encode ++ encodings rs ++ tail).length) := by
  have begins : header.encode <+: header.encode ++ encodings rs ++ tail := by
    rw [append_assoc]
    exact prefix_append _ _
  obtain ⟨kept, accepted, inside, recovered, stopped⟩ := recoverFile_eq (P := P) begins
  obtain ⟨more, rfl⟩ :=
    prefix_of_recovered scannable accepted (prefix_append _ _) inside stopped
  cases more with
  | nil => rw [recovered, append_nil]
  | cons r more =>
    rw [encodings_append, encodings_cons, append_assoc, prefix_append_right_inj,
      prefix_append_right_inj] at inside
    exact absurd ((prefix_append _ _).trans inside)
      (torn.record r (accepted r (by simp)).1)
end Tail

section Reconcile
variable {P : Primitives} {header : ChunkHeader} {rs : List ObjectRecord} {tail : Str}
  {footer : SealedChunkFooter} {catalog : InMemoryCatalog} {suffix : ChunkSuffix}

/-- The catalog after the chunk's metadata has been published. -/
def withChunk (catalog : InMemoryCatalog) (header : ChunkHeader) (metadata : ChunkMetadata) :
    InMemoryCatalog :=
  catalog.stage (.chunkMetadata header.generation header.chunkId metadata)

theorem applyWith_withChunk (idle : catalog.objectLocationRebuildInProgress = false)
    (metadata : ChunkMetadata) :
    applyWith none catalog [.chunkMetadata header.generation header.chunkId metadata] =
      .ok (withChunk catalog header metadata) :=
  mapErr_eq_ok.mpr (apply_of_no_conflict idle rfl
    (by simp [aliasConflict]))

theorem withChunk_withChunk (metadata : ChunkMetadata) :
    withChunk (withChunk catalog header metadata) header metadata =
      withChunk catalog header metadata := by
  simp only [withChunk, stage, AList.insert_insert]

theorem Incomplete.reconcileChunk (torn : Incomplete tail)
    (scannable : ∀ r ∈ rs, Scannable P true r) (named : suffix ≠ .other)
    (writable : ensureCatalogWritable catalog header = .ok ())
    (idle : catalog.objectLocationRebuildInProgress = false) :
    reconcileChunk P none catalog suffix ⟨some (header.encode ++ encodings rs ++ tail), none⟩ =
      ⟨⟨some (header.encode ++ encodings rs), none⟩,
        withChunk catalog header (ChunkWriter.reopened header rs).openMetadata,
        .ok (.opened (.of header rs (header.encode ++ encodings rs ++ tail).length))⟩ := by
  have relaxed := fun r mem => (scannable r mem).relaxed
  have begins : header.encode <+: header.encode ++ encodings rs ++ tail := by
    rw [append_assoc]
    exact prefix_append _ _
  have unsealed : isSealed P (header.encode ++ encodings rs ++ tail) = false :=
    torn.not_sealed fun r mem => (scannable r mem).1
  rw [reconcileChunk_opened named]
  cases verified : verifySealedFile P (header.encode ++ encodings rs ++ tail) with
  | ok v => exact absurd (isSealed_eq_true.mpr ⟨v, verified⟩) (by rw [unsealed]; decide)
  | error e =>
    have published : (ChunkWriter.reopened header rs).publishOpen none catalog =
        .ok (withChunk catalog header (ChunkWriter.reopened header rs).openMetadata) := by
      rw [ChunkWriter.publishOpen]
      simp only [ChunkWriter.reopened, writable, ok_bind]
      exact applyWith_withChunk idle _
    simp only [reconcileOpen]
    rw [readChunkHeader_eq_ok_iff.mpr begins, ok_bind, writable, torn.recoverFile relaxed]
    simp only [openRecovered_records_eq header relaxed, published]
    rfl

theorem MatchingFooter.reconcileChunk (matching : MatchingFooter rs footer)
    (scannable : ∀ r ∈ rs, Scannable P true r) (named : suffix ≠ .other)
    (writable : ensureCatalogWritable catalog header = .ok ())
    (idle : catalog.objectLocationRebuildInProgress = false) :
    reconcileChunk P none catalog suffix
        ⟨some (header.encode ++ encodings rs ++ footer.encode), none⟩ =
      ⟨⟨none, some (header.encode ++ encodings rs ++ footer.encode)⟩,
        withChunk catalog header ⟨.sealed, footer.finalLength, footer.recordCount⟩,
        .ok (.sealed header footer)⟩ := by
  have sealed : Sealed P (header.encode ++ encodings rs ++ footer.encode) ⟨header, footer, rs⟩ := by
    refine ⟨rfl, scannable, ?_, matching.count.symm, matching.checksum.symm⟩
    rw [matching.length]
    simp [chunkHeaderLen, sealedChunkFooterLen, Nat.add_assoc]
  have unretired : ensureNotRetired catalog header = .ok () := by
    unfold ensureNotRetired
    split
    · rename_i metadata found
      rw [ChunkWriter.ensureCatalogWritable_eq_ok_iff.mp writable metadata found]
      rfl
    · rfl
  rw [reconcileChunk_opened named, sealed.verifySealedFile]
  simp only [publishSealedMetadata, unretired, ok_bind, applyWith_withChunk idle]

theorem ensureCatalogWritable_withChunk (size : UInt64) (count : UInt64) :
    ensureCatalogWritable (withChunk catalog header ⟨.opened, size, count⟩) header = .ok () := by
  rw [ChunkWriter.ensureCatalogWritable_eq_ok_iff]
  intro metadata found
  simp only [withChunk, stage, chunk, AList.lookup_insert,
    Option.some.injEq] at found
  rw [← found]
end Reconcile

/-- Torn tails are told from complete footers, on a catalog that is not being rebuilt. -/
theorem reconcileChunk_classifies (P : Primitives) (header : ChunkHeader) (rs : List ObjectRecord)
    (catalog : InMemoryCatalog) (suffix : ChunkSuffix)
    (verified : ∀ r ∈ rs, verifyObjectRecord P r = .ok () ∧ ∃ encoded,
      encodeRecord r = .ok encoded ∧ encoded.length ≤ maxRecoveryRecordBytes)
    (named : suffix ≠ .other)
    (absentOrOpen : ∀ metadata, catalog.chunk header.generation header.chunkId = some metadata →
      metadata.state = .opened)
    (idle : catalog.objectLocationRebuildInProgress = false) :
    (∀ tail, TornTail rs tail → ∃ catalog',
      reconcileChunk P none catalog suffix ⟨some (header.encode ++ encodings rs ++ tail), none⟩ =
        ⟨⟨some (header.encode ++ encodings rs), none⟩, catalog',
          .ok (.opened (.of header rs (header.encode ++ encodings rs ++ tail).length))⟩ ∧
      reconcileChunk P none catalog' suffix ⟨some (header.encode ++ encodings rs), none⟩ =
        ⟨⟨some (header.encode ++ encodings rs), none⟩, catalog',
          .ok (.opened (.of header rs (header.encode ++ encodings rs).length))⟩) ∧
    (∀ w, (ChunkWriter.create header).appendAll P (rs.map fun r => (none, r)) = (w, rs) →
      ∃ w' recovery, ChunkWriter.openRecovered P (header.encode ++ encodings rs) =
        .ok (w', recovery) ∧ w'.nextOffset = w.nextOffset ∧ w'.recordCount = w.recordCount ∧
        w'.recordsCrc32c = w.recordsCrc32c) ∧
    ∀ footer, MatchingFooter rs footer → ∃ catalog',
      reconcileChunk P none catalog suffix
          ⟨some (header.encode ++ encodings rs ++ footer.encode), none⟩ =
        ⟨⟨none, some (header.encode ++ encodings rs ++ footer.encode)⟩, catalog',
          .ok (.sealed header footer)⟩ := by
  have scannable : ∀ r ∈ rs, Scannable P true r := by
    intro r member
    obtain ⟨verifies, encoded, encodes, small⟩ := verified r member
    obtain ⟨fits, rfl⟩ := encodeRecord_eq_ok_iff.mp encodes
    exact ⟨fits, small, fun _ => verifies⟩
  have writable := ChunkWriter.ensureCatalogWritable_eq_ok_iff.mpr absentOrOpen
  refine ⟨fun tail torn => ?_, fun w ran => ?_, fun footer matching => ?_⟩
  · refine ⟨_, torn.incomplete.reconcileChunk scannable named writable idle, ?_⟩
    have still : ensureCatalogWritable (withChunk catalog header
        (ChunkWriter.reopened header rs).openMetadata) header = .ok () :=
      ensureCatalogWritable_withChunk _ _
    have again := incomplete_nil.reconcileChunk scannable named still idle
    rwa [List.append_nil, withChunk_withChunk] at again
  · have small : ∀ call ∈ rs.map fun r => ((none : Option ℕ), r),
        call.2.encoding.length ≤ maxRecoveryRecordBytes := by
      rw [List.forall_mem_map]
      exact fun r member => (scannable r member).2.1
    have behind := (ChunkWriter.appendAll_behind (ChunkWriter.create_behind header) (by simp) small
      ran).1
    refine ⟨_, _, openRecovered_records_eq header fun r member => (scannable r member).relaxed,
      ?_, behind.recordCount_eq.symm, behind.crc_eq.symm⟩
    rw [behind.nextOffset_eq]
    simp [ChunkWriter.reopened, chunkHeaderLen]
  · exact ⟨_, matching.reconcileChunk scannable named writable idle⟩

section Examples
open ChunkWriter (emptyBlob)

theorem emptyBlob_encodes : encodeRecord emptyBlob = .ok emptyBlob.encoding := by decide +kernel

theorem emptyBlob_verified : ∀ r ∈ [emptyBlob], verifyObjectRecord .reference r = .ok () ∧
    ∃ encoded, encodeRecord r = .ok encoded ∧ encoded.length ≤ maxRecoveryRecordBytes := by
  have verified : verifyObjectRecord .reference emptyBlob = .ok () := by decide +kernel
  have small : emptyBlob.encoding.length ≤ maxRecoveryRecordBytes := by decide +kernel
  rw [forall_mem_singleton]
  exact ⟨verified, _, emptyBlob_encodes, small⟩

theorem tornBlob_truncated : ∃ catalog' header rs tail, header = ChunkHeader.mk 1 0 0 0 ∧
    rs = [emptyBlob] ∧ tail = emptyBlob.encoding.take 100 ∧
    reconcileChunk .reference none {} .opened ⟨some (header.encode ++ encodings rs ++ tail), none⟩ =
      ⟨⟨some (header.encode ++ encodings rs), none⟩, catalog',
        .ok (.opened (.of header rs (header.encode ++ encodings rs ++ tail).length))⟩ := by
  have cut : emptyBlob.encoding.take 100 ≠ emptyBlob.encoding := by decide +kernel
  have classified := reconcileChunk_classifies .reference ⟨1, 0, 0, 0⟩ [emptyBlob] {} .opened
    emptyBlob_verified (by decide) (fun _ found => by cases found) rfl
  obtain ⟨catalog', truncated, _⟩ := classified.1 _
    (.record emptyBlob_encodes (List.take_prefix _ _) cut)
  exact ⟨catalog', _, _, _, rfl, rfl, rfl, truncated⟩

/-- During a rebuild of the locations the metadata cannot be published. -/
theorem reconcileChunk_refused_by_rebuild : ∃ catalog : InMemoryCatalog,
    catalog.chunk 1 0 = none ∧ TornTail [] [] ∧
    (reconcileChunk .reference none catalog .opened
      ⟨some ((ChunkHeader.mk 1 0 0 0).encode ++ encodings [] ++ []), none⟩).result.toBool =
        false := by
  have cut : [] ≠ emptyBlob.encoding := by decide +kernel
  exact ⟨{ objectLocationRebuildInProgress := true }, rfl,
    .record emptyBlob_encodes List.nil_prefix cut, by decide +kernel⟩
end Examples
end ReflinkForest
