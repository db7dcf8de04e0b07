import ReflinkForest.Store.ChunkScan

/-! Reading one catalog-addressed record: the materialising reader and the streaming reader, both of
which re-check what the catalog says. -/
namespace ReflinkForest
open Bytes Except

variable (P : Primitives)

/-- Checks shared by the readers before any record byte is read. -/
def checkLocation (file : Str) (location : ObjectLocation) : Except StoreError Unit := do
  .require (chunkHeaderLen ≤ location.offset.toNat) (.locationMismatch "offset")
  .require (location.offset.toNat + location.recordLength.toNat < 2 ^ 64) .offsetOverflow
  .require (location.offset.toNat + location.recordLength.toNat ≤ file.length)
    (.locationMismatch "record_length")
  let header ← readChunkHeader file
  .require (header.generation = location.generation) (.locationMismatch "generation")
  .require (header.chunkId = location.chunkId) (.locationMismatch "chunk_id")

/-- Record fields that the catalog location duplicates. -/
def validateStreamLocation (metadata : RecordMetadata) (location : ObjectLocation) :
    Except StoreError Unit := do
  .require (metadata.storedLength = location.storedLength) (.locationMismatch "stored_length")
  .require (metadata.rawLength = location.rawLength) (.locationMismatch "raw_length")
  .require (metadata.kind = location.kind) (.locationMismatch "kind")
  .require (metadata.codec = location.codec) (.locationMismatch "codec")
  .require (metadata.flags = location.flags) (.locationMismatch "flags")

def readRecordAt (file : Str) (location : ObjectLocation) : Except StoreError ObjectRecord := do
  checkLocation file location
  let recordHeader ← readExact file location.offset.toNat recordHeaderLen
  let encodedLength ← .mapErr .format (encodedRecordLenFromHeader recordHeader)
  .require (encodedLength ≤ maxRecoveryRecordBytes) .offsetOverflow
  .require (encodedLength = location.recordLength.toNat) (.locationMismatch "record_length")
  let encoded ← readExact file location.offset.toNat encodedLength
  let (record, consumed) ← .mapErr .format (decodeRecord encoded)
  .require (consumed = encodedLength) (.locationMismatch "record_length")
  validateStreamLocation record.metadata location
  .require (crc32c record.payload = location.payloadCrc32c) (.locationMismatch "payload_crc32c")
  .mapErr .codec (verifyObjectRecord P record)
  return record

/-- Stream a record through its codec. The result is the validated metadata and
the decoded bytes. A successful decode has consumed the whole stored payload,
so the leftover check of the source cannot fire after it. -/
def streamDecodedRecordAt (file : Str) (location : ObjectLocation) :
    Except StoreError (RecordMetadata × Str) := do
  checkLocation file location
  let offset := location.offset.toNat
  let recordHeader ← readExact file offset recordHeaderLen
  let metadata ← .mapErr .format (decodeRecordMetadata recordHeader)
  validateStreamLocation metadata location
  let expectedRecordLength ← .mapErr .format (encodedRecordLenFromMetadata metadata)
  .require (expectedRecordLength = location.recordLength.toNat) (.locationMismatch "record_length")
  let stored := metadata.storedLength.toNat
  let payload ← readExact file (offset + recordHeaderLen) stored
  let raw ← .mapErr .codec (decodeObjectPayloadToWriter P metadata.kind metadata.codec
    metadata.rawLength metadata.contentId payload)
  let payloadCrc := crc32c payload
  let footer ← readExact file (offset + recordHeaderLen + stored) recordFooterLen
  let unpaddedLength := metadata.total
  .mapErr .format (validateRecordFooter footer payloadCrc (UInt64.ofNat unpaddedLength))
  .require (payloadCrc = location.payloadCrc32c) (.locationMismatch "payload_crc32c")
  let padding ← readExact file (offset + unpaddedLength) (expectedRecordLength - unpaddedLength)
  .require (allZero padding) (.format .nonZeroPadding)
  return (metadata, raw)

/-- The catalog location of `r` at `offset` in the chunk of `header`. -/
def ObjectRecord.locationAt (r : ObjectRecord) (header : ChunkHeader) (offset : ℕ) :
    ObjectLocation where
  generation := header.generation
  chunkId := header.chunkId
  offset := UInt64.ofNat offset
  recordLength := UInt64.ofNat r.encoding.length
  storedLength := UInt64.ofNat r.payload.length
  rawLength := r.rawLength
  kind := r.kind
  codec := r.codec
  flags := r.flags
  payloadCrc32c := crc32c r.payload

/-- `file` holds `r` complete at `offset`, behind the header that names its chunk. -/
structure HoldsRecord (file : Str) (header : ChunkHeader) (offset : ℕ) (r : ObjectRecord) :
    Prop where
  header_prefix : header.encode <+: file
  fits : r.Fits
  offset_ge : chunkHeaderLen ≤ offset
  end_lt : offset + r.encoding.length < 2 ^ 64
  encoding_prefix : r.encoding <+: file.drop offset

namespace HoldsRecord
variable {P} {file : Str} {header : ChunkHeader} {offset : ℕ} {r : ObjectRecord}

section
variable (h : HoldsRecord file header offset r)
include h

theorem end_le :
    offset + r.encoding.length ≤ file.length := by
  have hlen := h.encoding_prefix.length_le
  have hpos := r.length_encoding_pos
  simp only [List.length_drop] at hlen
  omega

/-- Appending bytes to a chunk never disturbs a complete record. -/
theorem append (more : Str) :
    HoldsRecord (file ++ more) header offset r where
  header_prefix := h.header_prefix.trans (List.prefix_append _ _)
  fits := h.fits
  offset_ge := h.offset_ge
  end_lt := h.end_lt
  encoding_prefix := by
    have hle := h.end_le
    rw [List.drop_append_of_le_length (by omega)]
    exact h.encoding_prefix.trans (List.prefix_append _ _)

theorem toNat_offset :
    (r.locationAt header offset).offset.toNat = offset :=
  UInt64.toNat_ofNat_of_lt' (by have := h.end_lt; change _ < 2 ^ 64; omega)

theorem toNat_recordLength :
    (r.locationAt header offset).recordLength.toNat = r.encoding.length :=
  UInt64.toNat_ofNat_of_lt' (by have := h.end_lt; change _ < 2 ^ 64; omega)

theorem checkLocation :
    checkLocation file (r.locationAt header offset) = .ok () := by
  have hend := h.end_le
  have hlt := h.end_lt
  have hge := h.offset_ge
  simp only [ReflinkForest.checkLocation, bind_eq_ok_iff, require_eq_ok, exists_const,
    h.toNat_offset, h.toNat_recordLength]
  exact ⟨hge, hlt, hend, header, readChunkHeader_eq_ok_iff.mpr h.header_prefix, rfl, rfl⟩

omit h in
theorem validateStreamLocation (r : ObjectRecord) (header : ChunkHeader) (offset : ℕ) :
    validateStreamLocation r.metadata (r.locationAt header offset) = .ok () := by
  simp only [ReflinkForest.validateStreamLocation, bind_eq_ok_iff, require_eq_ok, exists_const]
  exact ⟨rfl, rfl, rfl, rfl, rfl⟩

omit h in
theorem validateRecordFooter (r : ObjectRecord) :
    validateRecordFooter r.footer (crc32c r.payload) (UInt64.ofNat r.total) = .ok () := by
  obtain ⟨hcrc, hlen, hmagic⟩ := (slice_eq_footer_iff (by simp)).mp
    (slice_self r.length_footer)
  have htake : r.footer.take recordFooterLen = r.footer :=
    List.take_of_length_le r.length_footer.le
  simp only [ReflinkForest.validateRecordFooter, bind_eq_ok_iff, require_eq_ok, exists_const, htake]
  exact ⟨r.length_footer.ge, hcrc, hlen, hmagic⟩

theorem readExact_parts :
    (∃ head, readExact file offset recordHeaderLen = .ok head ∧ r.metadata.encode <+: head) ∧
    readExact file (offset + recordHeaderLen) r.payload.length = .ok r.payload ∧
    readExact file (offset + recordHeaderLen + r.payload.length) recordFooterLen =
      .ok r.footer ∧
    readExact file (offset + r.total) (r.encoding.length - r.total) =
      .ok (zeros (r.encoding.length - r.total)) ∧
    readExact file offset r.encoding.length = .ok r.encoding := by
  have hend := h.end_le
  have htotal := r.total_eq
  have halign := le_alignUp r.total
  have henc := h.encoding_prefix
  obtain ⟨hhead, hpayload, hfooter, hpadding⟩ := r.encoding_prefix_iff.mp henc
  rw [r.length_encoding] at hend
  simp only [readExact_eq_ok_iff, recordHeaderLen, recordFooterLen, r.length_encoding]
  refine ⟨⟨_, ⟨by omega, rfl⟩, ?_⟩, ⟨by omega, ?_⟩, ⟨by omega, ?_⟩, ⟨by omega, ?_⟩, ?_⟩
  · rw [← Nat.add_zero offset, ← slice_drop, hhead]
  · rw [← slice_drop, hpayload]
  · rw [Nat.add_assoc, ← slice_drop, hfooter]
  · rw [← slice_drop, hpadding]
  · obtain ⟨rest, hrest⟩ := henc
    refine ⟨by omega, ?_⟩
    rw [← Nat.add_zero offset, ← slice_drop, ← hrest, slice_append_self r.length_encoding]

theorem streamDecodedRecordAt {raw : Str}
    (hraw : decodeObjectPayload P r = .ok raw) :
    streamDecodedRecordAt P file (r.locationAt header offset) = .ok (r.metadata, raw) := by
  obtain ⟨⟨head, hhead, hmeta⟩, hpayload, hfooter, hpadding, -⟩ := h.readExact_parts
  rw [← RecordMetadata.decode_eq_ok_iff] at hmeta
  have hdecode : decodeObjectPayloadToWriter P r.metadata.kind r.metadata.codec
      r.metadata.rawLength r.metadata.contentId r.payload = .ok raw := hraw
  have hcrc : (r.locationAt header offset).payloadCrc32c = crc32c r.payload := rfl
  simp only [ReflinkForest.streamDecodedRecordAt, h.checkLocation, ok_bind,
    h.toNat_offset, h.toNat_recordLength, hhead, hmeta, mapErr_ok,
    HoldsRecord.validateStreamLocation, r.encodedRecordLenFromMetadata h.fits,
    r.toNat_storedLength h.fits, hpayload, hdecode, hfooter, r.total_metadata h.fits,
    HoldsRecord.validateRecordFooter, hpadding, allZero_zeros, require_pos, hcrc]
  rfl

theorem readRecordAt
    (hmax : r.encoding.length ≤ maxRecoveryRecordBytes)
    (hverify : verifyObjectRecord P r = .ok ()) :
    readRecordAt P file (r.locationAt header offset) = .ok r := by
  obtain ⟨⟨head, hhead, hmeta⟩, -, -, -, hrecord⟩ := h.readExact_parts
  have hlen : encodedRecordLenFromHeader head = .ok r.encoding.length := by
    have := r.total_metadata h.fits
    exact encodedRecordLenFromHeader_eq_ok_iff.mpr
      ⟨r.metadata, hmeta, by rw [this]; exact h.fits, by rw [this, r.length_encoding]⟩
  have hdec : decodeRecord r.encoding = .ok (r, r.encoding.length) :=
    decodeRecord_eq_ok_iff.mpr ⟨h.fits, r.length_encoding, List.prefix_refl _⟩
  have hcrc : (r.locationAt header offset).payloadCrc32c = crc32c r.payload := rfl
  simp only [ReflinkForest.readRecordAt, h.checkLocation, ok_bind, h.toNat_offset,
    h.toNat_recordLength, hhead, hlen, mapErr_ok, require_pos hmax, hrecord, hdec,
    HoldsRecord.validateStreamLocation, hcrc, require_pos, hverify]
  rfl
end
end HoldsRecord
end ReflinkForest
