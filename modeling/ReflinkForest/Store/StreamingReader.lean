import ReflinkForest.Store.RecordReader
import ReflinkForest.Core.Reference

/-! The streaming reader as it runs, with short reads, a codec that pulls and a writer that checks
each piece. -/
namespace ReflinkForest
open Bytes Except List

/-- The open file at `position`, bounded to one stored payload. -/
structure RecordPayloadReader where
  position : ℕ
  remaining : ℕ
  crc : Crc32c

/-- The object writer: what reached the inner writer, which takes every byte. -/
structure ValidatingObjectWriter where
  expectedLength : ℕ
  output : Str

def ValidatingObjectWriter.writeAll (w : ValidatingObjectWriter) (bytes : Str) :
    Except CodecError ValidatingObjectWriter := do
  .require (w.output.length + bytes.length ≤ w.expectedLength) (.io .exceedsDeclaredLength)
  .ok { w with output := w.output ++ bytes }

variable (P : Primitives) (file : Str) (short : ℕ → ℕ)

namespace RecordPayloadReader
/-- A read of the file returns at least one byte before its end; `short` says how many at most. -/
def read (r : RecordPayloadReader) (len : ℕ) : Str × RecordPayloadReader :=
  if r.remaining = 0 ∨ len = 0 then ([], r)
  else
    let limit := min r.remaining len
    let bytes := slice file r.position (max 1 (min limit (short r.position)))
    (bytes, ⟨r.position + bytes.length, r.remaining - bytes.length, r.crc.update bytes⟩)

theorem length_read_le (r : RecordPayloadReader) (len : ℕ) :
    (r.read file short len).1.length ≤ r.remaining := by
  unfold read
  split_ifs with done
  · exact Nat.zero_le _
  · simp only [slice, length_take]
    omega

theorem remaining_read (r : RecordPayloadReader) (len : ℕ) :
    (r.read file short len).2.remaining = r.remaining - (r.read file short len).1.length := by
  unfold read
  split_ifs <;> simp
end RecordPayloadReader

/-- The copy loop of the raw codec. -/
def copyDecoded (r : RecordPayloadReader) (w : ValidatingObjectWriter) :
    Except CodecError (RecordPayloadReader × ValidatingObjectWriter) :=
  if (r.read file short codecStreamBufferBytes).1 = [] then .ok (r, w)
  else do
    let w ← w.writeAll (r.read file short codecStreamBufferBytes).1
    copyDecoded (r.read file short codecStreamBufferBytes).2 w
termination_by r.remaining
decreasing_by
  have bound := r.length_read_le file short codecStreamBufferBytes
  have some := List.length_pos_iff.mpr ‹_›
  rw [r.remaining_read]
  omega

/-- `decode_object_payload_to_writer` over a payload reader. The Zstd decoder pulls single bytes
and stops behind its frame. -/
def RecordPayloadReader.decode (metadata : RecordMetadata) (r : RecordPayloadReader) :
    Except CodecError (RecordPayloadReader × Str) := do
  let w : ValidatingObjectWriter := ⟨metadata.rawLength.toNat, []⟩
  match metadata.codec with
  | .raw =>
    let (r, w) ← copyDecoded file short r w
    finishValidated P metadata.kind metadata.rawLength.toNat metadata.contentId w.output
    .ok (r, w.output)
  | .zstd =>
    let source := slice file r.position r.remaining
    let frame := P.zstdFrame source
    let w ← w.writeAll frame.output
    let rest ← .ofOption (.io .invalidFrame) frame.rest
    let r := (fun r => (r.read file short 1).2)^[source.length - rest.length] r
    .require ((r.read file short 1).1 = []) .trailingZstdData
    finishValidated P metadata.kind metadata.rawLength.toNat metadata.contentId w.output
    .ok ((r.read file short 1).2, w.output)

/-- `stream_decoded_record_at`, with the bytes that reached the writer. -/
def Streaming.streamDecodedRecordAt (location : ObjectLocation) :
    Except StoreError (RecordMetadata × Str) := do
  checkLocation file location
  let recordHeader ← readExact file location.offset.toNat recordHeaderLen
  let metadata ← .mapErr .format (decodeRecordMetadata recordHeader)
  validateStreamLocation metadata location
  let expectedRecordLength ← .mapErr .format (encodedRecordLenFromMetadata metadata)
  .require (expectedRecordLength = location.recordLength.toNat) (.locationMismatch "record_length")
  let payload : RecordPayloadReader :=
    ⟨location.offset.toNat + recordHeaderLen, metadata.storedLength.toNat, Crc32c.new⟩
  let (payload, raw) ← .mapErr .codec (payload.decode P file short metadata)
  .require (payload.remaining = 0) (.codec (.io .payloadNotConsumed))
  let payloadCrc := payload.crc.finalize
  let footer ← readExact file payload.position recordFooterLen
  let unpaddedLength := metadata.total
  .require (unpaddedLength < 2 ^ 64) .offsetOverflow
  .mapErr .format (validateRecordFooter footer payloadCrc (UInt64.ofNat unpaddedLength))
  .require (payloadCrc = location.payloadCrc32c) (.locationMismatch "payload_crc32c")
  let padding ← readExact file (payload.position + recordFooterLen)
    (expectedRecordLength - unpaddedLength)
  .require (allZero padding) (.format .nonZeroPadding)
  return (metadata, raw)

/-- The decoder leaves a suffix of its input behind the frame. -/
def Primitives.ZstdConsumes (P : Primitives) : Prop :=
  ∀ source rest, (P.zstdFrame source).rest = some rest → rest <:+ source

section Reading
variable {P file} {first stored k : ℕ} {r : RecordPayloadReader}

/-- The reader after the first `k` bytes of a payload that lies in the file. -/
structure ReadsPayload (file : Str) (first stored k : ℕ) (r : RecordPayloadReader) : Prop where
  inside : first + stored ≤ file.length
  bound : k ≤ stored
  position : r.position = first + k
  remaining : r.remaining = stored - k
  crc : r.crc = Crc32c.new.update (slice file first k)

theorem ReadsPayload.start (inside : first + stored ≤ file.length) :
    ReadsPayload file first stored 0 ⟨first, stored, Crc32c.new⟩ :=
  ⟨inside, Nat.zero_le _, rfl, rfl, by simp [slice]⟩

/-- A read delivers the next bytes, at least one unless the payload or the buffer is empty. -/
theorem ReadsPayload.read (reads : ReadsPayload file first stored k r) (len : ℕ) :
    ∃ count, (r.read file short len).1 = slice file (first + k) count ∧ k + count ≤ stored ∧
      count ≤ len ∧ (count = 0 ↔ k = stored ∨ len = 0) ∧
      ReadsPayload file first stored (k + count) (r.read file short len).2 := by
  obtain ⟨inside, bound, position, remaining, crc⟩ := reads
  by_cases done : r.remaining = 0 ∨ len = 0
  · refine ⟨0, ?_, by omega, by omega, by omega, ?_⟩
    · simp [RecordPayloadReader.read, done, slice]
    · simp only [RecordPayloadReader.read, if_pos done]
      exact ⟨inside, bound, position, remaining, crc⟩
  · obtain ⟨count, counted⟩ :
      ∃ count, count = max 1 (min (min r.remaining len) (short r.position)) :=
      ⟨_, rfl⟩
    have size : (slice file r.position count).length = count := length_slice (by omega)
    have delivered : r.read file short len = (slice file r.position count,
        ⟨r.position + count, r.remaining - count, r.crc.update (slice file r.position count)⟩) := by
      simp only [RecordPayloadReader.read, if_neg done, ← counted, size]
    rw [delivered]
    refine ⟨count, by rw [position], by omega, by omega, by omega, inside, by omega, ?_, ?_, ?_⟩
    · rw [position, Nat.add_assoc]
    · rw [remaining, Nat.sub_sub]
    · rw [crc, position, ← Crc32c.update_append, ← slice_add]

def payloadEnd (file : Str) (first stored : ℕ) : RecordPayloadReader :=
  ⟨first + stored, 0, Crc32c.new.update (slice file first stored)⟩

theorem ReadsPayload.eq_payloadEnd (reads : ReadsPayload file first stored stored r) :
    r = payloadEnd file first stored := by
  obtain ⟨_, _, position, remaining, crc⟩ := reads
  cases r
  simp_all [payloadEnd]

/-- The copy loop moves the rest of the payload unless it passes the declared length. -/
theorem ReadsPayload.copyDecoded (reads : ReadsPayload file first stored k r) {expected : ℕ}
    (small : k ≤ expected) :
    copyDecoded file short r ⟨expected, slice file first k⟩ =
      (Except.require (stored ≤ expected) (.io .exceedsDeclaredLength) >>= fun _ =>
        .ok (payloadEnd file first stored, ⟨expected, slice file first stored⟩)) := by
  obtain ⟨left, hleft⟩ : ∃ left, stored - k = left := ⟨_, rfl⟩
  induction left using Nat.strong_induction_on generalizing k r with
  | _ left ih =>
    obtain ⟨count, bytes, within, _, stops, next⟩ :=
      reads.read short codecStreamBufferBytes
    have inside := reads.inside
    have size : (slice file (first + k) count).length = count := length_slice (by omega)
    have outputSize : (slice file first k).length = k := length_slice (by omega)
    have buffer : codecStreamBufferBytes ≠ 0 := by decide
    rw [ReflinkForest.copyDecoded, bytes]
    by_cases done : count = 0
    · obtain rfl : k = stored := by tauto
      rw [require_pos small, ok_bind, ← reads.eq_payloadEnd, done, if_pos]
      simp [slice]
    · have some : slice file (first + k) count ≠ [] := by
        rw [← length_pos_iff, size]
        omega
      rw [if_neg some, ValidatingObjectWriter.writeAll, outputSize, size]
      by_cases fits : k + count ≤ expected
      · rw [require_pos fits]
        simp only [ok_bind, ← slice_add]
        exact ih (stored - (k + count)) (by omega) next fits rfl
      · have large : ¬ stored ≤ expected := by omega
        rw [require_neg fits, require_neg large]
        rfl

/-- Single reads go on byte by byte. -/
theorem ReadsPayload.iterate (reads : ReadsPayload file first stored k r) {count : ℕ}
    (within : k + count ≤ stored) :
    ReadsPayload file first stored (k + count) ((fun r => (r.read file short 1).2)^[count] r) := by
  induction count generalizing k r with
  | zero => exact reads
  | succ count ih =>
    obtain ⟨one, _, _, bound, stops, next⟩ := reads.read short 1
    obtain rfl : one = 1 := by omega
    rw [Function.iterate_succ_apply, Nat.add_comm count, ← Nat.add_assoc]
    exact ih next (by omega)

/-- Decoding through the reader is decoding the payload at once. -/
theorem recordPayloadReader_decode (consumes : P.ZstdConsumes) (metadata : RecordMetadata)
    (inside : first + stored ≤ file.length) :
    RecordPayloadReader.decode P file short metadata ⟨first, stored, Crc32c.new⟩ =
      (decodeObjectPayloadToWriter P metadata.kind metadata.codec metadata.rawLength
        metadata.contentId (slice file first stored)).map fun raw =>
          (payloadEnd file first stored, raw) := by
  have size : (slice file first stored).length = stored := length_slice inside
  unfold RecordPayloadReader.decode decodeObjectPayloadToWriter
  cases metadata.codec with
  | raw =>
    have copied : copyDecoded file short ⟨first, stored, Crc32c.new⟩
        ⟨metadata.rawLength.toNat, []⟩ = _ :=
      (ReadsPayload.start inside).copyDecoded short (Nat.zero_le _)
    simp only [copied, size]
    by_cases fits : stored ≤ metadata.rawLength.toNat
    · rw [require_pos fits]
      simp only [ok_bind]
      cases finishValidated P metadata.kind metadata.rawLength.toNat metadata.contentId
        (slice file first stored) <;> rfl
    · rw [require_neg fits]
      rfl
  | zstd =>
    simp only [ValidatingObjectWriter.writeAll, length_nil, Nat.zero_add, nil_append, size]
    by_cases fits : (P.zstdFrame (slice file first stored)).output.length ≤
        metadata.rawLength.toNat
    · rw [require_pos fits]
      simp only [ok_bind]
      cases found : (P.zstdFrame (slice file first stored)).rest with
      | none => rfl
      | some rest =>
        have suffix := (consumes _ _ found).length_le
        rw [size] at suffix
        have within : 0 + (stored - rest.length) ≤ stored := by omega
        have behind := (ReadsPayload.start inside).iterate short within
        obtain ⟨count, bytes, bound, _, stops, next⟩ := behind.read short 1
        have fileSize : (slice file (first + (0 + (stored - rest.length))) count).length = count :=
          length_slice (by omega)
        simp only [ofOption_some, ok_bind, bytes]
        by_cases nothing : rest = []
        · obtain rfl : count = 0 := stops.mpr (.inl (by simp [nothing]))
          rw [require_pos nothing, require_pos (length_eq_zero_iff.mp fileSize)]
          simp only [ok_bind]
          have last : 0 + (stored - rest.length) + 0 = stored := by simp [nothing]
          rw [last] at next
          rw [next.eq_payloadEnd]
          cases finishValidated P metadata.kind metadata.rawLength.toNat metadata.contentId
            (P.zstdFrame (slice file first stored)).output <;> rfl
        · have left : 0 < rest.length := length_pos_iff.mpr nothing
          have more : slice file (first + (0 + (stored - rest.length))) count ≠ [] := by
            rw [← length_pos_iff, fileSize]
            omega
          rw [require_neg nothing, require_neg more]
          rfl
    · rw [require_neg fits]
      rfl

/-- The streaming run computes the one-step reader, however short the reads of the file are. -/
theorem Streaming.streamDecodedRecordAt_eq (consumes : P.ZstdConsumes) (location : ObjectLocation) :
    Streaming.streamDecodedRecordAt P file short location =
      ReflinkForest.streamDecodedRecordAt P file location := by
  unfold Streaming.streamDecodedRecordAt ReflinkForest.streamDecodedRecordAt
  refine bind_congr_ok fun _ checked => ?_
  refine bind_congr_ok fun header _ => ?_
  refine bind_congr_ok fun metadata _ => ?_
  refine bind_congr_ok fun _ _ => ?_
  refine bind_congr_ok fun expected sized => ?_
  refine bind_congr_ok fun _ recorded => ?_
  simp only [checkLocation, bind_eq_ok_iff, exists_require] at checked
  obtain ⟨_, _, inFile, _⟩ := checked
  simp only [mapErr_eq_ok, encodedRecordLenFromMetadata, bind_eq_ok_iff,
    exists_require, align_eq_ok_iff] at sized
  obtain ⟨bound, _, rfl⟩ := sized
  rw [require_eq_ok] at recorded
  have padded := le_alignUp metadata.total
  have total : metadata.total = 128 + metadata.storedLength.toNat + 20 := rfl
  have inside : location.offset.toNat + recordHeaderLen + metadata.storedLength.toNat ≤
      file.length := by
    rw [recordHeaderLen]
    omega
  dsimp only
  rw [recordPayloadReader_decode short consumes metadata inside, readExact_of_le inside, ok_bind]
  cases decodeObjectPayloadToWriter P metadata.kind metadata.codec metadata.rawLength
      metadata.contentId
      (slice file (location.offset.toNat + recordHeaderLen) metadata.storedLength.toNat) with
  | error e => rfl
  | ok raw =>
    have behind : location.offset.toNat + recordHeaderLen + metadata.storedLength.toNat +
        recordFooterLen = location.offset.toNat + metadata.total := by
      rw [total, recordHeaderLen, recordFooterLen]
      omega
    simp only [Except.map, mapErr_ok, ok_bind, payloadEnd, behind]
    simp only [require_pos trivial, require_pos bound, ok_bind]
    rfl
end Reading

section Agreement
variable {P} {file} {location : ObjectLocation} {r : ObjectRecord}

/-- `file` holds `r` where `location` says, with every field that the location repeats. -/
def LocatedRecord (file : Str) (location : ObjectLocation) (r : ObjectRecord) : Prop :=
  ∃ header offset, HoldsRecord file header offset r ∧ location = r.locationAt header offset

theorem locatedRecord_of_checks (checked : checkLocation file location = .ok ())
    (fits : r.Fits) (starts : r.encoding <+: file.drop location.offset.toNat)
    (length : r.encoding.length = location.recordLength.toNat)
    (fields : validateStreamLocation r.metadata location = .ok ())
    (crc : crc32c r.payload = location.payloadCrc32c) : LocatedRecord file location r := by
  simp only [checkLocation, bind_eq_ok_iff, require_eq_ok, exists_const,
    readChunkHeader_eq_ok_iff] at checked
  obtain ⟨offset, last, inFile, header, named, generation, chunkId⟩ := checked
  simp only [validateStreamLocation, bind_eq_ok_iff, require_eq_ok, exists_const] at fields
  obtain ⟨stored, raw, kind, codec, flags⟩ := fields
  refine ⟨header, location.offset.toNat, ⟨named, fits, offset, by omega, starts⟩, ?_⟩
  rw [ObjectRecord.locationAt, UInt64.ofNat_toNat, length, UInt64.ofNat_toNat, generation,
    chunkId, crc]
  obtain ⟨_⟩ := location
  simp_all [ObjectRecord.metadata]

theorem readRecordAt_eq_ok_iff :
    readRecordAt P file location = .ok r ↔ LocatedRecord file location r ∧
      r.encoding.length ≤ maxRecoveryRecordBytes ∧ ∃ raw, decodeObjectPayload P r = .ok raw := by
  constructor
  · intro read
    simp only [readRecordAt, bind_eq_ok_iff, exists_require,
      mapErr_eq_ok, readExact_eq_ok_iff, pure, Except.pure, ok.injEq] at read
    obtain ⟨_, checked, head, ⟨_, rfl⟩, n, _, small, length, encoded, ⟨_, rfl⟩, ⟨record, consumed⟩,
      decoded, whole, _, fields, crc, _, verified, rfl⟩ := read
    obtain ⟨fits, rfl, starts⟩ := decodeRecord_eq_ok_iff.mp decoded
    rw [← whole, ← record.length_encoding] at length small
    refine ⟨locatedRecord_of_checks checked fits (starts.trans (List.take_prefix _ _)) length fields
      crc, small, verifyObjectRecord_eq_ok_iff.mp verified⟩
  · rintro ⟨⟨header, offset, held, rfl⟩, small, decodes⟩
    exact held.readRecordAt small (verifyObjectRecord_eq_ok_iff.mpr decodes)

theorem validateRecordFooter_slice {offset : ℕ} {crc : UInt32} {total : UInt64}
    (valid : validateRecordFooter (slice file offset recordFooterLen) crc total = .ok ()) :
    toU32 (slice file offset 4) = crc ∧ toU64 (slice file (offset + 4) 8) = total ∧
      slice file (offset + 12) 8 = recordEndMagic := by
  simp only [validateRecordFooter, bind_eq_ok_iff, require_eq_ok, exists_const] at valid
  obtain ⟨size, footerCrc, length, magic⟩ := valid
  rw [take_of_length_le (by simp [slice])] at footerCrc length magic
  rw [slice_slice (by decide)] at footerCrc length magic
  exact ⟨footerCrc, length, magic⟩

theorem streamDecodedRecordAt_eq_ok_iff {metadata : RecordMetadata} {raw : Str} :
    streamDecodedRecordAt P file location = .ok (metadata, raw) ↔
      ∃ r, LocatedRecord file location r ∧ decodeObjectPayload P r = .ok raw ∧
        metadata = r.metadata := by
  constructor
  · intro streamed
    simp only [streamDecodedRecordAt, bind_eq_ok_iff, exists_require,
      mapErr_eq_ok, readExact_eq_ok_iff, encodedRecordLenFromMetadata, align_eq_ok_iff, pure,
      Except.pure, ok.injEq, Prod.mk.injEq] at streamed
    obtain ⟨_, checked, _, ⟨inFile, rfl⟩, m, header, _, fields, n, ⟨bound, fits, rfl⟩, length, _,
      ⟨_, rfl⟩, decoded, decodes, _, ⟨_, rfl⟩, _, footer, crc, _, ⟨_, rfl⟩, zero, rfl, rfl⟩ :=
        streamed
    obtain ⟨footerCrc, total, magic⟩ := validateRecordFooter_slice footer
    have whole : m.total = 128 + m.storedLength.toNat + 20 := rfl
    have padded := le_alignUp m.total
    obtain ⟨_, _, inside, _⟩ : _ ∧ _ ∧ location.offset.toNat + location.recordLength.toNat ≤
        file.length ∧ _ := by
      simpa only [checkLocation, bind_eq_ok_iff, exists_require] using checked
    set payload := slice file (location.offset.toNat + recordHeaderLen) m.storedLength.toNat
      with hpayload
    have size : payload.length = m.storedLength.toNat := length_slice (by
      rw [recordHeaderLen]
      omega)
    set r : ObjectRecord :=
      ⟨m.kind, m.codec, m.flags, m.rawLength, m.contentId, m.primaryOid, payload⟩ with hr
    have metadata : r.metadata = m := by
      rw [ObjectRecord.metadata, hr, size, UInt64.ofNat_toNat]
    have accepted : decodeRecord (file.drop location.offset.toNat) = .ok (r, alignUp m.total) := by
      have parts : recordHeaderLen + m.storedLength.toNat + recordFooterLen = m.total := rfl
      have header : m.encode <+: file.drop location.offset.toNat :=
        (RecordMetadata.decode_eq_ok_iff.mp header).trans (List.take_prefix _ _)
      have behind : location.offset.toNat + recordHeaderLen + m.storedLength.toNat +
          recordFooterLen = location.offset.toNat + m.total := by
        rw [← parts]
        omega
      simp only [decodeRecord, bind_eq_ok_iff, exists_require, align_eq_ok_iff, pure,
        Except.pure, ok.injEq, slice_drop, length_drop, Nat.add_sub_cancel, ← Nat.add_assoc]
      refine ⟨m, RecordMetadata.decode_eq_ok_iff.mpr header, ?_⟩
      rw [parts, behind]
      exact ⟨bound, by omega, total, magic, footerCrc, _, ⟨fits, rfl⟩, by omega, zero, rfl⟩
    obtain ⟨recordFits, consumed, starts⟩ := decodeRecord_eq_ok_iff.mp accepted
    rw [consumed, ← r.length_encoding] at length
    exact ⟨r, locatedRecord_of_checks checked recordFits starts length (metadata ▸ fields) crc,
      decodes, metadata.symm⟩
  · rintro ⟨r, ⟨header, offset, held, rfl⟩, decodes, rfl⟩
    exact held.streamDecodedRecordAt decodes

theorem LocatedRecord.decodeRecord (located : LocatedRecord file location r) :
    r.encoding.length = location.recordLength.toNat ∧
      decodeRecord (file.drop location.offset.toNat) = .ok (r, r.encoding.length) := by
  obtain ⟨header, offset, held, rfl⟩ := located
  rw [held.toNat_recordLength, held.toNat_offset]
  exact ⟨rfl, decodeRecord_eq_ok_iff.mpr ⟨held.fits, r.length_encoding, held.encoding_prefix⟩⟩

/-- The streaming reader and the materialising one accept the same files and locations, up to the
size that the latter takes, and give the same object. -/
theorem coldReaders_agree (consumes : P.ZstdConsumes)
    (small : location.recordLength.toNat ≤ maxRecoveryRecordBytes) :
    ((∃ result, Streaming.streamDecodedRecordAt P file short location = .ok result) ↔
      ∃ r, readRecordAt P file location = .ok r) ∧
    ∀ metadata raw r, Streaming.streamDecodedRecordAt P file short location = .ok (metadata, raw) →
      readRecordAt P file location = .ok r →
      decodeObjectPayload P r = .ok raw ∧ metadata = r.metadata := by
  rw [Streaming.streamDecodedRecordAt_eq short consumes]
  refine ⟨⟨?_, ?_⟩, ?_⟩
  · rintro ⟨⟨metadata, raw⟩, streamed⟩
    obtain ⟨r, located, decodes, _⟩ := streamDecodedRecordAt_eq_ok_iff.mp streamed
    obtain ⟨length, _⟩ := located.decodeRecord
    exact ⟨r, readRecordAt_eq_ok_iff.mpr ⟨located, length ▸ small, raw, decodes⟩⟩
  · rintro ⟨r, read⟩
    obtain ⟨located, _, raw, decodes⟩ := readRecordAt_eq_ok_iff.mp read
    exact ⟨(r.metadata, raw), streamDecodedRecordAt_eq_ok_iff.mpr ⟨r, located, decodes, rfl⟩⟩
  · intro metadata raw r streamed read
    obtain ⟨r', located', decodes, rfl⟩ := streamDecodedRecordAt_eq_ok_iff.mp streamed
    obtain ⟨located, _, _⟩ := readRecordAt_eq_ok_iff.mp read
    have same := located'.decodeRecord.2
    rw [located.decodeRecord.2, ok.injEq, Prod.mk.injEq] at same
    rw [same.1]
    exact ⟨decodes, rfl⟩

def letterRecord : ObjectRecord :=
  objectRecord .reference .raw (.forObject .reference .sha1 .blob [97]) .blob [97]

def letterHeader : ChunkHeader := ⟨1, 0, 0, 0⟩

/-- The file delivers single bytes. -/
theorem letterRecord_streams :
    ∃ result, Streaming.streamDecodedRecordAt .reference
      (letterHeader.encode ++ letterRecord.encoding) (fun _ => 1)
      (letterRecord.locationAt letterHeader 64) = .ok result := by
  have consumes : Primitives.reference.ZstdConsumes := by
    rintro source _ ⟨⟩
    exact List.nil_suffix
  have read : readRecordAt .reference (letterHeader.encode ++ letterRecord.encoding)
      (letterRecord.locationAt letterHeader 64) = .ok letterRecord := by decide +kernel
  exact (coldReaders_agree (fun _ => 1) consumes (by decide +kernel)).1.mpr ⟨letterRecord, read⟩
end Agreement
end ReflinkForest
