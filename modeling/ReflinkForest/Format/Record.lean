import ReflinkForest.Format.Chunk

/-! Object records: a 128-byte header, the stored payload, a 20-byte footer and zero padding to an
8-byte boundary. -/
namespace ReflinkForest
open Bytes Except List

def recordHeaderLen : ℕ := 128
def recordFooterLen : ℕ := 20
def recordAlignment : ℕ := 8
def recordMagic : Str := ascii "ROBJ"
def recordEndMagic : Str := ascii "RENDOBJ" ++ [0]
def recordCrcOffset : ℕ := 94

inductive Codec where
  | raw | zstd
  deriving DecidableEq, Repr

namespace Codec
def toTag : Codec → UInt8
  | .raw => 0
  | .zstd => 1

def fromTag (t : UInt8) : Option Codec :=
  if t = 0 then some .raw else if t = 1 then some .zstd else none

@[simp] theorem fromTag_toTag (c : Codec) : fromTag c.toTag = some c := by cases c <;> rfl

theorem toTag_of_fromTag {t : UInt8} {c : Codec} (h : fromTag t = some c) : c.toTag = t := by
  unfold fromTag at h
  split_ifs at h <;> simp_all [toTag] <;> subst c <;> rfl
end Codec

structure ObjectRecord where
  kind : ObjectKind
  codec : Codec
  flags : UInt16
  rawLength : UInt64
  contentId : ContentId
  primaryOid : GitOid
  payload : Str
  deriving DecidableEq

/-- The fixed header fields of a record. -/
structure RecordMetadata where
  kind : ObjectKind
  codec : Codec
  flags : UInt16
  rawLength : UInt64
  storedLength : UInt64
  contentId : ContentId
  primaryOid : GitOid

open RecordMetadata

def encodeOidFixed (oid : GitOid) : Str :=
  [oid.algorithm.toTag] ++ ([UInt8.ofNat oid.algorithm.oidLen] ++
    (oid.bytes ++ zeros (32 - oid.algorithm.oidLen)))

@[simp] theorem length_encodeOidFixed (oid : GitOid) : (encodeOidFixed oid).length = 34 := by
  have := oid.algorithm.oidLen_le
  simp [encodeOidFixed, oid.length_eq]
  omega

def decodeOidFixed (bytes : Str) : Except FormatError GitOid := do
  let algorithm ← .ofOption (.invalidHashAlgorithm (byteAt bytes 0))
    (HashAlgorithm.fromTag (byteAt bytes 0))
  let len := (byteAt bytes 1).toNat
  .require (len = algorithm.oidLen) .invalidOidLength
  .require (allZero (bytes.drop (2 + len))) .invalidOidLength
  .mapErr (fun _ => .invalidOidLength) (GitOid.new algorithm (slice bytes 2 len))

theorem decodeOidFixed_eq_ok_iff {bytes : Str} {oid : GitOid} (length : bytes.length = 34) :
    decodeOidFixed bytes = .ok oid ↔ bytes = encodeOidFixed oid := by
  have bound := oid.algorithm.oidLen_le
  have parts : slice bytes 0 34 = encodeOidFixed oid ↔ byteAt bytes 0 = oid.algorithm.toTag ∧
      byteAt bytes 1 = UInt8.ofNat oid.algorithm.oidLen ∧
      slice bytes 2 oid.algorithm.oidLen = oid.bytes ∧
      allZero (bytes.drop (2 + oid.algorithm.oidLen)) = true := by
    have rest : slice bytes (2 + oid.algorithm.oidLen) (32 - oid.algorithm.oidLen) =
        bytes.drop (2 + oid.algorithm.oidLen) := take_of_length_le (by simp [length]; omega)
    rw [← rest, allZero_slice_iff (by omega)]
    simp (disch := simp [length, oid.length_eq, bound]) only [encodeOidFixed, slice_eq_append_iff,
      slice_one, length_singleton, oid.length_eq, cons.injEq, and_true, Nat.reduceAdd,
      Nat.reduceSub]
  rw [slice_self length] at parts
  simp only [parts, decodeOidFixed, bind_eq_ok_iff, exists_require, ofOption_eq_ok, mapErr_eq_ok,
    GitOid.new_eq_ok_iff, HashAlgorithm.fromTag_eq_some_iff]
  constructor
  · rintro ⟨_, tag, len, zero, rfl, read⟩
    rw [len] at zero read
    exact ⟨tag, by rw [← len]; simp, read.symm, zero⟩
  · rintro ⟨tag, len, read, zero⟩
    rw [len, oid.algorithm.toNat_oidLen]
    exact ⟨_, tag, rfl, zero, rfl, read.symm⟩

/-- Round up to the record alignment. -/
def alignUp (value : ℕ) : ℕ := (value + 7) / 8 * 8

theorem le_alignUp (value : ℕ) : value ≤ alignUp value := by unfold alignUp; omega

def align (value : ℕ) : Except FormatError ℕ := do
  .require (value + (recordAlignment - 1) < 2 ^ 64) .lengthOverflow
  return alignUp value

theorem align_eq_ok_iff {value n : ℕ} :
    align value = .ok n ↔ value + 7 < 2 ^ 64 ∧ n = alignUp value := by
  rw [align, require_bind_eq_ok]
  simp [recordAlignment, pure, Except.pure, eq_comm]

namespace RecordMetadata
def fields (m : RecordMetadata) : Str :=
  recordMagic ++ (u16 formatVersion ++ (u16 128 ++ ([m.kind.toTag] ++ ([m.codec.toTag] ++
    (u16 m.flags ++ (u64 m.rawLength ++ (u64 m.storedLength ++ (m.contentId.key ++
      encodeOidFixed m.primaryOid))))))))

def encode (m : RecordMetadata) : Str := sealBlock m.fields (zeros 30)

@[simp] theorem length_fields (m : RecordMetadata) : m.fields.length = 94 := by
  simp [fields, recordMagic, ascii]

@[simp] theorem length_encode (m : RecordMetadata) : m.encode.length = 128 := by
  simp [encode]
end RecordMetadata

def decodeRecordMetadata (input : Str) : Except FormatError RecordMetadata := do
  .require (recordHeaderLen ≤ input.length) .truncated
  let header := input.take recordHeaderLen
  .require (slice header 0 4 = recordMagic) .badMagic
  checkVersion (toU16 (slice header 4 2))
  checkHeaderLen (toU16 (slice header 6 2)).toNat recordHeaderLen
  .require (toU32 (slice header recordCrcOffset 4) =
      crc32cWithZeroedField header recordCrcOffset 4) .headerCrcMismatch
  .require (allZero (header.drop 98)) .nonZeroReserved
  let kind ← .ofOption (.invalidObjectKind (byteAt header 8)) (ObjectKind.fromTag (byteAt header 8))
  let codec ← .ofOption (.invalidCodec (byteAt header 9)) (Codec.fromTag (byteAt header 9))
  let primaryOid ← decodeOidFixed (slice header 60 34)
  return {
    kind
    codec
    flags := toU16 (slice header 10 2)
    rawLength := toU64 (slice header 12 8)
    storedLength := toU64 (slice header 20 8)
    contentId := ⟨sliceVec header 28 32⟩
    primaryOid }

namespace RecordMetadata
theorem decode_eq_ok_iff {m : RecordMetadata} {input : Str} :
    decodeRecordMetadata input = .ok m ↔ m.encode <+: input := by
  rw [encode, sealBlock_prefix_iff (m := recordHeaderLen) (n := recordCrcOffset) m.length_fields
    rfl]
  simp only [decodeRecordMetadata, bind_eq_ok_iff, exists_require, ofOption_eq_ok, checkVersion,
    checkHeaderLen]
  refine and_congr_right fun long => ?_
  have length : (input.take recordHeaderLen).length = 128 := length_take_of_le long
  have hm : recordMagic.length = 4 := rfl
  generalize input.take recordHeaderLen = block at *
  have oid {o : GitOid} : decodeOidFixed (slice block 60 34) = .ok o ↔ _ :=
    decodeOidFixed_eq_ok_iff (length_slice (by omega))
  simp (disch := simp [length, hm]) only [fields, recordCrcOffset, slice_eq_append_iff, hm,
    length_u16, length_u64, length_singleton, Vector.toList_length, Nat.reduceAdd, Nat.reduceSub,
    slice_eq_u16_iff, slice_eq_u64_iff, slice_one, cons.injEq, and_true, ContentId.key,
    slice_eq_toList_iff, ← oid]
  constructor
  · rintro ⟨magic, version, size, sum, zero, kind, hk, codec, hc, oid, read, ⟨⟩⟩
    exact ⟨⟨magic, version, UInt16.toNat_inj.mp size, (ObjectKind.toTag_of_fromTag hk).symm,
      (Codec.toTag_of_fromTag hc).symm, rfl, rfl, rfl, rfl, read⟩, sum, zero⟩
  · rintro ⟨⟨magic, version, size, kind, codec, flags, raw, stored, id, read⟩, sum, zero⟩
    rw [kind, codec, flags, raw, stored, id, size]
    exact ⟨magic, version, rfl, sum, zero, _, ObjectKind.fromTag_toTag _, _,
      Codec.fromTag_toTag _, _, read, rfl⟩

/-- Length of header, payload and footer, before padding. -/
def total (m : RecordMetadata) : ℕ := recordHeaderLen + m.storedLength.toNat + recordFooterLen
end RecordMetadata

namespace ObjectRecord
def metadata (r : ObjectRecord) : RecordMetadata where
  kind := r.kind
  codec := r.codec
  flags := r.flags
  rawLength := r.rawLength
  storedLength := UInt64.ofNat r.payload.length
  contentId := r.contentId
  primaryOid := r.primaryOid

def total (r : ObjectRecord) : ℕ := recordHeaderLen + r.payload.length + recordFooterLen

def footer (r : ObjectRecord) : Str :=
  u32 (crc32c r.payload) ++ (u64 (UInt64.ofNat r.total) ++ recordEndMagic)

/-- The bytes of a complete record. -/
def encoding (r : ObjectRecord) : Str :=
  r.metadata.encode ++ (r.payload ++ (r.footer ++ zeros (alignUp r.total - r.total)))

/-- The padded length is representable. -/
def Fits (r : ObjectRecord) : Prop := r.total + 7 < 2 ^ 64

instance (r : ObjectRecord) : Decidable r.Fits := inferInstanceAs (Decidable (_ < _))

@[simp] theorem length_footer (r : ObjectRecord) : r.footer.length = 20 := by
  simp [footer, recordEndMagic, ascii]

@[simp] theorem length_encoding (r : ObjectRecord) : r.encoding.length = alignUp r.total := by
  have h := le_alignUp r.total
  simp only [encoding, length_append, length_encode, length_footer, length_zeros]
  simp only [total, recordHeaderLen, recordFooterLen] at *
  omega

theorem total_eq (r : ObjectRecord) : r.total = r.payload.length + 148 := by
  simp only [total, recordHeaderLen, recordFooterLen]
  omega

theorem total_metadata {r : ObjectRecord} (h : r.Fits) : r.metadata.total = r.total := by
  have hlt : r.payload.length < 2 ^ 64 := by
    have := r.total_eq
    unfold Fits at h
    omega
  simp [RecordMetadata.total, total, metadata, UInt64.toNat_ofNat_of_lt' hlt]
end ObjectRecord

def encodeRecord (record : ObjectRecord) : Except FormatError Str := do
  .require (record.payload.length < 2 ^ 64) .lengthOverflow
  let total := recordHeaderLen + record.payload.length + recordFooterLen
  .require (total < 2 ^ 64) .lengthOverflow
  let padded ← align total
  return record.metadata.encode ++ (record.payload ++ (record.footer ++ zeros (padded - total)))

theorem encodeRecord_eq_ok_iff {r : ObjectRecord} {enc : Str} :
    encodeRecord r = .ok enc ↔ r.Fits ∧ enc = r.encoding := by
  simp only [encodeRecord, bind_eq_ok_iff, exists_require,
    align_eq_ok_iff, pure, Except.pure, ok.injEq]
  have ht := r.total_eq
  change _ ∧ r.total < _ ∧ _ ↔ _
  constructor
  · rintro ⟨-, -, n, ⟨hfit, rfl⟩, rfl⟩
    exact ⟨hfit, rfl⟩
  · rintro ⟨hfit, rfl⟩
    unfold ObjectRecord.Fits at hfit
    exact ⟨by omega, by omega, _, ⟨hfit, rfl⟩, rfl⟩

def decodeRecord (bytes : Str) : Except FormatError (ObjectRecord × ℕ) := do
  let metadata ← decodeRecordMetadata bytes
  let stored := metadata.storedLength.toNat
  let total := recordHeaderLen + stored + recordFooterLen
  .require (total < 2 ^ 64) .lengthOverflow
  let totalFooter := total - recordFooterLen
  .require (total ≤ bytes.length) .truncated
  .require (toU64 (slice bytes (totalFooter + 4) 8) = UInt64.ofNat total) .invalidRecordLength
  .require (slice bytes (totalFooter + 12) 8 = recordEndMagic) .footerMagicMismatch
  let payload := slice bytes recordHeaderLen stored
  .require (toU32 (slice bytes totalFooter 4) = crc32c payload) .payloadCrcMismatch
  let consumed ← align total
  .require (consumed ≤ bytes.length) .truncated
  .require (allZero (slice bytes total (consumed - total))) .nonZeroPadding
  return ({
    kind := metadata.kind
    codec := metadata.codec
    flags := metadata.flags
    rawLength := metadata.rawLength
    contentId := metadata.contentId
    primaryOid := metadata.primaryOid
    payload }, consumed)

/-- The length of the record that starts with this header. -/
def encodedRecordLenFromHeader (bytes : Str) : Except FormatError ℕ := do
  let metadata ← decodeRecordMetadata bytes
  .require (metadata.total < 2 ^ 64) .lengthOverflow
  align metadata.total

def encodedRecordLenFromMetadata (metadata : RecordMetadata) : Except FormatError ℕ := do
  .require (metadata.total < 2 ^ 64) .lengthOverflow
  align metadata.total

def validateRecordFooter (bytes : Str) (payloadCrc32c : UInt32) (unpaddedRecordLength : UInt64) :
    Except FormatError Unit := do
  .require (recordFooterLen ≤ bytes.length) .truncated
  let footer := bytes.take recordFooterLen
  .require (toU32 (slice footer 0 4) = payloadCrc32c) .payloadCrcMismatch
  .require (toU64 (slice footer 4 8) = unpaddedRecordLength) .invalidRecordLength
  .require (slice footer 12 8 = recordEndMagic) .footerMagicMismatch

theorem slice_eq_footer_iff {r : ObjectRecord} {bytes : Str} {off : ℕ}
    (h : off + 20 ≤ bytes.length) : slice bytes off 20 = r.footer ↔
      toU32 (slice bytes off 4) = crc32c r.payload ∧
      toU64 (slice bytes (off + 4) 8) = UInt64.ofNat r.total ∧
      slice bytes (off + 12) 8 = recordEndMagic := by
  simp (disch := first | simp | omega) only [ObjectRecord.footer, slice_eq_append_iff, length_u32,
    length_u64, Nat.reduceSub, slice_eq_u32_iff, slice_eq_u64_iff, Nat.add_assoc, Nat.reduceAdd]

section Slices
variable {r : ObjectRecord} {bytes : Str}

theorem ObjectRecord.encoding_prefix_iff : r.encoding <+: bytes ↔
    slice bytes 0 128 = r.metadata.encode ∧ slice bytes 128 r.payload.length = r.payload ∧
      slice bytes (128 + r.payload.length) 20 = r.footer ∧
      slice bytes r.total (alignUp r.total - r.total) = zeros (alignUp r.total - r.total) := by
  have total := r.total_eq
  have padded := le_alignUp r.total
  rw [prefix_iff_eq_take, eq_comm, length_encoding]
  change slice bytes 0 (alignUp r.total) = _ ↔ _
  simp (disch := first | omega | simp; omega) only [encoding, slice_eq_append_iff,
    length_encode, length_footer, Nat.zero_add]
  rw [show 128 + r.payload.length + 20 = r.total by omega,
    show alignUp r.total - 128 - r.payload.length - 20 = alignUp r.total - r.total by omega]

theorem ObjectRecord.metadata_prefix (h : r.encoding <+: bytes) : r.metadata.encode <+: bytes :=
  (prefix_append _ _).trans h

theorem ObjectRecord.toNat_storedLength (h : r.Fits) :
    r.metadata.storedLength.toNat = r.payload.length := by
  have htotal := r.total_eq
  unfold ObjectRecord.Fits at h
  exact UInt64.toNat_ofNat_of_lt' (by change _ < 2 ^ 64; omega)
end Slices

theorem decodeRecord_eq_ok_iff {bytes : Str} {r : ObjectRecord} {n : ℕ} :
    decodeRecord bytes = .ok (r, n) ↔ r.Fits ∧ n = alignUp r.total ∧ r.encoding <+: bytes := by
  simp only [decodeRecord, bind_eq_ok_iff, exists_require,
    align_eq_ok_iff, pure, Except.pure, ok.injEq, Prod.mk.injEq]
  simp only [recordHeaderLen, recordFooterLen, Nat.add_sub_cancel]
  constructor
  · rintro ⟨m, hm, hlt, hle, hlen, hend, hcrc, n', ⟨hfit, rfl⟩, hn, hzero, hr, rfl⟩
    set stored := m.storedLength.toNat with hstored
    have hpay : (slice bytes 128 stored).length = stored := length_slice (by omega)
    have hp : r.payload = slice bytes 128 stored := by rw [← hr]
    have hsize : r.payload.length = stored := by rw [hp, hpay]
    have hmeta : r.metadata = m := by
      rw [ObjectRecord.metadata, hp, hpay, ← hr, hstored, UInt64.ofNat_toNat]
    have htotal : 128 + stored + 20 = r.total := by rw [r.total_eq, hp, hpay]; omega
    have hle := le_alignUp r.total
    rw [htotal] at hfit hn hzero hlen ⊢
    rw [allZero_slice_iff (by omega)] at hzero
    obtain ⟨rest, head⟩ := decode_eq_ok_iff.mp hm
    refine ⟨hfit, rfl, ObjectRecord.encoding_prefix_iff.mpr ⟨?_, ?_, ?_, hzero⟩⟩
    · rw [hmeta, ← head, slice_append_self m.length_encode]
    · rw [hsize, hp]
    · rw [slice_eq_footer_iff (by omega), hsize, hp]
      exact ⟨hcrc, hlen, hend⟩
  · rintro ⟨hfit, rfl, henc⟩
    have htotal := r.total_eq
    have hfit' : r.payload.length + 155 < 2 ^ 64 := by unfold ObjectRecord.Fits at hfit; omega
    have hlen := r.length_encoding ▸ henc.length_le
    have hle := le_alignUp r.total
    obtain ⟨_, hpayload, hfooter, hpadding⟩ := r.encoding_prefix_iff.mp henc
    obtain ⟨hcrc, htot, hend⟩ := (slice_eq_footer_iff (by omega)).mp hfooter
    have ht : 128 + r.payload.length + 20 = r.total := by omega
    refine ⟨r.metadata, decode_eq_ok_iff.mpr (r.metadata_prefix henc), ?_⟩
    rw [r.toNat_storedLength hfit, ht, hpayload]
    exact ⟨by omega, by omega, htot, hend, hcrc, _, ⟨hfit, rfl⟩, by omega,
      by rw [hpadding]; exact allZero_zeros _, rfl, rfl⟩

theorem ObjectRecord.encodedRecordLenFromMetadata {r : ObjectRecord} (fits : r.Fits) :
    encodedRecordLenFromMetadata r.metadata = .ok r.encoding.length := by
  have bound : r.total < 2 ^ 64 := by
    unfold ObjectRecord.Fits at fits
    omega
  rw [ReflinkForest.encodedRecordLenFromMetadata, ObjectRecord.total_metadata fits,
    require_pos bound, ok_bind, r.length_encoding]
  exact align_eq_ok_iff.mpr ⟨fits, rfl⟩

/-- Both length functions give `n` on the header at the start of `bytes`. -/
def HeaderLength (bytes : Str) (n : ℕ) : Prop :=
  encodedRecordLenFromHeader (bytes.take recordHeaderLen) = .ok n ∧
    ∃ metadata, decodeRecordMetadata (bytes.take recordHeaderLen) = .ok metadata ∧
      encodedRecordLenFromMetadata metadata = .ok n

theorem headerLength_of_encoding {r : ObjectRecord} {bytes : Str} (fits : r.Fits)
    (starts : r.encoding <+: bytes) : HeaderLength bytes r.encoding.length := by
  have header : decodeRecordMetadata (bytes.take recordHeaderLen) = .ok r.metadata := by
    obtain ⟨rest, rfl⟩ := r.metadata_prefix starts
    rw [decode_eq_ok_iff, recordHeaderLen,
      take_append_of_le_length (by simp), take_of_length_le (by simp)]
  have length := ObjectRecord.encodedRecordLenFromMetadata fits
  refine ⟨?_, r.metadata, header, length⟩
  rw [encodedRecordLenFromHeader, header]
  exact length

/-- The codec is a bijection between the records that fit and the accepted encodings, and the
header alone gives the length. -/
theorem recordCodec_canonical :
    (∀ r encoded suffix, encodeRecord r = .ok encoded →
      decodeRecord (encoded ++ suffix) = .ok (r, encoded.length) ∧
        HeaderLength (encoded ++ suffix) encoded.length) ∧
    ∀ bytes r n, decodeRecord bytes = .ok (r, n) →
      encodeRecord r = .ok (bytes.take n) ∧ HeaderLength bytes n := by
  constructor
  · intro r encoded suffix done
    obtain ⟨fits, rfl⟩ := encodeRecord_eq_ok_iff.mp done
    have starts : r.encoding <+: r.encoding ++ suffix := prefix_append _ _
    exact ⟨decodeRecord_eq_ok_iff.mpr ⟨fits, r.length_encoding, starts⟩,
      headerLength_of_encoding fits starts⟩
  · intro bytes r n accepted
    obtain ⟨fits, rfl, starts⟩ := decodeRecord_eq_ok_iff.mp accepted
    rw [← r.length_encoding]
    refine ⟨encodeRecord_eq_ok_iff.mpr ⟨fits, ?_⟩, headerLength_of_encoding fits starts⟩
    exact (prefix_iff_eq_take.mp starts).symm
end ReflinkForest
