import ReflinkForest.Format.Record

/-! Stored payloads: encoding with one of the two codecs and verified decoding against the declared
raw length and content ID. -/
namespace ReflinkForest
open Bytes Except

/-- I/O failures the codec layer itself can raise. -/
inductive CodecIoError where
  /-- "decoded object exceeds its declared raw length" -/
  | exceedsDeclaredLength
  /-- "codec did not consume the complete stored record payload" -/
  | payloadNotConsumed
  /-- "decoded object write length does not fit in u64" -/
  | writeLengthOverflow
  /-- "decoded object length overflowed u64" -/
  | lengthOverflow
  /-- "failed to write whole buffer" -/
  | writeZero
  /-- A malformed or truncated Zstd frame. -/
  | invalidFrame
  deriving DecidableEq

inductive CodecError where
  | io (error : CodecIoError)
  | rawLengthMismatch (expected actual : ℕ)
  | contentMismatch (expected actual : ContentId)
  | trailingZstdData
  deriving DecidableEq

def codecStreamBufferBytes : ℕ := 64 * 1024

variable (P : Primitives)

def encodeObjectPayload (codec : Codec) (raw : Str) : Str :=
  match codec with
  | .raw => raw
  | .zstd => P.zstdEncode raw

/-- The content hash of `ContentHasher::new(kind, raw_length)` fed with `raw`. -/
def contentHash (kind : ObjectKind) (rawLength : ℕ) (raw : Str) : ContentId :=
  ⟨P.sha256 (ContentId.domain ++ [kind.toTag] ++ be 8 rawLength ++ raw)⟩

theorem contentHash_length (kind : ObjectKind) (raw : Str) :
    contentHash P kind raw.length raw = ContentId.forObject P kind raw := rfl

/-- `ValidatingObjectWriter::finish` after `raw` was written. -/
def finishValidated (kind : ObjectKind) (expectedLength : ℕ) (expected : ContentId) (raw : Str) :
    Except CodecError Unit := do
  .require (raw.length = expectedLength) (.rawLengthMismatch expectedLength raw.length)
  let actual := contentHash P kind expectedLength raw
  .require (actual = expected) (.contentMismatch expected actual)

/-- Decode a complete stored payload. The result is the bytes that reached the
writer; a write that would pass `rawLength` fails before later checks. -/
def decodeObjectPayloadToWriter (kind : ObjectKind) (codec : Codec) (rawLength : UInt64)
    (expectedContentId : ContentId) (source : Str) : Except CodecError Str := do
  match codec with
  | .raw =>
    .require (source.length ≤ rawLength.toNat) (.io .exceedsDeclaredLength)
    finishValidated P kind rawLength.toNat expectedContentId source
    return source
  | .zstd =>
    let frame := P.zstdFrame source
    .require (frame.output.length ≤ rawLength.toNat) (.io .exceedsDeclaredLength)
    let trailing ← .ofOption (.io .invalidFrame) frame.rest
    .require (trailing = []) .trailingZstdData
    finishValidated P kind rawLength.toNat expectedContentId frame.output
    return frame.output

def decodeObjectPayload (record : ObjectRecord) : Except CodecError Str :=
  decodeObjectPayloadToWriter P record.kind record.codec record.rawLength record.contentId
    record.payload

def verifyObjectRecord (record : ObjectRecord) : Except CodecError Unit := do
  let _ ← decodeObjectPayload P record
  return ()

/-- `source` is the stored form of `raw` under `codec`. -/
def StoredAs (codec : Codec) (source raw : Str) : Prop :=
  match codec with
  | .raw => source = raw
  | .zstd => P.zstdFrame source = ⟨raw, some []⟩

variable {P}

variable {kind : ObjectKind} {codec : Codec} {raw : Str} {r : ObjectRecord} {oid : GitOid}

theorem decodeObjectPayloadToWriter_eq_ok_iff {rawLength : UInt64} {id : ContentId} {source : Str} :
    decodeObjectPayloadToWriter P kind codec rawLength id source = .ok raw ↔
      StoredAs P codec source raw ∧ raw.length = rawLength.toNat ∧
        ContentId.forObject P kind raw = id := by
  cases codec with
  | raw =>
    simp only [decodeObjectPayloadToWriter, finishValidated, bind_eq_ok_iff,
      require_eq_ok, exists_const, pure, Except.pure, ok.injEq, StoredAs]
    constructor
    · rintro ⟨-, ⟨hlen, hid⟩, rfl⟩
      exact ⟨rfl, hlen, by rw [← contentHash_length, hlen, hid]⟩
    · rintro ⟨rfl, hlen, hid⟩
      exact ⟨hlen.le, ⟨hlen, by rw [← hlen, contentHash_length, hid]⟩, rfl⟩
  | zstd =>
    simp only [decodeObjectPayloadToWriter, finishValidated, bind_eq_ok_iff, require_eq_ok,
      exists_const, pure, Except.pure, ok.injEq, ofOption_eq_ok, StoredAs]
    constructor
    · rintro ⟨-, rest, hrest, rfl, ⟨hlen, hid⟩, rfl⟩
      exact ⟨by rw [← hrest], hlen, by rw [← contentHash_length, hlen, hid]⟩
    · rintro ⟨hframe, hlen, hid⟩
      rw [hframe]
      exact ⟨hlen.le, [], rfl, rfl, ⟨hlen, by rw [← hlen, contentHash_length, hid]⟩, rfl⟩

theorem decodeObjectPayload_eq_ok_iff :
    decodeObjectPayload P r = .ok raw ↔ StoredAs P r.codec r.payload raw ∧
      raw.length = r.rawLength.toNat ∧ ContentId.forObject P r.kind raw = r.contentId :=
  decodeObjectPayloadToWriter_eq_ok_iff

theorem verifyObjectRecord_eq_ok_iff :
    verifyObjectRecord P r = .ok () ↔ ∃ raw, decodeObjectPayload P r = .ok raw := by
  simp [verifyObjectRecord, bind_eq_ok_iff, pure, Except.pure]

/-- The record an importer writes for a Git object. -/
def objectRecord (P : Primitives) (codec : Codec) (oid : GitOid) (kind : ObjectKind) (raw : Str) :
    ObjectRecord where
  kind := kind
  codec := codec
  flags := 0
  rawLength := UInt64.ofNat raw.length
  contentId := ContentId.forObject P kind raw
  primaryOid := oid
  payload := encodeObjectPayload P codec raw

theorem decodeObjectPayload_objectRecord (hz : codec = .zstd → P.ZstdInverts)
    (hlen : raw.length < 2 ^ 64) :
    decodeObjectPayload P (objectRecord P codec oid kind raw) = .ok raw := by
  rw [decodeObjectPayload_eq_ok_iff]
  refine ⟨?_, ?_, rfl⟩
  · cases codec with
    | raw => rfl
    | zstd => exact hz rfl raw
  · exact (UInt64.toNat_ofNat_of_lt' hlen).symm

/-- A record of the importer that passes verification decodes to its object. -/
theorem decodeObjectPayload_of_verified (hz : P.ZstdInverts)
    (h : verifyObjectRecord P (objectRecord P codec oid kind raw) = .ok ()) :
    decodeObjectPayload P (objectRecord P codec oid kind raw) = .ok raw := by
  obtain ⟨raw', hraw⟩ := verifyObjectRecord_eq_ok_iff.mp h
  have hsame : raw' = raw := by
    have hstored := (decodeObjectPayload_eq_ok_iff.mp hraw).1
    cases codec with
    | raw => exact hstored.symm
    | zstd =>
      have hframe : P.zstdFrame (P.zstdEncode raw) = ⟨raw', some []⟩ := hstored
      rw [hz raw] at hframe
      exact (ZstdFrame.mk.inj hframe).1.symm
  exact hsame ▸ hraw
end ReflinkForest
