import ReflinkForest.Format.Payload
import ReflinkForest.Lib.ByteStream

/-! Decoding a stored payload as it runs: reads, pieces of the Zstd decoder and writes are split in
any way. -/
namespace ReflinkForest
open Bytes ByteStream Except List

namespace PayloadStream
/-- The digest state as the bytes it was fed. -/
structure ContentHasher where
  fed : Str

namespace ContentHasher
def new (kind : ObjectKind) (rawLength : ℕ) : ContentHasher :=
  ⟨ContentId.domain ++ [kind.toTag] ++ be 8 rawLength⟩

def update (hasher : ContentHasher) (bytes : Str) : ContentHasher := ⟨hasher.fed ++ bytes⟩

def finalize (P : Primitives) (hasher : ContentHasher) : ContentId := ⟨P.sha256 hasher.fed⟩
end ContentHasher

/-- How the parties outside split the bytes: a read of the source and a read of the decoder by the
number of bytes left, a write by the number of bytes taken before. `peeks` is whether the decoder
has fetched the byte behind its frame. -/
structure Chunking where
  reads : ℕ → ℕ
  decodes : ℕ → ℕ
  accepts : ℕ → ℕ
  peeks : Bool

/-- `output` is what the inner writer has taken. -/
structure ValidatingObjectWriter where
  output : Str
  expectedLength : ℕ
  written : ℕ
  hasher : ContentHasher

namespace ValidatingObjectWriter
def new (kind : ObjectKind) (expectedLength : ℕ) : ValidatingObjectWriter where
  output := []
  expectedLength := expectedLength
  written := 0
  hasher := .new kind expectedLength

def checkWrite (w : ValidatingObjectWriter) (bytes : Str) : Except CodecIoError Unit := do
  .require (bytes.length < 2 ^ 64) .writeLengthOverflow
  .require (w.written + bytes.length < 2 ^ 64) .lengthOverflow
  .require (w.written + bytes.length ≤ w.expectedLength) .exceedsDeclaredLength

/-- The inner writer takes at least one byte and does not fail. -/
def write (accepts : ℕ → ℕ) (w : ValidatingObjectWriter) (bytes : Str) :
    ValidatingObjectWriter × Except CodecIoError ℕ :=
  match w.checkWrite bytes with
  | .error e => (w, .error e)
  | .ok () =>
    let written := min bytes.length (max 1 (accepts w.written))
    ({ w with
      output := w.output ++ bytes.take written
      written := w.written + written
      hasher := w.hasher.update (bytes.take written) }, .ok written)

def writer (accepts : ℕ → ℕ) : Writer UInt8 CodecIoError ValidatingObjectWriter := ⟨write accepts⟩

def finish (P : Primitives) (w : ValidatingObjectWriter) (expectedContentId : ContentId) :
    Except CodecError Unit := do
  .require (w.written = w.expectedLength) (.rawLengthMismatch w.expectedLength w.written)
  let actual := w.hasher.finalize P
  .require (actual = expectedContentId) (.contentMismatch expectedContentId actual)
end ValidatingObjectWriter

def copyDecoded {ρ : Type} (chunking : Chunking) (source : Reader UInt8 CodecIoError ρ) (r : ρ)
    (w : ValidatingObjectWriter) : ValidatingObjectWriter × Except CodecIoError ρ :=
  copy source (ValidatingObjectWriter.writer chunking.accepts) .writeZero codecStreamBufferBytes r w

/-- The stored bytes of one record. -/
def source (chunking : Chunking) : Reader UInt8 CodecIoError Str := sliced chunking.reads (.ok ())

/-- The single-frame decoder: it delivers what it makes of the frame and ends behind it, or fails
where the frame is malformed or cut short. -/
def decoder (chunking : Chunking) (frame : ZstdFrame) : Reader UInt8 CodecIoError Str :=
  sliced chunking.decodes (Except.ofOption .invalidFrame frame.rest >>= fun _ => .ok ())

/-- A buffered reader of capacity one. -/
structure BufReader where
  buffer : Str
  inner : Str

/-- What `Decoder::finish` hands back: the input behind the frame. -/
def decoderFinish (chunking : Chunking) (rest : Str) : BufReader :=
  if chunking.peeks then ⟨rest.take 1, rest.drop 1⟩ else ⟨[], rest⟩

def checkTrailing (chunking : Chunking) (buffered : BufReader) : Except CodecError Unit := do
  .require (buffered.buffer = []) .trailingZstdData
  let (trailing, _) ← .mapErr .io ((source chunking).read buffered.inner 1)
  .require (trailing = []) .trailingZstdData

/-- The bytes that reached the writer and the result. -/
def decodeObjectPayloadToWriter (P : Primitives) (chunking : Chunking) (kind : ObjectKind)
    (codec : Codec) (rawLength : UInt64) (expectedContentId : ContentId) (stored : Str) :
    Str × Except CodecError Unit :=
  let validated := ValidatingObjectWriter.new kind rawLength.toNat
  match codec with
  | .raw =>
    match copyDecoded chunking (source chunking) stored validated with
    | (validated, .error e) => (validated.output, .error (.io e))
    | (validated, .ok _) => (validated.output, validated.finish P expectedContentId)
  | .zstd =>
    let frame := P.zstdFrame stored
    match copyDecoded chunking (decoder chunking frame) frame.output validated with
    | (validated, .error e) => (validated.output, .error (.io e))
    | (validated, .ok _) =>
      (validated.output, do
        checkTrailing chunking (decoderFinish chunking (frame.rest.getD []))
        validated.finish P expectedContentId)
end PayloadStream

/-- The bytes that the codec delivers for a stored payload, whole or not. -/
def decodedStream (P : Primitives) (codec : Codec) (stored : Str) : Str :=
  match codec with
  | .raw => stored
  | .zstd => (P.zstdFrame stored).output

namespace PayloadStream
section Validating
variable {P : Primitives} {chunking : Chunking} {kind : ObjectKind} {limit : ℕ}
  {w : ValidatingObjectWriter} {bytes : Str} {id : ContentId}

/-- Count and digest agree with the bytes that were taken. -/
structure ValidatingObjectWriter.Sound (kind : ObjectKind) (limit : ℕ)
    (w : ValidatingObjectWriter) : Prop where
  expected : w.expectedLength = limit
  counted : w.written = w.output.length
  digested : w.hasher = (ContentHasher.new kind limit).update w.output
  bounded : w.output.length ≤ limit

theorem ValidatingObjectWriter.sound_new : (new kind limit).Sound kind limit := by
  constructor
  · rfl
  · rfl
  · simp [new, ContentHasher.update]
  · exact Nat.zero_le _

theorem ValidatingObjectWriter.Sound.checkWrite (sound : w.Sound kind limit)
    (u64 : limit < 2 ^ 64) :
    w.checkWrite bytes = .ok () ↔ w.output.length + bytes.length ≤ limit := by
  simp only [ValidatingObjectWriter.checkWrite, bind_eq_ok_iff, require_eq_ok, exists_const,
    sound.counted, sound.expected]
  constructor
  · intro checked
    exact checked.2.2
  · intro fits
    exact ⟨by omega, by omega, fits⟩

theorem ValidatingObjectWriter.collects (accepts : ℕ → ℕ) (u64 : limit < 2 ^ 64) :
    (writer accepts).Collects (Sound kind limit) output limit where
  bounded w sound := sound.bounded
  takes w bytes sound some fits := by
    have positive := length_pos_iff.mpr some
    obtain ⟨count, counted⟩ : ∃ count, count = min bytes.length (max 1 (accepts w.written)) :=
      ⟨_, rfl⟩
    refine ⟨count, ⟨w.output ++ bytes.take count, w.expectedLength, w.written + count,
      w.hasher.update (bytes.take count)⟩, by omega, by omega, ?_, ?_, rfl⟩
    · simp only [writer, write, (sound.checkWrite u64).mpr fits, ← counted]
    · have size : (bytes.take count).length = count := length_take_of_le (by omega)
      constructor
      · exact sound.expected
      · simp only [length_append, size, sound.counted]
      · simp only [sound.digested, ContentHasher.update, append_assoc]
      · rw [length_append, size]
        omega
  refuses w bytes sound exceeds := by
    cases checked : w.checkWrite bytes with
    | ok u =>
      have fits := (sound.checkWrite u64).mp checked
      omega
    | error e => exact ⟨e, by simp only [writer, write, checked]⟩

theorem ValidatingObjectWriter.Sound.finish (sound : w.Sound kind limit) :
    w.finish P id = finishValidated P kind limit id w.output := by
  rw [ValidatingObjectWriter.finish, finishValidated, sound.counted, sound.expected, sound.digested]
  rfl

theorem decoderFinish_eq (rest : Str) :
    (decoderFinish chunking rest).buffer ++ (decoderFinish chunking rest).inner = rest := by
  unfold decoderFinish
  split
  · exact take_append_drop 1 rest
  · rfl

/-- The buffer or the next read shows a byte that is left. -/
theorem checkTrailing_eq_ok {buffered : BufReader} :
    checkTrailing chunking buffered = .ok () ↔ buffered.buffer ++ buffered.inner = [] := by
  simp only [checkTrailing, bind_eq_ok_iff, mapErr_eq_ok, exists_require, append_eq_nil_iff, source,
    sliced]
  apply and_congr_right
  intro _
  cases buffered.inner with
  | nil => simp [Except.map]
  | cons byte rest => simp

/-- Copying a stream into a new writer: all of it when it fits, a part of it and an error
otherwise. -/
def CopiesTo {ρ : Type} (chunking : Chunking) (R : Reader UInt8 CodecIoError ρ) (r : ρ)
    (kind : ObjectKind) (rawLength : UInt64) : Prop :=
  ∃ w result, copyDecoded chunking R r (.new kind rawLength.toNat) = (w, result) ∧
    w.Sound kind rawLength.toNat ∧ w.output <+: (R.drain codecStreamBufferBytes r).1 ∧
    ((R.drain codecStreamBufferBytes r).1.length ≤ rawLength.toNat →
      w.output = (R.drain codecStreamBufferBytes r).1 ∧
        result = (R.drain codecStreamBufferBytes r).2) ∧
    (rawLength.toNat < (R.drain codecStreamBufferBytes r).1.length → ∃ e, result = .error e)

theorem copyDecoded_new {ρ : Type} (R : Reader UInt8 CodecIoError ρ) (r : ρ) (kind : ObjectKind)
    (rawLength : UInt64) : CopiesTo chunking R r kind rawLength := by
  have collects : (ValidatingObjectWriter.writer chunking.accepts).Collects
      (ValidatingObjectWriter.Sound kind rawLength.toNat) _ rawLength.toNat :=
    ValidatingObjectWriter.collects chunking.accepts rawLength.toNat_lt
  have copied := collects.copy .writeZero R codecStreamBufferBytes r
    ValidatingObjectWriter.sound_new
  simpa only [CopiesTo, copyDecoded, ValidatingObjectWriter.new, nil_append, length_nil,
    Nat.zero_add] using copied
end Validating

section Decoding
variable {P : Primitives} {chunking : Chunking} {kind : ObjectKind} {codec : Codec}
  {rawLength : UInt64} {id : ContentId} {stored : Str}

theorem drain_source (stored : Str) :
    (source chunking).drain codecStreamBufferBytes stored = (stored, .ok []) :=
  drain_sliced _ _ (by decide) _

theorem drain_decoder (frame : ZstdFrame) :
    (decoder chunking frame).drain codecStreamBufferBytes frame.output =
      (frame.output, Except.ofOption .invalidFrame (frame.rest.map fun _ => [])) := by
  rw [decoder, drain_sliced _ _ (by decide)]
  cases frame.rest <;> rfl

/-- The run accepts what the whole payload decodes to, and only a part of it is ever written. -/
theorem decodeObjectPayloadToWriter_eq :
    (∀ raw, PayloadStream.decodeObjectPayloadToWriter P chunking kind codec rawLength id stored =
        (raw, .ok ()) ↔
      ReflinkForest.decodeObjectPayloadToWriter P kind codec rawLength id stored = .ok raw) ∧
    (PayloadStream.decodeObjectPayloadToWriter P chunking kind codec rawLength id stored).1 <+:
      decodedStream P codec stored ∧
    (PayloadStream.decodeObjectPayloadToWriter P chunking kind codec rawLength id stored).1.length ≤
      rawLength.toNat := by
  cases codec with
  | raw =>
    obtain ⟨w, result, copied, sound, front, whole, fails⟩ :
        CopiesTo chunking (source chunking) stored kind rawLength := copyDecoded_new _ _ _ _
    simp only [drain_source] at front whole fails
    have written : (PayloadStream.decodeObjectPayloadToWriter P chunking kind .raw rawLength id
        stored).1 = w.output := by
      simp only [PayloadStream.decodeObjectPayloadToWriter, copied]
      cases result <;> rfl
    refine ⟨?_, written ▸ front, written ▸ sound.bounded⟩
    intro raw
    simp only [PayloadStream.decodeObjectPayloadToWriter, copied,
      ReflinkForest.decodeObjectPayloadToWriter]
    by_cases fits : stored.length ≤ rawLength.toNat
    · obtain ⟨all, rfl⟩ := whole fits
      simp [bind_eq_ok_iff, Unique.exists_iff, fits, sound.finish, all, pure, Except.pure, and_comm]
    · obtain ⟨e, rfl⟩ := fails (not_le.mp fits)
      simp [bind_eq_ok_iff, fits]
  | zstd =>
    obtain ⟨w, result, copied, sound, front, whole, fails⟩ :
        CopiesTo chunking (decoder chunking (P.zstdFrame stored)) (P.zstdFrame stored).output kind
          rawLength := copyDecoded_new _ _ _ _
    simp only [drain_decoder] at front whole fails
    have written : (PayloadStream.decodeObjectPayloadToWriter P chunking kind .zstd rawLength id
        stored).1 = w.output := by
      simp only [PayloadStream.decodeObjectPayloadToWriter, copied]
      cases result <;> rfl
    refine ⟨?_, written ▸ front, written ▸ sound.bounded⟩
    intro raw
    simp only [PayloadStream.decodeObjectPayloadToWriter, copied,
      ReflinkForest.decodeObjectPayloadToWriter]
    by_cases fits : (P.zstdFrame stored).output.length ≤ rawLength.toNat
    · obtain ⟨all, rfl⟩ := whole fits
      cases (P.zstdFrame stored).rest with
      | none => simp [bind_eq_ok_iff, Except.ofOption]
      | some rest =>
        simp [bind_eq_ok_iff, Unique.exists_iff, fits, sound.finish, all, pure, Except.pure,
          checkTrailing_eq_ok, decoderFinish_eq, -append_eq_nil_iff]
        tauto
    · obtain ⟨e, rfl⟩ := fails (not_le.mp fits)
      simp [bind_eq_ok_iff, fits]

/-- However reads, writes and decoded pieces are split, the payload is accepted with exactly the
bytes it decodes to, and nothing behind the declared length is ever written. -/
theorem decodeObjectPayloadToWriter_bounded (P : Primitives) (chunking : Chunking)
    (kind : ObjectKind) (codec : Codec) (rawLength : UInt64) (expected : ContentId)
    (stored : Str) :
    (∀ raw, PayloadStream.decodeObjectPayloadToWriter P chunking kind codec rawLength expected
        stored = (raw, .ok ()) ↔
      StoredAs P codec stored raw ∧ raw.length = rawLength.toNat ∧
        ContentId.forObject P kind raw = expected) ∧
    (PayloadStream.decodeObjectPayloadToWriter P chunking kind codec rawLength expected
      stored).1 <+: decodedStream P codec stored ∧
    (PayloadStream.decodeObjectPayloadToWriter P chunking kind codec rawLength expected
      stored).1.length ≤ rawLength.toNat := by
  obtain ⟨accepts, front, bound⟩ := decodeObjectPayloadToWriter_eq (P := P)
  refine ⟨?_, front, bound⟩
  intro raw
  rw [accepts, decodeObjectPayloadToWriter_eq_ok_iff]
end Decoding
end PayloadStream
end ReflinkForest
