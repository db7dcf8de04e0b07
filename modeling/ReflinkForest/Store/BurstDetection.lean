import ReflinkForest.Lib.ShiftRegister
import ReflinkForest.Store.SealedChunk

/-! Short bursts in sealed chunks: header, records and footer stand under one checksum each, and no
window reaches two of them. -/
namespace ReflinkForest
open Bytes Except List ShiftRegister

namespace Crc32c
def polynomial : BitVec 32 := 0x82f63b78#32

theorem toBitVec_shiftBit (crc : UInt32) :
    (shiftBit crc).toBitVec = step polynomial crc.toBitVec := by
  have masked : crc.toBitVec &&& 1#32 = (BitVec.ofBool (crc.toBitVec.getLsbD 0)).setWidth 32 :=
    BitVec.and_one_eq_setWidth_ofBool_getLsbD
  have shifted : (shiftBit crc).toBitVec =
      (crc.toBitVec >>> 1) ^^^ (polynomial &&& (0#32 - (crc.toBitVec &&& 1#32))) := rfl
  rw [shifted, masked, step]
  cases crc.toBitVec.getLsbD 0 <;> rfl

theorem toBitVec_updateByte (crc : UInt32) (byte : UInt8) :
    (updateByte crc byte).toBitVec =
      feed polynomial crc.toBitVec byte.toBitVec := by
  have loaded : (crc ^^^ byte.toUInt32).toBitVec = crc.toBitVec ^^^ byte.toBitVec.setWidth 32 := rfl
  rw [updateByte, feed, ← loaded]
  exact Function.Semiconj.iterate_right toBitVec_shiftBit 8 _

theorem toBitVec_update (crc : Crc32c) (bytes : Str) :
    (crc.update bytes).state.toBitVec =
      (bytes.map UInt8.toBitVec).foldl (feed polynomial) crc.state.toBitVec := by
  induction bytes generalizing crc with
  | nil => rfl
  | cons byte bytes ih =>
    rw [map_cons, foldl_cons, ← toBitVec_updateByte]
    exact ih ⟨updateByte crc.state byte⟩
end Crc32c

/-- Bytes that agree outside four consecutive positions and share a checksum are equal. -/
theorem crc32c_burst {left right : Str} {lo hi : ℕ} (length : left.length = right.length)
    (agree : AgreeOutside lo hi left right) (narrow : hi ≤ lo + 4)
    (same : crc32c left = crc32c right) : left = right := by
  have states : (Crc32c.new.update left).state = (Crc32c.new.update right).state :=
    UInt32.not_inj.mp same
  have words := congrArg UInt32.toBitVec states
  rw [Crc32c.toBitVec_update, Crc32c.toBitVec_update] at words
  have bytes := foldl_feed_burst (by decide) (by simpa using length)
    (agree.map UInt8.toBitVec) (by omega) words
  exact map_injective_iff.mpr (fun _ _ => UInt8.toBitVec_inj.mp) bytes

section Parts
variable {P : Primitives} {file file' : Str} {v v' : VerifiedSealedChunk} {lo hi : ℕ}

theorem Sealed.take_header (sealed : Sealed P file v) :
    file.take chunkHeaderLen = v.header.encode := by
  rw [sealed.whole, append_assoc]
  exact take_left' v.header.length_encode

theorem Sealed.drop_header (sealed : Sealed P file v) :
    file.drop chunkHeaderLen = encodings v.records ++ v.footer.encode := by
  rw [sealed.whole, append_assoc, v.header.drop_encode]

theorem Sealed.length_records (sealed : Sealed P file v) :
    (encodings v.records).length = file.length - chunkHeaderLen - sealedChunkFooterLen := by
  have length := sealed.length_eq
  omega

theorem Sealed.drop_records (sealed : Sealed P file v) :
    file.drop (chunkHeaderLen + (encodings v.records).length) = v.footer.encode := by
  rw [← drop_drop, sealed.drop_header, drop_left]

theorem Sealed.agree_records (sealed : Sealed P file v) (sealed' : Sealed P file' v')
    (length : file.length = file'.length) (agree : AgreeOutside lo hi file file') :
    (encodings v.records).length = (encodings v'.records).length ∧
      AgreeOutside (lo - chunkHeaderLen) (hi - chunkHeaderLen)
        (encodings v.records) (encodings v'.records) := by
  have lengths : (encodings v.records).length = (encodings v'.records).length := by
    rw [sealed.length_records, sealed'.length_records, length]
  refine ⟨lengths, ?_⟩
  have both := (agree.drop chunkHeaderLen).take (encodings v.records).length
  rwa [sealed.drop_header, sealed'.drop_header, take_left, lengths, take_left] at both

theorem SealedChunkFooter.take_encode (footer : SealedChunkFooter) :
    footer.encode.take 8 = sealedChunkFooterMagic := by
  rw [encode, sealBlock, fields, append_assoc]
  exact take_left' rfl

theorem SealedChunkFooter.encode_injective : Function.Injective encode := by
  intro footer footer' same
  have decoded := decode_encode footer []
  rw [same, decode_encode] at decoded
  exact (ok.inj decoded).symm

/-- A burst that changes a record leaves the footer as it was: it reaches no further than the
footer's magic. -/
theorem Sealed.footer_eq_of_records_ne (sealed : Sealed P file v) (sealed' : Sealed P file' v')
    (length : file.length = file'.length) (agree : AgreeOutside lo hi file file')
    (narrow : hi ≤ lo + 4) (changed : encodings v.records ≠ encodings v'.records) :
    v.footer = v'.footer := by
  obtain ⟨lengths, window⟩ := sealed.agree_records sealed' length agree
  obtain ⟨i, low, high, differ⟩ := window.exists_ne changed
  have inside : i < (encodings v.records).length := by
    by_contra beyond
    refine differ ?_
    rw [List.getElem?_eq_none (by omega), List.getElem?_eq_none (by omega)]
  have footers := agree.drop (chunkHeaderLen + (encodings v.records).length)
  rw [sealed.drop_records, lengths, sealed'.drop_records, ← lengths] at footers
  refine SealedChunkFooter.encode_injective ?_
  rw [← take_append_drop 8 v.footer.encode, ← take_append_drop 8 v'.footer.encode,
    v.footer.take_encode, v'.footer.take_encode, footers.drop_eq (n := 8) (by omega)]

theorem ChunkHeader.encode_injective : Function.Injective encode := by
  intro header header' same
  have decoded := decode_encode header []
  rw [same, decode_encode] at decoded
  exact (ok.inj decoded).symm

/-- A burst in the header changes fields under an unchanged checksum, or only what follows
unchanged fields. -/
theorem ChunkHeader.eq_of_burst {header header' : ChunkHeader}
    (agree : AgreeOutside lo hi header.encode header'.encode) (narrow : hi ≤ lo + 4)
    (apart : ¬ (lo ≤ 35 ∧ 36 < hi)) : header = header' := by
  have front (h : ChunkHeader) : h.encode.take 36 = h.fields := take_left' h.length_fields
  have rear (h : ChunkHeader) : h.encode.drop 36 =
      u32 (crc32c (h.fields ++ zeros 4 ++ zeros 24)) ++ zeros 24 := drop_left' h.length_fields
  have inner := agree.take 36
  rw [front, front] at inner
  have lengths : header.fields.length = header'.fields.length := by simp
  have fields : header.fields = header'.fields := by
    by_cases behind : 36 ≤ lo
    · have same := agree.take_eq behind
      rwa [front, front] at same
    · have stored := agree.drop_eq (n := 36) (by omega)
      rw [rear, rear, append_cancel_right_eq] at stored
      have checksums := congrArg toU32 stored
      rw [toU32_u32, toU32_u32] at checksums
      have blocks := crc32c_burst (by simp) ((inner.append_right lengths (zeros 4)).append_right
        (by simp) (zeros 24)) narrow checksums
      exact append_cancel_right (append_cancel_right blocks)
  exact encode_injective (by rw [encode, encode, fields])

theorem Sealed.eq_of_burst (sealed : Sealed P file v) (sealed' : Sealed P file' v')
    (length : file.length = file'.length) (agree : AgreeOutside lo hi file file')
    (narrow : hi ≤ lo + 4) (apart : ¬ (lo ≤ 35 ∧ 36 < hi)) : file = file' := by
  obtain ⟨lengths, window⟩ := sealed.agree_records sealed' length agree
  have regions : encodings v.records = encodings v'.records := by
    by_contra changed
    have footer := sealed.footer_eq_of_records_ne sealed' length agree narrow changed
    have checksums : crc32c (encodings v.records) = crc32c (encodings v'.records) := by
      rw [sealed.checksum, sealed'.checksum, footer]
    exact changed (crc32c_burst lengths window (by omega) checksums)
  have records : v.records = v'.records :=
    encodings_injective (fun r mem => (sealed.scannable r mem).1)
      (fun r mem => (sealed'.scannable r mem).1) regions
  have footer : v.footer = v'.footer := by
    have counts : v.footer.recordCount = v'.footer.recordCount := by
      rw [← UInt64.toNat_inj, ← sealed.count, ← sealed'.count, records]
    have ends : v.footer.finalLength = v'.footer.finalLength := by
      rw [← UInt64.toNat_inj, sealed.length, sealed'.length, length]
    have checksums : v.footer.recordsCrc32c = v'.footer.recordsCrc32c := by
      rw [← sealed.checksum, ← sealed'.checksum, records]
    exact SealedChunkFooter.mk.injEq .. ▸ ⟨counts, ends, checksums⟩
  have header : v.header = v'.header := by
    have both := agree.take chunkHeaderLen
    rw [sealed.take_header, sealed'.take_header] at both
    exact ChunkHeader.eq_of_burst both narrow apart
  rw [sealed.whole, sealed'.whole, header, regions, footer]
end Parts

/-- A sealed chunk with a burst of at most four bytes is refused, unless the burst spans the end
of the header's fields and the start of their checksum. -/
theorem verifySealedChunk_detects_burst (P : Primitives) {file file' : Str}
    {v : VerifiedSealedChunk} {start width : ℕ}
    (accepted : verifySealedChunk P .sealed file = .ok v) (different : file' ≠ file)
    (length : file'.length = file.length)
    (outside : ∀ i, i < start ∨ start + width ≤ i → file'[i]? = file[i]?) (narrow : width ≤ 4)
    (apart : ¬ ((start ≤ 35 ∧ 35 < start + width) ∧ (start ≤ 36 ∧ 36 < start + width))) :
    ∃ e, verifySealedChunk P .sealed file' = .error e := by
  cases verified : verifySealedChunk P .sealed file' with
  | error e => exact ⟨e, rfl⟩
  | ok v' =>
    simp only [verifySealedChunk, bind_eq_ok_iff, require_eq_ok, exists_const,
      true_and, verifySealedFile_eq_ok_iff] at accepted verified
    exact absurd (verified.eq_of_burst accepted length outside (by omega) (by omega)) different

def blobChunk : Str :=
  let records := encodings [ChunkWriter.emptyBlob]
  let footer : SealedChunkFooter := ⟨1, .ofNat (records.length + 128), crc32c records⟩
  (ChunkHeader.encode ⟨1, 0, 0, 0⟩) ++ records ++ footer.encode

theorem blobChunk_burst_detected :
    ∃ v e, verifySealedChunk .reference .sealed blobChunk = .ok v ∧
      verifySealedChunk .reference .sealed (blobChunk.set 70 255) = .error e := by
  have accepts : (verifySealedChunk .reference .sealed blobChunk).toBool = true := by
    decide +kernel
  have different : blobChunk.set 70 255 ≠ blobChunk := by decide +kernel
  cases accepted : verifySealedChunk .reference .sealed blobChunk with
  | error e =>
    rw [accepted] at accepts
    exact absurd accepts Bool.false_ne_true
  | ok v =>
    obtain ⟨e, refused⟩ :=
      verifySealedChunk_detects_burst .reference accepted different List.length_set
      (fun i (outside : i < 70 ∨ 70 + 1 ≤ i) => List.getElem?_set_ne (by omega)) (by decide)
        (by decide)
    exact ⟨v, e, rfl, refused⟩
end ReflinkForest
