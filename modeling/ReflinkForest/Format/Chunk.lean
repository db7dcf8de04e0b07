import ReflinkForest.Core.Identity

/-! CRC-32C and the two fixed-size chunk blocks: the header that opens every chunk and the footer
that only a sealed chunk carries. -/
namespace ReflinkForest
open Bytes Except List

inductive FormatError where
  | truncated
  | badMagic
  | unsupportedVersion (version : UInt16)
  | invalidHeaderLength (expected actual : ℕ)
  | headerCrcMismatch
  | payloadCrcMismatch
  | footerMagicMismatch
  | invalidObjectKind (tag : UInt8)
  | invalidCodec (tag : UInt8)
  | invalidHashAlgorithm (tag : UInt8)
  | invalidOidLength
  | invalidRecordLength
  | nonZeroReserved
  | nonZeroPadding
  | lengthOverflow
  deriving DecidableEq

def formatVersion : UInt16 := 1
def chunkHeaderLen : ℕ := 64
def sealedChunkFooterLen : ℕ := 64
def chunkMagic : Str := ascii "RFSCHNK" ++ [0]
def sealedChunkFooterMagic : Str := ascii "RFSSEAL" ++ [0]
def chunkCrcOffset : ℕ := 36
def sealedChunkFooterCrcOffset : ℕ := 32

structure Crc32c where
  state : UInt32

namespace Crc32c
def new : Crc32c := ⟨0xffffffff⟩

def shiftBit (crc : UInt32) : UInt32 := (crc >>> 1) ^^^ (0x82f63b78 &&& (0 - (crc &&& 1)))

def updateByte (crc : UInt32) (byte : UInt8) : UInt32 :=
  shiftBit^[8] (crc ^^^ byte.toUInt32)

def update (crc : Crc32c) (bytes : Str) : Crc32c := ⟨bytes.foldl updateByte crc.state⟩

def finalize (crc : Crc32c) : UInt32 := ~~~crc.state

@[simp] theorem update_nil (crc : Crc32c) : crc.update [] = crc := rfl

@[simp] theorem update_append (crc : Crc32c) (a b : Str) :
    crc.update (a ++ b) = (crc.update a).update b := by
  simp [update, foldl_append]
end Crc32c

def crc32c (bytes : Str) : UInt32 := (Crc32c.new.update bytes).finalize

def zeros (n : ℕ) : Str := List.replicate n 0

@[simp] theorem length_zeros (n : ℕ) : (zeros n).length = n := length_replicate

/-- CRC of `bytes` with `len` bytes at `offset` replaced by zeros. -/
def crc32cWithZeroedField (bytes : Str) (offset len : ℕ) : UInt32 :=
  crc32c (bytes.take offset ++ zeros len ++ bytes.drop (offset + len))

/-- A block whose CRC field, between `fields` and `reserved`, covers the whole
block with that field zeroed. -/
def sealBlock (fields reserved : Str) : Str :=
  fields ++ (u32 (crc32c (fields ++ zeros 4 ++ reserved)) ++ reserved)

@[simp] theorem length_sealBlock (fields reserved : Str) :
    (sealBlock fields reserved).length = fields.length + 4 + reserved.length := by
  simp [sealBlock]
  omega

theorem drop_sealBlock (fields reserved : Str) {n : ℕ} (h : n = fields.length + 4) :
    (sealBlock fields reserved).drop n = reserved := by
  subst h
  rw [sealBlock, ← append_assoc]
  exact drop_left' (by simp)

theorem crc_sealBlock (fields reserved : Str) {n : ℕ} (h : n = fields.length) :
    toU32 (slice (sealBlock fields reserved) n 4) =
      crc32cWithZeroedField (sealBlock fields reserved) n 4 := by
  subst h
  have hread : slice (sealBlock fields reserved) fields.length 4 =
      u32 (crc32c (fields ++ zeros 4 ++ reserved)) := by
    rw [sealBlock, slice_append_right le_rfl, Nat.sub_self]
    exact slice_append_self (length_u32 _)
  rw [hread, toU32_u32, crc32cWithZeroedField, drop_sealBlock fields reserved rfl]
  simp [sealBlock]

/-- A block whose stored CRC checks is the sealed form of its own fields. -/
theorem sealBlock_of_crc {block : Str} {n : ℕ} (hlen : n + 4 ≤ block.length)
    (hcrc : toU32 (slice block n 4) = crc32cWithZeroedField block n 4) :
    sealBlock (block.take n) (block.drop (n + 4)) = block := by
  have hfield : u32 (crc32cWithZeroedField block n 4) = slice block n 4 := by
    rw [← hcrc, u32_slice hlen]
  rw [crc32cWithZeroedField] at hfield
  rw [sealBlock, hfield, slice_append_drop, take_append_drop]

def checkVersion (version : UInt16) : Except FormatError Unit :=
  .require (version = formatVersion) (.unsupportedVersion version)

def checkHeaderLen (actual expected : ℕ) : Except FormatError Unit :=
  .require (actual = expected) (.invalidHeaderLength expected actual)

/-- Reserved bytes must be zero. -/
def allZero (bytes : Str) : Bool := bytes.all (· = 0)

@[simp] theorem allZero_zeros (n : ℕ) : allZero (zeros n) = true := by simp [allZero, zeros]

theorem allZero_iff {bytes : Str} : allZero bytes = true ↔ bytes = zeros bytes.length := by
  simp [allZero, zeros, eq_replicate_iff]

theorem allZero_slice_iff {bytes : Str} {off n : ℕ} (h : off + n ≤ bytes.length) :
    allZero (slice bytes off n) = true ↔ slice bytes off n = zeros n := by
  rw [allZero_iff, length_slice h]

/-- A string starts with `fields` and their checksum exactly when both read back from it. -/
theorem append_crc_eq_iff {fields bytes r : Str} {n : ℕ} (h : fields.length = n) :
    fields ++ (u32 (crc32c fields) ++ r) = bytes ↔ n + 4 ≤ bytes.length ∧
      slice bytes 0 n = fields ∧ toU32 (slice bytes n 4) = crc32c (bytes.take n) ∧
      bytes.drop (n + 4) = r := by
  constructor
  · rintro rfl
    have front := slice_append_self (b := u32 (crc32c fields) ++ r) h
    refine ⟨by simp [h], front, ?_, ?_⟩
    · rw [slice_append_right (by omega), h, Nat.sub_self, slice_append_self (by simp), toU32_u32]
      exact congrArg crc32c front.symm
    · rw [← append_assoc]
      exact drop_left' (by simp [h])
  · rintro ⟨long, front, sum, rfl⟩
    rw [← slice_eq_u32_iff long] at sum
    have covered : bytes.take n = fields := front
    rw [← covered, ← sum, slice_append_drop, take_append_drop]

theorem crc_eq_iff {fields bytes : Str} {n : ℕ} (h : fields.length = n) :
    fields ++ u32 (crc32c fields) = bytes ↔ bytes.length = n + 4 ∧ slice bytes 0 n = fields ∧
      toU32 (slice bytes n 4) = crc32c (bytes.take n) := by
  rw [← append_nil (u32 _), append_crc_eq_iff h, drop_eq_nil_iff]
  constructor
  · rintro ⟨long, front, sum, short⟩
    exact ⟨le_antisymm short long, front, sum⟩
  · rintro ⟨length, front, sum⟩
    exact ⟨length.ge, front, sum, length.le⟩

/-- A sealed block starts the input exactly when its fields and its CRC read back. -/
theorem sealBlock_prefix_iff {input fields : Str} {m n r : ℕ} (h : fields.length = n)
    (size : n + 4 + r = m) : sealBlock fields (zeros r) <+: input ↔ m ≤ input.length ∧
      slice (input.take m) 0 n = fields ∧
      toU32 (slice (input.take m) n 4) = crc32cWithZeroedField (input.take m) n 4 ∧
      allZero ((input.take m).drop (n + 4)) = true := by
  subst size
  constructor
  · rintro ⟨rest, rfl⟩
    have whole : (sealBlock fields (zeros r) ++ rest).take (n + 4 + r) =
        sealBlock fields (zeros r) := take_left' (by simp [h])
    rw [whole, crc_sealBlock _ _ h.symm, drop_sealBlock _ _ (by rw [h])]
    exact ⟨by simp [h], slice_append_self h, rfl, allZero_zeros _⟩
  · rintro ⟨long, front, sum, zero⟩
    rw [allZero_iff, length_drop, length_take_of_le long, Nat.add_sub_cancel_left] at zero
    have covered : (input.take (n + 4 + r)).take n = fields := front
    rw [← covered, ← zero, sealBlock_of_crc (by rw [length_take_of_le long]; omega) sum]
    exact take_prefix _ _

structure ChunkHeader where
  generation : UInt32
  chunkId : UInt64
  createdUnixSecs : UInt64
  flags : UInt32
  deriving DecidableEq

namespace ChunkHeader
def fields (h : ChunkHeader) : Str :=
  chunkMagic ++ (u16 formatVersion ++ (u16 64 ++ (u32 h.generation ++ (u64 h.chunkId ++
    (u64 h.createdUnixSecs ++ u32 h.flags)))))

def encode (h : ChunkHeader) : Str := sealBlock h.fields (zeros 24)

def decode (input : Str) : Except FormatError ChunkHeader := do
  .require (chunkHeaderLen ≤ input.length) .truncated
  let bytes := input.take chunkHeaderLen
  .require (slice bytes 0 8 = chunkMagic) .badMagic
  checkVersion (toU16 (slice bytes 8 2))
  checkHeaderLen (toU16 (slice bytes 10 2)).toNat chunkHeaderLen
  .require (toU32 (slice bytes chunkCrcOffset 4) = crc32cWithZeroedField bytes chunkCrcOffset 4)
    .headerCrcMismatch
  .require (allZero (bytes.drop 40)) .nonZeroReserved
  return {
    generation := toU32 (slice bytes 12 4)
    chunkId := toU64 (slice bytes 16 8)
    createdUnixSecs := toU64 (slice bytes 24 8)
    flags := toU32 (slice bytes 32 4) }

@[simp] theorem length_fields (h : ChunkHeader) : h.fields.length = 36 := by
  simp [fields, chunkMagic, ascii]

@[simp] theorem length_encode (h : ChunkHeader) : h.encode.length = 64 := by
  simp [encode]

theorem drop_encode (h : ChunkHeader) (rest : Str) :
    (h.encode ++ rest).drop chunkHeaderLen = rest := drop_left' h.length_encode

theorem decode_eq_ok_iff {h : ChunkHeader} {input : Str} :
    decode input = .ok h ↔ h.encode <+: input := by
  rw [encode, sealBlock_prefix_iff (m := chunkHeaderLen) (n := chunkCrcOffset) h.length_fields rfl]
  simp only [decode, require_bind_eq_ok, checkVersion, checkHeaderLen]
  refine and_congr_right fun long => ?_
  have length : (input.take chunkHeaderLen).length = 64 := length_take_of_le long
  have hm : chunkMagic.length = 8 := rfl
  generalize input.take chunkHeaderLen = block at *
  simp (disch := simp [length, hm]) only [fields, chunkCrcOffset, slice_eq_append_iff, hm,
    length_u16, length_u32, length_u64, Nat.reduceAdd, Nat.reduceSub, slice_eq_u16_iff,
    slice_eq_u32_iff, slice_eq_u64_iff]
  constructor
  · rintro ⟨magic, version, size, sum, zero, ⟨⟩⟩
    exact ⟨⟨magic, version, UInt16.toNat_inj.mp size, rfl, rfl, rfl, rfl⟩, sum, zero⟩
  · rintro ⟨⟨magic, version, size, generation, id, created, flags⟩, sum, zero⟩
    rw [generation, id, created, flags, size]
    exact ⟨magic, version, rfl, sum, zero, rfl⟩

theorem decode_encode (h : ChunkHeader) (rest : Str) : decode (h.encode ++ rest) = .ok h :=
  decode_eq_ok_iff.mpr (prefix_append _ _)
end ChunkHeader

structure SealedChunkFooter where
  recordCount : UInt64
  finalLength : UInt64
  recordsCrc32c : UInt32

namespace SealedChunkFooter
def fields (f : SealedChunkFooter) : Str :=
  sealedChunkFooterMagic ++ (u16 formatVersion ++ (u16 64 ++ (u64 f.recordCount ++
    (u64 f.finalLength ++ u32 f.recordsCrc32c))))

def encode (f : SealedChunkFooter) : Str := sealBlock f.fields (zeros 28)

def decode (input : Str) : Except FormatError SealedChunkFooter := do
  .require (sealedChunkFooterLen ≤ input.length) .truncated
  let bytes := input.take sealedChunkFooterLen
  .require (slice bytes 0 8 = sealedChunkFooterMagic) .badMagic
  checkVersion (toU16 (slice bytes 8 2))
  checkHeaderLen (toU16 (slice bytes 10 2)).toNat sealedChunkFooterLen
  .require (toU32 (slice bytes sealedChunkFooterCrcOffset 4) =
      crc32cWithZeroedField bytes sealedChunkFooterCrcOffset 4) .headerCrcMismatch
  .require (allZero (bytes.drop 36)) .nonZeroReserved
  return {
    recordCount := toU64 (slice bytes 12 8)
    finalLength := toU64 (slice bytes 20 8)
    recordsCrc32c := toU32 (slice bytes 28 4) }

@[simp] theorem length_fields (f : SealedChunkFooter) : f.fields.length = 32 := by
  simp [fields, sealedChunkFooterMagic, ascii]

@[simp] theorem length_encode (f : SealedChunkFooter) : f.encode.length = 64 := by
  simp [encode]

theorem decode_eq_ok_iff {f : SealedChunkFooter} {input : Str} :
    decode input = .ok f ↔ f.encode <+: input := by
  rw [encode, sealBlock_prefix_iff (m := sealedChunkFooterLen) (n := sealedChunkFooterCrcOffset)
    f.length_fields rfl]
  simp only [decode, require_bind_eq_ok, checkVersion, checkHeaderLen]
  refine and_congr_right fun long => ?_
  have length : (input.take sealedChunkFooterLen).length = 64 := length_take_of_le long
  have hm : sealedChunkFooterMagic.length = 8 := rfl
  generalize input.take sealedChunkFooterLen = block at *
  simp (disch := simp [length, hm]) only [fields, sealedChunkFooterCrcOffset, slice_eq_append_iff,
    hm, length_u16, length_u64, Nat.reduceAdd, Nat.reduceSub, slice_eq_u16_iff, slice_eq_u32_iff,
    slice_eq_u64_iff]
  constructor
  · rintro ⟨magic, version, size, sum, zero, ⟨⟩⟩
    exact ⟨⟨magic, version, UInt16.toNat_inj.mp size, rfl, rfl, rfl⟩, sum, zero⟩
  · rintro ⟨⟨magic, version, size, count, final, records⟩, sum, zero⟩
    rw [count, final, records, size]
    exact ⟨magic, version, rfl, sum, zero, rfl⟩

theorem decode_encode (f : SealedChunkFooter) (rest : Str) : decode (f.encode ++ rest) = .ok f :=
  decode_eq_ok_iff.mpr (prefix_append _ _)
end SealedChunkFooter
end ReflinkForest
