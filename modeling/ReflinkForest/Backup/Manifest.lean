import ReflinkForest.Backup.ColdChunk
import ReflinkForest.Lib.Codec

/-! The inventory `manifest-v1` and the cold-tier descriptor `cold-tier-v1`. Both end in a SHA-256
digest of what stands before it. -/
namespace ReflinkForest
open Bytes Except List

abbrev Digest := List.Vector UInt8 32

structure BackupFile where
  relative : Str
  bytes : UInt64
  sha256 : Digest
  deriving DecidableEq

open BackupFile

structure BackupManifest where
  files : List BackupFile
  deriving DecidableEq

def manifestMagic : Str := ascii "RFBKMAN1"
def manifestHeaderLen : ℕ := 16
def manifestDigestLen : ℕ := 32
def minManifestEntryLen : ℕ := 4 + 1 + 8 + 32
def maxManifestBytes : ℕ := 64 * 1024 * 1024
def maxManifestEntries : ℕ := 1000000

namespace BackupReader
abbrev readBytes (len : ℕ) := Codec.take BackupError.invalidManifest len
abbrev readU32 := Codec.readU32 BackupError.invalidManifest
abbrev readU64 := Codec.readU64 BackupError.invalidManifest
abbrev readDigest := Codec.array BackupError.invalidManifest 32
end BackupReader

open BackupReader

section Inventory
/-- An entry as it stands in the file. -/
def BackupFile.encoding (entry : BackupFile) : Str :=
  u32 (UInt32.ofNat entry.relative.length) ++ entry.relative ++ u64 entry.bytes ++
    entry.sha256.toList

/-- The path is checked and comes behind the one before it. -/
def checkEntryPath (previous : Option Str) (path : Str) : Except BackupError Unit := do
  validatePathBytes path
  .require (∀ earlier ∈ previous, earlier < path) .invalidManifest

def encodeEntries : Option Str → List BackupFile → Except BackupError Str
  | _, [] => .ok []
  | previous, entry :: entries => do
    checkEntryPath previous entry.relative
    let bytes ← encodeEntries (some entry.relative) entries
    .ok (entry.encoding ++ bytes)

def encodeManifest (P : Primitives) (manifest : BackupManifest) : Except BackupError Str := do
  .require (manifest.files.length ≤ maxManifestEntries) .invalidManifest
  let entries ← encodeEntries none manifest.files
  let payload := manifestMagic ++ u64 (UInt64.ofNat manifest.files.length) ++ entries
  let bytes := payload ++ (P.sha256 payload).toList
  .require (bytes.length ≤ maxManifestBytes) .invalidManifest
  .ok bytes

def decodeEntries : ℕ → Option Str → Str → Except BackupError (List BackupFile × Str)
  | 0, _, input => .ok ([], input)
  | count + 1, previous, input => do
    let (pathLen, input) ← readU32 input
    .require (pathLen.toNat ≤ maxManifestPathBytes) .invalidManifest
    let (path, input) ← readBytes pathLen.toNat input
    checkEntryPath previous path
    let (bytes, input) ← readU64 input
    let (sha256, input) ← readDigest input
    let (files, input) ← decodeEntries count (some path) input
    .ok (⟨path, bytes, sha256⟩ :: files, input)

def decodeBackupManifestBytes (P : Primitives) (bytes : Str) :
    Except BackupError BackupManifest := do
  .require (manifestHeaderLen + manifestDigestLen ≤ bytes.length ∧
    bytes.length ≤ maxManifestBytes) .invalidManifest
  let payload := bytes.take (bytes.length - manifestDigestLen)
  .require ((P.sha256 payload).toList = bytes.drop (bytes.length - manifestDigestLen))
    .invalidManifest
  let (magic, input) ← readBytes manifestMagic.length payload
  .require (magic = manifestMagic) .invalidManifest
  let (count, input) ← readU64 input
  .require (count.toNat ≤ maxManifestEntries) .invalidManifest
  .require (count.toNat ≤ input.length / minManifestEntryLen) .invalidManifest
  let (files, rest) ← decodeEntries count.toNat none input
  .require (rest = []) .invalidManifest
  .ok ⟨files⟩

variable {P : Primitives} {previous : Option Str} {entry : BackupFile} {files : List BackupFile}
  {input rest bytes : Str}

theorem checkEntryPath_eq_ok_iff {path : Str} {u : Unit} : checkEntryPath previous path = .ok u ↔
    validatePathBytes path = .ok () ∧ ∀ earlier ∈ previous, earlier < path := by
  rw [checkEntryPath, bind_eq_ok_iff, Unique.exists_iff, PUnit.default_eq_unit, require_eq_ok]

theorem validatePathBytes_length {path : Str} (h : validatePathBytes path = .ok ()) :
    0 < path.length ∧ path.length ≤ maxManifestPathBytes ∧
      (UInt32.ofNat path.length).toNat = path.length := by
  obtain ⟨short, names, nonempty, rfl⟩ := validatePathBytes_eq_ok_iff.mp h
  refine ⟨length_pos_iff.mpr (pathBytes_ne_nil nonempty), short, ?_⟩
  rw [UInt32.toNat_ofNat', Nat.mod_eq_of_lt]
  unfold maxManifestPathBytes at short
  omega

theorem encodeEntries_eq_ok_iff : encodeEntries previous files = .ok bytes ↔
    (∀ file ∈ files, validatePathBytes file.relative = .ok ()) ∧
      (previous.toList ++ files.map relative).Pairwise (· < ·) ∧
      bytes = files.flatMap encoding := by
  induction files generalizing previous bytes with
  | nil => simp [encodeEntries, eq_comm]
  | cons entry entries ih =>
    simp only [encodeEntries, bind_eq_ok_iff, ok.injEq, checkEntryPath_eq_ok_iff, ih,
      forall_mem_cons, flatMap_cons, map_cons, Option.toList_some, exists_const, singleton_append]
    have chain : (∀ earlier ∈ previous, earlier < entry.relative) ∧
        (entry.relative :: entries.map relative).Pairwise (· < ·) ↔
        (previous.toList ++ entry.relative :: entries.map relative).Pairwise
          (· < ·) := by
      cases previous with
      | none => simp
      | some earlier =>
        simp only [Option.mem_some_iff, forall_eq', Option.toList_some, singleton_append,
          pairwise_cons, forall_mem_cons]
        refine ⟨fun h => ⟨⟨h.1, fun later mem => h.1.trans (h.2.1 later mem)⟩, h.2⟩,
          fun h => ⟨h.1.1, h.2⟩⟩
    rw [← chain]
    constructor
    · rintro ⟨⟨valid, before⟩, _, ⟨valids, sorted, rfl⟩, rfl⟩
      exact ⟨⟨valid, valids⟩, ⟨before, sorted⟩, rfl⟩
    · rintro ⟨⟨valid, valids⟩, ⟨before, sorted⟩, rfl⟩
      exact ⟨⟨valid, before⟩, _, ⟨valids, sorted, rfl⟩, rfl⟩

def manifestSize (paths : List Str) : ℕ :=
  manifestHeaderLen + manifestDigestLen + (paths.map fun path => 44 + path.length).sum

theorem length_flatMap_backupFile : (files.flatMap encoding).length =
    (files.map fun file => 44 + file.relative.length).sum := by
  rw [length_flatMap]
  congr 1
  refine map_congr_left fun file _ => ?_
  simp only [encoding, length_append, length_u32, length_u64, List.Vector.toList_length]
  omega

/-- What makes an inventory encodable. -/
theorem encodeManifest_isOk_iff : (∃ bytes, encodeManifest P ⟨files⟩ = .ok bytes) ↔
    files.length ≤ maxManifestEntries ∧
      (∀ file ∈ files, validatePathBytes file.relative = .ok ()) ∧
      (files.map relative).Pairwise (· < ·) ∧
      manifestSize (files.map relative) ≤ maxManifestBytes := by
  simp only [encodeManifest, bind_eq_ok_iff, exists_require,
    encodeEntries_eq_ok_iff, Option.toList_none, nil_append, ok.injEq]
  have size : (manifestMagic ++ u64 (UInt64.ofNat files.length) ++
      files.flatMap encoding ++ (P.sha256 (manifestMagic ++
      u64 (UInt64.ofNat files.length) ++ files.flatMap encoding)).toList).length =
      manifestSize (files.map relative) := by
    simp only [length_append, length_u64, List.Vector.toList_length,
      length_flatMap_backupFile, manifestSize, manifestHeaderLen, manifestDigestLen, map_map,
      Function.comp_def, show manifestMagic.length = 8 by decide]
    omega
  constructor
  · rintro ⟨_, few, _, ⟨valid, sorted, rfl⟩, small, rfl⟩
    rw [size] at small
    exact ⟨few, valid, sorted, small⟩
  · rintro ⟨few, valid, sorted, small⟩
    refine ⟨_, few, _, ⟨valid, sorted, rfl⟩, ?_, rfl⟩
    rw [size]
    exact small

theorem length_encodeEntries (h : encodeEntries previous files = .ok bytes) :
    files.length * minManifestEntryLen ≤ bytes.length := by
  induction files generalizing previous bytes with
  | nil => simp
  | cons entry entries ih =>
    simp only [encodeEntries, bind_eq_ok_iff, ok.injEq] at h
    obtain ⟨_, checked, tail, encoded, rfl⟩ := h
    have positive := (validatePathBytes_length (checkEntryPath_eq_ok_iff.mp checked).1).1
    have more := ih encoded
    simp only [encoding, length_append, length_u32, length_u64,
      List.Vector.toList_length, length_cons, minManifestEntryLen] at more ⊢
    omega

theorem decodeEntries_length {count : ℕ}
    (h : decodeEntries count previous input = .ok (files, rest)) : count = files.length := by
  induction count generalizing previous input files with
  | zero =>
    cases h
    rfl
  | succ count ih =>
    simp only [decodeEntries, bind_eq_ok_iff, Prod.exists, ok.injEq, Prod.mk.injEq] at h
    obtain ⟨_, _, _, _, _, _, _, _, _, _, _, _, _, _, _, _, _, _, decoded, rfl, rfl⟩ := h
    rw [ih decoded, length_cons]

theorem decodeEntries_eq_ok_iff : decodeEntries files.length previous input = .ok (files, rest) ↔
    ∃ bytes, encodeEntries previous files = .ok bytes ∧ input = bytes ++ rest := by
  induction files generalizing previous input with
  | nil => simp [decodeEntries, encodeEntries]
  | cons entry entries ih =>
    simp only [length_cons, decodeEntries, encodeEntries, bind_eq_ok_iff, Prod.exists,
      ok.injEq, Codec.readU32_eq_ok_iff, Codec.take_eq_ok_iff, Codec.readU64_eq_ok_iff,
      Codec.array_eq_ok_iff, exists_require, Prod.mk.injEq, List.cons.injEq]
    constructor
    · rintro ⟨pathLen, _, rfl, _, path, _, ⟨length, rfl⟩, u, checked, size, _, rfl, digest, _, rfl,
        _, _, decoded, ⟨rfl, rfl⟩, rfl⟩
      obtain ⟨tail, encoded, rfl⟩ := ih.mp decoded
      refine ⟨_, ⟨u, checked, tail, encoded, rfl⟩, ?_⟩
      have same : UInt32.ofNat path.length = pathLen := by
        rw [length, UInt32.ofNat_toNat]
      simp [encoding, same]
    · rintro ⟨_, ⟨u, checked, tail, encoded, rfl⟩, rfl⟩
      obtain ⟨_, short, exact_⟩ := validatePathBytes_length (checkEntryPath_eq_ok_iff.mp checked).1
      refine ⟨UInt32.ofNat entry.relative.length, _, ?_, by rw [exact_]; exact short,
        entry.relative, _, ⟨exact_.symm, rfl⟩, u, checked, entry.bytes, _, rfl, entry.sha256, _,
        rfl, entries, rest, ih.mpr ⟨tail, encoded, rfl⟩, ⟨rfl, rfl⟩, rfl⟩
      simp [encoding]

theorem decodeBackupManifestBytes_eq_ok_iff {manifest : BackupManifest} :
    decodeBackupManifestBytes P bytes = .ok manifest ↔ encodeManifest P manifest = .ok bytes := by
  have magicLength : manifestMagic.length = 8 := by decide
  simp only [decodeBackupManifestBytes, encodeManifest, bind_eq_ok_iff, exists_require, Prod.exists,
    Codec.take_eq_ok_iff, Codec.readU64_eq_ok_iff, ok.injEq]
  constructor
  · rintro ⟨⟨long, short⟩, digest, _, _, ⟨_, payload⟩, rfl, count, _, rfl, few, _, files, _,
      decoded, rfl, rfl⟩
    have counted : count.toNat = files.length := decodeEntries_length decoded
    rw [counted] at decoded few
    obtain ⟨entries, encoded, rfl⟩ := decodeEntries_eq_ok_iff.mp decoded
    have same : UInt64.ofNat files.length = count := by rw [← counted, UInt64.ofNat_toNat]
    refine ⟨few, entries, encoded, ?_, ?_⟩
    all_goals
      rw [append_nil, ← append_assoc] at payload
      rw [same, ← payload, digest, take_append_drop]
    exact short
  · rintro ⟨few, entries, encoded, short, rfl⟩
    obtain ⟨files⟩ := manifest
    have counted : (UInt64.ofNat files.length).toNat = files.length := by
      rw [UInt64.toNat_ofNat', Nat.mod_eq_of_lt]
      simp only [maxManifestEntries] at few
      omega
    have room := length_encodeEntries encoded
    have digestLength : ∀ payload : Str, (payload ++ (P.sha256 payload).toList).length -
        manifestDigestLen = payload.length := by
      intro payload
      simp [manifestDigestLen]
    refine ⟨⟨by simp [manifestHeaderLen, manifestDigestLen, magicLength]; omega, short⟩, ?_,
      manifestMagic, u64 (UInt64.ofNat files.length) ++ entries, ⟨rfl, ?_⟩, rfl,
      UInt64.ofNat files.length, entries, rfl, by rw [counted]; exact few, ?_, files, [],
      by rw [counted]; exact decodeEntries_eq_ok_iff.mpr ⟨entries, encoded, by simp⟩, rfl, rfl⟩
    · rw [digestLength, take_left, drop_left]
    · rw [digestLength, take_left, append_assoc]
    · rw [counted, Nat.le_div_iff_mul_le (by decide)]
      exact room
end Inventory

structure ColdTierCheckpointDescriptor where
  catalogSchemaVersion : UInt32
  activeGeneration : UInt32
  chunks : List ColdChunkDescriptor
  catalogDigest : Digest
  configDigest : Digest
  pinsManifestDigest : Digest

def coldDescriptorMagic : Str := ascii "RFCOLD01"
def coldDescriptorHeaderLen : ℕ := 8 + 2 + 4 + 4 + 4
def coldDescriptorChunkLen : ℕ := 24
def coldDescriptorDigestsLen : ℕ := 3 * 32
def coldDescriptorChecksumLen : ℕ := 32
def maxColdDescriptorChunks : ℕ := 1000000
def maxColdDescriptorBytes : ℕ := coldDescriptorHeaderLen +
  maxColdDescriptorChunks * coldDescriptorChunkLen + coldDescriptorDigestsLen +
  coldDescriptorChecksumLen

section Descriptor
/-- Chunks are ordered by generation and then by number. -/
def chunkKey (generation : UInt32) (chunkId : UInt64) : ℕ ×ₗ ℕ :=
  toLex (generation.toNat, chunkId.toNat)

def validateColdDescriptor (descriptor : ColdTierCheckpointDescriptor) :
    Except BackupError Unit := do
  .require (descriptor.chunks.length ≤ maxColdDescriptorChunks) .invalidManifest
  .require (∀ pair ∈ descriptor.chunks.zip descriptor.chunks.tail,
    chunkKey pair.1.generation pair.1.chunkId < chunkKey pair.2.generation pair.2.chunkId)
    .invalidManifest
  .require (∀ chunk ∈ descriptor.chunks, chunkHeaderLen ≤ chunk.validPrefix.toNat)
    .invalidManifest

def ChunkClassification.toTag : ChunkClassification → UInt8
  | .opened => 1
  | .sealed => 2

def ColdChunkDescriptor.encoding (chunk : ColdChunkDescriptor) : Str :=
  u32 chunk.generation ++ u64 chunk.chunkId ++ [chunk.classification.toTag] ++ zeros 3 ++
    u64 chunk.validPrefix

/-- Everything before the checksum. -/
def ColdTierCheckpointDescriptor.payload (descriptor : ColdTierCheckpointDescriptor) : Str :=
  coldDescriptorMagic ++ u16 1 ++ u32 descriptor.catalogSchemaVersion ++
    u32 descriptor.activeGeneration ++ u32 (UInt32.ofNat descriptor.chunks.length) ++
    descriptor.chunks.flatMap ColdChunkDescriptor.encoding ++ descriptor.catalogDigest.toList ++
    descriptor.configDigest.toList ++ descriptor.pinsManifestDigest.toList

def encodeColdDescriptor (P : Primitives) (descriptor : ColdTierCheckpointDescriptor) :
    Except BackupError Str := do
  validateColdDescriptor descriptor
  .ok (descriptor.payload ++ (P.sha256 descriptor.payload).toList)

def ChunkClassification.fromTag (tag : Str) : Except BackupError ChunkClassification :=
  if tag = [1] then .ok .opened else if tag = [2] then .ok .sealed else .error .invalidManifest

def decodeColdChunk : Codec.Reader BackupError ColdChunkDescriptor := fun input => do
  let (generation, input) ← readU32 input
  let (chunkId, input) ← readU64 input
  let (tag, input) ← readBytes 1 input
  let classification ← ChunkClassification.fromTag tag
  let (reserved, input) ← readBytes 3 input
  .require (reserved = zeros 3) .invalidManifest
  let (validPrefix, input) ← readU64 input
  .ok (⟨generation, chunkId, classification, validPrefix⟩, input)

def decodeColdTierCheckpointDescriptorBytes (P : Primitives) (bytes : Str) :
    Except BackupError ColdTierCheckpointDescriptor := do
  .require (coldDescriptorHeaderLen + coldDescriptorDigestsLen + coldDescriptorChecksumLen ≤
    bytes.length ∧ bytes.length ≤ maxColdDescriptorBytes) .invalidManifest
  let payload := bytes.take (bytes.length - coldDescriptorChecksumLen)
  .require ((P.sha256 payload).toList = bytes.drop (bytes.length - coldDescriptorChecksumLen))
    .invalidManifest
  let (magic, input) ← readBytes 8 payload
  .require (magic = coldDescriptorMagic) .invalidManifest
  let (version, input) ← readBytes 2 input
  .require (toU16 version = 1) .invalidManifest
  let (catalogSchemaVersion, input) ← readU32 input
  let (activeGeneration, input) ← readU32 input
  let (count, input) ← readU32 input
  .require (count.toNat ≤ maxColdDescriptorChunks) .invalidManifest
  .require (payload.length = coldDescriptorHeaderLen +
    count.toNat * coldDescriptorChunkLen + coldDescriptorDigestsLen) .invalidManifest
  let (chunks, input) ← Codec.many decodeColdChunk count.toNat input
  let (catalogDigest, input) ← readDigest input
  let (configDigest, input) ← readDigest input
  let (pinsManifestDigest, _) ← readDigest input
  let descriptor : ColdTierCheckpointDescriptor :=
    { catalogSchemaVersion, activeGeneration, chunks, catalogDigest, configDigest,
      pinsManifestDigest }
  validateColdDescriptor descriptor
  .ok descriptor

variable {P : Primitives} {input rest bytes : Str} {chunks : List ColdChunkDescriptor}

theorem ChunkClassification.fromTag_eq_ok_iff {tag : Str} {classification : ChunkClassification} :
    fromTag tag = .ok classification ↔ tag = [classification.toTag] := by
  unfold fromTag
  constructor
  · intro h
    split_ifs at h with opened sealed
    · cases h
      exact opened
    · cases h
      exact sealed
  · rintro rfl
    cases classification <;> rfl

theorem ColdChunkDescriptor.length_encoding (chunk : ColdChunkDescriptor) :
    chunk.encoding.length = coldDescriptorChunkLen := by
  simp [encoding, coldDescriptorChunkLen]

theorem length_flatMap_encoding :
    (chunks.flatMap ColdChunkDescriptor.encoding).length =
      chunks.length * coldDescriptorChunkLen := by
  induction chunks with
  | nil => simp
  | cons chunk chunks ih =>
    rw [flatMap_cons, length_append, ih, chunk.length_encoding, length_cons]
    ring

theorem decodeColdChunk_exact :
    Codec.Exact decodeColdChunk (fun _ => True) ColdChunkDescriptor.encoding := by
  intro input chunk rest
  simp only [decodeColdChunk, bind_eq_ok_iff, Prod.exists, ok.injEq, Codec.readU32_eq_ok_iff,
    Codec.take_eq_ok_iff, Codec.readU64_eq_ok_iff, ChunkClassification.fromTag_eq_ok_iff,
    exists_require, Prod.mk.injEq, true_and]
  constructor
  · rintro ⟨generation, _, rfl, chunkId, _, rfl, _, _, ⟨_, rfl⟩, classification, rfl, _, _,
      ⟨_, rfl⟩, rfl, validPrefix, _, rfl, rfl, rfl⟩
    simp [ColdChunkDescriptor.encoding]
  · rintro rfl
    exact ⟨chunk.generation, _, by simp [ColdChunkDescriptor.encoding], chunk.chunkId, _, rfl, _,
      _, ⟨rfl, rfl⟩, chunk.classification, rfl, zeros 3, _, ⟨length_zeros 3, rfl⟩, rfl,
      chunk.validPrefix, _, rfl, rfl, rfl⟩

theorem validateColdDescriptor_few {descriptor : ColdTierCheckpointDescriptor} {u : Unit}
    (h : validateColdDescriptor descriptor = .ok u) :
    descriptor.chunks.length ≤ maxColdDescriptorChunks ∧
      (UInt32.ofNat descriptor.chunks.length).toNat = descriptor.chunks.length := by
  rw [validateColdDescriptor, require_bind_eq_ok] at h
  refine ⟨h.1, ?_⟩
  rw [UInt32.toNat_ofNat', Nat.mod_eq_of_lt]
  have few := h.1
  unfold maxColdDescriptorChunks at few
  omega

theorem ColdTierCheckpointDescriptor.length_payload (descriptor : ColdTierCheckpointDescriptor) :
    descriptor.payload.length = coldDescriptorHeaderLen +
      descriptor.chunks.length * coldDescriptorChunkLen + coldDescriptorDigestsLen := by
  have magicLength : coldDescriptorMagic.length = 8 := by decide
  simp only [payload, length_append, magicLength, length_u16, length_u32, length_flatMap_encoding,
    List.Vector.toList_length, coldDescriptorHeaderLen, coldDescriptorDigestsLen]

theorem decodeColdTierCheckpointDescriptorBytes_eq_ok_iff
    {descriptor : ColdTierCheckpointDescriptor} :
    decodeColdTierCheckpointDescriptorBytes P bytes = .ok descriptor ↔
      encodeColdDescriptor P descriptor = .ok bytes := by
  simp only [decodeColdTierCheckpointDescriptorBytes, encodeColdDescriptor, bind_eq_ok_iff,
    exists_require, Prod.exists, Codec.take_eq_ok_iff, Codec.readU32_eq_ok_iff,
    Codec.array_eq_ok_iff, decodeColdChunk_exact.many _ _ _ _, ok.injEq]
  constructor
  · rintro ⟨_, digest, _, _, ⟨_, payload⟩, rfl, version, _, ⟨versionLength, rfl⟩, isOne, schema, _,
      rfl, active, _, rfl, count, _, rfl, few, whole, chunks, _, ⟨⟨counted, _⟩, rfl⟩, catalog, _,
      rfl, config, _, rfl, pins, tail, rfl, u, valid, rfl⟩
    rw [← counted] at whole
    have same : UInt32.ofNat chunks.length = count := by rw [counted, UInt32.ofNat_toNat]
    have one : u16 1 = version := by rw [← isOne, u16_toU16 versionLength]
    have noTail : tail = [] := by
      have lengths := congrArg List.length payload
      rw [whole] at lengths
      simp only [length_append, length_u32, versionLength, length_flatMap_encoding,
        List.Vector.toList_length, coldDescriptorHeaderLen, coldDescriptorDigestsLen,
        show coldDescriptorMagic.length = 8 by decide] at lengths
      exact length_eq_zero_iff.mp (by omega)
    subst noTail
    refine ⟨u, valid, ?_⟩
    have wholePayload : ColdTierCheckpointDescriptor.payload
        ⟨schema, active, chunks, catalog, config, pins⟩ =
        bytes.take (bytes.length - coldDescriptorChecksumLen) := by
      rw [payload]
      simp [ColdTierCheckpointDescriptor.payload, same, one]
    rw [wholePayload, digest, take_append_drop]
  · rintro ⟨u, valid, rfl⟩
    obtain ⟨few, counted⟩ := validateColdDescriptor_few valid
    have length := descriptor.length_payload
    have digestLength : (descriptor.payload ++ (P.sha256 descriptor.payload).toList).length -
        coldDescriptorChecksumLen = descriptor.payload.length := by
      simp [coldDescriptorChecksumLen]
    have total : (descriptor.payload ++ (P.sha256 descriptor.payload).toList).length =
        descriptor.payload.length + 32 := by simp
    rw [digestLength, take_left, drop_left, total, length]
    refine ⟨⟨?_, ?_⟩, rfl, coldDescriptorMagic, _, ⟨by decide, ?_⟩, rfl, u16 1, _,
      ⟨length_u16 1, rfl⟩, rfl, descriptor.catalogSchemaVersion, _, rfl,
      descriptor.activeGeneration, _, rfl,
      UInt32.ofNat descriptor.chunks.length, _, rfl, by rw [counted]; exact few, by rw [counted],
      descriptor.chunks, _, ⟨⟨counted.symm, by simp⟩, rfl⟩, descriptor.catalogDigest, _, rfl,
      descriptor.configDigest, _, rfl, descriptor.pinsManifestDigest, [], rfl, u, valid, rfl⟩
    · simp only [coldDescriptorChecksumLen]
      omega
    · simp only [maxColdDescriptorBytes, coldDescriptorChecksumLen]
      have bound := Nat.mul_le_mul_right coldDescriptorChunkLen few
      omega
    · simp [ColdTierCheckpointDescriptor.payload]

/-- Whatever the digest function is, both codecs are exact: what can be written is read back, and
what is read is what would be written. -/
theorem backupCodecs_exact (P : Primitives) :
    (∀ manifest bytes, encodeManifest P manifest = .ok bytes →
      decodeBackupManifestBytes P bytes = .ok manifest) ∧
    (∀ bytes manifest, decodeBackupManifestBytes P bytes = .ok manifest →
      encodeManifest P manifest = .ok bytes) ∧
    (∀ descriptor, validateColdDescriptor descriptor = .ok () →
      ∃ bytes, encodeColdDescriptor P descriptor = .ok bytes ∧
        decodeColdTierCheckpointDescriptorBytes P bytes = .ok descriptor) ∧
    ∀ bytes descriptor, decodeColdTierCheckpointDescriptorBytes P bytes = .ok descriptor →
      encodeColdDescriptor P descriptor = .ok bytes := by
  refine ⟨fun _ _ => decodeBackupManifestBytes_eq_ok_iff.mpr,
    fun _ _ => decodeBackupManifestBytes_eq_ok_iff.mp, ?_,
    fun _ _ => decodeColdTierCheckpointDescriptorBytes_eq_ok_iff.mp⟩
  intro descriptor valid
  have encoded : encodeColdDescriptor P descriptor =
      .ok (descriptor.payload ++ (P.sha256 descriptor.payload).toList) := by
    rw [encodeColdDescriptor, valid, ok_bind]
  exact ⟨_, encoded, decodeColdTierCheckpointDescriptorBytes_eq_ok_iff.mpr encoded⟩
end Descriptor
end ReflinkForest
