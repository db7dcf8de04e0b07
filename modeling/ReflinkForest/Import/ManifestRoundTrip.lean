import ReflinkForest.Import.ManifestCodec

/-! What the snapshot manifest codec keeps: the decoder accepts exactly the encodings, but not every
valid manifest has one. -/
namespace ReflinkForest
open Bytes Except List

theorem importPolicyFromTag_eq_ok_iff {tag : UInt8} {policy : ImportPolicy} :
    importPolicyFromTag tag = .ok policy ↔ tag = importPolicyTag policy := by
  cases policy
  simp [importPolicyFromTag, importPolicyTag]

theorem localRefKindFromTag_eq_ok_iff {tag : UInt8} {kind : LocalRefKind} :
    localRefKindFromTag tag = .ok kind ↔ tag = localRefKindTag kind := by
  unfold localRefKindFromTag
  split
  · rename_i one
    subst one
    cases kind <;> simp [localRefKindTag]
  · split
    · rename_i two
      subst two
      cases kind <;> simp [localRefKindTag]
    · rename_i one two
      cases kind <;> simp [localRefKindTag, one, two]

def PersistedRef.encoding (reference : PersistedRef) : Str :=
  localRefKindTag reference.kind :: u16 (UInt16.ofNat reference.name.length) ++ reference.name ++
    [reference.target.algorithm.toTag, UInt8.ofNat reference.target.algorithm.oidLen] ++
    reference.target.bytes

def OptionalManifestField.encoding (field : OptionalManifestField) : Str :=
  u16 field.tag ++ u32 (UInt32.ofNat field.value.length) ++ field.value

def SnapshotManifest.encoding (manifest : SnapshotManifest) : Str :=
  snapshotManifestMagic ++ u16 snapshotManifestVersion ++
    manifest.repository.bytes.toList ++ manifest.snapshotId.bytes.toList ++
    [manifest.nativeObjectFormat.toTag, importPolicyTag manifest.importPolicy] ++ u16 0 ++
    u64 manifest.importedUnixSecs ++ u64 manifest.summary.objectsSeen ++
    u64 manifest.summary.objectsWritten ++ u64 manifest.summary.objectsDeduplicated ++
    u64 manifest.summary.rawBytes ++ u16 (UInt16.ofNat manifest.toolVersion.length) ++
    u32 (UInt32.ofNat manifest.refs.length) ++ u32 (UInt32.ofNat manifest.optionalFields.length) ++
    manifest.toolVersion ++ manifest.refs.flatMap PersistedRef.encoding ++
    manifest.optionalFields.flatMap OptionalManifestField.encoding

open SnapshotManifest

theorem PersistedRef.length_encoding (reference : PersistedRef) : reference.encoding.length =
    5 + reference.name.length + reference.target.bytes.length := by
  simp only [encoding, length_append, length_cons, length_nil, length_u16]
  omega

theorem OptionalManifestField.length_encoding (field : OptionalManifestField) :
    field.encoding.length = 6 + field.value.length := by
  simp only [encoding, length_append, length_u16, length_u32]

theorem SnapshotManifest.length_encoding (manifest : SnapshotManifest) :
    manifest.encoding.length = manifest.encodedLength := by
  have magic : snapshotManifestMagic.length = 8 := by decide
  simp only [encoding, encodedLength, length_append, length_cons, length_nil,
    length_flatMap, PersistedRef.length_encoding, OptionalManifestField.length_encoding,
    length_u16, length_u32, length_u64, List.Vector.toList_length, magic]

section Decoder
theorem decodeRef_exact : Codec.Exact decodeRef (fun reference => reference.name.length < 2 ^ 16)
    PersistedRef.encoding := by
  intro input reference rest
  simp only [decodeRef, bind_eq_ok_iff, Prod.exists, Codec.readU8_eq_ok_iff,
    localRefKindFromTag_eq_ok_iff, Codec.readU16_eq_ok_iff, exists_require,
    Codec.take_eq_ok_iff, ofOption_eq_ok, HashAlgorithm.fromTag_eq_some_iff, mapErr_eq_ok,
    GitOid.new_eq_ok_iff, ok.injEq, Prod.mk.injEq]
  constructor
  · rintro ⟨_, _, rfl, kind, rfl, nameLength, _, rfl, _, name, _, ⟨named, rfl⟩, _, _, rfl,
      algorithm, rfl, oidLength, _, rfl, measured, oid, _, ⟨_, rfl⟩, target, ⟨same, rfl⟩, rfl, rfl⟩
    have lengthSame : UInt16.ofNat name.length = nameLength := by rw [named, UInt16.ofNat_toNat]
    have oidSame : UInt8.ofNat algorithm.oidLen = oidLength := by
      rw [← measured, UInt8.ofNat_toNat]
    refine ⟨by rw [named]; exact nameLength.toNat_lt, ?_⟩
    simp [PersistedRef.encoding, same, lengthSame, oidSame]
  · rintro ⟨short, rfl⟩
    have named := UInt16.toNat_ofNat_of_lt' short
    have measured := reference.target.algorithm.toNat_oidLen
    refine ⟨_, _, ?_, reference.kind, rfl, UInt16.ofNat reference.name.length, _, rfl, ?_,
      reference.name, _, ⟨named.symm, rfl⟩, _, _, rfl, reference.target.algorithm, rfl,
      UInt8.ofNat reference.target.algorithm.oidLen, _, rfl, measured, reference.target.bytes,
      rest, ⟨?_, rfl⟩, reference.target, ⟨rfl, rfl⟩, rfl, rfl⟩
    · simp [PersistedRef.encoding]
    · rw [named, manifestRefNameMaxBytes]
      omega
    · rw [measured]
      exact reference.target.length_eq

theorem decodeOptionalField_exact : Codec.Exact decodeOptionalField
    (fun field => field.value.length ≤ manifestOptionalFieldMaxBytes)
    OptionalManifestField.encoding := by
  intro input field rest
  simp only [decodeOptionalField, bind_eq_ok_iff, Prod.exists, Codec.readU16_eq_ok_iff,
    Codec.readU32_eq_ok_iff, exists_require, Codec.take_eq_ok_iff, ok.injEq, Prod.mk.injEq]
  constructor
  · rintro ⟨tag, _, rfl, length, _, rfl, small, value, _, ⟨measured, rfl⟩, rfl, rfl⟩
    have same : UInt32.ofNat value.length = length := by rw [measured, UInt32.ofNat_toNat]
    refine ⟨by rw [measured]; exact small, ?_⟩
    simp [OptionalManifestField.encoding, same]
  · rintro ⟨small, rfl⟩
    have fits : field.value.length < 2 ^ 32 := by
      rw [manifestOptionalFieldMaxBytes] at small
      omega
    have measured := UInt32.toNat_ofNat_of_lt' fits
    refine ⟨field.tag, _, ?_, UInt32.ofNat field.value.length, _, rfl,
      by rw [measured]; exact small, field.value, rest, ⟨measured.symm, rfl⟩, rfl, rfl⟩
    simp [OptionalManifestField.encoding]

/-- Every part of the manifest fits the field in front of it. -/
structure SnapshotManifest.Fits (manifest : SnapshotManifest) : Prop where
  toolVersion : manifest.toolVersion.length < 2 ^ 16
  refCount : manifest.refs.length < 2 ^ 32
  optionalFieldCount : manifest.optionalFields.length < 2 ^ 32
  refs : ∀ reference ∈ manifest.refs, reference.name.length < 2 ^ 16
  optionalFields : ∀ field ∈ manifest.optionalFields,
    field.value.length ≤ manifestOptionalFieldMaxBytes
  whole : manifest.encodedLength ≤ maxSnapshotManifestBytes

theorem decodeSnapshotManifestFields_eq_ok_iff {bytes : Str} {manifest : SnapshotManifest} :
    decodeSnapshotManifestFields bytes = .ok manifest ↔
      manifest.Fits ∧ bytes = manifest.encoding := by
  simp only [decodeSnapshotManifestFields, bind_eq_ok_iff, Prod.exists, Codec.readU8_eq_ok_iff,
    Codec.readU16_eq_ok_iff, Codec.readU32_eq_ok_iff, Codec.readU64_eq_ok_iff, exists_require,
    Codec.take_eq_ok_iff, Codec.array_eq_ok_iff, ofOption_eq_ok, HashAlgorithm.fromTag_eq_some_iff,
    importPolicyFromTag_eq_ok_iff, decodeRef_exact.many _ _ _ _,
    decodeOptionalField_exact.many _ _ _ _, ok.injEq]
  constructor
  · rintro ⟨small, _, _, ⟨_, _⟩, _, _, _, _, _, repository, _, _, snapshotId, _, _, _, _, _,
      format, _, _, _, _, policy, _, _, _, _, _, importedUnixSecs, _, _, objectsSeen, _, _,
      objectsWritten, _, _, objectsDeduplicated, _, _, rawBytes, _, _, toolVersionLength, _, _, _,
      refCount, _, _, optionalFieldCount, _, _, toolVersion, _, ⟨versionLength, _⟩, _, refs, _,
      ⟨⟨counted, names⟩, _⟩, _, optionalFields, _, ⟨⟨fieldsCounted, values⟩, _⟩, _, rfl⟩
    have versionSame : toolVersionLength = UInt16.ofNat toolVersion.length := by
      rw [versionLength, UInt16.ofNat_toNat]
    have countSame : refCount = UInt32.ofNat refs.length := by rw [counted, UInt32.ofNat_toNat]
    have fieldsSame : optionalFieldCount = UInt32.ofNat optionalFields.length := by
      rw [fieldsCounted, UInt32.ofNat_toNat]
    -- the equations between the inputs are used together, once everything has been read
    have same : bytes = encoding ⟨⟨repository⟩, ⟨snapshotId⟩, format, policy, refs,
        ⟨objectsSeen, objectsWritten, objectsDeduplicated, rawBytes⟩, importedUnixSecs,
        toolVersion, optionalFields⟩ := by
      subst_vars
      simp [encoding]
    rw [same, length_encoding] at small
    exact ⟨⟨by rw [versionLength]; exact toolVersionLength.toNat_lt,
      by rw [counted]; exact refCount.toNat_lt,
      by rw [fieldsCounted]; exact optionalFieldCount.toNat_lt, names, values, small⟩, same⟩
  · rintro ⟨fits, rfl⟩
    have version := UInt16.toNat_ofNat_of_lt' fits.toolVersion
    have refCount := UInt32.toNat_ofNat_of_lt' fits.refCount
    have fieldCount := UInt32.toNat_ofNat_of_lt' fits.optionalFieldCount
    refine ⟨?_, snapshotManifestMagic, _, ⟨by decide, ?_⟩, rfl, snapshotManifestVersion, _, rfl,
      rfl, manifest.repository.bytes, _, rfl, manifest.snapshotId.bytes, _, rfl, _, _, rfl,
      manifest.nativeObjectFormat, rfl, _, _, rfl, manifest.importPolicy, rfl, 0, _, rfl, rfl,
      manifest.importedUnixSecs, _, rfl, manifest.summary.objectsSeen, _, rfl,
      manifest.summary.objectsWritten, _, rfl, manifest.summary.objectsDeduplicated, _, rfl,
      manifest.summary.rawBytes, _, rfl, UInt16.ofNat manifest.toolVersion.length, _, rfl, ?_,
      UInt32.ofNat manifest.refs.length, _, rfl, UInt32.ofNat manifest.optionalFields.length, _,
      rfl, manifest.toolVersion, _, ⟨version.symm, rfl⟩, ?_, manifest.refs, _,
      ⟨⟨refCount.symm, fits.refs⟩, rfl⟩, ?_, manifest.optionalFields, [],
      ⟨⟨fieldCount.symm, fits.optionalFields⟩, rfl⟩, rfl, rfl⟩
    · rw [length_encoding]
      exact fits.whole
    · simp [encoding]
    · rw [version, manifestToolVersionMaxBytes]
      have := fits.toolVersion
      omega
    · rw [refCount]
      apply Codec.length_le_div_of_flatMap (by decide)
      intro reference _
      have oid := reference.target.length_eq
      have long : 20 ≤ reference.target.algorithm.oidLen := by
        cases reference.target.algorithm <;> decide
      rw [PersistedRef.length_encoding, minManifestRefEntryBytes]
      omega
    · rw [fieldCount]
      apply Codec.length_le_div_of_flatMap (by decide)
      intro field _
      rw [OptionalManifestField.length_encoding, minManifestOptionalFieldBytes]
      omega

theorem decodeSnapshotManifestBytes_eq_ok_iff {bytes : Str} {manifest : SnapshotManifest} :
    decodeSnapshotManifestBytes bytes = .ok manifest ↔
      manifest.validate = .ok () ∧ manifest.Fits ∧ bytes = manifest.encoding := by
  simp only [decodeSnapshotManifestBytes, bind_eq_ok_iff, ok.injEq,
    decodeSnapshotManifestFields_eq_ok_iff]
  constructor
  · rintro ⟨_, read, ⟨⟩, valid, rfl⟩
    exact ⟨valid, read⟩
  · rintro ⟨valid, read⟩
    exact ⟨manifest, read, (), valid, rfl⟩
end Decoder

section Encoder
variable {manifest : SnapshotManifest}

theorem encodeMany_eq {α : Type} {item : α → Except SnapshotManifestError Str} {fits : α → Prop}
    [DecidablePred fits] {encode : α → Str} {e : SnapshotManifestError}
    (h : ∀ value, item value = require (fits value) e >>= fun _ => .ok (encode value))
    (values : List α) : encodeMany item values =
      require (∀ value ∈ values, fits value) e >>= fun _ => .ok (values.flatMap encode) := by
  induction values with
  | nil => rfl
  | cons first others ih =>
    rw [encodeMany, h, ih]
    by_cases one : fits first
    · simp [require, one]
    · have notAll : ¬∀ value ∈ first :: others, fits value := fun all =>
        one (forall_mem_cons.mp all).1
      rw [require_neg one, require_neg notAll]
      rfl

theorem tryU16_eq (length : ℕ) : tryU16 length =
    require (length < 2 ^ 16) .lengthOverflow >>= fun _ => .ok (UInt16.ofNat length) := by
  unfold tryU16 require
  split <;> rfl

theorem tryU32_eq (length : ℕ) : tryU32 length =
    require (length < 2 ^ 32) .lengthOverflow >>= fun _ => .ok (UInt32.ofNat length) := by
  unfold tryU32 require
  split <;> rfl

theorem encodeRef_eq (reference : PersistedRef) : encodeRef reference =
    require (reference.name.length < 2 ^ 16) .lengthOverflow >>=
      fun _ => .ok reference.encoding := by
  rw [encodeRef, tryU16_eq]
  by_cases short : reference.name.length < 2 ^ 16
  · rw [require_pos short]
    rfl
  · rw [require_neg short]
    rfl

theorem encodeOptionalField_eq (field : OptionalManifestField) : encodeOptionalField field =
    require (field.value.length < 2 ^ 32) .lengthOverflow >>=
      fun _ => .ok field.encoding := by
  rw [encodeOptionalField, tryU32_eq]
  by_cases short : field.value.length < 2 ^ 32
  · rw [require_pos short]
    rfl
  · rw [require_neg short]
    rfl

theorem validateOptionalFields_values {earlier fields : List OptionalManifestField} {u : Unit}
    (h : validateOptionalFields earlier fields = .ok u) :
    ∀ field ∈ fields, field.value.length ≤ manifestOptionalFieldMaxBytes := by
  induction fields generalizing earlier with
  | nil => simp
  | cons field fields ih =>
    simp only [validateOptionalFields, require_bind_eq_ok] at h
    exact forall_mem_cons.mpr ⟨h.1.2, ih h.2.2⟩

/-- The bounds that the validator and the file format have in common. -/
theorem SnapshotManifest.validate_bounds (h : manifest.validate = .ok ()) :
    manifest.refs.length < 2 ^ 32 ∧ manifest.optionalFields.length < 2 ^ 32 ∧
      ∀ field ∈ manifest.optionalFields, field.value.length ≤ manifestOptionalFieldMaxBytes := by
  simp only [validate, bind_eq_ok_iff, exists_require] at h
  obtain ⟨_, _, refs, _, _, fields, values⟩ := h
  exact ⟨refs, fields, validateOptionalFields_values values⟩

/-- On a validated manifest the encoder makes three checks and then writes the encoding. -/
theorem encodeSnapshotManifest_of_validate (h : manifest.validate = .ok ()) :
    encodeSnapshotManifest manifest = manifest.encodeChecks >>= fun _ => .ok manifest.encoding := by
  obtain ⟨refCount, fieldCount, values⟩ := validate_bounds h
  have allFields : ∀ field ∈ manifest.optionalFields, field.value.length < 2 ^ 32 := by
    intro field mem
    have small := values field mem
    rw [manifestOptionalFieldMaxBytes] at small
    omega
  rw [encodeSnapshotManifest, h, encodeChecks, tryU16_eq, tryU32_eq, tryU32_eq,
    encodeMany_eq encodeRef_eq, encodeMany_eq encodeOptionalField_eq, require_pos refCount,
    require_pos fieldCount, require_pos allFields, ← length_encoding]
  simp only [bind_assoc, ok_bind]
  rfl

theorem encodeSnapshotManifest_eq_ok_iff {bytes : Str} :
    encodeSnapshotManifest manifest = .ok bytes ↔
      manifest.validate = .ok () ∧ manifest.Fits ∧ bytes = manifest.encoding := by
  constructor
  · intro encoded
    obtain ⟨⟨⟩, valid, _⟩ := bind_eq_ok_iff.mp encoded
    obtain ⟨refCount, fieldCount, values⟩ := validate_bounds valid
    rw [encodeSnapshotManifest_of_validate valid] at encoded
    simp only [encodeChecks, bind_assoc, require_bind_eq_ok, ok.injEq] at encoded
    obtain ⟨version, names, whole, rfl⟩ := encoded
    exact ⟨valid, ⟨version, refCount, fieldCount, names, values, whole⟩, rfl⟩
  · rintro ⟨valid, fits, rfl⟩
    rw [encodeSnapshotManifest_of_validate valid, encodeChecks, require_pos
      fits.toolVersion, require_pos fits.refs, require_pos fits.whole]
    rfl

/-- Accepted bytes are canonical. A valid manifest that is not too large round-trips exactly when
its tool version and its ref names are shorter than 64 KiB. -/
theorem snapshotManifest_roundTrip_iff (manifest : SnapshotManifest) (bytes : Str) :
    (manifest.validate = .ok () → manifest.encodedLength ≤ maxSnapshotManifestBytes →
      ((∃ bytes, encodeSnapshotManifest manifest = .ok bytes ∧
          decodeSnapshotManifestBytes bytes = .ok manifest) ↔
        manifest.toolVersion.length < 2 ^ 16 ∧
          ∀ reference ∈ manifest.refs, reference.name.length < 2 ^ 16)) ∧
    (decodeSnapshotManifestBytes bytes = .ok manifest →
      encodeSnapshotManifest manifest = .ok bytes) := by
  constructor
  · intro valid whole
    constructor
    · rintro ⟨bytes, encoded, _⟩
      obtain ⟨_, fits, _⟩ := encodeSnapshotManifest_eq_ok_iff.mp encoded
      exact ⟨fits.toolVersion, fits.refs⟩
    · rintro ⟨version, names⟩
      obtain ⟨refCount, fieldCount, values⟩ := validate_bounds valid
      have fits : manifest.Fits := ⟨version, refCount, fieldCount, names, values, whole⟩
      exact ⟨manifest.encoding, encodeSnapshotManifest_eq_ok_iff.mpr ⟨valid, fits, rfl⟩,
        decodeSnapshotManifestBytes_eq_ok_iff.mpr ⟨valid, fits, rfl⟩⟩
  · intro decoded
    exact encodeSnapshotManifest_eq_ok_iff.mpr (decodeSnapshotManifestBytes_eq_ok_iff.mp decoded)

/-- An import of an empty repository by a tool with the given version. -/
def emptyImport (toolVersion : Str) : SnapshotManifest :=
  { repository := ⟨List.Vector.replicate 16 0⟩, snapshotId := ⟨List.Vector.replicate 16 0⟩,
    nativeObjectFormat := .sha1, importPolicy := .localBranchesAndTags, refs := [], summary := {},
    importedUnixSecs := 0, toolVersion, optionalFields := [] }

theorem emptyImport_validate {toolVersion : Str} (some_ : toolVersion ≠ [])
    (short : toolVersion.length ≤ manifestToolVersionMaxBytes) :
    (emptyImport toolVersion).validate = .ok () := by
  have sized : (emptyImport toolVersion).toolVersion ≠ [] ∧
      (emptyImport toolVersion).toolVersion.length ≤ manifestToolVersionMaxBytes := ⟨some_, short⟩
  rw [validate, require_pos sized]
  rfl

/-- A tool version of exactly 64 KiB passes the validator and has no encoding. -/
theorem longest_toolVersion_not_encoded : ¬∀ manifest : SnapshotManifest,
    manifest.validate = .ok () → manifest.encodedLength ≤ maxSnapshotManifestBytes →
    ∃ bytes, encodeSnapshotManifest manifest = .ok bytes ∧
      decodeSnapshotManifestBytes bytes = .ok manifest := by
  intro claimed
  obtain ⟨version, length⟩ : ∃ version : Str, version.length = 2 ^ 16 :=
    ⟨List.replicate (2 ^ 16) 0x31, length_replicate⟩
  have nonempty : version ≠ [] := by
    rintro rfl
    simp at length
  obtain ⟨bytes, encoded, _⟩ := claimed (emptyImport version)
    (emptyImport_validate nonempty (by rw [length, manifestToolVersionMaxBytes]; decide))
    (by
      simp only [encodedLength, emptyImport, length, map_nil, sum_nil]
      decide)
  have short := (encodeSnapshotManifest_eq_ok_iff.mp encoded).2.1.toolVersion
  simp only [emptyImport, length] at short
  omega
end Encoder
end ReflinkForest
