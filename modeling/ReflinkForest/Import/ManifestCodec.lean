import ReflinkForest.Import.SnapshotManifest
import ReflinkForest.Lib.Codec

/-! The bytes of a repository snapshot manifest. -/
namespace ReflinkForest
open Bytes

def snapshotManifestMagic : Str := ascii "RFSNAP" ++ [0, 0]
def snapshotManifestVersion : UInt16 := 1
def minManifestRefEntryBytes : ℕ := 1 + 2 + 1 + 1 + 20
def minManifestOptionalFieldBytes : ℕ := 2 + 4

def importPolicyTag : ImportPolicy → UInt8
  | .localBranchesAndTags => 1

def importPolicyFromTag (tag : UInt8) : Except SnapshotManifestError ImportPolicy :=
  if tag = 1 then .ok .localBranchesAndTags
  else .error (.invalid "snapshot manifest has an unsupported import policy")

def localRefKindTag : LocalRefKind → UInt8
  | .branch => 1
  | .tag => 2

def localRefKindFromTag (tag : UInt8) : Except SnapshotManifestError LocalRefKind :=
  if tag = 1 then .ok .branch
  else if tag = 2 then .ok .tag
  else .error (.invalid "snapshot manifest has an invalid ref kind")

def tryU16 (length : ℕ) : Except SnapshotManifestError UInt16 :=
  if length < 2 ^ 16 then .ok (UInt16.ofNat length) else .error .lengthOverflow

def tryU32 (length : ℕ) : Except SnapshotManifestError UInt32 :=
  if length < 2 ^ 32 then .ok (UInt32.ofNat length) else .error .lengthOverflow

/-- Items one behind the other, up to the first that has no encoding. -/
def encodeMany {α : Type} (item : α → Except SnapshotManifestError Str) :
    List α → Except SnapshotManifestError Str
  | [] => .ok []
  | first :: others => do
    let front ← item first
    let rear ← encodeMany item others
    .ok (front ++ rear)

def encodeRef (reference : PersistedRef) : Except SnapshotManifestError Str := do
  let nameLength ← tryU16 reference.name.length
  .ok (localRefKindTag reference.kind :: u16 nameLength ++ reference.name ++
    [reference.target.algorithm.toTag, UInt8.ofNat reference.target.algorithm.oidLen] ++
    reference.target.bytes)

def encodeOptionalField (field : OptionalManifestField) : Except SnapshotManifestError Str := do
  let length ← tryU32 field.value.length
  .ok (u16 field.tag ++ u32 length ++ field.value)

def encodeSnapshotManifest (manifest : SnapshotManifest) : Except SnapshotManifestError Str := do
  manifest.validate
  let toolVersionLength ← tryU16 manifest.toolVersion.length
  let refCount ← tryU32 manifest.refs.length
  let optionalFieldCount ← tryU32 manifest.optionalFields.length
  let refs ← encodeMany encodeRef manifest.refs
  let optionalFields ← encodeMany encodeOptionalField manifest.optionalFields
  let bytes := snapshotManifestMagic ++ u16 snapshotManifestVersion ++
    manifest.repository.bytes.toList ++ manifest.snapshotId.bytes.toList ++
    [manifest.nativeObjectFormat.toTag, importPolicyTag manifest.importPolicy] ++ u16 0 ++
    u64 manifest.importedUnixSecs ++ u64 manifest.summary.objectsSeen ++
    u64 manifest.summary.objectsWritten ++ u64 manifest.summary.objectsDeduplicated ++
    u64 manifest.summary.rawBytes ++ u16 toolVersionLength ++ u32 refCount ++
    u32 optionalFieldCount ++ manifest.toolVersion ++ refs ++ optionalFields
  .require (bytes.length ≤ maxSnapshotManifestBytes)
    (.invalid "snapshot manifest exceeds the maximum size")
  .ok bytes

section Decoder
namespace ManifestReader
def truncated : SnapshotManifestError := .invalid "snapshot manifest is truncated"

abbrev take (length : ℕ) := Codec.take truncated length
abbrev array (n : ℕ) := Codec.array truncated n
abbrev readU8 := Codec.readU8 truncated
abbrev readU16 := Codec.readU16 truncated
abbrev readU32 := Codec.readU32 truncated
abbrev readU64 := Codec.readU64 truncated
end ManifestReader

open ManifestReader

def decodeRef : Codec.Reader SnapshotManifestError PersistedRef := fun input => do
  let (kindTag, input) ← readU8 input
  let kind ← localRefKindFromTag kindTag
  let (nameLength, input) ← readU16 input
  .require (nameLength.toNat ≤ manifestRefNameMaxBytes)
    (.invalid "snapshot manifest ref name is too large")
  let (name, input) ← take nameLength.toNat input
  let (algorithmTag, input) ← readU8 input
  let algorithm ← .ofOption (.invalid "snapshot manifest has an invalid ref OID algorithm")
    (HashAlgorithm.fromTag algorithmTag)
  let (oidLength, input) ← readU8 input
  .require (oidLength.toNat = algorithm.oidLen)
    (.invalid "snapshot manifest has an invalid ref OID length")
  let (oid, input) ← take oidLength.toNat input
  let target ← .mapErr (fun _ => .invalid "snapshot manifest has an invalid ref OID")
    (GitOid.new algorithm oid)
  .ok (⟨name, kind, target⟩, input)

def decodeOptionalField : Codec.Reader SnapshotManifestError OptionalManifestField :=
    fun input => do
  let (tag, input) ← readU16 input
  let (length, input) ← readU32 input
  .require (length.toNat ≤ manifestOptionalFieldMaxBytes)
    (.invalid "snapshot manifest optional field is too large")
  let (value, input) ← take length.toNat input
  .ok (⟨tag, value⟩, input)

/-- The manifest as it stands in the bytes, before it is validated. -/
def decodeSnapshotManifestFields (bytes : Str) :
    Except SnapshotManifestError SnapshotManifest := do
  .require (bytes.length ≤ maxSnapshotManifestBytes)
    (.invalid "snapshot manifest exceeds the maximum size")
  let (magic, input) ← take 8 bytes
  .require (magic = snapshotManifestMagic)
    (.invalid "snapshot manifest has an invalid magic value")
  let (version, input) ← readU16 input
  .require (version = snapshotManifestVersion) (.unsupportedVersion version)
  let (repository, input) ← array 16 input
  let (snapshotId, input) ← array 16 input
  let (formatTag, input) ← readU8 input
  let nativeObjectFormat ← .ofOption
    (.invalid "snapshot manifest has an invalid native object format")
    (HashAlgorithm.fromTag formatTag)
  let (policyTag, input) ← readU8 input
  let importPolicy ← importPolicyFromTag policyTag
  let (reserved, input) ← readU16 input
  .require (reserved = 0) (.invalid "snapshot manifest has non-zero required reserved bytes")
  let (importedUnixSecs, input) ← readU64 input
  let (objectsSeen, input) ← readU64 input
  let (objectsWritten, input) ← readU64 input
  let (objectsDeduplicated, input) ← readU64 input
  let (rawBytes, input) ← readU64 input
  let (toolVersionLength, input) ← readU16 input
  .require (toolVersionLength.toNat ≤ manifestToolVersionMaxBytes)
    (.invalid "snapshot manifest tool version is too large")
  let (refCount, input) ← readU32 input
  let (optionalFieldCount, input) ← readU32 input
  let (toolVersion, input) ← take toolVersionLength.toNat input
  .require (refCount.toNat ≤ input.length / minManifestRefEntryBytes)
    (.invalid "snapshot manifest ref count exceeds remaining input")
  let (refs, input) ← Codec.many decodeRef refCount.toNat input
  .require (optionalFieldCount.toNat ≤ input.length / minManifestOptionalFieldBytes)
    (.invalid "snapshot manifest optional field count exceeds remaining input")
  let (optionalFields, input) ← Codec.many decodeOptionalField optionalFieldCount.toNat input
  .require (input = []) (.invalid "snapshot manifest has trailing bytes")
  .ok { repository := ⟨repository⟩, snapshotId := ⟨snapshotId⟩, nativeObjectFormat, importPolicy,
        refs, summary := ⟨objectsSeen, objectsWritten, objectsDeduplicated, rawBytes⟩,
        importedUnixSecs, toolVersion, optionalFields }

def decodeSnapshotManifestBytes (bytes : Str) : Except SnapshotManifestError SnapshotManifest := do
  let manifest ← decodeSnapshotManifestFields bytes
  manifest.validate
  .ok manifest

theorem decodeSnapshotManifestBytes_validate {bytes : Str} {manifest : SnapshotManifest}
    (h : decodeSnapshotManifestBytes bytes = .ok manifest) : manifest.validate = .ok () := by
  obtain ⟨read, _, rest⟩ := Except.bind_eq_ok_iff.mp h
  obtain ⟨_, valid, same⟩ := Except.bind_eq_ok_iff.mp rest
  cases same
  exact valid
end Decoder
end ReflinkForest
