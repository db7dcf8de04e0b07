import ReflinkForest.Index.RebuildProtocol
import ReflinkForest.Lib.ColumnStore

/-! The key and value encodings of catalog format 1. Every encoding starts with the version; the
decoders of fixed size differ only in what they read. -/
namespace ReflinkForest
open Bytes Except List

namespace SnapshotVisibility
def toTag : SnapshotVisibility → UInt8
  | .incomplete => 1
  | .ready => 2

def fromTag (tag : UInt8) : Option SnapshotVisibility :=
  if tag = 1 then some .incomplete else if tag = 2 then some .ready else none

end SnapshotVisibility

namespace ChunkState
def toTag : ChunkState → UInt8
  | .opened => 1
  | .sealed => 2
  | .retired => 3

def fromTag (tag : UInt8) : Option ChunkState :=
  if tag = 1 then some .opened else if tag = 2 then some .sealed
  else if tag = 3 then some .retired else none

@[simp] theorem fromTag_toTag (s : ChunkState) : fromTag s.toTag = some s := by
  cases s <;> rfl

end ChunkState

def catalogVersion : UInt8 := 1

namespace Catalog
def checkVersion (version : UInt8) : Except CatalogError Unit :=
  .require (version = catalogVersion) (.unsupportedVersion version)

/-- The decoder of an encoding of fixed size. -/
def decodeFixed {α : Type} (length : ℕ) (read : Str → Except CatalogError α) (input : Str) :
    Except CatalogError α := do
  .require (input.length = length) .invalidEncoding
  checkVersion (byteAt input 0)
  read input

def encodeObjectLocationKey (id : ContentId) : Str := catalogVersion :: id.bytes.toList

def decodeObjectLocationKey : Str → Except CatalogError ContentId :=
  decodeFixed 33 fun input => .ok ⟨sliceVec input 1 32⟩

def encodeObjectLocationValue (value : ObjectLocation) : Str :=
  catalogVersion :: (u32 value.generation ++ (u64 value.chunkId ++ (u64 value.offset ++
    (u64 value.recordLength ++ (u64 value.storedLength ++ (u64 value.rawLength ++
      ([value.kind.toTag] ++ ([value.codec.toTag] ++ (u16 value.flags ++
        u32 value.payloadCrc32c)))))))))

def decodeObjectLocationValue : Str → Except CatalogError ObjectLocation :=
  decodeFixed 53 fun input => do
    let kind ← .ofOption .invalidEncoding (ObjectKind.fromTag (byteAt input 45))
    let codec ← .ofOption .invalidEncoding (Codec.fromTag (byteAt input 46))
    .ok {
      generation := toU32 (slice input 1 4)
      chunkId := toU64 (slice input 5 8)
      offset := toU64 (slice input 13 8)
      recordLength := toU64 (slice input 21 8)
      storedLength := toU64 (slice input 29 8)
      rawLength := toU64 (slice input 37 8)
      kind := kind
      codec := codec
      flags := toU16 (slice input 47 2)
      payloadCrc32c := toU32 (slice input 49 4) }

def encodeOidAliasKey (repo : RepoId) (oid : GitOid) : Str :=
  catalogVersion :: (repo.bytes.toList ++
    oid.algorithm.toTag :: UInt8.ofNat oid.bytes.length :: oid.bytes)

def decodeOidAliasKey (input : Str) : Except CatalogError (RepoId × GitOid) := do
  .require (19 ≤ input.length) .invalidEncoding
  checkVersion (byteAt input 0)
  let algorithm ← .ofOption .invalidEncoding (HashAlgorithm.fromTag (byteAt input 17))
  let len := (byteAt input 18).toNat
  .require (len = algorithm.oidLen ∧ input.length = 19 + len) .invalidEncoding
  let oid ← .mapErr (fun _ => .invalidEncoding) (GitOid.new algorithm (input.drop 19))
  .ok (⟨sliceVec input 1 16⟩, oid)

def encodeContentIdValue (id : ContentId) : Str := encodeObjectLocationKey id

def decodeContentIdValue : Str → Except CatalogError ContentId := decodeObjectLocationKey

def encodeRepositoryKey (id : RepoId) : Str := catalogVersion :: id.bytes.toList

def encodeRepositorySnapshotKey (repository : RepoId) (snapshot : SnapshotId) : Str :=
  catalogVersion :: (repository.bytes.toList ++ snapshot.bytes.toList)

def decodeRepositorySnapshotKey : Str → Except CatalogError (RepoId × SnapshotId) :=
  decodeFixed 33 fun input => .ok (⟨sliceVec input 1 16⟩, ⟨sliceVec input 17 16⟩)

def encodeSnapshotVisibilityValue (value : SnapshotVisibility) : Str :=
  [catalogVersion, value.toTag]

def decodeSnapshotVisibilityValue : Str → Except CatalogError SnapshotVisibility :=
  decodeFixed 2 fun input =>
    .ofOption .invalidEncoding (SnapshotVisibility.fromTag (byteAt input 1))

def encodeChunkKey (generation : UInt32) (chunkId : UInt64) : Str :=
  catalogVersion :: (u32 generation ++ u64 chunkId)

def decodeChunkKey : Str → Except CatalogError (UInt32 × UInt64) :=
  decodeFixed 13 fun input => .ok (toU32 (slice input 1 4), toU64 (slice input 5 8))

def encodeChunkValue (value : ChunkMetadata) : Str :=
  catalogVersion :: ([value.state.toTag] ++ (u64 value.size ++ u64 value.recordCount))

def decodeChunkValue : Str → Except CatalogError ChunkMetadata :=
  decodeFixed 18 fun input => do
    let state ← .ofOption .invalidEncoding (ChunkState.fromTag (byteAt input 1))
    .ok ⟨state, toU64 (slice input 2 8), toU64 (slice input 10 8)⟩

def encodeOpaqueKey (key : Str) : Str := catalogVersion :: key

def decodeOpaqueKey : Str → Except CatalogError Str
  | [] => .error .invalidEncoding
  | version :: value => do
    checkVersion version
    .ok value

def encodeOpaqueValue (value : Str) : Str := encodeOpaqueKey value

def decodeOpaqueValue : Str → Except CatalogError Str := decodeOpaqueKey

def encodeMetaKey (key : Str) : Str := encodeOpaqueKey key

def encodeCurrentGenerationValue (generation : UInt32) : Str := catalogVersion :: u32 generation

def decodeCurrentGenerationValue : Str → Except CatalogError UInt32 :=
  decodeFixed 5 fun input => .ok (toU32 (slice input 1 4))

def objectLocationRebuildInProgressMarker : UInt8 := 1

def decodeObjectLocationRebuildMarker (input : Str) :
    Except CatalogError ObjectLocationRebuildState := do
  let marker ← decodeOpaqueValue input
  .require (marker = [objectLocationRebuildInProgressMarker]) .invalidEncoding
  .ok .inProgress

def encodeWorkspaceKey (id : WorkspaceId) : Str := catalogVersion :: id.bytes.toList

def decodeWorkspaceKey : Str → Except CatalogError WorkspaceId :=
  decodeFixed 17 fun input => .ok ⟨sliceVec input 1 16⟩

def encodeWorkspaceNameKey (name : Str) : Str := encodeOpaqueKey name

def encodeWorkspaceIdValue (id : WorkspaceId) : Str := encodeWorkspaceKey id

def decodeWorkspaceIdValue : Str → Except CatalogError WorkspaceId := decodeWorkspaceKey

def encodeWorkspacePinKey (id : WorkspaceId) : Str := encodeWorkspaceKey id

def decodeWorkspacePinKey : Str → Except CatalogError WorkspaceId := decodeWorkspaceKey

def encodeWorkspacePinValue (generation : UInt32) : Str := encodeCurrentGenerationValue generation

def decodeWorkspacePinValue : Str → Except CatalogError UInt32 := decodeCurrentGenerationValue

def explicitGcPinKeyTag : UInt8 := 1

def encodeGcPinKey (id : GcPinId) : Str :=
  catalogVersion :: explicitGcPinKeyTag :: id.bytes.toList

def decodeGcPinKey : Str → Except CatalogError GcPinId :=
  decodeFixed 18 fun input => do
    .require (byteAt input 1 = explicitGcPinKeyTag) .invalidEncoding
    .ok ⟨sliceVec input 2 16⟩

def encodeGcPinValue (generation : UInt32) : Str := encodeWorkspacePinValue generation

def decodeGcPinValue : Str → Except CatalogError UInt32 := decodeWorkspacePinValue

def encodeJobKey (jobId : Str) : Str := encodeOpaqueKey jobId

theorem decodeFixed_encoded {α : Type} {length : ℕ} {read : Str → Except CatalogError α}
    {fields : Str} (size : fields.length + 1 = length) :
    decodeFixed length read (catalogVersion :: fields) = read (catalogVersion :: fields) := by
  have whole : (catalogVersion :: fields).length = length := size
  have current : byteAt (catalogVersion :: fields) 0 = catalogVersion := rfl
  rw [decodeFixed, require_pos whole, ok_bind, checkVersion, current, require_pos rfl, ok_bind]

theorem sliceVec_append {n : ℕ} (front : Str) (v : List.Vector UInt8 n) (rest : Str) :
    sliceVec (front ++ (v.toList ++ rest)) front.length n = v := by
  refine List.Vector.eq _ _ ?_
  rw [toList_sliceVec (by simp), slice_append_right le_rfl, Nat.sub_self,
    slice_append_self v.toList_length]

theorem sliceVec_cons {n : ℕ} (b : UInt8) (v : List.Vector UInt8 n) :
    sliceVec (b :: v.toList) 1 n = v := by
  have bytes := sliceVec_append [b] v []
  rwa [append_nil] at bytes

theorem slice_cons {b : UInt8} {bs : Str} {off len : ℕ} :
    slice (b :: bs) (off + 1) len = slice bs off len := rfl

theorem decode_encodeObjectLocationKey (id : ContentId) :
    decodeObjectLocationKey (encodeObjectLocationKey id) = .ok id := by
  rw [decodeObjectLocationKey, encodeObjectLocationKey, decodeFixed_encoded (by simp),
    sliceVec_cons]

theorem decode_encodeContentIdValue (id : ContentId) :
    decodeContentIdValue (encodeContentIdValue id) = .ok id := decode_encodeObjectLocationKey id

theorem decode_encodeObjectLocationValue (value : ObjectLocation) :
    decodeObjectLocationValue (encodeObjectLocationValue value) = .ok value := by
  rw [decodeObjectLocationValue, encodeObjectLocationValue, decodeFixed_encoded (by simp)]
  simp (disch := simp) [slice_cons, slice_append_right, slice_append_self, slice_self, byteAt]

theorem decode_encodeOidAliasKey (repo : RepoId) (oid : GitOid) :
    decodeOidAliasKey (encodeOidAliasKey repo oid) = .ok (repo, oid) := by
  have repository : sliceVec (encodeOidAliasKey repo oid) 1 16 = repo.bytes :=
    sliceVec_append [catalogVersion] repo.bytes _
  have size : (encodeOidAliasKey repo oid).length = 19 + oid.bytes.length := by
    simp only [encodeOidAliasKey, length_cons, length_append, List.Vector.toList_length]
    omega
  have current : byteAt (encodeOidAliasKey repo oid) 0 = catalogVersion := rfl
  have tag : byteAt (encodeOidAliasKey repo oid) 17 = oid.algorithm.toTag := by
    simp [encodeOidAliasKey, byteAt]
  have bound := oid.algorithm.oidLen_le
  have len : (byteAt (encodeOidAliasKey repo oid) 18).toNat = oid.bytes.length := by
    rw [← oid.length_eq] at bound
    simp [encodeOidAliasKey, byteAt, List.getElem?_append_right]
    omega
  have bytes : (encodeOidAliasKey repo oid).drop 19 = oid.bytes := by
    simp [encodeOidAliasKey, drop_append]
  rw [decodeOidAliasKey, current, tag, len, bytes, repository, size,
    require_pos (Nat.le_add_right _ _), ok_bind, checkVersion, require_pos rfl,
    ok_bind, HashAlgorithm.fromTag_toTag, ofOption_some, ok_bind]
  dsimp only
  rw [require_pos ⟨oid.length_eq, rfl⟩, ok_bind, GitOid.new_bytes, mapErr_ok, ok_bind]

theorem decode_encodeRepositorySnapshotKey (repository : RepoId) (snapshot : SnapshotId) :
    decodeRepositorySnapshotKey (encodeRepositorySnapshotKey repository snapshot) =
      .ok (repository, snapshot) := by
  have first := sliceVec_append [catalogVersion] repository.bytes snapshot.bytes.toList
  have second := sliceVec_append (catalogVersion :: repository.bytes.toList) snapshot.bytes []
  rw [append_nil, length_cons, List.Vector.toList_length] at second
  rw [decodeRepositorySnapshotKey, encodeRepositorySnapshotKey, decodeFixed_encoded (by simp)]
  exact congrArg Except.ok (Prod.ext (congrArg RepoId.mk first) (congrArg SnapshotId.mk second))

theorem decode_encodeSnapshotVisibilityValue (value : SnapshotVisibility) :
    decodeSnapshotVisibilityValue (encodeSnapshotVisibilityValue value) = .ok value := by
  cases value <;> rfl

theorem decode_encodeChunkKey (generation : UInt32) (chunkId : UInt64) :
    decodeChunkKey (encodeChunkKey generation chunkId) = .ok (generation, chunkId) := by
  rw [decodeChunkKey, encodeChunkKey, decodeFixed_encoded (by simp)]
  simp (disch := simp) [slice_cons, slice_append_right, slice_append_self, slice_self]

theorem decode_encodeChunkValue (value : ChunkMetadata) :
    decodeChunkValue (encodeChunkValue value) = .ok value := by
  rw [decodeChunkValue, encodeChunkValue, decodeFixed_encoded (by simp)]
  simp (disch := simp) [slice_cons, slice_append_right, slice_append_self, slice_self, byteAt]

theorem decode_encodeOpaqueValue (value : Str) :
    decodeOpaqueValue (encodeOpaqueValue value) = .ok value := rfl

theorem decode_encodeWorkspaceKey (id : WorkspaceId) :
    decodeWorkspaceKey (encodeWorkspaceKey id) = .ok id := by
  rw [decodeWorkspaceKey, encodeWorkspaceKey, decodeFixed_encoded (by simp), sliceVec_cons]

theorem decode_encodeCurrentGenerationValue (generation : UInt32) :
    decodeCurrentGenerationValue (encodeCurrentGenerationValue generation) = .ok generation := by
  rw [decodeCurrentGenerationValue, encodeCurrentGenerationValue, decodeFixed_encoded (by simp)]
  simp (disch := simp) [slice_cons, slice_self]

theorem decode_encodeGcPinKey (id : GcPinId) : decodeGcPinKey (encodeGcPinKey id) = .ok id := by
  have bytes := sliceVec_append [catalogVersion, explicitGcPinKeyTag] id.bytes []
  rw [append_nil] at bytes
  have tag : byteAt (catalogVersion :: explicitGcPinKeyTag :: id.bytes.toList) 1 =
      explicitGcPinKeyTag := rfl
  rw [decodeGcPinKey, encodeGcPinKey, decodeFixed_encoded (by simp), require_pos tag, ok_bind]
  exact congrArg Except.ok (congrArg GcPinId.mk bytes)

theorem injective_of_decode {α ε : Type} {encode : α → Str} {decode : Str → Except ε α}
    (roundTrip : ∀ a, decode (encode a) = .ok a) : Function.Injective encode := by
  intro a b same
  have back := roundTrip a
  rw [same, roundTrip b, ok.injEq] at back
  exact back.symm

theorem encodeObjectLocationKey_injective : Function.Injective encodeObjectLocationKey :=
  injective_of_decode decode_encodeObjectLocationKey

theorem encodeOidAliasKey_injective :
    Function.Injective fun k : RepoId × GitOid => encodeOidAliasKey k.1 k.2 :=
  injective_of_decode fun k => decode_encodeOidAliasKey k.1 k.2

theorem encodeRepositoryKey_injective : Function.Injective encodeRepositoryKey := by
  rintro ⟨a⟩ ⟨b⟩ same
  exact congrArg RepoId.mk (List.Vector.eq _ _ (List.cons.inj same).2)

theorem encodeRepositorySnapshotKey_injective :
    Function.Injective fun k : RepoId × SnapshotId => encodeRepositorySnapshotKey k.1 k.2 :=
  injective_of_decode fun k => decode_encodeRepositorySnapshotKey k.1 k.2

theorem encodeChunkKey_injective :
    Function.Injective fun k : UInt32 × UInt64 => encodeChunkKey k.1 k.2 :=
  injective_of_decode fun k => decode_encodeChunkKey k.1 k.2

theorem encodeOpaqueKey_injective : Function.Injective encodeOpaqueKey :=
  fun _ _ same => (List.cons.inj same).2

theorem encodeWorkspaceKey_injective : Function.Injective encodeWorkspaceKey :=
  injective_of_decode decode_encodeWorkspaceKey

theorem encodeGcPinKey_injective : Function.Injective encodeGcPinKey :=
  injective_of_decode decode_encodeGcPinKey

theorem beNat_lt_beNat_iff {bs bs' : Str} (width : bs.length = bs'.length) :
    beNat bs < beNat bs' ↔ bs < bs' := by
  induction bs generalizing bs' with
  | nil =>
    rw [length_nil, eq_comm, length_eq_zero_iff] at width
    simp [width]
  | cons b bs ih =>
    cases bs' with
    | nil => simp at width
    | cons b' bs' =>
      have same : bs.length = bs'.length := Nat.succ.inj width
      have rest := ih same
      have low := beNat_lt bs
      have low' := beNat_lt bs'
      rw [beNat_cons, beNat_cons, cons_lt_cons_iff, ← rest, UInt8.lt_iff_toNat_lt,
        ← UInt8.toNat_inj, same]
      rw [same] at low
      rcases lt_trichotomy b.toNat b'.toNat with lt | eq | gt
      · have step := Nat.mul_le_mul_right (256 ^ bs'.length) (Nat.succ_le_of_lt lt)
        rw [Nat.succ_mul] at step
        exact iff_of_true (by omega) (.inl lt)
      · simp [eq]
      · have step := Nat.mul_le_mul_right (256 ^ bs'.length) (Nat.succ_le_of_lt gt)
        rw [Nat.succ_mul] at step
        exact iff_of_false (by omega) (by omega)

theorem u32_lt_iff {a b : UInt32} : u32 a < u32 b ↔ a.toNat < b.toNat := by
  have small : a.toNat < 256 ^ 4 := a.toNat_lt
  have small' : b.toNat < 256 ^ 4 := b.toNat_lt
  rw [← beNat_lt_beNat_iff (by simp), u32, u32, beNat_be small, beNat_be small']

theorem u64_lt_iff {a b : UInt64} : u64 a < u64 b ↔ a.toNat < b.toNat := by
  have small : a.toNat < 256 ^ 8 := a.toNat_lt
  have small' : b.toNat < 256 ^ 8 := b.toNat_lt
  rw [← beNat_lt_beNat_iff (by simp), u64, u64, beNat_be small, beNat_be small']

theorem cons_version_lt_iff {x y : Str} : catalogVersion :: x < catalogVersion :: y ↔ x < y := by
  simp

/-- The length byte between the tag and the object ID does not change the order. -/
theorem encodeOidAliasKey_lt_iff {repo repo' : RepoId} {oid oid' : GitOid} :
    encodeOidAliasKey repo oid < encodeOidAliasKey repo' oid' ↔
      repo.bytes.toList ++ oid.algorithm.toTag :: oid.bytes <
        repo'.bytes.toList ++ oid'.algorithm.toTag :: oid'.bytes := by
  have width : repo.bytes.toList.length = repo'.bytes.toList.length := by simp
  have sized (same : oid.algorithm.toTag = oid'.algorithm.toTag) :
      UInt8.ofNat oid.bytes.length = UInt8.ofNat oid'.bytes.length := by
    have algorithms := HashAlgorithm.fromTag_toTag oid.algorithm
    rw [same, HashAlgorithm.fromTag_toTag, Option.some.injEq] at algorithms
    rw [oid.length_eq, oid'.length_eq, algorithms]
  rw [encodeOidAliasKey, encodeOidAliasKey, cons_version_lt_iff,
    ColumnStore.append_lt_append_iff width, ColumnStore.append_lt_append_iff width]
  simp only [cons_lt_cons_iff]
  by_cases same : oid.algorithm.toTag = oid'.algorithm.toTag
  · simp [same, sized same]
  · simp [same]

theorem encodeChunkKey_lt_iff {generation generation' : UInt32} {chunkId chunkId' : UInt64} :
    encodeChunkKey generation chunkId < encodeChunkKey generation' chunkId' ↔
      toLex (generation.toNat, chunkId.toNat) < toLex (generation'.toNat, chunkId'.toNat) := by
  have same : u32 generation = u32 generation' ↔ generation.toNat = generation'.toNat := by
    rw [UInt32.toNat_inj]
    exact ⟨fun h => by rw [← toU32_u32 generation, h, toU32_u32], fun h => by rw [h]⟩
  rw [encodeChunkKey, encodeChunkKey, cons_version_lt_iff, ColumnStore.append_lt_append_iff (by
    simp), u32_lt_iff, u64_lt_iff, same, Prod.Lex.toLex_lt_toLex]

end Catalog
end ReflinkForest
