import ReflinkForest.Index.RocksDbAnswers

/-! The schema check of a RocksDB catalog, which decides whether a checkpoint of it can be restored.
It decodes every entry of every family. -/
namespace ReflinkForest
open Bytes ColumnStore Catalog Except

namespace Catalog
def decodeRepositoryKey : Str → Except CatalogError RepoId :=
  decodeFixed 17 fun input => .ok ⟨sliceVec input 1 16⟩

def decodeMetaKey : Str → Except CatalogError Str := decodeOpaqueKey

def decodeWorkspaceNameKey : Str → Except CatalogError Str := decodeOpaqueKey

def decodeJobKey : Str → Except CatalogError Str := decodeOpaqueKey

theorem decode_encodeRepositoryKey (id : RepoId) :
    decodeRepositoryKey (encodeRepositoryKey id) = .ok id := by
  rw [decodeRepositoryKey, encodeRepositoryKey, decodeFixed_encoded (by simp), sliceVec_cons]
end Catalog

namespace RocksDbCatalog
def validateEntries (c : RocksDbCatalog) (family : ColumnFamily)
    (validate : Str → Str → Except CatalogError Unit) : Except CatalogError Unit :=
  (c.db.iterator family).forM fun e => validate e.1 e.2

/-- The check of most families: the key decodes and then the value. -/
def decodes {α β : Type} (decodeKey : Str → Except CatalogError α)
    (decodeValue : Str → Except CatalogError β) (key value : Str) : Except CatalogError Unit := do
  let _ ← decodeKey key
  let _ ← decodeValue value
  .ok ()

def validatePin (key value : Str) : Except CatalogError Unit :=
  if key.length = 17 then decodes decodeWorkspacePinKey decodeWorkspacePinValue key value
  else if key.length = 18 then decodes decodeGcPinKey decodeGcPinValue key value
  else .error .invalidEncoding

/-- Two metadata keys have values of their own. -/
def validateMeta (key value : Str) : Except CatalogError Unit := do
  let key ← decodeMetaKey key
  if key = currentGenerationMetaKey then
    let _ ← decodeCurrentGenerationValue value
  else if key = objectLocationRebuildMetaKey then
    let _ ← decodeObjectLocationRebuildMarker value
  else
    let _ ← decodeOpaqueValue value
  .ok ()

def validate (c : RocksDbCatalog) : Except CatalogError Unit := do
  c.validateEntries .objectLocations (decodes decodeObjectLocationKey decodeObjectLocationValue)
  c.validateEntries .oidAliases (decodes decodeOidAliasKey decodeContentIdValue)
  c.validateEntries .repositories (decodes decodeRepositoryKey decodeOpaqueValue)
  c.validateEntries .repoSnapshots
    (decodes decodeRepositorySnapshotKey decodeSnapshotVisibilityValue)
  c.validateEntries .refs (decodes decodeOpaqueKey decodeOpaqueValue)
  c.validateEntries .chunks (decodes decodeChunkKey decodeChunkValue)
  c.validateEntries .cacheObjects (decodes decodeOpaqueKey decodeOpaqueValue)
  c.validateEntries .workspaces (decodes decodeWorkspaceKey decodeOpaqueValue)
  c.validateEntries .workspaceNames (decodes decodeWorkspaceNameKey decodeWorkspaceIdValue)
  c.validateEntries .pins validatePin
  c.validateEntries .jobs (decodes decodeJobKey decodeOpaqueValue)
  c.validateEntries .metas validateMeta
end RocksDbCatalog

section Validate
variable {rocks : RocksDbCatalog} {mem : InMemoryCatalog}

open RocksDbCatalog

variable {K V : Type} {family : ColumnFamily} {validate : Str → Str → Except CatalogError Unit}

variable {key : K → Str} {value : V → Str} {view : K → Option V}

theorem validateEntries_stored (stores : Stores key value view (rocks.db.families family)) :
    rocks.validateEntries family validate = .ok () ↔
      ∀ k v, view k = some v → validate (key k) (value v) = .ok () := by
  rw [validateEntries, forM_eq_ok_iff, Database.iterator]
  constructor
  · intro valid k v viewed
    exact valid (key k, value v) (stores.mem_sortedBy_iff.mpr ⟨k, v, viewed, rfl⟩)
  · intro valid e mem
    obtain ⟨k, v, viewed, rfl⟩ := stores.mem_sortedBy_iff.mp mem
    exact valid k v viewed

theorem validateEntries_decodes {α β : Type} {decodeKey : Str → Except CatalogError α}
    {decodeValue : Str → Except CatalogError β} {readKey : K → α} {readValue : V → β}
    (stores : Stores key value view (rocks.db.families family))
    (keys : ∀ k, decodeKey (key k) = .ok (readKey k))
    (values : ∀ v, decodeValue (value v) = .ok (readValue v)) :
    rocks.validateEntries family (decodes decodeKey decodeValue) = .ok () := by
  refine (validateEntries_stored stores).mpr fun k v _ => ?_
  rw [decodes, keys, ok_bind, values, ok_bind]

theorem validateEntries_empty (empty : rocks.db.families family = ∅) :
    rocks.validateEntries family validate = .ok () := by
  rw [validateEntries, Database.iterator, empty]
  rfl

theorem validatePin_stored (k : WorkspaceId ⊕ GcPinId) (generation : UInt32) :
    validatePin (pinKey k) (encodeWorkspacePinValue generation) = .ok () := by
  cases k with
  | inl id =>
    have size : (encodeWorkspacePinKey id).length = 17 := by
      simp [encodeWorkspacePinKey, encodeWorkspaceKey]
    rw [pinKey, Sum.elim_inl, validatePin, if_pos size, decodes, decodeWorkspacePinKey,
      encodeWorkspacePinKey, decode_encodeWorkspaceKey, ok_bind, decodeWorkspacePinValue,
      encodeWorkspacePinValue, decode_encodeCurrentGenerationValue, ok_bind]
  | inr id =>
    have size : (encodeGcPinKey id).length = 18 := by simp [encodeGcPinKey]
    have other : (encodeGcPinKey id).length ≠ 17 := by omega
    rw [pinKey, Sum.elim_inr, validatePin, if_neg other, if_pos size, decodes,
      decode_encodeGcPinKey, ok_bind, decodeGcPinValue, decodeWorkspacePinValue,
      encodeWorkspacePinValue, decode_encodeCurrentGenerationValue, ok_bind]

theorem decodeCurrentGenerationValue_opaque (value : Str) :
    (∃ generation, decodeCurrentGenerationValue (encodeOpaqueValue value) = .ok generation) ↔
      value.length = 4 := by
  rw [decodeCurrentGenerationValue, decodeFixed, encodeOpaqueValue, encodeOpaqueKey]
  simp [byteAt, Catalog.checkVersion, bind_eq_ok_iff]

/-- A metadata record is refused exactly if it is a generation of another size than four bytes. -/
theorem validateMeta_stored {key value : Str} (viewed : metaView mem key = some value) :
    validateMeta (encodeMetaKey key) (encodeOpaqueValue value) = .ok () ↔
      (key = currentGenerationMetaKey → value.length = 4) := by
  have decoded : decodeMetaKey (encodeMetaKey key) = .ok key := rfl
  rw [validateMeta, decoded, ok_bind, ← decodeCurrentGenerationValue_opaque]
  by_cases generation : key = currentGenerationMetaKey
  · rw [if_pos generation]
    simp [generation, bind_eq_ok_iff]
  · rw [if_neg generation]
    refine iff_of_true ?_ fun same => absurd same generation
    by_cases marker : key = objectLocationRebuildMetaKey
    · rw [metaView, if_pos marker] at viewed
      split_ifs at viewed
      obtain rfl := Option.some.inj viewed
      rw [if_pos marker]
      rfl
    · rw [if_neg marker]
      rfl

theorem metaView_currentGeneration (mem : InMemoryCatalog) :
    metaView mem currentGenerationMetaKey = mem.metaValue currentGenerationMetaKey :=
  if_neg (by decide)

theorem Refines.validate_iff (refines : Refines rocks mem) :
    rocks.validate = .ok () ↔
      ∀ value, mem.metaValue currentGenerationMetaKey = some value → value.length = 4 := by
  have locations := validateEntries_decodes (refines.held .objectLocations)
    decode_encodeObjectLocationKey decode_encodeObjectLocationValue
  have aliases := validateEntries_decodes (refines.held .oidAliases)
    (fun k => decode_encodeOidAliasKey k.1 k.2) decode_encodeContentIdValue
  have repositories := validateEntries_decodes (refines.held .repositories)
    decode_encodeRepositoryKey decode_encodeOpaqueValue
  have snapshots := validateEntries_decodes (refines.held .repoSnapshots)
    (fun k => decode_encodeRepositorySnapshotKey k.1 k.2) decode_encodeSnapshotVisibilityValue
  have chunks := validateEntries_decodes (refines.held .chunks)
    (fun k => decode_encodeChunkKey k.1 k.2) decode_encodeChunkValue
  have workspaces := validateEntries_decodes (refines.held .workspaces)
    decode_encodeWorkspaceKey decode_encodeOpaqueValue
  have opaqueKey (key : Str) : decodeOpaqueKey (encodeOpaqueKey key) = .ok key := rfl
  have names := validateEntries_decodes (refines.held .workspaceNames) opaqueKey
    decode_encodeWorkspaceKey
  have jobs := validateEntries_decodes (refines.held .jobs) opaqueKey decode_encodeOpaqueValue
  have pins := (validateEntries_stored (refines.held .pins)).mpr fun k v _ => validatePin_stored k v
  have metas : rocks.validateEntries .metas validateMeta = .ok () ↔ _ :=
    validateEntries_stored (refines.held .metas)
  unfold validate
  simp only [decodeWorkspaceNameKey, decodeWorkspaceIdValue, decodeJobKey, locations, aliases,
    repositories, snapshots, chunks, workspaces, names, jobs, pins, ok_bind,
    validateEntries_empty (refines.held .refs), validateEntries_empty (refines.held .cacheObjects)]
  rw [metas, ← metaView_currentGeneration]
  constructor
  · intro valid value viewed
    exact (validateMeta_stored viewed).mp (valid _ _ viewed) rfl
  · intro sized key value viewed
    refine (validateMeta_stored viewed).mpr fun same => ?_
    rw [same] at viewed
    exact sized value viewed
end Validate

/-- A catalog that was reached from an empty one passes its schema check exactly if the current
generation, when it is set, has four bytes. -/
theorem validate_reachable_iff (calls : List CatalogCall) :
    (Simulation.run RocksDbCatalog.call {} calls).1.validate = .ok () ↔
      ∀ value, (Simulation.run RocksDbCatalog.call {} calls).1.metaValue currentGenerationMetaKey =
        some value → value.length = 4 := by
  obtain ⟨_, refines⟩ := refines_run calls
  rw [refines.validate_iff, refines.metaValue]

/-- `put_meta` takes any value for the current generation. -/
theorem emptyGeneration_not_valid :
    ¬ ∀ calls : List CatalogCall,
      (Simulation.run RocksDbCatalog.call {} calls).1.validate = .ok () := by
  intro valid
  have checked := valid [.apply [.putMeta currentGenerationMetaKey []]]
  obtain ⟨_, refines⟩ := refines_run [.apply [.putMeta currentGenerationMetaKey []]]
  have size := refines.validate_iff.mp checked [] (by decide)
  exact absurd size (by decide)

end ReflinkForest
