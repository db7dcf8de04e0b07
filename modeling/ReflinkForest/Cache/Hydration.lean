import ReflinkForest.Lib.Interaction
import ReflinkForest.Lib.PathTree
import ReflinkForest.Store.ChunkStore

/-! The blob cache, and filling it from cold records. The closure that does so is a program over the
file system at the cache path; an entry is handed out only after its bytes were hashed again. -/
namespace ReflinkForest
open Bytes Interaction ContentId
open Except hiding error

/-- What stands at the cache path of a content ID: a regular file or something else. -/
inductive CacheEntry where
  | file (bytes : Str)
  | irregular
  deriving DecidableEq

abbrev Cache := FinMap ContentId CacheEntry

inductive CacheError where
  | contentMismatch (expected actual : ContentId)
  | unsafeEntry (id : ContentId)
  | notCached (id : ContentId)
  | io (error : PathTree.Error)
  deriving DecidableEq

inductive HydrationError where
  | cache (error : CacheError)
  | store (error : StoreError)
  | missingLocation (id : ContentId)
  | notBlob (kind : ObjectKind)
  | rawLengthMismatch (expected actual : ℕ)
  | contentMismatch (expected actual : ContentId)
  deriving DecidableEq

section Cache
variable (P : Primitives)

namespace Cache
/-- `verified_path` and `open_verified_blob`: the bytes of an entry that still hashes to `id`. -/
def verifiedBlob (cache : Cache) (id : ContentId) : Except CacheError Str :=
  match cache.lookup id with
  | none => .error (.notCached id)
  | some .irregular => .error (.unsafeEntry id)
  | some (.file bytes) => do
    .require (ContentId.forObject P .blob bytes = id)
      (.contentMismatch id (ContentId.forObject P .blob bytes))
    .ok bytes
end Cache

def validateBlobLocation (location : ObjectLocation) : Except HydrationError Unit :=
  .require (location.kind = .blob) (.notBlob location.kind)

/-- Decodes a record while hashing the bytes that come out. -/
def streamBlobIntoCache (chunk : Option Str) (location : ObjectLocation) (expectedId : ContentId) :
    Except HydrationError (ContentId × Str) := do
  let file ← .ofOption (.store (.io .notFound)) chunk
  let (metadata, bytes) ← .mapErr .store (streamDecodedRecordAt P file location)
  let actual := contentHash P .blob location.rawLength.toNat bytes
  .require (metadata.kind = .blob) (.notBlob metadata.kind)
  .require (metadata.rawLength.toNat = bytes.length)
    (.rawLengthMismatch metadata.rawLength.toNat bytes.length)
  .require (actual = expectedId ∧ metadata.contentId = expectedId)
    (.contentMismatch expectedId actual)
  .ok (actual, bytes)
end Cache

section Programs
inductive EntryStatus where
  | missing | valid | invalid

/-- Where an entry is read: at the cache path, or where the caller moved it. -/
inductive EntryPlace where
  | destination
  | quarantined (entry : CacheEntry)

/-- Operations on files and directories that no other caller looks at. -/
inductive ScratchStep where
  | removeQuarantined | createParent | createTemporary | sealTemporary | removeTemporary |
    syncParent

inductive CacheEffect where
  | readEntry (place : EntryPlace)
  | moveToQuarantine
  | restoreQuarantined (entry : CacheEntry)
  | objectLocation
  | destinationExists
  | streamBlobIntoCache (location : ObjectLocation)
  | hardLink (bytes : Str)
  | scratch (step : ScratchStep)

abbrev CacheEffect.Answer : CacheEffect → Type
  | .readEntry _ => Except CacheError Str
  | .moveToQuarantine => Except PathTree.Error (Option CacheEntry)
  | .restoreQuarantined _ => Except PathTree.Error Unit
  | .objectLocation => Option ObjectLocation
  | .destinationExists => Bool
  | .streamBlobIntoCache _ => Except HydrationError (ContentId × Str)
  | .hardLink _ => Except PathTree.Error Unit
  | .scratch _ => Except PathTree.Error Unit

/-- The cache, and whether one of the closures has linked the blob into it. -/
structure HydrationWorld where
  cache : Cache
  published : Bool

abbrev Hydrator := Program CacheEffect CacheEffect.Answer HydrationError

variable (P : Primitives) (id : ContentId)

namespace HydrationWorld
def entryAt (w : HydrationWorld) : EntryPlace → Option CacheEntry
  | .destination => w.cache.lookup id
  | .quarantined entry => some entry

/-- What `read_entry` makes of the file it finds. -/
def readAnswer : Option CacheEntry → Except CacheError Str
  | none => .error (.notCached id)
  | some .irregular => .error (.unsafeEntry id)
  | some (.file bytes) => .ok bytes

/-- The answers when nothing fails and there is no other caller. -/
def alone (catalog : InMemoryCatalog) (chunk : Option Str) (w : HydrationWorld) :
    (effect : CacheEffect) → effect.Answer × HydrationWorld
  | .readEntry place => (readAnswer id (w.entryAt id place), w)
  | .moveToQuarantine =>
    if id ∈ w.cache then (.ok (w.cache.lookup id), { w with cache := w.cache.erase id })
    else (.ok none, w)
  | .restoreQuarantined _ => (.ok (), w)
  | .objectLocation => (catalog.objectLocation id, w)
  | .destinationExists => (decide (id ∈ w.cache), w)
  | .streamBlobIntoCache location => (streamBlobIntoCache P chunk location id, w)
  | .hardLink bytes =>
    if id ∈ w.cache then (.error .alreadyExists, w)
    else (.ok (), ⟨w.cache.insert id (.file bytes), true⟩)
  | .scratch _ => (.ok (), w)
end HydrationWorld

namespace Hydrator
def io {α : Type} (answer : Except PathTree.Error α) : Hydrator α :=
  Program.ofExcept (Except.mapErr (fun error => .cache (.io error)) answer)

def scratch (step : ScratchStep) : Hydrator Unit := do
  let answer ← Program.send (CacheEffect.scratch step)
  io answer

def readEntry (place : EntryPlace) : Hydrator Str := do
  let answer ← Program.send (CacheEffect.readEntry place)
  Program.ofExcept (Except.mapErr .cache answer)

def verifiedPath : Hydrator ContentId := do
  let bytes ← readEntry .destination
  Program.ofExcept do
    .require (ContentId.forObject P .blob bytes = id)
      (.cache (.contentMismatch id (ContentId.forObject P .blob bytes)))
    .ok id

/-- How `entry_status` judges what it read. -/
def judge : Except HydrationError Str → Except HydrationError EntryStatus
  | .ok bytes => .ok (if ContentId.forObject P .blob bytes = id then .valid else .invalid)
  | .error (.cache (.unsafeEntry _)) => .ok .invalid
  | .error (.cache (.contentMismatch _ _)) => .ok .invalid
  | .error (.cache (.notCached _)) => .ok .missing
  | .error error => .error error

def entryStatus (place : EntryPlace) : Hydrator EntryStatus := do
  let result ← (readEntry place).attempt
  Program.ofExcept (judge P id result)

def moveToQuarantine : Hydrator (Option CacheEntry) := do
  let answer ← Program.send CacheEffect.moveToQuarantine
  io answer

def restoreQuarantined (entry : CacheEntry) : Hydrator Unit := do
  let answer ← Program.send (CacheEffect.restoreQuarantined entry)
  io answer

def discardInvalidBlob : Hydrator Bool := do
  match ← entryStatus P id .destination with
  | .missing => pure false
  | .valid => pure false
  | .invalid =>
    match ← moveToQuarantine with
    | none => pure false
    | some quarantined =>
      match ← entryStatus P id (.quarantined quarantined) with
      | .valid => do
        restoreQuarantined quarantined
        pure false
      | _ => do
        scratch .removeQuarantined
        pure true

def streamBlob (location : ObjectLocation) : Hydrator (ContentId × Str) := do
  let answer ← Program.send (CacheEffect.streamBlobIntoCache location)
  Program.ofExcept answer

def hardLink (bytes : Str) : Hydrator (Except PathTree.Error Unit) :=
  Program.send (CacheEffect.hardLink bytes)

def linkStreamed (streamed : ContentId × Str) : Hydrator Unit := do
  Program.ofExcept (Except.require (streamed.1 = id) (.contentMismatch id streamed.1))
  scratch .sealTemporary
  match ← hardLink streamed.2 with
  | .ok () => do
    scratch .removeTemporary
    scratch .syncParent
  | .error .alreadyExists => scratch .removeTemporary
  | .error error => .fail (.cache (.io error))

/-- The part of the publication that leaves a temporary file behind when it fails. -/
def linkTemporary (location : ObjectLocation) : Hydrator Unit := do
  scratch .createTemporary
  let streamed ← streamBlob location
  linkStreamed id streamed

def destinationExists : Hydrator Bool := Program.send CacheEffect.destinationExists

def publishBlobStreamed (location : ObjectLocation) : Hydrator ContentId := do
  match ← destinationExists with
  | true => verifiedPath P id
  | false => do
    scratch .createParent
    match ← (linkTemporary id location).attempt with
    | .ok () => verifiedPath P id
    | .error error => do
      let _ ← (scratch .removeTemporary).attempt
      .fail error

def objectLocation : Hydrator ObjectLocation := do
  let answer ← Program.send CacheEffect.objectLocation
  Program.ofExcept (Except.ofOption (.missingLocation id) answer)

/-- Publish, and once more when the first attempt met a corrupt entry. -/
def publishFrom (location : ObjectLocation) : Hydrator ContentId := do
  match ← (publishBlobStreamed P id location).attempt with
  | .ok path => pure path
  | .error (.cache (.contentMismatch _ _)) => do
    let _ ← discardInvalidBlob P id
    publishBlobStreamed P id location
  | .error (.cache (.unsafeEntry _)) => do
    let _ ← discardInvalidBlob P id
    publishBlobStreamed P id location
  | .error error => .fail error

def publishLocated : Hydrator ContentId := do
  let location ← objectLocation id
  Program.ofExcept (validateBlobLocation location)
  publishFrom P id location

/-- The hydration closure. -/
def hydrateBlobFromChunkInner : Hydrator ContentId := do
  match ← (verifiedPath P id).attempt with
  | .ok path => pure path
  | .error (.cache (.notCached _)) => publishLocated P id
  | .error (.cache (.contentMismatch _ _)) => do
    let _ ← discardInvalidBlob P id
    publishLocated P id
  | .error (.cache (.unsafeEntry _)) => do
    let _ ← discardInvalidBlob P id
    publishLocated P id
  | .error error => .fail error

/-- What the loop of `singleflight_hydrate` makes of its check: return, or go on. -/
def checked : Except HydrationError ContentId → Option (Except HydrationError ContentId)
  | .ok path => some (.ok path)
  | .error (.cache (.notCached _)) => none
  | .error (.cache (.contentMismatch _ _)) => none
  | .error (.cache (.unsafeEntry _)) => none
  | .error error => some (.error error)
end Hydrator

/-- A single caller: the flight is always its own. -/
def hydrateBlobFromChunk (cache : Cache) (catalog : InMemoryCatalog) (id : ContentId)
    (chunk : Option Str) : Cache × Except HydrationError Unit :=
  let handle := HydrationWorld.alone P id catalog chunk
  match (Hydrator.verifiedPath P id).exec handle ⟨cache, false⟩ with
  | (looked, w) =>
    match Hydrator.checked looked with
    | some result => (w.cache, result.map fun _ => ())
    | none =>
      match (Hydrator.hydrateBlobFromChunkInner P id).exec handle w with
      | (result, w) => (w.cache, result.map fun _ => ())
end Programs

section Lemmas
variable {P : Primitives} {cache cache' : Cache} {id : ContentId} {bytes data : Str}
  {catalog : InMemoryCatalog} {chunks : ChunkStore} {location : ObjectLocation}
  {record : ObjectRecord}

theorem Cache.verifiedBlob_eq_ok_iff : cache.verifiedBlob P id = .ok bytes ↔
    cache.lookup id = some (.file bytes) ∧ forObject P .blob bytes = id := by
  unfold Cache.verifiedBlob
  split
  · simp_all
  · simp_all
  · rename_i found
    simp only [found, bind_eq_ok_iff, exists_require, ok.injEq,
      Option.some.injEq, CacheEntry.file.injEq]
    constructor
    · rintro ⟨same, rfl⟩
      exact ⟨rfl, same⟩
    · rintro ⟨rfl, same⟩
      exact ⟨same, rfl⟩

theorem Cache.verifiedBlob_eq_error {e : CacheError} (h : cache.verifiedBlob P id = .error e) :
    (e = .notCached id ∧ cache.lookup id = none) ∨ ∃ entry, cache.lookup id = some entry ∧
      (e = .unsafeEntry id ∨ ∃ actual, e = .contentMismatch id actual) := by
  unfold Cache.verifiedBlob at h
  split at h
  · rename_i absent
    cases h
    exact .inl ⟨rfl, absent⟩
  · rename_i found
    cases h
    exact .inr ⟨_, found, .inl rfl⟩
  · rename_i found
    obtain ⟨_, rfl⟩ | ⟨_, _, ⟨⟩⟩ := (bind_eq_error_iff.mp h).imp_left require_eq_error.mp
    exact .inr ⟨_, found, .inr ⟨_, rfl⟩⟩

theorem streamBlobIntoCache_stored (stored : Stored P chunks location record)
    (kind : record.kind = .blob) (same : record.contentId = id)
    (decoded : decodeObjectPayload P record = .ok data) :
    streamBlobIntoCache P (chunks.lookup (location.generation, location.chunkId)) location id =
      .ok (id, data) := by
  obtain ⟨file, header, offset, found, held, rfl⟩ := stored.held
  obtain ⟨_, length, hashed⟩ := decodeObjectPayload_eq_ok_iff.mp decoded
  have rawLength : (record.locationAt header offset).rawLength = record.rawLength := rfl
  have content : contentHash P .blob record.rawLength.toNat data = id := by
    rw [← length, contentHash_length, ← kind, hashed, same]
  simp only [streamBlobIntoCache, found, ofOption_some, ok_bind,
    held.streamDecodedRecordAt decoded, mapErr_ok, rawLength, content]
  simp [ObjectRecord.metadata, kind, length, same, require_pos trivial]

/-- What a successful hydration leaves: a verified entry, old or new, and the rest as it was. -/
structure Hydrated (P : Primitives) (cache cache' : Cache) (id : ContentId) (data : Str) :
    Prop where
  verified : ∃ bytes, cache'.verifiedBlob P id = .ok bytes
  entry : cache'.lookup id = cache.lookup id ∨ cache'.lookup id = some (.file data)
  others : ∀ other, other ≠ id → cache'.lookup other = cache.lookup other

namespace Hydrator
variable {chunk : Option Str} {w : HydrationWorld}

open HydrationWorld Program

theorem exec_scratch (step : ScratchStep) :
    (scratch step).exec (alone P id catalog chunk) w = (.ok (), w) := rfl

theorem exec_readEntry (place : EntryPlace) :
    (readEntry place).exec (alone P id catalog chunk) w =
      (Except.mapErr .cache (readAnswer id (w.entryAt id place)), w) := by
  simp only [readEntry, exec_bind, exec_send, exec_ofExcept]
  rfl

theorem exec_verifiedPath : (verifiedPath P id).exec (alone P id catalog chunk) w =
    ((Except.mapErr .cache (w.cache.verifiedBlob P id)).map fun _ => id, w) := by
  simp only [verifiedPath, exec_bind, exec_readEntry, exec_ofExcept, entryAt, Cache.verifiedBlob]
  rcases w.cache.lookup id with _ | bytes | _
  · rfl
  · by_cases hashed : forObject P .blob bytes = id
    · simp only [readAnswer, mapErr_ok, require_pos hashed]
      rfl
    · simp only [readAnswer, mapErr_ok, require_neg hashed]
      rfl
  · rfl

variable {entry : CacheEntry} {e : CacheError}

theorem exec_entryStatus (found : w.cache.lookup id = some entry)
    (invalid : w.cache.verifiedBlob P id = .error e) {w' : HydrationWorld} (place : EntryPlace)
    (here : w'.entryAt id place = some entry) :
    (entryStatus P id place).exec (alone P id catalog chunk) w' = (.ok .invalid, w') := by
  simp only [entryStatus, exec_bind, exec_attempt, exec_readEntry, exec_ofExcept, here]
  rcases entry with bytes | _
  · have other : forObject P .blob bytes ≠ id := by
      intro hashed
      rw [Cache.verifiedBlob_eq_ok_iff.mpr ⟨found, hashed⟩] at invalid
      cases invalid
    simp only [readAnswer, mapErr_ok, judge, if_neg other]
  · rfl

theorem exec_discardInvalidBlob (found : w.cache.lookup id = some entry)
    (invalid : w.cache.verifiedBlob P id = .error e) :
    (discardInvalidBlob P id).exec (alone P id catalog chunk) w =
      (.ok true, { w with cache := w.cache.erase id }) := by
  have present : id ∈ w.cache := by rw [← AList.lookup_isSome, found]; rfl
  have moved : moveToQuarantine.exec (alone P id catalog chunk) w =
      (.ok (some entry), { w with cache := w.cache.erase id }) := by
    simp only [moveToQuarantine, io, exec_bind, exec_send, exec_ofExcept, alone, if_pos present,
      found, mapErr_ok]
  simp only [discardInvalidBlob, exec_bind, exec_entryStatus found invalid .destination found,
    moved, exec_entryStatus found invalid (.quarantined entry) rfl, exec_scratch]
  rfl

theorem exec_publishBlobStreamed (absent : w.cache.lookup id = none)
    (streamed : streamBlobIntoCache P chunk location id = .ok (id, data))
    (hashed : forObject P .blob data = id) :
    (publishBlobStreamed P id location).exec (alone P id catalog chunk) w =
      (.ok id, ⟨w.cache.insert id (.file data), true⟩) := by
  have missing : id ∉ w.cache := AList.lookup_eq_none.mp absent
  have verified : Cache.verifiedBlob P (w.cache.insert id (.file data)) id = .ok data :=
    Cache.verifiedBlob_eq_ok_iff.mpr ⟨AList.lookup_insert _, hashed⟩
  have linked : (linkTemporary id location).exec (alone P id catalog chunk) w =
      (.ok (), ⟨w.cache.insert id (.file data), true⟩) := by
    simp only [linkTemporary, streamBlob, linkStreamed, hardLink, exec_bind, exec_send,
      exec_ofExcept, exec_scratch, alone, streamed, require_pos trivial, if_neg missing]
  simp only [publishBlobStreamed, destinationExists, exec_bind, exec_send, alone, missing,
    decide_false, exec_scratch, exec_attempt, linked, exec_verifiedPath, verified]
  rfl

/-- The closure fills a path where nothing valid stands. -/
theorem exec_publishLocated (absent : w.cache.lookup id = none)
    (located : catalog.objectLocation id = some location) (blob : location.kind = .blob)
    (streamed : streamBlobIntoCache P chunk location id = .ok (id, data))
    (hashed : forObject P .blob data = id) :
    (publishLocated P id).exec (alone P id catalog chunk) w =
      (.ok id, ⟨w.cache.insert id (.file data), true⟩) := by
  simp only [publishLocated, objectLocation, exec_bind, exec_send, exec_ofExcept, alone, located,
    ofOption_some, validateBlobLocation, require_pos blob, publishFrom, exec_attempt,
    exec_publishBlobStreamed absent streamed hashed]
  rfl

/-- The closure meets nothing valid and leaves the blob. -/
theorem exec_hydrateBlobFromChunkInner (invalid : w.cache.verifiedBlob P id = .error e)
    (located : catalog.objectLocation id = some location) (blob : location.kind = .blob)
    (streamed : streamBlobIntoCache P chunk location id = .ok (id, data))
    (hashed : forObject P .blob data = id) :
    checked ((Except.mapErr .cache (w.cache.verifiedBlob P id)).map fun _ => id) = none ∧
    ∃ cache', (hydrateBlobFromChunkInner P id).exec (alone P id catalog chunk) w =
        (.ok id, ⟨cache', true⟩) ∧
      ∀ other, cache'.lookup other =
        if other = id then some (.file data) else w.cache.lookup other := by
  simp only [hydrateBlobFromChunkInner, exec_bind, exec_attempt, exec_verifiedPath]
  obtain ⟨rfl, absent⟩ | ⟨entry, found, reason⟩ := Cache.verifiedBlob_eq_error invalid
  · rw [invalid]
    have done := exec_publishLocated absent located blob streamed hashed
    exact ⟨rfl, _, done, fun _ => FinMap.lookup_insert_eq ..⟩
  · have refilled : (discardInvalidBlob P id >>= fun _ => publishLocated P id).exec
        (alone P id catalog chunk) w =
          (.ok id, ⟨(w.cache.erase id).insert id (.file data), true⟩) := by
      rw [exec_bind, exec_discardInvalidBlob found invalid]
      exact exec_publishLocated (AList.lookup_erase _ _) located blob streamed hashed
    have lookup (other : ContentId) :
        AList.lookup other ((w.cache.erase id).insert id (.file data)) =
          if other = id then some (.file data) else w.cache.lookup other := by
      rw [FinMap.lookup_insert_eq, FinMap.lookup_erase_eq]
      split_ifs <;> rfl
    rw [invalid]
    obtain rfl | ⟨_, rfl⟩ := reason
    · exact ⟨rfl, _, refilled, lookup⟩
    · exact ⟨rfl, _, refilled, lookup⟩
end Hydrator

variable (cache) in
theorem hydrateBlobFromChunk_stored (located : catalog.objectLocation id = some location)
    (stored : Stored P chunks location record) (kind : record.kind = .blob)
    (same : record.contentId = id) (decoded : decodeObjectPayload P record = .ok data) :
    ∃ cache', hydrateBlobFromChunk P cache catalog id
      (chunks.lookup (location.generation, location.chunkId)) = (cache', .ok ()) ∧
        Hydrated P cache cache' id data := by
  have hashed : forObject P .blob data = id := by
    rw [← kind, (decodeObjectPayload_eq_ok_iff.mp decoded).2.2, same]
  have blob : location.kind = .blob := by
    obtain ⟨_, header, offset, _, _, rfl⟩ := stored.held
    exact kind
  have streamed := streamBlobIntoCache_stored stored kind same decoded
  cases verified : cache.verifiedBlob P id with
  | ok bytes =>
    refine ⟨cache, ?_, ⟨_, verified⟩, .inl rfl, fun _ _ => rfl⟩
    simp only [hydrateBlobFromChunk, Hydrator.exec_verifiedPath, verified]
    rfl
  | error e =>
    obtain ⟨goesOn, cache', done, lookup⟩ := Hydrator.exec_hydrateBlobFromChunkInner
      (w := ⟨cache, false⟩) verified located blob streamed hashed
    refine ⟨cache', ?_, ⟨data, ?_⟩, .inr ?_, ?_⟩
    · simp only [hydrateBlobFromChunk, Hydrator.exec_verifiedPath, goesOn, done]
      rfl
    · exact Cache.verifiedBlob_eq_ok_iff.mpr ⟨by rw [lookup, if_pos rfl], hashed⟩
    · rw [lookup, if_pos rfl]
    · intro other different
      rw [lookup, if_neg different]
end Lemmas
end ReflinkForest
