import ReflinkForest.Core.Reference
import ReflinkForest.Format.Payload
import ReflinkForest.Import.SnapshotManifest
import ReflinkForest.Lib.Worklist

/-! The mark phase of garbage collection: a walk from the refs of ready snapshots and the retained
references. -/
namespace ReflinkForest
open Bytes Worklist Except List

structure RetainedObjectRef where
  repository : RepoId
  oid : GitOid
  deriving DecidableEq

/-- Objects with the places of their records. -/
abbrev LiveObjects := List (ContentId × ObjectLocation)

structure MarkLimits where
  maxSnapshotRoots : ℕ := 4096
  maxObjectReferences : ℕ := 16 * 1024 * 1024
  maxObjects : ℕ := 8 * 1024 * 1024

/-- Errors that the source renders as text keep their cause. -/
inductive MarkError where
  | noCurrentGeneration
  | tooManySnapshotRoots (limit : ℕ)
  | tooManyObjectReferences (limit : ℕ)
  | tooManyObjects (limit : ℕ)
  | manifest (error : String ⊕ SnapshotManifestError)
  | manifestIdentity (expectedRepository : RepoId) (expectedSnapshot : SnapshotId)
      (actualRepository : RepoId) (actualSnapshot : SnapshotId)
  | missingAlias (repository : RepoId) (oid : GitOid)
  | missingLocation (id : ContentId)
  | locationOutsideCurrentGeneration (id : ContentId) (expected actual : UInt32)
  | read (error : String ⊕ CodecError)
  | rawLengthMismatch (id : ContentId) (expected actual : ℕ)
  | recordContentIdMismatch (expected actual : ContentId)
  | payloadContentIdMismatch (id : ContentId)
  | nativeOidMismatch (expected actual : GitOid)
  | invalidGitObject (error : GitBackendError)
  deriving DecidableEq

abbrev ManifestSource := RepoId → SnapshotId → Except String SnapshotManifest

abbrev CompactionReader := ContentId → ObjectLocation → Except String ObjectRecord

structure MarkWalk where
  limits : MarkLimits
  referencesQueued : ℕ := 0
  pending : List RetainedObjectRef := []
  visitedReferences : List RetainedObjectRef := []
  locations : FinMap ContentId ObjectLocation := ∅

namespace MarkWalk
def queue (walk : MarkWalk) (reference : RetainedObjectRef) : Except MarkError MarkWalk := do
  .require (walk.referencesQueued + 1 ≤ walk.limits.maxObjectReferences)
    (.tooManyObjectReferences walk.limits.maxObjectReferences)
  .ok { walk with
    referencesQueued := walk.referencesQueued + 1
    pending := walk.pending ++ [reference] }

def queueAll (walk : MarkWalk) (references : List RetainedObjectRef) :
    Except MarkError MarkWalk :=
  references.foldlM queue walk

/-- `true` when the content was not located before. -/
def insertLocation (walk : MarkWalk) (id : ContentId) (location : ObjectLocation) :
    Except MarkError (MarkWalk × Bool) :=
  if id ∈ walk.locations then
    .ok (walk, false)
  else do
    .require (walk.locations.keys.length < walk.limits.maxObjects)
      (.tooManyObjects walk.limits.maxObjects)
    .ok ({ walk with locations := walk.locations.insert id location }, true)

def intoSortedLocations (walk : MarkWalk) : LiveObjects :=
  walk.locations.sortedBy fun e => e.1.key
end MarkWalk

/-- Bytes by which `retained_roots` is sorted: repository, algorithm tag, object ID. -/
def RetainedObjectRef.sortKey (reference : RetainedObjectRef) : Str :=
  reference.repository.bytes.toList ++ [reference.oid.algorithm.toTag] ++ reference.oid.bytes

def markCodecError (id : ContentId) : CodecError → MarkError
  | .rawLengthMismatch expected actual => .rawLengthMismatch id expected actual
  | .contentMismatch _ _ => .payloadContentIdMismatch id
  | other => .read (.inr other)

section Phase
variable (P : Primitives) (catalog : InMemoryCatalog) (manifests : ManifestSource)
  (reader : CompactionReader)

/-- Every check of the loop on one reference, up to its decoded object. -/
def resolveReference (currentGeneration : UInt32) (reference : RetainedObjectRef) :
    Except MarkError (ContentId × ObjectLocation × GitObject) := do
  let id ← .ofOption (.missingAlias reference.repository reference.oid)
    (catalog.oidAlias reference.repository reference.oid)
  let location ← .ofOption (.missingLocation id) (catalog.objectLocation id)
  .require (location.generation = currentGeneration)
    (.locationOutsideCurrentGeneration id currentGeneration location.generation)
  let record ← .mapErr (fun e => .read (.inl e)) (reader id location)
  .require (record.contentId = id) (.recordContentIdMismatch id record.contentId)
  let raw ← .mapErr (markCodecError id) (decodeObjectPayload P record)
  let actual := GitOid.forObject P reference.oid.algorithm record.kind raw
  .require (actual = reference.oid) (.nativeOidMismatch reference.oid actual)
  .ok (id, location, ⟨reference.oid, record.kind, raw⟩)

/-- The body of the loop for a reference taken from the queue. -/
def markReference (currentGeneration : UInt32) (walk : MarkWalk) (reference : RetainedObjectRef) :
    Except MarkError MarkWalk :=
  if reference ∈ walk.visitedReferences then
    .ok walk
  else do
    let (id, location, object) ← resolveReference P catalog reader currentGeneration reference
    let walk := { walk with visitedReferences := walk.visitedReferences ++ [reference] }
    let (walk, inserted) ← walk.insertLocation id location
    if inserted then do
      let oids ← .mapErr .invalidGitObject (referencedOids object)
      walk.queueAll (oids.map fun oid => ⟨reference.repository, oid⟩)
    else .ok walk

/-- One turn of the loop, with the queue outside the state. -/
def markVisit (currentGeneration : UInt32) (walk : MarkWalk) (reference : RetainedObjectRef) :
    Except MarkError (MarkWalk × List RetainedObjectRef) := do
  let walk ← markReference P catalog reader currentGeneration { walk with pending := [] } reference
  .ok ({ walk with pending := [] }, walk.pending)

def queueSnapshot (walk : MarkWalk) (repository : RepoId) (snapshot : SnapshotId) :
    Except MarkError MarkWalk := do
  let manifest ← .mapErr (fun e => .manifest (.inl e)) (manifests repository snapshot)
  .mapErr (fun e => .manifest (.inr e)) manifest.validate
  .require (manifest.repository = repository ∧ manifest.snapshotId = snapshot)
    (.manifestIdentity repository snapshot manifest.repository manifest.snapshotId)
  walk.queueAll (manifest.refs.map fun r => ⟨repository, r.target⟩)

/-- The ready snapshots among the roots, in the order of `gc_roots`. -/
def readySnapshots : List (RepoId × SnapshotId) :=
  catalog.gcRoots.filterMap fun
    | .repositorySnapshot repository snapshot => some (repository, snapshot)
    | _ => none

/-- The loop over the roots counts the snapshots it has seen. -/
def queueSnapshots (limits : MarkLimits) :
    ℕ → MarkWalk → List (RepoId × SnapshotId) → Except MarkError MarkWalk
  | _, walk, [] => .ok walk
  | seen, walk, (repository, snapshot) :: rest => do
    .require (seen + 1 ≤ limits.maxSnapshotRoots)
      (.tooManySnapshotRoots limits.maxSnapshotRoots)
    let walk ← queueSnapshot manifests walk repository snapshot
    queueSnapshots limits (seen + 1) walk rest

def queueRoots (retained : List RetainedObjectRef) (limits : MarkLimits) :
    Except MarkError MarkWalk := do
  let walk ← queueSnapshots manifests limits 0 { limits := limits } (readySnapshots catalog)
  .require (retained.length ≤ limits.maxObjectReferences)
    (.tooManyObjectReferences limits.maxObjectReferences)
  walk.queueAll (retained.insertionSort fun a b => a.sortKey ≤ b.sortKey)

/-- The queue never takes more than `max_object_references` entries, so that many turns are
enough. -/
def completedMarkSet (retained : List RetainedObjectRef) (limits : MarkLimits) :
    Except MarkError LiveObjects := do
  let currentGeneration ← .ofOption .noCurrentGeneration catalog.currentGeneration
  let walk ← queueRoots catalog manifests retained limits
  let walk ← (drain (markVisit P catalog reader currentGeneration) limits.maxObjectReferences
    { walk with pending := [] } walk.pending).getD (.ok walk)
  .ok walk.intoSortedLocations
end Phase

section Queue
variable {walk walk' : MarkWalk} {references : List RetainedObjectRef}

theorem MarkWalk.queueAll_eq_ok (h : walk.queueAll references = .ok walk') :
    (references ≠ [] →
        walk.referencesQueued + references.length ≤ walk.limits.maxObjectReferences) ∧
      walk' = { walk with
        referencesQueued := walk.referencesQueued + references.length
        pending := walk.pending ++ references } := by
  induction references generalizing walk with
  | nil =>
    simp only [queueAll, foldlM_nil, pure, Except.pure, ok.injEq] at h
    simp [← h]
  | cons reference references ih =>
    rw [queueAll, foldlM_cons] at h
    obtain ⟨next, queued, h⟩ := bind_eq_ok_iff.mp h
    rw [queue, require_bind_eq_ok, ok.injEq] at queued
    obtain ⟨room, rfl⟩ := queued
    obtain ⟨rest, rfl⟩ := ih h
    refine ⟨?_, by simp [Nat.add_comm, Nat.add_left_comm]⟩
    intro _
    rcases eq_or_ne references [] with rfl | more
    · simpa using room
    · have bound := rest more
      simp only [length_cons] at bound ⊢
      omega

/-- Everything that is queued before the loop starts. -/
structure MarkWalk.Fresh (limits : MarkLimits) (walk : MarkWalk) : Prop where
  limits_eq : walk.limits = limits
  unvisited : walk.visitedReferences = []
  unlocated : walk.locations = ∅
  counted : walk.referencesQueued = walk.pending.length
  bounded : walk.pending ≠ [] → walk.pending.length ≤ limits.maxObjectReferences

theorem MarkWalk.Fresh.queueAll {limits : MarkLimits} (fresh : walk.Fresh limits)
    (h : walk.queueAll references = .ok walk') :
    walk'.Fresh limits ∧ walk'.pending = walk.pending ++ references := by
  obtain ⟨room, rfl⟩ := MarkWalk.queueAll_eq_ok h
  refine ⟨⟨fresh.limits_eq, fresh.unvisited, fresh.unlocated, ?_, ?_⟩, rfl⟩
  · simp [fresh.counted]
  · intro some
    rcases eq_or_ne references [] with rfl | more
    · simpa using fresh.bounded (by simpa using some)
    · have bound := room more
      rw [fresh.limits_eq, fresh.counted] at bound
      simpa using bound
end Queue

section Roots
variable {catalog : InMemoryCatalog} {manifests : ManifestSource} {limits : MarkLimits}
  {walk walk' : MarkWalk} {repository : RepoId} {snapshot : SnapshotId}

theorem mem_readySnapshots :
    (repository, snapshot) ∈ readySnapshots catalog ↔
      catalog.repositorySnapshot repository snapshot = some .ready := by
  rw [InMemoryCatalog.repositorySnapshot]
  simp only [readySnapshots, InMemoryCatalog.gcRoots, InMemoryCatalog.repositorySnapshotList,
    filterMap_append, mem_append, mem_filterMap, mem_map, mem_filter]
  constructor
  · rintro ((⟨root, ⟨_, ⟨⟨e, mem, rfl⟩, ready⟩, rfl⟩, same⟩ | ⟨root, ⟨_, _, rfl⟩, same⟩) |
      ⟨root, ⟨_, _, rfl⟩, same⟩)
    · obtain ⟨⟨r, s⟩, v⟩ := e
      simp only [Option.some.injEq, Prod.mk.injEq, decide_eq_true_eq] at same ready
      obtain ⟨rfl, rfl⟩ := same
      exact ready ▸ FinMap.mem_sortedBy.mp mem
    · simp at same
    · simp at same
  · intro ready
    exact .inl (.inl ⟨.repositorySnapshot repository snapshot,
      ⟨⟨repository, snapshot, .ready⟩, ⟨⟨_, FinMap.mem_sortedBy.mpr ready, rfl⟩, by simp⟩, rfl⟩,
      rfl⟩)

/-- The refs that a manifest source gives for one snapshot. -/
def snapshotRefs (manifests : ManifestSource) (key : RepoId × SnapshotId) :
    List RetainedObjectRef :=
  match manifests key.1 key.2 with
  | .ok manifest => manifest.refs.map fun r => ⟨key.1, r.target⟩
  | .error _ => []

theorem queueSnapshot_eq_ok (h : queueSnapshot manifests walk repository snapshot = .ok walk') :
    walk.queueAll (snapshotRefs manifests (repository, snapshot)) = .ok walk' := by
  simp only [queueSnapshot, bind_eq_ok_iff, mapErr_eq_ok, exists_require] at h
  obtain ⟨manifest, loaded, _, _, _, queued⟩ := h
  simpa [snapshotRefs, loaded] using queued

theorem queueSnapshots_eq_ok {seen : ℕ} {snapshots : List (RepoId × SnapshotId)}
    (fresh : walk.Fresh limits)
    (h : queueSnapshots manifests limits seen walk snapshots = .ok walk') :
    walk'.Fresh limits ∧
      walk'.pending = walk.pending ++ snapshots.flatMap (snapshotRefs manifests) := by
  induction snapshots generalizing seen walk with
  | nil =>
    simp only [queueSnapshots, ok.injEq] at h
    subst h
    exact ⟨fresh, by simp⟩
  | cons head rest ih =>
    simp only [queueSnapshots, require_bind_eq_ok] at h
    obtain ⟨_, h⟩ := h
    obtain ⟨next, queued, h⟩ := bind_eq_ok_iff.mp h
    obtain ⟨fresh', pending'⟩ := fresh.queueAll (queueSnapshot_eq_ok queued)
    obtain ⟨last, pending⟩ := ih fresh' h
    exact ⟨last, by rw [pending, pending', flatMap_cons, append_assoc]⟩

variable {retained : List RetainedObjectRef}

/-- A ref of a ready snapshot, or a retained reference. -/
def IsMarkRoot (catalog : InMemoryCatalog) (manifests : ManifestSource)
    (retained : List RetainedObjectRef) (reference : RetainedObjectRef) : Prop :=
  (∃ repository snapshot, catalog.repositorySnapshot repository snapshot = some .ready ∧
    reference ∈ snapshotRefs manifests (repository, snapshot)) ∨ reference ∈ retained

theorem queueRoots_eq_ok (h : queueRoots catalog manifests retained limits = .ok walk) :
    walk.Fresh limits ∧
      ∀ reference, reference ∈ walk.pending ↔ IsMarkRoot catalog manifests retained reference := by
  simp only [queueRoots, bind_eq_ok_iff, exists_require] at h
  obtain ⟨snapshots, walked, _, queued⟩ := h
  have start : MarkWalk.Fresh limits { limits := limits } :=
    ⟨rfl, rfl, rfl, rfl, fun some => absurd rfl some⟩
  obtain ⟨fresh, pending⟩ := queueSnapshots_eq_ok start walked
  obtain ⟨fresh, pending'⟩ := fresh.queueAll queued
  refine ⟨fresh, ?_⟩
  intro reference
  rw [pending', pending, nil_append, mem_append, (perm_insertionSort _ _).mem_iff,
    mem_flatMap, IsMarkRoot]
  simp only [Prod.exists, mem_readySnapshots]
end Roots
end ReflinkForest
