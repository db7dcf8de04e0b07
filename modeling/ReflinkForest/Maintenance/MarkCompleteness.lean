import ReflinkForest.Maintenance.MarkSet

/-! What a completed mark set covers. The children of an object are queued at the first visit of its
content only. -/
namespace ReflinkForest
open Bytes Worklist Except List

variable {P : Primitives} {catalog : InMemoryCatalog} {manifests : ManifestSource}
  {reader : CompactionReader} {generation : UInt32}

/-- The record that a reference leads to, with every check of the mark phase. -/
structure Resolves (P : Primitives) (catalog : InMemoryCatalog) (reader : CompactionReader)
    (generation : UInt32) (reference : RetainedObjectRef) (id : ContentId)
    (location : ObjectLocation) (object : GitObject) : Prop where
  aliased : catalog.oidAlias reference.repository reference.oid = some id
  located : catalog.objectLocation id = some location
  current : location.generation = generation
  decoded : ∃ record, reader id location = .ok record ∧ record.contentId = id ∧
    record.kind = object.kind ∧ decodeObjectPayload P record = .ok object.data
  native : GitOid.forObject P reference.oid.algorithm object.kind object.data = reference.oid
  named : object.oid = reference.oid

section Steps
variable {reference : RetainedObjectRef} {id : ContentId} {location : ObjectLocation}
  {object : GitObject} {walk walk' : MarkWalk} {more : List RetainedObjectRef}

theorem resolveReference_eq_ok_iff :
    resolveReference P catalog reader generation reference = .ok (id, location, object) ↔
      Resolves P catalog reader generation reference id location object := by
  simp only [resolveReference, bind_eq_ok_iff, ofOption_eq_ok, mapErr_eq_ok,
    exists_require, ok.injEq, Prod.mk.injEq]
  constructor
  · rintro ⟨_, aliased, _, located, current, record, read, same, raw, decoded, native, rfl, rfl,
      rfl⟩
    exact ⟨aliased, located, current, ⟨record, read, same, rfl, decoded⟩, native, rfl⟩
  · intro r
    obtain ⟨record, read, same, kind, decoded⟩ := r.decoded
    refine ⟨id, r.aliased, location, r.located, r.current, record, read, same, object.data, decoded,
      ?_, rfl, rfl, ?_⟩
    · rw [kind]
      exact r.native
    · rw [kind, ← r.named]

/-- The three outcomes of one turn of the loop. -/
theorem markVisit_eq_ok
    (h : markVisit P catalog reader generation walk reference = .ok (walk', more)) :
    (reference ∈ walk.visitedReferences ∧ walk' = { walk with pending := [] } ∧ more = []) ∨
      ∃ id location object, Resolves P catalog reader generation reference id location object ∧
        ((id ∈ walk.locations ∧ more = [] ∧
            walk' = { walk with
              pending := [], visitedReferences := walk.visitedReferences ++ [reference] }) ∨
          (id ∉ walk.locations ∧ ∃ oids, referencedOids object = .ok oids ∧
            more = oids.map (fun oid => ⟨reference.repository, oid⟩) ∧
            (more ≠ [] →
              walk.referencesQueued + more.length ≤ walk.limits.maxObjectReferences) ∧
            walk' = { walk with
              referencesQueued := walk.referencesQueued + more.length
              pending := []
              visitedReferences := walk.visitedReferences ++ [reference]
              locations := walk.locations.insert id location })) := by
  simp only [markVisit, bind_eq_ok_iff, ok.injEq, Prod.mk.injEq] at h
  obtain ⟨marked, h, finished⟩ := h
  obtain ⟨rfl, rfl⟩ := finished
  unfold markReference at h
  split at h
  case isTrue seen =>
    simp only [ok.injEq] at h
    subst h
    exact .inl ⟨seen, rfl, rfl⟩
  case isFalse fresh =>
    right
    obtain ⟨⟨id, location, object⟩, resolved, h⟩ := bind_eq_ok_iff.mp h
    refine ⟨id, location, object, resolveReference_eq_ok_iff.mp resolved, ?_⟩
    obtain ⟨⟨located, inserted⟩, insertion, h⟩ := bind_eq_ok_iff.mp h
    rw [MarkWalk.insertLocation] at insertion
    by_cases known : id ∈ walk.locations
    · rw [if_pos known] at insertion
      simp only [ok.injEq, Prod.mk.injEq] at insertion
      obtain ⟨rfl, rfl⟩ := insertion
      simp only [Bool.false_eq_true, if_false, ok.injEq] at h
      subst h
      exact .inl ⟨known, rfl, rfl⟩
    · rw [if_neg known, require_bind_eq_ok] at insertion
      simp only [ok.injEq, Prod.mk.injEq] at insertion
      obtain ⟨_, rfl, rfl⟩ := insertion
      simp only [if_true] at h
      obtain ⟨oids, parsed, queued⟩ := bind_eq_ok_iff.mp h
      obtain ⟨room, rfl⟩ := MarkWalk.queueAll_eq_ok queued
      exact .inr ⟨known, oids, by simpa using parsed, by simp, by simpa using room, by simp⟩
end Steps

section Loop
variable {retained : List RetainedObjectRef} {limits : MarkLimits}

variable (P catalog reader generation) in
/-- The limit on queued references bounds the number of turns. -/
theorem markLoop_terminates {walk : MarkWalk} (fresh : walk.Fresh limits) :
    ∃ outcome, drain (markVisit P catalog reader generation) limits.maxObjectReferences
      { walk with pending := [] } walk.pending = some outcome := by
  apply drain_terminates fun w : MarkWalk => w.limits.maxObjectReferences - w.referencesQueued
  · intro state item state' more visited
    rcases markVisit_eq_ok visited with
      ⟨_, rfl, rfl⟩ | ⟨_, _, _, _, ⟨_, rfl, rfl⟩ | ⟨_, _, _, _, room, rfl⟩⟩
    · simp
    · simp
    · rcases eq_or_ne more [] with rfl | some
      · simp
      · have bound := room some
        simp only
        omega
  · simp only [fresh.limits_eq, fresh.counted]
    rcases eq_or_ne walk.pending [] with none | some
    · simp [none]
    · have bound := fresh.bounded some
      omega

theorem completedMarkSet_eq_ok {marked : LiveObjects}
    (h : completedMarkSet P catalog manifests reader retained limits = .ok marked) :
    ∃ generation walk final, catalog.currentGeneration = some generation ∧
      queueRoots catalog manifests retained limits = .ok walk ∧
      drain (markVisit P catalog reader generation) limits.maxObjectReferences
        { walk with pending := [] } walk.pending = some (.ok final) ∧
      ∀ id location, (id, location) ∈ marked ↔ final.locations.lookup id = some location := by
  simp only [completedMarkSet, bind_eq_ok_iff, ofOption_eq_ok] at h
  obtain ⟨generation, current, walk, queued, final, drained, finished⟩ := h
  obtain ⟨outcome, ended⟩ := markLoop_terminates P catalog reader generation
    (queueRoots_eq_ok queued).1
  rw [ended, Option.getD_some] at drained
  subst drained
  simp only [ok.injEq] at finished
  refine ⟨generation, walk, final, current, queued, ended, ?_⟩
  intro id location
  rw [← finished]
  exact FinMap.mem_sortedBy
end Loop

section Reachability
variable (P catalog manifests reader) (retained : List RetainedObjectRef)

/-- The object a reference decodes to, without any check. -/
def lookupObject (reference : RetainedObjectRef) : Option GitObject := do
  let id ← catalog.oidAlias reference.repository reference.oid
  let location ← catalog.objectLocation id
  let record ← (reader id location).toOption
  let raw ← (decodeObjectPayload P record).toOption
  some ⟨reference.oid, record.kind, raw⟩

/-- Reachability in the Git graph of every repository on its own. -/
inductive MarkReachable : RetainedObjectRef → Prop
  | root {reference : RetainedObjectRef} : IsMarkRoot catalog manifests retained reference →
      MarkReachable reference
  | child {reference : RetainedObjectRef} {object : GitObject} {oids : List GitOid} {oid : GitOid} :
      MarkReachable reference → lookupObject P catalog reader reference = some object →
      referencedOids object = .ok oids → oid ∈ oids → MarkReachable ⟨reference.repository, oid⟩

/-- Every reachable reference resolves in the current generation to a marked record. -/
def MarkComplete (marked : LiveObjects) : Prop :=
  ∀ reference, MarkReachable P catalog manifests reader retained reference →
    ∃ generation id location object, catalog.currentGeneration = some generation ∧
      Resolves P catalog reader generation reference id location object ∧ (id, location) ∈ marked

/-- Two reachable references to one content lead to the same children: each reference of the
second is a reference of the first and has the same alias in both repositories. -/
def SharedContentAgrees : Prop :=
  ∀ first second id, MarkReachable P catalog manifests reader retained first →
    MarkReachable P catalog manifests reader retained second →
    catalog.oidAlias first.repository first.oid = some id →
    catalog.oidAlias second.repository second.oid = some id →
    ∀ object oids, lookupObject P catalog reader second = some object →
      referencedOids object = .ok oids → ∀ oid ∈ oids,
        (∃ object' oids', lookupObject P catalog reader first = some object' ∧
          referencedOids object' = .ok oids' ∧ oid ∈ oids') ∧
        catalog.oidAlias first.repository oid = catalog.oidAlias second.repository oid

/-- Native object IDs tell the reachable objects apart. -/
def NativeCollisionFree : Prop :=
  ∀ first second object object', MarkReachable P catalog manifests reader retained first →
    MarkReachable P catalog manifests reader retained second →
    lookupObject P catalog reader first = some object →
    lookupObject P catalog reader second = some object' → ∀ algorithm,
    GitOid.forObject P algorithm object.kind object.data =
      GitOid.forObject P algorithm object'.kind object'.data →
    object.kind = object'.kind ∧ object.data = object'.data

/-- What the loop keeps between two turns. -/
structure Marking (generation : UInt32) (walk : MarkWalk) (pending : List RetainedObjectRef) :
    Prop where
  reached : ∀ reference ∈ walk.visitedReferences ++ pending,
    MarkReachable P catalog manifests reader retained reference
  starts : ∀ reference, IsMarkRoot catalog manifests retained reference →
    reference ∈ walk.visitedReferences ++ pending
  resolved : ∀ reference ∈ walk.visitedReferences, ∃ id location object,
    Resolves P catalog reader generation reference id location object ∧ id ∈ walk.locations
  stored : ∀ id location, walk.locations.lookup id = some location →
    catalog.objectLocation id = some location
  expanded : ∀ id ∈ walk.locations, ∃ reference ∈ walk.visitedReferences, ∃ location object oids,
    Resolves P catalog reader generation reference id location object ∧
      referencedOids object = .ok oids ∧
      ∀ oid ∈ oids, ⟨reference.repository, oid⟩ ∈ walk.visitedReferences ++ pending

end Reachability

section Completeness
variable {retained : List RetainedObjectRef} {limits : MarkLimits}

theorem Resolves.lookupObject_eq {reference : RetainedObjectRef} {id : ContentId}
    {location : ObjectLocation} {object : GitObject}
    (r : Resolves P catalog reader generation reference id location object) :
    lookupObject P catalog reader reference = some object := by
  obtain ⟨record, read, _, kind, decoded⟩ := r.decoded
  have same : (⟨reference.oid, object.kind, object.data⟩ : GitObject) = object := by rw [← r.named]
  simp [lookupObject, r.aliased, r.located, read, decoded, Except.toOption, kind, same]

variable {walk walk' : MarkWalk} {reference : RetainedObjectRef}
  {pending more : List RetainedObjectRef}

theorem Marking.start (fresh : walk.Fresh limits) (roots : ∀ reference,
      reference ∈ walk.pending ↔ IsMarkRoot catalog manifests retained reference) :
    Marking P catalog manifests reader retained generation { walk with pending := [] }
      walk.pending where
  reached reference member := .root ((roots reference).mp (by simpa [fresh.unvisited] using member))
  starts reference root := mem_append_right _ ((roots reference).mpr root)
  resolved reference member := by simp [fresh.unvisited] at member
  stored id location found := by simp [fresh.unlocated] at found
  expanded id known := by simp [fresh.unlocated] at known

variable {other : RetainedObjectRef} {marked : LiveObjects}

/-- A reference that was visited or queued stays so. -/
theorem markVisit_keeps
    (h : markVisit P catalog reader generation walk reference = .ok (walk', more))
    (mem : other ∈ walk.visitedReferences ++ reference :: pending) :
    other ∈ walk'.visitedReferences ++ (pending ++ more) := by
  simp only [mem_append, mem_cons] at mem ⊢
  rcases markVisit_eq_ok h with
    ⟨seen, rfl, rfl⟩ | ⟨id, location, object, _, ⟨_, rfl, rfl⟩ | ⟨_, oids, _, _, _, rfl⟩⟩
  · rcases mem with old | rfl | queued
    · exact .inl old
    · exact .inl seen
    · exact .inr (.inl queued)
  · simp only [mem_append, mem_singleton]
    tauto
  · simp only [mem_append, mem_singleton]
    tauto

theorem Marking.visit
    (inv : Marking P catalog manifests reader retained generation walk (reference :: pending))
    (h : markVisit P catalog reader generation walk reference = .ok (walk', more)) :
    Marking P catalog manifests reader retained generation walk' (pending ++ more) := by
  have here := inv.reached reference (by simp)
  have starts : ∀ other, IsMarkRoot catalog manifests retained other →
      other ∈ walk'.visitedReferences ++ (pending ++ more) :=
    fun other root => markVisit_keeps h (inv.starts other root)
  have expanded : ∀ id ∈ walk.locations, ∃ other ∈ walk.visitedReferences, ∃ location object oids,
      Resolves P catalog reader generation other id location object ∧
        referencedOids object = .ok oids ∧
        ∀ oid ∈ oids, ⟨other.repository, oid⟩ ∈ walk'.visitedReferences ++ (pending ++ more) := by
    intro id known
    obtain ⟨other, mem, location, object, oids, resolves, parsed, queued⟩ :=
      inv.expanded id known
    exact ⟨other, mem, location, object, oids, resolves, parsed,
      fun oid child => markVisit_keeps h (queued oid child)⟩
  rcases markVisit_eq_ok h with ⟨seen, rfl, rfl⟩ |
    ⟨id, location, object, resolves, ⟨known, rfl, rfl⟩ | ⟨fresh, oids, parsed, rfl, _, rfl⟩⟩
  · refine ⟨fun other mem => inv.reached other ?_, starts, inv.resolved, inv.stored, expanded⟩
    simp only [append_nil, mem_append, mem_cons] at mem ⊢
    tauto
  · refine ⟨fun other mem => inv.reached other ?_, starts, ?_, inv.stored, ?_⟩
    · simp only [append_nil, mem_append, mem_cons] at mem ⊢
      tauto
    · intro other mem
      rcases mem_append.mp mem with old | last
      · exact inv.resolved other old
      · rw [mem_singleton] at last
        exact ⟨id, location, object, last ▸ resolves, known⟩
    · intro id' known'
      obtain ⟨other, mem, rest⟩ := expanded id' known'
      exact ⟨other, mem_append_left _ mem, rest⟩
  · refine ⟨?_, starts, ?_, ?_, ?_⟩
    · intro other mem
      simp only [mem_append, mem_singleton] at mem
      rcases mem with (old | rfl) | queued | child
      · exact inv.reached other (mem_append_left _ old)
      · exact here
      · exact inv.reached other (by simp [queued])
      · obtain ⟨oid, mem, rfl⟩ := mem_map.mp child
        exact .child here resolves.lookupObject_eq parsed mem
    · intro other mem
      simp only [AList.mem_insert]
      rcases mem_append.mp mem with old | last
      · obtain ⟨id', location', object', resolves', found⟩ := inv.resolved other old
        exact ⟨id', location', object', resolves', .inr found⟩
      · rw [mem_singleton] at last
        exact ⟨id, location, object, last ▸ resolves, .inl rfl⟩
    · intro id' location' found
      simp only [FinMap.lookup_insert_eq] at found
      split at found
      case isTrue same =>
        rw [same, ← Option.some.inj found]
        exact resolves.located
      case isFalse => exact inv.stored id' location' found
    · intro id' known
      simp only [AList.mem_insert] at known
      rcases known with rfl | old
      · refine ⟨reference, by simp, location, object, oids, resolves, parsed, ?_⟩
        intro oid child
        exact mem_append_right _ (mem_append_right _ (mem_map_of_mem child))
      · obtain ⟨other, mem, rest⟩ := expanded id' old
        exact ⟨other, mem_append_left _ mem, rest⟩

section
variable (h : completedMarkSet P catalog manifests reader retained limits = .ok marked)
include h

/-- What is known when the queue is empty. -/
theorem completedMarkSet_marking :
    ∃ generation final, catalog.currentGeneration = some generation ∧
      Marking P catalog manifests reader retained generation final [] ∧
      ∀ id location, (id, location) ∈ marked ↔ final.locations.lookup id = some location := by
  obtain ⟨generation, walk, final, current, queued, drained, mem_iff⟩ := completedMarkSet_eq_ok h
  obtain ⟨fresh, roots⟩ := queueRoots_eq_ok queued
  obtain ⟨_, ⟨⟩, marking⟩ | ⟨_, _, _, _, ⟨⟩, _⟩ :=
    drain_outcome (Marking P catalog manifests reader retained generation)
      (fun _ _ _ _ _ inv visited => inv.visit visited) (Marking.start fresh roots) drained
  exact ⟨generation, final, current, marking, mem_iff⟩

theorem completedMarkSet_located {id : ContentId}
    {location : ObjectLocation} (mem : (id, location) ∈ marked) :
    catalog.objectLocation id = some location ∧
      catalog.currentGeneration = some location.generation := by
  obtain ⟨generation, final, current, inv, mem_iff⟩ := completedMarkSet_marking h
  have found := (mem_iff id location).mp mem
  have located := inv.stored id location found
  have known : id ∈ final.locations := FinMap.mem_of_lookup found
  obtain ⟨reference, _, location', _, _, resolves, _⟩ := inv.expanded id known
  have same := resolves.located
  rw [located, Option.some.injEq] at same
  exact ⟨located, by rw [current, same, resolves.current]⟩

omit h in
/-- When shared content agrees, every reachable object was visited in some repository. -/
theorem Marking.visited_of_reachable {final : MarkWalk}
    (inv : Marking P catalog manifests reader retained generation final [])
    (agree : SharedContentAgrees P catalog manifests reader retained)
    (reach : MarkReachable P catalog manifests reader retained reference) :
    ∃ other ∈ final.visitedReferences, other.oid = reference.oid ∧
      catalog.oidAlias other.repository other.oid =
        catalog.oidAlias reference.repository reference.oid := by
  induction reach with
  | @root reference root => exact ⟨reference, by simpa using inv.starts _ root, rfl, rfl⟩
  | @child reference object oids oid reach found parsed mem ih =>
    obtain ⟨other, visited, _, sameAlias⟩ := ih
    obtain ⟨id, location, _, resolves, known⟩ := inv.resolved other visited
    obtain ⟨first, firstVisited, _, firstObject, firstOids, firstResolves, firstParsed, queued⟩ :=
      inv.expanded id known
    have firstReached := inv.reached first (by simpa using firstVisited)
    obtain ⟨⟨object', oids', found', parsed', inside⟩, alias_eq⟩ :=
      agree first reference id firstReached reach firstResolves.aliased
        (sameAlias ▸ resolves.aliased) object oids found parsed oid mem
    rw [firstResolves.lookupObject_eq, Option.some.injEq] at found'
    subst found'
    rw [firstParsed, ok.injEq] at parsed'
    subst parsed'
    exact ⟨⟨first.repository, oid⟩, by simpa using queued oid inside, rfl, alias_eq⟩

omit h in
/-- The checks on a reference depend on its object ID and on its alias only. -/
theorem Resolves.transfer {id : ContentId} {location : ObjectLocation}
    {object : GitObject} (r : Resolves P catalog reader generation other id location object)
    (sameOid : other.oid = reference.oid)
    (sameAlias : catalog.oidAlias other.repository other.oid =
      catalog.oidAlias reference.repository reference.oid) :
    Resolves P catalog reader generation reference id location object :=
  ⟨sameAlias ▸ r.aliased, r.located, r.current, r.decoded, sameOid ▸ r.native,
    sameOid ▸ r.named⟩

theorem markComplete_of_agrees
    (agree : SharedContentAgrees P catalog manifests reader retained) :
    MarkComplete P catalog manifests reader retained marked := by
  obtain ⟨generation, final, current, inv, mem_iff⟩ := completedMarkSet_marking h
  intro reference reach
  obtain ⟨other, visited, sameOid, sameAlias⟩ := inv.visited_of_reachable agree reach
  obtain ⟨id, location, object, resolves, known⟩ := inv.resolved other visited
  refine ⟨generation, id, location, object, current, resolves.transfer sameOid sameAlias, ?_⟩
  obtain ⟨stored, found⟩ := FinMap.exists_lookup known
  have same := inv.stored id stored found
  rw [resolves.located, Option.some.injEq] at same
  exact (mem_iff id location).mpr (same ▸ found)
end

/-- A decoded object determines the content ID of its record. -/
theorem Resolves.contentId_eq {id : ContentId} {location : ObjectLocation} {object : GitObject}
    (r : Resolves P catalog reader generation reference id location object) :
    ContentId.forObject P object.kind object.data = id := by
  obtain ⟨record, _, same, kind, decoded⟩ := r.decoded
  rw [← same, ← kind]
  exact (decodeObjectPayload_eq_ok_iff.mp decoded).2.2

/-- Two references to one content under one hash algorithm name the same object. -/
theorem Resolves.object_eq {first second : RetainedObjectRef} {id : ContentId}
    {location location' : ObjectLocation} {object object' : GitObject}
    (r : Resolves P catalog reader generation first id location object)
    (r' : Resolves P catalog reader generation second id location' object')
    (algorithm : first.oid.algorithm = second.oid.algorithm) : object = object' := by
  have located := r.located.symm.trans r'.located
  rw [Option.some.injEq] at located
  subst located
  obtain ⟨record, read, _, kind, decoded⟩ := r.decoded
  obtain ⟨record', read', _, kind', decoded'⟩ := r'.decoded
  rw [read, ok.injEq] at read'
  subst read'
  rw [decoded, ok.injEq] at decoded'
  have kinds : object.kind = object'.kind := kind.symm.trans kind'
  have oids : object.oid = object'.oid := by
    rw [r.named, r'.named, ← r.native, ← r'.native, algorithm, kinds, decoded']
  cases object
  cases object'
  simp_all

theorem agrees_of_markComplete
    (free : NativeCollisionFree P catalog manifests reader retained)
    (oneFormat : ∀ first second id, MarkReachable P catalog manifests reader retained first →
      MarkReachable P catalog manifests reader retained second →
      catalog.oidAlias first.repository first.oid = some id →
      catalog.oidAlias second.repository second.oid = some id →
      first.oid.algorithm = second.oid.algorithm)
    (complete : MarkComplete P catalog manifests reader retained marked) :
    SharedContentAgrees P catalog manifests reader retained := by
  intro first second id reach reach' aliased aliased' object oids found parsed oid mem
  obtain ⟨generation, id₁, _, object₁, current, r₁, _⟩ := complete first reach
  obtain ⟨generation', id₂, _, object₂, current', r₂, _⟩ := complete second reach'
  obtain rfl : generation = generation' := by simpa [current] using current'
  obtain rfl : id₁ = id := by simpa [r₁.aliased] using aliased
  obtain rfl : id₂ = id₁ := by simpa [r₂.aliased] using aliased'
  obtain rfl := r₁.object_eq r₂ (oneFormat first second _ reach reach' aliased aliased')
  obtain rfl : object₁ = object := by simpa [r₂.lookupObject_eq] using found
  refine ⟨⟨object₁, oids, r₁.lookupObject_eq, parsed, mem⟩, ?_⟩
  have child := MarkReachable.child reach r₁.lookupObject_eq parsed mem
  have child' := MarkReachable.child reach' found parsed mem
  obtain ⟨_, idA, _, objectA, _, rA, _⟩ := complete _ child
  obtain ⟨_, idB, _, objectB, _, rB, _⟩ := complete _ child'
  have native := rA.native.trans rB.native.symm
  obtain ⟨kinds, datas⟩ :=
    free _ _ objectA objectB child child' rA.lookupObject_eq rB.lookupObject_eq _ native
  have same : idA = idB := by rw [← rA.contentId_eq, ← rB.contentId_eq, kinds, datas]
  exact rA.aliased.trans (same ▸ rB.aliased.symm)

/-- A completed mark set covers every reachable reference when shared content leads to the same
children everywhere. When native IDs do not collide and no content is reachable under two hash
algorithms, that is also necessary. -/
theorem completedMarkSet_complete_iff (P : Primitives) (catalog : InMemoryCatalog)
    (manifests : ManifestSource) (reader : CompactionReader) (retained : List RetainedObjectRef)
    (limits : MarkLimits) (marked : List (ContentId × ObjectLocation))
    (h : completedMarkSet P catalog manifests reader retained limits = .ok marked) :
    (SharedContentAgrees P catalog manifests reader retained →
        MarkComplete P catalog manifests reader retained marked) ∧
      (NativeCollisionFree P catalog manifests reader retained →
        (∀ first second id, MarkReachable P catalog manifests reader retained first →
          MarkReachable P catalog manifests reader retained second →
          catalog.oidAlias first.repository first.oid = some id →
          catalog.oidAlias second.repository second.oid = some id →
          first.oid.algorithm = second.oid.algorithm) →
        MarkComplete P catalog manifests reader retained marked →
        SharedContentAgrees P catalog manifests reader retained) :=
  ⟨markComplete_of_agrees h, agrees_of_markComplete⟩
end Completeness

def markChildren (P : Primitives) (catalog : InMemoryCatalog) (reader : CompactionReader)
    (reference : RetainedObjectRef) : List GitOid :=
  match lookupObject P catalog reader reference with
  | some object => (referencedOids object).toOption.getD []
  | none => []

/-- Agreement can be checked on any finite set of references that is closed under children. -/
theorem agrees_of_closed {retained : List RetainedObjectRef} (known : List RetainedObjectRef)
    (snapshots : ∀ key ∈ readySnapshots catalog, ∀ reference ∈ snapshotRefs manifests key,
      reference ∈ known)
    (retains : ∀ reference ∈ retained, reference ∈ known)
    (closed : ∀ reference ∈ known, ∀ oid ∈ markChildren P catalog reader reference,
      ⟨reference.repository, oid⟩ ∈ known)
    (agree : ∀ first ∈ known, ∀ second ∈ known,
      catalog.oidAlias first.repository first.oid =
        catalog.oidAlias second.repository second.oid →
      ∀ oid ∈ markChildren P catalog reader second, oid ∈ markChildren P catalog reader first ∧
        catalog.oidAlias first.repository oid = catalog.oidAlias second.repository oid) :
    SharedContentAgrees P catalog manifests reader retained := by
  have children : ∀ reference object oids, lookupObject P catalog reader reference = some object →
      referencedOids object = .ok oids → markChildren P catalog reader reference = oids := by
    intro reference object oids found parsed
    simp [markChildren, found, parsed, Except.toOption]
  have inside : ∀ reference, MarkReachable P catalog manifests reader retained reference →
      reference ∈ known := by
    intro reference reach
    induction reach with
    | root root =>
      rcases root with ⟨repository, snapshot, ready, mem⟩ | mem
      · exact snapshots _ (mem_readySnapshots.mpr ready) _ mem
      · exact retains _ mem
    | child _ found parsed mem ih =>
      exact closed _ ih _ (by rwa [children _ _ _ found parsed])
  intro first second id reach reach' aliased aliased' object oids found parsed oid mem
  obtain ⟨shared, same⟩ := agree first (inside _ reach) second (inside _ reach')
    (aliased.trans aliased'.symm) oid (by rwa [children _ _ _ found parsed])
  refine ⟨?_, same⟩
  unfold markChildren at shared
  split at shared
  case h_1 object' found' =>
    cases parsed' : referencedOids object' with
    | ok oids' =>
      exact ⟨object', oids', found', parsed', by simpa [parsed', Except.toOption] using shared⟩
    | error e => simp [parsed', Except.toOption] at shared
  case h_2 => simp at shared

/-- Repositories that share a tag of a blob. -/
def repoId (n : UInt8) : RepoId := ⟨List.Vector.replicate 16 n⟩

def snapshotId (n : UInt8) : SnapshotId := ⟨List.Vector.replicate 16 n⟩

def taggedBlob : GitObject := .hashed .reference .sha1 .blob (ascii "hello")

def blobTag : GitObject :=
  .hashed .reference .sha1 .tag (ascii "object " ++ oidToHex taggedBlob.oid ++ [0x0a])

def GitObject.record (object : GitObject) : ObjectRecord :=
  objectRecord .reference .raw object.oid object.kind object.data

def GitObject.location (object : GitObject) : ObjectLocation :=
  ⟨1, 0, 64, 0, 0, 0, object.kind, .raw, 0, 0⟩

/-- Both repositories have a ready snapshot of the tag; `repoId 2` has the given aliases. -/
def sharedTagCatalog (secondAliases : List GitObject) : InMemoryCatalog where
  objects := [taggedBlob, blobTag].foldl (fun m o => m.insert o.record.contentId o.location) ∅
  aliases := ([taggedBlob, blobTag].map (fun o => (repoId 1, o)) ++
    secondAliases.map fun o => (repoId 2, o)).foldl
      (fun m o => m.insert (o.1, o.2.oid) o.2.record.contentId) ∅
  repositorySnapshots := (AList.singleton (repoId 1, snapshotId 1) .ready).insert
    (repoId 2, snapshotId 2) .ready
  metas := AList.singleton currentGenerationMetaKey (u32 1)

def sharedTagManifests : ManifestSource := fun repository snapshot =>
  .ok (.ofImport repository snapshot
    ⟨⟨.sha1, [⟨ascii "refs/tags/v1", .tag, blobTag.oid⟩]⟩, {}⟩ 0 (ascii "1"))

def sharedTagReader : CompactionReader := fun id _ =>
  if id = blobTag.record.contentId then .ok blobTag.record else .ok taggedBlob.record

theorem sharedTag_finishes :
    (∃ marked, completedMarkSet .reference (sharedTagCatalog [taggedBlob, blobTag])
        sharedTagManifests sharedTagReader [] {} = .ok marked) ∧
      ∃ marked, completedMarkSet .reference (sharedTagCatalog [blobTag])
        sharedTagManifests sharedTagReader [] {} = .ok marked := by
  have finishes : ∀ aliases ∈ [[taggedBlob, blobTag], [blobTag]],
      (completedMarkSet .reference (sharedTagCatalog aliases) sharedTagManifests sharedTagReader
        [] {}).toBool = true := by
    decide +kernel
  exact ⟨exists_ok_of_toBool (finishes _ (by simp)),
    exists_ok_of_toBool (finishes _ (by simp))⟩

theorem sharedTag_complete :
    ∃ marked, completedMarkSet .reference (sharedTagCatalog [taggedBlob, blobTag])
        sharedTagManifests sharedTagReader [] {} = .ok marked ∧
      MarkComplete .reference (sharedTagCatalog [taggedBlob, blobTag]) sharedTagManifests
        sharedTagReader [] marked := by
  obtain ⟨marked, finished⟩ := sharedTag_finishes.1
  refine ⟨marked, finished,
    (completedMarkSet_complete_iff _ _ _ _ _ _ marked finished).1 (agrees_of_closed
      [⟨repoId 1, blobTag.oid⟩, ⟨repoId 1, taggedBlob.oid⟩, ⟨repoId 2, blobTag.oid⟩,
        ⟨repoId 2, taggedBlob.oid⟩] ?_ ?_ ?_ ?_)⟩ <;>
    decide +kernel

/-- The second repository has no alias for the blob, and the mark phase does not notice. -/
theorem sharedTag_incomplete :
    ¬ ∀ (P : Primitives) (catalog : InMemoryCatalog) (manifests : ManifestSource)
      (reader : CompactionReader) (retained : List RetainedObjectRef) (limits : MarkLimits)
      (marked : List (ContentId × ObjectLocation)),
      completedMarkSet P catalog manifests reader retained limits = .ok marked →
        MarkComplete P catalog manifests reader retained marked := by
  intro claim
  obtain ⟨marked, finished⟩ := sharedTag_finishes.2
  have complete := claim _ _ _ _ _ _ _ finished
  have ready : (sharedTagCatalog [blobTag]).repositorySnapshot (repoId 2) (snapshotId 2) =
      some .ready := by decide +kernel
  have root : MarkReachable .reference (sharedTagCatalog [blobTag]) sharedTagManifests
      sharedTagReader [] ⟨repoId 2, blobTag.oid⟩ :=
    .root (.inl ⟨_, _, ready, List.mem_singleton.mpr rfl⟩)
  have found : lookupObject .reference (sharedTagCatalog [blobTag]) sharedTagReader
      ⟨repoId 2, blobTag.oid⟩ = some blobTag := by decide +kernel
  have parsed : referencedOids blobTag = .ok [taggedBlob.oid] := by decide +kernel
  obtain ⟨_, id, _, _, _, resolves, _⟩ :=
    complete _ (.child root found parsed (List.mem_singleton.mpr rfl))
  have missing : (sharedTagCatalog [blobTag]).oidAlias (repoId 2) taggedBlob.oid = none := by
    decide +kernel
  exact absurd (missing.symm.trans resolves.aliased) (by simp)

end ReflinkForest
