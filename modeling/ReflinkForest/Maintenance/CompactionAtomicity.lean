import ReflinkForest.Maintenance.Compaction
import ReflinkForest.Store.SealedChunk

/-! Compaction with every failure of its publication. The catalog batch is the commit; the pointer
is derived from it. -/
namespace ReflinkForest
open Bytes List InMemoryCatalog
open Except hiding error

/-- Where the update of the pointer fails: before or behind the rename that shows it. -/
inductive PointerFault where
  | beforeRename (error : String)
  | behindRename (error : String)

def GenerationManager.tryPublishActive (manager : GenerationManager) (fault : Option PointerFault)
    (generation : UInt32) : GenerationManager × Except MaintenanceError Unit :=
  match fault with
  | none => (manager.publishActive generation, .ok ())
  | some (.beforeRename error) => (manager, .error (.io error))
  | some (.behindRename error) => (manager.publishActive generation, .error (.io error))

/-- `publish_generation`: the catalog first, then the pointer. -/
def tryPublishGeneration (fault : Option PointerFault) (catalog : InMemoryCatalog)
    (manager : GenerationManager) (generation : UInt32)
    (locations : LiveObjects) :
    InMemoryCatalog × GenerationManager × Except MaintenanceError Unit :=
  match catalog.apply (publicationBatch generation locations) with
  | .error e => (catalog, manager, .error (.catalog e))
  | .ok catalog => (catalog, manager.tryPublishActive fault generation)

def tryReconcileActiveGeneration (fault : Option PointerFault) (catalog : InMemoryCatalog)
    (manager : GenerationManager) :
    GenerationManager × Except MaintenanceError (Option UInt32) :=
  match catalog.currentGeneration with
  | none => (manager, .ok none)
  | some generation =>
    match manager.tryPublishActive fault generation with
    | (manager, .error e) => (manager, .error e)
    | (manager, .ok ()) => (manager, .ok (some generation))

/-- With a fault or without, a reconciliation that succeeds is the plain one. -/
theorem tryReconcileActiveGeneration_cases (fault : Option PointerFault) (catalog : InMemoryCatalog)
    (manager : GenerationManager) :
    tryReconcileActiveGeneration fault catalog manager =
        (reconcileActiveGeneration catalog manager, .ok catalog.currentGeneration) ∨
      fault ≠ none ∧ ∃ manager' error,
        tryReconcileActiveGeneration fault catalog manager = (manager', .error (.io error)) := by
  unfold tryReconcileActiveGeneration reconcileActiveGeneration
  cases catalog.currentGeneration with
  | none => exact .inl rfl
  | some generation =>
    rcases fault with _ | error | error
    · exact .inl rfl
    · exact .inr ⟨by simp, _, error, rfl⟩
    · exact .inr ⟨by simp, _, error, rfl⟩

theorem tryReconcileActiveGeneration_active {fault : Option PointerFault}
    {catalog : InMemoryCatalog} {manager manager' : GenerationManager} {target : UInt32}
    {generation : Option UInt32} (current : catalog.currentGeneration = some target)
    (h : tryReconcileActiveGeneration fault catalog manager = (manager', .ok generation)) :
    manager'.active = some target := by
  obtain plain | ⟨_, _, _, failed⟩ := tryReconcileActiveGeneration_cases fault catalog manager
  · cases h.symm.trans plain
    rw [reconcileActiveGeneration, current]
    rfl
  · cases h.symm.trans failed

section Definitions
variable {σ : Type} (P : Primitives) (writer : CompactionWriter σ) (reader : CompactionReader)
  (target : UInt32)

/-- Copies, synchronises and verifies every live record. -/
def stageShadows (state : σ) (live : LiveObjects) :
    σ × Except MaintenanceError LiveObjects :=
  match copyLive P writer reader target state live with
  | (state, .error e) => (state, .error e)
  | (state, .ok shadows) =>
    match writer.syncData state with
    | (state, .error e) => (state, .error (.compactionWrite e))
    | (state, .ok ()) => (state, do verifyShadows writer state shadows; .ok shadows)

def tryCompactCompletedMarkSet (fault : Option PointerFault) (catalog : InMemoryCatalog)
    (manager : GenerationManager) (source : UInt32) (live : LiveObjects)
    (state : σ) : Compaction σ :=
  match checkPlan target catalog source live with
  | .error e => ⟨state, catalog, manager, .error e⟩
  | .ok () =>
    match stageShadows P writer reader target state live with
    | (state, .error e) => ⟨state, catalog, manager, .error e⟩
    | (state, .ok shadows) =>
      match tryPublishGeneration fault catalog manager target shadows with
      | (catalog, manager, .error e) => ⟨state, catalog, manager, .error e⟩
      | (catalog, manager, .ok ()) =>
        ⟨state, catalog, manager, .ok ⟨source, target, shadows.length⟩⟩
end Definitions

/-- A writer whose verification reads back what it vouches for. -/
structure VerifyingWriter (P : Primitives) (σ : Type) extends CompactionWriter σ where
  read : σ → ObjectLocation → Except String ObjectRecord
  verify_sound : ∀ {state id location}, verify state id location = .ok () →
    ∃ record raw, read state location = .ok record ∧ record.contentId = id ∧
      decodeObjectPayload P record = .ok raw

theorem readRecordAt_verified {P : Primitives} {file : Str} {location : ObjectLocation}
    {record : ObjectRecord} (h : readRecordAt P file location = .ok record) :
    verifyObjectRecord P record = .ok () := by
  simp only [readRecordAt, bind_eq_ok_iff, mapErr_eq_ok, require_eq_ok,
    pure, Except.pure, ok.injEq, exists_const] at h
  obtain ⟨_, _, _, _, _, _, _, _, _, _, ⟨read, _⟩, _, _, _, _, _, _, verified, rfl⟩ := h
  exact verified

def verifyingDestination (P : Primitives) : VerifyingWriter P ChunkWriter where
  toCompactionWriter := chunkDestination P
  read writer location :=
    .mapErr (fun _ => "cold record cannot be read") (readRecordAt P writer.durable location)
  verify_sound := by
    intro writer id location verified
    simp only [chunkDestination] at verified
    split at verified
    · rename_i record found
      obtain ⟨raw, decodes⟩ := verifyObjectRecord_eq_ok_iff.mp (readRecordAt_verified found)
      rw [require_eq_ok] at verified
      exact ⟨record, raw, by rw [found, mapErr_ok], verified, decodes⟩
    · exact absurd verified (by simp)

section Staging
variable {σ : Type} {P : Primitives} {writer : CompactionWriter σ} {reader : CompactionReader}
  {source target : UInt32} {live shadows : LiveObjects} {state state' : σ}

/-- A fault of the pointer changes nothing before the batch that publishes the copies. -/
theorem tryCompactCompletedMarkSet_cases (P : Primitives) (writer : CompactionWriter σ)
    (reader : CompactionReader) (target : UInt32) (fault : Option PointerFault)
    (catalog : InMemoryCatalog) (manager : GenerationManager) (source : UInt32)
    (live : LiveObjects) (state : σ) :
    let clean := compactCompletedMarkSet P writer reader target catalog manager source live state
    let tried := tryCompactCompletedMarkSet P writer reader target fault catalog manager source live
      state
    tried = clean ∨ fault ≠ none ∧ (∃ outcome, clean.result = .ok outcome) ∧
      ∃ manager' error, tried = ⟨clean.writer, clean.catalog, manager', .error (.io error)⟩ := by
  intro clean tried
  simp only [clean, tried, compactCompletedMarkSet, tryCompactCompletedMarkSet, stageShadows]
  cases checkPlan target catalog source live with
  | error e => exact .inl rfl
  | ok =>
    rcases copyLive P writer reader target state live with ⟨copied, e | shadows⟩
    · exact .inl rfl
    · dsimp only
      rcases writer.syncData copied with ⟨synced, e | _⟩
      · exact .inl rfl
      · dsimp only
        cases verifyShadows writer synced shadows with
        | error e => exact .inl rfl
        | ok =>
          simp only [ok_bind, tryPublishGeneration, publishGeneration]
          cases catalog.apply (publicationBatch target shadows) with
          | error e => exact .inl rfl
          | ok catalog' =>
            rcases fault with _ | error | error
            · exact .inl rfl
            · exact .inr ⟨by simp, ⟨_, rfl⟩, _, error, rfl⟩
            · exact .inr ⟨by simp, ⟨_, rfl⟩, _, error, rfl⟩

theorem copyLive_eq_ok (h : copyLive P writer reader target state live = (state', .ok shadows)) :
    shadows.map Prod.fst = live.map Prod.fst ∧
      ∀ id shadow, (id, shadow) ∈ shadows → shadow.generation = target ∧
        ∃ location record raw, (id, location) ∈ live ∧ reader id location = .ok record ∧
          record.contentId = id ∧ decodeObjectPayload P record = .ok raw := by
  induction live generalizing state shadows with
  | nil =>
    obtain ⟨_, rfl⟩ : state = state' ∧ [] = shadows := by simpa [copyLive] using h
    simp
  | cons head live ih =>
    obtain ⟨id, location⟩ := head
    rw [copyLive] at h
    split at h
    · simp at h
    rename_i record read
    split at h
    · simp at h
    rename_i shadow appended
    split at h
    case isFalse => simp at h
    rename_i inTarget
    split at h
    · simp at h
    rename_i rest copied
    simp only [Prod.mk.injEq, ok.injEq] at h
    obtain ⟨rfl, rfl⟩ := h
    simp only [readLive, bind_eq_ok_iff, mapErr_eq_ok, require_eq_ok,
      ok.injEq] at read
    obtain ⟨_, found, _, same, _, verified, rfl⟩ := read
    obtain ⟨raw, decodes⟩ := verifyObjectRecord_eq_ok_iff.mp verified
    obtain ⟨ids, each⟩ := ih copied
    refine ⟨by rw [map_cons, map_cons, ids], fun id' shadow' mem => ?_⟩
    rcases mem_cons.mp mem with here | mem
    · obtain ⟨rfl, rfl⟩ := Prod.mk.inj here
      exact ⟨inTarget, location, _, raw, mem_cons_self, found, same, decodes⟩
    · obtain ⟨generation, location', record', raw', source, rest⟩ := each id' shadow' mem
      exact ⟨generation, location', record', raw', mem_cons_of_mem _ source, rest⟩

theorem verifyShadows_eq_ok_iff :
    verifyShadows writer state shadows = .ok () ↔
      ∀ entry ∈ shadows, writer.verify state entry.1 entry.2 = .ok () := by
  induction shadows with
  | nil => simp [verifyShadows]
  | cons head shadows ih =>
    simp only [verifyShadows, bind_eq_ok_iff, mapErr_eq_ok, Unique.exists_iff,
      PUnit.default_eq_unit, ih, forall_mem_cons]

theorem stageShadows_eq_ok
    (h : stageShadows P writer reader target state live = (state', .ok shadows)) :
    shadows.map Prod.fst = live.map Prod.fst ∧
      (∀ id shadow, (id, shadow) ∈ shadows → shadow.generation = target ∧
        ∃ location record raw, (id, location) ∈ live ∧ reader id location = .ok record ∧
          record.contentId = id ∧ decodeObjectPayload P record = .ok raw) ∧
      ∀ entry ∈ shadows, writer.verify state' entry.1 entry.2 = .ok () := by
  unfold stageShadows at h
  split at h
  · simp at h
  rename_i copied moved copy
  split at h
  · simp at h
  rename_i synced sync
  simp only [Prod.mk.injEq, bind_eq_ok_iff, ok.injEq] at h
  obtain ⟨rfl, _, verified, rfl⟩ := h
  exact ⟨(copyLive_eq_ok copy).1, (copyLive_eq_ok copy).2, verifyShadows_eq_ok_iff.mp verified⟩

theorem validateLive_eq_ok {previous : Option ContentId}
    (h : validateLive source previous live = .ok ()) :
    (∀ p ∈ previous, ∀ entry ∈ live, p < entry.1) ∧ (live.map Prod.fst).Nodup := by
  induction live generalizing previous with
  | nil => simp
  | cons head live ih =>
    simp only [validateLive, bind_eq_ok_iff, require_eq_ok, Unique.exists_iff] at h
    obtain ⟨ascending, _, rest⟩ := h
    obtain ⟨above, distinct⟩ := ih rest
    have after : ∀ entry ∈ live, head.1 < entry.1 := above head.1 rfl
    constructor
    · intro p mem entry member
      rcases mem_cons.mp member with rfl | member
      · exact ascending p mem
      · exact (ascending p mem).trans (after entry member)
    · rw [map_cons, nodup_cons]
      refine ⟨fun again => ?_, distinct⟩
      obtain ⟨entry, member, same⟩ := mem_map.mp again
      exact absurd (after entry member) (same ▸ lt_irrefl _)
end Staging

section Publication
variable {catalog catalog' : InMemoryCatalog} {generation : UInt32}
  {locations : LiveObjects}

theorem foldl_stage_locations (c : InMemoryCatalog) :
    (locations.map fun e => Operation.objectLocation e.1 e.2).foldl InMemoryCatalog.stage c =
      { c with objects := locations.foldl (fun objects e => objects.insert e.1 e.2) c.objects
        } := by
  induction locations generalizing c with
  | nil => rfl
  | cons head locations ih =>
    rw [map_cons, foldl_cons, ih]
    rfl

theorem apply_publicationBatch_eq
    (h : catalog.apply (publicationBatch generation locations) = .ok catalog') :
    catalog' = { catalog with
      objects := locations.foldl (fun objects e => objects.insert e.1 e.2) catalog.objects
      metas := catalog.metas.insert currentGenerationMetaKey (u32 generation) } := by
  have staged := apply_eq_foldl h
  rw [publicationBatch, foldl_append, foldl_stage_locations] at staged
  exact staged
end Publication

section Atomicity
variable {σ : Type} {P : Primitives}

/-- `catalog'` is `catalog` with every live object moved to the target, where it reads back with
the bytes it had, and nothing else changed. -/
structure Compacted (P : Primitives) (reader : CompactionReader)
    (read : ObjectLocation → Except String ObjectRecord) (target : UInt32)
    (live : LiveObjects) (catalog catalog' : InMemoryCatalog) : Prop where
  current : catalog'.currentGeneration = some target
  moved : ∀ id location, (id, location) ∈ live → ∃ shadow record copy raw,
    catalog'.objectLocation id = some shadow ∧ shadow.generation = target ∧
      reader id location = .ok record ∧ decodeObjectPayload P record = .ok raw ∧
      read shadow = .ok copy ∧ copy.contentId = id ∧ decodeObjectPayload P copy = .ok raw
  kept : ∀ id, id ∉ live.map Prod.fst → catalog'.objects.lookup id = catalog.objects.lookup id
  others : catalog' = { catalog with
    objects := catalog'.objects
    metas := catalog.metas.insert currentGenerationMetaKey (u32 target) }

/-- Content IDs tell what was copied from what the published locations read back. -/
def CopiesCollisionFree (P : Primitives) (reader : CompactionReader)
    (read : ObjectLocation → Except String ObjectRecord)
    (live : LiveObjects) (catalog' : InMemoryCatalog) : Prop :=
  ∀ id location shadow record copy raw raw', (id, location) ∈ live →
    reader id location = .ok record → decodeObjectPayload P record = .ok raw →
    catalog'.objectLocation id = some shadow → read shadow = .ok copy →
    decodeObjectPayload P copy = .ok raw' →
    ContentId.forObject P record.kind raw = ContentId.forObject P copy.kind raw' → raw = raw'

theorem compacted_of_staged {writer : VerifyingWriter P σ} {reader : CompactionReader}
    {source target : UInt32} {live shadows : LiveObjects}
    {catalog catalog' : InMemoryCatalog} {state state' : σ}
    (plan : checkPlan target catalog source live = .ok ())
    (staged : stageShadows P writer.toCompactionWriter reader target state live =
      (state', .ok shadows))
    (applied : catalog.apply (publicationBatch target shadows) = .ok catalog')
    (free : CopiesCollisionFree P reader (writer.read state') live catalog') :
    Compacted P reader (writer.read state') target live catalog catalog' := by
  simp only [checkPlan, require_bind_eq_ok] at plan
  have distinct := (validateLive_eq_ok plan.2.2).2
  obtain ⟨ids, copies, verified⟩ := stageShadows_eq_ok staged
  have published : publishGeneration catalog {} target shadows =
      .ok (catalog', GenerationManager.publishActive {} target) := by
    rw [publishGeneration, applied, mapErr_ok, ok_bind]
  have publishes := (publishGeneration_eq_ok published).1
  refine ⟨publishes.current, ?_, ?_, ?_⟩
  · intro id location mem
    have listed : id ∈ shadows.map Prod.fst := ids ▸ mem_map_of_mem mem
    obtain ⟨shadow, copied, located⟩ := (publishes.moved id).resolve_left fun gone => gone.1 listed
    obtain ⟨inTarget, location', record, raw, source, read, named, decodes⟩ :=
      copies id shadow copied
    obtain rfl : location' = location :=
      (Prod.mk.inj (inj_on_of_nodup_map distinct source mem rfl)).2
    obtain ⟨copy, raw', readBack, identified, decodes'⟩ :=
      writer.verify_sound (verified (id, shadow) copied)
    have bytes : raw = raw' := by
      refine free id location' shadow record copy raw raw' mem read decodes located readBack
        decodes' ?_
      rw [(decodeObjectPayload_eq_ok_iff.mp decodes).2.2,
        (decodeObjectPayload_eq_ok_iff.mp decodes').2.2, named, identified]
    exact ⟨shadow, record, copy, raw, located, inTarget, read, decodes, readBack, identified,
      bytes ▸ decodes'⟩
  · intro id unlisted
    rcases publishes.moved id with ⟨_, same⟩ | ⟨shadow, copied, _⟩
    · rwa [objectLocation_eq publishes.writable,
        objectLocation_eq (apply_eq_ok_iff.mp applied).1] at same
    · exact absurd (ids ▸ mem_map_of_mem copied) unlisted
  · rw [apply_publicationBatch_eq applied]

/-- A compaction that fails has changed nothing, or has committed and left only the pointer
behind, which any later reconciliation that succeeds brings up to the target. -/
theorem tryCompactCompletedMarkSet_atomic (writer : VerifyingWriter P σ) (reader : CompactionReader)
    (fault : Option PointerFault) (catalog : InMemoryCatalog) (manager : GenerationManager)
    (source target : UInt32) (live : List (ContentId × ObjectLocation)) (state : σ)
    {final : Compaction σ}
    (compacts : tryCompactCompletedMarkSet P writer.toCompactionWriter reader target fault catalog
      manager source live state = final)
    (free : CopiesCollisionFree P reader (writer.read final.writer) live final.catalog) :
    (∀ outcome, final.result = .ok outcome →
      Compacted P reader (writer.read final.writer) target live catalog final.catalog) ∧
    (∀ e, final.result = .error e → final.catalog = catalog ∨
      Compacted P reader (writer.read final.writer) target live catalog final.catalog ∧
      (∃ outcome, tryCompactCompletedMarkSet P writer.toCompactionWriter reader target none catalog
        manager source live state =
          ⟨final.writer, final.catalog, manager.publishActive target, .ok outcome⟩) ∧
      ∀ later current manager' generation,
        tryReconcileActiveGeneration later final.catalog current = (manager', .ok generation) →
          manager'.active = some target) := by
  unfold tryCompactCompletedMarkSet at compacts ⊢
  rcases plan : checkPlan target catalog source live with refused | _
  · subst compacts
    simp [plan]
  rcases staged : stageShadows P writer.toCompactionWriter reader target state live with
    ⟨state', refused | shadows⟩
  · subst compacts
    simp [plan, staged]
  rcases applied : catalog.apply (publicationBatch target shadows) with refused | catalog'
  · subst compacts
    simp [plan, staged, tryPublishGeneration, applied]
  have committed : final.catalog = catalog' ∧ final.writer = state' := by
    subst compacts
    rw [plan, staged]
    simp only [tryPublishGeneration, applied]
    rcases fault with _ | _ | _ <;> exact ⟨rfl, rfl⟩
  obtain ⟨rfl, rfl⟩ := committed
  have whole := compacted_of_staged plan staged applied free
  refine ⟨fun _ _ => whole, fun e failed => .inr ⟨whole, ?_, ?_⟩⟩
  · exact ⟨⟨source, target, shadows.length⟩,
      by simp only [tryPublishGeneration, applied, GenerationManager.tryPublishActive]⟩
  · exact fun later current manager' generation repaired =>
      tryReconcileActiveGeneration_active whole.current repaired

open ChunkWriter (emptyBlob)

def firstGeneration : InMemoryCatalog :=
  { metas := AList.singleton currentGenerationMetaKey (u32 1) }

def blobLive : LiveObjects :=
  [(emptyBlob.contentId, emptyBlob.locationAt ⟨1, 0, 0, 0⟩ 64)]

/-- One blob compacted from generation 1 to 2, with a pointer that cannot be written. -/
def stalePointer : Compaction ChunkWriter :=
  tryCompactCompletedMarkSet .reference (verifyingDestination .reference).toCompactionWriter
    (fun _ _ => .ok emptyBlob) 2 (some (.beforeRename "No space left on device")) firstGeneration {}
    1 blobLive (ChunkWriter.create ⟨2, 0, 0, 0⟩)

theorem stalePointer_repaired :
    stalePointer.result = .error (.io "No space left on device") ∧
      Compacted .reference (fun _ _ => .ok emptyBlob)
        ((verifyingDestination .reference).read stalePointer.writer) 2 blobLive firstGeneration
        stalePointer.catalog ∧
      stalePointer.manager.active = none ∧
      (tryReconcileActiveGeneration none stalePointer.catalog stalePointer.manager).1.active =
        some 2 := by
  have failed : stalePointer.result = .error (.io "No space left on device") := by decide +kernel
  have copied : (stalePointer.catalog.objectLocation emptyBlob.contentId).map
      ((verifyingDestination .reference).read stalePointer.writer) = some (.ok emptyBlob) := by
    decide +kernel
  have free : CopiesCollisionFree .reference (fun _ _ => .ok emptyBlob)
      ((verifyingDestination .reference).read stalePointer.writer) blobLive
      stalePointer.catalog := by
    intro id location shadow record copy raw raw' member read decodes located readBack decodes' _
    obtain ⟨rfl, _⟩ := Prod.mk.inj (List.mem_singleton.mp member)
    obtain rfl := ok.inj read
    rw [located, Option.map_some, readBack, Option.some.injEq, ok.injEq] at copied
    rw [copied, decodes] at decodes'
    exact ok.inj decodes'
  have atomic := (tryCompactCompletedMarkSet_atomic (verifyingDestination .reference)
    (fun _ _ => .ok emptyBlob) (some (.beforeRename "No space left on device")) firstGeneration {}
    1 2 blobLive (ChunkWriter.create ⟨2, 0, 0, 0⟩) stalePointer.eq_1.symm free).2 _ failed
  have changed : stalePointer.catalog.currentGeneration ≠ firstGeneration.currentGeneration := by
    decide +kernel
  have reconciled : (tryReconcileActiveGeneration none stalePointer.catalog
    stalePointer.manager).2 =
      .ok (some 2) := by decide +kernel
  rcases atomic with same | ⟨compacted, _, repaired⟩
  · exact absurd (congrArg InMemoryCatalog.currentGeneration same) changed
  · refine ⟨failed, compacted, by decide +kernel, ?_⟩
    generalize outcome :
      tryReconcileActiveGeneration none stalePointer.catalog stalePointer.manager =
        reached at reconciled
    obtain ⟨manager', result⟩ := reached
    exact repaired none stalePointer.manager manager' (some 2)
      (outcome.trans (by rw [← reconciled]))
end Atomicity
end ReflinkForest
