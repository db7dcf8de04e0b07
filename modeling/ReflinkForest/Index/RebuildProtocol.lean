import ReflinkForest.Index.Catalog
import ReflinkForest.Lib.Selection

/-! The locations-only rebuild of a catalog: locations are cleared behind a marker and shown again
when it is removed. -/
namespace ReflinkForest
open Except List

inductive ObjectLocationRebuildState where
  | idle | inProgress
  deriving DecidableEq

structure ObjectLocationEntry where
  contentId : ContentId
  location : ObjectLocation
  deriving DecidableEq

structure OidAliasEntry where
  repository : RepoId
  oid : GitOid
  contentId : ContentId

structure ChunkEntry where
  generation : UInt32
  chunkId : UInt64
  metadata : ChunkMetadata

namespace InMemoryCatalog
def objectLocationRebuildState (c : InMemoryCatalog) : ObjectLocationRebuildState :=
  if c.objectLocationRebuildInProgress then .inProgress else .idle

def visitObjectLocations (c : InMemoryCatalog) :
    Except CatalogError (List ObjectLocationEntry) := do
  .require (c.objectLocationRebuildInProgress = false) .objectLocationRebuildInProgress
  .ok ((c.objects.sortedBy fun e => e.1.key).map fun e => ⟨e.1, e.2⟩)

def visitOidAliases (c : InMemoryCatalog) : List OidAliasEntry :=
  (c.aliases.sortedBy fun e =>
    e.1.1.bytes.toList ++ e.1.2.algorithm.toTag :: e.1.2.bytes).map fun e => ⟨e.1.1, e.1.2, e.2⟩

def visitChunks (c : InMemoryCatalog) : Except CatalogError (List ChunkEntry) := do
  .require (c.objectLocationRebuildInProgress = false) .objectLocationRebuildInProgress
  .ok ((c.chunks.sortedBy fun e => toLex (e.1.1.toNat, e.1.2.toNat)).map
    fun e => ⟨e.1.1, e.1.2, e.2⟩)

def beginObjectLocationRebuild (c : InMemoryCatalog) : Except CatalogError InMemoryCatalog := do
  .require (c.objectLocationRebuildInProgress = false) .objectLocationRebuildInProgress
  .ok { c with objects := ∅, objectLocationRebuildInProgress := true }

def restartObjectLocationRebuild (c : InMemoryCatalog) : Except CatalogError InMemoryCatalog := do
  .require (c.objectLocationRebuildInProgress = true) .objectLocationRebuildNotInProgress
  .ok { c with objects := ∅ }

/-- The loop that refuses a content ID of this batch or of an earlier one. -/
def checkRebuilt (objects : FinMap ContentId ObjectLocation) :
    List ContentId → List ObjectLocationEntry → Except CatalogError Unit
  | _, [] => .ok ()
  | seen, entry :: entries => do
    .require (entry.contentId ∉ seen ∧ objects.lookup entry.contentId = none)
      (.duplicateRebuiltObjectLocation entry.contentId)
    checkRebuilt objects (entry.contentId :: seen) entries

def appendRebuiltObjectLocations (c : InMemoryCatalog) (entries : List ObjectLocationEntry) :
    Except CatalogError InMemoryCatalog := do
  .require (c.objectLocationRebuildInProgress = true) .objectLocationRebuildNotInProgress
  checkRebuilt c.objects [] entries
  .ok { c with objects := c.objects.insertAll (entries.map fun e => (e.contentId, e.location)) }

def finishObjectLocationRebuild (c : InMemoryCatalog) : Except CatalogError InMemoryCatalog := do
  .require (c.objectLocationRebuildInProgress = true) .objectLocationRebuildNotInProgress
  .ok { c with objectLocationRebuildInProgress := false }

inductive RebuildStep where
  | beginRebuild
  | restartRebuild
  | append (entries : List ObjectLocationEntry)
  | finish

def rebuildStep (c : InMemoryCatalog) : RebuildStep → Except CatalogError InMemoryCatalog
  | .beginRebuild => c.beginObjectLocationRebuild
  | .restartRebuild => c.restartObjectLocationRebuild
  | .append entries => c.appendRebuiltObjectLocations entries
  | .finish => c.finishObjectLocationRebuild

/-- Catalog writes in order, up to the first that is refused. -/
def rebuildSteps (c : InMemoryCatalog) :
    List RebuildStep → InMemoryCatalog × Except CatalogError Unit
  | [] => (c, .ok ())
  | step :: steps =>
    match c.rebuildStep step with
    | .error e => (c, .error e)
    | .ok c => c.rebuildSteps steps

/-- The catalog with other locations and another rebuild state. -/
def withLocations (c : InMemoryCatalog) (objects : FinMap ContentId ObjectLocation)
    (rebuilding : Bool) : InMemoryCatalog :=
  { c with objects := objects, objectLocationRebuildInProgress := rebuilding }

section Lemmas
variable {c c' : InMemoryCatalog} {objects : FinMap ContentId ObjectLocation} {rebuilding : Bool}

theorem rebuildStep_frame {step : RebuildStep} (h : c.rebuildStep step = .ok c') :
    ∃ objects rebuilding, c' = c.withLocations objects rebuilding := by
  cases step <;>
    simp only [rebuildStep, beginObjectLocationRebuild, restartObjectLocationRebuild,
      appendRebuiltObjectLocations, finishObjectLocationRebuild, bind_eq_ok_iff,
      require_eq_ok, ok.injEq] at h
  case append entries =>
    obtain ⟨_, _, _, _, rfl⟩ := h
    exact ⟨_, c.objectLocationRebuildInProgress, rfl⟩
  all_goals
    obtain ⟨_, _, rfl⟩ := h
    exact ⟨_, _, rfl⟩

theorem rebuildSteps_frame (c : InMemoryCatalog) (steps : List RebuildStep) :
    ∃ objects rebuilding, (c.rebuildSteps steps).1 = c.withLocations objects rebuilding := by
  induction steps generalizing c with
  | nil => exact ⟨c.objects, c.objectLocationRebuildInProgress, rfl⟩
  | cons step steps ih =>
    unfold rebuildSteps
    split
    · exact ⟨c.objects, c.objectLocationRebuildInProgress, rfl⟩
    · rename_i next done
      obtain ⟨_, _, rfl⟩ := rebuildStep_frame done
      obtain ⟨objects, rebuilding, reached⟩ := ih (c.withLocations _ _)
      exact ⟨objects, rebuilding, reached⟩

theorem checkRebuilt_ok {seen : List ContentId} {entries : List ObjectLocationEntry}
    (fresh : ∀ entry ∈ entries, entry.contentId ∉ seen ∧ objects.lookup entry.contentId = none)
    (distinct : (entries.map ObjectLocationEntry.contentId).Nodup) :
    checkRebuilt objects seen entries = .ok () := by
  induction entries generalizing seen with
  | nil => rfl
  | cons entry entries ih =>
    rw [map_cons, nodup_cons] at distinct
    obtain ⟨here, rest⟩ := forall_mem_cons.mp fresh
    rw [checkRebuilt, require_pos here, ok_bind]
    refine ih (fun later mem => ⟨fun again => ?_, (rest later mem).2⟩) distinct.2
    rcases mem_cons.mp again with same | before
    · exact distinct.1 (same ▸ mem_map_of_mem mem)
    · exact (rest later mem).1 before

/-- Batches of distinct new locations are all taken. -/
theorem rebuildSteps_append {batches : List (List ObjectLocationEntry)} {rest : List RebuildStep}
    (distinct : (batches.flatten.map ObjectLocationEntry.contentId).Nodup)
    (fresh : ∀ entry ∈ batches.flatten, objects.lookup entry.contentId = none) :
    (c.withLocations objects true).rebuildSteps (batches.map .append ++ rest) =
      (c.withLocations (objects.insertAll
        (batches.flatten.map fun e => (e.contentId, e.location))) true).rebuildSteps rest := by
  induction batches generalizing objects with
  | nil => rfl
  | cons batch batches ih =>
    rw [flatten_cons, map_append, nodup_append'] at distinct
    rw [flatten_cons] at fresh
    have taken : (c.withLocations objects true).rebuildStep (.append batch) =
        .ok (c.withLocations (objects.insertAll (batch.map fun e => (e.contentId, e.location)))
          true) := by
      have checked : checkRebuilt objects [] batch = .ok () :=
        checkRebuilt_ok (fun e mem => ⟨not_mem_nil, fresh e (mem_append_left _ mem)⟩)
          distinct.1
      have rebuilding : (c.withLocations objects true).objectLocationRebuildInProgress = true := rfl
      rw [rebuildStep, appendRebuiltObjectLocations, require_pos rebuilding, ok_bind]
      simp only [withLocations, checked, ok_bind]
    rw [map_cons, cons_append, rebuildSteps, taken]
    simp only
    rw [ih distinct.2.1, flatten_cons, map_append, FinMap.insertAll_append]
    intro entry member
    rw [FinMap.lookup_insertAll_of_notMem]
    · exact fresh entry (mem_append_right _ member)
    · rw [map_map]
      exact fun before => distinct.2.2 before (mem_map_of_mem member)
end Lemmas
end InMemoryCatalog
end ReflinkForest
