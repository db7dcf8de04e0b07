import ReflinkForest.Maintenance.Compaction
import ReflinkForest.Maintenance.MarkCompleteness

/-! The mark set marks nothing else: what it holds is reachable, where the catalog says, and a plan
that compaction accepts. -/
namespace ReflinkForest
open Bytes Except

section Marked
variable {P : Primitives} {catalog : InMemoryCatalog} {manifests : ManifestSource}
  {reader : CompactionReader} {retained : List RetainedObjectRef} {limits : MarkLimits}
  {marked : LiveObjects}

theorem completedMarkSet_reached
    (h : completedMarkSet P catalog manifests reader retained limits = .ok marked) {id : ContentId}
    {location : ObjectLocation} (mem : (id, location) ∈ marked) :
    ∃ reference, MarkReachable P catalog manifests reader retained reference ∧
      catalog.oidAlias reference.repository reference.oid = some id := by
  obtain ⟨generation, final, _, inv, mem_iff⟩ := completedMarkSet_marking h
  have known : id ∈ final.locations := by
    apply AList.lookup_isSome.mp
    rw [(mem_iff id location).mp mem]
    rfl
  obtain ⟨reference, visited, _, _, _, resolves, _⟩ := inv.expanded id known
  exact ⟨reference, inv.reached reference (List.mem_append_left _ visited), resolves.aliased⟩

theorem completedMarkSet_ascending
    (h : completedMarkSet P catalog manifests reader retained limits = .ok marked) :
    marked.Pairwise fun a b => a.1 < b.1 := by
  simp only [completedMarkSet, bind_eq_ok_iff, ok.injEq] at h
  obtain ⟨_, _, _, _, walk, _, rfl⟩ := h
  exact walk.locations.pairwise_sortedBy ContentId.key_injective
end Marked

section Plan
variable {σ : Type} {P : Primitives} {writer : CompactionWriter σ} {reader : CompactionReader}
  {source target : UInt32} {live : LiveObjects}

theorem validateLive_of_ascending (previous : Option ContentId)
    (ascending : live.Pairwise fun a b => a.1 < b.1)
    (above : ∀ p ∈ previous, ∀ entry ∈ live, p < entry.1)
    (inside : ∀ entry ∈ live, entry.2.generation = source) :
    validateLive source previous live = .ok () := by
  induction live generalizing previous with
  | nil => rfl
  | cons head live ih =>
    obtain ⟨first, rest⟩ := List.pairwise_cons.mp ascending
    have here : ∀ p ∈ previous, p < head.1 := fun p mem => above p mem head List.mem_cons_self
    have located := inside head List.mem_cons_self
    have later : validateLive source (some head.1) live = .ok () := by
      apply ih _ rest
      · intro p mem entry
        cases mem
        exact first entry
      · intro entry mem
        exact inside entry (List.mem_cons_of_mem _ mem)
    simp only [validateLive, bind_eq_ok_iff, exists_require]
    exact ⟨here, located, later⟩

/-- Errors of a plan that was refused before anything was read. -/
def MaintenanceError.RefusesPlan : MaintenanceError → Prop
  | .invalidCompactionPlan _ => True
  | .compactionSourceIsNotCurrent _ _ => True
  | .compactionSourceLocation _ _ => True
  | _ => False

variable {error : MaintenanceError} {state : σ} {manager : GenerationManager}

theorem readLive_error {id : ContentId} {location : ObjectLocation}
    (h : readLive P reader id location = .error error) : ¬ error.RefusesPlan := by
  simp only [readLive, bind_eq_error_iff, mapErr_eq_error, require_eq_error]
    at h
  rcases h with ⟨_, _, rfl⟩ | ⟨_, _, ⟨_, rfl⟩ | ⟨_, _, ⟨_, _, rfl⟩ | ⟨_, _, failed⟩⟩⟩
  · exact False.elim
  · exact False.elim
  · exact False.elim
  · cases failed

theorem copyLive_error {state' : σ}
    (h : copyLive P writer reader target state live = (state', .error error)) :
    ¬ error.RefusesPlan := by
  induction live generalizing state with
  | nil => cases h
  | cons head live ih =>
    simp only [copyLive] at h
    split at h
    · rename_i read
      cases h
      exact readLive_error read
    split at h
    · cases h
      exact False.elim
    split at h
    · split at h
      · rename_i copied
        cases h
        exact ih copied
      · cases h
    · cases h
      exact False.elim

theorem verifyShadows_error (h : verifyShadows writer state live = .error error) :
    ¬ error.RefusesPlan := by
  induction live with
  | nil => cases h
  | cons head live ih =>
    rw [verifyShadows] at h
    cases verified : writer.verify state head.1 head.2 with
    | error e =>
      rw [verified] at h
      cases h
      exact False.elim
    | ok _ =>
      rw [verified, mapErr_ok, ok_bind] at h
      exact ih h

theorem publishGeneration_error {catalog : InMemoryCatalog}
    (h : publishGeneration catalog manager target live = .error error) :
    ¬ error.RefusesPlan := by
  cases applied : catalog.apply (publicationBatch target live) with
  | error e =>
    rw [publishGeneration, applied] at h
    cases h
    exact False.elim
  | ok catalog' =>
    rw [publishGeneration, applied] at h
    cases h

/-- Behind an accepted plan no step refuses it. -/
theorem compactCompletedMarkSet_of_plan {catalog : InMemoryCatalog}
    (accepted : checkPlan target catalog source live = .ok ())
    (h : (compactCompletedMarkSet P writer reader target catalog manager source live state).result =
      .error error) : ¬ error.RefusesPlan := by
  simp only [compactCompletedMarkSet, accepted] at h
  split at h
  · rename_i copied
    cases h
    exact copyLive_error copied
  split at h
  · cases h
    exact False.elim
  split at h
  · rename_i verified
    cases h
    exact verifyShadows_error verified
  split at h
  · rename_i published
    cases h
    exact publishGeneration_error published
  · cases h
end Plan

/-- What the mark phase returns is reachable content at its catalog location in the current
generation, in ascending order, and compaction from that generation to any larger one does not
refuse it as a plan. -/
theorem completedMarkSet_sound (P : Primitives) {catalog : InMemoryCatalog}
    {manifests : ManifestSource} {reader : CompactionReader} {retained : List RetainedObjectRef}
    {limits : MarkLimits} {marked : List (ContentId × ObjectLocation)}
    (finished : completedMarkSet P catalog manifests reader retained limits = .ok marked) :
    (∀ id location, (id, location) ∈ marked →
      (∃ reference, MarkReachable P catalog manifests reader retained reference ∧
        catalog.oidAlias reference.repository reference.oid = some id) ∧
      catalog.objectLocation id = some location ∧
      catalog.currentGeneration = some location.generation) ∧
    marked.Pairwise (fun a b => a.1 < b.1) ∧
    ∀ {σ : Type} (writer : CompactionWriter σ) (reader' : CompactionReader)
      (manager : GenerationManager) (source target : UInt32) (state : σ) (error : MaintenanceError),
      catalog.currentGeneration = some source → source < target →
      (compactCompletedMarkSet P writer reader' target catalog manager source marked state).result =
        .error error → ¬ error.RefusesPlan := by
  have ascending := completedMarkSet_ascending finished
  refine ⟨?_, ascending, ?_⟩
  · intro id location member
    exact ⟨completedMarkSet_reached finished member, completedMarkSet_located finished member⟩
  · intro σ writer reader' manager source target state error current larger
    apply compactCompletedMarkSet_of_plan
    have inside : ∀ entry ∈ marked, entry.2.generation = source := by
      intro entry member
      have located := (completedMarkSet_located finished member).2
      rw [current, Option.some.injEq] at located
      exact located.symm
    have plan := validateLive_of_ascending none ascending (by simp) inside
    simp only [checkPlan, bind_eq_ok_iff, require_eq_ok, exists_const]
    exact ⟨larger, current, plan⟩

theorem sharedTag_sound : ∃ marked,
    completedMarkSet .reference (sharedTagCatalog [taggedBlob, blobTag]) sharedTagManifests
      sharedTagReader [] {} = .ok marked ∧ marked.Pairwise fun a b => a.1 < b.1 := by
  obtain ⟨marked, finished⟩ := sharedTag_finishes.1
  exact ⟨marked, finished, (completedMarkSet_sound .reference finished).2.1⟩
end ReflinkForest
