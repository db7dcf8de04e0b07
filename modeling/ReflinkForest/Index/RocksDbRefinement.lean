import ReflinkForest.Index.RocksDbCatalog
import ReflinkForest.Lib.Simulation

/-! The RocksDB catalog refines the in-memory one: each column family stores maps of it under the
encodings of format 1. -/
namespace ReflinkForest
open Bytes ColumnStore Catalog Except InMemoryCatalog

def pinKey : WorkspaceId ⊕ GcPinId → Str := Sum.elim encodeWorkspacePinKey encodeGcPinKey

/-- The metadata family with the rebuild marker in its place. -/
def metaView (mem : InMemoryCatalog) (key : Str) : Option Str :=
  if key = objectLocationRebuildMetaKey then
    if mem.objectLocationRebuildInProgress then some [objectLocationRebuildInProgressMarker]
    else none
  else mem.metas.lookup key

/-- What a column family holds for an in-memory catalog. -/
def Held (mem : InMemoryCatalog) (m : FinMap Str Str) : ColumnFamily → Prop
  | .objectLocations =>
    Stores encodeObjectLocationKey encodeObjectLocationValue mem.objects.lookup m
  | .oidAliases =>
    Stores (fun k : RepoId × GitOid => encodeOidAliasKey k.1 k.2) encodeContentIdValue
      mem.aliases.lookup m
  | .repositories => Stores encodeRepositoryKey encodeOpaqueValue mem.repositories.lookup m
  | .repoSnapshots =>
    Stores (fun k : RepoId × SnapshotId => encodeRepositorySnapshotKey k.1 k.2)
      encodeSnapshotVisibilityValue mem.repositorySnapshots.lookup m
  | .refs => m = ∅
  | .chunks =>
    Stores (fun k : UInt32 × UInt64 => encodeChunkKey k.1 k.2) encodeChunkValue mem.chunks.lookup m
  | .cacheObjects => m = ∅
  | .workspaces => Stores encodeWorkspaceKey encodeOpaqueValue mem.workspaces.lookup m
  | .workspaceNames =>
    Stores encodeWorkspaceNameKey encodeWorkspaceIdValue mem.workspaceNames.lookup m
  | .pins =>
    Stores pinKey encodeWorkspacePinValue (Sum.elim mem.workspacePins.lookup mem.gcPins.lookup) m
  | .jobs => Stores encodeJobKey encodeOpaqueValue mem.jobs.lookup m
  | .metas => Stores encodeMetaKey encodeOpaqueValue (metaView mem) m

structure Refines (rocks : RocksDbCatalog) (mem : InMemoryCatalog) : Prop where
  held : ∀ family, Held mem (rocks.db.families family) family
  unmarked : mem.metas.lookup objectLocationRebuildMetaKey = none

theorem pinKey_injective : Function.Injective pinKey := by
  have lengths (w : WorkspaceId) (g : GcPinId) : encodeWorkspacePinKey w ≠ encodeGcPinKey g := by
    intro same
    have sizes := congrArg List.length same
    simp [encodeWorkspacePinKey, encodeWorkspaceKey, encodeGcPinKey] at sizes
  exact Function.Injective.sumElim encodeWorkspaceKey_injective encodeGcPinKey_injective lengths

theorem refines_empty : Refines {} {} := by
  refine ⟨fun family => ?_, rfl⟩
  cases family
  case refs | cacheObjects => rfl
  case pins => exact .empty fun k => by cases k <;> rfl
  case metas => exact .empty fun k => by simp [metaView]
  all_goals exact .empty fun k => rfl

section Writes
variable {rocks : RocksDbCatalog} {mem mem' : InMemoryCatalog} {op : Operation}
  {batch : List Operation}

open RocksDbCatalog

/-- An operation changes what one family holds. -/
theorem held_stage_of_ne {m : FinMap Str Str} {family : ColumnFamily}
    (different : family ≠ (writeOf op).family) (held : Held mem m family) :
    Held (mem.stage op) m family := by
  cases op <;> cases family <;> first | exact absurd rfl different | exact held

theorem metaView_putMeta {key : Str} (value : Str) (direct : key ≠ objectLocationRebuildMetaKey)
    (k : Str) : metaView (mem.stage (.putMeta key value)) k =
      if k = key then some value else metaView mem k := by
  by_cases marker : k = objectLocationRebuildMetaKey
  · have other : k ≠ key := fun same => direct (same ▸ marker)
    rw [if_neg other, metaView, metaView, if_pos marker, if_pos marker]
    rfl
  · rw [metaView, metaView, if_neg marker, if_neg marker]
    exact FinMap.lookup_insert_eq mem.metas key k value

theorem held_stage_self (direct : writesRebuildMarker op = false)
    (held : ∀ family, Held mem (rocks.db.families family) family) :
    Held (mem.stage op) ((rocks.db.writeOne (writeOf op)).families (writeOf op).family)
      (writeOf op).family := by
  have inserted {K V : Type} [DecidableEq K] {m : FinMap K V} {k : K} {v : V} (k' : K) :
      (m.insert k v).lookup k' = if k' = k then some v else m.lookup k' :=
    FinMap.lookup_insert_eq m k k' v
  have erased {K V : Type} [DecidableEq K] {m : FinMap K V} {k : K} (k' : K) :
      (m.erase k).lookup k' = if k' = k then none else m.lookup k' :=
    FinMap.lookup_erase_eq m k k'
  cases op with
  | objectLocation id location =>
    exact (held .objectLocations).insert encodeObjectLocationKey_injective id location inserted
  | oidAlias repo oid id =>
    exact (held .oidAliases).insert encodeOidAliasKey_injective (repo, oid) id inserted
  | repository id record =>
    exact (held .repositories).insert encodeRepositoryKey_injective id record inserted
  | deleteRepository id => exact (held .repositories).erase encodeRepositoryKey_injective id erased
  | repositorySnapshot repo snapshot visibility =>
    exact (held .repoSnapshots).insert encodeRepositorySnapshotKey_injective (repo, snapshot)
      visibility inserted
  | deleteRepositorySnapshot repo snapshot =>
    exact (held .repoSnapshots).erase encodeRepositorySnapshotKey_injective (repo, snapshot) erased
  | chunkMetadata generation chunkId metadata =>
    exact (held .chunks).insert encodeChunkKey_injective (generation, chunkId) metadata inserted
  | putMeta key value =>
    have other : key ≠ objectLocationRebuildMetaKey := of_decide_eq_false direct
    exact (held .metas).insert encodeOpaqueKey_injective key value (metaView_putMeta value other)
  | workspace id record =>
    exact (held .workspaces).insert encodeWorkspaceKey_injective id record inserted
  | workspaceName name id =>
    exact (held .workspaceNames).insert encodeOpaqueKey_injective name id inserted
  | workspacePin id generation =>
    refine (held .pins).insert pinKey_injective (.inl id) generation fun k => ?_
    cases k <;> simp [stage, inserted]
  | deleteWorkspacePin id =>
    refine (held .pins).erase pinKey_injective (.inl id) fun k => ?_
    cases k <;> simp [stage, erased]
  | gcPin id generation =>
    refine (held .pins).insert pinKey_injective (.inr id) generation fun k => ?_
    cases k <;> simp [stage, inserted]
  | deleteGcPin id =>
    refine (held .pins).erase pinKey_injective (.inr id) fun k => ?_
    cases k <;> simp [stage, erased]
  | job jobId record =>
    exact (held .jobs).insert encodeOpaqueKey_injective jobId record inserted

theorem Refines.writeOne (refines : Refines rocks mem)
    (direct : writesRebuildMarker op = false) :
    Refines ⟨rocks.db.writeOne (writeOf op)⟩ (mem.stage op) := by
  constructor
  · intro family
    by_cases here : family = (writeOf op).family
    · exact here ▸ held_stage_self direct refines.held
    · rw [Database.families_writeOne_of_ne _ here]
      exact held_stage_of_ne here (refines.held family)
  · cases op with
    | putMeta key value =>
      have other : objectLocationRebuildMetaKey ≠ key := Ne.symm (of_decide_eq_false direct)
      exact (AList.lookup_insert_ne other).trans refines.unmarked
    | _ => exact refines.unmarked

theorem Refines.write (refines : Refines rocks mem)
    (direct : batch.any writesRebuildMarker = false) :
    Refines ⟨rocks.db.write (batch.map writeOf)⟩ (batch.foldl stage mem) := by
  induction batch generalizing rocks mem with
  | nil => exact refines
  | cons op batch ih =>
    rw [List.any_cons, Bool.or_eq_false_iff] at direct
    exact ih (refines.writeOne direct.1) direct.2
end Writes

section Calls
variable {rocks : RocksDbCatalog} {mem staged : InMemoryCatalog} {batch : List Operation}

theorem Refines.readObjectLocationRebuildState (refines : Refines rocks mem) :
    rocks.readObjectLocationRebuildState = .ok mem.objectLocationRebuildState := by
  have marker := (refines.held .metas).lookup objectLocationRebuildMetaKey
  rw [metaView, if_pos rfl] at marker
  unfold RocksDbCatalog.readObjectLocationRebuildState Database.get
  rw [marker, objectLocationRebuildState]
  cases mem.objectLocationRebuildInProgress <;> rfl

theorem objectLocationRebuildState_eq_inProgress :
    mem.objectLocationRebuildState = .inProgress ↔
      mem.objectLocationRebuildInProgress = true := by
  unfold objectLocationRebuildState
  cases mem.objectLocationRebuildInProgress <;> simp

theorem objectLocationRebuildState_ne_inProgress :
    mem.objectLocationRebuildState ≠ .inProgress ↔
      mem.objectLocationRebuildInProgress = false := by
  rw [Ne, objectLocationRebuildState_eq_inProgress, Bool.not_eq_true]

section
variable (refines : Refines rocks mem)
include refines

/-- Pending aliases over the stored ones are those of the staged copy. -/
theorem Refines.existingAlias
    {pending : FinMap (RepoId × GitOid) ContentId}
    (pends : ∀ k, (pending.lookup k).or (mem.aliases.lookup k) = staged.aliases.lookup k)
    (repo : RepoId) (oid : GitOid) :
    rocks.existingAlias pending repo oid = .ok (staged.aliases.lookup (repo, oid)) := by
  have stored := (refines.held .oidAliases).lookup (repo, oid)
  unfold RocksDbCatalog.existingAlias Database.get
  rw [← pends, stored]
  cases pending.lookup (repo, oid) with
  | some id => rfl
  | none =>
    cases mem.aliases.lookup (repo, oid) with
    | none => rfl
    | some id =>
      dsimp only [Option.map_some]
      rw [decode_encodeContentIdValue]
      rfl

/-- The separate pass over the aliases refuses what the staged copy refuses. -/
theorem Refines.checkAliases
    {pending : FinMap (RepoId × GitOid) ContentId}
    (pends : ∀ k, (pending.lookup k).or (mem.aliases.lookup k) = staged.aliases.lookup k) :
    rocks.checkAliases pending batch = (staged.stageAll batch).map fun _ => () := by
  induction batch generalizing pending staged with
  | nil => rfl
  | cons op batch ih =>
    cases op with
    | oidAlias repo oid requested =>
      have rest := @ih (staged.stage (.oidAlias repo oid requested))
        (pending.insert (repo, oid) requested) fun k => by
          rw [FinMap.lookup_insert_eq, stage, FinMap.lookup_insert_eq, ← pends]
          split <;> rfl
      rw [RocksDbCatalog.checkAliases, refines.existingAlias pends, ok_bind, rest,
        stageAll, aliasConflict]
      cases staged.aliases.lookup (repo, oid) with
      | none => rfl
      | some existing =>
        by_cases same : existing = requested
        · simp [same, require_pos]
        · simp [same, require_neg, Except.map]
    | _ => exact ih pends

theorem Refines.apply (batch : List Operation) :
    Simulation.Related Refines (rocks.apply batch) (mem.apply batch) := by
  unfold RocksDbCatalog.apply InMemoryCatalog.apply
  rw [refines.readObjectLocationRebuildState, ok_bind]
  refine .require objectLocationRebuildState_ne_inProgress fun _ => ?_
  refine .require Iff.rfl fun direct => ?_
  rw [@Refines.checkAliases rocks mem mem batch refines ∅ fun k => by simp]
  cases staged : mem.stageAll batch with
  | error e => exact .error e
  | ok mem' =>
    rw [stageAll_eq_foldl staged]
    exact .ok (refines.write direct)

theorem Refines.checkRebuilt (seen : List ContentId)
    (entries : List ObjectLocationEntry) :
    rocks.checkRebuilt seen entries = InMemoryCatalog.checkRebuilt mem.objects seen entries := by
  induction entries generalizing seen with
  | nil => rfl
  | cons entry entries ih =>
    have stored := (refines.held .objectLocations).lookup entry.contentId
    rw [RocksDbCatalog.checkRebuilt, InMemoryCatalog.checkRebuilt, ih, Database.get, stored]
    simp only [Option.map_eq_none_iff]

/-- The range from the version to the next one holds every location. -/
theorem Refines.clear :
    Refines rocks.clearObjectLocationsAndMarkRebuild (mem.withLocations ∅ true) := by
  refine ⟨fun family => ?_, refines.unmarked⟩
  have before := refines.held family
  cases family
  case objectLocations =>
    have cleared (id : ContentId) : (mem.withLocations ∅ true).objects.lookup id = none := rfl
    refine Stores.deleteRange before (fun id => ?_) cleared
    constructor
    · rw [encodeObjectLocationKey, ← not_lt, List.cons_lt_cons_iff]
      simp
    · exact List.cons_lt_cons_iff.mpr (.inl (by decide))
  case metas =>
    refine before.insert encodeOpaqueKey_injective objectLocationRebuildMetaKey
      [objectLocationRebuildInProgressMarker] fun key => ?_
    unfold metaView
    split <;> rfl
  all_goals exact before

theorem Refines.finish :
    Refines ⟨rocks.db.write [.delete .metas (encodeMetaKey objectLocationRebuildMetaKey)]⟩
      (mem.withLocations mem.objects false) := by
  refine ⟨fun family => ?_, refines.unmarked⟩
  have before := refines.held family
  cases family
  case metas =>
    refine before.erase encodeOpaqueKey_injective objectLocationRebuildMetaKey
      fun key => ?_
    unfold metaView
    split <;> rfl
  all_goals exact before

omit refines in
theorem foldl_stage_objectLocation (mem : InMemoryCatalog) (entries : List ObjectLocationEntry) :
    (entries.map fun e => Operation.objectLocation e.contentId e.location).foldl
        stage mem =
      { mem with
        objects := mem.objects.insertAll (entries.map fun e => (e.contentId, e.location)) } := by
  induction entries generalizing mem with
  | nil => rfl
  | cons entry entries ih => exact ih _

theorem Refines.append (entries : List ObjectLocationEntry) :
    Refines ⟨rocks.db.write (entries.map fun entry => .put .objectLocations
        (encodeObjectLocationKey entry.contentId) (encodeObjectLocationValue entry.location))⟩
      { mem with
        objects := mem.objects.insertAll (entries.map fun e => (e.contentId, e.location)) } := by
  have direct : (entries.map fun e => Operation.objectLocation e.contentId e.location).any
      writesRebuildMarker = false := by simp [writesRebuildMarker]
  have written := refines.write direct
  rw [foldl_stage_objectLocation, List.map_map] at written
  exact written

theorem Refines.rebuildStep (step : InMemoryCatalog.RebuildStep) :
    Simulation.Related Refines (rocks.rebuildStep step) (mem.rebuildStep step) := by
  cases step with
  | beginRebuild =>
    rw [RocksDbCatalog.rebuildStep, RocksDbCatalog.beginObjectLocationRebuild,
      refines.readObjectLocationRebuildState, ok_bind]
    exact .require objectLocationRebuildState_ne_inProgress fun _ => .ok refines.clear
  | restartRebuild =>
    rw [RocksDbCatalog.rebuildStep, RocksDbCatalog.restartObjectLocationRebuild,
      refines.readObjectLocationRebuildState, ok_bind]
    refine .require objectLocationRebuildState_eq_inProgress fun rebuilding => .ok ?_
    rw [objectLocationRebuildState_eq_inProgress] at rebuilding
    have cleared := refines.clear
    rw [← rebuilding] at cleared
    exact cleared
  | append entries =>
    rw [RocksDbCatalog.rebuildStep, RocksDbCatalog.appendRebuiltObjectLocations,
      refines.readObjectLocationRebuildState, ok_bind]
    refine .require objectLocationRebuildState_eq_inProgress fun _ => ?_
    rw [refines.checkRebuilt]
    cases InMemoryCatalog.checkRebuilt mem.objects [] entries with
    | error e => exact .error e
    | ok => exact .ok (refines.append entries)
  | finish =>
    rw [RocksDbCatalog.rebuildStep, RocksDbCatalog.finishObjectLocationRebuild,
      refines.readObjectLocationRebuildState, ok_bind]
    exact .require objectLocationRebuildState_eq_inProgress fun _ => .ok refines.finish

theorem Refines.call (call : CatalogCall) :
    Simulation.Related Refines (rocks.call call) (mem.call call) := by
  cases call with
  | apply batch => exact refines.apply batch
  | rebuild step => exact refines.rebuildStep step
end
end Calls
end ReflinkForest
