import ReflinkForest.Index.AtomicBatches

/-! Repository deletion: one batch drops the record and the snapshots of a repository, and keeps its
aliases. -/
namespace ReflinkForest
open InMemoryCatalog

namespace InMemoryCatalog
variable {c c' : InMemoryCatalog} {r : RepoId}

/-- Keys of the snapshot records of a repository, in the order of the enumeration. -/
def snapshotKeys (c : InMemoryCatalog) (r : RepoId) : List (RepoId × SnapshotId) :=
  (c.repositorySnapshotList.filter (·.repository = r)).map fun s => (r, s.snapshot)

theorem mem_snapshotKeys {key : RepoId × SnapshotId} :
    key ∈ c.snapshotKeys r ↔ key.1 = r ∧ ∃ visibility, c.repositorySnapshots.lookup key =
      some visibility := by
  obtain ⟨repository, snapshot⟩ := key
  simp only [snapshotKeys, repositorySnapshotList, List.mem_map, List.mem_filter,
    decide_eq_true_eq, Prod.exists, FinMap.mem_sortedBy]
  constructor
  · rintro ⟨s, ⟨⟨stored, snapshot', visibility, found, rfl⟩, rfl⟩, same⟩
    obtain ⟨rfl, rfl⟩ := Prod.mk.inj same
    exact ⟨rfl, visibility, found⟩
  · rintro ⟨rfl, visibility, found⟩
    exact ⟨⟨repository, snapshot, visibility⟩,
      ⟨⟨repository, snapshot, visibility, found, rfl⟩, rfl⟩, rfl⟩

theorem foldl_stage_deleteRepositorySnapshot (snapshots : List RepositorySnapshot)
    (c : InMemoryCatalog) :
    (snapshots.map fun s => Operation.deleteRepositorySnapshot r s.snapshot).foldl stage c =
      { c with repositorySnapshots :=
          c.repositorySnapshots.eraseAll (snapshots.map fun s => (r, s.snapshot)) } := by
  induction snapshots generalizing c with
  | nil => rfl
  | cons s snapshots ih =>
    rw [List.map_cons, List.foldl_cons, ih]
    rfl

/-- Deletion succeeds outside an object-location rebuild, and what it leaves. -/
theorem deleteRepository_eq_ok_iff : c.deleteRepository r = .ok c' ↔
    c.objectLocationRebuildInProgress = false ∧
      c' = { c with
        repositories := c.repositories.erase r
        repositorySnapshots := c.repositorySnapshots.eraseAll (c.snapshotKeys r) } := by
  have direct : (Operation.deleteRepository r ::
      (c.repositorySnapshotList.filter (·.repository = r)).map
        fun s => Operation.deleteRepositorySnapshot r s.snapshot).any writesRebuildMarker =
        false := by
    simp [writesRebuildMarker]
  have free : ∀ op ∈ Operation.deleteRepository r ::
      (c.repositorySnapshotList.filter (·.repository = r)).map
        fun s => Operation.deleteRepositorySnapshot r s.snapshot,
      ∀ c, aliasConflict c op = none := by
    intro op listed c
    rcases List.mem_cons.mp listed with rfl | listed
    · rfl
    · obtain ⟨s, _, rfl⟩ := List.mem_map.mp listed
      rfl
  unfold deleteRepository
  rw [apply_eq_ok_iff, stageAll_of_no_conflict free, List.foldl_cons,
    foldl_stage_deleteRepositorySnapshot, Except.ok.injEq, @eq_comm _ _ c']
  simp only [direct, true_and]
  rfl

/-- No visibility of `r` is left, and whatever is not a record of `r` is as before. -/
structure Hides (c : InMemoryCatalog) (r : RepoId) (c' : InMemoryCatalog) : Prop where
  record : c'.repository r = none
  snapshots : ∀ snapshot, c'.repositorySnapshot r snapshot = none
  otherRecords : ∀ q, q ≠ r → c'.repository q = c.repository q
  otherSnapshots : ∀ q, q ≠ r → ∀ snapshot,
    c'.repositorySnapshot q snapshot = c.repositorySnapshot q snapshot
  otherAliases : ∀ q, q ≠ r → ∀ oid, c'.oidAlias q oid = c.oidAlias q oid
  objects : c'.objects = c.objects
  objectLocationRebuildInProgress :
    c'.objectLocationRebuildInProgress = c.objectLocationRebuildInProgress
  chunks : c'.chunks = c.chunks
  metas : c'.metas = c.metas
  workspaces : c'.workspaces = c.workspaces
  workspaceNames : c'.workspaceNames = c.workspaceNames
  workspacePins : c'.workspacePins = c.workspacePins
  gcPins : c'.gcPins = c.gcPins
  jobs : c'.jobs = c.jobs

/-- Nothing of `r` is left in the catalog, its aliases included. -/
structure Removes (c : InMemoryCatalog) (r : RepoId) (c' : InMemoryCatalog) : Prop
    extends Hides c r c' where
  aliases : ∀ oid, c'.oidAlias r oid = none

section
variable (done : c.deleteRepository r = .ok c')
include done

theorem deleteRepository_oidAlias (q : RepoId)
    (oid : GitOid) : c'.oidAlias q oid = c.oidAlias q oid := by
  obtain ⟨_, rfl⟩ := deleteRepository_eq_ok_iff.mp done
  rfl

theorem deleteRepository_repository (q : RepoId) :
    c'.repository q = if q = r then none else c.repository q := by
  obtain ⟨_, rfl⟩ := deleteRepository_eq_ok_iff.mp done
  exact FinMap.lookup_erase_eq _ _ _

theorem deleteRepository_repositorySnapshot (q : RepoId)
    (snapshot : SnapshotId) : c'.repositorySnapshot q snapshot =
      if q = r then none else c.repositorySnapshot q snapshot := by
  obtain ⟨_, rfl⟩ := deleteRepository_eq_ok_iff.mp done
  unfold repositorySnapshot
  split_ifs with same
  · by_cases stored : ∃ visibility, c.repositorySnapshots.lookup (q, snapshot) = some visibility
    · exact FinMap.lookup_eraseAll_of_mem (mem_snapshotKeys.mpr ⟨same, stored⟩) _
    · rw [FinMap.lookup_eraseAll_of_notMem fun listed => stored (mem_snapshotKeys.mp listed).2]
      exact Option.eq_none_iff_forall_ne_some.mpr (not_exists.mp stored)
  · exact FinMap.lookup_eraseAll_of_notMem (fun listed => same (mem_snapshotKeys.mp listed).1) _

theorem deleteRepository_hides : Hides c r c' := by
  have record := deleteRepository_repository done
  have snapshots := deleteRepository_repositorySnapshot done
  have aliases := deleteRepository_oidAlias done
  obtain ⟨_, rfl⟩ := deleteRepository_eq_ok_iff.mp done
  constructor
  · rw [record, if_pos rfl]
  · intro snapshot
    rw [snapshots, if_pos rfl]
  · intro q other
    rw [record, if_neg other]
  · intro q other snapshot
    rw [snapshots, if_neg other]
  · intro q _ oid
    exact aliases q oid
  all_goals rfl
end

/-- Deletion hides every repository and removes exactly those that have no alias. -/
theorem deleteRepository_removes_iff (c : InMemoryCatalog) (r : RepoId) (c' : InMemoryCatalog)
    (done : c.deleteRepository r = .ok c') :
    Hides c r c' ∧ (Removes c r c' ↔ ∀ oid, c.oidAlias r oid = none) := by
  have hidden := deleteRepository_hides done
  have kept := deleteRepository_oidAlias done r
  refine ⟨hidden, ?_, ?_⟩
  · intro removed oid
    rw [← kept, removed.aliases]
  · intro none
    exact ⟨hidden, fun oid => (kept oid).trans (none oid)⟩

/-- The catalog after an import of one object. -/
def imported (repository : RepoId) (snapshot : SnapshotId) (oid : GitOid) (id : ContentId) :
    InMemoryCatalog :=
  [Operation.repository repository [], .oidAlias repository oid id,
    .repositorySnapshot repository snapshot .ready].foldl stage {}

theorem length_importedOid : (List.replicate 20 (1 : UInt8)).length = HashAlgorithm.sha1.oidLen :=
  rfl

def importedOnce : InMemoryCatalog :=
  imported ⟨.replicate 16 1⟩ ⟨.replicate 16 1⟩ ⟨.sha1, List.replicate 20 1, length_importedOid⟩
    ⟨.replicate 32 1⟩

theorem importedOnce_hidden : ∃ c', importedOnce.deleteRepository ⟨.replicate 16 1⟩ = .ok c' ∧
    Hides importedOnce ⟨.replicate 16 1⟩ c' ∧ (Removes importedOnce ⟨.replicate 16 1⟩ c' ↔
      ∀ oid, importedOnce.oidAlias ⟨.replicate 16 1⟩ oid = none) := by
  have done := deleteRepository_eq_ok_iff (r := ⟨.replicate 16 1⟩) |>.mpr
    ⟨show importedOnce.objectLocationRebuildInProgress = false from rfl, rfl⟩
  exact ⟨_, done, deleteRepository_removes_iff _ _ _ done⟩

theorem deleted_repository_keeps_alias : ¬ ∀ (c : InMemoryCatalog) (r : RepoId)
    (c' : InMemoryCatalog), c.deleteRepository r = .ok c' → Removes c r c' := by
  intro removes
  have removed := removes importedOnce ⟨.replicate 16 1⟩ _
    (deleteRepository_eq_ok_iff.mpr ⟨rfl, rfl⟩)
  exact absurd (removed.aliases ⟨.sha1, List.replicate 20 1, rfl⟩) (by decide)

/-- No later call takes an alias back that the deletion has left. -/
theorem oidAlias_outlives_repository {oid : GitOid} {id : ContentId}
    (done : c.deleteRepository r = .ok c') (bound : c.oidAlias r oid = some id)
    (calls : List CatalogCall) :
    (Simulation.run call c' calls).1.oidAlias r oid = some id := by
  apply Simulation.run_invariant (fun _ _ _ called kept => call_oidAlias called kept)
  rw [deleteRepository_oidAlias done, bound]
end InMemoryCatalog

/-- The default method of the `Catalog` trait over the stored snapshot records. -/
def RocksDbCatalog.deleteRepository (c : RocksDbCatalog) (repository : RepoId) :
    Except CatalogError RocksDbCatalog := do
  let snapshots ← c.repositorySnapshots
  c.apply (.deleteRepository repository ::
    (snapshots.filter (·.repository = repository)).map
      fun s => .deleteRepositorySnapshot repository s.snapshot)

theorem Refines.deleteRepository {rocks : RocksDbCatalog} {mem : InMemoryCatalog}
    (refines : Refines rocks mem) (r : RepoId) :
    Simulation.Related Refines (rocks.deleteRepository r) (mem.deleteRepository r) := by
  unfold RocksDbCatalog.deleteRepository InMemoryCatalog.deleteRepository
  rw [refines.repositorySnapshots, Except.ok_bind]
  exact refines.apply _

/-- After every history a deletion fails on disk as it does in memory; where it succeeds the
repository is hidden and the others are untouched, but an alias that names it outlives every later
call. -/
theorem rocksDb_deletion_hides (calls : List CatalogCall) (r : RepoId) :
    let rocks := (Simulation.run RocksDbCatalog.call {} calls).1
    let mem := (Simulation.run call {} calls).1
    Simulation.Related (fun rocks' mem' => InMemoryCatalog.Hides mem r mem' ∧
      SameAnswers rocks' mem' ∧ ∀ oid id, mem.oidAlias r oid = some id → ∀ later,
        (Simulation.run RocksDbCatalog.call rocks' later).1.oidAlias r oid = some id)
      (rocks.deleteRepository r) (mem.deleteRepository r) := by
  intro rocks mem
  have both : Simulation.Related Refines (rocks.deleteRepository r) (mem.deleteRepository r) :=
    (refines_run calls).2.deleteRepository r
  generalize rocks.deleteRepository r = result at both ⊢
  cases same : mem.deleteRepository r with
  | error e =>
    rw [same] at both
    cases both
    exact .error e
  | ok mem' =>
    rw [same] at both
    cases both with
    | ok refines =>
      refine .ok ⟨deleteRepository_hides same, refines.sameAnswers, ?_⟩
      intro oid id bound later
      have after := Simulation.Related.run (fun _ _ call refines => refines.call call) refines later
      rw [after.2.sameAnswers.oidAlias]
      exact oidAlias_outlives_repository same bound later
end ReflinkForest
