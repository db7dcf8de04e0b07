import ReflinkForest.Cache.Hydration
import ReflinkForest.Checkout.Plan

/-! Materialising a plan in an empty staging directory. -/
namespace ReflinkForest
open Bytes Except RelativePath CheckoutPlanBuilder PathTree

inductive StagedFile where
  | file (bytes : Str) (mode : ℕ)
  | symlink (target : Str)

/-- The contents of the staging directory. -/
abbrev Staging := PathTree Str StagedFile

/-- Resolves planned objects. Asking for a blob may fill the cache. -/
structure RawCheckoutSource (ε : Type) where
  blobContentId : Cache → GitOid → Cache × Except ε ContentId
  blobBytes : GitOid → Except ε Str

inductive GitlinkPolicy where
  | reject | emptyDirectory

inductive StageIoError where
  | tree (error : PathTree.Error)
  | symlinkLoop
  | emptyTarget

inductive MaterializeError (ε : Type) where
  | source (error : ε)
  | cache (error : CacheError)
  | io (error : StageIoError)
  | stageNotEmpty
  | gitlink (oid : GitOid)
  | invalidSymlinkTarget

section Stage
variable (P : Primitives)

/-- Permission bits `0o755` and `0o644`. -/
def executableMode : ℕ := 0x1ed
def regularMode : ℕ := 0x1a4

def createDirectoryAt (stage : Staging) (path : RelativePath) : Except StageIoError Staging :=
  .mapErr .tree (PathTree.create stage path.names .directory)

/-- `FICLONE` replaces the contents of the new file. -/
def cloneBlobAt (cache : Cache) (id : ContentId) (stage : Staging) (path : RelativePath) :
    Except CacheError Staging := do
  let bytes ← cache.verifiedBlob P id
  let created ← .mapErr .io (PathTree.create stage path.names (.leaf (.file [] regularMode)))
  .ok (created.insert path.names (.leaf (.file bytes regularMode)))

def setFileModeAt (stage : Staging) (path : RelativePath) (mode : ℕ) :
    Except StageIoError Staging :=
  match stage.lookup path.names with
  | none => .error (.tree .notFound)
  | some .directory => .ok stage
  | some (.leaf (.symlink _)) => .error .symlinkLoop
  | some (.leaf (.file bytes _)) => .ok (stage.insert path.names (.leaf (.file bytes mode)))

def createSymlinkAt (stage : Staging) (path : RelativePath) (target : Str) :
    Except StageIoError Staging := do
  .require (target ≠ []) .emptyTarget
  .mapErr .tree (PathTree.create stage path.names (.leaf (.symlink target)))
end Stage

section Materialize
variable (P : Primitives) {ε : Type} (source : RawCheckoutSource ε) (policy : GitlinkPolicy)

def materializeFile (cache : Cache) (stage : Staging) (path : RelativePath) (oid : GitOid)
    (mode : ℕ) : Cache × Except (MaterializeError ε) Staging :=
  match source.blobContentId cache oid with
  | (cache, .error e) => (cache, .error (.source e))
  | (cache, .ok id) => (cache, do
    let cloned ← .mapErr .cache (cloneBlobAt P cache id stage path)
    .mapErr .io (setFileModeAt cloned path mode))

def materializeSymlink (stage : Staging) (path : RelativePath) (oid : GitOid) :
    Except (MaterializeError ε) Staging := do
  let target ← .mapErr .source (source.blobBytes oid)
  .require (0 ∉ target) .invalidSymlinkTarget
  .mapErr .io (createSymlinkAt stage path target)

def materializeGitlink (stage : Staging) (path : RelativePath) (oid : GitOid) :
    Except (MaterializeError ε) Staging :=
  match policy with
  | .reject => .error (.gitlink oid)
  | .emptyDirectory => Except.mapErr .io (createDirectoryAt stage path)

def materializeEntry (cache : Cache) (stage : Staging) (entry : PlannedEntry) :
    Cache × Except (MaterializeError ε) Staging :=
  match entry.object.mode with
  | .regular => materializeFile P source cache stage entry.path entry.object.oid regularMode
  | .executable => materializeFile P source cache stage entry.path entry.object.oid executableMode
  | .symlink => (cache, materializeSymlink source stage entry.path entry.object.oid)
  | .gitlink => (cache, materializeGitlink policy stage entry.path entry.object.oid)

def materializeEntries : Cache → Staging → List PlannedEntry →
    Cache × Except (MaterializeError ε) Staging
  | cache, stage, [] => (cache, .ok stage)
  | cache, stage, entry :: entries =>
    match materializeEntry P source policy cache stage entry with
    | (cache, .error e) => (cache, .error e)
    | (cache, .ok stage) => materializeEntries cache stage entries

def materializeRaw (plan : CheckoutPlan) (cache : Cache) (staging : Staging) :
    Cache × Except (MaterializeError ε) Staging :=
  if staging.keys ≠ [] then (cache, .error .stageNotEmpty)
  else
    match PathTree.makeDirectories staging (plan.directories.map (·.names)) with
    | .error e => (cache, .error (.io (.tree e)))
    | .ok stage => materializeEntries P source policy cache stage plan.entries
end Materialize

section Lemmas
variable {P : Primitives} {ε : Type} {source : RawCheckoutSource ε} {policy : GitlinkPolicy}
  {cache : Cache} {stage : Staging} {path : RelativePath} {entry : PlannedEntry}
  {entries : List PlannedEntry} {directories : List (List Str)}
  {leaves : List (List Str × StagedFile)}

/-- What an entry becomes when its object has the given bytes. -/
def PlannedObject.staged (object : PlannedObject) (content : Str) : StagedFile :=
  match object.mode with
  | .regular => .file content regularMode
  | .executable => .file content executableMode
  | .symlink => .symlink content
  | .gitlink => .symlink content

/-- From any cache in `good` the source hands out the bytes of the entry. -/
structure Provides (P : Primitives) (source : RawCheckoutSource ε) (good : Cache → Prop)
    (content : GitOid → Str) (object : PlannedObject) : Prop where
  noGitlink : object.mode ≠ .gitlink
  file : object.mode = .regular ∨ object.mode = .executable → ∀ cache, good cache →
    ∃ cache' id, source.blobContentId cache object.oid = (cache', .ok id) ∧ good cache' ∧
      cache'.verifiedBlob P id = .ok (content object.oid)
  symlink : object.mode = .symlink → source.blobBytes object.oid = .ok (content object.oid) ∧
    content object.oid ≠ [] ∧ 0 ∉ content object.oid

/-- The path is free and its parents are directories. -/
structure Ready (directories : List (List Str)) (leaves : List (List Str × StagedFile))
    (path : RelativePath) : Prop where
  parents : ∀ above ∈ PathTree.ancestors path.names, above ∈ directories
  noDirectory : path.names ∉ directories
  noLeaf : path.names ∉ leaves.map Prod.fst

variable {oid : GitOid} {content : GitOid → Str} {good : Cache → Prop}

theorem materializeFile_holds {id : ContentId} {cache' : Cache} {content : Str} {mode : ℕ}
    (holds : stage.Holds directories leaves) (ready : Ready directories leaves path)
    (found : source.blobContentId cache oid = (cache', .ok id))
    (verified : cache'.verifiedBlob P id = .ok content) :
    ∃ stage', materializeFile P source cache stage path oid mode = (cache', .ok stage') ∧
      stage'.Holds directories (leaves ++ [(path.names, .file content mode)]) := by
  obtain ⟨created, _⟩ := holds.create_leaf ready.parents ready.noDirectory ready.noLeaf
    (.file [] regularMode)
  obtain ⟨_, held⟩ := holds.create_leaf ready.parents ready.noDirectory ready.noLeaf
    (.file content mode)
  refine ⟨stage.insert path.names (.leaf (.file content mode)), ?_, held⟩
  simp only [materializeFile, found, cloneBlobAt, verified, created, ok_bind,
    mapErr_ok, setFileModeAt, AList.lookup_insert, AList.insert_insert]

theorem materializeSymlink_holds {content : Str} (holds : stage.Holds directories leaves)
    (ready : Ready directories leaves path) (bytes : source.blobBytes oid = .ok content)
    (nonempty : content ≠ []) (noNul : 0 ∉ content) :
    ∃ stage', materializeSymlink source stage path oid = .ok stage' ∧
      stage'.Holds directories (leaves ++ [(path.names, .symlink content)]) := by
  obtain ⟨created, held⟩ := holds.create_leaf ready.parents ready.noDirectory ready.noLeaf
    (.symlink content)
  refine ⟨_, ?_, held⟩
  simp only [materializeSymlink, bytes, createSymlinkAt, created, mapErr_ok, ok_bind,
    require_pos nonempty, require_pos noNul]

variable (policy) in
theorem materializeEntry_holds (holds : stage.Holds directories leaves)
    (ready : Ready directories leaves entry.path)
    (provides : Provides P source good content entry.object) (clean : good cache) :
    ∃ cache' stage', materializeEntry P source policy cache stage entry = (cache', .ok stage') ∧
      good cache' ∧ stage'.Holds directories
        (leaves ++ [(entry.path.names, entry.object.staged (content entry.object.oid))]) := by
  unfold materializeEntry PlannedObject.staged
  cases mode : entry.object.mode with
  | regular =>
    obtain ⟨cache', id, found, clean', verified⟩ := provides.file (.inl mode) cache clean
    obtain ⟨stage', done, held⟩ := materializeFile_holds holds ready found verified
    exact ⟨cache', stage', done, clean', held⟩
  | executable =>
    obtain ⟨cache', id, found, clean', verified⟩ := provides.file (.inr mode) cache clean
    obtain ⟨stage', done, held⟩ := materializeFile_holds holds ready found verified
    exact ⟨cache', stage', done, clean', held⟩
  | symlink =>
    obtain ⟨bytes, nonempty, noNul⟩ := provides.symlink mode
    obtain ⟨stage', done, held⟩ := materializeSymlink_holds holds ready bytes nonempty noNul
    exact ⟨cache, stage', by simp only [done], clean, held⟩
  | gitlink => exact absurd mode provides.noGitlink

/-- The leaf that each entry of a plan becomes. -/
def stagedLeaves (content : GitOid → Str) (entries : List PlannedEntry) :
    List (List Str × StagedFile) :=
  entries.map fun entry => (entry.path.names, entry.object.staged (content entry.object.oid))

variable (policy) in
theorem materializeEntries_holds
    (holds : stage.Holds directories leaves) (clean : good cache)
    (parents : ∀ entry ∈ entries, ∀ above ∈ ancestors entry.path.names,
      above ∈ directories)
    (noDirectory : ∀ entry ∈ entries, entry.path.names ∉ directories)
    (distinct : (leaves.map Prod.fst ++ entries.map (·.path.names)).Nodup)
    (provides : ∀ entry ∈ entries, Provides P source good content entry.object) :
    ∃ cache' stage', materializeEntries P source policy cache stage entries = (cache', .ok stage') ∧
      stage'.Holds directories (leaves ++ stagedLeaves content entries) := by
  induction entries generalizing cache stage leaves with
  | nil => exact ⟨cache, stage, rfl, by simpa [stagedLeaves] using holds⟩
  | cons entry entries ih =>
    have fresh : entry.path.names ∉ leaves.map Prod.fst := by
      intro mem
      exact (List.nodup_append.mp distinct).2.2 _ mem _ (by simp) rfl
    obtain ⟨cache₁, stage₁, done, clean₁, holds₁⟩ := materializeEntry_holds policy holds
      ⟨parents entry (by simp), noDirectory entry (by simp), fresh⟩ (provides entry (by simp)) clean
    obtain ⟨cache', stage', rest, held⟩ := ih holds₁ clean₁
      (fun other mem => parents other (by simp [mem]))
      (fun other mem => noDirectory other (by simp [mem]))
      (by simpa using distinct) (fun other mem => provides other (by simp [mem]))
    refine ⟨cache', stage', ?_, by simpa [stagedLeaves] using held⟩
    simp only [materializeEntries, done, rest]

variable (policy) in
/-- A finished plan can be materialised whenever the source provides its objects. -/
theorem materializeRaw_holds (builder : CheckoutPlanBuilder) (clean : good cache)
    (provides : ∀ entry ∈ builder.finish.entries, Provides P source good content entry.object) :
    ∃ cache' stage', materializeRaw P source policy builder.finish cache ∅ = (cache', .ok stage') ∧
      stage'.Holds (builder.finish.directories.map (·.names))
        (stagedLeaves content builder.finish.entries) := by
  have sorted : (builder.finish.directories.map (·.names)).Pairwise (· < ·) :=
    finish_directories_sorted
  have closed : ∀ directory ∈ builder.finish.directories.map (·.names),
      ∀ above ∈ ancestors directory, above ∈ builder.finish.directories.map (·.names) := by
    intro directory mem above higher
    obtain ⟨directory, member', rfl⟩ := List.mem_map.mp mem
    obtain ⟨parent, parentMember, rfl⟩ := mem_ancestors_names.mp higher
    obtain ⟨path, planned, below⟩ := mem_finish_directories.mp member'
    exact List.mem_map_of_mem (mem_finish_directories.mpr
      ⟨path, planned, parentPaths_trans parentMember below⟩)
  have planned : ∀ entry ∈ builder.finish.entries, entry.path ∈ builder.entries := by
    intro entry mem
    rw [← AList.lookup_isSome, mem_finish_entries.mp mem]
    rfl
  obtain ⟨stage, made, holds⟩ :=
    makeDirectories_holds (holds_empty (β := StagedFile))
    (by simpa using sorted.nodup) (pairwise_ancestors sorted)
    (by simpa using closed) (by simp)
  have parents : ∀ entry ∈ builder.finish.entries, ∀ above ∈ ancestors entry.path.names,
      above ∈ builder.finish.directories.map (·.names) := by
    intro entry mem above higher
    obtain ⟨parent, parentMember, rfl⟩ := mem_ancestors_names.mp higher
    exact List.mem_map_of_mem (mem_finish_directories.mpr
      ⟨entry.path, planned entry mem, parentMember⟩)
  have noDirectory : ∀ entry ∈ builder.finish.entries,
      entry.path.names ∉ builder.finish.directories.map (·.names) := by
    intro entry mem directory
    obtain ⟨directory, member', same⟩ := List.mem_map.mp directory
    obtain ⟨path, below, higher⟩ := mem_finish_directories.mp member'
    rw [names_injective same] at higher
    exact builder.apart path below _ higher (planned entry mem)
  have distinct : (builder.finish.entries.map (·.path.names)).Nodup := by
    have paths : (builder.finish.entries.map (·.path)).Nodup :=
      finish_entries_nodup
    have names := paths.map names_injective
    rwa [List.map_map] at names
  obtain ⟨cache', stage', done, held⟩ := materializeEntries_holds policy holds clean
    (by simpa using parents) (by simpa using noDirectory) (by simpa using distinct) provides
  refine ⟨cache', stage', ?_, by simpa using held⟩
  simp only [materializeRaw, made, done, AList.keys_empty, ne_eq, not_true_eq_false, if_false]
end Lemmas
end ReflinkForest
