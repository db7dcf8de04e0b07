import ReflinkForest.Maintenance.CollectionRun
import ReflinkForest.Workspace.ColdSource

/-! A commit that was imported is checked out again. -/
namespace ReflinkForest
open Bytes Worklist Except

variable {P : Primitives} {U : ObjectSet} {source : LocalRepository} {codec : Codec}
  {cold : ColdWorkspaceSource} {object : GitObject} {items : List TreeItem}

/-- A repository was imported into a store that held nothing before. -/
inductive FreshImport (P : Primitives) (source : LocalRepository) (codec : Codec) :
    ColdWorkspaceSource → Prop
  | mk {s : ColdInstance} {header : ChunkHeader} {w' : ChunkWriter} {indexed : InMemoryCatalog}
      {result : ImportResult} {repository : RepoId} {leases : Option GenerationManager}
      (initial : s.Initial header.generation)
      (imports : importLocalRefsWithCodec P source (.create header) s.catalog repository
        header.generation header.chunkId codec = (w', indexed, .ok result))
      (admits : ∀ manager, leases = some manager → header.generation ∉ manager.retiring) :
      FreshImport P source codec ⟨repository, indexed, s.chunks.insert w'.key w'.file, leases⟩

/-- Every reachable object has a record that decodes to it. -/
structure Recorded (P : Primitives) (cold : ColdWorkspaceSource) (object : GitObject)
    (location : ObjectLocation) (record : ObjectRecord) : Prop where
  aliased : cold.catalog.oidAlias cold.repository object.oid = some (object.contentId P)
  located : cold.catalog.objectLocation (object.contentId P) = some location
  admitted : cold.lease location.generation = .ok ()
  stored : Stored P cold.chunks location record
  same : record.contentId = object.contentId P
  kind : record.kind = object.kind
  decoded : decodeObjectPayload P record = .ok object.data

theorem FreshImport.recorded (inverts : P.ZstdInverts) (apart : HashesApart P U)
    (importable : Importable P U codec source) (imported : FreshImport P source codec cold)
    (reachable : source.Reachable object) :
    ∃ location record, Recorded P cold object location record := by
  obtain @⟨s, header, w', indexed, result, repository, leases, initial, imports, admits⟩ := imported
  have inv : ColdInvariant P U s header.generation := initial.invariant
  have fresh : StaleFree P s source := by
    intro object _ location found
    rw [InMemoryCatalog.objectLocation_eq initial.writable, initial.objects] at found
    simp at found
  have absent : s.chunks.lookup (header.generation, header.chunkId) = none := by
    rw [initial.chunks]
    rfl
  obtain ⟨_, objects, _, indexing, _⟩ :=
    Indexing.ofImport inv importable (.created header absent rfl) rfl imports
  obtain ⟨location, located, current⟩ := indexing.located inv fresh reachable
  obtain ⟨record, data, stored, same, decoded, known⟩ := indexing.holds inv inverts located current
  have content := (decodeObjectPayload_eq_ok_iff.mp decoded).2.2
  obtain ⟨kind, rfl⟩ := apart.content known (importable.member _ reachable) (content.trans same)
  refine ⟨location, record, indexing.aliased reachable, located, ?_, stored, same, kind, decoded⟩
  unfold ColdWorkspaceSource.lease
  split
  · rename_i manager found
    rw [GenerationManager.lease, current, require_pos (admits manager found), mapErr_ok]
  · rfl

section Records
variable {location : ObjectLocation} {record : ObjectRecord}

section
variable (h : Recorded P cold object location record)
include h

theorem Recorded.hashed :
    ContentId.forObject P record.kind object.data = object.contentId P := by
  rw [h.kind, GitObject.contentId]

theorem Recorded.recordFor :
    cold.recordFor P object.oid =
      .ok (object.contentId P, { record with codec := .raw, payload := object.data }) := by
  simp only [ColdWorkspaceSource.recordFor, ColdWorkspaceSource.contentId, h.aliased, h.located,
    h.admitted, h.stored.readRecord, h.decoded, ofOption_some, mapErr_ok, ok_bind, require_pos
    (And.intro h.hashed h.same)]

theorem Recorded.gitObject :
    cold.gitObject P object.oid = .ok object := by
  simp only [ColdWorkspaceSource.gitObject, h.recordFor, ok_bind, h.kind]

theorem Recorded.blobBytes
    (blob : object.kind = .blob) : cold.blobBytes P object.oid = .ok object.data := by
  simp only [ColdWorkspaceSource.blobBytes, h.recordFor, ok_bind, require_pos (h.kind.trans blob)]

/-- A cache whose files are all blobs of `U`. -/
def Cache.Within (U : ObjectSet) (cache : Cache) : Prop :=
  ∀ id bytes, cache.lookup id = some (.file bytes) → U .blob bytes

theorem Recorded.blobContentId {cache : Cache}
    (apart : HashesApart P U) (known : U object.kind object.data) (blob : object.kind = .blob)
    (within : cache.Within U) :
    ∃ cache', cold.blobContentId P cache object.oid = (cache', .ok (object.contentId P)) ∧
      cache'.Within U ∧ cache'.verifiedBlob P (object.contentId P) = .ok object.data := by
  obtain ⟨cache', hydrates, verified, entry, others⟩ := hydrateBlobFromChunk_stored cache
    h.located h.stored (h.kind.trans blob) h.same h.decoded
  have within' : cache'.Within U := by
    intro id bytes found
    by_cases same : id = object.contentId P
    · subst same
      rcases entry with old | new
      · exact within _ _ (old ▸ found)
      · rw [found, Option.some.injEq, CacheEntry.file.injEq] at new
        rw [new, ← blob]
        exact known
    · exact within id bytes (others id same ▸ found)
  refine ⟨cache', ?_, within', ?_⟩
  · simp only [ColdWorkspaceSource.blobContentId, ColdWorkspaceSource.contentId, h.aliased,
      ofOption_some, h.located, h.admitted, hydrates]
  · obtain ⟨bytes, verified⟩ := verified
    obtain ⟨found, hashed⟩ := Cache.verifiedBlob_eq_ok_iff.mp verified
    rw [verified, (apart.content (within' _ _ found) known (hashed.trans rfl)).2]
end
end Records

/-- The oids of an imported repository. -/
def LocalRepository.Reaches (source : LocalRepository) (oid : GitOid) : Prop :=
  ∃ object, source.Reachable object ∧ object.oid = oid

theorem LocalRepository.Reaches.reachable {oid : GitOid} (reaches : source.Reaches oid)
    (read : source.database.readObject oid = .ok object) : source.Reachable object := by
  obtain ⟨object', reachable, rfl⟩ := reaches
  have same := reachable.2.symm.trans read
  rw [ok.injEq] at same
  exact same ▸ reachable

theorem Importable.entry_reaches (importable : Importable P U codec source)
    {entries : List GitTreeEntry} (reachable : source.Reachable object)
    (parsed : parseTreeEntries object = .ok entries) {entry : GitTreeEntry}
    (mem : entry ∈ entries) : source.Reaches entry.oid := by
  obtain ⟨refs, references, children⟩ := importable.children reachable
  rw [referencedOids_tree parsed, ok.injEq] at references
  exact children entry.oid (references ▸ List.mem_map_of_mem mem)

theorem Importable.tree_reaches (importable : Importable P U codec source) {tree : GitOid}
    (reachable : source.Reachable object) (root : commitTreeOid object = .ok tree) :
    source.Reaches tree := by
  obtain ⟨refs, references, children⟩ := importable.children reachable
  have kind : object.kind = .commit := by
    simp only [commitTreeOid, bind_eq_ok_iff, exists_require] at root
    exact root.1
  simp only [referencedOids, kind, parseCommitReferences, root, bind_eq_ok_iff,
    ok.injEq] at references
  obtain ⟨parents, _, _, rfl, rfl⟩ := references
  exact children tree (by simp)

/-- The file or link that an entry of this mode with these bytes becomes. -/
def TreeMode.staged (mode : TreeMode) (data : Str) : Option StagedFile :=
  match mode with
  | .regular => some (.file data regularMode)
  | .executable => some (.file data executableMode)
  | .symlink => some (.symlink data)
  | .directory => none
  | .gitlink => none

/-- An unfolded tree that can be checked out: valid paths within the limits, no leaf at or below
another, no gitlinks, and a blob behind every leaf. -/
structure Checkable (database : ObjectDatabase) (limits : CheckoutLimits) (items : List TreeItem) :
    Prop where
  plannable : Plannable limits [] items []
  noGitlinks : ∀ item ∈ items, item.mode ≠ .gitlink
  blobs : ∀ item ∈ items, item.mode ≠ .directory → ∃ object,
    database.readObject item.oid = .ok object ∧ object.kind = .blob ∧
      (item.mode = .symlink → object.data ≠ [] ∧ 0 ∉ object.data)

/-- The staging tree holds one file or link for every leaf of the tree, the directories above
them, and nothing else. -/
def CheckedOut (database : ObjectDatabase) (items : List TreeItem) (stage : Staging) : Prop :=
  ∀ path node, stage.lookup path = some node ↔
    (node = .directory ∧ ∃ item ∈ items, item.mode ≠ .directory ∧
      path ∈ PathTree.ancestors item.path) ∨
    ∃ item ∈ items, ∃ object file, item.path = path ∧ database.readObject item.oid = .ok object ∧
      item.mode.staged object.data = some file ∧ node = .leaf file

/-- Bytes of an object of the database. -/
def ObjectDatabase.content (database : ObjectDatabase) (oid : GitOid) : Str :=
  match database.readObject oid with
  | .ok object => object.data
  | .error _ => []

open ObjectDatabase

section Leaves
variable {limits : CheckoutLimits} {builder : CheckoutPlanBuilder} {database : ObjectDatabase}

theorem mem_plannedLeaves {path : List Str} {planned : PlannedObject} :
    (path, planned) ∈ plannedLeaves [] items ↔ ∃ item ∈ items, item.path = path ∧
      item.mode.entryMode = some planned.mode ∧ item.oid = planned.oid := by
  simp only [plannedLeaves, List.mem_filterMap, Option.map_eq_some_iff, List.nil_append,
    Prod.mk.injEq]
  constructor
  · rintro ⟨item, mem, mode, found, rfl, rfl⟩
    exact ⟨item, mem, rfl, found, rfl⟩
  · rintro ⟨item, mem, rfl, found, same⟩
    exact ⟨item, mem, planned.mode, found, rfl, by rw [same]⟩

theorem entryMode_ne_none {mode : TreeMode} : mode.entryMode ≠ none ↔ mode ≠ .directory := by
  cases mode <;> simp [TreeMode.entryMode]

theorem staged_eq {item : TreeItem} {planned : PlannedObject} {data : Str}
    (same : item.mode.entryMode = some planned.mode) (noGitlink : item.mode ≠ .gitlink) :
    item.mode.staged data = some (planned.staged data) := by
  obtain ⟨path, mode, oid⟩ := item
  obtain ⟨planned, oid'⟩ := planned
  cases mode with
  | directory => simp [TreeMode.entryMode] at same
  | gitlink => exact absurd rfl noGitlink
  | regular | executable | symlink => cases same; rfl

section
variable (builds : Builds limits (plannedLeaves [] items) builder)
include builds

theorem Builds.mem_finish_entries
    {entry : PlannedEntry} : entry ∈ builder.finish.entries ↔ ∃ item ∈ items,
      item.path = entry.path.names ∧ item.mode.entryMode = some entry.object.mode ∧
        item.oid = entry.object.oid := by
  rw [CheckoutPlanBuilder.mem_finish_entries, builds.lookup, mem_plannedLeaves]

theorem Builds.entry_of_item
    (valid : ∀ item ∈ items, ItemWithin limits [] item) {item : TreeItem} (mem : item ∈ items)
    (leaf : item.mode ≠ .directory) : ∃ entry ∈ builder.finish.entries,
      entry.path.names = item.path ∧ item.mode.entryMode = some entry.object.mode ∧
        item.oid = entry.object.oid := by
  obtain ⟨components, names, within⟩ := valid item mem
  obtain ⟨mode, found⟩ := Option.ne_none_iff_exists'.mp (entryMode_ne_none.mpr leaf)
  have planned : (⟨⟨components, within.nonempty⟩, ⟨mode, item.oid⟩⟩ : PlannedEntry) ∈
      builder.finish.entries :=
    builds.mem_finish_entries.mpr ⟨item, mem, names.symm, found, rfl⟩
  exact ⟨_, planned, names, found, rfl⟩

theorem checkedOut_of_holds {stage : Staging}
    (checkable : Checkable database limits items)
    (holds : PathTree.Holds stage (builder.finish.directories.map (·.names))
      (stagedLeaves database.content builder.finish.entries)) :
        CheckedOut database items stage := by
  have contents : ∀ {oid object}, database.readObject oid = .ok object →
      database.content oid = object.data := by
    intro oid object read
    rw [content, read]
  intro path node
  rw [holds path node]
  refine or_congr ?_ ?_
  · rw [and_comm, and_congr_right_iff]
    intro _
    simp only [List.mem_map, CheckoutPlanBuilder.mem_finish_directories]
    constructor
    · rintro ⟨directory, ⟨planned, mem, above⟩, rfl⟩
      obtain ⟨object, found⟩ := FinMap.exists_lookup mem
      obtain ⟨item, inside, same, mode, _⟩ := mem_plannedLeaves.mp ((builds.lookup _ _).mp found)
      refine ⟨item, inside, entryMode_ne_none.mp (by rw [mode]; simp), same ▸ ?_⟩
      exact RelativePath.mem_ancestors_names.mpr ⟨directory, above, rfl⟩
    · rintro ⟨item, inside, leaf, above⟩
      obtain ⟨entry, planned, same, _⟩ :=
        builds.entry_of_item checkable.plannable.valid inside leaf
      obtain ⟨parent, mem, rfl⟩ := RelativePath.mem_ancestors_names.mp (same ▸ above)
      refine ⟨parent, ⟨entry.path, ?_, mem⟩, rfl⟩
      rw [← AList.lookup_isSome, CheckoutPlanBuilder.mem_finish_entries.mp planned]
      rfl
  · simp only [stagedLeaves, List.mem_map, Prod.mk.injEq]
    constructor
    · rintro ⟨file, ⟨entry, planned, rfl, rfl⟩, rfl⟩
      obtain ⟨item, inside, same, mode, oid⟩ := builds.mem_finish_entries.mp planned
      obtain ⟨object, read, _⟩ :=
        checkable.blobs item inside (entryMode_ne_none.mp (by rw [mode]; simp))
      refine ⟨item, inside, object, _, same, read, ?_, rfl⟩
      rw [staged_eq mode (checkable.noGitlinks item inside), ← oid, contents read]
    · rintro ⟨item, inside, object, file, rfl, read, staged, rfl⟩
      have leaf : item.mode ≠ .directory := by
        intro directory
        rw [directory] at staged
        simp [TreeMode.staged] at staged
      obtain ⟨entry, planned, same, mode, oid⟩ :=
        builds.entry_of_item checkable.plannable.valid inside leaf
      refine ⟨file, ⟨entry, planned, same, ?_⟩, rfl⟩
      rw [staged_eq mode (checkable.noGitlinks item inside), Option.some.injEq] at staged
      rw [← oid, contents read, staged]
end
end Leaves

section RoundTrip
variable {limits : CheckoutLimits}

theorem FreshImport.unfoldTree {depth : ℕ} {tree : GitOid} (inverts : P.ZstdInverts)
    (apart : HashesApart P U) (importable : Importable P U codec source)
    (imported : FreshImport P source codec cold) (reaches : source.Reaches tree)
    (unfolds : unfoldTree (fun oid => (source.database.readObject oid).toOption) depth tree =
      some items) :
    ReflinkForest.unfoldTree (cold.found P) depth tree = some items ∧
      ∀ item ∈ items, source.Reaches item.oid := by
  have closed : ∀ oid object entries, source.Reaches oid →
      (source.database.readObject oid).toOption = some object →
      parseTreeEntries object = .ok entries → ∀ entry ∈ entries, source.Reaches entry.oid := by
    intro oid object entries reaches read parsed entry mem
    exact importable.entry_reaches (reaches.reachable (toOption_eq_some.mp read)) parsed
      mem
  refine ⟨unfoldTree_agree (fun oid object reaches read => ?_) closed reaches unfolds,
    unfoldTree_mem closed reaches unfolds⟩
  have reachable := reaches.reachable (toOption_eq_some.mp read)
  obtain ⟨location, record, recorded⟩ := imported.recorded inverts apart importable reachable
  have same := (readObject_eq_ok_iff.mp (toOption_eq_some.mp read)).1
  rw [toOption_eq_some, ← same, recorded.gitObject]

/-- The cold source hands out the blobs behind the leaves of an imported tree. -/
theorem FreshImport.provides (inverts : P.ZstdInverts) (apart : HashesApart P U)
    (importable : Importable P U codec source) (imported : FreshImport P source codec cold)
    (checkable : Checkable source.database limits items) {item : TreeItem} (member : item ∈ items)
    (reaches : source.Reaches item.oid) {planned : PlannedObject}
    (mode : item.mode.entryMode = some planned.mode) (oid : item.oid = planned.oid) :
    Provides P (cold.rawCheckoutSource P) (Cache.Within U) source.database.content planned := by
  obtain ⟨object, read, blob, link⟩ := checkable.blobs item member
    (entryMode_ne_none.mp (by rw [mode]; simp))
  have same := (readObject_eq_ok_iff.mp read).1
  obtain ⟨location, record, recorded⟩ :=
    imported.recorded inverts apart importable (reaches.reachable read)
  have content : source.database.content planned.oid = object.data := by
    rw [content, ← oid, read]
  rw [oid] at same
  refine ⟨?_, ?_, ?_⟩
  · intro gitlink
    rw [gitlink] at mode
    cases kind : item.mode <;> simp [kind, TreeMode.entryMode] at mode
    exact checkable.noGitlinks item member kind
  · intro _ cache within
    obtain ⟨cache', found, within', verified⟩ := recorded.blobContentId apart
      (importable.member _ (reaches.reachable read)) blob within
    exact ⟨cache', _, same ▸ found, within', content ▸ verified⟩
  · intro symlink
    have linked : item.mode = .symlink := by
      rw [symlink] at mode
      cases kind : item.mode <;> simp [kind, TreeMode.entryMode] at mode
      rfl
    rw [content, ← same]
    exact ⟨recorded.blobBytes blob, link linked⟩

/-- Importing a repository and checking out one of its commits gives back its tree. -/
theorem checkout_imported_commit (P : Primitives) (U : ObjectKind → Str → Prop)
    (inverts : P.ZstdInverts) (apart : HashesApart P U) (source : LocalRepository) (codec : Codec)
    (importable : Importable P U codec source) (cold : ColdWorkspaceSource)
    (imported : FreshImport P source codec cold) (commit : GitObject)
    (reachable : source.Reachable commit) (tree : GitOid) (root : commitTreeOid commit = .ok tree)
    (depth : ℕ) (items : List TreeItem)
    (unfolds : unfoldTree (fun oid => (source.database.readObject oid).toOption) depth tree =
      some items)
    (limits : CheckoutLimits) (checkable : Checkable source.database limits items)
    (policy : GitlinkPolicy) (cache : Cache) (within : cache.Within U) :
    ∃ plan cache' stage, cold.planCommit P commit.oid limits = .ok plan ∧
      materializeRaw P (cold.rawCheckoutSource P) policy plan cache ∅ = (cache', .ok stage) ∧
      CheckedOut source.database items stage := by
  obtain ⟨location, record, recorded⟩ := imported.recorded inverts apart importable reachable
  obtain ⟨unfolds', reaches⟩ := imported.unfoldTree inverts apart importable
    (importable.tree_reaches reachable root) unfolds
  obtain ⟨builder, planned, builds⟩ :=
    planCommit_builds recorded.gitObject root unfolds' checkable.plannable
  have provides : ∀ entry ∈ builder.finish.entries, Provides P (cold.rawCheckoutSource P)
      (Cache.Within U) source.database.content entry.object := by
    intro entry member
    obtain ⟨item, inside, _, mode, oid⟩ := builds.mem_finish_entries.mp member
    exact imported.provides inverts apart importable checkable inside (reaches item inside) mode oid
  obtain ⟨cache', stage, done, holds⟩ := materializeRaw_holds policy builder within provides
  exact ⟨builder.finish, cache', stage, planned, done, checkedOut_of_holds builds checkable holds⟩
end RoundTrip

/-- A commit with a file, a directory holding a program, and a link. -/
def binTree : GitObject :=
  .hashed .reference .sha1 .tree (treeEntryBytes (ascii "100755") (ascii "run") taggedBlob.oid)

def rootTree : GitObject :=
  .hashed .reference .sha1 .tree
    (treeEntryBytes (ascii "100644") (ascii "README") taggedBlob.oid ++
      treeEntryBytes (ascii "40000") (ascii "bin") binTree.oid ++
      treeEntryBytes (ascii "120000") (ascii "link") taggedBlob.oid)

def rootCommit : GitObject :=
  .hashed .reference .sha1 .commit (ascii "tree " ++ oidToHex rootTree.oid ++ [0x0a, 0x0a])

def commitObjects : List GitObject := [taggedBlob, binTree, rootTree, rootCommit]

def commitSource : LocalRepository where
  database := ⟨.sha1, commitObjects.foldl (fun m o => m.insert o.oid (o.kind, o.data)) ∅, by
    decide +kernel⟩
  refs := [⟨ascii "refs/heads/main", .branch, rootCommit.oid⟩]

def InCommit (kind : ObjectKind) (data : Str) : Prop :=
  ∃ object ∈ commitObjects, object.kind = kind ∧ object.data = data

theorem inCommit_apart : HashesApart .reference InCommit := by
  have content : ∀ a ∈ commitObjects, ∀ b ∈ commitObjects, a.contentId .reference =
      b.contentId .reference → a.kind = b.kind ∧ a.data = b.data := by decide +kernel
  have native : ∀ algorithm ∈ [HashAlgorithm.sha1, .sha256], ∀ a ∈ commitObjects,
      ∀ b ∈ commitObjects, GitOid.forObject .reference algorithm a.kind a.data =
        GitOid.forObject .reference algorithm b.kind b.data → a.kind = b.kind ∧
          a.data = b.data := by
    decide +kernel
  constructor
  · rintro _ _ _ _ ⟨a, inA, rfl, rfl⟩ ⟨b, inB, rfl, rfl⟩ same
    exact content a inA b inB same
  · rintro algorithm _ _ _ _ ⟨a, inA, rfl, rfl⟩ ⟨b, inB, rfl, rfl⟩ same
    exact native algorithm (by cases algorithm <;> simp) a inA b inB same

theorem commitSource_readObject {oid : GitOid}
    (read : commitSource.database.readObject oid = .ok object) : object ∈ commitObjects := by
  have entries : ∀ e ∈ commitSource.database.objects.entries,
      (⟨e.1, e.2.1, e.2.2⟩ : GitObject) ∈ commitObjects := by decide +kernel
  obtain ⟨rfl, found⟩ := readObject_eq_ok_iff.mp read
  exact entries _ (AList.mem_lookup_iff.mp found)

theorem commitSource_importable : Importable .reference InCommit .raw commitSource := by
  have hashed : ∀ object ∈ commitObjects, GitOid.forObject .reference .sha1 object.kind
      object.data = object.oid := by decide +kernel
  have closed : ∀ object ∈ commitObjects, (referencedOids object).toOption.any
      (fun refs => refs.all (· ∈ commitSource.database.objects)) = true := by decide +kernel
  have small : ∀ object ∈ commitObjects,
      (object.importRecord .reference .raw).encoding.length ≤ maxRecoveryRecordBytes := by
    decide +kernel
  refine ⟨?_, ?_, ?_, by decide +kernel, ?_⟩
  · intro object reachable
    exact ⟨object, commitSource_readObject reachable.2, rfl, rfl⟩
  · intro object reachable
    exact hashed object (commitSource_readObject reachable.2)
  · intro object reachable
    have present := closed object (commitSource_readObject reachable.2)
    cases parsed : referencedOids object with
    | error e => simp [parsed, Except.toOption] at present
    | ok refs => exact ⟨refs, rfl, by simpa [parsed, Except.toOption] using present⟩
  · intro object reachable
    exact small object (commitSource_readObject reachable.2)

/-- The cold source over a new chunk of an empty instance. -/
def importedSource (P : Primitives) (s : ColdInstance) (source : LocalRepository) (codec : Codec)
    (header : ChunkHeader) (repository : RepoId) : ColdWorkspaceSource :=
  let imported := importLocalRefsWithCodec P source (.create header) s.catalog repository
    header.generation header.chunkId codec
  ⟨repository, imported.2.1, s.chunks.insert imported.1.key imported.1.file, none⟩

theorem importedSource_fresh {s : ColdInstance} {header : ChunkHeader} {repository : RepoId}
    {result : ImportResult} (initial : s.Initial header.generation)
    (imports : (importLocalRefsWithCodec P source (.create header) s.catalog repository
      header.generation header.chunkId codec).2.2 = .ok result) :
    FreshImport P source codec (importedSource P s source codec header repository) :=
  .mk initial (Prod.ext rfl (Prod.ext rfl imports)) (by simp)

def rootItems : List TreeItem :=
  [⟨[ascii "README"], .regular, taggedBlob.oid⟩, ⟨[ascii "bin"], .directory, binTree.oid⟩,
    ⟨[ascii "bin", ascii "run"], .executable, taggedBlob.oid⟩,
    ⟨[ascii "link"], .symlink, taggedBlob.oid⟩]

/-- The components of a path that passes every check. -/
def namesWithin (limits : CheckoutLimits) (path : List Str) : Except CheckoutError Unit := do
  let components ← path.mapM (TreeName.new · limits)
  validatePathShape components limits

theorem mapM_treeName {limits : CheckoutLimits} {path : List Str} {components : List TreeName}
    (h : path.mapM (TreeName.new · limits) = .ok components) :
    components.map (·.bytes) = path := by
  induction path generalizing components with
  | nil =>
    cases h
    rfl
  | cons name path ih =>
    simp only [List.mapM_cons, bind_eq_ok_iff] at h
    obtain ⟨first, new, rest, others, joined⟩ := h
    cases joined
    rw [List.map_cons, ih others, (TreeName.new_eq_ok_iff.mp new).1]

theorem itemWithin_of_names {limits : CheckoutLimits} {item : TreeItem}
    (h : namesWithin limits item.path = .ok ()) : ItemWithin limits [] item := by
  obtain ⟨components, named, within⟩ := bind_eq_ok_iff.mp h
  exact ⟨components, mapM_treeName named, validatePathShape_eq_ok_iff.mp within⟩

theorem rootItems_checkable : Checkable commitSource.database {} rootItems := by
  have valid : ∀ item ∈ rootItems, namesWithin {} item.path = .ok () := by decide +kernel
  have blobs : ∀ item ∈ rootItems, item.mode ≠ .directory → item.oid = taggedBlob.oid := by
    decide +kernel
  have read : commitSource.database.readObject taggedBlob.oid = .ok taggedBlob := by decide +kernel
  refine ⟨⟨fun item mem => itemWithin_of_names (valid item mem), ?_, by decide +kernel⟩,
    by decide +kernel, ?_⟩
  · unfold PrefixFree
    decide +kernel
  · intro item mem leaf
    exact ⟨taggedBlob, blobs item mem leaf ▸ read, rfl, fun _ => by decide +kernel⟩

def commitHeader : ChunkHeader := ⟨1, 0, 0, 0⟩

def commitCold : ColdWorkspaceSource :=
  importedSource .reference emptyInstance commitSource .raw commitHeader (repoId 1)

theorem rootCommit_checkedOut : ∃ plan cache stage,
    commitCold.planCommit .reference rootCommit.oid {} = .ok plan ∧
    materializeRaw .reference (commitCold.rawCheckoutSource .reference) .reject plan ∅ ∅ =
      (cache, .ok stage) ∧
    CheckedOut commitSource.database rootItems stage := by
  have imports : (importLocalRefsWithCodec .reference commitSource (.create commitHeader)
      emptyInstance.catalog (repoId 1) commitHeader.generation commitHeader.chunkId
      .raw).2.2.toBool = true := by decide +kernel
  obtain ⟨result, imported⟩ := exists_ok_of_toBool imports
  have initial : emptyInstance.Initial commitHeader.generation := emptyInstance_initial
  have reachable : commitSource.Reachable rootCommit :=
    ⟨.root (List.mem_singleton.mpr rfl), by decide +kernel⟩
  have root : commitTreeOid rootCommit = .ok rootTree.oid := by decide +kernel
  have unfolds : unfoldTree (fun oid => (commitSource.database.readObject oid).toOption) 2
      rootTree.oid = some rootItems := by decide +kernel
  have empty : Cache.Within InCommit ∅ := by
    intro id bytes found
    simp at found
  exact checkout_imported_commit .reference InCommit Primitives.reference_zstdInverts inCommit_apart
    commitSource .raw commitSource_importable commitCold (importedSource_fresh initial imported)
    rootCommit reachable rootTree.oid root 2 rootItems unfolds {} rootItems_checkable .reject ∅
      empty

end ReflinkForest
