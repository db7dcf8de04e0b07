import ReflinkForest.Index.RocksDbRefinement

/-! What the two catalogs answer. The byte order of the encoded keys is the order in which the in-
memory catalog sorts. -/
namespace ReflinkForest
open Bytes ColumnStore Catalog Except List RocksDbCatalog

variable {rocks : RocksDbCatalog} {mem : InMemoryCatalog}

theorem lookupRecord_stored {K V : Type} {key : K → Str} {value : V → Str} {view : K → Option V}
    {family : ColumnFamily} {decode : Str → Except CatalogError V}
    (stores : Stores key value view (rocks.db.families family))
    (roundTrip : ∀ v, decode (value v) = .ok v) (k : K) :
    rocks.lookupRecord family (key k) decode = view k := by
  have stored := stores.lookup k
  unfold lookupRecord Database.get
  rw [stored]
  cases view k with
  | none => rfl
  | some v => simp [roundTrip, Except.toOption]

theorem Refines.objectLocation (refines : Refines rocks mem) (id : ContentId) :
    rocks.objectLocation id = mem.objectLocation id := by
  have stored := lookupRecord_stored (refines.held .objectLocations)
    decode_encodeObjectLocationValue id
  unfold RocksDbCatalog.objectLocation InMemoryCatalog.objectLocation
  rw [refines.readObjectLocationRebuildState, InMemoryCatalog.objectLocationRebuildState]
  cases mem.objectLocationRebuildInProgress with
  | false => exact stored
  | true => rfl

theorem Refines.metaValue (refines : Refines rocks mem) (key : Str) :
    rocks.metaValue key = mem.metaValue key := by
  have stored := lookupRecord_stored (refines.held .metas) decode_encodeOpaqueValue key
  unfold RocksDbCatalog.metaValue InMemoryCatalog.metaValue
  by_cases marker : key = objectLocationRebuildMetaKey
  · rw [if_pos marker, marker, refines.unmarked]
  · rw [if_neg marker, stored, metaView, if_neg marker]

theorem Refines.currentGeneration (refines : Refines rocks mem) :
    rocks.currentGeneration = mem.currentGeneration := by
  unfold RocksDbCatalog.currentGeneration InMemoryCatalog.currentGeneration
  rewrite [refines.metaValue, InMemoryCatalog.metaValue]
  rfl

/-- A scan of a family shows the entries of the map that it stores, in the map's own order. -/
theorem mapM_iterator {K V L α : Type} [DecidableEq K] [LinearOrder L] {key : K → Str}
    {value : V → Str} {m : FinMap K V} {family : ColumnFamily} {sortKey : K → L}
    {read : Str × Str → Except CatalogError α} {entry : K × V → α}
    (stores : Stores key value m.lookup (rocks.db.families family))
    (injective : key.Injective) (injectiveValue : value.Injective)
    (order : ∀ a b, key a < key b ↔ sortKey a < sortKey b)
    (reads : ∀ e : K × V, read (key e.1, value e.2) = .ok (entry e)) :
    (rocks.db.iterator family).mapM read =
      .ok ((m.sortedBy fun e => sortKey e.1).map entry) := by
  have distinct : sortKey.Injective := by
    intro a b same
    apply injective
    apply le_antisymm <;> exact not_lt.mp fun lt => (order _ _).mp lt |>.ne (by simp [same])
  have sorted := (m.pairwise_sortedBy distinct).imp fun {a b} lt => (order a.1 b.1).mpr lt
  have shown := stores.sortedBy injective injectiveValue sorted fun k v => FinMap.mem_sortedBy
  have decoded : (read ∘ fun e : K × V => (key e.1, value e.2)) = fun e => pure (entry e) :=
    funext reads
  rw [Database.iterator, shown, mapM_map, decoded, mapM_pure]
  rfl

theorem Refines.visitObjectLocations (refines : Refines rocks mem) :
    rocks.visitObjectLocations = mem.visitObjectLocations := by
  have shown := @mapM_iterator rocks _ _ _ ObjectLocationEntry _ _ _ _ _ _ ContentId.key
    (fun e => do
      let id ← decodeObjectLocationKey e.1
      let location ← decodeObjectLocationValue e.2
      .ok ⟨id, location⟩)
    (fun e => ⟨e.1, e.2⟩) (refines.held .objectLocations) encodeObjectLocationKey_injective
    (injective_of_decode decode_encodeObjectLocationValue) (fun _ _ => cons_version_lt_iff)
    fun e => by
      rw [decode_encodeObjectLocationKey, decode_encodeObjectLocationValue]
      rfl
  unfold RocksDbCatalog.visitObjectLocations InMemoryCatalog.visitObjectLocations
  rw [refines.readObjectLocationRebuildState, ok_bind, shown]
  simp only [objectLocationRebuildState_ne_inProgress]

theorem Refines.visitOidAliases (refines : Refines rocks mem) :
    rocks.visitOidAliases = .ok mem.visitOidAliases := by
  refine mapM_iterator (refines.held .oidAliases) encodeOidAliasKey_injective
    (injective_of_decode decode_encodeContentIdValue) (fun _ _ => encodeOidAliasKey_lt_iff)
    fun e => ?_
  rw [decode_encodeOidAliasKey, decode_encodeContentIdValue]
  rfl

theorem Refines.visitChunks (refines : Refines rocks mem) :
    rocks.visitChunks = mem.visitChunks := by
  unfold RocksDbCatalog.visitChunks InMemoryCatalog.visitChunks
  rw [refines.readObjectLocationRebuildState, ok_bind,
    @mapM_iterator rocks _ _ _ ChunkEntry _ _ _ _ _ _ (fun k => toLex (k.1.toNat, k.2.toNat)) _
      (fun e => ⟨e.1.1, e.1.2, e.2⟩) (refines.held .chunks) encodeChunkKey_injective
      (injective_of_decode decode_encodeChunkValue) (fun _ _ => encodeChunkKey_lt_iff)]
  · simp only [objectLocationRebuildState_ne_inProgress]
  · intro e
    rw [decode_encodeChunkKey, decode_encodeChunkValue]
    rfl

theorem insertionSort_of_lt {α : Type} {sortKey : α → Str} {xs : List α}
    (sorted : xs.Pairwise fun a b => sortKey a < sortKey b) :
    xs.insertionSort (fun a b => sortKey a ≤ sortKey b) = xs :=
  (sorted.imp le_of_lt).insertionSort_eq

theorem repositorySnapshotList_sorted (mem : InMemoryCatalog) :
    mem.repositorySnapshotList.Pairwise fun a b =>
      a.repository.bytes.toList ++ a.snapshot.bytes.toList <
        b.repository.bytes.toList ++ b.snapshot.bytes.toList := by
  have distinct : Function.Injective fun k : RepoId × SnapshotId =>
      k.1.bytes.toList ++ k.2.bytes.toList :=
    fun a b same => encodeRepositorySnapshotKey_injective (congrArg (catalogVersion :: ·) same)
  exact pairwise_map.mpr (mem.repositorySnapshots.pairwise_sortedBy distinct)

theorem Refines.repositorySnapshots (refines : Refines rocks mem) :
    rocks.repositorySnapshots = .ok mem.repositorySnapshotList := by
  unfold RocksDbCatalog.repositorySnapshots
  rw [@mapM_iterator rocks _ _ _ RepositorySnapshot _ _ _ _ _ _
    (fun k : RepoId × SnapshotId => k.1.bytes.toList ++ k.2.bytes.toList) _
    (fun e => ⟨e.1.1, e.1.2, e.2⟩) (refines.held .repoSnapshots)
    encodeRepositorySnapshotKey_injective
    (injective_of_decode decode_encodeSnapshotVisibilityValue) (fun _ _ => cons_version_lt_iff),
    ok_bind]
  · refine congrArg Except.ok (insertionSort_of_lt ((repositorySnapshotList_sorted mem).imp ?_))
    intro a b before
    exact (append_lt_append_iff (by simp)).mpr (.inl before)
  · intro e
    rw [decode_encodeRepositorySnapshotKey, decode_encodeSnapshotVisibilityValue]
    rfl

/-- The pins of the two kinds, told apart by the length of the key. -/
theorem collectPins_stored {α : Type} {length skipped : ℕ}
    {decode : Str → Str → Except CatalogError α}
    {pick : (WorkspaceId ⊕ GcPinId) × UInt32 → Option α}
    (taken : ∀ e pin, pick e = some pin → (pinKey e.1).length = length ∧
      decode (pinKey e.1) (encodeWorkspacePinValue e.2) = .ok pin)
    (passed : ∀ e, pick e = none → (pinKey e.1).length ≠ length ∧ (pinKey e.1).length = skipped)
    (entries : List ((WorkspaceId ⊕ GcPinId) × UInt32)) :
    collectPins length skipped decode
        (entries.map fun e => (pinKey e.1, encodeWorkspacePinValue e.2)) =
      .ok (entries.filterMap pick) := by
  induction entries with
  | nil => rfl
  | cons e entries ih =>
    rw [map_cons, collectPins, ih]
    cases picked : pick e with
    | some pin =>
      obtain ⟨size, decoded⟩ := taken e pin picked
      rw [if_pos size, decoded, filterMap_cons_some picked]
      rfl
    | none =>
      obtain ⟨other, size⟩ := passed e picked
      rw [if_neg other, require_pos size, filterMap_cons_none picked]
      rfl

theorem workspaceId_bytes_injective : Function.Injective fun id : WorkspaceId => id.bytes.toList :=
  fun _ _ same => encodeWorkspaceKey_injective (congrArg (catalogVersion :: ·) same)

theorem gcPinId_bytes_injective : Function.Injective fun id : GcPinId => id.bytes.toList :=
  fun _ _ same =>
    encodeGcPinKey_injective (congrArg (catalogVersion :: explicitGcPinKeyTag :: ·) same)

theorem workspacePinList_sorted (mem : InMemoryCatalog) :
    mem.workspacePinList.Pairwise fun a b => a.1.bytes.toList < b.1.bytes.toList := by
  exact mem.workspacePins.pairwise_sortedBy workspaceId_bytes_injective

theorem gcPinList_sorted (mem : InMemoryCatalog) :
    mem.gcPinList.Pairwise fun a b => a.id.bytes.toList < b.id.bytes.toList := by
  exact pairwise_map.mpr (mem.gcPins.pairwise_sortedBy gcPinId_bytes_injective)

/-- The entries of one kind are those of its map, in its order. -/
theorem filterMap_pins {I : Type} [DecidableEq I] {m : FinMap I UInt32}
    {side : WorkspaceId ⊕ GcPinId → Option I} {embed : I → WorkspaceId ⊕ GcPinId}
    {bytes : I → Str} {entries : List ((WorkspaceId ⊕ GcPinId) × UInt32)}
    (sides : ∀ k id, side k = some id ↔ k = embed id) (distinct : bytes.Injective)
    (order : ∀ a b, pinKey (embed a) < pinKey (embed b) → bytes a < bytes b)
    (sorted : entries.Pairwise fun a b => pinKey a.1 < pinKey b.1)
    (members : ∀ id generation, (embed id, generation) ∈ entries ↔ m.lookup id = some generation) :
    entries.filterMap (fun e => (side e.1).map fun id => (id, e.2)) =
      m.sortedBy fun e => bytes e.1 := by
  refine FinMap.eq_of_pairwise_of_mem_iff ?_ (m.pairwise_sortedBy distinct) fun e => ?_
  · refine sorted.filterMap _ fun a b before x left y right => ?_
    obtain ⟨id, first, rfl⟩ := Option.map_eq_some_iff.mp left
    obtain ⟨id', second, rfl⟩ := Option.map_eq_some_iff.mp right
    rw [(sides _ _).mp first, (sides _ _).mp second] at before
    exact order id id' before
  · rw [FinMap.mem_sortedBy, ← members, mem_filterMap]
    constructor
    · rintro ⟨⟨k, generation⟩, mem, picked⟩
      obtain ⟨id, found, rfl⟩ := Option.map_eq_some_iff.mp picked
      rw [(sides k id).mp found] at mem
      exact mem
    · intro mem
      exact ⟨_, mem, by rw [(sides _ _).mpr rfl, Option.map_some]⟩

theorem Refines.exists_pins (refines : Refines rocks mem) :
    ∃ entries : List ((WorkspaceId ⊕ GcPinId) × UInt32),
      rocks.db.iterator .pins =
        entries.map (fun e => (pinKey e.1, encodeWorkspacePinValue e.2)) ∧
      entries.filterMap (fun e => e.1.getLeft?.map fun id => (id, e.2)) = mem.workspacePinList ∧
      entries.filterMap (fun e => e.1.getRight?.map fun id => (⟨id, e.2⟩ : GcPin)) =
        mem.gcPinList := by
  obtain ⟨entries, shown, sorted, members⟩ := Stores.exists_entries pinKey_injective
    (injective_of_decode decode_encodeCurrentGenerationValue) (refines.held .pins)
  refine ⟨entries, shown, ?_, ?_⟩
  · exact filterMap_pins (fun k id => Sum.getLeft?_eq_some_iff) workspaceId_bytes_injective
      (fun a b => cons_version_lt_iff.mp) sorted fun id => members (.inl id)
  · have pins := filterMap_pins (fun k id => Sum.getRight?_eq_some_iff) gcPinId_bytes_injective
      (fun a b before => by simpa [pinKey, encodeGcPinKey] using before) sorted
      fun id => members (.inr id)
    rw [InMemoryCatalog.gcPinList, ← pins, map_filterMap]
    simp only [Option.map_map, Function.comp_def]

theorem decodeWorkspacePin_encoded (id : WorkspaceId) (generation : UInt32) :
    decodeWorkspacePin (encodeWorkspacePinKey id)
      (encodeWorkspacePinValue generation) = .ok (id, generation) := by
  rw [decodeWorkspacePin, decodeWorkspacePinKey, encodeWorkspacePinKey,
    decode_encodeWorkspaceKey, ok_bind, decodeWorkspacePinValue, encodeWorkspacePinValue,
    decode_encodeCurrentGenerationValue, ok_bind]

theorem decodeGcPin_encoded (id : GcPinId) (generation : UInt32) :
    decodeGcPin (encodeGcPinKey id) (encodeGcPinValue generation) =
      .ok ⟨id, generation⟩ := by
  rw [decodeGcPin, decode_encodeGcPinKey, ok_bind, decodeGcPinValue,
    encodeGcPinValue, decodeWorkspacePinValue, encodeWorkspacePinValue,
    decode_encodeCurrentGenerationValue, ok_bind]

theorem Refines.workspacePins (refines : Refines rocks mem) :
    rocks.workspacePins = .ok mem.workspacePinList := by
  obtain ⟨entries, shown, pins, _⟩ := refines.exists_pins
  have collected : collectPins 17 18 decodeWorkspacePin
      (rocks.db.iterator .pins) = .ok mem.workspacePinList := by
    rw [shown, ← pins]
    refine collectPins_stored ?_ ?_ entries
    · rintro ⟨id | id, generation⟩ pin ⟨⟩
      refine ⟨by simp [pinKey, encodeWorkspacePinKey, encodeWorkspaceKey], ?_⟩
      exact decodeWorkspacePin_encoded id generation
    · rintro ⟨id | id, generation⟩ ⟨⟩
      simp [pinKey, encodeGcPinKey]
  unfold RocksDbCatalog.workspacePins
  rw [collected, ok_bind]
  refine congrArg Except.ok (insertionSort_of_lt ((workspacePinList_sorted mem).imp ?_))
  intro a b before
  exact (append_lt_append_iff (by simp)).mpr (.inl before)

theorem Refines.gcPins (refines : Refines rocks mem) : rocks.gcPins = .ok mem.gcPinList := by
  obtain ⟨entries, shown, _, pins⟩ := refines.exists_pins
  have collected : collectPins 18 17 decodeGcPin
      (rocks.db.iterator .pins) = .ok mem.gcPinList := by
    rw [shown, ← pins]
    refine collectPins_stored ?_ ?_ entries
    · rintro ⟨id | id, generation⟩ pin ⟨⟩
      refine ⟨by simp [pinKey, encodeGcPinKey], ?_⟩
      exact decodeGcPin_encoded id generation
    · rintro ⟨id | id, generation⟩ ⟨⟩
      simp [pinKey, encodeWorkspacePinKey, encodeWorkspaceKey]
  unfold RocksDbCatalog.gcPins
  rw [collected, ok_bind]
  refine congrArg Except.ok (insertionSort_of_lt ((gcPinList_sorted mem).imp ?_))
  intro a b before
  exact (append_lt_append_iff (by simp)).mpr (.inl before)

/-- Every part is in order and so are the parts. -/
theorem gcRoots_sorted (mem : InMemoryCatalog) :
    mem.gcRoots.Pairwise fun a b => a.sortKey < b.sortKey := by
  have pinned {id id' : List.Vector UInt8 16} {generation generation' : UInt32}
      (before : id.toList < id'.toList) : pinSortKey id generation < pinSortKey id' generation' :=
    (append_lt_append_iff (by simp)).mpr (.inl before)
  have snapshots := ((repositorySnapshotList_sorted mem).filter (·.visibility = .ready))
  have apart {tag tag' : UInt8} {x y : Str} (before : tag < tag') : tag :: x < tag' :: y :=
    cons_lt_cons_iff.mpr (.inl before)
  have inside {tag : UInt8} {x y : Str} (before : x < y) : tag :: x < tag :: y :=
    cons_lt_cons_iff.mpr (.inr ⟨rfl, before⟩)
  rw [InMemoryCatalog.gcRoots, pairwise_append, pairwise_append, pairwise_map,
    pairwise_map, pairwise_map]
  refine ⟨⟨snapshots.imp inside, (workspacePinList_sorted mem).imp fun h => inside (pinned h), ?_⟩,
    (gcPinList_sorted mem).imp fun h => inside (pinned h), ?_⟩
  · simp only [mem_map]
    rintro _ ⟨s, _, rfl⟩ _ ⟨p, _, rfl⟩
    exact apart (by decide)
  · simp only [mem_append, mem_map]
    rintro _ (⟨s, _, rfl⟩ | ⟨p, _, rfl⟩) _ ⟨pin, _, rfl⟩ <;> exact apart (by decide)

theorem Refines.gcRoots (refines : Refines rocks mem) : rocks.gcRoots = .ok mem.gcRoots := by
  unfold RocksDbCatalog.gcRoots
  rw [refines.repositorySnapshots, ok_bind, refines.workspacePins, ok_bind, refines.gcPins, ok_bind]
  exact congrArg Except.ok (insertionSort_of_lt (gcRoots_sorted mem))

/-- Every query of the `Catalog` trait answers alike. -/
structure SameAnswers (rocks : RocksDbCatalog) (mem : InMemoryCatalog) : Prop where
  objectLocation : ∀ id, rocks.objectLocation id = mem.objectLocation id
  objectLocationRebuildState :
    rocks.readObjectLocationRebuildState = .ok mem.objectLocationRebuildState
  oidAlias : ∀ repo oid, rocks.oidAlias repo oid = mem.oidAlias repo oid
  repository : ∀ id, rocks.repository id = mem.repository id
  repositorySnapshot : ∀ repository snapshot,
    rocks.repositorySnapshot repository snapshot = mem.repositorySnapshot repository snapshot
  chunk : ∀ generation chunkId, rocks.chunk generation chunkId = mem.chunk generation chunkId
  metaValue : ∀ key, rocks.metaValue key = mem.metaValue key
  currentGeneration : rocks.currentGeneration = mem.currentGeneration
  workspace : ∀ id, rocks.workspace id = mem.workspace id
  workspaceName : ∀ name, rocks.workspaceName name = mem.workspaceName name
  workspacePin : ∀ id, rocks.workspacePin id = mem.workspacePin id
  job : ∀ jobId, rocks.job jobId = mem.job jobId
  repositorySnapshots : rocks.repositorySnapshots = .ok mem.repositorySnapshotList
  workspacePins : rocks.workspacePins = .ok mem.workspacePinList
  gcPins : rocks.gcPins = .ok mem.gcPinList
  gcRoots : rocks.gcRoots = .ok mem.gcRoots
  visitObjectLocations : rocks.visitObjectLocations = mem.visitObjectLocations
  visitOidAliases : rocks.visitOidAliases = .ok mem.visitOidAliases
  visitChunks : rocks.visitChunks = mem.visitChunks

theorem Refines.sameAnswers (refines : Refines rocks mem) : SameAnswers rocks mem where
  objectLocation := refines.objectLocation
  objectLocationRebuildState := refines.readObjectLocationRebuildState
  oidAlias repo oid := lookupRecord_stored (refines.held .oidAliases) decode_encodeContentIdValue
    (repo, oid)
  repository := lookupRecord_stored (refines.held .repositories) decode_encodeOpaqueValue
  repositorySnapshot repository snapshot := lookupRecord_stored (refines.held .repoSnapshots)
    decode_encodeSnapshotVisibilityValue (repository, snapshot)
  chunk generation chunkId := lookupRecord_stored (refines.held .chunks) decode_encodeChunkValue
    (generation, chunkId)
  metaValue := refines.metaValue
  currentGeneration := refines.currentGeneration
  workspace := lookupRecord_stored (refines.held .workspaces) decode_encodeOpaqueValue
  workspaceName := lookupRecord_stored (refines.held .workspaceNames) decode_encodeWorkspaceKey
  workspacePin id := lookupRecord_stored (refines.held .pins) decode_encodeCurrentGenerationValue
    (.inl id)
  job := lookupRecord_stored (refines.held .jobs) decode_encodeOpaqueValue
  repositorySnapshots := refines.repositorySnapshots
  workspacePins := refines.workspacePins
  gcPins := refines.gcPins
  gcRoots := refines.gcRoots
  visitObjectLocations := refines.visitObjectLocations
  visitOidAliases := refines.visitOidAliases
  visitChunks := refines.visitChunks

theorem refines_run (calls : List CatalogCall) :
    (Simulation.run call {} calls).2 =
        (Simulation.run InMemoryCatalog.call {} calls).2 ∧
      Refines (Simulation.run call {} calls).1
        (Simulation.run InMemoryCatalog.call {} calls).1 :=
  Simulation.Related.run (fun _ _ call refines => refines.call call) refines_empty calls

/-- Every sequence of calls on empty catalogs, and so every prefix of one, has the same results
and leaves catalogs that answer alike. -/
theorem rocksDbCatalog_refines (calls : List CatalogCall) :
    (Simulation.run call {} calls).2 =
        (Simulation.run InMemoryCatalog.call {} calls).2 ∧
      SameAnswers (Simulation.run call {} calls).1
        (Simulation.run InMemoryCatalog.call {} calls).1 := by
  obtain ⟨results, refines⟩ := refines_run calls
  exact ⟨results, refines.sameAnswers⟩

end ReflinkForest
