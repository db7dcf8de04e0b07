import ReflinkForest.Store.LocationRebuild

/-! What a rebuild over complete chunks leaves in the catalog: for every content ID its first copy.
-/
namespace ReflinkForest
open Bytes Except List FinMap RebuildCandidate InMemoryCatalog

section Preflight
variable {π : Type} {P : Primitives} {disk : ChunkDisk π} {current : Option UInt32}
  {header : π → ChunkHeader} {records : π → List ObjectRecord} {done paths : List π} {path : π}
  {state : PreflightState π}

/-- The candidates of some chunks. -/
def Shown (header : π → ChunkHeader) (records : π → List ObjectRecord) (paths : List π)
    (id : ContentId) (candidate : RebuildCandidate π) : Prop :=
  candidate.entry.contentId = id ∧ ∃ path ∈ paths,
    candidate ∈ collectCandidates (header path) path chunkHeaderLen (records path)

/-- What the loop over the paths keeps. -/
structure Preflighting (current : Option UInt32) (header : π → ChunkHeader)
    (records : π → List ObjectRecord) (done : List π) (state : PreflightState π) : Prop where
  identities : ∀ identity, identity ∈ state.identities ↔
    ∃ path ∈ done, identity = ((header path).generation, (header path).chunkId)
  selected : FinMap.Leasts (fun candidate => rebuildRank current candidate.entry.location)
    (Shown header records done) state.selected

theorem foldl_selectCandidate (candidates : List (RebuildCandidate π))
    {seen : ContentId → RebuildCandidate π → Prop}
    (leasts : FinMap.Leasts (fun candidate => rebuildRank current candidate.entry.location) seen
      state.selected) :
    (candidates.foldl (selectCandidate current) state).identities = state.identities ∧
      FinMap.Leasts (fun candidate => rebuildRank current candidate.entry.location)
        (fun id candidate => (candidate.entry.contentId = id ∧ candidate ∈ candidates) ∨
          seen id candidate)
        (candidates.foldl (selectCandidate current) state).selected := by
  induction candidates generalizing state seen with
  | nil => exact ⟨rfl, leasts.congr (by simp)⟩
  | cons first candidates ih =>
    have step := leasts.keepFirst (fun a b => rebuildLocationPrecedes_iff)
      first.entry.contentId first
    obtain ⟨identities, selected⟩ :=
      ih (show FinMap.Leasts _ _ (selectCandidate current state first).selected from step)
    refine ⟨identities, selected.congr fun id candidate => ?_⟩
    rw [mem_cons]
    constructor
    · rintro (⟨named, mem⟩ | ⟨rfl, rfl⟩ | before)
      · exact .inl ⟨named, .inr mem⟩
      · exact .inl ⟨rfl, .inl rfl⟩
      · exact .inr before
    · rintro (⟨rfl, rfl | mem⟩ | before)
      · exact .inr (.inl ⟨rfl, rfl⟩)
      · exact .inl ⟨rfl, mem⟩
      · exact .inr (.inr before)

section
variable (preflighting : Preflighting current header records done state)
include preflighting

theorem Preflighting.congr {done' : List π}
    (same : ∀ path, path ∈ done ↔ path ∈ done') :
    Preflighting current header records done' state := by
  refine ⟨fun identity => ?_, preflighting.selected.congr fun id candidate => ?_⟩
  · simp only [preflighting.identities, same]
  · simp only [Shown, same]

def Distinguished (header : π → ChunkHeader) (p q : π) : Prop :=
  (header p).generation = (header q).generation → (header p).chunkId ≠ (header q).chunkId

theorem Preflighting.scanPath
    {file : Str} (found : disk.file path = some file)
    (complete : CompleteChunk P (disk.suffix path) file (header path) (records path))
    (fresh : ∀ other ∈ done, Distinguished header other path) :
    ∃ state', scanPath P disk current state path = .ok state' ∧
      Preflighting current header records (path :: done) state' := by
  obtain ⟨kind, scanned⟩ := scanChunkForLocationRebuild_complete found complete
  have unused : ((header path).generation, (header path).chunkId) ∉ state.identities := by
    rw [preflighting.identities]
    rintro ⟨other, mem, same⟩
    obtain ⟨generation, chunk⟩ := Prod.mk.inj same
    exact fresh other mem generation.symm chunk.symm
  unfold ReflinkForest.scanPath
  simp only [scanned, ok_bind, require_pos unused]
  refine ⟨_, rfl, ?_⟩
  have chosen (begun : PreflightState π) (same : begun.selected = state.selected) :=
    foldl_selectCandidate (collectCandidates (header path) path chunkHeaderLen (records path))
      (show FinMap.Leasts _ _ begun.selected from same ▸ preflighting.selected)
  refine ⟨fun identity => ?_, FinMap.Leasts.congr (chosen _ (by rfl)).2 fun id candidate => ?_⟩
  · rw [(chosen _ (by rfl)).1, mem_cons, preflighting.identities]
    simp
  · simp only [Shown, exists_mem_cons_iff, and_or_left]

theorem Preflighting.foldlM
    (complete : ∀ path ∈ paths, ∃ file, disk.file path = some file ∧
      CompleteChunk P (disk.suffix path) file (header path) (records path))
    (distinct : (done ++ paths).Pairwise (Distinguished header)) :
    ∃ state', paths.foldlM (ReflinkForest.scanPath P disk current) state = .ok state' ∧
      Preflighting current header records (done ++ paths) state' := by
  induction paths generalizing done state with
  | nil => exact ⟨state, rfl, preflighting.congr (by simp)⟩
  | cons path paths ih =>
    obtain ⟨⟨file, found, whole⟩, others⟩ := forall_mem_cons.mp complete
    have before := (pairwise_append.mp distinct).2.2
    obtain ⟨next, scanned, reached⟩ := preflighting.scanPath found whole
      fun other mem => before other mem path mem_cons_self
    have moved : Preflighting current header records (done ++ [path]) next :=
      reached.congr fun other => by simp [or_comm]
    obtain ⟨final, rest, finished⟩ := ih moved others (by rwa [append_assoc])
    refine ⟨final, ?_, by rwa [append_assoc] at finished⟩
    rw [foldlM_cons, scanned, ok_bind]
    exact rest
end
end Preflight

section Rebuild
variable {π : Type} {P : Primitives} {disk : ChunkDisk π}
  {header : π → ChunkHeader} {records : π → List ObjectRecord} {catalog : InMemoryCatalog}
  {paths : List π}

structure IntactChunks (P : Primitives) (disk : ChunkDisk π) (header : π → ChunkHeader)
    (records : π → List ObjectRecord) (paths : List π) : Prop where
  complete : ∀ path ∈ paths, ∃ file, disk.file path = some file ∧
    CompleteChunk P (disk.suffix path) file (header path) (records path)
  distinct : ∀ p ∈ paths, ∀ q ∈ paths, p ≠ q → Distinguished header p q

/-- Intact chunks that hold the content of every alias. -/
structure Rebuildable (P : Primitives) (disk : ChunkDisk π) (header : π → ChunkHeader)
    (records : π → List ObjectRecord) (catalog : InMemoryCatalog) (paths : List π) : Prop
    extends IntactChunks P disk header records paths where
  stored : ∀ repo oid id, catalog.oidAlias repo oid = some id →
    ∃ path ∈ paths, ∃ record ∈ records path, record.contentId = id
  named : ∀ repo oid id, catalog.oidAlias repo oid = some id → ∀ path ∈ paths,
    ∀ record ∈ records path, record.contentId = id → ∀ raw, decodeObjectPayload P record = .ok raw →
      GitOid.forObject P oid.algorithm record.kind raw = oid

theorem Rebuildable.congr {paths' : List π}
    (input : Rebuildable P disk header records catalog paths)
    (same : ∀ path, path ∈ paths' ↔ path ∈ paths) :
    Rebuildable P disk header records catalog paths' where
  complete path mem := input.complete path ((same path).mp mem)
  distinct p pMem q qMem := input.distinct p ((same p).mp pMem) q ((same q).mp qMem)
  stored repo oid id aliased := by
    simp only [same]
    exact input.stored repo oid id aliased
  named repo oid id aliased path mem := input.named repo oid id aliased path ((same path).mp mem)

/-- `location` describes a record with this content ID in one of the chunks. -/
def PhysicalCopy (header : π → ChunkHeader) (records : π → List ObjectRecord) (paths : List π)
    (id : ContentId) (location : ObjectLocation) : Prop :=
  ∃ path ∈ paths, ∃ before record after, records path = before ++ record :: after ∧
    record.contentId = id ∧
    location = record.locationAt (header path) (chunkHeaderLen + (encodings before).length)

/-- The offset of a record tells it from the others of its chunk. -/
theorem record_of_offset {before before' after after' : List ObjectRecord}
    {record record' : ObjectRecord}
    (split : before ++ record :: after = before' ++ record' :: after')
    (offset : (encodings before).length = (encodings before').length) : record = record' := by
  induction before generalizing before' with
  | nil =>
    cases before' with
    | nil => exact (List.cons.inj split).1
    | cons first before' =>
      have positive := first.length_encoding_pos
      rw [encodings_cons, length_append, encodings_nil, length_nil] at offset
      omega
  | cons first before ih =>
    cases before' with
    | nil =>
      have positive := first.length_encoding_pos
      rw [encodings_cons, length_append, encodings_nil, length_nil] at offset
      omega
    | cons first' before' =>
      obtain ⟨rfl, rest⟩ := List.cons.inj split
      rw [encodings_cons, encodings_cons, length_append, length_append] at offset
      exact ih rest (by omega)

theorem IntactChunks.physicalCopy_unique (input : IntactChunks P disk header records paths)
    {id id' : ContentId} {a b : ObjectLocation} (left : PhysicalCopy header records paths id a)
    (right : PhysicalCopy header records paths id' b) {current : Option UInt32}
    (same : rebuildRank current a = rebuildRank current b) : a = b := by
  obtain ⟨p, pMem, before, record, after, split, _, rfl⟩ := left
  obtain ⟨q, qMem, before', record', after', split', _, rfl⟩ := right
  simp only [rebuildRank, rebuildLocationOrder, ObjectRecord.locationAt, toLex_inj, Prod.mk.injEq,
    UInt32.toNat_inj, UInt64.toNat_inj] at same
  obtain ⟨_, generation, chunk, offset⟩ := same
  obtain rfl : p = q := by
    by_contra ne
    exact input.distinct p pMem q qMem ne generation chunk
  obtain ⟨file, _, complete⟩ := input.complete p pMem
  have first := (split ▸ complete).holdsRecord.1.end_lt
  have second := (split' ▸ complete).holdsRecord.1.end_lt
  have offsets := congrArg UInt64.toNat offset
  rw [UInt64.toNat_ofNat', UInt64.toNat_ofNat', Nat.mod_eq_of_lt (by omega),
    Nat.mod_eq_of_lt (by omega)] at offsets
  have lengths : (encodings before).length = (encodings before').length := by omega
  rw [record_of_offset (split.symm.trans split') lengths, lengths]

theorem shown_iff {id : ContentId} {candidate : RebuildCandidate π} :
    Shown header records paths id candidate ↔ candidate.path ∈ paths ∧
      ∃ before record after, records candidate.path = before ++ record :: after ∧
        record.contentId = id ∧ candidate.entry = ⟨id, record.locationAt (header candidate.path)
          (chunkHeaderLen + (encodings before).length)⟩ := by
  obtain ⟨entry, place⟩ := candidate
  simp only [Shown, mem_collectCandidates, RebuildCandidate.mk.injEq]
  constructor
  · rintro ⟨rfl, path, mem, before, record, after, split, rfl, rfl⟩
    exact ⟨mem, before, record, after, split, rfl, rfl⟩
  · rintro ⟨mem, before, record, after, split, rfl, rfl⟩
    exact ⟨rfl, place, mem, before, record, after, split, rfl, rfl⟩

theorem physicalCopy_iff {id : ContentId} {location : ObjectLocation} :
    PhysicalCopy header records paths id location ↔
      ∃ candidate, Shown header records paths id candidate ∧
        candidate.entry.location = location := by
  simp only [shown_iff]
  constructor
  · rintro ⟨path, mem, before, record, after, split, named, rfl⟩
    exact ⟨⟨⟨id, _⟩, path⟩, ⟨mem, before, record, after, split, named, rfl⟩, rfl⟩
  · rintro ⟨candidate, ⟨mem, before, record, after, split, named, entry⟩, rfl⟩
    exact ⟨candidate.path, mem, before, record, after, split, named, by rw [entry]⟩

theorem mem_visitOidAliases {preserved : OidAliasEntry} :
    preserved ∈ catalog.visitOidAliases ↔
      catalog.oidAlias preserved.repository preserved.oid = some preserved.contentId := by
  rw [visitOidAliases, oidAlias, mem_map]
  constructor
  · rintro ⟨e, mem, rfl⟩
    exact mem_sortedBy.mp mem
  · intro found
    exact ⟨((preserved.repository, preserved.oid), preserved.contentId),
      mem_sortedBy.mpr found, rfl⟩

theorem gitOidHasher_eq {algorithm : HashAlgorithm} {kind : ObjectKind} {rawLength : UInt64}
    {raw : Str} (length : raw.length = rawLength.toNat) :
    gitOidHasher P algorithm kind rawLength raw = GitOid.forObject P algorithm kind raw := by
  cases algorithm <;> simp [gitOidHasher, GitOid.forObject, length]

theorem Rebuildable.verifyPreservedAlias (input : Rebuildable P disk header records catalog paths)
    {selected : FinMap ContentId (RebuildCandidate π)} {current : Option UInt32}
    (leasts : FinMap.Leasts (fun candidate => rebuildRank current candidate.entry.location)
      (Shown header records paths) selected)
    {preserved : OidAliasEntry} (member : preserved ∈ catalog.visitOidAliases) :
    verifyPreservedAlias P disk selected preserved = .ok () := by
  have aliased := mem_visitOidAliases.mp member
  obtain ⟨path, mem, copy, inside, same⟩ := input.stored _ _ _ aliased
  obtain ⟨before, after, split⟩ := append_of_mem inside
  have shown : Shown header records paths preserved.contentId ⟨⟨preserved.contentId,
      copy.locationAt (header path) (chunkHeaderLen + (encodings before).length)⟩, path⟩ :=
    shown_iff.mpr ⟨mem, before, copy, after, split, same, rfl⟩
  unfold ReflinkForest.verifyPreservedAlias
  split
  · rename_i absent
    exact absurd shown ((leasts _).2 absent _)
  · rename_i candidate found
    obtain ⟨selectedPath, before, record, after, split, identified, entry⟩ :=
      shown_iff.mp ((leasts _).1 candidate found).1
    obtain ⟨file, present, complete⟩ := input.complete candidate.path selectedPath
    rw [split] at complete
    obtain ⟨holds, scannable⟩ := complete.holdsRecord
    obtain ⟨raw, decodes⟩ := verifyObjectRecord_eq_ok_iff.mp (scannable.2.2 rfl)
    have length := (decodeObjectPayload_eq_ok_iff.mp decodes).2.1
    have oid := input.named _ _ _ aliased candidate.path selectedPath record
      (split ▸ mem_append_right _ mem_cons_self) identified raw decodes
    simp only [present, ofOption_some, ok_bind, entry, holds.streamDecodedRecordAt decodes]
    exact require_pos ((gitOidHasher_eq length).trans oid)

variable [LinearOrder π]

theorem IntactChunks.scanPaths (input : IntactChunks P disk header records paths)
    (current : Option UInt32) :
    ∃ state, (paths.insertionSort (· ≤ ·)).dedup.foldlM (scanPath P disk current)
        ({} : PreflightState π) = .ok state ∧
      FinMap.Leasts (fun candidate => rebuildRank current candidate.entry.location)
        (Shown header records paths) state.selected := by
  have members : ∀ path, path ∈ (paths.insertionSort (· ≤ ·)).dedup ↔ path ∈ paths := by
    intro path
    rw [mem_dedup, mem_insertionSort]
  have distinct : ([] ++ (paths.insertionSort (· ≤ ·)).dedup).Pairwise (Distinguished header) := by
    refine (nodup_dedup _).imp_of_mem fun left right ne => ?_
    exact input.distinct _ ((members _).mp left) _ ((members _).mp right) ne
  have start : Preflighting current header records [] ({} : PreflightState π) :=
    ⟨by simp, leasts_empty.congr (by simp [Shown])⟩
  obtain ⟨state, scanned, reached⟩ := start.foldlM
    (fun path mem => input.complete path ((members path).mp mem)) distinct
  exact ⟨state, scanned, (reached.congr members).selected⟩

theorem Rebuildable.preflight (input : Rebuildable P disk header records catalog paths) :
    ∃ selected report, preflightObjectLocationRebuild P disk catalog paths =
        .ok ⟨(selected.sortedBy fun e => e.1.key).map Prod.snd, report⟩ ∧
      FinMap.Leasts (fun candidate => rebuildRank catalog.currentGeneration
        candidate.entry.location) (Shown header records paths) selected := by
  obtain ⟨state, scanned, selected⟩ := input.scanPaths catalog.currentGeneration
  have verified : catalog.visitOidAliases.forM
      (ReflinkForest.verifyPreservedAlias P disk state.selected) = .ok () :=
    forM_eq_ok_iff.mpr fun _ mem => input.verifyPreservedAlias selected mem
  unfold preflightObjectLocationRebuild
  rw [scanned, ok_bind, verified, ok_bind]
  exact ⟨state.selected, _, rfl, selected⟩

/-- A preflight that passes has found the content of every alias. -/
theorem IntactChunks.aliases_stored (input : IntactChunks P disk header records paths)
    {preflight : LocationRebuildPreflight π}
    (passes : preflightObjectLocationRebuild P disk catalog paths = .ok preflight) {repo : RepoId}
    {oid : GitOid} {id : ContentId} (aliased : catalog.oidAlias repo oid = some id) :
    ∃ path ∈ paths, ∃ record ∈ records path, record.contentId = id := by
  obtain ⟨state, scanned, leasts⟩ := input.scanPaths catalog.currentGeneration
  rw [preflightObjectLocationRebuild, scanned, ok_bind, bind_eq_ok_iff] at passes
  obtain ⟨_, verified, _⟩ := passes
  have checked := forM_eq_ok_iff.mp verified ⟨repo, oid, id⟩
    (mem_visitOidAliases.mpr aliased)
  unfold ReflinkForest.verifyPreservedAlias at checked
  split at checked
  · simp at checked
  · rename_i candidate found
    obtain ⟨mem, before, record, after, split, named, _⟩ :=
      shown_iff.mp ((leasts _).1 candidate found).1
    exact ⟨candidate.path, mem, record, split ▸ mem_append_right _ mem_cons_self, named⟩

/-- What the writes of a rebuild leave, whatever the locations and the rebuild state were. -/
theorem rebuildObjectLocations_of_preflight {preflight : LocationRebuildPreflight π}
    {maximum : ℕ} (positive : 0 < maximum)
    (passes : preflightObjectLocationRebuild P disk catalog paths = .ok preflight)
    (distinct : ((preflight.entries.map entry).map
      ObjectLocationEntry.contentId).Nodup)
    (objects : FinMap ContentId ObjectLocation) (rebuilding : Bool) :
    ∃ report, rebuildObjectLocations P disk (catalog.withLocations objects rebuilding) paths
        maximum = (catalog.withLocations ((∅ : FinMap ContentId ObjectLocation).insertAll
          ((preflight.entries.map entry).map fun e => (e.contentId, e.location)))
            false, .ok report) := by
  have passes' (objects rebuilding) : preflightObjectLocationRebuild P disk
      (catalog.withLocations objects rebuilding) paths = .ok preflight := passes
  have written : (catalog.withLocations ∅ true).rebuildSteps
      (((preflight.entries.map entry).toChunks maximum).map .append ++ [.finish]) =
      (catalog.withLocations ((∅ : FinMap ContentId ObjectLocation).insertAll
        ((preflight.entries.map entry).map fun e => (e.contentId, e.location)))
          false, .ok ()) := by
    rw [rebuildSteps_append, flatten_toChunks]
    · rfl
    · rwa [flatten_toChunks]
    · simp
  unfold rebuildObjectLocations rebuildUntil
  rw [if_neg (by omega)]
  cases rebuilding with
  | false =>
    have begun (rest : List InMemoryCatalog.RebuildStep) :
        (catalog.withLocations objects false).rebuildSteps (.beginRebuild :: rest) =
          (catalog.withLocations ∅ true).rebuildSteps rest := rfl
    have idle : (catalog.withLocations objects false).objectLocationRebuildState = .idle := rfl
    simp [idle, interrupted, rebuildSteps, passes', begun, written]
  | true =>
    have restarted : (catalog.withLocations objects true).rebuildSteps [.restartRebuild] =
        (catalog.withLocations ∅ true, .ok ()) := rfl
    have inProgress : (catalog.withLocations objects true).objectLocationRebuildState =
        .inProgress := rfl
    simp [inProgress, interrupted, restarted, passes', written]

/-- The copy of a content ID that a rebuild keeps. -/
def FirstCopy (header : π → ChunkHeader) (records : π → List ObjectRecord) (paths : List π)
    (current : Option UInt32) (id : ContentId) (location : ObjectLocation) : Prop :=
  PhysicalCopy header records paths id location ∧
    ∀ other, PhysicalCopy header records paths id other →
      rebuildRank current location ≤ rebuildRank current other

/-- A rebuild over rebuildable chunks, whatever the locations and the rebuild state were. -/
theorem Rebuildable.rebuildObjectLocations
    (input : Rebuildable P disk header records catalog paths) :
    ∃ entries : List (ContentId × ObjectLocation),
      (entries.Pairwise fun a b => a.1.key < b.1.key) ∧
      (∀ id location, (id, location) ∈ entries ↔
        FirstCopy header records paths catalog.currentGeneration id location) ∧
      (∀ id location, PhysicalCopy header records paths id location → id ∈ entries.map Prod.fst) ∧
      ∀ maximum, 0 < maximum → ∀ objects rebuilding, ∃ report,
        rebuildObjectLocations P disk (catalog.withLocations objects rebuilding) paths maximum =
          (catalog.withLocations ((∅ : FinMap ContentId ObjectLocation).insertAll entries) false,
            .ok report) := by
  obtain ⟨selected, report, passes, leasts⟩ := input.preflight
  have keyed : ∀ e ∈ selected.sortedBy fun e => e.1.key, e.2.entry.contentId = e.1 :=
    fun e mem => ((leasts e.1).1 e.2 (mem_sortedBy.mp mem)).1.1
  have entries_eq : (((selected.sortedBy fun e => e.1.key).map Prod.snd).map
      entry).map (fun e => (e.contentId, e.location)) =
      (selected.sortedBy fun e => e.1.key).map fun e => (e.1, e.2.entry.location) := by
    rw [map_map, map_map]
    exact map_congr_left fun e mem => Prod.ext (keyed e mem) rfl
  have mem_iff (id location) : (id, location) ∈ ((selected.sortedBy fun e => e.1.key).map
      fun e => (e.1, e.2.entry.location)) ↔
      ∃ candidate, selected.lookup id = some candidate ∧ candidate.entry.location = location := by
    simp only [mem_map, Prod.exists, Prod.mk.injEq, mem_sortedBy]
    constructor
    · rintro ⟨_, candidate, found, rfl, placed⟩
      exact ⟨candidate, found, placed⟩
    · rintro ⟨candidate, found, placed⟩
      exact ⟨id, candidate, found, rfl, placed⟩
  refine ⟨_, pairwise_map.mpr (selected.pairwise_sortedBy ContentId.key_injective),
    fun id location => (mem_iff id location).trans ?_, fun id location copy => ?_,
    fun maximum positive objects rebuilding => ?_⟩
  · constructor
    · rintro ⟨chosen, found, rfl⟩
      obtain ⟨shown, least⟩ := (leasts id).1 chosen found
      refine ⟨physicalCopy_iff.mpr ⟨chosen, shown, rfl⟩, fun other copy => ?_⟩
      obtain ⟨candidate, also, rfl⟩ := physicalCopy_iff.mp copy
      exact least candidate also
    · rintro ⟨copy, first⟩
      obtain ⟨candidate, shown, rfl⟩ := physicalCopy_iff.mp copy
      cases found : selected.lookup id with
      | none => exact absurd shown ((leasts id).2 found candidate)
      | some chosen =>
        obtain ⟨also, least⟩ := (leasts id).1 chosen found
        have other := physicalCopy_iff.mpr ⟨chosen, also, rfl⟩
        exact ⟨chosen, rfl, input.physicalCopy_unique other copy
          (le_antisymm (least candidate shown) (first _ other))⟩
  · obtain ⟨candidate, shown, _⟩ := physicalCopy_iff.mp copy
    cases found : selected.lookup id with
    | none => exact absurd shown ((leasts id).2 found candidate)
    | some chosen => exact mem_map.mpr ⟨_, (mem_iff id _).mpr ⟨chosen, found, rfl⟩, rfl⟩
  · rw [← entries_eq]
    refine rebuildObjectLocations_of_preflight positive passes ?_ objects rebuilding
    rw [map_map, map_map]
    refine (map_congr_left fun e mem => keyed e mem).symm ▸ ?_
    exact selected.nodup_keys_sortedBy _

/-- A rebuild that is interrupted after `stop` catalog writes. -/
structure RebuildAttempt (π : Type) where
  paths : List π
  maximumBatchEntries : ℕ
  stop : ℕ

/-- The catalog after rebuilds that were each interrupted. -/
def interruptedRebuilds (P : Primitives) (disk : ChunkDisk π) (catalog : InMemoryCatalog)
    (attempts : List (RebuildAttempt π)) : InMemoryCatalog :=
  attempts.foldl (fun catalog attempt => (rebuildUntil P disk (some attempt.stop) catalog
    attempt.paths attempt.maximumBatchEntries).1) catalog

theorem rebuildUntil_frame (P : Primitives) (disk : ChunkDisk π) (stop : Option ℕ)
    (catalog : InMemoryCatalog) (paths : List π) (maximum : ℕ) :
    ∃ objects rebuilding, (rebuildUntil P disk stop catalog paths maximum).1 =
      catalog.withLocations objects rebuilding := by
  have unchanged (c : InMemoryCatalog) :
      c = c.withLocations c.objects c.objectLocationRebuildInProgress := rfl
  unfold rebuildUntil
  by_cases none : maximum = 0
  · rw [if_pos none]
    exact ⟨_, _, unchanged catalog⟩
  · rw [if_neg none]
    dsimp only
    generalize interrupted stop _ = restart
    obtain ⟨objects, rebuilding, begun⟩ := catalog.rebuildSteps_frame restart
    rcases restarted : catalog.rebuildSteps restart with ⟨next, e | _⟩
    all_goals
      rw [restarted] at begun
      obtain rfl : next = catalog.withLocations objects rebuilding := begun
    · exact ⟨_, _, rfl⟩
    · dsimp only
      rcases preflightObjectLocationRebuild P disk (catalog.withLocations objects rebuilding) paths
        with
        e | preflight
      · exact ⟨_, _, rfl⟩
      · dsimp only
        generalize interrupted _ _ = writes
        obtain ⟨objects', rebuilding', ended⟩ :=
          (catalog.withLocations objects rebuilding).rebuildSteps_frame writes
        rcases written : (catalog.withLocations objects rebuilding).rebuildSteps writes with
          ⟨final, e | _⟩
        all_goals
          rw [written] at ended
          exact ⟨objects', rebuilding', ended⟩

theorem interruptedRebuilds_frame (P : Primitives) (disk : ChunkDisk π)
    (catalog : InMemoryCatalog) (attempts : List (RebuildAttempt π)) :
    ∃ objects rebuilding, interruptedRebuilds P disk catalog attempts =
      catalog.withLocations objects rebuilding := by
  induction attempts generalizing catalog with
  | nil => exact ⟨catalog.objects, catalog.objectLocationRebuildInProgress, rfl⟩
  | cons attempt attempts ih =>
    obtain ⟨objects, rebuilding, next⟩ := rebuildUntil_frame P disk (some attempt.stop)
      catalog attempt.paths attempt.maximumBatchEntries
    obtain ⟨objects', rebuilding', rest⟩ := ih (catalog.withLocations objects rebuilding)
    refine ⟨objects', rebuilding', ?_⟩
    rw [interruptedRebuilds, foldl_cons, next]
    exact rest

/-- The catalog with the first copy of every content ID in the chunks, and no other change. -/
structure Rebuilt (header : π → ChunkHeader) (records : π → List ObjectRecord) (paths : List π)
    (catalog final : InMemoryCatalog) : Prop where
  idle : final.objectLocationRebuildState = .idle
  others : catalog.withLocations final.objects final.objectLocationRebuildInProgress = final
  present : ∀ id location, PhysicalCopy header records paths id location →
    ∃ chosen, final.objectLocation id = some chosen
  first : ∀ id location, final.objectLocation id = some location ↔
    FirstCopy header records paths catalog.currentGeneration id location

/-- All rebuilds over the same chunks end in one catalog. -/
theorem Rebuildable.exists_rebuilt (input : Rebuildable P disk header records catalog paths) :
    ∃ final, Rebuilt header records paths catalog final ∧
      ∀ objects rebuilding paths' maximum, (∀ path, path ∈ paths' ↔ path ∈ paths) → 0 < maximum →
        ∃ report, ReflinkForest.rebuildObjectLocations P disk
          (catalog.withLocations objects rebuilding) paths' maximum = (final, .ok report) := by
  obtain ⟨entries, sorted, firsts, present, _⟩ := input.rebuildObjectLocations
  have keys : (entries.map Prod.fst).Nodup := by
    refine pairwise_map.mpr (sorted.imp fun lt same => ?_)
    exact absurd (same ▸ lt) (lt_irrefl _)
  refine ⟨catalog.withLocations ((∅ : FinMap ContentId ObjectLocation).insertAll entries) false,
    ⟨rfl, rfl, fun id location copy => ?_, fun id location => ?_⟩, ?_⟩
  · obtain ⟨⟨_, chosen⟩, mem, rfl⟩ := mem_map.mp (present id location copy)
    exact ⟨chosen, (lookup_insertAll_empty keys).mpr mem⟩
  · exact (lookup_insertAll_empty keys).trans (firsts id location)
  · intro objects rebuilding paths' maximum same positive
    obtain ⟨entries', sorted', firsts', _, rebuilt⟩ := (input.congr same).rebuildObjectLocations
    obtain rfl : entries' = entries := by
      refine eq_of_pairwise_of_mem_iff sorted' sorted fun e => ?_
      rw [firsts', firsts]
      simp only [FirstCopy, PhysicalCopy, same]
    exact rebuilt maximum positive objects rebuilding

/-- In the idle state a preflight comes before every write. -/
theorem rebuildObjectLocations_of_preflight_error {e : StoreError} (maximum : ℕ)
    (idle : catalog.objectLocationRebuildState = .idle)
    (fails : preflightObjectLocationRebuild P disk catalog paths = .error e) :
    ∃ e, rebuildObjectLocations P disk catalog paths maximum = (catalog, .error e) := by
  unfold rebuildObjectLocations rebuildUntil
  by_cases none : maximum = 0
  · rw [if_pos none]
    exact ⟨_, rfl⟩
  · rw [if_neg none]
    simp [idle, interrupted, rebuildSteps, fails]

/-- A rebuild is exact, whatever the order of the paths, the size of the batches and the
interruptions before it. An idle catalog whose preflight fails stays as it is. -/
theorem rebuildObjectLocations_exact (P : Primitives) (disk : ChunkDisk π)
    (catalog : InMemoryCatalog) :
    (∀ header records paths, Rebuildable P disk header records catalog paths →
      ∃ final, Rebuilt header records paths catalog final ∧
        ∀ attempts paths' maximum, (∀ path, path ∈ paths' ↔ path ∈ paths) → 0 < maximum →
          ∃ report, rebuildObjectLocations P disk (interruptedRebuilds P disk catalog attempts)
            paths' maximum = (final, .ok report)) ∧
    ∀ paths maximum e, catalog.objectLocationRebuildState = .idle →
      preflightObjectLocationRebuild P disk catalog paths = .error e →
      (rebuildObjectLocations P disk catalog paths maximum).1 = catalog := by
  constructor
  · intro header records paths input
    obtain ⟨final, rebuilt, reruns⟩ := input.exists_rebuilt
    refine ⟨final, rebuilt, ?_⟩
    intro attempts paths' maximum same positive
    obtain ⟨objects, rebuilding, reached⟩ := interruptedRebuilds_frame P disk catalog attempts
    rw [reached]
    exact reruns objects rebuilding paths' maximum same positive
  · intro paths maximum e idle fails
    obtain ⟨_, failed⟩ := rebuildObjectLocations_of_preflight_error maximum idle fails
    rw [failed]
end Rebuild

section Mirrored
open ChunkWriter (emptyBlob)

/-- Two generations with one copy of the empty blob each. -/
def mirroredHeader (second : Bool) : ChunkHeader := ⟨if second then 2 else 1, 0, 0, 0⟩

def mirroredDisk : ChunkDisk Bool where
  suffix _ := .opened
  file second := some ((mirroredHeader second).encode ++ encodings [emptyBlob])

def emptyBlobOid : GitOid := .forObject .reference .sha1 .blob []

def mirroredCatalog : InMemoryCatalog :=
  { aliases := (∅ : FinMap (RepoId × GitOid) ContentId).insert
      (⟨.replicate 16 0⟩, emptyBlobOid) emptyBlob.contentId }

theorem mirrored_rebuildable : Rebuildable .reference mirroredDisk mirroredHeader
    (fun _ => [emptyBlob]) mirroredCatalog [true, false] := by
  have scannable : Scannable .reference true emptyBlob :=
    ⟨by decide +kernel, by decide +kernel, fun _ => by decide +kernel⟩
  have aliased {repo oid id} (found : mirroredCatalog.oidAlias repo oid = some id) :
      oid = emptyBlobOid ∧ id = emptyBlob.contentId := by
    rw [oidAlias, mirroredCatalog, lookup_insert_eq] at found
    split_ifs at found with here
    · exact ⟨(Prod.mk.inj here).2, (Option.some.inj found).symm⟩
    · simp at found
  refine ⟨⟨fun path _ => ⟨_, rfl, rfl, ?_, ?_⟩, ?_⟩, ?_, ?_⟩
  · intro record mem
    rw [mem_singleton] at mem
    exact mem ▸ scannable
  · cases path <;> decide +kernel
  · unfold Distinguished
    decide
  · intro repo oid id found
    exact ⟨true, mem_cons_self, emptyBlob, mem_singleton_self _, (aliased found).2.symm⟩
  · intro repo oid id found path _ record mem _ raw decodes
    rw [mem_singleton] at mem
    have whole : decodeObjectPayload .reference emptyBlob = .ok [] := by decide +kernel
    rw [mem, whole, ok.injEq] at decodes
    rw [(aliased found).1, mem, ← decodes]
    rfl

theorem mirrored_rebuilt :
    (∃ final, Rebuilt mirroredHeader (fun _ => [emptyBlob]) [true, false] mirroredCatalog final ∧
      ∃ report, rebuildObjectLocations .reference mirroredDisk
        (interruptedRebuilds .reference mirroredDisk mirroredCatalog [⟨[true, false], 1, 1⟩])
          [false, true, false] 1 = (final, .ok report)) ∧
      (rebuildObjectLocations .reference mirroredDisk mirroredCatalog [] 1).1 =
        mirroredCatalog := by
  obtain ⟨exact, unchanged⟩ := rebuildObjectLocations_exact .reference mirroredDisk mirroredCatalog
  obtain ⟨final, rebuilt, rerun⟩ := exact _ _ _ mirrored_rebuildable
  refine ⟨⟨final, rebuilt, rerun _ _ 1 (by decide) Nat.one_pos⟩, ?_⟩
  exact unchanged [] 1 (.preservedAliasMissingContent ⟨.replicate 16 0⟩ emptyBlobOid
    emptyBlob.contentId) rfl (by decide +kernel)
end Mirrored
end ReflinkForest
