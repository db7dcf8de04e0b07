import ReflinkForest.Maintenance.ReimportSafety
import ReflinkForest.Store.LocationRebuild

/-! What the chunk files hold along a run. -/
namespace ReflinkForest
open Bytes List ChunkWriter

section Append
variable {P : Primitives} {w w' w'' : ChunkWriter} {c c' c'' : InMemoryCatalog} {repo : RepoId}
  {generation : UInt32} {chunkId : UInt64} {codec : Codec} {records rest : List ObjectRecord}

/-- The records that successful calls added to the chunk of the writer. -/
structure Appended (P : Primitives) (w : ChunkWriter) (c : InMemoryCatalog)
    (records : List ObjectRecord) (w' : ChunkWriter) (c' : InMemoryCatalog)
    (added : List ObjectRecord) : Prop where
  file : w'.file = w.file ++ encodings added
  scannable : ∀ r ∈ added, r ∈ records ∧ Scannable P true r
  indexed : ∀ r ∈ added, ∃ location, c'.objectLocation r.contentId = some location ∧
    location.generation = w.header.generation
  located : ∀ id location, c'.objectLocation id = some location →
    c.objectLocation id = some location ∨ ∃ r ∈ added, r.contentId = id

theorem Appended.append {added added' : List ObjectRecord}
    (first : Appended P w c records w' c' added) (second : Appended P w' c' rest w'' c'' added')
    (header : w'.header = w.header)
    (keeps : ∀ id location, c'.objectLocation id = some location →
      c''.objectLocation id = some location) :
    Appended P w c (records ++ rest) w'' c'' (added ++ added') := by
  refine ⟨?_, ?_, ?_, ?_⟩
  · rw [second.file, first.file, encodings_append, append_assoc]
  · intro r mem
    rcases mem_append.mp mem with mem | mem
    · exact ⟨mem_append_left _ (first.scannable r mem).1, (first.scannable r mem).2⟩
    · exact ⟨mem_append_right _ (second.scannable r mem).1, (second.scannable r mem).2⟩
  · intro r mem
    rcases mem_append.mp mem with mem | mem
    · obtain ⟨location, found, current⟩ := first.indexed r mem
      exact ⟨location, keeps _ _ found, current⟩
    · exact header ▸ second.indexed r mem
  · intro id location found
    rcases second.located id location found with before | ⟨r, mem, named⟩
    · rcases first.located id location before with old | ⟨r, mem, named⟩
      · exact .inl old
      · exact .inr ⟨r, mem_append_left _ mem, named⟩
    · exact .inr ⟨r, mem_append_right _ mem, named⟩

theorem appendAndIndex_appended {record : ObjectRecord} {faults : AppendFaults}
    {out : Option RecordLocation} (clean : w.Clean)
    (small : record.encoding.length ≤ maxRecoveryRecordBytes)
    (h : w.appendAndIndex P c faults repo generation chunkId record = (w', c', .ok out)) :
    ∃ added, Appended P w c [record] w' c' added := by
  obtain ⟨_, ⟨location, located, rfl, rfl, applied⟩ |
    ⟨missing, verified, fits, room, rfl, rfl, applied⟩⟩ := appendAndIndex_eq_ok h
  · refine ⟨[], by simp, by simp, by simp, fun id location found => .inl ?_⟩
    rwa [aliasBatch_objectLocation applied] at found
  · obtain ⟨_, written, _⟩ := clean.appended fits small room
    refine ⟨[record], by simp [ChunkWriter.synced, written], ?_, ?_, ?_⟩
    · intro r mem
      obtain rfl := mem_singleton.mp mem
      exact ⟨mem, fits, small, fun _ => verified⟩
    · intro r mem
      rw [mem_singleton] at mem
      exact ⟨_, by rw [mem, indexBatch_objectLocation applied, if_pos rfl], rfl⟩
    · intro id location found
      rw [indexBatch_objectLocation applied] at found
      split_ifs at found with here
      · exact .inr ⟨record, mem_singleton_self _, here.symm⟩
      · exact .inl found

theorem importObjects_appended {objects : List GitObject} {summary summary' : ImportSummary}
    (clean : w.Clean) (writable : c.objectLocationRebuildInProgress = false)
    (small : ∀ object ∈ objects,
      (object.importRecord P codec).encoding.length ≤ maxRecoveryRecordBytes)
    (h : importObjects P repo generation chunkId codec w c summary objects =
      (w', c', .ok summary')) :
    ∃ added, Appended P w c (objects.map (·.importRecord P codec)) w' c' added := by
  induction objects generalizing w c summary with
  | nil =>
    simp only [importObjects, Prod.mk.injEq] at h
    obtain ⟨rfl, rfl, _⟩ := h
    exact ⟨[], by simp, by simp, by simp, fun id location found => .inl found⟩
  | cons object objects ih =>
    have smallRest : ∀ other ∈ objects,
        (other.importRecord P codec).encoding.length ≤ maxRecoveryRecordBytes :=
      fun other mem => small other (mem_cons_of_mem _ mem)
    rw [importObjects] at h
    split at h
    · simp at h
    split at h
    · simp at h
    · rename_i w₁ c₁ out called
      have indexed := appendAndIndex_indexed clean (small object (by simp)) called
      obtain ⟨first, head⟩ := appendAndIndex_appended clean (small object (by simp)) called
      split at h
      · simp at h
      · obtain ⟨later, tail⟩ := ih indexed.clean indexed.only.writable smallRest h
        have imported := importObjects_eq_ok indexed.clean indexed.only.writable smallRest h
        exact ⟨first ++ later, head.append tail indexed.header_eq imported.keepsLocation⟩
end Append

section Shelf
variable {P : Primitives} {U : ObjectSet} {s s' : ColdInstance}
  {generation : UInt32} {source : LocalRepository}

/-- A record of an object of `U` that the catalog locates in the generation. -/
structure KnownRecord (P : Primitives) (U : ObjectSet) (catalog : InMemoryCatalog)
    (generation : UInt32) (r : ObjectRecord) : Prop where
  decoded : ∃ data, decodeObjectPayload P r = .ok data ∧ U r.kind data
  located : ∃ location, catalog.objectLocation r.contentId = some location ∧
    location.generation = generation

/-- A chunk of the store holds a record with this content ID. -/
def InChunks (P : Primitives) (chunks : ChunkStore) (id : ContentId) : Prop :=
  ∃ key file header rs, chunks.lookup key = some file ∧ CompleteChunk P .opened file header rs ∧
    ∃ r ∈ rs, r.contentId = id

/-- The chunk files and the locations in the current generation describe each other. -/
structure Shelved (P : Primitives) (U : ObjectSet) (s : ColdInstance)
    (generation : UInt32) : Prop where
  chunks : ∀ key file, s.chunks.lookup key = some file → ∃ header rs,
    key = (header.generation, header.chunkId) ∧ CompleteChunk P .opened file header rs ∧
    ∀ r ∈ rs, KnownRecord P U s.catalog generation r
  records : ∀ id location, s.catalog.objectLocation id = some location →
    location.generation = generation → InChunks P s.chunks id

theorem ColdInstance.Initial.shelved (initial : s.Initial generation) :
    Shelved P U s generation := by
  constructor
  · intro key file found
    simp [initial.chunks] at found
  · intro id location found
    rw [InMemoryCatalog.objectLocation_eq initial.writable, initial.objects] at found
    simp at found

theorem chunkHeader_unique {file : Str} {header header' : ChunkHeader}
    (first : header.encode <+: file) (second : header'.encode <+: file) : header = header' := by
  have read := readChunkHeader_eq_ok_iff.mpr first
  rw [readChunkHeader_eq_ok_iff.mpr second, Except.ok.injEq] at read
  exact read.symm

theorem CompleteChunk.unique {file : Str} {header header' : ChunkHeader}
    {rs rs' : List ObjectRecord} (first : CompleteChunk P .opened file header rs)
    (second : CompleteChunk P .opened file header' rs') : header = header' ∧ rs = rs' := by
  obtain ⟨whole, scannable, _⟩ := first
  obtain ⟨whole', scannable', _⟩ := second
  obtain rfl : header = header' :=
    chunkHeader_unique (whole ▸ prefix_append _ _) (whole' ▸ prefix_append _ _)
  refine ⟨rfl, encodings_injective (fun r mem => (scannable r mem).1)
    (fun r mem => (scannable' r mem).1) ?_⟩
  exact append_cancel_left (whole.symm.trans whole')

theorem Shelved.delete_step (shelved : Shelved P U s generation) (step : DeleteStep s s') :
    Shelved P U s' generation := by
  obtain ⟨catalog, rfl, hides⟩ := step.hides
  have locations := hides.objectLocation
  constructor
  · intro key file found
    obtain ⟨header, rs, named, complete, known⟩ := shelved.chunks key file found
    exact ⟨header, rs, named, complete, fun r mem =>
      ⟨(known r mem).decoded, by rw [locations]; exact (known r mem).located⟩⟩
  · intro id location found
    exact shelved.records id location (locations id ▸ found)

/-- The chunk that an import continues. -/
theorem Shelved.opens (shelved : Shelved P U s generation) (inv : ColdInvariant P U s generation)
    {w : ChunkWriter} (opens : ChunkWriter.OpensChunk P s.chunks w) :
    ∃ rs, CompleteChunk P .opened w.file w.header rs ∧
      ∀ r ∈ rs, KnownRecord P U s.catalog generation r := by
  obtain ⟨clean, same⟩ := opens.clean inv.tidy
  obtain ⟨_, _, _, _, short, _⟩ := clean.tidy
  obtain ⟨records, _, whole, _⟩ := clean
  cases opens with
  | created header fresh created =>
    subst created
    exact ⟨[], ⟨by simp [ChunkWriter.create], by simp, short⟩, by simp⟩
  | @reopened file _ found _ =>
    obtain ⟨header, rs, _, ⟨bytes, scannable, _⟩, known⟩ := shelved.chunks _ _ found
    rw [same file found] at bytes
    obtain rfl : header = w.header :=
      chunkHeader_unique (bytes ▸ prefix_append _ _) (whole ▸ prefix_append _ _)
    exact ⟨rs, ⟨bytes, scannable, short⟩, known⟩

theorem Shelved.import_step (inverts : P.ZstdInverts) (inv : ColdInvariant P U s generation)
    (shelved : Shelved P U s generation) (step : ImportStep P U s source s') :
    Shelved P U s' generation := by
  obtain ⟨repository, snapshot, codec, w, w', indexed, objects, manifest, summary, indexing,
    publishing, opens, ran⟩ := step.inversion inv
  have imported := indexing.imported
  obtain ⟨added, appended⟩ := importObjects_appended (opens.clean inv.tidy).1 inv.writable
    (fun object member => indexing.importable.small _ ((indexing.mem_iff object).mp member)) ran
  obtain ⟨rs, before, known⟩ := shelved.opens inv opens
  have key : w'.key = w.key := by rw [ChunkWriter.key, imported.header_eq, ChunkWriter.key]
  have stays : ∀ r, KnownRecord P U s.catalog generation r →
      KnownRecord P U s'.catalog generation r := by
    intro r before
    obtain ⟨location, found, current⟩ := before.located
    exact ⟨before.decoded, location, by
      rw [publishing.objectLocation, imported.keepsLocation _ _ found], current⟩
  have complete : CompleteChunk P .opened w'.file w.header (rs ++ added) := by
    obtain ⟨_, _, _, _, short, _⟩ := imported.clean.tidy
    refine ⟨?_, fun r member => ?_, short⟩
    · rw [appended.file, before.1, encodings_append, append_assoc]
    · rcases mem_append.mp member with old | new
      · exact before.2.1 r old
      · exact (appended.scannable r new).2
  have opened : s'.chunks.lookup w'.key = some w'.file := by
    rw [publishing.chunks]
    exact AList.lookup_insert _
  have others : ∀ k, k ≠ w'.key → s'.chunks.lookup k = s.chunks.lookup k := by
    intro k different
    rw [publishing.chunks, FinMap.lookup_insert_eq, if_neg different]
  constructor
  · intro k file found
    by_cases here : k = w'.key
    · rw [here, opened, Option.some.injEq] at found
      refine ⟨w.header, rs ++ added, here.trans key, found ▸ complete, fun r member => ?_⟩
      rcases mem_append.mp member with old | new
      · exact stays r (known r old)
      · obtain ⟨listed, _, _, verified⟩ := appended.scannable r new
        obtain ⟨object, reachable, rfl⟩ := indexing.mem_records listed
        obtain ⟨location, located, current⟩ := appended.indexed _ new
        exact ⟨⟨object.data, decodeObjectPayload_of_verified inverts (verified rfl),
          indexing.importable.member _ reachable⟩, location, by
            rw [publishing.objectLocation, located], current.trans indexing.inCurrent⟩
    · rw [others k here] at found
      obtain ⟨header, rs, named, whole, known⟩ := shelved.chunks k file found
      exact ⟨header, rs, named, whole, fun r member => stays r (known r member)⟩
  · intro id location found current
    rw [publishing.objectLocation] at found
    rcases appended.located id location found with old | ⟨r, new, named⟩
    · obtain ⟨k, file, header, rs', stored, whole', r, member, named⟩ :=
        shelved.records id location old current
      by_cases here : k = w'.key
      · rw [here, key] at stored
        rw [indexing.sameFile file stored] at whole'
        obtain ⟨rfl, rfl⟩ := whole'.unique before
        exact ⟨_, _, _, _, opened, complete, r, mem_append_left _ member, named⟩
      · exact ⟨k, file, header, rs', (others k here).trans stored, whole', r, member, named⟩
    · exact ⟨_, _, _, _, opened, complete, r, mem_append_right _ new, named⟩

theorem Shelved.collect_step (inv : ColdInvariant P U s generation) (step : CollectStep P s s') :
    ∃ target, s'.catalog.currentGeneration = some target ∧ Shelved P U s' target := by
  obtain ⟨target, live, shadows, w, collecting, copies, whole, contents, copied⟩ :=
    step.inversion inv
  have only := collecting.lookup_chunks inv
  obtain ⟨⟨retained, limits, marks⟩, larger, publishes, _, _, _, clean, inTarget, ids, each⟩ :=
    collecting
  obtain ⟨_, _, _, _, short, _⟩ := clean.tidy
  have complete : CompleteChunk P .opened w.file w.header copies :=
    ⟨whole, fun r mem => (copied r mem).1, short⟩
  refine ⟨target, publishes.current, fun key file found => ?_, fun id location found placed => ?_⟩
  · obtain ⟨rfl, rfl⟩ := (only key file).mp found
    refine ⟨w.header, copies, rfl, complete, fun r mem => ⟨?_, ?_⟩⟩
    · obtain ⟨_, id, location, marked, stored⟩ := copied r mem
      exact (inv.holds_of_read (completedMarkSet_located marks marked).1
        (Except.mapErr_eq_ok.mpr stored.readRecord)).2.2
    · have shadowed : r.contentId ∈ shadows.map Prod.fst := by
        rw [ids, ← contents]
        exact mem_map_of_mem mem
      rcases publishes.moved r.contentId with ⟨absent, _⟩ | ⟨shadow, inside, same⟩
      · exact absurd shadowed absent
      · obtain ⟨_, _, _, _, _, _, _, placed⟩ := each _ shadow inside
        exact ⟨shadow, same, placed⟩
  · rcases publishes.moved id with ⟨_, same⟩ | ⟨shadow, inside, _⟩
    · have bound := inv.bounded id location (same ▸ found)
      exact absurd (placed ▸ bound) (UInt32.not_le.mpr larger)
    · have copy : id ∈ copies.map ObjectRecord.contentId := by
        rw [contents, ← ids]
        exact mem_map_of_mem inside
      obtain ⟨r, mem, named⟩ := mem_map.mp copy
      exact ⟨w.key, w.file, w.header, copies, (only _ _).mpr ⟨rfl, rfl⟩, complete, r, mem, named⟩

theorem ColdRun.shelved {s₀ : ColdInstance} (inverts : P.ZstdInverts) (apart : HashesApart P U)
    (formats : FormatsApart U) (initial : s₀.Initial generation)
    (run : ColdRun P U (StaleFree P) s₀ s) :
    ∃ generation, ColdInvariant P U s generation ∧ Shelved P U s generation := by
  induction run with
  | start => exact ⟨generation, initial.invariant, initial.shelved⟩
  | «import» _ fresh step ih =>
    obtain ⟨current, inv, shelved⟩ := ih
    exact ⟨current, inv.import_step inverts fresh step, shelved.import_step inverts inv step⟩
  | delete _ step ih =>
    obtain ⟨current, inv, shelved⟩ := ih
    exact ⟨current, inv.delete_step step, shelved.delete_step step⟩
  | collect _ step ih =>
    obtain ⟨current, inv, shelved⟩ := ih
    obtain ⟨target, after⟩ := inv.collect_step apart formats step
    obtain ⟨target', now, shelf⟩ := Shelved.collect_step inv step
    rw [after.current, Option.some.injEq] at now
    exact ⟨target, after, now ▸ shelf⟩
end Shelf
end ReflinkForest
