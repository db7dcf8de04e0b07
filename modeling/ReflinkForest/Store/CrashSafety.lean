import ReflinkForest.Core.Reference
import ReflinkForest.Store.Recovery

/-! Runs of successful appends into one chunk, a crash that keeps what was synchronised, and what
reconciliation makes of the chunk afterwards. -/
namespace ReflinkForest
open Bytes List InMemoryCatalog ChunkWriter

variable (P : Primitives)

/-- Records laid out one after another from `offset`. -/
def locate (offset : ℕ) : List ObjectRecord → List (RecordLocation × ObjectRecord)
  | [] => []
  | r :: rs => (⟨offset, r.encoding.length⟩, r) :: locate (offset + r.encoding.length) rs

theorem locate_append (offset : ℕ) (rs rs' : List ObjectRecord) :
    locate offset (rs ++ rs') =
      locate offset rs ++ locate (offset + (encodings rs).length) rs' := by
  induction rs generalizing offset with
  | nil => simp [locate]
  | cons r rs ih => simp [locate, ih, Nat.add_assoc]

theorem mem_locate {offset : ℕ} {rs : List ObjectRecord} {e : RecordLocation × ObjectRecord} :
    e ∈ locate offset rs ↔ ∃ pre r post, rs = pre ++ r :: post ∧
      e = (⟨offset + (encodings pre).length, r.encoding.length⟩, r) := by
  constructor
  · induction rs generalizing offset with
    | nil => simp [locate]
    | cons r rs ih =>
      simp only [locate, mem_cons]
      rintro (rfl | h)
      · exact ⟨[], r, rs, rfl, by simp⟩
      · obtain ⟨pre, r', post, rfl, rfl⟩ := ih h
        exact ⟨r :: pre, r', post, rfl, by simp [Nat.add_assoc]⟩
  · rintro ⟨pre, r, post, rfl, rfl⟩
    simp [locate_append, locate]

/-- A sequence of `append_and_index` calls that all returned `Ok`, with the
records whose own batch committed. -/
inductive AppendRun (w₀ : ChunkWriter) (c₀ : InMemoryCatalog) :
    ChunkWriter → InMemoryCatalog → List (RecordLocation × ObjectRecord) → Prop
  | start : AppendRun w₀ c₀ w₀ c₀ []
  | call {w w' : ChunkWriter} {c c' : InMemoryCatalog}
      {committed : List (RecordLocation × ObjectRecord)} {faults : AppendFaults} {repo : RepoId}
      {generation : UInt32} {chunkId : UInt64} {record : ObjectRecord}
      {out : Option RecordLocation} (run : AppendRun w₀ c₀ w c committed)
      (h : w.appendAndIndex P c faults repo generation chunkId record = (w', c', .ok out)) :
      AppendRun w₀ c₀ w' c' (committed ++ (out.map fun l => (l, record)).toList)

/-- The committed record `e` is where the catalog said before, inside the
chunk's file, and streams back to its object. -/
def Kept (c : InMemoryCatalog) (out : ReconcileOutcome) (e : RecordLocation × ObjectRecord) :
    Prop :=
  out.catalog.objectLocation e.2.contentId = c.objectLocation e.2.contentId ∧
  ∃ location file raw, c.objectLocation e.2.contentId = some location ∧
    out.files.content = some file ∧
    location.offset.toNat + location.recordLength.toNat ≤ file.length ∧
    decodeObjectPayload P e.2 = .ok raw ∧
    streamDecodedRecordAt P file location = .ok (e.2.metadata, raw)

/-- Reconciliation keeps every committed record, and succeeds when there is one
and the catalog backend works. -/
def KeepsCommitted (c : InMemoryCatalog) (committed : List (RecordLocation × ObjectRecord))
    (fault : Option String) (out : ReconcileOutcome) : Prop :=
  (∀ e ∈ committed, Kept P c out e) ∧
    (fault = none → committed ≠ [] → ∃ report, out.result = .ok report)

section Runs
variable {P} {w₀ w : ChunkWriter} {c₀ c : InMemoryCatalog}
  {committed : List (RecordLocation × ObjectRecord)}

/-- What a run of successful calls establishes. -/
structure RunInv (P : Primitives) (w₀ : ChunkWriter) (rs₀ : List ObjectRecord) (w : ChunkWriter)
    (c : InMemoryCatalog) (committed : List (RecordLocation × ObjectRecord)) : Prop where
  layout : ∃ rs, committed = locate w₀.nextOffset rs ∧ w.Behind (rs₀ ++ rs) ∧
    w.header.encode ++ encodings (rs₀ ++ rs) <+: w.durable
  verified : ∀ e ∈ committed, verifyObjectRecord P e.2 = .ok ()
  located : ∀ e ∈ committed,
    c.objectLocation e.2.contentId = some (e.2.locationAt w.header e.1.offset)
  writable : committed ≠ [] → c.objectLocationRebuildInProgress = false ∧
    ∃ m, c.chunk w.header.generation w.header.chunkId = some m ∧ m.state = .opened

variable {c' : InMemoryCatalog} {rs₀ : List ObjectRecord}

theorem RunInv.call {w' : ChunkWriter} {faults : AppendFaults} {repo : RepoId} {generation : UInt32}
    {chunkId : UInt64} {record : ObjectRecord} {out : Option RecordLocation} (hw₀ : w₀.Behind rs₀)
    (inv : RunInv P w₀ rs₀ w c committed)
    (h : w.appendAndIndex P c faults repo generation chunkId record = (w', c', .ok out)) :
    RunInv P w₀ rs₀ w' c' (committed ++ (out.map fun l => (l, record)).toList) := by
  obtain ⟨-, ⟨location, -, rfl, rfl, happly⟩ |
    ⟨hnone, hverify, hfit, hnext, hw', rfl, happly⟩⟩ := appendAndIndex_eq_ok h
  · simp only [Option.map_none, Option.toList_none, append_nil]
    refine ⟨inv.layout, inv.verified, fun e he => ?_, fun hne => ?_⟩
    · rw [aliasBatch_objectLocation happly, inv.located e he]
    · rw [aliasBatch_chunk happly]
      exact ⟨apply_rebuild happly, (inv.writable hne).2⟩
  · obtain ⟨rs, hcommitted, hbehind, hdurable⟩ := inv.layout
    have hnew := hbehind.appended hfit hnext
    have hheader : w'.header = w.header := by rw [hw']; rfl
    have hoffset : w.nextOffset = w₀.nextOffset + (encodings rs).length := by
      rw [hbehind.nextOffset_eq, hw₀.nextOffset_eq]
      simp [Nat.add_assoc]
    simp only [Option.map_some, Option.toList_some]
    refine ⟨⟨rs ++ [record], ?_, ?_, ?_⟩, ?_, ?_, fun _ => ?_⟩
    · rw [locate_append, hcommitted, hoffset]
      rfl
    · rw [hw', ← append_assoc]
      exact ⟨hnew.file_eq, hnew.nextOffset_eq, hnew.recordCount_eq, hnew.crc_eq, hnew.fits,
        hnew.nextOffset_lt⟩
    · obtain ⟨junk, hjunk⟩ := hnew.file_eq
      rw [hw', ← append_assoc]
      exact ⟨junk, hjunk.symm⟩
    · simp only [mem_append, mem_singleton]
      rintro e (he | rfl)
      · exact inv.verified e he
      · exact hverify
    · simp only [mem_append, mem_singleton]
      rintro e (he | rfl)
      · rw [indexBatch_objectLocation happly, hheader, if_neg, inv.located e he]
        rintro heq
        have := inv.located e he
        rw [heq, hnone] at this
        cases this
      · rw [indexBatch_objectLocation happly, if_pos rfl]
    · exact ⟨apply_rebuild happly, _, indexBatch_chunk happly, rfl⟩

theorem AppendRun.inv (hw₀ : w₀.Behind rs₀)
    (hdurable : w₀.durable = w₀.header.encode ++ encodings rs₀)
    (run : AppendRun P w₀ c₀ w c committed) : RunInv P w₀ rs₀ w c committed := by
  induction run with
  | start =>
    exact ⟨⟨[], rfl, by simpa using hw₀, by simp [hdurable]⟩, by simp, by simp, by simp⟩
  | call run h ih => exact ih.call hw₀ h

theorem applyWith_chunkMetadata {fault : Option String} {g : UInt32} {n : UInt64}
    {m : ChunkMetadata} (h : applyWith fault c [.chunkMetadata g n m] = .ok c') (id : ContentId) :
    c'.objectLocation id = c.objectLocation id :=
  apply_frame (·.objectLocation id) (applyWith_eq_ok h)
    (by simp; intros; rfl)

theorem reconcileOpen_objectLocation (fault : Option String) (c : InMemoryCatalog) (file : Str)
    (id : ContentId) :
    (reconcileOpen P fault c file).catalog.objectLocation id = c.objectLocation id := by
  unfold reconcileOpen
  split
  · rfl
  split
  · rfl
  split
  · rfl
  split
  · rfl
  · rename_i c' hpublish
    simp only [publishOpen, Except.bind_eq_ok_iff] at hpublish
    exact applyWith_chunkMetadata hpublish.choose_spec.2 id

theorem publishSealedMetadata_objectLocation {fault : Option String} {header : ChunkHeader}
    {footer : SealedChunkFooter} (h : publishSealedMetadata fault c header footer = .ok c')
    (id : ContentId) :
    c'.objectLocation id = c.objectLocation id := by
  simp only [publishSealedMetadata, Except.bind_eq_ok_iff] at h
  exact applyWith_chunkMetadata h.choose_spec.2 id

variable {header : ChunkHeader} {image : Str} {rs : List ObjectRecord}

/-- A catalog that is writable for the chunk accepts its metadata. -/
theorem applyWith_chunkMetadata_ok (hc : c.objectLocationRebuildInProgress = false) (g : UInt32)
    (n : UInt64) (m : ChunkMetadata) : ∃ c', applyWith none c [.chunkMetadata g n m] = .ok c' :=
  ⟨_, Except.mapErr_eq_ok.mpr (apply_of_no_conflict hc rfl
    (by simp [InMemoryCatalog.aliasConflict]))⟩

theorem header_unique (image : Str) {header header' : ChunkHeader} (h : header.encode <+: image)
    (h' : header'.encode <+: image) : header = header' := by
  rw [← readChunkHeader_eq_ok_iff] at h h'
  rw [h] at h'
  exact Except.ok.inj h'

/-- The open branch over a chunk whose records the scan accepts: the records
survive, and the branch succeeds on a writable catalog. -/
theorem reconcileOpen_records (fault : Option String) (hrs : ∀ r ∈ rs, Scannable P false r)
    (hpre : header.encode ++ encodings rs <+: image) :
    (∃ file, (reconcileOpen P fault c image).files.content = some file ∧
        header.encode ++ encodings rs <+: file) ∧
      (fault = none → c.objectLocationRebuildInProgress = false →
        ensureCatalogWritable c header = .ok () →
        ∃ report, (reconcileOpen P fault c image).result = .ok report) := by
  have hheader : header.encode <+: image := (prefix_append _ _).trans hpre
  obtain ⟨kept, hkept, hkeptPre, hrec, hend⟩ := recoverFile_eq (P := P) hheader
  have hmore := prefix_of_recovered hrs hkept hpre hkeptPre hend
  have hkeep : header.encode ++ encodings rs <+: header.encode ++ encodings kept := by
    obtain ⟨more, rfl⟩ := hmore
    rw [encodings_append, ← append_assoc]
    exact prefix_append _ _
  obtain ⟨w, recovery, hw, hwfile, hwheader⟩ := openRecovered_records header hkept
  unfold reconcileOpen
  rw [readChunkHeader_eq_ok_iff.mpr hheader, Except.ok_bind, hrec]
  cases hwritable : ensureCatalogWritable c header with
  | error e => exact ⟨⟨image, rfl, hpre⟩, fun _ _ h => nomatch h⟩
  | ok u =>
    simp only [hw]
    rw [publishOpen, hwheader, hwritable, Except.ok_bind]
    split
    · rename_i e hpublish
      refine ⟨⟨w.file, rfl, hwfile ▸ hkeep⟩, fun hfault hc _ => ?_⟩
      subst hfault
      obtain ⟨c', hc'⟩ := applyWith_chunkMetadata_ok hc header.generation header.chunkId
        w.openMetadata
      rw [hc'] at hpublish
      cases hpublish
    · exact ⟨⟨w.file, rfl, hwfile ▸ hkeep⟩, fun _ _ _ => ⟨_, rfl⟩⟩

/-- The open branch truncates the chunk at its first oversized record. -/
theorem reconcileOpen_oversized {fault : Option String} {pre post : List ObjectRecord}
    {big : ObjectRecord} (hpre : ∀ r ∈ pre, Scannable P false r)
    (hbig : maxRecoveryRecordBytes < big.encoding.length) (hfits : ∀ r ∈ pre ++ big :: post, r.Fits)
    (hfile : header.encode ++ encodings (pre ++ big :: post) <+: image)
    (hwritable : ensureCatalogWritable c header = .ok ()) :
    (reconcileOpen P fault c image).files.content = some (header.encode ++ encodings pre) := by
  have hheader : header.encode <+: image := (prefix_append _ _).trans hfile
  obtain ⟨kept, hkept, hkeptPre, hrec, hend⟩ := recoverFile_eq (P := P) hheader
  obtain rfl := recovered_stops_at_oversized hpre hkept hbig hfits hfile hkeptPre hend
  obtain ⟨w, recovery, hw, hwfile, -⟩ := openRecovered_records header hkept
  unfold reconcileOpen
  rw [readChunkHeader_eq_ok_iff.mpr hheader, Except.ok_bind, hrec, hwritable]
  simp only [hw]
  split <;> simp [ChunkFiles.content, hwfile]

theorem holdsRecord_of_prefix (pre post : List ObjectRecord) {r : ObjectRecord} {file : Str}
    (hpre : header.encode ++ encodings (pre ++ r :: post) <+: file) (hfit : r.Fits)
    (hlt : chunkHeaderLen + (encodings (pre ++ r :: post)).length < 2 ^ 64) :
    HoldsRecord file header (chunkHeaderLen + (encodings pre).length) r where
  header_prefix := (prefix_append _ _).trans hpre
  fits := hfit
  offset_ge := Nat.le_add_right _ _
  end_lt := by
    simp only [encodings_append, encodings_cons, length_append] at hlt
    omega
  encoding_prefix := by
    obtain ⟨rest, rfl⟩ := hpre
    have hdrop : (header.encode ++ encodings (pre ++ r :: post) ++ rest).drop
        (chunkHeaderLen + (encodings pre).length) = r.encoding ++ (encodings post ++ rest) := by
      rw [encodings_append, encodings_cons]
      simp only [← append_assoc]
      simp only [append_assoc (header.encode ++ encodings pre)]
      exact drop_left' (by simp [chunkHeaderLen])
    rw [hdrop]
    exact prefix_append _ _
end Runs

section Reconcile
variable {P} {w₀ w : ChunkWriter} {c₀ c : InMemoryCatalog} {image : Str} {fault : Option String}
  {committed : List (RecordLocation × ObjectRecord)} {suffix : ChunkSuffix}

theorem reconcileChunk_opened (hsuffix : suffix ≠ .other) :
    reconcileChunk P fault c suffix ⟨some image, none⟩ =
      match verifySealedFile P image with
      | .ok verified =>
        match publishSealedMetadata fault c verified.header verified.footer with
        | .error error => ⟨⟨none, some image⟩, c, .error error⟩
        | .ok c' => ⟨⟨none, some image⟩, c', .ok (.sealed verified.header verified.footer)⟩
      | .error _ => reconcileOpen P fault c image := by
  rewrite [reconcileChunk, if_neg hsuffix]
  rfl

theorem reconcileChunk_objectLocation (hsuffix : suffix ≠ .other) (id : ContentId) :
    (reconcileChunk P fault c suffix ⟨some image, none⟩).catalog.objectLocation id =
      c.objectLocation id := by
  rw [reconcileChunk_opened hsuffix]
  split
  · split
    · rfl
    · rename_i hpublish
      exact publishSealedMetadata_objectLocation hpublish id
  · exact reconcileOpen_objectLocation fault c image id

variable {rs₀ : List ObjectRecord}

/-- The catalog state a run with a committed record leaves is no obstacle to
publishing the chunk's metadata. -/
theorem RunInv.publish_ok (inv : RunInv P w₀ rs₀ w c committed) (hne : committed ≠ []) :
    ensureCatalogWritable c w.header = .ok () ∧
      ∀ footer, ∃ c', publishSealedMetadata none c w.header footer = .ok c' := by
  obtain ⟨hc, m, hm, hstate⟩ := inv.writable hne
  constructor
  · rw [ensureCatalogWritable_eq_ok_iff, hm]
    intro m' hm'
    cases hm'
    exact hstate
  · intro footer
    have hretired : ensureNotRetired c w.header = .ok () := by
      simp [ensureNotRetired, hm, hstate]
    rw [publishSealedMetadata, hretired, Except.ok_bind]
    exact applyWith_chunkMetadata_ok hc _ _ _

/-- Records the scan accepts stay in front of the reconciled file, and the
reconciliation succeeds once one of them is committed. -/
theorem reconcileChunk_records (fault : Option String) {rs : List ObjectRecord}
    (hsuffix : suffix ≠ .other) (inv : RunInv P w₀ rs₀ w c committed)
    (hrs : ∀ r ∈ rs, Scannable P false r) (hpre : w.header.encode ++ encodings rs <+: image) :
    (∃ file, (reconcileChunk P fault c suffix ⟨some image, none⟩).files.content = some file ∧
        w.header.encode ++ encodings rs <+: file) ∧
      (fault = none → committed ≠ [] →
        ∃ report, (reconcileChunk P fault c suffix ⟨some image, none⟩).result = .ok report) := by
  rw [reconcileChunk_opened hsuffix]
  cases hv : verifySealedFile P image with
  | error e =>
    obtain ⟨hfile, hok⟩ := reconcileOpen_records (c := c) fault hrs hpre
    refine ⟨hfile, ?_⟩
    intro hfault hne
    exact hok hfault (inv.writable hne).1 (inv.publish_ok hne).1
  | ok v =>
    have hheader : v.header = w.header := by
      refine header_unique image ?_ ((prefix_append _ _).trans hpre)
      rw [(verifySealedFile_eq_ok hv).1, append_assoc]
      exact prefix_append _ _
    simp only [hheader]
    split
    · rename_i e hpublish
      refine ⟨⟨image, rfl, hpre⟩, ?_⟩
      intro hfault hne
      subst hfault
      obtain ⟨c', hc'⟩ := (inv.publish_ok hne).2 v.footer
      rw [hc'] at hpublish
      cases hpublish
    · exact ⟨⟨image, rfl, hpre⟩, fun _ _ => ⟨_, rfl⟩⟩

theorem keepsCommitted_of_le (hsuffix : suffix ≠ .other) (hopen : Opened P w₀)
    (run : AppendRun P w₀ c₀ w c committed) (himage : w.durable <+: image)
    (hle : ∀ e ∈ committed, e.2.encoding.length ≤ maxRecoveryRecordBytes) :
    KeepsCommitted P c committed fault
      (reconcileChunk P fault c suffix ⟨some image, none⟩) := by
  obtain ⟨rs₀, hw₀, hscan₀, hdurable⟩ := hopen.behind
  have inv := run.inv hw₀ hdurable
  obtain ⟨rs, hcommitted, hbehind, hpre⟩ := inv.layout
  have hscan : ∀ r ∈ rs₀ ++ rs, Scannable P false r := by
    intro r hr
    rcases mem_append.mp hr with hr₀ | hr'
    · exact hscan₀ r hr₀
    · obtain ⟨pre, post, rfl⟩ := append_of_mem hr'
      have hmem : (⟨w₀.nextOffset + (encodings pre).length, r.encoding.length⟩, r) ∈ committed :=
        hcommitted ▸ mem_locate.mpr ⟨pre, r, post, rfl, rfl⟩
      have hsmall := hle _ hmem
      refine ⟨hbehind.fits r hr, ?_, ?_⟩
      · exact hsmall
      · intro h
        cases h
  obtain ⟨⟨file, hfile, hfilePre⟩, hok⟩ := reconcileChunk_records fault hsuffix inv hscan
    (hpre.trans himage)
  refine ⟨?_, hok⟩
  intro e he
  have hverify := inv.verified e he
  have hlocated := inv.located e he
  rw [hcommitted] at he
  obtain ⟨pre, r, post, rfl, rfl⟩ := mem_locate.mp he
  obtain ⟨raw, hraw⟩ := verifyObjectRecord_eq_ok_iff.mp hverify
  have hoffset : w₀.nextOffset + (encodings pre).length =
      chunkHeaderLen + (encodings (rs₀ ++ pre)).length := by
    rw [hw₀.nextOffset_eq]
    simp [Nat.add_assoc]
  have hheld : HoldsRecord file w.header (w₀.nextOffset + (encodings pre).length) r := by
    rw [hoffset]
    refine holdsRecord_of_prefix (rs₀ ++ pre) post ?_ (hbehind.fits r (by simp)) ?_
    · simpa using hfilePre
    · have := hbehind.nextOffset_lt
      rw [hbehind.nextOffset_eq] at this
      simpa using this
  refine ⟨reconcileChunk_objectLocation hsuffix _, _, file, raw, hlocated, hfile, ?_, hraw,
    hheld.streamDecodedRecordAt hraw⟩
  rw [hheld.toNat_offset, hheld.toNat_recordLength]
  exact hheld.end_le

/-- A committed record above the scan ceiling does not survive. -/
theorem le_of_keepsCommitted (hsuffix : suffix ≠ .other) (hopen : Opened P w₀)
    (run : AppendRun P w₀ c₀ w c committed) (himage : w.durable <+: image)
    (hkeeps : KeepsCommitted P c committed fault
      (reconcileChunk P fault c suffix ⟨some image, none⟩)) :
    ∀ e ∈ committed, e.2.encoding.length ≤ maxRecoveryRecordBytes := by
  obtain ⟨rs₀, hw₀, hscan₀, hdurable⟩ := hopen.behind
  have inv := run.inv hw₀ hdurable
  obtain ⟨rs, hcommitted, hbehind, hpre⟩ := inv.layout
  intro e he
  by_contra hbig
  -- The first oversized record is where the scan stops.
  obtain ⟨big, hfind⟩ : ∃ big,
      rs.find? (fun r => maxRecoveryRecordBytes < r.encoding.length) = some big := by
    rw [← Option.isSome_iff_exists, List.find?_isSome]
    rw [hcommitted] at he
    obtain ⟨pre, r, post, rfl, rfl⟩ := mem_locate.mp he
    exact ⟨r, by simp, by simpa using hbig⟩
  rw [List.find?_eq_some_iff_append] at hfind
  obtain ⟨hoversized, pre, post, rfl, hsmall⟩ := hfind
  simp only [decide_eq_true_eq, Bool.not_eq_true', decide_eq_false_iff_not, not_lt]
    at hoversized hsmall
  have hmem : (⟨w₀.nextOffset + (encodings pre).length, big.encoding.length⟩, big) ∈ committed :=
    hcommitted ▸ mem_locate.mpr ⟨pre, big, post, rfl, rfl⟩
  have hscan : ∀ r ∈ rs₀ ++ pre, Scannable P false r := by
    intro r hr
    rcases mem_append.mp hr with hr₀ | hr'
    · exact hscan₀ r hr₀
    · refine ⟨hbehind.fits r (by simp [hr']), hsmall r hr', ?_⟩
      intro h
      cases h
  have hfile : w.header.encode ++ encodings ((rs₀ ++ pre) ++ big :: post) <+: image := by
    simpa using hpre.trans himage
  have hfits : ∀ r ∈ (rs₀ ++ pre) ++ big :: post, r.Fits := by
    intro r hr
    exact hbehind.fits r (by simpa using hr)
  obtain ⟨-, location, file, raw, hlocation, hcontent, hinside, -, -⟩ := hkeeps.1 _ hmem
  rw [inv.located _ hmem] at hlocation
  obtain rfl := Option.some.inj hlocation
  have hheld := holdsRecord_of_prefix _ _ hfile (hfits big (by simp)) (by
    have := hbehind.nextOffset_lt
    rw [hbehind.nextOffset_eq] at this
    simpa using this)
  have hoffset : w₀.nextOffset + (encodings pre).length =
      chunkHeaderLen + (encodings (rs₀ ++ pre)).length := by
    rw [hw₀.nextOffset_eq]
    simp [Nat.add_assoc]
  simp only [hoffset, hheld.toNat_offset, hheld.toNat_recordLength] at hinside
  rw [reconcileChunk_opened hsuffix] at hcontent
  cases hv : verifySealedFile P image with
  | ok v =>
    have hin := (verifySealedFile_records hv hfits hfile).subset
      (show big ∈ (rs₀ ++ pre) ++ big :: post by simp)
    have := ((verifySealedFile_eq_ok hv).2.1 big hin).2.1
    omega
  | error e =>
    simp only [hv] at hcontent
    rw [reconcileOpen_oversized hscan hoversized hfits hfile
      (inv.publish_ok (ne_nil_of_mem hmem)).1] at hcontent
    obtain rfl := Option.some.inj hcontent
    have hpos := big.length_encoding_pos
    simp only [length_append, ChunkHeader.length_encode, chunkHeaderLen] at hinside
    omega

/-- The first object of a fresh chunk, stored raw under an empty catalog. -/
theorem AppendRun.first (P : Primitives) (header : ChunkHeader) (repo : RepoId) (oid : GitOid)
    (kind : ObjectKind) (raw : Str) (hlen : raw.length + 300 < 2 ^ 64) :
    ∃ w c, AppendRun P (.create header) {} w c (locate chunkHeaderLen
      [objectRecord P .raw oid kind raw]) := by
  set record := objectRecord P .raw oid kind raw with hrecord
  have htotal : record.total = raw.length + 148 := record.total_eq
  have hfit : record.Fits := by
    unfold ObjectRecord.Fits
    omega
  have hverify : verifyObjectRecord P record = .ok () :=
    verifyObjectRecord_eq_ok_iff.mpr ⟨raw, decodeObjectPayload_objectRecord (by simp) (by omega)⟩
  have hlength : record.encoding.length < raw.length + 200 := by
    rw [record.length_encoding, alignUp]
    omega
  have hcall : ∃ w c, (create header).appendAndIndex P {} {} repo header.generation
      header.chunkId record = (w, c, .ok (some ⟨chunkHeaderLen, record.encoding.length⟩)) := by
    refine appendAndIndex_new rfl rfl rfl ?_ hverify hfit ?_ ?_
    · intro id hid
      cases hid
    · simp only [create, chunkHeaderLen]
      omega
    · simp [create]
  obtain ⟨w, c, h⟩ := hcall
  exact ⟨w, c, AppendRun.call .start h⟩

/-- Reconciliation after a crash keeps every committed record exactly when no
committed record is larger than the scan ceiling. -/
theorem reconcileChunk_keeps_committed_iff (hsuffix : suffix ≠ .other) (hopen : Opened P w₀)
    (run : AppendRun P w₀ c₀ w c committed) (himage : w.durable <+: image) :
    KeepsCommitted P c committed fault (reconcileChunk P fault c suffix ⟨some image, none⟩) ↔
      ∀ e ∈ committed, e.2.encoding.length ≤ maxRecoveryRecordBytes :=
  ⟨le_of_keepsCommitted hsuffix hopen run himage,
    keepsCommitted_of_le hsuffix hopen run himage⟩

theorem reconcileChunk_keeps_small_blob : ∃ w c,
    AppendRun .reference (.create ⟨1, 0, 0, 0⟩) {} w c (locate chunkHeaderLen
      [objectRecord .reference .raw (.forObject .reference .sha1 .blob []) .blob []]) ∧
    KeepsCommitted .reference c (locate chunkHeaderLen
        [objectRecord .reference .raw (.forObject .reference .sha1 .blob []) .blob []]) none
      (reconcileChunk .reference none c .opened ⟨some (w.durable ++ [1, 2, 3]), none⟩) := by
  obtain ⟨w, c, run⟩ := AppendRun.first .reference ⟨1, 0, 0, 0⟩ ⟨.replicate 16 0⟩
    (.forObject .reference .sha1 .blob []) .blob [] (by simp)
  refine ⟨w, c, run, (reconcileChunk_keeps_committed_iff (by simp) (.created _) run
    (List.prefix_append _ _)).mpr ?_⟩
  intro e he
  simp only [locate, List.mem_singleton] at he
  subst he
  rw [ObjectRecord.length_encoding, ObjectRecord.total_eq]
  simp [objectRecord, encodeObjectPayload, alignUp, maxRecoveryRecordBytes]

private theorem loses_oversized (P : Primitives) (oid : GitOid) {raw : Str}
    (hlen : raw.length + 300 < 2 ^ 64) (hbig : maxRecoveryRecordBytes < raw.length + 148) :
    ∃ w c, AppendRun P (.create ⟨1, 0, 0, 0⟩) {} w c
        (locate chunkHeaderLen [objectRecord P .raw oid .blob raw]) ∧
      ¬ KeepsCommitted P c (locate chunkHeaderLen [objectRecord P .raw oid .blob raw]) none
        (reconcileChunk P none c .opened ⟨some w.durable, none⟩) := by
  obtain ⟨w, c, run⟩ := AppendRun.first P ⟨1, 0, 0, 0⟩ ⟨.replicate 16 0⟩ oid .blob raw hlen
  refine ⟨w, c, run, ?_⟩
  intro hkeeps
  have hle := le_of_keepsCommitted (by simp) (.created _) run (prefix_refl _) hkeeps _
    (mem_singleton_self _)
  have hpos := le_alignUp (raw.length + 148)
  have hlength : (objectRecord P .raw oid .blob raw).encoding.length =
      alignUp (raw.length + 148) := by
    rw [ObjectRecord.length_encoding, ObjectRecord.total_eq]
    rfl
  rw [hlength] at hle
  omega

/-- A 64 MiB blob is appended, synchronised and published with `Ok`; after a
crash that loses nothing, reconciliation truncates the chunk in front of it. -/
theorem reconcileChunk_loses_oversized_blob : ∃ w c,
    AppendRun .reference (.create ⟨1, 0, 0, 0⟩) {} w c (locate chunkHeaderLen
      [objectRecord .reference .raw
        (.forObject .reference .sha1 .blob (zeros (64 * 1024 * 1024))) .blob
        (zeros (64 * 1024 * 1024))]) ∧
    ¬ KeepsCommitted .reference c (locate chunkHeaderLen
        [objectRecord .reference .raw
          (.forObject .reference .sha1 .blob (zeros (64 * 1024 * 1024))) .blob
          (zeros (64 * 1024 * 1024))]) none
      (reconcileChunk .reference none c .opened ⟨some w.durable, none⟩) :=
  loses_oversized .reference _ (by rw [length_zeros]; norm_num)
    (by rw [length_zeros, maxRecoveryRecordBytes]; norm_num)
end Reconcile
end ReflinkForest
