import ReflinkForest.Store.ChunkWriter

/-! Sealed-chunk verification, open-tail recovery and the reconciliation of one chunk's file names,
bytes and catalog state after a crash. -/
namespace ReflinkForest
open Bytes List
open Except hiding error

variable (P : Primitives)

structure VerifiedSealedChunk where
  header : ChunkHeader
  footer : SealedChunkFooter
  records : List ObjectRecord

def verifySealedFile (file : Str) : Except StoreError VerifiedSealedChunk := do
  let header ← readChunkHeader file
  .require (chunkHeaderLen + sealedChunkFooterLen ≤ file.length) .sealedFooterMissing
  let footerOffset := file.length - sealedChunkFooterLen
  let footerBytes ← readExact file footerOffset sealedChunkFooterLen
  let footer ← .mapErr .format (SealedChunkFooter.decode footerBytes)
  .require (footer.finalLength.toNat = file.length) (.sealedFooterMismatch "final length")
  let scan ← scanRecords P file footerOffset true
  .require (scan.finish = footerOffset) (.sealedFooterMismatch "record boundary")
  .require (scan.records.length = footer.recordCount.toNat) (.sealedFooterMismatch "record count")
  .require (scan.checksum.finalize = footer.recordsCrc32c)
    (.sealedFooterMismatch "rolling record checksum")
  return ⟨header, footer, scan.records⟩

structure Recovery where
  header : ChunkHeader
  validRecords : ℕ
  retainedBytes : ℕ
  truncatedBytes : ℕ
  recordsCrc32c : Crc32c

/-- Truncate an open chunk behind the last record the recovery scan accepts. -/
def recoverFile (file : Str) : Except StoreError (Str × Recovery) := do
  let header ← readChunkHeader file
  let scan ← scanRecords P file file.length false
  return (file.take scan.finish,
    ⟨header, scan.records.length, scan.finish, file.length - scan.finish, scan.checksum⟩)

def isSealed (file : Str) : Bool := (verifySealedFile P file).isOk

/-- Open an existing chunk for writing after recovering its tail. -/
def ChunkWriter.openRecovered (file : Str) : Except StoreError (ChunkWriter × Recovery) := do
  .require (isSealed P file = false) .openChunkContainsSealedFooter
  let (recovered, recovery) ← recoverFile P file
  return ({
    file := recovered
    durable := recovered
    header := recovery.header
    nextOffset := recovered.length
    recordCount := recovery.validRecords
    recordsCrc32c := recovery.recordsCrc32c }, recovery)

open ChunkWriter

inductive ChunkSuffix where
  | opened | sealed | other
  deriving DecidableEq

/-- The files of one chunk, under its `.open` and its `.sealed` name. -/
structure ChunkFiles where
  opened : Option Str
  sealed : Option Str

/-- The chunk's bytes, whichever name they have. -/
def ChunkFiles.content (files : ChunkFiles) : Option Str := files.opened.or files.sealed

inductive ChunkReconciliation where
  | opened (recovery : Recovery)
  | sealed (header : ChunkHeader) (footer : SealedChunkFooter)

/-- Read and validate every record of a chunk without changing it. -/
def verifyChunk (suffix : ChunkSuffix) (file : Str) : Except StoreError ℕ :=
  match suffix with
  | .sealed => do
    let verified ← verifySealedFile P file
    return verified.footer.recordCount.toNat
  | .other => .error .notAnOpenChunk
  | .opened => do
    let _ ← readChunkHeader file
    match verifySealedFile P file with
    | .ok verified => return verified.footer.recordCount.toNat
    | .error _ =>
      let scan ← scanRecords P file file.length true
      return scan.records.length

def verifySealedChunk (suffix : ChunkSuffix) (file : Str) :
    Except StoreError VerifiedSealedChunk := do
  .require (suffix = .sealed) .notASealedChunk
  verifySealedFile P file

def ensureNotRetired (catalog : InMemoryCatalog) (header : ChunkHeader) :
    Except StoreError Unit :=
  match catalog.chunk header.generation header.chunkId with
  | some metadata =>
    .require (metadata.state ≠ .retired)
      (.catalogChunkStateConflict header.generation header.chunkId metadata.state)
  | none => .ok ()

def publishSealedMetadata (fault : Option String) (catalog : InMemoryCatalog)
    (header : ChunkHeader) (footer : SealedChunkFooter) : Except StoreError InMemoryCatalog := do
  ensureNotRetired catalog header
  applyWith fault catalog [.chunkMetadata header.generation header.chunkId
    ⟨.sealed, footer.finalLength, footer.recordCount⟩]

/-- Files, catalog and result after a reconciliation. -/
structure ReconcileOutcome where
  files : ChunkFiles
  catalog : InMemoryCatalog
  result : Except StoreError ChunkReconciliation

/-- The branch for an `.open` file without a verified sealed footer. -/
def reconcileOpen (fault : Option String) (catalog : InMemoryCatalog) (file : Str) :
    ReconcileOutcome :=
  match readChunkHeader file >>= ensureCatalogWritable catalog with
  | .error error => ⟨⟨some file, none⟩, catalog, .error error⟩
  | .ok () =>
    match recoverFile P file with
    | .error error => ⟨⟨some file, none⟩, catalog, .error error⟩
    | .ok (recovered, recovery) =>
      match ChunkWriter.openRecovered P recovered with
      | .error error => ⟨⟨some recovered, none⟩, catalog, .error error⟩
      | .ok (writer, _) =>
        match writer.publishOpen fault catalog with
        | .error error => ⟨⟨some writer.file, none⟩, catalog, .error error⟩
        | .ok catalog' => ⟨⟨some writer.file, none⟩, catalog', .ok (.opened recovery)⟩

def reconcileChunk (fault : Option String) (catalog : InMemoryCatalog) (suffix : ChunkSuffix)
    (files : ChunkFiles) : ReconcileOutcome :=
  if suffix = .other then ⟨files, catalog, .error .notAnOpenChunk⟩
  else
    match files with
    | ⟨some _, some _⟩ => ⟨files, catalog, .error .conflictingChunkPaths⟩
    | ⟨none, none⟩ => ⟨files, catalog, .error (.io .notFound)⟩
    | ⟨none, some file⟩ =>
      match do
          let verified ← verifySealedFile P file
          let catalog' ← publishSealedMetadata fault catalog verified.header verified.footer
          return (catalog', ChunkReconciliation.sealed verified.header verified.footer) with
      | .error error => ⟨files, catalog, .error error⟩
      | .ok (catalog', report) => ⟨files, catalog', .ok report⟩
    | ⟨some file, none⟩ =>
      match verifySealedFile P file with
      | .ok verified =>
        -- Renamed before the catalog batch, so the name survives a failed batch.
        match publishSealedMetadata fault catalog verified.header verified.footer with
        | .error error => ⟨⟨none, some file⟩, catalog, .error error⟩
        | .ok catalog' =>
          ⟨⟨none, some file⟩, catalog', .ok (.sealed verified.header verified.footer)⟩
      | .error _ => reconcileOpen P fault catalog file

section Lemmas
variable {P} {file : Str} {header : ChunkHeader} {rs : List ObjectRecord}

theorem verifySealedFile_eq_ok {v : VerifiedSealedChunk} (h : verifySealedFile P file = .ok v) :
    file = v.header.encode ++ encodings v.records ++ v.footer.encode ∧
      (∀ r ∈ v.records, Scannable P true r) ∧ v.footer.finalLength.toNat = file.length ∧
      v.records.length = v.footer.recordCount.toNat ∧
      crc32c (encodings v.records) = v.footer.recordsCrc32c := by
  simp only [verifySealedFile, bind_eq_ok_iff, exists_require,
    mapErr_eq_ok, readChunkHeader_eq_ok_iff, readExact_eq_ok_iff,
    SealedChunkFooter.decode_eq_ok_iff, pure, Except.pure, ok.injEq] at h
  obtain ⟨header, hheader, hlen, _, ⟨-, rfl⟩, footer, hfooter, hfinal, s, hscan, hend, hcount,
    hcrc, rfl⟩ := h
  obtain ⟨rs, rfl, hrs, henc, -, -⟩ := scanRecords_eq_ok hscan
  have hfoot : file.drop (chunkHeaderLen + (encodings rs).length) = footer.encode := by
    have hend' : chunkHeaderLen + (encodings rs).length = file.length - sealedChunkFooterLen := hend
    have hpre := prefix_iff_eq_take.mp hfooter
    rw [slice, take_take, footer.length_encode] at hpre
    rw [hend', hpre]
    simp [sealedChunkFooterLen]
    simp [sealedChunkFooterLen, chunkHeaderLen] at hlen
    omega
  refine ⟨?_, hrs, hfinal, hcount, hcrc⟩
  obtain ⟨rest, rfl⟩ := hheader
  obtain ⟨rest', hrest'⟩ := henc
  have hdrop := header.drop_encode rest
  rw [hdrop] at hrest'
  rw [← drop_drop, hdrop, ← hrest'] at hfoot
  simp only [drop_left] at hfoot
  simp [RecordScan.start, ← hrest', hfoot]

theorem isSealed_eq_true : isSealed P file = true ↔ ∃ v, verifySealedFile P file = .ok v := by
  unfold isSealed
  cases verifySealedFile P file <;> simp [Except.isOk, Except.toBool]

/-- Records in front of a verified file are among the verified records: the
footer is shorter than any record, so none of them can reach into it. -/
theorem verifySealedFile_records {v : VerifiedSealedChunk} (hv : verifySealedFile P file = .ok v)
    (hfits : ∀ r ∈ rs, r.Fits) (hpre : header.encode ++ encodings rs <+: file) :
    rs <+: v.records := by
  obtain ⟨hfile, hscan, -⟩ := verifySealedFile_eq_ok hv
  have hbytes : encodings rs <+: encodings v.records ++ v.footer.encode := by
    rw [hfile, append_assoc] at hpre
    obtain ⟨rest, hrest⟩ := hpre
    rw [append_assoc] at hrest
    exact ⟨rest, (append_inj hrest (by simp)).2⟩
  rcases encodings_prefix_total hfits (fun r hr => (hscan r hr).1) hbytes
    (prefix_append _ _) with h | ⟨more, hmore⟩
  · exact h
  · cases more with
    | nil => simp [← hmore]
    | cons r more =>
      have hlen := hbytes.length_le
      have := r.length_encoding_pos
      rw [← hmore] at hlen
      simp only [encodings_append, encodings_cons, length_append,
        SealedChunkFooter.length_encode] at hlen
      omega

theorem isSealed_records (hfits : ∀ r ∈ rs, r.Fits) :
    isSealed P (header.encode ++ encodings rs) = false := by
  rw [Bool.eq_false_iff, Ne, isSealed_eq_true]
  rintro ⟨v, hv⟩
  obtain ⟨more, hmore⟩ := verifySealedFile_records hv hfits (prefix_refl _)
  have hlen := congrArg List.length (verifySealedFile_eq_ok hv).1
  rw [← hmore] at hlen
  simp at hlen

/-- The report of a recovery that retained `rs`. -/
def Recovery.of (header : ChunkHeader) (rs : List ObjectRecord) (original : ℕ) : Recovery where
  header := header
  validRecords := rs.length
  retainedBytes := chunkHeaderLen + (encodings rs).length
  truncatedBytes := original - (chunkHeaderLen + (encodings rs).length)
  recordsCrc32c := Crc32c.new.update (encodings rs)

/-- Recovery of a chunk with a valid header keeps the longest run of records
its scan accepts. -/
theorem recoverFile_eq (hheader : header.encode <+: file) :
    ∃ rs, (∀ r ∈ rs, Scannable P false r) ∧ header.encode ++ encodings rs <+: file ∧
      recoverFile P file = .ok (header.encode ++ encodings rs, .of header rs file.length) ∧
      (chunkHeaderLen + (encodings rs).length = file.length ∨
        scanStep P false file file.length (chunkHeaderLen + (encodings rs).length) = .ok none) := by
  have hlen : chunkHeaderLen ≤ file.length := by
    simpa [chunkHeaderLen] using hheader.length_le
  obtain ⟨s, hs⟩ := scanLoop_recovery (P := P) le_rfl file.length RecordScan.start
  have hscan : scanRecords P file file.length false = .ok s := by
    rw [scanRecords, require_pos hlen, ok_bind, hs]
  obtain ⟨rs, rfl, hrs, henc, -, hend⟩ := scanRecords_eq_ok hscan
  have hpre : header.encode ++ encodings rs <+: file := by
    obtain ⟨rest, rfl⟩ := hheader
    rw [chunkHeaderLen, drop_left' header.length_encode] at henc
    exact (prefix_append_right_inj _).mpr henc
  refine ⟨rs, hrs, hpre, ?_, hend.imp id And.right⟩
  have htake : file.take (RecordScan.start.after rs).finish = header.encode ++ encodings rs := by
    rw [prefix_iff_eq_take.mp hpre]
    simp [RecordScan.start, chunkHeaderLen]
  rw [recoverFile, readChunkHeader_eq_ok_iff.mpr hheader, ok_bind, hscan, ok_bind,
    htake]
  simp [Recovery.of, RecordScan.start, RecordScan.after, pure, Except.pure]

variable {kept : List ObjectRecord}

/-- Complete records that the scan accepts all survive recovery. -/
theorem prefix_of_recovered (hrs : ∀ r ∈ rs, Scannable P false r)
    (hkept : ∀ r ∈ kept, Scannable P false r)
    (hrsPre : header.encode ++ encodings rs <+: file)
    (hkeptPre : header.encode ++ encodings kept <+: file)
    (hend : chunkHeaderLen + (encodings kept).length = file.length ∨
      scanStep P false file file.length (chunkHeaderLen + (encodings kept).length) = .ok none) :
    rs <+: kept := by
  obtain ⟨tail, htail⟩ := hkeptPre
  have hbody : encodings rs <+: encodings kept ++ tail := by
    rw [← htail, append_assoc] at hrsPre
    exact (prefix_append_right_inj _).mp hrsPre
  rcases encodings_prefix_total (fun r hr => (hrs r hr).1) (fun r hr => (hkept r hr).1) hbody
    (prefix_append _ _) with h | ⟨more, rfl⟩
  · exact h
  · cases more with
    | nil => simp
    | cons r more =>
      -- The record behind `kept` would have been accepted as well.
      have hnext : r.encoding <+: tail := by
        rw [encodings_append, prefix_append_right_inj, encodings_cons] at hbody
        exact (prefix_append _ _).trans hbody
      have hlen := hnext.length_le
      have hpos := r.length_encoding_pos
      have hfile : file.length = chunkHeaderLen + (encodings kept).length + tail.length := by
        rw [← htail]
        simp [chunkHeaderLen, Nat.add_assoc]
      rcases hend with hend | hend
      · omega
      · have hdrop : file.drop (chunkHeaderLen + (encodings kept).length) = tail := by
          rw [← htail]
          exact drop_left' (by simp [chunkHeaderLen])
        rw [(hrs r (by simp)).scanStep (by rw [hdrop]; exact hnext) (by omega) le_rfl] at hend
        simp at hend

/-- Recovery stops at the first record above the scan ceiling. -/
theorem recovered_stops_at_oversized {pre post : List ObjectRecord} {big : ObjectRecord}
    (hpre : ∀ r ∈ pre, Scannable P false r) (hkept : ∀ r ∈ kept, Scannable P false r)
    (hbig : maxRecoveryRecordBytes < big.encoding.length)
    (hfits : ∀ r ∈ pre ++ big :: post, r.Fits)
    (hfile : header.encode ++ encodings (pre ++ big :: post) <+: file)
    (hkeptPre : header.encode ++ encodings kept <+: file)
    (hend : chunkHeaderLen + (encodings kept).length = file.length ∨
      scanStep P false file file.length (chunkHeaderLen + (encodings kept).length) = .ok none) :
    kept = pre := by
  have hpreFile : header.encode ++ encodings pre <+: file := by
    refine List.IsPrefix.trans ?_ hfile
    rw [encodings_append]
    exact (prefix_append_right_inj _).mpr (prefix_append _ _)
  obtain ⟨more, rfl⟩ := prefix_of_recovered hpre hkept hpreFile hkeptPre hend
  cases more with
  | nil => simp
  | cons r more =>
    obtain ⟨rest, hrest⟩ := hfile
    obtain ⟨rest', hrest'⟩ := hkeptPre
    rw [← hrest'] at hrest
    simp only [append_assoc, append_cancel_left_eq, encodings_append, encodings_cons]
      at hrest
    have hr := hkept r (by simp)
    have heq : big = r := encoding_prefix_inj (hfits big (by simp)) hr.1
      (hrest ▸ prefix_append _ _) (prefix_append _ (encodings more ++ rest'))
    subst heq
    exact absurd hr.2.1 (by omega)

/-- A writer behind these records with nothing after them. -/
def ChunkWriter.reopened (header : ChunkHeader) (rs : List ObjectRecord) : ChunkWriter where
  file := header.encode ++ encodings rs
  durable := header.encode ++ encodings rs
  header := header
  nextOffset := (header.encode ++ encodings rs).length
  recordCount := rs.length
  recordsCrc32c := Crc32c.new.update (encodings rs)

/-- Reopening a chunk that holds nothing but accepted records keeps all of it. -/
theorem openRecovered_records_eq (header : ChunkHeader) (hkept : ∀ r ∈ kept, Scannable P false r) :
    openRecovered P (header.encode ++ encodings kept) =
      .ok (.reopened header kept, .of header kept (header.encode ++ encodings kept).length) := by
  obtain ⟨again, hagain, hagainPre, hrec, hend⟩ :=
    recoverFile_eq (P := P) (prefix_append header.encode (encodings kept))
  obtain ⟨more, rfl⟩ := prefix_of_recovered hkept hagain (prefix_refl _) hagainPre hend
  have hmore : more = [] := by
    cases more with
    | nil => rfl
    | cons r more =>
      have hlen := hagainPre.length_le
      have hpos := r.length_encoding_pos
      simp only [encodings_append, encodings_cons, length_append] at hlen
      omega
  rw [hmore, append_nil] at hrec
  rw [openRecovered, require_pos (isSealed_records fun r hr => (hkept r hr).1),
    ok_bind, hrec, ok_bind]
  rfl

theorem openRecovered_records (header : ChunkHeader) (hkept : ∀ r ∈ kept, Scannable P false r) :
    ∃ w recovery, openRecovered P (header.encode ++ encodings kept) =
      .ok (w, recovery) ∧ w.file = header.encode ++ encodings kept ∧ w.header = header :=
  ⟨_, _, openRecovered_records_eq header hkept, rfl, rfl⟩
end Lemmas

/-- A writer as `create` or `open_recovered` returns it. File lengths are 64-bit. -/
inductive Opened : ChunkWriter → Prop
  | created (header : ChunkHeader) : Opened (.create header)
  | recovered {file : Str} {w : ChunkWriter} {recovery : Recovery} (hlen : file.length < 2 ^ 64)
      (h : ChunkWriter.openRecovered P file = .ok (w, recovery)) : Opened w

section Opened
variable {P} {w₀ : ChunkWriter}

theorem Opened.behind (h : Opened P w₀) : ∃ rs, w₀.Behind rs ∧ (∀ r ∈ rs, Scannable P false r) ∧
    w₀.durable = w₀.header.encode ++ encodings rs := by
  cases h with
  | created header => exact ⟨[], create_behind header, by simp, by
      simp [create]⟩
  | @recovered file _ recovery hlen h =>
    simp only [openRecovered, bind_eq_ok_iff, exists_require, pure,
      Except.pure, ok.injEq, Prod.mk.injEq] at h
    obtain ⟨-, ⟨kept, recovery'⟩, hrec, rfl, -⟩ := h
    have hheader : ∃ header, readChunkHeader file = .ok header := by
      rw [recoverFile, bind_eq_ok_iff] at hrec
      exact ⟨_, hrec.choose_spec.1⟩
    obtain ⟨header, hheader⟩ := hheader
    obtain ⟨rs, hrs, hpre, hrec', -⟩ :=
      recoverFile_eq (P := P) (readChunkHeader_eq_ok_iff.mp hheader)
    rw [hrec'] at hrec
    obtain ⟨rfl, rfl⟩ := Prod.mk.inj (ok.inj hrec)
    have hle := hpre.length_le
    simp only [length_append, ChunkHeader.length_encode] at hle
    refine ⟨rs, ?_, hrs, rfl⟩
    constructor
    · exact ⟨[], by simp [Recovery.of]⟩
    · simp [chunkHeaderLen]
    · rfl
    · rfl
    · exact fun r hr => (hrs r hr).1
    · simp only [length_append, ChunkHeader.length_encode]
      omega

theorem Opened.file_eq_durable (h : Opened P w₀) : w₀.file = w₀.durable := by
  cases h with
  | created header => rfl
  | recovered _ h =>
    simp only [openRecovered, bind_eq_ok_iff, pure, Except.pure, ok.injEq,
      Prod.mk.injEq] at h
    obtain ⟨_, _, _, _, rfl, _⟩ := h
    rfl
end Opened
end ReflinkForest
