import ReflinkForest.Format.Payload
import ReflinkForest.Index.Catalog

/-! The record scanner: one loop serves open-tail recovery, which stops at the first record it
cannot accept, and strict verification, which reports it. -/
namespace ReflinkForest
open Bytes List
open Except hiding error

/-- Ceiling on a record that a scan materialises: 64 MiB. -/
def maxRecoveryRecordBytes : ℕ := 64 * 1024 * 1024

inductive StoreIoError where
  | unexpectedEof
  | notFound
  | alreadyExists
  | writeFailed
  | syncFailed
  deriving DecidableEq

inductive StoreError where
  | io (error : StoreIoError)
  | format (error : FormatError)
  | codec (error : CodecError)
  | notAnOpenChunk
  | notASealedChunk
  | conflictingChunkPaths
  | sealedFooterMissing
  | sealedFooterMismatch (field : String)
  | openChunkContainsSealedFooter
  | catalogChunkStateConflict (generation : UInt32) (chunkId : UInt64) (state : ChunkState)
  | offsetOverflow
  | rotationTargetTooSmall
  | locationMismatch (field : String)
  | invalidLocationRebuildBatchSize
  | duplicateRebuildChunkIdentity (generation : UInt32) (chunkId : UInt64)
  | preservedAliasMissingContent (repository : RepoId) (oid : GitOid) (contentId : ContentId)
  | preservedAliasContentMismatch (repository : RepoId) (oid : GitOid) (contentId : ContentId)
  | catalog (error : CatalogError)
  deriving DecidableEq

/-- `seek` then `read_exact`. -/
def readExact (file : Str) (offset len : ℕ) : Except StoreError Str := do
  .require (offset + len ≤ file.length) (.io .unexpectedEof)
  return slice file offset len

variable {len : ℕ}

theorem readExact_eq_ok_iff {file out : Str} {offset : ℕ} :
    readExact file offset len = .ok out ↔
      offset + len ≤ file.length ∧ out = slice file offset len := by
  rw [readExact, require_bind_eq_ok]
  simp [pure, Except.pure, eq_comm]

theorem readExact_of_le {file : Str} {offset : ℕ} (h : offset + len ≤ file.length) :
    readExact file offset len = .ok (slice file offset len) := readExact_eq_ok_iff.mpr ⟨h, rfl⟩

def readChunkHeader (file : Str) : Except StoreError ChunkHeader := do
  let bytes ← readExact file 0 chunkHeaderLen
  .mapErr .format (ChunkHeader.decode bytes)

theorem readChunkHeader_eq_ok_iff {file : Str} {header : ChunkHeader} :
    readChunkHeader file = .ok header ↔ header.encode <+: file := by
  simp only [readChunkHeader, bind_eq_ok_iff, readExact_eq_ok_iff, mapErr_eq_ok,
    ChunkHeader.decode_eq_ok_iff]
  constructor
  · rintro ⟨_, ⟨-, rfl⟩, h⟩
    exact h.trans (List.take_prefix _ _)
  · rintro ⟨rest, rfl⟩
    refine ⟨_, ⟨by simp [chunkHeaderLen], rfl⟩, ?_⟩
    rw [chunkHeaderLen, slice_append_self header.length_encode]

variable (P : Primitives)

/-- A recovery scan stops where a strict scan reports `error`. -/
def scanStop (strict : Bool) (error : StoreError) : Except StoreError (Option (ObjectRecord × ℕ)) :=
  if strict then .error error else .ok none

/-- Only strict scans tie a record to its declared object identity. -/
def verifyIfStrict (strict : Bool) (record : ObjectRecord) : Except StoreError Unit :=
  if strict then .mapErr .codec (verifyObjectRecord P record) else .ok ()

/-- One iteration of the scan loop at `offset`: the record found there with its
length, `none` for a recovery scan that stops. -/
def scanStep (strict : Bool) (file : Str) (stop offset : ℕ) :
    Except StoreError (Option (ObjectRecord × ℕ)) :=
  let remaining := stop - offset
  if remaining < recordHeaderLen then scanStop strict (.format .truncated) else do
  let recordHeader ← readExact file offset recordHeaderLen
  match encodedRecordLenFromHeader recordHeader with
  | .error error => scanStop strict (.format error)
  | .ok encodedLen =>
    if maxRecoveryRecordBytes < encodedLen then scanStop strict .offsetOverflow
    else if remaining < encodedLen then scanStop strict (.format .truncated) else do
    let encoded ← readExact file offset encodedLen
    match decodeRecord encoded with
    | .error error => scanStop strict (.format error)
    | .ok (record, consumed) =>
      if consumed = encodedLen then do
        verifyIfStrict P strict record
        return some (record, encodedLen)
      else scanStop strict (.sealedFooterMismatch "record length")

/-- Concatenated encodings of complete records. -/
def encodings (records : List ObjectRecord) : Str := records.flatMap ObjectRecord.encoding

@[simp] theorem encodings_nil : encodings [] = [] := rfl

@[simp] theorem encodings_cons (r : ObjectRecord) (rs : List ObjectRecord) :
    encodings (r :: rs) = r.encoding ++ encodings rs := rfl

@[simp] theorem encodings_append (rs rs' : List ObjectRecord) :
    encodings (rs ++ rs') = encodings rs ++ encodings rs' := flatMap_append

/-- Scan state: the records visited so far, the offset after the last of them
and the rolling checksum. `offset` cannot overflow because it stays at most
`stop`, a file length. -/
structure RecordScan where
  records : List ObjectRecord
  finish : ℕ
  checksum : Crc32c

namespace RecordScan
def start : RecordScan := ⟨[], chunkHeaderLen, Crc32c.new⟩

def push (s : RecordScan) (record : ObjectRecord) (encoded : Str) : RecordScan :=
  ⟨s.records ++ [record], s.finish + encoded.length, s.checksum.update encoded⟩

@[simp] theorem push_finish (s : RecordScan) (r : ObjectRecord) (encoded : Str) :
    (s.push r encoded).finish = s.finish + encoded.length := rfl

/-- The state after visiting `rs`. -/
def after (s : RecordScan) (rs : List ObjectRecord) : RecordScan :=
  ⟨s.records ++ rs, s.finish + (encodings rs).length, s.checksum.update (encodings rs)⟩

@[simp] theorem after_nil (s : RecordScan) : s.after [] = s := by simp [after]

theorem push_after (s : RecordScan) (r : ObjectRecord) (rs : List ObjectRecord) :
    (s.push r r.encoding).after rs = s.after (r :: rs) := by
  simp [push, after, Nat.add_assoc]

@[simp] theorem after_finish (s : RecordScan) (rs : List ObjectRecord) :
    (s.after rs).finish = s.finish + (encodings rs).length := rfl

@[simp] theorem after_records (s : RecordScan) (rs : List ObjectRecord) :
    (s.after rs).records = s.records ++ rs := rfl

end RecordScan

/-- The scan loop. Every step consumes bytes, so fuel `stop` never runs out. -/
def scanLoop (strict : Bool) (file : Str) (stop : ℕ) :
    ℕ → RecordScan → Except StoreError RecordScan
  | 0, s => .ok s
  | fuel + 1, s =>
    if s.finish < stop then
      match scanStep P strict file stop s.finish with
      | .error error => .error error
      | .ok none => .ok s
      | .ok (some (record, len)) =>
        scanLoop strict file stop fuel (s.push record (slice file s.finish len))
    else .ok s

def scanRecords (file : Str) (stop : ℕ) (strict : Bool) : Except StoreError RecordScan := do
  .require (chunkHeaderLen ≤ stop) (.format .truncated)
  scanLoop P strict file stop stop RecordScan.start

section Steps
variable {P} {strict : Bool} {file : Str} {stop offset : ℕ} {r : ObjectRecord}

variable {bytes : Str} {n : ℕ} {rs rs' : List ObjectRecord} {s : RecordScan}

theorem encodedRecordLenFromHeader_eq_ok_iff :
    encodedRecordLenFromHeader bytes = .ok n ↔
      ∃ m : RecordMetadata, m.encode <+: bytes ∧ m.total + 7 < 2 ^ 64 ∧ n = alignUp m.total := by
  simp only [encodedRecordLenFromHeader, bind_eq_ok_iff, exists_require,
    RecordMetadata.decode_eq_ok_iff, align_eq_ok_iff]
  constructor
  · rintro ⟨m, hm, -, hfit, hn⟩
    exact ⟨m, hm, hfit, hn⟩
  · rintro ⟨m, hm, hfit, hn⟩
    exact ⟨m, hm, by omega, hfit, hn⟩

theorem ObjectRecord.length_encoding_pos (r : ObjectRecord) : 148 ≤ r.encoding.length := by
  have h := le_alignUp r.total
  rw [r.length_encoding]
  have := r.total_eq
  omega

theorem slice_of_prefix_drop {enc : Str} (h : enc <+: file.drop offset) :
    slice file offset enc.length = enc := by
  obtain ⟨rest, hrest⟩ := h
  rw [slice, ← hrest]
  simp

theorem encodedRecordLenFromHeader_of_record (hfit : r.Fits)
    (henc : r.encoding <+: file.drop offset) :
    encodedRecordLenFromHeader (slice file offset recordHeaderLen) = .ok r.encoding.length := by
  have hhead : r.metadata.encode <+: slice file offset recordHeaderLen := by
    obtain ⟨rest, hrest⟩ := henc
    rw [slice, ← hrest, ObjectRecord.encoding]
    simp [recordHeaderLen]
  exact encodedRecordLenFromHeader_eq_ok_iff.mpr ⟨r.metadata, hhead,
    by rw [r.total_metadata hfit]; exact hfit,
    by rw [r.total_metadata hfit, r.length_encoding]⟩

theorem scanStep_of_record (hfit : r.Fits) (henc : r.encoding <+: file.drop offset)
    (hle : offset + r.encoding.length ≤ stop) (hstop : stop ≤ file.length) :
    scanStep P strict file stop offset =
      if maxRecoveryRecordBytes < r.encoding.length then scanStop strict .offsetOverflow else do
        verifyIfStrict P strict r
        return some (r, r.encoding.length) := by
  have hpos := r.length_encoding_pos
  have hlen := encodedRecordLenFromHeader_of_record hfit henc
  have hdec : decodeRecord (slice file offset r.encoding.length) = .ok (r, r.encoding.length) := by
    rw [slice_of_prefix_drop henc]
    exact decodeRecord_eq_ok_iff.mpr ⟨hfit, r.length_encoding, prefix_refl _⟩
  unfold scanStep
  simp only
  rw [if_neg (by simp only [recordHeaderLen]; omega),
    readExact_of_le (by simp only [recordHeaderLen]; omega), ok_bind, hlen]
  simp only
  by_cases hmax : maxRecoveryRecordBytes < r.encoding.length
  · rw [if_pos hmax, if_pos hmax]
  · rw [if_neg hmax, if_neg hmax, if_neg (by omega), readExact_of_le (by omega), ok_bind,
      hdec]
    simp only [if_true]

theorem scanStep_eq_some (h : scanStep P strict file stop offset = .ok (some (r, n))) :
    r.Fits ∧ n = r.encoding.length ∧ n ≤ maxRecoveryRecordBytes ∧ offset + n ≤ stop ∧
      r.encoding <+: file.drop offset ∧ (strict = true → verifyObjectRecord P r = .ok ()) := by
  have hno (e : StoreError) (o : ObjectRecord × ℕ) : scanStop strict e ≠ .ok (some o) := by
    cases strict <;> simp [scanStop]
  unfold scanStep at h
  simp only at h
  split_ifs at h with hrem
  · exact absurd h (hno _ _)
  obtain ⟨head, -, h⟩ := bind_eq_ok_iff.mp h
  split at h
  · exact absurd h (hno _ _)
  rename_i len hlen
  split_ifs at h with hmax hfitlen
  · exact absurd h (hno _ _)
  · exact absurd h (hno _ _)
  simp only [bind_eq_ok_iff, readExact_eq_ok_iff] at h
  obtain ⟨encoded, ⟨hread, rfl⟩, h⟩ := h
  split at h
  · exact absurd h (hno _ _)
  rename_i record consumed hdec
  split_ifs at h with hconsumed
  · simp only [bind_eq_ok_iff, pure, Except.pure, ok.injEq, Option.some.injEq,
      Prod.mk.injEq] at h
    obtain ⟨_, hverify, rfl, rfl⟩ := h
    obtain ⟨hfit, hlen', henc⟩ := decodeRecord_eq_ok_iff.mp hdec
    have hheader : recordHeaderLen = 128 := rfl
    refine ⟨hfit, by rw [record.length_encoding, ← hlen', hconsumed], by omega, by omega,
      henc.trans (List.take_prefix _ _), fun hs => ?_⟩
    simpa [verifyIfStrict, hs] using hverify
  · exact absurd h (hno _ _)

/-- A strict scan never stops silently. -/
theorem scanStep_strict_ne_none : scanStep P true file stop offset ≠ .ok none := by
  unfold scanStep
  simp only [scanStop, if_true]
  split_ifs
  · simp
  cases readExact file offset recordHeaderLen with
  | error e => simp
  | ok head =>
    simp only [ok_bind]
    split
    · simp
    split_ifs
    · simp
    · simp
    rename_i len _ _ _
    cases readExact file offset len with
    | error e => simp
    | ok encoded =>
      simp only [ok_bind]
      split
      · simp
      · split_ifs
        · simp [bind_eq_ok_iff, pure, Except.pure]
        · simp

/-- Records a scan accepts wherever it finds them. -/
def Scannable (P : Primitives) (strict : Bool) (r : ObjectRecord) : Prop :=
  r.Fits ∧ r.encoding.length ≤ maxRecoveryRecordBytes ∧
    (strict = true → verifyObjectRecord P r = .ok ())

theorem Scannable.scanStep (hr : Scannable P strict r) (henc : r.encoding <+: file.drop offset)
    (hle : offset + r.encoding.length ≤ stop) (hstop : stop ≤ file.length) :
    scanStep P strict file stop offset = .ok (some (r, r.encoding.length)) := by
  obtain ⟨hfit, hmax, hverify⟩ := hr
  rw [scanStep_of_record hfit henc hle hstop, if_neg (by omega)]
  cases strict with
  | false => rfl
  | true => simp [verifyIfStrict, hverify rfl, pure, Except.pure]

/-- The scan loop runs over any complete scannable records in front of it. -/
theorem scanLoop_records (hrs : ∀ r ∈ rs, Scannable P strict r)
    (henc : encodings rs <+: file.drop s.finish) (hle : s.finish + (encodings rs).length ≤ stop)
    (hstop : stop ≤ file.length) (fuel : ℕ) :
    scanLoop P strict file stop (rs.length + fuel) s =
      scanLoop P strict file stop fuel (s.after rs) := by
  induction rs generalizing s with
  | nil => simp
  | cons r rs ih =>
    obtain ⟨rest, hrest⟩ := henc
    rw [encodings_cons, append_assoc] at hrest
    have hr : r.encoding <+: file.drop s.finish := ⟨_, hrest⟩
    simp only [encodings_cons, length_append] at hle
    have hpos := r.length_encoding_pos
    have hslice := slice_of_prefix_drop hr
    rw [length_cons, show rs.length + 1 + fuel = rs.length + fuel + 1 by omega, scanLoop,
      if_pos (by omega), (hrs r (by simp)).scanStep hr (by omega) hstop]
    simp only [hslice]
    rw [ih (fun r' hr' => hrs r' (by simp [hr'])) ?_ (by rw [RecordScan.push_finish]; omega),
      RecordScan.push_after]
    refine ⟨rest, ?_⟩
    have := congrArg (List.drop r.encoding.length) hrest
    simpa using this

/-- Where a scan ends: behind accepted records, at `stop` or, for a recovery
scan, at an offset where nothing is accepted. -/
theorem scanLoop_eq_ok {fuel : ℕ} {s' : RecordScan}
    (h : scanLoop P strict file stop fuel s = .ok s') (hfuel : stop ≤ s.finish + fuel)
    (hs : s.finish ≤ stop) :
    ∃ rs, s' = s.after rs ∧ (∀ r ∈ rs, Scannable P strict r) ∧
      encodings rs <+: file.drop s.finish ∧ s'.finish ≤ stop ∧
      (s'.finish = stop ∨ strict = false ∧ scanStep P strict file stop s'.finish = .ok none) := by
  induction fuel generalizing s with
  | zero =>
    simp only [scanLoop, ok.injEq] at h
    subst h
    exact ⟨[], by simp, by simp, by simp, hs, .inl (by omega)⟩
  | succ fuel ih =>
    rw [scanLoop] at h
    split_ifs at h with hlt
    · split at h
      · cases h
      · rename_i hstep
        simp only [ok.injEq] at h
        subst h
        refine ⟨[], by simp, by simp, by simp, hs, .inr ⟨?_, hstep⟩⟩
        cases strict with
        | false => rfl
        | true => exact absurd hstep scanStep_strict_ne_none
      · rename_i r n hstep
        obtain ⟨hfit, rfl, hmax, hle, henc, hverify⟩ := scanStep_eq_some hstep
        have hpos := r.length_encoding_pos
        rw [slice_of_prefix_drop henc] at h
        obtain ⟨rs, rfl, hrs, hencs, hstop, hend⟩ := ih h
          (by rw [RecordScan.push_finish]; omega) (by rw [RecordScan.push_finish]; omega)
        refine ⟨r :: rs, s.push_after r rs, ?_, ?_, hstop, hend⟩
        · simp only [mem_cons, forall_eq_or_imp]
          exact ⟨⟨hfit, hmax, hverify⟩, hrs⟩
        · obtain ⟨rest, hrest⟩ := henc
          rw [encodings_cons, ← hrest]
          refine (prefix_append_right_inj _).mpr ?_
          have := congrArg (List.drop r.encoding.length) hrest
          simp only [drop_left, drop_drop] at this
          rw [this]
          exact hencs
    · simp only [ok.injEq] at h
      subst h
      exact ⟨[], by simp, by simp, by simp, hs, .inl (by omega)⟩

/-- Inside the file a recovery scan has no error of its own. -/
theorem scanStep_recovery (P : Primitives) (hstop : stop ≤ file.length) (offset : ℕ) :
    ∃ o, scanStep P false file stop offset = .ok o := by
  have hheader : recordHeaderLen = 128 := rfl
  unfold scanStep
  simp only [scanStop, Bool.false_eq_true, if_false]
  split_ifs with hrem
  · exact ⟨_, rfl⟩
  rw [readExact_of_le (by omega), ok_bind]
  split
  · exact ⟨_, rfl⟩
  split_ifs with hmax hlen
  · exact ⟨_, rfl⟩
  · exact ⟨_, rfl⟩
  rw [readExact_of_le (by omega), ok_bind]
  split
  · exact ⟨_, rfl⟩
  · split_ifs
    · exact ⟨_, rfl⟩
    · exact ⟨_, rfl⟩

theorem scanLoop_recovery (hstop : stop ≤ file.length) (fuel : ℕ) (s : RecordScan) :
    ∃ s', scanLoop P false file stop fuel s = .ok s' := by
  induction fuel generalizing s with
  | zero => exact ⟨s, rfl⟩
  | succ fuel ih =>
    rw [scanLoop]
    split_ifs
    · obtain ⟨o, ho⟩ := scanStep_recovery P hstop s.finish
      rw [ho]
      cases o with
      | none => exact ⟨s, rfl⟩
      | some e => exact ih _
    · exact ⟨s, rfl⟩

theorem length_le_length_encodings (rs : List ObjectRecord) :
    rs.length ≤ (encodings rs).length := by
  induction rs with
  | nil => simp
  | cons r rs ih =>
    have := r.length_encoding_pos
    simp only [encodings_cons, length_append, length_cons]
    omega

theorem encoding_prefix_inj {r r' : ObjectRecord} (hr : r.Fits) (hr' : r'.Fits)
    (h : r.encoding <+: bytes) (h' : r'.encoding <+: bytes) : r = r' := by
  have hdec : decodeRecord bytes = .ok (r, alignUp r.total) :=
    decodeRecord_eq_ok_iff.mpr ⟨hr, rfl, h⟩
  rw [decodeRecord_eq_ok_iff.mpr ⟨hr', rfl, h'⟩] at hdec
  exact (Prod.mk.inj (ok.inj hdec)).1.symm

/-- Bytes determine the records encoded at their front. -/
theorem encodings_prefix_total (hrs : ∀ r ∈ rs, r.Fits) (hrs' : ∀ r ∈ rs', r.Fits)
    (h : encodings rs <+: bytes) (h' : encodings rs' <+: bytes) : rs <+: rs' ∨ rs' <+: rs := by
  induction rs generalizing rs' bytes with
  | nil => exact .inl (List.nil_prefix)
  | cons r rs ih =>
    cases rs' with
    | nil => exact .inr (List.nil_prefix)
    | cons r' rs' =>
      obtain rfl : r = r' := encoding_prefix_inj (hrs r (by simp)) (hrs' r' (by simp))
        ((prefix_append _ _).trans h) ((prefix_append _ _).trans h')
      obtain ⟨rest, rfl⟩ := h
      rw [encodings_cons, encodings_cons, append_assoc, prefix_append_right_inj] at h'
      have := ih (fun x hx => hrs x (by simp [hx])) (fun x hx => hrs' x (by simp [hx]))
        (prefix_append _ rest) h'
      simpa [cons_prefix_cons] using this

theorem encodings_injective (fits : ∀ r ∈ rs, r.Fits) (fits' : ∀ r ∈ rs', r.Fits)
    (same : encodings rs = encodings rs') : rs = rs' := by
  have only {xs ys : List ObjectRecord} (front : xs <+: ys)
      (same : encodings xs = encodings ys) : xs = ys := by
    obtain ⟨more, rfl⟩ := front
    rw [encodings_append, self_eq_append_right] at same
    have bound := length_le_length_encodings more
    rw [same] at bound
    rw [eq_nil_of_length_eq_zero (Nat.le_zero.mp bound), append_nil]
  rcases encodings_prefix_total fits fits' prefix_rfl (same ▸ prefix_rfl) with
    front | front
  · exact only front same
  · exact (only front same.symm).symm

theorem scanRecords_eq_ok (h : scanRecords P file stop strict = .ok s) :
    ∃ rs, s = RecordScan.start.after rs ∧ (∀ r ∈ rs, Scannable P strict r) ∧
      encodings rs <+: file.drop chunkHeaderLen ∧ s.finish ≤ stop ∧
      (s.finish = stop ∨ strict = false ∧ scanStep P strict file stop s.finish = .ok none) := by
  rw [scanRecords, require_bind_eq_ok] at h
  exact scanLoop_eq_ok h.2 (Nat.le_add_left _ _) h.1

/-- A scan goes on behind any complete scannable records. -/
theorem scanRecords_records (hrs : ∀ r ∈ rs, Scannable P strict r)
    (henc : encodings rs <+: file.drop chunkHeaderLen)
    (hle : chunkHeaderLen + (encodings rs).length ≤ stop) (hstop : stop ≤ file.length) :
    scanRecords P file stop strict =
      scanLoop P strict file stop (stop - rs.length) (RecordScan.start.after rs) := by
  have hlen := length_le_length_encodings rs
  have hrun := scanLoop_records hrs (s := RecordScan.start) henc hle hstop (stop - rs.length)
  rw [Nat.add_sub_cancel' (by omega)] at hrun
  rw [scanRecords, require_pos (by omega), ok_bind, hrun]
end Steps
end ReflinkForest
