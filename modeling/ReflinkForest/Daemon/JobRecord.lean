import ReflinkForest.Format.Chunk

/-! Durable job records: a checksummed header with the lengths, then kind, payload and last error,
then their checksum. -/
namespace ReflinkForest
open Bytes Except

structure JobId where
  bytes : List.Vector UInt8 16
  deriving DecidableEq

inductive JobState where
  | queued | running | succeeded | failed
  deriving DecidableEq

namespace JobState
def toTag : JobState → UInt8
  | .queued => 1
  | .running => 2
  | .succeeded => 3
  | .failed => 4

def fromTag (tag : UInt8) : Option JobState :=
  if tag = 1 then some .queued
  else if tag = 2 then some .running
  else if tag = 3 then some .succeeded
  else if tag = 4 then some .failed
  else none

theorem fromTag_eq_some_iff {tag : UInt8} {state : JobState} :
    fromTag tag = some state ↔ tag = state.toTag := by
  unfold fromTag
  cases state <;> split_ifs <;> simp_all [toTag]
end JobState

structure JobRecord where
  id : JobId
  kind : Str
  payload : Str
  state : JobState
  attempts : UInt32
  lastError : Option Str
  deriving DecidableEq

open JobRecord

inductive JobError where
  | io
  | alreadyExists (id : JobId)
  | notFound (id : JobId)
  | invalidRecord (reason : String)
  | unsupportedVersion (version : UInt8)
  | invalidTransition (id : JobId) (source target : JobState)
  | attemptOverflow (id : JobId)
  | unsafeJobDirectoryEntry (id : JobId)
  deriving DecidableEq

def jobRecordVersion : UInt8 := 1
def jobRecordMagic : Str := ascii "RFSJOBv1"
def jobHeaderLen : ℕ := 50
def jobTrailerLen : ℕ := 4
def maxJobRecordLen : ℕ := 64 * 1024 * 1024

namespace JobRecord
def queued (id : JobId) (kind payload : Str) : JobRecord := ⟨id, kind, payload, .queued, 0, none⟩

def validate (record : JobRecord) : Except JobError Unit := do
  .require (record.kind ≠ []) (.invalidRecord "job kind is empty")
  .require (record.kind.length ≤ maxJobRecordLen ∧ record.payload.length ≤ maxJobRecordLen ∧
      ∀ error ∈ record.lastError, error.length ≤ maxJobRecordLen)
    (.invalidRecord "job field exceeds size limit")
  .require (∀ error ∈ record.lastError, error ≠ []) (.invalidRecord "job error is empty")
  .require (record.state = .queued ∨ record.attempts ≠ 0)
    (.invalidRecord "non-queued job has no execution attempt")
  match record.state with
  | .succeeded =>
    .require (record.lastError = none) (.invalidRecord "succeeded job retains an error")
  | .failed => Except.require (record.lastError ≠ none) (.invalidRecord "failed job has no error")
  | .queued | .running => .ok ()

def error (record : JobRecord) : Str := record.lastError.getD []

def body (record : JobRecord) : Str := record.kind ++ (record.payload ++ record.error)

/-- The header without its checksum. -/
def headerFields (record : JobRecord) : Str :=
  [jobRecordVersion, record.state.toTag] ++ (jobRecordMagic ++ (record.id.bytes.toList ++
    (u32 record.attempts ++ (u32 (UInt32.ofNat record.kind.length) ++
      (u64 (UInt64.ofNat record.payload.length) ++ u32 (UInt32.ofNat record.error.length))))))

def encoding (record : JobRecord) : Str :=
  record.headerFields ++ (u32 (crc32c record.headerFields) ++
    (record.body ++ u32 (crc32c record.body)))
end JobRecord

def encodeJobRecord (record : JobRecord) : Except JobError Str := do
  record.validate
  .require (record.kind.length < 2 ^ 32) (.invalidRecord "job kind length overflows format")
  .require (record.payload.length < 2 ^ 64)
    (.invalidRecord "job payload length overflows format")
  .require (record.error.length < 2 ^ 32) (.invalidRecord "job error length overflows format")
  .require (jobHeaderLen + record.kind.length + record.payload.length + record.error.length +
      jobTrailerLen ≤ maxJobRecordLen)
    (.invalidRecord "job record length is invalid")
  .ok record.encoding

def decodeJobRecord (bytes : Str) : Except JobError JobRecord := do
  .require (jobHeaderLen + jobTrailerLen ≤ bytes.length)
    (.invalidRecord "job record is truncated")
  .require (bytes.length ≤ maxJobRecordLen) (.invalidRecord "job record exceeds size limit")
  .require (byteAt bytes 0 = jobRecordVersion) (.unsupportedVersion (byteAt bytes 0))
  .require (slice bytes 2 8 = jobRecordMagic) (.invalidRecord "job record magic is invalid")
  .require (toU32 (slice bytes 46 4) = crc32c (bytes.take 46))
    (.invalidRecord "job record header checksum mismatch")
  let state ← .ofOption (.invalidRecord "job record state is invalid")
    (JobState.fromTag (byteAt bytes 1))
  let kindLen := (toU32 (slice bytes 30 4)).toNat
  let payloadLen := (toU64 (slice bytes 34 8)).toNat
  let errorLen := (toU32 (slice bytes 42 4)).toNat
  .require (kindLen + payloadLen + errorLen < 2 ^ 64)
    (.invalidRecord "job field lengths overflow")
  .require (jobHeaderLen + (kindLen + payloadLen + errorLen) + jobTrailerLen < 2 ^ 64)
    (.invalidRecord "job record length overflows")
  .require (bytes.length = jobHeaderLen + (kindLen + payloadLen + errorLen) + jobTrailerLen)
    (.invalidRecord "job record length does not match header")
  let trailerOffset := bytes.length - jobTrailerLen
  .require (toU32 (slice bytes trailerOffset 4) =
      crc32c (slice bytes jobHeaderLen (trailerOffset - jobHeaderLen)))
    (.invalidRecord "job record body checksum mismatch")
  let record : JobRecord :=
    { id := ⟨sliceVec bytes 10 16⟩
      kind := slice bytes jobHeaderLen kindLen
      payload := slice bytes (jobHeaderLen + kindLen) payloadLen
      state
      attempts := toU32 (slice bytes 26 4)
      lastError := if errorLen = 0 then none
        else some (slice bytes (jobHeaderLen + kindLen + payloadLen) errorLen) }
  record.validate
  .ok record

section RoundTrip
variable {record : JobRecord} {bytes : Str}

structure JobRecord.Valid (record : JobRecord) : Prop where
  kind : record.kind ≠ []
  lengths : record.kind.length ≤ maxJobRecordLen ∧ record.payload.length ≤ maxJobRecordLen ∧
    ∀ error ∈ record.lastError, error.length ≤ maxJobRecordLen
  error : ∀ error ∈ record.lastError, error ≠ []
  attempts : record.state = .queued ∨ record.attempts ≠ 0
  succeeded : record.state = .succeeded → record.lastError = none
  failed : record.state = .failed → record.lastError ≠ none

theorem JobRecord.validate_eq_ok_iff : record.validate = .ok () ↔ record.Valid := by
  simp only [validate, require_bind_eq_ok]
  constructor
  · rintro ⟨kind, lengths, error, attempts, last⟩
    refine ⟨kind, lengths, error, attempts, ?_, ?_⟩ <;> intro state <;> simpa [state] using last
  · rintro ⟨kind, lengths, error, attempts, succeeded, failed⟩
    refine ⟨kind, lengths, error, attempts, ?_⟩
    cases state : record.state with
    | queued => rfl
    | running => rfl
    | succeeded => exact require_pos (succeeded state)
    | failed => exact require_pos (failed state)

@[simp] theorem JobRecord.length_headerFields (record : JobRecord) :
    record.headerFields.length = 46 := by
  simp [headerFields, jobRecordMagic, ascii]

theorem JobRecord.length_body (record : JobRecord) : record.body.length =
    record.kind.length + record.payload.length + record.error.length := by
  simp [body, Nat.add_assoc]

theorem JobRecord.slice_eq_headerFields_iff (long : 46 ≤ bytes.length) :
    slice bytes 0 46 = record.headerFields ↔ byteAt bytes 0 = jobRecordVersion ∧
      byteAt bytes 1 = record.state.toTag ∧ slice bytes 2 8 = jobRecordMagic ∧
      sliceVec bytes 10 16 = record.id.bytes ∧ toU32 (slice bytes 26 4) = record.attempts ∧
      toU32 (slice bytes 30 4) = UInt32.ofNat record.kind.length ∧
      toU64 (slice bytes 34 8) = UInt64.ofNat record.payload.length ∧
      toU32 (slice bytes 42 4) = UInt32.ofNat record.error.length := by
  have hh : [jobRecordVersion, record.state.toTag] =
      [jobRecordVersion] ++ [record.state.toTag] := rfl
  have hm : jobRecordMagic.length = 8 := rfl
  simp (disch := first | omega | simp [hm]) only [headerFields, hh, List.append_assoc,
    slice_eq_append_iff, slice_one, slice_eq_u32_iff, slice_eq_u64_iff, slice_eq_toList_iff, hm,
    length_u32, length_u64, List.length_singleton, List.Vector.toList_length, Nat.reduceAdd,
    Nat.reduceSub, List.cons.injEq, and_true]

theorem JobRecord.slice_eq_body_iff {off : ℕ} :
    slice bytes off record.body.length = record.body ↔
      slice bytes off record.kind.length = record.kind ∧
      slice bytes (off + record.kind.length) record.payload.length = record.payload ∧
      slice bytes (off + record.kind.length + record.payload.length) record.error.length =
        record.error := by
  simp (disch := simp) only [body, slice_eq_append_iff, List.length_append,
    Nat.add_sub_cancel_left]

theorem JobRecord.encoding_eq_iff : record.encoding = bytes ↔
    bytes.length = jobHeaderLen + record.body.length + jobTrailerLen ∧
      slice bytes 0 46 = record.headerFields ∧
      toU32 (slice bytes 46 4) = crc32c (bytes.take 46) ∧
      slice bytes jobHeaderLen record.body.length = record.body ∧
      toU32 (slice bytes (jobHeaderLen + record.body.length) 4) =
        crc32c (slice bytes jobHeaderLen record.body.length) := by
  rw [encoding, append_crc_eq_iff record.length_headerFields, @eq_comm _ (bytes.drop _),
    crc_eq_iff rfl, slice_drop, slice_drop, List.length_drop]
  unfold jobHeaderLen jobTrailerLen
  constructor
  · rintro ⟨long, header, headerSum, length, rest⟩
    exact ⟨by omega, header, headerSum, rest⟩
  · rintro ⟨length, header, headerSum, rest⟩
    exact ⟨by omega, header, headerSum, by omega, rest⟩

/-- A job file has room for the record. -/
def JobRecord.Fits (record : JobRecord) : Prop :=
  jobHeaderLen + record.body.length + jobTrailerLen ≤ maxJobRecordLen

theorem encodeJobRecord_eq_ok_iff : encodeJobRecord record = .ok bytes ↔
    record.Valid ∧ record.Fits ∧ bytes = record.encoding := by
  have length := record.length_body
  simp only [encodeJobRecord, bind_eq_ok_iff, exists_require, ok.injEq]
  unfold JobRecord.Fits jobHeaderLen jobTrailerLen maxJobRecordLen
  constructor
  · rintro ⟨_, valid, _, _, _, fits, rfl⟩
    exact ⟨validate_eq_ok_iff.mp valid, by omega, rfl⟩
  · rintro ⟨valid, fits, rfl⟩
    exact ⟨(), validate_eq_ok_iff.mpr valid, by omega, by omega, by omega, by omega, rfl⟩

theorem decodeJobRecord_eq_ok_iff :
    decodeJobRecord bytes = .ok record ↔ encodeJobRecord record = .ok bytes := by
  have total := record.length_body
  have widths : UInt32.size = 2 ^ 32 ∧ UInt64.size = 2 ^ 64 := by decide
  rw [encodeJobRecord_eq_ok_iff, @eq_comm _ bytes, encoding_eq_iff, JobRecord.Fits]
  simp only [decodeJobRecord, bind_eq_ok_iff, exists_require, ofOption_eq_ok,
    JobState.fromTag_eq_some_iff, ok.injEq]
  unfold jobHeaderLen jobTrailerLen maxJobRecordLen
  constructor
  · rintro ⟨long, short, version, magic, headerSum, _, tag, _, _, length, bodySum, _, valid, same⟩
    generalize kindLen : (toU32 (slice bytes 30 4)).toNat = k at *
    generalize payloadLen : (toU64 (slice bytes 34 8)).toNat = p at *
    generalize errorLen : (toU32 (slice bytes 42 4)).toNat = e at *
    have kind : record.kind = slice bytes 50 k := by rw [← same]
    have payload : record.payload = slice bytes (50 + k) p := by rw [← same]
    have error : record.error = slice bytes (50 + k + p) e := by
      rw [← same, JobRecord.error]
      by_cases none : e = 0
      · simp [none, slice]
      · simp [none]
    have kindWidth : record.kind.length = k := by rw [kind, length_slice (by omega)]
    have payloadWidth : record.payload.length = p := by rw [payload, length_slice (by omega)]
    have errorWidth : record.error.length = e := by rw [error, length_slice (by omega)]
    rw [kindWidth, payloadWidth, errorWidth] at total
    refine ⟨validate_eq_ok_iff.mp (same ▸ valid), by omega, by omega, ?_, headerSum,
      ?_, ?_⟩
    · rw [slice_eq_headerFields_iff (by omega), kindWidth, payloadWidth, errorWidth,
        ← kindLen, ← payloadLen, ← errorLen, ← same]
      simp only [UInt32.ofNat_toNat, UInt64.ofNat_toNat, and_self, and_true]
      exact ⟨version, tag, magic⟩
    · rw [slice_eq_body_iff, kindWidth, payloadWidth, errorWidth]
      exact ⟨kind.symm, payload.symm, error.symm⟩
    · rw [total]
      rwa [length, Nat.add_sub_cancel, Nat.add_sub_cancel_left] at bodySum
  · rintro ⟨valid, fits, length, header, headerSum, body, bodySum⟩
    obtain ⟨version, tag, magic, id, attempts, kindLen, payloadLen, errorLen⟩ :=
      (slice_eq_headerFields_iff (by omega)).mp header
    obtain ⟨kind, payload, error⟩ := slice_eq_body_iff.mp body
    have lastError : (if record.error.length = 0 then none else some record.error) =
        record.lastError := by
      cases last : record.lastError with
      | none => simp [JobRecord.error, last]
      | some text => simp [JobRecord.error, last, valid.error text last]
    rw [kindLen, payloadLen, errorLen, UInt32.toNat_ofNat_of_lt' (by omega),
      UInt64.toNat_ofNat_of_lt' (by omega), UInt32.toNat_ofNat_of_lt' (by omega), id, attempts,
      kind, payload, error, lastError, ← total, length, Nat.add_sub_cancel,
      Nat.add_sub_cancel_left]
    exact ⟨by omega, fits, version, magic, headerSum, _, tag, by omega, by omega, rfl, bodySum, (),
      validate_eq_ok_iff.mpr valid, rfl⟩
end RoundTrip
end ReflinkForest
