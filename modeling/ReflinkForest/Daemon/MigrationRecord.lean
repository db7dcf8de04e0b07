import ReflinkForest.Format.Chunk

/-! The durable record of a format migration: one checksummed file of 64 bytes. -/
namespace ReflinkForest
open Bytes Except

structure MigrationId where
  bytes : List.Vector UInt8 16
  deriving DecidableEq

inductive MigrationState where
  | notStarted | copying | validating | published
  deriving DecidableEq

namespace MigrationState
def toTag : MigrationState → UInt8
  | .notStarted => 0
  | .copying => 1
  | .validating => 2
  | .published => 3

def fromRecordTag (tag : UInt8) : Option MigrationState :=
  if tag = 1 then some .copying
  else if tag = 2 then some .validating
  else if tag = 3 then some .published
  else none

def isPartial : MigrationState → Bool
  | .copying | .validating => true
  | .notStarted | .published => false

theorem fromRecordTag_eq_some_iff {tag : UInt8} {state : MigrationState} :
    fromRecordTag tag = some state ↔ tag = state.toTag ∧ state ≠ .notStarted := by
  unfold fromRecordTag
  cases state <;> split_ifs <;> simp_all [toTag]
end MigrationState

structure MigrationRecord where
  id : MigrationId
  fromFormatVersion : UInt16
  toFormatVersion : UInt16
  state : MigrationState
  transitionCount : UInt64
  deriving DecidableEq

open MigrationRecord

inductive MigrationError where
  | io
  | invalidRecord (reason : String)
  | unsupportedVersion (version : UInt8)
  | invalidTarget (source target : UInt16)
  | alreadyInProgress (record : MigrationRecord)
  | noResumableMigration
  | invalidTransition (source target : MigrationState)
  | transitionCountOverflow
  | activeVersionMismatch (configured persisted : UInt16)
  | unsafeStateFile
  deriving DecidableEq

def migrationRecordVersion : UInt8 := 1
def migrationRecordMagic : Str := ascii "RFSMIGR1"
def migrationRecordLen : ℕ := 64

namespace MigrationRecord
def validate (record : MigrationRecord) : Except MigrationError Unit := do
  .require (record.fromFormatVersion ≠ 0 ∧ record.toFormatVersion ≠ 0)
    (.invalidRecord "format versions must be non-zero")
  .require (record.fromFormatVersion < record.toFormatVersion)
    (.invalidRecord "migration target format must be newer than the source")
  .require (record.state ≠ .notStarted)
    (.invalidRecord "not-started migrations are not persisted")
  .require (record.transitionCount ≠ 0)
    (.invalidRecord "migration transition count is zero")

def activeFormatVersion (record : MigrationRecord) : UInt16 :=
  if record.state = .published then record.toFormatVersion else record.fromFormatVersion

theorem validate_eq_ok_iff {record : MigrationRecord} : record.validate = .ok () ↔
    (record.fromFormatVersion ≠ 0 ∧ record.toFormatVersion ≠ 0) ∧
      record.fromFormatVersion < record.toFormatVersion ∧ record.state ≠ .notStarted ∧
      record.transitionCount ≠ 0 := by
  simp only [validate, require_bind_eq_ok, require_eq_ok]

def head (record : MigrationRecord) : Str := [migrationRecordVersion, record.state.toTag, 0, 0]

/-- The bytes in front of the checksum. -/
def fields (record : MigrationRecord) : Str :=
  record.head ++ (migrationRecordMagic ++ (u16 record.fromFormatVersion ++
    (u16 record.toFormatVersion ++ (record.id.bytes.toList ++
      (u64 record.transitionCount ++ zeros 20)))))
end MigrationRecord

def encodeMigrationRecord (record : MigrationRecord) : Except MigrationError Str := do
  record.validate
  .ok (record.fields ++ u32 (crc32c record.fields))

def decodeMigrationRecord (bytes : Str) : Except MigrationError MigrationRecord := do
  .require (bytes.length = migrationRecordLen)
    (.invalidRecord "migration record length is invalid")
  .require (byteAt bytes 0 = migrationRecordVersion) (.unsupportedVersion (byteAt bytes 0))
  .require (allZero (slice bytes 2 2) ∧ slice bytes 4 8 = migrationRecordMagic)
    (.invalidRecord "migration record header is invalid")
  .require (allZero (slice bytes 40 20))
    (.invalidRecord "migration record reserved bytes are non-zero")
  .require (toU32 (slice bytes 60 4) = crc32c (bytes.take 60))
    (.invalidRecord "migration record checksum mismatch")
  let state ← .ofOption (.invalidRecord "migration record state is invalid")
    (MigrationState.fromRecordTag (byteAt bytes 1))
  let record : MigrationRecord :=
    { id := ⟨sliceVec bytes 16 16⟩
      fromFormatVersion := toU16 (slice bytes 12 2)
      toFormatVersion := toU16 (slice bytes 14 2)
      state
      transitionCount := toU64 (slice bytes 32 8) }
  record.validate
  .ok record

/-- `none` stands for a missing file. -/
def readMigrationRecord : Option Str → Except MigrationError (Option MigrationRecord)
  | none => .ok none
  | some bytes => do
    .require (bytes.length = migrationRecordLen) .unsafeStateFile
    let record ← decodeMigrationRecord bytes
    .ok (some record)

section RoundTrip
variable {record : MigrationRecord} {bytes : Str}

@[simp] theorem MigrationRecord.length_fields (record : MigrationRecord) :
    record.fields.length = 60 := by
  simp [fields, head, migrationRecordMagic, ascii]

theorem MigrationRecord.slice_eq_fields_iff (length : bytes.length = migrationRecordLen) :
    slice bytes 0 60 = record.fields ↔ byteAt bytes 0 = migrationRecordVersion ∧
      byteAt bytes 1 = record.state.toTag ∧ allZero (slice bytes 2 2) ∧
      slice bytes 4 8 = migrationRecordMagic ∧
      toU16 (slice bytes 12 2) = record.fromFormatVersion ∧
      toU16 (slice bytes 14 2) = record.toFormatVersion ∧
      sliceVec bytes 16 16 = record.id.bytes ∧
      toU64 (slice bytes 32 8) = record.transitionCount ∧ allZero (slice bytes 40 20) := by
  have hh : record.head = [migrationRecordVersion] ++ ([record.state.toTag] ++ zeros 2) := rfl
  have hm : migrationRecordMagic.length = 8 := rfl
  simp (disch := simp [length, migrationRecordLen, hm]) only [fields, hh, List.append_assoc,
    slice_eq_append_iff, slice_one, slice_eq_u16_iff, slice_eq_u64_iff, slice_eq_toList_iff, hm,
    allZero_slice_iff, length_u16, length_u64, length_zeros, List.length_singleton,
    List.Vector.toList_length, Nat.reduceAdd, Nat.reduceSub, List.cons.injEq, and_true]

theorem encodeMigrationRecord_eq_ok_iff : encodeMigrationRecord record = .ok bytes ↔
    record.validate = .ok () ∧ bytes.length = migrationRecordLen ∧
      slice bytes 0 60 = record.fields ∧ toU32 (slice bytes 60 4) = crc32c (bytes.take 60) := by
  simp only [encodeMigrationRecord, bind_eq_ok_iff, ok.injEq, crc_eq_iff record.length_fields,
    Unique.exists_iff]
  rfl

/-- The decoder accepts what the encoder writes and nothing else. -/
theorem decodeMigrationRecord_eq_ok_iff :
    decodeMigrationRecord bytes = .ok record ↔ encodeMigrationRecord record = .ok bytes := by
  rw [encodeMigrationRecord_eq_ok_iff]
  simp only [decodeMigrationRecord, bind_eq_ok_iff, exists_require, ofOption_eq_ok,
    MigrationState.fromRecordTag_eq_some_iff, ok.injEq]
  constructor
  · rintro ⟨length, version, ⟨padding, magic⟩, reserved, sum, state, ⟨tag, _⟩, _, valid, rfl⟩
    exact ⟨valid, length, (slice_eq_fields_iff length).mpr
      ⟨version, tag, padding, magic, rfl, rfl, rfl, rfl, reserved⟩, sum⟩
  · rintro ⟨valid, length, fields, sum⟩
    obtain ⟨version, tag, padding, magic, source, target, id, count, reserved⟩ :=
      (slice_eq_fields_iff length).mp fields
    have started := (validate_eq_ok_iff.mp valid).2.2.1
    rw [source, target, id, count]
    exact ⟨length, version, ⟨padding, magic⟩, reserved, sum, record.state, ⟨tag, started⟩, (),
      valid, rfl⟩

/-- The file as `write_record_locked` leaves it reads as the record that was written. -/
theorem readMigrationRecord_encode (h : encodeMigrationRecord record = .ok bytes) :
    readMigrationRecord (some bytes) = .ok (some record) := by
  have length := (encodeMigrationRecord_eq_ok_iff.mp h).2.1
  simp [readMigrationRecord, require_pos length, decodeMigrationRecord_eq_ok_iff.mpr h]

theorem readMigrationRecord_validate {file : Option Str}
    (h : readMigrationRecord file = .ok (some record)) : record.validate = .ok () := by
  cases file with
  | none => cases h
  | some bytes =>
    obtain ⟨_, _, rest⟩ := bind_eq_ok_iff.mp h
    obtain ⟨read, decoded, same⟩ := bind_eq_ok_iff.mp rest
    cases same
    rw [decodeMigrationRecord_eq_ok_iff, encodeMigrationRecord_eq_ok_iff] at decoded
    exact decoded.1
end RoundTrip
end ReflinkForest
