import ReflinkForest.Format.Chunk

/-! The durable schedule of the scrubber: one checksummed file of 64 bytes, four of which the
decoder does not look at. -/
namespace ReflinkForest
open Bytes Except

inductive ScrubRunState where
  | idle | running
  deriving DecidableEq

namespace ScrubRunState
def toTag : ScrubRunState → UInt8
  | .idle => 1
  | .running => 2

def fromTag (tag : UInt8) : Option ScrubRunState :=
  if tag = 1 then some .idle
  else if tag = 2 then some .running
  else none

theorem fromTag_eq_some_iff {tag : UInt8} {state : ScrubRunState} :
    fromTag tag = some state ↔ tag = state.toTag := by
  unfold fromTag
  split_ifs with one two
  · cases state <;> simp [one, toTag]
  · cases state <;> simp [two, toTag]
  · cases state <;> simp [one, two, toTag]
end ScrubRunState

structure ScrubScheduleState where
  intervalSeconds : UInt64
  nextDueUnixSeconds : UInt64
  runState : ScrubRunState
  lastStartedUnixSeconds : Option UInt64
  lastCompletedUnixSeconds : Option UInt64
  consecutiveFailures : UInt32
  recoveredInterruptedRuns : UInt64
  deriving DecidableEq

inductive ScrubScheduleError where
  | io
  | invalidInterval (interval : UInt64)
  | timestampOverflow
  | notConfigured
  | alreadyRunning
  | invalidRecord (reason : String)
  | unsupportedVersion (version : UInt8)
  | unsafeScheduleFile
  | counterOverflow
  deriving DecidableEq

def scrubRecordVersion : UInt8 := 1
def scrubRecordMagic : Str := ascii "RFSSCRB1"
def scrubRecordLen : ℕ := 64
def scrubFlagLastStarted : UInt8 := 1
def scrubFlagLastCompleted : UInt8 := 2
def scrubKnownFlags : UInt8 := scrubFlagLastStarted ||| scrubFlagLastCompleted
def minScrubIntervalSeconds : UInt64 := 60
def maxScrubIntervalSeconds : UInt64 := 366 * 24 * 60 * 60
def maxConsecutiveScrubFailures : UInt32 := 1000000

def validateScrubInterval (intervalSeconds : UInt64) : Except ScrubScheduleError Unit :=
  .require
    (minScrubIntervalSeconds ≤ intervalSeconds ∧ intervalSeconds ≤ maxScrubIntervalSeconds)
    (.invalidInterval intervalSeconds)

def checkedAddU64 (a b : UInt64) : Option UInt64 :=
  if a.toNat + b.toNat < 2 ^ 64 then some (a + b) else none

namespace ScrubScheduleState
def configured (intervalSeconds nowUnixSeconds : UInt64) :
    Except ScrubScheduleError ScrubScheduleState := do
  validateScrubInterval intervalSeconds
  let nextDueUnixSeconds ← .ofOption .timestampOverflow
    (checkedAddU64 nowUnixSeconds intervalSeconds)
  .ok ⟨intervalSeconds, nextDueUnixSeconds, .idle, none, none, 0, 0⟩

def validate (state : ScrubScheduleState) : Except ScrubScheduleError Unit := do
  validateScrubInterval state.intervalSeconds
  .require (¬(state.runState = .running ∧ state.lastStartedUnixSeconds = none))
    (.invalidRecord "running scrub has no start timestamp")
  .require (state.consecutiveFailures ≤ maxConsecutiveScrubFailures)
    (.invalidRecord "scrub failure count exceeds the durable limit")

theorem validate_eq_ok_iff {state : ScrubScheduleState} : state.validate = .ok () ↔
    (minScrubIntervalSeconds ≤ state.intervalSeconds ∧
      state.intervalSeconds ≤ maxScrubIntervalSeconds) ∧
    ¬(state.runState = .running ∧ state.lastStartedUnixSeconds = none) ∧
    state.consecutiveFailures ≤ maxConsecutiveScrubFailures := by
  simp only [validate, validateScrubInterval, require_bind_eq_ok, require_eq_ok]

/-- Which of the two optional timestamps are present. -/
def flags (state : ScrubScheduleState) : UInt8 :=
  (if state.lastStartedUnixSeconds.isSome then 1 else 0) * scrubFlagLastStarted |||
    (if state.lastCompletedUnixSeconds.isSome then 1 else 0) * scrubFlagLastCompleted

def head (state : ScrubScheduleState) : Str :=
  [scrubRecordVersion, state.runState.toTag, state.flags, 0]

/-- The bytes in front of the checksum, with `reserved` where no field is stored. -/
def fieldsWith (state : ScrubScheduleState) (reserved : Str) : Str :=
  state.head ++ (scrubRecordMagic ++ (u64 state.intervalSeconds ++
    (u64 state.nextDueUnixSeconds ++ (u64 (state.lastStartedUnixSeconds.getD 0) ++
      (u64 (state.lastCompletedUnixSeconds.getD 0) ++ (u32 state.consecutiveFailures ++
        (u64 state.recoveredInterruptedRuns ++ reserved)))))))

/-- The record that holds `state`, with `reserved` where no field is stored. -/
def recordWith (state : ScrubScheduleState) (reserved : Str) : Str :=
  state.fieldsWith reserved ++ u32 (crc32c (state.fieldsWith reserved))
end ScrubScheduleState

def encodeScrubScheduleRecord (state : ScrubScheduleState) : Except ScrubScheduleError Str := do
  state.validate
  .ok (state.recordWith (zeros 4))

def decodeScrubScheduleRecord (bytes : Str) : Except ScrubScheduleError ScrubScheduleState := do
  .require (bytes.length = scrubRecordLen)
    (.invalidRecord "scrub schedule record length is invalid")
  .require (byteAt bytes 0 = scrubRecordVersion) (.unsupportedVersion (byteAt bytes 0))
  .require (byteAt bytes 3 = 0 ∧ slice bytes 4 8 = scrubRecordMagic)
    (.invalidRecord "scrub schedule header is invalid")
  .require (byteAt bytes 2 &&& ~~~scrubKnownFlags = 0)
    (.invalidRecord "scrub schedule flags are invalid")
  .require (toU32 (slice bytes 60 4) = crc32c (bytes.take 60))
    (.invalidRecord "scrub schedule checksum mismatch")
  let flags := byteAt bytes 2
  let lastStarted := toU64 (slice bytes 28 8)
  let lastCompleted := toU64 (slice bytes 36 8)
  let runState ← .ofOption (.invalidRecord "scrub schedule run state is invalid")
    (ScrubRunState.fromTag (byteAt bytes 1))
  let state : ScrubScheduleState :=
    { intervalSeconds := toU64 (slice bytes 12 8)
      nextDueUnixSeconds := toU64 (slice bytes 20 8)
      runState
      lastStartedUnixSeconds :=
        if flags &&& scrubFlagLastStarted ≠ 0 then some lastStarted else none
      lastCompletedUnixSeconds :=
        if flags &&& scrubFlagLastCompleted ≠ 0 then some lastCompleted else none
      consecutiveFailures := toU32 (slice bytes 44 4)
      recoveredInterruptedRuns := toU64 (slice bytes 48 8) }
  .require (¬(state.lastStartedUnixSeconds = none ∧ lastStarted ≠ 0 ∨
      state.lastCompletedUnixSeconds = none ∧ lastCompleted ≠ 0))
    (.invalidRecord "scrub schedule has a timestamp without its presence flag")
  state.validate
  .ok state

/-- `none` stands for a missing file. -/
def readScrubScheduleRecord : Option Str → Except ScrubScheduleError (Option ScrubScheduleState)
  | none => .ok none
  | some bytes => do
    .require (bytes.length = scrubRecordLen) .unsafeScheduleFile
    let state ← decodeScrubScheduleRecord bytes
    .ok (some state)

section Codec
open ScrubScheduleState

variable {state : ScrubScheduleState} {bytes reserved : Str}

@[simp] theorem ScrubScheduleState.length_fieldsWith (width : reserved.length = 4) :
    (state.fieldsWith reserved).length = 60 := by
  simp [fieldsWith, head, scrubRecordMagic, ascii, width]

theorem ScrubScheduleState.flags_known (state : ScrubScheduleState) :
    state.flags &&& ~~~scrubKnownFlags = 0 := by
  unfold flags
  split <;> split <;> decide

theorem ScrubScheduleState.flags_started (state : ScrubScheduleState) :
    state.flags &&& scrubFlagLastStarted ≠ 0 ↔ state.lastStartedUnixSeconds.isSome = true := by
  unfold flags
  split <;> rename_i started <;> split <;> simp only [started] <;> decide

theorem ScrubScheduleState.flags_completed (state : ScrubScheduleState) :
    state.flags &&& scrubFlagLastCompleted ≠ 0 ↔
      state.lastCompletedUnixSeconds.isSome = true := by
  unfold flags
  split <;> split <;> rename_i completed <;> simp only [completed] <;> decide

/-- A timestamp is absent exactly when its flag is clear, and then it is stored as zero. -/
theorem timestamp_of_flag {present : Prop} [Decidable present] {stamp : Option UInt64}
    (flag : present ↔ stamp.isSome = true) :
    (if present then some (stamp.getD 0) else none) = stamp ∧
      ¬(stamp = none ∧ stamp.getD 0 ≠ 0) := by
  cases stamp with
  | none =>
    have absent : ¬present := by simpa using flag
    simp [absent]
  | some value =>
    have here : present := by simpa using flag
    simp [here]

theorem ScrubScheduleState.recordWith_eq_iff (width : reserved.length = 4) :
    state.recordWith reserved = bytes ↔ bytes.length = scrubRecordLen ∧
      (byteAt bytes 0 = scrubRecordVersion ∧ byteAt bytes 1 = state.runState.toTag ∧
        byteAt bytes 2 = state.flags ∧ byteAt bytes 3 = 0 ∧ slice bytes 4 8 = scrubRecordMagic ∧
        toU64 (slice bytes 12 8) = state.intervalSeconds ∧
        toU64 (slice bytes 20 8) = state.nextDueUnixSeconds ∧
        toU64 (slice bytes 28 8) = state.lastStartedUnixSeconds.getD 0 ∧
        toU64 (slice bytes 36 8) = state.lastCompletedUnixSeconds.getD 0 ∧
        toU32 (slice bytes 44 4) = state.consecutiveFailures ∧
        toU64 (slice bytes 48 8) = state.recoveredInterruptedRuns ∧
        slice bytes 56 4 = reserved) ∧ toU32 (slice bytes 60 4) = crc32c (bytes.take 60) := by
  have hh : state.head =
      [scrubRecordVersion] ++ ([state.runState.toTag] ++ ([state.flags] ++ [0])) := rfl
  have hm : scrubRecordMagic.length = 8 := rfl
  rw [recordWith, crc_eq_iff (state.length_fieldsWith width)]
  refine and_congr_right fun length => and_congr_left' ?_
  simp (disch := simp [length, hm]) only [fieldsWith, hh, List.append_assoc, slice_eq_append_iff,
    slice_one, slice_eq_u64_iff, slice_eq_u32_iff, hm, length_u64, length_u32,
    List.length_singleton, Nat.reduceAdd, Nat.reduceSub, List.cons.injEq, and_true]

theorem ScrubScheduleState.slice_reserved (width : reserved.length = 4) :
    slice (state.recordWith reserved) 56 4 = reserved :=
  ((recordWith_eq_iff width).mp rfl).2.1.2.2.2.2.2.2.2.2.2.2.2

theorem flags_of_known {flags : UInt8} (known : flags &&& ~~~scrubKnownFlags = 0) :
    (if flags &&& scrubFlagLastStarted ≠ 0 then 1 else 0) * scrubFlagLastStarted |||
      (if flags &&& scrubFlagLastCompleted ≠ 0 then 1 else 0) * scrubFlagLastCompleted = flags := by
  rcases flags with ⟨bits⟩
  revert bits
  decide

theorem getD_of_flag {present : Prop} [Decidable present] {stamp : UInt64}
    (checked : ¬((if present then some stamp else none) = none ∧ stamp ≠ 0)) :
    (if present then some stamp else none).getD 0 = stamp := by
  split_ifs at checked ⊢ with here
  · rfl
  · simpa using (not_and_not_right.mp checked rfl).symm

theorem decodeScrubScheduleRecord_eq_ok_iff :
    decodeScrubScheduleRecord bytes = .ok state ↔
      state.validate = .ok () ∧ bytes.length = scrubRecordLen ∧
        bytes = state.recordWith (slice bytes 56 4) := by
  rw [@eq_comm _ bytes (state.recordWith _)]
  simp only [decodeScrubScheduleRecord, bind_eq_ok_iff, exists_require, ofOption_eq_ok,
    ScrubRunState.fromTag_eq_some_iff, ok.injEq]
  constructor
  · rintro ⟨length, version, ⟨padding, magic⟩, known, sum, _, tag, stamps, _, valid, rfl⟩
    obtain ⟨started, completed⟩ := not_or.mp stamps
    have width : (slice bytes 56 4).length = 4 := length_slice (by rw [length]; decide)
    refine ⟨valid, length, (recordWith_eq_iff width).mpr ⟨length, ⟨version, tag, ?_, padding,
      magic, rfl, rfl, (getD_of_flag started).symm, (getD_of_flag completed).symm, rfl, rfl, rfl⟩,
      sum⟩⟩
    simp only [flags, Option.isSome_ite, flags_of_known known]
  · rintro ⟨valid, length, same⟩
    have width : (slice bytes 56 4).length = 4 := length_slice (by rw [length]; decide)
    obtain ⟨_, ⟨version, tag, flags, padding, magic, interval, due, started, completed, failures,
      recovered, _⟩, sum⟩ := (recordWith_eq_iff width).mp same
    obtain ⟨startedStamp, startedFlag⟩ := timestamp_of_flag state.flags_started
    obtain ⟨completedStamp, completedFlag⟩ := timestamp_of_flag state.flags_completed
    simp only [flags, interval, due, started, completed, failures, recovered, startedStamp,
      completedStamp]
    exact ⟨length, version, ⟨padding, magic⟩, state.flags_known, sum, _, tag,
      not_or.mpr ⟨startedFlag, completedFlag⟩, (), valid, rfl⟩

theorem encodeScrubScheduleRecord_eq_ok_iff : encodeScrubScheduleRecord state = .ok bytes ↔
    state.validate = .ok () ∧ bytes = state.recordWith (zeros 4) := by
  simp only [encodeScrubScheduleRecord, bind_eq_ok_iff, ok.injEq,
    eq_comm (a := bytes)]
  exact ⟨fun ⟨_, valid, same⟩ => ⟨valid, same⟩, fun ⟨valid, same⟩ => ⟨(), valid, same⟩⟩

theorem decodeScrubScheduleRecord_encode (encoded : encodeScrubScheduleRecord state = .ok bytes) :
    decodeScrubScheduleRecord bytes = .ok state := by
  obtain ⟨valid, rfl⟩ := encodeScrubScheduleRecord_eq_ok_iff.mp encoded
  exact decodeScrubScheduleRecord_eq_ok_iff.mpr ⟨valid,
    ((recordWith_eq_iff (length_zeros 4)).mp rfl).1, by rw [slice_reserved (length_zeros 4)]⟩

/-- The file as `write_locked` leaves it reads as the schedule that was written. -/
theorem readScrubScheduleRecord_encode (encoded : encodeScrubScheduleRecord state = .ok bytes) :
    readScrubScheduleRecord (some bytes) = .ok (some state) := by
  have decoded := decodeScrubScheduleRecord_encode encoded
  have length := (decodeScrubScheduleRecord_eq_ok_iff.mp decoded).2.1
  simp [readScrubScheduleRecord, require_pos length, decoded]

theorem readScrubScheduleRecord_validate {file : Option Str}
    (read : readScrubScheduleRecord file = .ok (some state)) : state.validate = .ok () := by
  cases file with
  | none => cases read
  | some bytes =>
    obtain ⟨_, _, rest⟩ := bind_eq_ok_iff.mp read
    obtain ⟨found, decoded, same⟩ := bind_eq_ok_iff.mp rest
    cases same
    exact (decodeScrubScheduleRecord_eq_ok_iff.mp decoded).1

/-- A valid schedule reads back as itself, and what the decoder accepts is what the encoder writes
exactly when the four unused bytes are zero. -/
theorem scrubScheduleRecord_codec (state : ScrubScheduleState) (bytes : Str) :
    (state.validate = .ok () → ∃ bytes, encodeScrubScheduleRecord state = .ok bytes ∧
      decodeScrubScheduleRecord bytes = .ok state) ∧
    (decodeScrubScheduleRecord bytes = .ok state →
      (encodeScrubScheduleRecord state = .ok bytes ↔ slice bytes 56 4 = zeros 4)) := by
  constructor
  · intro valid
    have encoded := encodeScrubScheduleRecord_eq_ok_iff.mpr ⟨valid, rfl⟩
    exact ⟨_, encoded, decodeScrubScheduleRecord_encode encoded⟩
  · intro decoded
    obtain ⟨valid, length, shape⟩ := decodeScrubScheduleRecord_eq_ok_iff.mp decoded
    rw [encodeScrubScheduleRecord_eq_ok_iff]
    constructor
    · rintro ⟨_, rfl⟩
      exact slice_reserved (length_zeros 4)
    · intro zero
      rw [zero] at shape
      exact ⟨valid, shape⟩

def hourlyScrub : ScrubScheduleState := ⟨3600, 7200, .idle, none, none, 0, 0⟩

/-- A record whose unused bytes are not zero is accepted and is not what the encoder writes. -/
theorem unusedBytes_not_canonical :
    ¬∀ bytes state, bytes.length = scrubRecordLen →
      decodeScrubScheduleRecord bytes = .ok state →
        encodeScrubScheduleRecord state = .ok bytes := by
  intro canonical
  have encoded := canonical (hourlyScrub.recordWith [1, 0, 0, 0]) hourlyScrub
    (by decide +kernel) (by decide +kernel)
  exact absurd encoded (by decide +kernel)
end Codec
end ReflinkForest
