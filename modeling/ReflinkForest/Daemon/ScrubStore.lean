import ReflinkForest.Daemon.MigrationStore
import ReflinkForest.Daemon.ScrubRecord

/-! The scrub schedule store: a schedule in memory, which is changed before the write that can still
fail, and the file behind it. -/
namespace ReflinkForest
open Bytes List ScrubScheduleState

inductive ScrubExecutionFailure where
  | handlerError | handlerPanic

inductive ScrubExecutionOutcome where
  | notDue
  | succeeded (schedule : ScrubScheduleState)
  | failed (schedule : ScrubScheduleState) (failure : ScrubExecutionFailure)

/-- What becomes of one record write, if the call gets that far. -/
inductive ScrubWrite where
  | stored | failed

/-- An open store: its schedule in memory and the bytes of its file. -/
structure ScrubScheduleStore where
  state : Option ScrubScheduleState
  file : Option Str
  deriving DecidableEq

abbrev ScrubResult (α : Type) := ScrubScheduleStore × Except ScrubScheduleError α

open ScrubScheduleStore

/-- The new failure count of a finished run. -/
def countedFailures (failures : UInt32) (succeeded : Bool) : Option UInt32 :=
  if succeeded then some 0
  else if failures.toNat + 1 < 2 ^ 32 ∧ failures + 1 ≤ maxConsecutiveScrubFailures then
    some (failures + 1)
  else none

namespace ScrubScheduleStore
variable (store : ScrubScheduleStore)

def writeLocked (state : ScrubScheduleState) (write : ScrubWrite) : ScrubResult Unit :=
  match encodeScrubScheduleRecord state with
  | .error error => (store, .error error)
  | .ok bytes =>
    match write with
    | .stored => ({ store with file := some bytes }, .ok ())
    | .failed => (store, .error .io)

def configureAt (intervalSeconds nowUnixSeconds : UInt64) (write : ScrubWrite) :
    ScrubResult ScrubScheduleState :=
  match ScrubScheduleState.configured intervalSeconds nowUnixSeconds with
  | .error error => (store, .error error)
  | .ok configured =>
    match store.writeLocked configured write with
    | (store, .error error) => (store, .error error)
    | (store, .ok ()) => ({ store with state := some configured }, .ok configured)

/-- The end of a call that changes its schedule in place: what is in memory by now is written. -/
def writeChanged (schedule : ScrubScheduleState) (write : ScrubWrite) :
    ScrubResult ScrubScheduleState :=
  (writeLocked { store with state := some schedule } schedule write).mapOk fun _ => schedule

def beginIfDueAt (nowUnixSeconds : UInt64) (write : ScrubWrite) :
    ScrubResult (Option ScrubScheduleState) :=
  match store.state with
  | none => (store, .error .notConfigured)
  | some schedule =>
    if schedule.runState = .running then (store, .error .alreadyRunning)
    else if nowUnixSeconds < schedule.nextDueUnixSeconds then (store, .ok none)
    else
      let schedule :=
        { schedule with runState := .running, lastStartedUnixSeconds := some nowUnixSeconds }
      (store.writeChanged schedule write).mapOk some

def finishAt (nowUnixSeconds : UInt64) (succeeded : Bool) (write : ScrubWrite) :
    ScrubResult ScrubScheduleState :=
  match store.state with
  | none => (store, .error .notConfigured)
  | some schedule =>
    if schedule.runState ≠ .running then
      (store, .error (.invalidRecord "cannot complete a scrub that is not running"))
    else
      let schedule :=
        { schedule with runState := .idle, lastCompletedUnixSeconds := some nowUnixSeconds }
      match checkedAddU64 nowUnixSeconds schedule.intervalSeconds with
      | none => ({ store with state := some schedule }, .error .timestampOverflow)
      | some nextDueUnixSeconds =>
        let schedule := { schedule with nextDueUnixSeconds }
        match countedFailures schedule.consecutiveFailures succeeded with
        | none => ({ store with state := some schedule }, .error .counterOverflow)
        | some consecutiveFailures =>
          store.writeChanged { schedule with consecutiveFailures } write

def completeSuccessAt (nowUnixSeconds : UInt64) (write : ScrubWrite) :
    ScrubResult ScrubScheduleState :=
  store.finishAt nowUnixSeconds true write

def completeFailureAt (nowUnixSeconds : UInt64) (write : ScrubWrite) :
    ScrubResult ScrubScheduleState :=
  store.finishAt nowUnixSeconds false write

/-- The number of runs recovered. -/
def recoverStartupAt (nowUnixSeconds : UInt64) (write : ScrubWrite) : ScrubResult ℕ :=
  match store.state with
  | none => (store, .ok 0)
  | some schedule =>
    if schedule.runState ≠ .running then (store, .ok 0)
    else
      let schedule :=
        { schedule with
          runState := .idle
          nextDueUnixSeconds := min schedule.nextDueUnixSeconds nowUnixSeconds }
      match checkedAddU64 schedule.recoveredInterruptedRuns 1 with
      | none => ({ store with state := some schedule }, .error .counterOverflow)
      | some recoveredInterruptedRuns =>
        (store.writeChanged { schedule with recoveredInterruptedRuns } write).mapOk fun _ => 1

/-- The end of `execute_if_due_at`, once `catch_unwind` has the handler's return. -/
def endRun (nowUnixSeconds : UInt64) (returned : HandlerReturn) (write : ScrubWrite) :
    ScrubResult ScrubExecutionOutcome :=
  match returned with
  | .ok => (store.completeSuccessAt nowUnixSeconds write).mapOk .succeeded
  | .error => (store.completeFailureAt nowUnixSeconds write).mapOk (.failed · .handlerError)
  | .panicked => (store.completeFailureAt nowUnixSeconds write).mapOk (.failed · .handlerPanic)

def executeIfDueAt (nowUnixSeconds : UInt64) (scrub : ScrubScheduleState → HandlerReturn)
    (beginWrite endWrite : ScrubWrite) : ScrubResult ScrubExecutionOutcome :=
  match store.beginIfDueAt nowUnixSeconds beginWrite with
  | (store, .error error) => (store, .error error)
  | (store, .ok none) => (store, .ok .notDue)
  | (store, .ok (some running)) => store.endRun nowUnixSeconds (scrub running) endWrite

def openStore (file : Option Str) (nowUnixSeconds : UInt64) (write : ScrubWrite) :
    Except ScrubScheduleError ScrubScheduleStore := do
  let state ← readScrubScheduleRecord file
  match recoverStartupAt ⟨state, file⟩ nowUnixSeconds write with
  | (_, .error error) => .error error
  | (store, .ok _) => .ok store
end ScrubScheduleStore

/-- A call on the store, with the fate of each write it may come to. -/
inductive ScrubCall where
  | configureAt (intervalSeconds nowUnixSeconds : UInt64) (write : ScrubWrite)
  | beginIfDueAt (nowUnixSeconds : UInt64) (write : ScrubWrite)
  | completeSuccessAt (nowUnixSeconds : UInt64) (write : ScrubWrite)
  | completeFailureAt (nowUnixSeconds : UInt64) (write : ScrubWrite)
  | executeIfDueAt (nowUnixSeconds : UInt64) (scrub : ScrubScheduleState → HandlerReturn)
      (beginWrite endWrite : ScrubWrite)
  | recoverStartupAt (nowUnixSeconds : UInt64) (write : ScrubWrite)

inductive ScrubReply where
  | schedule (state : ScrubScheduleState)
  | begun (claimed : Option ScrubScheduleState)
  | executed (outcome : ScrubExecutionOutcome)
  | recovered (runs : ℕ)

def ScrubScheduleStore.call (store : ScrubScheduleStore) :
    ScrubCall → ScrubResult ScrubReply
  | .configureAt interval now write =>
    (store.configureAt interval now write).mapOk .schedule
  | .beginIfDueAt now write => (store.beginIfDueAt now write).mapOk .begun
  | .completeSuccessAt now write =>
    (store.completeSuccessAt now write).mapOk .schedule
  | .completeFailureAt now write =>
    (store.completeFailureAt now write).mapOk .schedule
  | .executeIfDueAt now scrub beginWrite endWrite =>
    (store.executeIfDueAt now scrub beginWrite endWrite).mapOk .executed
  | .recoverStartupAt now write =>
    (store.recoverStartupAt now write).mapOk .recovered

def ScrubScheduleStore.run (store : ScrubScheduleStore) (calls : List ScrubCall) :
    ScrubScheduleStore :=
  calls.foldl (fun store call => (store.call call).1) store

section Updates
variable {α β : Type} {store base : ScrubScheduleStore} {old schedule : ScrubScheduleState}
  {now : UInt64} {write : ScrubWrite} {lost lost' : Prop}
  {out : ScrubResult α}

/-- The schedule in memory is the one in the file. -/
def ScrubScheduleStore.Agrees (store : ScrubScheduleStore) : Prop :=
  readScrubScheduleRecord store.file = .ok store.state

/-- How a call can end that starts at `base`, where memory and file agree. A call is `lost` that
changes the schedule in memory and fails to write it. -/
inductive ScrubUpdate (base : ScrubScheduleStore) (lost : Prop) :
    ScrubResult α → Prop where
  | unchanged (kept : ¬lost) (result : Except ScrubScheduleError α) :
      ScrubUpdate base lost (base, result)
  | written {after : ScrubScheduleStore} (kept : ¬lost) (agrees : after.Agrees) (value : α) :
      ScrubUpdate base lost (after, .ok value)
  | stranded {after : ScrubScheduleStore} (happened : lost) (apart : ¬after.Agrees)
      (error : ScrubScheduleError) : ScrubUpdate base lost (after, .error error)

theorem ScrubUpdate.map (f : α → β) (update : ScrubUpdate base lost out) :
    ScrubUpdate base lost (out.mapOk f) := by
  cases update with
  | unchanged kept result => exact .unchanged kept _
  | written kept agrees value => exact .written kept agrees _
  | stranded happened apart error => exact .stranded happened apart error

theorem ScrubUpdate.congr (same : lost ↔ lost') (update : ScrubUpdate base lost out) :
    ScrubUpdate base lost' out := by
  rwa [← propext same]

section
variable (agrees : store.Agrees)
include agrees

theorem ScrubScheduleStore.Agrees.validate
    (shown : store.state = some schedule) : schedule.validate = .ok () := by
  rw [Agrees, shown] at agrees
  exact readScrubScheduleRecord_validate agrees

/-- Memory that has moved on from what the file holds. -/
theorem ScrubScheduleStore.Agrees.not_of_moved
    (shown : store.state = some old) (moved : schedule.runState ≠ old.runState) :
    ¬Agrees { store with state := some schedule } := by
  intro ahead
  have same : some old = some schedule := shown ▸ Except.ok.inj (agrees.symm.trans ahead)
  cases same
  exact moved rfl

theorem writeChanged_update (shown : store.state = some old)
    (moved : schedule.runState ≠ old.runState) (valid : schedule.validate = .ok ()) :
    ScrubUpdate base (write = .failed) (store.writeChanged schedule write) := by
  have encoded := encodeScrubScheduleRecord_eq_ok_iff.mpr ⟨valid, rfl⟩
  unfold writeChanged writeLocked
  rw [encoded]
  cases write with
  | stored =>
    have agrees : ScrubScheduleStore.Agrees ⟨some schedule, some (schedule.recordWith (zeros 4))⟩ :=
      readScrubScheduleRecord_encode encoded
    exact .written nofun agrees _
  | failed => exact .stranded rfl (agrees.not_of_moved shown moved) _

/-- A due run is claimed and the claim is not written. -/
def BeginLost (store : ScrubScheduleStore) (now : UInt64) (write : ScrubWrite) : Prop :=
  ∃ schedule, store.state = some schedule ∧ schedule.runState = .idle ∧
    schedule.nextDueUnixSeconds ≤ now ∧ write = .failed

/-- A run is finished and its end is not written: a sum overflows or the write fails. -/
def FinishLost (store : ScrubScheduleStore) (now : UInt64) (succeeded : Bool)
    (write : ScrubWrite) : Prop :=
  ∃ schedule, store.state = some schedule ∧ schedule.runState = .running ∧
    (checkedAddU64 now schedule.intervalSeconds = none ∨
      countedFailures schedule.consecutiveFailures succeeded = none ∨ write = .failed)

/-- A run is recovered and the recovery is not written. -/
def RecoverLost (store : ScrubScheduleStore) (write : ScrubWrite) : Prop :=
  ∃ schedule, store.state = some schedule ∧ schedule.runState = .running ∧
    (checkedAddU64 schedule.recoveredInterruptedRuns 1 = none ∨ write = .failed)

theorem beginIfDueAt_update :
    ScrubUpdate store (BeginLost store now write) (store.beginIfDueAt now write) := by
  unfold beginIfDueAt BeginLost
  cases shown : store.state with
  | none => exact .unchanged (by simp) _
  | some schedule =>
    dsimp only
    split_ifs with running due
    · exact .unchanged (by simp [running]) _
    · exact .unchanged (by simpa using fun _ early => absurd due (UInt64.not_lt.mpr early)) _
    · have idle : schedule.runState = .idle := by
        cases state : schedule.runState <;> simp_all
      obtain ⟨interval, _, failures⟩ :=
        validate_eq_ok_iff.mp (agrees.validate shown)
      apply ((writeChanged_update agrees shown _ _).map some).congr
      · simp [idle, UInt64.not_lt.mp due]
      · simp [idle]
      · exact validate_eq_ok_iff.mpr ⟨interval, by simp, failures⟩

omit agrees in
theorem countedFailures_le {failures counted : UInt32} {succeeded : Bool}
    (h : countedFailures failures succeeded = some counted) :
    counted ≤ maxConsecutiveScrubFailures := by
  unfold countedFailures at h
  split_ifs at h with done small
  · cases h
    decide
  · cases h
    exact small.2

theorem finishAt_running {succeeded : Bool}
    (shown : store.state = some schedule) (running : schedule.runState = .running) :
    ScrubUpdate base (FinishLost store now succeeded write)
      (store.finishAt now succeeded write) := by
  have moved : ScrubRunState.idle ≠ schedule.runState := by simp [running]
  have interval := (validate_eq_ok_iff.mp (agrees.validate shown)).1
  unfold finishAt FinishLost
  rw [shown]
  dsimp only
  rw [if_neg (not_not.mpr running)]
  cases due : checkedAddU64 now schedule.intervalSeconds with
  | none => exact .stranded ⟨_, rfl, running, .inl due⟩ (agrees.not_of_moved shown moved) _
  | some next =>
    cases counted : countedFailures schedule.consecutiveFailures succeeded with
    | none =>
      dsimp only
      exact .stranded ⟨_, rfl, running, .inr (.inl counted)⟩ (agrees.not_of_moved shown moved) _
    | some failures =>
      dsimp only
      apply (writeChanged_update agrees shown moved _).congr
      · simp [running, due, counted]
      · exact validate_eq_ok_iff.mpr
          ⟨interval, by simp, countedFailures_le counted⟩

theorem finishAt_update {succeeded : Bool} :
    ScrubUpdate store (FinishLost store now succeeded write)
      (store.finishAt now succeeded write) := by
  by_cases runs : ∃ schedule, store.state = some schedule ∧ schedule.runState = .running
  · obtain ⟨schedule, shown, running⟩ := runs
    exact finishAt_running agrees shown running
  · have kept : ¬FinishLost store now succeeded write := fun ⟨schedule, shown, running, _⟩ =>
      runs ⟨schedule, shown, running⟩
    unfold finishAt
    cases shown : store.state with
    | none => exact .unchanged kept _
    | some schedule =>
      dsimp only
      rw [if_pos fun running => runs ⟨schedule, shown, running⟩]
      exact .unchanged kept _

theorem recoverStartupAt_update :
    ScrubUpdate store (RecoverLost store write) (store.recoverStartupAt now write) := by
  unfold recoverStartupAt RecoverLost
  cases shown : store.state with
  | none => exact .unchanged (by simp) _
  | some schedule =>
    dsimp only
    split_ifs with idle
    · exact .unchanged (by simpa using fun running => absurd running idle) _
    have running := not_not.mp idle
    have moved : ScrubRunState.idle ≠ schedule.runState := by simp [running]
    obtain ⟨interval, _, failures⟩ :=
      validate_eq_ok_iff.mp (agrees.validate shown)
    cases counted : checkedAddU64 schedule.recoveredInterruptedRuns 1 with
    | none =>
      dsimp only
      exact .stranded ⟨_, rfl, running, .inl counted⟩ (agrees.not_of_moved shown moved) _
    | some runs =>
      dsimp only
      apply ((writeChanged_update agrees shown moved _).map _).congr
      · simp [running, counted]
      · exact validate_eq_ok_iff.mpr ⟨interval, by simp, failures⟩

theorem endRun_running {returned : HandlerReturn}
    (shown : store.state = some schedule) (running : schedule.runState = .running) :
    ScrubUpdate base (FinishLost store now (returned = .ok) write)
      (store.endRun now returned write) := by
  cases returned with
  | ok | error | panicked => exact (finishAt_running agrees shown running).map _
end

theorem writeChanged_cases (store : ScrubScheduleStore) (schedule : ScrubScheduleState)
    (write : ScrubWrite) :
    (∃ after error, store.writeChanged schedule write = (after, .error error)) ∨
      ∃ file, store.writeChanged schedule write = (⟨some schedule, file⟩, .ok schedule) := by
  unfold writeChanged writeLocked
  cases encodeScrubScheduleRecord schedule with
  | error error => exact .inl ⟨_, error, rfl⟩
  | ok bytes =>
    cases write with
    | stored => exact .inr ⟨some bytes, rfl⟩
    | failed => exact .inl ⟨_, .io, rfl⟩

theorem beginIfDueAt_claimed {after : ScrubScheduleStore}
    (begun : store.beginIfDueAt now write = (after, .ok (some schedule))) :
    after.state = some schedule ∧ schedule.runState = .running := by
  unfold beginIfDueAt at begun
  split at begun
  · cases begun
  rename_i before _
  split_ifs at begun
  · cases begun
  · cases begun
  dsimp only at begun
  rcases writeChanged_cases store { before with
      runState := .running, lastStartedUnixSeconds := some now } write with
    ⟨_, error, failed⟩ | ⟨file, stored⟩
  · rw [failed] at begun
    cases begun
  · rw [stored] at begun
    cases begun
    exact ⟨rfl, rfl⟩

/-- The claim is lost, or the handler runs and its end is. -/
def ExecuteLost (store : ScrubScheduleStore) (now : UInt64)
    (scrub : ScrubScheduleState → HandlerReturn) (beginWrite endWrite : ScrubWrite) : Prop :=
  BeginLost store now beginWrite ∨
    ∃ after running, store.beginIfDueAt now beginWrite = (after, .ok (some running)) ∧
      FinishLost after now (scrub running = .ok) endWrite

theorem executeIfDueAt_update (agrees : store.Agrees)
    (scrub : ScrubScheduleState → HandlerReturn) (endWrite : ScrubWrite) :
    ScrubUpdate store (ExecuteLost store now scrub write endWrite)
      (store.executeIfDueAt now scrub write endWrite) := by
  have update : ScrubUpdate store (BeginLost store now write) _ := beginIfDueAt_update agrees
  unfold executeIfDueAt ExecuteLost
  rcases begun : store.beginIfDueAt now write with ⟨after, error | _ | running⟩
  all_goals rw [begun] at update
  · cases update with
    | unchanged kept _ => exact .unchanged (by simpa using kept) _
    | stranded happened apart _ => exact .stranded (.inl happened) apart _
  · cases update with
    | unchanged kept _ => exact .unchanged (by simpa using kept) _
    | written kept agrees _ => exact .written (by simpa using kept) agrees _
  · obtain ⟨shown, runs⟩ := beginIfDueAt_claimed begun
    have agreesAfter : after.Agrees ∧ ¬BeginLost store now write := by
      cases update with
      | unchanged kept _ | written kept agrees _ => exact ⟨agrees, kept⟩
    apply (endRun_running agreesAfter.1 shown runs).congr
    simp [agreesAfter.2]

theorem configureAt_update (interval : UInt64) :
    ScrubUpdate store False (store.configureAt interval now write) := by
  unfold configureAt
  split
  · exact .unchanged not_false _
  rename_i configured _
  rw [writeLocked]
  cases encoded : encodeScrubScheduleRecord configured with
  | error error => exact .unchanged not_false _
  | ok bytes =>
    cases write with
    | stored =>
      have agrees : ScrubScheduleStore.Agrees ⟨some configured, some bytes⟩ :=
        readScrubScheduleRecord_encode encoded
      exact .written not_false agrees _
    | failed => exact .unchanged not_false _
end Updates

section Agreement
variable {store : ScrubScheduleStore} {call : ScrubCall}

/-- The call changes the schedule in memory and the change does not reach the file. -/
def ScrubScheduleStore.Loses (store : ScrubScheduleStore) : ScrubCall → Prop
  | .configureAt _ _ _ => False
  | .beginIfDueAt now write => BeginLost store now write
  | .completeSuccessAt now write => FinishLost store now true write
  | .completeFailureAt now write => FinishLost store now false write
  | .executeIfDueAt now scrub beginWrite endWrite =>
    ExecuteLost store now scrub beginWrite endWrite
  | .recoverStartupAt _ write => RecoverLost store write

/-- After the call memory and file agree; if it failed both are as before, and a run can be claimed
after a failed claim as it could without it. -/
structure ScrubScheduleStore.CallSound (store : ScrubScheduleStore) (call : ScrubCall) : Prop where
  agrees : (store.call call).1.Agrees
  unchanged : ∀ error, (store.call call).2 = .error error → (store.call call).1 = store
  claimable : ∀ now write error, call = .beginIfDueAt now write →
    (store.call call).2 = .error error → ∀ later fate,
      ((store.call call).1.beginIfDueAt later fate).2 = (store.beginIfDueAt later fate).2

theorem call_update (agrees : store.Agrees) (call : ScrubCall) :
    ScrubUpdate store (store.Loses call) (store.call call) := by
  cases call with
  | configureAt interval now write => exact (configureAt_update interval).map _
  | beginIfDueAt now write => exact (beginIfDueAt_update agrees).map _
  | completeSuccessAt now write | completeFailureAt now write =>
    exact (finishAt_update agrees).map _
  | executeIfDueAt now scrub beginWrite endWrite =>
    exact (executeIfDueAt_update agrees scrub endWrite).map _
  | recoverStartupAt now write => exact (recoverStartupAt_update agrees).map _

theorem callSound_iff (agrees : store.Agrees) : store.CallSound call ↔ ¬store.Loses call := by
  have update := call_update agrees call
  constructor
  · intro sound lost
    have after := sound.agrees
    generalize store.call call = out at update after
    cases update with
    | unchanged kept _ => exact kept lost
    | written kept _ _ => exact kept lost
    | stranded _ apart _ => exact apart after
  · intro kept
    have whole : (store.call call).1.Agrees ∧
        ∀ error, (store.call call).2 = .error error → (store.call call).1 = store := by
      generalize store.call call = out at update
      cases update with
      | unchanged _ _ => exact ⟨agrees, fun _ _ => rfl⟩
      | written _ agrees _ => exact ⟨agrees, nofun⟩
      | stranded happened _ _ => exact absurd happened kept
    refine ⟨whole.1, whole.2, ?_⟩
    intro now write error _ failed later fate
    rw [whole.2 error failed]

theorem openStore_agrees {file : Option Str} {now : UInt64} {write : ScrubWrite}
    (opened : openStore file now write = .ok store) : store.Agrees := by
  obtain ⟨state, read, recovered⟩ := Except.bind_eq_ok_iff.mp opened
  have agrees : ScrubScheduleStore.Agrees ⟨state, file⟩ := read
  have update : ScrubUpdate _ (RecoverLost _ write) (recoverStartupAt _ now _) :=
    recoverStartupAt_update agrees
  generalize recoverStartupAt _ now write = out at update recovered
  cases update with
  | unchanged _ result =>
    cases result with
    | error error => cases recovered
    | ok runs =>
      cases recovered
      exact agrees
  | written _ agrees _ =>
    cases recovered
    exact agrees
  | stranded _ _ _ => cases recovered

theorem ScrubScheduleStore.run_concat (calls : List ScrubCall) (call : ScrubCall) :
    store.run (calls ++ [call]) = ((store.run calls).call call).1 :=
  foldl_concat _ _ _ _

/-- Every call of a run keeps memory and file together, exactly when no call of the run changes the
schedule in memory and then fails. -/
theorem scrubSchedule_agrees_iff {file : Option Str} {now : UInt64} {write : ScrubWrite}
    (opened : openStore file now write = .ok store) (calls : List ScrubCall) :
    (∀ front call, front ++ [call] <+: calls → (store.run front).CallSound call) ↔
      ∀ front call, front ++ [call] <+: calls → ¬(store.run front).Loses call := by
  have reached (sound : ∀ front call, front ++ [call] <+: calls → (store.run front).Agrees →
      (store.run front).CallSound call) (front : List ScrubCall) (within : front <+: calls) :
      (store.run front).Agrees := by
    induction front using List.reverseRecOn with
    | nil => exact openStore_agrees opened
    | append_singleton front call ih =>
      rw [run_concat]
      exact (sound front call within (ih ((prefix_append _ _).trans within))).agrees
  constructor
  · intro sound front call within
    have agrees := reached (fun front call within _ => sound front call within) front
      ((prefix_append _ _).trans within)
    exact (callSound_iff agrees).mp (sound front call within)
  · intro kept front call within
    have agrees := reached (fun front call within agrees =>
      (callSound_iff agrees).mpr (kept front call within)) front
      ((prefix_append _ _).trans within)
    exact (callSound_iff agrees).mpr (kept front call within)

/-- An hourly schedule whose first run is claimed when it is due. -/
def claimedHour (write : ScrubWrite) : List ScrubCall :=
  [.configureAt 3600 3600 .stored, .beginIfDueAt 7200 write]

/-- The claim fails, the file says idle, and nothing can be claimed any more. -/
theorem claimedHour_failed_blocks : ∃ store : ScrubScheduleStore,
    openStore none 0 .stored = .ok store ∧
      readScrubScheduleRecord (store.run (claimedHour .failed)).file = .ok (some hourlyScrub) ∧
      ¬(store.run (claimedHour .failed)).Agrees ∧
      ((store.run (claimedHour .failed)).beginIfDueAt 7200 .stored).2 = .error .alreadyRunning := by
  have file : readScrubScheduleRecord
      (ScrubScheduleStore.run ⟨none, none⟩ (claimedHour .failed)).file = .ok
    (some hourlyScrub) := by
    decide +kernel
  refine ⟨⟨none, none⟩, by decide +kernel, file, ?_, by decide +kernel⟩
  rw [ScrubScheduleStore.Agrees, file]
  decide +kernel

theorem claimedHour_stored_agrees : ∃ store : ScrubScheduleStore,
    openStore none 0 .stored = .ok store ∧
      (store.run [.configureAt 3600 3600 .stored]).CallSound (.beginIfDueAt 7200 .stored) := by
  have opened : openStore none 0 .stored = .ok ⟨none, none⟩ := by decide +kernel
  refine ⟨_, opened, (scrubSchedule_agrees_iff opened (claimedHour .stored)).mpr ?_ _ _
    (prefix_refl _)⟩
  intro front call within lost
  have written : ∀ call ∈ claimedHour .stored, ∀ store : ScrubScheduleStore, ¬store.Loses call := by
    intro call member store
    simp only [claimedHour, mem_cons, not_mem_nil, or_false] at member
    rcases member with rfl | rfl
    · exact not_false
    · exact fun ⟨_, _, _, _, failed⟩ => by cases failed
  exact written call (within.subset (mem_append_right _ (mem_singleton_self _))) _ lost
end Agreement
end ReflinkForest
