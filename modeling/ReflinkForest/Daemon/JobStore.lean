import ReflinkForest.Daemon.JobRecord
import ReflinkForest.Lib.FinMap

/-! The durable job queue: one file for each job. A turn of a worker is two locked steps, the claim
and the recording of the result. -/
namespace ReflinkForest
open Bytes

/-- The bytes of each job's file. -/
abbrev JobDirectory := FinMap JobId Str

/-- What becomes of a record write that is reached. -/
inductive JobWrite where
  | stored
  | failed (error : JobError)

/-- What `catch_unwind` sees of a job handler. -/
inductive JobHandlerReturn where
  | ok
  | error (text : Str)
  | panicked

abbrev JobResult (α : Type) := JobDirectory × Except JobError α

namespace JobStore
variable (directory : JobDirectory)

def readRecordLocked (id : JobId) : Except JobError JobRecord := do
  let bytes ← .ofOption (.notFound id) (directory.lookup id)
  .require (bytes.length ≤ maxJobRecordLen) (.unsafeJobDirectoryEntry id)
  let record ← decodeJobRecord bytes
  .require (record.id = id) (.invalidRecord "record identifier does not match filename")
  .ok record

def listRecordsLocked : Except JobError (List JobRecord) :=
  ((directory.sortedBy fun entry => entry.1.bytes.toList).map Prod.fst).mapM
    (readRecordLocked directory)

def writeRecordLocked (record : JobRecord) (write : JobWrite) : JobResult Unit :=
  match encodeJobRecord record with
  | .error error => (directory, .error error)
  | .ok bytes =>
    match write with
    | .stored => (directory.insert record.id bytes, .ok ())
    | .failed error => (directory, .error error)

/-- Write a record that has been worked out, and return it. -/
def commit (change : Except JobError JobRecord) (write : JobWrite) : JobResult JobRecord :=
  match change with
  | .error error => (directory, .error error)
  | .ok record =>
    match writeRecordLocked directory record write with
    | (directory, .error error) => (directory, .error error)
    | (directory, .ok ()) => (directory, .ok record)

def executionFailureCapacity (record : JobRecord) : ℕ :=
  maxJobRecordLen - jobHeaderLen - jobTrailerLen - record.kind.length - record.payload.length

def ensureExecutionFailureSpace (record : JobRecord) : Except JobError Unit :=
  .require (executionFailureCapacity record ≠ 0)
    (.invalidRecord "job record leaves no room for an execution failure")

def boundedHandlerError (record : JobRecord) (error : Str) : Str :=
  (if error = [] then ascii "job handler returned an empty error" else error).take
    (executionFailureCapacity record)

def requireTransition (record : JobRecord) (expected target : JobState) : Except JobError Unit :=
  .require (record.state = expected) (.invalidTransition record.id record.state target)

def enqueueNew (id : JobId) (kind payload : Str) (write : JobWrite) : JobResult JobRecord :=
  let record := JobRecord.queued id kind payload
  commit directory (ensureExecutionFailureSpace record >>= fun _ => .ok record) write

/-- The identifiers drawn are tried in turn until one is free. -/
def enqueueDrawn (directory : JobDirectory) (kind payload : Str) (write : JobWrite) :
    List (Except JobError JobId) → JobResult JobRecord
  | [] => (directory, .error .io)
  | .error error :: _ => (directory, .error error)
  | .ok id :: draws =>
    if (directory.lookup id).isSome then enqueueDrawn directory kind payload write draws
    else enqueueNew directory id kind payload write

def enqueue (random : ℕ → Except JobError JobId) (kind payload : Str) (write : JobWrite) :
    JobResult JobRecord :=
  enqueueDrawn directory kind payload write ((List.range 32).map random)

def enqueueWithId (id : JobId) (kind payload : Str) (write : JobWrite) : JobResult JobRecord :=
  if (directory.lookup id).isSome then (directory, .error (.alreadyExists id))
  else enqueueNew directory id kind payload write

/-- The record with one more attempt, running. -/
def running (record : JobRecord) : Except JobError JobRecord := do
  .require (record.attempts.toNat + 1 < 2 ^ 32) (.attemptOverflow record.id)
  .ok { record with attempts := record.attempts + 1, state := .running }

def claimNextMatching (accepts : JobRecord → Bool) (write : JobWrite) :
    JobResult (Option JobRecord) :=
  match listRecordsLocked directory with
  | .error error => (directory, .error error)
  | .ok records =>
    match records.find? fun record => record.state = .queued && accepts record with
    | none => (directory, .ok none)
    | some record =>
      (commit directory (ensureExecutionFailureSpace record >>= fun _ => running record)
        write).mapOk some

def claimNext (write : JobWrite) : JobResult (Option JobRecord) :=
  claimNextMatching directory (fun _ => true) write

def update (id : JobId) (change : JobRecord → Except JobError JobRecord) (write : JobWrite) :
    JobResult JobRecord :=
  commit directory (readRecordLocked directory id >>= change) write

def start (id : JobId) (write : JobWrite) : JobResult JobRecord :=
  update directory id (fun record => do
    requireTransition record .queued .running
    running record) write

def succeed (id : JobId) (write : JobWrite) : JobResult JobRecord :=
  update directory id (fun record => do
    requireTransition record .running .succeeded
    .ok { record with state := .succeeded, lastError := none }) write

def fail (id : JobId) (error : Str) (write : JobWrite) : JobResult JobRecord :=
  if error = [] then (directory, .error (.invalidRecord "failure error is empty"))
  else
    update directory id (fun record => do
      requireTransition record .running .failed
      .ok { record with state := .failed, lastError := some error }) write

def retry (id : JobId) (write : JobWrite) : JobResult JobRecord :=
  update directory id (fun record => do
    requireTransition record .failed .queued
    .ok { record with state := .queued }) write

/-- The second locked step of `execute_next_matching`. -/
def finishTurn (claimed : JobRecord) (result : JobHandlerReturn) (write : JobWrite) :
    JobResult JobRecord :=
  match result with
  | .ok => succeed directory claimed.id write
  | .error text => fail directory claimed.id (boundedHandlerError claimed text) write
  | .panicked =>
    fail directory claimed.id (boundedHandlerError claimed (ascii "job handler panicked")) write

/-- One write for each running record; the first that fails ends the recovery. -/
def recoverRecords : JobDirectory → List JobRecord → List JobWrite →
    JobResult ℕ
  | directory, [], _ => (directory, .ok 0)
  | directory, record :: records, writes =>
    if record.state = .running then
      match writeRecordLocked directory { record with state := .queued }
          (writes.headD .stored) with
      | (directory, .error error) => (directory, .error error)
      | (directory, .ok ()) =>
        (recoverRecords directory records writes.tail).mapOk (· + 1)
    else recoverRecords directory records writes

def recoverStartup (writes : List JobWrite) : JobResult ℕ :=
  match listRecordsLocked directory with
  | .error error => (directory, .error error)
  | .ok records => recoverRecords directory records writes
end JobStore

end ReflinkForest
