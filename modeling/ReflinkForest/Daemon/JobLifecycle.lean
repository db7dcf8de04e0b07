import ReflinkForest.Daemon.JobStore

/-! The life of a durable job under every interleaving of the queue's locked steps, failing writes,
and crashes followed by recovery. -/
namespace ReflinkForest
open Bytes JobStore List
open Except hiding error

/-- The directory and the claimed records whose handlers are running. -/
structure JobSystem where
  directory : JobDirectory
  turns : List JobRecord

inductive JobEvent where
  | enqueue (random : ℕ → Except JobError JobId) (kind payload : Str) (write : JobWrite)
  | enqueueWithId (id : JobId) (kind payload : Str) (write : JobWrite)
  | claimNext (write : JobWrite)
  | start (id : JobId) (write : JobWrite)
  | succeed (id : JobId) (write : JobWrite)
  | fail (id : JobId) (error : Str) (write : JobWrite)
  | retry (id : JobId) (write : JobWrite)
  | beginTurn (accepts : JobRecord → Bool) (write : JobWrite)
  | endTurn (claimed : JobRecord) (result : JobHandlerReturn) (write : JobWrite)
  | crash (writes : List JobWrite)

def JobEvent.Recovers : JobEvent → Prop
  | .crash _ => True
  | _ => False

namespace JobSystem
def after (s : JobSystem) : JobEvent → JobDirectory
  | .enqueue random kind payload write => (JobStore.enqueue s.directory random kind payload write).1
  | .enqueueWithId id kind payload write =>
    (JobStore.enqueueWithId s.directory id kind payload write).1
  | .claimNext write => (JobStore.claimNext s.directory write).1
  | .start id write => (JobStore.start s.directory id write).1
  | .succeed id write => (JobStore.succeed s.directory id write).1
  | .fail id error write => (JobStore.fail s.directory id error write).1
  | .retry id write => (JobStore.retry s.directory id write).1
  | .beginTurn accepts write => (claimNextMatching s.directory accepts write).1
  | .endTurn claimed result write =>
    if claimed ∈ s.turns then (finishTurn s.directory claimed result write).1 else s.directory
  | .crash writes => (recoverStartup s.directory writes).1

/-- The record that a claim or a start returns. -/
def claimed (s : JobSystem) : JobEvent → Option JobRecord
  | .claimNext write => (JobStore.claimNext s.directory write).2.toOption.join
  | .start id write => (JobStore.start s.directory id write).2.toOption
  | .beginTurn accepts write => (claimNextMatching s.directory accepts write).2.toOption.join
  | _ => none

def turnsAfter (s : JobSystem) : JobEvent → List JobRecord
  | .beginTurn accepts write => (s.claimed (.beginTurn accepts write)).toList ++ s.turns
  | .endTurn claimed _ _ => s.turns.erase claimed
  | .crash _ => []
  | _ => s.turns

def step (s : JobSystem) (event : JobEvent) : JobSystem := ⟨s.after event, s.turnsAfter event⟩

def run (s : JobSystem) (events : List JobEvent) : JobSystem := events.foldl step s

/-- The records that the claims and starts of a run return, in order. -/
def claims (s : JobSystem) : List JobEvent → List JobRecord
  | [] => []
  | event :: events => (s.claimed event).toList ++ (s.step event).claims events
end JobSystem

/-- The record of a job, if its file holds one. -/
def jobRecord (directory : JobDirectory) (id : JobId) : Option JobRecord :=
  (readRecordLocked directory id).toOption

/-- Every file of the directory holds the record of its job. -/
def JobDirectory.Sound (directory : JobDirectory) : Prop :=
  ∀ id bytes, directory.lookup id = some bytes → ∃ record, jobRecord directory id = some record

/-- What a step may do to a stored record. -/
structure RecordKept (recovers : Prop) (old new : JobRecord) : Prop where
  id_eq : new.id = old.id
  kind_eq : new.kind = old.kind
  payload_eq : new.payload = old.payload
  state : new = old ∨
    old.state = .queued ∧ new.state = .running ∨
    old.state = .running ∧ (new.state = .succeeded ∨ new.state = .failed) ∨
    old.state = .failed ∧ new.state = .queued ∨
    recovers ∧ old.state = .running ∧ new.state = .queued
  attempts : new.attempts.toNat =
    old.attempts.toNat + if old.state ≠ .running ∧ new.state = .running then 1 else 0

/-- What a step may do to the file of a job. -/
inductive RecordStep (recovers : Prop) : Option JobRecord → Option JobRecord → Prop where
  | kept {old new : JobRecord} (kept : RecordKept recovers old new) :
      RecordStep recovers (some old) (some new)
  | absent : RecordStep recovers none none
  | created (id : JobId) (kind payload : Str) :
      RecordStep recovers none (some (JobRecord.queued id kind payload))

section Writes
variable {directory : JobDirectory} {id : JobId} {record old new : JobRecord} {bytes : Str}
  {write : JobWrite} {recovers : Prop}

theorem jobRecord_eq_some_iff : jobRecord directory id = some record ↔
    ∃ bytes, directory.lookup id = some bytes ∧ bytes.length ≤ maxJobRecordLen ∧
      decodeJobRecord bytes = .ok record ∧ record.id = id := by
  rw [jobRecord, toOption_eq_some, readRecordLocked]
  simp only [Except.bind_eq_ok_iff, ofOption_eq_ok, require_eq_ok, Except.ok.injEq,
    exists_const]
  constructor
  · rintro ⟨bytes, found, short, read, decoded, named, rfl⟩
    exact ⟨bytes, found, short, decoded, named⟩
  · rintro ⟨bytes, found, short, decoded, named⟩
    exact ⟨bytes, found, short, record, decoded, named, rfl⟩

theorem jobRecord_id (h : jobRecord directory id = some record) : record.id = id := by
  obtain ⟨_, _, _, _, named⟩ := jobRecord_eq_some_iff.mp h
  exact named

theorem jobRecord_encodes (h : jobRecord directory id = some record) :
    record.Valid ∧ record.Fits := by
  obtain ⟨_, _, _, decoded, _⟩ := jobRecord_eq_some_iff.mp h
  obtain ⟨valid, fits, _⟩ := encodeJobRecord_eq_ok_iff.mp (decodeJobRecord_eq_ok_iff.mp decoded)
  exact ⟨valid, fits⟩

theorem jobRecord_valid (h : jobRecord directory id = some record) : record.Valid :=
  (jobRecord_encodes h).1

theorem length_of_encodeJobRecord (h : encodeJobRecord record = .ok bytes) :
    bytes.length ≤ maxJobRecordLen := by
  obtain ⟨_, fits, rfl⟩ := encodeJobRecord_eq_ok_iff.mp h
  exact (JobRecord.encoding_eq_iff.mp rfl).1 ▸ fits

theorem jobRecord_insert (h : encodeJobRecord record = .ok bytes) (id : JobId) :
    jobRecord (directory.insert record.id bytes) id =
      if id = record.id then some record else jobRecord directory id := by
  split
  · rename_i same
    subst same
    exact jobRecord_eq_some_iff.mpr ⟨bytes, AList.lookup_insert _, length_of_encodeJobRecord h,
      decodeJobRecord_eq_ok_iff.mpr h, rfl⟩
  · rename_i other
    rw [jobRecord, jobRecord, readRecordLocked, readRecordLocked, AList.lookup_insert_ne other]

theorem JobDirectory.Sound.insert (sound : directory.Sound)
    (h : encodeJobRecord record = .ok bytes) :
    JobDirectory.Sound (directory.insert record.id bytes) := by
  intro id stored found
  rw [jobRecord_insert h]
  rw [FinMap.lookup_insert_eq] at found
  split at found
  · rename_i same
    exact ⟨record, if_pos same⟩
  · rename_i other
    obtain ⟨current, read⟩ := sound id stored found
    exact ⟨current, (if_neg other).trans read⟩

theorem RecordKept.refl (record : JobRecord) : RecordKept recovers record record where
  id_eq := rfl
  kind_eq := rfl
  payload_eq := rfl
  state := .inl rfl
  attempts := by
    rw [if_neg]
    · rfl
    · exact fun both => both.1 both.2

theorem RecordStep.refl (stored : Option JobRecord) : RecordStep recovers stored stored := by
  cases stored with
  | none => exact .absent
  | some record => exact .kept (.refl record)

/-- A directory and its successor: still sound, and every file changed as it may. -/
structure DirectoryStep (recovers : Prop) (before after : JobDirectory) : Prop where
  sound : JobDirectory.Sound after
  record : ∀ id, RecordStep recovers (jobRecord before id) (jobRecord after id)

theorem DirectoryStep.refl (sound : directory.Sound) :
    DirectoryStep recovers directory directory :=
  ⟨sound, fun _ => .refl _⟩

/-- Two steps in which no file changes twice are one. -/
theorem DirectoryStep.trans {before middle after : JobDirectory}
    (first : DirectoryStep recovers before middle) (rest : DirectoryStep recovers middle after)
    (apart : ∀ id, jobRecord middle id = jobRecord before id ∨
      jobRecord after id = jobRecord middle id) : DirectoryStep recovers before after := by
  refine ⟨rest.sound, ?_⟩
  intro id
  rcases apart id with same | same
  · rw [← same]
    exact rest.record id
  · rw [same]
    exact first.record id

theorem jobWrite_cases (directory : JobDirectory) (record : JobRecord) (write : JobWrite) :
    (∃ error, writeRecordLocked directory record write = (directory, .error error)) ∨
      ∃ bytes, encodeJobRecord record = .ok bytes ∧
        writeRecordLocked directory record write = (directory.insert record.id bytes, .ok ()) := by
  rw [writeRecordLocked]
  cases encodeJobRecord record with
  | error error => exact .inl ⟨error, rfl⟩
  | ok bytes =>
    cases write with
    | stored => exact .inr ⟨bytes, rfl, rfl⟩
    | failed error => exact .inl ⟨error, rfl⟩

/-- What is written on top of the directory's own record of the job is a step. -/
theorem directoryStep_insert (sound : directory.Sound)
    (encoded : encodeJobRecord record = .ok bytes)
    (allowed : RecordStep recovers (jobRecord directory record.id) (some record)) :
    DirectoryStep recovers directory (directory.insert record.id bytes) := by
  refine ⟨sound.insert encoded, ?_⟩
  intro id
  rw [jobRecord_insert encoded]
  split
  · rename_i same
    rw [same]
    exact allowed
  · exact .refl _

variable {change : Except JobError JobRecord}

theorem commit_directoryStep
    (sound : directory.Sound)
    (allowed : ∀ record, change = .ok record →
      RecordStep recovers (jobRecord directory record.id) (some record)) :
    DirectoryStep recovers directory (commit directory change write).1 := by
  cases change with
  | error error => exact .refl sound
  | ok record =>
    rcases jobWrite_cases directory record write with ⟨error, failed⟩ | ⟨bytes, encoded, stored⟩
    · rw [commit, failed]
      exact .refl sound
    · rw [commit, stored]
      exact directoryStep_insert sound encoded (allowed record rfl)

theorem commit_eq_ok (h : (commit directory change write).2 = .ok record) :
    change = .ok record ∧ jobRecord (commit directory change write).1 record.id = some record := by
  cases change with
  | error error => cases h
  | ok new =>
    rcases jobWrite_cases directory new write with ⟨error, failed⟩ | ⟨bytes, encoded, stored⟩
    · rw [commit, failed] at h
      cases h
    · rw [commit, stored] at h ⊢
      cases h
      exact ⟨rfl, by rw [jobRecord_insert encoded, if_pos rfl]⟩
end Writes

section Steps
variable {directory : JobDirectory} {id : JobId} {record old new : JobRecord} {write : JobWrite}
  {recovers : Prop}

theorem running_eq_ok (h : running old = .ok new) : new.id = old.id ∧ new.kind = old.kind ∧
    new.payload = old.payload ∧ new.state = .running ∧
    new.attempts.toNat = old.attempts.toNat + 1 := by
  simp only [running, Except.bind_eq_ok_iff, require_eq_ok, Except.ok.injEq] at h
  obtain ⟨_, room, rfl⟩ := h
  refine ⟨rfl, rfl, rfl, rfl, ?_⟩
  rw [UInt32.toNat_add, UInt32.toNat_one, Nat.mod_eq_of_lt room]

theorem recordKept_running (state : old.state = .queued) (h : running old = .ok new) :
    RecordKept recovers old new := by
  obtain ⟨named, kind, payload, running, attempts⟩ := running_eq_ok h
  refine ⟨named, kind, payload, .inr (.inl ⟨state, running⟩), ?_⟩
  rw [attempts, if_pos ⟨by simp [state], running⟩]

section
variable (sound : JobDirectory.Sound directory)
include sound

theorem directoryStep_update {change : JobRecord → Except JobError JobRecord}
    (allowed : ∀ old new, change old = .ok new → RecordKept recovers old new) :
    DirectoryStep recovers directory (update directory id change write).1 := by
  apply commit_directoryStep sound
  intro new computed
  obtain ⟨old, read, changed⟩ := Except.bind_eq_ok_iff.mp computed
  have kept := allowed old new changed
  have stored : jobRecord directory id = some old := toOption_eq_some.mpr read
  rw [kept.id_eq, jobRecord_id stored, stored]
  exact .kept kept

theorem start_directoryStep :
    DirectoryStep recovers directory (start directory id write).1 := by
  apply directoryStep_update sound
  intro old new changed
  simp only [requireTransition, require_bind_eq_ok] at changed
  exact recordKept_running changed.1 changed.2

theorem directoryStep_transition {source target : JobState} {change : JobRecord → JobRecord}
    (allowed : ∀ old, old.state = source → RecordKept recovers old (change old)) :
    DirectoryStep recovers directory (update directory id (fun record =>
      requireTransition record source target >>= fun _ => .ok (change record)) write).1 := by
  apply directoryStep_update sound
  intro old new changed
  simp only [requireTransition, require_bind_eq_ok, Except.ok.injEq] at changed
  obtain ⟨state, rfl⟩ := changed
  exact allowed old state

theorem succeed_directoryStep :
    DirectoryStep recovers directory (succeed directory id write).1 :=
  directoryStep_transition sound fun _ state => ⟨rfl, rfl, rfl, by simp [state], by simp⟩

theorem fail_directoryStep {error : Str} :
    DirectoryStep recovers directory (fail directory id error write).1 := by
  rw [fail]
  split
  · exact .refl sound
  · exact directoryStep_transition sound fun _ state => ⟨rfl, rfl, rfl, by simp [state], by simp⟩

theorem retry_directoryStep :
    DirectoryStep recovers directory (retry directory id write).1 :=
  directoryStep_transition sound fun _ state => ⟨rfl, rfl, rfl, by simp [state], by simp⟩
end

variable {kind payload : Str} {records : List JobRecord}

section
variable (sound : JobDirectory.Sound directory)
include sound

theorem enqueueNew_directoryStep
    (free : ¬(directory.lookup id).isSome) :
    DirectoryStep recovers directory (enqueueNew directory id kind payload write).1 := by
  apply commit_directoryStep sound
  intro record computed
  simp only [Except.bind_eq_ok_iff, Except.ok.injEq] at computed
  obtain ⟨_, _, rfl⟩ := computed
  have absent : jobRecord directory (JobRecord.queued id kind payload).id = none := by
    rw [Option.not_isSome_iff_eq_none] at free
    simp [jobRecord, readRecordLocked, JobRecord.queued, free, Except.toOption]
  rw [absent]
  exact .created id kind payload

theorem enqueueDrawn_directoryStep
    (draws : List (Except JobError JobId)) :
    DirectoryStep recovers directory (enqueueDrawn directory kind payload write draws).1 := by
  induction draws with
  | nil => exact .refl sound
  | cons draw draws ih =>
    cases draw with
    | error error => exact .refl sound
    | ok id =>
      rw [enqueueDrawn]
      split
      · exact ih
      · rename_i free
        exact enqueueNew_directoryStep sound free

theorem enqueueWithId_directoryStep :
    DirectoryStep recovers directory
      (enqueueWithId directory id kind payload write).1 := by
  rw [enqueueWithId]
  split
  · exact .refl sound
  · rename_i free
    exact enqueueNew_directoryStep sound free

omit sound in
theorem listRecordsLocked_eq_ok (h : listRecordsLocked directory = .ok records) :
    (∀ record ∈ records, jobRecord directory record.id = some record) ∧
      (records.map JobRecord.id).Nodup := by
  have listed := mapM_eq_ok_iff.mp h
  have nodup := FinMap.nodup_keys_sortedBy (fun entry => entry.1.bytes.toList) directory
  generalize (directory.sortedBy fun entry => entry.1.bytes.toList).map Prod.fst = ids
    at listed nodup
  clear h
  suffices named : records.map JobRecord.id = ids ∧
      ∀ record ∈ records, jobRecord directory record.id = some record from
    ⟨named.2, named.1 ▸ nodup⟩
  clear nodup
  induction listed with
  | nil => simp
  | @cons id record ids records read _ ih =>
    have stored : jobRecord directory id = some record := toOption_eq_some.mpr read
    have named := jobRecord_id stored
    refine ⟨by rw [map_cons, ih.1, named], forall_mem_cons.mpr ⟨?_, ih.2⟩⟩
    rw [named, stored]

/-- The first queued record that a worker accepts. -/
def NextJob (directory : JobDirectory) (accepts : JobRecord → Bool) (record : JobRecord) : Prop :=
  ∃ records, listRecordsLocked directory = .ok records ∧
    (records.find? fun record => record.state = .queued && accepts record) = some record

omit sound in
theorem NextJob.stored {accepts : JobRecord → Bool} (next : NextJob directory accepts record) :
    jobRecord directory record.id = some record ∧ record.state = .queued := by
  obtain ⟨records, listed, found⟩ := next
  have accepted := List.find?_some found
  simp only [Bool.and_eq_true, decide_eq_true_eq] at accepted
  exact ⟨(listRecordsLocked_eq_ok listed).1 record (mem_of_find?_eq_some found), accepted.1⟩

omit sound in
theorem NextJob.claimNextMatching {accepts : JobRecord → Bool}
    (next : NextJob directory accepts record) : claimNextMatching directory accepts write =
      (commit directory (ensureExecutionFailureSpace record >>= fun _ => running record)
        write).mapOk some := by
  obtain ⟨records, listed, found⟩ := next
  rw [JobStore.claimNextMatching, listed]
  dsimp only
  rw [found]

omit sound in
theorem claimNextMatching_cases (accepts : JobRecord → Bool) :
    (claimNextMatching directory accepts write).1 = directory ∧
        (claimNextMatching directory accepts write).2.toOption.join = none ∨
      ∃ record, NextJob directory accepts record := by
  unfold claimNextMatching
  split
  · exact .inl ⟨rfl, rfl⟩
  rename_i records listed
  split
  · exact .inl ⟨rfl, rfl⟩
  rename_i record found
  exact .inr ⟨record, records, listed, found⟩

theorem claimNextMatching_directoryStep
    (accepts : JobRecord → Bool) :
    DirectoryStep recovers directory (claimNextMatching directory accepts write).1 := by
  rcases claimNextMatching_cases accepts with ⟨same, _⟩ | ⟨record, next⟩
  · rw [same]
    exact .refl sound
  · obtain ⟨stored, state⟩ := next.stored
    rw [next.claimNextMatching]
    apply commit_directoryStep sound
    intro new computed
    obtain ⟨_, _, changed⟩ := Except.bind_eq_ok_iff.mp computed
    have kept : RecordKept recovers record new := recordKept_running state changed
    rw [kept.id_eq, stored]
    exact .kept kept

omit sound in
theorem recordKept_recovered (state : old.state = .running) :
    RecordKept True old { old with state := .queued } :=
  ⟨rfl, rfl, rfl, by simp [state], by simp⟩

/-- Recovery requeues records of the list and touches no other file. -/
theorem recoverRecords_step
    (stored : ∀ record ∈ records, jobRecord directory record.id = some record)
    (distinct : (records.map JobRecord.id).Nodup) (writes : List JobWrite) :
    DirectoryStep True directory (recoverRecords directory records writes).1 ∧
      ∀ id ∉ records.map JobRecord.id,
        jobRecord (recoverRecords directory records writes).1 id = jobRecord directory id := by
  induction records generalizing directory writes with
  | nil => exact ⟨.refl sound, fun _ _ => rfl⟩
  | cons record records ih =>
    obtain ⟨here, later⟩ := forall_mem_cons.mp stored
    rw [map_cons, nodup_cons] at distinct
    rw [recoverRecords]
    split
    · rename_i state
      rcases jobWrite_cases directory { record with state := .queued } (writes.headD .stored) with
        ⟨error, failed⟩ | ⟨bytes, encoded, written⟩
      · rw [failed]
        exact ⟨.refl sound, fun _ _ => rfl⟩
      · rw [written]
        have first : DirectoryStep True directory
            (directory.insert (JobRecord.id { record with state := .queued }) bytes) := by
          apply directoryStep_insert sound encoded
          rw [here]
          exact .kept (recordKept_recovered state)
        have other {id : JobId} (ne : id ≠ record.id) :
            jobRecord (directory.insert (JobRecord.id { record with state := .queued }) bytes) id =
              jobRecord directory id := by
          rw [jobRecord_insert encoded, if_neg ne]
        have still : ∀ later ∈ records, jobRecord
            (directory.insert (JobRecord.id { record with state := .queued }) bytes) later.id =
              some later := by
          intro next mem
          rw [other, later next mem]
          intro same
          exact distinct.1 (same ▸ mem_map_of_mem mem)
        obtain ⟨rest, untouched⟩ := ih first.sound still distinct.2 writes.tail
        refine ⟨first.trans rest ?_, ?_⟩
        · intro id
          by_cases same : id = record.id
          · exact .inr (untouched id (same ▸ distinct.1))
          · exact .inl (other same)
        · intro id outside
          rw [map_cons, mem_cons, not_or] at outside
          exact (untouched id outside.2).trans (other outside.1)
    · obtain ⟨rest, untouched⟩ := ih sound later distinct.2 writes
      refine ⟨rest, ?_⟩
      intro id outside
      rw [map_cons, mem_cons, not_or] at outside
      exact untouched id outside.2

theorem recoverStartup_directoryStep
    (writes : List JobWrite) :
    DirectoryStep True directory (recoverStartup directory writes).1 := by
  rw [recoverStartup]
  split
  · exact .refl sound
  · rename_i records listed
    obtain ⟨stored, distinct⟩ := listRecordsLocked_eq_ok listed
    exact (recoverRecords_step sound stored distinct writes).1
end

/-- Every event takes a sound directory to a sound one and changes each file as it may. -/
theorem event_directoryStep {s : JobSystem} (sound : JobDirectory.Sound s.directory)
    (event : JobEvent) : DirectoryStep event.Recovers s.directory (s.after event) := by
  cases event with
  | enqueue random kind payload write => exact enqueueDrawn_directoryStep sound _
  | enqueueWithId id kind payload write => exact enqueueWithId_directoryStep sound
  | claimNext write | beginTurn accepts write => exact claimNextMatching_directoryStep sound _
  | start id write => exact start_directoryStep sound
  | succeed id write => exact succeed_directoryStep sound
  | fail id error write => exact fail_directoryStep sound
  | retry id write => exact retry_directoryStep sound
  | crash writes => exact recoverStartup_directoryStep sound writes
  | endTurn claimed result write =>
    rw [JobSystem.after]
    split
    · cases result with
      | ok => exact succeed_directoryStep sound
      | error text | panicked => exact fail_directoryStep sound
    · exact .refl sound

/-- A claim or a start returns the stored record, with one attempt more than before. -/
def ClaimedFrom (before after : JobDirectory) (claim : JobRecord) : Prop :=
  ∃ old, jobRecord before claim.id = some old ∧ jobRecord after claim.id = some claim ∧
    claim.attempts.toNat = old.attempts.toNat + 1

theorem claimedFrom_commit {change : Except JobError JobRecord}
    (computed : ∀ new, change = .ok new → ∃ old, jobRecord directory old.id = some old ∧
      running old = .ok new) (returned : (commit directory change write).2 = .ok record) :
    ClaimedFrom directory (commit directory change write).1 record := by
  obtain ⟨ok, written⟩ := commit_eq_ok returned
  obtain ⟨old, stored, changed⟩ := computed record ok
  obtain ⟨named, _, _, _, attempts⟩ := running_eq_ok changed
  exact ⟨old, named ▸ stored, written, attempts⟩

theorem toOption_join_map {result : Except JobError JobRecord} :
    (result.map some).toOption.join = result.toOption := by
  cases result <;> rfl

theorem claimedFrom_claimNextMatching (accepts : JobRecord → Bool)
    (returned : (claimNextMatching directory accepts write).2.toOption.join = some record) :
    ClaimedFrom directory (claimNextMatching directory accepts write).1 record := by
  rcases claimNextMatching_cases accepts with ⟨_, none⟩ | ⟨old, next⟩
  · rw [none] at returned
    cases returned
  · rw [next.claimNextMatching] at returned ⊢
    apply claimedFrom_commit
    · intro new computed
      obtain ⟨_, _, changed⟩ := Except.bind_eq_ok_iff.mp computed
      exact ⟨old, next.stored.1, changed⟩
    · exact toOption_eq_some.mp (toOption_join_map.symm.trans returned)

theorem claimedFrom_start (returned : (start directory id write).2.toOption = some record) :
    ClaimedFrom directory (start directory id write).1 record := by
  apply claimedFrom_commit _ (toOption_eq_some.mp returned)
  intro new computed
  obtain ⟨old, read, changed⟩ := Except.bind_eq_ok_iff.mp computed
  simp only [requireTransition, require_bind_eq_ok] at changed
  have stored : jobRecord directory id = some old := toOption_eq_some.mpr read
  exact ⟨old, by rw [jobRecord_id stored, stored], changed.2⟩

theorem event_claimedFrom {s : JobSystem} {event : JobEvent}
    (returned : s.claimed event = some record) :
    ClaimedFrom s.directory (s.after event) record := by
  cases event with
  | claimNext write | beginTurn accepts write => exact claimedFrom_claimNextMatching _ returned
  | start id write => exact claimedFrom_start returned
  | _ => cases returned
end Steps

section Lifecycle
variable {s start : JobSystem} {events front : List JobEvent}

theorem run_sound (sound : JobDirectory.Sound s.directory) (events : List JobEvent) :
    JobDirectory.Sound (s.run events).directory := by
  induction events generalizing s with
  | nil => exact sound
  | cons event events ih => exact ih (event_directoryStep sound event).sound

theorem run_concat (event : JobEvent) : s.run (front ++ [event]) = (s.run front).step event :=
  foldl_concat _ _ _ _

theorem RecordStep.of_some {recovers : Prop} {old : JobRecord} {stored : Option JobRecord}
    (step : RecordStep recovers (some old) stored) :
    ∃ new, stored = some new ∧ RecordKept recovers old new := by
  cases step with
  | kept kept => exact ⟨_, rfl, kept⟩

/-- Claims and starts of a stored job carry higher attempt numbers than its record. -/
theorem claims_above (sound : JobDirectory.Sound s.directory) {id : JobId} {current : JobRecord}
    (stored : jobRecord s.directory id = some current) :
    ∀ claim ∈ s.claims events, claim.id = id →
      current.attempts.toNat < claim.attempts.toNat := by
  induction events generalizing s current with
  | nil => simp [JobSystem.claims]
  | cons event events ih =>
    intro claim mem named
    have step := event_directoryStep sound event
    obtain ⟨next, kept, unchanged⟩ := (stored ▸ step.record id).of_some
    rcases mem_append.mp mem with now | later
    · obtain ⟨old, before, _, attempts⟩ := event_claimedFrom (Option.mem_toList.mp now)
      rw [named, stored] at before
      cases before
      omega
    · have above := ih step.sound kept claim later named
      have grows := unchanged.attempts
      split at grows <;> omega

theorem claims_nodup (sound : JobDirectory.Sound s.directory) (events : List JobEvent) :
    ((s.claims events).map fun claim => (claim.id, claim.attempts)).Nodup := by
  induction events generalizing s with
  | nil => exact nodup_nil
  | cons event events ih =>
    have step := event_directoryStep sound event
    have rest := ih (s := s.step event) step.sound
    rw [JobSystem.claims]
    cases returned : s.claimed event with
    | none => exact rest
    | some claim =>
      obtain ⟨_, _, stored, _⟩ := event_claimedFrom returned
      refine nodup_cons.mpr ⟨?_, rest⟩
      intro again
      obtain ⟨later, mem, same⟩ := mem_map.mp again
      obtain ⟨named, attempts⟩ := Prod.mk.inj same
      have above := claims_above (s := s.step event) step.sound stored later mem named
      rw [attempts] at above
      exact absurd above (lt_irrefl _)

/-- Along every run each stored job is valid and changes only as its lifecycle allows, and no two
claims or starts of a job carry one attempt number. -/
theorem jobStore_lifecycle (sound : JobDirectory.Sound start.directory) (events : List JobEvent) :
    (∀ front, front <+: events → ∀ id bytes,
      (start.run front).directory.lookup id = some bytes →
        ∃ record, jobRecord (start.run front).directory id = some record ∧ record.Valid) ∧
    (∀ front event, front ++ [event] <+: events → ∀ id,
      RecordStep event.Recovers (jobRecord (start.run front).directory id)
        (jobRecord (start.run (front ++ [event])).directory id)) ∧
    ((start.claims events).map fun claim => (claim.id, claim.attempts)).Nodup := by
  refine ⟨?_, ?_, claims_nodup sound events⟩
  · intro front _ id bytes found
    obtain ⟨record, stored⟩ := run_sound sound front id bytes found
    exact ⟨record, stored, jobRecord_valid stored⟩
  · intro front event _ id
    rw [run_concat]
    exact (event_directoryStep (run_sound sound front) event).record id

/-- A job that is claimed, interrupted by a crash and started again. -/
def interruptedJob : List JobEvent :=
  [.enqueueWithId ⟨List.Vector.replicate 16 7⟩ (ascii "scrub") [] .stored, .claimNext .stored,
    .crash [], .start ⟨List.Vector.replicate 16 7⟩ .stored]

theorem interruptedJob_lifecycle :
    JobDirectory.Sound (JobSystem.mk ∅ []).directory ∧
      ((JobSystem.mk ∅ []).claims interruptedJob).map JobRecord.attempts = [1, 2] ∧
      (((JobSystem.mk ∅ []).claims interruptedJob).map
        fun claim => (claim.id, claim.attempts)).Nodup := by
  have sound : JobDirectory.Sound (JobSystem.mk ∅ []).directory := by
    intro id bytes found
    cases found
  exact ⟨sound, by decide +kernel, (jobStore_lifecycle sound interruptedJob).2.2⟩
end Lifecycle
end ReflinkForest
