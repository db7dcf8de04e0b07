import ReflinkForest.Daemon.JobLifecycle

/-! The outcome of every attempt has a record: enqueueing leaves room for a failure and the error of
a handler is cut to that room. -/
namespace ReflinkForest
open Bytes Except JobStore

/-- A job with this kind and payload is accepted and stored. -/
inductive Enqueued (kind payload : Str) (before after : JobDirectory) (queued : JobRecord) : Prop
  | drawn (random : ℕ → Except JobError JobId)
      (stored : enqueue before random kind payload .stored = (after, .ok queued))
  | withId (id : JobId)
      (stored : enqueueWithId before id kind payload .stored = (after, .ok queued))

/-- The record with what a handler returned for it. -/
def JobRecord.finished (record : JobRecord) : JobHandlerReturn → JobRecord
  | .ok => { record with state := .succeeded, lastError := none }
  | .error text =>
    { record with state := .failed, lastError := some (boundedHandlerError record text) }
  | .panicked =>
    { record with
      state := .failed
      lastError := some (boundedHandlerError record (ascii "job handler panicked")) }

/-- What the handler returned is stored over the current record, validly and within the limit. -/
def RecordsOutcome (directory : JobDirectory) (claimed current : JobRecord)
    (result : JobHandlerReturn) : Prop :=
  ∃ after, finishTurn directory claimed result .stored = (after, .ok (current.finished result)) ∧
    jobRecord after claimed.id = some (current.finished result) ∧
    (current.finished result).Valid ∧ (current.finished result).Fits

section Outcomes
variable {directory before after : JobDirectory} {id : JobId} {write : JobWrite}
  {record current claimed queued new : JobRecord} {kind payload text : Str}

theorem JobRecord.fits_of_capacity (room : executionFailureCapacity record ≠ 0)
    (short : record.error.length ≤ executionFailureCapacity record) : record.Fits := by
  rw [JobRecord.Fits, record.length_body]
  unfold executionFailureCapacity at room short
  omega

theorem boundedHandlerError_ne_nil (room : executionFailureCapacity record ≠ 0) :
    boundedHandlerError record text ≠ [] := by
  rw [boundedHandlerError, Ne, List.take_eq_nil_iff, not_or]
  refine ⟨room, ?_⟩
  split
  · decide
  · assumption

theorem failed_valid (valid : record.Valid) (running : record.state = .running) {error : Str}
    (nonempty : error ≠ [])
    (short : error.length ≤ executionFailureCapacity record) :
    JobRecord.Valid { record with state := .failed, lastError := some error } where
  kind := valid.kind
  lengths := by
    refine ⟨valid.lengths.1, valid.lengths.2.1, ?_⟩
    rintro _ ⟨⟩
    unfold executionFailureCapacity at short
    omega
  error := by
    rintro _ ⟨⟩
    exact nonempty
  attempts := .inr (valid.attempts.resolve_left (by simp [running]))
  succeeded := nofun
  failed := nofun

theorem JobRecord.finished_valid (valid : record.Valid) (running : record.state = .running)
    (room : executionFailureCapacity record ≠ 0) (result : JobHandlerReturn) :
    (record.finished result).Valid ∧ (record.finished result).Fits := by
  have failed (text : Str) : JobRecord.Valid { record with
      state := .failed, lastError := some (boundedHandlerError record text) } ∧
      JobRecord.Fits { record with
        state := .failed, lastError := some (boundedHandlerError record text) } :=
    ⟨failed_valid valid running (boundedHandlerError_ne_nil room) (List.length_take_le _ _),
      JobRecord.fits_of_capacity room (List.length_take_le _ _)⟩
  cases result with
  | ok =>
    exact ⟨⟨valid.kind, ⟨valid.lengths.1, valid.lengths.2.1, nofun⟩, nofun,
      .inr (valid.attempts.resolve_left (by simp [running])), fun _ => rfl, nofun⟩,
      JobRecord.fits_of_capacity room (Nat.zero_le _)⟩
  | error text => exact failed text
  | panicked => exact failed _

theorem update_stored {change : JobRecord → Except JobError JobRecord}
    (stored : jobRecord directory id = some current) (changed : change current = .ok new)
    (named : new.id = id) (valid : new.Valid) (fits : new.Fits) :
    ∃ after, update directory id change .stored = (after, .ok new) ∧
      jobRecord after id = some new ∧ new.Valid ∧ new.Fits := by
  have encoded := encodeJobRecord_eq_ok_iff.mpr ⟨valid, fits, rfl⟩
  refine ⟨directory.insert new.id new.encoding, ?_, ?_, valid, fits⟩
  · rw [update, toOption_eq_some.mp stored, ok_bind, changed, commit, writeRecordLocked, encoded]
  · rw [jobRecord_insert encoded, if_pos named.symm]

theorem recordsOutcome_of_running (stored : jobRecord directory claimed.id = some current)
    (running : current.state = .running) (kind : claimed.kind = current.kind)
    (payload : claimed.payload = current.payload) (room : executionFailureCapacity current ≠ 0)
    (result : JobHandlerReturn) : RecordsOutcome directory claimed current result := by
  obtain ⟨valid, fits⟩ := JobRecord.finished_valid (jobRecord_valid stored) running room result
  have same (text : Str) : boundedHandlerError claimed text = boundedHandlerError current text := by
    rw [boundedHandlerError, executionFailureCapacity, kind, payload]
    rfl
  have moved {target : JobState} {finished : JobRecord} :
      (requireTransition current .running target >>= fun _ => Except.ok finished) =
        .ok finished := by
    rw [requireTransition, require_pos running, ok_bind]
  have named : (current.finished result).id = claimed.id := by
    rw [← jobRecord_id stored]
    cases result <;> rfl
  cases result with
  | ok => exact update_stored stored moved named valid fits
  | error text | panicked =>
    rw [RecordsOutcome, finishTurn, same, JobStore.fail, if_neg (boundedHandlerError_ne_nil room)]
    exact update_stored stored moved named valid fits

theorem enqueueDrawn_eq_ok {draws : List (Except JobError JobId)}
    (stored : enqueueDrawn before kind payload write draws = (after, .ok queued)) :
    ∃ id, enqueueNew before id kind payload write = (after, .ok queued) := by
  induction draws with
  | nil => cases stored
  | cons draw draws ih =>
    cases draw with
    | error error => cases stored
    | ok id =>
      rw [enqueueDrawn] at stored
      split at stored
      · exact ih stored
      · exact ⟨id, stored⟩

theorem enqueueNew_eq_ok
    (stored : enqueueNew before id kind payload write = (after, .ok queued)) :
    jobRecord after queued.id = some queued ∧ executionFailureCapacity queued ≠ 0 := by
  obtain ⟨computed, found⟩ := commit_eq_ok (congrArg Prod.snd stored)
  rw [ensureExecutionFailureSpace, require_bind_eq_ok] at computed
  obtain ⟨room, same⟩ := computed
  rw [enqueueNew] at stored
  rw [stored] at found
  exact ⟨found, ok.inj same ▸ room⟩

theorem Enqueued.stored (sound : before.Sound)
    (enqueued : Enqueued kind payload before after queued) :
    after.Sound ∧ jobRecord after queued.id = some queued ∧
      executionFailureCapacity queued ≠ 0 := by
  cases enqueued with
  | drawn random stored =>
    have step := event_directoryStep (s := ⟨before, []⟩) sound
        (.enqueue random kind payload .stored)
    rw [JobSystem.after, stored] at step
    obtain ⟨id, new⟩ := enqueueDrawn_eq_ok stored
    exact ⟨step.sound, enqueueNew_eq_ok new⟩
  | withId id stored =>
    have step := event_directoryStep (s := ⟨before, []⟩) sound
      (.enqueueWithId id kind payload .stored)
    rw [JobSystem.after, stored] at step
    rw [enqueueWithId] at stored
    split at stored
    · cases stored
    · exact ⟨step.sound, enqueueNew_eq_ok stored⟩

theorem run_keeps {s : JobSystem} (sound : JobDirectory.Sound s.directory)
    (stored : jobRecord s.directory id = some record) (events : List JobEvent) :
    ∃ current, jobRecord (s.run events).directory id = some current ∧
      current.kind = record.kind ∧ current.payload = record.payload := by
  induction events generalizing s record with
  | nil => exact ⟨record, stored, rfl, rfl⟩
  | cons event events ih =>
    have step := event_directoryStep sound event
    obtain ⟨next, kept, change⟩ := (stored ▸ step.record id).of_some
    obtain ⟨current, found, kind, payload⟩ := ih (s := s.step event) step.sound kept
    exact ⟨current, found, kind.trans change.kind_eq, payload.trans change.payload_eq⟩

theorem claimed_running {s : JobSystem} {event : JobEvent}
    (sound : JobDirectory.Sound s.directory) (returned : s.claimed event = some claimed) :
    jobRecord (s.step event).directory claimed.id = some claimed ∧ claimed.state = .running := by
  obtain ⟨old, found, stored, attempts⟩ := event_claimedFrom returned
  have step := (event_directoryStep sound event).record claimed.id
  rw [found, stored] at step
  cases step with
  | kept kept =>
    have grows := kept.attempts
    split at grows
    · rename_i begun
      exact ⟨stored, begun.2⟩
    · omega

/-- Valid records within the limit and their encodings determine each other; a job that was
enqueued is never refused for want of room; and what a handler returns for it is recorded, at once
or as long as the job is running. -/
theorem jobOutcomes_recordable :
    (∀ record : JobRecord, record.Valid → record.Fits →
      ∃ bytes, encodeJobRecord record = .ok bytes ∧ decodeJobRecord bytes = .ok record) ∧
    (∀ bytes record, decodeJobRecord bytes = .ok record → encodeJobRecord record = .ok bytes) ∧
    ∀ kind payload before after queued, JobDirectory.Sound before →
      Enqueued kind payload before after queued →
      ∀ turns events s, JobSystem.run ⟨after, turns⟩ events = s →
        (∃ current, jobRecord s.directory queued.id = some current ∧
          ensureExecutionFailureSpace current = .ok ()) ∧
        ∀ accepts write claimed, s.claimed (.beginTurn accepts write) = some claimed →
          claimed.id = queued.id → ∀ result,
            RecordsOutcome (s.step (.beginTurn accepts write)).directory claimed claimed result ∧
            ∀ between t, (s.step (.beginTurn accepts write)).run between = t → ∀ current,
              jobRecord t.directory queued.id = some current → current.state = .running →
                RecordsOutcome t.directory claimed current result := by
  refine ⟨?_, fun _ _ => decodeJobRecord_eq_ok_iff.mp, ?_⟩
  · intro record valid fits
    have encoded := encodeJobRecord_eq_ok_iff.mpr ⟨valid, fits, rfl⟩
    exact ⟨_, encoded, decodeJobRecord_eq_ok_iff.mpr encoded⟩
  · rintro kind payload before after queued sound enqueued turns events s rfl
    obtain ⟨sound, stored, room⟩ := enqueued.stored sound
    have running := run_sound (s := ⟨after, turns⟩) sound events
    obtain ⟨current, found, sameKind, samePayload⟩ :=
      run_keeps (s := ⟨after, turns⟩) sound stored events
    have roomy {record : JobRecord} (kind : record.kind = queued.kind)
        (payload : record.payload = queued.payload) : executionFailureCapacity record ≠ 0 := by
      rwa [executionFailureCapacity, kind, payload]
    refine ⟨⟨current, found, require_pos (roomy sameKind samePayload)⟩, ?_⟩
    intro accepts write claimed returned named result
    obtain ⟨written, started⟩ := claimed_running running returned
    have claimSound := (event_directoryStep running (.beginTurn accepts write)).sound
    obtain ⟨_, same, claimKind, claimPayload⟩ := run_keeps running found [.beginTurn accepts write]
    cases written.symm.trans (named ▸ same)
    rw [sameKind] at claimKind
    rw [samePayload] at claimPayload
    refine ⟨recordsOutcome_of_running written started rfl rfl (roomy claimKind claimPayload) result,
      ?_⟩
    rintro between t rfl current now busy
    obtain ⟨_, same, kind, payload⟩ := run_keeps claimSound written between
    rw [← named] at now
    cases now.symm.trans same
    exact recordsOutcome_of_running now busy kind.symm payload.symm
      (roomy (kind.trans claimKind) (payload.trans claimPayload)) result
end Outcomes
end ReflinkForest
