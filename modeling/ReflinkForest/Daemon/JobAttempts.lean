import ReflinkForest.Daemon.JobOutcomes

/-! Turns and attempts. A handler runs outside the lock, and what it returns is recorded for the job
by its ID alone. -/
namespace ReflinkForest
open Bytes Except JobStore List

/-- After the event no job has two running handlers; and a result that it records is recorded for
the attempt that the handler was given. -/
structure JobSystem.AttemptKept (s : JobSystem) (event : JobEvent) : Prop where
  exclusive : ((s.step event).turns.map JobRecord.id).Nodup
  recorded : ∀ claimed result write, event = .endTurn claimed result write → claimed ∈ s.turns →
    ∀ record, (finishTurn s.directory claimed result write).2 = .ok record →
      ∃ current, jobRecord s.directory claimed.id = some current ∧ current.state = .running ∧
        current.attempts = claimed.attempts

/-- The job is back in the queue while the handler of an earlier claim is still running. -/
def JobSystem.Requeued (s : JobSystem) (claimed : JobRecord) : Prop :=
  claimed ∈ s.turns ∧
    ∃ current, jobRecord s.directory claimed.id = some current ∧ current.state = .queued

/-- The job is the next one for another handler and has room for its outcome and one more attempt,
or it is running when this one ends; and the write succeeds. -/
def JobSystem.Takes (s : JobSystem) (claimed : JobRecord) : JobEvent → Prop
  | .beginTurn accepts write => write = .stored ∧ ∃ next, NextJob s.directory accepts next ∧
      next.id = claimed.id ∧ executionFailureCapacity next ≠ 0 ∧ next.attempts.toNat + 1 < 2 ^ 32
  | .endTurn ended _ write => ended = claimed ∧ write = .stored ∧
      ∃ current, jobRecord s.directory claimed.id = some current ∧ current.state = .running
  | _ => False

section Attempts
variable {s start : JobSystem} {event : JobEvent} {events front : List JobEvent} {id : JobId}
  {claimed old new record : JobRecord} {write : JobWrite} {recovers : Prop}
  {accepts : JobRecord → Bool}

theorem stored_of_commit {directory : JobDirectory} {change : Except JobError JobRecord}
    (h : (commit directory change write).2 = .ok record) : write = .stored := by
  cases write with
  | stored => rfl
  | failed error =>
    simp only [commit, writeRecordLocked] at h
    grind

theorem running_encodes (stored : jobRecord s.directory id = some old) (h : running old = .ok new) :
    new.Valid ∧ new.Fits := by
  obtain ⟨valid, fits⟩ := jobRecord_encodes stored
  obtain ⟨_, _, _, _, attempts⟩ := running_eq_ok h
  rw [running, require_bind_eq_ok] at h
  obtain ⟨_, ⟨⟩⟩ := h
  refine ⟨⟨valid.kind, valid.lengths, valid.error, .inr fun none => ?_, by simp, by simp⟩, fits⟩
  exact Nat.succ_ne_zero _ (attempts.symm.trans (congrArg UInt32.toNat none))

theorem claimed_beginTurn_iff : s.claimed (.beginTurn accepts write) = some record ↔
    write = .stored ∧ ∃ next, NextJob s.directory accepts next ∧
      executionFailureCapacity next ≠ 0 ∧ running next = .ok record := by
  rw [JobSystem.claimed]
  constructor
  · intro returned
    rcases claimNextMatching_cases accepts with ⟨_, none⟩ | ⟨next, isNext⟩
    · rw [none] at returned
      cases returned
    · rw [isNext.claimNextMatching] at returned
      have committed := toOption_eq_some.mp (toOption_join_map.symm.trans returned)
      have computed := (commit_eq_ok committed).1
      rw [ensureExecutionFailureSpace, require_bind_eq_ok] at computed
      exact ⟨stored_of_commit committed, next, isNext, computed⟩
  · rintro ⟨rfl, next, isNext, room, changed⟩
    obtain ⟨valid, fits⟩ := running_encodes isNext.stored.1 changed
    have space : ensureExecutionFailureSpace next = .ok () := require_pos room
    rw [isNext.claimNextMatching, space, ok_bind, changed, commit, writeRecordLocked,
      encodeJobRecord_eq_ok_iff.mpr ⟨valid, fits, rfl⟩]
    rfl

theorem takes_beginTurn_iff : s.Takes claimed (.beginTurn accepts write) ↔
    ∃ again, s.claimed (.beginTurn accepts write) = some again ∧ again.id = claimed.id := by
  simp only [claimed_beginTurn_iff]
  constructor
  · rintro ⟨stored, next, isNext, named, room, few⟩
    exact ⟨{ next with attempts := next.attempts + 1, state := .running },
      ⟨stored, next, isNext, room, by rw [running, require_pos few, ok_bind]⟩, named⟩
  · rintro ⟨again, ⟨stored, next, isNext, room, changed⟩, named⟩
    have same := (running_eq_ok changed).1
    rw [running, require_bind_eq_ok] at changed
    exact ⟨stored, next, isNext, same ▸ named, room, changed.1⟩

theorem mem_turns_step (mem : claimed ∈ (s.step event).turns) :
    claimed ∈ s.turns ∨ ∃ accepts write, event = .beginTurn accepts write ∧
      s.claimed event = some claimed := by
  cases event with
  | beginTurn accepts write =>
    rcases mem_append.mp mem with now | before
    · exact .inr ⟨accepts, write, rfl, Option.mem_toList.mp now⟩
    · exact .inl before
  | endTurn ended result write => exact .inl (mem_of_mem_erase mem)
  | crash writes => cases mem
  | _ => exact .inl mem

/-- A job that is not running at attempt `n` runs only at later ones. -/
def Past (n : UInt32) (record : JobRecord) : Prop :=
  n.toNat < record.attempts.toNat ∨ n = record.attempts ∧ record.state ≠ .running

theorem RecordKept.past {n : UInt32} (kept : RecordKept recovers old new) (past : Past n old) :
    Past n new := by
  have attempts := kept.attempts
  rcases past with above | ⟨rfl, waiting⟩
  · left
    omega
  · by_cases running : new.state = .running
    · rw [if_pos ⟨waiting, running⟩] at attempts
      left
      omega
    · rw [if_neg fun both => running both.2] at attempts
      exact .inr ⟨UInt32.toNat_inj.mp attempts.symm, running⟩

theorem run_past {n : UInt32} (sound : JobDirectory.Sound s.directory)
    (stored : jobRecord s.directory id = some old) (past : Past n old) (events : List JobEvent) :
    ∃ new, jobRecord (s.run events).directory id = some new ∧ Past n new := by
  induction events generalizing s old with
  | nil => exact ⟨old, stored, past⟩
  | cons event events ih =>
    have step := event_directoryStep sound event
    obtain ⟨new, kept, change⟩ := (stored ▸ step.record id).of_some
    exact ih (s := s.step event) step.sound kept (change.past past)

theorem RecordKept.queued_of_lt (kept : RecordKept recovers old new)
    (grows : old.attempts.toNat < new.attempts.toNat) : old.state = .queued := by
  have attempts := kept.attempts
  have state := kept.state
  split at attempts
  · grind
  · omega

theorem queued_of_claimed (sound : JobDirectory.Sound s.directory)
    (returned : s.claimed event = some claimed) :
    ∃ old, jobRecord s.directory claimed.id = some old ∧ old.state = .queued := by
  obtain ⟨old, before, after, attempts⟩ := event_claimedFrom returned
  have step := (event_directoryStep sound event).record claimed.id
  rw [before, after] at step
  cases step with
  | kept kept => exact ⟨old, before, kept.queued_of_lt (by omega)⟩

theorem finishTurn_running {directory : JobDirectory} {result : JobHandlerReturn}
    (recorded : (finishTurn directory claimed result write).2 = .ok record) :
    write = .stored ∧
      ∃ current, jobRecord directory claimed.id = some current ∧ current.state = .running := by
  have updated {target : JobState} {change : JobRecord → Except JobError JobRecord}
      (returned : (update directory claimed.id (fun current =>
        requireTransition current .running target >>= fun _ => change current) write).2 =
          .ok record) : write = .stored ∧
      ∃ current, jobRecord directory claimed.id = some current ∧ current.state = .running := by
    obtain ⟨current, read, changed⟩ := bind_eq_ok_iff.mp (commit_eq_ok returned).1
    rw [requireTransition, require_bind_eq_ok] at changed
    exact ⟨stored_of_commit returned, current, toOption_eq_some.mpr read, changed.1⟩
  have failed {error : Str} (returned : (JobStore.fail directory claimed.id error write).2 =
      .ok record) : write = .stored ∧
      ∃ current, jobRecord directory claimed.id = some current ∧ current.state = .running := by
    rw [JobStore.fail] at returned
    split at returned
    · cases returned
    · exact updated returned
  cases result with
  | ok => exact updated recorded
  | error text | panicked => exact failed recorded

theorem nodup_turns_step (distinct : (s.turns.map JobRecord.id).Nodup)
    (free : ∀ claimed ∈ s.turns, ∀ accepts write, event = .beginTurn accepts write →
      ¬s.Takes claimed event) : ((s.step event).turns.map JobRecord.id).Nodup := by
  cases event with
  | beginTurn accepts write =>
    rw [JobSystem.step, JobSystem.turnsAfter]
    cases returned : s.claimed (.beginTurn accepts write) with
    | none => exact distinct
    | some again =>
      refine nodup_cons.mpr ⟨?_, distinct⟩
      intro taken
      obtain ⟨claimed, mem, same⟩ := mem_map.mp taken
      exact free claimed mem accepts write rfl
        (takes_beginTurn_iff.mpr ⟨again, returned, same.symm⟩)
  | endTurn ended result write => exact distinct.sublist (erase_sublist.map _)
  | crash writes => exact nodup_nil
  | _ => exact distinct

/-- The job of a running handler is stored at the claimed attempt, or it has been requeued; and the
record has room for its outcome. -/
theorem turn_attempt (sound : JobDirectory.Sound start.directory) (idle : start.turns = [])
    (front : List JobEvent) (mem : claimed ∈ (start.run front).turns) :
    ∃ current, jobRecord (start.run front).directory claimed.id = some current ∧
      claimed.attempts.toNat ≤ current.attempts.toNat ∧ (current.attempts = claimed.attempts ∨
        ∃ before, before <+: front ∧ (start.run before).Requeued claimed) ∧
      claimed.kind = current.kind ∧ claimed.payload = current.payload ∧
      executionFailureCapacity claimed ≠ 0 := by
  induction front using List.reverseRecOn with
  | nil =>
    rw [JobSystem.run, foldl_nil, idle] at mem
    cases mem
  | append_singleton front event ih =>
    rw [run_concat] at mem ⊢
    rcases mem_turns_step mem with before | ⟨accepts, write, rfl, now⟩
    · obtain ⟨current, stored, reached, attempt, kind, payload, room⟩ := ih before
      have step := event_directoryStep (run_sound sound front) event
      obtain ⟨next, kept, change⟩ := (stored ▸ step.record claimed.id).of_some
      have grows : current.attempts.toNat ≤ next.attempts.toNat := by
        have attempts := change.attempts
        omega
      refine ⟨next, kept, reached.trans grows, ?_, kind.trans change.kind_eq.symm,
        payload.trans change.payload_eq.symm, room⟩
      rcases grows.lt_or_eq with more | same
      · exact .inr ⟨front, prefix_append _ _, before, current, stored,
          change.queued_of_lt more⟩
      · rw [← UInt32.toNat_inj.mp same]
        exact attempt.imp_right fun ⟨earlier, inside, requeued⟩ =>
          ⟨earlier, inside.trans (prefix_append _ _), requeued⟩
    · obtain ⟨_, _, stored, _⟩ := event_claimedFrom now
      obtain ⟨_, next, _, room, changed⟩ := claimed_beginTurn_iff.mp now
      obtain ⟨_, kind, payload, _, _⟩ := running_eq_ok changed
      refine ⟨claimed, stored, le_rfl, .inl rfl, rfl, rfl, ?_⟩
      rwa [executionFailureCapacity, kind, payload]

/-- Handlers are alone with their jobs and their results are recorded for the claimed attempts,
exactly when a job that was requeued under a running handler is neither claimed for another one nor
finished by this one. -/
theorem jobAttempts_kept_iff (sound : JobDirectory.Sound start.directory) (idle : start.turns = [])
    (events : List JobEvent) :
    (∀ front event, front ++ [event] <+: events → (start.run front).AttemptKept event) ↔
      ∀ front mid event, front ++ mid ++ [event] <+: events → ∀ claimed,
        (start.run front).Requeued claimed → claimed ∈ (start.run (front ++ mid)).turns →
          ¬(start.run (front ++ mid)).Takes claimed event := by
  constructor
  · intro kept front mid event within claimed requeued member takes
    have here := kept (front ++ mid) event within
    cases event with
    | beginTurn accepts write =>
      obtain ⟨again, returned, same⟩ := takes_beginTurn_iff.mp takes
      have alone := here.exclusive
      rw [JobSystem.step, JobSystem.turnsAfter, returned] at alone
      exact (nodup_cons.mp alone).1 (same ▸ mem_map_of_mem member)
    | endTurn ended result write =>
      obtain ⟨rfl, rfl, now, shown, busy⟩ := takes
      obtain ⟨_, same, _, _, kind, payload, room⟩ := turn_attempt sound idle (front ++ mid) member
      cases shown.symm.trans same
      rw [executionFailureCapacity, kind, payload] at room
      obtain ⟨_, finished, _⟩ := recordsOutcome_of_running shown busy kind payload room result
      have recorded := congrArg Prod.snd finished
      obtain ⟨current, stored, running, attempt⟩ := here.recorded _ _ _ rfl member _ recorded
      obtain ⟨open', old, before, queued⟩ := requeued
      obtain ⟨_, same, reached, _⟩ := turn_attempt sound idle front open'
      rw [before] at same
      cases same
      have past : Past ended.attempts old := by
        rcases reached.lt_or_eq with above | equal
        · exact .inl above
        · exact .inr ⟨UInt32.toNat_inj.mp equal, by simp [queued]⟩
      obtain ⟨last, found, later⟩ := run_past (run_sound sound front) before past mid
      rw [JobSystem.run, JobSystem.run, ← foldl_append] at found
      rw [JobSystem.run, found] at stored
      cases stored
      rcases later with above | ⟨_, stopped⟩
      · exact absurd above (by simp [attempt])
      · exact stopped running
    | _ => exact takes
  · intro free
    have claims (front : List JobEvent) (event : JobEvent) (within : front ++ [event] <+: events) :
        ∀ claimed ∈ (start.run front).turns, ∀ accepts write, event = .beginTurn accepts write →
          ¬(start.run front).Takes claimed event := by
      rintro claimed member accepts write rfl takes
      obtain ⟨again, returned, same⟩ := takes_beginTurn_iff.mp takes
      obtain ⟨old, stored, queued⟩ := queued_of_claimed (run_sound sound front) returned
      have requeued : (start.run front).Requeued claimed := ⟨member, old, same ▸ stored, queued⟩
      have within' : front ++ [] ++ [JobEvent.beginTurn accepts write] <+: events := by simpa
      exact free front [] _ within' claimed requeued (by simpa) (by simpa)
    have distinct (front : List JobEvent) (within : front <+: events) :
        ((start.run front).turns.map JobRecord.id).Nodup := by
      induction front using List.reverseRecOn with
      | nil => simp [JobSystem.run, idle]
      | append_singleton front event ih =>
        rw [run_concat]
        exact nodup_turns_step (ih ((prefix_append _ _).trans within))
          (claims front event within)
    intro front event within
    constructor
    · rw [← run_concat]
      exact distinct _ within
    · rintro claimed result write rfl member record recorded
      obtain ⟨written, current, stored, running⟩ := finishTurn_running recorded
      obtain ⟨_, same, _, attempt, _⟩ := turn_attempt sound idle front member
      rw [stored] at same
      cases same
      refine ⟨current, stored, running, ?_⟩
      rcases attempt with equal | ⟨before, ⟨mid, rfl⟩, requeued⟩
      · exact equal
      · exact absurd ⟨rfl, written, current, stored, running⟩
          (free before mid _ within claimed requeued member)

def onlyJob : JobId := ⟨List.Vector.replicate 16 7⟩

def claimedJob : List JobEvent :=
  [.enqueueWithId onlyJob (ascii "scrub") [] .stored, .beginTurn (fun _ => true) .stored]

def claimedRecord : JobRecord := ⟨onlyJob, ascii "scrub", [], .running, 1, none⟩

theorem claimedJob_attempt_kept : JobDirectory.Sound (JobSystem.mk ∅ []).directory ∧
    ((JobSystem.mk ∅ []).run claimedJob).AttemptKept (.endTurn claimedRecord .ok .stored) := by
  have sound : JobDirectory.Sound (JobSystem.mk ∅ []).directory := nofun
  refine ⟨sound, (jobAttempts_kept_iff sound rfl
    (claimedJob ++ [.endTurn claimedRecord .ok .stored])).mpr ?_ _ _ (prefix_refl _)⟩
  have running : ∀ n < 3, ∀ claimed ∈ ((JobSystem.mk ∅ []).run (claimedJob.take n)).turns,
      jobRecord ((JobSystem.mk ∅ []).run (claimedJob.take n)).directory claimed.id =
        some claimedRecord := by
    decide +kernel
  rintro front mid event ⟨rest, whole⟩ claimed ⟨member, current, stored, queued⟩
  have short : front.length < 3 := by
    have length := congrArg List.length whole
    simp [claimedJob] at length
    omega
  have front_eq : front = claimedJob.take front.length := by
    have taken := congrArg (List.take front.length) whole
    rw [append_assoc, append_assoc, take_left,
      take_append_of_le_length (Nat.le_of_lt_succ short)] at taken
    exact taken
  rw [front_eq] at member stored
  rw [running _ short claimed member] at stored
  cases stored
  cases queued

/-- The job is failed and retried from the socket while its handler runs. -/
def requeuedJob : List JobEvent :=
  claimedJob ++ [.fail onlyJob (ascii "stop") .stored, .retry onlyJob .stored]

/-- A second handler starts, or the result of the first is recorded for the second attempt. -/
theorem requeuedJob_attempt_lost :
    ¬((JobSystem.mk ∅ []).run requeuedJob).AttemptKept (.beginTurn (fun _ => true) .stored) ∧
      ¬((JobSystem.mk ∅ []).run (requeuedJob ++ [.start onlyJob .stored])).AttemptKept
        (.endTurn claimedRecord .ok .stored) := by
  constructor
  · intro kept
    exact absurd kept.exclusive (by decide +kernel)
  · intro kept
    have stored : jobRecord ((JobSystem.mk ∅ []).run
        (requeuedJob ++ [.start onlyJob .stored])).directory onlyJob =
          some { claimedRecord with attempts := 2, lastError := some (ascii "stop") } := by
      decide +kernel
    have recorded : (finishTurn ((JobSystem.mk ∅ []).run
        (requeuedJob ++ [.start onlyJob .stored])).directory claimedRecord .ok .stored).2 =
          .ok { claimedRecord with attempts := 2, state := .succeeded } := by
      decide +kernel
    obtain ⟨current, found, _, attempt⟩ := kept.recorded _ _ _ rfl (by decide +kernel) _ recorded
    rw [show claimedRecord.id = onlyJob from rfl, stored] at found
    cases found
    cases attempt
end Attempts
end ReflinkForest
