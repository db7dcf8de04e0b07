import ReflinkForest.Daemon.ScrubStore

/-! Scrub workers. A claimed run is handed to a handler outside the lock, and its end is recorded
for whichever run the schedule shows then. -/
namespace ReflinkForest
open List

/-- A running handler: the number of the run it was given, and the time of its call. -/
structure ScrubHandler where
  run : ℕ
  now : UInt64
  deriving DecidableEq

/-- A store whose writes succeed, how many runs have been claimed from it, and the handlers. -/
structure ScrubWorkers where
  store : ScrubScheduleStore
  begun : ℕ
  active : List ScrubHandler

/-- The locked parts of `execute_if_due_at`, and `configure_at`. -/
inductive ScrubEvent where
  | configureAt (intervalSeconds nowUnixSeconds : UInt64)
  | beginRun (nowUnixSeconds : UInt64)
  | endRun (handler : ScrubHandler) (returned : HandlerReturn)

namespace ScrubWorkers
def step (s : ScrubWorkers) : ScrubEvent → ScrubWorkers
  | .configureAt interval now => { s with store := (s.store.configureAt interval now .stored).1 }
  | .beginRun now =>
    match s.store.beginIfDueAt now .stored with
    | (store, .ok (some _)) => ⟨store, s.begun + 1, ⟨s.begun + 1, now⟩ :: s.active⟩
    | (store, _) => { s with store }
  | .endRun handler returned =>
    if handler ∈ s.active then
      { s with
        store := (s.store.endRun handler.now returned .stored).1
        active := s.active.erase handler }
    else s

def run (s : ScrubWorkers) (events : List ScrubEvent) : ScrubWorkers := events.foldl step s

def Running (s : ScrubWorkers) : Prop :=
  ∃ schedule, s.store.state = some schedule ∧ schedule.runState = .running

/-- At most one handler is active after the event; and a run that it ends is that of the handler,
the last one that was claimed. -/
structure Exclusive (s : ScrubWorkers) (event : ScrubEvent) : Prop where
  single : (s.step event).active.length ≤ 1
  own : ∀ handler returned, event = .endRun handler returned → handler ∈ s.active → s.Running →
    handler.run = s.begun

/-- The schedule is idle and due, and valid with a run. -/
def Claims (s : ScrubWorkers) : ScrubEvent → Prop
  | .beginRun now => ∃ schedule, s.store.state = some schedule ∧ schedule.runState ≠ .running ∧
      schedule.nextDueUnixSeconds ≤ now ∧ ScrubScheduleState.validate
        { schedule with runState := .running, lastStartedUnixSeconds := some now } = .ok ()
  | _ => False

/-- The schedule was configured anew while the handler was running. -/
def Reset (s : ScrubWorkers) (events : List ScrubEvent) (handler : ScrubHandler) : Prop :=
  ∃ front interval now, front ++ [.configureAt interval now] <+: events ∧
    handler ∈ (s.run front).active ∧
    ∃ schedule, ScrubScheduleState.configured interval now = .ok schedule
end ScrubWorkers

section Workers
variable {s start : ScrubWorkers} {event : ScrubEvent} {events front : List ScrubEvent}
  {handler : ScrubHandler} {now : UInt64}

open ScrubWorkers

theorem ScrubWorkers.run_concat (event : ScrubEvent) :
    s.run (front ++ [event]) = (s.run front).step event :=
  foldl_concat _ _ _ _

theorem ScrubWorkers.Reset.mono (reset : s.Reset front handler) (within : front <+: events) :
    s.Reset events handler := by
  obtain ⟨earlier, interval, now, inside, rest⟩ := reset
  exact ⟨earlier, interval, now, inside.trans within, rest⟩

theorem beginIfDueAt_of_running (running : s.Running) (write : ScrubWrite) :
    s.store.beginIfDueAt now write = (s.store, .error .alreadyRunning) := by
  obtain ⟨schedule, shown, running⟩ := running
  rw [ScrubScheduleStore.beginIfDueAt, shown]
  exact if_pos running

theorem configureAt_cases (store : ScrubScheduleStore) (interval now : UInt64) :
    (store.configureAt interval now .stored).1 = store ∨
      ∃ schedule, ScrubScheduleState.configured interval now = .ok schedule := by
  unfold ScrubScheduleStore.configureAt
  cases ScrubScheduleState.configured interval now with
  | error error => exact .inl rfl
  | ok schedule => exact .inr ⟨schedule, rfl⟩

theorem claims_iff : s.Claims (.beginRun now) ↔
    ∃ schedule, (s.store.beginIfDueAt now .stored).2 = .ok (some schedule) := by
  rw [Claims, ScrubScheduleStore.beginIfDueAt]
  cases s.store.state with
  | none => simp
  | some schedule =>
    dsimp only
    split_ifs with running early
    · simp [running]
    · simp [early]
    · have due := UInt64.not_lt.mp early
      cases encoded : encodeScrubScheduleRecord
          { schedule with runState := .running, lastStartedUnixSeconds := some now } with
      | error error =>
        have invalid : ScrubScheduleState.validate { schedule with
            runState := .running, lastStartedUnixSeconds := some now } ≠ .ok () := by
          intro valid
          rw [encodeScrubScheduleRecord_eq_ok_iff.mpr ⟨valid, rfl⟩] at encoded
          cases encoded
        simp [invalid, ScrubScheduleStore.writeChanged, ScrubScheduleStore.writeLocked, encoded,
          Except.map]
      | ok bytes =>
        have valid := (encodeScrubScheduleRecord_eq_ok_iff.mp encoded).1
        simp [running, due, valid, ScrubScheduleStore.writeChanged, ScrubScheduleStore.writeLocked,
          encoded, Except.map]

theorem step_of_claimed {store : ScrubScheduleStore} {schedule : ScrubScheduleState}
    (begun : s.store.beginIfDueAt now .stored = (store, .ok (some schedule))) :
    s.step (.beginRun now) = ⟨store, s.begun + 1, ⟨s.begun + 1, now⟩ :: s.active⟩ := by
  simp only [ScrubWorkers.step, begun]

/-- An event claims a run, ends a handler, or leaves both alone. The schedule then shows a run as
before unless it was configured anew. -/
theorem step_cases (s : ScrubWorkers) (event : ScrubEvent) :
    (s.Claims event ∧ ¬s.Running ∧ (s.step event).Running ∧ ∃ now,
      (s.step event).begun = s.begun + 1 ∧
        (s.step event).active = ⟨s.begun + 1, now⟩ :: s.active) ∨
    ((s.step event).begun = s.begun ∧
      ∃ handler ∈ s.active, (s.step event).active = s.active.erase handler) ∨
    ((s.step event).begun = s.begun ∧ (s.step event).active = s.active ∧
      (s.Running → (s.step event).Running ∨ ∃ interval now schedule,
        event = .configureAt interval now ∧
          ScrubScheduleState.configured interval now = .ok schedule)) := by
  cases event with
  | configureAt interval now =>
    refine .inr (.inr ⟨rfl, rfl, fun running => ?_⟩)
    rcases configureAt_cases s.store interval now with same | ⟨schedule, configured⟩
    · left
      rwa [Running, ScrubWorkers.step, same]
    · exact .inr ⟨interval, now, schedule, rfl, configured⟩
  | beginRun now =>
    by_cases running : s.Running
    · have kept : s.step (.beginRun now) = s := by
        simp only [ScrubWorkers.step, beginIfDueAt_of_running running]
      rw [kept]
      exact .inr (.inr ⟨rfl, rfl, .inl⟩)
    · rcases begun : s.store.beginIfDueAt now .stored with ⟨store, error | _ | schedule⟩
      · have kept : s.step (.beginRun now) = { s with store } := by
          simp only [ScrubWorkers.step, begun]
        rw [kept]
        exact .inr (.inr ⟨rfl, rfl, fun shown => absurd shown running⟩)
      · have kept : s.step (.beginRun now) = { s with store } := by
          simp only [ScrubWorkers.step, begun]
        rw [kept]
        exact .inr (.inr ⟨rfl, rfl, fun shown => absurd shown running⟩)
      · rw [step_of_claimed begun]
        exact .inl ⟨claims_iff.mpr ⟨schedule, congrArg Prod.snd begun⟩, running,
          ⟨schedule, beginIfDueAt_claimed begun⟩, now, rfl, rfl⟩
  | endRun handler returned =>
    rw [ScrubWorkers.step]
    split
    · rename_i mem
      exact .inr (.inl ⟨rfl, handler, mem, rfl⟩)
    · exact .inr (.inr ⟨rfl, rfl, .inl⟩)

/-- One handler at most, with the last run, which is still running unless it was reset. -/
structure SingleHandler (start : ScrubWorkers) (front : List ScrubEvent) : Prop where
  length : (start.run front).active.length ≤ 1
  last : ∀ handler ∈ (start.run front).active, handler.run = (start.run front).begun
  running : ∀ handler ∈ (start.run front).active,
    (start.run front).Running ∨ start.Reset front handler

theorem SingleHandler.step (single : SingleHandler start front)
    (free : ∀ handler ∈ (start.run front).active, start.Reset front handler →
      ¬(start.run front).Claims event) : SingleHandler start (front ++ [event]) := by
  obtain ⟨length, last, running⟩ := single
  rcases step_cases (start.run front) event with ⟨claims, idle, shown, now, begun, active⟩ |
    ⟨begun, handler, mem, active⟩ | ⟨begun, active, kept⟩
  · have none : (start.run front).active = [] := by
      rw [eq_nil_iff_forall_not_mem]
      intro handler mem
      exact free handler mem ((running handler mem).resolve_left idle) claims
    rw [← run_concat] at begun active shown
    constructor <;> rw [active, none]
    · exact le_rfl
    · simp [begun]
    · exact fun _ _ => .inl shown
  · obtain ⟨only, alone⟩ : ∃ only, (start.run front).active = [only] :=
      length_eq_one_iff.mp (le_antisymm length (length_pos_of_mem mem))
    rw [alone, mem_singleton] at mem
    rw [alone, mem, erase_cons_head, ← run_concat] at active
    constructor <;> simp [active]
  · rw [← run_concat] at begun active kept
    constructor <;> rw [active]
    · exact length
    · rw [begun]
      exact last
    · intro handler mem
      rcases running handler mem with shown | reset
      · rcases kept shown with still | ⟨interval, now, schedule, rfl, configured⟩
        · exact .inl still
        · exact .inr ⟨front, interval, now, prefix_refl _, mem, schedule, configured⟩
      · exact .inr (reset.mono (prefix_append _ _))

/-- One handler runs at a time and ends its own run, exactly when no run is claimed while a handler
runs under which the schedule was configured anew. -/
theorem scrubWorkers_exclusive_iff (store : ScrubScheduleStore) (events : List ScrubEvent) :
    (∀ front event, front ++ [event] <+: events →
      ((ScrubWorkers.mk store 0 []).run front).Exclusive event) ↔
    ∀ front event, front ++ [event] <+: events →
      ∀ handler ∈ ((ScrubWorkers.mk store 0 []).run front).active,
        (ScrubWorkers.mk store 0 []).Reset front handler →
          ¬((ScrubWorkers.mk store 0 []).run front).Claims event := by
  generalize begins : ScrubWorkers.mk store 0 [] = start
  constructor
  · intro exclusive front event within handler member _ claims
    have single := (exclusive front event within).single
    cases event with
    | beginRun now =>
      obtain ⟨schedule, returned⟩ := claims_iff.mp claims
      rw [step_of_claimed (Prod.ext rfl returned)] at single
      have here := length_pos_of_mem member
      simp only [length_cons] at single
      omega
    | _ => exact claims
  · intro free
    have single (front : List ScrubEvent) (within : front <+: events) :
        SingleHandler start front := by
      induction front using List.reverseRecOn with
      | nil =>
        subst begins
        constructor <;> simp [ScrubWorkers.run]
      | append_singleton front event ih =>
        exact (ih ((prefix_append _ _).trans within)).step (free front event within)
    intro front event within
    constructor
    · rw [← run_concat]
      exact (single _ within).length
    · intro handler _ _ member _
      exact (single front ((prefix_append _ _).trans within)).last handler member

/-- A run is claimed and the schedule configured anew under it. -/
def reconfiguredScrub : ScrubWorkers :=
  (ScrubWorkers.mk ⟨none, none⟩ 0 []).run
    [.configureAt 3600 3600, .beginRun 7200, .configureAt 3600 7200]

/-- The next due run starts a second handler, and the end of the first one ends it. -/
theorem reconfiguredScrub_not_exclusive : ¬reconfiguredScrub.Exclusive (.beginRun 10800) ∧
    ¬(reconfiguredScrub.step (.beginRun 10800)).Exclusive (.endRun ⟨1, 7200⟩ .ok) := by
  constructor
  · intro exclusive
    exact absurd exclusive.single (by decide +kernel)
  · intro exclusive
    have shown : (reconfiguredScrub.step (.beginRun 10800)).store.state.map
        ScrubScheduleState.runState = some .running := by decide +kernel
    exact absurd (exclusive.own _ _ rfl (by decide +kernel) (Option.map_eq_some_iff.mp shown))
      (by decide +kernel)
end Workers
end ReflinkForest
