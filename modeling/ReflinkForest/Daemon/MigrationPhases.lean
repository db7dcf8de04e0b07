import ReflinkForest.Daemon.MigrationStore

/-! The order of the durable phases of a migration, with failing writes, crashes and reopened
stores. -/
namespace ReflinkForest
open Bytes MigrationStore

inductive MigrationWork where
  | begin (random : Except MigrationError MigrationId) (toFormatVersion : UInt16)
  | executeOnce (handler : MigrationHandler)

def MigrationWork.call : MigrationWork → MigrationCall
  | .begin random toFormatVersion => .begin random toFormatVersion
  | .executeOnce handler => .executeOnce handler

/-- A call that returns, or one in which the process dies, with or without its record write, and
the store is opened again. -/
inductive MigrationEvent where
  | returns (work : MigrationWork) (fate : WriteFate)
  | crashes (work : MigrationWork) (fate : WriteFate) (configuredActiveFormatVersion : UInt16)

open MigrationEvent

namespace MigrationEvent
def work : MigrationEvent → MigrationWork
  | .returns work _ | .crashes work _ _ => work

def fate : MigrationEvent → WriteFate
  | .returns _ fate | .crashes _ fate _ => fate

def step (store : MigrationStore) : MigrationEvent → Except MigrationError MigrationStore
  | .returns work fate => .ok (store.call fate work.call)
  | .crashes work fate configuredActiveFormatVersion =>
    MigrationStore.openStore (store.call fate work.call).file configuredActiveFormatVersion

def run (store : MigrationStore) (events : List MigrationEvent) :
    Except MigrationError MigrationStore :=
  events.foldlM step store
end MigrationEvent

/-- The changes of the durable record that the phases allow. -/
inductive DurableChange (work : MigrationWork) :
    Option MigrationRecord → Option MigrationRecord → Prop where
  | starts {id : MigrationId} {toFormatVersion : UInt16} {old : Option MigrationRecord}
      {record : MigrationRecord} (begins : work = .begin (.ok id) toFormatVersion)
      (finished : ∀ earlier ∈ old, earlier.state = .published) (named : record.id = id)
      (state : record.state = .copying) : DurableChange work old (some record)
  | copied {record : MigrationRecord} {handler : MigrationHandler}
      (turn : work = .executeOnce handler) (state : record.state = .copying)
      (copied : handler.copy record = .ok) :
      DurableChange work (some record) (some (record.advance .validating))
  | published {record : MigrationRecord} {handler : MigrationHandler}
      (turn : work = .executeOnce handler) (state : record.state = .validating)
      (verified : handler.verifyAndPublish record = .ok) :
      DurableChange work (some record) (some (record.advance .published))

/-- The handler method of this turn does not return `Ok`. -/
def MigrationHandler.Fails (handler : MigrationHandler) (record : MigrationRecord) : Prop :=
  (record.state = .copying → handler.copy record ≠ .ok) ∧
    (record.state = .validating → handler.verifyAndPublish record ≠ .ok)

structure PhaseOrdered (before : MigrationStore) (event : MigrationEvent) (after : MigrationStore) :
    Prop where
  change : ∀ old new, readMigrationRecord before.file = .ok old →
    readMigrationRecord after.file = .ok new → old ≠ new → DurableChange event.work old new
  failure : ∀ handler, event.work = .executeOnce handler →
    (∀ record ∈ before.state, handler.Fails record) → after.file = before.file

section Steps
/-- How the record in memory stands to the one in the file. -/
inductive Standing (store : MigrationStore) : Prop where
  | agrees (agrees : store.Agrees)
  | behind {durable current : MigrationRecord}
      (read : readMigrationRecord store.file = .ok (some durable))
      (shown : store.state = some current)
      (order : durable.state = .copying ∧ current.state = .validating ∨
        durable.state.isPartial = true ∧ current.state = .published)

variable {store before after start : MigrationStore} {event : MigrationEvent}

theorem MigrationEvent.step_file (h : event.step before = .ok after) :
    after.file = (before.call event.fate event.work.call).file := by
  cases event with
  | returns work fate =>
    cases h
    rfl
  | crashes work fate configured => exact (openStore_eq_ok h).2.2

theorem Standing.after_call (standing : Standing store) (valid : store.Valid) (fate : WriteFate)
    (call : MigrationCall) : Standing (store.call fate call) := by
  have step := storeStep valid fate call
  generalize store.call fate call = after at step
  cases step with
  | unchanged _ => exact standing
  | begun _ _ _ encoded | advanced _ _ _ encoded =>
    exact .agrees (readMigrationRecord_encode encoded)
  | @stranded record changed target shown moves _ state _ _ =>
    cases standing with
    | agrees agrees =>
      have read : readMigrationRecord store.file = .ok (some record) := shown ▸ agrees
      refine .behind read rfl ?_
      cases moves <;> simp_all [MigrationState.isPartial]
    | behind read current order =>
      rw [shown] at current
      cases current
      refine .behind read rfl ?_
      cases moves <;> simp_all [MigrationState.isPartial]

theorem MigrationEvent.step_standing (standing : Standing before) (valid : before.Valid)
    (h : event.step before = .ok after) : Standing after ∧ after.Valid := by
  cases event with
  | returns work fate =>
    cases h
    exact ⟨standing.after_call valid _ _, valid.after_call _ _⟩
  | crashes work fate configured =>
    obtain ⟨opened, agrees, _⟩ := openStore_eq_ok h
    exact ⟨.agrees agrees, opened⟩

theorem MigrationEvent.run_standing {events : List MigrationEvent} (standing : Standing start)
    (valid : start.Valid) (h : MigrationEvent.run start events = .ok store) :
    Standing store ∧ store.Valid := by
  induction events generalizing start with
  | nil =>
    cases h
    exact ⟨standing, valid⟩
  | cons event events ih =>
    obtain ⟨next, first, rest⟩ := Except.bind_eq_ok_iff.mp h
    obtain ⟨standing, valid⟩ := step_standing standing valid first
    exact ih standing valid rest
end Steps

section Ordered
variable {before after : MigrationStore} {event : MigrationEvent}

variable {old new : Option MigrationRecord}

theorem read_injective {file : Option Str} (first : readMigrationRecord file = .ok old)
    (second : readMigrationRecord file = .ok new) :
    old = new := Except.ok.inj (first.symm.trans second)

theorem durableChange_of_agrees (agrees : before.Agrees) (valid : before.Valid)
    (first : readMigrationRecord before.file = .ok old)
    (second : readMigrationRecord (before.call event.fate event.work.call).file = .ok new)
    (differs : old ≠ new) : DurableChange event.work old new := by
  have shown : before.state = old := Except.ok.inj (agrees.symm.trans first)
  have step := storeStep valid event.fate event.work.call
  generalize before.call event.fate event.work.call = next at step second
  cases step with
  | unchanged _ | stranded _ _ _ _ _ _ => exact absurd (read_injective first second) differs
  | @begun id _ record _ called idle fresh encoded =>
    cases read_injective second (readMigrationRecord_encode encoded)
    cases worked : event.work with
    | executeOnce handler => simp [worked, MigrationWork.call] at called
    | begin random toFormatVersion =>
      simp only [worked, MigrationWork.call, MigrationCall.begin.injEq] at called
      have begins : MigrationWork.begin random toFormatVersion =
        .begin (.ok id) toFormatVersion := by
        rw [called.1]
      refine .starts begins ?_ fresh.1 fresh.2.1
      intro earlier mem
      have started := (MigrationRecord.validate_eq_ok_iff.mp
        (valid.record earlier (shown ▸ mem))).2.2.1
      have finished := idle earlier (shown ▸ mem)
      revert started finished
      cases earlier.state <;> simp [MigrationState.isPartial]
  | @advanced record target bytes current moves _ encoded =>
    cases read_injective second (readMigrationRecord_encode encoded)
    rw [current] at shown
    cases shown
    cases worked : event.work with
    | begin random toFormatVersion =>
      rw [worked] at moves
      cases moves
    | executeOnce handler =>
      rw [worked] at moves
      cases moves with
      | copied state copied => exact .copied rfl state copied
      | verified state verified => exact .published rfl state verified

theorem DurableChange.states {work : MigrationWork} {old new : MigrationRecord}
    (change : DurableChange work (some old) (some new)) :
    old.state = .published ∧ new.state = .copying ∨
      old.state = .copying ∧ new.state = .validating ∨
      old.state = .validating ∧ new.state = .published := by
  cases change with
  | starts _ finished _ state => exact .inl ⟨finished old rfl, state⟩
  | copied _ state _ => exact .inr (.inl ⟨state, rfl⟩)
  | published _ state _ => exact .inr (.inr ⟨state, rfl⟩)

/-- A change by a store that runs ahead of its file is none the phases allow. -/
theorem not_durableChange_of_behind {durable current : MigrationRecord}
    (read : readMigrationRecord before.file = .ok (some durable))
    (shown : before.state = some current)
    (order : durable.state = .copying ∧ current.state = .validating ∨
      durable.state.isPartial = true ∧ current.state = .published) (valid : before.Valid)
    (second : readMigrationRecord (before.call event.fate event.work.call).file = .ok new)
    (differs : some durable ≠ new) : ¬DurableChange event.work (some durable) new := by
  have step := storeStep valid event.fate event.work.call
  generalize before.call event.fate event.work.call = next at step second
  cases step with
  | unchanged _ | stranded _ _ _ _ _ _ => exact absurd (read_injective read second) differs
  | begun _ _ fresh encoded =>
    intro change
    cases read_injective second (readMigrationRecord_encode encoded)
    have states := change.states
    rcases order with ⟨copying, _⟩ | ⟨partly, _⟩ <;> simp_all [MigrationState.isPartial]
  | @advanced record target bytes found moves _ encoded =>
    intro change
    cases read_injective second (readMigrationRecord_encode encoded)
    rw [shown] at found
    cases found
    have states := change.states
    generalize event.work.call = called at moves
    cases moves <;> simp_all [MigrationRecord.advance]

theorem file_of_handler_fails {handler : MigrationHandler} (valid : before.Valid)
    (turn : event.work = .executeOnce handler)
    (fails : ∀ record ∈ before.state, handler.Fails record) :
    (before.call event.fate event.work.call).file = before.file := by
  have step := storeStep valid event.fate event.work.call
  rw [turn] at step ⊢
  generalize before.call event.fate (MigrationWork.executeOnce handler).call = next at step
  cases step with
  | unchanged _ => rfl
  | stranded _ _ _ _ _ _ => rfl
  | begun called _ _ _ => simp [MigrationWork.call] at called
  | advanced shown moves _ _ =>
    cases moves with
    | copied state copied => exact absurd copied ((fails _ shown).1 state)
    | verified state verified => exact absurd verified ((fails _ shown).2 state)

/-- The durable phases of a run are ordered exactly when every event that changes the durable
record starts with that record in memory. -/
theorem migrationPhases_ordered_iff {file : Option Str} {configured : UInt16}
    {start : MigrationStore} (opened : openStore file configured = .ok start)
    (events : List MigrationEvent) :
    (∀ front event before after, front ++ [event] <+: events →
      MigrationEvent.run start front = .ok before → event.step before = .ok after →
      PhaseOrdered before event after) ↔
    ∀ front event before after old new, front ++ [event] <+: events →
      MigrationEvent.run start front = .ok before → event.step before = .ok after →
      readMigrationRecord before.file = .ok old → readMigrationRecord after.file = .ok new →
      old ≠ new → before.Agrees := by
  obtain ⟨startValid, agreesAtStart, _⟩ := openStore_eq_ok opened
  constructor
  · intro ordered front event before after old new within earlier now first second differs
    obtain ⟨standing, valid⟩ :=
      run_standing (.agrees agreesAtStart) startValid earlier
    cases standing with
    | agrees agrees => exact agrees
    | behind read shown order =>
      cases read_injective first read
      have change := (ordered _ _ _ _ within earlier now).change _ _ read second differs
      rw [step_file now] at second
      exact absurd change (not_durableChange_of_behind read shown order valid second differs)
  · intro agreeing front event before after within earlier now
    obtain ⟨_, valid⟩ := run_standing (.agrees agreesAtStart) startValid earlier
    refine ⟨?_, ?_⟩
    · intro old new first second differs
      have agrees := agreeing _ _ _ _ _ _ within earlier now first second differs
      rw [step_file now] at second
      exact durableChange_of_agrees agrees valid first second differs
    · intro handler turn fails
      rw [step_file now]
      exact file_of_handler_fails valid turn fails

def willingHandler : MigrationHandler := ⟨fun _ => .ok, fun _ => .ok⟩

/-- The write after the copy fails, and the next turn of the same process publishes. -/
def skippedValidation : List MigrationEvent :=
  [.returns (.begin (.ok firstMigration.id) 2) .stored,
    .returns (.executeOnce willingHandler) (.failed .io),
    .returns (.executeOnce willingHandler) .stored]

theorem skippedValidation_publishes_copying : ∃ start before after : MigrationStore,
    openStore none 1 = .ok start ∧
      MigrationEvent.run start (skippedValidation.take 2) = .ok before ∧
      MigrationEvent.run start skippedValidation = .ok after ∧
      readMigrationRecord before.file = .ok (some firstMigration) ∧
      readMigrationRecord after.file = .ok (some ⟨firstMigration.id, 1, 2, .published, 3⟩) ∧
      ¬PhaseOrdered before (.returns (.executeOnce willingHandler) .stored) after := by
  have first : readMigrationRecord (MigrationStore.run ⟨1, none, none⟩
      [(.begin (.ok firstMigration.id) 2, .stored),
        (.executeOnce willingHandler, .failed .io)]).file = .ok (some firstMigration) := by
    decide +kernel
  have second : readMigrationRecord (MigrationStore.run ⟨1, none, none⟩
      [(.begin (.ok firstMigration.id) 2, .stored), (.executeOnce willingHandler, .failed .io),
        (.executeOnce willingHandler, .stored)]).file =
      .ok (some ⟨firstMigration.id, 1, 2, .published, 3⟩) := by
    decide +kernel
  refine ⟨⟨1, none, none⟩, _, _, by decide +kernel, rfl, rfl, first, second, ?_⟩
  intro ordered
  have change := ordered.change _ _ first second (by decide)
  rcases change.states with ⟨old, _⟩ | ⟨_, new⟩ | ⟨old, _⟩
  · cases old
  · cases new
  · cases old

theorem copiedMigration_ordered : ∃ start before after : MigrationStore,
    openStore none 1 = .ok start ∧
      MigrationEvent.run start [.returns (.begin (.ok firstMigration.id) 2) .stored] = .ok before ∧
      step before (.returns (.executeOnce willingHandler) .stored) = .ok after ∧
      PhaseOrdered before (.returns (.executeOnce willingHandler) .stored) after := by
  have opened : openStore none 1 = .ok ⟨1, none, none⟩ := by decide +kernel
  have begun : (MigrationStore.run ⟨1, none, none⟩
      [(.begin (.ok firstMigration.id) 2, .stored)]).Agrees := by
    unfold MigrationStore.Agrees
    decide +kernel
  refine ⟨_, _, _, opened, rfl, rfl, (migrationPhases_ordered_iff opened
    [.returns (.begin (.ok firstMigration.id) 2) .stored,
      .returns (.executeOnce willingHandler) .stored]).mpr ?_
    [.returns (.begin (.ok firstMigration.id) 2) .stored] _ _ _ (List.prefix_refl _) rfl rfl⟩
  rintro front event before after old new ⟨rear, split⟩ earlier now first second differs
  rcases front with _ | ⟨one, _ | ⟨two, front⟩⟩
  · cases earlier
    exact (openStore_eq_ok opened).2.1
  · simp only [List.cons_append, List.nil_append, List.cons.injEq] at split
    obtain ⟨rfl, _⟩ := split
    cases earlier
    exact begun
  · simp at split
end Ordered
end ReflinkForest
