import ReflinkForest.Btrfs.CommandOutput
import ReflinkForest.Daemon.MigrationRecord

/-! The migration journal: a record in memory, which `transition` changes first, and the file behind
it. -/
namespace ReflinkForest
open Bytes List
open Except hiding error

inductive MigrationExecutionPhase where
  | copying | verifyingAndPublishing

inductive MigrationExecutionFailure where
  | handlerError | handlerPanic

inductive MigrationExecutionOutcome where
  | idle
  | advanced (migration : MigrationRecord)
  | published (migration : MigrationRecord)
  | failed (migration : MigrationRecord) (phase : MigrationExecutionPhase)
      (failure : MigrationExecutionFailure)

/-- What `catch_unwind` sees of a handler method. -/
inductive HandlerReturn where
  | ok | error | panicked
  deriving DecidableEq

structure MigrationHandler where
  copy : MigrationRecord → HandlerReturn
  verifyAndPublish : MigrationRecord → HandlerReturn

/-- What becomes of the one record write of a call, if it gets that far. -/
inductive WriteFate where
  | stored
  | failed (error : MigrationError)

structure MigrationStatus where
  activeFormatVersion : UInt16
  state : MigrationState
  migration : Option MigrationRecord
  partialMigration : Bool
  resumable : Bool

/-- An open store: its record in memory and the bytes of its file. -/
structure MigrationStore where
  configuredActiveFormatVersion : UInt16
  state : Option MigrationRecord
  file : Option Str
  deriving DecidableEq

abbrev MigrationResult (α : Type) := MigrationStore × Except MigrationError α

open MigrationStore

namespace MigrationStore
variable (store : MigrationStore)

/-- `open` behind the clean-up of the state directory. -/
def openStore (file : Option Str) (configuredActiveFormatVersion : UInt16) :
    Except MigrationError MigrationStore := do
  .require (configuredActiveFormatVersion ≠ 0)
    (.invalidRecord "configured active format version is zero")
  let record ← readMigrationRecord file
  .require (∀ persisted ∈ record,
      persisted.activeFormatVersion = configuredActiveFormatVersion)
    (.activeVersionMismatch configuredActiveFormatVersion
      ((record.map MigrationRecord.activeFormatVersion).getD 0))
  .ok ⟨configuredActiveFormatVersion, record, file⟩

def status : MigrationStatus :=
  match store.state with
  | none => ⟨store.configuredActiveFormatVersion, .notStarted, none, false, false⟩
  | some record =>
    ⟨record.activeFormatVersion, record.state, some record, record.state.isPartial,
      record.state.isPartial⟩

def writeRecordLocked (record : MigrationRecord) (fate : WriteFate) : MigrationResult Unit :=
  match encodeMigrationRecord record with
  | .error error => (store, .error error)
  | .ok bytes =>
    match fate with
    | .stored => ({ store with file := some bytes }, .ok ())
    | .failed error => (store, .error error)

def beginWithId (id : MigrationId) (toFormatVersion : UInt16) (fate : WriteFate) :
    MigrationResult MigrationRecord :=
  match store.state.filter fun record => record.state.isPartial with
  | some existing => (store, .error (.alreadyInProgress existing))
  | none =>
    let fromFormatVersion := (store.state.map MigrationRecord.activeFormatVersion).getD
      store.configuredActiveFormatVersion
    if toFormatVersion ≤ fromFormatVersion then
      (store, .error (.invalidTarget fromFormatVersion toFormatVersion))
    else
      let record : MigrationRecord := ⟨id, fromFormatVersion, toFormatVersion, .copying, 1⟩
      match store.writeRecordLocked record fate with
      | (store, .error error) => (store, .error error)
      | (store, .ok ()) => ({ store with state := some record }, .ok record)

/-- `random` is what the random device gave. -/
def begin (random : Except MigrationError MigrationId) (toFormatVersion : UInt16)
    (fate : WriteFate) : MigrationResult MigrationRecord :=
  match random with
  | .error error => (store, .error error)
  | .ok id => store.beginWithId id toFormatVersion fate

def transition (expected target : MigrationState) (fate : WriteFate) :
    MigrationResult MigrationRecord :=
  match store.state with
  | none => (store, .error .noResumableMigration)
  | some record =>
    if record.state ≠ expected then
      (store, .error (.invalidTransition record.state target))
    else
      -- The record is changed in place: neither failure below takes the change back.
      let record := { record with state := target }
      let store := { store with state := some record }
      if record.transitionCount.toNat + 1 < 2 ^ 64 then
        let record := { record with transitionCount := record.transitionCount + 1 }
        let store := { store with state := some record }
        match store.writeRecordLocked record fate with
        | (store, .error error) => (store, .error error)
        | (store, .ok ()) => (store, .ok record)
      else
        (store, .error .transitionCountOverflow)

def beginValidation (fate : WriteFate) : MigrationResult MigrationRecord :=
  store.transition .copying .validating fate

def publish (fate : WriteFate) : MigrationResult MigrationRecord :=
  store.transition .validating .published fate

def executeOnce (handler : MigrationHandler) (fate : WriteFate) :
    MigrationResult MigrationExecutionOutcome :=
  match store.state with
  | none => (store, .ok .idle)
  | some migration =>
    match migration.state with
    | .notStarted => (store, .ok .idle)
    | .published => (store, .ok (.published migration))
    | .copying =>
      match handler.copy migration with
      | .ok => (store.beginValidation fate).mapOk .advanced
      | .error => (store, .ok (.failed migration .copying .handlerError))
      | .panicked => (store, .ok (.failed migration .copying .handlerPanic))
    | .validating =>
      match handler.verifyAndPublish migration with
      | .ok => (store.publish fate).mapOk .published
      | .error => (store, .ok (.failed migration .verifyingAndPublishing .handlerError))
      | .panicked => (store, .ok (.failed migration .verifyingAndPublishing .handlerPanic))

inductive StateFile where
  | regular (content : Str)
  | other
  deriving DecidableEq

/-- The entries of the state directory in the order of `read_dir`. -/
abbrev StateRoot := List (Str × StateFile)

def migrationRecordFile : Str := ascii "migration-state-v1"
def migrationTempPrefix : Str := ascii ".reflink-forest-migration-"
def migrationTempSuffix : Str := ascii ".tmp"

def IsTemporary (name : Str) : Prop := migrationTempPrefix <+: name ∧ migrationTempSuffix <:+ name

instance (name : Str) : Decidable (IsTemporary name) := inferInstanceAs (Decidable (_ ∧ _))

/-- What is left of the directory. No call to the file system fails by itself. -/
def removeStaleTemporaries : StateRoot → Except MigrationError StateRoot
  | [] => .ok []
  | (name, file) :: rest => do
    .require (isUtf8 name) .unsafeStateFile
    if IsTemporary name then
      .require (file ≠ .other) .unsafeStateFile
      removeStaleTemporaries rest
    else
      let kept ← removeStaleTemporaries rest
      .ok ((name, file) :: kept)

/-- `MigrationStore::open`. -/
def openRoot (root : StateRoot) (configuredActiveFormatVersion : UInt16) :
    Except MigrationError MigrationStore := do
  .require (configuredActiveFormatVersion ≠ 0)
    (.invalidRecord "configured active format version is zero")
  let kept ← removeStaleTemporaries root
  match kept.lookup migrationRecordFile with
  | none => openStore none configuredActiveFormatVersion
  | some (.regular content) => openStore (some content) configuredActiveFormatVersion
  | some .other => .error .unsafeStateFile

theorem openStore_none_eq_ok_iff {version : UInt16} {store : MigrationStore} :
    openStore none version = .ok store ↔ version ≠ 0 ∧ store = ⟨version, none, none⟩ := by
  simp [openStore, readMigrationRecord, require_bind_eq_ok, eq_comm (a := store)]

theorem openStore_some_eq_ok_iff {bytes : Str} {version : UInt16} {store : MigrationStore} :
    openStore (some bytes) version = .ok store ↔ version ≠ 0 ∧ ∃ record,
      encodeMigrationRecord record = .ok bytes ∧ record.activeFormatVersion = version ∧
        store = ⟨version, some record, some bytes⟩ := by
  simp only [openStore, readMigrationRecord, bind_eq_ok_iff, require_eq_ok,
    decodeMigrationRecord_eq_ok_iff, exists_const, ok.injEq]
  constructor
  · rintro ⟨nonzero, read, ⟨_, record, encoded, rfl⟩, version, rfl⟩
    exact ⟨nonzero, record, encoded, version record rfl, rfl⟩
  · rintro ⟨nonzero, record, encoded, version, rfl⟩
    have length := (encodeMigrationRecord_eq_ok_iff.mp encoded).2.1
    exact ⟨nonzero, some record, ⟨length, record, encoded, rfl⟩, by simpa using version, rfl⟩

theorem removeStaleTemporaries_eq_ok_iff {root kept : StateRoot} :
    removeStaleTemporaries root = .ok kept ↔
      (∀ entry ∈ root, isUtf8 entry.1 ∧ (IsTemporary entry.1 → entry.2 ≠ .other)) ∧
        root.filter (fun entry => ¬ IsTemporary entry.1) = kept := by
  induction root generalizing kept with
  | nil => simp [removeStaleTemporaries]
  | cons entry root ih =>
    rw [removeStaleTemporaries, forall_mem_cons]
    by_cases temporary : IsTemporary entry.1
    · simp [temporary, require_bind_eq_ok, ih, and_assoc]
    · simp [temporary, bind_eq_ok_iff, ih, and_assoc]

theorem lookup_filter_temporary (root : StateRoot) :
    (root.filter fun entry => ¬ IsTemporary entry.1).lookup migrationRecordFile =
      root.lookup migrationRecordFile := by
  have permanent : ¬ IsTemporary migrationRecordFile := by decide
  induction root with
  | nil => rfl
  | cons entry root ih =>
    obtain ⟨name, file⟩ := entry
    rw [filter_cons]
    split
    · rw [lookup_cons, lookup_cons, ih]
    · rename_i temporary
      have other : (migrationRecordFile == name) = false := by
        rw [beq_eq_false_iff_ne]
        rintro rfl
        simp [permanent] at temporary
      rw [lookup_cons, other, ih]

/-- A journal opens exactly when the state directory has only names in UTF-8 and no temporary that
is not a file, and its record is missing or the encoding of a valid record for the configured
version, which the store then shows. -/
theorem openRoot_eq_ok_iff {root : StateRoot} {version : UInt16} {store : MigrationStore} :
    openRoot root version = .ok store ↔ version ≠ 0 ∧
      (∀ entry ∈ root, isUtf8 entry.1 ∧ (IsTemporary entry.1 → entry.2 ≠ .other)) ∧
      (root.lookup migrationRecordFile = none ∧ store = ⟨version, none, none⟩ ∨
        ∃ bytes record, root.lookup migrationRecordFile = some (.regular bytes) ∧
          encodeMigrationRecord record = .ok bytes ∧ record.activeFormatVersion = version ∧
            store = ⟨version, some record, some bytes⟩) := by
  simp only [openRoot, bind_eq_ok_iff, exists_require,
    removeStaleTemporaries_eq_ok_iff, and_assoc, exists_and_left, exists_eq_left',
    lookup_filter_temporary]
  refine and_congr_right fun nonzero => and_congr_right fun _ => ?_
  rcases root.lookup migrationRecordFile with _ | content | _
  · simp [openStore_none_eq_ok_iff, nonzero]
  · simp [openStore_some_eq_ok_iff, nonzero]
  · simp
end MigrationStore

inductive MigrationCall where
  | begin (random : Except MigrationError MigrationId) (toFormatVersion : UInt16)
  | beginValidation
  | publish
  | executeOnce (handler : MigrationHandler)

def MigrationStore.call (store : MigrationStore) (fate : WriteFate) : MigrationCall → MigrationStore
  | .begin random toFormatVersion => (store.begin random toFormatVersion fate).1
  | .beginValidation => (store.beginValidation fate).1
  | .publish => (store.publish fate).1
  | .executeOnce handler => (store.executeOnce handler fate).1

section Steps
/-- The record a transition to `target` stores. -/
def MigrationRecord.advance (record : MigrationRecord) (target : MigrationState) :
    MigrationRecord :=
  { record with state := target, transitionCount := record.transitionCount + 1 }

/-- The call takes the record to `target`, after its handler has succeeded if it has one. -/
inductive Moves : MigrationCall → MigrationRecord → MigrationState → Prop where
  | beginValidation {record : MigrationRecord} (state : record.state = .copying) :
      Moves .beginValidation record .validating
  | publish {record : MigrationRecord} (state : record.state = .validating) :
      Moves .publish record .published
  | copied {record : MigrationRecord} {handler : MigrationHandler} (state : record.state = .copying)
      (copied : handler.copy record = .ok) : Moves (.executeOnce handler) record .validating
  | verified {record : MigrationRecord} {handler : MigrationHandler}
      (state : record.state = .validating) (verified : handler.verifyAndPublish record = .ok) :
      Moves (.executeOnce handler) record .published

/-- The transition of this record does not reach the file. -/
def Lost (record : MigrationRecord) (fate : WriteFate) : Prop :=
  ¬record.transitionCount.toNat + 1 < 2 ^ 64 ∨ fate ≠ .stored

structure MigrationStore.Valid (store : MigrationStore) : Prop where
  configured : store.configuredActiveFormatVersion ≠ 0
  record : ∀ record ∈ store.state, record.validate = .ok ()

variable {store : MigrationStore} {fate : WriteFate} {call : MigrationCall}
  {record : MigrationRecord} {target : MigrationState}

theorem Moves.state_ne (moves : Moves call record target) :
    record.state ≠ target ∧ target ≠ .notStarted := by
  cases moves <;> simp_all

theorem MigrationRecord.advance_validate (valid : record.validate = .ok ())
    (started : target ≠ .notStarted) (room : record.transitionCount.toNat + 1 < 2 ^ 64) :
    (record.advance target).validate = .ok () := by
  obtain ⟨versions, newer, _, _⟩ := MigrationRecord.validate_eq_ok_iff.mp valid
  have counted : record.transitionCount + 1 ≠ 0 := by
    intro zero
    have := congrArg UInt64.toNat zero
    rw [UInt64.toNat_add, UInt64.toNat_one, Nat.mod_eq_of_lt room, UInt64.toNat_zero] at this
    omega
  exact MigrationRecord.validate_eq_ok_iff.mpr ⟨versions, newer, started, counted⟩

theorem encodeMigrationRecord_of_validate (valid : record.validate = .ok ()) :
    ∃ bytes, encodeMigrationRecord record = .ok bytes := by
  rw [encodeMigrationRecord, valid]
  exact ⟨_, rfl⟩

/-- A transition that starts either reaches the file or stays in memory only. -/
theorem transition_cases (valid : store.Valid) (shown : store.state = some record)
    (started : target ≠ .notStarted) :
    (¬Lost record fate ∧ ∃ bytes, encodeMigrationRecord (record.advance target) = .ok bytes ∧
      (store.transition record.state target fate).1 =
        { store with state := some (record.advance target), file := some bytes }) ∨
    (Lost record fate ∧ ∃ changed, changed.state = target ∧ changed.id = record.id ∧
      changed.validate = .ok () ∧
      (store.transition record.state target fate).1 = { store with state := some changed }) := by
  have recordValid := valid.record record shown
  rw [transition, shown]
  dsimp only
  rw [if_neg (not_not.mpr rfl)]
  by_cases room : record.transitionCount.toNat + 1 < 2 ^ 64
  · have next := MigrationRecord.advance_validate recordValid started room
    obtain ⟨bytes, encoded⟩ := encodeMigrationRecord_of_validate next
    rw [if_pos room, writeRecordLocked]
    unfold MigrationRecord.advance at encoded next
    rw [encoded]
    cases fate with
    | stored =>
      have kept : ¬Lost record .stored := fun lost => lost.elim (absurd room) (absurd rfl)
      exact .inl ⟨kept, bytes, encoded, rfl⟩
    | failed error => exact .inr ⟨.inr (by simp), record.advance target, rfl, rfl, next, rfl⟩
  · rw [if_neg room]
    obtain ⟨versions, newer, _, counted⟩ := MigrationRecord.validate_eq_ok_iff.mp recordValid
    exact .inr ⟨.inl room, { record with state := target }, rfl, rfl,
      MigrationRecord.validate_eq_ok_iff.mpr ⟨versions, newer, started, counted⟩, rfl⟩

theorem call_of_moves (shown : store.state = some record) (moves : Moves call record target) :
    store.call fate call = (store.transition record.state target fate).1 := by
  cases moves with
  | beginValidation state => rw [state]; rfl
  | publish state => rw [state]; rfl
  | copied state copied =>
    simp only [call, executeOnce, shown, state, copied]
    rfl
  | verified state verified =>
    simp only [call, executeOnce, shown, state, verified]
    rfl

/-- What one call can do to a store. -/
inductive StoreStep (store : MigrationStore) (fate : WriteFate) (call : MigrationCall) :
    MigrationStore → Prop where
  | unchanged (still : ∀ record target, store.state = some record → ¬Moves call record target) :
      StoreStep store fate call store
  | begun {id : MigrationId} {toFormatVersion : UInt16} {record : MigrationRecord} {bytes : Str}
      (called : call = .begin (.ok id) toFormatVersion)
      (idle : ∀ earlier ∈ store.state, earlier.state.isPartial = false)
      (fresh : record.id = id ∧ record.state = .copying ∧ record.transitionCount = 1)
      (encoded : encodeMigrationRecord record = .ok bytes) :
      StoreStep store fate call { store with state := some record, file := some bytes }
  | advanced {record : MigrationRecord} {target : MigrationState} {bytes : Str}
      (shown : store.state = some record) (moves : Moves call record target)
      (kept : ¬Lost record fate)
        (encoded : encodeMigrationRecord (record.advance target) = .ok bytes) :
      StoreStep store fate call
        { store with state := some (record.advance target), file := some bytes }
  | stranded {record changed : MigrationRecord} {target : MigrationState}
      (shown : store.state = some record) (moves : Moves call record target)
      (lost : Lost record fate) (state : changed.state = target) (same : changed.id = record.id)
      (valid : changed.validate = .ok ()) :
      StoreStep store fate call { store with state := some changed }

theorem storeStep_of_moves (valid : store.Valid) (shown : store.state = some record)
    (moves : Moves call record target) : StoreStep store fate call (store.call fate call) := by
  rw [call_of_moves shown moves]
  rcases transition_cases valid shown moves.state_ne.2 with
    ⟨kept, bytes, encoded, after⟩ | ⟨lost, changed, state, same, changedValid, after⟩
  · rw [after]
    exact .advanced shown moves kept encoded
  · rw [after]
    exact .stranded shown moves lost state same changedValid

theorem storeStep_of_eq (same : store.call fate call = store)
    (still : ∀ record target, store.state = some record → ¬Moves call record target) :
    StoreStep store fate call (store.call fate call) := by
  rw [same]
  exact .unchanged still

theorem transition_of_ne {expected : MigrationState}
    (differs : ∀ record ∈ store.state, record.state ≠ expected) :
    (store.transition expected target fate).1 = store := by
  rw [transition]
  split
  · rfl
  · rename_i record shown
    rw [if_pos (differs record shown)]

theorem writeRecordLocked_cases (store : MigrationStore) (record : MigrationRecord)
    (fate : WriteFate) :
    (∃ error, store.writeRecordLocked record fate = (store, .error error)) ∨
      ∃ bytes, encodeMigrationRecord record = .ok bytes ∧
        store.writeRecordLocked record fate = ({ store with file := some bytes }, .ok ()) := by
  rw [writeRecordLocked]
  cases encodeMigrationRecord record with
  | error error => exact .inl ⟨error, rfl⟩
  | ok bytes =>
    cases fate with
    | stored => exact .inr ⟨bytes, rfl, rfl⟩
    | failed error => exact .inl ⟨error, rfl⟩

theorem beginWithId_cases (id : MigrationId) (toFormatVersion : UInt16) :
    (store.beginWithId id toFormatVersion fate).1 = store ∨
      ∃ record bytes, (∀ earlier ∈ store.state, earlier.state.isPartial = false) ∧
        (record.id = id ∧ record.state = .copying ∧ record.transitionCount = 1) ∧
        encodeMigrationRecord record = .ok bytes ∧
        (store.beginWithId id toFormatVersion fate).1 =
          { store with state := some record, file := some bytes } := by
  unfold beginWithId
  split
  · exact .inl rfl
  rename_i idle
  dsimp only
  split
  · exact .inl rfl
  rcases writeRecordLocked_cases store ⟨id, (store.state.map
      MigrationRecord.activeFormatVersion).getD store.configuredActiveFormatVersion,
      toFormatVersion, .copying, 1⟩ fate with ⟨error, failed⟩ | ⟨bytes, encoded, stored⟩
  · rw [failed]
    exact .inl rfl
  · rw [stored]
    refine .inr ⟨_, bytes, ?_, ⟨rfl, rfl, rfl⟩, encoded, rfl⟩
    simpa [Option.filter_eq_none_iff] using idle

theorem storeStep_begin (random : Except MigrationError MigrationId) (toFormatVersion : UInt16) :
    StoreStep store fate (.begin random toFormatVersion)
      (store.call fate (.begin random toFormatVersion)) := by
  have still : ∀ record target, store.state = some record →
      ¬Moves (.begin random toFormatVersion) record target := by
    intro _ _ _ moves
    cases moves
  cases random with
  | error error => exact storeStep_of_eq rfl still
  | ok id =>
    rcases beginWithId_cases id toFormatVersion with same | ⟨_, _, idle, fresh, encoded, after⟩
    · exact storeStep_of_eq same still
    · have called : store.call fate (.begin (.ok id) toFormatVersion) = _ := after
      rw [called]
      exact .begun rfl idle fresh encoded

theorem storeStep_transition (expected target : MigrationState)
    (called : store.call fate call = (store.transition expected target fate).1)
    (moves_iff : ∀ record target', store.state = some record →
      (Moves call record target' ↔ record.state = expected ∧ target' = target))
    (valid : store.Valid) : StoreStep store fate call (store.call fate call) := by
  by_cases here : ∃ record, store.state = some record ∧ record.state = expected
  · obtain ⟨record, shown, state⟩ := here
    exact storeStep_of_moves valid shown ((moves_iff record target shown).mpr ⟨state, rfl⟩)
  · have differs : ∀ record ∈ store.state, record.state ≠ expected := fun record shown state =>
      here ⟨record, shown, state⟩
    refine storeStep_of_eq (called.trans (transition_of_ne differs)) ?_
    intro record target' shown moves
    exact differs record shown ((moves_iff record target' shown).mp moves).1

theorem storeStep_executeOnce (valid : store.Valid) (handler : MigrationHandler) :
    StoreStep store fate (.executeOnce handler) (store.call fate (.executeOnce handler)) := by
  by_cases moving : ∃ record target, store.state = some record ∧
      Moves (.executeOnce handler) record target
  · obtain ⟨record, target, shown, moves⟩ := moving
    exact storeStep_of_moves valid shown moves
  · refine storeStep_of_eq ?_ fun record target shown moves => moving ⟨record, target, shown, moves⟩
    rw [call, executeOnce]
    split
    · rfl
    rename_i migration shown
    split
    · rfl
    · rfl
    · rename_i state
      split
      · rename_i copied
        exact absurd ⟨migration, _, shown, .copied state copied⟩ moving
      · rfl
      · rfl
    · rename_i state
      split
      · rename_i verified
        exact absurd ⟨migration, _, shown, .verified state verified⟩ moving
      · rfl
      · rfl

theorem storeStep (valid : store.Valid) (fate : WriteFate) (call : MigrationCall) :
    StoreStep store fate call (store.call fate call) := by
  cases call with
  | begin random toFormatVersion => exact storeStep_begin random toFormatVersion
  | beginValidation =>
    apply storeStep_transition .copying .validating rfl _ valid
    intro record target' _
    constructor
    · intro moves
      cases moves with
      | beginValidation state => exact ⟨state, rfl⟩
    · rintro ⟨state, rfl⟩
      exact .beginValidation state
  | publish =>
    apply storeStep_transition .validating .published rfl _ valid
    intro record target' _
    constructor
    · intro moves
      cases moves with
      | publish state => exact ⟨state, rfl⟩
    · rintro ⟨state, rfl⟩
      exact .publish state
  | executeOnce handler => exact storeStep_executeOnce valid handler
end Steps

section Agreement
/-- The record in memory is the one in the file. -/
def MigrationStore.Agrees (store : MigrationStore) : Prop :=
  readMigrationRecord store.file = .ok store.state

/-- A target version is reported as active only if the file says it is published. -/
def MigrationStore.StatusDurable (store : MigrationStore) : Prop :=
  ∀ record, store.status.migration = some record →
    store.status.activeFormatVersion = record.toFormatVersion →
    ∃ durable, readMigrationRecord store.file = .ok (some durable) ∧
      durable.state = .published ∧ durable.toFormatVersion = record.toFormatVersion

def MigrationStore.run (store : MigrationStore) (calls : List (MigrationCall × WriteFate)) :
    MigrationStore :=
  calls.foldl (fun store call => store.call call.2 call.1) store

/-- The call changes the record in memory and the change does not reach the file. -/
def Strands (store : MigrationStore) (call : MigrationCall) (fate : WriteFate) : Prop :=
  ∃ record target, store.state = some record ∧ Moves call record target ∧ Lost record fate

variable {store : MigrationStore} {fate : WriteFate} {call : MigrationCall}

theorem openStore_eq_ok {file : Option Str} {configured : UInt16}
    (opened : openStore file configured = .ok store) :
    store.Valid ∧ store.Agrees ∧ store.file = file := by
  simp only [openStore, bind_eq_ok_iff, require_eq_ok] at opened
  obtain ⟨_, nonzero, record, read, _, _, same⟩ := opened
  cases same
  refine ⟨⟨nonzero, ?_⟩, read, rfl⟩
  intro shown mem
  have found : record = some shown := mem
  exact readMigrationRecord_validate (found ▸ read)

theorem MigrationStore.Valid.after_call (valid : store.Valid) (fate : WriteFate)
    (call : MigrationCall) :
    (store.call fate call).Valid := by
  have holds (record : MigrationRecord) (h : record.validate = .ok ()) :
      ∀ shown ∈ some record, shown.validate = .ok () := by
    rintro _ ⟨⟩
    exact h
  have step := storeStep valid fate call
  generalize store.call fate call = after at step
  cases step with
  | unchanged _ => exact valid
  | begun _ _ _ encoded | advanced _ _ _ encoded =>
    exact ⟨valid.configured, holds _ (encodeMigrationRecord_eq_ok_iff.mp encoded).1⟩
  | stranded _ _ _ _ _ changed => exact ⟨valid.configured, holds _ changed⟩

theorem MigrationStore.Agrees.after_call (agrees : store.Agrees) (valid : store.Valid)
    (kept : ¬Strands store call fate) : (store.call fate call).Agrees := by
  have step := storeStep valid fate call
  generalize store.call fate call = after at step
  cases step with
  | unchanged _ => exact agrees
  | begun _ _ _ encoded | advanced _ _ _ encoded => exact readMigrationRecord_encode encoded
  | stranded shown moves lost _ _ _ => exact absurd ⟨_, _, shown, moves, lost⟩ kept

theorem Strands.not_agrees (strands : Strands store call fate) (agrees : store.Agrees)
    (valid : store.Valid) : ¬(store.call fate call).Agrees := by
  obtain ⟨record, target, shown, moves, lost⟩ := strands
  rw [call_of_moves shown moves]
  rcases transition_cases valid shown moves.state_ne.2 with
    ⟨kept, _⟩ | ⟨_, changed, state, _, _, after⟩
  · exact absurd lost kept
  · rw [after]
    intro ahead
    have same : some record = some changed := by
      rw [← shown]
      exact ok.inj (agrees.symm.trans ahead)
    cases same
    exact moves.state_ne.1 state

theorem MigrationStore.Agrees.statusDurable (agrees : store.Agrees) (valid : store.Valid) :
    store.StatusDurable := by
  intro record reported active
  cases shown : store.state with
  | none => simp [status, shown] at reported
  | some current =>
    simp only [status, shown, Option.some.injEq] at reported active
    subst reported
    have newer := (MigrationRecord.validate_eq_ok_iff.mp (valid.record current shown)).2.1
    refine ⟨current, shown ▸ agrees, ?_, rfl⟩
    by_contra unpublished
    rw [MigrationRecord.activeFormatVersion, if_neg unpublished] at active
    exact absurd newer (active ▸ UInt16.lt_irrefl _)

theorem MigrationStore.Valid.run (valid : store.Valid) (calls : List (MigrationCall × WriteFate)) :
    (store.run calls).Valid := by
  induction calls generalizing store with
  | nil => exact valid
  | cons call calls ih => exact ih (valid.after_call call.2 call.1)

theorem MigrationStore.run_concat (calls : List (MigrationCall × WriteFate))
    (call : MigrationCall × WriteFate) :
    store.run (calls ++ [call]) = (store.run calls).call call.2 call.1 :=
  foldl_concat _ _ _ _

/-- After every call of a run the store agrees with its file, exactly when no call of the run
strands a transition in memory. -/
theorem migrationStore_agrees_iff {file : Option Str} {configured : UInt16}
    (opened : openStore file configured = .ok store)
    (calls : List (MigrationCall × WriteFate)) :
    (∀ front, front <+: calls → (store.run front).Agrees ∧ (store.run front).StatusDurable) ↔
      ∀ front call fate, front ++ [(call, fate)] <+: calls →
        ¬Strands (store.run front) call fate := by
  obtain ⟨valid, agrees, _⟩ := openStore_eq_ok opened
  constructor
  · intro always front call fate within strands
    have before := (always front ((prefix_append _ _).trans within)).1
    have after := (always _ within).1
    rw [run_concat] at after
    exact strands.not_agrees before (valid.run front) after
  · intro kept front
    induction front using reverseRecOn with
    | nil => exact fun _ => ⟨agrees, agrees.statusDurable valid⟩
    | append_singleton front call ih =>
      intro within
      have before := (ih ((prefix_append _ _).trans within)).1
      have after := before.after_call (valid.run front) (kept front call.1 call.2 within)
      rw [run_concat]
      exact ⟨after, after.statusDurable ((valid.run front).after_call _ _)⟩

def firstMigration : MigrationRecord :=
  ⟨⟨List.Vector.replicate 16 7⟩, 1, 2, .copying, 1⟩

/-- A migration whose two transitions are not written. -/
def unwrittenMigration : List (MigrationCall × WriteFate) :=
  [(.begin (.ok firstMigration.id) 2, .stored), (.beginValidation, .failed .io),
    (.publish, .failed .io)]

theorem unwrittenMigration_reported_active : ∃ store : MigrationStore,
    openStore none 1 = .ok store ∧
      (store.run unwrittenMigration).status.activeFormatVersion = 2 ∧
      readMigrationRecord (store.run unwrittenMigration).file = .ok (some firstMigration) ∧
      ¬(store.run unwrittenMigration).Agrees ∧ ¬(store.run unwrittenMigration).StatusDurable := by
  have file : readMigrationRecord
      (MigrationStore.run ⟨1, none, none⟩ unwrittenMigration).file = .ok (some firstMigration) := by
    decide +kernel
  have state : (MigrationStore.run ⟨1, none, none⟩ unwrittenMigration).state =
      some ⟨firstMigration.id, 1, 2, .published, 3⟩ := by
    decide +kernel
  refine ⟨⟨1, none, none⟩, by decide +kernel, by decide +kernel, file, ?_, ?_⟩
  · intro agrees
    rw [MigrationStore.Agrees, file, state] at agrees
    exact absurd agrees (by decide)
  · intro durable
    obtain ⟨found, read, published, _⟩ := durable ⟨firstMigration.id, 1, 2, .published, 3⟩
      (by simp [status, state]) (by simp [status, state]; rfl)
    rw [file] at read
    cases read
    cases published

theorem writtenMigration_agrees : ∃ store : MigrationStore,
    openStore none 1 = .ok store ∧
      (store.run [(.begin (.ok firstMigration.id) 2, .stored),
        (.beginValidation, .stored)]).Agrees := by
  have opened : openStore none 1 = .ok ⟨1, none, none⟩ := by decide +kernel
  have begun : (MigrationStore.run ⟨1, none, none⟩
      [(.begin (.ok firstMigration.id) 2, .stored)]).state = some firstMigration := by
    decide +kernel
  refine ⟨_, opened, ((migrationStore_agrees_iff opened _).mpr ?_ _ (prefix_refl _)).1⟩
  rintro front call fate ⟨rear, split⟩ ⟨record, target, shown, moves, lost⟩
  rcases front with _ | ⟨first, _ | ⟨second, front⟩⟩
  · cases shown
  · simp only [cons_append, nil_append, cons.injEq, Prod.mk.injEq] at split
    obtain ⟨rfl, ⟨rfl, rfl⟩, _⟩ := split
    rw [begun] at shown
    cases shown
    exact lost.elim (absurd (by decide)) (absurd rfl)
  · simp at split
end Agreement
end ReflinkForest
