import ReflinkForest.Lib.Fallible
import ReflinkForest.Store.CrashSafety
import ReflinkForest.Store.SealedChunk

/-! The rotating chunk writer: one open chunk at a time, sealed and replaced between complete
records. -/
namespace ReflinkForest
open Bytes Fallible ChunkWriter

structure RotatedRecordLocation where
  generation : UInt32
  chunkId : UInt64
  location : RecordLocation
  dedicatedOversized : Bool
  deriving DecidableEq

structure RotatingChunkWriter where
  generation : UInt32
  targetSize : UInt64
  createdUnixSecs : UInt64
  nextChunkId : UInt64
  active : Option ChunkWriter

/-- How a call ends without a value: an `Err`, or the message of an `expect`. -/
inductive Stop where
  | error (error : StoreError)
  | panic (message : String)
  deriving DecidableEq

/-- The writer with the directory and the catalog it works on. `created` lists the chunks whose
files it has created, oldest first. -/
structure Rotation where
  writer : RotatingChunkWriter
  files : UInt64 → ChunkFiles
  catalog : InMemoryCatalog
  created : List UInt64

/-- What fails in sealing the open chunk and creating the next. -/
structure RotateFaults where
  sealing : SealFaults := {}
  creating : CreateFaults := {}

/-- What fails in one call: in the rotation before the record, in its append, and in the rotation
behind an oversized record. -/
structure RotationFaults where
  before : RotateFaults := {}
  append : AppendFaults := {}
  behind : RotateFaults := {}

structure AppendCall where
  repo : RepoId
  record : ObjectRecord
  faults : RotationFaults := {}

namespace Rotation
abbrev Rotating := Fallible Rotation Stop

def noActiveChunk : String :=
  "rotating writer always has an active chunk outside a failed rotation"

def recordCheckedAbsent : String := "record was checked absent from the catalog before append"

def activeMut : Rotating ChunkWriter where
  run s :=
    match s.writer.active with
    | some active => (s, .ok active)
    | none => (s, .error (.panic noActiveChunk))

def nextHeader (s : Rotation) : ChunkHeader :=
  ⟨s.writer.generation, s.writer.nextChunkId, s.writer.createdUnixSecs, 0⟩

def createNext (faults : CreateFaults) : Rotating Unit where
  run s :=
    let chunkId := s.writer.nextChunkId
    if chunkId.toNat + 1 < 2 ^ 64 then
      let before := s.files chunkId
      match ChunkWriter.createAndPublish s.nextHeader before.opened faults s.catalog with
      | (opened, catalog, result) =>
        let s' : Rotation :=
          { writer := { s.writer with nextChunkId := chunkId + 1 }
            files := Function.update s.files chunkId ⟨opened, before.sealed⟩
            catalog := catalog
            created := if before.opened.isNone && opened.isSome then s.created ++ [chunkId]
              else s.created }
        match result with
        | .error error => (s', .error (.error error))
        | .ok writer => ({ s' with writer := { s'.writer with active := some writer } }, .ok ())
    else (s, .error (.error .offsetOverflow))

def withChunk (s : Rotation) (active : Option ChunkWriter) (chunkId : UInt64) (files : ChunkFiles)
    (catalog : InMemoryCatalog) : Rotation :=
  { s with
    writer := { s.writer with active := active }
    files := Function.update s.files chunkId files
    catalog := catalog }

@[simp] theorem withChunk_files (s : Rotation) (active : Option ChunkWriter) (chunkId : UInt64)
    (files : ChunkFiles) (catalog : InMemoryCatalog) :
    (s.withChunk active chunkId files catalog).files = Function.update s.files chunkId files := rfl

/-- The open chunk is taken out of the writer whether or not sealing it succeeds. -/
def sealActive (writer : ChunkWriter) (faults : SealFaults) : Rotating SealedChunk where
  run s :=
    match writer.sealAndPublish s.catalog (s.files writer.header.chunkId).sealed faults with
    | (files, catalog, result) =>
      (s.withChunk none writer.header.chunkId files catalog, .mapErr .error result)

def sealCurrent (faults : SealFaults) : Rotating SealedChunk := do
  let writer ← activeMut
  sealActive writer faults

def rotate (faults : RotateFaults) : Rotating Unit := do
  let _ ← sealCurrent faults.sealing
  createNext faults.creating

/-- `ChunkWriter::append_and_index` on the open chunk, with that chunk's id. -/
def appendTo (P : Primitives) (active : ChunkWriter) (faults : AppendFaults) (repo : RepoId)
    (record : ObjectRecord) : Rotating (UInt64 × Option RecordLocation) where
  run s :=
    let chunkId := active.header.chunkId
    match active.appendAndIndex P s.catalog faults repo s.writer.generation chunkId record with
    | (active', catalog, result) =>
      (s.withChunk (some active') chunkId ⟨some active'.file, (s.files chunkId).sealed⟩ catalog,
        (Except.mapErr Stop.error result).map fun out => (chunkId, out))

def appendActive (P : Primitives) (faults : AppendFaults) (repo : RepoId) (record : ObjectRecord) :
    Rotating (UInt64 × Option RecordLocation) := do
  let active ← activeMut
  appendTo P active faults repo record

/-- The length of a record that a chunk of its own could hold. -/
def encodedLength (record : ObjectRecord) : Except StoreError ℕ := do
  let encoded ← .mapErr .format (encodeRecord record)
  .require (chunkHeaderLen + encoded.length + sealedChunkFooterLen < 2 ^ 64) .offsetOverflow
  return encoded.length

def wouldExceedTarget (encodedLen : ℕ) : Rotating Bool := do
  let active ← activeMut
  let length := active.nextOffset + encodedLen + sealedChunkFooterLen
  .ofExcept (.require (length < 2 ^ 64) (.error .offsetOverflow))
  let targetSize ← .gets fun s => s.writer.targetSize.toNat
  return targetSize < length && active.recordCount != 0

def rotateIf (needed : Bool) (faults : RotateFaults) : Rotating Unit :=
  if needed then rotate faults else pure ()

def expectAppended (location : Option RecordLocation) : Rotating RecordLocation :=
  .ofExcept (.ofOption (.panic recordCheckedAbsent) location)

/-- Whether the record is too large for an empty chunk of the target size. -/
def oversized (s : Rotation) (encodedLen : ℕ) : Bool :=
  s.writer.targetSize.toNat < chunkHeaderLen + encodedLen + sealedChunkFooterLen

/-- The part of a call for content that has no location yet. -/
def appendNew (P : Primitives) (call : AppendCall) : Rotating (Option RotatedRecordLocation) := do
  let encodedLen ← .ofExcept (.mapErr .error (encodedLength call.record))
  let oversized ← .gets fun s => s.oversized encodedLen
  let exceeds ← wouldExceedTarget encodedLen
  rotateIf exceeds call.faults.before
  let generation ← .gets fun s => s.writer.generation
  let appended ← appendActive P call.faults.append call.repo call.record
  let location ← expectAppended appended.2
  rotateIf oversized call.faults.behind
  return some ⟨generation, appended.1, location, oversized⟩

/-- A record whose content has a location only adds its alias. -/
def appendKnown (P : Primitives) (call : AppendCall) :
    Rotating (Option RotatedRecordLocation) := do
  let generation ← .gets fun s => s.writer.generation
  let appended ← appendActive P call.faults.append call.repo call.record
  return appended.2.map fun location => ⟨generation, appended.1, location, false⟩

def appendAndIndex (P : Primitives) (call : AppendCall) :
    Rotating (Option RotatedRecordLocation) := do
  let known ← .gets fun s => (s.catalog.objectLocation call.record.contentId).isSome
  if known then appendKnown P call else appendNew P call

def create (files : UInt64 → ChunkFiles) (catalog : InMemoryCatalog) (generation : UInt32)
    (firstChunkId targetSize createdUnixSecs : UInt64) (faults : CreateFaults) :
    Rotation × Except Stop Unit :=
  let s : Rotation := ⟨⟨generation, targetSize, createdUnixSecs, firstChunkId, none⟩, files,
    catalog, []⟩
  if targetSize.toNat < chunkHeaderLen + sealedChunkFooterLen then
    (s, .error (.error .rotationTargetTooSmall))
  else (createNext faults).run s

/-- A series of calls on one writer, with what each of them returns. -/
def run (P : Primitives) (s : Rotation) :
    List AppendCall → Rotation × List (Except Stop (Option RotatedRecordLocation))
  | [] => (s, [])
  | call :: calls =>
    let (s', result) := (appendAndIndex P call).run s
    let (last, results) := run P s' calls
    (last, result :: results)

/-- The call came back with `Ok` or `Err`. -/
def Returned {α : Type} (result : Except Stop α) : Prop :=
  ∀ message, result ≠ .error (.panic message)

@[simp] theorem returned_ok {α : Type} (a : α) : Returned (.ok a : Except Stop α) := by
  intro message
  simp

@[simp] theorem returned_error {α : Type} (error : StoreError) :
    Returned (.error (.error error) : Except Stop α) := by
  intro message
  simp

/-- A caller passes on what stopped it. -/
theorem Returned.stop {α β : Type} {stop : Stop} (h : Returned (.error stop : Except Stop α)) :
    Returned (.error stop : Except Stop β) := by
  intro message same
  cases same
  exact h message rfl

theorem returned_mapErr {α : Type} (result : Except StoreError α) :
    Returned (.mapErr .error result) := by
  cases result with
  | error error => exact returned_error error
  | ok a => exact returned_ok a

section Active
variable {P : Primitives} {s : Rotation} {w : ChunkWriter}

theorem activeMut_of_some (active : s.writer.active = some w) : activeMut.run s = (s, .ok w) := by
  simp only [activeMut, active]

theorem activeMut_of_none (active : s.writer.active = none) :
    activeMut.run s = (s, .error (.panic noActiveChunk)) := by
  simp only [activeMut, active]

/-- What publishing a chunk's state leaves as it is. -/
def SameLocations (c c' : InMemoryCatalog) : Prop :=
  ∀ id, c'.objectLocation id = c.objectLocation id

theorem publishOpen_sameLocations {c c' : InMemoryCatalog} {fault : Option String}
    (published : w.publishOpen fault c = .ok c') : SameLocations c c' := by
  intro id
  simp only [publishOpen, Except.bind_eq_ok_iff] at published
  exact applyWith_chunkMetadata published.choose_spec.2 id

theorem createAndPublish_sameLocations (header : ChunkHeader) (existing : Option Str)
    (faults : CreateFaults) (c : InMemoryCatalog) :
    SameLocations c (createAndPublish header existing faults c).2.1 := by
  intro id
  rcases outcome : createAndPublish header existing faults c with ⟨opened, c', result⟩
  cases createAndPublish_createOutcome outcome with
  | refused _ _ => rfl
  | torn _ _ _ => rfl
  | notPublished _ _ => rfl
  | published _ applied => exact publishOpen_sameLocations applied id

theorem sealAndPublish_sameLocations (w : ChunkWriter) (c : InMemoryCatalog)
    (sealedExists : Option Str) (faults : SealFaults) :
    SameLocations c (w.sealAndPublish c sealedExists faults).2.1 := by
  intro id
  rcases outcome : w.sealAndPublish c sealedExists faults with ⟨files, c', result⟩
  cases sealAndPublish_sealOutcome outcome with
  | refused _ => rfl
  | notRenamed _ _ _ _ => rfl
  | notPublished _ _ => rfl
  | published _ _ applied => exact publishSealedMetadata_objectLocation applied id

/-- The writer has an open chunk and the catalog places `id` at `place`. -/
def Ready (id : ContentId) (place : Option ObjectLocation) (s : Rotation) : Prop :=
  s.writer.active.isSome ∧ s.catalog.objectLocation id = place

variable {id : ContentId} {place : Option ObjectLocation}

theorem sealCurrent_triple (faults : SealFaults) :
    Fallible.Triple (Ready id place) (sealCurrent faults) fun result s =>
      Returned result ∧ s.writer.active = none ∧ s.catalog.objectLocation id = place := by
  intro s ready
  obtain ⟨w, active⟩ := Option.isSome_iff_exists.mp ready.1
  rw [sealCurrent, run_bind_of_ok (activeMut_of_some active)]
  refine ⟨returned_mapErr _, rfl, ?_⟩
  exact (sealAndPublish_sameLocations w s.catalog _ faults id).trans ready.2

theorem createNext_triple (faults : CreateFaults) :
    Fallible.Triple (fun s => s.writer.active = none ∧ s.catalog.objectLocation id = place)
      (createNext faults) fun result s => Returned result ∧
        s.catalog.objectLocation id = place ∧ (result.isOk ↔ s.writer.active.isSome) := by
  intro s unready
  have same := createAndPublish_sameLocations s.nextHeader (s.files s.writer.nextChunkId).opened
    faults s.catalog id
  rw [unready.2] at same
  simp only [createNext]
  split
  · split
    · exact ⟨returned_error _, same, by simp [unready.1, Except.isOk, Except.toBool]⟩
    · exact ⟨returned_ok _, same, by simp [Except.isOk, Except.toBool]⟩
  · exact ⟨returned_error _, unready.2, by simp [unready.1, Except.isOk, Except.toBool]⟩

/-- A rotation that fails leaves no open chunk. -/
theorem rotate_triple (faults : RotateFaults) :
    Fallible.Triple (Ready id place) (rotate faults) fun result s => Returned result ∧
      s.catalog.objectLocation id = place ∧ (result.isOk ↔ s.writer.active.isSome) := by
  unfold rotate
  refine Fallible.Triple.bind (sealCurrent_triple faults.sealing) (fun _ h => h) ?_ ?_
  · intro _ s h
    exact createNext_triple faults.creating s h.2
  · rintro e s ⟨returned, lost, same⟩
    exact ⟨returned.stop, same, by simp [lost, Except.isOk, Except.toBool]⟩

theorem rotateIf_triple (needed : Bool) (faults : RotateFaults) :
    Fallible.Triple (Ready id place) (rotateIf needed faults) fun result s => Returned result ∧
      s.catalog.objectLocation id = place ∧ (result.isOk ↔ s.writer.active.isSome) := by
  cases needed with
  | true => exact rotate_triple faults
  | false =>
    intro s ready
    exact ⟨returned_ok _, ready.2, by simpa [rotateIf, Except.isOk, Except.toBool] using ready.1⟩

theorem appendActive_triple (P : Primitives) (faults : AppendFaults) (repo : RepoId)
    (record : ObjectRecord) :
    Fallible.Triple (Ready record.contentId place) (appendActive P faults repo record)
      fun result s => Returned result ∧ s.writer.active.isSome ∧
        ∀ out, result = .ok out → place = none → out.2.isSome := by
  intro s ready
  obtain ⟨w, active⟩ := Option.isSome_iff_exists.mp ready.1
  rw [appendActive, run_bind_of_ok (activeMut_of_some active)]
  simp only [appendTo]
  rcases appended : w.appendAndIndex P s.catalog faults repo s.writer.generation
    w.header.chunkId record with ⟨w', catalog, result⟩
  cases result with
  | error error =>
    refine ⟨?_, rfl, ?_⟩
    · exact returned_error error
    · intro out failed
      cases failed
  | ok location =>
    refine ⟨returned_ok _, rfl, ?_⟩
    intro out same missing
    cases same
    obtain ⟨_, ⟨_, located, _⟩ | ⟨_, _, _, _, _, rfl, _⟩⟩ :=
      appendAndIndex_eq_ok appended
    · rw [ready.2, missing] at located
      cases located
    · rfl

theorem run_wouldExceedTarget (active : s.writer.active = some w) (length : ℕ) :
    (wouldExceedTarget length).run s =
      if w.nextOffset + length + sealedChunkFooterLen < 2 ^ 64 then
        (s, .ok (decide (s.writer.targetSize.toNat <
          w.nextOffset + length + sealedChunkFooterLen) && w.recordCount != 0))
      else (s, .error (.error .offsetOverflow)) := by
  rw [wouldExceedTarget, run_bind_of_ok (activeMut_of_some active)]
  split
  · simp only [Except.require_pos ‹_›]
    rfl
  · simp only [Except.require_neg ‹_›]
    rfl

theorem wouldExceedTarget_triple (encodedLen : ℕ) :
    Fallible.Triple (Ready id place) (wouldExceedTarget encodedLen) fun result s =>
      Returned result ∧ Ready id place s := by
  intro s ready
  obtain ⟨w, active⟩ := Option.isSome_iff_exists.mp ready.1
  rw [run_wouldExceedTarget active]
  split
  · exact ⟨returned_ok _, ready⟩
  · exact ⟨returned_error _, ready⟩

/-- From a writer with an open chunk, a call returns, and only with an error can it leave no open
chunk behind. -/
def Settled (result : Except Stop (Option RotatedRecordLocation)) (s : Rotation) : Prop :=
  Returned result ∧ (s.writer.active = none → ∃ error, result = .error (.error error))

theorem Returned.settled {α : Type} {stop : Stop} (h : Returned (.error stop : Except Stop α))
    (s : Rotation) : Settled (.error stop) s := by
  refine ⟨h.stop, fun _ => ?_⟩
  cases stop with
  | error error => exact ⟨error, rfl⟩
  | panic message => exact absurd rfl (h message)

theorem settled_ok {s : Rotation} (active : s.writer.active.isSome)
    (out : Option RotatedRecordLocation) : Settled (.ok out) s := by
  refine ⟨returned_ok _, fun lost => ?_⟩
  rw [lost] at active
  cases active

theorem appendKnown_triple (P : Primitives) (call : AppendCall) :
    Fallible.Triple (Ready call.record.contentId place) (appendKnown P call) Settled := by
  unfold appendKnown
  apply Fallible.Triple.gets
  intro generation
  refine Fallible.Triple.bind (appendActive_triple P call.faults.append call.repo call.record)
    (fun _ h => h.1) ?_ ?_
  · intro appended s h
    exact settled_ok h.2.1 _
  · intro stop s h
    exact h.1.settled s

theorem appendNew_triple (P : Primitives) (call : AppendCall) :
    Fallible.Triple (Ready call.record.contentId none) (appendNew P call) Settled := by
  unfold appendNew
  apply Fallible.Triple.ofExcept
  · intro encodedLen _
    apply Fallible.Triple.gets
    intro oversized
    refine Fallible.Triple.bind (wouldExceedTarget_triple encodedLen) (fun _ h => h.1) ?_ ?_
    · intro exceeds
      refine Fallible.Triple.bind (rotateIf_triple exceeds call.faults.before) (fun _ h => h.2)
        ?_ ?_
      · intro _
        apply Fallible.Triple.gets
        intro generation
        refine Fallible.Triple.bind (appendActive_triple P call.faults.append call.repo call.record)
          (fun _ h => ⟨h.1.2.2.mp rfl, h.1.2.1⟩) ?_ ?_
        · intro appended
          apply Fallible.Triple.ofExcept
          · intro location _ s h
            have ready : Ready call.record.contentId _ s := ⟨h.2.1, rfl⟩
            refine Fallible.Triple.bind (rotateIf_triple oversized call.faults.behind)
              (fun _ h => h) ?_ ?_ s ready
            · intro _ s h
              exact settled_ok (h.2.2.mp rfl) _
            · intro stop s h
              exact h.1.settled s
          · intro stop missing s h
            obtain ⟨location, found⟩ := Option.isSome_iff_exists.mp (h.2.2 _ rfl rfl)
            rw [found] at missing
            cases missing
        · intro stop s h
          exact h.1.settled s
      · intro stop s h
        exact h.1.settled s
    · intro stop s h
      exact h.1.settled s
  · intro stop failed s _
    have returned := returned_mapErr (encodedLength call.record)
    rw [failed] at returned
    exact returned.settled s

theorem appendAndIndex_settled (P : Primitives) (call : AppendCall)
    (active : s.writer.active.isSome) :
    Settled ((appendAndIndex P call).run s).2 ((appendAndIndex P call).run s).1 := by
  simp only [appendAndIndex, run_gets_bind]
  split
  · exact appendKnown_triple P call s ⟨active, rfl⟩
  · rename_i missing
    exact appendNew_triple P call s ⟨active, by simpa using missing⟩

/-- The call is refused before it looks for the open chunk. -/
def Refused (s : Rotation) (call : AppendCall) : Prop :=
  s.catalog.objectLocation call.record.contentId = none ∧
    ∃ error, encodedLength call.record = .error error

/-- Without an open chunk every call but a refused one panics, and nothing changes. -/
theorem appendAndIndex_of_none (P : Primitives) (call : AppendCall)
    (lost : s.writer.active = none) :
    ((appendAndIndex P call).run s).1 = s ∧
      (Returned ((appendAndIndex P call).run s).2 ↔ Refused s call) := by
  simp only [appendAndIndex, run_gets_bind]
  split
  · rename_i known
    have panics : (appendActive P call.faults.append call.repo call.record).run s =
        (s, .error (.panic noActiveChunk)) := by
      rw [appendActive, run_bind_of_error (activeMut_of_none lost)]
    rw [appendKnown, run_gets_bind, run_bind_of_error panics]
    refine ⟨rfl, fun returned => absurd rfl (returned noActiveChunk), fun refused => ?_⟩
    rw [refused.1] at known
    cases known
  · rename_i missing
    have missing : s.catalog.objectLocation call.record.contentId = none := by simpa using missing
    unfold appendNew Refused
    cases length : encodedLength call.record with
    | error error => exact ⟨rfl, fun _ => ⟨missing, error, rfl⟩, fun _ => returned_error error⟩
    | ok encodedLen =>
      have panics : (wouldExceedTarget encodedLen).run s =
          (s, .error (.panic noActiveChunk)) := by
        rw [wouldExceedTarget, run_bind_of_error (activeMut_of_none lost)]
      have same : Fallible.run (σ := Rotation) (.ofExcept (.mapErr Stop.error
        (.ok encodedLen))) s = (s, .ok encodedLen) := rfl
      rw [run_bind_of_ok same, run_gets_bind, run_bind_of_error panics]
      refine ⟨rfl, fun returned => absurd rfl (returned noActiveChunk), ?_⟩
      rintro ⟨_, error, failed⟩
      cases failed

theorem appendAndIndex_returned_iff (P : Primitives) (call : AppendCall) :
    Returned ((appendAndIndex P call).run s).2 ↔
      (s.writer.active = none → Refused s call) := by
  cases active : s.writer.active with
  | none => simp [(appendAndIndex_of_none P call active).2]
  | some w =>
    have settled := appendAndIndex_settled P call (Option.isSome_iff_exists.mpr ⟨w, active⟩)
    simp [settled.1]
end Active

theorem forall_split_cons_iff {α : Type} {p : List α → α → Prop} {a : α} {as : List α} :
    (∀ front b rest, a :: as = front ++ b :: rest → p front b) ↔
      p [] a ∧ ∀ front b rest, as = front ++ b :: rest → p (a :: front) b := by
  constructor
  · intro h
    exact ⟨h [] a as rfl, fun front b rest same => h (a :: front) b rest (by rw [same]; rfl)⟩
  · rintro ⟨first, later⟩ front b rest same
    cases front with
    | nil =>
      cases same
      exact first
    | cons c front =>
      cases same
      exact later front b rest rfl

/-- No call of a series panics if and only if, whenever an earlier rotation has left the writer
without an open chunk, the call is one that is refused before it looks for it. A call that loses
the open chunk has itself returned an error. -/
theorem run_returned_iff (P : Primitives) (s : Rotation) (calls : List AppendCall) :
    ((∀ result ∈ (run P s calls).2, Returned result) ↔
      ∀ front call rest, calls = front ++ call :: rest →
        (run P s front).1.writer.active = none → Refused (run P s front).1 call) ∧
    (s.writer.active.isSome → (run P s calls).1.writer.active = none →
      ∃ error, .error (.error error) ∈ (run P s calls).2) := by
  induction calls generalizing s with
  | nil =>
    refine ⟨by simp [run], fun active lost => ?_⟩
    rw [run] at lost
    rw [lost] at active
    cases active
  | cons call calls ih =>
    obtain ⟨returned, lost⟩ := ih ((appendAndIndex P call).run s).1
    refine ⟨?_, ?_⟩
    · rw [forall_split_cons_iff]
      simp only [run, List.forall_mem_cons, appendAndIndex_returned_iff, returned]
    · intro active none
      by_cases kept : ((appendAndIndex P call).run s).1.writer.active.isSome
      · obtain ⟨error, member⟩ := lost kept none
        exact ⟨error, List.mem_cons_of_mem _ member⟩
      · rw [Option.not_isSome_iff_eq_none] at kept
        obtain ⟨error, result⟩ := (appendAndIndex_settled P call active).2 kept
        exact ⟨error, by simp [run, result]⟩

/-- A writer on an empty directory whose target leaves no room for a record. -/
def narrow : Rotation := (create (fun _ => ⟨none, none⟩) {} 1 0 128 0 {}).1

/-- The seal behind the first record cannot synchronise; the next call has no chunk. -/
def narrowCalls : List AppendCall :=
  [⟨⟨.replicate 16 0⟩, ChunkWriter.emptyBlob, { behind.sealing.syncRecords := true }⟩,
    ⟨⟨.replicate 16 0⟩, ChunkWriter.emptyBlob, {}⟩]

theorem run_panics_after_failed_rotation :
    ¬ ∀ (files : UInt64 → ChunkFiles) (catalog : InMemoryCatalog) (generation : UInt32)
      (firstChunkId targetSize createdUnixSecs : UInt64) (s : Rotation) (calls : List AppendCall),
      create files catalog generation firstChunkId targetSize createdUnixSecs {} = (s, .ok ()) →
      ∀ result ∈ (run .reference s calls).2, Returned result := by
  intro all
  have ok : (create (fun _ => ⟨none, none⟩) {} 1 0 128 0 {}).2 = .ok () := by decide +kernel
  have returned := all _ {} 1 0 128 0 narrow narrowCalls (Prod.ext rfl ok)
  have panics : (run .reference narrow narrowCalls).2 =
      [.error (.error (.io .syncFailed)), .error (.panic noActiveChunk)] := by decide +kernel
  rw [panics] at returned
  exact returned _ (List.mem_cons_of_mem _ List.mem_cons_self) _ rfl
end Rotation
end ReflinkForest
