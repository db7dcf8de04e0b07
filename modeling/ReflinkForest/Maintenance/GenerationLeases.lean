import Mathlib.Data.List.DropRight
import ReflinkForest.Maintenance.Compaction

/-! The files of a generation manager and the readers that hold leases on them. -/
namespace ReflinkForest
open Except List

def isWhitespace (c : Char) : Bool :=
  (9 ≤ c.toNat ∧ c.toNat ≤ 13) ∨ c.toNat = 0x20 ∨ c.toNat = 0x85 ∨ c.toNat = 0xa0 ∨
    c.toNat = 0x1680 ∨ (0x2000 ≤ c.toNat ∧ c.toNat ≤ 0x200a) ∨ c.toNat = 0x2028 ∨
    c.toNat = 0x2029 ∨ c.toNat = 0x202f ∨ c.toNat = 0x205f ∨ c.toNat = 0x3000

def trim (text : List Char) : List Char := (text.dropWhile isWhitespace).rdropWhile isWhitespace

def pushDigit (value : ℕ) (c : Char) : Option ℕ :=
  if c.isDigit ∧ 10 * value + (c.toNat - '0'.toNat) < 2 ^ 32 then
    some (10 * value + (c.toNat - '0'.toNat))
  else none

/-- `u32::from_str`: one leading plus sign is allowed. -/
def parseU32 (text : List Char) : Option UInt32 :=
  let digits := if text.head? = some '+' then text.tail else text
  if digits = [] then none else UInt32.ofNat <$> digits.foldlM pushDigit 0

structure LeaseEntry where
  path : LeasePath
  isFile : Bool := true
  deriving DecidableEq

/-- The files below the root of a generation manager, and the directories outside it that
retirements move. -/
structure GenerationFiles where
  pointer : Option (List Char) := none
  retiring : List UInt32 := []
  leases : List LeaseEntry := []
  directories : List (List String) := []

open GenerationFiles

namespace GenerationFiles
section
variable (files : GenerationFiles) (generation : UInt32)

def publishActive : GenerationFiles :=
  { files with pointer := some (Nat.toDigits 10 generation.toNat ++ ['\n']) }

def activeGeneration : Except MaintenanceError (Option UInt32) :=
  match files.pointer with
  | none => .ok none
  | some content =>
    match parseU32 (trim content) with
    | some generation => .ok (some generation)
    | none => .error .invalidGenerationPointer

/-- The new file must not exist yet. -/
def lease (path : LeasePath) : Except MaintenanceError GenerationFiles := do
  .require (path.generation ∉ files.retiring) (.retiringGeneration path.generation)
  .require (path ∉ files.leases.map LeaseEntry.path) (.io "File exists")
  .ok { files with leases := files.leases ++ [⟨path, true⟩] }

/-- `GenerationLease::drop`. -/
def dropLease (path : LeasePath) : GenerationFiles :=
  { files with leases := files.leases.filter (· ≠ ⟨path, true⟩) }

/-- The loop over the entries of one lease directory. -/
def anyLease : List LeaseEntry → Bool → Except MaintenanceError Bool
  | [], active => .ok active
  | entry :: entries, _ => do
    .require entry.isFile (.unsafeLeaseEntry entry.path)
    anyLease entries true

def mayReclaim : Except MaintenanceError Bool := do
  let active ← anyLease (files.leases.filter (·.path.generation = generation)) false
  .ok (!active)

def stopAdmittingLeases : GenerationFiles :=
  if generation ∈ files.retiring then files
  else { files with retiring := generation :: files.retiring }

def cancelRetirement : GenerationFiles :=
  { files with retiring := files.retiring.filter (· ≠ generation) }

def trashName : String := "generation-" ++ toString generation ++ "-retired"

/-- `fs::rename` of a directory with everything below it. -/
def rename (source destination : List String) (directories : List (List String)) :
    Except MaintenanceError (List (List String)) := do
  .require (source ∈ directories) (.io "No such file or directory")
  .require (¬ source <+: destination) (.io "Invalid argument")
  .ok (directories.map fun path =>
    if source <+: path then destination ++ path.drop source.length else path)

/-- A retirement that fails behind the check of the pointer has stopped admission. -/
def retireGeneration (generationPath trashRoot : List String) :
    GenerationFiles × Except MaintenanceError (List String) :=
  match files.activeGeneration with
  | .error e => (files, .error e)
  | .ok active =>
    if active = some generation then
      (files, .error (.cannotRetireActiveGeneration generation))
    else
      let stopped := files.stopAdmittingLeases generation
      match stopped.mayReclaim generation with
      | .error e => (stopped, .error e)
      | .ok false => (stopped, .error (.activeReaders generation))
      | .ok true =>
        let trashed := { stopped with directories := trashRoot.inits ++ stopped.directories }
        let destination := trashRoot ++ [trashName generation]
        if destination ∈ trashed.directories then
          (trashed, .error (.destinationExists generation))
        else
          match rename generationPath destination trashed.directories with
          | .error e => (trashed, .error e)
          | .ok directories => ({ trashed with directories }, .ok destination)

end

section Operations
variable {files files' : GenerationFiles} {generation : UInt32} {path : LeasePath}

theorem activeGeneration_congr (same : files'.pointer = files.pointer) :
    files'.activeGeneration = files.activeGeneration := by
  rw [activeGeneration, activeGeneration, same]

theorem lease_eq_ok_iff : files.lease path = .ok files' ↔
    path.generation ∉ files.retiring ∧ path ∉ files.leases.map LeaseEntry.path ∧
      files' = { files with leases := files.leases ++ [⟨path, true⟩] } := by
  simp only [lease, bind_eq_ok_iff, require_eq_ok, Unique.exists_iff,
    ok.injEq, eq_comm (a := files')]

theorem stopAdmittingLeases_eq :
    files.stopAdmittingLeases generation =
      { files with retiring := (files.stopAdmittingLeases generation).retiring } := by
  unfold stopAdmittingLeases
  split_ifs <;> rfl

theorem mem_stopAdmittingLeases {other : UInt32} :
    other ∈ (files.stopAdmittingLeases generation).retiring ↔
      other ∈ files.retiring ∨ other = generation := by
  unfold stopAdmittingLeases
  split_ifs with stopped
  · refine ⟨.inl, ?_⟩
    rintro (before | rfl)
    · exact before
    · exact stopped
  · rw [mem_cons, or_comm]

theorem anyLease_eq_ok_iff {entries : List LeaseEntry} {active any : Bool} :
    anyLease entries active = .ok any ↔
      (∀ entry ∈ entries, entry.isFile) ∧ any = (active || !entries.isEmpty) := by
  induction entries generalizing active with
  | nil => simp [anyLease, @eq_comm _ active]
  | cons entry entries ih =>
    simp only [anyLease, bind_eq_ok_iff, require_eq_ok, Unique.exists_iff, ih]
    simp [and_assoc]

theorem mayReclaim_eq_ok_iff {reclaim : Bool} : files.mayReclaim generation = .ok reclaim ↔
    (∀ entry ∈ files.leases, entry.path.generation = generation → entry.isFile) ∧
      (reclaim = true ↔ ∀ entry ∈ files.leases, entry.path.generation ≠ generation) := by
  simp only [mayReclaim, bind_eq_ok_iff, anyLease_eq_ok_iff, ok.injEq,
    mem_filter, decide_eq_true_eq, Bool.false_or, and_imp]
  have none : (files.leases.filter fun entry => entry.path.generation = generation).isEmpty = true ↔
      ∀ entry ∈ files.leases, entry.path.generation ≠ generation := by
    simp [List.isEmpty_iff, filter_eq_nil_iff]
  rw [← none]
  cases reclaim <;> simp

/-- Everything a retirement does, by its outcome. -/
structure Retires (files : GenerationFiles) (generation : UInt32) (files' : GenerationFiles)
    (result : Except MaintenanceError (List String)) : Prop where
  pointer : files'.pointer = files.pointer
  leases : files'.leases = files.leases
  admission : ∀ other, other ∈ files'.retiring ↔
    other ∈ files.retiring ∨
      other = generation ∧ ∃ active, files.activeGeneration = .ok active ∧ active ≠ some generation
  moved : ∀ destination, result = .ok destination →
    (∃ active, files.activeGeneration = .ok active ∧ active ≠ some generation) ∧
      ∀ entry ∈ files.leases, entry.path.generation ≠ generation

theorem retires_retireGeneration (files : GenerationFiles) (generation : UInt32)
    (generationPath trashRoot : List String) :
    Retires files generation (files.retireGeneration generation generationPath trashRoot).1
      (files.retireGeneration generation generationPath trashRoot).2 := by
  unfold retireGeneration
  cases pointer : files.activeGeneration with
  | error e => exact ⟨rfl, rfl, by simp [pointer], by simp⟩
  | ok active =>
    by_cases current : active = some generation
    · simp only [if_pos current]
      exact ⟨rfl, rfl, by simp [pointer, current], by simp⟩
    · have passed : ∃ active, files.activeGeneration = .ok active ∧ active ≠ some generation :=
        ⟨active, pointer, current⟩
      have stopped : ∀ files' result, files'.pointer = files.pointer →
          files'.leases = files.leases →
          files'.retiring = (files.stopAdmittingLeases generation).retiring →
          (∀ destination, result = .ok destination →
            (files.stopAdmittingLeases generation).mayReclaim generation = .ok true) →
          Retires files generation files' result := by
        intro files' result pointer' leases' retiring' unleased
        refine ⟨pointer', leases', fun other => ?_, fun destination done => ⟨passed, ?_⟩⟩
        · rw [retiring', mem_stopAdmittingLeases, and_iff_left passed]
        · have free := (mayReclaim_eq_ok_iff.mp (unleased destination done)).2.mp rfl
          rwa [stopAdmittingLeases_eq] at free
      have eq : files.stopAdmittingLeases generation =
          { files with retiring := (files.stopAdmittingLeases generation).retiring } :=
        stopAdmittingLeases_eq
      generalize files.stopAdmittingLeases generation = held at *
      simp only [if_neg current]
      split
      · exact stopped _ _ (by rw [eq]) (by rw [eq]) rfl (by simp)
      · exact stopped _ _ (by rw [eq]) (by rw [eq]) rfl (by simp)
      · rename_i reclaim
        split
        · exact stopped _ _ (by rw [eq]) (by rw [eq]) rfl (by simp)
        · split
          · exact stopped _ _ (by rw [eq]) (by rw [eq]) rfl (by simp)
          · exact stopped _ _ (by rw [eq]) (by rw [eq]) rfl fun _ _ => reclaim
end Operations
end GenerationFiles

inductive GenerationCall where
  | lease (path : LeasePath)
  | dropLease (path : LeasePath)
  | retireGeneration (generation : UInt32) (generationPath trashRoot : List String)
  | publishActive (generation : UInt32)
  | cancelRetirement (generation : UInt32)
  deriving DecidableEq

/-- The files of a manager and the leases its readers hold. -/
structure GenerationReaders where
  files : GenerationFiles
  held : List LeasePath := []

namespace GenerationReaders
/-- A lease is dropped by the reader that holds it. -/
def call (readers : GenerationReaders) :
    GenerationCall → GenerationReaders × Except MaintenanceError Unit
  | .lease path =>
    match readers.files.lease path with
    | .error e => (readers, .error e)
    | .ok files => (⟨files, path :: readers.held⟩, .ok ())
  | .dropLease path =>
    if path ∈ readers.held then
      (⟨readers.files.dropLease path, readers.held.erase path⟩, .ok ())
    else (readers, .ok ())
  | .retireGeneration generation generationPath trashRoot =>
    let (files, result) := readers.files.retireGeneration generation generationPath trashRoot
    ({ readers with files }, result.map fun _ => ())
  | .publishActive generation =>
    ({ readers with files := readers.files.publishActive generation }, .ok ())
  | .cancelRetirement generation =>
    ({ readers with files := readers.files.cancelRetirement generation }, .ok ())

def run (readers : GenerationReaders) (calls : List GenerationCall) : GenerationReaders :=
  calls.foldl (fun readers c => (readers.call c).1) readers

/-- Every held lease has its own file. -/
structure Backed (readers : GenerationReaders) : Prop where
  distinct : readers.held.Nodup
  present : ∀ path ∈ readers.held, ⟨path, true⟩ ∈ readers.files.leases

variable {readers : GenerationReaders} {generation : UInt32}

theorem Backed.call (backed : Backed readers) (c : GenerationCall) : Backed (readers.call c).1 := by
  obtain ⟨distinct, present⟩ := backed
  cases c with
  | lease path =>
    cases leased : readers.files.lease path with
    | error e =>
      simp only [GenerationReaders.call, leased]
      exact ⟨distinct, present⟩
    | ok files =>
      obtain ⟨_, fresh, rfl⟩ := lease_eq_ok_iff.mp leased
      simp only [GenerationReaders.call, leased]
      refine ⟨nodup_cons.mpr ⟨fun held => fresh ?_, distinct⟩, ?_⟩
      · exact mem_map_of_mem (present path held)
      · intro other held
        rcases mem_cons.mp held with rfl | held
        · simp
        · exact mem_append_left _ (present other held)
  | dropLease path =>
    simp only [GenerationReaders.call]
    split
    · refine ⟨distinct.erase path, fun other held => ?_⟩
      obtain ⟨ne, held⟩ := distinct.mem_erase_iff.mp held
      simp [dropLease, present other held, ne]
    · exact ⟨distinct, present⟩
  | retireGeneration generation generationPath trashRoot =>
    have retires := retires_retireGeneration readers.files generation
      generationPath trashRoot
    exact ⟨distinct, fun path held => retires.leases ▸ present path held⟩
  | publishActive generation | cancelRetirement generation => exact ⟨distinct, present⟩

theorem Backed.run (backed : Backed readers) (calls : List GenerationCall) :
    Backed (readers.run calls) := by
  induction calls generalizing readers with
  | nil => exact backed
  | cons c calls ih => exact ih (backed.call c)

/-- Only the cancellation of a retirement admits readers again. -/
theorem mem_retiring_call (retiring : generation ∈ readers.files.retiring) {c : GenerationCall}
    (kept : c ≠ .cancelRetirement generation) :
    generation ∈ (readers.call c).1.files.retiring := by
  cases c with
  | lease path =>
    cases leased : readers.files.lease path with
    | error e => simpa only [call, leased] using retiring
    | ok files =>
      obtain ⟨_, _, rfl⟩ := lease_eq_ok_iff.mp leased
      simpa only [call, leased] using retiring
  | dropLease path =>
    simp only [call]
    split <;> exact retiring
  | retireGeneration other generationPath trashRoot =>
    have retires := retires_retireGeneration readers.files other
      generationPath trashRoot
    exact (retires.admission generation).mpr (.inl retiring)
  | publishActive other => exact retiring
  | cancelRetirement other =>
    have ne : generation ≠ other := by
      rintro rfl
      exact kept rfl
    exact mem_filter.mpr ⟨retiring, by simpa using ne⟩

theorem mem_retiring_run (retiring : generation ∈ readers.files.retiring)
    {calls : List GenerationCall} (kept : .cancelRetirement generation ∉ calls) :
    generation ∈ (readers.run calls).files.retiring := by
  induction calls generalizing readers with
  | nil => exact retiring
  | cons c calls ih =>
    rw [mem_cons, not_or] at kept
    exact ih (mem_retiring_call retiring fun same => kept.1 same.symm) kept.2

theorem lease_refused {path : LeasePath} (retiring : path.generation ∈ readers.files.retiring) :
    (readers.call (.lease path)).2 ≠ .ok () := by
  cases leased : readers.files.lease path with
  | error e => simp [call, leased]
  | ok files => exact absurd retiring (lease_eq_ok_iff.mp leased).1

/-- Over every interleaving: a retirement that succeeds finds no reader and another active
generation, and one that has passed the check of the pointer admits no reader until it is
cancelled. -/
theorem retireGeneration_respects_readers (files : GenerationFiles)
    (before after : List GenerationCall) (generation : UInt32)
    (generationPath trashRoot : List String) :
    let reached := run ⟨files, []⟩ before
    let retired := reached.call (.retireGeneration generation generationPath trashRoot)
    (retired.2 = .ok () → (∀ path ∈ retired.1.held, path.generation ≠ generation) ∧
      retired.1.files.activeGeneration ≠ .ok (some generation)) ∧
    ((∃ active, reached.files.activeGeneration = .ok active ∧ active ≠ some generation) →
      .cancelRetirement generation ∉ after → ∀ path : LeasePath, path.generation = generation →
        ((retired.1.run after).call (.lease path)).2 ≠ .ok ()) := by
  intro reached retired
  have backed : Backed reached := Backed.run ⟨List.nodup_nil, by simp⟩ before
  have retires := retires_retireGeneration reached.files generation
    generationPath trashRoot
  constructor
  · intro done
    obtain ⟨destination, moved⟩ : ∃ destination,
        (reached.files.retireGeneration generation generationPath trashRoot).2 =
          .ok destination := by
      cases result : (reached.files.retireGeneration generation generationPath trashRoot).2 with
      | error e => simp [retired, call, result, Except.map] at done
      | ok destination => exact ⟨destination, rfl⟩
    obtain ⟨⟨active, pointer, ne⟩, unleased⟩ := retires.moved destination moved
    refine ⟨fun path held => unleased _ (backed.present path held), fun same => ne ?_⟩
    have unchanged : retired.1.files.activeGeneration = .ok active :=
      (activeGeneration_congr retires.pointer).trans pointer
    exact ok.inj (unchanged.symm.trans same)
  · intro passed kept path same admitted
    have retiring : generation ∈ retired.1.files.retiring :=
      (retires.admission generation).mpr (.inr ⟨rfl, passed⟩)
    have still := mem_retiring_run retiring kept
    exact lease_refused (same ▸ still) admitted

/-- A reader of generation 1 that holds its lease across a first retirement. -/
def slowReader : List GenerationCall :=
  [.publishActive 2, .lease ⟨1, 7, 0⟩, .retireGeneration 1 ["chunks", "1"] ["trash"],
    .dropLease ⟨1, 7, 0⟩]

theorem slowReader_retired :
    let reached := run ⟨{ directories := [["chunks", "1"]] }, []⟩ slowReader
    let retired := reached.call (.retireGeneration 1 ["chunks", "1"] ["trash"])
    retired.2 = .ok () ∧ (∀ path ∈ retired.1.held, path.generation ≠ 1) ∧
      ((retired.1.run [.publishActive 3]).call (.lease ⟨1, 7, 1⟩)).2 ≠ .ok () := by
  have respects := retireGeneration_respects_readers { directories := [["chunks", "1"]] } slowReader
    [.publishActive 3] 1 ["chunks", "1"] ["trash"]
  have done : ((run ⟨{ directories := [["chunks", "1"]] }, []⟩ slowReader).call
      (.retireGeneration 1 ["chunks", "1"] ["trash"])).2 = .ok () := by decide +kernel
  exact ⟨done, (respects.1 done).1, respects.2 ⟨some 2, by decide +kernel, by decide⟩ (by decide)
    ⟨1, 7, 1⟩ rfl⟩
end GenerationReaders
end ReflinkForest
