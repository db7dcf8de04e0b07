import ReflinkForest.Btrfs.PrivilegedSafety

/-! Calls on machines that answer in a fixed way: which loop device is chosen, and what a failed
growth leaves for the next one. -/
namespace ReflinkForest
open Bytes Interaction PrivilegedExecutor Program
open Except hiding error

section Selection
/-- A machine with loop devices. The runner reports the backing path of each device. -/
structure LoopHost where
  backing : Str → Str
  canonical : Str → Except ℕ Str
  attached : Except BtrfsError Str

namespace LoopHost
def answer (host : LoopHost) (listing : Str) : (effect : BtrfsEffect) → effect.Answer
  | .run .listLoops => .ok listing
  | .run (.inspectLoopBacking device) => .ok (host.backing device ++ [newline])
  | .run (.attachLoop _) => host.attached
  | .run _ | .imageLength _ => .error (.io 38)
  | .canonicalize path => .mapErr .io (host.canonical path)
  | .isDirectory _ | .exists _ => false
  | .createNewImage _ _ _ | .createNewMarker _ _ => .error (.io 38)

/-- The result of a program on the machine, with this text as the list of its devices. -/
def result {α : Type} (host : LoopHost) (listing : Str) (p : Privileged α) : Except BtrfsError α :=
  (p.exec (fun _ effect => (host.answer listing effect, ())) ()).1

def resolve (host : LoopHost) (device : Str) : Except BtrfsError Str := do
  let path ← parseSingleBackingPath (host.backing device ++ [newline])
  .mapErr .io (host.canonical path)

def backs (host : LoopHost) (image device : Str) : Bool := host.resolve device = .ok image

/-- The error of the first device whose backing path does not lead to a file. -/
def firstFailure (host : LoopHost) : List Str → Option BtrfsError
  | [] => none
  | device :: devices =>
    match host.resolve device with
    | .error error => some error
    | .ok _ => host.firstFailure devices

/-- A new device is used if the image is behind it. -/
def attach (host : LoopHost) (image : Str) : Except BtrfsError Str := do
  let output ← host.attached
  let device ← parseAttachedLoopDevice output
  let backing ← host.resolve device
  .require (backing = image) (.loopBackingMismatch device backing)
  .ok device

/-- What is done with the devices that back the image. -/
def select (host : LoopHost) (image : Str) : List Str → Except BtrfsError Str
  | [device] => .ok device
  | [] => host.attach image
  | _ :: duplicate :: _ => .error (.duplicateLoopAssociation duplicate)
end LoopHost

variable {host : LoopHost} {listing only : Str} {devices : List Str} {image : Str}
  {config : PrivilegedExecutorConfig}

theorem result_bind {α β : Type} (p : Privileged α) (f : α → Privileged β) :
    host.result listing (p >>= f) = host.result listing p >>= fun value =>
      host.result listing (f value) := by
  unfold LoopHost.result
  rw [exec_bind]
  rcases p.exec _ () with ⟨_ | _, _⟩ <;> rfl

theorem result_ofExcept {α : Type} (x : Except BtrfsError α) :
    host.result listing (ofExcept x) = x := by
  rw [LoopHost.result, exec_ofExcept]

theorem result_inspectLoopBacking (device : Str) :
    host.result listing (inspectLoopBacking device) = host.resolve device := by
  rw [inspectLoopBacking, result_bind]
  change host.result listing (ofExcept _ >>= canonicalize) = _
  rw [result_bind, result_ofExcept, LoopHost.resolve]
  congr 1
  funext path
  exact result_ofExcept _

theorem result_attachNew :
    host.result listing (attachNew config) = host.attach config.image := by
  rw [attachNew, result_bind]
  change (host.result listing (ofExcept host.attached) >>= _) = _
  rw [result_ofExcept, LoopHost.attach]
  congr 1
  funext output
  rw [result_bind, result_ofExcept]
  congr 1
  funext device
  rw [result_bind, result_inspectLoopBacking]
  congr 1
  funext backing
  rw [result_bind, result_ofExcept]
  rfl

theorem result_matchingDevices : host.result listing (matchingDevices image devices) =
    match host.firstFailure devices with
    | some error => .error error
    | none => .ok (devices.filter (host.backs image)) := by
  induction devices with
  | nil => rfl
  | cons device devices ih =>
    rw [matchingDevices, result_bind, result_inspectLoopBacking, LoopHost.firstFailure]
    cases resolved : host.resolve device with
    | error error => rfl
    | ok path =>
      rw [ok_bind, result_bind, ih]
      cases host.firstFailure devices with
      | some error => rfl
      | none =>
        have here : host.backs image device = decide (path = image) := by
          simp [LoopHost.backs, resolved]
        by_cases same : path = image
        · simp [here, same]
          rfl
        · simp [here, same]
          rfl

theorem result_attachOrReuse (listed : parseLoopDeviceListing listing = .ok devices) :
    host.result listing (attachOrReuse config) = match host.firstFailure devices with
      | some error => .error error
      | none => host.select config.image (devices.filter (host.backs config.image)) := by
  rw [attachOrReuse, result_bind]
  change host.result listing (ofExcept (parseLoopDeviceListing listing) >>= _) = _
  rw [listed, result_bind, result_ofExcept, ok_bind, result_bind, result_matchingDevices]
  cases host.firstFailure devices with
  | some error => rfl
  | none =>
    rw [ok_bind]
    match devices.filter (host.backs config.image) with
    | [] => exact result_attachNew
    | [device] => rfl
    | _ :: duplicate :: _ => rfl

theorem firstFailure_filter : host.firstFailure (devices.filter (host.backs image)) = none := by
  induction devices with
  | nil => rfl
  | cons device devices ih =>
    rw [List.filter_cons]
    split
    · rename_i backs
      rw [LoopHost.firstFailure, of_decide_eq_true backs]
      exact ih
    · exact ih

theorem firstFailure_eq_none_iff :
    host.firstFailure devices = none ↔
      ∀ device ∈ devices, ∃ path, host.resolve device = .ok path := by
  induction devices with
  | nil => simp [LoopHost.firstFailure]
  | cons device devices ih =>
    rw [LoopHost.firstFailure, List.forall_mem_cons]
    cases host.resolve device with
    | error error => simp
    | ok path => simp [ih]

/-- A path that does not lead to a file is no second device of the image. -/
theorem firstFailure_ne_duplicate (duplicate : Str) :
    host.firstFailure devices ≠ some (.duplicateLoopAssociation duplicate) := by
  induction devices with
  | nil => simp [LoopHost.firstFailure]
  | cons device devices ih =>
    rw [LoopHost.firstFailure]
    split
    · rename_i error failed
      rintro ⟨rfl⟩
      simp [LoopHost.resolve, parseSingleBackingPath, bind_eq_error_iff,
        require_eq_error, mapErr_eq_error] at failed
    · exact ih

/-- The call without the other devices fails as the first that does not resolve exactly where it
has to attach a new device and that fails so. -/
theorem select_eq_error_iff {error : BtrfsError}
    (fails : host.firstFailure devices = some error) :
    host.select image (devices.filter (host.backs image)) = .error error ↔
      (∀ device ∈ devices, host.resolve device ≠ .ok image) ∧ host.attach image = .error error := by
  have none_iff : devices.filter (host.backs image) = [] ↔
      ∀ device ∈ devices, host.resolve device ≠ .ok image := by
    simp [List.filter_eq_nil_iff, LoopHost.backs]
  rw [← none_iff]
  match devices.filter (host.backs image) with
  | [] => simp [LoopHost.select]
  | [device] => simp [LoopHost.select]
  | _ :: duplicate :: _ =>
    have other : error ≠ .duplicateLoopAssociation duplicate := by
      rintro rfl
      exact firstFailure_ne_duplicate duplicate fails
    simpa [LoopHost.select] using other.symm

/-- With the devices of the image alone the call reuses the only one, attaches and verifies a new
one where there is none, and refuses several. The other devices make no difference exactly when
every device resolves, or none is of the image and attaching fails as the first that does not. -/
theorem attachOrReuse_ignores_others_iff (host : LoopHost) (config : PrivilegedExecutorConfig)
    (listed : parseLoopDeviceListing listing = .ok devices)
    (filtered : parseLoopDeviceListing only = .ok (devices.filter (host.backs config.image))) :
    host.result only (attachOrReuse config) =
        host.select config.image (devices.filter (host.backs config.image)) ∧
      (host.result listing (attachOrReuse config) = host.result only (attachOrReuse config) ↔
        (∀ device ∈ devices, ∃ path, host.resolve device = .ok path) ∨
          (∀ device ∈ devices, host.resolve device ≠ .ok config.image) ∧
            ∃ error, host.firstFailure devices = some error ∧
              host.attach config.image = .error error) := by
  have alone : host.result only (attachOrReuse config) =
      host.select config.image (devices.filter (host.backs config.image)) := by
    rw [result_attachOrReuse filtered, firstFailure_filter, List.filter_filter]
    simp
  refine ⟨alone, ?_⟩
  rw [result_attachOrReuse listed, alone, ← firstFailure_eq_none_iff]
  cases fails : host.firstFailure devices with
  | none => simp
  | some error => simp [eq_comm (a := Except.error error), select_eq_error_iff fails]

/-- One device of the image and one of another file. -/
def twoLoops (canonical : Str → Except ℕ Str) : LoopHost where
  backing device :=
    if device = ascii "/dev/loop0" then ascii "/srv/forest.img" else ascii "/tmp/scratch (deleted)"
  canonical := canonical
  attached := .error (.io 5)

def twoLoopsListing : Str := ascii "/dev/loop0: []: (/srv/forest.img)\n/dev/loop1: []: (/tmp)\n"

def oneLoopListing : Str := ascii "/dev/loop0: []: (/srv/forest.img)\n"

theorem twoLoops_ignored : (twoLoops .ok).result twoLoopsListing (attachOrReuse forestConfig) =
    (twoLoops .ok).result oneLoopListing (attachOrReuse forestConfig) := by
  have listed : parseLoopDeviceListing twoLoopsListing =
      .ok [ascii "/dev/loop0", ascii "/dev/loop1"] := by decide +kernel
  have filtered : parseLoopDeviceListing oneLoopListing =
      .ok ([ascii "/dev/loop0", ascii "/dev/loop1"].filter
        ((twoLoops .ok).backs forestConfig.image)) := by decide +kernel
  have resolves : (twoLoops .ok).firstFailure [ascii "/dev/loop0", ascii "/dev/loop1"] = none := by
    decide +kernel
  exact (attachOrReuse_ignores_others_iff _ forestConfig listed filtered).2.mpr
    (.inl (firstFailure_eq_none_iff.mp resolves))

/-- A device of a deleted file keeps the image's own device from being used. -/
theorem deletedLoop_not_ignored : ¬∀ (host : LoopHost) (listing only : Str) (devices : List Str),
    parseLoopDeviceListing listing = .ok devices →
      parseLoopDeviceListing only = .ok (devices.filter (host.backs forestConfig.image)) →
        host.result listing (attachOrReuse forestConfig) =
          host.result only (attachOrReuse forestConfig) := by
  intro ignored
  have same := ignored (twoLoops fun path => if path = forestConfig.image then .ok path else
    .error 2) twoLoopsListing oneLoopListing [ascii "/dev/loop0", ascii "/dev/loop1"]
    (by decide +kernel) (by decide +kernel)
  revert same
  decide +kernel
end Selection

section Growth
/-- The command at which a growth fails, and whether a failed `truncate` changed the length. -/
inductive GrowFault where
  | fileGrowth (grown : Bool)
  | refresh
  | resize
  deriving DecidableEq

/-- The length of the image, and whether the filesystem has been told to use it. -/
structure GrowState where
  length : UInt64
  resized : Bool
  deriving DecidableEq

/-- A machine that grows images up to the fault; what else is asked has its answers. -/
def growing (error : BtrfsError) (answers : (effect : BtrfsEffect) → effect.Answer)
    (fault : Option GrowFault) (s : GrowState) : (effect : BtrfsEffect) → effect.Answer × GrowState
  | .imageLength _ => (.ok s.length, s)
  | .run (.growImage _ size) =>
    match fault with
    | some (.fileGrowth grown) =>
      (.error error, { s with length := if grown then size else s.length })
    | _ => (.ok [], { s with length := size })
  | .run (.refreshLoopCapacity _) => (if fault = some .refresh then .error error else .ok [], s)
  | .run (.resizeFilesystem _) =>
    if fault = some .resize then (.error error, s) else (.ok [], { s with resized := true })
  | effect => (answers effect, s)

variable {config : PrivilegedExecutorConfig} {error : BtrfsError}
  {answers later : (effect : BtrfsEffect) → effect.Answer} {fault : GrowFault} {s : GrowState}
  {size length : UInt64}

/-- The device is found and has the identity of the instance. -/
def GrowReady (config : PrivilegedExecutorConfig) (error : BtrfsError)
    (answers : (effect : BtrfsEffect) → effect.Answer) (fault : Option GrowFault) (s : GrowState) :
    Prop :=
  ∃ device inspected,
    (attachOrReuse config).exec (growing error answers fault) s = (.ok device, s) ∧
    (verifyLoopIdentity config device).exec (growing error answers fault) s = (.ok inspected, s)

/-- What becomes of a growth once the device has been verified. -/
def growOutcome (error : BtrfsError) (size : UInt64) (s : GrowState) :
    Option GrowFault → Except BtrfsError Unit × GrowState
  | some (.fileGrowth grown) =>
    (.error error, { s with length := if grown then size else s.length })
  | some _ => (.error error, { s with length := size })
  | none => (.ok (), ⟨size, true⟩)

theorem size_ne_zero (smaller : length < size) : size ≠ 0 := by
  rintro rfl
  simp at smaller

theorem growing_imageLength {fault : Option GrowFault} (path : Str) :
    growing error answers fault s (.imageLength path) = (.ok s.length, s) := rfl

theorem exec_grow {fault : Option GrowFault} (smaller : s.length < size)
    (ready : GrowReady config error answers fault s) :
    (grow config size).exec (growing error answers fault) s = growOutcome error size s fault := by
  obtain ⟨device, inspected, attached, verified⟩ := ready
  have command (plan : PrivilegedPlan) (t : GrowState) :
      (PrivilegedExecutor.run plan).exec (growing error answers fault) t =
        growing error answers fault t (.run plan) := exec_ofExcept _
  simp only [grow, exec_bind, exec_ofExcept, exec_send,
    growing_imageLength, require_pos (size_ne_zero smaller), require_pos smaller,
    attached, verified, command]
  rcases fault with _ | ⟨_ | _ | _⟩ <;> rfl

/-- After a growth that failed the next one succeeds, with the filesystem resized, exactly when the
failure was that of the file and left its length alone. -/
theorem grow_retry_iff (smaller : length < size)
    (ready : GrowReady config error answers (some fault) ⟨length, false⟩)
    (again : GrowReady config error later none
      ((grow config size).exec (growing error answers (some fault)) ⟨length, false⟩).2) :
    ((grow config size).exec (growing error answers (some fault)) ⟨length, false⟩).1 =
        .error error ∧
      ((grow config size).exec (growing error later none)
          ((grow config size).exec (growing error answers (some fault)) ⟨length, false⟩).2 =
        (.ok (), ⟨size, true⟩) ↔ fault = .fileGrowth false) := by
  have refused : (grow config size).exec (growing error later none) ⟨size, false⟩ ≠
      (.ok (), ⟨size, true⟩) := by
    simp only [grow, exec_bind, exec_ofExcept, exec_send,
      growing_imageLength, require_pos (size_ne_zero smaller),
      require_neg (UInt64.lt_irrefl size)]
    rintro ⟨⟩
  rw [exec_grow smaller ready] at again ⊢
  cases fault with
  | fileGrowth changed =>
    cases changed with
    | false => exact ⟨rfl, iff_of_true (exec_grow smaller again) rfl⟩
    | true => exact ⟨rfl, iff_of_false refused (by simp)⟩
  | refresh | resize => exact ⟨rfl, iff_of_false refused (by simp)⟩

/-- A growth of the mounted image that failed in front of the growth of the file. -/
theorem forestGrowth_retried :
    (grow forestConfig 8192).exec (growing (.io 5) forestAnswers none)
      ((grow forestConfig 8192).exec (growing (.io 5) forestAnswers (some (.fileGrowth false)))
        ⟨4096, false⟩).2 = (.ok (), ⟨8192, true⟩) := by
  let inspected : InspectedFilesystem := ⟨.replicate 16 0x11, ascii "forest"⟩
  have ready :
      GrowReady forestConfig (.io 5) forestAnswers (some (.fileGrowth false)) ⟨4096, false⟩ :=
    ⟨ascii "/dev/loop0", inspected, by decide +kernel, by decide +kernel⟩
  have again : GrowReady forestConfig (.io 5) forestAnswers none ((grow forestConfig 8192).exec
      (growing (.io 5) forestAnswers (some (.fileGrowth false))) ⟨4096, false⟩).2 :=
    ⟨ascii "/dev/loop0", inspected, by decide +kernel, by decide +kernel⟩
  exact (grow_retry_iff (by decide) ready again).2.mpr rfl

/-- When the loop device could not be refreshed the file is long enough for every later call to
refuse. -/
theorem forestGrowth_stuck : ¬∀ (fault : GrowFault) (length size : UInt64), length < size →
    ((grow forestConfig size).exec (growing (.io 5) forestAnswers none)
      ((grow forestConfig size).exec (growing (.io 5) forestAnswers (some fault))
        ⟨length, false⟩).2).1 = .ok () := by
  intro retried
  have done := retried .refresh 4096 8192 (by decide)
  revert done
  decide +kernel
end Growth
end ReflinkForest
