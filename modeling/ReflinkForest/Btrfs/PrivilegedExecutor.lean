import ReflinkForest.Btrfs.CommandOutput
import ReflinkForest.Lib.Interaction

/-! The privileged executor, as programs that issue commands of a closed vocabulary and look at the
file system. -/
namespace ReflinkForest
open Bytes Interaction

inductive PrivilegedPlan where
  | listLoops
  | attachLoop (image : Str)
  | inspectLoopBacking (device : Str)
  | inspectFilesystem (device : Str)
  | formatBtrfs (device label : Str)
  | mount (device mountRoot : Str)
  | growImage (image : Str) (size : UInt64)
  | refreshLoopCapacity (device : Str)
  | resizeFilesystem (mountRoot : Str)
  deriving DecidableEq

/-- A direct child of a directory. -/
structure FilePath where
  parent : Str
  name : Str

def joinPath (parent name : Str) : Str :=
  if parent = ascii "/" then parent ++ name else parent ++ (ascii "/" ++ name)

def FilePath.bytes (path : FilePath) : Str := joinPath path.parent path.name

/-- Image and marker are direct children of the configured parent. -/
structure LoopbackInitializationConfig where
  image : FilePath
  markerPath : FilePath
  size : UInt64
  allocation : ImageAllocation
  label : Str
  instanceUuid : List.Vector UInt8 16

structure InitializedLoopback where
  image : Str
  markerPath : FilePath
  marker : InstanceMarker
  device : Str

structure PrivilegedExecutorConfig where
  image : Str
  mountRoot : Str
  marker : InstanceMarker

/-- A command of the runner gives its standard output; the others ask the file system. -/
inductive BtrfsEffect where
  | run (plan : PrivilegedPlan)
  | canonicalize (path : Str)
  | isDirectory (path : Str)
  | exists (path : Str)
  | createNewImage (path : Str) (size : UInt64) (allocation : ImageAllocation)
  | imageLength (path : Str)
  | createNewMarker (path : Str) (marker : InstanceMarker)
  deriving DecidableEq

abbrev BtrfsEffect.Answer : BtrfsEffect → Type
  | .run _ => Except BtrfsError Str
  | .canonicalize _ => Except BtrfsError Str
  | .isDirectory _ => Bool
  | .exists _ => Bool
  | .createNewImage _ _ _ => Except BtrfsError Unit
  | .imageLength _ => Except BtrfsError UInt64
  | .createNewMarker _ _ => Except BtrfsError Unit

abbrev Privileged := Program BtrfsEffect BtrfsEffect.Answer BtrfsError

namespace PrivilegedExecutor
def run (plan : PrivilegedPlan) : Privileged Str := do
  let answer ← Program.send (BtrfsEffect.run plan)
  Program.ofExcept answer

def canonicalize (path : Str) : Privileged Str := do
  let answer ← Program.send (BtrfsEffect.canonicalize path)
  Program.ofExcept answer

def isDirectory (path : Str) : Privileged Bool := Program.send (BtrfsEffect.isDirectory path)

def symlinkMetadata (path : Str) : Privileged Bool := Program.send (BtrfsEffect.exists path)

def checkedNewFilePath (path : FilePath) : Privileged Str := do
  let parent ← canonicalize path.parent
  let directory ← isDirectory parent
  Program.ofExcept (Except.require (directory = true) (.unsafeImagePath path.bytes))
  let found ← symlinkMetadata (joinPath parent path.name)
  Program.ofExcept (Except.require (found = false) (.existingPath (joinPath parent path.name)))
  pure (joinPath parent path.name)

def initializeLoopbackImage (path : FilePath) (size : UInt64) (allocation : ImageAllocation) :
    Privileged Str := do
  Program.ofExcept (Except.require (size ≠ 0) .invalidSize)
  let image ← checkedNewFilePath path
  let answer ← Program.send (BtrfsEffect.createNewImage image size allocation)
  Program.ofExcept (answer.map fun _ => image)

def writeInstanceMarker (path : FilePath) (marker : InstanceMarker) : Privileged Unit := do
  Program.ofExcept (validateBtrfsLabel marker.label)
  let created ← checkedNewFilePath path
  let answer ← Program.send (BtrfsEffect.createNewMarker created marker)
  Program.ofExcept answer

def inspectLoopBacking (device : Str) : Privileged Str := do
  let output ← run (.inspectLoopBacking device)
  let backing ← Program.ofExcept (parseSingleBackingPath output)
  canonicalize backing

def initializeNewLoopback (initialization : LoopbackInitializationConfig) :
    Privileged InitializedLoopback := do
  let image ← initializeLoopbackImage initialization.image initialization.size
    initialization.allocation
  let output ← run (.attachLoop image)
  let device ← Program.ofExcept (parseAttachedLoopDevice output)
  let backing ← inspectLoopBacking device
  Program.ofExcept (Except.require (backing = image) (.loopBackingMismatch device backing))
  let _ ← run (.formatBtrfs device initialization.label)
  let output ← run (.inspectFilesystem device)
  let inspected ← Program.ofExcept (parseBlkidExportIdentity output)
  Program.ofExcept (Except.require (inspected.label = initialization.label) .identityMismatch)
  let marker : InstanceMarker :=
    ⟨initialization.instanceUuid, inspected.filesystemUuid, inspected.label⟩
  writeInstanceMarker initialization.markerPath marker
  pure ⟨image, initialization.markerPath, marker, device⟩

/-- The listed devices whose canonical backing path is the image. -/
def matchingDevices (image : Str) : List Str → Privileged (List Str)
  | [] => pure []
  | device :: devices => do
    let backing ← inspectLoopBacking device
    let rest ← matchingDevices image devices
    pure (if backing = image then device :: rest else rest)

variable (config : PrivilegedExecutorConfig)

def attachNew : Privileged Str := do
  let output ← run (.attachLoop config.image)
  let device ← Program.ofExcept (parseAttachedLoopDevice output)
  let backing ← inspectLoopBacking device
  Program.ofExcept (Except.require (backing = config.image) (.loopBackingMismatch device backing))
  pure device

def attachOrReuse : Privileged Str := do
  let output ← run .listLoops
  let devices ← Program.ofExcept (parseLoopDeviceListing output)
  match ← matchingDevices config.image devices with
  | [device] => pure device
  | [] => attachNew config
  | _ :: duplicate :: _ => .fail (.duplicateLoopAssociation duplicate)

def verifyLoopIdentity (device : Str) : Privileged InspectedFilesystem := do
  let output ← run (.inspectFilesystem device)
  let inspected ← Program.ofExcept (parseBlkidExportIdentity output)
  Program.ofExcept (verifyInstanceIdentity config.marker inspected)
  pure inspected

def mount : Privileged Str := do
  let device ← attachOrReuse config
  let _ ← verifyLoopIdentity config device
  let _ ← run (.mount device config.mountRoot)
  pure device

def grow (size : UInt64) : Privileged Unit := do
  Program.ofExcept (Except.require (size ≠ 0) .invalidSize)
  let answer ← Program.send (BtrfsEffect.imageLength config.image)
  let current ← Program.ofExcept answer
  Program.ofExcept (Except.require (current < size) (.shrinkNotSupported current size))
  let device ← attachOrReuse config
  let _ ← verifyLoopIdentity config device
  let _ ← run (.growImage config.image size)
  let _ ← run (.refreshLoopCapacity device)
  let _ ← run (.resizeFilesystem config.mountRoot)
  pure ()
end PrivilegedExecutor

inductive PrivilegedCall where
  | initializeNewLoopback (initialization : LoopbackInitializationConfig)
  | attachOrReuse (config : PrivilegedExecutorConfig)
  | mount (config : PrivilegedExecutorConfig)
  | grow (config : PrivilegedExecutorConfig) (size : UInt64)

namespace PrivilegedCall
def code : PrivilegedCall → Privileged Unit
  | .initializeNewLoopback initialization => do
    let _ ← PrivilegedExecutor.initializeNewLoopback initialization
    pure ()
  | .attachOrReuse config => do
    let _ ← PrivilegedExecutor.attachOrReuse config
    pure ()
  | .mount config => do
    let _ ← PrivilegedExecutor.mount config
    pure ()
  | .grow config size => PrivilegedExecutor.grow config size

/-- The configuration of a call on an existing image. -/
def config : PrivilegedCall → Option PrivilegedExecutorConfig
  | .initializeNewLoopback _ => none
  | .attachOrReuse config | .mount config | .grow config _ => some config
end PrivilegedCall
end ReflinkForest
