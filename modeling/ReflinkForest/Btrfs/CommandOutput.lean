import ReflinkForest.Core.Identity

/-! What the privileged executor makes of the output of its commands. Texts are their bytes. -/
namespace ReflinkForest
open Bytes

def newline : UInt8 := 0x0a
def carriageReturn : UInt8 := 0x0d

/-- The byte ranges that may follow a first byte of a UTF-8 sequence. -/
def utf8Tail (byte : UInt8) : Option (List (UInt8 × UInt8)) :=
  if byte ≤ 0x7f then some []
  else if 0xc2 ≤ byte ∧ byte ≤ 0xdf then some [(0x80, 0xbf)]
  else if byte = 0xe0 then some [(0xa0, 0xbf), (0x80, 0xbf)]
  else if byte = 0xed then some [(0x80, 0x9f), (0x80, 0xbf)]
  else if 0xe1 ≤ byte ∧ byte ≤ 0xef then some [(0x80, 0xbf), (0x80, 0xbf)]
  else if byte = 0xf0 then some [(0x90, 0xbf), (0x80, 0xbf), (0x80, 0xbf)]
  else if 0xf1 ≤ byte ∧ byte ≤ 0xf3 then some [(0x80, 0xbf), (0x80, 0xbf), (0x80, 0xbf)]
  else if byte = 0xf4 then some [(0x80, 0x8f), (0x80, 0xbf), (0x80, 0xbf)]
  else none

/-- One byte, given the ranges that its sequence still expects. -/
def utf8Step : List (UInt8 × UInt8) → UInt8 → Option (List (UInt8 × UInt8))
  | [], byte => utf8Tail byte
  | (low, high) :: expected, byte => if low ≤ byte ∧ byte ≤ high then some expected else none

def isUtf8 (text : Str) : Bool := text.foldlM utf8Step [] = some []

/-- `str::lines`: a carriage return goes with the newline after it, and only then. -/
def lines (text : Str) : List Str :=
  let parts := text.splitOn newline
  let ended := parts.dropLast.map fun line =>
    if line.getLast? = some carriageReturn then line.dropLast else line
  match parts.getLast? with
  | some (byte :: rest) => ended ++ [byte :: rest]
  | _ => ended

def splitOnce (separator : UInt8) (line : Str) : Option (Str × Str) :=
  if separator ∈ line then
    some (line.takeWhile (· ≠ separator), (line.dropWhile (· ≠ separator)).tail)
  else none

def stripLineEnd (output : Str) : Str :=
  if [carriageReturn, newline] <:+ output then output.take (output.length - 2)
  else if [newline] <:+ output then output.take (output.length - 1)
  else output

abbrev FilesystemUuid := List.Vector UInt8 16

inductive ImageAllocation where
  | sparse | reserved
  deriving DecidableEq

structure InstanceMarker where
  instanceUuid : List.Vector UInt8 16
  filesystemUuid : FilesystemUuid
  label : Str
  deriving DecidableEq

inductive BtrfsError where
  | io (errno : ℕ)
  | commandFailed (program : String) (status : Option ℤ) (stderr : Str)
  | existingPath (path : Str)
  | unsafeImagePath (path : Str)
  | invalidMarker
  | identityMismatch
  | duplicateLoopAssociation (device : Str)
  | invalidSize
  | loopBackingMismatch (device backing : Str)
  | invalidCommandOutput (reason : String)
  | shrinkNotSupported (current requested : UInt64)
  deriving DecidableEq

structure InspectedFilesystem where
  filesystemUuid : FilesystemUuid
  label : Str
  deriving DecidableEq

def isLoopDevice (device : Str) : Bool :=
  let digits := device.drop (ascii "/dev/loop").length
  decide (ascii "/dev/loop" <+: device) && !digits.isEmpty &&
    digits.all fun byte => 0x30 ≤ byte && byte ≤ 0x39

def listedDevice (devices : List Str) (line : Str) : Except BtrfsError (List Str) := do
  let (device, _) ← .ofOption (.invalidCommandOutput "malformed losetup --all line")
    (splitOnce 0x3a line)
  .require (isLoopDevice device ∧ device ∉ devices)
    (.invalidCommandOutput "invalid or duplicate loop device")
  .ok (devices ++ [device])

def parseLoopDeviceListing (output : Str) : Except BtrfsError (List Str) := do
  .require (isUtf8 output) (.invalidCommandOutput "losetup --all is not UTF-8")
  (lines output).foldlM listedDevice []

def parseAttachedLoopDevice (output : Str) : Except BtrfsError Str := do
  .require (isUtf8 output) (.invalidCommandOutput "losetup device is not UTF-8")
  let device := stripLineEnd output
  .require (isLoopDevice device ∧ device ≠ [])
    (.invalidCommandOutput "invalid losetup --show device")
  .ok device

def parseSingleBackingPath (output : Str) : Except BtrfsError Str := do
  let path := stripLineEnd output
  .require (path ≠ [] ∧ newline ∉ path ∧ carriageReturn ∉ path)
    (.invalidCommandOutput "invalid loop backing path")
  .ok path

def uuidNibble (byte : UInt8) : Option UInt8 :=
  if 0x30 ≤ byte ∧ byte ≤ 0x39 then some (byte - 0x30)
  else if 0x61 ≤ byte ∧ byte ≤ 0x66 then some (byte - 0x61 + 10)
  else if 0x41 ≤ byte ∧ byte ≤ 0x46 then some (byte - 0x41 + 10)
  else none

def uuidBytes : Str → Option Str
  | high :: low :: rest => do
    let high ← uuidNibble high
    let low ← uuidNibble low
    let bytes ← uuidBytes rest
    some (((high <<< 4) ||| low) :: bytes)
  | _ => some []

def uuidHyphens : List ℕ := [8, 13, 18, 23]

def parseFilesystemUuid (value : Str) : Option FilesystemUuid :=
  let digits := (value.zipIdx.filter fun entry => entry.2 ∉ uuidHyphens).map Prod.fst
  if value.length ≠ 36 then none
  else if uuidHyphens.any fun position => value[position]? ≠ some 0x2d then none
  else
    match uuidBytes digits with
    | none => none
    | some bytes => if sized : bytes.length = 16 then some ⟨bytes, sized⟩ else none

/-- The fields seen so far. -/
structure BlkidFields where
  uuid : Option FilesystemUuid
  label : Option Str
  btrfs : Bool

def blkidLine (fields : BlkidFields) (line : Str) : Except BtrfsError BlkidFields := do
  let (key, value) ← .ofOption (.invalidCommandOutput "malformed blkid export line")
    (splitOnce 0x3d line)
  if key = ascii "UUID" then do
    let uuid ← .ofOption (.invalidCommandOutput "invalid Btrfs UUID")
      (parseFilesystemUuid value)
    .require (fields.uuid = none) (.invalidCommandOutput "duplicate Btrfs UUID")
    .ok { fields with uuid := some uuid }
  else if key = ascii "LABEL" then do
    .require (fields.label = none) (.invalidCommandOutput "duplicate Btrfs label")
    .ok { fields with label := some value }
  else if key = ascii "TYPE" then do
    .require (value = ascii "btrfs") (.invalidCommandOutput "non-Btrfs blkid type")
    .ok { fields with btrfs := true }
  else .ok fields

def parseBlkidExportIdentity (output : Str) : Except BtrfsError InspectedFilesystem := do
  .require (isUtf8 output) (.invalidCommandOutput "blkid output is not UTF-8")
  let fields ← (lines output).foldlM blkidLine ⟨none, none, false⟩
  .require (fields.btrfs = true) (.invalidCommandOutput "missing Btrfs type")
  let filesystemUuid ← .ofOption (.invalidCommandOutput "missing Btrfs UUID") fields.uuid
  let label ← .ofOption (.invalidCommandOutput "missing Btrfs label") fields.label
  .ok ⟨filesystemUuid, label⟩

def maxBtrfsLabelBytes : ℕ := 255

def validateBtrfsLabel (label : Str) : Except BtrfsError Unit :=
  .require (label ≠ [] ∧ label.length ≤ maxBtrfsLabelBytes ∧ 0 ∉ label ∧ newline ∉ label ∧
    carriageReturn ∉ label) .invalidMarker

def verifyInstanceIdentity (marker : InstanceMarker) (inspected : InspectedFilesystem) :
    Except BtrfsError Unit :=
  .require (marker.filesystemUuid = inspected.filesystemUuid ∧
    marker.label = inspected.label) .identityMismatch

end ReflinkForest
