import ReflinkForest.Checkout.Plan
import ReflinkForest.Index.Catalog

/-! Workspace manifests: what a published workspace records about itself, and the bytes that the
catalog keeps of it. -/
namespace ReflinkForest
open Bytes Except List

def isNameByte (byte : UInt8) : Bool :=
  (0x30 ≤ byte && byte ≤ 0x39) || (0x41 ≤ byte && byte ≤ 0x5a) || (0x61 ≤ byte && byte ≤ 0x7a) ||
    byte = 0x2d || byte = 0x5f

/-- 1 to 128 ASCII letters, digits, hyphens or underscores. -/
def ValidName (name : Str) : Prop := name ≠ [] ∧ name.length ≤ 128 ∧ name.all isNameByte = true

instance (name : Str) : Decidable (ValidName name) := by
  unfold ValidName
  infer_instance

structure WorkspaceName where
  bytes : Str
  valid : ValidName bytes
  deriving DecidableEq

structure WorkspaceOptionalField where
  tag : UInt16
  value : Str
  deriving DecidableEq

structure WorkspaceManifest where
  workspaceId : WorkspaceId
  repository : RepoId
  snapshotId : List.Vector UInt8 16
  commit : GitOid
  generation : UInt32
  name : Str
  createdUnixSecs : UInt64
  directories : UInt64
  regularFiles : UInt64
  executableFiles : UInt64
  symlinks : UInt64
  gitlinks : UInt64
  reflinkedRegularFiles : UInt64
  copiedRegularFiles : UInt64
  optionalFields : List WorkspaceOptionalField
  deriving DecidableEq

structure WorkspaceManifestInput where
  workspaceId : WorkspaceId
  repository : RepoId
  snapshotId : List.Vector UInt8 16
  commit : GitOid
  generation : UInt32
  name : WorkspaceName
  createdUnixSecs : UInt64

inductive WorkspaceManifestError where
  | notFound
  | invalid
  | unsupportedVersion (version : UInt16)
  | lengthOverflow
  deriving DecidableEq

def maxWorkspaceManifestBytes : ℕ := 64 * 1024
def maxWorkspaceOptionalFields : ℕ := 128
def maxWorkspaceOptionalFieldBytes : ℕ := 16 * 1024

namespace WorkspaceManifest
/-- Tags are not zero and occur once, values are bounded. -/
def validateFields : List WorkspaceOptionalField → List UInt16 → Except WorkspaceManifestError Unit
  | [], _ => .ok ()
  | field :: fields, earlier => do
    .require (field.tag ≠ 0 ∧ field.value.length ≤ maxWorkspaceOptionalFieldBytes ∧
      field.tag ∉ earlier) .invalid
    validateFields fields (field.tag :: earlier)

def validate (m : WorkspaceManifest) : Except WorkspaceManifestError Unit := do
  .require (ValidName m.name) .invalid
  let total := m.regularFiles.toNat + m.executableFiles.toNat
  .require (total < 2 ^ 64) .lengthOverflow
  .require (m.copiedRegularFiles.toNat + m.reflinkedRegularFiles.toNat = total) .invalid
  .require (m.optionalFields.length ≤ maxWorkspaceOptionalFields) .invalid
  validateFields m.optionalFields []

/-- How many entries of a plan have a mode, as a `u64` counter. -/
def countMode (plan : CheckoutPlan) (mode : TreeEntryMode) :
    Except WorkspaceManifestError UInt64 := do
  let count := (plan.entries.filter (·.object.mode = mode)).length
  .require (count < 2 ^ 64) .lengthOverflow
  .ok (UInt64.ofNat count)

def fromPlan (input : WorkspaceManifestInput) (plan : CheckoutPlan) :
    Except WorkspaceManifestError WorkspaceManifest := do
  let regularFiles ← countMode plan .regular
  let executableFiles ← countMode plan .executable
  let symlinks ← countMode plan .symlink
  let gitlinks ← countMode plan .gitlink
  .require (regularFiles.toNat + executableFiles.toNat < 2 ^ 64) .lengthOverflow
  .require (plan.directories.length < 2 ^ 64) .lengthOverflow
  let manifest : WorkspaceManifest :=
    { workspaceId := input.workspaceId
      repository := input.repository
      snapshotId := input.snapshotId
      commit := input.commit
      generation := input.generation
      name := input.name.bytes
      createdUnixSecs := input.createdUnixSecs
      directories := UInt64.ofNat plan.directories.length
      regularFiles, executableFiles, symlinks, gitlinks
      reflinkedRegularFiles := regularFiles + executableFiles
      copiedRegularFiles := 0
      optionalFields := [] }
  manifest.validate
  .ok manifest

def workspaceManifestMagic : Str := ascii "RFWORK" ++ [0, 0]

def encodeField (field : WorkspaceOptionalField) : Str :=
  u16 field.tag ++ u32 (UInt32.ofNat field.value.length) ++ field.value

/-- The commit ID in a slot of 32 bytes, behind its algorithm tag and length. -/
def encodeCommit (commit : GitOid) : Str :=
  [commit.algorithm.toTag, UInt8.ofNat commit.bytes.length] ++ commit.bytes ++
    List.replicate (32 - commit.bytes.length) 0

def encodeBytes (m : WorkspaceManifest) : Str :=
  workspaceManifestMagic ++ u16 1 ++ m.workspaceId.bytes.toList ++ m.repository.bytes.toList ++
    m.snapshotId.toList ++ encodeCommit m.commit ++ u32 m.generation ++ u64 m.createdUnixSecs ++
    u16 (UInt16.ofNat m.name.length) ++ m.name ++
    ([m.directories, m.regularFiles, m.executableFiles, m.symlinks, m.gitlinks,
      m.reflinkedRegularFiles, m.copiedRegularFiles].flatMap u64) ++
    u16 (UInt16.ofNat m.optionalFields.length) ++ m.optionalFields.flatMap encodeField

def encodeWorkspaceManifest (m : WorkspaceManifest) : Except WorkspaceManifestError Str := do
  m.validate
  .require (m.encodeBytes.length ≤ maxWorkspaceManifestBytes) .lengthOverflow
  .ok m.encodeBytes

variable {m : WorkspaceManifest}

theorem fromPlan_eq_ok {input : WorkspaceManifestInput} {plan : CheckoutPlan}
    (h : fromPlan input plan = .ok m) :
    m.workspaceId = input.workspaceId ∧ m.name = input.name.bytes ∧
      m.generation = input.generation ∧
      m.validate = .ok () ∧ m.optionalFields = [] := by
  simp only [fromPlan, bind_eq_ok_iff, ok.injEq] at h
  obtain ⟨_, _, _, _, _, _, _, _, _, _, _, _, ⟨⟩, valid, rfl⟩ := h
  exact ⟨rfl, rfl, rfl, valid, rfl⟩

theorem encodeWorkspaceManifest_eq_ok {bytes : Str} (h : m.encodeWorkspaceManifest = .ok bytes) :
    m.validate = .ok () ∧ bytes = m.encodeBytes := by
  simp only [encodeWorkspaceManifest, bind_eq_ok_iff, exists_require, ok.injEq] at h
  obtain ⟨⟨⟩, valid, _, rfl⟩ := h
  exact ⟨valid, rfl⟩

theorem validName_of_validate (h : m.validate = .ok ()) :
    ValidName m.name := by
  simp only [validate, bind_eq_ok_iff, exists_require] at h
  exact h.1

/-- A manifest that was made from a plan is never too large to encode. -/
theorem encodeWorkspaceManifest_of_plan (valid : m.validate = .ok ())
    (plain : m.optionalFields = []) : m.encodeWorkspaceManifest = .ok m.encodeBytes := by
  have short := (validName_of_validate valid).2.1
  have commit : (encodeCommit m.commit).length = 34 := by
    have bound := m.commit.algorithm.oidLen_le
    rw [← m.commit.length_eq] at bound
    simp only [encodeCommit, length_append, length_cons, length_nil, length_replicate]
    omega
  have length : m.encodeBytes.length ≤ maxWorkspaceManifestBytes := by
    simp only [encodeBytes, workspaceManifestMagic, ascii, plain, length_append, commit, length_u16,
      length_u32, length_u64, List.Vector.toList_length, flatMap_cons, flatMap_nil, length_nil,
      maxWorkspaceManifestBytes, length_map, length_cons]
    have : "RFWORK".toList.length = 6 := by decide
    omega
  rw [encodeWorkspaceManifest, valid, ok_bind, require_pos length, ok_bind]
end WorkspaceManifest
end ReflinkForest
