import Mathlib.Data.FinEnum
import ReflinkForest.Lib.Codec
import ReflinkForest.Workspace.Manifest

/-! Reading workspace manifests back, and growing them. -/
namespace ReflinkForest
open Bytes Except List

namespace WorkspaceManifestReader
abbrev take (length : ℕ) := Codec.take WorkspaceManifestError.invalid length
abbrev array (n : ℕ) := Codec.array WorkspaceManifestError.invalid n
abbrev readU8 := Codec.readU8 WorkspaceManifestError.invalid
abbrev readU16 := Codec.readU16 WorkspaceManifestError.invalid
abbrev readU32 := Codec.readU32 WorkspaceManifestError.invalid
abbrev readU64 := Codec.readU64 WorkspaceManifestError.invalid
end WorkspaceManifestReader

open WorkspaceManifestReader (readU8 readU16 readU32 readU64)

namespace WorkspaceManifest
def workspaceManifestVersion : UInt16 := 1

/-- The commit ID, whose slot is filled up with zero bytes. -/
def decodeCommit : Codec.Reader WorkspaceManifestError GitOid := fun input => do
  let (algorithmTag, input) ← readU8 input
  let algorithm ← .ofOption .invalid (HashAlgorithm.fromTag algorithmTag)
  let (oidLen, input) ← readU8 input
  .require (oidLen.toNat = algorithm.oidLen) .invalid
  let (oidBytes, input) ← WorkspaceManifestReader.array 32 input
  .require (∀ byte ∈ oidBytes.toList.drop oidLen.toNat, byte = 0) .invalid
  let commit ← .mapErr (fun _ => .invalid)
    (GitOid.new algorithm (oidBytes.toList.take oidLen.toNat))
  .ok (commit, input)

/-- The next fields, behind those that have been read. -/
def decodeFields : ℕ → List WorkspaceOptionalField →
    Codec.Reader WorkspaceManifestError (List WorkspaceOptionalField)
  | 0, optionalFields, input => .ok (optionalFields, input)
  | count + 1, optionalFields, input => do
    let (tag, input) ← readU16 input
    let (length, input) ← readU32 input
    .require (tag ≠ 0 ∧ length.toNat ≤ maxWorkspaceOptionalFieldBytes) .invalid
    let (value, input) ← WorkspaceManifestReader.take length.toNat input
    .require (∀ field ∈ optionalFields, field.tag ≠ tag) .invalid
    decodeFields count (optionalFields ++ [⟨tag, value⟩]) input

def decodeWorkspaceManifest (bytes : Str) : Except WorkspaceManifestError WorkspaceManifest := do
  .require (bytes.length ≤ maxWorkspaceManifestBytes ∧ 8 + 2 ≤ bytes.length) .invalid
  let (magic, input) ← WorkspaceManifestReader.take 8 bytes
  .require (magic = workspaceManifestMagic) .invalid
  let (version, input) ← readU16 input
  .require (version = workspaceManifestVersion) (.unsupportedVersion version)
  let (workspaceId, input) ← WorkspaceManifestReader.array 16 input
  let (repository, input) ← WorkspaceManifestReader.array 16 input
  let (snapshotId, input) ← WorkspaceManifestReader.array 16 input
  let (commit, input) ← decodeCommit input
  let (generation, input) ← readU32 input
  let (createdUnixSecs, input) ← readU64 input
  let (nameLen, input) ← readU16 input
  .require (nameLen.toNat ≤ 128) .invalid
  let (name, input) ← WorkspaceManifestReader.take nameLen.toNat input
  let (directories, input) ← readU64 input
  let (regularFiles, input) ← readU64 input
  let (executableFiles, input) ← readU64 input
  let (symlinks, input) ← readU64 input
  let (gitlinks, input) ← readU64 input
  let (reflinkedRegularFiles, input) ← readU64 input
  let (copiedRegularFiles, input) ← readU64 input
  let (optionalCount, input) ← readU16 input
  .require (optionalCount.toNat ≤ maxWorkspaceOptionalFields) .invalid
  let (optionalFields, input) ← decodeFields optionalCount.toNat [] input
  .require (input = []) .invalid
  let manifest : WorkspaceManifest :=
    { workspaceId := ⟨workspaceId⟩, repository := ⟨repository⟩, snapshotId, commit, generation,
      name, createdUnixSecs, directories, regularFiles, executableFiles, symlinks, gitlinks,
      reflinkedRegularFiles, copiedRegularFiles, optionalFields }
  manifest.validate
  .ok manifest

theorem encodeCommit_eq (commit : GitOid) : encodeCommit commit =
    commit.algorithm.toTag :: UInt8.ofNat commit.algorithm.oidLen ::
      (commit.bytes ++ List.replicate (32 - commit.algorithm.oidLen) 0) := by
  rw [encodeCommit, commit.length_eq]
  rfl

theorem decodeCommit_exact : Codec.Exact decodeCommit (fun _ => True) encodeCommit := by
  intro input commit rest
  simp only [decodeCommit, bind_eq_ok_iff, Prod.exists, Codec.readU8_eq_ok_iff,
    Codec.array_eq_ok_iff, ofOption_eq_ok, HashAlgorithm.fromTag_eq_some_iff, exists_require,
    mapErr_eq_ok, GitOid.new_eq_ok_iff, ok.injEq, Prod.mk.injEq, true_and]
  constructor
  · rintro ⟨_, _, rfl, algorithm, rfl, oidLen, _, rfl, measured, slot, _, rfl, zeros, target,
      ⟨rfl, bytes⟩, rfl, rfl⟩
    have same : UInt8.ofNat target.algorithm.oidLen = oidLen := by
      rw [← measured, UInt8.ofNat_toNat]
    have padding : slot.toList.drop target.algorithm.oidLen =
        List.replicate (32 - target.algorithm.oidLen) 0 := by
      rw [← measured]
      apply eq_replicate_iff.mpr
      exact ⟨by simp, zeros⟩
    rw [encodeCommit_eq, same, bytes, measured, ← padding, take_append_drop]
    rfl
  · rintro rfl
    have measured := commit.algorithm.toNat_oidLen
    have short := commit.algorithm.oidLen_le
    have length : (commit.bytes ++ List.replicate (32 - commit.algorithm.oidLen) 0).length =
        32 := by
      rw [length_append, length_replicate, commit.length_eq]
      omega
    refine ⟨_, _, ?_, commit.algorithm, rfl, UInt8.ofNat commit.algorithm.oidLen, _, rfl, measured,
      ⟨commit.bytes ++ List.replicate (32 - commit.algorithm.oidLen) 0, length⟩, rest, rfl, ?_,
      commit, ⟨rfl, ?_⟩, rfl, rfl⟩
    · rw [encodeCommit_eq]
      rfl
    · rw [measured, List.Vector.toList_mk, drop_left' commit.length_eq]
      exact fun byte mem => (mem_replicate.mp mem).2
    · rw [measured, List.Vector.toList_mk, take_left' commit.length_eq]

theorem decodeFields_eq_ok_iff {count : ℕ} {earlier fields : List WorkspaceOptionalField}
    {input rest : Str} : decodeFields count earlier input = .ok (fields, rest) ↔
      ∃ more : List WorkspaceOptionalField, fields = earlier ++ more ∧ more.length = count ∧
        validateFields more (earlier.map (·.tag)).reverse = .ok () ∧
        input = more.flatMap encodeField ++ rest := by
  induction count generalizing earlier input with
  | zero =>
    simp only [decodeFields, ok.injEq, Prod.mk.injEq, length_eq_zero_iff]
    constructor
    · rintro ⟨rfl, rfl⟩
      exact ⟨[], by simp, rfl, rfl, rfl⟩
    · rintro ⟨_, rfl, rfl, _, rfl⟩
      exact ⟨by simp, rfl⟩
  | succ count ih =>
    simp only [decodeFields, bind_eq_ok_iff, Prod.exists, Codec.readU16_eq_ok_iff,
      Codec.readU32_eq_ok_iff, Codec.take_eq_ok_iff, exists_require, ih]
    constructor
    · rintro ⟨tag, _, rfl, length, _, rfl, ⟨nonzero, small⟩, value, _, ⟨measured, rfl⟩, fresh,
        more, rfl, rfl, valid, rfl⟩
      have same : UInt32.ofNat value.length = length := by rw [measured, UInt32.ofNat_toNat]
      refine ⟨⟨tag, value⟩ :: more, by simp, rfl, ?_, by simp [encodeField, same]⟩
      rw [validateFields, require_pos, ok_bind]
      · simpa using valid
      · refine ⟨nonzero, by rw [measured]; exact small, ?_⟩
        simpa using fresh
    · rintro ⟨_, rfl, counted, valid, rfl⟩
      obtain ⟨field, more, rfl⟩ := exists_cons_of_length_eq_add_one counted
      simp only [validateFields, require_bind_eq_ok, mem_reverse, mem_map,
        not_exists, not_and] at valid
      obtain ⟨⟨nonzero, small, fresh⟩, valid⟩ := valid
      have fits : field.value.length < 2 ^ 32 := by
        rw [maxWorkspaceOptionalFieldBytes] at small
        omega
      have measured := UInt32.toNat_ofNat_of_lt' fits
      refine ⟨field.tag, _, ?_, UInt32.ofNat field.value.length, _, rfl,
        ⟨nonzero, by rw [measured]; exact small⟩, field.value, more.flatMap encodeField ++ rest,
        ⟨measured.symm, rfl⟩, fresh, more, by simp, Nat.succ_injective counted,
        by simpa using valid, rfl⟩
      simp [encodeField]

theorem validate_optionalFields {m : WorkspaceManifest} (h : m.validate = .ok ()) :
    m.optionalFields.length ≤ maxWorkspaceOptionalFields ∧
      validateFields m.optionalFields [] = .ok () := by
  simp only [validate, bind_eq_ok_iff, exists_require] at h
  exact h.2.2.2

theorem decodeWorkspaceManifest_eq_ok_iff {m : WorkspaceManifest} {bytes : Str} :
    decodeWorkspaceManifest bytes = .ok m ↔ encodeWorkspaceManifest m = .ok bytes := by
  simp only [decodeWorkspaceManifest, encodeWorkspaceManifest, bind_eq_ok_iff,
    Prod.exists, Codec.take_eq_ok_iff, Codec.array_eq_ok_iff, Codec.readU16_eq_ok_iff,
    Codec.readU32_eq_ok_iff, Codec.readU64_eq_ok_iff, decodeCommit_exact _ _ _,
    decodeFields_eq_ok_iff, exists_require, ok.injEq, true_and]
  constructor
  · rintro ⟨⟨small, _⟩, _, _, ⟨_, _⟩, _, _, _, _, _, workspaceId, _, _, repository, _, _,
      snapshotId, _, _, commit, _, _, generation, _, _, createdUnixSecs, _, _, nameLen, _, _, _,
      name, _, ⟨named, _⟩, directories, _, _, regularFiles, _, _, executableFiles, _, _, symlinks,
      _, _, gitlinks, _, _, reflinkedRegularFiles, _, _, copiedRegularFiles, _, _, optionalCount,
      _, _, _, optionalFields, _, ⟨more, _, counted, _, _⟩, _, u, valid, rfl⟩
    have nameSame : nameLen = UInt16.ofNat name.length := by rw [named, UInt16.ofNat_toNat]
    have countSame : optionalCount = UInt16.ofNat more.length := by rw [counted, UInt16.ofNat_toNat]
    -- the equations between the inputs are used together, once everything has been read
    have same : encodeBytes ⟨⟨workspaceId⟩, ⟨repository⟩, snapshotId, commit, generation, name,
        createdUnixSecs, directories, regularFiles, executableFiles, symlinks, gitlinks,
        reflinkedRegularFiles, copiedRegularFiles, optionalFields⟩ = bytes := by
      subst_vars
      simp [encodeBytes, workspaceManifestVersion]
    exact ⟨u, valid, by rw [same]; exact small, same⟩
  · rintro ⟨u, valid, small, rfl⟩
    obtain ⟨few, fields⟩ := validate_optionalFields valid
    have short := (validName_of_validate valid).2.1
    have nameFits : m.name.length < 2 ^ 16 := by omega
    have countFits : m.optionalFields.length < 2 ^ 16 := by
      rw [maxWorkspaceOptionalFields] at few
      omega
    have named := UInt16.toNat_ofNat_of_lt' nameFits
    have counted := UInt16.toNat_ofNat_of_lt' countFits
    refine ⟨⟨small, ?_⟩, workspaceManifestMagic, _, ⟨by decide, ?_⟩, rfl, workspaceManifestVersion,
      _, rfl, rfl, m.workspaceId.bytes, _, rfl, m.repository.bytes, _, rfl, m.snapshotId, _, rfl,
      m.commit, _, rfl, m.generation, _, rfl, m.createdUnixSecs, _, rfl,
      UInt16.ofNat m.name.length, _, rfl, by rw [named]; exact short, m.name, _,
      ⟨named.symm, rfl⟩, m.directories, _, rfl, m.regularFiles, _, rfl, m.executableFiles, _, rfl,
      m.symlinks, _, rfl, m.gitlinks, _, rfl, m.reflinkedRegularFiles, _, rfl,
      m.copiedRegularFiles, _, rfl, UInt16.ofNat m.optionalFields.length, _, rfl,
      by rw [counted]; exact few, m.optionalFields, [],
      ⟨m.optionalFields, rfl, counted.symm, fields, rfl⟩, rfl, u, valid, rfl⟩
    · simp only [encodeBytes, length_append, length_u16,
        show workspaceManifestMagic.length = 8 by decide]
      omega
    · simp [encodeBytes, workspaceManifestVersion]

/-- Valid manifests that are not too large round-trip, and accepted bytes are canonical. -/
theorem workspaceManifest_roundTrip :
    (∀ m : WorkspaceManifest, m.validate = .ok () →
      m.encodeBytes.length ≤ maxWorkspaceManifestBytes →
      ∃ bytes, encodeWorkspaceManifest m = .ok bytes ∧ decodeWorkspaceManifest bytes = .ok m) ∧
    ∀ bytes m, decodeWorkspaceManifest bytes = .ok m →
      encodeWorkspaceManifest m = .ok bytes := by
  constructor
  · intro m valid small
    have encoded : encodeWorkspaceManifest m = .ok m.encodeBytes := by
      rw [encodeWorkspaceManifest, valid, ok_bind, require_pos small, ok_bind]
    exact ⟨m.encodeBytes, encoded, decodeWorkspaceManifest_eq_ok_iff.mpr encoded⟩
  · exact fun _ _ => decodeWorkspaceManifest_eq_ok_iff.mp

section OptionalFields
/-- The field may be added to a manifest that has no field of its tag. -/
def Acceptable (field : WorkspaceOptionalField) : Prop :=
  field.tag ≠ 0 ∧ field.value.length ≤ maxWorkspaceOptionalFieldBytes

instance (field : WorkspaceOptionalField) : Decidable (Acceptable field) := by
  unfold Acceptable
  infer_instance

def push (m : WorkspaceManifest) (field : WorkspaceOptionalField) : WorkspaceManifest :=
  { m with optionalFields := m.optionalFields ++ [field] }

/-- The manifest after the call, and what the call returns. -/
def addOptionalField (m : WorkspaceManifest) (field : WorkspaceOptionalField) :
    WorkspaceManifest × Except WorkspaceManifestError Unit :=
  if field.tag = 0 ∨ maxWorkspaceOptionalFieldBytes < field.value.length ∨
      ∃ existing ∈ m.optionalFields, existing.tag = field.tag then
    (m, .error .invalid)
  else
    (m.push field, (m.push field).validate)

def addOptionalFields (m : WorkspaceManifest) (calls : List WorkspaceOptionalField) :
    WorkspaceManifest :=
  calls.foldl (fun m field => (m.addOptionalField field).1) m

/-- A call that fails changes nothing, one that succeeds appends its field. -/
def AtomicCall (m : WorkspaceManifest) (field : WorkspaceOptionalField) : Prop :=
  (∀ e, (m.addOptionalField field).2 = .error e → (m.addOptionalField field).1 = m) ∧
    ((m.addOptionalField field).2 = .ok () → (m.addOptionalField field).1 = m.push field)

def AtomicCalls : WorkspaceManifest → List WorkspaceOptionalField → Prop
  | _, [] => True
  | m, field :: calls =>
    AtomicCall m field ∧ (m.addOptionalField field).1.validate = .ok () ∧
      AtomicCalls (m.addOptionalField field).1 calls

variable {m : WorkspaceManifest} {field : WorkspaceOptionalField}

theorem validateFields_eq_ok_iff {fields : List WorkspaceOptionalField} {earlier : List UInt16} :
    validateFields fields earlier = .ok () ↔
      (∀ field ∈ fields, Acceptable field ∧ field.tag ∉ earlier) ∧
        (fields.map (·.tag)).Nodup := by
  induction fields generalizing earlier with
  | nil => simp [validateFields]
  | cons field fields ih =>
    rw [validateFields, require_bind_eq_ok, ih, forall_mem_cons, map_cons, nodup_cons]
    simp only [mem_cons, not_or, mem_map, not_exists, not_and]
    constructor
    · rintro ⟨⟨nonzero, small, fresh⟩, others, distinct⟩
      exact ⟨⟨⟨⟨nonzero, small⟩, fresh⟩, fun other mem =>
        ⟨(others other mem).1, (others other mem).2.2⟩⟩,
        fun other mem => (others other mem).2.1, distinct⟩
    · rintro ⟨⟨⟨⟨nonzero, small⟩, fresh⟩, others⟩, apart, distinct⟩
      exact ⟨⟨nonzero, small, fresh⟩, fun other mem =>
        ⟨(others other mem).1, apart other mem, (others other mem).2⟩, distinct⟩

/-- Only the number of fields can be wrong. -/
structure FieldsSound (m : WorkspaceManifest) : Prop where
  others : ∀ fields, { m with optionalFields := fields }.validate = .ok () ↔
    fields.length ≤ maxWorkspaceOptionalFields ∧ validateFields fields [] = .ok ()
  acceptable : ∀ field ∈ m.optionalFields, Acceptable field
  distinct : (m.optionalFields.map (·.tag)).Nodup

theorem FieldsSound.validate_iff (h : FieldsSound m) : m.validate = .ok () ↔
    m.optionalFields.length ≤ maxWorkspaceOptionalFields := by
  have fields : validateFields m.optionalFields [] = .ok () :=
    validateFields_eq_ok_iff.mpr ⟨fun field mem => ⟨h.acceptable field mem, by simp⟩,
      h.distinct⟩
  rw [h.others m.optionalFields, and_iff_left fields]

theorem fieldsSound_of_validate (h : m.validate = .ok ()) : FieldsSound m := by
  obtain ⟨_, fields⟩ := validate_optionalFields h
  obtain ⟨acceptable, distinct⟩ := validateFields_eq_ok_iff.mp fields
  refine ⟨?_, fun field mem => (acceptable field mem).1, distinct⟩
  intro others
  simp only [validate, bind_eq_ok_iff, exists_require] at h ⊢
  obtain ⟨name, total, counted, _⟩ := h
  exact ⟨fun valid => valid.2.2.2, fun valid => ⟨name, total, counted, valid⟩⟩

theorem addOptionalField_cases (m : WorkspaceManifest) (field : WorkspaceOptionalField) :
    (Acceptable field ∧ field.tag ∉ m.optionalFields.map (·.tag) ∧
      m.addOptionalField field = (m.push field, (m.push field).validate)) ∨
    ((Acceptable field → field.tag ∈ m.optionalFields.map (·.tag)) ∧
      m.addOptionalField field = (m, .error .invalid)) := by
  unfold addOptionalField
  split
  · rename_i refused
    refine .inr ⟨?_, rfl⟩
    rintro ⟨nonzero, small⟩
    rcases refused with zero | large | ⟨existing, mem, same⟩
    · exact absurd zero nonzero
    · omega
    · exact mem_map.mpr ⟨existing, mem, same⟩
  · rename_i accepted
    simp only [not_or, not_exists, not_and, not_lt] at accepted
    refine .inl ⟨⟨accepted.1, accepted.2.1⟩, ?_, rfl⟩
    intro present
    obtain ⟨existing, mem, same⟩ := mem_map.mp present
    exact accepted.2.2 existing mem same

theorem FieldsSound.push (h : FieldsSound m) (acceptable : Acceptable field)
    (fresh : field.tag ∉ m.optionalFields.map (·.tag)) : FieldsSound (m.push field) := by
  refine ⟨h.others, ?_, ?_⟩
  · intro other mem
    rcases mem_append.mp mem with old | new
    · exact h.acceptable other old
    · rw [mem_singleton.mp new]
      exact acceptable
  · have apart : List.Disjoint (m.optionalFields.map (·.tag)) [field.tag] := by
      simpa using fresh
    simpa [WorkspaceManifest.push] using
      List.Nodup.append h.distinct (nodup_singleton field.tag) apart

theorem FieldsSound.addOptionalField (h : FieldsSound m) :
    FieldsSound (m.addOptionalField field).1 := by
  rcases addOptionalField_cases m field with ⟨acceptable, fresh, same⟩ | ⟨_, same⟩
  · rw [same]
    exact h.push acceptable fresh
  · rw [same]
    exact h

theorem FieldsSound.addOptionalFields (h : FieldsSound m)
    (calls : List WorkspaceOptionalField) : FieldsSound (m.addOptionalFields calls) := by
  induction calls generalizing m with
  | nil => exact h
  | cons field calls ih => exact ih h.addOptionalField

theorem length_le_addOptionalFields (m : WorkspaceManifest)
    (calls : List WorkspaceOptionalField) :
    m.optionalFields.length ≤ (m.addOptionalFields calls).optionalFields.length := by
  induction calls generalizing m with
  | nil => exact le_rfl
  | cons field calls ih =>
    refine le_trans ?_ (ih _)
    rcases addOptionalField_cases m field with ⟨_, _, same⟩ | ⟨_, same⟩
    · simp [same, push]
    · simp [same]

/-- One call is atomic and leaves a valid manifest exactly when the fields it leaves are not too
many. -/
theorem atomicCall_iff (h : FieldsSound m) :
    AtomicCall m field ∧ (m.addOptionalField field).1.validate = .ok () ↔
      (m.addOptionalField field).1.optionalFields.length ≤ maxWorkspaceOptionalFields := by
  rw [← h.addOptionalField.validate_iff, and_iff_right_iff_imp]
  intro valid
  unfold AtomicCall
  rcases addOptionalField_cases m field with ⟨_, _, same⟩ | ⟨_, same⟩
  · rw [same] at valid ⊢
    simp [valid]
  · rw [same]
    simp

theorem atomicCalls_iff (h : FieldsSound m)
    (few : m.optionalFields.length ≤ maxWorkspaceOptionalFields)
    (calls : List WorkspaceOptionalField) : AtomicCalls m calls ↔
      (m.addOptionalFields calls).optionalFields.length ≤ maxWorkspaceOptionalFields := by
  induction calls generalizing m with
  | nil => simpa [AtomicCalls, WorkspaceManifest.addOptionalFields] using few
  | cons field calls ih =>
    rw [AtomicCalls, ← and_assoc, atomicCall_iff h]
    have grows := length_le_addOptionalFields (m.addOptionalField field).1 calls
    constructor
    · rintro ⟨still, rest⟩
      exact (ih h.addOptionalField still).mp rest
    · intro all
      have still := grows.trans all
      exact ⟨still, (ih h.addOptionalField still).mpr all⟩

/-- The tags at the end are those at the start and those of the acceptable calls. -/
theorem tags_addOptionalFields (m : WorkspaceManifest) (calls : List WorkspaceOptionalField) :
    ((m.addOptionalFields calls).optionalFields.map (·.tag)).toFinset =
      ((m.optionalFields ++ calls.filter Acceptable).map (·.tag)).toFinset := by
  induction calls generalizing m with
  | nil => simp [WorkspaceManifest.addOptionalFields]
  | cons field calls ih =>
    have step : m.addOptionalFields (field :: calls) =
        (m.addOptionalField field).1.addOptionalFields calls := rfl
    rw [step, ih]
    ext tag
    rcases addOptionalField_cases m field with ⟨acceptable, _, same⟩ | ⟨present, same⟩
    · rw [same, filter_cons_of_pos (by simpa using acceptable)]
      simp [push]
    · rw [same]
      by_cases acceptable : Acceptable field
      · rw [filter_cons_of_pos (by simpa using acceptable)]
        have already := present acceptable
        simp only [map_append, mem_toFinset, mem_append, map_cons, mem_cons]
        constructor
        · rintro (old | later)
          · exact .inl old
          · exact .inr (.inr later)
        · rintro (old | rfl | later)
          · exact .inl old
          · exact .inl already
          · exact .inr later
      · rw [filter_cons_of_neg (by simpa using acceptable)]

/-- Over any sequence of calls on a valid manifest, every call is atomic and leaves the manifest
valid exactly when its tags and those of the acceptable calls are at most 128. -/
theorem addOptionalField_atomic_iff (m : WorkspaceManifest) (valid : m.validate = .ok ())
    (calls : List WorkspaceOptionalField) : AtomicCalls m calls ↔
      ((m.optionalFields ++ calls.filter Acceptable).map (·.tag)).toFinset.card ≤
        maxWorkspaceOptionalFields := by
  have sound := fieldsSound_of_validate valid
  have distinct := (sound.addOptionalFields calls).distinct
  rw [atomicCalls_iff sound (sound.validate_iff.mp valid), ← tags_addOptionalFields,
    List.toFinset_card_of_nodup distinct, List.length_map]

/-- A manifest of an empty workspace with the given optional fields. -/
def emptyWorkspace (optionalFields : List WorkspaceOptionalField) : WorkspaceManifest :=
  { workspaceId := ⟨List.Vector.replicate 16 1⟩, repository := ⟨List.Vector.replicate 16 2⟩,
    snapshotId := List.Vector.replicate 16 3, commit := ⟨.sha1, List.replicate 20 4, rfl⟩,
    generation := 1, name := ascii "work", createdUnixSecs := 0, directories := 0,
    regularFiles := 0, executableFiles := 0, symlinks := 0, gitlinks := 0,
    reflinkedRegularFiles := 0, copiedRegularFiles := 0, optionalFields }

theorem emptyWorkspace_two_calls : (emptyWorkspace []).validate = .ok () ∧
    AtomicCalls (emptyWorkspace []) [⟨1, [7]⟩, ⟨1, []⟩] :=
  ⟨by decide, (addOptionalField_atomic_iff (emptyWorkspace []) (by decide) _).mpr (by decide)⟩

/-- 128 fields, as many as a valid manifest can have. -/
def fullWorkspace : WorkspaceManifest :=
  emptyWorkspace ((List.range 128).map fun i => ⟨UInt16.ofNat (i + 1), []⟩)

/-- The call that returns the error keeps its field. -/
theorem full_manifest_keeps_refused_field : ¬∀ m : WorkspaceManifest, m.validate = .ok () →
    ∀ calls, AtomicCalls m calls := by
  intro claimed
  have valid : fullWorkspace.validate = .ok () := by decide +kernel
  have refused : (fullWorkspace.addOptionalField ⟨129, []⟩).2 = .error .invalid := by
    decide +kernel
  have kept : (fullWorkspace.addOptionalField ⟨129, []⟩).1.optionalFields.length ≠
      fullWorkspace.optionalFields.length := by
    decide +kernel
  exact kept (congrArg (·.optionalFields.length)
    ((claimed fullWorkspace valid [⟨129, []⟩]).1.1 _ refused))
end OptionalFields
end WorkspaceManifest
end ReflinkForest
