import ReflinkForest.Lib.Bytes

/-! Object kinds, Git object IDs and content IDs. The digest and compression crates enter as
parameters. -/
namespace ReflinkForest
open Bytes

/-- Bytes of an ASCII literal. -/
def ascii (s : String) : Str := s.toList.map fun c => UInt8.ofNat c.toNat

/-- ASCII decimal digits, as produced by `to_string`. -/
def decimal (n : ℕ) : Str := (Nat.toDigits 10 n).map fun c => UInt8.ofNat c.toNat

inductive ObjectKind where
  | commit | tree | blob | tag
  deriving DecidableEq, Repr

namespace ObjectKind
def toTag : ObjectKind → UInt8
  | .commit => 1
  | .tree => 2
  | .blob => 3
  | .tag => 4

def fromTag (t : UInt8) : Option ObjectKind :=
  if t = 1 then some .commit
  else if t = 2 then some .tree
  else if t = 3 then some .blob
  else if t = 4 then some .tag
  else none

@[simp] theorem fromTag_toTag (k : ObjectKind) : fromTag k.toTag = some k := by
  cases k <;> rfl

theorem toTag_of_fromTag {t : UInt8} {k : ObjectKind} (h : fromTag t = some k) :
    k.toTag = t := by
  unfold fromTag at h
  split_ifs at h <;> simp_all [toTag] <;> subst k <;> rfl

/-- Git's type name, the first word of an object header. -/
def gitName : ObjectKind → Str
  | .commit => ascii "commit"
  | .tree => ascii "tree"
  | .blob => ascii "blob"
  | .tag => ascii "tag"
end ObjectKind

inductive HashAlgorithm where
  | sha1 | sha256
  deriving DecidableEq, Repr

namespace HashAlgorithm
def toTag : HashAlgorithm → UInt8
  | .sha1 => 1
  | .sha256 => 2

def oidLen : HashAlgorithm → ℕ
  | .sha1 => 20
  | .sha256 => 32

def fromTag (t : UInt8) : Option HashAlgorithm :=
  if t = 1 then some .sha1 else if t = 2 then some .sha256 else none

@[simp] theorem fromTag_toTag (a : HashAlgorithm) : fromTag a.toTag = some a := by
  cases a <;> rfl

theorem toTag_of_fromTag {t : UInt8} {a : HashAlgorithm} (h : fromTag t = some a) :
    a.toTag = t := by
  unfold fromTag at h
  split_ifs at h <;> simp_all [toTag] <;> subst a <;> rfl

theorem fromTag_eq_some_iff {tag : UInt8} {algorithm : HashAlgorithm} :
    fromTag tag = some algorithm ↔ tag = algorithm.toTag := by
  constructor
  · exact fun h => (toTag_of_fromTag h).symm
  · rintro rfl
    exact fromTag_toTag algorithm

theorem oidLen_le (a : HashAlgorithm) : a.oidLen ≤ 32 := by cases a <;> decide

theorem toNat_oidLen (algorithm : HashAlgorithm) :
    (UInt8.ofNat algorithm.oidLen).toNat = algorithm.oidLen := by
  cases algorithm <;> rfl
end HashAlgorithm

/-- What one call of the Zstd decoder makes of a byte string: the bytes it
emits for the first frame, and the input left after that frame. `rest` is
`none` when the frame is malformed or cut short. -/
structure ZstdFrame where
  output : Str
  rest : Option Str

/-- Functions of the `sha1`, `sha2` and `zstd` crates. -/
structure Primitives where
  sha1 : Str → List.Vector UInt8 20
  sha256 : Str → List.Vector UInt8 32
  zstdEncode : Str → Str
  zstdFrame : Str → ZstdFrame

/-- `decode` inverts `encode`: an encoded payload is exactly one frame. -/
def Primitives.ZstdInverts (P : Primitives) : Prop :=
  ∀ raw, P.zstdFrame (P.zstdEncode raw) = ⟨raw, some []⟩

structure GitOid where
  algorithm : HashAlgorithm
  bytes : Str
  length_eq : bytes.length = algorithm.oidLen
  deriving DecidableEq

structure InvalidGitOidLength where
  algorithm : HashAlgorithm
  actual : ℕ
  deriving DecidableEq

namespace GitOid
def new (algorithm : HashAlgorithm) (oid : Str) : Except InvalidGitOidLength GitOid :=
  if h : oid.length = algorithm.oidLen then .ok ⟨algorithm, oid, h⟩
  else .error ⟨algorithm, oid.length⟩

theorem new_bytes (o : GitOid) : new o.algorithm o.bytes = .ok o := by
  simp [new, o.length_eq]

theorem new_eq_ok_iff {algorithm : HashAlgorithm} {bytes : Str} {oid : GitOid} :
    new algorithm bytes = .ok oid ↔ oid.algorithm = algorithm ∧ oid.bytes = bytes := by
  constructor
  · intro made
    unfold new at made
    split_ifs at made
    cases made
    exact ⟨rfl, rfl⟩
  · rintro ⟨rfl, rfl⟩
    exact new_bytes oid

/-- `"<kind> <length>\0"`, hashed before the payload. -/
def objectHeader (kind : ObjectKind) (rawLength : ℕ) : Str :=
  kind.gitName ++ ascii " " ++ decimal rawLength ++ [0]

def forObject (P : Primitives) (algorithm : HashAlgorithm) (kind : ObjectKind)
    (raw : Str) : GitOid :=
  match algorithm with
  | .sha1 => ⟨.sha1, (P.sha1 (objectHeader kind raw.length ++ raw)).toList,
      by simp [HashAlgorithm.oidLen]⟩
  | .sha256 => ⟨.sha256, (P.sha256 (objectHeader kind raw.length ++ raw)).toList,
      by simp [HashAlgorithm.oidLen]⟩

@[simp] theorem forObject_algorithm (P : Primitives) (a : HashAlgorithm) (k : ObjectKind)
    (raw : Str) : (forObject P a k raw).algorithm = a := by
  cases a <;> rfl
end GitOid

/-- SHA-256 identity of a canonical raw object, independent of the native hash. -/
structure ContentId where
  bytes : List.Vector UInt8 32
  deriving DecidableEq

namespace ContentId
def domain : Str := ascii "reflink-forest-object-v1" ++ [0]

/-- `SHA256(domain ‖ kind ‖ raw_length_be ‖ raw_payload)`. -/
def forObject (P : Primitives) (kind : ObjectKind) (raw : Str) : ContentId :=
  ⟨P.sha256 (domain ++ [kind.toTag] ++ be 8 raw.length ++ raw)⟩

def key (id : ContentId) : Str := id.bytes.toList

@[simp] theorem length_key (id : ContentId) : id.key.length = 32 := by simp [key]

theorem key_injective : Function.Injective key := by
  rintro ⟨a⟩ ⟨b⟩ h
  exact congrArg _ (List.Vector.eq _ _ h)

/-- Content IDs are ordered by their raw bytes. -/
instance : LinearOrder ContentId := LinearOrder.lift' key key_injective
end ContentId
end ReflinkForest
