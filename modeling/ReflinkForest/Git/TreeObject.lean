import ReflinkForest.Core.Identity

/-! Raw Git objects and the references they hold. -/
namespace ReflinkForest
open Bytes Except List

/-- `git` itself runs outside the model: of a failed command only its name is kept. -/
inductive GitBackendError where
  | commandFailed (command : String)
  | invalidGitOutput (reason : String)
  | invalidGitOid (error : InvalidGitOidLength)
  | invalidHexOid
  | malformedObject (oid : GitOid) (reason : String)
  deriving DecidableEq

structure GitObject where
  oid : GitOid
  kind : ObjectKind
  data : Str
  deriving DecidableEq

/-- An object under the ID that its bytes hash to. -/
def GitObject.hashed (P : Primitives) (algorithm : HashAlgorithm) (kind : ObjectKind)
    (data : Str) : GitObject :=
  ⟨GitOid.forObject P algorithm kind data, kind, data⟩

/-- The five entry modes `parse_tree_mode` accepts. -/
inductive TreeMode where
  | directory | regular | executable | symlink | gitlink
  deriving DecidableEq, Repr

/-- The octal constants 040000, 100644, 100755, 120000 and 160000. -/
def TreeMode.bits : TreeMode → ℕ
  | .directory => 0x4000
  | .regular => 0x81a4
  | .executable => 0x81ed
  | .symlink => 0xa000
  | .gitlink => 0xe000

def TreeMode.ofBits (mode : ℕ) : Option TreeMode :=
  [.directory, .regular, .executable, .symlink, .gitlink].find? (·.bits = mode)

structure GitTreeEntry where
  mode : TreeMode
  name : Str
  oid : GitOid

def malformed (object : GitObject) (reason : String) : GitBackendError :=
  .malformedObject object.oid reason

def hexDigit (byte : UInt8) : Except GitBackendError UInt8 :=
  if 0x30 ≤ byte ∧ byte ≤ 0x39 then .ok (byte - 0x30)
  else if 0x61 ≤ byte ∧ byte ≤ 0x66 then .ok (byte - 0x61 + 10)
  else if 0x41 ≤ byte ∧ byte ≤ 0x46 then .ok (byte - 0x41 + 10)
  else .error .invalidHexOid

/-- The loop over `chunks_exact(2)`. -/
def hexPairs : Str → Except GitBackendError Str
  | high :: low :: rest => do
    let high ← hexDigit high
    let low ← hexDigit low
    let bytes ← hexPairs rest
    .ok (((high <<< 4) ||| low) :: bytes)
  | _ => .ok []

def parseHexOid (algorithm : HashAlgorithm) (hex : Str) : Except GitBackendError GitOid := do
  .require (hex.length = algorithm.oidLen * 2)
    (.invalidGitOutput "object ID has an unexpected length")
  let bytes ← hexPairs hex
  .mapErr .invalidGitOid (GitOid.new algorithm bytes)

def hexAlphabet : Str := ascii "0123456789abcdef"

def hexPair (byte : UInt8) : Str :=
  [byteAt hexAlphabet (byte >>> 4).toNat, byteAt hexAlphabet (byte &&& 0x0f).toNat]

def oidToHex (oid : GitOid) : Str := oid.bytes.flatMap hexPair

theorem hexDigit_hexPair (byte : UInt8) :
    hexDigit (byteAt hexAlphabet (byte >>> 4).toNat) = .ok (byte >>> 4) ∧
      hexDigit (byteAt hexAlphabet (byte &&& 0x0f).toNat) = .ok (byte &&& 0x0f) ∧
      ((byte >>> 4) <<< 4 ||| byte &&& 0x0f) = byte := by
  have each : ∀ n < 256,
      hexDigit (byteAt hexAlphabet (UInt8.ofNat n >>> 4).toNat) = .ok (UInt8.ofNat n >>> 4) ∧
        hexDigit (byteAt hexAlphabet (UInt8.ofNat n &&& 0x0f).toNat) =
          .ok (UInt8.ofNat n &&& 0x0f) ∧
        ((UInt8.ofNat n >>> 4) <<< 4 ||| UInt8.ofNat n &&& 0x0f) = UInt8.ofNat n := by
    decide +kernel
  simpa using each byte.toNat byte.toNat_lt

theorem hexPairs_hexPair (byte : UInt8) (rest : Str) :
    hexPairs (hexPair byte ++ rest) = (byte :: ·) <$> hexPairs rest := by
  obtain ⟨high, low, joined⟩ := hexDigit_hexPair byte
  rw [hexPair, cons_append, cons_append, nil_append, hexPairs, high, low]
  simp only [ok_bind, joined]
  cases hexPairs rest <;> rfl

theorem hexPairs_flatMap (bytes : Str) : hexPairs (bytes.flatMap hexPair) = .ok bytes := by
  induction bytes with
  | nil => rfl
  | cons byte bytes ih => rw [flatMap_cons, hexPairs_hexPair, ih]; rfl

theorem parseHexOid_oidToHex (oid : GitOid) :
    parseHexOid oid.algorithm (oidToHex oid) = .ok oid := by
  have length : (oidToHex oid).length = oid.algorithm.oidLen * 2 := by
    rw [oidToHex, length_flatMap, ← oid.length_eq]
    simp [hexPair]
  rw [parseHexOid, require_pos length, ok_bind, oidToHex, hexPairs_flatMap,
    ok_bind, GitOid.new_bytes, mapErr_ok]

/-- The bytes before the first empty line, or all of them. -/
def objectHeader : Str → Str
  | [] => []
  | [b] => [b]
  | b :: c :: rest => if b = 0x0a ∧ c = 0x0a then [] else b :: objectHeader (c :: rest)

def headerLines (object : GitObject) : List Str := (objectHeader object.data).splitOn 0x0a

/-- One turn of the loops that look for a header line that may occur once. -/
def headerLine (object : GitObject) (field : Str) (repeated : String)
    (found : Option GitOid) (line : Str) : Except GitBackendError (Option GitOid) :=
  match field.isPrefixOf? line with
  | none => .ok found
  | some value => do
    .require (found = none) (malformed object repeated)
    let oid ← parseHexOid object.oid.algorithm value
    .ok (some oid)

def singleHeader (object : GitObject) (field : Str) (repeated missing : String) :
    Except GitBackendError GitOid := do
  let found ← (headerLines object).foldlM (headerLine object field repeated) none
  .ofOption (malformed object missing) found

def commitTreeOid (object : GitObject) : Except GitBackendError GitOid := do
  .require (object.kind = .commit) (malformed object "expected a commit object")
  singleHeader object (ascii "tree ") "commit has more than one tree header"
    "commit has no tree header"

def parseCommitReferences (object : GitObject) : Except GitBackendError (List GitOid) := do
  let values := (headerLines object).filterMap (ascii "parent ").isPrefixOf?
  let parents ← values.mapM (parseHexOid object.oid.algorithm)
  let tree ← commitTreeOid object
  .ok (tree :: parents)

def parseTagReferences (object : GitObject) : Except GitBackendError (List GitOid) := do
  let target ← singleHeader object (ascii "object ") "tag has more than one object header"
    "tag has no object header"
  .ok [target]

/-- Accumulates one to six octal digits. -/
def octalValue (bytes : Str) : Option ℕ :=
  bytes.foldlM
    (fun mode byte =>
      if 0x30 ≤ byte ∧ byte ≤ 0x37 then some (mode * 8 + (byte - 0x30).toNat) else none)
    0

def parseTreeMode (bytes : Str) : Option TreeMode :=
  if bytes = [] ∨ 6 < bytes.length then none else (octalValue bytes).bind TreeMode.ofBits

/-- One turn of the loop of `parse_tree_entries`: an entry and what follows it. -/
def parseTreeEntry (object : GitObject) (remaining : Str) :
    Except GitBackendError (GitTreeEntry × Str) := do
  let nul ← .ofOption (malformed object "tree entry is missing its NUL separator")
    (remaining.findIdx? (· = 0))
  let header := remaining.take nul
  let separator ← .ofOption
    (malformed object "tree entry is missing mode/name separator") (header.findIdx? (· = 0x20))
  let name := header.drop (separator + 1)
  .require (name ≠ [] ∧ 0x2f ∉ name) (malformed object "tree entry has an invalid name")
  let mode ← .ofOption (malformed object "tree entry has an invalid mode")
    (parseTreeMode (header.take separator))
  let oidLen := object.oid.algorithm.oidLen
  .require (nul + 1 + oidLen ≤ remaining.length)
    (malformed object "tree entry is missing object ID bytes")
  let oid ← .mapErr .invalidGitOid
    (GitOid.new object.oid.algorithm (slice remaining (nul + 1) oidLen))
  .ok (⟨mode, name, oid⟩, remaining.drop (nul + 1 + oidLen))

/-- The loop; every turn consumes bytes, so the length of the input is enough fuel. -/
def parseTreeLoop (object : GitObject) : ℕ → Str → Except GitBackendError (List GitTreeEntry)
  | _, [] => .ok []
  | 0, _ :: _ => .ok []
  | fuel + 1, remaining => do
    let (entry, rest) ← parseTreeEntry object remaining
    let entries ← parseTreeLoop object fuel rest
    .ok (entry :: entries)

def parseTreeEntries (object : GitObject) : Except GitBackendError (List GitTreeEntry) := do
  .require (object.kind = .tree) (malformed object "expected a tree object")
  parseTreeLoop object object.data.length object.data

def parseTreeReferences (object : GitObject) : Except GitBackendError (List GitOid) := do
  let entries ← parseTreeEntries object
  .ok (entries.map (·.oid))

theorem parseTreeEntry_shorter {object : GitObject} {remaining rest : Str} {entry : GitTreeEntry}
    (h : parseTreeEntry object remaining = .ok (entry, rest)) :
    rest.length < remaining.length := by
  simp only [parseTreeEntry, bind_eq_ok_iff, exists_require, ok.injEq, Prod.mk.injEq] at h
  obtain ⟨nul, _, separator, _, _, mode, _, bound, oid, _, _, rfl⟩ := h
  rw [length_drop]
  omega

/-- Fuel beyond the length of the input changes nothing. -/
theorem parseTreeLoop_fuel {object : GitObject} {fuel : ℕ} {remaining : Str}
    (enough : remaining.length ≤ fuel) :
    parseTreeLoop object fuel remaining = parseTreeLoop object remaining.length remaining := by
  induction fuel using Nat.strong_induction_on generalizing remaining with
  | h fuel ih =>
    cases remaining with
    | nil => cases fuel <;> rfl
    | cons byte bytes =>
      obtain ⟨fuel, rfl⟩ : ∃ k, fuel = k + 1 := ⟨fuel - 1, by simp at enough; omega⟩
      simp only [parseTreeLoop, length_cons]
      rcases parsed : parseTreeEntry object (byte :: bytes) with e | ⟨entry, rest⟩
      · rfl
      · have shorter := parseTreeEntry_shorter parsed
        simp only [length_cons] at shorter enough
        simp only [ok_bind]
        rw [ih fuel (by omega) (by omega), ← ih bytes.length (by omega) (by omega)]

/-- The loop without its fuel. -/
theorem parseTreeLoop_cons {object : GitObject} {remaining : Str} (more : remaining ≠ []) :
    parseTreeLoop object remaining.length remaining =
      (parseTreeEntry object remaining >>= fun (entry, rest) =>
        parseTreeLoop object rest.length rest >>= fun entries => .ok (entry :: entries)) := by
  obtain ⟨byte, bytes, rfl⟩ := exists_cons_of_ne_nil more
  simp only [parseTreeLoop, length_cons]
  rcases parsed : parseTreeEntry object (byte :: bytes) with e | ⟨entry, rest⟩
  · rfl
  · have shorter := parseTreeEntry_shorter parsed
    simp only [length_cons] at shorter
    simp only [ok_bind]
    rw [parseTreeLoop_fuel (by omega)]

/-- The raw form of an entry, with its mode in octal digits. -/
def treeEntryBytes (mode name : Str) (oid : GitOid) : Str :=
  mode ++ [0x20] ++ name ++ [0] ++ oid.bytes

def referencedOids (object : GitObject) : Except GitBackendError (List GitOid) :=
  match object.kind with
  | .blob => .ok []
  | .commit => parseCommitReferences object
  | .tag => parseTagReferences object
  | .tree => parseTreeReferences object

section Algorithms
variable {algorithm : HashAlgorithm} {object : GitObject} {oid oid' : GitOid} {kind : ObjectKind}
  {data field : Str} {repeated missing : String} {refs refs' : List GitOid}

theorem parseHexOid_length {hex : Str} (h : parseHexOid algorithm hex = .ok oid) :
    hex.length = algorithm.oidLen * 2 := by
  simp only [parseHexOid, bind_eq_ok_iff, exists_require] at h
  exact h.1

theorem foldlM_headerLine {lines : List Str} {found found' : Option GitOid}
    (h : lines.foldlM (headerLine object field repeated) found = .ok found') :
    (∀ line ∈ lines, ∀ value, field.isPrefixOf? line = some value →
      value.length = object.oid.algorithm.oidLen * 2) ∧
    (found = none → found'.isSome → ∃ line ∈ lines, (field.isPrefixOf? line).isSome) := by
  induction lines generalizing found with
  | nil =>
    simp only [foldlM_nil, pure, Except.pure, ok.injEq] at h
    subst h
    exact ⟨by simp, by rintro rfl; simp⟩
  | cons line lines ih =>
    rw [foldlM_cons, bind_eq_ok_iff] at h
    obtain ⟨next, turn, rest⟩ := h
    obtain ⟨lengths, occurs⟩ := ih rest
    cases value : field.isPrefixOf? line with
    | none =>
      simp only [headerLine, value, ok.injEq] at turn
      subst turn
      simp only [forall_mem_cons, exists_mem_cons_iff, value]
      exact ⟨⟨by simp, lengths⟩, fun none some => .inr (occurs none some)⟩
    | some value' =>
      simp only [headerLine, value, bind_eq_ok_iff] at turn
      obtain ⟨_, _, parsed, hex, _⟩ := turn
      simp only [forall_mem_cons, exists_mem_cons_iff, value]
      refine ⟨⟨?_, lengths⟩, fun _ _ => .inl rfl⟩
      rintro _ ⟨rfl⟩
      exact parseHexOid_length hex

theorem singleHeader_algorithm {oids oids' : GitOid}
    (h : singleHeader ⟨oid, kind, data⟩ field repeated missing = .ok oids)
    (h' : singleHeader ⟨oid', kind, data⟩ field repeated missing = .ok oids') :
    oid.algorithm = oid'.algorithm := by
  simp only [singleHeader, bind_eq_ok_iff, ofOption_eq_ok] at h h'
  obtain ⟨_, folded, rfl⟩ := h
  obtain ⟨_, folded', rfl⟩ := h'
  obtain ⟨lengths, occurs⟩ := foldlM_headerLine folded
  obtain ⟨line, mem, prefixed⟩ := occurs rfl rfl
  obtain ⟨value, found⟩ := Option.isSome_iff_exists.mp prefixed
  have same := (lengths line mem value found).symm.trans
    ((foldlM_headerLine folded').1 line mem value found)
  cases first : oid.algorithm <;> cases second : oid'.algorithm <;>
    simp [first, second, HashAlgorithm.oidLen] at same ⊢

/-- Commits and tags have references under one hash algorithm only. -/
theorem referencedOids_algorithm (notTree : kind ≠ .tree)
    (h : referencedOids ⟨oid, kind, data⟩ = .ok refs)
    (h' : referencedOids ⟨oid', kind, data⟩ = .ok refs') :
    oid.algorithm = oid'.algorithm ∨ refs' = [] := by
  cases kind with
  | blob =>
    simp only [referencedOids, ok.injEq] at h'
    exact .inr h'.symm
  | tree => exact absurd rfl notTree
  | commit =>
    simp only [referencedOids, parseCommitReferences, commitTreeOid, bind_eq_ok_iff] at h h'
    obtain ⟨_, _, _, ⟨_, _, header⟩, _⟩ := h
    obtain ⟨_, _, _, ⟨_, _, header'⟩, _⟩ := h'
    exact .inl (singleHeader_algorithm header header')
  | tag =>
    simp only [referencedOids, parseTagReferences, bind_eq_ok_iff] at h h'
    obtain ⟨_, header, _⟩ := h
    obtain ⟨_, header', _⟩ := h'
    exact .inl (singleHeader_algorithm header header')
end Algorithms
end ReflinkForest
