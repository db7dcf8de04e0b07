import ReflinkForest.Git.TreeObject

/-! Commits and tags as texts. Whatever a message or a continuation line says, the references are
those of the headers proper. -/
namespace ReflinkForest
open Bytes Except List

def lineFeed : UInt8 := 0x0a
def space : UInt8 := 0x20

section Texts
/-- A header line with its continuation lines. -/
structure HeaderField where
  key : Str
  value : Option Str
  continuation : List Str
  named : key ≠ []
  keyPlain : space ∉ key ∧ lineFeed ∉ key
  valuePlain : ∀ text ∈ value, lineFeed ∉ text
  continuationPlain : ∀ line ∈ continuation, lineFeed ∉ line

def HeaderField.line (field : HeaderField) : Str :=
  match field.value with
  | some value => field.key ++ space :: value
  | none => field.key

def HeaderField.lines (field : HeaderField) : List Str :=
  field.line :: field.continuation.map (space :: ·)

def oidLine (key : String) (oid : GitOid) : Str := ascii key ++ space :: oidToHex oid

/-- Lines, an empty line and a message. -/
def headedText (lines : List Str) (message : Str) : Str :=
  lines.flatMap (· ++ [lineFeed]) ++ lineFeed :: message

structure CommitText (algorithm : HashAlgorithm) where
  tree : GitOid
  parents : List GitOid
  headers : List HeaderField
  message : Str
  treeNative : tree.algorithm = algorithm
  parentsNative : ∀ parent ∈ parents, parent.algorithm = algorithm
  otherKeys : ∀ field ∈ headers, field.key ≠ ascii "tree" ∧ field.key ≠ ascii "parent"

structure TagText (algorithm : HashAlgorithm) where
  target : GitOid
  headers : List HeaderField
  message : Str
  targetNative : target.algorithm = algorithm
  otherKeys : ∀ field ∈ headers, field.key ≠ ascii "object"

variable {algorithm : HashAlgorithm}

def CommitText.lines (commit : CommitText algorithm) : List Str :=
  oidLine "tree" commit.tree :: commit.parents.map (oidLine "parent") ++
    commit.headers.flatMap HeaderField.lines

def CommitText.serialize (commit : CommitText algorithm) : Str :=
  headedText commit.lines commit.message

def TagText.lines (tag : TagText algorithm) : List Str :=
  oidLine "object" tag.target :: tag.headers.flatMap HeaderField.lines

def TagText.serialize (tag : TagText algorithm) : Str := headedText tag.lines tag.message
end Texts

/-- A line that can stand in a header. -/
def HeaderLine (line : Str) : Prop := line ≠ [] ∧ lineFeed ∉ line

theorem objectHeader_append {line : Str} (plain : lineFeed ∉ line) (rest : Str) :
    objectHeader (line ++ rest) = line ++ objectHeader rest := by
  induction line with
  | nil => rfl
  | cons byte line ih =>
    rw [mem_cons, not_or] at plain
    rw [cons_append, cons_append, ← ih plain.2]
    cases line ++ rest with
    | nil => rfl
    | cons next rest => rw [objectHeader, if_neg fun both => plain.1 both.1.symm]

/-- The search for the empty line stops behind the last header line. -/
theorem objectHeader_headedText {lines : List Str} (some : lines ≠ [])
    (plain : ∀ line ∈ lines, HeaderLine line) (message : Str) :
    objectHeader (headedText lines message) = [lineFeed].intercalate lines := by
  induction lines with
  | nil => exact absurd rfl some
  | cons line lines ih =>
    rw [forall_mem_cons] at plain
    rw [headedText, flatMap_cons, append_assoc, append_assoc, objectHeader_append plain.1.2]
    cases lines with
    | nil => simp [objectHeader, lineFeed]
    | cons next lines =>
      have later := ih (cons_ne_nil _ _) plain.2
      obtain ⟨first, others, split⟩ :=
        exists_cons_of_ne_nil (plain.2 next mem_cons_self).1
      have ordinary : first ≠ lineFeed := fun same =>
        (plain.2 next mem_cons_self).2 (split ▸ same ▸ mem_cons_self)
      obtain ⟨rest, text⟩ : ∃ rest, headedText (next :: lines) message = first :: rest :=
        ⟨_, by rw [headedText, flatMap_cons, split]; rfl⟩
      rw [headedText] at text later
      rw [text] at later ⊢
      rw [singleton_append, objectHeader, if_neg fun both => ordinary both.2, later,
        intercalate_cons_cons]
      simp

theorem headerLines_headedText {lines : List Str} (some : lines ≠ [])
    (plain : ∀ line ∈ lines, HeaderLine line) (message : Str) (oid : GitOid) (kind : ObjectKind) :
    headerLines ⟨oid, kind, headedText lines message⟩ = lines := by
  rw [headerLines, objectHeader_headedText some plain]
  exact splitOn_intercalate lineFeed (fun line mem => (plain line mem).2) some

/-- A key and the space behind it begin the lines of that key only. -/
theorem isPrefixOf?_key {key key' value : Str} (plain : space ∉ key) (plain' : space ∉ key') :
    (key ++ [space]).isPrefixOf? (key' ++ space :: value) =
      if key = key' then some value else none := by
  induction key generalizing key' with
  | nil =>
    cases key' with
    | nil => simp [List.isPrefixOf?]
    | cons byte key' =>
      rw [mem_cons, not_or] at plain'
      simp [List.isPrefixOf?, plain'.1]
  | cons byte key ih =>
    rw [mem_cons, not_or] at plain
    cases key' with
    | nil => simp [List.isPrefixOf?, Ne.symm plain.1]
    | cons byte' key' =>
      rw [mem_cons, not_or] at plain'
      by_cases same : byte = byte'
      · simp [List.isPrefixOf?, same, ih plain.2 plain'.2]
      · simp [List.isPrefixOf?, same]

theorem isPrefixOf?_key_alone {key key' : Str} (plain' : space ∉ key') :
    (key ++ [space]).isPrefixOf? key' = none := by
  rw [Option.eq_none_iff_forall_ne_some]
  intro rest found
  rw [List.isPrefixOf?_eq_some_iff_append_eq] at found
  apply plain'
  rw [← found]
  simp

/-- The line does not start with the key and a space. -/
def Lacks (key line : Str) : Prop := (key ++ [space]).isPrefixOf? line = none

theorem HeaderField.lacks {field : HeaderField} {key : Str} (plain : space ∉ key)
    (nonempty : key ≠ []) (other : field.key ≠ key) : ∀ line ∈ field.lines, Lacks key line := by
  rw [HeaderField.lines, forall_mem_cons, forall_mem_map]
  constructor
  · unfold HeaderField.line Lacks
    split
    · rw [isPrefixOf?_key plain field.keyPlain.1, if_neg (Ne.symm other)]
    · exact isPrefixOf?_key_alone field.keyPlain.1
  · intro line _
    obtain ⟨first, others, rfl⟩ := exists_cons_of_ne_nil nonempty
    rw [mem_cons, not_or] at plain
    simp [Lacks, List.isPrefixOf?, Ne.symm plain.1]

section References
variable {object : GitObject} {oid : GitOid} {key : Str} {lines : List Str}

theorem oidLine_value {key : String} {other : Str} (plain : space ∉ ascii key)
    (plain' : space ∉ other) (target : GitOid) :
    (other ++ [space]).isPrefixOf? (oidLine key target) =
      if other = ascii key then some (oidToHex target) else none :=
  isPrefixOf?_key plain' plain

theorem foldlM_headerLine_of_lacks {repeated : String} (lacks : ∀ line ∈ lines, Lacks key line)
    (found : Option GitOid) :
    lines.foldlM (headerLine object (key ++ [space]) repeated) found = .ok found := by
  induction lines generalizing found with
  | nil => rfl
  | cons line lines ih =>
    rw [forall_mem_cons] at lacks
    have turn : headerLine object (key ++ [space]) repeated found line = .ok found := by
      rw [headerLine, lacks.1]
    rw [foldlM_cons, turn]
    exact ih lacks.2 found

/-- A header that stands on the first line only. -/
theorem singleHeader_of_first {repeated missing : String} {field : Str} {key : String}
    (named : field = ascii key ++ [space]) (plain : space ∉ ascii key) {target : GitOid}
    (native : target.algorithm = object.oid.algorithm)
    (split : headerLines object = oidLine key target :: lines)
    (lacks : ∀ line ∈ lines, Lacks (ascii key) line) :
    singleHeader object field repeated missing = .ok target := by
  have first : headerLine object (ascii key ++ [space]) repeated none (oidLine key target) =
      .ok (some target) := by
    rw [headerLine, oidLine_value plain plain, if_pos rfl]
    simp only [require_pos, ok_bind, ← native, parseHexOid_oidToHex]
  rw [singleHeader, split, named, foldlM_cons, first]
  simp only [ok_bind, foldlM_headerLine_of_lacks lacks, ofOption_some]

theorem lineFeed_notMem_oidToHex (oid : GitOid) : lineFeed ∉ oidToHex oid := by
  have each : ∀ n < 256, lineFeed ∉ hexPair (UInt8.ofNat n) := by decide +kernel
  intro mem
  obtain ⟨byte, _, inside⟩ := mem_flatMap.mp mem
  exact each byte.toNat byte.toNat_lt (by simpa using inside)

theorem headerLine_oidLine {key : String} (plain : lineFeed ∉ ascii key) (oid : GitOid) :
    HeaderLine (oidLine key oid) := by
  refine ⟨by simp [oidLine], ?_⟩
  rw [oidLine, mem_append, mem_cons, not_or, not_or]
  exact ⟨plain, by decide, lineFeed_notMem_oidToHex oid⟩

theorem HeaderField.headerLine_of_mem {field : HeaderField} :
    ∀ line ∈ field.lines, HeaderLine line := by
  rw [HeaderField.lines, forall_mem_cons, forall_mem_map]
  constructor
  · unfold HeaderField.line HeaderLine
    split
    · rename_i value found
      refine ⟨by simp, ?_⟩
      rw [mem_append, mem_cons, not_or, not_or]
      exact ⟨field.keyPlain.2, by decide, field.valuePlain value found⟩
    · exact ⟨field.named, field.keyPlain.2⟩
  · intro line mem
    refine ⟨by simp, ?_⟩
    rw [mem_cons, not_or]
    exact ⟨by decide, field.continuationPlain line mem⟩

variable {algorithm : HashAlgorithm}

theorem TagText.headerLines_serialize (tag : TagText algorithm) (oid : GitOid) :
    headerLines ⟨oid, .tag, tag.serialize⟩ = tag.lines := by
  have some : tag.lines ≠ [] := cons_ne_nil _ _
  apply headerLines_headedText some
  rw [TagText.lines, forall_mem_cons, forall_mem_flatMap]
  exact ⟨headerLine_oidLine (by decide) _, fun field _ => field.headerLine_of_mem⟩

theorem CommitText.headerLines_serialize (commit : CommitText algorithm) (oid : GitOid) :
    headerLines ⟨oid, .commit, commit.serialize⟩ = commit.lines := by
  have some : commit.lines ≠ [] := cons_ne_nil _ _
  apply headerLines_headedText some
  rw [CommitText.lines, cons_append, forall_mem_cons, forall_mem_append,
    forall_mem_map, forall_mem_flatMap]
  exact ⟨headerLine_oidLine (by decide) _, fun parent _ => headerLine_oidLine (by decide) parent,
    fun field _ => field.headerLine_of_mem⟩

theorem referencedOids_tag (oid : GitOid) (tag : TagText oid.algorithm) :
    referencedOids ⟨oid, .tag, tag.serialize⟩ = .ok [tag.target] := by
  have lacks : ∀ line ∈ tag.headers.flatMap HeaderField.lines, Lacks (ascii "object") line := by
    rw [forall_mem_flatMap]
    exact fun field mem => field.lacks (by decide) (by decide) (tag.otherKeys field mem)
  have found : singleHeader ⟨oid, .tag, tag.serialize⟩ (ascii "object ")
      "tag has more than one object header" "tag has no object header" = .ok tag.target :=
    singleHeader_of_first rfl (by decide) tag.targetNative (tag.headerLines_serialize oid) lacks
  simp only [referencedOids, parseTagReferences, found, ok_bind]

theorem CommitText.lacks_tree (commit : CommitText algorithm) :
    ∀ line ∈ commit.parents.map (oidLine "parent") ++ commit.headers.flatMap HeaderField.lines,
      Lacks (ascii "tree") line := by
  rw [forall_mem_append, forall_mem_map, forall_mem_flatMap]
  constructor
  · intro parent _
    rw [Lacks, oidLine_value (by decide) (by decide), if_neg (by decide)]
  · exact fun field mem => field.lacks (by decide) (by decide) (commit.otherKeys field mem).1

theorem CommitText.parentValues (commit : CommitText algorithm) :
    commit.lines.filterMap (ascii "parent ").isPrefixOf? = commit.parents.map oidToHex := by
  have field : ascii "parent " = ascii "parent" ++ [space] := rfl
  have tree : (ascii "parent ").isPrefixOf? (oidLine "tree" commit.tree) = none := by
    rw [field, oidLine_value (by decide) (by decide), if_neg (by decide)]
  have parents : (commit.parents.map (oidLine "parent")).filterMap
      (ascii "parent ").isPrefixOf? = commit.parents.map oidToHex := by
    have each (parent : GitOid) : (ascii "parent ").isPrefixOf? (oidLine "parent" parent) =
        some (oidToHex parent) := by
      rw [field, oidLine_value (by decide) (by decide), if_pos rfl]
    rw [filterMap_map, ← filterMap_eq_map]
    exact filterMap_congr fun parent _ => each parent
  have others : (commit.headers.flatMap HeaderField.lines).filterMap
      (ascii "parent ").isPrefixOf? = [] := by
    rw [filterMap_eq_nil_iff, forall_mem_flatMap]
    intro header mem
    exact header.lacks (by decide) (by decide) (commit.otherKeys header mem).2
  rw [CommitText.lines, cons_append, filterMap_cons_none tree, filterMap_append,
    parents, others, append_nil]

theorem referencedOids_commit (oid : GitOid) (commit : CommitText oid.algorithm) :
    referencedOids ⟨oid, .commit, commit.serialize⟩ = .ok (commit.tree :: commit.parents) := by
  have tree : commitTreeOid ⟨oid, .commit, commit.serialize⟩ = .ok commit.tree := by
    rw [commitTreeOid, require_pos rfl, ok_bind]
    exact singleHeader_of_first rfl (by decide) commit.treeNative (commit.headerLines_serialize oid)
      commit.lacks_tree
  have parents : (commit.parents.map oidToHex).mapM (parseHexOid oid.algorithm) =
      .ok commit.parents := by
    rw [mapM_eq_ok_iff, forall₂_map_left_iff, forall₂_same]
    intro parent mem
    rw [← commit.parentsNative parent mem]
    exact parseHexOid_oidToHex parent
  simp only [referencedOids, parseCommitReferences, commit.headerLines_serialize, parents,
    commit.parentValues, tree, ok_bind]

/-- The references of a commit are its tree and parents, those of a tag its target, whatever the
other headers, their continuations and the message say. -/
theorem referencedOids_of_headers (oid : GitOid) :
    (∀ commit : CommitText oid.algorithm,
      referencedOids ⟨oid, .commit, commit.serialize⟩ = .ok (commit.tree :: commit.parents)) ∧
    ∀ tag : TagText oid.algorithm,
      referencedOids ⟨oid, .tag, tag.serialize⟩ = .ok [tag.target] :=
  ⟨referencedOids_commit oid, referencedOids_tag oid⟩
end References
end ReflinkForest
