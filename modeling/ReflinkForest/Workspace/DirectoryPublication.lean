import ReflinkForest.Lib.Fallible
import ReflinkForest.Lib.FileTree
import ReflinkForest.Workspace.Publication

/-! How a staging directory becomes visible under a workspace name. -/
namespace ReflinkForest.Publish
open Bytes Except Fallible List FileTree

abbrev Path := List Str
abbrev Tree := FileTree Str

inductive Error where
  | io (errno : ℕ)
  | invalidName
  | invalidStaging
  | destinationExists
  | unsupportedAtomicReplace
  deriving DecidableEq

def enoent : ℕ := 2
def eexist : ℕ := 17
def enotdir : ℕ := 20
def einval : ℕ := 22
def enosys : ℕ := 38
def enotempty : ℕ := 39
def eopnotsupp : ℕ := 95

inductive Syscall where
  | mkdir (path : Path)
  | rename (src dst : Path)
  | exchange (src dst : Path)
  | openFile (path : Path)

/-- What a call does not decide: which system calls fail and with which number, what a symbolic
link leads to, and the identity of a new directory. -/
structure Kernel where
  fault : Syscall → Option ℕ
  leadsTo : Tree → Path → Option FileKind
  inode : Path → ℕ

namespace Kernel
variable (k : Kernel)

def attempt (call : Syscall) : Except ℕ Unit :=
  match k.fault call with
  | some errno => .error errno
  | none => .ok ()

/-- What stands at a path, behind a symbolic link. -/
def kindAt (t : Tree) (path : Path) : Option FileKind :=
  match t.node path with
  | none => none
  | some node => if node.kind = .link then k.leadsTo t path else some node.kind

def pathExists (t : Tree) (path : Path) : Bool := (k.kindAt t path).isSome

def isDir (t : Tree) (path : Path) : Bool := k.kindAt t path = some .directory

def mkdir (path : Path) (t : Tree) : Except ℕ Tree := do
  k.attempt (.mkdir path)
  .require (t.node path = none) eexist
  .require (t.node path.dropLast ≠ none) enoent
  if vacant : t.Vacant path then .ok (t.makeDirectory path (k.inode path) vacant)
  else .error enotdir

/-- `fs::create_dir_all` for some components below a directory. -/
def createDirAll : Path → List Str → Tree → Tree × Except ℕ Unit
  | _, [], t => (t, .ok ())
  | above, name :: names, t =>
    if k.isDir t (above ++ [name]) = true then createDirAll (above ++ [name]) names t
    else
      match k.mkdir (above ++ [name]) t with
      | .error e => (t, .error e)
      | .ok t' => createDirAll (above ++ [name]) names t'

/-- Renames an entry, not what it leads to. No caller names an existing directory as the target. -/
def rename (src dst : Path) (t : Tree) : Except ℕ Tree := do
  k.attempt (.rename src dst)
  .require (t.node src ≠ none ∧ t.node dst.dropLast ≠ none) enoent
  .require (t.IsDirectory dst.dropLast) enotdir
  if src = dst then .ok t
  else if src <+: dst then .error einval
  else if t.node src = t.node dst then .ok t
  else if t.IsDirectory src ∧ t.node dst ≠ none ∧ ¬ t.IsDirectory dst then .error enotdir
  else if movable : t.Movable src dst then .ok (t.move src dst movable)
  else .error enotempty

/-- `renameat2` with `RENAME_EXCHANGE`. -/
def exchange (src dst : Path) (t : Tree) : Except ℕ Tree := do
  k.attempt (.exchange src dst)
  .require (t.node src ≠ none ∧ t.node dst ≠ none) enoent
  if src = dst then .ok t
  else if exchangeable : t.Exchangeable src dst then
    if t.node src = t.node dst then .ok t else .ok (t.exchange src dst exchangeable)
  else .error einval

def openFile (path : Path) (t : Tree) : Except ℕ Unit := do
  k.attempt (.openFile path)
  .require (k.pathExists t path = true) enoent
end Kernel

structure Request where
  staging : Path
  workspaces : Path
  trash : Path
  name : WorkspaceName
  replace : ReplacePolicy

namespace Request
def destination (r : Request) : Path := r.workspaces ++ [r.name.bytes]

def retired (r : Request) : Path := r.trash ++ [r.name.bytes ++ ascii "-retired"]
end Request

def cPath (path : Path) : Except Error Unit :=
  .require (∀ part ∈ path, (0 : UInt8) ∉ part) .invalidStaging

def exchangeError (errno : ℕ) : Error :=
  if errno = enosys ∨ errno = eopnotsupp then .unsupportedAtomicReplace else .io errno

variable (k : Kernel) (r : Request)

def createTrash : Fallible Tree Error Unit := ⟨fun t =>
  ((k.createDirAll [] r.trash t).1, Except.mapErr .io (k.createDirAll [] r.trash t).2)⟩

/-- Everything up to the step that makes the staging directory visible. Tells whether there was
another directory, which is now at the place of the staging directory. -/
def makeVisible : Fallible Tree Error Bool := do
  let t ← .gets id
  Fallible.ofExcept (Except.require (k.isDir t r.staging = true ∧ k.isDir t r.workspaces = true)
    .invalidStaging)
  if k.pathExists t r.destination = false then
    Fallible.update fun t => Except.mapErr .io (k.rename r.staging r.destination t)
    pure false
  else
    Fallible.ofExcept (Except.require (r.replace ≠ .reject) .destinationExists)
    createTrash k r
    Fallible.ofExcept (cPath r.staging)
    Fallible.ofExcept (cPath r.destination)
    Fallible.update fun t => Except.mapErr exchangeError (k.exchange r.staging r.destination t)
    pure true

def retire : Fallible Tree Error Unit := do
  Fallible.query fun t =>
    .require (k.pathExists t r.retired = false) .destinationExists
  Fallible.update fun t => Except.mapErr .io (k.rename r.staging r.retired t)

def publishWorkspace : Fallible Tree Error Path := do
  let exchanged ← makeVisible k r
  if exchanged then
    retire k r
    Fallible.query fun t => Except.mapErr .io (k.openFile r.workspaces t)
    Fallible.query fun t => Except.mapErr .io (k.openFile r.trash t)
  else
    Fallible.query fun t => Except.mapErr .io (k.openFile r.workspaces t)
  pure r.destination

namespace Kernel
variable {k} {t t' : Tree} {path src dst : Path}

theorem node_ne_none_of_pathExists (shown : k.pathExists t path = true) :
    t.node path ≠ none := by
  intro missing
  rw [pathExists, kindAt, missing] at shown
  cases shown

theorem pathExists_of_isDir (directory : k.isDir t path = true) :
    k.pathExists t path = true := by
  rw [isDir, decide_eq_true_eq] at directory
  rw [pathExists, directory]
  rfl

theorem node_ne_none_of_isDir (directory : k.isDir t path = true) :
    t.node path ≠ none :=
  node_ne_none_of_pathExists (pathExists_of_isDir directory)

theorem isDir_of_isDirectory (directory : t.IsDirectory path) : k.isDir t path = true := by
  obtain ⟨node, found, kind⟩ := Option.map_eq_some_iff.mp directory
  simp [isDir, kindAt, found, kind]

theorem attempt_eq_ok {call : Syscall} {u : Unit} :
    k.attempt call = .ok u ↔ k.fault call = none := by
  rw [attempt]
  cases k.fault call <;> simp

theorem mkdir_eq_ok_iff : k.mkdir path t = .ok t' ↔ k.fault (.mkdir path) = none ∧
    ∃ vacant : t.Vacant path, t' = t.makeDirectory path (k.inode path) vacant := by
  simp only [mkdir, bind_eq_ok_iff, attempt_eq_ok, require_eq_ok]
  constructor
  · rintro ⟨_, allowed, _, _, _, _, made⟩
    split at made
    · rename_i vacant
      cases made
      exact ⟨allowed, vacant, rfl⟩
    · cases made
  · rintro ⟨allowed, vacant, rfl⟩
    exact ⟨(), allowed, (), vacant.absent, (), vacant.parent.node_ne_none, dif_pos vacant⟩

/-- The directory is there, or it can be made once those above it are there. -/
def CanMake (k : Kernel) (t : Tree) (path : Path) : Prop :=
  k.isDir t path = true ∨ k.fault (.mkdir path) = none ∧ t.node path = none ∧
    (t.IsDirectory path.dropLast ∨ t.node path.dropLast = none)

theorem canMake_iff (missing : t.node path = none)
    (parent : t.IsDirectory path.dropLast ∨ t.node path.dropLast = none) :
    k.CanMake t path ↔ k.fault (.mkdir path) = none := by
  have absent : k.isDir t path = false := by
    simp [isDir, kindAt, missing]
  simp [CanMake, absent, missing, parent]

theorem createDirAll_extends (k : Kernel) (above : Path) (names : List Str) (t : Tree) :
    t.Extends (k.createDirAll above names t).1 := by
  induction names generalizing above t with
  | nil => exact .refl t
  | cons name names ih =>
    rw [createDirAll]
    split
    · exact ih _ t
    · split
      · exact .refl t
      · rename_i made
        obtain ⟨_, _, rfl⟩ := mkdir_eq_ok_iff.mp made
        exact (t.makeDirectory_extends _ _ _).trans (ih _ _)

theorem createDirAll_of_present {above : Path} {names : List Str}
    (present : t.node (above ++ names) ≠ none) : (k.createDirAll above names t).1 = t := by
  induction names generalizing above with
  | nil => rfl
  | cons name names ih =>
    rw [append_cons] at present
    rw [createDirAll]
    split
    · exact ih present
    · split
      · rfl
      · rename_i made
        obtain ⟨_, vacant, _⟩ := mkdir_eq_ok_iff.mp made
        exact absurd vacant.absent (t.node_above_ne_none (prefix_append _ _) present)

theorem createDirAll_eq_ok_iff {above : Path} {names : List Str}
    (there : k.isDir t above = true) : (k.createDirAll above names t).2 = .ok () ↔
      ∀ front, front <+: names → k.CanMake t (above ++ front) := by
  induction names generalizing above t with
  | nil => simp [createDirAll, CanMake, there]
  | cons name names ih =>
    have split_first : (∀ front, front <+: name :: names → k.CanMake t (above ++ front)) ↔
        ∀ front, front <+: names → k.CanMake t (above ++ [name] ++ front) := by
      have first : k.CanMake t (above ++ []) := .inl (by rwa [append_nil])
      simp only [prefix_cons_iff, or_imp, forall_and, forall_eq, first, true_and,
        forall_exists_index, and_imp, append_assoc, singleton_append]
      exact ⟨fun all front inside => all _ front rfl inside, fun all _ front same inside =>
        same ▸ all front inside⟩
    rw [split_first, createDirAll]
    by_cases directory : k.isDir t (above ++ [name]) = true
    · rw [if_pos directory, ih directory]
    rw [if_neg directory]
    cases made : k.mkdir (above ++ [name]) t with
    | error e =>
      refine iff_of_false (by simp) fun all => ?_
      have first := all [] nil_prefix
      rw [append_nil] at first
      obtain ⟨allowed, absent, parent⟩ := first.resolve_left directory
      rw [dropLast_concat] at parent
      have vacant : t.Vacant (above ++ [name]) := ⟨absent, dropLast_concat.symm ▸
        parent.resolve_right (node_ne_none_of_isDir there)⟩
      exact absurd (made.symm.trans (mkdir_eq_ok_iff.mpr ⟨allowed, vacant, rfl⟩)) (by simp)
    | ok t' =>
      obtain ⟨allowed, vacant, rfl⟩ := mkdir_eq_ok_iff.mp made
      generalize above ++ [name] = path at *
      have new : (t.makeDirectory path (k.inode path) vacant).IsDirectory path :=
        congrArg (Option.map FileNode.kind) (if_pos rfl)
      have below (front : List Str) : t.node (path ++ front) = none := by
        by_contra present
        exact t.node_above_ne_none (prefix_append _ _) present vacant.absent
      rw [ih (isDir_of_isDirectory new)]
      refine forall₂_congr fun front _ => ?_
      rcases front.eq_nil_or_concat with rfl | ⟨front, name, rfl⟩
      · rw [append_nil]
        exact iff_of_true (.inl (isDir_of_isDirectory new))
          (.inr ⟨allowed, vacant.absent, .inl vacant.parent⟩)
      · have parent : (path ++ front.concat name).dropLast = path ++ front := by
          rw [concat_eq_append, ← append_assoc, dropLast_concat]
        rw [canMake_iff (below _) (.inr (parent ▸ below front)), canMake_iff]
        · exact (if_neg (by simp)).trans (below _)
        · rw [parent]
          by_cases here : front = []
          · exact .inl (by rwa [here, append_nil])
          · exact .inr ((if_neg (by simpa using here)).trans (below front))

/-- A rename does nothing where both names show one entry already. -/
theorem rename_cases (done : k.rename src dst t = .ok t') :
    t.node src ≠ none ∧ t.IsDirectory dst.dropLast ∧
      ((t' = t ∧ t.node src = t.node dst) ∨
        ∃ movable : t.Movable src dst, t' = t.move src dst movable) := by
  simp only [rename, bind_eq_ok_iff, require_eq_ok] at done
  obtain ⟨_, _, _, ⟨present, _⟩, _, parent, done⟩ := done
  refine ⟨present, parent, ?_⟩
  split at done
  · rename_i same
    cases done
    exact .inl ⟨rfl, by rw [same]⟩
  · split at done
    · cases done
    · split at done
      · rename_i same
        cases done
        exact .inl ⟨rfl, same⟩
      · split at done
        · cases done
        · split at done
          · rename_i movable
            cases done
            exact .inr ⟨movable, rfl⟩
          · cases done

theorem node_rename (done : k.rename src dst t = .ok t') :
    t'.node dst = t.node src := by
  obtain ⟨_, _, ⟨rfl, same⟩ | ⟨movable, rfl⟩⟩ := rename_cases done
  · exact same.symm
  · have moved := node_move_dst movable []
    rw [append_nil, append_nil] at moved
    exact moved

theorem exchange_cases (done : k.exchange src dst t = .ok t') :
    t.node src ≠ none ∧ (src = dst ∨ ¬ src <+: dst) ∧
      ((t' = t ∧ t.node src = t.node dst) ∨
        ∃ exchangeable : t.Exchangeable src dst, t' = t.exchange src dst exchangeable) := by
  simp only [exchange, bind_eq_ok_iff, require_eq_ok] at done
  obtain ⟨_, _, _, ⟨present, _⟩, done⟩ := done
  refine ⟨present, ?_⟩
  split at done
  · rename_i same
    cases done
    exact ⟨.inl same, .inl ⟨rfl, by rw [same]⟩⟩
  · split at done
    · rename_i exchangeable
      refine ⟨.inr exchangeable.leftOutside, ?_⟩
      split at done
      · rename_i same
        cases done
        exact .inl ⟨rfl, same⟩
      · cases done
        exact .inr ⟨exchangeable, rfl⟩
    · cases done

theorem node_exchange (done : k.exchange src dst t = .ok t') :
    t'.node dst = t.node src ∧ t'.node src = t.node dst := by
  obtain ⟨_, _, ⟨rfl, same⟩ | ⟨exchangeable, rfl⟩⟩ := exchange_cases done
  · exact ⟨same.symm, same⟩
  · have left := node_exchange_left exchangeable []
    have right := node_exchange_right exchangeable []
    rw [append_nil, append_nil] at left right
    exact ⟨right, left⟩

theorem not_isDirectory_of_hidden (hidden : k.pathExists t path = false) :
    ¬ t.IsDirectory path := by
  intro directory
  rw [pathExists_of_isDir (isDir_of_isDirectory directory)] at hidden
  cases hidden

/-- A rename to a name that shows nothing, in a directory. -/
theorem exists_rename_iff (present : t.node src ≠ none)
    (different : src ≠ dst) (hidden : k.pathExists t dst = false) :
    (∃ t', k.rename src dst t = .ok t') ↔ k.fault (.rename src dst) = none ∧
      t.IsDirectory dst.dropLast ∧ ¬ src <+: dst ∧ (t.IsDirectory src → t.node dst = none) := by
  have leaf := not_isDirectory_of_hidden hidden
  constructor
  · rintro ⟨t', done⟩
    simp only [rename, bind_eq_ok_iff, attempt_eq_ok, require_eq_ok,
      if_neg different] at done
    obtain ⟨_, allowed, _, _, _, parent, done⟩ := done
    split_ifs at done with inside same onto movable
    · refine ⟨allowed, parent, inside, fun directory => ?_⟩
      rw [FileTree.IsDirectory, same] at directory
      exact absurd directory leaf
    · refine ⟨allowed, parent, inside, fun directory => ?_⟩
      by_contra taken
      exact onto ⟨directory, taken, leaf⟩
  · rintro ⟨allowed, parent, outside, vacant⟩
    have free : ¬ (t.IsDirectory src ∧ t.node dst ≠ none ∧ ¬ t.IsDirectory dst) :=
      fun onto => onto.2.1 (vacant onto.1)
    have attempted : k.attempt (.rename src dst) = .ok () := attempt_eq_ok.mpr allowed
    simp only [rename, attempted, ok_bind, if_neg different,
      require_pos (And.intro present parent.node_ne_none), require_pos parent, if_neg outside,
      if_neg free, dif_pos (FileTree.Movable.mk present parent leaf outside)]
    split_ifs
    · exact ⟨_, rfl⟩
    · exact ⟨_, rfl⟩

theorem exists_exchange_iff (left : t.node src ≠ none)
    (right : t.node dst ≠ none) : (∃ t', k.exchange src dst t = .ok t') ↔
      k.fault (.exchange src dst) = none ∧ (src = dst ∨ ¬ src <+: dst ∧ ¬ dst <+: src) := by
  constructor
  · rintro ⟨t', done⟩
    simp only [exchange, bind_eq_ok_iff, attempt_eq_ok, require_eq_ok] at done
    obtain ⟨_, allowed, _, _, done⟩ := done
    split_ifs at done with same apart
    · exact ⟨allowed, .inl same⟩
    · exact ⟨allowed, .inr ⟨apart.leftOutside, apart.rightOutside⟩⟩
    · exact ⟨allowed, .inr ⟨apart.leftOutside, apart.rightOutside⟩⟩
  · rintro ⟨allowed, apart⟩
    have attempted : k.attempt (.exchange src dst) = .ok () := attempt_eq_ok.mpr allowed
    simp only [exchange, attempted, ok_bind, require_pos (And.intro left right)]
    rcases apart with same | ⟨outside, around⟩
    · exact ⟨t, if_pos same⟩
    · have different : src ≠ dst := fun same => outside (same ▸ prefix_rfl)
      rw [if_neg different, dif_pos ⟨left, right, outside, around⟩]
      split_ifs
      · exact ⟨_, rfl⟩
      · exact ⟨_, rfl⟩
end Kernel

section Visibility
open Kernel

/-- What a first publication needs of the tree, the request and the calls that fail. -/
structure Renames (t : Tree) : Prop where
  staging : k.isDir t r.staging = true
  hidden : k.pathExists t r.destination = false
  workspaces : t.IsDirectory r.workspaces
  outside : ¬ r.staging <+: r.destination
  vacant : t.IsDirectory r.staging → t.node r.destination = none
  allowed : k.fault (.rename r.staging r.destination) = none

/-- What a replacement needs up to its exchange. -/
structure Exchanges (t : Tree) : Prop where
  staging : k.isDir t r.staging = true
  workspaces : k.isDir t r.workspaces = true
  shown : k.pathExists t r.destination = true
  policy : r.replace = .replaceAtomically
  trash : ∀ above, above <+: r.trash → k.CanMake t above
  text : ∀ part ∈ r.staging ++ r.destination, (0 : UInt8) ∉ part
  apart : r.staging = r.destination ∨
    ¬ r.staging <+: r.destination ∧ ¬ r.destination <+: r.staging
  allowed : k.fault (.exchange r.staging r.destination) = none

variable {k r} {t u t' : Tree} {e : Error}

theorem makeVisible_eq_ok_iff {exchanged : Bool} :
    (makeVisible k r).run t = (u, .ok exchanged) ↔
      k.isDir t r.staging = true ∧ k.isDir t r.workspaces = true ∧
      ((k.pathExists t r.destination = false ∧
          k.rename r.staging r.destination t = .ok u ∧ exchanged = false) ∨
        (k.pathExists t r.destination = true ∧ r.replace ≠ .reject ∧
          (k.createDirAll [] r.trash t).2 = .ok () ∧
          (∀ part ∈ r.staging ++ r.destination, (0 : UInt8) ∉ part) ∧
          k.exchange r.staging r.destination (k.createDirAll [] r.trash t).1 = .ok u ∧
          exchanged = true)) := by
  rw [makeVisible, run_gets_bind, run_bind_eq_ok_iff]
  simp only [run_ofExcept_eq_iff, require_eq_ok, id_eq]
  by_cases hidden : k.pathExists t r.destination = false
  · simp only [if_pos hidden, run_bind_eq_ok_iff, run_update_eq_ok_iff]
    simp [hidden, and_assoc]
  · rw [if_neg hidden]
    simp [hidden, run_bind_eq_ok_iff, run_update_eq_ok_iff,
      run_ofExcept_eq_iff, and_assoc, createTrash, cPath, or_imp, forall_and,
      Unique.exists_iff]

theorem retire_cases (u : Tree) : (∃ e, (retire k r).run u = (u, .error e)) ∨
    ∃ u', (retire k r).run u = (u', .ok ()) ∧ k.rename r.staging r.retired u = .ok u' := by
  rcases result : (retire k r).run u with ⟨u', e | _⟩
  · rw [retire, run_bind_eq_error_iff] at result
    simp only [run_query_eq_iff, run_update_eq_error_iff] at result
    obtain ⟨rfl, _⟩ | ⟨_, _, ⟨rfl, _⟩, rfl, _⟩ := result
    · exact .inl ⟨e, rfl⟩
    · exact .inl ⟨e, rfl⟩
  · rw [retire, run_bind_eq_ok_iff] at result
    simp only [run_query_eq_iff, run_update_eq_ok_iff, mapErr_eq_ok] at result
    obtain ⟨_, _, ⟨rfl, _⟩, done⟩ := result
    exact .inr ⟨u', rfl, done⟩

/-- Behind its first part a call changes the tree only by a rename into the trash, and a replacement
does not succeed without. -/
theorem publishWorkspace_cases {result : Except Error Path}
    (done : (publishWorkspace k r).run t = (t', result)) :
    (∃ e, (makeVisible k r).run t = (t', .error e) ∧ result = .error e) ∨
    ∃ u exchanged, (makeVisible k r).run t = (u, .ok exchanged) ∧
      (t' = u ∧ (exchanged = true → ∃ e, result = .error e) ∨
        exchanged = true ∧ k.rename r.staging r.retired u = .ok t') := by
  rcases first : (makeVisible k r).run t with ⟨u, e | exchanged⟩
  · rw [publishWorkspace, run_bind_of_error first] at done
    cases done
    exact .inl ⟨e, rfl, rfl⟩
  refine .inr ⟨u, exchanged, rfl, ?_⟩
  rw [publishWorkspace, run_bind_of_ok first] at done
  cases exchanged with
  | false =>
    rw [if_neg (by simp)] at done
    exact .inl ⟨state_eq done (.bind (.query _) fun _ => .pure _), by simp⟩
  | true =>
    rw [if_pos rfl] at done
    obtain ⟨e, refused⟩ | ⟨u', retired, moved⟩ := retire_cases (k := k) (r := r) u
    · rw [run_bind_of_error refused] at done
      cases done
      exact .inl ⟨rfl, fun _ => ⟨e, rfl⟩⟩
    · rw [run_bind_of_ok retired] at done
      rw [state_eq done (.bind (.query _) fun _ => .bind (.query _) fun _ => .pure _)]
      exact .inr ⟨rfl, moved⟩
end Visibility

section Failure
open Kernel

variable {k r} {t u t' : Tree}

@[simp] theorem Request.dropLast_destination (r : Request) :
    r.destination.dropLast = r.workspaces := dropLast_concat

theorem Request.staging_ne_destination (staging : k.isDir t r.staging = true)
    (hidden : k.pathExists t r.destination = false) : r.staging ≠ r.destination := by
  intro same
  rw [← same, pathExists_of_isDir staging] at hidden
  cases hidden

/-- The first part succeeds exactly where its rename or its exchange can be done. -/
theorem exists_makeVisible_iff :
    (∃ u exchanged, (makeVisible k r).run t = (u, .ok exchanged)) ↔
      Renames k r t ∨ Exchanges k r t := by
  have more := k.createDirAll_extends [] r.trash t
  have trash_iff : (k.createDirAll [] r.trash t).2 = .ok () ↔ _ :=
    createDirAll_eq_ok_iff (isDir_of_isDirectory t.root)
  have exchange_iff (staging : k.isDir t r.staging = true)
      (shown : k.pathExists t r.destination = true) := exists_exchange_iff (k := k)
    (more.node_ne_none (node_ne_none_of_isDir staging))
    (more.node_ne_none (node_ne_none_of_pathExists shown))
  simp only [makeVisible_eq_ok_iff]
  constructor
  · rintro ⟨u, _, staging, workspaces, ⟨hidden, done, _⟩ | ⟨shown, policy, trash, text, done, _⟩⟩
    · obtain ⟨allowed, parent, outside, vacant⟩ := (exists_rename_iff
        (node_ne_none_of_isDir staging) (Request.staging_ne_destination staging hidden)
        hidden).mp ⟨u, done⟩
      exact .inl ⟨staging, hidden, r.dropLast_destination ▸ parent, outside, vacant, allowed⟩
    · obtain ⟨allowed, apart⟩ := (exchange_iff staging shown).mp ⟨u, done⟩
      have replaces : r.replace = .replaceAtomically := by
        cases replace : r.replace with
        | reject => exact absurd replace policy
        | replaceAtomically => rfl
      exact .inr ⟨staging, workspaces, shown, replaces, trash_iff.mp trash, text, apart,
        allowed⟩
  · rintro (h | h)
    · obtain ⟨u, done⟩ := (exists_rename_iff (node_ne_none_of_isDir h.staging)
        (Request.staging_ne_destination h.staging h.hidden) h.hidden).mpr
        ⟨h.allowed, r.dropLast_destination.symm ▸ h.workspaces, h.outside, h.vacant⟩
      exact ⟨u, _, h.staging, isDir_of_isDirectory h.workspaces,
        .inl ⟨h.hidden, done, rfl⟩⟩
    · obtain ⟨u, done⟩ := (exchange_iff h.staging h.shown).mpr ⟨h.allowed, h.apart⟩
      exact ⟨u, _, h.staging, h.workspaces, .inr ⟨h.shown, by simp [h.policy],
        trash_iff.mpr h.trash, h.text, done, rfl⟩⟩

/-- Past the first part the name shows what stood at the staging path, and the staging path what
the name showed, if it showed anything. -/
theorem makeVisible_shows {exchanged : Bool}
    (first : (makeVisible k r).run t = (u, .ok exchanged)) :
    t.node r.staging ≠ none ∧ u.node r.destination = t.node r.staging ∧
      (exchanged = true → u.node r.staging = t.node r.destination) := by
  obtain ⟨staging, _, ⟨_, done, rfl⟩ | ⟨shown, _, _, _, done, rfl⟩⟩ :=
    makeVisible_eq_ok_iff.mp first
  · exact ⟨node_ne_none_of_isDir staging, node_rename done, by simp⟩
  · have more := k.createDirAll_extends [] r.trash t
    have present := node_ne_none_of_isDir staging
    obtain ⟨left, right⟩ := node_exchange done
    exact ⟨present, left.trans (more.node_eq present), fun _ =>
      right.trans (more.node_eq (node_ne_none_of_pathExists shown))⟩

/-- While a replaced directory lies in the trash, the next replacement of its name is refused once
the exchange is done. -/
theorem replacement_fails_while_retired (exchanges : Exchanges k r t)
    (retired : t.IsDirectory r.retired) (staged : ¬ r.staging <+: r.retired)
    (away : ¬ r.destination <+: r.retired) : ∃ t',
      (publishWorkspace k r).run t = (t', .error .destinationExists) ∧
        t'.node r.destination = t.node r.staging := by
  obtain ⟨u, exchanged, first⟩ := exists_makeVisible_iff.mpr (.inr exchanges)
  obtain ⟨_, _, ⟨hidden, _⟩ | ⟨_, _, _, _, done, rfl⟩⟩ := makeVisible_eq_ok_iff.mp first
  · exact absurd (hidden.symm.trans exchanges.shown) (by simp)
  · have trash : t.node r.trash ≠ none :=
      FileTree.IsDirectory.node_ne_none (t.closed _ _ retired.node_ne_none)
    rw [createDirAll_of_present trash] at done
    have still : u.IsDirectory r.retired := by
      obtain ⟨_, _, ⟨rfl, _⟩ | ⟨exchangeable, rfl⟩⟩ := exchange_cases done
      · exact retired
      · rw [FileTree.IsDirectory, FileTree.node_exchange,
          exchangeNode_of_apart staged away]
        exact retired
    have taken : (retire k r).run u = (u, .error .destinationExists) := by
      apply run_bind_of_error
      rw [run_query, pathExists_of_isDir (isDir_of_isDirectory still)]
      rfl
    refine ⟨u, ?_, (makeVisible_shows first).2.1⟩
    rw [publishWorkspace, run_bind_of_ok first, if_pos rfl,
      run_bind_of_error taken]

/-- A replacement that succeeds leaves the former directory in the trash. -/
theorem retired_of_replaced {path : Path} (done : (publishWorkspace k r).run t = (t', .ok path))
    (directory : t.IsDirectory r.destination) : t'.IsDirectory r.retired := by
  obtain ⟨_, _, ⟨⟩⟩ | ⟨u, exchanged, first, ended⟩ := publishWorkspace_cases done
  obtain ⟨_, _, ⟨hidden, _⟩ | ⟨_, _, _, _, _, rfl⟩⟩ := makeVisible_eq_ok_iff.mp first
  · exact absurd directory (not_isDirectory_of_hidden hidden)
  · obtain ⟨_, failed⟩ | ⟨_, moved⟩ := ended
    · exact absurd (failed rfl) (by simp)
    · rw [FileTree.IsDirectory, node_rename moved, (makeVisible_shows first).2.2 rfl]
      exact directory

end Failure
end ReflinkForest.Publish
