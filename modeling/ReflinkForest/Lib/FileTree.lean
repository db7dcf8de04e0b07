import Mathlib.Data.List.Infix
import Mathlib.Tactic.Common

/-! File trees whose entries have an identity: moving an entry takes all below it along. -/
inductive FileKind where
  | directory | file | link
  deriving DecidableEq

structure FileNode where
  kind : FileKind
  inode : ℕ
  deriving DecidableEq

structure FileTree (α : Type) where
  node : List α → Option FileNode
  root : (node []).map FileNode.kind = some .directory
  closed : ∀ path name, node (path ++ [name]) ≠ none →
    (node path).map FileNode.kind = some .directory

namespace FileTree
open List

variable {α : Type} {path : List α}

def IsDirectory (t : FileTree α) (path : List α) : Prop :=
  (t.node path).map FileNode.kind = some .directory

instance (t : FileTree α) (path : List α) : Decidable (t.IsDirectory path) :=
  inferInstanceAs (Decidable (_ = _))

theorem IsDirectory.node_ne_none {t : FileTree α} (directory : t.IsDirectory path) :
    t.node path ≠ none := by
  intro missing
  rw [IsDirectory, missing] at directory
  cases directory

theorem isDirectory_above (t : FileTree α) {other : List α} (inside : path <+: other)
    (different : path ≠ other) (present : t.node other ≠ none) : t.IsDirectory path := by
  induction other using List.reverseRecOn with
  | nil => exact absurd (prefix_nil.mp inside) different
  | append_singleton other name ih =>
    have parent := t.closed other name present
    by_cases here : path = other
    · rw [here]
      exact parent
    · rcases prefix_concat_iff.mp inside with whole | inside
      · exact absurd whole different
      · exact ih inside here (IsDirectory.node_ne_none parent)

theorem node_above_ne_none (t : FileTree α) {other : List α} (inside : path <+: other)
    (present : t.node other ≠ none) : t.node path ≠ none := by
  by_cases same : path = other
  · rwa [same]
  · exact (t.isDirectory_above inside same present).node_ne_none

/-- Nothing of the one tree is missing or different in the other. -/
def Extends (t t' : FileTree α) : Prop := ∀ path node, t.node path = some node →
  t'.node path = some node

theorem Extends.refl (t : FileTree α) : t.Extends t := fun _ _ => id

theorem Extends.trans {t t' t'' : FileTree α} (first : t.Extends t') (second : t'.Extends t'') :
    t.Extends t'' := fun path node present => second path node (first path node present)

theorem Extends.node_eq {t t' : FileTree α} (more : t.Extends t') (present : t.node path ≠ none) :
    t'.node path = t.node path := by
  obtain ⟨node, found⟩ := Option.ne_none_iff_exists'.mp present
  rw [found, more path node found]

theorem Extends.node_ne_none {t t' : FileTree α} (more : t.Extends t')
    (present : t.node path ≠ none) : t'.node path ≠ none := by
  rwa [more.node_eq present]

/-- There is room for a new directory. -/
structure Vacant (t : FileTree α) (path : List α) : Prop where
  absent : t.node path = none
  parent : t.IsDirectory path.dropLast

/-- Where a path below `src` goes when `src` goes to `dst`. -/
def redirect (src dst path : List α) : List α := dst ++ path.drop src.length

theorem redirect_append (src dst rest : List α) : redirect src dst (src ++ rest) = dst ++ rest := by
  simp [redirect]

theorem redirect_concat {src dst : List α} (inside : src <+: path) (name : α) :
    redirect src dst (path ++ [name]) = redirect src dst path ++ [name] := by
  obtain ⟨rest, rfl⟩ := inside
  rw [append_assoc, redirect_append, redirect_append, append_assoc]

/-- An entry can go to a place that is not a directory, in a directory that does not go along. -/
structure Movable (t : FileTree α) (src dst : List α) : Prop where
  present : t.node src ≠ none
  parent : t.IsDirectory dst.dropLast
  leaf : ¬ t.IsDirectory dst
  outside : ¬ src <+: dst

variable {t : FileTree α} {src dst a b : List α}

theorem Movable.dst_ne_nil (h : t.Movable src dst) : dst ≠ [] := by
  rintro rfl
  exact h.leaf t.root

/-- Two entries of which neither is above the other. -/
structure Exchangeable (t : FileTree α) (a b : List α) : Prop where
  left : t.node a ≠ none
  right : t.node b ≠ none
  leftOutside : ¬ a <+: b
  rightOutside : ¬ b <+: a

theorem Exchangeable.symm (h : t.Exchangeable a b) : t.Exchangeable b a :=
  ⟨h.right, h.left, h.rightOutside, h.leftOutside⟩

variable [DecidableEq α]

instance (t : FileTree α) (path : List α) : Decidable (t.Vacant path) :=
  decidable_of_iff (t.node path = none ∧ t.IsDirectory path.dropLast)
    ⟨fun h => ⟨h.1, h.2⟩, fun h => ⟨h.absent, h.parent⟩⟩

def makeDirectory (t : FileTree α) (path : List α) (inode : ℕ) (vacant : t.Vacant path) :
    FileTree α where
  node p := if p = path then some ⟨.directory, inode⟩ else t.node p
  root := by
    split
    · rfl
    · exact t.root
  closed above name present := by
    split at present
    · rename_i here
      have parent := vacant.parent
      rw [← here, List.dropLast_concat] at parent
      split
      · rfl
      · exact parent
    · split
      · rfl
      · exact t.closed above name present

theorem makeDirectory_extends (t : FileTree α) (path : List α) (inode : ℕ)
    (vacant : t.Vacant path) : t.Extends (t.makeDirectory path inode vacant) := by
  intro other node present
  have different : other ≠ path := by
    rintro rfl
    rw [vacant.absent] at present
    cases present
  exact (if_neg different).trans present

instance (t : FileTree α) (src dst : List α) : Decidable (t.Movable src dst) :=
  decidable_of_iff (t.node src ≠ none ∧ t.IsDirectory dst.dropLast ∧ ¬ t.IsDirectory dst ∧
    ¬ src <+: dst) ⟨fun h => ⟨h.1, h.2.1, h.2.2.1, h.2.2.2⟩,
      fun h => ⟨h.present, h.parent, h.leaf, h.outside⟩⟩

def moveNode (t : FileTree α) (src dst path : List α) : Option FileNode :=
  if dst <+: path then t.node (redirect dst src path)
  else if src <+: path then none
  else t.node path

theorem moveNode_of_apart (away : ¬ dst <+: path) (stays : ¬ src <+: path) :
    t.moveNode src dst path = t.node path := by
  rw [moveNode, if_neg away, if_neg stays]

theorem Movable.moveNode_parent (h : t.Movable src dst) :
    (t.moveNode src dst dst.dropLast).map FileNode.kind = some .directory := by
  have away : ¬ dst <+: dst.dropLast := by
    intro inside
    have short := inside.length_le
    have positive := length_pos_iff.mpr h.dst_ne_nil
    rw [length_dropLast] at short
    omega
  rw [moveNode_of_apart away fun inside => h.outside (inside.trans dst.dropLast_prefix)]
  exact h.parent

def move (t : FileTree α) (src dst : List α) (h : t.Movable src dst) : FileTree α where
  node := t.moveNode src dst
  root := by
    have away : ¬ dst <+: [] := fun inside => h.dst_ne_nil (List.prefix_nil.mp inside)
    have stays : ¬ src <+: [] := fun inside => h.outside (inside.trans List.nil_prefix)
    rw [moveNode_of_apart away stays]
    exact t.root
  closed above name present := by
    by_cases inside : dst <+: above
    · rw [moveNode, if_pos (inside.trans (List.prefix_append _ _)),
        redirect_concat inside] at present
      rw [moveNode, if_pos inside]
      exact t.closed _ name present
    · by_cases whole : dst = above ++ [name]
      · have parent := h.moveNode_parent
        rw [whole, List.dropLast_concat, ← whole] at parent
        exact parent
      · have away : ¬ dst <+: above ++ [name] := fun below =>
          (List.prefix_concat_iff.mp below).elim whole inside
        rw [moveNode, if_neg away] at present
        split at present
        · exact absurd rfl present
        · rename_i stays
          rw [moveNode_of_apart inside fun below =>
            stays (below.trans (List.prefix_append _ _))]
          exact t.closed above name present

@[simp] theorem node_move (h : t.Movable src dst) :
    (t.move src dst h).node path = t.moveNode src dst path := rfl

theorem node_move_dst (h : t.Movable src dst) (rest : List α) :
    (t.move src dst h).node (dst ++ rest) = t.node (src ++ rest) := by
  rw [node_move, moveNode, if_pos (prefix_append _ _), redirect_append]

instance (t : FileTree α) (a b : List α) : Decidable (t.Exchangeable a b) :=
  decidable_of_iff (t.node a ≠ none ∧ t.node b ≠ none ∧ ¬ a <+: b ∧ ¬ b <+: a)
    ⟨fun h => ⟨h.1, h.2.1, h.2.2.1, h.2.2.2⟩,
      fun h => ⟨h.left, h.right, h.leftOutside, h.rightOutside⟩⟩

def exchangeNode (t : FileTree α) (a b path : List α) : Option FileNode :=
  if a <+: path then t.node (redirect a b path)
  else if b <+: path then t.node (redirect b a path)
  else t.node path

theorem exchangeNode_of_apart (left : ¬ a <+: path) (right : ¬ b <+: path) :
    t.exchangeNode a b path = t.node path := by
  rw [exchangeNode, if_neg left, if_neg right]

theorem Exchangeable.exchangeNode_comm (h : t.Exchangeable a b) :
    t.exchangeNode a b path = t.exchangeNode b a path := by
  unfold exchangeNode
  by_cases left : a <+: path
  · by_cases right : b <+: path
    · exact ((List.prefix_or_prefix_of_prefix left right).elim h.leftOutside h.rightOutside).elim
    · rw [if_pos left, if_neg right, if_pos left]
  · rw [if_neg left, if_neg left]

theorem Exchangeable.isDirectory_below {above : List α} {name : α} (h : t.Exchangeable a b)
    (inside : a <+: above ++ [name]) (present : t.exchangeNode a b (above ++ [name]) ≠ none) :
    (t.exchangeNode a b above).map FileNode.kind = some .directory := by
  rcases prefix_concat_iff.mp inside with whole | below
  · have left : ¬ a <+: above := by
      rw [whole]
      intro longer
      have short := longer.length_le
      rw [length_append, length_singleton] at short
      omega
    have right : ¬ b <+: above := fun inside' =>
      h.rightOutside (whole ▸ inside'.trans (prefix_append _ _))
    rw [exchangeNode_of_apart left right]
    exact t.closed above name (whole ▸ h.left)
  · rw [exchangeNode, if_pos inside, redirect_concat below] at present
    rw [exchangeNode, if_pos below]
    exact t.closed _ name present

def exchange (t : FileTree α) (a b : List α) (h : t.Exchangeable a b) : FileTree α where
  node := t.exchangeNode a b
  root := by
    have left : ¬ a <+: [] := fun inside => h.leftOutside (inside.trans List.nil_prefix)
    have right : ¬ b <+: [] := fun inside => h.rightOutside (inside.trans List.nil_prefix)
    rw [exchangeNode_of_apart left right]
    exact t.root
  closed above name present := by
    by_cases left : a <+: above ++ [name]
    · exact h.isDirectory_below left present
    · by_cases right : b <+: above ++ [name]
      · rw [h.exchangeNode_comm] at present ⊢
        exact h.symm.isDirectory_below right present
      · rw [exchangeNode_of_apart left right] at present
        rw [exchangeNode_of_apart (fun inside => left (inside.trans (List.prefix_append _ _)))
          fun inside => right (inside.trans (List.prefix_append _ _))]
        exact t.closed above name present

@[simp] theorem node_exchange (h : t.Exchangeable a b) :
    (t.exchange a b h).node path = t.exchangeNode a b path := rfl

theorem node_exchange_left (h : t.Exchangeable a b) (rest : List α) :
    (t.exchange a b h).node (a ++ rest) = t.node (b ++ rest) := by
  rw [node_exchange, exchangeNode, if_pos (prefix_append _ _), redirect_append]

theorem node_exchange_right (h : t.Exchangeable a b) (rest : List α) :
    (t.exchange a b h).node (b ++ rest) = t.node (a ++ rest) := by
  rw [node_exchange, h.exchangeNode_comm, ← node_exchange h.symm, node_exchange_left]

end FileTree
