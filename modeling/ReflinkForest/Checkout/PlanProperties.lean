import ReflinkForest.Checkout.Plan
import ReflinkForest.Lib.JoinedPath
import ReflinkForest.Lib.Simulation

/-! What holds of every finished checkout plan, whatever calls made it and in whatever order. -/
namespace ReflinkForest
open Bytes List AList FinMap RelativePath PathTree

namespace RelativePath
variable {limits : CheckoutLimits}

theorem mapM_new_ne_nil {pieces : List Str} {components : List TreeName} (some_ : pieces ≠ [])
    (h : pieces.mapM (TreeName.new · limits) = .ok components) : components ≠ [] := by
  rintro rfl
  exact some_ (forall₂_nil_right_iff.mp (Except.mapM_eq_ok_iff.mp h))

/-- A slash-separated relative path from an untrusted source. -/
def parse (path : Str) (limits : CheckoutLimits) : Except CheckoutError RelativePath := do
  .require (path ≠ []) .emptyPath
  .require (path.head? ≠ some 0x2f) .absolutePath
  .require (path.length ≤ limits.maxPathBytes)
    (.pathTooLong path.length limits.maxPathBytes)
  let rawComponents := path.splitOn 0x2f
  .require (rawComponents.length ≤ limits.maxComponents)
    (.tooManyComponents rawComponents.length limits.maxComponents)
  match parsed : rawComponents.mapM (TreeName.new · limits) with
  | .error e => .error e
  | .ok components => .ok ⟨components, mapM_new_ne_nil (List.splitOn_ne_nil _ _) parsed⟩

/-- A path stands strictly above another. -/
def Above (path other : RelativePath) : Prop :=
  path.components <+: other.components ∧ path ≠ other

theorem mem_parentPaths_iff_above {path other : RelativePath} :
    path ∈ other.parentPaths ↔ path.Above other := by
  rw [mem_parentPaths, mem_ancestors]
  constructor
  · rintro ⟨_, inside, different⟩
    exact ⟨inside, fun same => different (congrArg components same)⟩
  · rintro ⟨inside, different⟩
    exact ⟨path.nonempty, inside, fun same => different (ext' same)⟩

theorem Above.trans {a b c : RelativePath} (h : a.Above b) (h' : b.Above c) : a.Above c := by
  rw [← mem_parentPaths_iff_above] at h h' ⊢
  exact parentPaths_trans h h'

theorem Above.mem_ancestors {path other : RelativePath} :
    path.Above other ↔ path.names ∈ ancestors other.names := by
  rw [← mem_parentPaths_iff_above, mem_ancestors_names]
  constructor
  · exact fun h => ⟨path, h, rfl⟩
  · rintro ⟨parent, mem, same⟩
    exact names_injective same ▸ mem
end RelativePath

namespace CheckoutPlanBuilder

def addRaw (builder : CheckoutPlanBuilder) (path : Str) (mode : ℕ) (oid : GitOid) :
    Except CheckoutError CheckoutPlanBuilder := do
  let path ← RelativePath.parse path builder.limits
  let mode ← TreeEntryMode.fromGitMode mode
  builder.add path ⟨mode, oid⟩

inductive AddCall where
  | add (path : RelativePath) (object : PlannedObject)
  | addRaw (path : Str) (mode : ℕ) (oid : GitOid)
  | addTreeEntry (parent : Option RelativePath) (name : TreeName) (object : PlannedObject)

def call (builder : CheckoutPlanBuilder) : AddCall → Except CheckoutError CheckoutPlanBuilder
  | .add path object => builder.add path object
  | .addRaw path mode oid => builder.addRaw path mode oid
  | .addTreeEntry parent name object => builder.addTreeEntry parent name object

/-- The builder after a sequence of calls, where a call that fails changes nothing. -/
def afterCalls (limits : CheckoutLimits) (calls : List AddCall) : CheckoutPlanBuilder :=
  (Simulation.run call (.new limits) calls).1

/-- The entry that a call asks for. -/
def AddCall.target (limits : CheckoutLimits) :
    AddCall → Except CheckoutError (RelativePath × PlannedObject)
  | .add path object => .ok (path, object)
  | .addRaw path mode oid => do
    let path ← RelativePath.parse path limits
    let mode ← TreeEntryMode.fromGitMode mode
    .ok (path, ⟨mode, oid⟩)
  | .addTreeEntry parent name object => do
    let path ← RelativePath.child parent name limits
    .ok (path, object)

theorem call_eq_ok_iff {builder builder' : CheckoutPlanBuilder} {c : AddCall} :
    builder.call c = .ok builder' ↔ ∃ path object,
      c.target builder.limits = .ok (path, object) ∧ builder.add path object = .ok builder' := by
  have split : builder.call c =
      c.target builder.limits >>= fun target => builder.add target.1 target.2 := by
    cases c <;> simp [call, addRaw, addTreeEntry, AddCall.target, bind_assoc]
  rw [split, Except.bind_eq_ok_iff, Prod.exists]

section Order
/-- Two builders with the same limits and the same entries, however they are stored. -/
structure SameEntries (b b' : CheckoutPlanBuilder) : Prop where
  limits : b.limits = b'.limits
  lookup : ∀ path, b.entries.lookup path = b'.entries.lookup path

variable {b b' b₁ b₂ : CheckoutPlanBuilder} {path path' : RelativePath}
  {object object' : PlannedObject}

theorem SameEntries.mem_iff (h : SameEntries b b') : path ∈ b.entries ↔ path ∈ b'.entries := by
  rw [← lookup_isSome, h.lookup, lookup_isSome]

theorem SameEntries.length_keys (h : SameEntries b b') :
    b.entries.keys.length = b'.entries.keys.length := by
  have perm : b.entries.keys.Perm b'.entries.keys :=
    (perm_ext_iff_of_nodup b.entries.keys_nodup b'.entries.keys_nodup).mpr fun _ => h.mem_iff
  exact perm.length_eq

theorem Admits.congr (h : SameEntries b b') (admits : b.Admits path) : b'.Admits path := by
  refine ⟨h.limits ▸ admits.within, fun mem => admits.fresh (h.mem_iff.mpr mem), ?_,
    fun above higher mem => admits.noneAbove above higher (h.mem_iff.mpr mem),
    fun other mem => admits.noneBelow other (h.mem_iff.mpr mem)⟩
  rw [← h.length_keys, ← h.limits]
  exact admits.room

theorem SameEntries.add (h : SameEntries b b') (added : b.add path object = .ok b₁) :
    ∃ b₂, b'.add path object = .ok b₂ ∧ SameEntries b₁ b₂ := by
  obtain ⟨admits, limits, entries⟩ := add_eq_ok_iff.mp added
  obtain ⟨b₂, added', limits', entries'⟩ := add_of_admits object (admits.congr h)
  refine ⟨b₂, added', limits.trans (h.limits.trans limits'.symm), ?_⟩
  intro other
  rw [entries, entries', lookup_insert_eq, lookup_insert_eq, h.lookup]

/-- Two entries that can be added one after the other can be added the other way round. -/
theorem add_swap (first : b.add path object = .ok b₁) (second : b₁.add path' object' = .ok b₂) :
    ∃ c₁ c₂, b.add path' object' = .ok c₁ ∧ c₁.add path object = .ok c₂ ∧ SameEntries b₂ c₂ := by
  obtain ⟨admits, limits, entries⟩ := add_eq_ok_iff.mp first
  obtain ⟨admits', limits', entries'⟩ := add_eq_ok_iff.mp second
  have mem : ∀ other, other ∈ b₁.entries ↔ other = path ∨ other ∈ b.entries := by
    intro other
    rw [entries, mem_insert]
  have different : path' ≠ path := fun same => admits'.fresh ((mem path').mpr (.inl same))
  have count : b₁.entries.keys.length = b.entries.keys.length + 1 := by
    rw [entries, keys_insert, erase_of_not_mem fun member => admits.fresh member]
    rfl
  have alone : b.Admits path' := by
    refine ⟨limits ▸ admits'.within, fun member => admits'.fresh ((mem _).mpr (.inr member)),
      ?_, fun above higher member => admits'.noneAbove above higher ((mem _).mpr (.inr member)),
      fun other member => admits'.noneBelow other ((mem _).mpr (.inr member))⟩
    have room := admits'.room
    rw [count, limits] at room
    omega
  obtain ⟨c₁, added, limitsC, entriesC⟩ := add_of_admits object' alone
  have memC : ∀ other, other ∈ c₁.entries ↔ other = path' ∨ other ∈ b.entries := by
    intro other
    rw [entriesC, mem_insert]
  have behind : c₁.Admits path := by
    refine ⟨limitsC ▸ admits.within, ?_, ?_, ?_, ?_⟩
    · rw [memC]
      rintro (same | member)
      · exact different same.symm
      · exact admits.fresh member
    · have room := admits'.room
      rw [count, limits] at room
      rw [entriesC, limitsC, keys_insert, erase_of_not_mem fun member => alone.fresh member]
      exact room
    · intro above higher member
      rcases (memC above).mp member with rfl | member
      · exact admits'.noneBelow path ((mem path).mpr (.inl rfl)) higher
      · exact admits.noneAbove above higher member
    · intro other member higher
      rcases (memC other).mp member with rfl | member
      · exact admits'.noneAbove path higher ((mem path).mpr (.inl rfl))
      · exact admits.noneBelow other member higher
  obtain ⟨c₂, added', limitsC', entriesC'⟩ := add_of_admits object behind
  refine ⟨c₁, c₂, added, added', ?_, ?_⟩
  · rw [limits', limits, limitsC', limitsC]
  · intro other
    rw [entries', entries, entriesC', entriesC]
    simp only [lookup_insert_eq]
    split_ifs with h h' <;> first | rfl | exact absurd (h.symm.trans h') different

theorem SameEntries.finish (h : SameEntries b b') : b.finish = b'.finish := by
  have directories : b.finish.directories = b'.finish.directories := by
    apply eq_of_pairwise_lt_of_mem_iff (pairwise_map.mp finish_directories_sorted)
      (pairwise_map.mp finish_directories_sorted)
    intro directory
    simp only [mem_finish_directories, h.mem_iff]
  have entries : b.entries.sortedBy (fun e => e.1.names) =
      b'.entries.sortedBy (fun e => e.1.names) := by
    apply eq_of_pairwise_of_mem_iff
      (pairwise_sortedBy names_injective _)
      (pairwise_sortedBy names_injective _)
    rintro ⟨path, object⟩
    rw [mem_sortedBy, mem_sortedBy, h.lookup]
  exact congrArg₂ CheckoutPlan.mk directories
    (congrArg (List.map fun e => PlannedEntry.mk e.1 e.2) entries)

/-- Calls that all succeed make the same plan in every order. -/
theorem foldlM_call_perm {calls calls' : List AddCall} (perm : calls.Perm calls')
    (done : calls.foldlM call b = .ok b₁) :
    ∃ b₂, calls'.foldlM call b = .ok b₂ ∧ b₂.finish = b₁.finish := by
  have keeps : ∀ s s' t c, SameEntries s t → call s c = .ok s' →
      ∃ t', call t c = .ok t' ∧ SameEntries s' t' := by
    intro s s' t c same called
    obtain ⟨path, object, target, added⟩ := call_eq_ok_iff.mp called
    obtain ⟨t', added', same'⟩ := same.add added
    exact ⟨t', call_eq_ok_iff.mpr ⟨path, object, same.limits ▸ target, added'⟩, same'⟩
  have swaps : ∀ s s' s'' c c', call s c = .ok s' → call s' c' = .ok s'' →
      ∃ t' t'', call s c' = .ok t' ∧ call t' c = .ok t'' ∧ SameEntries s'' t'' := by
    intro s s' s'' c c' called called'
    obtain ⟨path, object, target, added⟩ := call_eq_ok_iff.mp called
    obtain ⟨path', object', target', added'⟩ := call_eq_ok_iff.mp called'
    have limits := (add_eq_ok_iff.mp added).2.1
    obtain ⟨t', t'', first, second, same⟩ := add_swap added added'
    have limits' := (add_eq_ok_iff.mp first).2.1
    exact ⟨t', t'', call_eq_ok_iff.mpr ⟨path', object', limits ▸ target', first⟩,
      call_eq_ok_iff.mpr ⟨path, object, limits'.symm ▸ target, second⟩, same⟩
  obtain ⟨b₂, done', same⟩ := Simulation.foldlM_perm (fun s => ⟨rfl, fun _ => rfl⟩)
    (fun s t u h h' => ⟨h.limits.trans h'.limits,
      fun path => (h.lookup path).trans (h'.lookup path)⟩)
    keeps swaps perm done
  exact ⟨b₂, done', same.finish.symm⟩
end Order
end CheckoutPlanBuilder

/-- The component rules of Git tree names. -/
def ProperName (name : Str) : Prop :=
  name ≠ [] ∧ name ≠ ascii "." ∧ name ≠ ascii ".." ∧ 0 ∉ name ∧ 0x2f ∉ name

/-- The plan's directories and then its entries, in plan order, each entry as the given node. -/
def CheckoutPlan.creations {β : Type} (plan : CheckoutPlan) (node : PlannedEntry → PathNode β) :
    List (List Str × PathNode β) :=
  plan.directories.map (fun directory => (directory.names, .directory)) ++
    plan.entries.map fun entry => (entry.path.names, node entry)

/-- The plan can be carried out on an empty tree. `createAll` fails if a parent is missing or a
target exists. -/
structure Materializable (plan : CheckoutPlan) : Prop where
  distinct : (plan.entries.map (·.path)).Nodup
  apart : ∀ entry ∈ plan.entries, ∀ other ∈ plan.entries, ¬ entry.path.Above other.path
  directories : ∀ directory, directory ∈ plan.directories ↔
    ∃ entry ∈ plan.entries, directory.Above entry.path
  disjoint : ∀ entry ∈ plan.entries, entry.path ∉ plan.directories
  parentsFirst : plan.directories.Pairwise fun directory later =>
    later ≠ directory ∧ ¬ later.Above directory
  names : ∀ path ∈ plan.directories ++ plan.entries.map (·.path), ∀ name ∈ path.names,
    ProperName name
  creates : ∀ (β : Type) (node : PlannedEntry → PathNode β),
    ∃ tree, PathTree.createAll (∅ : PathTree Str β) (plan.creations node) = .ok tree

namespace CheckoutPlanBuilder
variable {builder : CheckoutPlanBuilder}

theorem finish_apart {entry other : PlannedEntry} (mem : entry ∈ builder.finish.entries)
    (member' : other ∈ builder.finish.entries) : ¬ entry.path.Above other.path := by
  rw [mem_finish_entries] at mem member'
  intro above
  refine builder.apart other.path (mem_of_lookup member') entry.path
    (mem_parentPaths_iff_above.mpr above) (lookup_isSome.mp ?_)
  rw [mem]
  rfl

theorem mem_finish_directories_iff {directory : RelativePath} :
    directory ∈ builder.finish.directories ↔
      ∃ entry ∈ builder.finish.entries, directory.Above entry.path := by
  rw [mem_finish_directories]
  constructor
  · rintro ⟨path, mem, above⟩
    obtain ⟨object, found⟩ := exists_lookup mem
    exact ⟨⟨path, object⟩, mem_finish_entries.mpr found,
      mem_parentPaths_iff_above.mp above⟩
  · rintro ⟨entry, mem, above⟩
    rw [mem_finish_entries] at mem
    exact ⟨entry.path, mem_of_lookup mem,
      mem_parentPaths_iff_above.mpr above⟩

theorem finish_disjoint {entry : PlannedEntry} (mem : entry ∈ builder.finish.entries) :
    entry.path ∉ builder.finish.directories := by
  rw [mem_finish_directories_iff]
  rintro ⟨other, member', above⟩
  exact finish_apart mem member' above

theorem finish_parentsFirst : builder.finish.directories.Pairwise fun directory later =>
    later ≠ directory ∧ ¬ later.Above directory := by
  apply (pairwise_map.mp (@finish_directories_sorted builder)).imp
  intro directory later before
  refine ⟨fun same => ?_, fun above => ?_⟩
  · rw [same] at before
    exact lt_irrefl _ before
  · exact lt_asymm before
      (lt_of_mem_ancestors (RelativePath.Above.mem_ancestors.mp above))

theorem finish_creations_nodup {β : Type} (node : PlannedEntry → PathNode β) :
    ((builder.finish.creations node).map Prod.fst).Nodup := by
  simp only [CheckoutPlan.creations, map_append, map_map, Function.comp_def]
  apply List.Nodup.append
  · exact (@finish_directories_sorted builder).imp ne_of_lt
  · have paths := (@finish_entries_nodup builder).map names_injective
    rwa [map_map] at paths
  · intro path inDirectories inEntries
    obtain ⟨directory, mem, rfl⟩ := mem_map.mp inDirectories
    obtain ⟨entry, member', same⟩ := mem_map.mp inEntries
    exact finish_disjoint member' (names_injective same ▸ mem)

theorem finish_creations_order {β : Type} (node : PlannedEntry → PathNode β) :
    (builder.finish.creations node).Pairwise fun creation later =>
      later.1 ∉ ancestors creation.1 := by
  unfold CheckoutPlan.creations
  rw [pairwise_append, pairwise_map, pairwise_map]
  refine ⟨?_, ?_, ?_⟩
  · apply (@finish_parentsFirst builder).imp
    rintro directory later ⟨_, notAbove⟩
    rwa [← RelativePath.Above.mem_ancestors]
  · apply pairwise_of_forall_mem_list
    intro entry mem later member'
    rw [← RelativePath.Above.mem_ancestors]
    exact finish_apart member' mem
  · intro creation inDirectories later inEntries
    obtain ⟨directory, mem, rfl⟩ := mem_map.mp inDirectories
    obtain ⟨entry, member', rfl⟩ := mem_map.mp inEntries
    rw [← RelativePath.Above.mem_ancestors]
    intro above
    obtain ⟨other, inside, below⟩ := mem_finish_directories_iff.mp mem
    exact finish_apart member' inside (above.trans below)

theorem finish_creations_parents {β : Type} (node : PlannedEntry → PathNode β) :
    ∀ creation ∈ builder.finish.creations node, ∀ above ∈ ancestors creation.1,
      (above, .directory) ∈ builder.finish.creations node := by
  have listed : ∀ directory ∈ builder.finish.directories,
      (directory.names, .directory) ∈ builder.finish.creations node := fun directory mem =>
    mem_append_left _ (mem_map.mpr ⟨directory, mem, rfl⟩)
  intro creation mem above higher
  rcases mem_append.mp mem with inDirectories | inEntries
  · obtain ⟨directory, inside, rfl⟩ := mem_map.mp inDirectories
    obtain ⟨parent, isParent, rfl⟩ := mem_ancestors_names.mp higher
    obtain ⟨entry, present, below⟩ := mem_finish_directories_iff.mp inside
    exact listed parent (mem_finish_directories_iff.mpr ⟨entry, present,
      (mem_parentPaths_iff_above.mp isParent).trans below⟩)
  · obtain ⟨entry, present, rfl⟩ := mem_map.mp inEntries
    obtain ⟨parent, isParent, rfl⟩ := mem_ancestors_names.mp higher
    exact listed parent (mem_finish_directories_iff.mpr ⟨entry, present,
      mem_parentPaths_iff_above.mp isParent⟩)

theorem properName_of_mem_names {path : RelativePath} {name : Str} (mem : name ∈ path.names) :
    ProperName name := by
  obtain ⟨component, _, rfl⟩ := mem_map.mp mem
  exact ⟨component.nonempty, component.notDot, component.notDotDot, component.noNul,
    component.noSlash⟩

theorem finish_materializable (builder : CheckoutPlanBuilder) :
    Materializable builder.finish where
  distinct := finish_entries_nodup
  apart _ mem _ member' := finish_apart mem member'
  directories _ := mem_finish_directories_iff
  disjoint _ := finish_disjoint
  parentsFirst := finish_parentsFirst
  names _ _ _ := properName_of_mem_names
  creates β node := by
    obtain ⟨tree, created, _⟩ := createAll_lookup (fun _ _ => lookup_empty _)
      (finish_creations_nodup node) (finish_creations_order node)
      fun creation mem above higher => .inr (finish_creations_parents node creation mem above
        higher)
    exact ⟨tree, created⟩

/-- Whatever calls were made, the plan is materializable; and calls that all succeed in one order
do so in every order and make the same plan. -/
theorem finished_plan_materializable (limits : CheckoutLimits) :
    (∀ calls, Materializable (afterCalls limits calls).finish) ∧
    ∀ (calls calls' : List AddCall) builder, calls.Perm calls' →
      calls.foldlM call (.new limits) = .ok builder →
      ∃ builder', calls'.foldlM call (.new limits) = .ok builder' ∧
        builder'.finish = builder.finish :=
  ⟨fun _ => finish_materializable _, fun _ _ _ perm done => foldlM_call_perm perm done⟩
end CheckoutPlanBuilder

namespace CheckoutPlanBuilder
variable {builder : CheckoutPlanBuilder}

theorem finish_entries_sorted :
    (builder.finish.entries.map (·.path.names)).Pairwise (· < ·) := by
  have sorted := pairwise_sortedBy names_injective builder.entries
  simpa only [finish, pairwise_map, map_map, Function.comp_def] using sorted

theorem finish_entries_not_prefix :
    (builder.finish.entries.map (·.path.names)).Pairwise fun a b => ¬ a <+: b := by
  rw [pairwise_map]
  have distinct := pairwise_map.mp (@finish_entries_nodup builder)
  apply distinct.imp_of_mem
  intro entry later mem member' different inside
  refine finish_apart mem member' ⟨?_, different⟩
  exact (prefix_map_iff_of_injective TreeName.bytes_injective).mp inside

theorem forall_finish_entries {p : RelativePath → Prop} :
    (∀ entry ∈ builder.finish.entries, p entry.path) ↔ ∀ path ∈ builder.entries, p path := by
  simp only [mem_finish_entries]
  constructor
  · intro all path mem
    obtain ⟨object, found⟩ := exists_lookup mem
    exact all ⟨path, object⟩ found
  · exact fun all entry found => all entry.path (mem_of_lookup found)

/-- The entries stand in the order of their raw path bytes exactly when no added path lies below a
directory that has a longer sibling whose next byte sorts before the slash. -/
theorem finish_rawOrder_iff (limits : CheckoutLimits) (calls : List AddCall) :
    ((afterCalls limits calls).finish.entries.map (·.path.asBytes)).Pairwise (· < ·) ↔
      ∀ path ∈ (afterCalls limits calls).entries, ∀ other ∈ (afterCalls limits calls).entries,
        ¬ JoinedPath.Inverted 0x2f path.names other.names := by
  have plain : ∀ path ∈ (afterCalls limits calls).finish.entries.map (·.path.names),
      ∀ name ∈ path, 0x2f ∉ name := by
    intro path member name inside
    obtain ⟨entry, _, rfl⟩ := mem_map.mp member
    exact (properName_of_mem_names inside).2.2.2.2
  have order := JoinedPath.pairwise_joined_lt_iff plain finish_entries_sorted
    finish_entries_not_prefix
  rw [map_map] at order
  simp only [forall_mem_map] at order
  simp only [← forall_finish_entries]
  exact order

def inversionCalls : List AddCall :=
  [.addRaw (ascii "a/b") 0x81a4 ⟨.sha1, List.replicate 20 1, rfl⟩,
    .addRaw (ascii "a-b") 0x81a4 ⟨.sha1, List.replicate 20 2, rfl⟩]

/-- `a/b` stands before `a-b`, although the hyphen sorts before the slash. -/
theorem inversionCalls_not_raw_order : ¬∀ (limits : CheckoutLimits) (calls : List AddCall) builder,
    calls.foldlM call (.new limits) = .ok builder →
    (builder.finish.entries.map (·.path.asBytes)).Pairwise (· < ·) := by
  intro claimed
  have evaluated : (inversionCalls.foldlM call (.new {})).toOption.map
      (fun builder => builder.finish.entries.map (·.path.asBytes)) =
        some [ascii "a/b", ascii "a-b"] := by
    decide +kernel
  obtain ⟨builder, done, entries⟩ := Option.map_eq_some_iff.mp evaluated
  have ordered := claimed {} inversionCalls builder (Except.toOption_eq_some.mp done)
  rw [entries] at ordered
  exact absurd ordered (by decide)
end CheckoutPlanBuilder

end ReflinkForest
