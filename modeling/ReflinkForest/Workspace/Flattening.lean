import ReflinkForest.Workspace.RoundTrip

/-! Planning a checkout flattens the tree of the commit. -/
namespace ReflinkForest
open Bytes Except List RelativePath ColdWorkspaceSource

namespace ColdWorkspaceSource
variable (P : Primitives) (source : ColdWorkspaceSource) (limits : CheckoutLimits)

/-- What expands a tree, given the trees on the way to it. -/
abbrev Expansion := List GitOid → PlanVisitor

/-- One level of the expansion; subtrees are left to `deeper`. -/
def expandLevel (deeper : Expansion) : Expansion := fun active tree parent builder => do
  .require (tree ∉ active) .treeDepthExceeded
  let object ← source.gitObject P tree
  .require (object.kind = .tree) (.wrongKind .tree object.kind)
  let entries ← .mapErr (fun _ => .wrongKind .tree object.kind) (parseTreeEntries object)
  entries.foldlM (expandTreeEntry limits parent (deeper (tree :: active))) builder

/-- So many levels, and something else below them. -/
def expandLevels (beyond : Expansion) : ℕ → Expansion
  | 0 => beyond
  | levels + 1 => source.expandLevel P limits (expandLevels beyond levels)

def planCommitBy (expand : Expansion) (commit : GitOid) : Except WorkspaceError CheckoutPlan := do
  let commitObject ← source.gitObject P commit
  .require (commitObject.kind = .commit) (.wrongKind .commit commitObject.kind)
  let rootTree ← .mapErr (fun _ => .wrongKind .commit commitObject.kind)
    (commitTreeOid commitObject)
  let builder ← expand [] rootTree none (.new limits)
  .ok builder.finish

variable {P source limits}

theorem planCommit_eq_planCommitBy (commit : GitOid) : source.planCommit P commit limits =
    source.planCommitBy P limits (source.expandTree P limits (limits.maxComponents + 1)) commit :=
  rfl

theorem expandTree_eq_expandLevels (fuel : ℕ) : source.expandTree P limits fuel =
    source.expandLevels P limits (fun _ _ _ _ => .error .treeDepthExceeded) fuel := by
  induction fuel with
  | zero => rfl
  | succ fuel ih =>
    funext active tree parent builder
    rw [expandTree, ih]
    rfl

section Termination
variable {parent : Option RelativePath} {builder : CheckoutPlanBuilder}

theorem expandTreeEntry_congr {entry : GitTreeEntry}
    {descend descend' : PlanVisitor}
    (same : ∀ oid (path : RelativePath) builder,
      path.components.length = (above parent).length + 1 →
      path.components.length ≤ limits.maxComponents →
      descend oid (some path) builder = descend' oid (some path) builder) :
    expandTreeEntry limits parent descend builder entry =
      expandTreeEntry limits parent descend' builder entry := by
  unfold expandTreeEntry
  split
  · apply bind_congr_ok
    intro name _
    apply bind_congr_ok
    intro path child
    apply bind_congr_ok
    intro _ shallow
    rw [mapErr_eq_ok, child_eq_ok_iff] at child
    rw [require_eq_ok] at shallow
    apply same _ _ _ _ shallow
    rw [child.1, length_append, length_singleton]
  · rfl

/-- Levels beyond the component limit are never reached. -/
theorem expandLevels_eq {beyond beyond' : Expansion} {levels levels' : ℕ} {active : List GitOid}
    {tree : GitOid} (enough : limits.maxComponents < levels + (above parent).length)
    (enough' : limits.maxComponents < levels' + (above parent).length)
    (shallow : (above parent).length ≤ limits.maxComponents) :
    source.expandLevels P limits beyond levels active tree parent builder =
      source.expandLevels P limits beyond' levels' active tree parent builder := by
  induction levels generalizing levels' active tree parent builder with
  | zero => omega
  | succ levels ih =>
    obtain ⟨levels', rfl⟩ : ∃ k, levels' = k + 1 := ⟨levels' - 1, by omega⟩
    simp only [expandLevels, expandLevel]
    apply bind_congr_ok
    intro _ _
    apply bind_congr_ok
    intro object _
    apply bind_congr_ok
    intro _ _
    apply bind_congr_ok
    intro entries _
    apply foldlM_congr
    intro builder entry _
    apply expandTreeEntry_congr
    intro oid path builder deeper within
    apply ih
    · rw [above]
      omega
    · rw [above]
      omega
    · exact within

/-- Any number of levels above the component limit is enough. -/
theorem planCommitBy_expandLevels (beyond : Expansion) {levels : ℕ}
    (enough : limits.maxComponents < levels) (commit : GitOid) :
    source.planCommitBy P limits (source.expandLevels P limits beyond levels) commit =
      source.planCommit P commit limits := by
  rw [planCommit_eq_planCommitBy, expandTree_eq_expandLevels]
  unfold planCommitBy
  apply bind_congr_ok
  intro object _
  apply bind_congr_ok
  intro _ _
  apply bind_congr_ok
  intro root _
  have same : ∀ beyond', source.expandLevels P limits beyond levels [] root none (.new limits) =
      source.expandLevels P limits beyond' (limits.maxComponents + 1) [] root none (.new limits) :=
    fun _ => expandLevels_eq (by simpa [above] using enough)
      (by simp [above]) (by simp [above])
  rw [same]
end Termination
end ColdWorkspaceSource

section Soundness
variable {limits : CheckoutLimits} {done : List (List Str × PlannedObject)}
  {builder builder' : CheckoutPlanBuilder} {parent : Option RelativePath}
  {below : GitOid → Option (List TreeItem)}
  {descend : PlanVisitor}

/-- An expansion that succeeds has unfolded the tree and added its leaves. -/
def Unfolds (limits : CheckoutLimits) (below : GitOid → Option (List TreeItem))
    (descend : PlanVisitor) : Prop :=
  ∀ oid (path : RelativePath) done builder builder',
    descend oid (some path) builder = .ok builder' → Builds limits done builder →
    ∃ items, below oid = some items ∧
      Builds limits (done ++ plannedLeaves path.names items) builder'

theorem expandTreeEntry_unfolds {entry : GitTreeEntry} (unfolds : Unfolds limits below descend)
    (expanded : expandTreeEntry limits parent descend builder entry =
      .ok builder') (builds : Builds limits done builder) :
    ∃ items, unfoldEntry below entry = some items ∧
      Builds limits (done ++ plannedLeaves ((above parent).map (·.bytes)) items)
        builder' := by
  unfold expandTreeEntry at expanded
  unfold unfoldEntry
  split_ifs at expanded ⊢ with directory
  · simp only [bind_eq_ok_iff, mapErr_eq_ok, TreeName.new_eq_ok_iff,
      child_eq_ok_iff, exists_require] at expanded
    obtain ⟨name, ⟨spelled, _⟩, path, ⟨components, _⟩, _, descended⟩ := expanded
    obtain ⟨inside, found, built⟩ := unfolds _ _ done builder builder' descended builds
    refine ⟨_, by rw [found, Option.map_some], ?_⟩
    have split : plannedLeaves ((above parent).map (·.bytes))
        (⟨[entry.name], entry.mode, entry.oid⟩ :: inside.map (·.under entry.name)) =
          plannedLeaves path.names inside := by
      rw [← singleton_append, plannedLeaves_append, plannedLeaves_under, names,
        components, ← spelled]
      simp [plannedLeaves, directory, TreeMode.entryMode]
    rw [split]
    exact built
  · simp only [bind_eq_ok_iff, mapErr_eq_ok, TreeName.new_eq_ok_iff,
      CheckoutPlanBuilder.addTreeEntry, child_eq_ok_iff] at expanded
    obtain ⟨name, ⟨spelled, _⟩, mode, decoded, path, ⟨components, _⟩, added⟩ := expanded
    refine ⟨_, rfl, ?_⟩
    have planned : entry.mode.entryMode = some mode := by
      cases kind : entry.mode <;> rw [kind] at decoded directory
      · exact absurd rfl directory
      all_goals
        cases decoded
        rfl
    have leaves : plannedLeaves ((above parent).map (·.bytes))
        [⟨[entry.name], entry.mode, entry.oid⟩] = [(path.names, ⟨mode, entry.oid⟩)] := by
      simp [plannedLeaves, planned, names, components, spelled]
    rw [leaves]
    exact builds.of_add added

theorem expandEntries_unfolds {entries : List GitTreeEntry} (unfolds : Unfolds limits below descend)
    (expanded : entries.foldlM (expandTreeEntry limits parent descend) builder =
      .ok builder') (builds : Builds limits done builder) :
    ∃ items, unfoldEntries below entries = some items ∧
      Builds limits (done ++ plannedLeaves ((above parent).map (·.bytes)) items)
        builder' := by
  induction entries generalizing done builder with
  | nil =>
    cases expanded
    exact ⟨[], rfl, by simpa [plannedLeaves] using builds⟩
  | cons entry entries ih =>
    rw [foldlM_cons] at expanded
    obtain ⟨middle, first, rest⟩ := bind_eq_ok_iff.mp expanded
    obtain ⟨here, unfolded, built⟩ := expandTreeEntry_unfolds unfolds first builds
    obtain ⟨others, unfolded', built'⟩ := ih rest built
    refine ⟨here ++ others, ?_, ?_⟩
    · simp only [unfoldEntries, unfolded, unfolded', bind, Option.bind_some]
    · rw [plannedLeaves_append, ← append_assoc]
      exact built'

theorem expandTree_unfolds {P : Primitives} {source : ColdWorkspaceSource} {fuel : ℕ}
    {active : List GitOid} {tree : GitOid}
    (expanded : source.expandTree P limits fuel active tree parent builder = .ok builder')
    (builds : Builds limits done builder) :
    ∃ items, unfoldTree (source.found P) fuel tree = some items ∧
      Builds limits (done ++ plannedLeaves ((above parent).map (·.bytes)) items)
        builder' := by
  induction fuel generalizing active tree parent done builder builder' with
  | zero => cases expanded
  | succ fuel ih =>
    simp only [expandTree, bind_eq_ok_iff, mapErr_eq_ok,
      exists_require] at expanded
    obtain ⟨_, object, found, _, entries, parsed, folded⟩ := expanded
    have unfolds : Unfolds limits (unfoldTree (source.found P) fuel)
        (source.expandTree P limits fuel (tree :: active)) :=
      fun _ _ _ _ _ descended builds => ih descended builds
    obtain ⟨items, unfolded, built⟩ := expandEntries_unfolds unfolds folded builds
    refine ⟨items, ?_, built⟩
    simp only [unfoldTree, bind, Option.bind_eq_some_iff, toOption_eq_some]
    exact ⟨object, found, entries, parsed, unfolded⟩

theorem Builds.finish_perm (builds : Builds limits done builder) :
    (builder.finish.entries.map fun entry => (entry.path.names, entry.object)).Perm done := by
  apply List.Subperm.perm_of_length_le
  · apply subperm_of_subset
    · have distinct := (@CheckoutPlanBuilder.finish_entries_nodup builder).map
        names_injective
      apply List.Nodup.of_map Prod.fst
      rw [map_map] at distinct ⊢
      exact distinct
    · intro leaf mem
      obtain ⟨entry, inside, rfl⟩ := mem_map.mp mem
      exact (builds.lookup _ _).mp (CheckoutPlanBuilder.mem_finish_entries.mp inside)
  · rw [← builds.count, length_map, CheckoutPlanBuilder.finish, length_map,
      FinMap.sortedBy, length_insertionSort, length_map]
    exact (length_map _).le
end Soundness

/-- In a finite set that is closed under a relation without cycles, the relation is well-founded. -/
theorem acc_of_acyclic {α : Type} {child : α → α → Prop} {S : Set α} (finite : S.Finite)
    (closed : ∀ x y, child x y → y ∈ S → x ∈ S)
    (acyclic : ∀ x ∈ S, ¬ Relation.TransGen child x x) {x : α} (mem : x ∈ S) : Acc child x := by
  have : Finite S := finite
  have : IsTrans S fun a b => Relation.TransGen child a b := ⟨fun _ _ _ => .trans⟩
  have : Std.Irrefl fun a b : S => Relation.TransGen child a b := ⟨fun a => acyclic a a.2⟩
  have wellFounded := Finite.wellFounded_of_trans_of_irrefl
    fun a b : S => Relation.TransGen child a b
  suffices reached : ∀ a : S, Acc child a from reached ⟨x, mem⟩
  intro a
  induction a using wellFounded.induction with
  | h a ih =>
    constructor
    intro b below
    exact ih ⟨b, closed b a below a.2⟩ (.single below)

theorem unfoldTree_mono {read : GitOid → Option GitObject} {depth depth' : ℕ} {tree : GitOid}
    {items : List TreeItem} (deeper : depth ≤ depth')
    (h : unfoldTree read depth tree = some items) : unfoldTree read depth' tree = some items := by
  induction deeper with
  | refl => exact h
  | step _ ih => exact unfoldTree_succ ih

/-- Directory entries that unfold each at some depth unfold together. -/
theorem exists_unfoldEntries {read : GitOid → Option GitObject} {entries : List GitTreeEntry}
    (each : ∀ entry ∈ entries, entry.mode = .directory →
      ∃ depth items, unfoldTree read depth entry.oid = some items) :
    ∃ depth items, unfoldEntries (unfoldTree read depth) entries = some items := by
  induction entries with
  | nil => exact ⟨0, [], rfl⟩
  | cons entry entries ih =>
    obtain ⟨first, others⟩ := forall_mem_cons.mp each
    obtain ⟨depth, rest, unfolded⟩ := ih others
    have here : ∃ depth items, unfoldEntry (unfoldTree read depth) entry = some items := by
      by_cases directory : entry.mode = .directory
      · obtain ⟨depth, items, found⟩ := first directory
        exact ⟨depth, _, by rw [unfoldEntry, if_pos directory, found, Option.map_some]⟩
      · exact ⟨0, _, by rw [unfoldEntry, if_neg directory]⟩
    obtain ⟨depth', items, found⟩ := here
    refine ⟨max depth depth', items ++ rest, ?_⟩
    simp only [unfoldEntries, bind, Option.bind_eq_some_iff, Option.some.injEq]
    exact ⟨items, unfoldEntry_mono (fun _ => unfoldTree_mono (le_max_right _ _)) found, rest,
      unfoldEntries_mono (fun _ _ _ => unfoldTree_mono (le_max_left _ _)) unfolded, rfl⟩

namespace ColdWorkspaceSource
variable (P : Primitives) (source : ColdWorkspaceSource)

/-- A directory entry of a tree names this subtree. -/
def Subtree (child tree : GitOid) : Prop :=
  ∃ object entries entry, source.gitObject P tree = .ok object ∧
    parseTreeEntries object = .ok entries ∧ entry ∈ entries ∧ entry.mode = .directory ∧
    entry.oid = child

/-- The tree is the root or lies below it. -/
def Reached (root tree : GitOid) : Prop := Relation.ReflTransGen (source.Subtree P) tree root

/-- The object has a complete record of at most 64 MiB under its alias. -/
def Resolves (object : GitObject) : Prop :=
  ∃ location record, Recorded P source object location record

/-- Every tree below the root resolves and parses, and none is below itself. -/
structure WellFormedBelow (root : GitOid) : Prop where
  resolves : ∀ tree, source.Reached P root tree → ∃ object entries, object.oid = tree ∧
    source.Resolves P object ∧ parseTreeEntries object = .ok entries
  acyclic : ∀ tree, source.Reached P root tree → ¬ Relation.TransGen (source.Subtree P) tree tree

variable {P source} {root tree : GitOid}

theorem Resolves.gitObject {object : GitObject} (h : source.Resolves P object) :
    source.gitObject P object.oid = .ok object := by
  obtain ⟨_, _, recorded⟩ := h
  exact recorded.gitObject

theorem WellFormedBelow.finite (h : source.WellFormedBelow P root) :
    {tree | source.Reached P root tree}.Finite := by
  apply (source.catalog.aliases.keys.map Prod.snd).toFinset.finite_toSet.subset
  intro tree reached
  obtain ⟨object, _, rfl, ⟨_, _, recorded⟩, _⟩ := h.resolves tree reached
  have known : (source.repository, object.oid) ∈ source.catalog.aliases :=
    AList.lookup_isSome.mp (by
      rw [← InMemoryCatalog.oidAlias, recorded.aliased]
      rfl)
  exact Finset.mem_coe.mpr (mem_toFinset.mpr (mem_map.mpr ⟨_, known, rfl⟩))

theorem WellFormedBelow.exists_unfoldTree (h : source.WellFormedBelow P root) :
    ∃ depth items,
      unfoldTree (source.found P) depth root = some items := by
  have accessible : Acc (source.Subtree P) root :=
    acc_of_acyclic h.finite (fun _ _ below reached => .head below reached) h.acyclic .refl
  suffices unfolds : ∀ tree, Acc (source.Subtree P) tree → source.Reached P root tree →
      ∃ depth items,
        unfoldTree (source.found P) depth tree = some items from
    unfolds root accessible .refl
  intro tree accessible
  induction accessible with
  | intro tree _ ih =>
    intro reached
    obtain ⟨object, entries, rfl, resolves, parsed⟩ := h.resolves tree reached
    have found := resolves.gitObject
    obtain ⟨depth, items, unfolded⟩ := exists_unfoldEntries fun entry mem directory =>
      ih entry.oid ⟨object, entries, entry, found, parsed, mem, directory, rfl⟩
        (.head ⟨object, entries, entry, found, parsed, mem, directory, rfl⟩ reached)
    refine ⟨depth + 1, items, ?_⟩
    simp only [unfoldTree, bind, Option.bind_eq_some_iff, toOption_eq_some]
    exact ⟨object, found, entries, parsed, unfolded⟩

theorem planCommit_unfolds {commit : GitOid} {limits : CheckoutLimits} {plan : CheckoutPlan}
    (planned : source.planCommit P commit limits = .ok plan) :
    ∃ object root depth items, source.gitObject P commit = .ok object ∧
      commitTreeOid object = .ok root ∧
      unfoldTree (source.found P) depth root = some items ∧
      (plan.entries.map fun entry => (entry.path.names, entry.object)).Perm
        (plannedLeaves [] items) := by
  simp only [planCommit, bind_eq_ok_iff, mapErr_eq_ok, ok.injEq] at planned
  obtain ⟨object, found, _, _, root, tree, builder, expanded, rfl⟩ := planned
  obtain ⟨items, unfolded, built⟩ := expandTree_unfolds expanded (builds_new limits)
  exact ⟨object, root, _, items, found, tree, unfolded, built.finish_perm⟩

theorem planCommit_of_wellFormedBelow {object : GitObject} {limits : CheckoutLimits}
    (resolves : source.Resolves P object) (tree : commitTreeOid object = .ok root)
    (wellFormed : source.WellFormedBelow P root) :
    ∃ depth items,
      unfoldTree (source.found P) depth root = some items ∧
      (Plannable limits [] items [] →
        ∃ plan, source.planCommit P object.oid limits = .ok plan) := by
  obtain ⟨depth, items, unfolded⟩ := wellFormed.exists_unfoldTree
  refine ⟨depth, items, unfolded, ?_⟩
  intro plannable
  obtain ⟨builder, planned, _⟩ := planCommit_builds resolves.gitObject tree unfolded plannable
  exact ⟨builder.finish, planned⟩

/-- Planning terminates: what expansions beyond the component limit would do makes no difference.
A plan has exactly the leaves of the unfolded root tree. A commit is planned when it and the trees
below it resolve, the trees have no cycle, and the items are valid, apart and within the limits. -/
theorem planCommit_flattens (P : Primitives) (source : ColdWorkspaceSource) (commit : GitOid)
    (limits : CheckoutLimits) :
    (∀ beyond levels, limits.maxComponents < levels →
      source.planCommitBy P limits (source.expandLevels P limits beyond levels) commit =
        source.planCommit P commit limits) ∧
    (∀ plan, source.planCommit P commit limits = .ok plan →
      ∃ object root depth items, source.gitObject P commit = .ok object ∧
        commitTreeOid object = .ok root ∧
        unfoldTree (fun oid => (source.gitObject P oid).toOption) depth root = some items ∧
        (plan.entries.map fun entry => (entry.path.names, entry.object)).Perm
          (plannedLeaves [] items)) ∧
    ∀ object root, object.oid = commit → source.Resolves P object →
      commitTreeOid object = .ok root → source.WellFormedBelow P root →
      ∃ depth items,
        unfoldTree (fun oid => (source.gitObject P oid).toOption) depth root = some items ∧
        (Plannable limits [] items [] → ∃ plan, source.planCommit P commit limits = .ok plan) := by
  refine ⟨fun beyond levels enough => planCommitBy_expandLevels beyond enough commit,
    fun plan => planCommit_unfolds, ?_⟩
  rintro object root rfl resolves tree wellFormed
  exact planCommit_of_wellFormedBelow resolves tree wellFormed
end ColdWorkspaceSource

end ReflinkForest
