import ReflinkForest.Checkout.Materialize
import ReflinkForest.Git.ReachableWalk
import ReflinkForest.Maintenance.Compaction

/-! Planning a checkout from cold records. What trees expand to is stated by `unfoldTree`. -/
namespace ReflinkForest
open Bytes Except List RelativePath CheckoutPlanBuilder

inductive WorkspaceError where
  | missingAlias (oid : GitOid)
  | missingLocation (id : ContentId)
  | store (error : StoreError)
  | hydration (error : HydrationError)
  | checkout (error : CheckoutError)
  | wrongKind (expected actual : ObjectKind)
  | codec (error : CodecError)
  | contentMismatch (expected actual : ContentId)
  | maintenance (error : MaintenanceError)
  | treeDepthExceeded

structure ColdWorkspaceSource where
  repository : RepoId
  catalog : InMemoryCatalog
  chunks : ChunkStore
  leases : Option GenerationManager

/-- What adds the tree below a path to a plan. -/
abbrev PlanVisitor := GitOid → Option RelativePath → CheckoutPlanBuilder →
  Except WorkspaceError CheckoutPlanBuilder

open ColdWorkspaceSource

namespace ColdWorkspaceSource
variable (P : Primitives) (source : ColdWorkspaceSource)

def contentId (oid : GitOid) : Except WorkspaceError ContentId :=
  .ofOption (.missingAlias oid) (source.catalog.oidAlias source.repository oid)

def lease (generation : UInt32) : Except WorkspaceError Unit :=
  match source.leases with
  | some manager => Except.mapErr .maintenance (manager.lease generation)
  | none => .ok ()

def recordFor (oid : GitOid) : Except WorkspaceError (ContentId × ObjectRecord) := do
  let id ← source.contentId oid
  let location ← .ofOption (.missingLocation id) (source.catalog.objectLocation id)
  source.lease location.generation
  let record ← .mapErr .store (source.chunks.readRecord P location)
  let rawPayload ← .mapErr .codec (decodeObjectPayload P record)
  let actual := ContentId.forObject P record.kind rawPayload
  .require (actual = id ∧ record.contentId = id) (.contentMismatch id actual)
  .ok (id, { record with codec := .raw, payload := rawPayload })

def gitObject (oid : GitOid) : Except WorkspaceError GitObject := do
  let (_, record) ← source.recordFor P oid
  .ok ⟨oid, record.kind, record.payload⟩

/-- The objects that can be read. -/
abbrev found (oid : GitOid) : Option GitObject := (source.gitObject P oid).toOption

/-- One entry of a tree: descend into a directory, or add a leaf to the plan. -/
def expandTreeEntry (limits : CheckoutLimits) (parent : Option RelativePath)
    (descend : PlanVisitor)
    (builder : CheckoutPlanBuilder) (entry : GitTreeEntry) :
    Except WorkspaceError CheckoutPlanBuilder :=
  if entry.mode = .directory then do
    let name ← .mapErr .checkout (TreeName.new entry.name limits)
    let path ← .mapErr .checkout (RelativePath.child parent name limits)
    .require (path.components.length ≤ limits.maxComponents) .treeDepthExceeded
    descend entry.oid (some path) builder
  else do
    let name ← .mapErr .checkout (TreeName.new entry.name limits)
    let mode ← .mapErr .checkout (TreeEntryMode.fromGitMode entry.mode.bits)
    .mapErr .checkout (builder.addTreeEntry parent name ⟨mode, entry.oid⟩)

/-- The trees on the way from the root are `active`. A path never has more components than the
limit allows, so fuel for one level more is never used up. -/
def expandTree (limits : CheckoutLimits) : ℕ → List GitOid → GitOid → Option RelativePath →
    CheckoutPlanBuilder → Except WorkspaceError CheckoutPlanBuilder
  | 0, _, _, _, _ => .error .treeDepthExceeded
  | fuel + 1, active, tree, parent, builder => do
    .require (tree ∉ active) .treeDepthExceeded
    let object ← source.gitObject P tree
    .require (object.kind = .tree) (.wrongKind .tree object.kind)
    let entries ← .mapErr (fun _ => .wrongKind .tree object.kind) (parseTreeEntries object)
    entries.foldlM (expandTreeEntry limits parent (expandTree limits fuel (tree :: active))) builder

def planCommit (commit : GitOid) (limits : CheckoutLimits) :
    Except WorkspaceError CheckoutPlan := do
  let commitObject ← source.gitObject P commit
  .require (commitObject.kind = .commit) (.wrongKind .commit commitObject.kind)
  let rootTree ← .mapErr (fun _ => .wrongKind .commit commitObject.kind)
    (commitTreeOid commitObject)
  let builder ← source.expandTree P limits (limits.maxComponents + 1) [] rootTree none (.new limits)
  .ok builder.finish

def blobContentId (cache : Cache) (oid : GitOid) : Cache × Except WorkspaceError ContentId :=
  match source.contentId oid with
  | .error e => (cache, .error e)
  | .ok id =>
    match source.catalog.objectLocation id with
    | none => (cache, .error (.missingLocation id))
    | some location =>
      match source.lease location.generation with
      | .error e => (cache, .error e)
      | .ok () =>
        match hydrateBlobFromChunk P cache source.catalog id
            (source.chunks.lookup (location.generation, location.chunkId)) with
        | (cache, .error e) => (cache, .error (.hydration e))
        | (cache, .ok ()) => (cache, .ok id)

def blobBytes (oid : GitOid) : Except WorkspaceError Str := do
  let (_, record) ← source.recordFor P oid
  .require (record.kind = .blob) (.wrongKind .blob record.kind)
  .ok record.payload

def rawCheckoutSource : RawCheckoutSource WorkspaceError where
  blobContentId := source.blobContentId P
  blobBytes := source.blobBytes P
end ColdWorkspaceSource

section Unfolding
/-- A file, link or directory below some tree. -/
structure TreeItem where
  path : List Str
  mode : TreeMode
  oid : GitOid
  deriving DecidableEq

def TreeItem.under (name : Str) (item : TreeItem) : TreeItem :=
  { item with path := name :: item.path }

def unfoldEntry (below : GitOid → Option (List TreeItem)) (entry : GitTreeEntry) :
    Option (List TreeItem) :=
  if entry.mode = .directory then
    (below entry.oid).map fun items =>
      ⟨[entry.name], entry.mode, entry.oid⟩ :: items.map (·.under entry.name)
  else some [⟨[entry.name], entry.mode, entry.oid⟩]

def unfoldEntries (below : GitOid → Option (List TreeItem)) :
    List GitTreeEntry → Option (List TreeItem)
  | [] => some []
  | entry :: entries => do
    let here ← unfoldEntry below entry
    let rest ← unfoldEntries below entries
    some (here ++ rest)

/-- Everything below a tree, if no path is longer than `depth`. -/
def unfoldTree (read : GitOid → Option GitObject) : ℕ → GitOid → Option (List TreeItem)
  | 0, _ => none
  | depth + 1, tree => do
    let object ← read tree
    let entries ← (parseTreeEntries object).toOption
    unfoldEntries (unfoldTree read depth) entries

variable {read read' : GitOid → Option GitObject} {below below' : GitOid → Option (List TreeItem)}
  {entries : List GitTreeEntry} {items : List TreeItem} {tree : GitOid} {depth : ℕ}

theorem unfoldEntry_mono {entry : GitTreeEntry}
    (more : ∀ items, below entry.oid = some items → below' entry.oid = some items)
    (h : unfoldEntry below entry = some items) : unfoldEntry below' entry = some items := by
  unfold unfoldEntry at h ⊢
  split_ifs at h ⊢
  · obtain ⟨under, found, rfl⟩ := Option.map_eq_some_iff.mp h
    rw [more _ found, Option.map_some]
  · exact h

theorem unfoldEntries_mono
    (more : ∀ entry ∈ entries, ∀ items, below entry.oid = some items →
      below' entry.oid = some items)
    (h : unfoldEntries below entries = some items) : unfoldEntries below' entries = some items := by
  induction entries generalizing items with
  | nil => exact h
  | cons entry entries ih =>
    simp only [unfoldEntries, bind, Option.bind_eq_some_iff] at h ⊢
    obtain ⟨here, unfolded, rest, others, joined⟩ := h
    exact ⟨here, unfoldEntry_mono (more entry (by simp)) unfolded, rest,
      ih (fun other mem => more other (by simp [mem])) others, joined⟩

variable {S : GitOid → Prop}

/-- Two readers that agree on a set closed under tree entries unfold its trees alike. -/
theorem unfoldTree_agree
    (agree : ∀ oid object, S oid → read oid = some object → read' oid = some object)
    (closed : ∀ oid object entries, S oid → read oid = some object →
      parseTreeEntries object = .ok entries → ∀ entry ∈ entries, S entry.oid)
    (mem : S tree) (h : unfoldTree read depth tree = some items) :
    unfoldTree read' depth tree = some items := by
  induction depth generalizing tree items with
  | zero => simp [unfoldTree] at h
  | succ depth ih =>
    simp only [unfoldTree, bind, Option.bind_eq_some_iff, toOption_eq_some] at h ⊢
    obtain ⟨object, found, entries, parsed, unfolded⟩ := h
    refine ⟨object, agree tree object mem found, entries, parsed, ?_⟩
    refine unfoldEntries_mono (fun entry inside items => ?_) unfolded
    exact ih (closed tree object entries mem found parsed entry inside)

theorem mem_unfoldEntries
    (inside : ∀ entry ∈ entries, S entry.oid ∧ ∀ items, below entry.oid = some items →
      ∀ item ∈ items, S item.oid)
    (h : unfoldEntries below entries = some items) : ∀ item ∈ items, S item.oid := by
  induction entries generalizing items with
  | nil =>
    cases h
    simp
  | cons entry entries ih =>
    simp only [unfoldEntries, bind, Option.bind_eq_some_iff, Option.some.injEq] at h
    obtain ⟨here, unfolded, rest, others, rfl⟩ := h
    obtain ⟨own, deeper⟩ := inside entry (by simp)
    have first : ∀ item ∈ here, S item.oid := by
      unfold unfoldEntry at unfolded
      split_ifs at unfolded
      · obtain ⟨under, found, rfl⟩ := Option.map_eq_some_iff.mp unfolded
        simp only [forall_mem_cons, forall_mem_map]
        exact ⟨own, deeper under found⟩
      · cases unfolded
        simpa using own
    simp only [forall_mem_append]
    exact ⟨first, ih (fun other mem => inside other (by simp [mem])) others⟩

theorem unfoldTree_mem
    (closed : ∀ oid object entries, S oid → read oid = some object →
      parseTreeEntries object = .ok entries → ∀ entry ∈ entries, S entry.oid)
    (mem : S tree) (h : unfoldTree read depth tree = some items) :
    ∀ item ∈ items, S item.oid := by
  induction depth generalizing tree items with
  | zero => simp [unfoldTree] at h
  | succ depth ih =>
    simp only [unfoldTree, bind, Option.bind_eq_some_iff, toOption_eq_some] at h
    obtain ⟨object, found, entries, parsed, unfolded⟩ := h
    refine mem_unfoldEntries (fun entry inside => ?_) unfolded
    have next := closed tree object entries mem found parsed entry inside
    exact ⟨next, fun items => ih next⟩

theorem unfoldTree_succ (h : unfoldTree read depth tree = some items) :
    unfoldTree read (depth + 1) tree = some items := by
  induction depth generalizing tree items with
  | zero => simp [unfoldTree] at h
  | succ depth ih =>
    rw [unfoldTree]
    simp only [unfoldTree, bind, Option.bind_eq_some_iff] at h ⊢
    obtain ⟨object, found, entries, parsed, unfolded⟩ := h
    exact ⟨object, found, entries, parsed, unfoldEntries_mono (fun _ _ _ => ih) unfolded⟩

theorem unfoldTree_eq_none_of_succ (h : unfoldTree read (depth + 1) tree = none) :
    unfoldTree read depth tree = none := by
  cases below : unfoldTree read depth tree with
  | none => rfl
  | some items => simp [unfoldTree_succ below] at h
end Unfolding

section Planning
def TreeMode.entryMode : TreeMode → Option TreeEntryMode
  | .directory => none
  | .regular => some .regular
  | .executable => some .executable
  | .symlink => some .symlink
  | .gitlink => some .gitlink

/-- The entries that a plan has for these items below `above`. -/
def plannedLeaves (above : List Str) (items : List TreeItem) : List (List Str × PlannedObject) :=
  items.filterMap fun item =>
    item.mode.entryMode.map fun mode => (above ++ item.path, ⟨mode, item.oid⟩)

/-- No path is equal to another or above it. -/
def PrefixFree (leaves : List (List Str × PlannedObject)) : Prop :=
  leaves.Pairwise fun a b => ¬ a.1 <+: b.1 ∧ ¬ b.1 <+: a.1

/-- The item has a valid path below `above` that keeps to the limits. -/
def ItemWithin (limits : CheckoutLimits) (above : List TreeName) (item : TreeItem) : Prop :=
  ∃ components, components.map (·.bytes) = item.path ∧ PathWithin limits (above ++ components)

/-- The items can be planned below `above` after the leaves in `done`. -/
structure Plannable (limits : CheckoutLimits) (above : List TreeName) (items : List TreeItem)
    (done : List (List Str × PlannedObject)) : Prop where
  valid : ∀ item ∈ items, ItemWithin limits above item
  free : PrefixFree (done ++ plannedLeaves (above.map (·.bytes)) items)
  room : (done ++ plannedLeaves (above.map (·.bytes)) items).length ≤ limits.maxEntries

/-- The builder holds exactly the leaves in `done`. -/
structure Builds (limits : CheckoutLimits) (done : List (List Str × PlannedObject))
    (builder : CheckoutPlanBuilder) : Prop where
  limits_eq : builder.limits = limits
  lookup : ∀ path object, builder.entries.lookup path = some object ↔ (path.names, object) ∈ done
  count : builder.entries.keys.length = done.length

variable {limits : CheckoutLimits} {above : List TreeName} {items here rest : List TreeItem}
  {done : List (List Str × PlannedObject)} {builder : CheckoutPlanBuilder}

theorem plannedLeaves_append (above : List Str) (here rest : List TreeItem) :
    plannedLeaves above (here ++ rest) = plannedLeaves above here ++ plannedLeaves above rest := by
  simp [plannedLeaves]

theorem plannedLeaves_under (above : List Str) (name : Str) (items : List TreeItem) :
    plannedLeaves above (items.map (·.under name)) = plannedLeaves (above ++ [name]) items := by
  simp [plannedLeaves, filterMap_map, TreeItem.under]

theorem Plannable.left (h : Plannable limits above (here ++ rest) done) :
    Plannable limits above here done := by
  have free := h.free
  have room := h.room
  rw [plannedLeaves_append, ← append_assoc] at free room
  refine ⟨fun item mem => h.valid item (by simp [mem]), free.sublist (by simp), ?_⟩
  rw [length_append] at room
  omega

theorem Plannable.right (h : Plannable limits above (here ++ rest) done) :
    Plannable limits above rest (done ++ plannedLeaves (above.map (·.bytes)) here) := by
  have free := h.free
  have room := h.room
  rw [plannedLeaves_append, ← append_assoc] at free room
  exact ⟨fun item mem => h.valid item (by simp [mem]), free, room⟩

/-- Items of a subdirectory, seen from inside it. -/
theorem Plannable.under {name : TreeName}
    (h : Plannable limits above (items.map (·.under name.bytes)) done) :
    Plannable limits (above ++ [name]) items done := by
  have free := h.free
  have room := h.room
  rw [plannedLeaves_under] at free room
  refine ⟨?_, by simpa using free, by simpa using room⟩
  intro item mem
  obtain ⟨components, names, within⟩ := h.valid _ (mem_map_of_mem mem)
  cases components with
  | nil => simp [TreeItem.under] at names
  | cons first components =>
    simp only [TreeItem.under, map_cons, List.cons.injEq] at names
    obtain rfl := TreeName.bytes_injective names.1
    exact ⟨components, names.2, by simpa using within⟩

theorem builds_new (limits : CheckoutLimits) : Builds limits [] (.new limits) := by
  refine ⟨rfl, ?_, rfl⟩
  intro path object
  simp [new]

variable {path : RelativePath} {object : PlannedObject}

/-- An entry that was added stands behind the leaves in `done`. -/
theorem Builds.of_add {builder' : CheckoutPlanBuilder} (h : Builds limits done builder)
    (added : builder.add path object = .ok builder') :
    Builds limits (done ++ [(path.names, object)]) builder' := by
  obtain ⟨admits, limits', entries⟩ := add_eq_ok_iff.mp added
  have fresh := admits.fresh
  refine ⟨limits'.trans h.limits_eq, ?_, ?_⟩
  · intro other object'
    rw [entries, FinMap.lookup_insert_eq, mem_append, mem_singleton, Prod.mk.injEq]
    by_cases same : other = path
    · subst same
      have absent : (other.names, object') ∉ done := by
        intro mem
        exact fresh (FinMap.mem_of_lookup ((h.lookup _ _).mpr mem))
      rw [if_pos rfl, Option.some.injEq, or_iff_right absent, eq_comm, and_iff_right rfl]
    · rw [if_neg same, h.lookup, or_iff_left fun both => same (names_injective both.1)]
  · rw [entries, AList.keys_insert, erase_of_not_mem (by rwa [AList.mem_keys] at fresh),
      length_cons, h.count, length_append, length_singleton]

theorem Builds.add (h : Builds limits done builder) (within : PathWithin limits path.components)
    (free : PrefixFree (done ++ [(path.names, object)]))
    (room : done.length + 1 ≤ limits.maxEntries) :
    ∃ builder', builder.add path object = .ok builder' ∧
      Builds limits (done ++ [(path.names, object)]) builder' := by
  have apart : ∀ other ∈ builder.entries, ¬ other.names <+: path.names ∧
      ¬ path.names <+: other.names := by
    intro other mem
    obtain ⟨object', found⟩ := FinMap.exists_lookup mem
    exact (pairwise_append.mp free).2.2 _ ((h.lookup other object').mp found) _
      (mem_singleton_self _)
  have admits : builder.Admits path := by
    refine ⟨h.limits_eq ▸ within, fun mem => (apart path mem).1 (prefix_refl _),
      by rw [h.count, h.limits_eq]; exact room, ?_, ?_⟩
    · intro above higher mem
      exact (apart above mem).1 <| names_prefix higher
    · intro other mem higher
      exact (apart other mem).2 <| names_prefix higher
  obtain ⟨builder', added, _⟩ := add_of_admits object admits
  exact ⟨builder', added, h.of_add added⟩

/-- Expanding an unfolded tree at some level or deeper adds its leaves to any builder that has
room for them. -/
def Descends (limits : CheckoutLimits) (level : ℕ) (below : GitOid → Option (List TreeItem))
    (descend : PlanVisitor) : Prop :=
  ∀ oid items (path : RelativePath) done builder, below oid = some items →
    Plannable limits path.components items done → level ≤ path.components.length →
    path.components.length ≤ limits.maxComponents → Builds limits done builder →
    ∃ builder', descend oid (some path) builder = .ok builder' ∧
      Builds limits (done ++ plannedLeaves path.names items) builder'

variable {below : GitOid → Option (List TreeItem)} {parent : Option RelativePath}
  {descend : PlanVisitor}

theorem ItemWithin.name {mode : TreeMode} {oid : GitOid} {name : Str}
    (h : ItemWithin limits (RelativePath.above parent) ⟨[name], mode, oid⟩) :
    ∃ n path, n.bytes = name ∧ TreeName.new name limits = .ok n ∧
      RelativePath.child parent n limits = .ok path ∧
      path.components = RelativePath.above parent ++ [n] ∧ PathWithin limits path.components := by
  obtain ⟨components, names, within⟩ := h
  obtain ⟨n, rfl, same⟩ := map_eq_singleton_iff.mp names
  refine ⟨n, ⟨RelativePath.above parent ++ [n], by simp⟩, same,
    TreeName.new_eq_ok_iff.mpr ⟨same, ?_⟩, child_eq_ok_iff.mpr ⟨rfl, within⟩, rfl,
      within⟩
  rw [← same]
  exact within.names n (by simp)

theorem expandTreeEntry_builds {entry : GitTreeEntry}
    (descends : Descends limits ((RelativePath.above parent).length + 1) below descend)
    (unfolded : unfoldEntry below entry = some items)
    (plannable : Plannable limits (RelativePath.above parent) items done)
    (builds : Builds limits done builder) :
    ∃ builder', expandTreeEntry limits parent descend builder entry =
        .ok builder' ∧
      Builds limits (done ++ plannedLeaves ((RelativePath.above parent).map (·.bytes)) items)
        builder' := by
  unfold unfoldEntry at unfolded
  unfold expandTreeEntry
  split_ifs at unfolded ⊢ with directory
  · obtain ⟨inside, found, rfl⟩ := Option.map_eq_some_iff.mp unfolded
    obtain ⟨n, path, same, new, child, components, within⟩ :=
      (plannable.valid ⟨[entry.name], entry.mode, entry.oid⟩ (by simp)).name
    have split : plannedLeaves ((RelativePath.above parent).map (·.bytes))
        (⟨[entry.name], entry.mode, entry.oid⟩ :: inside.map (·.under entry.name)) =
          plannedLeaves path.names inside := by
      rw [← singleton_append, plannedLeaves_append, plannedLeaves_under, RelativePath.names,
        components, ← same]
      simp [plannedLeaves, directory, TreeMode.entryMode]
    have tail : Plannable limits (RelativePath.above parent ++ [n]) inside done := by
      rw [← singleton_append] at plannable
      have right := plannable.right
      rw [← same] at right
      simpa [plannedLeaves, directory, TreeMode.entryMode] using right.under
    obtain ⟨builder', done', built⟩ := descends entry.oid inside path done builder found
      (components ▸ tail) (by rw [components, length_append, length_singleton])
      within.depth builds
    refine ⟨builder', ?_, split ▸ built⟩
    simp only [new, child, mapErr_ok, ok_bind, require_pos within.depth, done']
  · cases unfolded
    obtain ⟨n, path, same, new, child, components, within⟩ :=
      (plannable.valid ⟨[entry.name], entry.mode, entry.oid⟩ (by simp)).name
    obtain ⟨mode, planned, decoded⟩ : ∃ mode, entry.mode.entryMode = some mode ∧
        TreeEntryMode.fromGitMode entry.mode.bits = .ok mode := by
      cases kind : entry.mode <;> first | exact absurd kind directory | exact ⟨_, rfl, rfl⟩
    have leaves : plannedLeaves ((RelativePath.above parent).map (·.bytes))
        [⟨[entry.name], entry.mode, entry.oid⟩] = [(path.names, ⟨mode, entry.oid⟩)] := by
      simp [plannedLeaves, planned, RelativePath.names, components, same]
    have free := plannable.free
    have room := plannable.room
    rw [leaves] at free room ⊢
    obtain ⟨builder', added, built⟩ := builds.add within free (by simpa using room)
    refine ⟨builder', ?_, built⟩
    simp only [new, decoded, mapErr_ok, ok_bind, addTreeEntry,
      builds.limits_eq, child, added]

theorem expandEntries_builds {entries : List GitTreeEntry}
    (descends : Descends limits ((RelativePath.above parent).length + 1) below descend)
    (unfolded : unfoldEntries below entries = some items)
    (plannable : Plannable limits (RelativePath.above parent) items done)
    (builds : Builds limits done builder) :
    ∃ builder', entries.foldlM (expandTreeEntry limits parent descend) builder =
        .ok builder' ∧
      Builds limits (done ++ plannedLeaves ((RelativePath.above parent).map (·.bytes)) items)
        builder' := by
  induction entries generalizing items done builder with
  | nil =>
    cases unfolded
    exact ⟨builder, rfl, by simpa [plannedLeaves] using builds⟩
  | cons entry entries ih =>
    simp only [unfoldEntries, bind, Option.bind_eq_some_iff, Option.some.injEq] at unfolded
    obtain ⟨here, first, rest, others, rfl⟩ := unfolded
    obtain ⟨builder₁, expanded, builds₁⟩ :=
      expandTreeEntry_builds descends first plannable.left builds
    obtain ⟨builder', folded, builds'⟩ := ih others plannable.right builds₁
    rw [append_assoc, ← plannedLeaves_append] at builds'
    exact ⟨builder', by rw [foldlM_cons, expanded]; exact folded, builds'⟩

/-- A tree that unfolds is expanded: cycles would not unfold, so `active` never stops it. -/
theorem expandTree_builds {P : Primitives} {source : ColdWorkspaceSource}
    {depth fuel : ℕ} {active : List GitOid} {tree : GitOid}
    (unfolds : unfoldTree (source.found P) depth tree = some items)
    (inactive : ∀ other ∈ active,
      unfoldTree (source.found P) depth other = none)
    (fueled : limits.maxComponents < fuel + (RelativePath.above parent).length)
    (shallow : (RelativePath.above parent).length ≤ limits.maxComponents)
    (plannable : Plannable limits (RelativePath.above parent) items done)
    (builds : Builds limits done builder) :
    ∃ builder', source.expandTree P limits fuel active tree parent builder = .ok builder' ∧
      Builds limits (done ++ plannedLeaves ((RelativePath.above parent).map (·.bytes)) items)
        builder' := by
  induction depth generalizing fuel active tree parent items done builder with
  | zero => simp [unfoldTree] at unfolds
  | succ depth ih =>
    cases earlier : unfoldTree (source.found P) depth tree with
    | some items' =>
      have same := (unfoldTree_succ earlier).symm.trans unfolds
      rw [Option.some.injEq] at same
      subst same
      exact ih earlier (fun other mem => unfoldTree_eq_none_of_succ (inactive other mem))
        fueled shallow plannable builds
    | none =>
      have notActive : tree ∉ active := by
        intro mem
        rw [inactive tree mem] at unfolds
        simp at unfolds
      simp only [unfoldTree, bind, Option.bind_eq_some_iff, toOption_eq_some] at unfolds
      obtain ⟨object, found, entries, parsed, unfolded⟩ := unfolds
      obtain ⟨fuel, rfl⟩ : ∃ k, fuel = k + 1 := ⟨fuel - 1, by omega⟩
      have descends : Descends limits ((RelativePath.above parent).length + 1)
          (unfoldTree (source.found P) depth)
          (source.expandTree P limits fuel (tree :: active)) := by
        intro oid inside path done builder unfolds plannable level deep builds
        refine ih unfolds ?_ (by rw [RelativePath.above]; omega) deep plannable builds
        intro other mem
        rcases mem_cons.mp mem with rfl | mem
        · exact earlier
        · exact unfoldTree_eq_none_of_succ (inactive other mem)
      obtain ⟨builder', folded, built⟩ := expandEntries_builds descends unfolded plannable builds
      refine ⟨builder', ?_, built⟩
      simp only [expandTree, require_pos notActive, found, require_pos
        (kind_of_parseTreeEntries parsed), parsed, mapErr_ok, ok_bind, folded]

theorem planCommit_builds {P : Primitives} {source : ColdWorkspaceSource} {commit : GitObject}
    {tree : GitOid} {depth : ℕ} (read : source.gitObject P commit.oid = .ok commit)
    (root : commitTreeOid commit = .ok tree)
    (unfolds : unfoldTree (source.found P) depth tree = some items)
    (plannable : Plannable limits [] items []) :
    ∃ builder, source.planCommit P commit.oid limits = .ok builder.finish ∧
      Builds limits (plannedLeaves [] items) builder := by
  have kind : commit.kind = .commit := by
    simp only [commitTreeOid, bind_eq_ok_iff, exists_require] at root
    exact root.1
  have expands : ∃ builder, source.expandTree P limits (limits.maxComponents + 1) [] tree none
        (.new limits) = .ok builder ∧
      Builds limits ([] ++ plannedLeaves ((RelativePath.above none).map (·.bytes)) items) builder :=
    expandTree_builds unfolds (by simp) (by simp [RelativePath.above])
      (by simp [RelativePath.above])
      plannable (builds_new limits)
  obtain ⟨builder, expanded, builds⟩ := expands
  refine ⟨builder, ?_, builds⟩
  simp only [planCommit, read, ok_bind, require_pos kind, root,
    mapErr_ok, expanded]
end Planning
end ReflinkForest
