import ReflinkForest.Workspace.PublicationSafety

/-! Whether a restart recovers: the reconciliation succeeds and leaves exactly the directories of
the ready workspaces. -/
namespace ReflinkForest
open Bytes List AList

variable {s s' s₀ : WorkspaceInstance} {manifest m : WorkspaceManifest} {stage : Staging}
  {id : WorkspaceId} {name : Str} {manifests : List WorkspaceManifest}

/-- The next restart succeeds, and then a manifest has a directory when its workspace is ready. -/
def Recovers (s : WorkspaceInstance) : Prop :=
  ∃ s' result, reconcileWorkspacePublications none s = (s', .ok result) ∧
    ∀ id m, s'.manifests.lookup id = some m →
      (m.name ∈ s'.directories ↔ loadReadyWorkspace s'.catalog s'.manifests id = .ok (some m))

/-- No two manifests carry one name. -/
def Distinct (s : WorkspaceInstance) : Prop :=
  ∀ id id' m m', s.manifests.lookup id = some m → s.manifests.lookup id' = some m' →
    m.name = m'.name → id = id'

/-- Ready workspaces have their directory. -/
def Visible (s : WorkspaceInstance) : Prop :=
  ∀ id m, s.manifests.lookup id = some m → Published s.catalog id m → m.name ∈ s.directories

theorem mem_withdrawWorkspace : name ∈ (s.withdrawWorkspace m).directories ↔
    name ≠ m.name ∧ name ∈ s.directories := by
  rw [← lookup_isSome, ← lookup_isSome, withdrawWorkspace_lookup]
  split_ifs with same <;> simp [same]

theorem withdrawWorkspace_of_absent (absent : m.name ∉ s.directories) :
    s.withdrawWorkspace m = s := by
  unfold WorkspaceInstance.withdrawWorkspace
  rw [AList.lookup_eq_none.mpr absent]

theorem loadReadyWorkspace_unready (inv : Consistent s) (found : s.manifests.lookup id = some m)
    (unready : ¬ Published s.catalog id m) :
    loadReadyWorkspace s.catalog s.manifests id = .ok none := by
  have unpinned : s.catalog.workspacePin id = none := by
    rw [Option.eq_none_iff_forall_ne_some]
    intro generation pin
    obtain ⟨m', found', published⟩ := inv.pinned id generation pin
    rw [found, Option.some.injEq] at found'
    exact unready (found' ▸ published)
  unfold loadReadyWorkspace
  rw [unpinned]
  split
  · rename_i pinned
    cases pinned
  · rfl

theorem reconcileManifest_ready (result : WorkspacePublicationReconciliation)
    (found : s.manifests.lookup manifest.workspaceId = some manifest)
    (published : Published s.catalog manifest.workspaceId manifest) :
    ∃ outcome, reconcileManifest s result manifest = (s, outcome) ∧
      (outcome.isOk ↔ manifest.name ∈ s.directories) := by
  unfold reconcileManifest
  simp only [loadReadyWorkspace_eq_some_iff.mpr ⟨found, published⟩]
  split_ifs with visible
  · exact ⟨_, rfl, iff_of_true rfl visible⟩
  · exact ⟨_, rfl, iff_of_false Bool.false_ne_true visible⟩

theorem reconcileManifest_unready (inv : Consistent s) (result : WorkspacePublicationReconciliation)
    (found : s.manifests.lookup manifest.workspaceId = some manifest)
    (unready : ¬ Published s.catalog manifest.workspaceId manifest) :
    ∃ result', reconcileManifest s result manifest = (s.withdrawWorkspace manifest,
      .ok result') := by
  unfold reconcileManifest
  simp only [loadReadyWorkspace_unready inv found unready]
  split_ifs with visible
  · exact ⟨_, rfl⟩
  · exact ⟨_, by rw [withdrawWorkspace_of_absent visible]⟩

theorem Distinct.congr (distinct : Distinct s) (manifests : s'.manifests = s.manifests) :
    Distinct s' := by
  unfold Distinct
  rw [manifests]
  exact distinct

theorem Visible.withdraw (visible : Visible s) (distinct : Distinct s)
    (found : s.manifests.lookup id = some m) (unready : ¬ Published s.catalog id m) :
    Visible (s.withdrawWorkspace m) := by
  intro other m' found' published
  simp only [withdrawWorkspace_catalog, withdrawWorkspace_manifests] at found' published
  refine mem_withdrawWorkspace.mpr ⟨?_, visible other m' found' published⟩
  intro sameName
  obtain rfl := distinct other id m' m found' found sameName
  rw [found, Option.some.injEq] at found'
  exact unready (found' ▸ published)

theorem Visible.reconcileManifest (visible : Visible s) (inv : Consistent s) (distinct : Distinct s)
    (result : WorkspacePublicationReconciliation)
    (found : s.manifests.lookup manifest.workspaceId = some manifest) :
    Visible (reconcileManifest s result manifest).1 := by
  by_cases ready : Published s.catalog manifest.workspaceId manifest
  · obtain ⟨_, step, _⟩ := reconcileManifest_ready result found ready
    rw [step]
    exact visible
  · obtain ⟨_, step⟩ := reconcileManifest_unready inv result found ready
    rw [step]
    exact visible.withdraw distinct found ready

/-- However far the loop gets, the ready workspaces stay visible. -/
theorem Visible.reconcileLoop {stop : Option ℕ} (visible : Visible s) (inv : Consistent s)
    (distinct : Distinct s) (result : WorkspacePublicationReconciliation)
    (listed : ∀ m ∈ manifests, s.manifests.lookup m.workspaceId = some m) :
    Visible (reconcileLoop stop s result manifests).1 := by
  refine (reconcileLoop_keeps (Q := fun s' => Reconciled s s' ∧ Visible s') result
    ⟨⟨rfl, rfl⟩, visible⟩ ?_).2
  rintro manifest mem s' result ⟨same, visible⟩
  exact ⟨same.trans (reconcileManifest_reconciled result), visible.reconcileManifest
    (inv.reconcile same) (distinct.congr same.manifests) result
    (same.manifests ▸ listed manifest mem)⟩

theorem reconcileLoop_cons (result : WorkspacePublicationReconciliation) :
    reconcileLoop none s result (manifest :: manifests) =
      match reconcileManifest s result manifest with
      | (s, .error e) => (s, .error e)
      | (s, .ok result) => reconcileLoop none s result manifests := by
  rewrite [ReflinkForest.reconcileLoop, if_neg (by simp)]
  rcases reconcileManifest s result manifest with ⟨_, _ | _⟩ <;> rfl

theorem listed_withdrawWorkspace
    (listed : ∀ m ∈ manifest :: manifests, s.manifests.lookup m.workspaceId = some m) :
    ∀ m ∈ manifests, (s.withdrawWorkspace manifest).manifests.lookup m.workspaceId = some m := by
  intro m mem
  rw [withdrawWorkspace_manifests]
  exact listed m (mem_cons_of_mem _ mem)

/-- The loop ends well when it finds every ready directory. -/
theorem reconcileLoop_isOk_iff (inv : Consistent s) (distinct : Distinct s)
    (result : WorkspacePublicationReconciliation)
    (listed : ∀ m ∈ manifests, s.manifests.lookup m.workspaceId = some m) :
    (reconcileLoop none s result manifests).2.isOk ↔
      ∀ m ∈ manifests, Published s.catalog m.workspaceId m → m.name ∈ s.directories := by
  induction manifests generalizing s result with
  | nil => exact iff_of_true rfl (by simp)
  | cons manifest manifests ih =>
    have found := listed _ mem_cons_self
    rw [reconcileLoop_cons, forall_mem_cons]
    by_cases ready : Published s.catalog manifest.workspaceId manifest
    · obtain ⟨outcome, step, visible⟩ := reconcileManifest_ready result found ready
      rw [step]
      cases outcome with
      | error e =>
        exact iff_of_false Bool.false_ne_true fun h => Bool.false_ne_true (visible.mpr (h.1 ready))
      | ok result' =>
        rw [ih inv distinct result' fun m mem => listed m (mem_cons_of_mem _ mem)]
        exact ⟨fun rest => ⟨fun _ => visible.mp rfl, rest⟩, fun h => h.2⟩
    · obtain ⟨result', step⟩ := reconcileManifest_unready inv result found ready
      rw [step]
      simp only
      rw [ih (inv.congr withdrawWorkspace_catalog withdrawWorkspace_manifests)
        (distinct.congr withdrawWorkspace_manifests) result' (listed_withdrawWorkspace listed)]
      simp only [withdrawWorkspace_catalog, mem_withdrawWorkspace, ready, false_imp_iff, true_and]
      refine forall₃_congr fun m mem published => and_iff_right ?_
      intro sameName
      have found' := listed m (mem_cons_of_mem _ mem)
      have sameId := distinct _ _ _ _ found' found sameName
      rw [sameId, found, Option.some.injEq] at found'
      exact ready (found' ▸ published)

theorem reconcileLoop_directories (inv : Consistent s) (result : WorkspacePublicationReconciliation)
    (listed : ∀ m ∈ manifests, s.manifests.lookup m.workspaceId = some m)
    (kept : name ∈ (reconcileLoop none s result manifests).1.directories) :
    name ∈ s.directories ∧ ((reconcileLoop none s result manifests).2.isOk →
      ∀ m ∈ manifests, m.name = name → Published s.catalog m.workspaceId m) := by
  induction manifests generalizing s result with
  | nil => exact ⟨kept, by simp⟩
  | cons manifest manifests ih =>
    have found := listed _ mem_cons_self
    rw [reconcileLoop_cons] at kept ⊢
    rw [forall_mem_cons]
    by_cases ready : Published s.catalog manifest.workspaceId manifest
    · obtain ⟨outcome, step, _⟩ := reconcileManifest_ready result found ready
      rw [step] at kept ⊢
      cases outcome with
      | error e => exact ⟨kept, fun h => absurd h Bool.false_ne_true⟩
      | ok result' =>
        obtain ⟨before, rest⟩ :=
          ih inv result' (fun m mem => listed m (mem_cons_of_mem _ mem)) kept
        exact ⟨before, fun done => ⟨fun _ => ready, rest done⟩⟩
    · obtain ⟨result', step⟩ := reconcileManifest_unready inv result found ready
      rw [step] at kept ⊢
      obtain ⟨before, rest⟩ := ih (inv.congr withdrawWorkspace_catalog withdrawWorkspace_manifests)
        result' (listed_withdrawWorkspace listed) kept
      obtain ⟨different, before⟩ := mem_withdrawWorkspace.mp before
      rw [withdrawWorkspace_catalog] at rest
      exact ⟨before, fun done => ⟨fun same => absurd same.symm different, rest done⟩⟩

theorem mem_manifestList_iff (inv : Consistent s) :
    m ∈ s.manifestList ↔ s.manifests.lookup m.workspaceId = some m := by
  refine ⟨mem_manifestList inv, fun found => ?_⟩
  exact mem_map.mpr ⟨(m.workspaceId, m), FinMap.mem_sortedBy.mpr found, rfl⟩

theorem recovers_iff (inv : Consistent s) (distinct : Distinct s) :
    Recovers s ↔ s.manifestList.length ≤ maxWorkspacePublicationReconciliation ∧ Visible s := by
  have listed : ∀ m ∈ s.manifestList, s.manifests.lookup m.workspaceId = some m :=
    fun m mem => mem_manifestList inv mem
  have visible_iff : Visible s ↔ ∀ m ∈ s.manifestList, Published s.catalog m.workspaceId m →
      m.name ∈ s.directories := by
    constructor
    · exact fun visible m mem => visible _ m (listed m mem)
    · intro visible id m found published
      rw [← published.own] at found published
      exact visible m ((mem_manifestList_iff inv).mpr found) published
  unfold Recovers reconcileWorkspacePublications
  split_ifs with many
  · simp [Nat.not_le.mpr many]
  have done := reconcileLoop_isOk_iff inv distinct {} listed
  rw [← visible_iff] at done
  rw [← done]
  constructor
  · rintro ⟨s', result, reconciled, _⟩
    exact ⟨Nat.not_lt.mp many, by rw [reconciled]; rfl⟩
  · rintro ⟨_, ok⟩
    have same : Reconciled s (reconcileLoop none s {} s.manifestList).1 :=
      reconcileLoop_reconciled _ _ _
    have visible : Visible (reconcileLoop none s {} s.manifestList).1 :=
      (done.mp ok).reconcileLoop inv distinct {} listed
    obtain ⟨result, isOk⟩ := Except.exists_ok_of_toBool ok
    refine ⟨_, result, Prod.ext rfl isOk, ?_⟩
    intro id m found
    rw [loadReadyWorkspace_eq_some_iff, and_iff_right found]
    refine ⟨fun shown => ?_, visible id m found⟩
    rw [same.manifests] at found
    have own := inv.own id m found
    subst own
    rw [same.catalog]
    exact (reconcileLoop_directories inv {} listed shown).2 ok m
      ((mem_manifestList_iff inv).mpr found) rfl

section Checkout
/-- A new manifest file is not that of a ready workspace. -/
theorem Visible.ensured {manifests : WorkspaceManifests} (visible : Visible s)
    (inv : Consistent s) (h : ensureWorkspaceManifest s.manifests manifest = .ok manifests) :
    Visible { s with manifests := manifests } := by
  intro id m found published
  obtain ⟨_, others, before⟩ := ensureWorkspaceManifest_eq_ok h
  obtain ⟨m', found', _⟩ := inv.pinned id _ published.pin
  obtain rfl : m' = m := by
    by_cases same : id = manifest.workspaceId
    · subst same
      rcases before with absent | ⟨_, rfl⟩
      · simp [absent] at found'
      · simpa [found'] using found
    · rw [others id same, found', Option.some.injEq] at found
      exact found
  exact visible id m' found' published

theorem Visible.shown (visible : Visible s) :
    Visible { s with directories := s.directories.insert name stage } := by
  intro id m found published
  exact (mem_insert _).mpr (.inr (visible id m found published))

variable {catalog : InMemoryCatalog} {bytes : Str}

theorem Published.of_readyBatch {catalog' : InMemoryCatalog}
    (applied : catalog.apply (readyBatch manifest bytes) = .ok catalog')
    (different : id ≠ manifest.workspaceId) (published : Published catalog' id m) :
    Published catalog id m := by
  obtain ⟨workspace, workspaceName, workspacePin⟩ := readyBatch_applied applied
  obtain ⟨own, encodes, record, pin, named⟩ := published
  rw [workspace, if_neg different] at record
  rw [workspacePin, if_neg different] at pin
  rw [workspaceName] at named
  split_ifs at named
  · exact absurd (Option.some.inj named).symm different
  · exact ⟨own, encodes, record, pin, named⟩

theorem Visible.persisted (visible : Visible s)
    (found : s.manifests.lookup manifest.workspaceId = some manifest)
    (shown : manifest.name ∈ s.directories)
    (applied : s.catalog.apply (readyBatch manifest bytes) = .ok catalog) :
    Visible { s with catalog := catalog } := by
  intro id m found' published
  by_cases same : id = manifest.workspaceId
  · rw [same, found, Option.some.injEq] at found'
    exact found' ▸ shown
  · exact visible id m found' (published.of_readyBatch applied same)

theorem Visible.checkout (visible : Visible s) (inv : Consistent s)
    (effect : CheckoutEffect s manifest stage s') : Visible s' := by
  cases effect with
  | nothing => exact visible
  | wrote ensured => exact visible.ensured inv ensured
  | shown ensured _ => exact (visible.ensured inv ensured).shown
  | @ready _ _ _ _ ensured _ persisted =>
    have found := (ensureWorkspaceManifest_eq_ok ensured).1
    obtain ⟨rfl, _, _, ⟨rfl, _⟩ | ⟨_, applied⟩⟩ := persistReadyWorkspace_eq_ok found persisted
    · exact (visible.ensured inv ensured).shown
    · exact (visible.ensured inv ensured).shown.persisted found
        ((mem_insert _).mpr (.inl rfl)) applied
  | @rolledBack _ _ _ ensured absent refused =>
    intro id m found published
    have before : m.name ∈ s.directories := (visible.ensured inv ensured) id m found published
    have different : m.name ≠ manifest.name := fun same => absent (same ▸ before)
    exact mem_erase.mpr ⟨different, (mem_insert _).mpr (.inr before)⟩
end Checkout

section Deletion
variable {catalog : InMemoryCatalog} {fault : DeleteFault}

theorem Published.of_deletePin {catalog' : InMemoryCatalog}
    (applied : catalog.apply [.deleteWorkspacePin id] = .ok catalog') {other : WorkspaceId}
    (published : Published catalog' other m) : other ≠ id ∧ Published catalog other m := by
  obtain ⟨workspace, workspaceName, workspacePin⟩ := deletePin_applied applied
  obtain ⟨own, encodes, record, pin, named⟩ := published
  rw [workspacePin] at pin
  split_ifs at pin with same
  exact ⟨same, own, encodes, workspace other ▸ record, pin, workspaceName m.name ▸ named⟩

theorem Visible.released (visible : Visible s) (published : Published s.catalog id m)
    (applied : s.catalog.apply [.deleteWorkspacePin id] = .ok catalog) :
    Visible { s.withdrawWorkspace m with catalog := catalog, manifests := s.manifests } := by
  intro other m' found after
  obtain ⟨different, before⟩ := after.of_deletePin applied
  refine mem_withdrawWorkspace.mpr ⟨?_, visible other m' found before⟩
  intro sameName
  have named := before.name
  rw [sameName, published.name, Option.some.injEq] at named
  exact different named.symm

theorem Visible.erased (visible : Visible s) :
    Visible { s with manifests := s.manifests.erase id } := by
  intro other m found published
  rw [FinMap.lookup_erase_eq] at found
  split_ifs at found
  exact visible other m found published

/-- The deletion of a ready workspace stops after its directory was hidden. -/
def DeleteFault.HidesReady (fault : DeleteFault) (s : WorkspaceInstance) (id : WorkspaceId) :
    Prop :=
  fault = .withdrawn ∧ ∃ m, loadReadyWorkspace s.catalog s.manifests id = .ok (some m)

/-- Workspaces became ready only in a catalog that takes batches. -/
def Writable (catalog : InMemoryCatalog) : Prop :=
  ∀ id generation, catalog.workspacePin id = some generation →
    catalog.objectLocationRebuildInProgress = false

theorem deletePersistedWorkspace_unready (fault : DeleteFault)
    (unready : ∀ m, loadReadyWorkspace s.catalog s.manifests id ≠ .ok (some m)) :
    (deletePersistedWorkspace fault s id).1 = s := by
  unfold deletePersistedWorkspace
  split
  · rfl
  · rfl
  · rename_i loaded
    exact absurd loaded (unready _)

theorem deletePersistedWorkspace_ready (fault : DeleteFault) (writable : Writable s.catalog)
    (loaded : loadReadyWorkspace s.catalog s.manifests id = .ok (some m)) :
    ∃ catalog, s.catalog.apply [.deleteWorkspacePin id] = .ok catalog ∧
      (deletePersistedWorkspace fault s id).1 =
        match fault with
        | .beforeWithdrawal => s
        | .withdrawn => s.withdrawWorkspace m
        | .unpinned => { s.withdrawWorkspace m with catalog := catalog, manifests := s.manifests }
        | .none =>
          { s.withdrawWorkspace m with catalog := catalog, manifests := s.manifests.erase id } := by
  have published := (loadReadyWorkspace_eq_some_iff.mp loaded).2
  have applied : s.catalog.apply [.deleteWorkspacePin id] = _ :=
    InMemoryCatalog.apply_of_no_conflict (writable id _ published.pin) rfl
      (by simp [InMemoryCatalog.aliasConflict])
  refine ⟨_, applied, ?_⟩
  unfold deletePersistedWorkspace
  simp only [loaded, withdrawWorkspace_catalog, withdrawWorkspace_manifests, applied]
  cases fault <;> simp

theorem Visible.delete (visible : Visible s) (writable : Writable s.catalog)
    (safe : ¬ fault.HidesReady s id) : Visible (deletePersistedWorkspace fault s id).1 := by
  by_cases ready : ∃ m, loadReadyWorkspace s.catalog s.manifests id = .ok (some m)
  · obtain ⟨m, loaded⟩ := ready
    have published := (loadReadyWorkspace_eq_some_iff.mp loaded).2
    obtain ⟨catalog, applied, step⟩ := deletePersistedWorkspace_ready fault writable loaded
    rw [step]
    cases fault with
    | beforeWithdrawal => exact visible
    | withdrawn => exact absurd ⟨rfl, m, loaded⟩ safe
    | unpinned => exact visible.released published applied
    | none => exact (visible.released published applied).erased
  · rw [deletePersistedWorkspace_unready fault (not_exists.mp ready)]
    exact visible

/-- A hidden workspace that is still ready stays missing. -/
theorem not_visible_of_hidesReady (writable : Writable s.catalog) (hides : fault.HidesReady s id) :
    ¬ Visible (deletePersistedWorkspace fault s id).1 := by
  obtain ⟨rfl, m, loaded⟩ := hides
  obtain ⟨found, published⟩ := loadReadyWorkspace_eq_some_iff.mp loaded
  obtain ⟨_, _, step⟩ := deletePersistedWorkspace_ready .withdrawn writable loaded
  simp only at step
  rw [step]
  intro visible
  have shown := visible id m (by rwa [withdrawWorkspace_manifests])
    (by rwa [withdrawWorkspace_catalog])
  exact (mem_withdrawWorkspace.mp shown).1 rfl

theorem Writable.persisted {batch : List Operation} {before : InMemoryCatalog}
    (applied : before.apply batch = .ok catalog) : Writable catalog :=
  fun _ _ _ => InMemoryCatalog.apply_rebuild applied

theorem Writable.checkout (writable : Writable s.catalog)
    (effect : CheckoutEffect s manifest stage s') : Writable s'.catalog := by
  cases effect with
  | nothing | wrote _ | shown _ _ | rolledBack _ _ _ => exact writable
  | ready ensured _ persisted =>
    have found := (ensureWorkspaceManifest_eq_ok ensured).1
    obtain ⟨_, _, _, ⟨rfl, _⟩ | ⟨_, applied⟩⟩ := persistReadyWorkspace_eq_ok found persisted
    · exact writable
    · exact .persisted applied

theorem Writable.delete (writable : Writable s.catalog) (effect : DeleteEffect s id s') :
    Writable s'.catalog := by
  cases effect with
  | nothing => exact writable
  | withdrawn _ => rwa [withdrawWorkspace_catalog]
  | released _ applied | removed _ applied => exact .persisted applied
end Deletion

section Histories
/-- Requests for the same workspace carry the same name, and others another one. -/
def Unambiguous (used : List (WorkspaceId × Str)) (request : PersistedWorkspaceCheckoutRequest) :
    Prop :=
  ∀ e ∈ used, e.1 = request.manifest.workspaceId ↔ e.2 = request.name.bytes

/-- Checkouts with distinct IDs and names, deletions and restarts, cut short anywhere except
where a deletion hides a ready workspace. -/
inductive WorkspaceHistory (P : Primitives) (s₀ : WorkspaceInstance) :
    List (WorkspaceId × Str) → WorkspaceInstance → Prop
  | start : WorkspaceHistory P s₀ [] s₀
  | checkout {used : List (WorkspaceId × Str)} {s : WorkspaceInstance}
      (history : WorkspaceHistory P s₀ used s) (chunks : ChunkStore) (cache : Cache)
      (fault : CheckoutFault) (request : PersistedWorkspaceCheckoutRequest)
      (unambiguous : Unambiguous used request) :
      WorkspaceHistory P s₀ ((request.manifest.workspaceId, request.name.bytes) :: used)
        (checkoutColdCommitAndPersist P chunks cache fault request s).1
  | delete {used : List (WorkspaceId × Str)} {s : WorkspaceInstance}
      (history : WorkspaceHistory P s₀ used s) (fault : DeleteFault) (id : WorkspaceId)
      (safe : ¬ fault.HidesReady s id) :
      WorkspaceHistory P s₀ used (deletePersistedWorkspace fault s id).1
  | restart {used : List (WorkspaceId × Str)} {s : WorkspaceInstance}
      (history : WorkspaceHistory P s₀ used s) (stop : Option ℕ) :
      WorkspaceHistory P s₀ used (reconcileWorkspacePublications stop s).1

/-- What every such history keeps. -/
structure Operational (used : List (WorkspaceId × Str)) (s : WorkspaceInstance) : Prop where
  consistent : Consistent s
  paired : ∀ e ∈ used, ∀ e' ∈ used, e.1 = e'.1 ↔ e.2 = e'.2
  listed : ∀ id m, s.manifests.lookup id = some m → (id, m.name) ∈ used
  visible : Visible s
  writable : Writable s.catalog

variable {P : Primitives} {used : List (WorkspaceId × Str)}

theorem Operational.distinct (inv : Operational used s) : Distinct s := by
  intro id id' m m' found found' sameName
  exact (inv.paired _ (inv.listed id m found) _ (inv.listed id' m' found')).mpr sameName

theorem WorkspaceInstance.Empty.operational (empty : s.Empty) : Operational [] s := by
  refine ⟨empty.consistent, by simp, ?_, ?_, ?_⟩
  · intro id m found
    simp [empty.manifests] at found
  · intro id m found
    simp [empty.manifests] at found
  · intro id generation pin
    simp [InMemoryCatalog.workspacePin, empty.pins] at pin

variable {request : PersistedWorkspaceCheckoutRequest}

theorem Unambiguous.paired (unambiguous : Unambiguous used request)
    (paired : ∀ e ∈ used, ∀ e' ∈ used, e.1 = e'.1 ↔ e.2 = e'.2) :
    ∀ e ∈ (request.manifest.workspaceId, request.name.bytes) :: used,
      ∀ e' ∈ (request.manifest.workspaceId, request.name.bytes) :: used, e.1 = e'.1 ↔
        e.2 = e'.2 := by
  intro e mem e' member'
  rcases mem_cons.mp mem with rfl | old <;> rcases mem_cons.mp member' with rfl | old'
  · simp
  · simpa [eq_comm] using unambiguous e' old'
  · exact unambiguous e old
  · exact paired e old e' old'

/-- A checkout leaves the manifests it found and perhaps its own. -/
theorem CheckoutEffect.manifest_of_lookup (effect : CheckoutEffect s manifest stage s')
    (found : s'.manifests.lookup id = some m) :
    s.manifests.lookup id = some m ∨ id = manifest.workspaceId ∧ m = manifest := by
  have of_ensured : ∀ {manifests : WorkspaceManifests},
      ensureWorkspaceManifest s.manifests manifest = .ok manifests →
      manifests.lookup id = some m →
      s.manifests.lookup id = some m ∨ id = manifest.workspaceId ∧ m = manifest := by
    intro manifests ensured found
    obtain ⟨own, others, _⟩ := ensureWorkspaceManifest_eq_ok ensured
    by_cases same : id = manifest.workspaceId
    · rw [same, own, Option.some.injEq] at found
      exact .inr ⟨same, found.symm⟩
    · exact .inl ((others id same).symm.trans found)
  cases effect with
  | nothing => exact .inl found
  | wrote ensured | shown ensured _ | rolledBack ensured _ _ => exact of_ensured ensured found
  | ready ensured _ persisted =>
    obtain ⟨rfl, _⟩ := persistReadyWorkspace_eq_ok (ensureWorkspaceManifest_eq_ok ensured).1
      persisted
    exact of_ensured ensured found

theorem DeleteEffect.manifests_eq (effect : DeleteEffect s id s') :
    s'.manifests = s.manifests ∨ s'.manifests = s.manifests.erase id := by
  cases effect with
  | nothing | released _ _ => exact .inl rfl
  | withdrawn _ => exact .inl withdrawWorkspace_manifests
  | removed _ _ => exact .inr rfl

theorem DeleteEffect.lookup_of_lookup {other : WorkspaceId} (effect : DeleteEffect s id s')
    (found : s'.manifests.lookup other = some m) : s.manifests.lookup other = some m := by
  rcases effect.manifests_eq with same | erased
  · exact same ▸ found
  · rw [erased, FinMap.lookup_erase_eq] at found
    split_ifs at found
    exact found

theorem Operational.checkout {chunks : ChunkStore} {cache : Cache} {fault : CheckoutFault}
    (inv : Operational used s) (unambiguous : Unambiguous used request) :
    Operational ((request.manifest.workspaceId, request.name.bytes) :: used)
      (checkoutColdCommitAndPersist P chunks cache fault request s).1 := by
  have paired := unambiguous.paired inv.paired
  have older : ∀ id m, s.manifests.lookup id = some m →
      (id, m.name) ∈ (request.manifest.workspaceId, request.name.bytes) :: used :=
    fun id m found => mem_cons_of_mem _ (inv.listed id m found)
  rcases checkoutColdCommitAndPersist_effect fault with same | ⟨manifest, stage, prepared, effect⟩
  · rw [same]
    exact ⟨inv.consistent, paired, older, inv.visible, inv.writable⟩
  · obtain ⟨sameId, named, _, _⟩ := prepareCheckout_eq_ok prepared
    refine ⟨inv.consistent.checkout effect, paired, ?_, inv.visible.checkout inv.consistent effect,
      inv.writable.checkout effect⟩
    intro id m found
    rcases effect.manifest_of_lookup found with before | ⟨rfl, rfl⟩
    · exact older id m before
    · rw [sameId, named]
      exact mem_cons_self

theorem Operational.delete {fault : DeleteFault} (inv : Operational used s)
    (safe : ¬ fault.HidesReady s id) :
    Operational used (deletePersistedWorkspace fault s id).1 := by
  have effect : DeleteEffect s id _ := deletePersistedWorkspace_effect fault
  refine ⟨inv.consistent.delete effect, inv.paired, ?_, inv.visible.delete inv.writable safe,
    inv.writable.delete effect⟩
  exact fun other m found => inv.listed other m (effect.lookup_of_lookup found)

theorem Operational.restart (inv : Operational used s) (stop : Option ℕ) :
    Operational used (reconcileWorkspacePublications stop s).1 := by
  have same : Reconciled s _ := reconcileWorkspacePublications_reconciled stop
  refine ⟨inv.consistent.reconcile same, inv.paired, same.manifests ▸ inv.listed, ?_,
    same.catalog ▸ inv.writable⟩
  unfold reconcileWorkspacePublications
  split_ifs
  · exact inv.visible
  · exact inv.visible.reconcileLoop inv.consistent inv.distinct _ fun m mem =>
      mem_manifestList inv.consistent mem

theorem WorkspaceHistory.operational (empty : s₀.Empty) (history : WorkspaceHistory P s₀ used s) :
    Operational used s := by
  induction history with
  | start => exact empty.operational
  | checkout _ _ _ _ _ unambiguous ih => exact ih.checkout unambiguous
  | delete _ _ _ safe ih => exact ih.delete safe
  | restart _ stop ih => exact ih.restart stop

theorem manifestList_length : s.manifestList.length = s.manifests.entries.length := by
  simp [WorkspaceInstance.manifestList, FinMap.sortedBy]

theorem DeleteEffect.manifestList_length_le (effect : DeleteEffect s id s') :
    s'.manifestList.length ≤ s.manifestList.length := by
  rw [manifestList_length, manifestList_length]
  rcases effect.manifests_eq with same | erased
  · rw [same]
  · rw [erased]
    exact (kerase_sublist _ _).length_le

/-- After a checkout that stopped anywhere a restart recovers unless the checkout left one manifest
too many. After a deletion it recovers unless the deletion stopped with the directory hidden and the
workspace still ready. -/
theorem workspaceHistory_recovers_iff (empty : s₀.Empty) (history : WorkspaceHistory P s₀ used s)
    (few : s.manifestList.length ≤ maxWorkspacePublicationReconciliation) :
    (∀ chunks cache fault request, Unambiguous used request →
      (Recovers (checkoutColdCommitAndPersist P chunks cache fault request s).1 ↔
        (checkoutColdCommitAndPersist P chunks cache fault request s).1.manifestList.length ≤
          maxWorkspacePublicationReconciliation)) ∧
    (∀ fault id, Recovers (deletePersistedWorkspace fault s id).1 ↔
      ¬ DeleteFault.HidesReady fault s id) := by
  have inv := history.operational empty
  constructor
  · intro chunks cache fault request unambiguous
    have after : Operational _ (checkoutColdCommitAndPersist P chunks cache fault request s).1 :=
      inv.checkout unambiguous
    rw [recovers_iff after.consistent after.distinct, and_iff_left after.visible]
  · intro fault id
    have effect : DeleteEffect s id (deletePersistedWorkspace fault s id).1 :=
      deletePersistedWorkspace_effect fault
    have fits := effect.manifestList_length_le.trans few
    constructor
    · intro recovers hides
      have distinct : Distinct (deletePersistedWorkspace fault s id).1 := by
        intro a b m m' found found' sameName
        exact inv.distinct a b m m' (effect.lookup_of_lookup found) (effect.lookup_of_lookup found')
          sameName
      have visible := ((recovers_iff (inv.consistent.delete effect) distinct).mp recovers).2
      exact not_visible_of_hidesReady inv.writable hides visible
    · intro safe
      have after := inv.delete safe
      exact (recovers_iff after.consistent after.distinct).mpr ⟨fits, after.visible⟩

theorem WorkspaceHistory.bareCheckout (history : WorkspaceHistory .reference s₀ used s)
    (fault : CheckoutFault) (workspace : UInt8)
    (unambiguous : Unambiguous used (bareRequest workspace)) :
    WorkspaceHistory .reference s₀
      (((bareRequest workspace).manifest.workspaceId, (bareRequest workspace).name.bytes) :: used)
      (bareCheckout fault workspace s) :=
  history.checkout _ _ fault _ unambiguous

def bareReady : WorkspaceInstance := bareCheckout .none 1 bareInstance

theorem bareReady_history : WorkspaceHistory .reference bareInstance
    [((bareRequest 1).manifest.workspaceId, (bareRequest 1).name.bytes)] bareReady :=
  WorkspaceHistory.start.bareCheckout .none 1 (by simp [Unambiguous])

theorem bareReady_few : bareReady.manifestList.length ≤ maxWorkspacePublicationReconciliation := by
  decide +kernel

theorem bareReady_recovers :
    Recovers (deletePersistedWorkspace .unpinned bareReady
      (bareRequest 1).manifest.workspaceId).1 := by
  have recovers := workspaceHistory_recovers_iff bareInstance_empty bareReady_history bareReady_few
  refine (recovers.2 _ _).mpr ?_
  rintro ⟨cut, _⟩
  cases cut

/-- A deletion that stops with the directory hidden; the next restart reports it missing. -/
theorem bareReady_hidden_unrecovered : ∃ used,
    bareInstance.Empty ∧ WorkspaceHistory .reference bareInstance used bareReady ∧
    bareReady.manifestList.length ≤ maxWorkspacePublicationReconciliation ∧
    ¬ Recovers
      (deletePersistedWorkspace .withdrawn bareReady (bareRequest 1).manifest.workspaceId).1 := by
  have fails : (reconcileWorkspacePublications none (deletePersistedWorkspace .withdrawn bareReady
      (bareRequest 1).manifest.workspaceId).1).2.isOk = false := by decide +kernel
  refine ⟨_, bareInstance_empty, bareReady_history, bareReady_few, ?_⟩
  rintro ⟨s', result, reconciled, _⟩
  rw [reconciled] at fails
  cases fails
end Histories
end ReflinkForest
