import ReflinkForest.Workspace.Publication
import ReflinkForest.Workspace.RoundTrip

/-! Which directories a restart or a rollback moves to the trash. -/
namespace ReflinkForest
open Bytes Except FinMap InMemoryCatalog List WorkspaceManifest

variable {s s' : WorkspaceInstance} {manifest m : WorkspaceManifest} {stage : Staging}
  {id : WorkspaceId} {name : Str}

/-- Name, record and pin in the catalog make the workspace ready. -/
def CatalogReady (catalog : InMemoryCatalog) (name : Str) : Prop :=
  ∃ id, catalog.workspaceName name = some id ∧ (catalog.workspace id).isSome ∧
    (catalog.workspacePin id).isSome

/-- Only directories of names that are not ready were moved to the trash. -/
def WithdrawsUnready (s s' : WorkspaceInstance) : Prop :=
  ∃ moved, s'.trash = moved ++ s.trash ∧ ∀ entry ∈ moved, ¬ CatalogReady s'.catalog entry.1

/-- The states that the durable part of a checkout can leave. -/
inductive CheckoutEffect (s : WorkspaceInstance) (manifest : WorkspaceManifest) (stage : Staging) :
    WorkspaceInstance → Prop
  | nothing : CheckoutEffect s manifest stage s
  | wrote {manifests : WorkspaceManifests}
      (ensured : ensureWorkspaceManifest s.manifests manifest = .ok manifests) :
      CheckoutEffect s manifest stage { s with manifests := manifests }
  | shown {manifests : WorkspaceManifests}
      (ensured : ensureWorkspaceManifest s.manifests manifest = .ok manifests)
      (absent : manifest.name ∉ s.directories) :
      CheckoutEffect s manifest stage
        { s with manifests := manifests, directories := s.directories.insert manifest.name stage }
  | ready {manifests manifests' : WorkspaceManifests} {fails : Bool}
      {catalog : InMemoryCatalog}
      (ensured : ensureWorkspaceManifest s.manifests manifest = .ok manifests)
      (absent : manifest.name ∉ s.directories)
      (persisted : persistReadyWorkspace fails s.catalog manifests manifest =
        .ok (catalog, manifests')) :
      CheckoutEffect s manifest stage
        { s with
          catalog := catalog, manifests := manifests'
          directories := s.directories.insert manifest.name stage }
  | rolledBack {manifests : WorkspaceManifests} {fails : Bool}
      {e : WorkspacePersistenceError}
      (ensured : ensureWorkspaceManifest s.manifests manifest = .ok manifests)
      (absent : manifest.name ∉ s.directories)
      (refused : persistReadyWorkspace fails s.catalog manifests manifest = .error e) :
      CheckoutEffect s manifest stage
        { s with
          manifests := manifests
          directories := (s.directories.insert manifest.name stage).erase manifest.name
          trash := (manifest.name, stage) :: s.trash }

theorem publishCheckout_effect (fault : CheckoutFault) :
    CheckoutEffect s manifest stage (publishCheckout fault s manifest stage).1 := by
  unfold publishCheckout
  split
  · exact .nothing
  split
  · exact .nothing
  rename_i manifests ensured
  split
  · exact .wrote ensured
  split
  · exact .wrote ensured
  rename_i vacant
  split
  · exact .shown ensured vacant
  split
  · rename_i persisted
    exact .ready ensured vacant persisted
  rename_i refused
  split
  · simp only [WorkspaceInstance.withdrawWorkspace, AList.lookup_insert]
    exact .rolledBack ensured vacant refused
  · exact .shown ensured vacant

/-- The states that a deletion can leave. -/
inductive DeleteEffect (s : WorkspaceInstance) (id : WorkspaceId) : WorkspaceInstance → Prop
  | nothing : DeleteEffect s id s
  | withdrawn {m : WorkspaceManifest}
      (loaded : loadReadyWorkspace s.catalog s.manifests id = .ok (some m)) :
      DeleteEffect s id (s.withdrawWorkspace m)
  | released {m : WorkspaceManifest} {catalog : InMemoryCatalog}
      (loaded : loadReadyWorkspace s.catalog s.manifests id = .ok (some m))
      (applied : s.catalog.apply [.deleteWorkspacePin id] = .ok catalog) :
      DeleteEffect s id
        { s.withdrawWorkspace m with catalog := catalog, manifests := s.manifests }
  | removed {m : WorkspaceManifest} {catalog : InMemoryCatalog}
      (loaded : loadReadyWorkspace s.catalog s.manifests id = .ok (some m))
      (applied : s.catalog.apply [.deleteWorkspacePin id] = .ok catalog) :
      DeleteEffect s id
        { s.withdrawWorkspace m with catalog := catalog, manifests := s.manifests.erase id }

@[simp] theorem withdrawWorkspace_catalog : (s.withdrawWorkspace m).catalog = s.catalog := by
  unfold WorkspaceInstance.withdrawWorkspace
  split <;> rfl

@[simp] theorem withdrawWorkspace_manifests : (s.withdrawWorkspace m).manifests = s.manifests := by
  unfold WorkspaceInstance.withdrawWorkspace
  split <;> rfl

theorem withdrawWorkspace_lookup (name : Str) : (s.withdrawWorkspace m).directories.lookup name =
    if name = m.name then none else s.directories.lookup name := by
  unfold WorkspaceInstance.withdrawWorkspace
  split
  · rename_i absent
    by_cases same : name = m.name
    · rw [if_pos same, same, absent]
    · rw [if_neg same]
  · exact lookup_erase_eq s.directories m.name name

theorem deletePersistedWorkspace_effect (fault : DeleteFault) :
    DeleteEffect s id (deletePersistedWorkspace fault s id).1 := by
  unfold deletePersistedWorkspace
  split
  · exact .nothing
  · exact .nothing
  rename_i m loaded
  split
  · exact .nothing
  split
  · exact .withdrawn loaded
  simp only [withdrawWorkspace_catalog, withdrawWorkspace_manifests]
  split
  · exact .withdrawn loaded
  rename_i catalog applied
  split
  · exact .released loaded applied
  · exact .removed loaded applied

/-- A reconciliation touches directories and trash only. -/
structure Reconciled (s s' : WorkspaceInstance) : Prop where
  catalog : s'.catalog = s.catalog
  manifests : s'.manifests = s.manifests

theorem reconcileManifest_reconciled (result : WorkspacePublicationReconciliation) :
    Reconciled s (reconcileManifest s result manifest).1 := by
  unfold reconcileManifest
  simp only
  split
  · exact ⟨rfl, rfl⟩
  · split_ifs <;> exact ⟨rfl, rfl⟩
  · split_ifs
    · exact ⟨withdrawWorkspace_catalog, withdrawWorkspace_manifests⟩
    · exact ⟨rfl, rfl⟩

section Ready
/-- The catalog holds exactly what the manifest says. -/
structure Published (catalog : InMemoryCatalog) (id : WorkspaceId) (m : WorkspaceManifest) :
    Prop where
  own : m.workspaceId = id
  encodes : m.encodeWorkspaceManifest = .ok m.encodeBytes
  record : catalog.workspace id = some m.encodeBytes
  pin : catalog.workspacePin id = some m.generation
  name : catalog.workspaceName m.name = some id

variable {catalog : InMemoryCatalog} {manifests manifests' : WorkspaceManifests}
  {fails : Bool}

theorem loadReadyWorkspace_eq_some_iff :
    loadReadyWorkspace catalog manifests id = .ok (some m) ↔
      manifests.lookup id = some m ∧ Published catalog id m := by
  unfold loadReadyWorkspace
  constructor
  · intro h
    split at h
    · rename_i record pin hasRecord hasPin
      simp only [bind_eq_ok_iff, readWorkspaceManifest, ofOption_eq_ok, exists_require] at h
      obtain ⟨found, read, bytes, encoded, ⟨own, rfl⟩, h⟩ := h
      split_ifs at h with named
      · cases h
        obtain ⟨_, rfl⟩ := encodeWorkspaceManifest_eq_ok encoded
        exact ⟨read, own, encoded, hasRecord, by rw [hasPin, named.2], named.1⟩
      · simp at h
    · simp at h
  · rintro ⟨found, published⟩
    simp only [published.record, published.pin, readWorkspaceManifest, found, ofOption_some,
      ok_bind, published.encodes, and_true, require_pos published.own, published.name, if_true]

/-- What all calls keep, wherever they are cut short. -/
structure Consistent (s : WorkspaceInstance) : Prop where
  own : ∀ id m, s.manifests.lookup id = some m → m.workspaceId = id
  recorded : ∀ name id, s.catalog.workspaceName name = some id → (s.catalog.workspace id).isSome
  oneName : ∀ name name' id, s.catalog.workspaceName name = some id →
    s.catalog.workspaceName name' = some id → name = name'
  pinned : ∀ id generation, s.catalog.workspacePin id = some generation →
    ∃ m, s.manifests.lookup id = some m ∧ Published s.catalog id m

/-- A ready name belongs to the manifest of its workspace. -/
theorem Consistent.manifest_of_ready (inv : Consistent s) (ready : CatalogReady s.catalog name) :
    ∃ id m, s.manifests.lookup id = some m ∧ Published s.catalog id m ∧ m.name = name := by
  obtain ⟨id, named, _, pinned⟩ := ready
  obtain ⟨generation, pin⟩ := Option.isSome_iff_exists.mp pinned
  obtain ⟨m, found, published⟩ := inv.pinned id generation pin
  exact ⟨id, m, found, published, inv.oneName _ _ id published.name named⟩

theorem ensureWorkspaceManifest_eq_ok
    (h : ensureWorkspaceManifest manifests manifest = .ok manifests') :
    manifests'.lookup manifest.workspaceId = some manifest ∧
      (∀ id, id ≠ manifest.workspaceId → manifests'.lookup id = manifests.lookup id) ∧
      (manifests.lookup manifest.workspaceId = none ∨
        manifests.lookup manifest.workspaceId = some manifest ∧ manifests' = manifests) := by
  unfold ensureWorkspaceManifest at h
  split at h
  · rename_i existing found
    split_ifs at h with same
    cases h
    subst same
    exact ⟨found, fun _ _ => rfl, .inr ⟨found, rfl⟩⟩
  · rename_i absent
    simp only [writeWorkspaceManifest, bind_eq_ok_iff, ok.injEq] at h
    obtain ⟨_, _, _, _, rfl⟩ := h
    refine ⟨AList.lookup_insert _, fun id different => ?_, .inl absent⟩
    rw [lookup_insert_eq, if_neg different]

/-- A ready workspace is published again without touching the catalog. -/
theorem persistReadyWorkspace_published
    (found : manifests.lookup manifest.workspaceId = some manifest)
    (published : Published catalog manifest.workspaceId manifest) :
    persistReadyWorkspace fails catalog manifests manifest = .ok (catalog, manifests) := by
  have ensured : ensureWorkspaceManifest manifests manifest = .ok manifests := by
    unfold ensureWorkspaceManifest
    simp only [found, if_true]
  simp only [persistReadyWorkspace, checkName, published.name, ensured, published.encodes,
    published.record, published.pin, and_self, require_pos trivial, mapErr_ok, ok_bind]

theorem checkName_eq_ok {u : Unit} (h : checkName catalog name id = .ok u) :
    ∀ other, catalog.workspaceName name = some other → other = id := by
  intro other named
  simpa [checkName, named] using h

theorem persistReadyWorkspace_eq_ok {catalog' : InMemoryCatalog}
    (found : manifests.lookup manifest.workspaceId = some manifest)
    (h : persistReadyWorkspace fails catalog manifests manifest = .ok (catalog', manifests')) :
    manifests' = manifests ∧ manifest.encodeWorkspaceManifest = .ok manifest.encodeBytes ∧
      (∀ other, catalog.workspaceName manifest.name = some other → other = manifest.workspaceId) ∧
      (catalog' = catalog ∧ Published catalog manifest.workspaceId manifest ∨
        catalog.workspace manifest.workspaceId = none ∧
          catalog.apply (readyBatch manifest manifest.encodeBytes) = .ok catalog') := by
  have ensured : ensureWorkspaceManifest manifests manifest = .ok manifests := by
    unfold ensureWorkspaceManifest
    simp only [found, if_true]
  simp only [persistReadyWorkspace, ensured, mapErr_ok, bind_eq_ok_iff, ok.injEq, exists_eq_left',
    mapErr_eq_ok] at h
  obtain ⟨_, checked, bytes, encoded, h⟩ := h
  obtain ⟨_, rfl⟩ := encodeWorkspaceManifest_eq_ok encoded
  have free := checkName_eq_ok checked
  split at h
  · rename_i existing record
    simp only [bind_eq_ok_iff, exists_require, ok.injEq, Prod.mk.injEq] at h
    obtain ⟨rfl, ⟨named, pin⟩, rfl, rfl⟩ := h
    exact ⟨rfl, encoded, free, .inl ⟨rfl, rfl, encoded, record, pin, named⟩⟩
  · rename_i missing
    simp only [bind_eq_ok_iff, exists_require, mapErr_eq_ok, ok.injEq, Prod.mk.injEq] at h
    obtain ⟨_, catalog', applied, rfl, rfl⟩ := h
    exact ⟨rfl, encoded, free, .inr ⟨missing, applied⟩⟩
end Ready

section Preservation
variable {catalog catalog' : InMemoryCatalog}

theorem readyBatch_applied {bytes : Str} (h : catalog.apply (readyBatch m bytes) = .ok catalog') :
    (∀ id, catalog'.workspace id =
      if id = m.workspaceId then some bytes else catalog.workspace id) ∧
    (∀ name, catalog'.workspaceName name =
      if name = m.name then some m.workspaceId else catalog.workspaceName name) ∧
    ∀ id, catalog'.workspacePin id =
      if id = m.workspaceId then some m.generation else catalog.workspacePin id := by
  rw [apply_eq_foldl h]
  exact ⟨fun _ => lookup_insert_eq .., fun _ => lookup_insert_eq ..,
    fun _ => lookup_insert_eq ..⟩

theorem deletePin_applied (h : catalog.apply [.deleteWorkspacePin id] = .ok catalog') :
    (∀ other, catalog'.workspace other = catalog.workspace other) ∧
    (∀ name, catalog'.workspaceName name = catalog.workspaceName name) ∧
    ∀ other, catalog'.workspacePin other =
      if other = id then none else catalog.workspacePin other := by
  rw [apply_eq_foldl h]
  exact ⟨fun _ => rfl, fun _ => rfl, lookup_erase_eq _ _⟩

section
variable (inv : Consistent s)
include inv

/-- Only the directories and the trash matter to nobody else. -/
theorem Consistent.congr (catalog : s'.catalog = s.catalog)
    (manifests : s'.manifests = s.manifests) : Consistent s' := by
  obtain ⟨own, recorded, oneName, pinned⟩ := inv
  exact ⟨manifests ▸ own, catalog ▸ recorded, catalog ▸ oneName, by
    rw [catalog, manifests]; exact pinned⟩

theorem Consistent.ensured {manifests : WorkspaceManifests}
    (h : ensureWorkspaceManifest s.manifests manifest = .ok manifests) :
    Consistent { s with manifests := manifests } := by
  obtain ⟨found, others, before⟩ := ensureWorkspaceManifest_eq_ok h
  refine ⟨?_, inv.recorded, inv.oneName, ?_⟩
  · intro id m lookup
    by_cases same : id = manifest.workspaceId
    · rw [same, found, Option.some.injEq] at lookup
      rw [← lookup, same]
    · exact inv.own id m ((others id same).symm.trans lookup)
  · intro id generation pin
    obtain ⟨m, lookup, published⟩ := inv.pinned id generation pin
    refine ⟨m, ?_, published⟩
    by_cases same : id = manifest.workspaceId
    · subst same
      rcases before with absent | ⟨_, rfl⟩
      · simp [absent] at lookup
      · exact lookup
    · exact (others id same).trans lookup

theorem Consistent.unnamed (missing : s.catalog.workspace id = none)
    (name : Str) : s.catalog.workspaceName name ≠ some id := by
  intro named
  have := inv.recorded name _ named
  simp [missing] at this

theorem Consistent.fresh
    (free : ∀ other, s.catalog.workspaceName name = some other → other = id)
    (missing : s.catalog.workspace id = none) : s.catalog.workspaceName name = none := by
  rw [Option.eq_none_iff_forall_ne_some]
  intro other named
  exact inv.unnamed missing _ (free other named ▸ named)

/-- A batch for a workspace without a record cannot disturb another one. -/
theorem Consistent.persisted
    (found : s.manifests.lookup m.workspaceId = some m)
    (encodes : m.encodeWorkspaceManifest = .ok m.encodeBytes)
    (free : ∀ other, s.catalog.workspaceName m.name = some other → other = m.workspaceId)
    (missing : s.catalog.workspace m.workspaceId = none)
    (applied : s.catalog.apply (readyBatch m m.encodeBytes) = .ok catalog) :
    Consistent { s with catalog := catalog } := by
  obtain ⟨workspace, workspaceName, workspacePin⟩ := readyBatch_applied applied
  have unnamed := inv.unnamed missing
  have fresh := inv.fresh free missing
  refine ⟨inv.own, ?_, ?_, ?_⟩
  · intro name id named
    rw [workspaceName] at named
    rw [workspace]
    split_ifs with same
    · rfl
    · split_ifs at named with sameName
      · exact absurd (Option.some.inj named).symm same
      · exact inv.recorded name id named
  · intro name name' id named named'
    rw [workspaceName] at named named'
    split_ifs at named named' with first second second
    · rw [first, second]
    · cases named
      exact absurd named' (unnamed _)
    · cases named'
      exact absurd named (unnamed _)
    · exact inv.oneName _ _ id named named'
  · intro id generation pin
    rw [workspacePin] at pin
    split_ifs at pin with same
    · subst same
      exact ⟨m, found, rfl, encodes, by rw [workspace, if_pos rfl],
        by rw [workspacePin, if_pos rfl],
        by rw [workspaceName, if_pos rfl]⟩
    · obtain ⟨other, lookup, published⟩ := inv.pinned id generation pin
      refine ⟨other, lookup, published.own, published.encodes, ?_, ?_, ?_⟩
      · rw [workspace, if_neg same, published.record]
      · rw [workspacePin, if_neg same, published.pin]
      · rw [workspaceName, if_neg, published.name]
        intro sameName
        rw [← sameName, published.name] at fresh
        simp at fresh

theorem Consistent.unpinned
    (applied : s.catalog.apply [.deleteWorkspacePin id] = .ok catalog) :
    Consistent { s with catalog := catalog } := by
  obtain ⟨workspace, workspaceName, workspacePin⟩ := deletePin_applied applied
  refine ⟨inv.own, ?_, ?_, ?_⟩
  · intro name other named
    rw [workspaceName] at named
    rw [workspace]
    exact inv.recorded name other named
  · intro name name' other named named'
    rw [workspaceName] at named named'
    exact inv.oneName _ _ other named named'
  · intro other generation pin
    rw [workspacePin] at pin
    split_ifs at pin with same
    obtain ⟨m, lookup, published⟩ := inv.pinned other generation pin
    refine ⟨m, lookup, published.own, published.encodes, ?_, ?_, ?_⟩
    · rw [workspace, published.record]
    · rw [workspacePin, if_neg same, published.pin]
    · rw [workspaceName, published.name]

theorem Consistent.erased (unpinned : s.catalog.workspacePin id = none) :
    Consistent { s with manifests := s.manifests.erase id } := by
  refine ⟨?_, inv.recorded, inv.oneName, ?_⟩
  · intro other m lookup
    rw [lookup_erase_eq] at lookup
    split_ifs at lookup
    exact inv.own other m lookup
  · intro other generation pin
    obtain ⟨m, lookup, published⟩ := inv.pinned other generation pin
    refine ⟨m, ?_, published⟩
    rw [lookup_erase_eq, if_neg, lookup]
    rintro rfl
    simp [unpinned] at pin

theorem Consistent.checkout (effect : CheckoutEffect s manifest stage s') :
    Consistent s' := by
  cases effect with
  | nothing => exact inv
  | wrote ensured => exact inv.ensured ensured
  | shown ensured _ | rolledBack ensured _ _ => exact (inv.ensured ensured).congr rfl rfl
  | @ready manifests manifests' fails catalog ensured _ persisted =>
    have found := (ensureWorkspaceManifest_eq_ok ensured).1
    obtain ⟨rfl, encodes, free, same | ⟨missing, applied⟩⟩ :=
      persistReadyWorkspace_eq_ok found persisted
    · exact (inv.ensured ensured).congr same.1 rfl
    · exact ((inv.ensured ensured).persisted found encodes free missing applied).congr rfl rfl

theorem Consistent.delete (effect : DeleteEffect s id s') : Consistent s' := by
  cases effect with
  | nothing => exact inv
  | withdrawn _ => exact inv.congr withdrawWorkspace_catalog withdrawWorkspace_manifests
  | released _ applied => exact (inv.unpinned applied).congr rfl rfl
  | @removed m catalog _ applied =>
    have unpinned : catalog.workspacePin id = none := by
      rw [(deletePin_applied applied).2.2, if_pos rfl]
    exact ((inv.unpinned applied).erased unpinned).congr rfl rfl

omit inv in
theorem Reconciled.trans {s'' : WorkspaceInstance} (first : Reconciled s s')
    (second : Reconciled s' s'') : Reconciled s s'' :=
  ⟨second.catalog.trans first.catalog, second.manifests.trans first.manifests⟩

theorem Consistent.reconcile (reconciled : Reconciled s s') : Consistent s' :=
  inv.congr reconciled.catalog reconciled.manifests
end
end Preservation

section Rollback
theorem WithdrawsUnready.of_trash_eq (h : s'.trash = s.trash) : WithdrawsUnready s s' :=
  ⟨[], h, by simp⟩

theorem WithdrawsUnready.trans {s'' : WorkspaceInstance} (first : WithdrawsUnready s s')
    (same : s''.catalog = s'.catalog) (second : WithdrawsUnready s' s'') :
    WithdrawsUnready s s'' := by
  obtain ⟨moved, trash, unready⟩ := first
  obtain ⟨moved', trash', unready'⟩ := second
  refine ⟨moved' ++ moved, by rw [trash', trash, append_assoc], ?_⟩
  intro entry mem
  rcases mem_append.mp mem with new | old
  · exact unready' entry new
  · rw [same]
    exact unready entry old

theorem withdrawWorkspace_withdrawsUnready (unready : ¬ CatalogReady s.catalog m.name) :
    WithdrawsUnready s (s.withdrawWorkspace m) := by
  unfold WorkspaceInstance.withdrawWorkspace
  split
  · exact .of_trash_eq rfl
  · refine ⟨[_], rfl, ?_⟩
    intro entry mem
    rw [mem_singleton.mp mem]
    exact unready

/-- The name check leaves a ready name to its own manifest only. -/
theorem Consistent.published_of_checked (inv : Consistent s)
    (free : ∀ other, s.catalog.workspaceName m.name = some other → other = m.workspaceId)
    (found : s.manifests.lookup m.workspaceId = some m) (ready : CatalogReady s.catalog m.name) :
    Published s.catalog m.workspaceId m := by
  obtain ⟨id, owner, lookup, published, sameName⟩ := inv.manifest_of_ready ready
  have named := published.name
  rw [sameName] at named
  obtain rfl := free id named
  rw [found, Option.some.injEq] at lookup
  exact lookup ▸ published

theorem CheckoutEffect.withdrawsUnready (inv : Consistent s)
    (free : ∀ other, s.catalog.workspaceName manifest.name = some other →
      other = manifest.workspaceId)
    (effect : CheckoutEffect s manifest stage s') : WithdrawsUnready s s' := by
  cases effect with
  | nothing | wrote _ | shown _ _ | ready _ _ _ => exact .of_trash_eq rfl
  | rolledBack ensured _ refused =>
    refine ⟨[_], rfl, ?_⟩
    intro entry mem
    rw [mem_singleton.mp mem]
    intro ready
    have found := (ensureWorkspaceManifest_eq_ok ensured).1
    have published := (inv.ensured ensured).published_of_checked free found ready
    rw [persistReadyWorkspace_published found published] at refused
    cases refused

variable {P : Primitives} {chunks : ChunkStore} {cache : Cache}
  {request : PersistedWorkspaceCheckoutRequest}

theorem prepareCheckout_eq_ok {catalog : InMemoryCatalog}
    (h : prepareCheckout P chunks cache request catalog = .ok (manifest, stage)) :
    manifest.workspaceId = request.manifest.workspaceId ∧ manifest.name = request.name.bytes ∧
      manifest.encodeWorkspaceManifest = .ok manifest.encodeBytes ∧
      ∀ other, catalog.workspaceName manifest.name = some other → other = manifest.workspaceId := by
  simp only [prepareCheckout, bind_eq_ok_iff, exists_require,
    mapErr_eq_ok, ok.injEq, Prod.mk.injEq] at h
  obtain ⟨⟨_, _, sameName⟩, _, _, checked, plan, _, m, made, _, _, rfl, rfl⟩ := h
  obtain ⟨sameId, named, _, valid, plain⟩ := fromPlan_eq_ok made
  rw [sameName] at named
  refine ⟨sameId, named, encodeWorkspaceManifest_of_plan valid plain, ?_⟩
  rw [named, sameId]
  exact checkName_eq_ok checked

/-- A checkout stops before its durable part or does what the effect says. -/
theorem checkoutColdCommitAndPersist_effect (fault : CheckoutFault) :
    (checkoutColdCommitAndPersist P chunks cache fault request s).1 = s ∨
      ∃ manifest stage, prepareCheckout P chunks cache request s.catalog = .ok (manifest, stage) ∧
        CheckoutEffect s manifest stage
          (checkoutColdCommitAndPersist P chunks cache fault request s).1 := by
  unfold checkoutColdCommitAndPersist
  split
  · exact .inl rfl
  · rename_i manifest stage prepared
    exact .inr ⟨manifest, stage, prepared, publishCheckout_effect fault⟩
end Rollback

section Reconciliation
/-- A ready name is in no manifest but the one of its workspace. -/
def Unshared (s : WorkspaceInstance) : Prop :=
  ∀ id m, s.manifests.lookup id = some m → CatalogReady s.catalog m.name → Published s.catalog id m

/-- While the catalog knows nothing of the name, it is in no manifest of another workspace. -/
def WorkspaceInstance.NameFree (s : WorkspaceInstance)
    (request : PersistedWorkspaceCheckoutRequest) : Prop :=
  s.catalog.workspaceName request.name.bytes = none →
    ∀ id m, s.manifests.lookup id = some m → m.name = request.name.bytes →
      id = request.manifest.workspaceId

theorem Unshared.congr (inv : Unshared s) (catalog : s'.catalog = s.catalog)
    (manifests : s'.manifests = s.manifests) : Unshared s' := by
  unfold Unshared
  rw [catalog, manifests]
  exact inv

theorem Unshared.reconcile (inv : Unshared s) (reconciled : Reconciled s s') : Unshared s' :=
  inv.congr reconciled.catalog reconciled.manifests

theorem Unshared.ensured {manifests : WorkspaceManifests} (inv : Unshared s)
    (consistent : Consistent s)
    (free : ∀ other, s.catalog.workspaceName manifest.name = some other →
      other = manifest.workspaceId)
    (h : ensureWorkspaceManifest s.manifests manifest = .ok manifests) :
    Unshared { s with manifests := manifests } := by
  obtain ⟨found, others, _⟩ := ensureWorkspaceManifest_eq_ok h
  intro id m lookup ready
  by_cases same : id = manifest.workspaceId
  · subst same
    rw [found, Option.some.injEq] at lookup
    subst lookup
    exact (consistent.ensured h).published_of_checked free found ready
  · exact inv id m ((others id same).symm.trans lookup) ready

variable {catalog catalog' : InMemoryCatalog} {stop : Option ℕ}

/-- What a batch makes ready, besides what was ready before. -/
theorem catalogReady_of_readyBatch {bytes : Str}
    (applied : catalog.apply (readyBatch m bytes) = .ok catalog')
    (unnamed : catalog.workspaceName name ≠ some m.workspaceId)
    (ready : CatalogReady catalog' name) : name = m.name ∨ CatalogReady catalog name := by
  obtain ⟨workspace, workspaceName, workspacePin⟩ := readyBatch_applied applied
  obtain ⟨id, named, record, pin⟩ := ready
  rw [workspaceName] at named
  split_ifs at named with same
  · exact .inl same
  · have other : id ≠ m.workspaceId := fun h => unnamed (h ▸ named)
    rw [workspace, if_neg other] at record
    rw [workspacePin, if_neg other] at pin
    exact .inr ⟨id, named, record, pin⟩

section
variable (inv : Unshared s)
include inv

theorem Unshared.persisted
    (consistent : Consistent s)
    (own : ∀ id other, s.manifests.lookup id = some other → other.name = m.name →
      id = m.workspaceId)
    (found : s.manifests.lookup m.workspaceId = some m)
    (encodes : m.encodeWorkspaceManifest = .ok m.encodeBytes)
    (missing : s.catalog.workspace m.workspaceId = none)
    (applied : s.catalog.apply (readyBatch m m.encodeBytes) = .ok catalog) :
    Unshared { s with catalog := catalog } := by
  obtain ⟨workspace, workspaceName, workspacePin⟩ := readyBatch_applied applied
  intro id other lookup ready
  rcases catalogReady_of_readyBatch applied (consistent.unnamed missing _) ready with same | before
  · obtain rfl := own id other lookup same
    rw [found, Option.some.injEq] at lookup
    subst lookup
    exact ⟨rfl, encodes, by rw [workspace, if_pos rfl], by rw [workspacePin, if_pos rfl],
      by rw [workspaceName, if_pos rfl]⟩
  · have published := inv id other lookup before
    have different : id ≠ m.workspaceId := by
      rintro rfl
      exact consistent.unnamed missing _ published.name
    have otherName : other.name ≠ m.name := fun same => different (own id other lookup same)
    exact ⟨published.own, published.encodes, by rw [workspace, if_neg different, published.record],
      by rw [workspacePin, if_neg different, published.pin],
      by rw [workspaceName, if_neg otherName, published.name]⟩

theorem Unshared.checkout (consistent : Consistent s)
    (free : ∀ other, s.catalog.workspaceName manifest.name = some other →
      other = manifest.workspaceId)
    (nameFree : s.catalog.workspaceName manifest.name = none →
      ∀ id m, s.manifests.lookup id = some m → m.name = manifest.name → id = manifest.workspaceId)
    (effect : CheckoutEffect s manifest stage s') : Unshared s' := by
  cases effect with
  | nothing => exact inv
  | wrote ensured => exact inv.ensured consistent free ensured
  | shown ensured _ | rolledBack ensured _ _ =>
    exact (inv.ensured consistent free ensured).congr rfl rfl
  | @ready _ manifests _ _ ensured _ persisted =>
    obtain ⟨found, others, _⟩ := ensureWorkspaceManifest_eq_ok ensured
    have written := inv.ensured consistent free ensured
    obtain ⟨rfl, encodes, _, same | ⟨missing, applied⟩⟩ :=
      persistReadyWorkspace_eq_ok found persisted
    · exact written.congr same.1 rfl
    · have fresh := consistent.fresh free missing
      have own : ∀ id other, manifests.lookup id = some other → other.name = manifest.name →
          id = manifest.workspaceId := by
        intro id other lookup sameName
        by_contra different
        exact different (nameFree fresh id other ((others id different).symm.trans lookup) sameName)
      exact (written.persisted (consistent.ensured ensured) own found encodes missing
        applied).congr rfl rfl

omit inv in
theorem catalogReady_of_deletePin
    (applied : catalog.apply [.deleteWorkspacePin id] = .ok catalog')
    (ready : CatalogReady catalog' name) :
    CatalogReady catalog name ∧ catalog.workspaceName name ≠ some id := by
  obtain ⟨workspace, workspaceName, workspacePin⟩ := deletePin_applied applied
  obtain ⟨other, named, record, pin⟩ := ready
  rw [workspacePin] at pin
  split_ifs at pin with same
  · simp at pin
  · rw [workspaceName] at named
    rw [workspace] at record
    refine ⟨⟨other, named, record, pin⟩, ?_⟩
    rw [named]
    simpa using same

theorem Unshared.unpinned
    (applied : s.catalog.apply [.deleteWorkspacePin id] = .ok catalog) :
    Unshared { s with catalog := catalog } := by
  obtain ⟨workspace, workspaceName, workspacePin⟩ := deletePin_applied applied
  intro other m lookup ready
  obtain ⟨before, different⟩ := catalogReady_of_deletePin applied ready
  have published := inv other m lookup before
  have notDeleted : other ≠ id := by
    rintro rfl
    exact different published.name
  exact ⟨published.own, published.encodes, by rw [workspace, published.record],
    by rw [workspacePin, if_neg notDeleted, published.pin], by rw [workspaceName, published.name]⟩

theorem Unshared.erased :
    Unshared { s with manifests := s.manifests.erase id } := by
  intro other m lookup ready
  rw [lookup_erase_eq] at lookup
  split_ifs at lookup
  exact inv other m lookup ready

theorem Unshared.delete (effect : DeleteEffect s id s') : Unshared s' := by
  cases effect with
  | nothing => exact inv
  | withdrawn _ => exact inv.congr withdrawWorkspace_catalog withdrawWorkspace_manifests
  | released _ applied => exact (inv.unpinned applied).congr rfl rfl
  | removed _ applied => exact (inv.unpinned applied).erased.congr rfl rfl

/-- One manifest of the loop: only a name that is not ready is withdrawn. -/
theorem reconcileManifest_withdrawsUnready
    (found : s.manifests.lookup manifest.workspaceId = some manifest)
    (result : WorkspacePublicationReconciliation) :
    WithdrawsUnready s (reconcileManifest s result manifest).1 := by
  unfold reconcileManifest
  simp only
  split
  · exact .of_trash_eq rfl
  · split_ifs <;> exact .of_trash_eq rfl
  · rename_i loaded
    split_ifs
    · apply withdrawWorkspace_withdrawsUnready
      intro ready
      have published := inv _ _ found ready
      rw [loadReadyWorkspace_eq_some_iff.mpr ⟨found, published⟩] at loaded
      simp at loaded
    · exact .of_trash_eq rfl
end

/-- However far the loop gets, it keeps what each of its manifests keeps. -/
theorem reconcileLoop_keeps {Q : WorkspaceInstance → Prop} {manifests : List WorkspaceManifest}
    (result : WorkspacePublicationReconciliation) (start : Q s)
    (step : ∀ manifest ∈ manifests, ∀ s result, Q s → Q (reconcileManifest s result manifest).1) :
    Q (reconcileLoop stop s result manifests).1 := by
  induction manifests generalizing s result with
  | nil => exact start
  | cons manifest manifests ih =>
    have kept := step manifest mem_cons_self s result start
    unfold reconcileLoop
    split_ifs
    · exact start
    split
    · rename_i stepped
      rwa [stepped] at kept
    · rename_i stepped
      rw [stepped] at kept
      exact ih _ kept fun m mem => step m (mem_cons_of_mem _ mem)

theorem reconcileLoop_reconciled (s : WorkspaceInstance)
    (result : WorkspacePublicationReconciliation) (manifests : List WorkspaceManifest) :
    Reconciled s (reconcileLoop stop s result manifests).1 :=
  reconcileLoop_keeps result ⟨rfl, rfl⟩ fun _ _ _ _ same =>
    same.trans (reconcileManifest_reconciled _)

theorem reconcileLoop_withdrawsUnready {manifests : List WorkspaceManifest}
    (result : WorkspacePublicationReconciliation) (inv : Unshared s)
    (listed : ∀ m ∈ manifests, s.manifests.lookup m.workspaceId = some m) :
    WithdrawsUnready s (reconcileLoop stop s result manifests).1 := by
  refine (reconcileLoop_keeps (Q := fun s' => Reconciled s s' ∧ WithdrawsUnready s s') result
    ⟨⟨rfl, rfl⟩, .of_trash_eq rfl⟩ ?_).2
  rintro manifest mem s' result ⟨same, safe⟩
  have found := same.manifests ▸ listed manifest mem
  exact ⟨same.trans (reconcileManifest_reconciled _),
    safe.trans (reconcileManifest_reconciled _).catalog
      (reconcileManifest_withdrawsUnready (inv.reconcile same) found result)⟩

theorem mem_manifestList (inv : Consistent s) (mem : m ∈ s.manifestList) :
    s.manifests.lookup m.workspaceId = some m := by
  obtain ⟨⟨id, m⟩, entry, rfl⟩ := mem_map.mp mem
  have found := mem_sortedBy.mp entry
  rw [inv.own id m found]
  exact found

theorem reconcileWorkspacePublications_reconciled (stop : Option ℕ) :
    Reconciled s (reconcileWorkspacePublications stop s).1 := by
  unfold reconcileWorkspacePublications
  split_ifs
  · exact ⟨rfl, rfl⟩
  · exact reconcileLoop_reconciled _ _ _

theorem reconcileWorkspacePublications_withdrawsUnready (consistent : Consistent s)
    (inv : Unshared s) :
    WithdrawsUnready s (reconcileWorkspacePublications stop s).1 := by
  unfold reconcileWorkspacePublications
  split_ifs
  · exact .of_trash_eq rfl
  · exact reconcileLoop_withdrawsUnready _ inv fun m mem => mem_manifestList consistent mem
end Reconciliation

section Runs
/-- No workspace was ever made. -/
structure WorkspaceInstance.Empty (s : WorkspaceInstance) : Prop where
  workspaces : s.catalog.workspaces = ∅
  names : s.catalog.workspaceNames = ∅
  pins : s.catalog.workspacePins = ∅
  manifests : s.manifests = ∅
  directories : s.directories = ∅

/-- Checkouts, deletions and restarts, each cut short anywhere or not at all. A checkout meets
`condition` in the state it starts from. -/
inductive WorkspaceRun (P : Primitives)
    (condition : WorkspaceInstance → PersistedWorkspaceCheckoutRequest → Prop)
    (s₀ : WorkspaceInstance) : WorkspaceInstance → Prop
  | start : WorkspaceRun P condition s₀ s₀
  | checkout {s : WorkspaceInstance} (run : WorkspaceRun P condition s₀ s) (chunks : ChunkStore)
      (cache : Cache) (fault : CheckoutFault) (request : PersistedWorkspaceCheckoutRequest)
      (meets : condition s request) :
      WorkspaceRun P condition s₀ (checkoutColdCommitAndPersist P chunks cache fault request s).1
  | delete {s : WorkspaceInstance} (run : WorkspaceRun P condition s₀ s) (fault : DeleteFault)
      (id : WorkspaceId) : WorkspaceRun P condition s₀ (deletePersistedWorkspace fault s id).1
  | restart {s : WorkspaceInstance} (run : WorkspaceRun P condition s₀ s) (stop : Option ℕ) :
      WorkspaceRun P condition s₀ (reconcileWorkspacePublications stop s).1

variable {P : Primitives} {s₀ : WorkspaceInstance}
  {condition : WorkspaceInstance → PersistedWorkspaceCheckoutRequest → Prop}

theorem WorkspaceInstance.Empty.consistent (empty : s.Empty) : Consistent s := by
  refine ⟨?_, ?_, ?_, ?_⟩
  · intro id m found
    simp [empty.manifests] at found
  · intro name id named
    simp [workspaceName, empty.names] at named
  · intro name _ id named
    simp [workspaceName, empty.names] at named
  · intro id generation pin
    simp [workspacePin, empty.pins] at pin

theorem WorkspaceInstance.Empty.unshared (empty : s.Empty) : Unshared s := by
  intro id m found
  simp [empty.manifests] at found

theorem WorkspaceRun.consistent (empty : s₀.Empty) (run : WorkspaceRun P condition s₀ s) :
    Consistent s := by
  induction run with
  | start => exact empty.consistent
  | checkout _ chunks cache fault request _ ih =>
    rcases checkoutColdCommitAndPersist_effect fault with same | ⟨_, _, _, effect⟩
    · rw [same]
      exact ih
    · exact ih.checkout effect
  | delete _ fault id ih => exact ih.delete (deletePersistedWorkspace_effect fault)
  | restart _ stop ih => exact ih.reconcile (reconcileWorkspacePublications_reconciled stop)

theorem WorkspaceRun.unshared (empty : s₀.Empty)
    (run : WorkspaceRun P WorkspaceInstance.NameFree s₀ s) : Unshared s := by
  induction run with
  | start => exact empty.unshared
  | checkout run chunks cache fault request nameFree ih =>
    rcases checkoutColdCommitAndPersist_effect fault with same | ⟨manifest, _, prepared, effect⟩
    · rw [same]
      exact ih
    · obtain ⟨sameId, named, _, free⟩ := prepareCheckout_eq_ok prepared
      refine ih.checkout (run.consistent empty) free ?_ effect
      rw [sameId, named]
      exact nameFree
  | delete _ fault id ih => exact ih.delete (deletePersistedWorkspace_effect fault)
  | restart _ stop ih => exact ih.reconcile (reconcileWorkspacePublications_reconciled stop)

/-- A rollback never takes a ready directory. A restart never does after a run in which no checkout
took a name from a manifest that was left behind. -/
theorem workspaceRun_withdraws_unready (empty : s₀.Empty) :
    (∀ condition s, WorkspaceRun P condition s₀ s → ∀ chunks cache fault request,
      WithdrawsUnready s (checkoutColdCommitAndPersist P chunks cache fault request s).1) ∧
    (∀ s, WorkspaceRun P WorkspaceInstance.NameFree s₀ s → ∀ stop,
      WithdrawsUnready s (reconcileWorkspacePublications stop s).1) := by
  constructor
  · intro condition s run chunks cache fault request
    rcases checkoutColdCommitAndPersist_effect fault with same | ⟨_, _, prepared, effect⟩
    · rw [same]
      exact .of_trash_eq rfl
    · exact effect.withdrawsUnready (run.consistent empty) (prepareCheckout_eq_ok prepared).2.2.2
  · intro s run stop
    exact reconcileWorkspacePublications_withdrawsUnready (run.consistent empty)
      (run.unshared empty)

def bareTree : GitObject := .hashed .reference .sha1 .tree []

def bareCommit : GitObject :=
  .hashed .reference .sha1 .commit (ascii "tree " ++ oidToHex bareTree.oid ++ [0x0a])

def bareSource : LocalRepository where
  database := ⟨.sha1, [bareTree, bareCommit].foldl (fun m o => m.insert o.oid (o.kind, o.data)) ∅,
    by
    decide +kernel⟩
  refs := [⟨ascii "refs/heads/main", .branch, bareCommit.oid⟩]

def bareCold : ColdWorkspaceSource :=
  importedSource .reference emptyInstance bareSource .raw commitHeader (repoId 1)

/-- An instance that holds the imported commit and no workspace. -/
def bareInstance : WorkspaceInstance := ⟨bareCold.catalog, ∅, ∅, []⟩

theorem validName_work : ValidName (ascii "work") := by decide

def workName : WorkspaceName := ⟨ascii "work", validName_work⟩

/-- Asks for the imported commit as the workspace with the given number. -/
def bareRequest (workspace : UInt8) : PersistedWorkspaceCheckoutRequest where
  repository := repoId 1
  commit := bareCommit.oid
  name := workName
  limits := {}
  gitlinkPolicy := .reject
  replace := .reject
  staging := ∅
  manifest :=
    { workspaceId := ⟨List.Vector.replicate 16 workspace⟩
      repository := repoId 1
      snapshotId := List.Vector.replicate 16 1
      commit := bareCommit.oid
      generation := 1
      name := workName
      createdUnixSecs := 0 }

def bareCheckout (fault : CheckoutFault) (workspace : UInt8) (s : WorkspaceInstance) :
    WorkspaceInstance :=
  (checkoutColdCommitAndPersist .reference bareCold.chunks ∅ fault (bareRequest workspace) s).1

theorem WorkspaceInstance.Empty.of_entries {catalog : InMemoryCatalog}
    (none : catalog.workspaces.entries.length = 0 ∧ catalog.workspaceNames.entries.length = 0 ∧
      catalog.workspacePins.entries.length = 0) :
    (⟨catalog, ∅, ∅, []⟩ : WorkspaceInstance).Empty := by
  simp only [length_eq_zero_iff] at none
  exact ⟨AList.ext none.1, AList.ext none.2.1, AList.ext none.2.2, rfl, rfl⟩

theorem bareInstance_empty : bareInstance.Empty := by
  have none : bareCold.catalog.workspaces.entries.length = 0 ∧
      bareCold.catalog.workspaceNames.entries.length = 0 ∧
      bareCold.catalog.workspacePins.entries.length = 0 := by decide +kernel
  exact .of_entries none

theorem WorkspaceRun.bareCheckout (run : WorkspaceRun .reference condition s₀ s)
    (fault : CheckoutFault) (workspace : UInt8) (meets : condition s (bareRequest workspace)) :
    WorkspaceRun .reference condition s₀ (bareCheckout fault workspace s) :=
  run.checkout _ _ fault _ meets

theorem bareInstance_withdraws_unready :
    WithdrawsUnready (bareCheckout .published 1 bareInstance)
      (reconcileWorkspacePublications none (bareCheckout .published 1 bareInstance)).1 := by
  have run : WorkspaceRun .reference WorkspaceInstance.NameFree bareInstance
      (bareCheckout .published 1 bareInstance) := by
    apply WorkspaceRun.start.bareCheckout
    intro _ id m found
    simp [bareInstance] at found
  exact (workspaceRun_withdraws_unready bareInstance_empty).2 _ run none

/-- A first checkout stops after its manifest; a second one then publishes the same name. -/
def overlapped : WorkspaceInstance :=
  bareCheckout .none 2 (bareCheckout .manifestWritten 1 bareInstance)

theorem overlapped_ready_withdrawn : bareInstance.Empty ∧
    WorkspaceRun .reference (fun _ _ => True) bareInstance overlapped ∧
    ¬ WithdrawsUnready overlapped (reconcileWorkspacePublications none overlapped).1 := by
  have run : WorkspaceRun .reference (fun _ _ => True) bareInstance overlapped :=
    (WorkspaceRun.start.bareCheckout _ _ trivial).bareCheckout _ _ trivial
  have before : overlapped.trash.length = 0 ∧
      overlapped.catalog.workspaceName workName.bytes = some (bareRequest 2).manifest.workspaceId ∧
      (overlapped.catalog.workspace (bareRequest 2).manifest.workspaceId).isSome = true ∧
      (overlapped.catalog.workspacePin (bareRequest 2).manifest.workspaceId).isSome = true ∧
      (reconcileWorkspacePublications none overlapped).1.trash.map (·.1) = [workName.bytes] := by
    decide +kernel
  obtain ⟨clean, named, record, pin, after⟩ := before
  refine ⟨bareInstance_empty, run, ?_⟩
  rintro ⟨moved, trash, unready⟩
  rw [length_eq_zero_iff.mp clean, append_nil] at trash
  rw [trash] at after
  obtain ⟨entry, member, sameName⟩ : ∃ entry ∈ moved, entry.1 = workName.bytes :=
    mem_map.mp (after ▸ mem_singleton_self _)
  apply unready entry member
  rw [sameName, (reconcileWorkspacePublications_reconciled none).catalog]
  exact ⟨_, named, record, pin⟩
end Runs
end ReflinkForest
