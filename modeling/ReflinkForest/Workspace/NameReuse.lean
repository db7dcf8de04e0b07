import ReflinkForest.Index.AtomicBatches
import ReflinkForest.Workspace.StartupRecovery

/-! What becomes of the name of a deleted workspace. -/
namespace ReflinkForest
open Bytes Except InMemoryCatalog

variable {P : Primitives} {chunks : ChunkStore} {cache : Cache}
  {request : PersistedWorkspaceCheckoutRequest} {s s' s₀ : WorkspaceInstance}
  {manifest m : WorkspaceManifest} {stage : Staging} {id : WorkspaceId} {name : Str}

/-- Operations of imports, compactions and jobs. -/
def Operation.Foreign : Operation → Prop
  | .workspace _ _ | .workspaceName _ _ | .workspacePin _ _ | .deleteWorkspacePin _ => False
  | _ => True

def CatalogCall.Foreign : CatalogCall → Prop
  | .apply batch => ∀ op ∈ batch, op.Foreign
  | .rebuild _ => True

/-- Checkouts, deletions and restarts, cut short anywhere, among other uses of the catalog. -/
inductive WorkspaceLife (P : Primitives) (s₀ : WorkspaceInstance) : WorkspaceInstance → Prop
  | start : WorkspaceLife P s₀ s₀
  | checkout {s : WorkspaceInstance} (life : WorkspaceLife P s₀ s) (chunks : ChunkStore)
      (cache : Cache) (fault : CheckoutFault) (request : PersistedWorkspaceCheckoutRequest) :
      WorkspaceLife P s₀ (checkoutColdCommitAndPersist P chunks cache fault request s).1
  | delete {s : WorkspaceInstance} (life : WorkspaceLife P s₀ s) (fault : DeleteFault)
      (id : WorkspaceId) : WorkspaceLife P s₀ (deletePersistedWorkspace fault s id).1
  | restart {s : WorkspaceInstance} (life : WorkspaceLife P s₀ s) (stop : Option ℕ) :
      WorkspaceLife P s₀ (reconcileWorkspacePublications stop s).1
  | catalog {s : WorkspaceInstance} (life : WorkspaceLife P s₀ s) {call : CatalogCall}
      {catalog : InMemoryCatalog} (foreign : call.Foreign)
      (called : s.catalog.call call = .ok catalog) :
      WorkspaceLife P s₀ { s with catalog := catalog }

theorem CatalogCall.Foreign.workspaces {call : CatalogCall} {c c' : InMemoryCatalog}
    (foreign : call.Foreign) (called : c.call call = .ok c') :
    c'.workspaces = c.workspaces ∧ c'.workspaceNames = c.workspaceNames ∧
      c'.workspacePins = c.workspacePins := by
  cases call with
  | apply batch =>
    have keeps {α : Type} (query : InMemoryCatalog → α)
        (each : ∀ op : Operation, op.Foreign → ∀ c, query (c.stage op) = query c) :
        query c' = query c :=
      apply_frame query called fun op listed => each op (foreign op listed)
    refine ⟨keeps (·.workspaces) ?_, keeps (·.workspaceNames) ?_, keeps (·.workspacePins) ?_⟩
    all_goals
      intro op other c
      cases op <;> first | rfl | exact other.elim
  | rebuild step =>
    obtain ⟨objects, rebuilding, rfl⟩ := rebuildStep_frame called
    exact ⟨rfl, rfl, rfl⟩

theorem Consistent.foreign {catalog : InMemoryCatalog} (inv : Consistent s)
    (workspaces : catalog.workspaces = s.catalog.workspaces)
    (names : catalog.workspaceNames = s.catalog.workspaceNames)
    (pins : catalog.workspacePins = s.catalog.workspacePins) :
    Consistent { s with catalog := catalog } := by
  have workspace : catalog.workspace = s.catalog.workspace := by
    funext id
    exact congrArg _ workspaces
  have workspaceName : catalog.workspaceName = s.catalog.workspaceName := by
    funext name
    exact congrArg _ names
  have workspacePin : catalog.workspacePin = s.catalog.workspacePin := by
    funext id
    exact congrArg _ pins
  refine ⟨inv.own, ?_, ?_, ?_⟩
  · rw [workspaceName, workspace]
    exact inv.recorded
  · rw [workspaceName]
    exact inv.oneName
  · intro id generation pin
    rw [workspacePin] at pin
    obtain ⟨m, found, published⟩ := inv.pinned id generation pin
    exact ⟨m, found, published.own, published.encodes, workspace ▸ published.record,
      workspacePin ▸ published.pin, workspaceName ▸ published.name⟩

theorem WorkspaceLife.consistent (empty : s₀.Empty) (life : WorkspaceLife P s₀ s) :
    Consistent s := by
  induction life with
  | start => exact empty.consistent
  | checkout _ chunks cache fault request ih =>
    rcases checkoutColdCommitAndPersist_effect fault with same | ⟨_, _, _, effect⟩
    · rw [same]
      exact ih
    · exact ih.checkout effect
  | delete _ fault id ih => exact ih.delete (deletePersistedWorkspace_effect fault)
  | restart _ stop ih => exact ih.reconcile (reconcileWorkspacePublications_reconciled stop)
  | catalog _ foreign called ih =>
    obtain ⟨workspaces, names, pins⟩ := foreign.workspaces called
    exact ih.foreign workspaces names pins

theorem WorkspaceLife.trans (first : WorkspaceLife P s₀ s) (later : WorkspaceLife P s s') :
    WorkspaceLife P s₀ s' := by
  induction later with
  | start => exact first
  | checkout _ chunks cache fault request ih => exact ih.checkout chunks cache fault request
  | delete _ fault id ih => exact ih.delete fault id
  | restart _ stop ih => exact ih.restart stop
  | catalog _ foreign called ih => exact ih.catalog foreign called

theorem CheckoutEffect.workspaceName
    (free : ∀ other, s.catalog.workspaceName manifest.name = some other →
      other = manifest.workspaceId)
    (effect : CheckoutEffect s manifest stage s') (bound : s.catalog.workspaceName name = some id) :
    s'.catalog.workspaceName name = some id := by
  cases effect with
  | nothing | wrote _ | shown _ _ | rolledBack _ _ _ => exact bound
  | ready ensured _ persisted =>
    have found := (ensureWorkspaceManifest_eq_ok ensured).1
    obtain ⟨_, _, _, ⟨rfl, _⟩ | ⟨_, applied⟩⟩ := persistReadyWorkspace_eq_ok found persisted
    · exact bound
    · show InMemoryCatalog.workspaceName _ name = some id
      rw [(readyBatch_applied applied).2.1]
      split_ifs with same
      · rw [free id (same ▸ bound)]
      · exact bound

theorem DeleteEffect.workspaceName {other : WorkspaceId} (effect : DeleteEffect s other s')
    (name : Str) : s'.catalog.workspaceName name = s.catalog.workspaceName name := by
  cases effect with
  | nothing => rfl
  | withdrawn _ => rw [withdrawWorkspace_catalog]
  | released _ applied | removed _ applied => exact (deletePin_applied applied).2.1 name

/-- Once bound, a name keeps its workspace. -/
theorem WorkspaceLife.workspaceName (life : WorkspaceLife P s₀ s)
    (bound : s₀.catalog.workspaceName name = some id) :
    s.catalog.workspaceName name = some id := by
  induction life with
  | start => exact bound
  | checkout _ chunks cache fault request ih =>
    rcases checkoutColdCommitAndPersist_effect fault with same | ⟨_, _, prepared, effect⟩
    · rw [same]
      exact ih
    · exact effect.workspaceName (prepareCheckout_eq_ok prepared).2.2.2 ih
  | delete _ fault id ih =>
    rw [(deletePersistedWorkspace_effect fault).workspaceName]
    exact ih
  | restart _ stop ih =>
    rw [(reconcileWorkspacePublications_reconciled stop).catalog]
    exact ih
  | catalog _ foreign called ih =>
    rw [← ih]
    exact congrArg _ (foreign.workspaces called).2.1

theorem deletePersistedWorkspace_eq_ok {fault : DeleteFault}
    (deleted : deletePersistedWorkspace fault s id = (s', .ok ())) :
    ∃ m, loadReadyWorkspace s.catalog s.manifests id = .ok (some m) ∧
      s'.catalog.workspaceName m.name = some id := by
  have effect : DeleteEffect s id (deletePersistedWorkspace fault s id).1 :=
    deletePersistedWorkspace_effect fault
  rw [deleted] at effect
  by_cases ready : ∃ m, loadReadyWorkspace s.catalog s.manifests id = .ok (some m)
  · obtain ⟨m, loaded⟩ := ready
    refine ⟨m, loaded, ?_⟩
    rw [effect.workspaceName]
    exact (loadReadyWorkspace_eq_some_iff.mp loaded).2.name
  · unfold deletePersistedWorkspace at deleted
    split at deleted
    · cases deleted
    · cases deleted
    · exact absurd ⟨_, ‹_›⟩ ready

section Checkout
/-- Planning and materialization, which come after the name check. -/
def planCheckout (P : Primitives) (chunks : ChunkStore) (cache : Cache)
    (request : PersistedWorkspaceCheckoutRequest) (catalog : InMemoryCatalog) :
    Except PersistedWorkspaceCheckoutError (WorkspaceManifest × Staging) := do
  let source : ColdWorkspaceSource := ⟨request.repository, catalog, chunks, none⟩
  let plan ← .mapErr .planning (source.planCommit P request.commit request.limits)
  let manifest ← .mapErr .manifest (WorkspaceManifest.fromPlan request.manifest plan)
  let stage ← .mapErr .materialize (materializeRaw P (source.rawCheckoutSource P)
    request.gitlinkPolicy plan cache request.staging).2
  .ok (manifest, stage)

/-- The request is well formed, and its commit can be planned and materialized. -/
structure Materializes (P : Primitives) (chunks : ChunkStore) (cache : Cache)
    (request : PersistedWorkspaceCheckoutRequest) (catalog : InMemoryCatalog)
    (manifest : WorkspaceManifest) (stage : Staging) : Prop where
  input : request.manifest.repository = request.repository ∧
    request.manifest.commit = request.commit ∧ request.manifest.name = request.name
  replace : request.replace = .reject
  planned : planCheckout P chunks cache request catalog = .ok (manifest, stage)

variable {catalog : InMemoryCatalog} {fault : CheckoutFault}
  {manifests : WorkspaceManifests}

theorem Materializes.prepareCheckout
    (materializes : Materializes P chunks cache request catalog manifest stage) :
    prepareCheckout P chunks cache request catalog =
      (Except.mapErr .persistence
        (checkName catalog request.name.bytes request.manifest.workspaceId)).map
          fun _ => (manifest, stage) := by
  have split : ReflinkForest.prepareCheckout P chunks cache request catalog = (do
      Except.require (request.manifest.repository = request.repository ∧
        request.manifest.commit = request.commit ∧ request.manifest.name = request.name)
        .manifestInputMismatch
      Except.require (request.replace = .reject) .replaceNotSupported
      Except.mapErr .persistence
        (checkName catalog request.name.bytes request.manifest.workspaceId)
      planCheckout P chunks cache request catalog) := rfl
  rw [split, require_pos materializes.input, ok_bind,
    require_pos materializes.replace, ok_bind, materializes.planned]
  cases checkName catalog request.name.bytes request.manifest.workspaceId <;> rfl

/-- A name that belongs to another workspace stops the checkout before it does anything. -/
theorem checkoutColdCommitAndPersist_of_bound {other : WorkspaceId}
    (materializes : Materializes P chunks cache request s.catalog manifest stage)
    (bound : s.catalog.workspaceName request.name.bytes = some other)
    (different : other ≠ request.manifest.workspaceId) :
    checkoutColdCommitAndPersist P chunks cache fault request s =
      (s, .error (.persistence (.nameAlreadyPublished other))) := by
  have refused : checkName s.catalog request.name.bytes request.manifest.workspaceId =
      .error (.nameAlreadyPublished other) := by
    unfold checkName
    rw [bound]
    exact require_neg different
  unfold checkoutColdCommitAndPersist
  rw [materializes.prepareCheckout, refused]
  rfl

/-- Neither the catalog nor a manifest knows the ID. -/
def Unused (s : WorkspaceInstance) (id : WorkspaceId) : Prop :=
  s.catalog.workspace id = none ∧ s.manifests.lookup id = none

/-- A checkout that is not cut short returns, and its workspace is ready. -/
def BecomesReady (P : Primitives) (chunks : ChunkStore) (cache : Cache)
    (request : PersistedWorkspaceCheckoutRequest) (s : WorkspaceInstance)
    (manifest : WorkspaceManifest) : Prop :=
  ∃ s', checkoutColdCommitAndPersist P chunks cache .none request s = (s', .ok manifest.name) ∧
    loadReadyWorkspace s'.catalog s'.manifests manifest.workspaceId = .ok (some manifest)

section
variable (encodes : manifest.encodeWorkspaceManifest = .ok manifest.encodeBytes)
include encodes

theorem ensureWorkspaceManifest_unused
    (absent : manifests.lookup manifest.workspaceId = none) :
    ensureWorkspaceManifest manifests manifest =
      .ok (manifests.insert manifest.workspaceId manifest) := by
  have valid := (WorkspaceManifest.encodeWorkspaceManifest_eq_ok encodes).1
  unfold ensureWorkspaceManifest
  rw [absent]
  simp only [writeWorkspaceManifest, valid, encodes, ok_bind]

theorem persistReadyWorkspace_unused
    (found : manifests.lookup manifest.workspaceId = some manifest)
    (missing : catalog.workspace manifest.workspaceId = none)
    (unnamed : catalog.workspaceName manifest.name = none)
    (accepts : catalog.objectLocationRebuildInProgress = false) :
    ∃ catalog', persistReadyWorkspace false catalog manifests manifest =
        .ok (catalog', manifests) ∧ Published catalog' manifest.workspaceId manifest := by
  have applied : catalog.apply (readyBatch manifest manifest.encodeBytes) = .ok _ :=
    apply_of_no_conflict accepts
      (by simp [readyBatch, InMemoryCatalog.writesRebuildMarker])
      (by simp [readyBatch, InMemoryCatalog.aliasConflict])
  obtain ⟨workspace, workspaceName, workspacePin⟩ := readyBatch_applied applied
  refine ⟨_, ?_, rfl, encodes, by rw [workspace, if_pos rfl], by rw [workspacePin, if_pos rfl],
    by rw [workspaceName, if_pos rfl]⟩
  have ensured : ensureWorkspaceManifest manifests manifest = .ok manifests := by
    unfold ensureWorkspaceManifest
    simp only [found, if_true]
  simp only [persistReadyWorkspace, checkName, unnamed, ensured, encodes, missing, applied,
    mapErr_ok, ok_bind, require_pos trivial]

theorem publishCheckout_unused
    (unused : Unused s manifest.workspaceId)
    (accepts : s.catalog.objectLocationRebuildInProgress = false)
    (unnamed : s.catalog.workspaceName manifest.name = none)
    (hidden : manifest.name ∉ s.directories) :
    ∃ s', publishCheckout .none s manifest stage = (s', .ok manifest.name) ∧
      loadReadyWorkspace s'.catalog s'.manifests manifest.workspaceId = .ok (some manifest) := by
  have found : (s.manifests.insert manifest.workspaceId manifest).lookup manifest.workspaceId =
      some manifest := AList.lookup_insert _
  obtain ⟨catalog, persisted, published⟩ :=
    persistReadyWorkspace_unused encodes found unused.1 unnamed accepts
  refine ⟨{ s with
    catalog := catalog, manifests := s.manifests.insert manifest.workspaceId manifest
    directories := s.directories.insert manifest.name stage }, ?_,
    loadReadyWorkspace_eq_some_iff.mpr ⟨found, published⟩⟩
  unfold publishCheckout
  simp only [reduceCtorEq, if_false, ensureWorkspaceManifest_unused encodes unused.2, hidden,
    persisted]
end

theorem publishCheckout_ok_hidden (done : publishCheckout fault s manifest stage = (s', .ok name)) :
    manifest.name ∉ s.directories := by
  unfold publishCheckout at done
  intro shown
  split at done
  · cases done
  split at done
  · cases done
  dsimp only at done
  split at done
  · cases done
  cases done

/-- A checkout under an unused ID succeeds exactly if the catalog does not bind the name and no
directory has it. -/
theorem becomesReady_iff (inv : Consistent s)
    (materializes : Materializes P chunks cache request s.catalog manifest stage)
    (unused : Unused s request.manifest.workspaceId)
    (accepts : s.catalog.objectLocationRebuildInProgress = false) :
    BecomesReady P chunks cache request s manifest ↔
      s.catalog.workspaceName request.name.bytes = none ∧
        request.name.bytes ∉ s.directories := by
  constructor
  · rintro ⟨s', done, _⟩
    unfold checkoutColdCommitAndPersist at done
    split at done
    · cases done
    · rename_i manifest' stage' prepared
      obtain ⟨sameId, named, _, free⟩ := prepareCheckout_eq_ok prepared
      rw [← named]
      rw [← sameId] at unused
      exact ⟨inv.fresh free unused.1, publishCheckout_ok_hidden done⟩
  · rintro ⟨unnamed, hidden⟩
    have prepared : prepareCheckout P chunks cache request s.catalog = .ok (manifest, stage) := by
      rw [materializes.prepareCheckout, checkName, unnamed]
      rfl
    obtain ⟨sameId, named, encodes, _⟩ := prepareCheckout_eq_ok prepared
    rw [← named] at unnamed hidden
    rw [← sameId] at unused
    unfold BecomesReady checkoutColdCommitAndPersist
    rw [prepared]
    exact publishCheckout_unused encodes unused accepts unnamed hidden
end Checkout

/-- A checkout under an unused ID succeeds exactly if its name is free; the name of a deleted
workspace never is again, whatever happens after the deletion. -/
theorem deletedName_reusable_iff {later : WorkspaceInstance} (empty : s₀.Empty)
    (before : WorkspaceLife P s₀ s)
    (deleted : deletePersistedWorkspace .none s id = (s', .ok ()))
    (loaded : loadReadyWorkspace s.catalog s.manifests id = .ok (some m))
    (after : WorkspaceLife P s' later)
    (materializes : Materializes P chunks cache request later.catalog manifest stage)
    (unused : Unused later request.manifest.workspaceId)
    (accepts : later.catalog.objectLocationRebuildInProgress = false) :
    (BecomesReady P chunks cache request later manifest ↔
      later.catalog.workspaceName request.name.bytes = none ∧
        request.name.bytes ∉ later.directories) ∧
    (request.name.bytes = m.name → ∀ fault,
      checkoutColdCommitAndPersist P chunks cache fault request later =
        (later, .error (.persistence (.nameAlreadyPublished id)))) := by
  have deletion : WorkspaceLife P s₀ s' := by
    have step := before.delete .none id
    rwa [deleted] at step
  have inv := (deletion.trans after).consistent empty
  refine ⟨becomesReady_iff inv materializes unused accepts, ?_⟩
  intro sameName fault
  obtain ⟨m', loaded', bound⟩ := deletePersistedWorkspace_eq_ok deleted
  rw [loaded] at loaded'
  cases loaded'
  have kept := after.workspaceName bound
  rw [← sameName] at kept
  apply checkoutColdCommitAndPersist_of_bound materializes kept
  rintro rfl
  exact inv.unnamed unused.1 _ kept

def bareDeleted : WorkspaceInstance :=
  (deletePersistedWorkspace .none bareReady (bareRequest 1).manifest.workspaceId).1

theorem bareReady_life : WorkspaceLife .reference bareInstance bareReady :=
  WorkspaceLife.start.checkout bareCold.chunks ∅ .none (bareRequest 1)

/-- All that is evaluated, at once: the kernel computes the two states for it only once. -/
theorem bareDeleted_facts :
    (deletePersistedWorkspace .none bareReady (bareRequest 1).manifest.workspaceId).2 = .ok () ∧
    (bareReady.manifests.lookup (bareRequest 1).manifest.workspaceId).map (·.name) =
      some (bareRequest 2).name.bytes ∧
    (planCheckout .reference bareCold.chunks ∅ (bareRequest 2) bareDeleted.catalog).toBool = true ∧
    (bareDeleted.catalog.workspace (bareRequest 2).manifest.workspaceId).isNone = true ∧
    (bareDeleted.manifests.lookup (bareRequest 2).manifest.workspaceId).isNone = true ∧
    bareDeleted.catalog.objectLocationRebuildInProgress = false ∧
    (bareRequest 2).name.bytes ∉ bareDeleted.directories := by
  decide +kernel

theorem bareDeleted_eq : deletePersistedWorkspace .none bareReady
    (bareRequest 1).manifest.workspaceId = (bareDeleted, .ok ()) := by
  rw [bareDeleted, ← bareDeleted_facts.1, Prod.mk.eta]

theorem bareReady_loaded : ∃ m, loadReadyWorkspace bareReady.catalog bareReady.manifests
    (bareRequest 1).manifest.workspaceId = .ok (some m) ∧ m.name = (bareRequest 2).name.bytes := by
  obtain ⟨m, loaded, _⟩ := deletePersistedWorkspace_eq_ok bareDeleted_eq
  have names := bareDeleted_facts.2.1
  rw [(loadReadyWorkspace_eq_some_iff.mp loaded).1] at names
  exact ⟨m, loaded, Option.some.inj names⟩

theorem bareRequest_materializes : ∃ manifest stage, Materializes .reference bareCold.chunks ∅
    (bareRequest 2) bareDeleted.catalog manifest stage := by
  obtain ⟨_, _, planned, _⟩ := bareDeleted_facts
  obtain ⟨⟨manifest, stage⟩, planned⟩ := exists_ok_of_toBool planned
  exact ⟨manifest, stage, ⟨rfl, rfl, rfl⟩, rfl, planned⟩

theorem bareRequest_unused : Unused bareDeleted (bareRequest 2).manifest.workspaceId := by
  obtain ⟨_, _, _, record, manifest, _⟩ := bareDeleted_facts
  exact ⟨Option.isNone_iff_eq_none.mp record, Option.isNone_iff_eq_none.mp manifest⟩

theorem bareDeleted_accepts : bareDeleted.catalog.objectLocationRebuildInProgress = false :=
  bareDeleted_facts.2.2.2.2.2.1

theorem bareDeleted_name_taken : checkoutColdCommitAndPersist .reference bareCold.chunks ∅ .none
    (bareRequest 2) bareDeleted = (bareDeleted, .error (.persistence (.nameAlreadyPublished
      (bareRequest 1).manifest.workspaceId))) := by
  obtain ⟨manifest, stage, materializes⟩ := bareRequest_materializes
  obtain ⟨m, loaded, named⟩ := bareReady_loaded
  have reusable := deletedName_reusable_iff bareInstance_empty bareReady_life bareDeleted_eq loaded
    .start materializes bareRequest_unused bareDeleted_accepts
  exact reusable.2 named.symm .none

/-- The name of the only workspace is not given to a second one after its deletion. -/
theorem bareDeleted_name_lost : ¬ ∀ (P : Primitives) (s₀ s s' later : WorkspaceInstance)
    (id : WorkspaceId) (m manifest : WorkspaceManifest) (chunks : ChunkStore) (cache : Cache)
    (request : PersistedWorkspaceCheckoutRequest) (stage : Staging),
    s₀.Empty → WorkspaceLife P s₀ s →
    deletePersistedWorkspace .none s id = (s', .ok ()) →
    loadReadyWorkspace s.catalog s.manifests id = .ok (some m) →
    WorkspaceLife P s' later →
    Materializes P chunks cache request later.catalog manifest stage →
    Unused later request.manifest.workspaceId →
    later.catalog.objectLocationRebuildInProgress = false →
    request.name.bytes = m.name → request.name.bytes ∉ later.directories →
    BecomesReady P chunks cache request later manifest := by
  intro reusable
  obtain ⟨manifest, stage, materializes⟩ := bareRequest_materializes
  obtain ⟨m, loaded, named⟩ := bareReady_loaded
  have hidden := bareDeleted_facts.2.2.2.2.2.2
  obtain ⟨s', done, _⟩ := reusable _ _ _ _ _ _ m manifest _ _ _ stage bareInstance_empty
    bareReady_life bareDeleted_eq loaded .start materializes bareRequest_unused
    bareDeleted_accepts named.symm hidden
  obtain ⟨m', loaded', bound⟩ := deletePersistedWorkspace_eq_ok bareDeleted_eq
  rw [loaded] at loaded'
  cases loaded'
  rw [named] at bound
  rw [checkoutColdCommitAndPersist_of_bound materializes bound (by decide)] at done
  cases congrArg Prod.snd done

end ReflinkForest
