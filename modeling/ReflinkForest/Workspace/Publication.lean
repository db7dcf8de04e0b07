import ReflinkForest.Workspace.ColdSource
import ReflinkForest.Workspace.Manifest

/-! Publishing, deleting and reconciling durable workspaces. A fault says where a call is cut short.
-/
namespace ReflinkForest
open Bytes

abbrev WorkspaceManifests := FinMap WorkspaceId WorkspaceManifest

/-- What survives a restart. The trash remembers the name a directory had. -/
structure WorkspaceInstance where
  catalog : InMemoryCatalog
  manifests : WorkspaceManifests
  directories : FinMap Str Staging
  trash : List (Str × Staging)

inductive WorkspacePersistenceError where
  | manifest (error : WorkspaceManifestError)
  | catalog (error : CatalogError)
  | nameAlreadyPublished (id : WorkspaceId)
  | existingWorkspaceMismatch
  | existingWorkspaceIncomplete

inductive WorkspacePublishError where
  | destinationExists

inductive WorkspaceReconciliationError where
  | interrupted
  | manifest (error : WorkspaceManifestError)
  | tooManyManifests (maximum : ℕ)
  | readyWorkspaceMissing (name : Str)

inductive WorkspaceDeletionError where
  | interrupted
  | manifest (error : WorkspaceManifestError)
  | catalog (error : CatalogError)
  | notReady (id : WorkspaceId)
  deriving DecidableEq

inductive PersistedWorkspaceCheckoutError where
  | interrupted
  | manifestInputMismatch
  | replaceNotSupported
  | planning (error : WorkspaceError)
  | materialize (error : MaterializeError WorkspaceError)
  | manifest (error : WorkspaceManifestError)
  | publish (error : WorkspacePublishError)
  | persistence (error : WorkspacePersistenceError)
  | rollback (persistence : WorkspacePersistenceError) (rollback : WorkspaceReconciliationError)

def readWorkspaceManifest (manifests : WorkspaceManifests) (id : WorkspaceId) :
    Except WorkspaceManifestError WorkspaceManifest :=
  .ofOption .notFound (manifests.lookup id)

/-- A manifest file appears complete or not at all. -/
def writeWorkspaceManifest (manifests : WorkspaceManifests)
    (manifest : WorkspaceManifest) :
    Except WorkspaceManifestError WorkspaceManifests := do
  manifest.validate
  let _ ← manifest.encodeWorkspaceManifest
  .ok (manifests.insert manifest.workspaceId manifest)

def ensureWorkspaceManifest (manifests : WorkspaceManifests)
    (manifest : WorkspaceManifest) :
    Except WorkspaceManifestError WorkspaceManifests :=
  match manifests.lookup manifest.workspaceId with
  | some existing => if existing = manifest then .ok manifests else .error .invalid
  | none => writeWorkspaceManifest manifests manifest

/-- Record, name and pin of a workspace, committed together. -/
def readyBatch (manifest : WorkspaceManifest) (bytes : Str) : List Operation :=
  [.workspace manifest.workspaceId bytes, .workspaceName manifest.name manifest.workspaceId,
    .workspacePin manifest.workspaceId manifest.generation]

def checkName (catalog : InMemoryCatalog) (name : Str) (id : WorkspaceId) :
    Except WorkspacePersistenceError Unit :=
  match catalog.workspaceName name with
  | some existing => Except.require (existing = id) (.nameAlreadyPublished existing)
  | none => .ok ()

/-- `fails` makes the catalog refuse the batch. -/
def persistReadyWorkspace (fails : Bool) (catalog : InMemoryCatalog)
    (manifests : WorkspaceManifests) (manifest : WorkspaceManifest) :
    Except WorkspacePersistenceError
      (InMemoryCatalog × WorkspaceManifests) := do
  checkName catalog manifest.name manifest.workspaceId
  let manifests ← .mapErr .manifest (ensureWorkspaceManifest manifests manifest)
  let bytes ← .mapErr .manifest manifest.encodeWorkspaceManifest
  match catalog.workspace manifest.workspaceId with
  | some existing =>
    .require (existing = bytes) .existingWorkspaceMismatch
    .require (catalog.workspaceName manifest.name = some manifest.workspaceId ∧
      catalog.workspacePin manifest.workspaceId = some manifest.generation)
      .existingWorkspaceIncomplete
    .ok (catalog, manifests)
  | none =>
    .require (fails = false) (.catalog (.backend "the batch was not committed"))
    let catalog ← .mapErr .catalog (catalog.apply (readyBatch manifest bytes))
    .ok (catalog, manifests)

def loadReadyWorkspace (catalog : InMemoryCatalog)
    (manifests : WorkspaceManifests) (id : WorkspaceId) :
    Except WorkspaceManifestError (Option WorkspaceManifest) :=
  match catalog.workspace id, catalog.workspacePin id with
  | some record, some pin => do
    let manifest ← readWorkspaceManifest manifests id
    let bytes ← manifest.encodeWorkspaceManifest
    .require (manifest.workspaceId = id ∧ bytes = record) .invalid
    if catalog.workspaceName manifest.name = some id ∧ pin = manifest.generation then
      .ok (some manifest)
    else .ok none
  | _, _ => .ok none

namespace WorkspaceInstance
/-- Moves the public directory of a manifest to the trash, if there is one. -/
def withdrawWorkspace (s : WorkspaceInstance) (manifest : WorkspaceManifest) : WorkspaceInstance :=
  match s.directories.lookup manifest.name with
  | none => s
  | some tree =>
    { s with
      directories := s.directories.erase manifest.name
      trash := (manifest.name, tree) :: s.trash }
end WorkspaceInstance

section Checkout
inductive ReplacePolicy where
  | reject | replaceAtomically
  deriving DecidableEq

structure PersistedWorkspaceCheckoutRequest where
  repository : RepoId
  commit : GitOid
  name : WorkspaceName
  limits : CheckoutLimits
  gitlinkPolicy : GitlinkPolicy
  replace : ReplacePolicy
  staging : Staging
  manifest : WorkspaceManifestInput

/-- Where a checkout is cut short: before its manifest is written, after that, after the directory
became visible, or in the catalog batch. Then the rollback may be cut short as well. -/
inductive CheckoutFault where
  | none | beforeManifest | manifestWritten | published
  | catalog (rollsBack : Bool)
  deriving DecidableEq

def CheckoutFault.rollsBack : CheckoutFault → Bool
  | .catalog rollsBack => rollsBack
  | _ => true

variable (P : Primitives) (chunks : ChunkStore) (cache : Cache)

/-- Everything before the first durable effect. -/
def prepareCheckout (request : PersistedWorkspaceCheckoutRequest) (catalog : InMemoryCatalog) :
    Except PersistedWorkspaceCheckoutError (WorkspaceManifest × Staging) := do
  .require (request.manifest.repository = request.repository ∧
    request.manifest.commit = request.commit ∧ request.manifest.name = request.name)
    .manifestInputMismatch
  .require (request.replace = .reject) .replaceNotSupported
  .mapErr .persistence
    (checkName catalog request.name.bytes request.manifest.workspaceId)
  let source : ColdWorkspaceSource := ⟨request.repository, catalog, chunks, none⟩
  let plan ← .mapErr .planning (source.planCommit P request.commit request.limits)
  let manifest ← .mapErr .manifest (WorkspaceManifest.fromPlan request.manifest plan)
  let stage ← .mapErr .materialize (materializeRaw P (source.rawCheckoutSource P)
    request.gitlinkPolicy plan cache request.staging).2
  .ok (manifest, stage)

def publishCheckout (fault : CheckoutFault) (s : WorkspaceInstance) (manifest : WorkspaceManifest)
    (stage : Staging) : WorkspaceInstance × Except PersistedWorkspaceCheckoutError Str :=
  if fault = .beforeManifest then (s, .error .interrupted)
  else
    match ensureWorkspaceManifest s.manifests manifest with
    | .error e => (s, .error (.manifest e))
    | .ok manifests =>
      let written := { s with manifests := manifests }
      if fault = .manifestWritten then (written, .error .interrupted)
      else if manifest.name ∈ s.directories then (written, .error (.publish .destinationExists))
      else
        let visible := { written with directories := s.directories.insert manifest.name stage }
        if fault = .published then (visible, .error .interrupted)
        else
          match persistReadyWorkspace (fault matches .catalog _) s.catalog manifests manifest with
          | .ok (catalog, manifests) =>
            ({ visible with catalog := catalog, manifests := manifests }, .ok manifest.name)
          | .error e =>
            if fault.rollsBack then (visible.withdrawWorkspace manifest, .error (.persistence e))
            else (visible, .error (.rollback e .interrupted))

def checkoutColdCommitAndPersist (fault : CheckoutFault)
    (request : PersistedWorkspaceCheckoutRequest) (s : WorkspaceInstance) :
    WorkspaceInstance × Except PersistedWorkspaceCheckoutError Str :=
  match prepareCheckout P chunks cache request s.catalog with
  | .error e => (s, .error e)
  | .ok (manifest, stage) => publishCheckout fault s manifest stage
end Checkout

/-- Where a deletion is cut short: before anything happened, after the directory was withdrawn, or
after the pin was released. -/
inductive DeleteFault where
  | none | beforeWithdrawal | withdrawn | unpinned
  deriving DecidableEq

def deletePersistedWorkspace (fault : DeleteFault) (s : WorkspaceInstance) (id : WorkspaceId) :
    WorkspaceInstance × Except WorkspaceDeletionError Unit :=
  match loadReadyWorkspace s.catalog s.manifests id with
  | .error e => (s, .error (.manifest e))
  | .ok none => (s, .error (.notReady id))
  | .ok (some manifest) =>
    if fault = .beforeWithdrawal then (s, .error .interrupted)
    else
      let hidden := s.withdrawWorkspace manifest
      if fault = .withdrawn then (hidden, .error .interrupted)
      else
        match hidden.catalog.apply [.deleteWorkspacePin id] with
        | .error e => (hidden, .error (.catalog e))
        | .ok catalog =>
          let released := { hidden with catalog := catalog }
          if fault = .unpinned then (released, .error .interrupted)
          else ({ released with manifests := released.manifests.erase id }, .ok ())

structure WorkspacePublicationReconciliation where
  manifestsExamined : ℕ := 0
  readyWorkspaces : ℕ := 0
  incompleteWorkspacesWithdrawn : ℕ := 0

def maxWorkspacePublicationReconciliation : ℕ := 4096

def reconcileManifest (s : WorkspaceInstance) (result : WorkspacePublicationReconciliation)
    (manifest : WorkspaceManifest) :
    WorkspaceInstance × Except WorkspaceReconciliationError WorkspacePublicationReconciliation :=
  let examined := { result with manifestsExamined := result.manifestsExamined + 1 }
  match loadReadyWorkspace s.catalog s.manifests manifest.workspaceId with
  | .error e => (s, .error (.manifest e))
  | .ok (some _) =>
    if manifest.name ∈ s.directories then
      (s, .ok { examined with readyWorkspaces := examined.readyWorkspaces + 1 })
    else (s, .error (.readyWorkspaceMissing manifest.name))
  | .ok none =>
    if manifest.name ∈ s.directories then
      (s.withdrawWorkspace manifest, .ok { examined with
        incompleteWorkspacesWithdrawn := examined.incompleteWorkspacesWithdrawn + 1 })
    else (s, .ok examined)

/-- The loop over the manifests; it may be cut short before any of them. -/
def reconcileLoop (stop : Option ℕ) : WorkspaceInstance → WorkspacePublicationReconciliation →
    List WorkspaceManifest →
    WorkspaceInstance × Except WorkspaceReconciliationError WorkspacePublicationReconciliation
  | s, result, [] => (s, .ok result)
  | s, result, manifest :: manifests =>
    if stop = some result.manifestsExamined then (s, .error .interrupted)
    else
      match reconcileManifest s result manifest with
      | (s, .error e) => (s, .error e)
      | (s, .ok result) => reconcileLoop stop s result manifests

/-- Manifest files in the order of their names, which are the hexadecimal IDs. -/
def WorkspaceInstance.manifestList (s : WorkspaceInstance) : List WorkspaceManifest :=
  (s.manifests.sortedBy fun e => e.1.bytes.toList).map (·.2)

def reconcileWorkspacePublications (stop : Option ℕ) (s : WorkspaceInstance) :
    WorkspaceInstance × Except WorkspaceReconciliationError WorkspacePublicationReconciliation :=
  if maxWorkspacePublicationReconciliation < s.manifestList.length then
    (s, .error (.tooManyManifests maxWorkspacePublicationReconciliation))
  else reconcileLoop stop s {} s.manifestList

end ReflinkForest
