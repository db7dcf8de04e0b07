import ReflinkForest.Import.ManifestCodec
import ReflinkForest.Lib.Interaction

/-! Crash safety of snapshot publication. A batch may commit without its answer arriving, and a
failed lookup looks like a missing record. -/
namespace ReflinkForest
open Bytes Interaction List Program InMemoryCatalog

inductive PublicationEffect where
  | repositorySnapshot (repository : RepoId) (snapshot : SnapshotId)
  | repositorySnapshots
  | apply (batch : List Operation)
  | writeSnapshotFile (path bytes : Str)
  | readSnapshotFile (path : Str)

abbrev PublicationEffect.Answer : PublicationEffect → Type
  | .repositorySnapshot _ _ => Option SnapshotVisibility
  | .repositorySnapshots => Except CatalogError (List RepositorySnapshot)
  | .apply _ => Except CatalogError Unit
  | .writeSnapshotFile _ _ => Except SnapshotManifestError Unit
  | .readSnapshotFile _ => Except SnapshotManifestError Str

/-- What survives a crash. -/
structure PublicationWorld where
  catalog : InMemoryCatalog
  files : FinMap Str Str

def PublicationWorld.shows (w : PublicationWorld) (repository : RepoId) (snapshot : SnapshotId) :
    Option SnapshotVisibility :=
  w.catalog.repositorySnapshot repository snapshot

inductive PublicationWorld.Acts : World PublicationEffect.Answer PublicationWorld where
  | found (w : PublicationWorld) (repository : RepoId) (snapshot : SnapshotId) :
      Acts w (.repositorySnapshot repository snapshot) (w.shows repository snapshot) w
  | lookupFailed (w : PublicationWorld) (repository : RepoId) (snapshot : SnapshotId) :
      Acts w (.repositorySnapshot repository snapshot) none w
  | listed (w : PublicationWorld) :
      Acts w .repositorySnapshots (.ok w.catalog.repositorySnapshotList) w
  | listingFailed (w : PublicationWorld) (error : CatalogError) :
      Acts w .repositorySnapshots (.error error) w
  | committed (w : PublicationWorld) {batch : List Operation} {catalog : InMemoryCatalog}
      (applied : w.catalog.apply batch = .ok catalog) (answer : Except CatalogError Unit) :
      Acts w (.apply batch) answer { w with catalog }
  | refused (w : PublicationWorld) (batch : List Operation) (error : CatalogError) :
      Acts w (.apply batch) (.error error) w
  | replaced (w : PublicationWorld) (path bytes : Str)
    (answer : Except SnapshotManifestError Unit) :
      Acts w (.writeSnapshotFile path bytes) answer { w with files := w.files.insert path bytes }
  | kept (w : PublicationWorld) (path bytes : Str) (error : SnapshotManifestError) :
      Acts w (.writeSnapshotFile path bytes) (.error error) w
  | read (w : PublicationWorld) {path bytes : Str} (stored : w.files.lookup path = some bytes) :
      Acts w (.readSnapshotFile path) (.ok bytes) w
  | readFailed (w : PublicationWorld) (path : Str) (error : SnapshotManifestError) :
      Acts w (.readSnapshotFile path) (.error error) w

abbrev Publisher :=
  Program PublicationEffect PublicationEffect.Answer SnapshotPublicationError

namespace Publisher
def repositorySnapshot (repository : RepoId) (snapshot : SnapshotId) :
    Publisher (Option SnapshotVisibility) :=
  Program.send (PublicationEffect.repositorySnapshot repository snapshot)

def apply (batch : List Operation) : Publisher Unit := do
  let answer ← Program.send (.apply batch)
  Program.ofExcept (Except.mapErr .catalog answer)

def beginSnapshotPublication (manifest : SnapshotManifest) : Publisher Unit := do
  Program.ofExcept (Except.mapErr .manifest manifest.validate)
  match ← repositorySnapshot manifest.repository manifest.snapshotId with
  | some .ready => .fail .snapshotAlreadyReady
  | some .incomplete => pure ()
  | none => apply [.repositorySnapshot manifest.repository manifest.snapshotId .incomplete]

def writeSnapshotManifest (path : Str) (manifest : SnapshotManifest) : Publisher Unit := do
  Program.ofExcept (Except.mapErr .manifest manifest.validate)
  let bytes ← Program.ofExcept (Except.mapErr .manifest (encodeSnapshotManifest manifest))
  let answer ← Program.send (.writeSnapshotFile path bytes)
  Program.ofExcept (Except.mapErr .manifest answer)

def readSnapshotManifest (path : Str) : Publisher SnapshotManifest := do
  let answer ← Program.send (.readSnapshotFile path)
  Program.ofExcept (Except.mapErr .manifest (answer >>= decodeSnapshotManifestBytes))

def finishPersistedSnapshotPublication (manifest : SnapshotManifest) :
    Publisher SnapshotPublicationStatus := do
  match ← repositorySnapshot manifest.repository manifest.snapshotId with
  | some .ready => pure .alreadyReady
  | some .incomplete => do
    apply [.repositorySnapshot manifest.repository manifest.snapshotId .ready]
    pure .published
  | none => .fail .snapshotNotMarkedIncomplete

def finishSnapshotPublication (path : Str) (expected : SnapshotManifest) :
    Publisher SnapshotPublicationStatus := do
  let persisted ← readSnapshotManifest path
  Program.ofExcept (Except.require (persisted = expected) .persistedManifestMismatch)
  finishPersistedSnapshotPublication persisted

def reconcileSnapshotPublication (path : Str) : Publisher SnapshotPublicationStatus := do
  let manifest ← readSnapshotManifest path
  finishPersistedSnapshotPublication manifest

def publishSnapshotManifest (path : Str) (manifest : SnapshotManifest) :
    Publisher SnapshotPublicationStatus := do
  beginSnapshotPublication manifest
  writeSnapshotManifest path manifest
  finishSnapshotPublication path manifest

def deleteRepositorySnapshot (repository : RepoId) (snapshot : SnapshotId) : Publisher Unit :=
  apply [.deleteRepositorySnapshot repository snapshot]

def deleteRepository (repository : RepoId) : Publisher Unit := do
  let answer ← Program.send .repositorySnapshots
  let snapshots ← Program.ofExcept (Except.mapErr .catalog answer)
  apply (.deleteRepository repository ::
    (snapshots.filter (·.repository = repository)).map
      fun s => .deleteRepositorySnapshot repository s.snapshot)
end Publisher

inductive PublicationCall where
  | beginPublication (manifest : SnapshotManifest)
  | publish (path : Str) (manifest : SnapshotManifest)
  | finish (path : Str) (expected : SnapshotManifest)
  | reconcile (path : Str)
  | deleteSnapshot (repository : RepoId) (snapshot : SnapshotId)
  | deleteRepository (repository : RepoId)

open PublicationCall

namespace PublicationCall
def code : PublicationCall → Publisher Unit
  | .beginPublication manifest => Publisher.beginSnapshotPublication manifest
  | .publish path manifest => do
    let _ ← Publisher.publishSnapshotManifest path manifest
    pure ()
  | .finish path expected => do
    let _ ← Publisher.finishSnapshotPublication path expected
    pure ()
  | .reconcile path => do
    let _ ← Publisher.reconcileSnapshotPublication path
    pure ()
  | .deleteSnapshot repository snapshot => Publisher.deleteRepositorySnapshot repository snapshot
  | .deleteRepository repository => Publisher.deleteRepository repository

/-- The snapshot whose publication the call begins. -/
def begun : PublicationCall → Option (RepoId × SnapshotId)
  | .beginPublication manifest | .publish _ manifest =>
    some (manifest.repository, manifest.snapshotId)
  | _ => none
end PublicationCall

abbrev PublicationMoment := Moment PublicationEffect.Answer PublicationWorld

/-- The call has read a valid manifest of exactly this snapshot back from a file. -/
def ReadBack (past : List PublicationMoment) (repository : RepoId) (snapshot : SnapshotId) : Prop :=
  ∃ (w : PublicationWorld) (path bytes : Str) (manifest : SnapshotManifest),
    ⟨w, .readSnapshotFile path, .ok bytes, w⟩ ∈ past ∧ w.files.lookup path = some bytes ∧
      decodeSnapshotManifestBytes bytes = .ok manifest ∧ manifest.validate = .ok () ∧
      manifest.repository = repository ∧ manifest.snapshotId = snapshot

def Operation.drops : Operation → Bool
  | .deleteRepository _ | .deleteRepositorySnapshot _ _ => true
  | _ => false

/-- The batches a call sends to the catalog. -/
inductive Sends (call : PublicationCall) (past : List PublicationMoment) (w : PublicationWorld) :
    List Operation → Prop where
  | mark (repository : RepoId) (snapshot : SnapshotId)
      (begun : call.begun = some (repository, snapshot))
      (unseen : past.getLast? = some ⟨w, .repositorySnapshot repository snapshot, none, w⟩) :
      Sends call past w [.repositorySnapshot repository snapshot .incomplete]
  | promote (repository : RepoId) (snapshot : SnapshotId)
      (marked : w.shows repository snapshot = some .incomplete)
      (readBack : ReadBack past repository snapshot) :
      Sends call past w [.repositorySnapshot repository snapshot .ready]
  | delete {batch : List Operation} (deletes : call.begun = none)
      (drops : ∀ op ∈ batch, op.drops = true) : Sends call past w batch

def publicationGuard (call : PublicationCall) (past : List PublicationMoment)
    (w : PublicationWorld) : PublicationEffect → Prop
  | .apply batch => Sends call past w batch
  | _ => True

namespace Publisher
open PublicationWorld

variable {call : PublicationCall} {past : List PublicationMoment} {w w' : PublicationWorld}
  {manifest : SnapshotManifest} {repository : RepoId} {snapshot : SnapshotId}

theorem acts_repositorySnapshot {answer : Option SnapshotVisibility}
    (act : Acts w (.repositorySnapshot repository snapshot) answer w') :
    w' = w ∧ (answer = none ∨ answer = w.shows repository snapshot) := by
  cases act with
  | found => exact ⟨rfl, .inr rfl⟩
  | lookupFailed => exact ⟨rfl, .inl rfl⟩

theorem readBack_append (read : ReadBack past repository snapshot) (now : PublicationMoment) :
    ReadBack (past ++ [now]) repository snapshot := by
  obtain ⟨w, path, bytes, manifest, mem, rest⟩ := read
  exact ⟨w, path, bytes, manifest, mem_append_left _ mem, rest⟩

theorem wp_apply {batch : List Operation} (sends : Sends call past w batch) :
    (apply batch).wp Acts (publicationGuard call) (fun _ _ _ => True) past w :=
  ⟨sends, fun _ _ _ => wp_ofExcept.mpr trivial⟩

theorem beginSnapshotPublication_meets
    (begun : call.begun = some (manifest.repository, manifest.snapshotId)) :
    (beginSnapshotPublication manifest).Meets Acts (publicationGuard call) := by
  apply meets_ofExcept.bind
  intro _ past w
  apply wp_send.mpr
  refine ⟨trivial, ?_⟩
  intro answer w' act
  obtain ⟨rfl, _⟩ := acts_repositorySnapshot act
  cases answer with
  | none => exact wp_apply (.mark _ _ begun (by simp))
  | some visibility => cases visibility <;> exact trivial

theorem writeSnapshotManifest_meets (path : Str) :
    (writeSnapshotManifest path manifest).Meets Acts (publicationGuard call) := by
  apply meets_ofExcept.bind
  intro _
  apply meets_ofExcept.bind
  intro bytes past w
  exact ⟨trivial, fun _ _ _ => wp_ofExcept.mpr trivial⟩

theorem wp_readSnapshotManifest (path : Str) :
    (readSnapshotManifest path).wp Acts (publicationGuard call)
      (fun result past _ => ∀ manifest, result = .ok manifest →
        ReadBack past manifest.repository manifest.snapshotId) past w := by
  refine ⟨trivial, ?_⟩
  intro answer w' act
  apply wp_ofExcept.mpr
  intro manifest result
  obtain ⟨bytes, rfl, decoded⟩ := Except.bind_eq_ok_iff.mp (Except.mapErr_eq_ok.mp result)
  cases act with
  | read _ stored =>
    exact ⟨w, path, bytes, manifest, by simp, stored, decoded,
      decodeSnapshotManifestBytes_validate decoded, rfl, rfl⟩

theorem wp_finishPersistedSnapshotPublication
    (read : ReadBack past manifest.repository manifest.snapshotId) :
    (finishPersistedSnapshotPublication manifest).wp Acts (publicationGuard call)
      (fun _ _ _ => True) past w := by
  apply wp_send.mpr
  refine ⟨trivial, ?_⟩
  intro answer w' act
  obtain ⟨rfl, truthful⟩ := acts_repositorySnapshot act
  cases answer with
  | none => exact trivial
  | some visibility =>
    cases visibility with
    | ready => exact trivial
    | incomplete =>
      have marked : w'.shows manifest.repository manifest.snapshotId = some .incomplete := by
        simpa [eq_comm] using truthful
      exact wp_seq (wp_apply (.promote _ _ marked (readBack_append read _)))
        (fun _ _ _ _ => trivial) fun _ _ _ _ => trivial

theorem reconcileSnapshotPublication_meets (path : Str) :
    (reconcileSnapshotPublication path).Meets Acts (publicationGuard call) := by
  intro past w
  apply wp_seq (wp_readSnapshotManifest path)
  · intro manifest past w read
    exact wp_finishPersistedSnapshotPublication (read manifest rfl)
  · intro _ _ _ _
    exact trivial

theorem finishSnapshotPublication_meets (path : Str) :
    (finishSnapshotPublication path manifest).Meets Acts (publicationGuard call) := by
  intro past w
  apply wp_seq (wp_readSnapshotManifest path)
  · intro persisted past w read
    apply wp_ofExcept_bind.mpr
    exact ⟨fun _ _ => wp_finishPersistedSnapshotPublication (read persisted rfl),
      fun _ _ => trivial⟩
  · intro _ _ _ _
    exact trivial

theorem publishSnapshotManifest_meets (path : Str)
    (begun : call.begun = some (manifest.repository, manifest.snapshotId)) :
    (publishSnapshotManifest path manifest).Meets Acts (publicationGuard call) :=
  (beginSnapshotPublication_meets begun).bind fun _ =>
    (writeSnapshotManifest_meets path).bind fun _ => finishSnapshotPublication_meets path

theorem deleteRepository_meets (deletes : call.begun = none) :
    (deleteRepository repository).Meets Acts (publicationGuard call) := by
  intro past w
  apply wp_send.mpr
  refine ⟨trivial, ?_⟩
  intro answer w' _
  apply wp_ofExcept_bind.mpr
  refine ⟨?_, fun _ _ => trivial⟩
  intro snapshots _
  apply wp_apply (.delete deletes _)
  intro op mem
  rcases mem_cons.mp mem with rfl | mem
  · rfl
  · obtain ⟨_, _, rfl⟩ := mem_map.mp mem
    rfl

theorem code_meets (call : PublicationCall) : call.code.Meets Acts (publicationGuard call) := by
  have unit {α : Type} {p : Publisher α} (meets : p.Meets Acts (publicationGuard call)) :
      (p >>= fun _ => pure ()).Meets Acts (publicationGuard call) :=
    meets.bind fun _ _ _ => trivial
  cases call with
  | beginPublication manifest => exact beginSnapshotPublication_meets rfl
  | publish path manifest => exact unit (publishSnapshotManifest_meets path rfl)
  | finish path expected => exact unit (finishSnapshotPublication_meets path)
  | reconcile path => exact unit (reconcileSnapshotPublication_meets path)
  | deleteSnapshot repository snapshot =>
    exact fun _ _ => wp_apply (.delete rfl (by simp [Operation.drops]))
  | deleteRepository repository => exact deleteRepository_meets rfl
end Publisher

section CrashSafety
open PublicationWorld

/-- What one effect of a call can do to the record of one snapshot. -/
inductive SnapshotStep (call : PublicationCall) (past : List PublicationMoment)
    (w : PublicationWorld) (effect : PublicationEffect) (w' : PublicationWorld)
    (repository : RepoId) (snapshot : SnapshotId) : Prop where
  | unchanged (same : w'.shows repository snapshot = w.shows repository snapshot)
  | marked (begun : call.begun = some (repository, snapshot))
      (batch : effect = .apply [.repositorySnapshot repository snapshot .incomplete])
      (unseen : past.getLast? = some ⟨w, .repositorySnapshot repository snapshot, none, w⟩)
      (shown : w'.shows repository snapshot = some .incomplete)
  | promoted (marked : w.shows repository snapshot = some .incomplete)
      (readBack : ReadBack past repository snapshot)
      (shown : w'.shows repository snapshot = some .ready)
  | deleted (deletes : call.begun = none) (shown : w'.shows repository snapshot = none)

variable {call : PublicationCall} {past : List PublicationMoment} {w w' s s' : PublicationWorld}
  {effect : PublicationEffect} {repository : RepoId} {snapshot : SnapshotId}
  {history : List (Occurrence PublicationCall PublicationEffect.Answer PublicationWorld)}

theorem repositorySnapshot_drops {c : InMemoryCatalog} {batch : List Operation}
    (drops : ∀ op ∈ batch, op.drops = true) :
    (batch.foldl stage c).repositorySnapshot repository snapshot =
        c.repositorySnapshot repository snapshot ∨
      (batch.foldl stage c).repositorySnapshot repository snapshot = none := by
  induction batch generalizing c with
  | nil => exact .inl rfl
  | cons op batch ih =>
    obtain ⟨here, later⟩ := forall_mem_cons.mp drops
    have first : (c.stage op).repositorySnapshot repository snapshot =
        c.repositorySnapshot repository snapshot ∨
        (c.stage op).repositorySnapshot repository snapshot = none := by
      cases op <;> simp only [Operation.drops, reduceCtorEq] at here
      · exact .inl rfl
      · simp only [stage, repositorySnapshot,
          FinMap.lookup_erase_eq]
        split <;> simp
    rw [foldl_cons]
    rcases ih later with same | gone
    · rwa [same]
    · exact .inr gone

theorem shows_put {c : InMemoryCatalog} {r : RepoId} {n : SnapshotId} {v : SnapshotVisibility}
    (applied : w.catalog.apply [.repositorySnapshot r n v] = .ok c) (repository : RepoId)
    (snapshot : SnapshotId) :
    PublicationWorld.shows { w with catalog := c } repository snapshot =
      if (repository, snapshot) = (r, n) then some v else w.shows repository snapshot := by
  simp only [PublicationWorld.shows, apply_eq_foldl applied, foldl_cons, foldl_nil,
    stage, repositorySnapshot, FinMap.lookup_insert_eq]

theorem snapshotStep_of_guard {answer : effect.Answer}
    (guard : publicationGuard call past w effect) (act : Acts w effect answer w')
    (repository : RepoId) (snapshot : SnapshotId) :
    SnapshotStep call past w effect w' repository snapshot := by
  cases act with
  | committed _ applied answer =>
    cases guard with
    | mark r n begun unseen =>
      have shown := shows_put applied repository snapshot
      by_cases same : (repository, snapshot) = (r, n)
      · rw [if_pos same] at shown
        obtain ⟨rfl, rfl⟩ := Prod.mk.inj same
        exact .marked begun rfl unseen shown
      · exact .unchanged (shown.trans (if_neg same))
    | promote r n marked readBack =>
      have shown := shows_put applied repository snapshot
      by_cases same : (repository, snapshot) = (r, n)
      · rw [if_pos same] at shown
        obtain ⟨rfl, rfl⟩ := Prod.mk.inj same
        exact .promoted marked readBack shown
      · exact .unchanged (shown.trans (if_neg same))
    | delete deletes drops =>
      rw [apply_eq_foldl applied]
      rcases repositorySnapshot_drops drops with same | gone
      · exact .unchanged same
      · exact .deleted deletes gone
  | _ => exact .unchanged rfl

/-- The guarantees of snapshot publication for one run. -/
structure CrashSafe (s s' : PublicationWorld)
    (history : List (Occurrence PublicationCall PublicationEffect.Answer PublicationWorld)) :
    Prop where
  readBack : ∀ o ∈ history, ∀ repository snapshot,
    o.now.before.shows repository snapshot ≠ some .ready →
    o.now.after.shows repository snapshot = some .ready → ReadBack o.past repository snapshot
  promotesIncomplete : ∀ o ∈ history, ∀ repository snapshot,
    o.now.before.shows repository snapshot ≠ some .ready →
    o.now.after.shows repository snapshot = some .ready →
    o.now.before.shows repository snapshot = some .incomplete
  beginKeepsReady : ∀ o ∈ history, o.call.begun ≠ none → ∀ repository snapshot,
    o.now.before.shows repository snapshot = some .ready →
    o.now.after.shows repository snapshot = some .ready
  deletedUntilBegun : ∀ front rear t repository snapshot, history = front ++ rear →
    Linked s front t → t.shows repository snapshot = none →
    s'.shows repository snapshot = some .ready →
    ∃ o ∈ rear, o.call.begun = some (repository, snapshot) ∧
      o.now.effect = .apply [.repositorySnapshot repository snapshot .incomplete]

/-- A lookup of a ready snapshot failed, was taken for a missing record, and the batch that
marks the snapshot incomplete took effect. -/
def DemotesUnseen
    (o : Occurrence PublicationCall PublicationEffect.Answer PublicationWorld) : Prop :=
  ∃ repository snapshot,
    o.past.getLast? =
      some ⟨o.now.before, .repositorySnapshot repository snapshot, none, o.now.before⟩ ∧
    o.now.before.shows repository snapshot = some .ready ∧
    o.now.effect = .apply [.repositorySnapshot repository snapshot .incomplete] ∧
    o.now.after.shows repository snapshot = some .incomplete

/-- Every effect of a run changes each snapshot in one of the known ways. -/
theorem session_snapshotStep (session : Session Acts code s history s') :
    ∀ o ∈ history, ∀ repository snapshot, SnapshotStep o.call o.past o.now.before o.now.effect
      o.now.after repository snapshot := by
  intro o mem repository snapshot
  obtain ⟨guard, act⟩ := session.guarded (fun c s => Publisher.code_meets c [] s) o mem
  exact snapshotStep_of_guard guard act repository snapshot

variable {o : Occurrence PublicationCall PublicationEffect.Answer PublicationWorld}

section
variable (session : Session Acts PublicationCall.code s history s')
include session

/-- Whoever marks a snapshot incomplete has begun its publication. -/
theorem session_mark_begun
    (mem : o ∈ history)
    (mark : o.now.effect = .apply [.repositorySnapshot repository snapshot .incomplete]) :
    o.call.begun = some (repository, snapshot) := by
  obtain ⟨guard, -⟩ := session.guarded (fun c s => Publisher.code_meets c [] s) o mem
  rw [mark] at guard
  cases guard with
  | mark _ _ begun _ => exact begun
  | delete _ drops => simp [Operation.drops] at drops

theorem session_becomes_ready
    (mem : o ∈ history) (before : o.now.before.shows repository snapshot ≠ some .ready)
    (after : o.now.after.shows repository snapshot = some .ready) :
    o.now.before.shows repository snapshot = some .incomplete ∧
      ReadBack o.past repository snapshot := by
  cases session_snapshotStep session o mem repository snapshot with
  | unchanged same => exact absurd (same.symm.trans after) before
  | marked _ _ _ shown | deleted _ shown => simp [shown] at after
  | promoted marked readBack _ => exact ⟨marked, readBack⟩

/-- A missing record comes back only when the publication is begun. -/
theorem session_begun_again
    {front rear : List (Occurrence PublicationCall PublicationEffect.Answer PublicationWorld)}
    {t : PublicationWorld} (split : history = front ++ rear) (linked : Linked t rear s')
    (gone : t.shows repository snapshot = none)
    (ready : s'.shows repository snapshot = some .ready) :
    ∃ o ∈ rear, o.call.begun = some (repository, snapshot) ∧
      o.now.effect = .apply [.repositorySnapshot repository snapshot .incomplete] := by
  obtain ⟨o, mem, before, after⟩ := linked.exists_change
    (p := fun w => w.shows repository snapshot ≠ none) (by simp [gone]) (by simp [ready])
  have within : o ∈ history := split ▸ mem_append_right _ mem
  rw [ne_eq, not_not] at before
  cases session_snapshotStep session o within repository snapshot with
  | unchanged same => exact absurd (same.trans before) after
  | marked begun batch _ _ => exact ⟨o, mem, begun, batch⟩
  | promoted marked _ _ => simp [before] at marked
  | deleted _ shown => exact absurd shown after
end

/-- Publication keeps its guarantees in a run exactly when no failed lookup of a ready snapshot
is followed by the commit of the batch that marks it incomplete. -/
theorem snapshotPublication_crashSafe_iff
    (session : Session Acts code s history s') :
    CrashSafe s s' history ↔ ∀ o ∈ history, ¬DemotesUnseen o := by
  constructor
  · rintro safe o member ⟨repository, snapshot, _, ready, mark, demoted⟩
    have begun := session_mark_begun session member mark
    have kept := safe.beginKeepsReady o member (by simp [begun]) repository snapshot ready
    simp [demoted] at kept
  · intro seen
    refine ⟨?_, ?_, ?_, ?_⟩
    · intro o member repository snapshot before after
      exact (session_becomes_ready session member before after).2
    · intro o member repository snapshot before after
      exact (session_becomes_ready session member before after).1
    · intro o member begun repository snapshot ready
      cases session_snapshotStep session o member repository snapshot with
      | unchanged same => exact same.trans ready
      | marked _ batch unseen shown =>
        exact absurd ⟨repository, snapshot, unseen, ready, batch, shown⟩ (seen o member)
      | promoted _ _ shown => exact shown
      | deleted deletes _ => exact absurd deletes begun
    · intro front rear t repository snapshot split linked gone ready
      obtain ⟨t', front', rear'⟩ := linked_append.mp (split ▸ session.linked)
      have same : t' = t := front'.unique linked
      exact session_begun_again session split (same ▸ rear') gone ready

def emptyManifest : SnapshotManifest where
  repository := ⟨List.Vector.replicate 16 1⟩
  snapshotId := ⟨List.Vector.replicate 16 2⟩
  nativeObjectFormat := .sha1
  importPolicy := .localBranchesAndTags
  refs := []
  summary := {}
  importedUnixSecs := 0
  toolVersion := [0x31]
  optionalFields := []

/-- A world whose catalog holds one record, for the empty manifest. -/
def recorded (visibility : SnapshotVisibility) (files : FinMap Str Str) : PublicationWorld where
  catalog :=
    { repositorySnapshots :=
        AList.insert (emptyManifest.repository, emptyManifest.snapshotId) visibility ∅ }
  files := files

theorem recorded_shows {visibility shown : SnapshotVisibility} {files : FinMap Str Str}
    (h : (recorded visibility files).shows repository snapshot = some shown) :
    shown = visibility := by
  simp only [recorded, PublicationWorld.shows, repositorySnapshot,
    FinMap.lookup_insert_eq, AList.lookup_empty] at h
  split at h <;> simp_all

theorem executes_blindBegin {c : InMemoryCatalog} (manifest : SnapshotManifest)
    (valid : manifest.validate = .ok ())
    (applied : w.catalog.apply
      [.repositorySnapshot manifest.repository manifest.snapshotId .incomplete] = .ok c) :
    Executes Acts (beginPublication manifest).code w
      [⟨w, .repositorySnapshot manifest.repository manifest.snapshotId, none, w⟩,
        ⟨w, .apply [.repositorySnapshot manifest.repository manifest.snapshotId .incomplete],
          .ok (), { w with catalog := c }⟩] { w with catalog := c } := by
  rw [code, Publisher.beginSnapshotPublication, valid]
  exact .perform (.lookupFailed _ _ _) (.perform (.committed _ applied _) (.stop _ _))

theorem failedLookup_demotes_ready : ∃ (w w' : PublicationWorld)
    (history : List (Occurrence PublicationCall PublicationEffect.Answer PublicationWorld)),
    Session Acts code w history w' ∧
      (∀ o ∈ history, o.call = .beginPublication emptyManifest) ∧
      w.shows emptyManifest.repository emptyManifest.snapshotId = some .ready ∧
      w'.shows emptyManifest.repository emptyManifest.snapshotId = some .incomplete ∧
      ¬CrashSafe w w' history := by
  have run := executes_blindBegin (w := recorded .ready ∅) emptyManifest rfl rfl
  refine ⟨_, _, _, .call _ .start run, by simp [occurrences], rfl, rfl, ?_⟩
  intro safe
  have kept := safe.beginKeepsReady _ (mem_cons_of_mem _ mem_cons_self)
    (by simp [begun]) emptyManifest.repository emptyManifest.snapshotId rfl
  cases kept

theorem executes_reconcile {path bytes : Str} {manifest : SnapshotManifest} {c : InMemoryCatalog}
    (stored : w.files.lookup path = some bytes)
    (decoded : decodeSnapshotManifestBytes bytes = .ok manifest)
    (marked : w.shows manifest.repository manifest.snapshotId = some .incomplete)
    (applied : w.catalog.apply
      [.repositorySnapshot manifest.repository manifest.snapshotId .ready] = .ok c) :
    Executes Acts (reconcile path).code w
      [⟨w, .readSnapshotFile path, .ok bytes, w⟩,
        ⟨w, .repositorySnapshot manifest.repository manifest.snapshotId, some .incomplete, w⟩,
        ⟨w, .apply [.repositorySnapshot manifest.repository manifest.snapshotId .ready],
          .ok (), { w with catalog := c }⟩] { w with catalog := c } := by
  apply Executes.perform (.read w stored)
  dsimp only [Program.bind]
  rw [Except.ok_bind, decoded]
  have found : Acts w (.repositorySnapshot manifest.repository manifest.snapshotId)
      (some .incomplete) w := marked ▸ .found w _ _
  exact .perform found (.perform (.committed _ applied _) (.stop _ _))

theorem reconcile_emptyManifest_crashSafe : ∃ (w w' : PublicationWorld)
    (history : List (Occurrence PublicationCall PublicationEffect.Answer PublicationWorld)),
    Session Acts code w history w' ∧
      w'.shows emptyManifest.repository emptyManifest.snapshotId = some .ready ∧
      CrashSafe w w' history := by
  obtain ⟨bytes, encoded⟩ : ∃ bytes, encodeSnapshotManifest emptyManifest = .ok bytes := ⟨_, rfl⟩
  have decoded : decodeSnapshotManifestBytes bytes = .ok emptyManifest := by
    cases encoded
    decide +kernel
  have stored : (recorded .incomplete (AList.singleton [] bytes)).files.lookup [] = some bytes :=
    rfl
  have run := executes_reconcile stored decoded rfl rfl
  have session := Session.call _ .start run
  refine ⟨_, _, _, session, rfl, (snapshotPublication_crashSafe_iff session).mpr ?_⟩
  rintro o member ⟨repository, snapshot, _, ready, _⟩
  have before : o.now.before = recorded .incomplete (AList.singleton [] bytes) := by
    simp only [occurrences, nil_append, mem_cons, not_mem_nil, or_false] at member
    rcases member with rfl | rfl | rfl <;> rfl
  cases recorded_shows (before ▸ ready)
end CrashSafety
end ReflinkForest
