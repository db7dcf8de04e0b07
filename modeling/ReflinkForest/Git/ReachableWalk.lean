import ReflinkForest.Core.Reference
import ReflinkForest.Git.TreeObject
import ReflinkForest.Lib.FinMap
import ReflinkForest.Lib.Worklist

/-! The import walk over a local object database, compared with reachability along local references.
-/
namespace ReflinkForest
open Bytes Worklist Except List

/-- What `git cat-file` can read in one repository. -/
structure ObjectDatabase where
  algorithm : HashAlgorithm
  objects : FinMap GitOid (ObjectKind × Str)
  native : ∀ oid ∈ objects, oid.algorithm = algorithm

namespace ObjectDatabase
section
variable (db : ObjectDatabase)

def ensureAlgorithm (oid : GitOid) : Except GitBackendError Unit :=
  .require (oid.algorithm = db.algorithm)
    (.invalidGitOutput "object ID algorithm does not match repository format")

def readObject (oid : GitOid) : Except GitBackendError GitObject := do
  db.ensureAlgorithm oid
  let (kind, data) ← .ofOption (.commandFailed "cat-file -t") (db.objects.lookup oid)
  .ok ⟨oid, kind, data⟩

/-- The body of the loop: read an object and list what it refers to. -/
def expand (oid : GitOid) : Except GitBackendError (GitObject × List GitOid) := do
  let object ← db.readObject oid
  let children ← referencedOids object
  .ok (object, children)

def walk (roots : List GitOid) : Option (Except GitBackendError (List GitOid × List GitObject)) :=
  drain (visitOnce db.expand) (enoughFuel db.expand db.objects.keys roots) ([], []) roots

def reachableObjects (roots : List GitOid) : Except GitBackendError (List GitObject) := do
  roots.forM db.ensureAlgorithm
  let (_, result) ← (db.walk roots).getD (.ok ([], []))
  .ok result

end

variable {db : ObjectDatabase} {roots : List GitOid} {oid : GitOid} {object : GitObject}

theorem readObject_eq_ok_iff :
    db.readObject oid = .ok object ↔
      object.oid = oid ∧ db.objects.lookup oid = some (object.kind, object.data) := by
  simp only [readObject, ensureAlgorithm, bind_eq_ok_iff, exists_require,
    ofOption_eq_ok, ok.injEq, Prod.exists]
  constructor
  · rintro ⟨_, kind, data, found, rfl⟩
    exact ⟨rfl, found⟩
  · rintro ⟨rfl, found⟩
    have present : object.oid ∈ db.objects := FinMap.mem_of_lookup found
    exact ⟨db.native _ present, _, _, found, rfl⟩

theorem readObject_of_mem (present : oid ∈ db.objects) :
    ∃ object, db.readObject oid = .ok object := by
  obtain ⟨⟨kind, data⟩, found⟩ := FinMap.exists_lookup present
  exact ⟨⟨oid, kind, data⟩, readObject_eq_ok_iff.mpr ⟨rfl, found⟩⟩

theorem mem_of_readObject (read : db.readObject oid = .ok object) : oid ∈ db.objects :=
  FinMap.mem_of_lookup ((readObject_eq_ok_iff.mp read).2)

theorem expand_eq_ok_iff {children : List GitOid} :
    db.expand oid = .ok (object, children) ↔
      db.readObject oid = .ok object ∧ referencedOids object = .ok children := by
  simp only [expand, bind_eq_ok_iff, ok.injEq, Prod.mk.injEq]
  constructor
  · rintro ⟨_, read, _, references, rfl, rfl⟩
    exact ⟨read, references⟩
  · rintro ⟨read, references⟩
    exact ⟨_, read, _, references, rfl, rfl⟩

theorem walk_terminates (db : ObjectDatabase) (roots : List GitOid) :
    ∃ outcome, db.walk roots = some outcome := by
  apply drain_enoughFuel
  rintro oid ⟨object, children⟩ expanded
  exact mem_of_readObject (expand_eq_ok_iff.mp expanded).1

theorem reachableObjects_of_walk (present : ∀ root ∈ roots, root ∈ db.objects)
    {outcome : Except GitBackendError (List GitOid × List GitObject)}
    (walked : db.walk roots = some outcome) :
    db.reachableObjects roots = outcome >>= fun (_, result) => .ok result := by
  have checked : roots.forM db.ensureAlgorithm = .ok () := by
    rw [forM_eq_ok_iff]
    intro root mem
    exact require_pos (db.native root (present root mem))
  rw [reachableObjects, checked, walked]
  rfl

theorem map_oid_of_expanded {oids : List GitOid} {objects : List GitObject}
    (outputs : List.Forall₂ (fun oid object => ∃ more, db.expand oid = .ok (object, more))
      oids objects) : objects.map (·.oid) = oids := by
  induction outputs with
  | nil => rfl
  | cons head _ ih =>
    obtain ⟨more, expanded⟩ := head
    rw [map_cons, ih, (readObject_eq_ok_iff.mp (expand_eq_ok_iff.mp expanded).1).1]

/-- The walk succeeds exactly when everything it can reach is readable and well formed. -/
theorem reachableObjects_ok_iff (present : ∀ root ∈ roots, root ∈ db.objects) :
    (∃ objects, db.reachableObjects roots = .ok objects) ↔
      ∀ oid, Reaches db.expand roots oid → ∃ result, db.expand oid = .ok result := by
  obtain ⟨outcome, walked⟩ := db.walk_terminates roots
  rw [reachableObjects_of_walk present walked, ← drain_visitOnce_ok_iff walked]
  constructor
  · intro ⟨objects, finished⟩
    obtain ⟨final, rfl, _⟩ := bind_eq_ok_iff.mp finished
    exact ⟨final, rfl⟩
  · intro ⟨final, finished⟩
    exact ⟨final.2, by rw [finished]; rfl⟩

theorem reachableObjects_eq_ok (present : ∀ root ∈ roots, root ∈ db.objects)
    {objects : List GitObject} (h : db.reachableObjects roots = .ok objects) :
    (objects.map (·.oid)).Nodup ∧
      ∀ object, object ∈ objects ↔
        Reaches db.expand roots object.oid ∧ db.readObject object.oid = .ok object := by
  obtain ⟨outcome, walked⟩ := db.walk_terminates roots
  rw [reachableObjects_of_walk present walked] at h
  obtain ⟨⟨seen, result⟩, rfl, h⟩ := bind_eq_ok_iff.mp h
  obtain rfl : result = objects := by simpa using h
  obtain ⟨nodup, reached, outputs⟩ := drain_visitOnce walked
  have oids : result.map (·.oid) = seen := map_oid_of_expanded outputs
  refine ⟨oids ▸ nodup, ?_⟩
  intro object
  have mem_seen : object.oid ∈ seen ↔ ∃ other ∈ result, other.oid = object.oid := by
    rw [← oids, mem_map]
  have read : ∀ other ∈ result, db.readObject other.oid = .ok other := by
    intro other mem
    obtain ⟨i, bound, rfl⟩ := getElem_of_mem mem
    obtain ⟨more, expanded⟩ := outputs.get (outputs.length_eq ▸ bound) bound
    have read := (expand_eq_ok_iff.mp expanded).1
    exact (readObject_eq_ok_iff.mp read).1 ▸ read
  rw [← reached]
  constructor
  · intro mem
    exact ⟨mem_seen.mpr ⟨object, mem, rfl⟩, read object mem⟩
  · intro ⟨mem, found⟩
    obtain ⟨other, inside, same⟩ := mem_seen.mp mem
    have again := read other inside
    rw [same, found, ok.injEq] at again
    exact again ▸ inside
end ObjectDatabase

/-- Entries of the tree itself, without the links to commits of other repositories. -/
def localEntries (entries : List GitTreeEntry) : List GitTreeEntry :=
  entries.filter (·.mode ≠ .gitlink)

/-- The references that must resolve in the object's own repository. -/
def localReferences (object : GitObject) : Except GitBackendError (List GitOid) :=
  match object.kind with
  | .tree => do
    let entries ← parseTreeEntries object
    .ok ((localEntries entries).map (·.oid))
  | _ => referencedOids object

def gitlinkTargets (object : GitObject) : List GitOid :=
  match object.kind, parseTreeEntries object with
  | .tree, .ok entries => (entries.filter (·.mode = .gitlink)).map (·.oid)
  | _, _ => []

section References
variable {object : GitObject} {entries : List GitTreeEntry} {refs : List GitOid}

section
variable (h : parseTreeEntries object = .ok entries)
include h

theorem kind_of_parseTreeEntries :
    object.kind = .tree := by
  rw [parseTreeEntries, require_bind_eq_ok] at h
  exact h.1

theorem referencedOids_tree :
    referencedOids object = .ok (entries.map (·.oid)) := by
  rw [referencedOids, kind_of_parseTreeEntries h, parseTreeReferences, h]
  rfl

theorem gitlinkTargets_tree :
    gitlinkTargets object = (entries.filter (·.mode = .gitlink)).map (·.oid) := by
  rw [gitlinkTargets, kind_of_parseTreeEntries h, h]

omit h in
theorem localEntries_eq_self_iff :
    localEntries entries = entries ↔ ∀ entry ∈ entries, entry.mode ≠ .gitlink := by
  simp [localEntries, filter_eq_self]

/-- For a well-formed tree the parser returns the local references exactly when there is no
gitlink among its entries. -/
theorem referencedOids_local_iff :
    referencedOids object = .ok ((localEntries entries).map (·.oid)) ↔
      ∀ entry ∈ entries, entry.mode ≠ .gitlink := by
  rw [referencedOids_tree h, ok.injEq, ← localEntries_eq_self_iff]
  constructor
  · intro same
    have length := congrArg List.length same
    rw [length_map, length_map] at length
    exact List.Sublist.eq_of_length filter_sublist length.symm
  · intro same
    rw [same]
end

/-- A well-formed object refers to its local references and to its gitlink targets. -/
theorem mem_referencedOids (h : localReferences object = .ok refs) :
    ∃ children, referencedOids object = .ok children ∧
      ∀ oid, oid ∈ children ↔ oid ∈ refs ∨ oid ∈ gitlinkTargets object := by
  by_cases kind : object.kind = .tree
  · rw [localReferences, kind] at h
    obtain ⟨entries, parsed, h⟩ := bind_eq_ok_iff.mp h
    obtain rfl : (localEntries entries).map (·.oid) = refs := by simpa using h
    refine ⟨_, referencedOids_tree parsed, ?_⟩
    intro oid
    simp only [gitlinkTargets_tree parsed, localEntries, mem_map, mem_filter, decide_eq_true_eq]
    constructor
    · intro ⟨entry, mem, same⟩
      by_cases link : entry.mode = .gitlink
      · exact .inr ⟨entry, ⟨mem, link⟩, same⟩
      · exact .inl ⟨entry, ⟨mem, link⟩, same⟩
    · intro found
      rcases found with ⟨entry, ⟨mem, _⟩, same⟩ | ⟨entry, ⟨mem, _⟩, same⟩ <;>
        exact ⟨entry, mem, same⟩
  · have plain : localReferences object = referencedOids object := by
      cases k : object.kind <;> simp_all [localReferences]
    have none : gitlinkTargets object = [] := by
      cases k : object.kind <;> simp_all [gitlinkTargets]
    exact ⟨refs, plain ▸ h, by simp [none]⟩
end References

namespace ObjectDatabase
/-- Reachability that never follows a gitlink. -/
inductive LocallyReachable (db : ObjectDatabase) (roots : List GitOid) : GitOid → Prop
  | root {oid : GitOid} : oid ∈ roots → LocallyReachable db roots oid
  | reference {oid next : GitOid} {object : GitObject} {refs : List GitOid} :
      LocallyReachable db roots oid → db.readObject oid = .ok object →
      localReferences object = .ok refs → next ∈ refs → LocallyReachable db roots next

/-- Every stored object is well formed, its local references are stored as well, and the
commits named by gitlinks live elsewhere. -/
structure Closed (db : ObjectDatabase) : Prop where
  resolves : ∀ oid object, db.readObject oid = .ok object →
    ∃ refs, localReferences object = .ok refs ∧ ∀ next ∈ refs, next ∈ db.objects
  foreign : ∀ oid object, db.readObject oid = .ok object →
    ∀ target ∈ gitlinkTargets object, target ∉ db.objects

/-- What `Closed` asks of one stored object. -/
def resolvesIn (db : ObjectDatabase) (object : GitObject) : Bool :=
  (match localReferences object with
    | .ok refs => refs.all (· ∈ db.objects)
    | .error _ => false) &&
  (gitlinkTargets object).all (· ∉ db.objects)

theorem resolvesIn_iff {db : ObjectDatabase} {object : GitObject} :
    db.resolvesIn object = true ↔
      (∃ refs, localReferences object = .ok refs ∧ ∀ next ∈ refs, next ∈ db.objects) ∧
        ∀ target ∈ gitlinkTargets object, target ∉ db.objects := by
  rw [resolvesIn]
  cases localReferences object <;> simp

theorem closed_iff {db : ObjectDatabase} :
    db.Closed ↔ ∀ e ∈ db.objects.entries, db.resolvesIn ⟨e.1, e.2.1, e.2.2⟩ = true := by
  have stored : ∀ e, e ∈ db.objects.entries ↔
      db.readObject e.1 = .ok ⟨e.1, e.2.1, e.2.2⟩ := by
    intro e
    simp only [readObject_eq_ok_iff, true_and]
    exact AList.mem_lookup_iff.symm
  constructor
  · intro closed e mem
    have read := (stored e).mp mem
    exact resolvesIn_iff.mpr ⟨closed.resolves _ _ read, closed.foreign _ _ read⟩
  · intro each
    have checked : ∀ oid object, db.readObject oid = .ok object → db.resolvesIn object = true := by
      intro oid object read
      obtain ⟨rfl, _⟩ := readObject_eq_ok_iff.mp read
      exact each ⟨object.oid, object.kind, object.data⟩ ((stored _).mpr read)
    exact ⟨fun oid object read => (resolvesIn_iff.mp (checked oid object read)).1,
      fun oid object read => (resolvesIn_iff.mp (checked oid object read)).2⟩

instance (db : ObjectDatabase) : Decidable db.Closed := decidable_of_iff' _ closed_iff

/-- The walk succeeds and returns exactly the locally reachable objects, each once. -/
def WalksLocally (db : ObjectDatabase) (roots : List GitOid) : Prop :=
  ∃ objects, db.reachableObjects roots = .ok objects ∧ (objects.map (·.oid)).Nodup ∧
    ∀ object, object ∈ objects ↔
      db.LocallyReachable roots object.oid ∧ db.readObject object.oid = .ok object

/-- No tree that an import of `roots` needs has a gitlink entry. -/
def NoGitlinks (db : ObjectDatabase) (roots : List GitOid) : Prop :=
  ∀ oid object, db.LocallyReachable roots oid → db.readObject oid = .ok object →
    gitlinkTargets object = []

variable {db : ObjectDatabase} {roots : List GitOid} {oid : GitOid}

theorem Closed.mem (closed : db.Closed) (present : ∀ root ∈ roots, root ∈ db.objects)
    (reach : db.LocallyReachable roots oid) : oid ∈ db.objects := by
  induction reach with
  | root mem => exact present _ mem
  | reference _ read parsed mem _ =>
    obtain ⟨refs, parsed', stored⟩ := closed.resolves _ _ read
    rw [parsed, ok.injEq] at parsed'
    exact stored _ (parsed' ▸ mem)

theorem reaches_of_locallyReachable (reach : db.LocallyReachable roots oid) :
    Reaches db.expand roots oid := by
  induction reach with
  | root mem => exact .root mem
  | reference _ read parsed mem ih =>
    obtain ⟨children, references, mem_iff⟩ := mem_referencedOids parsed
    exact .child ih (expand_eq_ok_iff.mpr ⟨read, references⟩) ((mem_iff _).mpr (.inl mem))

theorem locallyReachable_of_reaches (closed : db.Closed) (bare : db.NoGitlinks roots)
    (reach : Reaches db.expand roots oid) : db.LocallyReachable roots oid := by
  induction reach with
  | root mem => exact .root mem
  | child _ expanded mem ih =>
    obtain ⟨read, references⟩ := expand_eq_ok_iff.mp expanded
    obtain ⟨refs, parsed, _⟩ := closed.resolves _ _ read
    obtain ⟨children, references', mem_iff⟩ := mem_referencedOids parsed
    rw [references, ok.injEq] at references'
    subst references'
    rcases (mem_iff _).mp mem with inside | linked
    · exact .reference ih read parsed inside
    · rw [bare _ _ ih read] at linked
      simp at linked

theorem Closed.expands (closed : db.Closed) (present : oid ∈ db.objects) :
    ∃ result, db.expand oid = .ok result := by
  obtain ⟨object, read⟩ := readObject_of_mem present
  obtain ⟨refs, parsed, _⟩ := closed.resolves _ _ read
  obtain ⟨children, references, _⟩ := mem_referencedOids parsed
  exact ⟨(object, children), expand_eq_ok_iff.mpr ⟨read, references⟩⟩

theorem walksLocally_of_noGitlinks (closed : db.Closed)
    (present : ∀ root ∈ roots, root ∈ db.objects) (bare : db.NoGitlinks roots) :
    db.WalksLocally roots := by
  have reaches_iff : ∀ oid, Reaches db.expand roots oid ↔ db.LocallyReachable roots oid :=
    fun oid => ⟨locallyReachable_of_reaches closed bare, reaches_of_locallyReachable⟩
  obtain ⟨objects, walked⟩ := (reachableObjects_ok_iff present).mpr fun oid reach =>
    closed.expands (closed.mem present ((reaches_iff oid).mp reach))
  obtain ⟨nodup, mem_iff⟩ := reachableObjects_eq_ok present walked
  refine ⟨objects, walked, nodup, ?_⟩
  intro object
  rw [mem_iff, reaches_iff]

/-- A gitlink makes the walk look for a commit that is not there. -/
theorem noGitlinks_of_walksLocally (closed : db.Closed)
    (present : ∀ root ∈ roots, root ∈ db.objects) (walks : db.WalksLocally roots) :
    db.NoGitlinks roots := by
  obtain ⟨objects, walked, _⟩ := walks
  have expands := (reachableObjects_ok_iff present).mp ⟨objects, walked⟩
  intro oid object reach read
  apply eq_nil_iff_forall_not_mem.mpr
  intro target linked
  obtain ⟨refs, parsed, _⟩ := closed.resolves _ _ read
  obtain ⟨children, references, mem_iff⟩ := mem_referencedOids parsed
  have followed : Reaches db.expand roots target :=
    .child (reaches_of_locallyReachable reach) (expand_eq_ok_iff.mpr ⟨read, references⟩)
      ((mem_iff target).mpr (.inr linked))
  obtain ⟨⟨found, _⟩, expanded⟩ := expands target followed
  exact closed.foreign _ _ read target linked (mem_of_readObject (expand_eq_ok_iff.mp expanded).1)

/-- The import walk treats gitlinks as foreign exactly when it meets none of them, and so does
the tree parser. -/
theorem walksLocally_iff (db : ObjectDatabase) (closed : db.Closed) (roots : List GitOid)
    (present : ∀ root ∈ roots, root ∈ db.objects) :
    (db.WalksLocally roots ↔ db.NoGitlinks roots) ∧
      ∀ (tree : GitObject) (entries : List GitTreeEntry), parseTreeEntries tree = .ok entries →
        (referencedOids tree = .ok ((localEntries entries).map (·.oid)) ↔
          ∀ entry ∈ entries, entry.mode ≠ .gitlink) :=
  ⟨⟨noGitlinks_of_walksLocally closed present, walksLocally_of_noGitlinks closed present⟩,
    fun _ _ => referencedOids_local_iff⟩

/-- A tree with one regular file, and the blob of that file. -/
def fileDatabase : ObjectDatabase :=
  let blob := GitObject.hashed .reference .sha1 .blob (ascii "hello")
  let tree := GitObject.hashed .reference .sha1 .tree
    (treeEntryBytes (ascii "100644") (ascii "README") blob.oid)
  ⟨.sha1, [blob, tree].foldl (fun m o => m.insert o.oid (o.kind, o.data)) ∅, by decide +kernel⟩

/-- A tree whose only entry is a submodule. -/
def submoduleTree : GitObject :=
  GitObject.hashed .reference .sha1 .tree
    (treeEntryBytes (ascii "160000") (ascii "lib") (GitOid.forObject .reference .sha1 .commit []))

def submoduleDatabase : ObjectDatabase :=
  ⟨.sha1, AList.singleton submoduleTree.oid (submoduleTree.kind, submoduleTree.data), by
    decide +kernel⟩

theorem fileDatabase_walksLocally :
    fileDatabase.Closed ∧ fileDatabase.WalksLocally fileDatabase.objects.keys := by
  have closed : fileDatabase.Closed := by decide +kernel
  refine ⟨closed, (walksLocally_iff fileDatabase closed _ fun root member => member).1.mpr ?_⟩
  intro oid object reach read
  have bare : ∀ e ∈ fileDatabase.objects.entries, gitlinkTargets ⟨e.1, e.2.1, e.2.2⟩ = [] := by
    decide +kernel
  obtain ⟨rfl, found⟩ := readObject_eq_ok_iff.mp read
  exact bare ⟨object.oid, object.kind, object.data⟩ (AList.mem_lookup_iff.mp found)

theorem submoduleDatabase_fails :
    ¬ ∀ db : ObjectDatabase, db.Closed →
      (∀ roots : List GitOid, (∀ root ∈ roots, root ∈ db.objects) → db.WalksLocally roots) ∧
        ∀ (tree : GitObject) (entries : List GitTreeEntry), parseTreeEntries tree = .ok entries →
          referencedOids tree = .ok ((localEntries entries).map (·.oid)) := by
  intro claim
  have closed : submoduleDatabase.Closed := by decide +kernel
  have present : ∀ root ∈ [submoduleTree.oid], root ∈ submoduleDatabase.objects := by
    decide +kernel
  have walks := (claim submoduleDatabase closed).1 _ present
  have bare := noGitlinks_of_walksLocally closed present walks submoduleTree.oid submoduleTree
    (.root (mem_singleton.mpr rfl)) (by decide +kernel)
  exact absurd bare (by decide +kernel)
end ObjectDatabase
end ReflinkForest
