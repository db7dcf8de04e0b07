import ReflinkForest.Cache.Fanout
import ReflinkForest.Lib.Fallible

/-! Eviction: the entries of a scan are unlinked in the order of their content IDs until what
remains is at most the target. -/
namespace ReflinkForest
open Bytes List Fallible

structure CacheEviction where
  targetLogicalBytes : ℕ
  before : CacheUsage
  after : CacheUsage
  evictedEntries : ℕ
  evictedLogicalBytes : ℕ
  skippedEntries : ℕ

def CacheEviction.targetReached (eviction : CacheEviction) : Bool :=
  eviction.after.logicalBytes ≤ eviction.targetLogicalBytes

abbrev Evicting := Fallible CacheTree FanoutError

namespace CacheTree
def openFanoutParentNoFollow (tree : CacheTree) (id : ContentId) : Bool :=
  tree.isDirectory [id.hex.take 2] && tree.isDirectory [id.hex.take 2, (id.hex.drop 2).take 2]

/-- `unlinkat`, which takes no directory away. -/
def unlinkFileAt (tree : CacheTree) (path : List Str) : CacheTree :=
  match leaf : tree.nodes.lookup path with
  | some (.leaf _) =>
    ⟨tree.nodes.erase path, tree.closed.erase_leaf leaf,
      (tree.nodes.length_keys_erase_le path).trans_lt tree.counted⟩
  | _ => tree
end CacheTree

/-- `None` stands for an entry that is gone or has become unsafe. -/
def evictEntry (id : ContentId) : Evicting (Option ℕ) := ⟨fun tree =>
  if !tree.openFanoutParentNoFollow id then (tree, .ok none)
  else
    match tree.regularFileSizeNoFollow id.pathFor with
    | none => (tree, .ok none)
    | some logicalBytes => (tree.unlinkFileAt id.pathFor, .ok (some logicalBytes))⟩

/-- The variables of the eviction loop. -/
structure EvictionProgress where
  remainingLogicalBytes : ℕ
  evictedEntries : ℕ := 0
  evictedLogicalBytes : ℕ := 0
  skippedEntries : ℕ := 0

def evictEntries (targetLogicalBytes : ℕ) :
    List FanoutEntry → EvictionProgress → Evicting EvictionProgress
  | [], progress => pure progress
  | entry :: entries, progress =>
    if progress.remainingLogicalBytes ≤ targetLogicalBytes then pure progress
    else do
      match ← evictEntry entry.contentId with
      | some logicalBytes =>
        let evictedEntries ← .ofExcept (checkedAdd progress.evictedEntries 1)
        let evictedLogicalBytes ← .ofExcept (checkedAdd progress.evictedLogicalBytes logicalBytes)
        evictEntries targetLogicalBytes entries { progress with
          remainingLogicalBytes := progress.remainingLogicalBytes - logicalBytes
          evictedEntries, evictedLogicalBytes }
      | none =>
        let skippedEntries ← .ofExcept (checkedAdd progress.skippedEntries 1)
        evictEntries targetLogicalBytes entries { progress with skippedEntries }

def evictTo (targetLogicalBytes : ℕ) : Evicting CacheEviction := do
  let scan ← .query CacheTree.scanFanout
  let progress ← evictEntries targetLogicalBytes scan.entries
    { remainingLogicalBytes := scan.usage.logicalBytes }
  let after ← .query CacheTree.usage
  pure {
    targetLogicalBytes, after
    before := scan.usage
    evictedEntries := progress.evictedEntries
    evictedLogicalBytes := progress.evictedLogicalBytes
    skippedEntries := progress.skippedEntries }

section Shortest
/-- `removed` is the shortest beginning of `entries` without which at most `target` bytes are
left. -/
structure ShortestPrefix (target : ℕ) (entries removed kept : List FanoutEntry) : Prop where
  split : entries = removed ++ kept
  enough : logicalBytes kept ≤ target
  shortest : ∀ front rear, entries = front ++ rear → logicalBytes rear ≤ target →
    removed.length ≤ front.length

variable {target : ℕ} {entry : FanoutEntry} {entries removed kept : List FanoutEntry}

theorem logicalBytes_cons (entry : FanoutEntry) (entries : List FanoutEntry) :
    logicalBytes (entry :: entries) = entry.logicalBytes + logicalBytes entries := sum_cons

theorem shortestPrefix_nil (enough : logicalBytes entries ≤ target) :
    ShortestPrefix target entries [] entries :=
  ⟨rfl, enough, fun _ _ _ _ => Nat.zero_le _⟩

theorem ShortestPrefix.cons (shortest : ShortestPrefix target entries removed kept)
    (exceeds : target < logicalBytes (entry :: entries)) :
    ShortestPrefix target (entry :: entries) (entry :: removed) kept := by
  refine ⟨congrArg _ shortest.split, shortest.enough, ?_⟩
  intro front rear split enough
  cases front with
  | nil =>
    rw [split, nil_append] at exceeds
    omega
  | cons first front =>
    obtain ⟨rfl, rest⟩ := List.cons.inj split
    exact Nat.succ_le_succ (shortest.shortest front rear rest enough)
end Shortest

section Loop
variable {tree : CacheTree} {path other : List Str} {entry : FanoutEntry}
  {entries : List FanoutEntry} {size : ℕ}

namespace CacheTree
theorem unlinkFileAt_nodes (regular : tree.regularFileSizeNoFollow path = some size) :
    (tree.unlinkFileAt path).nodes = tree.nodes.erase path := by
  unfold regularFileSizeNoFollow at regular
  unfold unlinkFileAt
  split
  · rfl
  · rename_i other
    split at regular
    · exact absurd ‹_› (other _)
    · cases regular

theorem unlinkFileAt_regularFileSizeNoFollow
    (regular : tree.regularFileSizeNoFollow path = some size) :
    (tree.unlinkFileAt path).regularFileSizeNoFollow other =
      if other = path then none else tree.regularFileSizeNoFollow other := by
  unfold regularFileSizeNoFollow
  rw [unlinkFileAt_nodes regular, FinMap.lookup_erase_eq]
  split_ifs <;> rfl

theorem Lists.unlinkFileAt (lists : tree.Lists (entry :: entries)) :
    (tree.unlinkFileAt entry.contentId.pathFor).Lists entries := by
  have regular := (lists.mem_iff entry).mp mem_cons_self
  obtain ⟨first, ascending⟩ := pairwise_cons.mp lists.ascending
  refine ⟨ascending, fun other => ?_⟩
  rw [unlinkFileAt_regularFileSizeNoFollow regular]
  split_ifs with same
  · refine ⟨fun mem => ?_, fun impossible => by cases impossible⟩
    have before := first other mem
    rw [ContentId.pathFor_injective same] at before
    exact absurd before (lt_irrefl _)
  · rw [← lists.mem_iff, mem_cons, or_iff_right]
    rintro rfl
    exact same rfl

theorem Lists.openFanoutParentNoFollow (lists : tree.Lists entries) (mem : entry ∈ entries) :
    tree.openFanoutParentNoFollow entry.contentId := by
  have stored := regularFileSizeNoFollow_mem ((lists.mem_iff entry).mp mem)
  have above := (tree.closed _ stored).2
  simp only [CacheTree.openFanoutParentNoFollow, isDirectory, Bool.and_eq_true, decide_eq_true_eq]
  exact ⟨above _ (by simp [PathTree.mem_ancestors, ContentId.pathFor]),
    above _ (by simp [PathTree.mem_ancestors, ContentId.pathFor])⟩
end CacheTree

theorem evictEntry_run (lists : tree.Lists entries) (mem : entry ∈ entries) :
    (evictEntry entry.contentId).run tree =
      (tree.unlinkFileAt entry.contentId.pathFor, .ok (some entry.logicalBytes)) := by
  have regular := (lists.mem_iff entry).mp mem
  simp [evictEntry, lists.openFanoutParentNoFollow mem, regular]

/-- What the loop leaves of a tree that lists `entries`, and what it has counted. -/
theorem evictEntries_run (target : ℕ) (progress : EvictionProgress) (lists : tree.Lists entries)
    (remaining : progress.remainingLogicalBytes = logicalBytes entries)
    (counted : progress.evictedEntries + entries.length < 2 ^ 64)
    (fits : progress.evictedLogicalBytes + logicalBytes entries < 2 ^ 64) :
    ∃ removed kept tree', ShortestPrefix target entries removed kept ∧ tree'.Lists kept ∧
      tree'.nodes = tree.nodes.eraseAll (removed.map (·.contentId.pathFor)) ∧
      (evictEntries target entries progress).run tree = (tree', .ok {
        remainingLogicalBytes := logicalBytes kept
        evictedEntries := progress.evictedEntries + removed.length
        evictedLogicalBytes := progress.evictedLogicalBytes + logicalBytes removed
        skippedEntries := progress.skippedEntries }) := by
  induction entries generalizing tree progress with
  | nil =>
    refine ⟨[], [], tree, shortestPrefix_nil (Nat.zero_le _), lists, rfl, ?_⟩
    cases progress
    cases remaining
    rfl
  | cons entry entries ih =>
    by_cases enough : progress.remainingLogicalBytes ≤ target
    · refine ⟨[], entry :: entries, tree, shortestPrefix_nil (remaining ▸ enough), lists, rfl, ?_⟩
      rw [evictEntries, if_pos enough, ← remaining]
      rfl
    · rw [logicalBytes_cons] at remaining fits
      rw [length_cons] at counted
      have evicted := checkedAdd_of_lt (a := progress.evictedEntries) (b := 1) (by omega)
      have added := checkedAdd_of_lt (a := progress.evictedLogicalBytes) (b := entry.logicalBytes)
        (by omega)
      obtain ⟨removed, kept, tree', shortest, listed, nodes, run⟩ := ih { progress with
          remainingLogicalBytes := progress.remainingLogicalBytes - entry.logicalBytes
          evictedEntries := progress.evictedEntries + 1
          evictedLogicalBytes := progress.evictedLogicalBytes + entry.logicalBytes }
        lists.unlinkFileAt (by dsimp only; omega) (by dsimp only; omega) (by dsimp only; omega)
      refine ⟨entry :: removed, kept, tree', shortest.cons ?_, listed, ?_, ?_⟩
      · rw [logicalBytes_cons]
        omega
      · rw [nodes, CacheTree.unlinkFileAt_nodes ((lists.mem_iff entry).mp mem_cons_self)]
        rfl
      · rw [evictEntries, if_neg enough, run_bind_of_ok (evictEntry_run lists mem_cons_self)]
        dsimp only
        rw [evicted, added]
        refine run.trans ?_
        simp only [length_cons, logicalBytes_cons, Nat.add_assoc, Nat.add_comm 1]
end Loop

section Exactness
variable {tree : CacheTree} {entries : List FanoutEntry}

theorem ShortestPrefix.logicalBytes_eq {target : ℕ} {removed kept : List FanoutEntry}
    (shortest : ShortestPrefix target entries removed kept) :
    logicalBytes entries = logicalBytes removed + logicalBytes kept := by
  rw [shortest.split]
  simp [logicalBytes]

theorem evictTo_run (target : ℕ) (lists : tree.Lists entries)
    (fits : logicalBytes entries < 2 ^ 64) :
    ∃ removed kept tree' skipped skipped', ShortestPrefix target entries removed kept ∧
      tree'.nodes = tree.nodes.eraseAll (removed.map (·.contentId.pathFor)) ∧
      (evictTo target).run tree = (tree', .ok ⟨target,
        ⟨entries.length, logicalBytes entries, skipped⟩,
        ⟨kept.length, logicalBytes kept, skipped'⟩, removed.length, logicalBytes removed, 0⟩) := by
  obtain ⟨skipped, scanned⟩ := lists.scanFanout fits
  obtain ⟨removed, kept, tree', shortest, listed, nodes, run⟩ := evictEntries_run target
    { remainingLogicalBytes := logicalBytes entries } lists rfl
    ((Nat.zero_add _).trans_lt lists.length_lt) ((Nat.zero_add _).trans_lt fits)
  have left : logicalBytes kept < 2 ^ 64 := by
    rw [shortest.logicalBytes_eq] at fits
    omega
  obtain ⟨skipped', scanned'⟩ := listed.scanFanout left
  have after : tree'.usage = .ok ⟨kept.length, logicalBytes kept, skipped'⟩ := by
    rw [CacheTree.usage, scanned']
    rfl
  refine ⟨removed, kept, tree', skipped, skipped', shortest, nodes, ?_⟩
  rw [evictTo, run_bind_of_ok (by rw [run_query, scanned]),
    run_bind_of_ok run, run_bind_of_ok (by rw [run_query, after])]
  simp only [run_pure, Nat.zero_add]

/-- Eviction removes exactly the shortest beginning of the canonical entries that has to go,
touches no other path, and accounts for it. -/
theorem evictTo_removes_shortestPrefix (tree : CacheTree) (target : ℕ)
    (entries : List FanoutEntry) (lists : tree.Lists entries)
    (fits : logicalBytes entries < 2 ^ 64) :
    ∃ removed kept tree' report, (evictTo target).run tree = (tree', .ok report) ∧
      ShortestPrefix target entries removed kept ∧
      (∀ entry ∈ removed, tree'.nodes.lookup entry.contentId.pathFor = none) ∧
      (∀ path, (∀ entry ∈ removed, path ≠ entry.contentId.pathFor) →
        tree'.nodes.lookup path = tree.nodes.lookup path) ∧
      report.before.entries = report.after.entries + report.evictedEntries ∧
      report.before.logicalBytes = report.after.logicalBytes + report.evictedLogicalBytes ∧
      report.evictedEntries = removed.length ∧
      report.evictedLogicalBytes = logicalBytes removed ∧
      report.targetReached = true := by
  obtain ⟨removed, kept, tree', skipped, skipped', shortest, nodes, run⟩ :=
    evictTo_run target lists fits
  refine ⟨removed, kept, tree', _, run, shortest, ?_, ?_, ?_, ?_, rfl, rfl, ?_⟩
  · intro entry member
    rw [nodes]
    refine FinMap.lookup_eraseAll_of_mem ?_ tree.nodes
    exact mem_map.mpr ⟨entry, member, rfl⟩
  · intro path others
    rw [nodes]
    refine FinMap.lookup_eraseAll_of_notMem ?_ tree.nodes
    intro listed
    obtain ⟨entry, member, rfl⟩ := mem_map.mp listed
    exact others entry member rfl
  · rw [shortest.split, length_append, Nat.add_comm]
  · rw [shortest.logicalBytes_eq, Nat.add_comm]
  · exact decide_eq_true shortest.enough

/-- One canonical entry beside a name that is none. -/
def letterTree : CacheTree where
  nodes := [([ascii "00"], .directory), ([ascii "00", ascii "00"], .directory),
    ((⟨.replicate 32 0⟩ : ContentId).pathFor, .leaf (.file (ascii "abc"))),
    ([ascii "lost"], .leaf .irregular)].foldl (fun m e => m.insert e.1 e.2) ∅
  closed := by decide +kernel
  counted := by decide +kernel

theorem letterTree_evicted : ∃ tree' report, (evictTo 2).run letterTree = (tree', .ok report) ∧
    report.before.entries = report.after.entries + report.evictedEntries ∧
    report.targetReached = true := by
  have fits : logicalBytes (letterTree.found.insertionSort
    fun left right => left.contentId ≤ right.contentId) < 2 ^ 64 := by decide +kernel
  obtain ⟨_, _, tree', report, run, _, _, _, entries, _, _, _, reached⟩ :=
    evictTo_removes_shortestPrefix letterTree 2 _ letterTree.lists_found fits
  exact ⟨tree', report, run, entries, reached⟩
end Exactness
end ReflinkForest
