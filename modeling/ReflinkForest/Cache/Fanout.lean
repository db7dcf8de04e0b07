import ReflinkForest.Cache.Hydration
import ReflinkForest.Git.TreeObject

/-! The cache directory, two levels of hexadecimal pairs above the entries, and its scan. -/
namespace ReflinkForest
open Bytes Except List PathTree

def isAsciiHexdigit (byte : UInt8) : Bool :=
  (0x30 ≤ byte ∧ byte ≤ 0x39) ∨ (0x61 ≤ byte ∧ byte ≤ 0x66) ∨ (0x41 ≤ byte ∧ byte ≤ 0x46)

def isHexName (name : Str) (expectedLen : ℕ) : Bool :=
  name.length = expectedLen ∧ name.all isAsciiHexdigit

def hexNibble (byte : UInt8) : Option UInt8 :=
  if 0x30 ≤ byte ∧ byte ≤ 0x39 then some (byte - 0x30)
  else if 0x61 ≤ byte ∧ byte ≤ 0x66 then some (byte - 0x61 + 10)
  else if 0x41 ≤ byte ∧ byte ≤ 0x46 then some (byte - 0x41 + 10)
  else none

/-- The loop over `chunks_exact(2)`. -/
def nibblePairs : Str → Option Str
  | high :: low :: rest => do
    let high ← hexNibble high
    let low ← hexNibble low
    let bytes ← nibblePairs rest
    some (((high <<< 4) ||| low) :: bytes)
  | _ => some []

def contentIdFromHexName (name : Str) : Option ContentId := do
  if name.length ≠ 64 ∨ !name.all isAsciiHexdigit then none
  else
    let output ← nibblePairs name
    some ⟨sliceVec output 0 32⟩

namespace ContentId
/-- The file name of a content ID, in lower case. -/
def hex (id : ContentId) : Str := id.bytes.toList.flatMap hexPair

def pathFor (id : ContentId) : List Str := [id.hex.take 2, (id.hex.drop 2).take 2, id.hex]
end ContentId

/-- The content ID of a leaf under its canonical name. -/
def canonicalId (first second leaf : Str) : Option ContentId := do
  let id ← contentIdFromHexName leaf
  if first ≠ id.hex.take 2 ∨ second ≠ (id.hex.drop 2).take 2 ∨ leaf ≠ id.hex then none
  else some id

theorem hexNibble_eq (byte : UInt8) : hexNibble byte = (hexDigit byte).toOption := by
  unfold hexNibble hexDigit
  split_ifs <;> rfl

theorem nibblePairs_eq (name : Str) : nibblePairs name = (hexPairs name).toOption := by
  induction name using nibblePairs.induct with
  | case1 high low rest ih =>
    rw [nibblePairs, hexPairs, hexNibble_eq, hexNibble_eq, ih]
    cases hexDigit high <;> cases hexDigit low <;> cases hexPairs rest <;> rfl
  | case2 name short =>
    rw [nibblePairs.eq_2 name short, hexPairs.eq_2 name short]
    rfl

theorem isAsciiHexdigit_hexPair (byte : UInt8) : (hexPair byte).all isAsciiHexdigit := by
  have each : ∀ n < 256, (hexPair (UInt8.ofNat n)).all isAsciiHexdigit := by decide +kernel
  simpa using each byte.toNat byte.toNat_lt

namespace ContentId
variable {id other : ContentId}

theorem length_hex (id : ContentId) : id.hex.length = 64 := by
  rw [hex, length_flatMap]
  simp [hexPair]

theorem all_hex (id : ContentId) : id.hex.all isAsciiHexdigit := by
  rw [hex, all_flatMap, all_eq_true]
  exact fun byte _ => isAsciiHexdigit_hexPair byte

theorem contentIdFromHexName_hex (id : ContentId) : contentIdFromHexName id.hex = some id := by
  have bytes : nibblePairs id.hex = some id.bytes.toList := by
    rw [nibblePairs_eq, hex, hexPairs_flatMap]
    rfl
  have whole : sliceVec id.bytes.toList 0 32 = id.bytes := by
    apply List.Vector.toList_injective
    rw [toList_sliceVec (by simp), slice_self (by simp)]
  simp [contentIdFromHexName, length_hex, all_hex, bytes, whole]

theorem hex_injective : Function.Injective hex := by
  intro a b same
  have read := contentIdFromHexName_hex a
  rw [same, contentIdFromHexName_hex b] at read
  exact (Option.some.inj read).symm

theorem pathFor_injective : Function.Injective pathFor := by
  intro a b same
  have names : a.hex = b.hex := by
    simp only [pathFor, List.cons.injEq] at same
    exact same.2.2.1
  exact hex_injective names
end ContentId

theorem canonicalId_eq_some_iff {first second leaf : Str} {id : ContentId} :
    canonicalId first second leaf = some id ↔ [first, second, leaf] = id.pathFor := by
  simp only [canonicalId, ContentId.pathFor, Option.bind_eq_bind, Option.bind_eq_some_iff,
    List.cons.injEq, and_true]
  constructor
  · rintro ⟨read, _, kept⟩
    split_ifs at kept with differs
    obtain rfl := Option.some.inj kept
    simpa only [not_or, not_not] using differs
  · rintro ⟨rfl, rfl, rfl⟩
    exact ⟨id, id.contentIdFromHexName_hex, by simp⟩

/-- The variants of `CacheError` that a scan or an eviction returns. -/
inductive FanoutError where
  | accountingOverflow
  | io (error : PathTree.Error)

/-- What lies below the cache root. A file system holds fewer names than a `u64` counts. -/
structure CacheTree where
  nodes : PathTree Str CacheEntry
  closed : nodes.Closed
  counted : nodes.keys.length < 2 ^ 64

/-- `CacheEntry` of a scan: a canonical regular leaf. -/
structure FanoutEntry where
  contentId : ContentId
  logicalBytes : ℕ

structure CacheUsage where
  entries : ℕ := 0
  logicalBytes : ℕ := 0
  skipped : ℕ := 0

structure FanoutScan where
  entries : List FanoutEntry := []
  usage : CacheUsage := {}

def checkedAdd (a b : ℕ) : Except FanoutError ℕ := do
  .require (a + b < 2 ^ 64) .accountingOverflow
  .ok (a + b)

namespace FanoutScan
def push (scan : FanoutScan) (entry : FanoutEntry) : Except FanoutError FanoutScan := do
  let entries ← checkedAdd scan.usage.entries 1
  let logicalBytes ← checkedAdd scan.usage.logicalBytes entry.logicalBytes
  .ok ⟨scan.entries ++ [entry], { scan.usage with entries, logicalBytes }⟩

def skip (scan : FanoutScan) : Except FanoutError FanoutScan := do
  let skipped ← checkedAdd scan.usage.skipped 1
  .ok { scan with usage := { scan.usage with skipped } }
end FanoutScan

def quarantineName : Str := ascii ".quarantine"

namespace CacheTree
def isDirectory (tree : CacheTree) (path : List Str) : Bool :=
  tree.nodes.lookup path = some .directory

def regularFileSizeNoFollow (tree : CacheTree) (path : List Str) : Option ℕ :=
  match tree.nodes.lookup path with
  | some (.leaf (.file bytes)) => some bytes.length
  | _ => none

def scanLeaf (tree : CacheTree) (first second : Str) (scan : FanoutScan) (leaf : Str) :
    Except FanoutError FanoutScan :=
  match canonicalId first second leaf with
  | none => scan.skip
  | some contentId =>
    match tree.regularFileSizeNoFollow [first, second, leaf] with
    | none => scan.skip
    | some logicalBytes => scan.push ⟨contentId, logicalBytes⟩

def scanFanoutLeaves (tree : CacheTree) (first second : Str) (scan : FanoutScan) :
    Except FanoutError FanoutScan :=
  (tree.nodes.childNames [first, second]).foldlM (tree.scanLeaf first second) scan

def scanSecondFanout (tree : CacheTree) (first : Str) (scan : FanoutScan) :
    Except FanoutError FanoutScan :=
  (tree.nodes.childNames [first]).foldlM (fun scan second =>
    if !isHexName second 2 then scan.skip
    else if !tree.isDirectory [first, second] then scan.skip
    else tree.scanFanoutLeaves first second scan) scan

def scanFirstFanout (tree : CacheTree) (scan : FanoutScan) : Except FanoutError FanoutScan :=
  (tree.nodes.childNames []).foldlM (fun scan first =>
    if first = quarantineName then .ok scan
    else if !isHexName first 2 then scan.skip
    else if !tree.isDirectory [first] then scan.skip
    else tree.scanSecondFanout first scan) scan

def scanFanout (tree : CacheTree) : Except FanoutError FanoutScan := do
  let scan ← tree.scanFirstFanout {}
  .ok { scan with entries := scan.entries.insertionSort fun left right =>
    left.contentId ≤ right.contentId }

def usage (tree : CacheTree) : Except FanoutError CacheUsage := do
  let scan ← tree.scanFanout
  .ok scan.usage
end CacheTree

section Visits
variable {tree : CacheTree} {path : List Str} {entry : FanoutEntry} {scan : FanoutScan}

/-- What a scan makes of one name. -/
def FanoutScan.note (scan : FanoutScan) : Option FanoutEntry → Except FanoutError FanoutScan
  | some entry => scan.push entry
  | none => scan.skip

def logicalBytes (entries : List FanoutEntry) : ℕ := (entries.map (·.logicalBytes)).sum

theorem checkedAdd_of_lt {a b : ℕ} (fits : a + b < 2 ^ 64) : checkedAdd a b = .ok (a + b) := by
  rw [checkedAdd, require_pos fits]
  rfl

theorem foldlM_note {α : Type} (noted : α → Option FanoutEntry) (names : List α)
    (entries : scan.usage.entries + names.length < 2 ^ 64)
    (skipped : scan.usage.skipped + names.length < 2 ^ 64)
    (bytes : scan.usage.logicalBytes + logicalBytes (names.filterMap noted) < 2 ^ 64) :
    ∃ skipped, names.foldlM (fun scan name => scan.note (noted name)) scan =
      .ok ⟨scan.entries ++ names.filterMap noted,
        scan.usage.entries + (names.filterMap noted).length,
        scan.usage.logicalBytes + logicalBytes (names.filterMap noted), skipped⟩ := by
  induction names generalizing scan with
  | nil =>
    refine ⟨scan.usage.skipped, ?_⟩
    rw [filterMap_nil, append_nil]
    rfl
  | cons name names ih =>
    rw [length_cons] at entries skipped
    cases found : noted name with
    | none =>
      rw [filterMap_cons_none found] at bytes ⊢
      have counted := checkedAdd_of_lt (a := scan.usage.skipped) (b := 1) (by omega)
      rw [foldlM_cons, found, FanoutScan.note, FanoutScan.skip, counted]
      exact ih (by dsimp only; omega) (by dsimp only; omega) bytes
    | some entry =>
      rw [filterMap_cons_some found] at bytes ⊢
      have split : logicalBytes (entry :: names.filterMap noted) =
        entry.logicalBytes + logicalBytes (names.filterMap noted) := sum_cons
      rw [split] at bytes ⊢
      have counted := checkedAdd_of_lt (a := scan.usage.entries) (b := 1) (by omega)
      have added := checkedAdd_of_lt (a := scan.usage.logicalBytes) (b := entry.logicalBytes)
        (by omega)
      rw [foldlM_cons, found, FanoutScan.note, FanoutScan.push, counted, ok_bind, added]
      obtain ⟨skipped, scanned⟩ := @ih ⟨scan.entries ++ [entry], scan.usage.entries + 1,
        scan.usage.logicalBytes + entry.logicalBytes, scan.usage.skipped⟩ (by dsimp only; omega)
        (by dsimp only; omega) (by dsimp only; omega)
      refine ⟨skipped, scanned.trans ?_⟩
      simp only [append_assoc, singleton_append, length_cons, Nat.add_assoc, Nat.add_comm 1]

namespace CacheTree
/-- The entry that stands at a path. -/
def entryAt (tree : CacheTree) : List Str → Option FanoutEntry
  | [first, second, leaf] =>
    match canonicalId first second leaf with
    | none => none
    | some contentId =>
      (tree.regularFileSizeNoFollow [first, second, leaf]).map fun size => ⟨contentId, size⟩
  | _ => none

/-- The paths that a scan notes at one name of the second level. -/
def visitedLeaves (tree : CacheTree) (first second : Str) : List (List Str) :=
  if !isHexName second 2 then [[first, second]]
  else if !tree.isDirectory [first, second] then [[first, second]]
  else (tree.nodes.childNames [first, second]).map fun leaf => [first, second, leaf]

/-- The paths that a scan notes at one name of the root. -/
def visitedSecond (tree : CacheTree) (first : Str) : List (List Str) :=
  if first = quarantineName then []
  else if !isHexName first 2 then [[first]]
  else if !tree.isDirectory [first] then [[first]]
  else (tree.nodes.childNames [first]).flatMap (tree.visitedLeaves first)

def visited (tree : CacheTree) : List (List Str) :=
  (tree.nodes.childNames []).flatMap tree.visitedSecond

theorem entryAt_eq_some_iff : tree.entryAt path = some entry ↔ path = entry.contentId.pathFor ∧
    tree.regularFileSizeNoFollow path = some entry.logicalBytes := by
  obtain ⟨contentId, size⟩ := entry
  unfold entryAt
  split
  · rename_i first second leaf
    rw [← canonicalId_eq_some_iff]
    cases canonicalId first second leaf <;> simp [and_comm, eq_comm]
  · rename_i other
    simp only [reduceCtorEq, false_iff]
    rintro ⟨rfl, _⟩
    exact other _ _ _ rfl

theorem scanLeaf_eq (tree : CacheTree) (first second leaf : Str) (scan : FanoutScan) :
    tree.scanLeaf first second scan leaf = scan.note (tree.entryAt [first, second, leaf]) := by
  unfold scanLeaf entryAt
  dsimp only
  cases canonicalId first second leaf with
  | none => rfl
  | some contentId => cases tree.regularFileSizeNoFollow [first, second, leaf] <;> rfl

theorem scanSecondFanout_eq (tree : CacheTree) (first : Str) (scan : FanoutScan) :
    tree.scanSecondFanout first scan =
      ((tree.nodes.childNames [first]).flatMap (tree.visitedLeaves first)).foldlM
        (fun scan path => scan.note (tree.entryAt path)) scan := by
  rw [foldlM_flatMap, scanSecondFanout]
  apply foldlM_congr
  intro second _ scan
  unfold visitedLeaves
  split_ifs with named listed
  · exact (bind_pure scan.skip).symm
  · exact (bind_pure scan.skip).symm
  · rw [foldlM_map, scanFanoutLeaves]
    apply foldlM_congr
    intro leaf _ scan
    exact scanLeaf_eq tree first second leaf scan

theorem scanFirstFanout_eq (tree : CacheTree) (scan : FanoutScan) : tree.scanFirstFanout scan =
    tree.visited.foldlM (fun scan path => scan.note (tree.entryAt path)) scan := by
  rw [visited, foldlM_flatMap, scanFirstFanout]
  apply foldlM_congr
  intro first _ scan
  unfold visitedSecond
  split_ifs with quarantine named listed
  · rfl
  · exact (bind_pure scan.skip).symm
  · exact (bind_pure scan.skip).symm
  · exact scanSecondFanout_eq tree first scan

variable {first : Str} {entries : List FanoutEntry}

theorem mem_visitedLeaves {second : Str} (listed : second ∈ tree.nodes.childNames [first])
    (mem : path ∈ tree.visitedLeaves first second) :
    path ∈ tree.nodes ∧ [first, second] <+: path := by
  have here : [first, second] ∈ tree.nodes := mem_childNames.mp listed
  unfold visitedLeaves at mem
  split_ifs at mem
  · obtain rfl := mem_singleton.mp mem
    exact ⟨here, prefix_rfl⟩
  · obtain rfl := mem_singleton.mp mem
    exact ⟨here, prefix_rfl⟩
  · obtain ⟨leaf, below, rfl⟩ := mem_map.mp mem
    exact ⟨mem_childNames.mp below, [leaf], rfl⟩

theorem mem_visitedSecond (listed : first ∈ tree.nodes.childNames [])
    (mem : path ∈ tree.visitedSecond first) : path ∈ tree.nodes ∧ [first] <+: path := by
  have here : [first] ∈ tree.nodes := mem_childNames.mp listed
  unfold visitedSecond at mem
  split_ifs at mem
  · cases mem
  · obtain rfl := mem_singleton.mp mem
    exact ⟨here, prefix_rfl⟩
  · obtain rfl := mem_singleton.mp mem
    exact ⟨here, prefix_rfl⟩
  · obtain ⟨second, named, found⟩ := mem_flatMap.mp mem
    obtain ⟨stored, inside⟩ := mem_visitedLeaves named found
    exact ⟨stored, (prefix_append [first] [second]).trans inside⟩

theorem mem_visited (mem : path ∈ tree.visited) : path ∈ tree.nodes := by
  obtain ⟨first, listed, found⟩ := mem_flatMap.mp mem
  exact (mem_visitedSecond listed found).1

theorem nodup_flatMap_names (above : List Str) {names : List Str} {paths : Str → List (List Str)}
    (distinct : names.Nodup) (each : ∀ name ∈ names, (paths name).Nodup)
    (below : ∀ name ∈ names, ∀ path ∈ paths name, above ++ [name] <+: path) :
    (names.flatMap paths).Nodup := by
  apply nodup_flatMap.mpr
  refine ⟨each, distinct.pairwise_of_forall_ne ?_⟩
  intro name listed name' listed' differ path mem member'
  have same := prefix_of_prefix_length_le (below name listed path mem)
    (below name' listed' path member') (by simp)
  exact differ (by simpa using same.eq_of_length (by simp))

theorem nodup_visited (tree : CacheTree) : tree.visited.Nodup := by
  apply nodup_flatMap_names [] nodup_childNames
  · intro first listed
    unfold visitedSecond
    split_ifs
    · exact nodup_nil
    · exact nodup_singleton _
    · exact nodup_singleton _
    · apply nodup_flatMap_names [first] nodup_childNames
      · intro second _
        unfold visitedLeaves
        split_ifs
        · exact nodup_singleton _
        · exact nodup_singleton _
        · exact nodup_childNames.map fun a b same => by simpa using same
      · exact fun second named path mem => (mem_visitedLeaves named mem).2
  · exact fun first listed path mem => (mem_visitedSecond listed mem).2

theorem length_visited_lt (tree : CacheTree) : tree.visited.length < 2 ^ 64 := by
  have inside : tree.visited ⊆ tree.nodes.keys := fun path mem =>
    AList.mem_keys.mp (mem_visited mem)
  exact (tree.nodup_visited.subperm inside).length_le.trans_lt tree.counted

theorem isHexName_hex {id : ContentId} {n k : ℕ} (inside : n + k ≤ 64) :
    isHexName ((id.hex.drop n).take k) k := by
  have digits : ((id.hex.drop n).take k).all isAsciiHexdigit := by
    have all := all_eq_true.mp id.all_hex
    exact all_eq_true.mpr fun byte mem =>
      all byte (mem_of_mem_drop (mem_of_mem_take mem))
  have length := id.length_hex
  simp only [isHexName, digits, decide_eq_true_eq, and_true, length_take, length_drop]
  omega

theorem pathFor_mem_visited {id : ContentId} (stored : id.pathFor ∈ tree.nodes) :
    id.pathFor ∈ tree.visited := by
  have above := (tree.closed _ stored).2
  have first : tree.nodes.lookup [id.hex.take 2] = some .directory := above _ (by
    simp [PathTree.mem_ancestors, ContentId.pathFor])
  have second : tree.nodes.lookup [id.hex.take 2, (id.hex.drop 2).take 2] = some .directory :=
    above _ (by simp [PathTree.mem_ancestors, ContentId.pathFor])
  have firstName : isHexName (id.hex.take 2) 2 := isHexName_hex (n := 0) (by omega)
  have secondName : isHexName ((id.hex.drop 2).take 2) 2 := isHexName_hex (by omega)
  have ordinary : id.hex.take 2 ≠ quarantineName := by
    intro same
    have length : (id.hex.take 2).length = 11 := by
      rw [same]
      decide
    simp [id.length_hex] at length
  have mem {path : List Str} (found : tree.nodes.lookup path = some .directory) :
      path ∈ tree.nodes := FinMap.mem_of_lookup found
  apply mem_flatMap.mpr
  refine ⟨_, mem_childNames.mpr (mem first), ?_⟩
  rw [visitedSecond, if_neg ordinary, if_neg (by simp [firstName]),
    if_neg (by simp [isDirectory, first]), mem_flatMap]
  refine ⟨_, mem_childNames.mpr (mem second), ?_⟩
  rw [visitedLeaves, if_neg (by simp [secondName]), if_neg (by simp [isDirectory, second]), mem_map]
  exact ⟨id.hex, mem_childNames.mpr stored, rfl⟩

/-- The canonical entries of a tree in the order of their content IDs. -/
structure Lists (tree : CacheTree) (entries : List FanoutEntry) : Prop where
  ascending : entries.Pairwise fun a b => a.contentId < b.contentId
  mem_iff : ∀ entry, entry ∈ entries ↔
    tree.regularFileSizeNoFollow entry.contentId.pathFor = some entry.logicalBytes

theorem regularFileSizeNoFollow_mem {size : ℕ}
    (found : tree.regularFileSizeNoFollow path = some size) : path ∈ tree.nodes := by
  apply AList.lookup_isSome.mp
  unfold regularFileSizeNoFollow at found
  split at found
  · rename_i stored
    rw [stored]
    rfl
  · cases found

/-- The entries of a scan before they are put in order. -/
def found (tree : CacheTree) : List FanoutEntry := tree.visited.filterMap tree.entryAt

theorem mem_found : entry ∈ tree.found ↔
    tree.regularFileSizeNoFollow entry.contentId.pathFor = some entry.logicalBytes := by
  rw [found, mem_filterMap]
  constructor
  · rintro ⟨path, _, found⟩
    obtain ⟨rfl, size⟩ := entryAt_eq_some_iff.mp found
    exact size
  · intro size
    exact ⟨_, pathFor_mem_visited (regularFileSizeNoFollow_mem size),
      entryAt_eq_some_iff.mpr ⟨rfl, size⟩⟩

theorem nodup_found (tree : CacheTree) : (tree.found.map (·.contentId)).Nodup := by
  have distinct : tree.found.Nodup := by
    apply tree.nodup_visited.filterMap
    intro path path' entry found found'
    rw [(entryAt_eq_some_iff.mp found).1, (entryAt_eq_some_iff.mp found').1]
  apply distinct.map_on
  rintro ⟨id, size⟩ mem ⟨id', size'⟩ member' ⟨⟩
  have sizes : some size = some size' :=
    (mem_found.mp mem).symm.trans (mem_found.mp member')
  rw [Option.some.inj sizes]

theorem lists_found (tree : CacheTree) :
    tree.Lists (tree.found.insertionSort fun left right => left.contentId ≤ right.contentId) where
  ascending := pairwise_lt_insertionSort tree.nodup_found
  mem_iff _ := (perm_insertionSort _ _).mem_iff.trans mem_found

theorem Lists.unique {entries' : List FanoutEntry} (lists : tree.Lists entries)
    (lists' : tree.Lists entries') : entries = entries' :=
  eq_of_pairwise_lt_of_mem_iff lists.ascending lists'.ascending fun entry =>
    (lists.mem_iff entry).trans (lists'.mem_iff entry).symm

theorem Lists.perm_found (lists : tree.Lists entries) :
    entries.Perm tree.found :=
  lists.unique tree.lists_found ▸ perm_insertionSort _ _

theorem Lists.length_lt (lists : tree.Lists entries) :
    entries.length < 2 ^ 64 :=
  lists.perm_found.length_eq.trans_lt
    ((length_filterMap_le _ _).trans_lt tree.length_visited_lt)

/-- A scan whose counters suffice returns the canonical entries and counts them. -/
theorem Lists.scanFanout (lists : tree.Lists entries) (fits : logicalBytes entries < 2 ^ 64) :
    ∃ skipped, tree.scanFanout =
      .ok ⟨entries, entries.length, logicalBytes entries, skipped⟩ := by
  have bytes : logicalBytes entries = logicalBytes tree.found :=
    (lists.perm_found.map FanoutEntry.logicalBytes).sum_eq
  have few := tree.length_visited_lt
  rw [bytes] at fits
  obtain ⟨skipped, scanned⟩ := @foldlM_note {} _ tree.entryAt tree.visited
    ((Nat.zero_add _).trans_lt few) ((Nat.zero_add _).trans_lt few) ((Nat.zero_add _).trans_lt fits)
  refine ⟨skipped, ?_⟩
  rw [CacheTree.scanFanout, scanFirstFanout_eq, scanned, lists.perm_found.length_eq, bytes,
    lists.unique tree.lists_found]
  simp only [nil_append, Nat.zero_add]
  rfl
end CacheTree
end Visits
end ReflinkForest
