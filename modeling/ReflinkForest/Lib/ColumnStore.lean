import ReflinkForest.Lib.FinMap

/-! A database of ordered key/value families with batched writes, and typed maps that are stored in
a family under encodings of their keys and values. -/
namespace ColumnStore
open FinMap Option
variable {F B W K V : Type}

/-- One map per column family. -/
structure Database (F B W : Type) where
  families : F → FinMap B W

inductive Write (F B W : Type) where
  | put (family : F) (key : B) (value : W)
  | delete (family : F) (key : B)
  /-- Deletes the keys from `start` up to `stop`, without `stop`. -/
  | deleteRange (family : F) (start stop : B)

def Write.family : Write F B W → F
  | .put family _ _ => family
  | .delete family _ => family
  | .deleteRange family _ _ => family

namespace Database
variable [DecidableEq F] [LinearOrder B]

def empty : Database F B W := ⟨fun _ => ∅⟩

def get (db : Database F B W) (family : F) (key : B) : Option W := (db.families family).lookup key

/-- The entries of a family from its first key on. -/
def iterator (db : Database F B W) (family : F) : List (B × W) :=
  (db.families family).sortedBy fun e => e.1

def update (db : Database F B W) (family : F) (change : FinMap B W → FinMap B W) :
    Database F B W :=
  ⟨fun other => if other = family then change (db.families other) else db.families other⟩

def writeOne (db : Database F B W) : Write F B W → Database F B W
  | .put family key value => db.update family (·.insert key value)
  | .delete family key => db.update family (·.erase key)
  | .deleteRange family start stop =>
    db.update family (FinMap.filterKeys fun key => ¬ (start ≤ key ∧ key < stop))

/-- A batch is written as a whole. -/
def write (db : Database F B W) (batch : List (Write F B W)) : Database F B W :=
  batch.foldl writeOne db

omit [LinearOrder B] in
theorem families_update_of_ne (db : Database F B W) {family other : F}
    (change : FinMap B W → FinMap B W) (different : other ≠ family) :
    (db.update family change).families other = db.families other := if_neg different

theorem families_writeOne_of_ne (db : Database F B W) {w : Write F B W} {other : F}
    (different : other ≠ w.family) : (db.writeOne w).families other = db.families other := by
  cases w <;> exact db.families_update_of_ne _ different
end Database

section Stores
variable [LinearOrder B]

/-- A family holds exactly the entries of a typed map, encoded. -/
structure Stores (key : K → B) (value : V → W) (view : K → Option V) (m : FinMap B W) : Prop where
  lookup : ∀ k, m.lookup (key k) = (view k).map value
  encoded : ∀ b w, m.lookup b = some w → ∃ k, key k = b

variable {key : K → B} {value : V → W} {view view' : K → Option V} {m : FinMap B W}

namespace Stores
theorem empty (none : ∀ k, view k = none) : Stores key value view ∅ :=
  ⟨fun k => by simp [none], fun b w found => by simp at found⟩

variable [DecidableEq K]

theorem insert (injective : key.Injective) (stores : Stores key value view m) (k : K) (v : V)
    (inserted : ∀ k', view' k' = if k' = k then some v else view k') :
    Stores key value view' (m.insert (key k) (value v)) := by
  constructor
  · intro k'
    rw [lookup_insert_eq, inserted, stores.lookup]
    by_cases same : k' = k
    · rw [if_pos (congrArg key same), if_pos same, map_some]
    · rw [if_neg fun encodings => same (injective encodings), if_neg same]
  · intro b w found
    rw [lookup_insert_eq] at found
    split_ifs at found with here
    · exact ⟨k, here.symm⟩
    · exact stores.encoded b w found

theorem erase (injective : key.Injective) (stores : Stores key value view m) (k : K)
    (erased : ∀ k', view' k' = if k' = k then none else view k') :
    Stores key value view' (m.erase (key k)) := by
  constructor
  · intro k'
    rw [lookup_erase_eq, erased, stores.lookup]
    by_cases same : k' = k
    · rw [if_pos (congrArg key same), if_pos same, map_none]
    · rw [if_neg fun encodings => same (injective encodings), if_neg same]
  · intro b w found
    rw [lookup_erase_eq] at found
    split_ifs at found with here
    exact stores.encoded b w found

omit [DecidableEq K] in
/-- A range that covers every encoded key empties the family. -/
theorem deleteRange (stores : Stores key value view m) {start stop : B}
    (covered : ∀ k, start ≤ key k ∧ key k < stop) (none : ∀ k, view' k = none) :
    Stores key value view' (m.filterKeys fun b => ¬ (start ≤ b ∧ b < stop)) := by
  constructor
  · intro k
    rw [lookup_filterKeys, if_neg (by simpa using covered k), none, map_none]
  · intro b w found
    rw [lookup_filterKeys] at found
    split_ifs at found with kept
    exact stores.encoded b w found

omit [DecidableEq K] in
theorem mem_sortedBy_iff (stores : Stores key value view m) {e : B × W} :
    e ∈ m.sortedBy (fun e => e.1) ↔ ∃ k v, view k = some v ∧ (key k, value v) = e := by
  obtain ⟨b, w⟩ := e
  rw [mem_sortedBy]
  constructor
  · intro found
    obtain ⟨k, rfl⟩ := stores.encoded b w found
    rw [stores.lookup, map_eq_some_iff] at found
    obtain ⟨v, viewed, rfl⟩ := found
    exact ⟨k, v, viewed, rfl⟩
  · rintro ⟨k, v, viewed, same⟩
    obtain ⟨rfl, rfl⟩ := Prod.mk.inj same
    rw [stores.lookup, viewed, map_some]

omit [DecidableEq K] in
/-- What an iterator shows are the entries of the typed map, in the order of the encoded keys. -/
theorem exists_entries (injective : key.Injective) (injectiveValue : value.Injective)
    (stores : Stores key value view m) :
    ∃ entries : List (K × V),
      (m.sortedBy fun e => e.1) = entries.map (fun e => (key e.1, value e.2)) ∧
      entries.Pairwise (fun a b => key a.1 < key b.1) ∧
      ∀ k v, (k, v) ∈ entries ↔ view k = some v := by
  have typed : (m.sortedBy fun e => e.1) ∈
      Set.range (List.map fun e : K × V => (key e.1, value e.2)) := by
    rw [Set.range_list_map]
    intro e mem
    obtain ⟨k, v, _, encoded⟩ := stores.mem_sortedBy_iff.mp mem
    exact ⟨(k, v), encoded⟩
  obtain ⟨entries, shown⟩ := typed
  have ascending := m.pairwise_sortedBy Function.injective_id
  simp only [id, ← shown, List.pairwise_map] at ascending
  have encodes : Function.Injective fun e : K × V => (key e.1, value e.2) :=
    injective.prodMap injectiveValue
  refine ⟨entries, shown.symm, ascending, fun k v => ?_⟩
  have found : (key k, value v) ∈ (m.sortedBy fun e => e.1) ↔ view k = some v := by
    rw [mem_sortedBy, stores.lookup, ← map_some, (map_injective injectiveValue).eq_iff]
  rw [← found, ← shown]
  exact (List.mem_map_of_injective encodes).symm

omit [DecidableEq K] in
/-- A family is enumerated in the order of its encoded keys. -/
theorem sortedBy (injective : key.Injective) (injectiveValue : value.Injective)
    (stores : Stores key value view m)
    {entries : List (K × V)} (sorted : entries.Pairwise fun a b => key a.1 < key b.1)
    (mem_iff : ∀ k v, (k, v) ∈ entries ↔ view k = some v) :
    (m.sortedBy fun e => e.1) = entries.map fun e => (key e.1, value e.2) := by
  obtain ⟨others, shown, ascending, members⟩ := stores.exists_entries injective injectiveValue
  have same : others = entries :=
    eq_of_pairwise_of_mem_iff ascending sorted fun e =>
      (members e.1 e.2).trans (mem_iff e.1 e.2).symm
  rw [shown, same]
end Stores
end Stores

section Keys
variable {A : Type} [LinearOrder A]

/-- Keys of fields with a fixed width are ordered field by field. -/
theorem append_lt_append_iff {front front' rear rear' : List A}
    (width : front.length = front'.length) :
    front ++ rear < front' ++ rear' ↔ front < front' ∨ (front = front' ∧ rear < rear') := by
  induction front generalizing front' with
  | nil =>
    rw [List.length_nil, eq_comm, List.length_eq_zero_iff] at width
    simp [width]
  | cons a front ih =>
    cases front' with
    | nil => simp at width
    | cons a' front' =>
      have rest := ih (Nat.succ.inj width)
      simp only [List.cons_append, List.cons_lt_cons_iff, rest, List.cons.injEq]
      tauto
end Keys
end ColumnStore
