import ReflinkForest.Lib.FinMap

/-! A running selection: a map that keeps, for every key, the first of the values it is shown in a
given order. -/
namespace FinMap
variable {K V L : Type} [DecidableEq K] [LinearOrder L]

/-- Inserts a value unless its key already holds one that it does not precede. -/
def keepFirst (precedes : V → V → Bool) (m : FinMap K V) (k : K) (v : V) : FinMap K V :=
  match m.lookup k with
  | none => m.insert k v
  | some current => if precedes v current then m.insert k v else m

/-- Every key holds a least one of the values seen for it. -/
def Leasts (rank : V → L) (seen : K → V → Prop) (m : FinMap K V) : Prop :=
  ∀ k, (∀ v, m.lookup k = some v → seen k v ∧ ∀ w, seen k w → rank v ≤ rank w) ∧
    (m.lookup k = none → ∀ w, ¬ seen k w)

variable {precedes : V → V → Bool} {rank : V → L} {seen : K → V → Prop} {m : FinMap K V}

theorem Leasts.congr {seen' : K → V → Prop} (leasts : Leasts rank seen m)
    (same : ∀ k v, seen k v ↔ seen' k v) : Leasts rank seen' m := by
  intro k
  simp only [← same]
  exact leasts k

theorem leasts_empty : Leasts rank (fun _ _ => False) (∅ : FinMap K V) := by
  intro k
  simp

theorem Leasts.keepFirst (leasts : Leasts rank seen m)
    (ranks : ∀ v w, precedes v w = true ↔ rank v < rank w) (k : K) (v : V) :
    Leasts rank (fun k' v' => (k' = k ∧ v' = v) ∨ seen k' v') (m.keepFirst precedes k v) := by
  intro k'
  obtain ⟨least, absent⟩ := leasts k'
  have replaced (earlier : ∀ w, seen k w → rank v ≤ rank w) :
      (∀ v', (m.insert k v).lookup k' = some v' → ((k' = k ∧ v' = v) ∨ seen k' v') ∧
        ∀ w, ((k' = k ∧ w = v) ∨ seen k' w) → rank v' ≤ rank w) ∧
      ((m.insert k v).lookup k' = none → ∀ w, ¬ ((k' = k ∧ w = v) ∨ seen k' w)) := by
    rw [lookup_insert_eq]
    by_cases here : k' = k
    · subst here
      rw [if_pos rfl]
      refine ⟨?_, by simp⟩
      rintro v' ⟨⟩
      refine ⟨.inl ⟨rfl, rfl⟩, ?_⟩
      rintro w (⟨_, rfl⟩ | before)
      · exact le_rfl
      · exact earlier w before
    · rw [if_neg here]
      simpa [here] using leasts k'
  unfold FinMap.keepFirst
  split
  · rename_i vacant
    exact replaced fun w before => absurd before ((leasts k).2 vacant w)
  · rename_i current held
    obtain ⟨was, minimal⟩ := (leasts k).1 current held
    split_ifs with before
    · exact replaced fun w seen => ((ranks v current).mp before).le.trans (minimal w seen)
    · have bound : rank current ≤ rank v := not_lt.mp fun lt => before ((ranks v current).mpr lt)
      refine ⟨fun v' found => ?_, fun vacant w => ?_⟩
      · obtain ⟨old, lowest⟩ := least v' found
        refine ⟨.inr old, ?_⟩
        rintro w (⟨rfl, rfl⟩ | again)
        · rw [held] at found
          exact Option.some.inj found ▸ bound
        · exact lowest w again
      · rintro (⟨rfl, _⟩ | again)
        · rw [held] at vacant
          exact absurd vacant (by simp)
        · exact absent vacant w again

section InsertAll
omit [LinearOrder L]

def insertAll (m : FinMap K V) (entries : List (K × V)) : FinMap K V :=
  entries.foldl (fun m e => m.insert e.1 e.2) m

theorem insertAll_append (m : FinMap K V) (front rear : List (K × V)) :
    m.insertAll (front ++ rear) = (m.insertAll front).insertAll rear := List.foldl_append

variable {entries : List (K × V)} {k : K} {v : V}

theorem lookup_insertAll_of_notMem (absent : k ∉ entries.map Prod.fst) :
    (m.insertAll entries).lookup k = m.lookup k := by
  induction entries generalizing m with
  | nil => rfl
  | cons e entries ih =>
    rw [List.map_cons, List.mem_cons, not_or] at absent
    exact (ih absent.2).trans ((lookup_insert_eq _ _ _ _).trans (if_neg absent.1))

theorem lookup_insertAll_of_mem (distinct : (entries.map Prod.fst).Nodup) (mem : (k, v) ∈ entries) :
    (m.insertAll entries).lookup k = some v := by
  induction entries generalizing m with
  | nil => simp at mem
  | cons e entries ih =>
    rw [List.map_cons, List.nodup_cons] at distinct
    rcases List.mem_cons.mp mem with rfl | mem
    · exact (lookup_insertAll_of_notMem distinct.1).trans (AList.lookup_insert _)
    · exact ih distinct.2 mem

theorem lookup_insertAll_empty (distinct : (entries.map Prod.fst).Nodup) :
    ((∅ : FinMap K V).insertAll entries).lookup k = some v ↔ (k, v) ∈ entries := by
  refine ⟨fun found => ?_, lookup_insertAll_of_mem distinct⟩
  by_cases mem : k ∈ entries.map Prod.fst
  · obtain ⟨⟨k, w⟩, entry, rfl⟩ := List.mem_map.mp mem
    rw [lookup_insertAll_of_mem distinct entry] at found
    exact Option.some.inj found ▸ entry
  · rw [lookup_insertAll_of_notMem mem] at found
    exact absurd found (by simp)
end InsertAll
end FinMap

theorem List.flatten_toChunks {α : Type*} (n : ℕ) (xs : List α) : (xs.toChunks n).flatten = xs := by
  have go (m : ℕ) (xs : List α) (acc : Array α) (done : Array (List α)) :
      (List.toChunks.go m xs acc done).flatten = done.toList.flatten ++ acc.toList ++ xs := by
    induction xs generalizing acc done with
    | nil => simp [List.toChunks.go]
    | cons x xs ih =>
      rw [List.toChunks.go]
      split <;> simp [ih]
  match n, xs with
  | 0, [] => rfl
  | n + 1, [] => rfl
  | 0, x :: xs => simp [List.toChunks]
  | n + 1, x :: xs => simp [List.toChunks, go]
