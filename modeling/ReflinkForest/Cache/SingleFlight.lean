import ReflinkForest.Cache.Hydration
import ReflinkForest.Lib.SingleFlight
import ReflinkForest.Store.StreamingReader

/-! Concurrent hydration of one blob. The closure shares the cache path with other callers; the
entry lock is left out. -/
namespace ReflinkForest
open Bytes Interaction ContentId Hydrator
open Except hiding error

section Model
variable (P : Primitives) (id : ContentId)

namespace HydrationWorld
inductive Acts : World CacheEffect.Answer HydrationWorld where
  | read (w : HydrationWorld) (place : EntryPlace) :
      Acts w (.readEntry place) (readAnswer id (w.entryAt id place)) w
  | readFailed (w : HydrationWorld) (place : EntryPlace) (error : PathTree.Error) :
      Acts w (.readEntry place) (.error (.io error)) w
  | moved (w : HydrationWorld) {entry : CacheEntry} (found : w.cache.lookup id = some entry) :
      Acts w .moveToQuarantine (.ok (some entry)) { w with cache := w.cache.erase id }
  | movedUnsynced (w : HydrationWorld) {entry : CacheEntry}
      (found : w.cache.lookup id = some entry) (error : PathTree.Error) :
      Acts w .moveToQuarantine (.error error) { w with cache := w.cache.erase id }
  | nothingMoved (w : HydrationWorld) (absent : w.cache.lookup id = none) :
      Acts w .moveToQuarantine (.ok none) w
  | moveFailed (w : HydrationWorld) (error : PathTree.Error) :
      Acts w .moveToQuarantine (.error error) w
  | restored (w : HydrationWorld) (entry : CacheEntry) (absent : w.cache.lookup id = none)
      (answer : Except PathTree.Error Unit) :
      Acts w (.restoreQuarantined entry) answer { w with cache := w.cache.insert id entry }
  | notRestored (w : HydrationWorld) (entry : CacheEntry) (answer : Except PathTree.Error Unit) :
      Acts w (.restoreQuarantined entry) answer w
  | located (w : HydrationWorld) (answer : Option ObjectLocation) :
      Acts w .objectLocation answer w
  | present (w : HydrationWorld) {entry : CacheEntry} (found : w.cache.lookup id = some entry) :
      Acts w .destinationExists true w
  | notSeen (w : HydrationWorld) : Acts w .destinationExists false w
  | streamed (w : HydrationWorld) (location : ObjectLocation) (chunk : Option Str) :
      Acts w (.streamBlobIntoCache location) (streamBlobIntoCache P chunk location id) w
  | streamFailed (w : HydrationWorld) (location : ObjectLocation) (error : StoreError) :
      Acts w (.streamBlobIntoCache location) (.error (.store error)) w
  | linked (w : HydrationWorld) (bytes : Str) (absent : w.cache.lookup id = none) :
      Acts w (.hardLink bytes) (.ok ()) ⟨w.cache.insert id (.file bytes), true⟩
  | notLinked (w : HydrationWorld) (bytes : Str) (error : PathTree.Error) :
      Acts w (.hardLink bytes) (.error error) w
  | scratch (w : HydrationWorld) (step : ScratchStep) (answer : Except PathTree.Error Unit) :
      Acts w (.scratch step) answer w

/-- The entry is a file whose bytes hash to the blob's content ID. -/
def Holds (w : HydrationWorld) : Prop :=
  ∃ bytes, w.cache.lookup id = some (.file bytes) ∧ ContentId.forObject P .blob bytes = id

/-- What other users of the cache may do: publish the blob where nothing stands, and anything to
other entries. -/
def Others (w w' : HydrationWorld) : Prop :=
  w'.published = w.published ∧
    (w'.cache.lookup id = w.cache.lookup id ∨ w.cache.lookup id = none ∧ w'.Holds P id)
end HydrationWorld

/-- The callers of `hydrate_blob_from_chunk`, each with its own closure. -/
def hydrationService (ι : Type) : SingleFlight.Service CacheEffect CacheEffect.Answer
    HydrationError ContentId HydrationWorld ι where
  acts := HydrationWorld.Acts P id
  rely := HydrationWorld.Others P id
  look w outcome := ∃ result,
    Returns (HydrationWorld.Acts P id) (Hydrator.verifiedPath P id) w result w ∧
      outcome = Hydrator.checked result
  work _ := Hydrator.hydrateBlobFromChunkInner P id
end Model

section Specs
variable {P : Primitives} {id : ContentId} {w w' w'' : HydrationWorld} {bytes : Str}

namespace HydrationWorld
theorem Others.refl (w : HydrationWorld) : w.Others P id w := ⟨rfl, .inl rfl⟩

theorem Others.entry {entry : CacheEntry} (change : w.Others P id w')
    (found : w.cache.lookup id = some entry) : w'.cache.lookup id = some entry := by
  rcases change.2 with same | ⟨absent, _⟩
  · rw [same, found]
  · rw [absent] at found
    cases found

theorem Others.holds (change : w.Others P id w') (holds : w.Holds P id) : w'.Holds P id := by
  obtain ⟨bytes, found, hashed⟩ := holds
  exact ⟨bytes, change.entry found, hashed⟩

theorem Others.trans (first : w.Others P id w') (second : w'.Others P id w'') :
    w.Others P id w'' := by
  refine ⟨second.1.trans first.1, ?_⟩
  rcases first.2 with same | ⟨absent, holds⟩
  · rcases second.2 with again | ⟨absent, holds⟩
    · exact .inl (again.trans same)
    · exact .inr ⟨same ▸ absent, holds⟩
  · exact .inr ⟨absent, second.holds holds⟩

/-- What a closure has published is still there. -/
def Consistent (P : Primitives) (id : ContentId) (w : HydrationWorld) : Prop :=
  w.published = true → w.Holds P id

def Fresh (w : HydrationWorld) : Prop := w.published = false

theorem Fresh.consistent (fresh : w.Fresh) : w.Consistent P id := by
  intro published
  rw [fresh] at published
  cases published

theorem Consistent.fresh (consistent : w.Consistent P id) (lacks : ¬w.Holds P id) : w.Fresh := by
  rw [Fresh, ← Bool.not_eq_true]
  exact fun published => lacks (consistent published)

theorem Others.fresh (change : w.Others P id w') (fresh : w.Fresh) : w'.Fresh :=
  change.1.trans fresh

theorem Others.consistent (change : w.Others P id w') (consistent : w.Consistent P id) :
    w'.Consistent P id := fun published => change.holds (consistent (change.1 ▸ published))

theorem not_holds_of_entry {entry : CacheEntry} (found : w.cache.lookup id = some entry)
    (bad : ∀ bytes, entry = .file bytes → forObject P .blob bytes ≠ id) :
    ¬w.Holds P id := by
  rintro ⟨bytes, file, hashed⟩
  rw [found] at file
  exact bad bytes (Option.some.inj file) hashed
end HydrationWorld

open HydrationWorld

/-- What a closure may do: the cold record is read only before the blob is published, what is moved
away does not hash to the content ID, and what is linked does. -/
def hydrationGuard (P : Primitives) (id : ContentId)
    (_ : List (Moment CacheEffect.Answer HydrationWorld)) (w : HydrationWorld) :
    CacheEffect → Prop
  | .streamBlobIntoCache _ => w.Fresh
  | .moveToQuarantine => ¬w.Holds P id
  | .hardLink bytes => ContentId.forObject P .blob bytes = id
  | _ => True

/-- Failures that say that the entry is missing or invalid. -/
def HydrationError.BlamesEntry : HydrationError → Prop
  | .cache (.io _) => False
  | .cache _ => True
  | _ => False

/-- What holds when a closure ends. -/
def Settled (P : Primitives) (id : ContentId) (result : Except HydrationError ContentId)
    (w : HydrationWorld) : Prop :=
  w.Consistent P id ∧ match result with
    | .ok path => path = id ∧ w.Holds P id
    | .error error => error.BlamesEntry → w.Fresh

abbrev Hydrates {α : Type} (P : Primitives) (id : ContentId) (pre : HydrationWorld → Prop)
    (p : Hydrator α) (post : Except HydrationError α → HydrationWorld → Prop) : Prop :=
  p.Triple (World.among (Others P id) (Acts P id)) (hydrationGuard P id) pre post

theorem streamBlobIntoCache_hashed {chunk : Option Str} {location : ObjectLocation}
    {actual : ContentId} (h : streamBlobIntoCache P chunk location id = .ok (actual, bytes)) :
    forObject P .blob bytes = id := by
  simp only [streamBlobIntoCache, bind_eq_ok_iff, mapErr_eq_ok,
    exists_require, ok.injEq, Prod.mk.injEq, Prod.exists] at h
  obtain ⟨file, _, metadata, raw, streamed, kind, _, ⟨_, named⟩, _, rfl⟩ := h
  obtain ⟨r, _, decodes, rfl⟩ := streamDecodedRecordAt_eq_ok_iff.mp streamed
  obtain ⟨_, _, hashed⟩ := decodeObjectPayload_eq_ok_iff.mp decodes
  have blob : r.kind = .blob := kind
  rw [← blob, hashed]
  exact named

namespace Hydrator
variable {location : ObjectLocation} {place : EntryPlace}

variable {K : HydrationWorld → Prop}

theorem scratch_spec (step : ScratchStep) (stable : ∀ w w', w.Others P id w' → K w → K w') :
    Hydrates P id K (scratch step)
      fun result w => K w ∧ ∀ error, result = .error error → ¬error.BlamesEntry := by
  apply Program.Triple.ask
  · exact fun _ _ _ => trivial
  · rintro w answer w' holds ⟨_, ⟨⟩, change⟩
    refine ⟨stable _ _ change holds, ?_⟩
    intro error failed
    cases answer with
    | ok value => cases failed
    | error _ =>
      cases failed
      exact fun blames => blames

/-- What a read says about the entry at the cache path. -/
theorem readEntry_spec (stable : ∀ w w', w.Others P id w' → K w → K w') :
    Hydrates P id K (readEntry .destination) fun result w => K w ∧ match result with
      | .ok bytes => w.cache.lookup id = some (.file bytes)
      | .error (.cache (.notCached _)) => ∃ w₀, K w₀ ∧ ¬w₀.Holds P id ∧ w₀.Others P id w
      | .error (.cache (.io _)) => True
      | .error error => error = .cache (.unsafeEntry id) ∧ ¬w.Holds P id := by
  apply Program.Triple.ask
  · exact fun _ _ _ => trivial
  · rintro w answer w' holds ⟨t, act, change⟩
    refine ⟨?_, ?_⟩
    · cases act <;> exact stable _ _ change holds
    cases act with
    | readFailed error => trivial
    | read =>
      rw [entryAt]
      cases found : w.cache.lookup id with
      | none =>
        refine ⟨w, holds, ?_, change⟩
        rintro ⟨bytes, file, _⟩
        rw [found] at file
        cases file
      | some entry =>
        cases entry with
        | irregular => exact ⟨rfl, not_holds_of_entry (change.entry found) (by simp)⟩
        | file bytes => exact change.entry found

theorem verifiedPath_spec : Hydrates P id (Consistent P id) (verifiedPath P id) (Settled P id) := by
  apply Program.Triple.bind (readEntry_spec fun _ _ change => change.consistent)
  · intro bytes
    apply Program.Triple.ofExcept
    rintro w ⟨consistent, found⟩
    by_cases hashed : forObject P .blob bytes = id
    · rw [require_pos hashed]
      exact ⟨consistent, rfl, bytes, found, hashed⟩
    · rw [require_neg hashed]
      refine ⟨consistent, fun _ => consistent.fresh (not_holds_of_entry found ?_)⟩
      rintro _ ⟨⟩
      exact hashed
  · rintro error w ⟨consistent, known⟩
    refine ⟨consistent, fun blames => ?_⟩
    split at known
    · rename_i same
      cases same
    · obtain ⟨w₀, before, lacks, change⟩ := known
      exact change.fresh (before.fresh lacks)
    · rename_i same
      cases same
      exact blames.elim
    · exact consistent.fresh known.2

theorem entryStatus_spec : Hydrates P id Fresh (entryStatus P id .destination)
    fun result w => w.Fresh ∧ (result = .ok .invalid → ¬w.Holds P id) := by
  apply Program.Triple.attempt (readEntry_spec fun _ _ change => change.fresh)
  intro result
  apply Program.Triple.ofExcept
  rintro w ⟨fresh, known⟩
  refine ⟨fresh, fun invalid => ?_⟩
  unfold judge at invalid
  split at invalid
  · apply not_holds_of_entry known
    rintro _ ⟨⟩ hashed
    rw [if_pos hashed] at invalid
    cases invalid
  · exact known.2
  · cases known.1
  · cases invalid
  · cases invalid

theorem entryStatus_fresh : Hydrates P id Fresh (entryStatus P id place) fun _ w => w.Fresh := by
  have read : Hydrates P id Fresh (readEntry place) fun _ w => w.Fresh := by
    apply Program.Triple.ask
    · exact fun _ _ _ => trivial
    · rintro w answer w' fresh ⟨t, act, change⟩
      cases act <;> exact change.fresh fresh
  apply Program.Triple.attempt read
  intro result
  exact Program.Triple.ofExcept fun _ fresh => fresh

theorem moveToQuarantine_spec : Hydrates P id (fun w => w.Fresh ∧ ¬w.Holds P id) moveToQuarantine
    fun _ w => w.Fresh := by
  apply Program.Triple.ask
  · exact fun _ _ known => known.2
  · rintro w answer w' ⟨fresh, _⟩ ⟨t, act, change⟩
    cases act <;> exact change.fresh fresh

theorem restoreQuarantined_spec {entry : CacheEntry} :
    Hydrates P id Fresh (restoreQuarantined entry) fun _ w => w.Fresh := by
  apply Program.Triple.ask
  · exact fun _ _ _ => trivial
  · rintro w answer w' fresh ⟨t, act, change⟩
    cases act <;> exact change.fresh fresh

theorem scratch_fresh (step : ScratchStep) :
    Hydrates P id Fresh (scratch step) fun _ w => w.Fresh :=
  (scratch_spec step fun _ _ change => change.fresh).weaken fun _ _ known => known.1

theorem discardInvalidBlob_spec :
    Hydrates P id Fresh (discardInvalidBlob P id) fun _ w => w.Fresh := by
  apply Program.Triple.bind entryStatus_spec
  · intro status
    cases status with
    | missing | valid => exact fun _ _ known => known.1
    | invalid =>
      apply (moveToQuarantine_spec.strengthen fun _ known => ⟨known.1, known.2 rfl⟩).bind _
        fun _ _ fresh => fresh
      intro moved
      cases moved with
      | none => exact fun _ _ fresh => fresh
      | some entry =>
        apply entryStatus_fresh.bind _ fun _ _ fresh => fresh
        intro status
        cases status with
        | valid =>
          exact restoreQuarantined_spec.bind (fun _ _ _ fresh => fresh) fun _ _ fresh => fresh
        | missing | invalid =>
          exact (scratch_fresh _).bind (fun _ _ _ fresh => fresh) fun _ _ fresh => fresh
  · exact fun _ _ known => known.1

theorem streamBlob_spec : Hydrates P id Fresh (streamBlob location) fun result w => w.Fresh ∧
    ∀ streamed, result = .ok streamed → forObject P .blob streamed.2 = id := by
  apply Program.Triple.ask
  · exact fun _ _ fresh => fresh
  · rintro w answer w' fresh ⟨t, act, change⟩
    cases act with
    | streamed chunk => exact ⟨change.fresh fresh, fun _ done => streamBlobIntoCache_hashed done⟩
    | streamFailed error => exact ⟨change.fresh fresh, nofun⟩

/-- What holds when the temporary file has been linked or given up. -/
def LinkSettled (P : Primitives) (id : ContentId) (result : Except HydrationError Unit)
    (w : HydrationWorld) : Prop :=
  w.Consistent P id ∧ ∀ error, result = .error error → error.BlamesEntry → w.Fresh

theorem linkSettled_of_fresh (result : Except HydrationError Unit) (w : HydrationWorld)
    (fresh : w.Fresh) : LinkSettled P id result w := ⟨fresh.consistent, fun _ _ _ => fresh⟩

theorem scratch_linkSettled (step : ScratchStep) :
    Hydrates P id (Consistent P id) (scratch step) (LinkSettled P id) :=
  (scratch_spec step fun _ _ change => change.consistent).weaken fun _ _ known =>
    ⟨known.1, fun error failed blames => (known.2 error failed blames).elim⟩

/-- After the link the failures left are those of the file system. -/
theorem linkStreamed_spec {streamed : ContentId × Str}
    (hashed : forObject P .blob streamed.2 = id) :
    Hydrates P id Fresh (linkStreamed id streamed) (LinkSettled P id) := by
  have checked : Hydrates P id Fresh
      (Program.ofExcept (Except.require (streamed.1 = id) (.contentMismatch id streamed.1)))
      fun _ w => w.Fresh := Program.Triple.ofExcept fun _ fresh => fresh
  apply checked.bind _ fun error => linkSettled_of_fresh (.error error)
  intro _
  apply (scratch_fresh _).bind _ fun error => linkSettled_of_fresh (.error error)
  intro _
  apply Program.Triple.send fun answer w =>
    w.Consistent P id ∧ ∀ error, answer = .error error → w.Fresh
  · exact fun _ _ _ => hashed
  · rintro w answer w' fresh ⟨t, act, change⟩
    cases act with
    | linked absent =>
      refine ⟨change.consistent fun _ => ⟨streamed.2, ?_, hashed⟩, nofun⟩
      exact AList.lookup_insert _
    | notLinked error => exact ⟨change.consistent fresh.consistent, fun _ _ => change.fresh fresh⟩
  · intro answer
    split
    · apply ((scratch_linkSettled _).strengthen fun _ known => known.1).bind
      · exact fun _ => (scratch_linkSettled _).strengthen fun _ known => known.1
      · exact fun _ _ known => ⟨known.1, fun _ same => known.2 _ (by rw [← same])⟩
    · exact (scratch_linkSettled _).strengthen fun _ known => known.1
    · exact fun _ w known => linkSettled_of_fresh _ w (known.2 _ rfl)

theorem linkTemporary_spec :
    Hydrates P id Fresh (linkTemporary id location) (LinkSettled P id) := by
  apply (scratch_fresh _).bind _ fun error => linkSettled_of_fresh (.error error)
  intro _
  apply streamBlob_spec.bind _ fun error w known => linkSettled_of_fresh (.error error) w known.1
  intro streamed past w known
  exact linkStreamed_spec (known.2 streamed rfl) past w known.1

theorem settled_of_fresh {error : HydrationError} {w : HydrationWorld} (fresh : w.Fresh) :
    Settled P id (.error error) w := ⟨fresh.consistent, fun _ => fresh⟩

theorem publishBlobStreamed_spec :
    Hydrates P id Fresh (publishBlobStreamed P id location) (Settled P id) := by
  apply Program.Triple.send fun _ => Fresh
  · exact fun _ _ _ => trivial
  · rintro w answer w' fresh ⟨t, act, change⟩
    cases act <;> exact change.fresh fresh
  intro found
  cases found with
  | true => exact verifiedPath_spec.strengthen fun _ fresh => fresh.consistent
  | false =>
    apply (scratch_fresh _).bind _ fun _ _ => settled_of_fresh
    intro _
    apply linkTemporary_spec.attempt
    intro result
    cases result with
    | ok _ => exact verifiedPath_spec.strengthen fun _ known => known.1
    | error error =>
      apply (scratch_spec _ _).attempt
      · exact fun _ _ _ known => ⟨known.1.1, known.1.2 error rfl⟩
      · exact fun _ _ change known =>
          ⟨change.consistent known.1, fun same failed blames =>
            change.fresh (known.2 same failed blames)⟩

theorem publishFrom_spec : Hydrates P id Fresh (publishFrom P id location) (Settled P id) := by
  have again : Hydrates P id Fresh
      (discardInvalidBlob P id >>= fun _ => publishBlobStreamed P id location) (Settled P id) :=
    discardInvalidBlob_spec.bind (fun _ => publishBlobStreamed_spec) fun _ _ => settled_of_fresh
  apply publishBlobStreamed_spec.attempt
  intro result
  split
  · exact fun _ _ settled => settled
  · exact again.strengthen fun _ settled => settled.2 trivial
  · exact again.strengthen fun _ settled => settled.2 trivial
  · exact fun _ _ settled => settled

theorem publishLocated_spec : Hydrates P id Fresh (publishLocated P id) (Settled P id) := by
  have located : Hydrates P id Fresh (objectLocation id) fun _ w => w.Fresh := by
    apply Program.Triple.ask
    · exact fun _ _ _ => trivial
    · rintro w answer w' fresh ⟨_, ⟨⟩, change⟩
      exact change.fresh fresh
  apply located.bind _ fun _ _ => settled_of_fresh
  intro location
  have checked : Hydrates P id Fresh (Program.ofExcept (validateBlobLocation location))
      fun _ w => w.Fresh := Program.Triple.ofExcept fun _ fresh => fresh
  exact checked.bind (fun _ => publishFrom_spec) fun _ _ => settled_of_fresh

theorem hydrateBlobFromChunkInner_spec :
    Hydrates P id (Consistent P id) (hydrateBlobFromChunkInner P id) (Settled P id) := by
  have cleared : Hydrates P id Fresh
      (discardInvalidBlob P id >>= fun _ => publishLocated P id) (Settled P id) :=
    discardInvalidBlob_spec.bind (fun _ => publishLocated_spec) fun _ _ => settled_of_fresh
  apply verifiedPath_spec.attempt
  intro result
  split
  · exact fun _ _ settled => settled
  · exact publishLocated_spec.strengthen fun _ settled => settled.2 trivial
  · exact cleared.strengthen fun _ settled => settled.2 trivial
  · exact cleared.strengthen fun _ settled => settled.2 trivial
  · exact fun _ _ settled => settled
end Hydrator

variable {past : List (Moment CacheEffect.Answer HydrationWorld)} {effect : CacheEffect}

/-- Within the guard no step of a closure takes a valid entry away. -/
theorem acts_holds {answer : effect.Answer} (meets : hydrationGuard P id past w effect)
    (act : Acts P id w effect answer w') (holds : w.Holds P id) : w'.Holds P id := by
  have occupied : w.cache.lookup id ≠ none := by
    obtain ⟨_, found, _⟩ := holds
    rw [found]
    nofun
  cases act with
  | moved found | movedUnsynced found error => exact absurd holds meets
  | restored _ entry absent answer | linked _ bytes absent => exact absurd absent occupied
  | _ => exact holds

theorem acts_consistent {answer : effect.Answer} (meets : hydrationGuard P id past w effect)
    (act : Acts P id w effect answer w') (consistent : w.Consistent P id) :
    w'.Consistent P id := by
  intro published
  by_cases before : w.published = true
  · exact acts_holds meets act (consistent before)
  · cases act with
    | linked _ bytes absent => exact ⟨bytes, AList.lookup_insert _, meets⟩
    | _ => exact absurd published before

/-- The answer that a caller may return. -/
def GoodAnswer (P : Primitives) (id : ContentId) (result : Except HydrationError ContentId)
    (w : HydrationWorld) : Prop := ∀ path, result = .ok path → path = id ∧ w.Holds P id

theorem hydrationService_keeps (ι : Type) : (hydrationService P id ι).Keeps (Consistent P id)
    (hydrationGuard P id) (GoodAnswer P id) where
  refl := Others.refl
  trans := Others.trans
  inv_rely := Others.consistent
  good_rely := fun change good path same => ⟨(good path same).1, change.holds (good path same).2⟩
  inv_acts := fun consistent meets act => acts_consistent meets act consistent
  good_acts := fun _ meets act good path same =>
    ⟨(good path same).1, acts_holds meets act (good path same).2⟩
  found := by
    rintro w result consistent ⟨seen, returns, same⟩ path rfl
    have settled := verifiedPath_spec.returns consistent (returns.among Others.refl)
    unfold checked at same
    split at same
    · cases same
      exact settled.2
    all_goals simp at same
  works := by
    intro _ w consistent
    apply Program.wp_mono _ (hydrateBlobFromChunkInner_spec [] w consistent)
    rintro result _ w settled path rfl
    exact settled.2
end Specs

theorem HydrationWorld.alone_acts (P : Primitives) (id : ContentId) (catalog : InMemoryCatalog)
    (chunk : Option Str) (w : HydrationWorld) (effect : CacheEffect) :
    Acts P id w effect (alone P id catalog chunk w effect).1
      (alone P id catalog chunk w effect).2 := by
  by_cases present : id ∈ w.cache
  · obtain ⟨entry, found⟩ := FinMap.exists_lookup present
    cases effect <;> simp only [alone, found, present, decide_true]
    all_goals first | constructor; assumption | constructor
  · have absent := AList.lookup_eq_none.mpr present
    cases effect <;> simp only [alone, absent, present, decide_false]
    all_goals first | constructor; assumption | constructor

section Callers
variable {P : Primitives} {id : ContentId}

/-- However many callers hydrate one blob, and however their steps interleave: one closure runs at
a time, none reads the cold record once one has published the blob, and every path that is returned
holds bytes that hash to the content ID. -/
theorem hydrateBlobFromChunk_singleFlight {ι : Type} [DecidableEq ι] {cache : Cache}
    {s : SingleFlight.System CacheEffect CacheEffect.Answer HydrationError ContentId
      HydrationWorld ι}
    (reached : SingleFlight.Reachable (hydrationService P id ι) ⟨cache, false⟩ s) :
    (∀ i j, (s.callers i).IsWorking → (s.callers j).IsWorking → i = j) ∧
    (∀ i flight location next,
      s.callers i = .working flight (.perform (.streamBlobIntoCache location) next) →
        s.world.published = false) ∧
    ∀ i path, s.callers i = .returned (.ok path) →
      ∃ bytes, s.world.cache.lookup path = some (.file bytes) ∧
        forObject P .blob bytes = id := by
  have keeps : (hydrationService P id ι).Keeps _ _ _ := hydrationService_keeps ι
  have fresh : (HydrationWorld.mk cache false).Fresh := rfl
  have sound := reached.sound keeps (fresh.consistent)
  refine ⟨fun _ _ => sound.working_unique, ?_, ?_⟩
  · intro i flight location next here
    obtain ⟨_, meets, _⟩ := sound.guarded keeps here
    exact meets
  · intro i path here
    have stands := sound.stands i
    rw [here] at stands
    obtain ⟨rfl, holds⟩ := stands path rfl
    exact holds

def letterCatalog : InMemoryCatalog where
  objects := AList.singleton letterRecord.contentId (letterRecord.locationAt letterHeader 64)

/-- A blob hydrated by one of two callers while the other waits. -/
theorem letterBlob_singleFlight : ∃ s : SingleFlight.System CacheEffect CacheEffect.Answer
    HydrationError ContentId HydrationWorld Bool,
    SingleFlight.Reachable (hydrationService .reference letterRecord.contentId Bool) ⟨∅, false⟩ s ∧
      s.callers true = .returned (.ok letterRecord.contentId) ∧ s.callers false = .waiting 0 ∧
      ∃ bytes, s.world.cache.lookup letterRecord.contentId = some (.file bytes) ∧
        forObject .reference .blob bytes = letterRecord.contentId := by
  have runs (p : Hydrator ContentId) :=
    Returns.exec (HydrationWorld.alone_acts .reference letterRecord.contentId letterCatalog
      (some (letterHeader.encode ++ letterRecord.encoding))) p ⟨∅, false⟩
  have missed : (hydrationService .reference letterRecord.contentId Bool).look ⟨∅, false⟩ none :=
    ⟨_, runs (verifiedPath .reference letterRecord.contentId), rfl⟩
  have run := runs (hydrateBlobFromChunkInner .reference letterRecord.contentId)
  have done : ((hydrateBlobFromChunkInner .reference letterRecord.contentId).exec
      (HydrationWorld.alone .reference letterRecord.contentId letterCatalog
        (some (letterHeader.encode ++ letterRecord.encoding))) ⟨∅, false⟩).1 =
      .ok letterRecord.contentId := by decide +kernel
  rw [done] at run
  have start : SingleFlight.Reachable (hydrationService .reference letterRecord.contentId Bool)
    ⟨∅, false⟩ _ := Relation.ReflTransGen.refl
  have leading := (start.tail (SingleFlight.Step.miss (i := true) rfl missed)).tail
    (SingleFlight.Step.lead (i := true) rfl rfl)
  have both := (leading.tail (SingleFlight.Step.miss (i := false) rfl missed)).tail
    (SingleFlight.Step.follow (i := false) rfl rfl)
  have hydrated := SingleFlight.Reachable.work (i := true) both rfl run
  have reached := hydrated.tail (SingleFlight.Step.remove (i := true) rfl)
  exact ⟨_, reached, rfl, rfl, (hydrateBlobFromChunk_singleFlight reached).2.2 true _ rfl⟩
end Callers
end ReflinkForest
