import ReflinkForest.Lib.Interaction
import Mathlib.Logic.Relation

/-! Single flight: a caller leads a new flight or follows the one on the table, and looks again when
that is completed. The steps of the callers interleave freely. -/
namespace SingleFlight
open Interaction Function

/-- Where a caller is in its loop. -/
inductive Caller (E : Type) (A : E → Type) (ε α : Type) where
  | looking
  | joining
  | working (flight : ℕ) (rest : Program E A ε α)
  | removing (flight : ℕ) (result : Except ε α)
  | waiting (flight : ℕ)
  | returned (result : Except ε α)

/-- What the callers look for, and the work that each would do. -/
structure Service (E : Type) (A : E → Type) (ε α σ ι : Type) where
  acts : World A σ
  rely : σ → σ → Prop
  look : σ → Option (Except ε α) → Prop
  work : ι → Program E A ε α

/-- Flights are numbered as they are made; `active` is the one on the table. -/
structure System (E : Type) (A : E → Type) (ε α σ ι : Type) where
  world : σ
  active : Option ℕ
  made : ℕ
  completed : List ℕ
  callers : ι → Caller E A ε α

variable {E : Type} {A : E → Type} {ε α σ ι : Type}

namespace Caller
/-- The flight on the table that the caller has to take off it. -/
def leads : Caller E A ε α → Option ℕ
  | working flight _ | removing flight _ => some flight
  | _ => none

def IsWorking (c : Caller E A ε α) : Prop := ∃ flight rest, c = working flight rest
end Caller

def System.start (world : σ) : System E A ε α σ ι := ⟨world, none, 0, [], fun _ => .looking⟩

variable [DecidableEq ι]

def System.move (s : System E A ε α σ ι) (i : ι) (c : Caller E A ε α) : System E A ε α σ ι :=
  { s with callers := Function.update s.callers i c }

inductive Step (S : Service E A ε α σ ι) : System E A ε α σ ι → System E A ε α σ ι → Prop where
  | others {s : System E A ε α σ ι} {world : σ} (change : S.rely s.world world) :
      Step S s { s with world }
  | find {s : System E A ε α σ ι} {i : ι} {result : Except ε α} (here : s.callers i = .looking)
      (seen : S.look s.world (some result)) : Step S s (s.move i (.returned result))
  | miss {s : System E A ε α σ ι} {i : ι} (here : s.callers i = .looking)
      (seen : S.look s.world none) : Step S s (s.move i .joining)
  | lead {s : System E A ε α σ ι} {i : ι} (here : s.callers i = .joining)
      (free : s.active = none) :
      Step S s { s.move i (.working s.made (S.work i)) with
        active := some s.made, made := s.made + 1 }
  | follow {s : System E A ε α σ ι} {i : ι} {flight : ℕ} (here : s.callers i = .joining)
      (taken : s.active = some flight) : Step S s (s.move i (.waiting flight))
  | act {s : System E A ε α σ ι} {i : ι} {flight : ℕ} {effect : E}
      {next : A effect → Program E A ε α} {answer : A effect} {world : σ}
      (here : s.callers i = .working flight (.perform effect next))
      (act : S.acts s.world effect answer world) :
      Step S s { s.move i (.working flight (next answer)) with world }
  | succeed {s : System E A ε α σ ι} {i : ι} {flight : ℕ} {value : α}
      (here : s.callers i = .working flight (.done value)) :
      Step S s { s.move i (.removing flight (.ok value)) with
        completed := flight :: s.completed }
  | fail {s : System E A ε α σ ι} {i : ι} {flight : ℕ} {error : ε}
      (here : s.callers i = .working flight (.fail error)) :
      Step S s { s.move i (.removing flight (.error error)) with
        completed := flight :: s.completed }
  | remove {s : System E A ε α σ ι} {i : ι} {flight : ℕ} {result : Except ε α}
      (here : s.callers i = .removing flight result) :
      Step S s { s.move i (.returned result) with
        active := if s.active = some flight then none else s.active }
  | wake {s : System E A ε α σ ι} {i : ι} {flight : ℕ} (here : s.callers i = .waiting flight)
      (mark : flight ∈ s.completed) : Step S s (s.move i .looking)

/-- Every interleaving, from callers that have not looked yet. -/
def Reachable (S : Service E A ε α σ ι) (world : σ) (s : System E A ε α σ ι) : Prop :=
  Relation.ReflTransGen (Step S) (System.start world) s

/-- A caller that does all of its work without others in between. -/
theorem Reachable.work {S : Service E A ε α σ ι} {s : System E A ε α σ ι} {start world : σ} {i : ι}
    {flight : ℕ} {rest : Program E A ε α} {result : Except ε α} (reached : Reachable S start s)
    (here : s.callers i = .working flight rest) (run : Returns S.acts rest s.world result world) :
    Reachable S start { s.move i (.removing flight result) with
      world, completed := flight :: s.completed } := by
  generalize here_world : s.world = before at run
  induction run generalizing s with
  | done value w =>
    cases here_world
    exact reached.tail (.succeed here)
  | fail error w =>
    cases here_world
    exact reached.tail (.fail here)
  | perform act _ ih =>
    cases here_world
    have later := ih (reached.tail (.act here act)) (update_self _ _ _) rfl
    simpa only [System.move, update_idem] using later

section Exclusion
variable {S : Service E A ε α σ ι} {s s' : System E A ε α σ ι}

/-- The flight that somebody leads is on the table, and only one caller leads. -/
structure System.Exclusive (s : System E A ε α σ ι) : Prop where
  held : ∀ i flight, (s.callers i).leads = some flight → s.active = some flight
  alone : ∀ i j flight other, (s.callers i).leads = some flight →
    (s.callers j).leads = some other → i = j

omit [DecidableEq ι] in
/-- A step in which nobody starts or stops leading. -/
theorem System.Exclusive.congr (exclusive : s.Exclusive)
    (leads : ∀ j, (s'.callers j).leads = (s.callers j).leads) (active : s'.active = s.active) :
    s'.Exclusive := by
  constructor
  · intro i flight leading
    rw [active]
    exact exclusive.held i flight (leads i ▸ leading)
  · intro i j flight other first second
    exact exclusive.alone i j flight other (leads i ▸ first) (leads j ▸ second)

variable {i : ι} {c : Caller E A ε α}

/-- A step after which only `i` may lead, and what it leads is on the table. -/
theorem System.Exclusive.only (callers : s'.callers = Function.update s.callers i c)
    (others : ∀ j, j ≠ i → (s.callers j).leads = none)
    (held : ∀ flight, c.leads = some flight → s'.active = some flight) : s'.Exclusive := by
  have only {j : ι} {flight : ℕ} (leading : (s'.callers j).leads = some flight) : j = i := by
    by_contra other
    rw [callers, update_of_ne other, others j other] at leading
    cases leading
  constructor
  · intro j flight leading
    cases only leading
    rw [callers, update_self] at leading
    exact held flight leading
  · intro j k flight other first second
    rw [only first, only second]

theorem move_leads (same : c.leads = (s.callers i).leads) (j : ι) :
    ((s.move i c).callers j).leads = (s.callers j).leads := by
  apply forall_update_iff s.callers (fun j c => c.leads = (s.callers j).leads) |>.mpr
  exact ⟨same, fun _ _ => rfl⟩

theorem Step.exclusive (step : Step S s s') (exclusive : s.Exclusive) : s'.Exclusive := by
  cases step with
  | others change => exact exclusive.congr (fun _ => rfl) rfl
  | find here seen | miss here seen | follow here taken | act here act | succeed here | fail here
  | wake here mark => exact exclusive.congr (move_leads (by rw [here]; rfl)) rfl
  | lead here free =>
    apply System.Exclusive.only rfl _ fun _ same => same
    intro j _
    cases leading : (s.callers j).leads with
    | none => rfl
    | some flight =>
      rw [exclusive.held j flight leading] at free
      cases free
  | @remove i flight result here =>
    have leading : (s.callers i).leads = some flight := by rw [here]; rfl
    apply System.Exclusive.only rfl
    · intro j other
      cases second : (s.callers j).leads with
      | none => rfl
      | some flight => exact absurd (exclusive.alone j i _ _ second leading) other
    · intro flight leads
      cases leads
end Exclusion

section Keeping
/-- What the looking, the work and the others have to keep for every run to keep it. -/
structure Service.Keeps (S : Service E A ε α σ ι) (inv : σ → Prop)
    (guard : Guard A σ) (good : Except ε α → σ → Prop) : Prop where
  refl : ∀ s, S.rely s s
  trans : ∀ {s t u}, S.rely s t → S.rely t u → S.rely s u
  inv_rely : ∀ {s t}, S.rely s t → inv s → inv t
  good_rely : ∀ {result s t}, S.rely s t → good result s → good result t
  inv_acts : ∀ {past s effect answer t}, inv s → guard past s effect →
    S.acts s effect answer t → inv t
  good_acts : ∀ {past result s effect answer t}, inv s → guard past s effect →
    S.acts s effect answer t → good result s → good result t
  found : ∀ {s result}, inv s → S.look s (some result) → good result s
  works : ∀ i s, inv s →
    (S.work i).wp (World.among S.rely S.acts) guard (fun result _ s => good result s) [] s

variable {S : Service E A ε α σ ι} {inv : σ → Prop} {good : Except ε α → σ → Prop}
  {guard : Guard A σ} {s s' : System E A ε α σ ι}

/-- What is known of a caller: the rest of its work is safe from wherever others take the world. -/
def Stands (S : Service E A ε α σ ι) (guard : Guard A σ)
    (good : Except ε α → σ → Prop) (world : σ) : Caller E A ε α → Prop
  | .working _ rest => ∀ t, S.rely world t → ∃ past,
    rest.wp (World.among S.rely S.acts) guard (fun result _ s => good result s) past t
  | .removing _ result | .returned result => good result world
  | _ => True

structure System.Sound (S : Service E A ε α σ ι) (inv : σ → Prop)
    (guard : Guard A σ) (good : Except ε α → σ → Prop)
    (s : System E A ε α σ ι) : Prop where
  exclusive : s.Exclusive
  inv : inv s.world
  stands : ∀ i, Stands S guard good s.world (s.callers i)

variable {world : σ} {c : Caller E A ε α} {i : ι}

omit [DecidableEq ι] in
theorem Service.Keeps.stands_rely {t : σ} (keeps : S.Keeps inv guard good) (change : S.rely world t)
    (stands : Stands S guard good world c) : Stands S guard good t c := by
  cases c with
  | working flight rest => exact fun u later => stands u (keeps.trans change later)
  | removing flight result | returned result => exact keeps.good_rely change stands
  | looking => trivial
  | joining => trivial
  | waiting flight => trivial

/-- A move of one caller that leaves the world as it is. -/
theorem System.Sound.move (sound : s.Sound S inv guard good) (exclusive : s'.Exclusive)
    (world : s'.world = s.world) (callers : s'.callers = Function.update s.callers i c)
    (stands : Stands S guard good s.world c) : s'.Sound S inv guard good := by
  refine ⟨exclusive, world ▸ sound.inv, ?_⟩
  rw [world, callers]
  apply forall_update_iff s.callers (fun _ c => Stands S guard good s.world c) |>.mpr
  exact ⟨stands, fun j _ => sound.stands j⟩

omit [DecidableEq ι] in
theorem System.Sound.guarded {flight : ℕ} {effect : E} {next : A effect → Program E A ε α}
    (keeps : S.Keeps inv guard good) (sound : s.Sound S inv guard good)
    (here : s.callers i = .working flight (.perform effect next)) :
    ∃ past, guard past s.world effect ∧ ∀ answer world, S.acts s.world effect answer world →
      Stands S guard good world (.working flight (next answer)) := by
  have stands := sound.stands i
  rw [here] at stands
  obtain ⟨past, meets, rest⟩ := stands s.world (keeps.refl _)
  refine ⟨past, meets, ?_⟩
  intro answer world act t change
  exact ⟨_, rest answer t ⟨world, act, change⟩⟩

theorem Step.sound (keeps : S.Keeps inv guard good) (step : Step S s s')
    (sound : s.Sound S inv guard good) : s'.Sound S inv guard good := by
  have exclusive := step.exclusive sound.exclusive
  cases step with
  | others change =>
    exact ⟨exclusive, keeps.inv_rely change sound.inv,
      fun i => keeps.stands_rely change (sound.stands i)⟩
  | find here seen => exact sound.move exclusive rfl rfl (keeps.found sound.inv seen)
  | miss here seen | follow here taken | wake here mark =>
    exact sound.move exclusive rfl rfl trivial
  | lead here free =>
    apply sound.move exclusive rfl rfl
    intro t change
    exact ⟨[], keeps.works _ t (keeps.inv_rely change sound.inv)⟩
  | @succeed i flight value here | @fail i flight error here =>
    have stands := sound.stands i
    rw [here] at stands
    obtain ⟨_, good⟩ := stands s.world (keeps.refl _)
    exact sound.move exclusive rfl rfl good
  | @remove i flight result here =>
    have stands := sound.stands i
    rw [here] at stands
    exact sound.move exclusive rfl rfl stands
  | @act i flight effect next answer world here act =>
    obtain ⟨past, meets, rest⟩ := sound.guarded keeps here
    refine ⟨exclusive, keeps.inv_acts sound.inv meets act, ?_⟩
    apply forall_update_iff s.callers (fun _ c => Stands S guard good world c) |>.mpr
    refine ⟨rest answer world act, ?_⟩
    intro j other
    have stands := sound.stands j
    cases at_j : s.callers j with
    | working flight' rest' =>
      have leading : (s.callers i).leads = some flight := by rw [here]; rfl
      have second : (s.callers j).leads = some flight' := by rw [at_j]; rfl
      exact absurd (sound.exclusive.alone j i _ _ second leading) other
    | removing flight' result | returned result =>
      rw [at_j] at stands
      exact keeps.good_acts sound.inv meets act stands
    | looking => trivial
    | joining => trivial
    | waiting flight' => trivial

theorem Reachable.sound (keeps : S.Keeps inv guard good) (start : inv world)
    (reached : Reachable S world s) : s.Sound S inv guard good := by
  induction reached with
  | refl => exact ⟨⟨nofun, nofun⟩, start, fun _ => trivial⟩
  | tail _ step ih => exact step.sound keeps ih

omit [DecidableEq ι] in
theorem System.Sound.working_unique {j : ι} (sound : s.Sound S inv guard good)
    (first : (s.callers i).IsWorking) (second : (s.callers j).IsWorking) : i = j := by
  obtain ⟨flight, rest, here⟩ := first
  obtain ⟨flight', rest', there⟩ := second
  exact sound.exclusive.alone i j flight flight' (by rw [here]; rfl) (by rw [there]; rfl)
end Keeping
end SingleFlight
