import Mathlib.Data.List.Basic
import Mathlib.Tactic.Common

/-! Programs that act on an outside world, one effect at a time. Failures are answers, and a crash
is an execution that stops between two effects. -/
namespace Interaction
inductive Program (E : Type) (A : E → Type) (ε α : Type) where
  | done (value : α)
  | fail (error : ε)
  | perform (effect : E) (next : A effect → Program E A ε α)

open Program

variable {E : Type} {A : E → Type} {ε α β σ C : Type}

namespace Program
def bind : Program E A ε α → (α → Program E A ε β) → Program E A ε β
  | done value, f => f value
  | fail error, _ => fail error
  | perform effect next, f => perform effect fun answer => (next answer).bind f

instance : Monad (Program E A ε) where
  pure := done
  bind := bind

def send (effect : E) : Program E A ε (A effect) := .perform effect .done

def ofExcept : Except ε α → Program E A ε α
  | .ok value => .done value
  | .error error => .fail error

def mapErr {ε' : Type} (f : ε → ε') : Program E A ε α → Program E A ε' α
  | done value => done value
  | fail error => fail (f error)
  | perform effect next => perform effect fun answer => (next answer).mapErr f

/-- The result of a program and the state behind it, when every effect has one answer. -/
def exec (handle : σ → (effect : E) → A effect × σ) : Program E A ε α → σ → Except ε α × σ
  | done value, s => (.ok value, s)
  | fail error, s => (.error error, s)
  | perform effect next, s => (next (handle s effect).1).exec handle (handle s effect).2

/-- Catch the failure of a program. -/
def attempt : Program E A ε α → Program E A ε (Except ε α)
  | done value => done (.ok value)
  | fail error => done (.error error)
  | perform effect next => perform effect fun answer => (next answer).attempt

section Exec
variable {handle : σ → (effect : E) → A effect × σ} {s : σ} {p : Program E A ε α}

theorem exec_bind (f : α → Program E A ε β) :
    (p >>= f).exec handle s = match p.exec handle s with
      | (.ok value, t) => (f value).exec handle t
      | (.error error, t) => (.error error, t) := by
  induction p generalizing s with
  | done value => rfl
  | fail error => rfl
  | perform effect next ih => exact ih _

theorem exec_send (effect : E) : (Program.send effect : Program E A ε _).exec handle s =
    (.ok (handle s effect).1, (handle s effect).2) := rfl

theorem exec_ofExcept (x : Except ε α) :
    (Program.ofExcept x : Program E A ε α).exec handle s = (x, s) := by
  cases x <;> rfl

theorem exec_attempt :
    p.attempt.exec handle s = (.ok (p.exec handle s).1, (p.exec handle s).2) := by
  induction p generalizing s with
  | done value => rfl
  | fail error => rfl
  | perform effect next ih => exact ih _
end Exec
end Program

/-- How the world may answer an effect, and what it is then. -/
abbrev World (A : E → Type) (σ : Type) := σ → (effect : E) → A effect → σ → Prop

/-- The world, with what others may do to it after each answer. -/
def World.among (rely : σ → σ → Prop) (W : World A σ) : World A σ := fun s effect answer s' =>
  ∃ t, W s effect answer t ∧ rely t s'

/-- One effect with its answer, between two states of the world. -/
structure Moment (A : E → Type) (σ : Type) where
  before : σ
  effect : E
  answer : A effect
  after : σ

/-- What may be done next, after what was done and where. -/
abbrev Guard (A : E → Type) (σ : Type) := List (Moment A σ) → σ → E → Prop

section Rules
/-- Every effect the program performs meets the guard, and where it ends `post` holds. -/
def Program.wp (W : World A σ) (guard : Guard A σ)
    (post : Except ε α → List (Moment A σ) → σ → Prop) :
    Program E A ε α → List (Moment A σ) → σ → Prop
  | .done value, past, s => post (.ok value) past s
  | .fail error, past, s => post (.error error) past s
  | .perform effect next, past, s => guard past s effect ∧
    ∀ answer s', W s effect answer s' →
      (next answer).wp W guard post (past ++ [⟨s, effect, answer, s'⟩]) s'

variable {W : World A σ} {guard : Guard A σ}
  {post : Except ε β → List (Moment A σ) → σ → Prop}
  {past : List (Moment A σ)} {s : σ}

theorem Program.wp_ofExcept {x : Except ε β} :
    (Program.ofExcept x : Program E A ε β).wp W guard post past s ↔ post x past s := by
  cases x <;> exact Iff.rfl

variable {x : Except ε α} {f : α → Program E A ε β}

theorem Program.wp_ofExcept_bind :
    (Program.ofExcept x >>= f).wp W guard post past s ↔
      (∀ value, x = .ok value → (f value).wp W guard post past s) ∧
        ∀ error, x = .error error → post (.error error) past s := by
  cases x with
  | ok value => exact ⟨fun h => ⟨fun _ same => Except.ok.inj same ▸ h, by simp⟩, fun h => h.1 _ rfl⟩
  | error error =>
    exact ⟨fun h => ⟨by simp, fun _ same => Except.error.inj same ▸ h⟩, fun h => h.2 _ rfl⟩

/-- The rule for sequencing: a failure skips what follows. -/
theorem Program.wp_bind {p : Program E A ε α} :
    (p >>= f).wp W guard post past s ↔
      p.wp W guard (fun result past s => match result with
        | .ok value => (f value).wp W guard post past s
        | .error error => post (.error error) past s) past s := by
  induction p generalizing past s with
  | done value => exact Iff.rfl
  | fail error => exact Iff.rfl
  | perform effect next ih =>
    apply and_congr_right'
    apply forall_congr'
    intro answer
    apply forall_congr'
    intro s'
    apply imp_congr_right
    intro _
    exact ih answer

theorem Program.wp_send {effect : E} {f : A effect → Program E A ε β} :
    (Program.send effect >>= f).wp W guard post past s ↔ guard past s effect ∧
      ∀ answer s', W s effect answer s' →
        (f answer).wp W guard post (past ++ [⟨s, effect, answer, s'⟩]) s' := Iff.rfl

theorem Program.wp_mono {post' : Except ε β → List (Moment A σ) → σ → Prop} {p : Program E A ε β}
    (weaker : ∀ result past s, post result past s → post' result past s)
    (spec : p.wp W guard post past s) : p.wp W guard post' past s := by
  induction p generalizing past s with
  | done value | fail error => exact weaker _ _ _ spec
  | perform effect next ih => exact ⟨spec.1, fun answer s' act => ih answer (spec.2 answer s' act)⟩

theorem Program.wp_seq {mid : Except ε α → List (Moment A σ) → σ → Prop} {p : Program E A ε α}
    (first : p.wp W guard mid past s)
    (rest : ∀ value past s, mid (.ok value) past s → (f value).wp W guard post past s)
    (stops : ∀ error past s, mid (.error error) past s → post (.error error) past s) :
    (p >>= f).wp W guard post past s := by
  apply wp_bind.mpr
  apply wp_mono _ first
  intro result past s holds
  cases result with
  | ok value => exact rest value past s holds
  | error error => exact stops error past s holds

theorem Program.wp_attempt {p : Program E A ε α} {f : Except ε α → Program E A ε β} :
    (p.attempt >>= f).wp W guard post past s ↔
      p.wp W guard (fun result past s => (f result).wp W guard post past s) past s := by
  induction p generalizing past s with
  | done value => exact Iff.rfl
  | fail error => exact Iff.rfl
  | perform effect next ih =>
    apply and_congr_right'
    apply forall_congr'
    intro answer
    apply forall_congr'
    intro s'
    apply imp_congr_right
    intro _
    exact ih answer

/-- The program meets the guard whatever it has done before and wherever it starts. -/
def Program.Meets (W : World A σ) (guard : Guard A σ)
    (p : Program E A ε α) : Prop :=
  ∀ past s, p.wp W guard (fun _ _ _ => True) past s

theorem Program.Meets.bind {p : Program E A ε α} (first : p.Meets W guard)
    (rest : ∀ value, (f value).Meets W guard) :
    (p >>= f).Meets W guard := fun past s =>
  wp_seq (first past s) (fun value past s _ => rest value past s) fun _ _ _ _ => trivial

theorem Program.meets_ofExcept :
    (Program.ofExcept x : Program E A ε α).Meets W guard := fun _ _ =>
  wp_ofExcept.mpr trivial
end Rules

section Triples
/-- From a state with `pre`, every effect meets the guard, and the end has `post`. -/
def Program.Triple (W : World A σ) (guard : Guard A σ) (pre : σ → Prop)
    (p : Program E A ε α) (post : Except ε α → σ → Prop) : Prop :=
  ∀ past s, pre s → p.wp W guard (fun result _ s => post result s) past s

variable {W : World A σ} {guard : Guard A σ} {pre : σ → Prop}
  {mid : Except ε α → σ → Prop} {post : Except ε β → σ → Prop} {p : Program E A ε α}

namespace Program.Triple
theorem mapErr {ε' : Type} {f : ε → ε'} {last : Except ε' α → σ → Prop}
    (spec : Triple W guard pre p mid) (done : ∀ value s, mid (.ok value) s → last (.ok value) s)
    (failed : ∀ error s, mid (.error error) s → last (.error (f error)) s) :
    Triple W guard pre (p.mapErr f) last := by
  intro past s start
  have meets := spec past s start
  clear spec start
  induction p generalizing past s with
  | done value => exact done value s meets
  | fail error => exact failed error s meets
  | perform effect next ih =>
    exact ⟨meets.1, fun answer s' act => ih answer _ s' (meets.2 answer s' act)⟩

theorem strengthen {pre' : σ → Prop} (spec : Triple W guard pre p mid)
    (stronger : ∀ s, pre' s → pre s) : Triple W guard pre' p mid := fun past s holds =>
  spec past s (stronger s holds)

theorem weaken {mid' : Except ε α → σ → Prop} (spec : Triple W guard pre p mid)
    (weaker : ∀ result s, mid result s → mid' result s) : Triple W guard pre p mid' :=
  fun past s holds => wp_mono (fun result _ s => weaker result s) (spec past s holds)

variable {x : Except ε α} {f : α → Program E A ε β} {effect : E}

theorem ofExcept (holds : ∀ s, pre s → mid x s) :
    Triple W guard pre (Program.ofExcept x) mid := fun _ s start =>
  wp_ofExcept.mpr (holds s start)

theorem bind (first : Triple W guard pre p mid)
    (rest : ∀ value, Triple W guard (mid (.ok value)) (f value) post)
    (stops : ∀ error s, mid (.error error) s → post (.error error) s) :
    Triple W guard pre (p >>= f) post := fun past s start =>
  wp_seq (first past s start) (fun value past s => rest value past s)
    fun error _ s => stops error s

theorem ofExcept_bind (rest : ∀ value, x = .ok value → Triple W guard pre (f value) post)
    (stops : ∀ error s, x = .error error → pre s → post (.error error) s) :
    Triple W guard pre (Program.ofExcept x >>= f) post := fun past s start =>
  Program.wp_ofExcept_bind.mpr ⟨fun value same => rest value same past s start,
    fun error same => stops error s same start⟩

theorem each (spec : ∀ s, pre s → Triple W guard (· = s) p mid) : Triple W guard pre p mid :=
  fun past s start => spec s start past s rfl

theorem attempt {f : Except ε α → Program E A ε β} (first : Triple W guard pre p mid)
    (rest : ∀ result, Triple W guard (mid result) (f result) post) :
    Triple W guard pre (p.attempt >>= f) post := fun past s start =>
  wp_attempt.mpr (wp_mono (fun result past s => rest result past s)
    (first past s start))

theorem send {f : A effect → Program E A ε β} (answered : A effect → σ → Prop)
    (meets : ∀ past s, pre s → guard past s effect)
    (answers : ∀ s answer s', pre s → W s effect answer s' → answered answer s')
    (rest : ∀ answer, Triple W guard (answered answer) (f answer) post) :
    Triple W guard pre (Program.send effect >>= f) post := fun past s start =>
  ⟨meets past s start, fun answer s' act => rest answer _ s' (answers s answer s' start act)⟩

/-- An effect whose answer is returned, or fails. -/
theorem ask {f : A effect → Except ε β} (meets : ∀ past s, pre s → guard past s effect)
    (answers : ∀ s answer s', pre s → W s effect answer s' → post (f answer) s') :
    Triple W guard pre (Program.send effect >>= fun answer => Program.ofExcept (f answer)) post :=
  send (fun answer => post (f answer)) meets answers fun _ => ofExcept fun _ holds => holds
end Program.Triple
end Triples

section Executions
/-- Executions of a program, cut off after any number of effects. -/
inductive Executes (W : World A σ) : Program E A ε α → σ → List (Moment A σ) → σ → Prop where
  | stop (p : Program E A ε α) (s : σ) : Executes W p s [] s
  | perform {s s' s'' : σ} {effect : E} {next : A effect → Program E A ε α} {answer : A effect}
      {later : List (Moment A σ)} (act : W s effect answer s')
      (rest : Executes W (next answer) s' later s'') :
      Executes W (.perform effect next) s (⟨s, effect, answer, s'⟩ :: later) s''

/-- Executions that run to their end. -/
inductive Returns (W : World A σ) : Program E A ε α → σ → Except ε α → σ → Prop where
  | done (value : α) (s : σ) : Returns W (.done value) s (.ok value) s
  | fail (error : ε) (s : σ) : Returns W (.fail error) s (.error error) s
  | perform {s s' s'' : σ} {effect : E} {next : A effect → Program E A ε α} {answer : A effect}
      {result : Except ε α} (act : W s effect answer s')
      (rest : Returns W (next answer) s' result s'') : Returns W (.perform effect next) s result s''

/-- An effect of a run, with the call it belongs to and what that call has done before. -/
structure Occurrence (C : Type) (A : E → Type) (σ : Type) where
  call : C
  past : List (Moment A σ)
  now : Moment A σ

def occurrences (call : C) : List (Moment A σ) → List (Moment A σ) → List (Occurrence C A σ)
  | _, [] => []
  | past, now :: later => ⟨call, past, now⟩ :: occurrences call (past ++ [now]) later

/-- Calls one after another, each of which may be cut off by a crash. -/
inductive Session (W : World A σ) (code : C → Program E A ε α) (s : σ) :
    List (Occurrence C A σ) → σ → Prop where
  | start : Session W code s [] s
  | call {s' s'' : σ} {history : List (Occurrence C A σ)} {moments : List (Moment A σ)} (c : C)
      (earlier : Session W code s history s') (run : Executes W (code c) s' moments s'') :
      Session W code s (history ++ occurrences c [] moments) s''

/-- The states of a history follow on one another. -/
def Linked : σ → List (Occurrence C A σ) → σ → Prop
  | s, [], s' => s = s'
  | s, o :: history, s' => o.now.before = s ∧ Linked o.now.after history s'

variable {W : World A σ} {code : C → Program E A ε α} {s s' : σ}
  {history front rear : List (Occurrence C A σ)}

theorem linked_append : Linked s (front ++ rear) s' ↔ ∃ t, Linked s front t ∧ Linked t rear s' := by
  induction front generalizing s with
  | nil => simp [Linked]
  | cons o front ih => simp [Linked, ih, and_assoc]

theorem Linked.unique {t : σ} (linked : Linked s history s') (other : Linked s history t) :
    s' = t := by
  induction history generalizing s with
  | nil => exact linked.symm.trans other
  | cons o history ih => exact ih linked.2 other.2

/-- What becomes true along a history becomes true at one of its effects. -/
theorem Linked.exists_change {p : σ → Prop} (linked : Linked s history s') (start : ¬p s)
    (final : p s') : ∃ o ∈ history, ¬p o.now.before ∧ p o.now.after := by
  induction history generalizing s with
  | nil =>
    cases linked
    exact absurd final start
  | cons o history ih =>
    obtain ⟨rfl, rest⟩ := linked
    by_cases here : p o.now.after
    · exact ⟨o, List.mem_cons_self, start, here⟩
    · obtain ⟨later, mem, change⟩ := ih rest here
      exact ⟨later, List.mem_cons_of_mem _ mem, change⟩

variable {moments : List (Moment A σ)} {c : C}

theorem Executes.linked {p : Program E A ε α} {past : List (Moment A σ)}
    (run : Executes W p s moments s') : Linked s (occurrences c past moments) s' := by
  induction run generalizing past with
  | stop p s => exact rfl
  | perform act rest ih => exact ⟨rfl, ih⟩

theorem Session.linked (session : Session W code s history s') : Linked s history s' := by
  induction session with
  | start => exact rfl
  | call c earlier run ih => exact linked_append.mpr ⟨_, ih, run.linked⟩

theorem Returns.exec {handle : σ → (effect : E) → A effect × σ}
    (acts : ∀ s effect, W s effect (handle s effect).1 (handle s effect).2)
    (p : Program E A ε α) (s : σ) : Returns W p s (p.exec handle s).1 (p.exec handle s).2 := by
  induction p generalizing s with
  | done value => exact .done value s
  | fail error => exact .fail error s
  | perform effect next ih => exact .perform (acts s effect) (ih _ _)

theorem Returns.among {rely : σ → σ → Prop} (refl : ∀ s, rely s s) {p : Program E A ε α}
    {result : Except ε α} (run : Returns W p s result s') :
    Returns (World.among rely W) p s result s' := by
  induction run with
  | done value s => exact .done value s
  | fail error s => exact .fail error s
  | perform act rest ih => exact .perform ⟨_, act, refl _⟩ ih

theorem Program.Triple.returns {guard : Guard A σ} {pre : σ → Prop}
    {post : Except ε α → σ → Prop} {p : Program E A ε α} {result : Except ε α}
    (spec : p.Triple W guard pre post) (start : pre s) (run : Returns W p s result s') :
    post result s' := by
  have meets := spec [] s start
  generalize [] = past at meets
  clear start spec
  induction run generalizing past with
  | done value s => exact meets
  | fail error s => exact meets
  | perform act rest ih => exact ih _ (meets.2 _ _ act)

/-- Each effect of an execution meets the guard and is answered by the world. -/
theorem Executes.guarded {guard : Guard A σ} {p : Program E A ε α}
    {post : Except ε α → List (Moment A σ) → σ → Prop} {past : List (Moment A σ)}
    (spec : p.wp W guard post past s) (run : Executes W p s moments s') :
    ∀ o ∈ occurrences c past moments, o.call = c ∧ guard o.past o.now.before o.now.effect ∧
      W o.now.before o.now.effect o.now.answer o.now.after := by
  induction run generalizing past with
  | stop p s => simp [occurrences]
  | perform act rest ih =>
    intro o mem
    rcases List.mem_cons.mp mem with rfl | later
    · exact ⟨rfl, spec.1, act⟩
    · exact ih (spec.2 _ _ act) o later

/-- If every call meets its guard from every state, so does every effect of every run. -/
theorem Session.guarded {guard : C → Guard A σ}
    (spec : ∀ c s, (code c).wp W (guard c) (fun _ _ _ => True) [] s)
    (session : Session W code s history s') :
    ∀ o ∈ history, guard o.call o.past o.now.before o.now.effect ∧
      W o.now.before o.now.effect o.now.answer o.now.after := by
  induction session with
  | start => simp
  | call c earlier run ih =>
    intro o mem
    rcases List.mem_append.mp mem with before | here
    · exact ih o before
    · obtain ⟨rfl, holds⟩ := Executes.guarded (spec c _) run o here
      exact holds
end Executions

section Traces
structure Event (A : E → Type) where
  effect : E
  answer : A effect

/-- What a program may do, cut off anywhere, when effects may be answered in any way. -/
inductive Traces : Program E A ε α → List (Event A) → Prop where
  | stop (p : Program E A ε α) : Traces p []
  | perform {effect : E} {next : A effect → Program E A ε α} (answer : A effect)
      {later : List (Event A)} (rest : Traces (next answer) later) :
      Traces (.perform effect next) (⟨effect, answer⟩ :: later)

/-- The whole run when each effect has one answer. -/
def Program.replay (answers : (effect : E) → A effect) : Program E A ε α → List (Event A)
  | done _ => []
  | fail _ => []
  | perform effect next => ⟨effect, answers effect⟩ :: (next (answers effect)).replay answers

theorem Traces.replay (answers : (effect : E) → A effect) (p : Program E A ε α) :
    Traces p (p.replay answers) := by
  induction p with
  | done value => exact .stop _
  | fail error => exact .stop _
  | perform effect next ih => exact .perform _ (ih _)

/-- The world that answers in any way and remembers all of it. -/
def recording : World A (List (Event A)) := fun trace effect answer trace' =>
  trace' = trace ++ [⟨effect, answer⟩]

variable {guard : List (Event A) → E → Prop} {pre : List (Event A) → Prop}
  {post : Except ε α → List (Event A) → Prop} {p : Program E A ε α} {trace done : List (Event A)}

/-- What stays true of a growing record stays true under every program. -/
theorem Program.Triple.frame {F : List (Event A) → Prop}
    {recorded : List (Moment A (List (Event A))) → List (Event A) → E → Prop}
    (grows : ∀ trace event, F trace → F (trace ++ [event]))
    (spec : p.Triple recording recorded pre post) :
    p.Triple recording recorded (fun trace => pre trace ∧ F trace)
      fun result trace => post result trace ∧ F trace := by
  rintro past done ⟨start, kept⟩
  have meets := spec past done start
  clear spec start
  induction p generalizing past done with
  | done value | fail error => exact ⟨meets, kept⟩
  | perform effect next ih =>
    refine ⟨meets.1, ?_⟩
    rintro answer _ rfl
    exact ih answer _ _ (grows _ _ kept) (meets.2 answer _ rfl)

theorem Traces.wp_front {past : List (Moment A (List (Event A)))} (run : Traces p trace)
    (spec : p.wp recording (fun _ => guard) (fun result _ => post result) past done) :
    ∀ front event, front ++ [event] <+: trace → guard (done ++ front) event.effect := by
  induction run generalizing past done with
  | stop p =>
    rintro front event ⟨rear, same⟩
    simp at same
  | perform answer _ ih =>
    rintro front event ⟨rear, same⟩
    cases front with
    | nil =>
      obtain ⟨rfl, _⟩ := List.cons.inj same
      rw [List.append_nil]
      exact spec.1
    | cons first front =>
      obtain ⟨rfl, rest⟩ := List.cons.inj same
      have later := ih (spec.2 answer _ rfl) front event ⟨rear, rest⟩
      rwa [List.append_assoc] at later

theorem Traces.wp_end {past : List (Moment A (List (Event A)))} {I : List (Event A) → Prop}
    (run : Traces p trace)
    (spec : p.wp recording (fun _ => guard) (fun result _ => post result) past done)
    (guards : ∀ t effect, guard t effect → I t) (posts : ∀ result t, post result t → I t) :
    I (done ++ trace) := by
  induction run generalizing past done with
  | stop p =>
    rw [List.append_nil]
    cases p with
    | done value | fail error => exact posts _ _ spec
    | perform effect next => exact guards _ _ spec.1
  | perform answer _ ih =>
    have later := ih (spec.2 answer _ rfl)
    rwa [List.append_assoc] at later
end Traces
end Interaction
