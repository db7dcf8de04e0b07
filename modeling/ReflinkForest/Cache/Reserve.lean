import ReflinkForest.Cache.Eviction

/-! Free-space reserves. The subtraction of the policy saturates: an allocation larger than the
space there is looks like one that uses it up. -/
namespace ReflinkForest
open Interaction

def saturatingSub (a b : UInt64) : UInt64 := if b ≤ a then a - b else 0

structure ReserveViolation where
  availableBytes : UInt64
  projectedAllocationBytes : UInt64
  reserveBytes : UInt64
  availableAfterAllocationBytes : UInt64
  shortfallBytes : UInt64

open ReserveViolation

def ReserveViolation.new (availableBytes projectedAllocationBytes reserveBytes : UInt64) :
    Option ReserveViolation :=
  let availableAfterAllocationBytes := saturatingSub availableBytes projectedAllocationBytes
  if availableAfterAllocationBytes ≥ reserveBytes then none
  else some {
    availableBytes, projectedAllocationBytes, reserveBytes, availableAfterAllocationBytes
    shortfallBytes := reserveBytes - availableAfterAllocationBytes }

inductive AdmissionError where
  | hostReserve (host : ReserveViolation)
  | guestReserve (guest : ReserveViolation)
  | hostAndGuestReserve (host guest : ReserveViolation)

def AdmissionError.requiredReclaimBytes : AdmissionError → UInt64
  | hostReserve host => host.shortfallBytes
  | guestReserve guest => guest.shortfallBytes
  | hostAndGuestReserve host guest =>
    if host.shortfallBytes > guest.shortfallBytes then host.shortfallBytes
    else guest.shortfallBytes

structure CapacitySnapshot where
  hostAvailableBytes : UInt64
  guestAvailableBytes : UInt64

structure ReservePolicy where
  hostReserveBytes : UInt64
  guestReserveBytes : UInt64

def ReservePolicy.admitAllocation (policy : ReservePolicy)
    (hostAvailableBytes guestAvailableBytes projectedAllocationBytes : UInt64) :
    Except AdmissionError Unit :=
  let host := ReserveViolation.new hostAvailableBytes projectedAllocationBytes
    policy.hostReserveBytes
  let guest := ReserveViolation.new guestAvailableBytes projectedAllocationBytes
    policy.guestReserveBytes
  match host, guest with
  | none, none => .ok ()
  | some host, none => .error (.hostReserve host)
  | none, some guest => .error (.guestReserve guest)
  | some host, some guest => .error (.hostAndGuestReserve host guest)

section Coordinator
structure CapacityAdmission where
  projectedAllocationBytes : UInt64
  before : CapacitySnapshot
  admitted : CapacitySnapshot
  eviction : Option CacheEviction

structure CapacityReserveFailure where
  before : CapacitySnapshot
  afterEviction : CapacitySnapshot
  eviction : CacheEviction
  violation : AdmissionError

inductive CapacityAdmissionError (I : Type) where
  | measurement (error : I)
  | cache (error : FanoutError)
  | reservesStillUnmet (failure : CapacityReserveFailure)

inductive CapacityAdmissionOperationError (I E : Type) where
  | admission (error : CapacityAdmissionError I)
  | operation (error : E)

/-- What the coordinator asks its meter and its cache, and the work it protects. -/
inductive CapacityEffect where
  | measure
  | usage
  | evictTo (targetLogicalBytes : ℕ)
  | operation

/-- Answers, with `I` for the errors of the meter and `E`, `T` for the outcome of the work. -/
abbrev CapacityEffect.Answer (I E T : Type) : CapacityEffect → Type
  | measure => Except I CapacitySnapshot
  | usage => Except FanoutError CacheUsage
  | evictTo _ => Except FanoutError CacheEviction
  | operation => Except E T

variable {I E T : Type} (policy : ReservePolicy)

def measure : Program CapacityEffect (CapacityEffect.Answer I E T) (CapacityAdmissionError I)
    CapacitySnapshot := do
  let answer ← Program.send CapacityEffect.measure
  Program.ofExcept (Except.mapErr .measurement answer)

def admitLocked (projectedAllocationBytes : UInt64) :
    Program CapacityEffect (CapacityEffect.Answer I E T) (CapacityAdmissionError I)
      CapacityAdmission := do
  let before ← measure
  match policy.admitAllocation before.hostAvailableBytes before.guestAvailableBytes
      projectedAllocationBytes with
  | .ok () => pure { projectedAllocationBytes, before, admitted := before, eviction := none }
  | .error initialViolation =>
    let answer ← Program.send CapacityEffect.usage
    let usage ← Program.ofExcept (Except.mapErr .cache answer)
    let answer ← Program.send (CapacityEffect.evictTo
      (usage.logicalBytes - initialViolation.requiredReclaimBytes.toNat))
    let eviction ← Program.ofExcept (Except.mapErr .cache answer)
    let afterEviction ← measure
    match policy.admitAllocation afterEviction.hostAvailableBytes afterEviction.guestAvailableBytes
        projectedAllocationBytes with
    | .ok () =>
      pure { projectedAllocationBytes, before, admitted := afterEviction, eviction := eviction }
    | .error violation =>
      .fail (.reservesStillUnmet { before, afterEviction, eviction, violation })

/-- The work that an admission protects, with its error wrapped. -/
def runAdmitted {ε : Type} (wrap : E → ε) (admission : CapacityAdmission) :
    Program CapacityEffect (CapacityEffect.Answer I E T) ε (CapacityAdmission × T) := do
  let answer ← Program.send CapacityEffect.operation
  let result ← Program.ofExcept (Except.mapErr wrap answer)
  pure (admission, result)

def withReserveAdmission (projectedAllocationBytes : UInt64) :
    Program CapacityEffect (CapacityEffect.Answer I E T) (CapacityAdmissionOperationError I E)
      (CapacityAdmission × T) := do
  let admission ← (admitLocked policy projectedAllocationBytes).mapErr .admission
  runAdmitted .operation admission
end Coordinator

theorem toNat_saturatingSub (a b : UInt64) : (saturatingSub a b).toNat = a.toNat - b.toNat := by
  unfold saturatingSub
  split_ifs with fits
  · exact UInt64.toNat_sub_of_le a b fits
  · rw [UInt64.le_iff_toNat_le] at fits
    rw [UInt64.toNat_zero]
    omega

/-- In exact arithmetic, the reserve is kept after the allocation. -/
def Retained (available projected reserve : UInt64) : Prop :=
  projected.toNat + reserve.toNat ≤ available.toNat

/-- In exact arithmetic, the violation names what is missing. -/
def ReserveViolation.Precise (violation : ReserveViolation) : Prop :=
  violation.shortfallBytes.toNat + violation.availableBytes.toNat =
    violation.projectedAllocationBytes.toNat + violation.reserveBytes.toNat

namespace ReserveViolation
variable {available projected reserve : UInt64} {violation : ReserveViolation}

theorem new_eq_none_iff : new available projected reserve = none ↔
    reserve.toNat ≤ available.toNat - projected.toNat := by
  rw [← toNat_saturatingSub, ← UInt64.le_iff_toNat_le]
  simp [new]

theorem new_eq_some_iff : new available projected reserve = some violation ↔
    available.toNat - projected.toNat < reserve.toNat ∧
      violation = ⟨available, projected, reserve, saturatingSub available projected,
        reserve - saturatingSub available projected⟩ := by
  rw [← toNat_saturatingSub, ← UInt64.lt_iff_toNat_lt]
  simp [new, eq_comm]

/-- A violation is precise exactly if there was room for the allocation itself. -/
theorem precise_iff (reported : new available projected reserve = some violation) :
    violation.Precise ↔ projected.toNat ≤ available.toNat := by
  obtain ⟨short, rfl⟩ := new_eq_some_iff.mp reported
  have after := toNat_saturatingSub available projected
  have shortfall : (reserve - saturatingSub available projected).toNat =
      reserve.toNat - (available.toNat - projected.toNat) := by
    rw [UInt64.toNat_sub_of_le _ _ (UInt64.le_iff_toNat_le.mpr (by omega)), after]
  simp only [Precise, shortfall]
  omega

theorem forall_precise_iff :
    (∀ violation, new available projected reserve = some violation → violation.Precise) ↔
      (available.toNat - projected.toNat < reserve.toNat →
        projected.toNat ≤ available.toNat) := by
  constructor
  · intro precise short
    have reported := new_eq_some_iff.mpr ⟨short, rfl⟩
    exact (precise_iff reported).mp (precise _ reported)
  · intro room violation reported
    exact (precise_iff reported).mpr (room (new_eq_some_iff.mp reported).1)
end ReserveViolation

namespace AdmissionError
def host : AdmissionError → Option ReserveViolation
  | hostReserve host => some host
  | guestReserve _ => none
  | hostAndGuestReserve host _ => some host

def guest : AdmissionError → Option ReserveViolation
  | hostReserve _ => none
  | guestReserve guest => some guest
  | hostAndGuestReserve _ guest => some guest
end AdmissionError

namespace ReservePolicy
variable {policy : ReservePolicy} {host guest projected : UInt64} {error : AdmissionError}

theorem admitAllocation_eq_ok_iff : policy.admitAllocation host guest projected = .ok () ↔
    new host projected policy.hostReserveBytes = none ∧
      new guest projected policy.guestReserveBytes = none := by
  unfold admitAllocation
  cases new host projected policy.hostReserveBytes <;>
    cases new guest projected policy.guestReserveBytes <;> simp

theorem admitAllocation_eq_error
    (refused : policy.admitAllocation host guest projected = .error error) :
    error.host = new host projected policy.hostReserveBytes ∧
      error.guest = new guest projected policy.guestReserveBytes := by
  unfold admitAllocation at refused
  revert refused
  cases new host projected policy.hostReserveBytes <;>
    cases new guest projected policy.guestReserveBytes <;> rintro ⟨⟩ <;>
    exact ⟨rfl, rfl⟩

/-- The decision is that of exact arithmetic, and so is every shortfall it reports. -/
structure Exact (policy : ReservePolicy) (host guest projected : UInt64) : Prop where
  admits : policy.admitAllocation host guest projected = .ok () ↔
    Retained host projected policy.hostReserveBytes ∧
      Retained guest projected policy.guestReserveBytes
  reports : ∀ error, policy.admitAllocation host guest projected = .error error →
    (∀ violation, error.host = some violation → violation.Precise) ∧
      ∀ violation, error.guest = some violation → violation.Precise

/-- Both domains have room for the allocation; or one has not, but keeps no reserve, and the other
has room for the allocation though not for its reserve. -/
def Told (policy : ReservePolicy) (host guest projected : UInt64) : Prop :=
  (projected ≤ host ∧ projected ≤ guest) ∨
    (host < projected ∧ policy.hostReserveBytes = 0 ∧ projected ≤ guest ∧
      ¬Retained guest projected policy.guestReserveBytes) ∨
    (guest < projected ∧ policy.guestReserveBytes = 0 ∧ projected ≤ host ∧
      ¬Retained host projected policy.hostReserveBytes)

theorem forall_reports_iff :
    (∀ error, policy.admitAllocation host guest projected = .error error →
      (∀ violation, error.host = some violation → violation.Precise) ∧
        ∀ violation, error.guest = some violation → violation.Precise) ↔
      (∀ violation, new host projected policy.hostReserveBytes =
        some violation → violation.Precise) ∧
      ∀ violation, new guest projected policy.guestReserveBytes =
        some violation → violation.Precise := by
  cases decided : policy.admitAllocation host guest projected with
  | ok =>
    obtain ⟨noHost, noGuest⟩ := admitAllocation_eq_ok_iff.mp decided
    simp [noHost, noGuest]
  | error error =>
    obtain ⟨sameHost, sameGuest⟩ := admitAllocation_eq_error decided
    simp [← sameHost, ← sameGuest]

theorem exact_iff : policy.Exact host guest projected ↔ policy.Told host guest projected := by
  have split : policy.Exact host guest projected ↔ _ ∧ _ :=
    ⟨fun exact => ⟨exact.admits, exact.reports⟩, fun parts => ⟨parts.1, parts.2⟩⟩
  have zero (a : UInt64) : a = 0 ↔ a.toNat = 0 := UInt64.toNat_inj.symm
  rw [split, forall_reports_iff, admitAllocation_eq_ok_iff, new_eq_none_iff,
    new_eq_none_iff, forall_precise_iff,
    forall_precise_iff]
  simp only [Told, Retained, UInt64.le_iff_toNat_le, UInt64.lt_iff_toNat_lt, zero]
  omega
end ReservePolicy

section Runs
variable {I E T : Type} {policy : ReservePolicy} {projected : UInt64}

abbrev CapacityTrace (I E T : Type) := List (Event (CapacityEffect.Answer I E T))

/-- What the meter said when it was last asked. -/
def lastMeasurement (trace : CapacityTrace I E T) : Option (Except I CapacitySnapshot) :=
  trace.foldl (fun last event =>
    match event with
    | ⟨.measure, answer⟩ => some answer
    | _ => last) none

/-- The policy lets the allocation pass at this measurement. -/
def ReservePolicy.Admits (policy : ReservePolicy) (projected : UInt64)
    (snapshot : CapacitySnapshot) : Prop :=
  policy.admitAllocation snapshot.hostAvailableBytes snapshot.guestAvailableBytes projected = .ok ()

theorem lastMeasurement_concat (trace : CapacityTrace I E T)
    (answer : Except I CapacitySnapshot) :
    lastMeasurement (trace ++ [⟨.measure, answer⟩]) = some answer := by
  rw [lastMeasurement, List.foldl_append]
  rfl

/-- The protected work starts behind a measurement that the policy lets pass. -/
def OperationGuard (policy : ReservePolicy) (projected : UInt64) (trace : CapacityTrace I E T)
    (effect : CapacityEffect) : Prop :=
  effect = .operation → ∃ snapshot, lastMeasurement trace = some (.ok snapshot) ∧
    policy.Admits projected snapshot

theorem measure_spec {pre : CapacityTrace I E T → Prop} :
    (measure : Program _ (CapacityEffect.Answer I E T) _ _).Triple recording
      (fun _ => OperationGuard policy projected) pre
      fun result trace => ∀ snapshot, result = .ok snapshot →
        lastMeasurement trace = some (.ok snapshot) := by
  apply Program.Triple.ask
  · rintro _ trace _ ⟨⟩
  · rintro trace answer _ _ rfl snapshot measured
    rw [lastMeasurement_concat]
    cases answer with
    | error error => cases measured
    | ok seen =>
      cases measured
      rfl

theorem admitLocked_spec :
    (admitLocked policy projected : Program _ (CapacityEffect.Answer I E T) _ _).Triple recording
      (fun _ => OperationGuard policy projected) (fun _ => True)
      fun result trace => ∀ admission, result = .ok admission →
        lastMeasurement trace = some (.ok admission.admitted) ∧
          policy.Admits projected admission.admitted := by
  unfold admitLocked
  apply Program.Triple.bind measure_spec
  · intro before
    split
    · rename_i admitted
      rintro _ trace measured _ ⟨⟩
      exact ⟨measured before rfl, admitted⟩
    · apply Program.Triple.send (fun _ _ => True) (by rintro _ trace _ ⟨⟩) (by simp)
      intro answer
      apply Program.Triple.ofExcept_bind _ (by simp)
      intro usage _
      apply Program.Triple.send (fun _ _ => True) (by rintro _ trace _ ⟨⟩) (by simp)
      intro answer
      apply Program.Triple.ofExcept_bind _ (by simp)
      intro eviction _
      apply Program.Triple.bind measure_spec
      · intro after
        split
        · rename_i admitted
          rintro _ trace measured _ ⟨⟩
          exact ⟨measured after rfl, admitted⟩
        · rintro _ trace _ _ ⟨⟩
      · rintro error trace _ _ ⟨⟩
  · rintro error trace _ _ ⟨⟩

theorem runAdmitted_spec {ε : Type} {wrap : E → ε} {admission : CapacityAdmission} :
    (runAdmitted wrap admission : Program _ (CapacityEffect.Answer I E T) ε _).Triple recording
      (fun _ => OperationGuard policy projected)
      (fun trace => ∀ other, (.ok admission : Except ε CapacityAdmission) = .ok other →
        lastMeasurement trace = some (.ok other.admitted) ∧ policy.Admits projected other.admitted)
      fun _ _ => True := by
  apply Program.Triple.send (fun _ _ => True)
  · intro _ trace admitted _
    exact ⟨admission.admitted, admitted admission rfl⟩
  · simp
  · intro answer
    apply Program.Triple.ofExcept_bind
    · rintro result _ _ trace _
      trivial
    · simp

theorem withReserveAdmission_spec :
    (withReserveAdmission policy projected :
      Program _ (CapacityEffect.Answer I E T) _ _).Triple recording
      (fun _ => OperationGuard policy projected) (fun _ => True) fun _ _ => True := by
  have decided : ((admitLocked policy projected).mapErr .admission : Program _
      (CapacityEffect.Answer I E T) (CapacityAdmissionOperationError I E) _).Triple recording
      (fun _ => OperationGuard policy projected) (fun _ => True)
      fun result trace => ∀ admission, result = .ok admission →
        lastMeasurement trace = some (.ok admission.admitted) ∧
          policy.Admits projected admission.admitted := by
    apply admitLocked_spec.mapErr
    · rintro admission trace holds _ ⟨⟩
      exact holds admission rfl
    · rintro error trace _ _ ⟨⟩
  exact decided.bind (fun _ => runAdmitted_spec) (by simp)

/-- Whenever the protected work is started, the last measurement retains both reserves. -/
def RunsRetained (policy : ReservePolicy) (projected : UInt64) (trace : CapacityTrace I E T) :
    Prop :=
  ∀ front event, front ++ [event] <+: trace → event.effect = .operation →
    ∃ snapshot, lastMeasurement front = some (.ok snapshot) ∧
      Retained snapshot.hostAvailableBytes projected policy.hostReserveBytes ∧
      Retained snapshot.guestAvailableBytes projected policy.guestReserveBytes

/-- Whenever the protected work is started, the last measurement has room for it. -/
def RunsCovered (projected : UInt64) (trace : CapacityTrace I E T) : Prop :=
  ∀ front event, front ++ [event] <+: trace → event.effect = .operation →
    ∀ snapshot, lastMeasurement front = some (.ok snapshot) →
      projected ≤ snapshot.hostAvailableBytes ∧ projected ≤ snapshot.guestAvailableBytes

theorem ReservePolicy.Admits.retained_iff {snapshot : CapacitySnapshot}
    (admits : policy.Admits projected snapshot) :
    Retained snapshot.hostAvailableBytes projected policy.hostReserveBytes ∧
        Retained snapshot.guestAvailableBytes projected policy.guestReserveBytes ↔
      projected ≤ snapshot.hostAvailableBytes ∧ projected ≤ snapshot.guestAvailableBytes := by
  have passed := ReservePolicy.admitAllocation_eq_ok_iff.mp admits
  rw [new_eq_none_iff, new_eq_none_iff] at passed
  simp only [Retained, UInt64.le_iff_toNat_le]
  omega

theorem runsRetained_iff {trace : CapacityTrace I E T}
    (run : Traces (withReserveAdmission policy projected) trace) :
    RunsRetained policy projected trace ↔ RunsCovered projected trace := by
  have guarded := run.wp_front (withReserveAdmission_spec [] [] trivial)
  constructor
  · intro retained front event cut starts snapshot last
    obtain ⟨measured, same, kept⟩ := retained front event cut starts
    obtain ⟨admitted, same', passed⟩ := guarded front event cut starts
    rw [List.nil_append, last] at same'
    rw [last] at same
    cases same
    cases same'
    exact passed.retained_iff.mp kept
  · intro covered front event cut starts
    obtain ⟨admitted, last, passed⟩ := guarded front event cut starts
    exact ⟨admitted, last, passed.retained_iff.mpr (covered front event cut starts admitted last)⟩

/-- Where admission is exact, and which runs start the protected work with both reserves kept. -/
theorem reserveAdmission_exact_iff (policy : ReservePolicy) :
    (∀ host guest projected, policy.Exact host guest projected ↔
      policy.Told host guest projected) ∧
    ∀ (I E T : Type) (projected : UInt64) (trace : CapacityTrace I E T),
      Traces (withReserveAdmission policy projected) trace →
        (RunsRetained policy projected trace ↔ RunsCovered projected trace) :=
  ⟨fun _ _ _ => ReservePolicy.exact_iff, fun _ _ _ _ _ run => runsRetained_iff run⟩

/-- A meter that finds no space at all, and a cache that has nothing to give. -/
def fullDisk : (effect : CapacityEffect) → CapacityEffect.Answer Unit Unit Unit effect
  | .measure => .ok ⟨0, 0⟩
  | .usage => .ok {}
  | .evictTo target => .ok ⟨target, {}, {}, 0, 0, 0⟩
  | .operation => .ok ()

/-- Without reserves, an allocation passes whatever the space. -/
theorem zeroReserve_admits_on_fullDisk :
    (¬ ∀ (policy : ReservePolicy) (host guest projected : UInt64),
      policy.Exact host guest projected) ∧
    ¬ ∀ (policy : ReservePolicy) (I E T : Type) (projected : UInt64)
      (trace : CapacityTrace I E T), Traces (withReserveAdmission policy projected) trace →
        RunsRetained policy projected trace := by
  constructor
  · intro exact
    have told := ReservePolicy.exact_iff.mp (exact ⟨0, 0⟩ 0 0 1)
    unfold ReservePolicy.Told Retained at told
    revert told
    decide
  · intro retained
    have kept := retained ⟨0, 0⟩ Unit Unit Unit 1 _ (.replay fullDisk _)
    obtain ⟨snapshot, last, host, _⟩ := kept [⟨.measure, .ok ⟨0, 0⟩⟩] ⟨.operation, .ok ()⟩
      List.prefix_rfl rfl
    cases last
    revert host
    unfold Retained
    decide
end Runs
end ReflinkForest
