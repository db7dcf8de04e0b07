import ReflinkForest.Btrfs.PrivilegedExecutor

/-! Privileged commands are issued on verified targets only, whatever the runner and the file system
answer. -/
namespace ReflinkForest
open Bytes Interaction Except List PrivilegedExecutor

section Safety
abbrev BtrfsTrace := List (Event BtrfsEffect.Answer)

namespace BtrfsTrace
/-- The device was inspected and the path it reported resolved to the image. -/
def Backs (trace : BtrfsTrace) (device image : Str) : Prop :=
  ∃ output backing, parseSingleBackingPath output = .ok backing ∧
    [⟨.run (.inspectLoopBacking device), .ok output⟩, ⟨.canonicalize backing, .ok image⟩] <:+: trace

/-- The file system on the device was inspected, and UUID and label are those of the marker. -/
def Identified (trace : BtrfsTrace) (device : Str) (marker : InstanceMarker) : Prop :=
  ∃ output inspected, parseBlkidExportIdentity output = .ok inspected ∧
    inspected.filesystemUuid = marker.filesystemUuid ∧ inspected.label = marker.label ∧
    ⟨.run (.inspectFilesystem device), .ok output⟩ ∈ trace

/-- The device is the one that attaching an image gave, which was made as a new file before. -/
def AttachedNew (trace : BtrfsTrace) (device image : Str) : Prop :=
  ∃ size allocation output, parseAttachedLoopDevice output = .ok device ∧
    List.Sublist [⟨.createNewImage image size allocation, .ok ()⟩,
      ⟨.run (.attachLoop image), .ok output⟩] trace

/-- A device was formatted, and then inspected with the identity of the marker. -/
def Formatted (trace : BtrfsTrace) (marker : InstanceMarker) : Prop :=
  ∃ device label formatted output inspected, parseBlkidExportIdentity output = .ok inspected ∧
    inspected.filesystemUuid = marker.filesystemUuid ∧ inspected.label = marker.label ∧
    List.Sublist [⟨.run (.formatBtrfs device label), .ok formatted⟩,
      ⟨.run (.inspectFilesystem device), .ok output⟩] trace

def Verified (trace : BtrfsTrace) (config : PrivilegedExecutorConfig) (device : Str) : Prop :=
  trace.Backs device config.image ∧ trace.Identified device config.marker

/-- Several devices match the image. -/
def Several (trace : BtrfsTrace) (image : Str) : Prop :=
  ∃ device other, device ≠ other ∧ trace.Backs device image ∧ trace.Backs other image

/-- No command but listing and inspection of loop devices. -/
def OnlyLooks (trace : BtrfsTrace) : Prop :=
  ∀ event ∈ trace, ∀ plan, event.effect = .run plan →
    plan = .listLoops ∨ ∃ device, plan = .inspectLoopBacking device
end BtrfsTrace

open BtrfsTrace

/-- What must have happened in a call before an effect. -/
def PrivilegedCall.Allows (call : PrivilegedCall) (trace : BtrfsTrace) : BtrfsEffect → Prop
  | .run (.formatBtrfs device _) => ∃ image, trace.AttachedNew device image ∧
    trace.Backs device image
  | .run (.mount device _) => ∃ config, call.config = some config ∧ trace.Verified config device
  | .run (.growImage image size) => ∃ config, call.config = some config ∧ image = config.image ∧
    (∃ device, trace.Verified config device) ∧
    ∃ current, trace.head? = some ⟨.imageLength image, .ok current⟩ ∧ current < size
  | .run (.refreshLoopCapacity device) => ∃ config, call.config = some config ∧
    trace.Verified config device
  | .run (.resizeFilesystem _) => ∃ config device, call.config = some config ∧
    trace.Verified config device
  | .imageLength _ => trace = []
  | .createNewMarker _ marker => trace.Formatted marker
  | _ => True

/-- The image that a call works on. -/
def PrivilegedCall.Targets (call : PrivilegedCall) (trace : BtrfsTrace) (image : Str) : Prop :=
  match call.config with
  | some config => image = config.image
  | none => ∃ size allocation, ⟨.createNewImage image size allocation, .ok ()⟩ ∈ trace
end Safety

section Traces
variable {trace : BtrfsTrace} {event : Event BtrfsEffect.Answer} {device image : Str}
  {images : Str → Prop} {P Q : Str → Prop}

namespace BtrfsTrace
theorem pair_infix_concat {x y : Event BtrfsEffect.Answer} :
    [x, y] <:+: trace ++ [event] ↔
      [x, y] <:+: trace ∨ event = y ∧ trace.getLast? = some x := by
  rw [infix_concat_iff, suffix_concat_iff, or_comm]
  apply or_congr_right
  constructor
  · rintro (empty | ⟨front, same, rest⟩)
    · cases empty
    · have split : [x] ++ [y] = front ++ [event] := same
      obtain ⟨rfl, last⟩ := append_inj' split rfl
      cases last
      exact ⟨rfl, singleton_suffix_iff_getLast?_eq_some.mp rest⟩
  · rintro ⟨rfl, last⟩
    exact .inr ⟨[x], rfl, singleton_suffix_iff_getLast?_eq_some.mpr last⟩

theorem backs_concat : (trace ++ [event] : BtrfsTrace).Backs device image ↔
    trace.Backs device image ∨ ∃ output backing, parseSingleBackingPath output = .ok backing ∧
      event = ⟨.canonicalize backing, .ok image⟩ ∧
      trace.getLast? = some ⟨.run (.inspectLoopBacking device), .ok output⟩ := by
  simp only [Backs, pair_infix_concat, and_or_left, exists_or]

theorem backs_concat_run {plan : PrivilegedPlan} {answer : Except BtrfsError Str} :
    (trace ++ [⟨.run plan, answer⟩] : BtrfsTrace).Backs device image ↔
      trace.Backs device image := by
  rw [backs_concat, or_iff_left]
  rintro ⟨_, _, _, same, _⟩
  cases same

theorem Backs.concat (backs : trace.Backs device image) (event : Event BtrfsEffect.Answer) :
    (trace ++ [event] : BtrfsTrace).Backs device image :=
  backs_concat.mpr (.inl backs)

variable {marker : InstanceMarker}

theorem Identified.concat (identified : trace.Identified device marker)
    (event : Event BtrfsEffect.Answer) :
    (trace ++ [event] : BtrfsTrace).Identified device marker := by
  obtain ⟨output, inspected, read, uuid, label, mem⟩ := identified
  exact ⟨output, inspected, read, uuid, label, mem_append_left _ mem⟩

theorem AttachedNew.concat (attached : trace.AttachedNew device image)
    (event : Event BtrfsEffect.Answer) :
    (trace ++ [event] : BtrfsTrace).AttachedNew device image := by
  obtain ⟨size, allocation, output, read, order⟩ := attached
  exact ⟨size, allocation, output, read, order.trans (sublist_append_left _ _)⟩

theorem Formatted.concat (formatted : trace.Formatted marker) (event : Event BtrfsEffect.Answer) :
    (trace ++ [event] : BtrfsTrace).Formatted marker := by
  obtain ⟨device, label, answer, output, inspected, read, uuid, named, order⟩ := formatted
  exact ⟨device, label, answer, output, inspected, read, uuid, named,
    order.trans (sublist_append_left _ _)⟩

theorem pair_sublist {before : Event BtrfsEffect.Answer} (mem : before ∈ trace)
    (event : Event BtrfsEffect.Answer) : List.Sublist [before, event] (trace ++ [event]) :=
  (singleton_sublist.mpr mem).append (List.Sublist.refl _)

theorem onlyLooks_concat : (trace ++ [event] : BtrfsTrace).OnlyLooks ↔ trace.OnlyLooks ∧
    ∀ plan, event.effect = .run plan →
      plan = .listLoops ∨ ∃ device, plan = .inspectLoopBacking device := by
  simp only [OnlyLooks, forall_mem_append, forall_mem_singleton]

/-- When several devices match one of the images, nothing but looking has happened. -/
def Calm (images : Str → Prop) (trace : BtrfsTrace) : Prop :=
  ∀ image, images image → trace.Several image → trace.OnlyLooks

/-- Every device that matches one of the images has the property, and no inspection is under way. -/
structure Only (images P : Str → Prop) (trace : BtrfsTrace) : Prop where
  backs : ∀ image device, images image → trace.Backs device image → P device
  ended : ∀ device output,
    trace.getLast? ≠ some ⟨.run (.inspectLoopBacking device), .ok output⟩

theorem OnlyLooks.calm (looks : trace.OnlyLooks) : trace.Calm images := fun _ _ _ => looks

theorem calm_of_backs (backs : ∀ image device, images image → trace.Backs device image → P device)
    (single : ∀ device other, P device → P other → device = other) : trace.Calm images := by
  rintro image mem ⟨first, second, differ, one, two⟩
  exact absurd (single first second (backs image first mem one) (backs image second mem two))
    differ

theorem only_nil : Only images P [] := by
  constructor
  · rintro image device _ ⟨_, _, _, short⟩
    simpa using short.length_le
  · nofun

theorem Only.concat (only : trace.Only images P) (event : Event BtrfsEffect.Answer)
    (other : ∀ device output, event ≠ ⟨.run (.inspectLoopBacking device), .ok output⟩) :
    (trace ++ [event] : BtrfsTrace).Only images P := by
  constructor
  · intro image device mem backs
    rcases backs_concat.mp backs with before | ⟨output, _, _, _, last⟩
    · exact only.backs image device mem before
    · exact absurd last (only.ended device output)
  · intro device output last
    rw [List.getLast?_concat] at last
    exact other device output (Option.some.inj last)

theorem Only.mono (only : trace.Only images P) (weaker : ∀ device, P device → Q device) :
    trace.Only images Q :=
  ⟨fun image device mem backs => weaker device (only.backs image device mem backs),
    only.ended⟩

theorem Only.calm (only : trace.Only images P)
    (single : ∀ device other, P device → P other → device = other) : trace.Calm images :=
  calm_of_backs only.backs single
end BtrfsTrace
end Traces

section Specs
open BtrfsTrace

variable {call : PrivilegedCall} {images P : Str → Prop} {t₀ : BtrfsTrace} {device image : Str}
  {plan : PrivilegedPlan}

/-- Whatever is answered, the effects of the program are allowed and no image is mistaken. -/
abbrev Obeys {α : Type} (call : PrivilegedCall) (images : Str → Prop) (pre : BtrfsTrace → Prop)
    (p : Privileged α) (post : Except BtrfsError α → BtrfsTrace → Prop) : Prop :=
  p.Triple recording (fun _ trace effect => Calm images trace ∧ call.Allows trace effect) pre post

namespace PrivilegedExecutor
theorem run_spec (calm : t₀.Calm images) (allowed : call.Allows t₀ (.run plan)) :
    Obeys call images (· = t₀) (run plan)
      fun result trace => trace = t₀ ++ [⟨.run plan, result⟩] := by
  apply Program.Triple.ask
  · rintro _ _ rfl
    exact ⟨calm, allowed⟩
  · rintro _ answer _ rfl rfl
    rfl

theorem canonicalize_spec {path : Str} (calm : t₀.Calm images) :
    Obeys call images (· = t₀) (canonicalize path)
      fun result trace => trace = t₀ ++ [⟨.canonicalize path, result⟩] := by
  apply Program.Triple.ask
  · rintro _ _ rfl
    exact ⟨calm, trivial⟩
  · rintro _ answer _ rfl rfl
    rfl

variable {answer : Except BtrfsError Str} {F : BtrfsTrace → Prop} {size : UInt64}

theorem calm_inspecting (calm : t₀.Calm images) :
    Calm images (t₀ ++ [⟨.run (.inspectLoopBacking device), answer⟩]) := by
  rintro image mem ⟨first, second, differ, one, two⟩
  rw [backs_concat_run] at one two
  refine onlyLooks_concat.mpr ⟨calm image mem ⟨first, second, differ, one, two⟩, ?_⟩
  rintro plan ⟨⟩
  exact .inr ⟨device, rfl⟩

/-- What an inspection adds to the devices that match. -/
theorem inspectLoopBacking_spec (calm : t₀.Calm images) (only : t₀.Only images P) :
    Obeys call images (· = t₀) (inspectLoopBacking device) fun result trace =>
      (t₀.OnlyLooks → trace.OnlyLooks) ∧ match result with
        | .ok backing => trace.Backs device backing ∧
          trace.Only images fun found => P found ∨ found = device ∧ images backing
        | .error _ => ∀ image found, images image → trace.Backs found image → P found := by
  have looks {answer : Except BtrfsError Str} (before : t₀.OnlyLooks) :
      OnlyLooks (t₀ ++ [⟨.run (.inspectLoopBacking device), answer⟩]) := by
    refine onlyLooks_concat.mpr ⟨before, ?_⟩
    rintro plan ⟨⟩
    exact .inr ⟨device, rfl⟩
  have backs {answer : Except BtrfsError Str} (image found : Str) (mem : images image)
      (after : Backs (t₀ ++ [⟨.run (.inspectLoopBacking device), answer⟩]) found image) :
      P found := by
    rw [backs_concat_run] at after
    exact only.backs image found mem after
  have ran : Obeys call images (· = t₀) (run (.inspectLoopBacking device)) _ :=
    run_spec calm trivial
  apply ran.bind
  · intro output
    apply Program.Triple.ofExcept_bind
    · intro path read
      apply (canonicalize_spec (calm_inspecting calm)).weaken
      rintro result trace rfl
      refine ⟨fun before => onlyLooks_concat.mpr ⟨looks before, nofun⟩, ?_⟩
      cases result with
      | error error =>
        intro image found mem after
        rcases backs_concat.mp after with before | ⟨_, _, _, same, _⟩
        · exact backs image found mem before
        · cases same
      | ok backing =>
        refine ⟨backs_concat.mpr (.inr ⟨output, path, read, rfl, List.getLast?_concat⟩), ?_, ?_⟩
        · intro image found mem after
          rcases backs_concat.mp after with before | ⟨_, _, _, same, last⟩
          · exact .inl (backs image found mem before)
          · rw [List.getLast?_concat] at last
            cases same
            cases last
            exact .inr ⟨rfl, mem⟩
        · intro found _ last
          rw [List.getLast?_concat] at last
          cases last
    · rintro error trace _ rfl
      exact ⟨looks, backs⟩
  · rintro error trace rfl
    exact ⟨looks, backs⟩

/-- Only looking so far, and the devices that match are those with the property. -/
structure Found (image : Str) (P : Str → Prop) (trace : BtrfsTrace) : Prop where
  looks : trace.OnlyLooks
  only : trace.Only (· = image) P
  backs : ∀ device, P device → trace.Backs device image

theorem Found.congr {Q : Str → Prop} {trace : BtrfsTrace} (found : Found image P trace)
    (same : ∀ device, P device ↔ Q device) : Found image Q trace :=
  ⟨found.looks, found.only.mono fun device => (same device).mp,
    fun device holds => found.backs device ((same device).mpr holds)⟩

theorem inspectLoopBacking_found : Obeys call (· = image) (Found image P)
    (inspectLoopBacking device) fun result trace => trace.OnlyLooks ∧
      ∀ backing, result = .ok backing →
        Found image (fun found => P found ∨ found = device ∧ backing = image) trace := by
  apply Program.Triple.each
  intro t₀ found
  have inspected : Obeys call (· = image) (· = t₀) (inspectLoopBacking device) _ :=
    inspectLoopBacking_spec found.looks.calm found.only
  have framed := inspected.frame
    (F := fun trace : BtrfsTrace => ∀ found, P found → trace.Backs found image)
    fun _ event backs found holds => (backs found holds).concat event
  apply (framed.strengthen _).weaken
  · rintro result trace ⟨⟨looks, known⟩, backs⟩
    refine ⟨looks found.looks, ?_⟩
    rintro backing rfl
    refine ⟨looks found.looks, known.2, ?_⟩
    rintro other (before | ⟨rfl, rfl⟩)
    · exact backs other before
    · exact known.1
  · rintro _ rfl
    exact ⟨rfl, found.backs⟩

theorem matchingDevices_spec (devices : List Str) : Obeys call (· = image) (Found image P)
    (matchingDevices image devices) fun result trace => trace.OnlyLooks ∧
      ∀ matched, result = .ok matched →
        Found image (fun found => P found ∨ found ∈ matched) trace := by
  induction devices generalizing P with
  | nil =>
    intro past trace found
    refine ⟨found.looks, ?_⟩
    rintro _ ⟨⟩
    exact found.congr fun _ => by simp
  | cons device devices ih =>
    apply inspectLoopBacking_found.bind
    · intro backing
      apply (ih.strengthen fun _ known => known.2 backing rfl).bind
      · rintro matched past trace ⟨looks, known⟩
        refine ⟨looks, ?_⟩
        rintro _ ⟨⟩
        apply (known matched rfl).congr
        intro found
        split <;> simp_all [or_assoc]
      · exact fun _ _ known => ⟨known.1, nofun⟩
    · exact fun _ _ known => ⟨known.1, nofun⟩

/-- What an executor knows of the device that it goes on with. -/
structure Chosen (config : PrivilegedExecutorConfig) (device : Str) (trace : BtrfsTrace) :
    Prop where
  only : trace.Only (· = config.image) (· = device)
  backs : trace.Backs device config.image

variable {config : PrivilegedExecutorConfig}

theorem Chosen.calm {trace : BtrfsTrace} (chosen : Chosen config device trace) :
    trace.Calm (· = config.image) := chosen.only.calm fun _ _ first second =>
      first.trans second.symm

theorem calm_of_none {trace : BtrfsTrace}
    (none : ∀ image device, images image → ¬trace.Backs device image) : trace.Calm images :=
  calm_of_backs none nofun

theorem attachNew_spec : Obeys call (· = config.image)
    (fun trace => trace.Only (· = config.image) fun _ => False) (attachNew config)
    fun result trace => trace.Calm (· = config.image) ∧
      ∀ device, result = .ok device → Chosen config device trace := by
  apply Program.Triple.each
  intro t₀ none
  have attached : Obeys call (· = config.image) (· = t₀) (run (.attachLoop config.image)) _ :=
    run_spec (calm_of_none none.backs) trivial
  have still (answer : Except BtrfsError Str) :
      Only (· = config.image) (fun _ => False)
        (t₀ ++ [⟨.run (.attachLoop config.image), answer⟩]) :=
    none.concat _ nofun
  apply attached.bind
  · intro output
    apply Program.Triple.ofExcept_bind
    · intro device _
      have inspected : Obeys call (· = config.image)
          (· = t₀ ++ [⟨.run (.attachLoop config.image), .ok output⟩]) (inspectLoopBacking device)
            _ :=
        inspectLoopBacking_spec (calm_of_none (still _).backs) (still _)
      apply inspected.bind
      · intro backing
        apply Program.Triple.ofExcept_bind
        · intro _ same
          rw [require_eq_ok] at same
          rintro _ trace ⟨_, backs, only⟩
          have chosen : Chosen config device trace := by
            refine ⟨only.mono ?_, same ▸ backs⟩
            rintro found (none | ⟨rfl, _⟩)
            · exact none.elim
            · rfl
          refine ⟨chosen.calm, ?_⟩
          rintro _ ⟨⟩
          exact chosen
        · rintro error trace _ ⟨_, _, only⟩
          refine ⟨only.calm ?_, nofun⟩
          rintro first second (none | ⟨rfl, _⟩) (none | ⟨rfl, _⟩)
          all_goals first | exact none.elim | rfl
      · exact fun error trace known => ⟨calm_of_none known.2, nofun⟩
    · rintro error trace _ rfl
      exact ⟨calm_of_none (still _).backs, nofun⟩
  · rintro error trace rfl
    exact ⟨calm_of_none (still _).backs, nofun⟩

theorem attachOrReuse_spec : Obeys call (· = config.image)
    (fun trace => trace.OnlyLooks ∧ trace.Only (· = config.image) fun _ => False)
    (attachOrReuse config) fun result trace => trace.Calm (· = config.image) ∧
      ∀ device, result = .ok device → Chosen config device trace := by
  apply Program.Triple.each
  rintro t₀ ⟨looks, none⟩
  have listed : Obeys call (· = config.image) (· = t₀) (run .listLoops) _ :=
    run_spec looks.calm trivial
  have start (answer : Except BtrfsError Str) :
      Found config.image (fun _ => False) (t₀ ++ [⟨.run .listLoops, answer⟩]) := by
    refine ⟨onlyLooks_concat.mpr ⟨looks, ?_⟩, none.concat _ nofun, nofun⟩
    rintro plan ⟨⟩
    exact .inl rfl
  apply listed.bind
  · intro output
    apply Program.Triple.ofExcept_bind
    · intro devices _
      apply ((matchingDevices_spec devices).strengthen fun _ same => same ▸ start _).bind
      · intro matched
        rcases matched with _ | ⟨device, _ | ⟨duplicate, rest⟩⟩
        · apply attachNew_spec.strengthen
          intro trace known
          exact (known.2 [] rfl).only.mono fun _ => by simp
        · rintro _ trace ⟨_, known⟩
          have found := known [device] rfl
          have chosen : Chosen config device trace :=
            ⟨found.only.mono fun _ => by simp, found.backs device (by simp)⟩
          refine ⟨chosen.calm, ?_⟩
          rintro _ ⟨⟩
          exact chosen
        · exact fun _ trace known => ⟨known.1.calm, nofun⟩
      · exact fun error trace known => ⟨known.1.calm, nofun⟩
    · rintro error trace _ rfl
      exact ⟨(start _).looks.calm, nofun⟩
  · rintro error trace rfl
    exact ⟨(start _).looks.calm, nofun⟩

theorem Chosen.concat_run {t : BtrfsTrace} {plan : PrivilegedPlan} (chosen : Chosen config device t)
    (other : ∀ device, plan ≠ .inspectLoopBacking device) :
    Chosen config device (t ++ [⟨.run plan, answer⟩]) := by
  refine ⟨chosen.only.concat _ ?_, chosen.backs.concat _⟩
  rintro inspected _ ⟨⟩
  exact other inspected rfl

theorem verifyLoopIdentity_spec : Obeys call (· = config.image) (Chosen config device)
    (verifyLoopIdentity config device) fun result trace => Chosen config device trace ∧
      ∀ inspected, result = .ok inspected → trace.Identified device config.marker := by
  apply Program.Triple.each
  intro t₀ chosen
  have ran : Obeys call (· = config.image) (· = t₀) (run (.inspectFilesystem device)) _ :=
    run_spec chosen.calm trivial
  apply ran.bind
  · intro output
    apply Program.Triple.ofExcept_bind
    · intro inspected read
      apply Program.Triple.ofExcept_bind
      · intro _ same
        rw [verifyInstanceIdentity, require_eq_ok] at same
        rintro _ _ rfl
        refine ⟨chosen.concat_run nofun, ?_⟩
        rintro _ ⟨⟩
        exact ⟨output, inspected, read, same.1.symm, same.2.symm, by simp⟩
      · rintro error _ _ rfl
        exact ⟨chosen.concat_run nofun, nofun⟩
    · rintro error _ _ rfl
      exact ⟨chosen.concat_run nofun, nofun⟩
  · rintro error _ rfl
    exact ⟨chosen.concat_run nofun, nofun⟩

/-- The device is chosen, and its file system is that of the instance. -/
structure Ready (config : PrivilegedExecutorConfig) (device : Str) (trace : BtrfsTrace) : Prop
    extends Chosen config device trace where
  identified : trace.Identified device config.marker

theorem Ready.verified {trace : BtrfsTrace} (ready : Ready config device trace) :
    trace.Verified config device := ⟨ready.backs, ready.identified⟩

/-- A command on the device, with what else has been recorded. -/
theorem run_ready {plan : PrivilegedPlan} (grows : ∀ trace event, F trace → F (trace ++ [event]))
    (other : ∀ device, plan ≠ .inspectLoopBacking device)
    (allowed : ∀ trace, Ready config device trace → F trace → call.Allows trace (.run plan)) :
    Obeys call (· = config.image) (fun trace => Ready config device trace ∧ F trace) (run plan)
      fun _ trace => Ready config device trace ∧ F trace := by
  apply Program.Triple.each
  rintro t₀ ⟨ready, recorded⟩
  apply (run_spec ready.calm (allowed t₀ ready recorded)).weaken
  rintro result _ rfl
  exact ⟨⟨ready.toChosen.concat_run other, ready.identified.concat _⟩, grows _ _ recorded⟩

/-- The device is found and its identity checked before anything else is done with it. -/
theorem readied_bind {α : Type} {f : Str → Privileged α}
    (grows : ∀ trace event, F trace → F (trace ++ [event]))
    (rest : ∀ device, Obeys call (· = config.image)
      (fun trace => Ready config device trace ∧ F trace) (f device)
      fun _ trace => trace.Calm (· = config.image)) :
    Obeys call (· = config.image) (fun trace => (trace.OnlyLooks ∧
        trace.Only (· = config.image) fun _ => False) ∧ F trace)
      (attachOrReuse config >>= fun device => verifyLoopIdentity config device >>= fun _ =>
        f device)
      fun _ trace => trace.Calm (· = config.image) := by
  apply (attachOrReuse_spec.frame grows).bind _ fun _ _ known => known.1.1
  intro device
  have verified : Obeys call (· = config.image) _ (verifyLoopIdentity config device) _ :=
    verifyLoopIdentity_spec
  apply ((verified.frame grows).strengthen fun _ known => ⟨known.1.2 device rfl, known.2⟩).bind _
    fun _ _ known => known.1.1.calm
  intro inspected
  exact (rest device).strengthen fun _ known => ⟨⟨known.1.1, known.1.2 inspected rfl⟩, known.2⟩

theorem mount_spec (here : call.config = some config) : Obeys call (· = config.image)
    (fun trace => trace.OnlyLooks ∧ trace.Only (· = config.image) fun _ => False)
    (mount config) fun _ trace => trace.Calm (· = config.image) := by
  apply (readied_bind (F := fun _ => True) (fun _ _ _ => trivial) _).strengthen
    fun _ known => ⟨known, trivial⟩
  intro device
  have mounted : Obeys call (· = config.image) (fun trace => Ready config device trace ∧ True)
      (run (.mount device config.mountRoot)) _ :=
    run_ready (fun _ _ _ => trivial) nofun fun _ ready _ => ⟨config, here, ready.verified⟩
  exact mounted.bind (fun _ _ _ known => known.1.calm) fun _ _ known => known.1.calm

/-- The length was read first, and is below the size. -/
def Measured (config : PrivilegedExecutorConfig) (size : UInt64) (trace : BtrfsTrace) : Prop :=
  ∃ current, trace.head? = some ⟨.imageLength config.image, .ok current⟩ ∧ current < size

theorem Measured.concat {trace : BtrfsTrace} (measured : Measured config size trace)
    (event : Event BtrfsEffect.Answer) : Measured config size (trace ++ [event]) := by
  obtain ⟨current, first, below⟩ := measured
  refine ⟨current, ?_, below⟩
  rw [List.head?_append, first]
  rfl

theorem growReady_spec (here : call.config = some config) (device : Str) :
    Obeys call (· = config.image)
      (fun trace => Ready config device trace ∧ Measured config size trace)
      (do
        let _ ← run (.growImage config.image size)
        let _ ← run (.refreshLoopCapacity device)
        let _ ← run (.resizeFilesystem config.mountRoot)
        pure ())
      fun _ trace => trace.Calm (· = config.image) := by
  have command (plan : PrivilegedPlan) (other : ∀ device, plan ≠ .inspectLoopBacking device)
      (allowed : ∀ trace, Ready config device trace → Measured config size trace →
        call.Allows trace (.run plan)) :
      Obeys call (· = config.image)
        (fun trace => Ready config device trace ∧ Measured config size trace) (run plan)
        fun _ trace => Ready config device trace ∧ Measured config size trace :=
    run_ready (fun _ event measured => measured.concat event) other allowed
  have grown := command (.growImage config.image size) nofun fun _ ready measured =>
    ⟨config, here, rfl, ⟨device, ready.verified⟩, measured⟩
  have refreshed := command (.refreshLoopCapacity device) nofun fun _ ready _ =>
    ⟨config, here, ready.verified⟩
  have resized := command (.resizeFilesystem config.mountRoot) nofun fun _ ready _ =>
    ⟨config, device, here, ready.verified⟩
  apply grown.bind _ fun _ _ known => known.1.calm
  intro _
  apply refreshed.bind _ fun _ _ known => known.1.calm
  intro _
  exact resized.bind (fun _ _ _ known => known.1.calm) fun _ _ known => known.1.calm

theorem grow_spec (here : call.config = some config) : Obeys call (· = config.image)
    (· = []) (grow config size) fun _ trace => trace.Calm (· = config.image) := by
  have unbacked {answer : Except BtrfsError UInt64} : Only (· = config.image) (fun _ => False)
      [⟨.imageLength config.image, answer⟩] :=
    only_nil.concat ⟨.imageLength config.image, answer⟩ nofun
  have empty : Calm (· = config.image) [] := OnlyLooks.calm nofun
  apply Program.Triple.ofExcept_bind
  · intro _ _
    apply Program.Triple.send fun answer trace => trace = [⟨.imageLength config.image, answer⟩]
    · rintro _ _ rfl
      exact ⟨empty, rfl⟩
    · rintro _ answer _ rfl rfl
      rfl
    intro answer
    apply Program.Triple.ofExcept_bind
    · rintro current rfl
      apply Program.Triple.ofExcept_bind
      · intro _ below
        rw [require_eq_ok] at below
        apply (readied_bind (F := Measured config size)
          (fun _ _ known => known.concat _) _).strengthen
        · rintro _ rfl
          refine ⟨⟨?_, unbacked⟩, current, rfl, below⟩
          rintro event mem plan same
          cases mem_singleton.mp mem
          cases same
        · exact growReady_spec here
      · rintro _ _ _ rfl
        exact calm_of_none unbacked.backs
    · rintro _ _ _ rfl
      exact calm_of_none unbacked.backs
  · rintro _ _ _ rfl
    exact empty

section Initialization
variable {path : FilePath} (single : ∀ device other, P device → P other → device = other)

include single in
theorem checkedNewFilePath_spec : Obeys call images (Only images P) (checkedNewFilePath path)
    fun _ trace => trace.Only images P := by
  have resolved : Obeys call images (Only images P) (canonicalize path.parent)
      fun _ trace => trace.Only images P := by
    apply Program.Triple.each
    intro t₀ only
    apply (canonicalize_spec (only.calm single)).weaken
    rintro _ _ rfl
    exact only.concat _ nofun
  apply resolved.bind _ fun _ _ only => only
  intro parent
  apply Program.Triple.send fun _ => Only images P
  · exact fun _ _ only => ⟨only.calm single, trivial⟩
  · rintro _ answer _ only rfl
    exact only.concat _ nofun
  intro directory
  apply Program.Triple.ofExcept_bind _ fun _ _ _ only => only
  intro _ _
  apply Program.Triple.send fun _ => Only images P
  · exact fun _ _ only => ⟨only.calm single, trivial⟩
  · rintro _ answer _ only rfl
    exact only.concat _ nofun
  intro found
  exact Program.Triple.ofExcept_bind (fun _ _ _ _ only => only) fun _ _ _ only => only

theorem initializeLoopbackImage_spec {size : UInt64} {allocation : ImageAllocation} :
    Obeys call images (Only images fun _ => False) (initializeLoopbackImage path size allocation)
      fun result trace => (trace.Only images fun _ => False) ∧ ∀ image, result = .ok image →
        ⟨.createNewImage image size allocation, .ok ()⟩ ∈ trace := by
  apply Program.Triple.ofExcept_bind _ fun _ _ _ only => ⟨only, nofun⟩
  intro _ _
  have checked : Obeys call images (Only images fun _ => False) (checkedNewFilePath path) _ :=
    checkedNewFilePath_spec nofun
  apply checked.bind _ fun _ _ only => ⟨only, nofun⟩
  intro image
  apply Program.Triple.ask
  · exact fun _ _ only => ⟨calm_of_none only.backs, trivial⟩
  · rintro _ answer _ only rfl
    refine ⟨only.concat _ nofun, ?_⟩
    intro created made
    cases answer with
    | error error => cases made
    | ok _ =>
      cases made
      simp

include single in
theorem writeInstanceMarker_spec {marker : InstanceMarker} : Obeys call images
    (fun trace => trace.Only images P ∧ trace.Formatted marker) (writeInstanceMarker path marker)
    fun _ trace => trace.Calm images := by
  apply Program.Triple.ofExcept_bind _ fun _ _ _ known => known.1.calm single
  intro _ _
  have checked : Obeys call images (Only images P) (checkedNewFilePath path) _ :=
    checkedNewFilePath_spec single
  apply (checked.frame fun _ event formatted => formatted.concat event).bind _
    fun _ _ known => known.1.calm single
  intro created
  apply Program.Triple.ask
  · exact fun _ _ known => ⟨known.1.calm single, known.2⟩
  · rintro _ answer _ known rfl
    exact Only.calm (known.1.concat ⟨.createNewMarker created marker, answer⟩ nofun) single

variable {initialization : LoopbackInitializationConfig}

/-- From the format on: the device is the attached one and backs the new image. -/
theorem formatNew_spec (image device : Str) :
    Obeys call images (fun trace => trace.Only images (· = device) ∧
        trace.AttachedNew device image ∧ trace.Backs device image)
      (do
        let _ ← run (.formatBtrfs device initialization.label)
        let output ← run (.inspectFilesystem device)
        let inspected ← Program.ofExcept (parseBlkidExportIdentity output)
        Program.ofExcept (Except.require (inspected.label = initialization.label) .identityMismatch)
        let marker : InstanceMarker :=
          ⟨initialization.instanceUuid, inspected.filesystemUuid, inspected.label⟩
        writeInstanceMarker initialization.markerPath marker
        pure (⟨image, initialization.markerPath, marker, device⟩ : InitializedLoopback))
      fun _ trace => trace.Calm images := by
  have single (first second : Str) (one : first = device) (two : second = device) :
      first = second := one.trans two.symm
  apply Program.Triple.each
  rintro t₀ ⟨only, attached, backs⟩
  have formatted : Obeys call images (· = t₀) (run (.formatBtrfs device initialization.label)) _ :=
    run_spec (only.calm single) ⟨image, attached, backs⟩
  have only₁ (answer : Except BtrfsError Str) := only.concat
    ⟨.run (.formatBtrfs device initialization.label), answer⟩ nofun
  apply formatted.bind _ fun error _ same => same ▸ (only₁ (.error error)).calm single
  intro done
  have inspected : Obeys call images (· = _) (run (.inspectFilesystem device)) _ :=
    run_spec ((only₁ (.ok done)).calm single) trivial
  have only₂ (answer : Except BtrfsError Str) := (only₁ (.ok done)).concat
    ⟨.run (.inspectFilesystem device), answer⟩ nofun
  apply inspected.bind _ fun error _ same => same ▸ (only₂ (.error error)).calm single
  intro output
  apply Program.Triple.ofExcept_bind _ fun _ _ _ same => same ▸ (only₂ (.ok output)).calm single
  intro identity read
  apply Program.Triple.ofExcept_bind _ fun _ _ _ same => same ▸ (only₂ (.ok output)).calm single
  intro _ _
  have written : Obeys call images _ (writeInstanceMarker initialization.markerPath
      ⟨initialization.instanceUuid, identity.filesystemUuid, identity.label⟩) _ :=
    writeInstanceMarker_spec single
  apply (written.strengthen _).bind
  · exact fun _ _ _ calm => calm
  · exact fun _ _ calm => calm
  · rintro _ rfl
    refine ⟨only₂ _, device, initialization.label, done, output, identity, read, rfl, rfl, ?_⟩
    exact pair_sublist (by simp) _

theorem initializeNewLoopback_spec :
    Obeys call images (· = []) (initializeNewLoopback initialization)
      fun _ trace => trace.Calm images := by
  have made : Obeys call images (· = []) (initializeLoopbackImage initialization.image
      initialization.size initialization.allocation) _ :=
    initializeLoopbackImage_spec.strengthen fun _ empty => empty ▸ only_nil
  apply made.bind _ fun _ _ known => calm_of_none known.1.backs
  intro image
  apply Program.Triple.each
  rintro t₀ ⟨none, created⟩
  have attached : Obeys call images (· = t₀) (run (.attachLoop image)) _ :=
    run_spec (calm_of_none none.backs) trivial
  have still (answer : Except BtrfsError Str) :=
    none.concat ⟨.run (.attachLoop image), answer⟩ nofun
  apply attached.bind _ fun error _ same => same ▸ calm_of_none (still (.error error)).backs
  intro output
  apply Program.Triple.ofExcept_bind _ fun _ _ _ same =>
    same ▸ calm_of_none (still (.ok output)).backs
  intro device read
  have inspected : Obeys call images (· = _) (inspectLoopBacking device) _ :=
    inspectLoopBacking_spec (calm_of_none (still (.ok output)).backs) (still (.ok output))
  have recorded : AttachedNew (t₀ ++ [⟨.run (.attachLoop image), .ok output⟩]) device image :=
    ⟨initialization.size, initialization.allocation, output, read,
      pair_sublist (created image rfl) _⟩
  have framed := inspected.frame (F := fun trace : BtrfsTrace => trace.AttachedNew device image)
    fun _ event attached => attached.concat event
  apply (framed.strengthen fun _ same => ⟨same, same ▸ recorded⟩).bind _
    fun _ _ known => calm_of_none known.1.2
  intro backing
  have only {trace : BtrfsTrace}
      (known : trace.Only images fun found => False ∨ found = device ∧ images backing) :
      trace.Only images (· = device) := known.mono fun _ => by simp +contextual
  apply Program.Triple.ofExcept_bind
  · intro _ same
    rw [require_eq_ok] at same
    apply (formatNew_spec image device).strengthen
    rintro trace ⟨⟨_, backs, known⟩, attached⟩
    exact ⟨only known, attached, same ▸ backs⟩
  · rintro _ trace _ ⟨⟨_, _, known⟩, _⟩
    exact (only known).calm fun _ _ one two => one.trans two.symm
end Initialization
end PrivilegedExecutor

/-- The images that a call may work on, before it has begun. -/
def PrivilegedCall.MayTarget (call : PrivilegedCall) (image : Str) : Prop :=
  match call.config with
  | some config => image = config.image
  | none => True

theorem PrivilegedCall.Targets.may {trace : BtrfsTrace} (targets : call.Targets trace image) :
    call.MayTarget image := by
  cases call with
  | initializeNewLoopback initialization => trivial
  | attachOrReuse config => exact targets
  | mount config => exact targets
  | grow config size => exact targets

theorem code_spec (call : PrivilegedCall) : Obeys call call.MayTarget (· = []) call.code
    fun _ trace => trace.Calm call.MayTarget := by
  have start {images P : Str → Prop} {trace : BtrfsTrace} (empty : trace = []) :
      trace.OnlyLooks ∧ trace.Only images P := by
    subst empty
    exact ⟨nofun, only_nil⟩
  cases call with
  | initializeNewLoopback initialization =>
    apply initializeNewLoopback_spec.bind
    · exact fun _ _ _ calm => calm
    · exact fun _ _ calm => calm
  | attachOrReuse config =>
    apply (attachOrReuse_spec.strengthen fun _ empty => start empty).bind
    · exact fun _ _ _ known => known.1
    · exact fun _ _ known => known.1
  | mount config =>
    apply ((mount_spec rfl).strengthen fun _ empty => start empty).bind
    · exact fun _ _ _ calm => calm
    · exact fun _ _ calm => calm
  | grow config size => exact grow_spec rfl

/-- Whatever the runner and the file system answer, and wherever a call is cut off: every command
has been earned by what the same call saw before it, and when several devices match the image
nothing but listing and inspection is done. -/
theorem privilegedCommands_verified {trace : BtrfsTrace} (run : Traces call.code trace) :
    (∀ front event, front ++ [event] <+: trace → call.Allows front event.effect) ∧
      ∀ image, call.Targets trace image → trace.Several image → trace.OnlyLooks := by
  have spec := code_spec call [] [] rfl
  refine ⟨fun front event cut => (run.wp_front spec front event cut).2, ?_⟩
  intro image targets
  have calm := run.wp_end spec (fun _ _ known => known.1) fun _ _ known => known
  exact calm image (PrivilegedCall.Targets.may targets)

def forestConfig : PrivilegedExecutorConfig where
  image := ascii "/srv/forest.img"
  mountRoot := ascii "/srv/forest"
  marker := ⟨.replicate 16 1, .replicate 16 0x11, ascii "forest"⟩

/-- A machine with one loop device, attached to the image of the instance. -/
def forestAnswers : (effect : BtrfsEffect) → effect.Answer
  | .run .listLoops => .ok (ascii "/dev/loop0: []: (/srv/forest.img)\n")
  | .run (.inspectLoopBacking _) => .ok (ascii "/srv/forest.img\n")
  | .run (.inspectFilesystem _) =>
    .ok (ascii "LABEL=forest\nUUID=11111111-1111-1111-1111-111111111111\nTYPE=btrfs\n")
  | .run _ => .ok []
  | .canonicalize path => .ok path
  | .isDirectory _ => true
  | .exists _ => false
  | .createNewImage _ _ _ => .ok ()
  | .imageLength _ => .ok 4096
  | .createNewMarker _ _ => .ok ()

def forestMount : BtrfsTrace := (PrivilegedCall.mount forestConfig).code.replay forestAnswers

theorem forestMount_verified : ∃ (front : BtrfsTrace) (event : Event BtrfsEffect.Answer),
    front ++ [event] <+: forestMount ∧
      event.effect = .run (.mount (ascii "/dev/loop0") (ascii "/srv/forest")) ∧
        front.Verified forestConfig (ascii "/dev/loop0") := by
  have mounts : forestMount.getLast?.map Event.effect =
      some (.run (.mount (ascii "/dev/loop0") (ascii "/srv/forest"))) := by decide +kernel
  obtain ⟨event, last, mounts⟩ := Option.map_eq_some_iff.mp mounts
  have cut : forestMount.dropLast ++ [event] <+: forestMount := by
    rw [dropLast_append_getLast? event last]
  have allowed := (privilegedCommands_verified (Traces.replay forestAnswers _)).1 _ _ cut
  rw [mounts] at allowed
  obtain ⟨_, ⟨⟩, verified⟩ := allowed
  exact ⟨_, _, cut, mounts, verified⟩
end Specs
end ReflinkForest
