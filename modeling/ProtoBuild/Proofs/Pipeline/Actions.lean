import ProtoBuild.Proofs.Coordinates.Collisions
import ProtoBuild.Proofs.Pipeline.Judgement
import ProtoBuild.Proofs.Pipeline.Phasewise

/-!
# What publish actions leave

A publish phase runs its actions one after another.  An `Action` is a label with the unit to which
it belongs and the answer of the build tool.  `Progress.PublishedBy` says what some actions leave:
each unit has become published if it was built and one of its actions has succeeded, it has the
packages that its actions have left, and what has no action stays as it is.

The actions of two runs in a row leave what the actions of both leave (`PublishedBy.trans`), so it
is enough to look at one action (`ensures_publishOne_published`).

## Why packages are not lost

An action that succeeds puts its package in the place of another one for the same language.  For
one unit there is only one such package (`Artifact.eq_of_ofLabel?`), so nothing is replaced by
anything else (`get?_record`).
-/

namespace ProtoBuild

open Pipeline

/-! ## Actions -/

/-- A publish action of a unit, with the answer of the build tool. -/
structure Action where
  label : String
  unit : String
  answer : Except ToolError ToolOutput

namespace Action

/-- Whether an action of some unit has succeeded. -/
def publishes (a : Action) (unit : String) : Bool := a.unit == unit && a.answer.isOk

/-- The call that an action is, with its answer. -/
def call (lake : Workspace) (a : Action) : Answered := ⟨.run lake.root a.label [], a.answer⟩

/-- The package that an action leaves for a unit. -/
def package? (lake : Workspace) (unit version : String) (a : Action) : Option Artifact :=
  if a.publishes unit then Artifact.ofLabel? lake unit a.label version else none

end Action

/-! ## Packages of a unit -/

/-- For one unit and one language there is one package. -/
theorem Artifact.eq_of_ofLabel? {lake : Workspace} {unit label label' version : String}
    {a b : Artifact} (ha : ofLabel? lake unit label version = some a)
    (hb : ofLabel? lake unit label' version = some b) (h : a.language = b.language) : a = b := by
  rw [eq_sibling_of_ofLabel? ha, eq_sibling_of_ofLabel? hb, sibling_congr h]

/-- A map of packages with some more of them. -/
def Artifact.record (m : StringMap Artifact) (packages : List Artifact) : StringMap Artifact :=
  packages.foldl (fun m a => m.insert a.language a) m

/-- If there is only one package for each language, those that are recorded are all there, and
nothing else is new. -/
theorem Artifact.get?_record {packages : List Artifact} (m : StringMap Artifact)
    (h : ∀ a ∈ packages, ∀ b ∈ packages, a.language = b.language → a = b) (language : String)
    (a : Artifact) :
    (record m packages).get? language = some a ↔
      a ∈ packages ∧ a.language = language ∨
        (∀ b ∈ packages, b.language ≠ language) ∧ m.get? language = some a := by
  induction packages generalizing m with
  | nil => simp [record]
  | cons b rest ih =>
    have hrest := ih (m.insert b.language b) fun c hc d hd =>
      h c (List.mem_cons_of_mem b hc) d (List.mem_cons_of_mem b hd)
    rw [show record m (b :: rest) = record (m.insert b.language b) rest from rfl, hrest,
      StringMap.get?_insert]
    by_cases hlanguage : language = b.language
    · subst hlanguage
      by_cases hrest : ∀ c ∈ rest, c.language ≠ b.language
      · have hnot : ¬ (a ∈ rest ∧ a.language = b.language) := fun hmem => hrest a hmem.1 hmem.2
        grind
      · grind
    · grind

/-! ## Units after some actions -/

/-- What some actions make of the record of a unit. -/
structure UnitRecord.PublishedBy (lake : Workspace) (unit : String) (actions : List Action)
    (u u' : UnitRecord) : Prop where
  version_eq : u'.version = u.version
  status_eq : u'.status =
    if u.status = .built ∧ actions.any (·.publishes unit) then .published else u.status
  artifacts_eq : u'.artifacts =
    Artifact.record u.artifacts (actions.filterMap (·.package? lake unit u.version))
  untouched : (∀ a ∈ actions, a.unit ≠ unit) → u' = u

namespace UnitRecord

variable {lake : Workspace} {unit : String} {actions more : List Action} {u u' u'' : UnitRecord}
  {a : Action}

theorem PublishedBy.refl (u : UnitRecord) : u.PublishedBy lake unit [] u where
  version_eq := rfl
  status_eq := by simp
  artifacts_eq := rfl
  untouched _ := rfl

/-- What actions make of a record and then others do, all of them make of it. -/
theorem PublishedBy.trans (h : u.PublishedBy lake unit actions u')
    (h' : u'.PublishedBy lake unit more u'') : u.PublishedBy lake unit (actions ++ more) u'' where
  version_eq := h'.version_eq.trans h.version_eq
  status_eq := by
    rw [h'.status_eq, h.status_eq, List.any_append]
    by_cases hbuilt : u.status = .built
    · cases hactions : actions.any (·.publishes unit) <;> simp [hbuilt]
    · simp [hbuilt]
  artifacts_eq := by
    rw [h'.artifacts_eq, h.artifacts_eq, h.version_eq, Artifact.record, Artifact.record,
      Artifact.record, List.filterMap_append, List.foldl_append]
  untouched hunit := by
    have hactions : ∀ a ∈ actions, a.unit ≠ unit := fun a ha =>
      hunit a (List.mem_append_left more ha)
    have hmore : ∀ a ∈ more, a.unit ≠ unit := fun a ha => hunit a (List.mem_append_right actions ha)
    rw [h'.untouched hmore, h.untouched hactions]

/-- A unit that an action does not belong to stays as it is. -/
theorem PublishedBy.of_ne (h : a.unit ≠ unit) (u : UnitRecord) :
    u.PublishedBy lake unit [a] u where
  version_eq := rfl
  status_eq := by simp [Action.publishes, h]
  artifacts_eq := by simp [Action.package?, Action.publishes, h, Artifact.record]
  untouched _ := rfl

theorem version_move (u : UnitRecord) (next : UnitStatus) (now : UInt64) :
    (u.move next now).1.version = u.version := by
  unfold move
  split <;> rfl

theorem artifacts_move (u : UnitRecord) (next : UnitStatus) (now : UInt64) :
    (u.move next now).1.artifacts = u.artifacts := by
  unfold move
  split <;> rfl

theorem version_published (lake : Workspace) (unit label : String) (now : UInt64)
    (u : UnitRecord) : (publishedUnit lake unit label now u).version = u.version := by
  unfold publishedUnit
  extract_lets v
  have hv : v.version = u.version := by
    unfold v
    split <;> rfl
  split
  · rw [version_move, hv]
  · exact hv

theorem artifacts_published (lake : Workspace) (unit label : String) (now : UInt64)
    (u : UnitRecord) :
    (publishedUnit lake unit label now u).artifacts =
      Artifact.record u.artifacts (Artifact.ofLabel? lake unit label u.version).toList := by
  unfold publishedUnit
  extract_lets v
  have hv : v.artifacts =
      Artifact.record u.artifacts (Artifact.ofLabel? lake unit label u.version).toList := by
    unfold v
    cases Artifact.ofLabel? lake unit label u.version <;> rfl
  split
  · rw [artifacts_move, hv]
  · exact hv

/-- An action has succeeded. -/
theorem PublishedBy.succeeded (h : a.answer.isOk = true) (time : UInt64) (u : UnitRecord) :
    u.PublishedBy lake a.unit [a] (publishedUnit lake a.unit a.label time u) where
  version_eq := version_published ..
  status_eq := by
    rw [status_published]
    simp [Action.publishes, h]
  artifacts_eq := by
    have hpackage : a.package? lake a.unit u.version =
        Artifact.ofLabel? lake a.unit a.label u.version := by
      simp [Action.package?, Action.publishes, h]
    rw [artifacts_published, List.filterMap_cons, hpackage]
    cases Artifact.ofLabel? lake a.unit a.label u.version <;> rfl
  untouched hunit := absurd rfl (hunit a (List.mem_singleton_self a))

/-- An action has failed. -/
theorem PublishedBy.failed (h : a.answer.isOk = false) (text : String) (u : UnitRecord) :
    u.PublishedBy lake a.unit [a] (u.addLog text) where
  version_eq := rfl
  status_eq := by simp [Action.publishes, h, addLog]
  artifacts_eq := by simp [Action.package?, Action.publishes, h, Artifact.record, addLog]
  untouched hunit := absurd rfl (hunit a (List.mem_singleton_self a))

theorem mem_packages_iff {version : String} {package : Artifact} :
    package ∈ actions.filterMap (·.package? lake unit version) ↔
      ∃ a ∈ actions, a.publishes unit = true ∧
        Artifact.ofLabel? lake unit a.label version = some package := by
  simp only [List.mem_filterMap, Action.package?, Option.ite_none_right_eq_some]

/-- A unit finally holds for a language what one of its actions has left, or, if none has left a
package for this language, what it has held before. -/
theorem PublishedBy.get?_artifacts (h : u.PublishedBy lake unit actions u') {language : String}
    {package : Artifact} :
    u'.artifacts.get? language = some package ↔
      (∃ a ∈ actions, a.publishes unit = true ∧
          Artifact.ofLabel? lake unit a.label u.version = some package) ∧
          package.language = language ∨
        (∀ a ∈ actions, a.publishes unit = true → ∀ other,
            Artifact.ofLabel? lake unit a.label u.version = some other →
            other.language ≠ language) ∧ u.artifacts.get? language = some package := by
  have hunique : ∀ x ∈ actions.filterMap (·.package? lake unit u.version),
      ∀ y ∈ actions.filterMap (·.package? lake unit u.version),
        x.language = y.language → x = y := by
    intro x hx y hy hlanguage
    obtain ⟨a, -, -, ha⟩ := mem_packages_iff.mp hx
    obtain ⟨b, -, -, hb⟩ := mem_packages_iff.mp hy
    exact Artifact.eq_of_ofLabel? ha hb hlanguage
  rw [h.artifacts_eq, Artifact.get?_record _ hunique, mem_packages_iff]
  refine or_congr_right (and_congr_left fun _ => ⟨fun hnone a ha hpublishes other hother => ?_,
    fun hnone other hother => ?_⟩)
  · exact hnone other (mem_packages_iff.mpr ⟨a, ha, hpublishes, hother⟩)
  · obtain ⟨a, ha, hpublishes, hlabel⟩ := mem_packages_iff.mp hother
    exact hnone a ha hpublishes other hlabel

end UnitRecord

/-! ## Progress after some actions -/

/-- What some actions make of a progress: only notes are written into the record of the phase. -/
structure Progress.PublishedBy (lake : Workspace) (actions : List Action) (p p' : Progress) :
    Prop where
  noted : (p.phases.get .publish).Noted (p'.phases.get .publish)
  units : ∀ unit, Option.Rel (UnitRecord.PublishedBy lake unit actions) (p.units.get? unit)
    (p'.units.get? unit)

namespace Progress

variable {lake : Workspace} {actions more : List Action} {p p' p'' : Progress} {a : Action}
  {f : PhaseRecord → PhaseRecord}

theorem PublishedBy.refl (p : Progress) : p.PublishedBy lake [] p where
  noted := .refl _
  units unit := by
    cases p.units.get? unit with
    | none => exact .none
    | some u => exact .some (.refl u)

theorem PublishedBy.trans (h : p.PublishedBy lake actions p')
    (h' : p'.PublishedBy lake more p'') : p.PublishedBy lake (actions ++ more) p'' where
  noted := h.noted.trans h'.noted
  units unit := by
    have hfirst := h.units unit
    have hsecond := h'.units unit
    generalize p.units.get? unit = v, p'.units.get? unit = v', p''.units.get? unit = v'' at *
    cases hfirst with
    | none =>
      cases hsecond
      exact .none
    | some hu =>
      cases hsecond with
      | some hu' => exact .some (hu.trans hu')

/-- Notes are written into the record of the phase. -/
theorem PublishedBy.note (h : p.PublishedBy lake actions p')
    (hf : ∀ r : PhaseRecord, r.Noted (f r)) :
    p.PublishedBy lake actions (p'.modifyPhase .publish f) where
  noted := by
    rw [get_modifyPhase_self]
    exact h.noted.trans (hf _)
  units := h.units

/-- The record of a unit is changed as its action has it. -/
theorem publishedBy_modifyUnit {g : UnitRecord → UnitRecord}
    (hg : ∀ u : UnitRecord, u.PublishedBy lake a.unit [a] (g u)) :
    p.PublishedBy lake [a] (p.modifyUnit a.unit g) where
  noted := .refl _
  units unit := by
    rw [modifyUnit, StringMap.get?_update]
    cases p.units.get? unit with
    | none => exact .none
    | some u =>
      refine .some ?_
      show u.PublishedBy lake unit [a] (if unit = a.unit then g u else u)
      split
      · rename_i hunit
        subst hunit
        exact hg u
      · rename_i hunit
        exact .of_ne (Ne.symm hunit) u

end Progress

/-! ## A publish phase -/

namespace Pipeline

open Work

variable {run : Run} {p : Progress}

/-- One action is run, and what is recorded is what it leaves. -/
theorem ensures_publishOne_published (lake : Workspace) (label unit : String) :
    Ensures (publishOne lake label unit)
      (fun ok run' p' => ∃ a : Action, a.label = label ∧ a.unit = unit ∧
        calls run' = calls run ++ [a.call lake] ∧ ok = a.answer.isOk ∧ p.PublishedBy lake [a] p')
      (fun _ _ _ => False) run p := by
  simp only [publishOne, ensures_bind, ensures_modifyPhase]
  refine (ensures_call _).mpr fun answer => ?_
  have hnamed : (p.PublishedBy lake [] (p.modifyPhase .publish
      (·.setSubPhase ("Publishing " ++ label)))) :=
    (Progress.PublishedBy.refl p).note fun r => r.noted_setSubPhase _
  cases answer with
  | ok output =>
    simp only [ensures_bind, ensures_now, ensures_modifyUnit, ensures_modifyPhase, ensures_push,
      ensures_pure]
    intro time
    refine ⟨⟨label, unit, .ok output⟩, rfl, rfl, by simp [Action.call], rfl, ?_⟩
    have hpublished := hnamed.trans (Progress.publishedBy_modifyUnit
      (a := ⟨label, unit, .ok output⟩) fun u => .succeeded rfl time u)
    exact hpublished.note fun r => r.noted_addLog _
  | error e =>
    simp only [ensures_bind, ensures_modifyUnit, ensures_modifyPhase, ensures_push, ensures_pure]
    refine ⟨⟨label, unit, .error e⟩, rfl, rfl, by simp [Action.call], rfl, ?_⟩
    have hlogged := hnamed.note fun r =>
      r.noted_addLog ("Failed to publish " ++ label ++ ": " ++ e.message)
    exact hlogged.trans (Progress.publishedBy_modifyUnit
      (a := ⟨label, unit, .error e⟩) fun u => .failed rfl _ u)

/-- The actions of a plan are run in its order, whatever becomes of them. -/
theorem ensures_publishAll_published (lake : Workspace) (plan : List (String × String)) :
    Ensures (publishAll lake plan)
      (fun published run' p' => ∃ actions : List Action,
        actions.map (fun a => (a.label, a.unit)) = plan ∧
          calls run' = calls run ++ actions.map (Action.call lake) ∧
            published = actions.countP (·.answer.isOk) ∧ p.PublishedBy lake actions p')
      (fun _ _ _ => False) run p := by
  induction plan generalizing run p with
  | nil => exact ⟨[], rfl, by simp, rfl, .refl p⟩
  | cons step rest ih =>
    obtain ⟨label, unit⟩ := step
    simp only [publishAll]
    refine (ensures_publishOne_published lake label unit).bind fun ok run' p' hone => ?_
    obtain ⟨a, rfl, rfl, hcall, rfl, hfirst⟩ := hone
    refine ih.bind fun published run'' p'' hall => ?_
    obtain ⟨actions, rfl, hcalls, rfl, hrest⟩ := hall
    refine ⟨a :: actions, rfl, ?_, ?_, hfirst.trans hrest⟩
    · rw [hcalls, hcall]
      simp
    · rw [List.countP_cons]
      cases a.answer.isOk <;> rfl

end Pipeline
end ProtoBuild
