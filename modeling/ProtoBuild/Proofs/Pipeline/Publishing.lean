import ProtoBuild.Proofs.Coordinates.Ownership
import ProtoBuild.Proofs.Pipeline.Actions

/-!
# What a publish phase runs and records

A publish phase asks for the labels below its target, keeps those that lie in a unit that was
built (`map_fst_publishPlan`), and runs them in the order in which they were listed, whatever
becomes of the ones before.  What its actions have left is then in the records of the units, and
its own record says how it has ended (`Progress.HasRun`).

If every unit is kept under its own directory (`Progress.Keyed`), the owner of a label is one
unit, and `published_of_keyed` says of each unit what has become of it.

## Units that were not built

The units that were not built are left out before the owner of a label is looked for.  So an action
in the directory of a unit that has failed is run all the same if this directory lies within that of
a unit that was built, and what it publishes counts as published by the latter
(`ran_below_failed`).  `ran_of_built` says what does hold: a label is run only in the directory of
a unit that was built, and this unit is the deepest of all units around the label unless one that
was not built lies deeper (`Progress.Unshadowed`).
-/

namespace ProtoBuild

open Pipeline

variable {p p' : Progress} {unit label : String}

/-! ## The units that were built -/

namespace Progress

/-- The directories of the units that were built. -/
def builtTargets (p : Progress) : List String :=
  (p.units.values.filter fun u => u.status == .built).map UnitRecord.target

/-- Every unit is kept under its own directory. -/
def Keyed (p : Progress) : Prop := ∀ key u, p.units.get? key = some u → u.target = key

theorem mem_builtTargets_iff :
    unit ∈ p.builtTargets ↔
      ∃ key u, p.units.get? key = some u ∧ u.status = .built ∧ u.target = unit := by
  simp only [builtTargets, List.mem_map, List.mem_filter, StringMap.mem_values_iff,
    beq_iff_eq]
  constructor
  · rintro ⟨u, ⟨⟨key, hkey⟩, hbuilt⟩, htarget⟩
    exact ⟨key, u, hkey, hbuilt, htarget⟩
  · rintro ⟨key, u, hkey, hbuilt, htarget⟩
    exact ⟨u, ⟨⟨key, hkey⟩, hbuilt⟩, htarget⟩

theorem keyed_iff : p.Keyed ↔ ∀ e ∈ p.units.entries, e.2.target = e.1 :=
  ⟨fun h e he => h e.1 e.2 ((p.units.mem_entries_iff ..).mp he),
    fun h key u hu => h (key, u) ((p.units.mem_entries_iff ..).mpr hu)⟩

theorem Keyed.mem_builtTargets_iff (h : p.Keyed) :
    unit ∈ p.builtTargets ↔ ∃ u, p.units.get? unit = some u ∧ u.status = .built := by
  rw [Progress.mem_builtTargets_iff]
  constructor
  · rintro ⟨key, u, hu, hbuilt, rfl⟩
    rw [h key u hu]
    exact ⟨u, hu, hbuilt⟩
  · rintro ⟨u, hu, hbuilt⟩
    exact ⟨unit, u, hu, hbuilt, h unit u hu⟩

/-- The units that were built are listed in order. -/
theorem Keyed.pairwise_builtTargets (h : p.Keyed) : p.builtTargets.Pairwise (· < ·) := by
  rw [builtTargets, List.pairwise_map]
  refine List.Pairwise.filter _ (List.pairwise_map.mpr (p.units.sorted.imp_of_mem ?_))
  intro x y hx hy hlt
  rw [keyed_iff.mp h x hx, keyed_iff.mp h y hy]
  exact hlt

end Progress

/-! ## Plans -/

namespace Pipeline

variable {built labels : List String}

/-- The labels that lie in one of some units are planned, in their order. -/
theorem map_fst_publishPlan (built labels : List String) :
    (publishPlan built labels).map Prod.fst =
      labels.filter fun label => built.any (Label.ofString label).isIn := by
  induction labels with
  | nil => rfl
  | cons label rest ih =>
    rw [publishPlan, List.filterMap_cons, List.filter_cons, ← publishPlan]
    cases howner : owner? built label with
    | none =>
      have hout : ¬ built.any (Label.ofString label).isIn = true := by
        rw [List.any_eq_true]
        rintro ⟨unit, hmem, hisIn⟩
        rw [owner?_eq_none_iff.mp howner unit hmem] at hisIn
        exact nomatch hisIn
      rw [if_neg hout]
      exact ih
    | some unit =>
      have hin : built.any (Label.ofString label).isIn = true :=
        List.any_eq_true.mpr ⟨unit, mem_and_isIn_of_owner? howner⟩
      rw [if_pos hin]
      exact congrArg (label :: ·) ih

/-- Each label is planned for its owner. -/
theorem owner?_of_mem_publishPlan (h : (label, unit) ∈ publishPlan built labels) :
    owner? built label = some unit := by
  obtain ⟨label', -, hplan⟩ := List.mem_filterMap.mp h
  obtain ⟨unit', howner, heq⟩ := Option.map_eq_some_iff.mp hplan
  obtain ⟨rfl, rfl⟩ := Prod.mk.inj heq
  exact howner

end Pipeline

/-! ## A phase that has run its actions -/

/-- What a publish phase has made of a progress in which it has planned some labels and run their
actions. -/
structure Progress.HasRun (lake : Workspace) (labels : List String) (actions : List Action)
    (p p' : Progress) : Prop where
  plan_eq : actions.map (fun a => (a.label, a.unit)) = publishPlan p.builtTargets labels
  state_eq : (p.phases.get .publish).isFinal = false →
    (p'.phases.get .publish).state = .ofOutcomes (actions.map (·.answer.isOk))
  units : ∀ unit, Option.Rel (UnitRecord.PublishedBy lake unit actions) (p.units.get? unit)
    (p'.units.get? unit)

namespace Progress

variable {lake : Workspace} {labels : List String} {actions : List Action} {a : Action}

theorem HasRun.labels_eq (h : p.HasRun lake labels actions p') :
    actions.map Action.label =
      labels.filter fun label => p.builtTargets.any (Label.ofString label).isIn := by
  rw [← map_fst_publishPlan, ← h.plan_eq, List.map_map]
  rfl

theorem HasRun.owner?_eq (h : p.HasRun lake labels actions p') (ha : a ∈ actions) :
    owner? p.builtTargets a.label = some a.unit := by
  have hplan : (a.label, a.unit) ∈ publishPlan p.builtTargets labels := by
    rw [← h.plan_eq]
    exact List.mem_map.mpr ⟨a, ha, rfl⟩
  exact owner?_of_mem_publishPlan hplan

end Progress

namespace Pipeline

open Work

variable {run : Run}

theorem ensures_builtUnits {Q : List String → Assertion} {E : PipelineError → Assertion} :
    Ensures builtUnits Q E run p ↔ Q p.builtTargets run p := Iff.rfl

/-- A publish phase ends with an error only if the labels cannot be listed.  Otherwise it runs the
actions of its plan. -/
theorem ensures_publish_run (lake : Workspace) (target : String) :
    Ensures (publish lake target)
      (fun _ run' p' => ∃ labels actions,
        calls run' = calls run ++
            ⟨.query lake.root (publishQuery target), .ok labels⟩ ::
              actions.map (Action.call lake) ∧
          p.HasRun lake labels actions p')
      (fun e run' p' => ∃ fault,
        calls run' = calls run ++ [⟨.query lake.root (publishQuery target), .error fault⟩] ∧
          e = .tool fault ∧ p'.units = p.units) run p := by
  simp only [publish, ensures_bind, ensures_modifyPhase]
  refine (ensures_call _).mpr fun answer => ?_
  cases answer with
  | error fault =>
    simp only [ensures_orThrow_error]
    exact ⟨fault, by simp, rfl, rfl⟩
  | ok labels =>
    simp only [ensures_orThrow_ok, ensures_builtUnits]
    have hnamed : p.PublishedBy lake [] (p.modifyPhase .publish
        (·.setSubPhase "Discovering publish targets")) :=
      (Progress.PublishedBy.refl p).note fun r => r.noted_setSubPhase _
    have hbuilt : (p.modifyPhase .publish
        (·.setSubPhase "Discovering publish targets")).builtTargets = p.builtTargets := rfl
    rw [hbuilt]
    split
    · rename_i hempty
      simp only [ensures_bind, ensures_now, ensures_modifyPhase]
      intro time
      have hplan : publishPlan p.builtTargets labels = [] := List.isEmpty_iff.mp hempty
      refine ⟨labels, [], by simp, hplan.symm, fun hopen => ?_, hnamed.units⟩
      rw [Progress.get_modifyPhase_self]
      have hnoted := hnamed.noted.trans (PhaseRecord.noted_addLog _ "No publish targets found")
      exact PhaseRecord.state_finish (hnoted.isFinal_eq.trans hopen) .skipped time none
    · rename_i hsome
      rw [ensures_bind]
      refine (ensures_publishAll_published lake _).mono (fun published run' p' hall => ?_)
        fun _ _ _ hfalse => hfalse.elim
      obtain ⟨actions, hplan, hcalls, rfl, hpublished⟩ := hall
      simp only [ensures_bind, ensures_now, ensures_modifyPhase]
      intro time
      have hran := hnamed.trans hpublished
      refine ⟨labels, actions, ?_, hplan, fun hopen => ?_, hran.units⟩
      · simp [hcalls]
      · have hfinal : (p'.phases.get .publish).isFinal = false :=
          hran.noted.isFinal_eq.trans hopen
        have hactions : actions ≠ [] := fun hnil => hsome (by rw [← hplan, hnil]; rfl)
        rw [Progress.get_modifyPhase_self, PhaseState.ofOutcomes_map hactions]
        split
        · exact PhaseRecord.state_finish hfinal ..
        · exact PhaseRecord.state_finish ((PhaseRecord.noted_addLog _ _).isFinal_eq.trans hfinal) ..

end Pipeline

/-! ## What has become of the units -/

/-- What a publish phase has made of a progress in which it has listed some labels and run some
actions. -/
structure Progress.HasPublished (lake : Workspace) (labels : List String) (actions : List Action)
    (p p' : Progress) : Prop where
  /-- Each label in the directory of a unit that was built is run once, in the order of the list. -/
  labels_eq : actions.map Action.label =
    labels.filter fun label => p.builtTargets.any (Label.ofString label).isIn
  owned : ∀ a ∈ actions, Owner p.builtTargets a.label a.unit
  state_eq : (p'.phases.get .publish).state = .ofOutcomes (actions.map (·.answer.isOk))
  /-- A unit that was built and has an action that has succeeded is published, and any other unit
  keeps its status. -/
  status_eq : ∀ unit, (p'.units.get? unit).map UnitRecord.status =
    (p.units.get? unit).map fun u =>
      if u.status = .built ∧ actions.any (·.publishes unit) then .published else u.status
  /-- The package of an action that has succeeded is with its unit. -/
  packages : ∀ a ∈ actions, a.answer.isOk = true → ∃ u u', p.units.get? a.unit = some u ∧
    u.status = .built ∧ p'.units.get? a.unit = some u' ∧
      ∀ package, Artifact.ofLabel? lake a.unit a.label u.version = some package →
        u'.artifacts.get? package.language = some package

/-- A label belongs to a unit that was built: no unit around the label is deeper, whatever has
become of it. -/
def Progress.BelongsTo (p : Progress) (label key : String) : Prop :=
  ∃ u, p.units.get? key = some u ∧ u.status = .built ∧
    (Label.ofString label).isIn u.target = true ∧
      ∀ other v, p.units.get? other = some v → (Label.ofString label).isIn v.target = true →
        Resolution.depth v.target ≤ Resolution.depth u.target

/-- Around a label no unit that was not built lies deeper than all units that were. -/
def Progress.Unshadowed (p : Progress) (label : String) : Prop :=
  ∀ key u, p.units.get? key = some u → (Label.ofString label).isIn u.target = true →
    u.status ≠ .built → ∃ built ∈ p.builtTargets, (Label.ofString label).isIn built = true ∧
      Resolution.depth u.target ≤ Resolution.depth built

namespace Progress

variable {lake : Workspace} {labels : List String} {actions : List Action} {a : Action}

/-- The record of a unit after the phase is what its actions have made of the one before. -/
theorem HasRun.exists_record (h : p.HasRun lake labels actions p') {u : UnitRecord}
    (hu : p.units.get? unit = some u) :
    ∃ u', p'.units.get? unit = some u' ∧ u.PublishedBy lake unit actions u' := by
  have hunit := h.units unit
  rw [hu] at hunit
  generalize p'.units.get? unit = v' at hunit
  cases hunit with
  | some hpublished => exact ⟨_, rfl, hpublished⟩

theorem HasRun.owned (h : p.HasRun lake labels actions p') (hkeyed : p.Keyed) (ha : a ∈ actions) :
    Owner p.builtTargets a.label a.unit :=
  .of_owner? hkeyed.pairwise_builtTargets (h.owner?_eq ha)

/-- A unit that was not built has no action, so its record stays as it is. -/
theorem HasRun.untouched (h : p.HasRun lake labels actions p') (hkeyed : p.Keyed) {u : UnitRecord}
    (hu : p.units.get? unit = some u) (hstatus : u.status ≠ .built) :
    p'.units.get? unit = some u := by
  obtain ⟨u', hu', hpublished⟩ := h.exists_record hu
  have hnone : ∀ a ∈ actions, a.unit ≠ unit := by
    rintro a ha rfl
    obtain ⟨v, hv, hbuilt⟩ := hkeyed.mem_builtTargets_iff.mp (h.owned hkeyed ha).mem
    rw [hu] at hv
    obtain rfl := Option.some.inj hv
    exact hstatus hbuilt
  rw [hu', hpublished.untouched hnone]

/-- The unit of an action is the deepest of all units around its label if no unit that was not
built lies deeper. -/
theorem HasRun.belongsTo (h : p.HasRun lake labels actions p') (ha : a ∈ actions)
    (hclear : p.Unshadowed a.label) {key : String} {u : UnitRecord}
    (hu : p.units.get? key = some u) (hbuilt : u.status = .built) (htarget : u.target = a.unit) :
    p.BelongsTo a.label key := by
  have howner := h.owner?_eq ha
  have hdeepest : ∀ built ∈ p.builtTargets, (Label.ofString a.label).isIn built = true →
      Resolution.depth built ≤ Resolution.depth u.target := by
    intro built hmem hisIn
    rw [htarget]
    exact depth_le_of_owner? howner hmem hisIn
  refine ⟨u, hu, hbuilt, htarget ▸ (mem_and_isIn_of_owner? howner).2, fun other v hv hisIn => ?_⟩
  by_cases hvbuilt : v.status = .built
  · exact hdeepest v.target (mem_builtTargets_iff.mpr ⟨other, v, hv, hvbuilt, rfl⟩) hisIn
  · obtain ⟨built, hmem, hin, hdepth⟩ := hclear other v hv hisIn hvbuilt
    exact Nat.le_trans hdepth (hdeepest built hmem hin)

/-- A package that a unit has not had before is left by one of its actions. -/
theorem HasRun.package_cases (h : p.HasRun lake labels actions p') {u u' : UnitRecord}
    (hu : p.units.get? unit = some u) (hu' : p'.units.get? unit = some u') {language : String}
    {package : Artifact} (hpackage : u'.artifacts.get? language = some package) :
    u.artifacts.get? language = some package ∨
      ∃ a ∈ actions, a.unit = unit ∧ a.answer.isOk = true ∧
        Artifact.ofLabel? lake unit a.label u.version = some package := by
  obtain ⟨v, hv, hpublished⟩ := h.exists_record hu
  obtain rfl : v = u' := Option.some.inj (hv.symm.trans hu')
  rcases hpublished.get?_artifacts.mp hpackage with ⟨⟨a, ha, hown, hlabel⟩, -⟩ | ⟨-, hold⟩
  · obtain ⟨hunit, hok⟩ : a.unit = unit ∧ a.answer.isOk = true := by
      simpa [Action.publishes] using hown
    exact Or.inr ⟨a, ha, hunit, hok, hlabel⟩
  · exact Or.inl hold

theorem HasRun.status_eq (h : p.HasRun lake labels actions p') (unit : String) :
    (p'.units.get? unit).map UnitRecord.status =
      (p.units.get? unit).map fun u =>
        if u.status = .built ∧ actions.any (·.publishes unit) then .published else u.status := by
  have hunit := h.units unit
  generalize p.units.get? unit = v, p'.units.get? unit = v' at hunit
  cases hunit with
  | none => rfl
  | some hpublished => exact congrArg some hpublished.status_eq

/-- If every unit is kept under its own directory, what was published is with its owner. -/
theorem HasRun.hasPublished (h : p.HasRun lake labels actions p') (hkeyed : p.Keyed)
    (hopen : (p.phases.get .publish).isFinal = false) : p.HasPublished lake labels actions p' where
  labels_eq := h.labels_eq
  owned _ ha := h.owned hkeyed ha
  state_eq := h.state_eq hopen
  status_eq := h.status_eq
  packages a ha hok := by
    obtain ⟨u, hu, hbuilt⟩ := hkeyed.mem_builtTargets_iff.mp (h.owned hkeyed ha).mem
    obtain ⟨u', hu', hpublished⟩ := h.exists_record hu
    refine ⟨u, u', hu, hbuilt, hu', fun package hpackage => ?_⟩
    have hown : a.publishes a.unit = true := by
      rw [Action.publishes, hok, beq_self_eq_true]
      rfl
    exact hpublished.get?_artifacts.mpr (Or.inl ⟨⟨a, ha, hown, hpackage⟩, rfl⟩)

end Progress

namespace Pipeline

open Program Work

variable {run : Run} {lake : Workspace} {target : String} {result : Except PipelineError Unit}

/-- A publish phase fails to list its labels or runs the actions of its plan. -/
theorem refused_or_run (h : Reaches ((publish lake target).start p) run (.done (result, p'))) :
    (∃ fault, calls run = [⟨.query lake.root (publishQuery target), .error fault⟩] ∧
      result = .error (.tool fault) ∧ p'.units = p.units) ∨
    ∃ labels actions, calls run = ⟨.query lake.root (publishQuery target), .ok labels⟩ ::
        actions.map (Action.call lake) ∧
      result = .ok () ∧ p.HasRun lake labels actions p' := by
  have hpublish : Ensures (publish lake target) _ _ [] p := ensures_publish_run lake target
  have hend := ensures_iff.mp hpublish run (result, p') h
  cases result with
  | error e =>
    obtain ⟨fault, hcalls, rfl, hunits⟩ := hend
    exact Or.inl ⟨fault, hcalls, rfl, hunits⟩
  | ok value =>
    obtain ⟨labels, actions, hcalls, hrun⟩ := hend
    exact Or.inr ⟨labels, actions, hcalls, rfl, hrun⟩

/-- What is run after the labels were listed are the actions. -/
theorem exists_action {labels : List String} {actions : List Action} {root label : String}
    {args : List String} {answer : Except ToolError ToolOutput}
    (hcalls : calls run = ⟨.query lake.root (publishQuery target), .ok labels⟩ ::
      actions.map (Action.call lake))
    (h : (⟨.run root label args, answer⟩ : Answered) ∈ calls run) :
    ∃ a ∈ actions, a.label = label := by
  rw [hcalls] at h
  rcases List.mem_cons.mp h with heq | hmem
  · exact nomatch (Sigma.mk.inj heq).1
  · obtain ⟨a, ha, heq⟩ := List.mem_map.mp hmem
    exact ⟨a, ha, (Call.run.inj (Sigma.mk.inj heq).1).2.1⟩

/-- An action that has succeeded is in the run with the output of the build tool. -/
theorem exists_output {labels : List String} {actions : List Action} {a : Action}
    (hcalls : calls run = ⟨.query lake.root (publishQuery target), .ok labels⟩ ::
      actions.map (Action.call lake))
    (ha : a ∈ actions) (hok : a.answer.isOk = true) :
    ∃ output, (⟨.run lake.root a.label [], .ok output⟩ : Answered) ∈ calls run := by
  obtain ⟨label, unit, answer⟩ := a
  cases answer with
  | error e => exact nomatch hok
  | ok output =>
    rw [hcalls]
    exact ⟨output, List.mem_cons_of_mem _ (List.mem_map.mpr ⟨_, ha, rfl⟩)⟩

/-- **What a publish phase comes to.**  However the build tool answers: if the labels cannot be
listed this is the error of the phase, nothing is run and no unit changes.  Otherwise each label in
the directory of a unit that was built is run once, in the order in which they were listed, and
belongs to the deepest of these units.  The phase is skipped if there is no such label, fails if no
action succeeds, and else succeeds.  A unit becomes published if one of its actions has succeeded,
each package that was published is with its unit, and the other units keep their status. -/
theorem published_of_keyed
    (h : Reaches ((publish lake target).start p) run (.done (result, p'))) (hkeyed : p.Keyed)
    (hopen : (p.phases.get .publish).isFinal = false) :
    (∃ fault, calls run = [⟨.query lake.root (publishQuery target), .error fault⟩] ∧
      result = .error (.tool fault) ∧ p'.units = p.units) ∨
    ∃ labels actions, calls run = ⟨.query lake.root (publishQuery target), .ok labels⟩ ::
        actions.map (Action.call lake) ∧
      result = .ok () ∧ p.HasPublished lake labels actions p' := by
  rcases refused_or_run h with hrefused | ⟨labels, actions, hcalls, hresult, hrun⟩
  · exact Or.inl hrefused
  · exact Or.inr ⟨labels, actions, hcalls, hresult, hrun.hasPublished hkeyed hopen⟩

/-- The answers of a build tool that lists some labels and does not run all of them. -/
def listing (labels refused : List String) : (q : Request) → q.Answer
  | .call (.query _ _) => .ok labels
  | .call (.run _ label _) =>
    if label ∈ refused then .error (.failed "run" 1 "") else .ok ⟨0, ""⟩
  | q => success q

/-- A unit that was built, with another one in its directory. -/
def nested (inner : UnitStatus) : Progress where
  target := "."
  branch := "main"
  startTime := 0
  units := .ofList [("a", { target := "a", version := "1.0.0-main", status := .built }),
    ("a/b", { target := "a/b", version := "1.0.0-main", status := inner })]

theorem nested_cases {inner : UnitStatus} {key : String} {u : UnitRecord}
    (h : (nested inner).units.get? key = some u) :
    key = "a" ∧ u = { target := "a", version := "1.0.0-main", status := .built } ∨
      key = "a/b" ∧ u = { target := "a/b", version := "1.0.0-main", status := inner } := by
  have hunits : (nested inner).units = (StringMap.empty.insert "a"
      { target := "a", version := "1.0.0-main", status := .built }).insert "a/b"
        { target := "a/b", version := "1.0.0-main", status := inner } := rfl
  rw [hunits, StringMap.get?_insert, StringMap.get?_insert] at h
  split at h
  · rename_i hkey
    exact Or.inr ⟨hkey, (Option.some.inj h).symm⟩
  · split at h
    · rename_i hkey
      exact Or.inl ⟨hkey, (Option.some.inj h).symm⟩
    · exact nomatch h

theorem keyed_nested (inner : UnitStatus) : (nested inner).Keyed := by
  intro key u hu
  rcases nested_cases hu with ⟨rfl, rfl⟩ | ⟨rfl, rfl⟩ <;> rfl

/-- The inner one of two units is published for one language and not for another, the outer one is
not published at all. -/
theorem published_of_listing :
    ∃ run result p', Reaches ((publish { name := "acme" } ".").start (nested .built)) run
        (.done (result, p')) ∧
      (nested .built).Keyed ∧ ((nested .built).phases.get .publish).isFinal = false ∧
      p'.statuses = [.built, .published] ∧
      ∃ labels actions, (nested .built).HasPublished { name := "acme" } labels actions p' := by
  have hrun := reaches_replay
    (listing ["//a/b:b_java_publish", "//a:a_npm_publish", "//a/b/c:c_py_publish", "//d:d_publish"]
      ["//a:a_npm_publish", "//a/b/c:c_py_publish"])
    ((publish { name := "acme" } ".").start (nested .built))
  refine ⟨_, _, _, hrun, keyed_nested .built, rfl, by decide, ?_⟩
  rcases published_of_keyed hrun (keyed_nested .built) rfl with
    ⟨fault, hcalls, -⟩ | ⟨labels, actions, -, -, hpublished⟩
  · exact nomatch (List.cons.inj hcalls).1
  · exact ⟨labels, actions, hpublished⟩

/-! ## Units that were not built -/

/-- **What is run belongs to units that were built.**  A label is run only in the directory of a
unit that was built, and it belongs to such a unit unless one that was not built lies deeper around
it.  The records of units that were not built stay as they are, and a unit has new packages only
from labels that were run for it. -/
theorem ran_of_built (h : Reaches ((publish lake target).start p) run (.done (result, p'))) :
    (∀ root label args answer, (⟨.run root label args, answer⟩ : Answered) ∈ calls run →
      (∃ built ∈ p.builtTargets, (Label.ofString label).isIn built = true) ∧
        (p.Unshadowed label → ∃ key, p.BelongsTo label key)) ∧
    (p.Keyed → ∀ key u, p.units.get? key = some u → ∃ u', p'.units.get? key = some u' ∧
      (u.status ≠ .built → u' = u) ∧
        ∀ language package, u'.artifacts.get? language = some package →
          u.artifacts.get? language = some package ∨
            ∃ label output, (⟨.run lake.root label [], .ok output⟩ : Answered) ∈ calls run ∧
              Artifact.ofLabel? lake key label u.version = some package ∧
                Owner p.builtTargets label key ∧ (p.Unshadowed label → p.BelongsTo label key)) := by
  rcases refused_or_run h with ⟨fault, hcalls, -, hunits⟩ | ⟨labels, actions, hcalls, -, hrun⟩
  · refine ⟨fun root label args answer hmem => ?_, fun _ key u hu => ?_⟩
    · rw [hcalls] at hmem
      exact nomatch (Sigma.mk.inj (List.mem_singleton.mp hmem)).1
    · exact ⟨u, hunits ▸ hu, fun _ => rfl, fun _ _ hpackage => Or.inl hpackage⟩
  · refine ⟨fun root label args answer hmem => ?_, fun hkeyed key u hu => ?_⟩
    · obtain ⟨a, ha, rfl⟩ := exists_action hcalls hmem
      have hin := mem_and_isIn_of_owner? (hrun.owner?_eq ha)
      obtain ⟨key, u, hu, hbuilt, htarget⟩ := Progress.mem_builtTargets_iff.mp hin.1
      exact ⟨⟨a.unit, hin⟩, fun hclear => ⟨key, hrun.belongsTo ha hclear hu hbuilt htarget⟩⟩
    · obtain ⟨u', hu', -⟩ := hrun.exists_record hu
      refine ⟨u', hu', fun hstatus => ?_, fun language package hpackage => ?_⟩
      · have huntouched := hrun.untouched hkeyed hu hstatus
        exact Option.some.inj (hu'.symm.trans huntouched)
      · rcases hrun.package_cases hu hu' hpackage with hold | ⟨a, ha, rfl, hok, hlabel⟩
        · exact Or.inl hold
        · have howner := hrun.owned hkeyed ha
          obtain ⟨v, hv, hbuilt⟩ := hkeyed.mem_builtTargets_iff.mp howner.mem
          obtain ⟨output, hmem⟩ := exists_output hcalls ha hok
          exact Or.inr ⟨a.label, output, hmem, hlabel, howner, fun hclear =>
            hrun.belongsTo ha hclear hv hbuilt (hkeyed a.unit v hv)⟩

/-- A label in the directory of the inner one of two units, both of which were built. -/
theorem ran_of_nested :
    ∃ run result p', Reaches ((publish { name := "acme" } ".").start (nested .built)) run
        (.done (result, p')) ∧
      (⟨.run "" "//a/b:b_java_publish" [], .ok ⟨0, ""⟩⟩ : Answered) ∈ calls run ∧
      (nested .built).Unshadowed "//a/b:b_java_publish" ∧
      ∃ key, (nested .built).BelongsTo "//a/b:b_java_publish" key := by
  have hrun := reaches_replay (listing ["//a/b:b_java_publish"] [])
    ((publish { name := "acme" } ".").start (nested .built))
  have hmem : (⟨.run "" "//a/b:b_java_publish" [], .ok ⟨0, ""⟩⟩ : Answered) ∈
      calls (((publish { name := "acme" } ".").start (nested .built)).replay
        (listing ["//a/b:b_java_publish"] [])).1 := .tail _ (.head _)
  have hclear : (nested .built).Unshadowed "//a/b:b_java_publish" := by
    intro key u hu _ hstatus
    rcases nested_cases hu with ⟨-, rfl⟩ | ⟨-, rfl⟩ <;> exact absurd rfl hstatus
  exact ⟨_, _, _, hrun, hmem, hclear, ((ran_of_built hrun).1 _ _ _ _ hmem).2 hclear⟩

/-- A label in the directory of a unit that has failed, which lies in that of a unit that was built:
it is run, and does not belong to a unit that was built. -/
theorem ran_below_failed :
    ¬ ∀ (lake : Workspace) (target : String) (p : Progress) (run : Run)
        (result : Except PipelineError Unit) (p' : Progress),
      Reaches ((publish lake target).start p) run (.done (result, p')) → p.Keyed →
        ∀ root label args answer, (⟨.run root label args, answer⟩ : Answered) ∈ calls run →
          ∃ key, p.BelongsTo label key := by
  intro h
  have hrun := reaches_replay (listing ["//a/b:b_java_publish"] [])
    ((publish { name := "acme" } ".").start (nested .failed))
  obtain ⟨key, u, hu, hbuilt, -, hdeepest⟩ :=
    h _ _ _ _ _ _ hrun (keyed_nested .failed) _ _ _ _ (.tail _ (.head _))
  have hdepth := hdeepest "a/b" _ rfl (by decide)
  rcases nested_cases hu with ⟨-, rfl⟩ | ⟨-, rfl⟩
  · exact absurd hdepth (by decide)
  · exact UnitStatus.noConfusion hbuilt

end Pipeline
end ProtoBuild
