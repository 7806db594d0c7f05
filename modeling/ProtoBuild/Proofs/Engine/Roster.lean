import Mathlib.Data.List.Nodup
import ProtoBuild.Proofs.Engine.Workshop

/-!
# One worker for each admission

Whoever asks for a build is answered, and if his operation is admitted a worker is started
for it.  So the workers, in their order, are those of the operations that were admitted, in
theirs (`Staffed`), as long as nobody starts a worker on his own.

If the names are new (`Fresh`), a name then tells which worker is meant (`Staffed.index_eq`),
and which answer (`Fresh.answer_eq`).
-/

namespace ProtoBuild
namespace Workshop

variable {s s' : Workshop} {may : Outside → Prop} {i j : Nat} {v w : Hand}

/-- The names of the operations that were admitted, in their order. -/
def admitted (s : Workshop) : List OperationName :=
  (s.answers.filter fun o => ! o.done).map Operation.name

/-- There is one worker for each operation that was admitted. -/
def Staffed (s : Workshop) : Prop :=
  (s.workers.map fun w => w.job.name) = s.admitted

/-- Names are new: no two of those who asked for a build used the same name. -/
def Fresh (s : Workshop) : Prop := (s.answers.map Operation.name).Nodup

instance (s : Workshop) : Decidable s.Fresh :=
  inferInstanceAs (Decidable (s.answers.map Operation.name).Nodup)

theorem Fresh.admitted_nodup (h : s.Fresh) : s.admitted.Nodup :=
  h.sublist (List.filter_sublist.map _)

/-- With new names there is one answer for each of them. -/
theorem Fresh.answer_eq (h : s.Fresh) {o d : Operation} (ho : o ∈ s.answers)
    (hd : d ∈ s.answers) (hname : o.name = d.name) : o = d :=
  List.inj_on_of_nodup_map h ho hd hname

/-- With new names there is one worker for each of them. -/
theorem Staffed.index_eq (h : s.Staffed) (hfresh : s.Fresh) (hv : s.workers[i]? = some v)
    (hw : s.workers[j]? = some w) (hname : v.job.name = w.job.name) : i = j := by
  have hnodup : (s.workers.map fun w => w.job.name).Nodup := by
    rw [h]
    exact hfresh.admitted_nodup
  have hlt : i < (s.workers.map fun w => w.job.name).length := by
    rw [List.length_map]
    exact (List.getElem?_eq_some_iff.mp hv).1
  refine (List.getElem?_inj hlt hnodup).mp ?_
  rw [List.getElem?_map, List.getElem?_map, hv, hw, Option.map_some, Option.map_some, hname]

/-- Each worker belongs to a build that was admitted. -/
theorem Staffed.exists_answer (h : s.Staffed) (hw : w ∈ s.workers) :
    ∃ o ∈ s.answers, o.name = w.job.name ∧ o.done = false := by
  have hname : w.job.name ∈ s.admitted := by
    rw [← h]
    exact List.mem_map_of_mem hw
  obtain ⟨o, ho, hname⟩ := List.mem_map.mp hname
  obtain ⟨ho, hdone⟩ := List.mem_filter.mp ho
  exact ⟨o, ho, hname, by simpa using hdone⟩

/-! ## What the steps do -/

theorem answers_submit (s : Workshop) (name : OperationName) (lake : Workspace)
    (resource : ResourceName) (target : String) (options : BuildOptions) (progress : Progress) :
    s.answers <+: (s.submit name lake resource target options progress).answers := by
  obtain ⟨-, ⟨-, hanswers, -⟩ | ⟨other, hanswers, -⟩⟩ :=
    s.submit_cases name lake resource target options progress
  · rw [hanswers]
    exact List.prefix_append ..
  · rw [hanswers]
    exact List.prefix_append ..

/-- A name that is new after a submission was used by nobody before. -/
theorem Fresh.ne_of_submit {name : OperationName} {lake : Workspace} {resource : ResourceName}
    {target : String} {options : BuildOptions} {progress : Progress}
    (h : (s.submit name lake resource target options progress).Fresh) :
    name ∉ s.admitted := by
  have hlast : ∃ o : Operation, o.name = name ∧
      (s.submit name lake resource target options progress).answers = s.answers ++ [o] := by
    obtain ⟨-, ⟨-, hanswers, -⟩ | ⟨other, hanswers, -⟩⟩ :=
      s.submit_cases name lake resource target options progress
    · exact ⟨_, rfl, hanswers⟩
    · exact ⟨_, rfl, hanswers⟩
  obtain ⟨o, rfl, hanswers⟩ := hlast
  rw [Fresh, hanswers, List.map_append] at h
  intro hmem
  have hname : o.name ∈ s.answers.map Operation.name :=
    (List.filter_sublist.map _).subset hmem
  exact List.disjoint_of_nodup_append h hname (List.mem_singleton_self _)

/-- What was answered stays answered. -/
theorem Step.answers_prefix (h : Step may s s') : s.answers <+: s'.answers := by
  cases h with
  | submit name lake resource target options progress => exact s.answers_submit ..
  | work hwork =>
    cases hwork
    exact List.prefix_rfl
  | _ => exact List.prefix_rfl

theorem admitted_subset (h : s.answers <+: s'.answers) : s.admitted ⊆ s'.admitted :=
  ((h.sublist.filter _).map _).subset

/-- A worker keeps its job and what it has asked. -/
theorem Step.exists_worker (h : Step may s s') (hw : w ∈ s.workers) :
    ∃ w' ∈ s'.workers, w'.job = w.job ∧ w.past <+: w'.past := by
  cases h with
  | submit name lake resource target options progress =>
    refine ⟨w, ?_, rfl, List.prefix_rfl⟩
    obtain ⟨-, ⟨-, -, hworkers⟩ | ⟨other, -, hworkers, -⟩⟩ :=
      s.submit_cases name lake resource target options progress
    · rw [hworkers]
      exact List.mem_append_left _ hw
    · rw [hworkers]
      exact hw
  | @work _ i hwork =>
    obtain ⟨hv, -, -⟩ := hwork
    obtain ⟨j, hj⟩ := List.mem_iff_getElem?.mp hw
    by_cases hij : i = j
    · subst hij
      obtain rfl := Option.some.inj (hv.symm.trans hj)
      have hlt : i < s.workers.length := (List.getElem?_eq_some_iff.mp hj).1
      exact ⟨_, List.mem_set hlt _, rfl, List.prefix_append ..⟩
    · refine ⟨w, List.mem_iff_getElem?.mpr ⟨j, ?_⟩, rfl, List.prefix_rfl⟩
      rw [List.getElem?_set_ne hij, hj]
  | message now hm => exact ⟨w, hw, rfl, List.prefix_rfl⟩
  | closePool hm => exact ⟨w, hw, rfl, List.prefix_rfl⟩
  | start hm => exact ⟨w, List.mem_append_left _ hw, rfl, List.prefix_rfl⟩

theorem answers_prefix_of_steps (h : Relation.ReflTransGen (Step may) s s') :
    s.answers <+: s'.answers := by
  induction h with
  | refl => exact List.prefix_rfl
  | tail _ hstep ih => exact ih.trans hstep.answers_prefix

/-- Names that are new were new before. -/
theorem Fresh.of_prefix (h : s'.Fresh) (hanswers : s.answers <+: s'.answers) : s.Fresh :=
  h.sublist (hanswers.sublist.map _)

theorem Staffed.opened (retention : UInt64) : (opened retention).Staffed := rfl

theorem Staffed.submit (h : s.Staffed) (name : OperationName) (lake : Workspace)
    (resource : ResourceName) (target : String) (options : BuildOptions) (progress : Progress) :
    (s.submit name lake resource target options progress).Staffed := by
  obtain ⟨-, ⟨-, hanswers, hworkers⟩ | ⟨other, hanswers, hworkers, -⟩⟩ :=
    s.submit_cases name lake resource target options progress
  · rw [Staffed, hworkers, admitted, hanswers, List.map_append, h, List.filter_append,
      List.map_append, admitted]
    rfl
  · rw [Staffed, hworkers, admitted, hanswers, h, List.filter_append, List.map_append, admitted]
    exact (List.append_nil _).symm

/-- A worker that takes a step keeps its name. -/
theorem map_name_set {w' : Hand} (hw : s.workers[i]? = some w) (hjob : w'.job = w.job) :
    (s.workers.set i w').map (fun w => w.job.name) = s.workers.map fun w => w.job.name := by
  obtain ⟨hlt, rfl⟩ := List.getElem?_eq_some_iff.mp hw
  rw [List.map_set, hjob, ← List.map_set, List.set_getElem_self]

theorem Staffed.works (h : s.Staffed) (hwork : s.Works i s') : s'.Staffed := by
  obtain ⟨hw, -, -⟩ := hwork
  refine Eq.trans (map_name_set hw ?_) h
  rfl

end Workshop
end ProtoBuild
