import ProtoBuild.Proofs.Pipeline.Accounts
import ProtoBuild.Proofs.Pipeline.Parts
import ProtoBuild.Proofs.Program.Insensitivity
import ProtoBuild.Proofs.Resolution.Order

/-!
# Builds and the order of what was found

A file system lists directories in an order of its own.  An isolated build puts what was found in
order before it looks at it, contents first (`Resolution.pairwise_deepestFirst`), and all else
that it takes from the search is the number of units.  So it goes on in the same way whatever the
order was (`overlooks_build`).

Of two environments that differ in nothing else (`SameButOrder`) a build asks the same things, one
after another, calls and snapshots alike, and it ends in the same way.  Their answers may depend
on all that was asked before, as long as the order of what was found is not part of it.
-/

namespace ProtoBuild
namespace Pipeline

open Program Resolution Work

variable {α β : Type} {work : Work α} {M : (Progress → Progress) → Prop} {S : Request → Prop}
  {p q : Progress} {found found' : List String}

/-- Answers that are the same, but for the order of what was found. -/
inductive UpToOrder : (q : Request) → q.Answer → q.Answer → Prop where
  | same {q : Request} (answer : q.Answer) : UpToOrder q answer answer
  | found {root search : String} {found found' : List String} (h : found.Perm found') :
      UpToOrder (.call (.discover root search)) (.ok found) (.ok found')

/-- Environments that answer alike, but for the order of what is found. -/
def SameButOrder (answer answer' : Run → (q : Request) → q.Answer) : Prop :=
  ∀ past past' q, List.Forall₂ (Exchange.Related UpToOrder) past past' →
    UpToOrder q (answer past q) (answer' past' q)

/-- A part of a build to which the order of what is found makes no difference. -/
def Overlooks (work : Work α) : Prop := ∀ p, (Work.start work p).Insensitive UpToOrder

theorem Overlooks.bind {next : α → Work β} (h : Overlooks work) (hnext : ∀ a, Overlooks (next a)) :
    Overlooks (work >>= next) := by
  intro p
  rw [start_bind]
  refine insensitive_bind (h p) fun r => ?_
  obtain ⟨_ | a, q⟩ := r
  · trivial
  · exact hnext a q

theorem Overlooks.tryCatch {handler : PipelineError → Work α} (h : Overlooks work)
    (hhandler : ∀ e, Overlooks (handler e)) : Overlooks (tryCatch work handler) := by
  intro p
  rw [start_tryCatch]
  refine insensitive_bind (h p) fun r => ?_
  obtain ⟨e | _, q⟩ := r
  · exact hhandler e q
  · trivial

/-- Who finds nothing overlooks the order of what is found. -/
theorem overlooks_of_made (h : Made M S work)
    (hS : ∀ root search, ¬ S (.call (.discover root search))) : Overlooks work := by
  induction h with
  | pure a => exact fun _ => trivial
  | throw e => exact fun _ => trivial
  | get => exact fun _ => trivial
  | modify hf => exact fun _ => trivial
  | @request q hq =>
    refine fun p => ⟨fun answer answer' hanswer => ?_, fun _ => trivial⟩
    cases hanswer with
    | same => rfl
    | found h => exact absurd hq (hS _ _)
  | push =>
    refine fun p => ⟨fun _ _ _ => rfl, fun _ => trivial⟩
  | bind _ _ ih ihnext => exact ih.bind ihnext
  | tryCatch _ _ ih ihhandler => exact ih.tryCatch ihhandler

theorem start_resolveUnits_isolated (lake : Workspace) (target : String) (p : Progress) :
    Work.start (resolveUnits lake .isolated target) p =
      .ask (.call (.discover lake.root target)) fun answer =>
        Work.start (do
          let units ← orThrow .discovery answer
          modifyPhase .build
            (·.addLog ("Found " ++ toString units.length ++ " bundle targets"))
          return deepestFirst units)
          (p.modifyPhase .build (·.setSubPhase "Discovering bundle targets")) :=
  rfl

theorem overlooks_resolveUnits (lake : Workspace) (mode : ResolutionMode) (target : String) :
    Overlooks (resolveUnits lake mode target) := by
  intro p
  cases mode with
  | direct => trivial
  | isolated =>
    rw [start_resolveUnits_isolated]
    refine ⟨fun answer answer' hanswer => ?_, fun answer => ?_⟩
    · cases hanswer with
      | same => rfl
      | found h =>
        show Program.done (Except.ok (deepestFirst _), _) = .done (.ok (deepestFirst _), _)
        rw [deepestFirst_eq_of_perm h, h.length_eq]
    · cases answer with
      | error e => trivial
      | ok found => trivial

/-- After the search nothing is found any more. -/
theorem overlooks_of_late (h : Made M (Request.From 5) work) : Overlooks work :=
  overlooks_of_made h fun _ _ hdiscover => Nat.not_succ_le_self 4 hdiscover

theorem overlooks_build (lake : Workspace) (target : String) (options : RunOptions) :
    Overlooks (build lake target options) := by
  have hclean : Overlooks (cleanCache lake) :=
    overlooks_of_made (made_cleanCache lake) fun _ _ hdiscover =>
      Nat.not_succ_le_self 3 hdiscover.2
  unfold build
  extract_lets buildAll
  have hbuildAll : Overlooks (buildAll ()) := by
    refine (overlooks_resolveUnits lake options.mode target).bind fun units => ?_
    split
    · exact overlooks_of_late (made_skip _ _)
    · refine overlooks_of_late (.bind .get fun _ => .bind (.modify (M := AnyChange) trivial)
        fun _ => .bind .push fun _ => ?_)
      exact .bind (made_buildUnits (Nat.le_refl 5) _ _ _ _).free fun failed =>
        (made_endBuild _ failed).free
  split
  · exact hclean.bind fun _ => hbuildAll
  · exact hbuildAll

/-! ## What is found, in order -/

/-- What has come of a search in isolated mode. -/
theorem eq_of_reaches_resolveUnits {lake : Workspace} {target : String} {run : Run}
    {r : Except PipelineError (List String)}
    (h : Reaches (Work.start (resolveUnits lake .isolated target) p) run (.done (r, q)))
    (hfound : ⟨.discover lake.root target, .ok found⟩ ∈ calls run) :
    r = .ok (deepestFirst found) := by
  rw [start_resolveUnits_isolated] at h
  obtain ⟨answer, rest, rfl, hrest⟩ := reaches_ask_done_iff.mp h
  cases answer with
  | error e =>
    obtain ⟨rfl, -⟩ := reaches_done_iff.mp hrest
    exact absurd hfound (by simp [calls, callOf?])
  | ok units =>
    obtain ⟨rfl, hdone⟩ := reaches_done_iff.mp hrest
    have hunits : found = units := by simpa [calls, callOf?] using hfound
    cases hdone
    rw [hunits]

/-- **Contents first, in whatever order they were found.**  A search in isolated mode that finds
units gives these units, no one of them before another that lies in its directory, so that the
lake as a whole comes last.  And in two environments that answer alike, but for the order of what
is found, a build asks the same, calls and snapshots one after another, and ends with the same
result and the same progress. -/
theorem contents_first_however_found (lake : Workspace) (target : String) (options : RunOptions)
    (p : Progress) :
    (∀ run r q found,
      Reaches (Work.start (resolveUnits lake .isolated target) p) run (.done (r, q)) →
      ⟨.discover lake.root target, .ok found⟩ ∈ calls run →
      ∃ units, r = .ok units ∧ units.Perm found ∧
        ((∀ unit ∈ found, IsUnitPath unit) → units.Pairwise fun a b => ¬ Encloses a b)) ∧
    ∀ answer answer', SameButOrder answer answer' →
      let first := (Work.start (build lake target options) p).replayAfter answer []
      let second := (Work.start (build lake target options) p).replayAfter answer' []
      first.1.map Exchange.request = second.1.map Exchange.request ∧ first.2 = second.2 := by
  constructor
  · intro run r q found hreaches hfound
    obtain rfl := eq_of_reaches_resolveUnits hreaches hfound
    exact ⟨_, rfl, List.mergeSort_perm found precedes, pairwise_deepestFirst⟩
  · intro answer answer' hsame first second
    obtain ⟨hrun, hvalue⟩ := (overlooks_build lake target options p).replayAfter hsame .nil
    exact ⟨map_request_eq hrun, hvalue⟩

/-- Some units are found, and all else succeeds. -/
def findsUnits (found : List String) : Run → (q : Request) → q.Answer
  | _, .call (.discover _ _) => .ok found
  | _, q => success q

theorem sameButOrder_findsUnits (h : found.Perm found') :
    SameButOrder (findsUnits found) (findsUnits found') := by
  intro past past' q _
  match q with
  | .call (.discover _ _) => exact .found h
  | .call (.prepare _) => exact .same _
  | .call (.codegen _) => exact .same _
  | .call (.validate _) => exact .same _
  | .call (.build _ _ _) => exact .same _
  | .call (.query _ _) => exact .same _
  | .call (.clean _) => exact .same _
  | .call (.run _ _ _) => exact .same _
  | .now => exact .same _
  | .isCancelled => exact .same _
  | .tell _ => exact .same _

/-- Two units within each other and the lake as a whole, found in two orders. -/
theorem contents_first_of_nested :
    ∃ (lake : Workspace) (p : Progress) (r : Except PipelineError (List String) × Progress),
      Reaches (Work.start (resolveUnits lake .isolated ".") p)
        [called (.discover "/lake" ".") (.ok [".", "a", "a/b"])] (.done r) ∧
      (∃ units, r.1 = .ok units ∧ units.Perm [".", "a", "a/b"] ∧
        units.Pairwise fun a b => ¬ Encloses a b) ∧
      let first := (Work.start (build lake "." { mode := .isolated }) p).replayAfter
        (findsUnits [".", "a", "a/b"]) []
      let second := (Work.start (build lake "." { mode := .isolated }) p).replayAfter
        (findsUnits ["a/b", ".", "a"]) []
      first.1.map Exchange.request = second.1.map Exchange.request ∧ first.2 = second.2 := by
  let lake : Workspace := { root := "/lake" }
  let p : Progress := .initial lake "." "main" 0
  obtain ⟨hordered, hsame⟩ := contents_first_however_found lake "." { mode := .isolated } p
  have hreaches : Reaches (Work.start (resolveUnits lake .isolated ".") p)
      [called (.discover "/lake" ".") (.ok [".", "a", "a/b"])] (.done (_, _)) :=
    .ask (.refl _)
  obtain ⟨units, hunits, hperm, hcontents⟩ := hordered _ _ _ [".", "a", "a/b"] hreaches (.head _)
  have hnamed : ∀ unit ∈ [".", "a", "a/b"], IsUnitPath unit := by
    unfold IsUnitPath Path.IsNamed Path.IsName
    decide
  exact ⟨lake, p, _, hreaches, ⟨units, hunits, hperm, hcontents hnamed⟩,
    hsame _ _ (sameButOrder_findsUnits (by decide))⟩

end Pipeline
end ProtoBuild
