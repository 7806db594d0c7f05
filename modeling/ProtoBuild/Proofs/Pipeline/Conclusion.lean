import ProtoBuild.Proofs.Pipeline.Attempts

/-!
# How a build phase concludes

A build phase clears the cache if that is asked for, finds its units and attempts them one after
another.  What each part does is said once: an attempt puts its unit in its status
(`ensures_buildUnit_tried`), and the loop over the units goes from the middle of the phase to one of
its three ends (`ensures_buildUnits_ending`).  `attempted_of_prepared` is what this comes to for a
complete run.

## Why the units have to be different

A unit that stands twice among those that were found is no longer waiting when its second turn
comes, and what becomes of it then is not written into its record.  The lists of attempted and of
waiting units would overlap, so nothing could be said of their statuses.

## Preparations that fail

If the cache cannot be cleared or no units can be found, the phase ends with that error before any
unit is attempted.  `Concludes` keeps these cases apart from the others, and a run that begins with
the calls of a successful preparation rules them out.
-/

namespace ProtoBuild

open Pipeline

variable {goOn : Bool} {units rest : List String} {attempts : List Attempt} {a : Attempt}
  {p q q' : Progress}

namespace Pipeline

open Work Progress

variable {run : Run} {unit : String} {before : List Answered}

/-- However a part of a build ends, a condition holds of what it ends with. -/
abbrev Work.Ends {α : Type} (work : Work α) (C : Except PipelineError α → Assertion) : Assertion :=
  Ensures work (fun a => C (.ok a)) fun e => C (.error e)

theorem Work.Ends.mono {α : Type} {work : Work α} {C C' : Except PipelineError α → Assertion}
    (h : Ends work C run p) (hC : ∀ r run p, C r run p → C' r run p) : Ends work C' run p :=
  Ensures.mono h (fun a => hC (.ok a)) fun e => hC (.error e)

/-- A run only grows. -/
theorem ends_extends {α : Type} (work : Work α) :
    Ends work (fun _ run' _ => run <+: run') run p := by
  rw [Ends, Ensures, Program.ensures_iff]
  rintro more ⟨_ | _, q⟩ -
  · exact List.prefix_append run more
  · exact List.prefix_append run more

/-- After a run and at some progress a unit is attempted, and has the status of its attempt. -/
def Tried (lake : Workspace) (args : List String) (unit : String) (run : Run) (p : Progress)
    (answer : Except String Unit) (run' : Run) (q : Progress) : Prop :=
  ∃ a : Attempt, a.unit = unit ∧ calls run' = calls run ++ [a.call lake args] ∧
    answer.isOk = a.usable ∧ p.Puts unit a.status q

/-- A unit that waits is attempted. -/
theorem ensures_buildUnit_tried (lake : Workspace) (args : List String)
    (h : p.statusOf? unit = some .pending) :
    Ensures (buildUnit lake args unit) (Tried lake args unit run p) (fun _ _ _ => False) run p := by
  simp only [buildUnit, ensures_bind, ensures_modifyPhase, ensures_now, ensures_modifyUnit]
  intro started
  refine (ensures_call _).mpr fun answer ended => ?_
  have hnamed := (puts_self h).note (f := fun r =>
    (r.setSubPhase ("Building " ++ unit)).addLog ("Building: " ++ unit)) fun r =>
      (r.noted_setSubPhase _).trans (PhaseRecord.noted_addLog _ _)
  have hbuilding : p.Puts unit .building _ :=
    hnamed.modifyUnit (g := fun u => (u.move .building started).1) fun u hu => by
      rw [UnitRecord.status_move, hu]
      rfl
  have hlogged : ∀ text, p.Puts unit .building _ := fun text =>
    hbuilding.modifyUnit (g := (·.addLog text)) fun u hu => hu
  -- a unit with an answer that is not usable has failed
  have hfail : ∀ {q : Progress} (reason : String), (Attempt.mk unit answer).usable = false →
      p.Puts unit .building q →
      Ensures (failUnit unit reason ended) (Tried lake args unit run p) (fun _ _ _ => False)
        (run ++ [timed started] ++ [called (.build lake.root args (Path.pattern unit)) answer] ++
          [timed ended]) q := by
    intro q reason hunusable hputs
    simp only [failUnit, ensures_bind, ensures_modifyUnit, ensures_pure]
    refine ⟨⟨unit, answer⟩, rfl, by simp [Attempt.call], hunusable.symm, ?_⟩
    rw [Attempt.status, if_neg (by rw [hunusable]; exact Bool.false_ne_true)]
    exact hputs.modifyUnit fun u hu => (UnitRecord.fail_of_building hu reason ended).1
  cases answer with
  | error e =>
    dsimp only
    split
    · simp only [ensures_bind, ensures_modifyUnit]
      exact hfail _ rfl (hlogged _)
    · exact hfail _ rfl hbuilding
  | ok output =>
    simp only [ensures_bind, ensures_modifyUnit]
    split
    · rename_i husable
      have hbuilt : p.Puts unit .built _ := (hlogged (output.tail keptLines)).modifyUnit
        (g := fun u => (u.move .built ended).1) fun u hu => UnitRecord.status_built hu ended
      have hstatus : (Attempt.mk unit (.ok output)).status = .built := if_pos husable
      have htried : ∀ {q : Progress}, p.Puts unit .built q → Tried lake args unit run p (.ok ())
          (run ++ [timed started] ++
            [called (.build lake.root args (Path.pattern unit)) (.ok output)] ++ [timed ended]) q :=
        fun hputs => ⟨⟨unit, .ok output⟩, rfl, by simp [Attempt.call], husable.symm,
          hstatus ▸ hputs⟩
      simp only [ensures_bind, ensures_modifyUnit]
      split
      · simp only [ensures_bind, ensures_modifyPhase, ensures_pure]
        exact htried ((hbuilt.note fun r => r.noted_addLog _).note fun r => r.noted_addLog _)
      · simp only [ensures_bind, ensures_modifyPhase, ensures_pure]
        exact htried (hbuilt.note fun r => r.noted_addLog _)
    · rename_i hunusable
      exact hfail _ (Bool.not_eq_true _ ▸ hunusable) (hlogged _)

/-- The units that are left are built one after another: all of them, or until the phase ends with
an error. -/
theorem ensures_buildUnits_ending (lake : Workspace) (args : List String) (hnodup : units.Nodup)
    (hcalls : calls run = before ++ attempts.map (Attempt.call lake args))
    (h : Amid goOn units attempts rest p q) :
    Ensures (buildUnits lake args goOn rest)
      (fun failed run' q' => ∃ all, calls run' = before ++ all.map (Attempt.call lake args) ∧
        all.countP (! ·.usable) = attempts.countP (! ·.usable) + failed ∧
          Amid goOn units all [] p q')
      (fun e run' q' => ∃ all, calls run' = before ++ all.map (Attempt.call lake args) ∧
        BuildEnding goOn units run' p q' all (.error e)) run q := by
  induction rest generalizing run q attempts with
  | nil => exact ⟨attempts, hcalls, rfl, h⟩
  | cons unit rest ih =>
    simp only [buildUnits, ensures_bind, ensures_isCancelled]
    intro stopped
    cases stopped with
    | true =>
      simp only [if_true, ensures_bind, ensures_skipUnits_iff, ensures_push, ensures_throw]
      intro time
      exact ⟨attempts, by simp [hcalls], h.stopped hnodup (by simp) time⟩
    | false =>
      simp only [Bool.false_eq_true, if_false, ensures_bind]
      refine (ensures_buildUnit_tried lake args (h.after.left unit List.mem_cons_self)).mono ?_
        fun _ _ _ hfalse => hfalse.elim
      rintro answer run' q' ⟨a, rfl, hcall, hanswer, hputs⟩
      have hcalls' : calls run' = before ++ (attempts ++ [a]).map (Attempt.call lake args) := by
        rw [hcall, calls_append, hcalls]
        simp
      cases answer with
      | ok _ =>
        have husable : a.usable = true := hanswer.symm
        have hnext := h.next hnodup hputs fun _ => husable
        simp only [ensures_bind, ensures_push]
        refine (ih (by simpa using hcalls') hnext).mono ?_ fun _ _ _ he => he
        rintro failed run' q' ⟨all, hall, hcount, hamid⟩
        refine ⟨all, hall, ?_, hamid⟩
        rw [hcount]
        simp [husable]
      | error reason =>
        have hunusable : a.usable = false := hanswer.symm
        dsimp only
        split
        · rename_i hgoOn
          have hnoted := hputs.note fun r => r.noted_addLog
            ("Failed to build " ++ a.unit ++ ": " ++ reason ++ " (continuing)")
          have hnext := h.next hnodup hnoted fun hstops =>
            absurd (hgoOn.symm.trans hstops) (by simp)
          simp only [ensures_bind, ensures_modifyPhase, ensures_push, ensures_pure]
          refine (ih (by simpa using hcalls') hnext).mono ?_ fun _ _ _ he => he
          rintro failed run' q' ⟨all, hall, hcount, hamid⟩
          refine ⟨all, hall, ?_, hamid⟩
          rw [hcount]
          simp [hunusable, Nat.add_assoc, Nat.add_comm]
        · rename_i hstops
          have hgoOn : goOn = false := Bool.not_eq_true _ ▸ hstops
          simp only [ensures_bind, ensures_now, ensures_modifyPhase, ensures_push, ensures_throw]
          intro time
          exact ⟨attempts ++ [a], by simpa using hcalls', h.failed hnodup hputs hgoOn hunusable ..⟩

/-- The phase ends after its last unit: it fails if the number of failures is that of the units. -/
theorem ensures_endBuild_completed {failed : Nat} (h : Amid goOn units attempts [] p q)
    (hsome : units ≠ []) (hfailed : attempts.countP (! ·.usable) = failed) :
    Ensures (endBuild units.length failed)
      (fun _ run' q' => calls run' = calls run ∧ BuildEnding goOn units run' p q' attempts (.ok ()))
      (fun _ _ _ => False) run q := by
  simp only [endBuild, ensures_bind, ensures_now, ensures_modifyPhase]
  intro time
  refine ⟨by simp, h.completed fun r hr => ?_⟩
  have hattempts : attempts ≠ [] := fun hnil => hsome (by rw [← h.map_unit_eq, hnil]; rfl)
  have hlength : units.length = attempts.countP Attempt.usable + failed := by
    rw [← h.map_unit_eq, List.length_map, ← hfailed]
    simpa using List.length_eq_countP_add_countP Attempt.usable (l := attempts)
  rw [PhaseState.ofOutcomes_map hattempts]
  by_cases hall : failed = units.length
  · have hnone : attempts.countP Attempt.usable = 0 := by omega
    rw [if_pos hall, if_pos hnone]
    exact PhaseRecord.state_finish hr ..
  · have hany : ¬ attempts.countP Attempt.usable = 0 := by omega
    rw [if_neg hall, if_neg hany]
    exact PhaseRecord.state_finish ((PhaseRecord.noted_addLog _ _).isFinal_eq.trans hr) ..

/-- Units are attempted one after another, until there is none left or the phase ends. -/
def Attempts (lake : Workspace) (args : List String) (goOn : Bool) (units : List String)
    (before : List Answered) (p : Progress) (result : Except PipelineError Unit) (run : Run)
    (q : Progress) : Prop :=
  ∃ attempts : List Attempt, calls run = before ++ attempts.map (Attempt.call lake args) ∧
    BuildEnding goOn units run p q attempts result

/-- All units are built, or as many of them as the answers allow. -/
theorem ends_attempts (lake : Workspace) (args : List String) (hnodup : units.Nodup)
    (hsome : units ≠ []) (h : Amid goOn units [] units p q) :
    Ends (buildUnits lake args goOn units >>= fun failed => endBuild units.length failed)
      (Attempts lake args goOn units (calls run) p) run q := by
  have hcalls : calls run = calls run ++ ([] : List Attempt).map (Attempt.call lake args) := by simp
  refine (ensures_buildUnits_ending lake args hnodup hcalls h).bind ?_
  rintro failed run' q' ⟨attempts, hattempts, hcount, hamid⟩
  have hfailed : attempts.countP (! ·.usable) = failed := by
    rw [hcount]
    simp
  refine (ensures_endBuild_completed hamid hsome hfailed).mono ?_ fun _ _ _ hfalse => hfalse.elim
  rintro _ run'' q'' ⟨hsame, hending⟩
  exact ⟨attempts, hsame.trans hattempts, hending⟩

/-! ## The whole build phase -/

/-- The calls that clear the cache, if that is asked for. -/
def cleaning (lake : Workspace) (options : RunOptions) : List Answered :=
  if options.clean then [⟨.clean lake.root, .ok ()⟩] else []

/-- The calls that find units. -/
def search (lake : Workspace) (target : String) (found : List String) :
    ResolutionMode → List Answered
  | .direct => []
  | .isolated => [⟨.discover lake.root target, .ok found⟩]

/-- The units that a target stands for, in the order in which they are built, if some are found. -/
def unitsOf (target : String) (found : List String) : ResolutionMode → List String
  | .direct => [target]
  | .isolated => Resolution.deepestFirst found

/-- The calls before the first unit is built, if they all succeed. -/
def preparation (lake : Workspace) (target : String) (options : RunOptions)
    (found : List String) : List Answered :=
  cleaning lake options ++ search lake target found options.mode

/-- What a build phase comes to: the cache is not cleared, the units are not found, or they are
attempted. -/
def Concludes (lake : Workspace) (target : String) (options : RunOptions) (p : Progress)
    (result : Except PipelineError Unit) (run : Run) (q : Progress) : Prop :=
  (∃ fault, options.clean = true ∧ result = .error (.tool fault) ∧
    calls run = [⟨.clean lake.root, .error fault⟩]) ∨
  (∃ fault, options.mode = .isolated ∧ result = .error (.discovery fault) ∧
    calls run = cleaning lake options ++ [⟨.discover lake.root target, .error fault⟩]) ∨
  ∃ found, preparation lake target options found <+: calls run ∧
    ((unitsOf target found options.mode).Nodup →
      Attempts lake (buildArgs lake (Version.onBranch lake.version p.branch))
        options.continueOnFailure (unitsOf target found options.mode)
        (preparation lake target options found) p result run q)

theorem Attempts.concludes {lake : Workspace} {target : String} {options : RunOptions}
    {result : Except PipelineError Unit} (found : List String)
    (h : Attempts lake (buildArgs lake (Version.onBranch lake.version p.branch))
      options.continueOnFailure (unitsOf target found options.mode)
      (preparation lake target options found) p result run q) :
    Concludes lake target options p result run q := by
  obtain ⟨attempts, hcalls, -⟩ := id h
  refine Or.inr (Or.inr ⟨found, ?_, fun _ => h⟩)
  rw [hcalls]
  exact List.prefix_append ..

theorem ensures_cleanCache_searched (lake : Workspace) (h : p.Searched q) :
    Ensures (cleanCache lake)
      (fun _ run' q' => calls run' = calls run ++ [⟨.clean lake.root, .ok ()⟩] ∧ p.Searched q')
      (fun e run' _ => ∃ fault, e = .tool fault ∧
        calls run' = calls run ++ [⟨.clean lake.root, .error fault⟩]) run q := by
  simp only [cleanCache, ensures_bind, ensures_modifyPhase, ensures_push]
  refine (ensures_call _).mpr fun answer => ?_
  have hnamed := h.note fun r => r.noted_setSubPhase "Cleaning build cache"
  cases answer with
  | error fault =>
    rw [ensures_orThrow_error]
    exact ⟨fault, rfl, by simp⟩
  | ok _ =>
    simp only [ensures_orThrow_ok]
    exact ⟨by simp, hnamed.note fun r => r.noted_addLog _⟩

theorem ensures_resolveUnits_searched (lake : Workspace) (mode : ResolutionMode) (target : String)
    (h : p.Searched q) :
    Ensures (resolveUnits lake mode target)
      (fun units run' q' => ∃ found, units = unitsOf target found mode ∧
        calls run' = calls run ++ search lake target found mode ∧ p.Searched q')
      (fun e run' _ => ∃ fault, mode = .isolated ∧ e = .discovery fault ∧
        calls run' = calls run ++ [⟨.discover lake.root target, .error fault⟩]) run q := by
  cases mode with
  | direct => exact ⟨[], rfl, by simp [search], h⟩
  | isolated =>
    simp only [resolveUnits, ensures_bind, ensures_modifyPhase]
    refine (ensures_call _).mpr fun answer => ?_
    have hnamed := h.note fun r => r.noted_setSubPhase "Discovering bundle targets"
    cases answer with
    | error fault =>
      rw [ensures_orThrow_error]
      exact ⟨fault, trivial, rfl, by simp⟩
    | ok found =>
      simp only [ensures_orThrow_ok, ensures_pure]
      exact ⟨found, rfl, by simp [search], hnamed.note fun r => r.noted_addLog _⟩

/-- No units were found, so there is nothing to attempt. -/
theorem concludes_of_nil {lake : Workspace} {target : String} {options : RunOptions}
    {found : List String} (hopen : (p.phases.get .build).isFinal = false) (hq : p.Searched q)
    (hcalls : calls run = preparation lake target options found)
    (hunits : unitsOf target found options.mode = []) (time : UInt64) (reason : String) :
    Concludes lake target options p (.ok ()) run
      (q.modifyPhase .build fun r => (r.skip time reason).1) := by
  have hamid : Amid options.continueOnFailure [] [] [] p q := hq.amid hopen _ [] ""
  refine Attempts.concludes found ⟨[], by simp [hcalls], ?_⟩
  rw [hunits]
  exact hamid.completed fun r hr =>
    PhaseRecord.state_finish ((PhaseRecord.noted_addLog _ _).isFinal_eq.trans hr) ..

/-- The units that were found wait, and are attempted. -/
theorem ends_withUnits {lake : Workspace} {target : String} {options : RunOptions}
    {found : List String} (hopen : (p.phases.get .build).isFinal = false) (hq : p.Searched q)
    (hcalls : calls run = preparation lake target options found)
    (hunits : unitsOf target found options.mode ≠ []) :
    Ends (buildUnits lake (buildArgs lake (Version.onBranch lake.version q.branch))
        options.continueOnFailure (unitsOf target found options.mode) >>= fun failed =>
          endBuild (unitsOf target found options.mode).length failed)
      (Concludes lake target options p) run
      (q.withUnits (unitsOf target found options.mode)
        (Version.onBranch lake.version q.branch)) := by
  by_cases hnodup : (unitsOf target found options.mode).Nodup
  · have hamid := hq.amid hopen options.continueOnFailure (unitsOf target found options.mode)
      (Version.onBranch lake.version q.branch)
    refine Ends.mono (ends_attempts lake _ hnodup hunits hamid) fun result run q h => ?_
    rw [hcalls, hq.branch_eq] at h
    exact h.concludes found
  · refine Ends.mono (ends_extends _) ?_
    rintro result _ q ⟨more, rfl⟩
    refine Or.inr (Or.inr ⟨found, ?_, fun h => absurd h hnodup⟩)
    rw [calls_append, hcalls]
    exact List.prefix_append ..

/-- **The build phase.**  Its cache is not cleared, its units are not found, or its units are
attempted and it ends in one of the three ways. -/
theorem ends_build (lake : Workspace) (target : String) (options : RunOptions)
    (hopen : (p.phases.get .build).isFinal = false) :
    Ends (build lake target options) (Concludes lake target options p) [] p := by
  unfold build
  extract_lets buildAll
  have hbuildAll : ∀ (run : Run) (q : Progress), p.Searched q →
      calls run = cleaning lake options →
      Ends (buildAll ()) (Concludes lake target options p) run q := by
    intro run q hq hcleaned
    rw [Ends, ensures_bind]
    refine (ensures_resolveUnits_searched lake options.mode target hq).mono ?_ ?_
    · rintro units run q ⟨found, rfl, hcalls, hq⟩
      rw [hcleaned, ← preparation] at hcalls
      split
      · rename_i hempty
        have hnil : unitsOf target found options.mode = [] := List.isEmpty_iff.mp hempty
        simp only [ensures_bind, ensures_now, ensures_modifyPhase]
        exact fun time => concludes_of_nil hopen hq (by simp [hcalls]) hnil time _
      · rename_i hsome
        have hne : unitsOf target found options.mode ≠ [] := fun hnil => hsome (by rw [hnil]; rfl)
        simp only [ensures_bind, ensures_get, ensures_modify, ensures_push]
        rw [← ensures_bind]
        exact ends_withUnits hopen hq (by simp [hcalls]) hne
    · rintro e run q ⟨fault, hmode, rfl, hcalls⟩
      rw [hcleaned] at hcalls
      exact Or.inr (Or.inl ⟨fault, hmode, rfl, hcalls⟩)
  split
  · rename_i hclean
    rw [Ends, ensures_bind]
    refine (ensures_cleanCache_searched lake (.refl p)).mono ?_ ?_
    · rintro _ run q ⟨hcalls, hq⟩
      exact hbuildAll run q hq (by rw [hcalls, cleaning, if_pos hclean]; rfl)
    · rintro e run q ⟨fault, rfl, hcalls⟩
      exact Or.inl ⟨fault, hclean, rfl, hcalls⟩
  · rename_i hclean
    exact hbuildAll [] p (.refl p) (by rw [cleaning, if_neg hclean]; rfl)

end Pipeline

/-! ## Complete runs -/

namespace Pipeline

open Program

variable {run : Run} {p q : Progress} {lake : Workspace} {target : String} {options : RunOptions}
  {found found' : List String} {result : Except PipelineError Unit}

/-- A run tells which units were found, as far as that matters. -/
theorem preparation_unique {more : List Answered}
    (h : preparation lake target options found <+: more)
    (h' : preparation lake target options found' <+: more) :
    preparation lake target options found = preparation lake target options found' ∧
      unitsOf target found options.mode = unitsOf target found' options.mode := by
  have hlength : (search lake target found options.mode).length =
      (search lake target found' options.mode).length := by
    cases options.mode <;> rfl
  have hprefix : preparation lake target options found <+:
      preparation lake target options found' :=
    List.prefix_of_prefix_length_le h h' (by simp [preparation, hlength])
  have heq : preparation lake target options found = preparation lake target options found' :=
    hprefix.eq_of_length (by simp [preparation, hlength])
  refine ⟨heq, ?_⟩
  have hsearch := List.append_cancel_left heq
  cases hmode : options.mode with
  | direct => rfl
  | isolated =>
    rw [hmode] at hsearch
    have hfound : (Except.ok found : Except DiscoveryError (List String)) = .ok found' :=
      eq_of_heq (Sigma.mk.inj (List.cons.inj hsearch).1).2
    rw [Except.ok.inj hfound]

/-- **What a build phase comes to.**  If the cache was cleared, where that was asked for, and
different units were found, then however the build tool answers and whenever the build is asked to
stop: the units were given to the build tool in their order, and the phase ends in one of three
ways, which its result tells. -/
theorem attempted_of_prepared
    (h : Reaches ((build lake target options).start p) run (.done (result, q)))
    (hopen : (p.phases.get .build).isFinal = false)
    (hprepared : preparation lake target options found <+: calls run)
    (hnodup : (unitsOf target found options.mode).Nodup) :
    ∃ attempts : List Attempt,
      calls run = preparation lake target options found ++ attempts.map
        (Attempt.call lake (buildArgs lake (Version.onBranch lake.version p.branch))) ∧
      BuildEnding options.continueOnFailure (unitsOf target found options.mode) run p q attempts
        result := by
  have hbuild := ensures_iff.mp (ends_build lake target options hopen) run (result, q) h
  have hconcludes : Concludes lake target options p result run q := by
    cases result <;> exact hbuild
  rcases hconcludes with ⟨fault, hclean, -, hcalls⟩ | ⟨fault, hmode, -, hcalls⟩ |
    ⟨found', hfound, hends⟩
  · rw [hcalls, preparation, cleaning, if_pos hclean] at hprepared
    have hhead := (List.cons_prefix_cons.mp hprepared).1
    exact nomatch eq_of_heq (Sigma.mk.inj hhead).2
  · rw [hcalls, preparation, hmode] at hprepared
    have hhead := (List.cons_prefix_cons.mp ((List.prefix_append_right_inj _).mp hprepared)).1
    exact nomatch eq_of_heq (Sigma.mk.inj hhead).2
  · obtain ⟨hsame, hunits⟩ := preparation_unique hprepared hfound
    rw [hsame, hunits]
    exact hends (hunits ▸ hnodup)

/-- The answers to a build whose only unit has failed. -/
def buildFails : (q : Request) → q.Answer
  | .call (.build _ _ _) => .error (.timedOut "build" 600)
  | q => success q

/-- A build phase that has cleared the cache and has not built its unit. -/
theorem attempted_of_buildFails :
    ∃ run result q, Reaches ((build { root := "/lake" } "a" { clean := true }).start
        (.initial { root := "/lake" } "a" "main" 0)) run (.done (result, q)) ∧
      [⟨.clean "/lake", .ok ()⟩] <+: calls run ∧ q.statuses = [.failed] ∧
      ∃ attempts, BuildEnding false ["a"] run (.initial { root := "/lake" } "a" "main" 0) q attempts
        result := by
  have hrun := reaches_replay buildFails ((build { root := "/lake" } "a" { clean := true }).start
    (.initial { root := "/lake" } "a" "main" 0))
  have hprepared : preparation { root := "/lake" } "a" { clean := true } [] <+:
      calls (((build { root := "/lake" } "a" { clean := true }).start
        (.initial { root := "/lake" } "a" "main" 0)).replay buildFails).1 := ⟨_, rfl⟩
  obtain ⟨attempts, -, hending⟩ :=
    attempted_of_prepared hrun rfl hprepared (List.pairwise_singleton _ "a")
  exact ⟨_, _, _, hrun, hprepared, by decide, attempts, hending⟩

end Pipeline
end ProtoBuild
