import Mathlib.Data.List.Induction
import ProtoBuild.Console
import ProtoBuild.Proofs.Progress.Onward

/-!
# What the console has printed of a log

The console is shown whole logs and prints of each what it has not printed before.  All that it
remembers is a number for each phase.  So what it prints of a log is the log itself only if the
logs that it is shown are the beginnings of one another: then the number is the length of the
log that was shown last, and the lines that were printed are its lines (`InStep`).

To say which of the printed texts are lines of a log, and of which one, the console's answers
are read as `Line`s.  `reactAll_eq` says that their texts are what the console prints.
-/

namespace ProtoBuild

namespace Console

/-! ## Lines -/

/-- A line that the console prints. -/
inductive Line where
  | heading (phase : Phase)
  | log (phase : Phase) (line : String)
  | failure (phase : Phase) (message : Option String)

/-- The text of a line. -/
def Line.text (painter : Painter) : Line → String
  | heading phase => painter.header "==>" ++ " " ++ title phase
  | log _ line => indent (painter.muted line)
  | failure phase message => indent (phase.text ++ " failed: " ++ message.getD "unknown error")

/-- The line of a log that a line is, if it is one of this phase. -/
def Line.logOf? (phase : Phase) : Line → Option String
  | log q line => if q = phase then some line else none
  | _ => none

/-- What is printed of the log of a phase, among other lines. -/
def logOf (phase : Phase) (lines : List Line) : List String :=
  lines.filterMap (Line.logOf? phase)

/-- The lines that the console prints when something happens. -/
def respond (c : Console) : Event → List Line
  | .phaseStarted phase => [.heading phase]
  | .phaseCompleted _ true _ => []
  | .phaseCompleted phase false message => [.failure phase message]
  | .updated p => Phase.all.flatMap fun phase => (c.newLines p phase).map (.log phase)
  | .completed _ => []
  | .failed _ => []

/-- The lines that the console prints during some events. -/
def transcript (c : Console) : List Event → List Line
  | [] => []
  | e :: es => c.respond e ++ (c.react e).2.transcript es

/-- The console after some events. -/
def after (c : Console) : List Event → Console
  | [] => c
  | e :: es => (c.react e).2.after es

variable {c : Console} {es es' : List Event} {e : Event} {p : Progress} {phase : Phase}

theorem react_fst (c : Console) (e : Event) :
    (c.react e).1 = (c.respond e).map (Line.text c.painter) := by
  cases e with
  | updated p =>
    show (Phase.all.flatMap (c.newLines p)).map _ = _
    simp [respond, List.map_flatMap, Function.comp_def, Line.text]
  | phaseCompleted phase success message => cases success <;> rfl
  | _ => rfl

theorem painter_react (c : Console) (e : Event) : (c.react e).2.painter = c.painter := by
  cases e with
  | phaseCompleted phase success message => cases success <;> rfl
  | _ => rfl

/-- What the console prints is the text of its lines. -/
theorem reactAll_eq (c : Console) (es : List Event) :
    c.reactAll es = (c.transcript es).map (Line.text c.painter) := by
  induction es generalizing c with
  | nil => rfl
  | cons e rest ih =>
    show (c.react e).1 ++ (c.react e).2.reactAll rest = _
    rw [ih, react_fst, painter_react, transcript, List.map_append]

theorem transcript_append (c : Console) (es es' : List Event) :
    c.transcript (es ++ es') = c.transcript es ++ (c.after es).transcript es' := by
  induction es generalizing c with
  | nil => rfl
  | cons e rest ih => rw [List.cons_append, transcript, ih, transcript, after, List.append_assoc]

theorem after_append (c : Console) (es es' : List Event) :
    c.after (es ++ es') = (c.after es).after es' := by
  induction es generalizing c with
  | nil => rfl
  | cons e rest ih => exact ih _

@[simp] theorem logOf_append (lines more : List Line) :
    logOf phase (lines ++ more) = logOf phase lines ++ logOf phase more :=
  List.filterMap_append

theorem logOf_map_log (q phase : Phase) (lines : List String) :
    logOf phase (lines.map (.log q)) = if q = phase then lines else [] := by
  rw [logOf, List.filterMap_map]
  by_cases hq : q = phase
  · subst hq
    simp [Function.comp_def, Line.logOf?]
  · simp [Function.comp_def, Line.logOf?, hq]

/-- Of an update, what is printed of the log of a phase are its new lines. -/
theorem logOf_updated (c : Console) (p : Progress) (phase : Phase) :
    logOf phase (c.respond (.updated p)) = c.newLines p phase := by
  have hparts : logOf phase (c.respond (.updated p)) =
      Phase.all.flatMap fun q => if q = phase then c.newLines p q else [] := by
    rw [respond, logOf, List.filterMap_flatMap]
    exact congrArg (Phase.all.flatMap ·) (funext fun q => logOf_map_log q phase _)
  rw [hparts]
  cases phase <;> simp [Phase.all]

/-- What is no update prints no line of a log and leaves the console as it is. -/
theorem silent_of_progress?_eq_none (h : e.progress? = none) :
    (∀ phase, logOf phase (c.respond e) = []) ∧ (c.react e).2 = c := by
  cases e with
  | updated p => exact nomatch h
  | phaseCompleted phase success message => cases success <;> exact ⟨fun _ => rfl, rfl⟩
  | _ => exact ⟨fun _ => rfl, rfl⟩

/-! ## In step with what was shown -/

/-- The progress that was shown last. -/
def lastUpdate? (es : List Event) : Option Progress := (es.filterMap Event.progress?).getLast?

/-- The log of a phase as it was shown last. -/
def lastLog (phase : Phase) (es : List Event) : List String :=
  ((lastUpdate? es).map fun p => (p.phases.get phase).log).getD []

/-- The logs that are shown are the beginnings of one another. -/
def Growing (es : List Event) : Prop := (es.filterMap Event.progress?).Pairwise Progress.LogsGrow

/-- Of each log the console has printed what was shown last, and it remembers how long that is. -/
structure InStep (c : Console) (es : List Event) : Prop where
  printed : ∀ phase, logOf phase (c.transcript es) = lastLog phase es
  cursor : ∀ phase, (c.after es).printed phase = (lastLog phase es).length

theorem lastLog_updated (es : List Event) (p : Progress) (phase : Phase) :
    lastLog phase (es ++ [.updated p]) = (p.phases.get phase).log := by
  simp [lastLog, lastUpdate?, Event.progress?]

theorem lastLog_of_progress?_eq_none (h : e.progress? = none) (es : List Event)
    (phase : Phase) : lastLog phase (es ++ [e]) = lastLog phase es := by
  simp [lastLog, lastUpdate?, h]

/-- The log that was shown last is the beginning of that of the next update. -/
theorem Growing.lastLog_prefix (h : Growing (es ++ [.updated p])) (phase : Phase) :
    lastLog phase es <+: (p.phases.get phase).log := by
  rw [Growing, List.filterMap_append, List.pairwise_append] at h
  obtain ⟨-, -, hbefore⟩ := h
  unfold lastLog
  cases hlast : lastUpdate? es with
  | none => exact List.nil_prefix
  | some d => exact hbefore d (List.mem_of_getLast? hlast) p (List.mem_singleton_self p) phase

theorem InStep.update (h : InStep c es) (hgrows : Growing (es ++ [.updated p])) :
    InStep c (es ++ [.updated p]) where
  printed phase := by
    obtain ⟨more, hmore⟩ := hgrows.lastLog_prefix phase
    rw [transcript_append, logOf_append, h.printed phase, lastLog_updated]
    show lastLog phase es ++ logOf phase ((c.after es).respond (.updated p) ++ []) = _
    rw [List.append_nil, logOf_updated, newLines, h.cursor phase, ← hmore, List.drop_left]
  cursor phase := by
    rw [after_append, lastLog_updated]
    show max ((c.after es).printed phase) (p.phases.get phase).log.length = _
    rw [h.cursor phase]
    exact Nat.max_eq_right (hgrows.lastLog_prefix phase).length_le

theorem InStep.silent (h : InStep c es) (he : e.progress? = none) : InStep c (es ++ [e]) := by
  obtain ⟨hprints, hstays⟩ := silent_of_progress?_eq_none (c := c.after es) he
  refine ⟨fun phase => ?_, fun phase => ?_⟩
  · rw [transcript_append, logOf_append, lastLog_of_progress?_eq_none he, h.printed phase]
    show lastLog phase es ++ logOf phase ((c.after es).respond e ++ []) = _
    rw [List.append_nil, hprints phase, List.append_nil]
  · rw [after_append, lastLog_of_progress?_eq_none he]
    show ((c.after es).react e).2.printed phase = _
    rw [hstays]
    exact h.cursor phase

/-- **The console stays in step.**  If the logs that it is shown only grow, a new console prints
each log as it was shown last: each line once, and in order. -/
theorem inStep_of_growing (painter : Painter) (h : Growing es) :
    InStep { painter := painter } es := by
  induction es using List.reverseRecOn with
  | nil => exact ⟨fun _ => rfl, fun _ => rfl⟩
  | append_singleton es e ih =>
    have hbefore : Growing es := by
      rw [Growing, List.filterMap_append] at h
      exact (List.pairwise_append.mp h).1
    cases he : e.progress? with
    | none => exact (ih hbefore).silent he
    | some p =>
      cases e with
      | updated q => exact (ih hbefore).update h
      | _ => exact nomatch he

end Console
end ProtoBuild
