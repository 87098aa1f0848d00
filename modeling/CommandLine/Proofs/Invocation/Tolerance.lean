import CommandLine.Proofs.Invocation.Pipeline
import CommandLine.Proofs.Report.Genuine
import CommandLine.CommandTree.Build

/-!
# Running in spite of errors

For a report with errors something runs only if the selected action handles errors. The actions
that run ahead of it are not asked: they run because they are not exclusive. So what runs for a
report with errors handles errors, whatever the bodies of the actions do, exactly if no action that
does not handle errors stands ahead of a selected one that does.
-/

namespace CommandLine

variable {β : Type}

namespace Report

variable {report : Report β} {perform : Performer β} {cancelled : Bool} {before after : Console}

/-- In a run of bodies that all end well every action goes on. -/
theorem Runs.goesOn {run : List (Action β × Outcome)}
    (hperform : ∀ body console, ((perform body report cancelled).run console).1.goesOn = true)
    (h : report.Runs perform cancelled before run after) :
    ∀ ended ∈ run, ended.2.goesOn = true := by
  induction h with
  | nil console => simp
  | @cons action outcome before between after rest hends hrest ih =>
    have houtcome := hperform action.body before
    rw [hends] at houtcome
    exact List.forall_mem_cons.mpr ⟨houtcome, ih⟩

/-- Bodies that all end well run from the first to the last, unless the report is refused. -/
theorem started_of_goesOn
    (hperform : ∀ body console, ((perform body report cancelled).run console).1.goesOn = true)
    {selected : Action β} (hselected : report.action? = some selected)
    (hrefused : report.isRefused = false) :
    ((report.invoke perform cancelled).run before).1.started =
      report.actionsAhead ++ [selected] := by
  obtain ⟨run, after, hruns, hstops, hrun⟩ := exists_runs report perform cancelled
    (report.actionsAhead ++ [selected]) before
  rw [run_invoke_of_some hrefused hselected, hrun]
  exact hstops.complete (hruns.goesOn hperform)

/-- A report with errors that is not refused has a selected action that handles errors. -/
theorem exists_handlesErrors (herrors : report.errors ≠ []) (hrefused : report.isRefused = false) :
    ∃ selected, report.action? = some selected ∧ selected.handlesErrors = true := by
  cases hselected : report.action? with
  | none => simp [isRefused, herrors, hselected] at hrefused
  | some selected =>
    exact ⟨selected, rfl, by simpa [isRefused, herrors, hselected] using hrefused⟩

/-- What is started for a report with errors. -/
structure Tolerated (report : Report β) (started : List (Action β)) : Prop where
  /-- Nothing is started unless the selected action handles errors. -/
  selected : started ≠ [] →
    ∃ selected, report.action? = some selected ∧ selected.handlesErrors = true
  /-- What does not handle errors runs ahead of the selected action, and is not exclusive. -/
  ahead : ∀ action ∈ started, action.handlesErrors = false →
    action ∈ report.actionsAhead ∧ action.exclusive = false

/-- Errors leave the actions to run that the selected one lets pass. -/
theorem tolerated_started (herrors : report.errors ≠ []) (perform : Performer β)
    (cancelled : Bool) (before : Console) :
    report.Tolerated ((report.invoke perform cancelled).run before).1.started := by
  cases hrefused : report.isRefused with
  | true =>
    rw [run_invoke_of_isRefused hrefused]
    exact ⟨fun hstarted => absurd rfl hstarted, fun action haction => by cases haction⟩
  | false =>
    obtain ⟨selected, hselected, hhandles⟩ := exists_handlesErrors herrors hrefused
    refine ⟨fun _ => ⟨selected, hselected, hhandles⟩, fun action haction hintolerant => ?_⟩
    have hmem := (isPrefix_started report perform cancelled before).subset haction
    rw [pipeline, hselected, Option.toList_some, List.mem_append, List.mem_singleton] at hmem
    -- The selected action itself handles errors, so this one is ahead of it.
    have hahead := hmem.resolve_right (by rintro rfl; simp [hhandles] at hintolerant)
    exact ⟨hahead, exclusive_of_mem_actionsAhead hahead⟩

/-- For a report with errors all that is started handles errors, whatever the bodies of the actions
do, exactly if the selected action does not handle errors or all actions ahead of it do. In any case
nothing is started without a selected action that handles errors, and what does not handle them
runs ahead of that one. -/
theorem handlesErrors_started_iff (herrors : report.errors ≠ []) :
    (∀ perform cancelled before,
      report.Tolerated ((report.invoke perform cancelled).run before).1.started) ∧
    ((∀ perform cancelled before,
        ∀ action ∈ ((report.invoke perform cancelled).run before).1.started,
          action.handlesErrors = true) ↔
      ∀ selected, report.action? = some selected → selected.handlesErrors = true →
        ∀ action ∈ report.actionsAhead, action.handlesErrors = true) := by
  refine ⟨tolerated_started herrors, ?_, ?_⟩
  · intro hstarted selected hselected hhandles action haction
    have hrefused : report.isRefused = false := by
      simp [isRefused, hselected, hhandles]
    refine hstarted (fun _ _ _ => pure (.exit 0)) false {} action ?_
    rw [started_of_goesOn (fun _ _ => rfl) hselected hrefused]
    exact List.mem_append_left _ haction
  · intro hahead perform cancelled before action haction
    obtain ⟨htolerant, hothers⟩ := tolerated_started herrors perform cancelled before
    obtain ⟨selected, hselected, hhandles⟩ := htolerant (List.ne_nil_of_mem haction)
    by_contra hintolerant
    have hmem := (hothers action haction (by simpa using hintolerant)).1
    exact hintolerant (hahead selected hselected hhandles action hmem)

end Report

namespace CommandTree

/-- A program with an option that traces what runs, and one that looks into errors. -/
def traced : CommandTree Unit :=
  (new { name := "app" }).editAll
    [.addOption root
        { aliases := ["--trace"], action := some { exclusive := false, body := () } } false,
      .addOption root
        { aliases := ["--doctor"], action := some { handlesErrors := true, body := () } } false]

end CommandTree

namespace Report

/-- With an unknown token ahead of the two options, errors are let pass. -/
theorem tolerated_traced :
    ∃ report, CommandTree.traced.parse {} CommandTree.root ["junk", "--trace", "--doctor"] =
        .ok report ∧ report.errors ≠ [] ∧
      ((∀ perform cancelled before,
        report.Tolerated ((report.invoke perform cancelled).run before).1.started) ∧
      ((∀ perform cancelled before,
          ∀ action ∈ ((report.invoke perform cancelled).run before).1.started,
            action.handlesErrors = true) ↔
        ∀ selected, report.action? = some selected → selected.handlesErrors = true →
          ∀ action ∈ report.actionsAhead, action.handlesErrors = true)) :=
  ⟨_, CommandTree.parse_eq_report (by decide) Config.utf8Size_eq_one _, by decide +kernel,
    handlesErrors_started_iff (by decide +kernel)⟩

/-- The tracing action runs then, though it does not handle errors. -/
theorem intolerant_started_traced :
    ∃ report, CommandTree.traced.parse {} CommandTree.root ["junk", "--trace", "--doctor"] =
        .ok report ∧ report.errors ≠ [] ∧
      ∃ action ∈ ((report.invoke (fun _ _ _ => pure (.exit 0)) false).run {}).1.started,
        action.handlesErrors = false :=
  ⟨_, CommandTree.parse_eq_report (by decide) Config.utf8Size_eq_one _, by decide +kernel,
    by decide +kernel⟩

end Report

end CommandLine
