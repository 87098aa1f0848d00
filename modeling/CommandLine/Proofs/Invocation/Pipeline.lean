import CommandLine.Invocation
import CommandLine.Proofs.Report.Selection

/-!
# Running stops at the first failure

The actions of a report run one after another, each on the console that the one before it left. A
run takes them in order, every symbol's action at most once, and goes on as long as they end well.
So it ends with the first action that fails or panics, and then the exit code is 1, or with the
selected action, and then the exit code is its own. Errors that the selected action does not handle
are reported before any of this, and then nothing runs.

Cancellation is passed on to the actions and has no other part in this.
-/

namespace CommandLine

variable {β : Type}

/-- An action that ends well ends with an exit code. -/
theorem Outcome.eq_exit_of_goesOn {outcome : Outcome} (h : outcome.goesOn = true) :
    outcome = .exit outcome.code := by
  cases outcome with
  | exit code => rfl
  | failure message => cases h
  | panic stage message => cases h

/-- Every other end has the exit code of failures. -/
theorem Outcome.code_of_not_goesOn {outcome : Outcome} (h : outcome.goesOn = false) :
    outcome.code = 1 := by
  cases outcome with
  | exit code => cases h
  | failure message => rfl
  | panic stage message => rfl

namespace Report

/-! ## Runs of actions -/

/-- Actions that run one after another, each with how it ends. What is logged about an end is
logged before the next action starts. -/
inductive Runs (report : Report β) (perform : Performer β) (cancelled : Bool) :
    Console → List (Action β × Outcome) → Console → Prop where
  | nil (console : Console) : Runs report perform cancelled console [] console
  | cons {action : Action β} {outcome : Outcome} {before between after : Console}
      {rest : List (Action β × Outcome)}
      (hends : (perform action.body report cancelled).run before = (outcome, between))
      (hrest : Runs report perform cancelled
        { between with log := between.log ++ outcome.events } rest after) :
      Runs report perform cancelled before ((action, outcome) :: rest) after

/-- A run that takes the actions of a list in order up to the first that does not end well. -/
structure StopsAtFailure (actions : List (Action β)) (run : List (Action β × Outcome)) : Prop where
  started : run.map Prod.fst <+: actions
  goesOn : ∀ ended ∈ run.dropLast, ended.2.goesOn = true
  complete : (∀ ended ∈ run, ended.2.goesOn = true) → run.map Prod.fst = actions

/-- What becomes of a report whose actions are invoked, from one console to another. -/
structure Invoked (report : Report β) (perform : Performer β) (cancelled : Bool)
    (before : Console) (invocation : Invocation β) (after : Console) : Prop where
  /-- Errors that no selected action handles are reported, and that is all. -/
  refused : report.errors ≠ [] →
    (∀ selected, report.action? = some selected → selected.handlesErrors = false) →
      invocation = ⟨report.config.errorExitCode, []⟩ ∧
        after = { before with
          errors := before.errors ++ String.join (report.errors.map (·.text ++ "\n"))
          log := before.log ++ [.reportingErrors report.errors.length] }
  idle : report.errors = [] → report.action? = none → invocation = ⟨0, []⟩ ∧ after = before
  /-- Otherwise the exit code is 1 after a failure, and else that of the selected action. -/
  ran : ∀ selected, report.action? = some selected →
    report.errors = [] ∨ selected.handlesErrors = true →
      ∃ run, report.Runs perform cancelled before run after ∧
        StopsAtFailure (report.actionsAhead ++ [selected]) run ∧
        invocation.started = run.map Prod.fst ∧
        ((∃ last, run.getLast? = some last ∧ last.2.goesOn = false ∧ invocation.code = 1) ∨
          run.map Prod.fst = report.actionsAhead ++ [selected] ∧
            run.getLast? = some (selected, .exit invocation.code))
  /-- The actions that were started are those of distinct symbols. -/
  distinct : ∃ owners : List SymbolId, owners.Nodup ∧ owners <+: report.owners ∧
    owners.map report.tree.action? = invocation.started.map some

variable {report : Report β} {perform : Performer β} {cancelled : Bool} {before : Console}

/-- A run that stops at failure starts with some action if there is one. -/
theorem StopsAtFailure.ne_nil {actions : List (Action β)} {run : List (Action β × Outcome)}
    (h : StopsAtFailure actions run) (hactions : actions ≠ []) : run ≠ [] := by
  rintro rfl
  exact hactions (h.complete (by simp)).symm

/-- An action that does not end well is a run of its own, and so is one that nothing follows. -/
theorem StopsAtFailure.singleton {action : Action β} {rest : List (Action β)} {outcome : Outcome}
    (h : outcome.goesOn = true → rest = []) :
    StopsAtFailure (action :: rest) [(action, outcome)] := by
  refine ⟨by simp, by simp, fun hgoesOn => ?_⟩
  rw [h (hgoesOn (action, outcome) List.mem_cons_self)]
  rfl

/-- After an action that ends well the rest of the actions run. -/
theorem StopsAtFailure.cons {action : Action β} {rest : List (Action β)} {outcome : Outcome}
    {run : List (Action β × Outcome)} (h : StopsAtFailure rest run)
    (houtcome : outcome.goesOn = true) :
    StopsAtFailure (action :: rest) ((action, outcome) :: run) := by
  refine ⟨?_, ?_, ?_⟩
  · rw [List.map_cons, List.prefix_cons_inj]
    exact h.started
  · cases run with
    | nil => simp
    | cons next run =>
      rw [List.dropLast_cons_cons, List.forall_mem_cons]
      exact ⟨houtcome, h.goesOn⟩
  · intro hgoesOn
    rw [List.map_cons, h.complete fun ended hended => hgoesOn ended (List.mem_cons_of_mem _ hended)]

/-- A run ends with a failure, or with the last action and the exit code that this one gives. -/
theorem StopsAtFailure.code_cases {ahead : List (Action β)} {selected : Action β}
    {run : List (Action β × Outcome)} (h : StopsAtFailure (ahead ++ [selected]) run) :
    (∃ last, run.getLast? = some last ∧ last.2.goesOn = false ∧
        (run.getLast?.map (·.2.code)).getD 0 = 1) ∨
      run.map Prod.fst = ahead ++ [selected] ∧
        run.getLast? = some (selected, .exit ((run.getLast?.map (·.2.code)).getD 0)) := by
  obtain ⟨earlier, ⟨action, outcome⟩, rfl⟩ :=
    (List.eq_nil_or_concat' run).resolve_left (h.ne_nil (by simp))
  rw [List.getLast?_concat, Option.map_some, Option.getD_some]
  cases hgoesOn : outcome.goesOn with
  | false => exact Or.inl ⟨_, rfl, hgoesOn, Outcome.code_of_not_goesOn hgoesOn⟩
  | true =>
    have hall : (earlier ++ [(action, outcome)]).map Prod.fst = ahead ++ [selected] := by
      refine h.complete fun ended hended => ?_
      rcases List.mem_append.mp hended with hearlier | hlast
      · exact h.goesOn ended (by rwa [List.dropLast_concat])
      · rw [List.mem_singleton.mp hlast]
        exact hgoesOn
    have hselected : action = selected := by
      simpa using congrArg List.getLast? hall
    exact Or.inr ⟨hall, by rw [hselected, ← Outcome.eq_exit_of_goesOn hgoesOn]⟩

/-! ## The code of a run -/

/-- What one action does. -/
theorem run_runAction (report : Report β) (perform : Performer β) (cancelled : Bool)
    (action : Action β) (before : Console) :
    (report.runAction perform cancelled action).run before =
      let ended := (perform action.body report cancelled).run before
      (ended.1, { ended.2 with log := ended.2.log ++ ended.1.events }) := rfl

/-- What the first action of several does, and the rest if it goes on. -/
theorem run_runActions_cons (report : Report β) (perform : Performer β) (cancelled : Bool)
    (action : Action β) (rest : List (Action β)) (before : Console) :
    (report.runActions perform cancelled (action :: rest)).run before =
      let ended := (report.runAction perform cancelled action).run before
      if ended.1.goesOn && !rest.isEmpty then
        let others := (report.runActions perform cancelled rest).run ended.2
        (⟨others.1.code, action :: others.1.started⟩, others.2)
      else (⟨ended.1.code, [action]⟩, ended.2) := by
  rw [runActions]
  change StateT.run
    (if ((report.runAction perform cancelled action).run before).1.goesOn && !rest.isEmpty then _
      else _) _ = _
  dsimp only
  split <;> rfl

/-- Running actions is a run of them that stops at the first failure, with the code of its end. -/
theorem exists_runs (report : Report β) (perform : Performer β) (cancelled : Bool)
    (actions : List (Action β)) (before : Console) :
    ∃ run after, report.Runs perform cancelled before run after ∧ StopsAtFailure actions run ∧
      (report.runActions perform cancelled actions).run before =
        (⟨(run.getLast?.map (·.2.code)).getD 0, run.map Prod.fst⟩, after) := by
  induction actions generalizing before with
  | nil => exact ⟨[], before, .nil before, ⟨List.prefix_rfl, by simp, fun _ => rfl⟩, rfl⟩
  | cons action rest ih =>
    obtain ⟨⟨outcome, between⟩, hends⟩ :
        ∃ ended, (perform action.body report cancelled).run before = ended := ⟨_, rfl⟩
    rw [run_runActions_cons, run_runAction, hends]
    dsimp only
    by_cases hgoesOn : (outcome.goesOn && !rest.isEmpty) = true
    · obtain ⟨hwell, hmore⟩ := Bool.and_eq_true_iff.mp hgoesOn
      obtain ⟨run, after, hruns, hstops, hrest⟩ :=
        ih { between with log := between.log ++ outcome.events }
      have hne : run ≠ [] := hstops.ne_nil (by simpa using hmore)
      refine ⟨(action, outcome) :: run, after, .cons hends hruns, hstops.cons hwell, ?_⟩
      rw [if_pos hgoesOn, hrest, List.getLast?_cons_of_ne_nil hne, List.map_cons]
    · rw [if_neg hgoesOn]
      refine ⟨[(action, outcome)], _, .cons hends (.nil _), .singleton fun hwell => ?_, rfl⟩
      simpa [hwell] using hgoesOn

/-! ## Cancellation -/

/-- An action depends on cancellation only through what its body does. -/
theorem runActions_cancelled (report : Report β) (perform : Performer β)
    (cancelled other : Bool) (actions : List (Action β)) :
    report.runActions perform cancelled actions =
      report.runActions (fun body report _ => perform body report cancelled) other actions := by
  induction actions with
  | nil => rfl
  | cons action rest ih =>
    rw [runActions, runActions, ih]
    rfl

/-- Invoking a report depends on cancellation only through what the bodies of its actions do. -/
theorem invoke_cancelled (report : Report β) (perform : Performer β) (cancelled other : Bool) :
    report.invoke perform cancelled =
      report.invoke (fun body report _ => perform body report cancelled) other := by
  rw [invoke, invoke]
  cases report.action? with
  | none => rfl
  | some selected => simp only [runActions_cancelled report perform cancelled other]

/-! ## Invoking a report -/

/-- The lines of several errors are printed one after another. -/
theorem run_printErrors (errors : List ParseError) (before : Console) :
    (errors.forM fun error => Console.printError error.text).run before =
      ((), { before with
        errors := before.errors ++ String.join (errors.map (·.text ++ "\n")) }) := by
  induction errors generalizing before with
  | nil =>
    rw [List.map_nil, String.join_nil, String.append_empty]
    rfl
  | cons error rest ih =>
    change StateT.run (rest.forM _) { before with errors := before.errors ++ error.text ++ "\n" } = _
    rw [ih, List.map_cons, String.join_cons]
    simp only [String.append_assoc]

/-- A report is refused if it has errors that no selected action handles. -/
theorem isRefused_iff : report.isRefused = true ↔ report.errors ≠ [] ∧
    ∀ selected, report.action? = some selected → selected.handlesErrors = false := by
  rw [isRefused, Bool.and_eq_true]
  refine and_congr (by simp) ?_
  cases report.action? <;> simp

/-- A refused report has its errors reported. -/
theorem run_invoke_of_isRefused (h : report.isRefused = true) :
    (report.invoke perform cancelled).run before =
      (⟨report.config.errorExitCode, []⟩, { before with
        errors := before.errors ++ String.join (report.errors.map (·.text ++ "\n"))
        log := before.log ++ [.reportingErrors report.errors.length] }) := by
  rw [invoke, if_pos h]
  change (Invocation.mk report.config.errorExitCode [],
    (StateT.run (report.errors.forM fun error => Console.printError error.text)
      { before with log := before.log ++ [.reportingErrors report.errors.length] }).2) = _
  rw [run_printErrors]

/-- Without an action to select nothing runs. -/
theorem run_invoke_of_none (h : report.isRefused = false) (hnone : report.action? = none) :
    (report.invoke perform cancelled).run before = (⟨0, []⟩, before) := by
  rw [invoke, if_neg (by simp [h]), hnone]
  rfl

/-- Otherwise the selected action runs after those ahead of it. -/
theorem run_invoke_of_some (h : report.isRefused = false) {selected : Action β}
    (hselected : report.action? = some selected) :
    (report.invoke perform cancelled).run before =
      (report.runActions perform cancelled (report.actionsAhead ++ [selected])).run before := by
  rw [invoke, if_neg (by simp [h]), hselected]

/-- With no action ahead of it the selected action runs alone. -/
theorem run_invoke_of_alone (h : report.isRefused = false) {selected : Action β}
    (hselected : report.action? = some selected) (hahead : report.actionsAhead = []) :
    (report.invoke perform cancelled).run before =
      let ended := (perform selected.body report cancelled).run before
      (⟨ended.1.code, [selected]⟩, { ended.2 with log := ended.2.log ++ ended.1.events }) := by
  rw [run_invoke_of_some h hselected, hahead, List.nil_append, run_runActions_cons,
    run_runAction]
  simp

/-- What an invocation started is a run of the actions that are to run, from the first one on. -/
theorem isPrefix_started (report : Report β) (perform : Performer β) (cancelled : Bool)
    (before : Console) :
    ((report.invoke perform cancelled).run before).1.started <+: report.pipeline := by
  cases hrefused : report.isRefused with
  | true =>
    rw [run_invoke_of_isRefused hrefused]
    exact List.nil_prefix
  | false =>
    cases hselected : report.action? with
    | none =>
      rw [run_invoke_of_none hrefused hselected]
      exact List.nil_prefix
    | some selected =>
      obtain ⟨run, after, -, hstops, hrun⟩ := exists_runs report perform cancelled
        (report.actionsAhead ++ [selected]) before
      rw [run_invoke_of_some hrefused hselected, hrun, pipeline, hselected]
      exact hstops.started

/-- What runs of the actions that are to run belongs to distinct symbols. -/
theorem exists_owners {started : List (Action β)} (h : started <+: report.pipeline) :
    ∃ owners : List SymbolId, owners.Nodup ∧ owners <+: report.owners ∧
      owners.map report.tree.action? = started.map some := by
  refine ⟨report.owners.take started.length, report.nodup_owners.sublist (List.take_sublist _ _),
    List.take_prefix _ _, ?_⟩
  rw [List.map_take, map_action?_owners, ← List.map_take, ← List.prefix_iff_eq_take.mp h]

/-- What comes of invoking a report is as described. -/
theorem invoked_of_run {invocation : Invocation β} {after : Console}
    (h : (report.invoke perform cancelled).run before = (invocation, after)) :
    report.Invoked perform cancelled before invocation after := by
  refine ⟨?_, ?_, ?_, ?_⟩
  · intro herrors hintolerant
    rw [run_invoke_of_isRefused (isRefused_iff.mpr ⟨herrors, hintolerant⟩)] at h
    exact (Prod.ext_iff.mp h).imp Eq.symm Eq.symm
  · intro herrors hnone
    rw [run_invoke_of_none (by simp [isRefused, herrors]) hnone] at h
    exact (Prod.ext_iff.mp h).imp Eq.symm Eq.symm
  · intro selected hselected hallowed
    have hrefused : report.isRefused = false := by
      rcases hallowed with herrors | hhandles
      · simp [isRefused, herrors]
      · simp [isRefused, hselected, hhandles]
    obtain ⟨run, last, hruns, hstops, hrun⟩ := exists_runs report perform cancelled
      (report.actionsAhead ++ [selected]) before
    rw [run_invoke_of_some hrefused hselected, hrun] at h
    obtain ⟨rfl, rfl⟩ := Prod.mk.inj h
    exact ⟨run, hruns, hstops, rfl, hstops.code_cases⟩
  · have hstarted := isPrefix_started report perform cancelled before
    rw [h] at hstarted
    exact exists_owners hstarted

/-- Invoking a report runs the actions ahead of the selected one and then that one, up to the first
that fails or panics, whatever the bodies of the actions do and wherever they start from. Where
nothing can be cancelled it is the same as with nothing cancelled, and a cancellation that was
asked for changes nothing but what the bodies are told. -/
theorem exists_invoked (report : Report β) (perform : Performer β) (cancelled : Bool)
    (before : Console) :
    (∃ invocation after, (report.invoke perform cancelled).run before = (invocation, after) ∧
      report.Invoked perform cancelled before invocation after) ∧
      report.invokeBlocking perform = report.invoke perform false ∧
      ∀ other, report.invoke perform cancelled =
        report.invoke (fun body report _ => perform body report cancelled) other :=
  ⟨⟨_, _, rfl, invoked_of_run rfl⟩, rfl, report.invoke_cancelled perform cancelled⟩

end Report

end CommandLine
