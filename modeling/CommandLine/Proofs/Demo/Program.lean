import CommandLine.Demo.Program
import CommandLine.Proofs.CommandTree.Ancestors
import CommandLine.Proofs.CommandTree.Building
import CommandLine.Proofs.Invocation.Pipeline
import CommandLine.Proofs.Report.Growth

/-!
# The trees of the demonstration

The declarations of the program and those of its sample program go through. What the proofs about
the program need to know of its tree is read off here, once: which symbols are commands, which
options act, and what the two commands that take a line have in common.
-/

namespace CommandLine.Demo

open CommandTree

/-- The tree of the program. -/
def program : CommandTree Body := (commandTree id).toOption.getD (.new { name := "" })

/-- The tree of the sample program. -/
def sampleTree : CommandTree StandardAction := (sampleApp id).toOption.getD (.new { name := "" })

/-- The declarations of the program go through. -/
theorem commandTree_eq : commandTree id = .ok program := rfl

/-- The declarations of the sample program go through. -/
theorem sampleApp_eq : sampleApp id = .ok sampleTree := rfl

/-- The tree of the program is reachable. -/
theorem reachable_program : Reachable program :=
  Build.Reaches.reachable
    (Build.reaches_bind (Build.reaches_edit _) fun _ =>
      Build.reaches_bind (Build.reaches_edit _) fun _ =>
      Build.reaches_bind (Build.reaches_edit _) fun _ =>
      Build.reaches_bind (Build.reaches_edit _) fun _ =>
      Build.reaches_bind (Build.reaches_edit _) fun _ =>
      Build.reaches_bind (Build.reaches_edit _) fun _ =>
      Build.reaches_bind (Build.reaches_action _ _) fun _ =>
      Build.reaches_bind (Build.reaches_edit _) fun _ =>
      Build.reaches_bind (Build.reaches_edit _) fun _ =>
      Build.reaches_action _ _)
    commandTree_eq

/-- What a report leaves behind when its actions were invoked. -/
def ran (report : Report Body) : Run :=
  let ended := (report.invoke Body.perform false).run {}
  { code := ended.1.code, output := ended.2.output, errors := ended.2.errors }

/-- The program parses its arguments and invokes the actions of the report. -/
theorem run_eq (arguments : List String) :
    run arguments = .ok (ran (program.report {} root arguments)) := by
  have hparse := @parse_eq_report Body program {} root rfl Config.utf8Size_eq_one arguments
  rw [run, commandTree_eq]
  simp only [bind, Except.bind, hparse]
  rfl

/-- Every action of the program is exclusive. -/
theorem exclusive_of_action? {id : SymbolId} {action : Action Body}
    (haction : program.action? id = some action) : action.exclusive = true := by
  have hall : ∀ id < program.size, (program.action? id).all (·.exclusive) = true := by decide
  have hid : id < program.size := lt_size_of_isSome_bind (Option.isSome_of_eq_some haction)
  simpa [haction] using hall id hid

/-- In the program no action runs ahead of another. -/
theorem actionsAhead_eq_nil {report : Report Body} (htree : report.tree = program) :
    report.actionsAhead = [] := by
  rw [List.eq_nil_iff_forall_not_mem]
  intro action hmem
  have hlax := Report.exclusive_of_mem_actionsAhead hmem
  obtain ⟨id, -, haction⟩ := List.mem_filterMap.mp hmem
  rw [htree] at haction
  simp [exclusive_of_action? haction] at hlax

/-- The aliases of the program's own options that can be given behind a subcommand. -/
def ownAliases : List String := ["--json", "--verbose", "-v", "--help", "-h", "-?"]

/-- What the commands that take a line have in common. -/
structure TakesLine (command line : SymbolId) (task : SymbolId → SymbolId → Task) : Prop where
  commands : program.commands command = []
  arguments : program.arguments command = [line]
  argument : program.argument? line = some { type := .list .string, arity := .zeroOrMore }
  lenient : (program.command? command).any (·.strict) = false
  acts : (program.command? command).any (·.action.isSome) = true
  action : program.action? command = some { body := .task (task line 1) }
  aliases : (program.scope command).entries.map (·.1) = ownAliases.reverse
  task : task = .split ∨ task = .parse

/-- The command that prints the tokens of a line takes one. -/
theorem takesLine_split : TakesLine 9 10 .split where
  commands := rfl
  arguments := rfl
  argument := rfl
  lenient := rfl
  acts := rfl
  action := rfl
  aliases := by
    rw [scope, declaredOptions, ancestors_of_parent? rfl (by decide), ancestors_of_parent?_eq_none rfl]
    rfl
  task := .inl rfl

/-- The command that parses a line takes one. -/
theorem takesLine_parse : TakesLine 11 12 .parse where
  commands := rfl
  arguments := rfl
  argument := rfl
  lenient := rfl
  acts := rfl
  action := rfl
  aliases := by
    rw [scope, declaredOptions, ancestors_of_parent? rfl (by decide), ancestors_of_parent?_eq_none rfl]
    rfl
  task := .inr rfl

end CommandLine.Demo
