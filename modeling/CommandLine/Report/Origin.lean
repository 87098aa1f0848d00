import CommandLine.Report.Diagnosis
import CommandLine.Supply

/-!
# Values of options and arguments

A report gives every option and argument the value that was converted for it, if there was one;
otherwise its default, evaluated when the value is asked for; otherwise, for a truth value, false.
A failed conversion gives no value.
-/

namespace CommandLine

/-- Where the value of an argument comes from. -/
inductive Origin where
  /-- There is no value. -/
  | absent
  /-- Raw values were converted to it. -/
  | given (value : Value)
  /-- The default of the argument supplies it. -/
  | supplied (argument : SymbolId) (supplier : Supplier)
  /-- The argument is a truth value that nothing sets. -/
  | unset

namespace Origin

/-- The value of an origin. -/
def value : Origin → Evaluating (Option Value)
  | .absent => pure none
  | .given value => pure (some value)
  | .supplied argument supplier => some <$> supplier.evaluate argument
  | .unset => pure (some (.bool false))

end Origin

/-- Where the value of an argument comes from that was not converted from anything. -/
def ArgumentNode.fallback (node : ArgumentNode) (argument : SymbolId) : Origin :=
  match node.default with
  | some supplier => .supplied argument supplier
  | none => if node.type.isBool then .unset else .absent

namespace Report

variable {β : Type}

/-- Where the value of a given argument comes from. -/
def argumentOrigin (report : Report β) (argument : SymbolId) : Origin :=
  match report.tree.argument? argument with
  | none => .absent
  | some node =>
      match (report.binding? argument).map fun binding => node.settle binding.raws with
      | some (.converted (.ok value)) => .given value
      | some (.converted (.error _)) => .absent
      | _ => node.fallback argument

/-- Where the value of an option or an argument comes from. -/
def origin (report : Report β) (id : SymbolId) : Origin :=
  match report.tree.role? id with
  | some (.option node) => report.argumentOrigin node.argument
  | some (.argument _) => report.argumentOrigin id
  | _ => .absent

/-- The value of an option or an argument. -/
def valueOf (report : Report β) (id : SymbolId) : Evaluating (Option Value) :=
  (report.origin id).value

end CommandLine.Report
