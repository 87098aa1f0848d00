import CommandLine.Help
import Mathlib.Data.List.DropRight
import Mathlib.Data.List.Forall2

/-!
# Help pages

A help text is written from a page: a description, a usage line, and the rows of three sections.
Rows are made one after another, because a row can show a default and a default is evaluated when it
is shown. What a row's left column says does not depend on that, so the left columns of a section can
be read off the symbols that it lists.

In print a page is a list of lines, and each row of a section is one of them, with its columns where
they have to be. What the lines are is said here without the way in which sections and rows are
written; the help text is then shown to consist of them.
-/

namespace CommandLine

variable {β : Type}

/-- What a help text is written from. -/
structure HelpPage where
  description : Option String
  usage : String
  arguments : List HelpRow
  options : List HelpRow
  commands : List HelpRow

/-- The printed rows of the three sections, a line for each row. -/
structure HelpLines where
  arguments : List String
  options : List String
  commands : List String

/-- A row in print: its left column behind two spaces, and its right column, if it has one, behind as
many spaces as lead two places beyond the width of the section. -/
inductive HelpRow.Printed (width : ℕ) (row : HelpRow) : String → Prop where
  | left (hsecond : row.second = "") : row.Printed width ("  " ++ row.first)
  | both (gap : ℕ) (hsecond : row.second ≠ "") (hgap : row.first.length + gap = width + 2) :
      row.Printed width
        ("  " ++ row.first ++ String.ofList (List.replicate gap ' ') ++ row.second)

namespace Text

/-- Lines with a line end behind each of them. -/
def ofLines (lines : List String) : String := String.join (lines.map (· ++ "\n"))

/-- Lines in print, where one line end stands in place of all blanks at the end. -/
def IsPrinted (lines : List String) (text : String) : Prop :=
  ∃ kept blanks, ofLines lines = kept ++ blanks ∧ text = kept ++ "\n" ∧
    (∀ c ∈ blanks.toList, isBlank c = true) ∧ ∀ c ∈ kept.toList.getLast?, isBlank c = false

end Text

namespace HelpPage

open HelpStyle

/-- The help text of a page. A section without rows is left out, with its title. -/
def text (page : HelpPage) : String :=
  Text.trimEnd (page.description.elim "" ("Description:\n  " ++ · ++ "\n\n")
    ++ ("Usage:\n  " ++ page.usage ++ "\n\n")
    ++ sectionText "Arguments" page.arguments ++ sectionText "Options" page.options
    ++ sectionText "Commands" page.commands) ++ "\n"

/-- The width of a section: the most bytes that a left column has. -/
def width (rows : List HelpRow) : ℕ := (rows.map (·.first.utf8ByteSize)).max?.getD 0

/-- The lines of a section: its title, those of its rows and an empty one. There are none if it has no
rows. -/
def titled (title : String) (lines : List String) : List String :=
  if lines = [] then [] else (title ++ ":") :: lines ++ [""]

/-- The lines of a page with the lines of its rows. -/
def lines (page : HelpPage) (rows : HelpLines) : List String :=
  page.description.elim [] (["Description:", "  " ++ ·, ""]) ++ ["Usage:", "  " ++ page.usage, ""]
    ++ titled "Arguments" rows.arguments ++ titled "Options" rows.options
    ++ titled "Commands" rows.commands

/-- A line of a section begins with a left column, behind two spaces. -/
def Begins (left line : String) : Prop := ∃ rest, line = "  " ++ left ++ rest

/-- A text in which a page is printed, each row as one of the lines of its section. -/
structure Prints (page : HelpPage) (rows : HelpLines) (text : String) : Prop where
  arguments : List.Forall₂ (HelpRow.Printed (width page.arguments)) page.arguments rows.arguments
  options : List.Forall₂ (HelpRow.Printed (width page.options)) page.options rows.options
  commands : List.Forall₂ (HelpRow.Printed (width page.commands)) page.commands rows.commands
  text : Text.IsPrinted (page.lines rows) text

end HelpPage

namespace HelpStyle

/-- The help page of a symbol. -/
def page (style : HelpStyle) (tree : CommandTree β) (id : SymbolId) : Evaluating HelpPage := do
  let arguments ← style.argumentRows tree id
  let options ← style.optionRows tree (tree.scope id)
  let commands ← style.commandRows tree id
  return ⟨tree.description? id, usage tree id, arguments, options, commands⟩

/-- The help text of a symbol is that of its page. -/
theorem render_eq (style : HelpStyle) (tree : CommandTree β) (id : SymbolId) :
    style.render tree id = HelpPage.text <$> style.page tree id := by
  simp only [render, renderIn, page, map_bind, map_pure]
  rfl

/-- There is a help text for every number that a symbol has. -/
theorem render?_eq {tree : CommandTree β} {id : SymbolId} (hid : (tree.symbol? id).isSome)
    (style : HelpStyle) (evaluations : Evaluations) :
    style.render? tree id evaluations =
      (some (style.page tree id evaluations).1.text, (style.page tree id evaluations).2) := by
  obtain ⟨symbol, hsymbol⟩ := Option.isSome_iff_exists.mp hid
  rw [render?, hsymbol]
  simp only [render_eq]
  rfl

/-- There is a usage line for every number that a symbol has. -/
theorem usage?_eq {tree : CommandTree β} {id : SymbolId} (hid : (tree.symbol? id).isSome) :
    usage? tree id = some (usage tree id) := by
  obtain ⟨symbol, hsymbol⟩ := Option.isSome_iff_exists.mp hid
  rw [usage?, hsymbol, Option.map_some]

/-! ## Left columns -/

/-- What can be said of each made thing, whatever was evaluated before, can be said of all of them. -/
theorem map_mapM {A B C : Type} {make : A → Evaluating B} {view : B → C} {look : A → C}
    (h : ∀ value evaluations, view (make value evaluations).1 = look value) (values : List A)
    (evaluations : Evaluations) :
    ((values.mapM make) evaluations).1.map view = values.map look := by
  induction values generalizing evaluations with
  | nil => rfl
  | cons value values ih =>
    rw [List.mapM_cons]
    change view (make value evaluations).1 ::
      ((values.mapM make) (make value evaluations).2).1.map view = _
    rw [h, ih, List.map_cons]

/-- The left column of a finished row is the one it was begun with, unless it is overridden. -/
theorem first_finishRow (style : HelpStyle) (tree : CommandTree β) (symbol : SymbolId)
    (row : HelpRow) (argument : Option SymbolId) (evaluations : Evaluations) :
    (style.finishRow tree symbol row argument evaluations).1.first =
      (style.overrideOf symbol).first.getD row.first := by
  unfold finishRow
  cases (style.overrideOf symbol).default with
  | some text => rfl
  | none => cases argument <;> rfl

end HelpStyle

/-! ## Printing -/

namespace Text

/-- No lines have no text. -/
@[simp] theorem ofLines_nil : ofLines [] = "" := rfl

/-- The first of some lines ends before the others. -/
@[simp] theorem ofLines_cons (line : String) (lines : List String) :
    ofLines (line :: lines) = line ++ "\n" ++ ofLines lines := String.join_cons

/-- Lines are written one after another. -/
theorem ofLines_append (first second : List String) :
    ofLines (first ++ second) = ofLines first ++ ofLines second := by
  rw [ofLines, List.map_append, String.join_append]
  rfl

/-- A text on a line of its own, under a title and before an empty line. -/
theorem ofLines_paragraph (title text : String) :
    ofLines [title, "  " ++ text, ""] = title ++ "\n  " ++ text ++ "\n\n" := by
  rw [← String.toList_inj]
  simp

/-- Blanks are dropped from the end of a text as long as there are any. -/
theorem toList_trimEnd (text : String) : (trimEnd text).toList = text.toList.rdropWhile isBlank :=
  String.toList_ofList

/-- Lines are printed by dropping the blanks at the end and ending the last line again. -/
theorem isPrinted_trimEnd (lines : List String) :
    IsPrinted lines (trimEnd (ofLines lines) ++ "\n") := by
  refine ⟨_, String.ofList ((ofLines lines).toList.rtakeWhile isBlank), ?_, rfl, ?_, ?_⟩
  · rw [← String.toList_inj, String.toList_append, toList_trimEnd, String.toList_ofList,
      List.rdropWhile_append_rtakeWhile]
  · intro c hc
    rw [String.toList_ofList] at hc
    exact List.mem_rtakeWhile_imp hc
  · intro c hc
    rw [toList_trimEnd] at hc
    obtain ⟨hne, rfl⟩ := List.mem_getLast?_eq_getLast hc
    exact Bool.eq_false_iff.mpr (List.rdropWhile_last_not _ _ hne)

/-- A text has no more characters than bytes. -/
theorem length_le_utf8ByteSize (text : String) : text.length ≤ text.utf8ByteSize := by
  induction text using String.push_induction with
  | empty => exact Nat.le_refl 0
  | push text c ih =>
    have hpos := c.utf8Size_pos
    rw [String.length_push, String.utf8ByteSize_push]
    omega

end Text

namespace HelpPage

variable {rows : List HelpRow} {row : HelpRow} {size : ℕ}

open HelpStyle

/-- A printed row begins with its left column. -/
theorem begins_of_printed {line : String} (h : row.Printed size line) : Begins row.first line := by
  cases h with
  | left => exact ⟨"", String.append_empty.symm⟩
  | both => exact ⟨_, String.append_assoc⟩

/-- Printed rows begin with their left columns, one after another. -/
theorem forall₂_begins {lines : List String}
    (h : List.Forall₂ (HelpRow.Printed size) rows lines) :
    List.Forall₂ Begins (rows.map (·.first)) lines :=
  List.forall₂_map_left_iff.mpr (h.imp fun _ _ => begins_of_printed)

/-- Lines are printed if there are rows. -/
theorem eq_nil_iff_of_forall₂ {lines : List String}
    (h : List.Forall₂ (HelpRow.Printed size) rows lines) : rows = [] ↔ lines = [] := by
  rw [← List.length_eq_zero_iff, h.length_eq, List.length_eq_zero_iff]

/-- Every left column fits into the width of its section. -/
theorem utf8ByteSize_le_width (h : row ∈ rows) : row.first.utf8ByteSize ≤ width rows :=
  List.le_max?_getD_of_mem (List.mem_map_of_mem h)

/-- A row is written as one line. -/
theorem exists_printed (h : row.first.utf8ByteSize ≤ size) :
    ∃ line, row.Printed size line ∧ rowLine size row = line ++ "\n" := by
  rw [rowLine]
  by_cases hsecond : row.second = ""
  · rw [if_pos (String.isEmpty_iff.mpr hsecond)]
    exact ⟨_, .left hsecond, rfl⟩
  · rw [if_neg (mt String.isEmpty_iff.mp hsecond)]
    have hlength := Text.length_le_utf8ByteSize row.first
    have hgap : row.first.length + (size - row.first.length + 2) = size + 2 := by omega
    refine ⟨_, .both _ hsecond hgap, ?_⟩
    rw [pad, List.replicate_add, String.ofList_append]
    simp only [String.append_assoc]
    rfl

/-- Rows are written as a line each. -/
theorem exists_forall₂_printed (h : ∀ row ∈ rows, row.first.utf8ByteSize ≤ size) :
    ∃ lines, List.Forall₂ (HelpRow.Printed size) rows lines ∧
      String.join (rows.map (rowLine size)) = Text.ofLines lines := by
  induction rows with
  | nil => exact ⟨[], .nil, rfl⟩
  | cons row rows ih =>
    obtain ⟨hrow, hrows⟩ := List.forall_mem_cons.mp h
    obtain ⟨line, hline, hwritten⟩ := exists_printed hrow
    obtain ⟨lines, hlines, hjoin⟩ := ih hrows
    refine ⟨line :: lines, .cons hline hlines, ?_⟩
    rw [List.map_cons, String.join_cons, hwritten, hjoin, Text.ofLines_cons]

/-- A section is written as its lines. -/
theorem exists_sectionText_eq (title : String) (rows : List HelpRow) :
    ∃ lines, List.Forall₂ (HelpRow.Printed (width rows)) rows lines ∧
      sectionText title rows = Text.ofLines (titled title lines) := by
  have hfits : ∀ row ∈ rows, row.first.utf8ByteSize ≤ width rows :=
    fun row hrow => utf8ByteSize_le_width hrow
  obtain ⟨lines, hlines, hjoin⟩ := exists_forall₂_printed hfits
  refine ⟨lines, hlines, ?_⟩
  have hwidth : rows.foldl (fun width row => max width row.first.utf8ByteSize) 0 = width rows := by
    rw [← List.foldl_map, List.foldl_max, Nat.zero_max, width]
  simp only [sectionText, titled, hwidth, hjoin]
  cases hlines with
  | nil => rfl
  | cons hline hlines =>
    rw [if_neg (by simp), if_neg (by simp), Text.ofLines_append, Text.ofLines_cons (title ++ ":")]
    simp only [String.append_assoc]
    rfl

/-- The help text of a page prints the page. -/
theorem exists_prints_text (page : HelpPage) : ∃ rows, page.Prints rows page.text := by
  obtain ⟨arguments, harguments, hfirst⟩ := exists_sectionText_eq "Arguments" page.arguments
  obtain ⟨options, hoptions, hsecond⟩ := exists_sectionText_eq "Options" page.options
  obtain ⟨commands, hcommands, hthird⟩ := exists_sectionText_eq "Commands" page.commands
  refine ⟨⟨arguments, options, commands⟩, harguments, hoptions, hcommands, ?_⟩
  have husage : "Usage:\n  " ++ page.usage ++ "\n\n" =
      Text.ofLines ["Usage:", "  " ++ page.usage, ""] :=
    (Text.ofLines_paragraph "Usage:" page.usage).symm
  have hdescription : page.description.elim "" ("Description:\n  " ++ · ++ "\n\n") =
      Text.ofLines (page.description.elim [] (["Description:", "  " ++ ·, ""])) := by
    cases page.description with
    | none => rfl
    | some description => exact (Text.ofLines_paragraph "Description:" description).symm
  rw [text, hdescription, husage, hfirst, hsecond, hthird]
  simp only [← Text.ofLines_append]
  exact Text.isPrinted_trimEnd _

end HelpPage

end CommandLine
