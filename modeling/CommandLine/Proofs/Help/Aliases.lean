import CommandLine.Proofs.Help.Page
import CommandLine.Proofs.Scope.NearestFirst

/-!
# Aliases in help

The options section lists what can be typed. Each option in scope that is not hidden has a row, and
the row starts with the texts that stand for the option at the command, shorter texts first. An alias
that a nearer declaration took over is listed there and no longer with the option that lost it, and
one that a hidden option took over is not listed at all.
-/

namespace CommandLine

variable {β : Type}

/-- The order of aliases in a row: shorter ones first, and of equally long ones the smaller first. -/
def Alias.StandsBefore (first second : String) : Prop :=
  first.utf8ByteSize < second.utf8ByteSize ∨
    first.utf8ByteSize = second.utf8ByteSize ∧ first < second

/-- The rows of the options at a command, the lines that they are printed on, and the options with the
aliases that the rows list. -/
structure CommandTree.ListsLive (tree : CommandTree β) (command : SymbolId) (rows : List HelpRow)
    (lines : List String) (entries : List (SymbolId × List String)) : Prop where
  options : entries.map (·.1) = (tree.scope command).options.filter (!tree.isHidden ·)
  rows : rows.map (·.first) = entries.map fun entry =>
    ", ".intercalate entry.2 ++ HelpStyle.valueUsage tree entry.1
  /-- Behind the aliases there is nothing, or the name of an argument in angle brackets. -/
  valueUsage : ∀ entry ∈ entries, HelpStyle.valueUsage tree entry.1 = "" ∨
    ∃ argument, HelpStyle.valueUsage tree entry.1 = " <" ++ tree.name argument ++ ">"
  /-- The section has one line for each row, and the line begins with the aliases. -/
  printed : List.Forall₂ HelpPage.Begins
    (entries.map fun entry => ", ".intercalate entry.2 ++ HelpStyle.valueUsage tree entry.1) lines
  /-- Aliases stand in their order, so no row lists one twice. -/
  ordered : ∀ entry ∈ entries, entry.2.Pairwise Alias.StandsBefore
  live : ∀ entry ∈ entries, ∀ text,
    text ∈ entry.2 ↔ (tree.scope command).resolve text = some entry.1
  once : ∀ text option, (tree.scope command).resolve text = some option →
    tree.isHidden option = false → entries.countP (text ∈ ·.2) = 1
  shadowed : ∀ entry ∈ entries, ∀ text ∈ tree.aliases entry.1,
    (tree.scope command).resolve text ≠ some entry.1 → text ∉ entry.2
  hidden : ∀ text option, (tree.scope command).resolve text = some option →
    tree.isHidden option = true → ∀ entry ∈ entries, text ∉ entry.2

/-! ## The aliases of one row -/

namespace HelpStyle

variable {scope : Scope} {option : SymbolId} {text first second : String}

/-- One alias may be put before another one if it stands before it or is the same. -/
theorem shorterFirst_iff : shorterFirst first second = true ↔
    first.utf8ByteSize < second.utf8ByteSize ∨
      first.utf8ByteSize = second.utf8ByteSize ∧ first ≤ second := by
  simp [shorterFirst]

/-- Of three aliases in a row the first may be put before the last. -/
theorem shorterFirst_trans {third : String} (hfirst : shorterFirst first second = true)
    (hsecond : shorterFirst second third = true) : shorterFirst first third = true := by
  rw [shorterFirst_iff] at hfirst hsecond ⊢
  rcases hfirst with hshorter | ⟨hsize, hle⟩
  · left
    omega
  · rcases hsecond with hshorter | ⟨hsize', hle'⟩
    · left
      omega
    · exact .inr ⟨hsize.trans hsize', String.le_trans hle hle'⟩

/-- Of two aliases one may be put before the other. -/
theorem shorterFirst_total (first second : String) :
    (shorterFirst first second || shorterFirst second first) = true := by
  rw [Bool.or_eq_true, shorterFirst_iff, shorterFirst_iff]
  rcases Nat.lt_trichotomy first.utf8ByteSize second.utf8ByteSize with hlt | heq | hgt
  · exact .inl (.inl hlt)
  · rcases String.le_total first second with hle | hge
    · exact .inl (.inr ⟨heq, hle⟩)
    · exact .inr (.inr ⟨heq.symm, hge⟩)
  · exact .inr (.inl hgt)

/-- The listed aliases of an option are the texts that stand for it. -/
theorem mem_listedAliases_iff (h : Scope.Keyed scope.entries) :
    text ∈ listedAliases scope option ↔ scope.resolve text = some option := by
  rw [listedAliases, List.mem_mergeSort, Scope.mem_aliasesOf_iff h]

/-- The listed aliases of an option are in order. -/
theorem pairwise_listedAliases (h : Scope.Keyed scope.entries) (option : SymbolId) :
    (listedAliases scope option).Pairwise Alias.StandsBefore := by
  have hsorted : (listedAliases scope option).Pairwise fun first second =>
      shorterFirst first second = true := by
    apply List.pairwise_mergeSort
    · exact fun _ _ _ => shorterFirst_trans
    · exact shorterFirst_total
  have hnodup : (listedAliases scope option).Nodup := by
    rw [listedAliases, (List.mergeSort_perm _ _).nodup_iff]
    exact (Scope.pairwise_aliasesOf h option).imp String.ne_of_lt
  apply List.Pairwise.imp₂ ?_ hsorted hnodup
  intro first second hbefore hne
  rcases shorterFirst_iff.mp hbefore with hshorter | ⟨hsize, hle⟩
  · exact .inl hshorter
  · exact .inr ⟨hsize, String.not_le.mp fun hge => hne (String.le_antisymm hle hge)⟩

/-- What follows the aliases of an option is empty or names an argument. -/
theorem valueUsage_cases (tree : CommandTree β) (option : SymbolId) :
    valueUsage tree option = "" ∨
      ∃ argument, valueUsage tree option = " <" ++ tree.name argument ++ ">" := by
  unfold valueUsage
  split
  · split
    · exact .inl rfl
    · exact .inr ⟨_, rfl⟩
  · exact .inl rfl

/-- Without overrides the rows of options start with their aliases. -/
theorem map_first_optionRows (tree : CommandTree β) (scope : Scope) (evaluations : Evaluations) :
    ((({} : HelpStyle).optionRows tree scope) evaluations).1.map (·.first) =
      (visible tree scope.options).map fun option =>
        ", ".intercalate (listedAliases scope option) ++ valueUsage tree option := by
  apply map_mapM
  intro option evaluations
  exact first_finishRow {} tree option _ _ evaluations

end HelpStyle

/-! ## All rows -/

namespace CommandTree

variable {tree : CommandTree β} {command option : SymbolId} {text : String}

/-- The options in scope, with their listed aliases, that are not hidden. -/
def liveEntries (tree : CommandTree β) (command : SymbolId) : List (SymbolId × List String) :=
  (HelpStyle.visible tree (tree.scope command).options).map fun option =>
    (option, HelpStyle.listedAliases (tree.scope command) option)

/-- A live entry is a visible option with the texts that stand for it. -/
theorem mem_liveEntries {entry : SymbolId × List String} (h : entry ∈ tree.liveEntries command) :
    tree.isHidden entry.1 = false ∧
      entry.2 = HelpStyle.listedAliases (tree.scope command) entry.1 := by
  obtain ⟨option, hoption, rfl⟩ := List.mem_map.mp h
  have hvisible := (List.mem_filter.mp hoption).2
  exact ⟨by simpa using hvisible, rfl⟩

/-- A text is in a live entry if it stands for the option of the entry. -/
theorem mem_of_mem_liveEntries {entry : SymbolId × List String}
    (h : entry ∈ tree.liveEntries command) :
    text ∈ entry.2 ↔ (tree.scope command).resolve text = some entry.1 := by
  rw [(mem_liveEntries h).2, HelpStyle.mem_listedAliases_iff (tree.keyed_scope command)]

/-- No option is listed twice by a scope. -/
theorem WellFormed.nodup_options_scope (h : tree.WellFormed) (command : SymbolId) :
    (tree.scope command).options.Nodup := by
  have hdeclared := (tree.order_scope_sublist command).trans (tree.declaredOptions_sublist command)
  exact (h.nodup_outermostFirst command).sublist (List.filter_sublist.trans hdeclared)

/-- A text that stands for a visible option is in one live entry. -/
theorem WellFormed.countP_liveEntries (h : tree.WellFormed)
    (hresolve : (tree.scope command).resolve text = some option)
    (hvisible : tree.isHidden option = false) :
    (tree.liveEntries command).countP (text ∈ ·.2) = 1 := by
  have hnodup : (HelpStyle.visible tree (tree.scope command).options).Nodup :=
    (h.nodup_options_scope command).filter _
  have hmem : option ∈ HelpStyle.visible tree (tree.scope command).options := by
    rw [HelpStyle.visible, List.mem_filter, mem_options_scope]
    exact ⟨⟨text, hresolve⟩, by simpa using hvisible⟩
  rw [liveEntries, List.countP_map, ← List.count_eq_one_of_mem hnodup hmem, List.count]
  apply List.countP_congr
  intro other _
  rw [Function.comp_apply, decide_eq_true_eq,
    HelpStyle.mem_listedAliases_iff (tree.keyed_scope command), hresolve, Option.some_inj, beq_iff_eq,
    eq_comm]

/-- The rows of the options at a command start with the aliases of the live entries. -/
theorem map_first_optionRows_eq (tree : CommandTree β) (command : SymbolId)
    (evaluations : Evaluations) :
    ((({} : HelpStyle).optionRows tree (tree.scope command)) evaluations).1.map (·.first) =
      (tree.liveEntries command).map fun entry =>
        ", ".intercalate entry.2 ++ HelpStyle.valueUsage tree entry.1 := by
  rw [HelpStyle.map_first_optionRows, liveEntries, List.map_map]
  rfl

/-- The rows of the options at a command, printed on some lines, list the live entries. -/
theorem WellFormed.listsLive (h : tree.WellFormed) (command : SymbolId)
    (evaluations : Evaluations) {size : ℕ} {lines : List String}
    (hlines : List.Forall₂ (HelpRow.Printed size)
      ((({} : HelpStyle).optionRows tree (tree.scope command)) evaluations).1 lines) :
    tree.ListsLive command
      ((({} : HelpStyle).optionRows tree (tree.scope command)) evaluations).1 lines
      (tree.liveEntries command) where
  options := by
    rw [liveEntries, List.map_map]
    exact List.map_id' _
  rows := map_first_optionRows_eq tree command evaluations
  valueUsage := by
    intro entry _
    exact HelpStyle.valueUsage_cases tree entry.1
  printed := by
    rw [← map_first_optionRows_eq tree command evaluations]
    exact HelpPage.forall₂_begins hlines
  ordered := by
    intro entry hentry
    rw [(mem_liveEntries hentry).2]
    exact HelpStyle.pairwise_listedAliases (tree.keyed_scope command) entry.1
  live := by
    intro entry hentry text
    exact mem_of_mem_liveEntries hentry
  once := by
    intro text option hresolve hvisible
    exact h.countP_liveEntries hresolve hvisible
  shadowed := by
    intro entry hentry text _ hlost hmem
    exact hlost ((mem_of_mem_liveEntries hentry).mp hmem)
  hidden := by
    intro text option hresolve hhidden entry hentry hmem
    have hsame := (mem_of_mem_liveEntries hentry).mp hmem
    rw [hresolve] at hsame
    rw [Option.some.inj hsame, (mem_liveEntries hentry).1] at hhidden
    cases hhidden

/-- A program whose subcommand takes two aliases of an inherited option: `app` passes `--dupe`, `-d`
and `-q` on, and `app child` has an option with `--dupe` and a hidden one with `-q`. -/
def eclipsed : CommandTree Unit :=
  (new { name := "app" }).editAll
    [.addOption root { aliases := ["--dupe", "-d", "-q"] } true,
      .addCommand root { name := "child" },
      .addOption 3 { aliases := ["--different", "--dupe"] } false,
      .addOption 3 { aliases := ["-q", "--hush"], hidden := true } false]

example : (eclipsed.scope 3).options = [1, 4, 6] ∧ (eclipsed.scope 3).resolve "-q" = some 6 ∧
    HelpStyle.listedAliases (eclipsed.scope 3) 1 = ["-d"] := by decide +kernel

end CommandTree

end CommandLine
