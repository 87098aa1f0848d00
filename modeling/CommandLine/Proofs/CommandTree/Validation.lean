import CommandLine.Proofs.CommandTree.Clash
import CommandLine.Proofs.CommandTree.Coherent
import Mathlib.Data.List.Duplicate
import Mathlib.Data.Set.Pairwise.List

/-!
# What validation finds

Validation looks for an alias that occurs twice among all aliases of the siblings under a command.
The aliases of one symbol are distinct and no symbol is listed twice, so an alias that occurs twice
belongs to two siblings. Validation thus passes exactly the trees in which any two siblings have
disjoint aliases, and what it reports is an alias of two siblings.

In a tree that passes, a text stands for one subcommand of a command at most, and the search for it
gives the same subcommand in whatever order the subcommands are listed.
-/

namespace CommandLine

/-- A text that is found to be repeated was seen before, or occurs twice. -/
theorem duplicate_of_firstRepeated {seen texts : List String} {text : String}
    (h : firstRepeated seen texts = some text) :
    text ∈ seen ∧ text ∈ texts ∨ texts.Duplicate text := by
  induction texts generalizing seen with
  | nil => simp [firstRepeated] at h
  | cons first rest ih =>
    rw [firstRepeated] at h
    split at h
    · obtain rfl := Option.some.inj h
      exact Or.inl ⟨‹_›, List.mem_cons_self⟩
    · rcases ih h with ⟨hseen, hrest⟩ | hrest
      · rcases List.mem_cons.mp hseen with rfl | hseen
        · exact Or.inr (.cons_mem hrest)
        · exact Or.inl ⟨hseen, List.mem_cons_of_mem first hrest⟩
      · exact Or.inr (hrest.duplicate_cons first)

/-- What occurs twice in the parts of distinct members, but in none of the parts twice, is in the
parts of two members. -/
theorem Sequence.exists_ne_of_duplicate_flatMap {A B : Type} [DecidableEq B] {values : List A}
    {part : A → List B} {member : B} (hvalues : values.Nodup)
    (hparts : ∀ value ∈ values, (part value).Nodup)
    (h : (values.flatMap part).Duplicate member) :
    ∃ first ∈ values, ∃ second ∈ values, first ≠ second ∧ member ∈ part first ∧
      member ∈ part second := by
  induction values with
  | nil => exact absurd h (List.not_duplicate_nil member)
  | cons value rest ih =>
    obtain ⟨hvalue, hrest⟩ := List.nodup_cons.mp hvalues
    rw [List.forall_mem_cons] at hparts
    have hone : (part value).count member ≤ 1 := List.nodup_iff_count_le_one.mp hparts.1 member
    have htwo : 2 ≤ (part value).count member + (rest.flatMap part).count member := by
      rwa [List.duplicate_iff_two_le_count, List.flatMap_cons, List.count_append] at h
    by_cases hagain : 2 ≤ (rest.flatMap part).count member
    · obtain ⟨first, hfirst, second, hsecond, hshared⟩ :=
        ih hrest hparts.2 (List.duplicate_iff_two_le_count.mpr hagain)
      exact ⟨first, List.mem_cons_of_mem _ hfirst, second, List.mem_cons_of_mem _ hsecond, hshared⟩
    · have hhere : member ∈ part value := List.count_pos_iff.mp (by omega)
      have hthere : member ∈ rest.flatMap part := List.count_pos_iff.mp (by omega)
      obtain ⟨other, hother, hmember⟩ := List.mem_flatMap.mp hthere
      exact ⟨value, List.mem_cons_self, other, List.mem_cons_of_mem _ hother,
        fun heq => hvalue (heq ▸ hother), hhere, hmember⟩

namespace CommandTree

variable {β : Type} {tree other : CommandTree β} {command id : SymbolId} {text : String}

/-! ## Siblings -/

/-- The symbols that must not share aliases under a command: its subcommands, and the options that
it does not pass on. -/
def IsSibling (tree : CommandTree β) (command id : SymbolId) : Prop :=
  id ∈ tree.commands command ∨ (id ∈ tree.options command ∧ tree.isInherited id = false)

/-- Any two siblings under a command have disjoint aliases. -/
def SiblingsDisjoint (tree : CommandTree β) (command : SymbolId) : Prop :=
  ∀ first second, tree.IsSibling command first → tree.IsSibling command second →
    first ≠ second → (tree.aliases first).Disjoint (tree.aliases second)

/-- Two different siblings under a command have an alias in common. -/
structure Clashing (tree : CommandTree β) (command first second : SymbolId) (text : String) :
    Prop where
  isSibling_first : tree.IsSibling command first
  isSibling_second : tree.IsSibling command second
  ne : first ≠ second
  mem_first : text ∈ tree.aliases first
  mem_second : text ∈ tree.aliases second

/-- What validation goes through under a command are the siblings. -/
theorem mem_siblings_iff : id ∈ tree.siblings command ↔ tree.IsSibling command id := by
  simp [siblings, IsSibling]

/-- Only a command has siblings under it. -/
theorem IsSibling.isSome_command? (h : tree.IsSibling command id) :
    (tree.command? command).isSome := by
  cases hcommand : tree.command? command with
  | none => simp [IsSibling, commands, options, hcommand] at h
  | some node => rfl

/-- In a well-formed tree no option is a subcommand. -/
theorem WellFormed.notMem_commands_of_mem_options (h : tree.WellFormed)
    (hoption : id ∈ tree.options command) : id ∉ tree.commands command := by
  intro hcommand
  have hkind := kind?_eq_command_iff.mpr (h.mem_commands.mp hcommand).1
  have hother := kind?_eq_option_iff.mpr (h.mem_options.mp hoption).1
  simp [hkind] at hother

/-- In a well-formed tree no sibling is listed twice. -/
theorem WellFormed.nodup_siblings (h : tree.WellFormed) (command : SymbolId) :
    (tree.siblings command).Nodup := by
  obtain ⟨hcommands, hoptions, -⟩ := listed_eq tree command
  rw [siblings, List.nodup_append]
  refine ⟨hcommands ▸ h.nodup_children .command command,
    (hoptions ▸ h.nodup_children .option command).filter _, ?_⟩
  rintro id hsubcommand _ hoption rfl
  exact h.notMem_commands_of_mem_options (List.mem_filter.mp hoption).1 hsubcommand

/-- Under a command the aliases of all siblings together are distinct exactly when any two siblings
have disjoint aliases. -/
theorem WellFormed.nodup_flatMap_aliases_iff (h : tree.WellFormed) (command : SymbolId) :
    ((tree.siblings command).flatMap tree.aliases).Nodup ↔ tree.SiblingsDisjoint command := by
  have hsymm : Std.Symm (Function.onFun List.Disjoint tree.aliases) :=
    ⟨fun _ _ => List.disjoint_symm⟩
  rw [List.nodup_flatMap, ← (h.nodup_siblings command).pairwise_coe,
    and_iff_right fun id _ => tree.nodup_aliases id]
  simp only [SiblingsDisjoint, ← mem_siblings_iff]
  exact ⟨fun hall first second hfirst hsecond => hall hfirst hsecond,
    fun hall first hfirst second hsecond => hall first second hfirst hsecond⟩

/-! ## Reports -/

/-- An alias that is reported is an alias of two siblings. -/
theorem WellFormed.exists_clashing_of_clash? (h : tree.WellFormed)
    (hclash : tree.clash? command = some text) :
    ∃ first second, tree.Clashing command first second text := by
  have htwice : ((tree.siblings command).flatMap tree.aliases).Duplicate text :=
    (duplicate_of_firstRepeated hclash).resolve_left fun hseen => List.not_mem_nil hseen.1
  obtain ⟨first, hfirst, second, hsecond, hne, hmem⟩ :=
    Sequence.exists_ne_of_duplicate_flatMap (h.nodup_siblings command)
      (fun id _ => tree.nodup_aliases id) htwice
  exact ⟨first, second, mem_siblings_iff.mp hfirst, mem_siblings_iff.mp hsecond, hne, hmem.1,
    hmem.2⟩

/-- A refusal names a command and an alias that clashes under it. -/
theorem exists_clash?_of_validate {error : TreeError} (h : tree.validate = .error error) :
    ∃ command text, tree.clash? command = some text ∧
      error = .duplicateAlias (tree.name command) text := by
  simp only [validate] at h
  split at h
  · obtain rfl := Except.error.inj h
    obtain ⟨command, -, hclash⟩ := List.exists_of_findSome?_eq_some ‹_›
    obtain ⟨text, htext, rfl⟩ := Option.map_eq_some_iff.mp hclash
    exact ⟨command, text, htext, rfl⟩
  · simp at h

/-! ## Trees that pass -/

/-- No more than one subcommand of a command answers to a text. -/
def Unambiguous (tree : CommandTree β) (command : SymbolId) (text : String) : Prop :=
  ∀ first ∈ tree.commands command, ∀ second ∈ tree.commands command,
    text ∈ tree.aliases first → text ∈ tree.aliases second → first = second

/-- The subcommands of a command as those of another, in any order and under any numbers. -/
structure Relists (tree other : CommandTree β) (command place : SymbolId)
    (number : SymbolId → SymbolId) : Prop where
  commands : (other.commands place).Perm ((tree.commands command).map number)
  aliases : ∀ id ∈ tree.commands command, other.aliases (number id) = tree.aliases id

/-- If no more than one subcommand answers to a text, the search for the text finds it. -/
theorem Unambiguous.subcommand?_eq_some_iff (h : tree.Unambiguous command text) :
    tree.subcommand? command text = some id ↔
      id ∈ tree.commands command ∧ text ∈ tree.aliases id := by
  have hfound : ∀ found, tree.subcommand? command text = some found →
      found ∈ tree.commands command ∧ text ∈ tree.aliases found := by
    intro found hsearch
    have hanswers := List.find?_some hsearch
    rw [hasAlias_eq, decide_eq_true_eq] at hanswers
    exact ⟨List.mem_of_find?_eq_some hsearch, hanswers⟩
  refine ⟨hfound id, fun ⟨hid, htext⟩ => ?_⟩
  have hsome : (tree.subcommand? command text).isSome := by
    rw [subcommand?, List.find?_isSome]
    exact ⟨id, hid, by rwa [hasAlias_eq, decide_eq_true_eq]⟩
  obtain ⟨found, hsearch⟩ := Option.isSome_iff_exists.mp hsome
  obtain ⟨hmem, hanswers⟩ := hfound found hsearch
  rw [hsearch, h found hmem id hid hanswers htext]

namespace Relists

variable {place : SymbolId} {number : SymbolId → SymbolId}

/-- The subcommands that answer to a text are the same ones under their new numbers. -/
theorem mem_iff (h : tree.Relists other command place number) {found : SymbolId} :
    found ∈ other.commands place ∧ text ∈ other.aliases found ↔
      ∃ id, (id ∈ tree.commands command ∧ text ∈ tree.aliases id) ∧ number id = found := by
  rw [h.commands.mem_iff, List.mem_map]
  constructor
  · rintro ⟨⟨id, hid, rfl⟩, htext⟩
    exact ⟨id, ⟨hid, h.aliases id hid ▸ htext⟩, rfl⟩
  · rintro ⟨id, ⟨hid, htext⟩, rfl⟩
    exact ⟨⟨id, hid, rfl⟩, (h.aliases id hid).symm ▸ htext⟩

/-- If no more than one subcommand answers to a text, no more than one does in any order. -/
theorem unambiguous (h : tree.Relists other command place number)
    (hone : tree.Unambiguous command text) : other.Unambiguous place text := by
  intro first hfirst second hsecond htext hother
  obtain ⟨id, ⟨hid, hidText⟩, rfl⟩ := h.mem_iff.mp ⟨hfirst, htext⟩
  obtain ⟨next, ⟨hnext, hnextText⟩, rfl⟩ := h.mem_iff.mp ⟨hsecond, hother⟩
  rw [hone id hid next hnext hidText hnextText]

/-- If no more than one subcommand answers to a text, it is found in any order. -/
theorem subcommand?_eq (h : tree.Relists other command place number)
    (hone : tree.Unambiguous command text) :
    other.subcommand? place text = (tree.subcommand? command text).map number := by
  refine Option.ext fun found => ?_
  simp only [Option.map_eq_some_iff, (h.unambiguous hone).subcommand?_eq_some_iff,
    hone.subcommand?_eq_some_iff, h.mem_iff]

end Relists

/-- What a text stands for under a command of a tree that passes. -/
structure Answers (tree : CommandTree β) (command : SymbolId) (text : String) : Prop where
  unambiguous : tree.Unambiguous command text
  /-- No option that the command keeps to itself answers to a text that a subcommand answers to. -/
  notMem_aliases : ∀ id ∈ tree.commands command, text ∈ tree.aliases id →
    ∀ option ∈ tree.options command, tree.isInherited option = false →
      text ∉ tree.aliases option
  subcommand?_eq_some_iff : ∀ id, tree.subcommand? command text = some id ↔
    id ∈ tree.commands command ∧ text ∈ tree.aliases id
  /-- The order in which the subcommands are declared makes no difference to the search. -/
  subcommand?_eq : ∀ other place number, tree.Relists other command place number →
    other.subcommand? place text = (tree.subcommand? command text).map number

/-- If siblings have disjoint aliases, a text stands for one of them at most. -/
theorem SiblingsDisjoint.answers (h : tree.SiblingsDisjoint command)
    (hkinds : ∀ option ∈ tree.options command, option ∉ tree.commands command) (text : String) :
    tree.Answers command text := by
  have hone : tree.Unambiguous command text := by
    intro first hfirst second hsecond htext hother
    by_contra hne
    exact h first second (.inl hfirst) (.inl hsecond) hne htext hother
  refine ⟨hone, fun id hid htext option hoption hown hshared => ?_,
    fun id => hone.subcommand?_eq_some_iff,
    fun other place number hrelists => hrelists.subcommand?_eq hone⟩
  have hne : id ≠ option := fun heq => hkinds option hoption (heq ▸ hid)
  exact h id option (.inl hid) (.inr ⟨hoption, hown⟩) hne htext hshared

/-- What validation says of a tree. -/
structure ValidatesExactly (tree : CommandTree β) : Prop where
  ok_iff : tree.validate = .ok () ↔ ∀ command, tree.SiblingsDisjoint command
  /-- A tree that does not pass has two siblings with the alias that is reported, under a command
  with the name that is reported. -/
  exists_clashing : ∀ error, tree.validate = .error error → ∃ command first second text,
    error = .duplicateAlias (tree.name command) text ∧ (tree.command? command).isSome ∧
      tree.Clashing command first second text
  answers : tree.validate = .ok () → ∀ command text, tree.Answers command text

/-- In every tree that edits make, validation finds an alias that siblings share if there is one,
and nothing else; and where there is none, the order of subcommands makes no difference. -/
theorem validatesExactly (h : Reachable tree) : tree.ValidatesExactly := by
  have hok : tree.validate = .ok () ↔ ∀ command, tree.SiblingsDisjoint command :=
    validate_eq_ok_iff.trans (forall_congr' h.wellFormed.nodup_flatMap_aliases_iff)
  refine ⟨hok, fun error herror => ?_, fun hvalid command text => ?_⟩
  · obtain ⟨command, text, hclash, rfl⟩ := exists_clash?_of_validate herror
    obtain ⟨first, second, hclashing⟩ := h.wellFormed.exists_clashing_of_clash? hclash
    exact ⟨command, first, second, text, rfl, hclashing.isSibling_first.isSome_command?,
      hclashing⟩
  · exact (hok.mp hvalid command).answers
      (fun _ => h.wellFormed.notMem_commands_of_mem_options) text

/-- A program that gives one alias to two subcommands below its root: `app remote add`, `a` for
short, and `app remote archive`, `a` for short as well. -/
def disputed : CommandTree Unit :=
  (new { name := "app" }).editAll
    [.addCommand root { name := "remote" },
      .addCommand 1 { name := "add", aliases := ["a"] },
      .addCommand 1 { name := "archive", aliases := ["a"] }]

/-- The same program with another short name for one of them, and two options with one alias, the
first of which is passed on. -/
def settled : CommandTree Unit :=
  disputed.editAll
    [.removeAlias 3 "a",
      .addAlias 3 "z",
      .addOption 1 { aliases := ["--all", "a"] } true,
      .addOption 1 { aliases := ["--all"] } false]

/-- The subcommands of the second program declared the other way round. -/
def mirrored : CommandTree Unit :=
  (new { name := "app" }).editAll
    [.addCommand root { name := "remote" },
      .addCommand 1 { name := "archive", aliases := ["z"] },
      .addCommand 1 { name := "add", aliases := ["a"] }]

/-- Validation refuses the one program and passes the other, in which a subcommand is found by its
short name wherever it is declared. -/
theorem validatesExactly_disputed_settled :
    disputed.validate = .error (.duplicateAlias "remote" "a") ∧ disputed.ValidatesExactly ∧
      settled.validate = .ok () ∧ settled.ValidatesExactly ∧
      settled.Relists mirrored 1 1 (5 - ·) ∧
      mirrored.subcommand? 1 "z" = (settled.subcommand? 1 "z").map (5 - ·) := by
  have hdisputed : Reachable disputed := (Reachable.new _).editAll _
  have hsettled : Reachable settled := hdisputed.editAll _
  have hvalid : settled.validate = .ok () := by decide +kernel
  have hrelists : settled.Relists mirrored 1 1 (5 - ·) :=
    ⟨by decide +kernel, by decide +kernel⟩
  exact ⟨by decide +kernel, validatesExactly hdisputed, hvalid, validatesExactly hsettled, hrelists,
    ((validatesExactly hsettled).answers hvalid 1 "z").subcommand?_eq _ _ _ hrelists⟩

end CommandTree

end CommandLine
