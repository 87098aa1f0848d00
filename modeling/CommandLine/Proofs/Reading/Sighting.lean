import CommandLine.Reading
import Mathlib.Data.List.Basic

/-!
# What a token looks like

Each sighting of a token says what was found in the tree: `--` is the only double dash, a command
is a subcommand that answers to the token, and an option is what the token, or the part of it
before the first delimiter, resolves to.
-/

namespace CommandLine.Setting

variable {β : Type} {setting : Setting β} {command id : SymbolId} {token : String}

/-- A token looks like `--` only if it is `--`, whatever the tree declares. -/
theorem sight_eq_doubleDash_iff : setting.sight command token = .doubleDash ↔ token = "--" := by
  unfold sight
  constructor
  · intro h
    repeat' split at h
    all_goals first | assumption | simp at h
  · intro h
    rw [if_pos h]

/-- A token that looks like a command is an alias of a subcommand. -/
theorem subcommand?_of_sight (h : setting.sight command token = .command id) :
    setting.tree.subcommand? command token = some id := by
  unfold sight at h
  repeat' split at h
  all_goals simp_all

/-- An alias of a subcommand looks like the subcommand, unless it is `--`. -/
theorem sight_of_subcommand? (hdash : token ≠ "--")
    (hsub : setting.tree.subcommand? command token = some id) :
    setting.sight command token = .command id := by
  rw [sight, if_neg hdash, hsub]

/-- A token that looks like an option is not `--`, and no subcommand answers to it. -/
theorem subcommand?_eq_none_of_sight {value : Option String}
    (h : setting.sight command token = .option id value) :
    token ≠ "--" ∧ setting.tree.subcommand? command token = none := by
  unfold sight at h
  repeat' split at h
  all_goals simp_all

/-- A token that looks like an option without a value is an alias of the option. -/
theorem resolve_of_sight (h : setting.sight command token = .option id none) :
    (setting.scope command).resolve token = some id := by
  unfold sight at h
  repeat' split at h
  all_goals simp_all

/-- An alias of an option looks like the option, unless it is `--` or a subcommand answers to it. -/
theorem sight_of_resolve (hdash : token ≠ "--")
    (hfree : setting.tree.subcommand? command token = none)
    (hresolve : (setting.scope command).resolve token = some id) :
    setting.sight command token = .option id none := by
  rw [sight, if_neg hdash, hfree]
  simp only [hresolve]

/-- A token that looks like an option with a value is an alias of it, a delimiter and the value. -/
theorem split_of_sight {value : String} (h : setting.sight command token = .option id (some value)) :
    ∃ text, Inline.split setting.config.inlineDelimiters token = .parts text value ∧
      (setting.scope command).resolve text = some id := by
  unfold sight at h
  repeat' split at h
  all_goals simp_all

/-- An alias in front of a delimiter looks like its option with a value, if the whole token is neither
`--` nor a name. -/
theorem sight_of_split {text value : String} (hdash : token ≠ "--")
    (hfree : setting.tree.subcommand? command token = none)
    (hwhole : (setting.scope command).resolve token = none)
    (hsplit : Inline.split setting.config.inlineDelimiters token = .parts text value)
    (hresolve : (setting.scope command).resolve text = some id) :
    setting.sight command token = .option id (some value) := by
  rw [sight, if_neg hdash, hfree]
  simp only [hwhole, hsplit, hresolve]

/-- A token that looks like an option with a value does not stand for an option as a whole. -/
theorem resolve_eq_none_of_sight {value : String}
    (h : setting.sight command token = .option id (some value)) :
    (setting.scope command).resolve token = none := by
  unfold sight at h
  repeat' split at h
  all_goals simp_all

/-- A subcommand that answers to a token is listed by its command. -/
theorem mem_commands_of_sight (h : setting.sight command token = .command id) :
    id ∈ setting.tree.commands command := List.mem_of_find?_eq_some (subcommand?_of_sight h)

/-- Whatever an option's token looks like, some alias resolves to the option. -/
theorem exists_resolve_of_sight {value : Option String}
    (h : setting.sight command token = .option id value) :
    ∃ text, (setting.scope command).resolve text = some id := by
  cases value with
  | none => exact ⟨token, resolve_of_sight h⟩
  | some value =>
    obtain ⟨text, -, hresolve⟩ := split_of_sight h
    exact ⟨text, hresolve⟩

end CommandLine.Setting
