import CommandLine.Proofs.Reading.Path
import Mathlib.Data.List.Induction

/-!
# Reading in two settings

What a token is read as depends on the setting only through what the setting says at the current
command: what the token looks like there, how the option it names takes values, and which slots a
command has. So two settings that agree at the commands of a path read alike every command line
that takes this path in one of them.

Nothing has to be known of the path in the other setting. Both start at the same command, and as
long as the settings agree where the first one goes, the second one follows.
-/

namespace CommandLine

variable {β : Type}

/-- Two settings in which tokens are read alike at a command. -/
structure Setting.AgreeAt (first second : Setting β) (command : SymbolId) : Prop where
  sight : ∀ token, second.sight command token = first.sight command token
  taking : ∀ text option, (first.scope command).resolve text = some option →
    second.taking option = first.taking option
  inlineValues : ∀ text option, (first.scope command).resolve text = some option →
    ∀ value, second.inlineValues option value = first.inlineValues option value
  slots : second.slots command = first.slots command

variable {first second : Setting β}

/-- Tokens look alike where the same subcommands and options answer to the same texts. -/
theorem Setting.sight_congr {command : SymbolId}
    (hdelimiters : second.config.inlineDelimiters = first.config.inlineDelimiters)
    (hsubcommand : ∀ text,
      second.tree.subcommand? command text = first.tree.subcommand? command text)
    (hresolve : ∀ text, (second.scope command).resolve text = (first.scope command).resolve text)
    (token : String) : second.sight command token = first.sight command token := by
  simp only [sight, hdelimiters, hsubcommand, hresolve]

namespace Cursor

variable {cursor : Cursor} {token : String} {start : SymbolId}

/-- A token is read alike in settings that agree before it, and at the command it leads to. -/
theorem step_congr (hbefore : first.AgreeAt second cursor.command)
    (hafter : first.AgreeAt second (cursor.step first token).command) :
    cursor.step second token = cursor.step first token := by
  unfold step at hafter ⊢
  split
  · rfl
  · rw [hbefore.sight]
    rename_i hliteral
    rw [if_neg hliteral] at hafter
    cases hsight : first.sight cursor.command token with
    | command id =>
      simp only [hsight] at hafter
      simp only [hafter.slots]
    | option id inline =>
      obtain ⟨text, hresolve⟩ := Setting.exists_resolve_of_sight hsight
      cases inline with
      | none => simp only [hbefore.taking text id hresolve]
      | some value => simp only [hbefore.inlineValues text id hresolve]
    | _ => rfl

/-- A command line is read alike in settings that agree at every command of its path. -/
theorem foldl_step_congr {tokens : List String}
    (h : ∀ command ∈ Reading.path start
        (tokens.foldl (Cursor.step first) (Cursor.start first start)).readings,
      first.AgreeAt second command) :
    tokens.foldl (Cursor.step second) (Cursor.start second start) =
      tokens.foldl (Cursor.step first) (Cursor.start first start) := by
  induction tokens using List.reverseRecOn with
  | nil =>
    have hslots := (h start List.mem_cons_self).slots
    simp only [List.foldl_nil, Cursor.start, hslots]
  | append_singleton tokens token ih =>
    simp only [List.foldl_append, List.foldl_cons, List.foldl_nil] at h ⊢
    have hconsistent := (consistent_start first start).foldl_step tokens
    generalize hcursor : tokens.foldl (Cursor.step first) (Cursor.start first start) = cursor at *
    obtain ⟨meaning, hstep⟩ := step_cases first cursor token
    have hnext := hstep.consistent hconsistent
    -- The path after the token goes on from the path before it.
    have hbefore : ∀ command ∈ Reading.path start cursor.readings,
        first.AgreeAt second command := by
      intro command hcommand
      refine h command ?_
      rw [hstep.readings, Reading.path_append_singleton]
      exact List.mem_append_left _ hcommand
    rw [ih hbefore]
    refine step_congr (hbefore _ ?_) (h _ ?_)
    · rw [hconsistent.command]
      exact Reading.current_mem_path start cursor.readings
    · rw [hnext.command]
      exact Reading.current_mem_path start _

end Cursor

end CommandLine
