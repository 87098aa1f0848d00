import CommandLine.Proofs.Reading.Sighting
import CommandLine.Proofs.Reading.Trace
import CommandLine.Proofs.Scope.Entries
import Mathlib.Data.List.Chain

/-!
# The command path of a trace

In a well-formed tree the commands on the path of a trace descend from the first one: each is a
subcommand of the one before it. So their numbers grow, and no command is on a path twice. Every
reading was made under a command on the path.
-/

namespace CommandLine

variable {β : Type}

namespace Reading

/-- The commands from the first one down to the last one named. -/
def path (start : SymbolId) (readings : List Reading) : List SymbolId :=
  start :: readings.filterMap descent?

/-- The current command is the last one on the path. -/
theorem getLast?_path (start : SymbolId) (readings : List Reading) :
    (path start readings).getLast? = some (current start readings) :=
  List.getLast?_cons

/-- The current command is on the path. -/
theorem current_mem_path (start : SymbolId) (readings : List Reading) :
    current start readings ∈ path start readings :=
  List.mem_of_getLast? (getLast?_path start readings)

/-- One more reading extends the path by the command it names. -/
theorem path_append_singleton (start : SymbolId) (readings : List Reading) (reading : Reading) :
    path start (readings ++ [reading]) = path start readings ++ reading.descent?.toList := by
  unfold path
  rw [List.filterMap_append, List.cons_append]
  cases hdescent : reading.descent? <;> simp [hdescent]

end Reading

namespace Trace

variable {setting : Setting β} {start : SymbolId} {readings : List Reading} {reading : Reading}

/-- A reading that descends names a subcommand of its command. -/
theorem mem_commands_of_descent? (h : Trace setting start readings) (hmem : reading ∈ readings)
    {id : SymbolId} (hdescent : reading.descent? = some id) :
    id ∈ setting.tree.commands reading.command :=
  Setting.mem_commands_of_sight ((h.sound hmem).sight_of_descent? hdescent)

/-- Each command on the path is a subcommand of the one before it. -/
theorem isChain_path (h : Trace setting start readings) :
    (Reading.path start readings).IsChain fun command sub =>
      sub ∈ setting.tree.commands command := by
  induction h with
  | nil => exact .singleton start
  | @snoc before last htrace hfits ih =>
    rw [Reading.path_append_singleton]
    cases hdescent : last.descent? with
    | none => simpa using ih
    | some id =>
      refine List.isChain_append.mpr ⟨ih, .singleton id, ?_⟩
      intro command hcommand sub hsub
      rw [Reading.getLast?_path] at hcommand
      obtain rfl := Option.some.inj hcommand
      obtain rfl := Option.some.inj hsub
      have hmem := (htrace.snoc hfits).mem_commands_of_descent? (List.mem_append_right _
        List.mem_cons_self) hdescent
      rwa [hfits.command] at hmem

/-- The numbers on the path of a well-formed tree grow. -/
theorem pairwise_path (h : Trace setting start readings) (htree : setting.tree.WellFormed) :
    (Reading.path start readings).Pairwise (· < ·) := by
  refine List.isChain_iff_pairwise.mp (h.isChain_path.imp ?_)
  intro command sub hsub
  exact htree.lt_of_mem_commands hsub

/-- No command is on the path twice. -/
theorem nodup_path (h : Trace setting start readings) (htree : setting.tree.WellFormed) :
    (Reading.path start readings).Nodup :=
  (h.pairwise_path htree).imp Nat.ne_of_lt

/-- Every reading was made under a command on the path. -/
theorem command_mem_path (h : Trace setting start readings) (hmem : reading ∈ readings) :
    reading.command ∈ Reading.path start readings := by
  obtain ⟨before, after, hsplit⟩ := List.append_of_mem hmem
  rw [(h.fits hsplit).command, hsplit]
  unfold Reading.path
  rw [List.filterMap_append, ← List.cons_append]
  exact List.mem_append_left _ (Reading.current_mem_path start before)

/-- In a well-formed tree every matched option is an option. -/
theorem isSome_option? (h : Trace setting start readings) (htree : setting.tree.WellFormed)
    (hscope : setting.scope = setting.tree.scope) {option : SymbolId}
    (hoption : option ∈ readings.filterMap Reading.option?) :
    (setting.tree.option? option).isSome := by
  obtain ⟨reading, hmem, hreading⟩ := List.mem_filterMap.mp hoption
  obtain ⟨text, hresolve⟩ : ∃ text, (setting.scope reading.command).resolve text = some option := by
    rcases (h.sound hmem).sight_of_option? hreading with hsight | ⟨value, hsight⟩
    · exact Setting.exists_resolve_of_sight hsight
    · exact Setting.exists_resolve_of_sight hsight
  rw [hscope] at hresolve
  exact htree.isSome_of_resolve hresolve

end Trace

end CommandLine
