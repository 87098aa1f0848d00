import CommandLine.Proofs.Report.Bindings
import CommandLine.Report.Selection

/-!
# The actions of a report

What is selected is a list of symbols, each of which has an action: the options whose actions run
ahead, and then the one option or command whose action is selected. No symbol is in it twice, since
no option is matched twice. So there is one action for each symbol, and none is dropped.
-/

namespace CommandLine

variable {β : Type}

/-- A command with an action of its own has that action. -/
theorem CommandTree.isSome_action?_of_command? {tree : CommandTree β} {id : SymbolId}
    (h : (tree.command? id).any (·.action.isSome) = true) : (tree.action? id).isSome := by
  rw [command?] at h
  rw [action?]
  cases hsymbol : tree.symbol? id with
  | none => simp [hsymbol] at h
  | some symbol => cases hrole : symbol.role <;> simp_all [Symbol.command?, Symbol.action?]

namespace Report

variable {report : Report β} {id : SymbolId}

/-- The symbols whose actions are to run, in order. -/
def owners (report : Report β) : List SymbolId :=
  report.selection.ahead ++ report.selection.owner.toList

/-- The actions that are to run, in order. -/
def pipeline (report : Report β) : List (Action β) :=
  report.actionsAhead ++ report.action?.toList

/-- An option acts if it was matched and has an action. -/
theorem mem_actingOptions :
    id ∈ report.actingOptions ↔ id ∈ report.optionIds ∧ (report.tree.action? id).isSome := by
  rw [actingOptions, List.mem_filter]

/-- No option acts twice. -/
theorem nodup_actingOptions (report : Report β) : report.actingOptions.Nodup :=
  (nodup_optionIds report).filter _

/-- What is selected are acting options in order, or else the deepest command on its own. -/
theorem owners_cases (report : Report β) :
    report.owners.Sublist report.actingOptions ∨
      report.owners = [report.terminal] ∧ (report.tree.action? report.terminal).isSome ∨
      report.owners = [] := by
  rw [owners, selection]
  cases hlast : report.actingOptions.getLast? with
  | some option =>
    refine Or.inl ?_
    have hsplit : report.actingOptions.dropLast ++ [option] = report.actingOptions :=
      List.dropLast_append_getLast? option hlast
    refine (List.filter_sublist.append_right [option]).trans ?_
    rw [hsplit]
  | none =>
    dsimp only
    split
    · exact Or.inr (Or.inl ⟨rfl, CommandTree.isSome_action?_of_command? ‹_›⟩)
    · exact Or.inr (Or.inr rfl)

/-- No symbol is selected twice. -/
theorem nodup_owners (report : Report β) : report.owners.Nodup := by
  rcases report.owners_cases with hacting | ⟨hterminal, -⟩ | hnone
  · exact hacting.nodup report.nodup_actingOptions
  · rw [hterminal]
    exact List.nodup_singleton _
  · rw [hnone]
    exact List.nodup_nil

/-- Whatever is selected has an action. -/
theorem isSome_action?_of_mem_owners (h : id ∈ report.owners) :
    (report.tree.action? id).isSome := by
  rcases report.owners_cases with hacting | ⟨hterminal, haction⟩ | hnone
  · exact (mem_actingOptions.mp (hacting.subset h)).2
  · rw [hterminal, List.mem_singleton] at h
    rwa [h]
  · simp [hnone] at h

/-- The actions ahead of the selected one are not exclusive. -/
theorem exclusive_of_mem_actionsAhead {action : Action β} (h : action ∈ report.actionsAhead) :
    action.exclusive = false := by
  obtain ⟨option, hoption, haction⟩ := List.mem_filterMap.mp h
  rw [selection] at hoption
  split at hoption
  · have hexclusive := (List.mem_filter.mp hoption).2
    simpa [haction] using hexclusive
  · split at hoption <;> cases hoption

/-- The actions that are to run are those of the selected symbols. -/
theorem pipeline_eq (report : Report β) :
    report.pipeline = report.owners.filterMap report.tree.action? := by
  rw [pipeline, owners, List.filterMap_append, actionsAhead, action?]
  cases report.selection.owner with
  | none => rfl
  | some id => cases haction : report.tree.action? id <;> simp [haction]

/-- Each of some selected symbols has an action, so none is dropped when they are looked up. -/
theorem map_action?_of_subset {ids : List SymbolId} (h : ids ⊆ report.owners) :
    ids.map report.tree.action? = (ids.filterMap report.tree.action?).map some := by
  rw [List.map_filterMap_some_eq_filter_map_isSome, List.filter_eq_self.mpr]
  intro action haction
  obtain ⟨id, hid, rfl⟩ := List.mem_map.mp haction
  exact isSome_action?_of_mem_owners (h hid)

/-- Each selected symbol has its action among those that are to run, in the same place. -/
theorem map_action?_owners (report : Report β) :
    report.owners.map report.tree.action? = report.pipeline.map some := by
  rw [pipeline_eq, map_action?_of_subset (List.Subset.refl _)]

end Report

end CommandLine
