import CommandLine.Proofs.Reading.Path

/-!
# Reading on from a subcommand

After the names of subcommands, one below another, reading stands where it would stand if it had
started at the last of them: at this command, with all slots of it empty and no option taking
values. Only the readings of the names are there already.

Earlier readings do not matter to a step except for the position that it gives to its token. So the
tokens that follow are read as they are from the last subcommand on, at later positions.
-/

namespace CommandLine

variable {β : Type}

/-- Texts that name subcommands, each of the one before, from a command down to another one. The
commands that are passed on the way are all but the last, one for each text. -/
inductive CommandTree.Leads (tree : CommandTree β) :
    SymbolId → List String → List SymbolId → SymbolId → Prop where
  | nil (command : SymbolId) : Leads tree command [] [] command
  | cons {command sub target : SymbolId} {text : String} {texts : List String}
      {passed : List SymbolId} (hne : text ≠ "--")
      (hsub : tree.subcommand? command text = some sub)
      (hrest : Leads tree sub texts passed target) :
      Leads tree command (text :: texts) (command :: passed) target

namespace Reading

/-- The reading with a number of tokens in front. -/
def shift (count : ℕ) (reading : Reading) : Reading :=
  { reading with position := reading.position + count }

/-- The reading of a subcommand's name. -/
def Descends (reading : Reading) : Prop := ∃ id, reading.meaning = .command id

end Reading

namespace Cursor

/-- The cursor with readings in front of its own. -/
def prepend (lead : List Reading) (cursor : Cursor) : Cursor :=
  { cursor with readings := lead ++ cursor.readings.map (Reading.shift lead.length) }

variable {cursor : Cursor} {setting : Setting β} {lead : List Reading}

/-- A token is recorded after all readings. -/
theorem record_prepend (text : String) (meaning : Meaning) :
    (cursor.prepend lead).record text meaning = (cursor.record text meaning).prepend lead := by
  simp [record, prepend, Reading.shift, Nat.add_comm]

/-- A token goes to the slot it goes to without readings in front. -/
theorem place_prepend (token : String) :
    (cursor.prepend lead).place token = (cursor.place token).prepend lead := by
  have hslots : (cursor.prepend lead).slots = cursor.slots := rfl
  simp only [place, record_prepend, hslots]
  cases cursor.slots.dropWhile (·.2 == 0) <;> rfl

/-- A token is read as it is without readings in front. -/
theorem step_prepend (setting : Setting β) (cursor : Cursor) (lead : List Reading)
    (token : String) :
    (cursor.prepend lead).step setting token = (cursor.step setting token).prepend lead := by
  have hliteral : (cursor.prepend lead).literal = cursor.literal := rfl
  have hcommand : (cursor.prepend lead).command = cursor.command := rfl
  have htaking : (cursor.prepend lead).taking = cursor.taking := rfl
  have hplain : (cursor.prepend lead).stepPlain token = (cursor.stepPlain token).prepend lead := by
    simp only [stepPlain, htaking, place_prepend, record_prepend]
    cases cursor.taking.filter (·.accepts token) <;> rfl
  simp only [step, hliteral, hcommand, place_prepend, record_prepend, hplain]
  cases cursor.literal with
  | true => rfl
  | false =>
    cases setting.sight cursor.command token with
    | option id inline => cases inline <;> rfl
    | _ => rfl

/-- Tokens are read as they are without readings in front. -/
theorem foldl_step_prepend (setting : Setting β) (cursor : Cursor) (lead : List Reading)
    (tokens : List String) :
    tokens.foldl (Cursor.step setting) (cursor.prepend lead) =
      (tokens.foldl (Cursor.step setting) cursor).prepend lead := by
  induction tokens generalizing cursor with
  | nil => rfl
  | cons token tokens ih => rw [List.foldl_cons, List.foldl_cons, step_prepend, ih]

/-- Tokens are read alike behind any readings of one number. -/
theorem exists_tail_foldl_step (setting : Setting β) (cursor : Cursor) (tokens : List String) :
    ∃ tail, ∀ readings : List Reading, readings.length = cursor.readings.length →
      (tokens.foldl (Cursor.step setting) { cursor with readings := readings }).readings =
        readings ++ tail := by
  refine ⟨((tokens.foldl (Cursor.step setting) { cursor with readings := [] }).readings).map
    (Reading.shift cursor.readings.length), fun readings hlength => ?_⟩
  have hprepend := foldl_step_prepend setting { cursor with readings := [] } readings tokens
  have hsame : ({ cursor with readings := [] } : Cursor).prepend readings =
      { cursor with readings := readings } := by
    simp [prepend]
  rw [hsame] at hprepend
  rw [hprepend, ← hlength]
  rfl

/-- The name of a subcommand leads to the start of reading at the subcommand. -/
theorem step_start {command sub : SymbolId} {text : String} (hne : text ≠ "--")
    (hsub : setting.tree.subcommand? command text = some sub) :
    (Cursor.start setting command).step setting text =
      (Cursor.start setting sub).prepend [⟨text, 0, command, .command sub⟩] := by
  have hsight : setting.sight command text = .command sub := by
    simp only [Setting.sight, if_neg hne, hsub]
  simp only [step, Cursor.start, hsight]
  rfl

/-- Readings in front of readings in front are in front all together. -/
theorem prepend_prepend (first second : List Reading) (cursor : Cursor) :
    (cursor.prepend second).prepend first =
      cursor.prepend (first ++ second.map (Reading.shift first.length)) := by
  simp [prepend, Reading.shift, Function.comp_def, Nat.add_comm, Nat.add_left_comm]

end Cursor

namespace CommandTree.Leads

variable {tree : CommandTree β} {config : Config} {start target : SymbolId} {texts : List String}
  {passed : List SymbolId}

/-- One command is passed for each text. -/
theorem length_eq (h : tree.Leads start texts passed target) : passed.length = texts.length := by
  induction h with
  | nil => rfl
  | cons _ _ _ ih => rw [List.length_cons, List.length_cons, ih]

/-- Texts that lead to a command are read as the names of subcommands, and the rest of a command
line is read from that command on. -/
theorem exists_foldl_step (h : tree.Leads start texts passed target) (setting : Setting β)
    (htree : setting.tree = tree) :
    ∃ lead : List Reading, lead.length = texts.length ∧ (∀ reading ∈ lead, reading.Descends) ∧
      Reading.path start lead = passed ++ [target] ∧
      texts.foldl (Cursor.step setting) (Cursor.start setting start) =
        (Cursor.start setting target).prepend lead := by
  induction h with
  | nil command => exact ⟨[], rfl, by simp, rfl, rfl⟩
  | @cons command sub target text texts passed hne hsub _ ih =>
    obtain ⟨lead, hlength, hdescends, hpath, hfold⟩ := ih
    refine ⟨⟨text, 0, command, .command sub⟩ :: lead.map (Reading.shift 1), ?_, ?_, ?_, ?_⟩
    · rw [List.length_cons, List.length_map, hlength, List.length_cons]
    · rw [List.forall_mem_cons]
      refine ⟨⟨sub, rfl⟩, fun reading hmem => ?_⟩
      obtain ⟨other, hother, rfl⟩ := List.mem_map.mp hmem
      exact hdescends other hother
    · have hdescents : (lead.map (Reading.shift 1)).filterMap Reading.descent? =
          lead.filterMap Reading.descent? := List.filterMap_map
      rw [List.cons_append, ← hpath, Reading.path, Reading.path, ← hdescents]
      rfl
    · subst htree
      rw [List.foldl_cons, Cursor.step_start hne hsub, Cursor.foldl_step_prepend, hfold,
        Cursor.prepend_prepend]
      rfl

end CommandTree.Leads

end CommandLine
