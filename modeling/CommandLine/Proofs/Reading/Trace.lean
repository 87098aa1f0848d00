import CommandLine.Proofs.Reading.Step
import CommandLine.Report

/-!
# Traces

The readings of a command line form a trace: each of them fits the readings before it. It has the
next position, it was made under the command that was current then, its meaning is what its text
and the tree allow, and a value of an option comes after an occurrence of that option.

Reading a command line produces traces only. This is the one induction over tokens that the views
of a report rest on.
-/

namespace CommandLine

variable {β : Type}

namespace Reading

/-- The command that is current after some readings: the last one named, or the first one. -/
def current (start : SymbolId) (readings : List Reading) : SymbolId :=
  (readings.filterMap descent?).getLast?.getD start

/-- What the meaning of a reading says about its text and its command. -/
def Sound (setting : Setting β) (reading : Reading) : Prop :=
  let sighting := setting.sight reading.command reading.text
  match reading.meaning with
  | .doubleDash => sighting = .doubleDash
  | .command id => sighting = .command id
  | .option id inline =>
      (sighting = .option id none ∧ inline = []) ∨
        ∃ value, sighting = .option id (some value) ∧ inline = setting.inlineValues id value
  | .optionValue _ => sighting = .plain ∨ sighting = .torn
  | .positional argument => argument ∈ setting.tree.arguments reading.command
  | .unmatched => True

/-- A reading that names an option holds values of it, maybe none. -/
theorem exists_meaning_of_option? {reading : Reading} {option : SymbolId}
    (h : reading.option? = some option) : ∃ inline, reading.meaning = .option option inline := by
  unfold option? at h
  cases hmeaning : reading.meaning with
  | option id inline =>
    rw [hmeaning] at h
    exact ⟨inline, by rw [Option.some.inj h]⟩
  | _ => simp [hmeaning] at h

/-- A token that is read as an option looks like it, alone or with a value. -/
theorem Sound.sight_of_option? {setting : Setting β} {reading : Reading} {option : SymbolId}
    (h : reading.Sound setting) (hoption : reading.option? = some option) :
    setting.sight reading.command reading.text = .option option none ∨
      ∃ value, setting.sight reading.command reading.text = .option option (some value) := by
  obtain ⟨inline, hmeaning⟩ := exists_meaning_of_option? hoption
  unfold Sound at h
  rw [hmeaning] at h
  exact h.imp And.left fun ⟨value, hsight, _⟩ => ⟨value, hsight⟩

/-- A token that is read as a command looks like it. -/
theorem Sound.sight_of_descent? {setting : Setting β} {reading : Reading} {sub : SymbolId}
    (h : reading.Sound setting) (hdescent : reading.descent? = some sub) :
    setting.sight reading.command reading.text = .command sub := by
  unfold descent? at hdescent
  unfold Sound at h
  split at hdescent
  · rename_i hmeaning
    obtain rfl := Option.some.inj hdescent
    rw [hmeaning] at h
    exact h
  · cases hdescent

/-- A reading that can follow others. -/
structure Fits (setting : Setting β) (start : SymbolId) (before : List Reading)
    (reading : Reading) : Prop where
  position : reading.position = before.length
  command : reading.command = current start before
  sound : reading.Sound setting
  option_mem : ∀ {option}, reading.meaning = .optionValue option →
    option ∈ before.filterMap option?

end Reading

/-- Readings of which each fits those before it. -/
inductive Trace (setting : Setting β) (start : SymbolId) : List Reading → Prop where
  | nil : Trace setting start []
  | snoc {before : List Reading} {reading : Reading} (hbefore : Trace setting start before)
      (hfits : reading.Fits setting start before) : Trace setting start (before ++ [reading])

/-- A cursor whose readings form a trace, and whose state is what the trace makes of it. -/
structure Cursor.Consistent (setting : Setting β) (start : SymbolId) (cursor : Cursor) : Prop where
  trace : Trace setting start cursor.readings
  command : cursor.command = Reading.current start cursor.readings
  slots : ∀ slot ∈ cursor.slots, slot.1 ∈ setting.tree.arguments cursor.command
  taking : ∀ taking, cursor.taking = some taking →
    taking.option ∈ cursor.readings.filterMap Reading.option?

variable {setting : Setting β} {start : SymbolId}

/-! ## Reading makes traces -/

/-- The slots of a command are its positional arguments. -/
theorem Setting.mem_arguments_of_mem_slots {command : SymbolId} {slot : SymbolId × ℕ}
    (h : slot ∈ setting.slots command) : slot.1 ∈ setting.tree.arguments command := by
  obtain ⟨argument, hargument, rfl⟩ := List.mem_map.mp h
  exact hargument

/-- One more reading moves the current command only if it names one. -/
theorem Reading.current_append_singleton (readings : List Reading) (reading : Reading) :
    current start (readings ++ [reading]) = reading.descent?.getD (current start readings) := by
  unfold current
  rw [List.filterMap_append]
  cases hdescent : reading.descent? <;> simp [hdescent]

namespace Cursor

variable {cursor next : Cursor} {token : String} {meaning : Meaning}

/-- Before the first token there is nothing to be consistent with. -/
theorem consistent_start (setting : Setting β) (start : SymbolId) :
    (Cursor.start setting start).Consistent setting start := by
  refine ⟨.nil, rfl, ?_, ?_⟩
  · intro slot hslot
    exact Setting.mem_arguments_of_mem_slots hslot
  · intro taking htaking
    simp [Cursor.start] at htaking

/-- The slots that still have room are positional arguments of the current command. -/
theorem Consistent.mem_arguments_of_dropWhile (hcursor : cursor.Consistent setting start)
    {rest : List (SymbolId × ℕ)} (hrest : cursor.slots.dropWhile (·.2 == 0) = rest) :
    ∀ slot ∈ rest, slot.1 ∈ setting.tree.arguments cursor.command := by
  intro slot hslot
  subst rest
  exact hcursor.slots slot ((List.dropWhile_sublist _).subset hslot)

/-- The reading that a step adds fits the readings before it. -/
theorem Step.fits (h : Step setting cursor token meaning next)
    (hcursor : cursor.Consistent setting start) :
    (⟨token, cursor.readings.length, cursor.command, meaning⟩ : Reading).Fits setting start
      cursor.readings := by
  refine ⟨rfl, hcursor.command, ?_, ?_⟩
  · cases h with
    | doubleDash hliteral hsight => exact hsight
    | command hliteral hsight => exact hsight
    | option hliteral hsight => exact Or.inl ⟨hsight, rfl⟩
    | inline hliteral hsight => exact Or.inr ⟨_, hsight, rfl⟩
    | optionValue hliteral hplain htaking haccepts =>
      exact hplain.resolve_left (by simp [hliteral])
    | positional hplain htaking hslots =>
      exact hcursor.mem_arguments_of_dropWhile hslots _ List.mem_cons_self
    | unmatched hplain htaking hslots => trivial
  · intro option hmeaning
    cases h with
    | optionValue hliteral hplain htaking haccepts =>
      obtain rfl := Meaning.optionValue.inj hmeaning
      exact hcursor.taking _ htaking
    | _ => simp at hmeaning

/-- A step keeps a cursor consistent. -/
theorem Step.consistent (h : Step setting cursor token meaning next)
    (hcursor : cursor.Consistent setting start) : next.Consistent setting start := by
  refine ⟨?_, ?_, ?_, ?_⟩
  · rw [h.readings]
    exact hcursor.trace.snoc (h.fits hcursor)
  · rw [h.readings, Reading.current_append_singleton, h.command_eq, ← hcursor.command]
    cases meaning <;> rfl
  · cases h with
    | command hliteral hsight => exact fun slot hslot => Setting.mem_arguments_of_mem_slots hslot
    | positional hplain htaking hslots =>
      have hroom := hcursor.mem_arguments_of_dropWhile hslots
      rw [List.forall_mem_cons] at hroom ⊢
      exact hroom
    | unmatched hplain htaking hslots => simp
    | _ => exact hcursor.slots
  · intro taking htaking
    rw [h.readings, List.filterMap_append, List.mem_append]
    cases h with
    | option hliteral hsight =>
      obtain rfl := Option.some.inj htaking
      exact Or.inr (by simp [Reading.option?, Setting.taking])
    | optionValue hliteral hplain hold haccepts =>
      have hoption := hcursor.taking _ hold
      obtain rfl := Option.some.inj htaking
      exact Or.inl hoption
    | _ => cases htaking

/-- Reading any tokens keeps a cursor consistent. -/
theorem Consistent.foldl_step (hcursor : cursor.Consistent setting start) (tokens : List String) :
    (tokens.foldl (Cursor.step setting) cursor).Consistent setting start := by
  induction tokens generalizing cursor with
  | nil => exact hcursor
  | cons token tokens ih =>
    obtain ⟨_, hstep⟩ := step_cases setting cursor token
    exact ih (hstep.consistent hcursor)

/-- Reading tokens adds one reading for each, in order. -/
theorem texts_foldl_step (setting : Setting β) (cursor : Cursor) (tokens : List String) :
    (tokens.foldl (Cursor.step setting) cursor).readings.map (·.text) =
      cursor.readings.map (·.text) ++ tokens := by
  induction tokens generalizing cursor with
  | nil => simp
  | cons token tokens ih =>
    obtain ⟨_, hstep⟩ := step_cases setting cursor token
    rw [List.foldl_cons, ih, hstep.readings]
    simp

/-- Reading more tokens leaves the readings before them. -/
theorem readings_isPrefix_foldl_step (setting : Setting β) (cursor : Cursor)
    (tokens : List String) :
    cursor.readings <+: (tokens.foldl (Cursor.step setting) cursor).readings := by
  induction tokens generalizing cursor with
  | nil => exact List.prefix_rfl
  | cons token tokens ih =>
    obtain ⟨_, hstep⟩ := step_cases setting cursor token
    have hbefore : cursor.readings <+: (cursor.step setting token).readings := by
      rw [hstep.readings]
      exact List.prefix_append _ _
    exact hbefore.trans (ih _)

end Cursor

/-! ## What holds along a trace -/

namespace Trace

variable {readings before after : List Reading} {reading : Reading}

/-- Positions count the readings from 0 on. -/
theorem positions (h : Trace setting start readings) :
    readings.map (·.position) = List.range readings.length := by
  induction h with
  | nil => rfl
  | snoc _ hfits ih =>
    rw [List.map_append, ih, List.length_append, List.length_singleton, List.range_succ]
    simp [hfits.position]

/-- Every reading of a trace fits those before it. -/
theorem fits (h : Trace setting start readings) (hsplit : readings = before ++ reading :: after) :
    reading.Fits setting start before := by
  induction h generalizing after with
  | nil => simp at hsplit
  | @snoc earlier last _ hfits ih =>
    rcases after.eq_nil_or_concat with rfl | ⟨rest, final, rfl⟩
    · obtain ⟨rfl, hlast⟩ := List.append_inj' hsplit rfl
      obtain rfl := List.singleton_inj.mp hlast
      exact hfits
    · rw [List.concat_eq_append, ← List.cons_append, ← List.append_assoc] at hsplit
      exact ih (List.append_inj' hsplit rfl).1

/-- A reading of a trace stands at its position. -/
theorem getElem?_position (h : Trace setting start readings) (hmem : reading ∈ readings) :
    readings[reading.position]? = some reading := by
  obtain ⟨before, after, hsplit⟩ := List.append_of_mem hmem
  rw [(h.fits hsplit).position, hsplit, List.getElem?_append_right (Nat.le_refl _), Nat.sub_self]
  rfl

/-- The meaning of every reading is what its text and its command allow. -/
theorem sound (h : Trace setting start readings) (hmem : reading ∈ readings) :
    reading.Sound setting := by
  obtain ⟨before, after, hsplit⟩ := List.append_of_mem hmem
  exact (h.fits hsplit).sound

/-- An option with a value of its own has an occurrence. -/
theorem option_mem (h : Trace setting start readings) (hmem : reading ∈ readings)
    {option : SymbolId} (hmeaning : reading.meaning = .optionValue option) :
    option ∈ readings.filterMap Reading.option? := by
  obtain ⟨before, after, hsplit⟩ := List.append_of_mem hmem
  have hbefore := (h.fits hsplit).option_mem hmeaning
  rw [hsplit, List.filterMap_append]
  exact List.mem_append_left _ hbefore

/-- No two readings of a trace have the same position. -/
theorem nodup_positions (h : Trace setting start readings) :
    (readings.map (·.position)).Nodup := by
  rw [h.positions]
  exact List.nodup_range

/-- Positions grow along a trace. -/
theorem pairwise_positions (h : Trace setting start readings) :
    readings.Pairwise fun earlier later => earlier.position < later.position := by
  rw [← List.pairwise_map (f := Reading.position), h.positions]
  exact List.pairwise_lt_range

/-- The readings with smaller positions are those before. -/
theorem filter_position_lt (h : Trace setting start readings)
    (hsplit : readings = before ++ reading :: after) :
    readings.filter (·.position < reading.position) = before := by
  have hpairwise := h.pairwise_positions
  rw [hsplit, List.pairwise_append, List.pairwise_cons] at hpairwise
  obtain ⟨-, ⟨hafter, -⟩, hbefore⟩ := hpairwise
  have hkept : before.filter (·.position < reading.position) = before := by
    rw [List.filter_eq_self]
    intro earlier hearlier
    simpa using hbefore earlier hearlier reading List.mem_cons_self
  have hdropped : (reading :: after).filter (·.position < reading.position) = [] := by
    rw [List.filter_eq_nil_iff]
    intro later hlater
    rcases List.mem_cons.mp hlater with rfl | hlater
    · simp
    · have hlt := hafter later hlater
      simp only [decide_eq_true_eq]
      omega
  rw [hsplit, List.filter_append, hkept, hdropped, List.append_nil]

/-- A reading of a trace is determined by its position. -/
theorem eq_of_position_eq (h : Trace setting start readings) {other : Reading}
    (hmem : reading ∈ readings) (hother : other ∈ readings)
    (hposition : reading.position = other.position) : reading = other :=
  List.inj_on_of_nodup_map h.nodup_positions hmem hother hposition

end Trace

end CommandLine
