import CommandLine.Proofs.Reading.Sighting
import CommandLine.Proofs.Reading.Trace

/-!
# Other spellings of a token

A token that names a subcommand or an option may be spelled with any other text that looks the same
at the current command. It is then read as before, and so is everything after it: a later token is
read under the current command, with the slots and the option that takes values, and in none of
these is the text of an earlier token.

An option that was taking values in front of the token stops at it under either spelling, since
both are recognized.
-/

namespace CommandLine

variable {β : Type}

namespace Reading

/-- The reading with another text if it has the given position. -/
def respell (position : ℕ) (text : String) (reading : Reading) : Reading :=
  if reading.position = position then { reading with text := text } else reading

/-- A reading that names a subcommand or an option, alone or with values in its own token. -/
def Names (reading : Reading) : Prop :=
  (∃ id, reading.meaning = .command id) ∨ ∃ id inline, reading.meaning = .option id inline

variable {position : ℕ} {text : String} {reading : Reading}

/-- Readings at other positions keep their text. -/
theorem respell_of_ne (h : reading.position ≠ position) : reading.respell position text = reading :=
  if_neg h

/-- The reading at the position gets the text. -/
theorem respell_of_eq (h : reading.position = position) :
    reading.respell position text = { reading with text := text } :=
  if_pos h

end Reading

namespace Cursor

/-- The cursor with another text in the reading at the given position. -/
def respell (position : ℕ) (text : String) (cursor : Cursor) : Cursor :=
  { cursor with readings := cursor.readings.map (Reading.respell position text) }

variable {cursor : Cursor} {setting : Setting β} {position : ℕ} {text token other : String}

/-- A token that is recorded later has a position of its own. -/
theorem record_respell (h : position < cursor.readings.length) (meaning : Meaning) :
    (cursor.respell position text).record token meaning =
      (cursor.record token meaning).respell position text := by
  have hne : cursor.readings.length ≠ position := by omega
  simp [record, respell, Reading.respell_of_ne, hne]

/-- A later token goes to the slot it goes to under the first spelling. -/
theorem place_respell (h : position < cursor.readings.length) :
    (cursor.respell position text).place token = (cursor.place token).respell position text := by
  have hslots : (cursor.respell position text).slots = cursor.slots := rfl
  simp only [place, record_respell h, hslots]
  cases cursor.slots.dropWhile (·.2 == 0) <;> rfl

/-- A later token is read as it is under the first spelling. -/
theorem step_respell (setting : Setting β) (h : position < cursor.readings.length) :
    (cursor.respell position text).step setting token =
      (cursor.step setting token).respell position text := by
  have hliteral : (cursor.respell position text).literal = cursor.literal := rfl
  have hcommand : (cursor.respell position text).command = cursor.command := rfl
  have htaking : (cursor.respell position text).taking = cursor.taking := rfl
  have hplain : (cursor.respell position text).stepPlain token =
      (cursor.stepPlain token).respell position text := by
    simp only [stepPlain, htaking, place_respell h, record_respell h]
    cases cursor.taking.filter (·.accepts token) <;> rfl
  simp only [step, hliteral, hcommand, place_respell h, record_respell h, hplain]
  cases cursor.literal with
  | true => rfl
  | false =>
    cases setting.sight cursor.command token with
    | option id inline => cases inline <;> rfl
    | _ => rfl

/-- Later tokens are read as they are under the first spelling. -/
theorem foldl_step_respell (setting : Setting β) (h : position < cursor.readings.length)
    (tokens : List String) :
    tokens.foldl (Cursor.step setting) (cursor.respell position text) =
      (tokens.foldl (Cursor.step setting) cursor).respell position text := by
  induction tokens generalizing cursor with
  | nil => rfl
  | cons token tokens ih =>
    have hnext : position < (cursor.step setting token).readings.length := by
      rw [length_readings_step]
      omega
    rw [List.foldl_cons, List.foldl_cons, step_respell setting h, ih hnext]

/-- Without a reading at the position there is nothing to spell in another way. -/
theorem map_respell_eq_self {readings : List Reading}
    (h : ∀ reading ∈ readings, reading.position ≠ position) :
    readings.map (Reading.respell position text) = readings := by
  have hsame := List.map_congr_left fun reading hmem => @Reading.respell_of_ne position text reading
    (h reading hmem)
  rw [hsame, List.map_id']

/-- A token that is recorded next can be spelled in another way afterwards. -/
theorem record_other (hbefore : ∀ reading ∈ cursor.readings, reading.position ≠ cursor.readings.length)
    (meaning : Meaning) :
    cursor.record other meaning =
      (cursor.record token meaning).respell cursor.readings.length other := by
  simp only [record, respell, List.map_append, map_respell_eq_self hbefore, List.map_singleton,
    Reading.respell_of_eq]

/-- A recognized token may be spelled with any text that looks the same, unless it holds a value. -/
theorem step_other (hbefore : ∀ reading ∈ cursor.readings, reading.position ≠ cursor.readings.length)
    (hliteral : cursor.literal = false)
    (hsight : setting.sight cursor.command other = setting.sight cursor.command token)
    (hnames : (∃ id, setting.sight cursor.command token = .command id) ∨
      ∃ id, setting.sight cursor.command token = .option id none) :
    cursor.step setting other =
      (cursor.step setting token).respell cursor.readings.length other := by
  rw [step, step, hliteral, if_neg Bool.false_ne_true, if_neg Bool.false_ne_true, hsight]
  rcases hnames with ⟨id, hid⟩ | ⟨id, hid⟩ <;>
    simp only [hid, @record_other cursor token other hbefore] <;> rfl

/-- A name is not read literally. -/
theorem Step.literal_of_names {next : Cursor} {meaning : Meaning}
    (h : Step setting cursor token meaning next)
    (hnames : (∃ id, meaning = .command id) ∨ ∃ id inline, meaning = .option id inline) :
    cursor.literal = false := by
  cases h with
  | positional => simp at hnames
  | unmatched => simp at hnames
  | _ => assumption

/-- The readings of a consistent cursor have smaller positions than the next one. -/
theorem Consistent.position_ne {start : SymbolId} (h : cursor.Consistent setting start) :
    ∀ reading ∈ cursor.readings, reading.position ≠ cursor.readings.length := by
  intro reading hmem
  have hposition := List.mem_map_of_mem (f := Reading.position) hmem
  rw [h.trace.positions, List.mem_range] at hposition
  exact Nat.ne_of_lt hposition

end Cursor

end CommandLine
