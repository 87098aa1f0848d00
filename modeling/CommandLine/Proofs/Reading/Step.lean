import CommandLine.Reading
import Mathlib.Data.List.Nodup

/-!
# What reading one token does

`Cursor.Step` lists the ways in which a token can be read, together with what was true of the
cursor then. Every way adds one reading, made of the token, its position and the current command,
so a step is described by the meaning it gives to the token and by the cursor it leads to.

A torn token is read like a plain one here; reading a command line stops in front of it.
-/

namespace CommandLine

variable {β : Type}

/-- An option accepts a token if there is room, and the token is a truth value where only these are
taken. -/
theorem Taking.accepts_iff {taking : Taking} {text : String} : taking.accepts text = true ↔
    taking.room ≠ 0 ∧ ¬(taking.boolOnly = true ∧ (readBool text).isNone = true) := by
  rw [accepts]
  cases taking.boolOnly <;> cases readBool text <;> simp

namespace Cursor

/-- Whether a token gets past the recognized forms, so that only values and positionals are left. -/
def PassesBy (setting : Setting β) (cursor : Cursor) (token : String) : Prop :=
  cursor.literal = true ∨ setting.sight cursor.command token = .plain ∨
    setting.sight cursor.command token = .torn

/-- The ways to read a token: its meaning, and the cursor after it. -/
inductive Step (setting : Setting β) (cursor : Cursor) (token : String) : Meaning → Cursor → Prop where
  | doubleDash (hliteral : cursor.literal = false)
      (hsight : setting.sight cursor.command token = .doubleDash) :
      Step setting cursor token .doubleDash
        { cursor.record token .doubleDash with taking := none, literal := true }
  | command {id : SymbolId} (hliteral : cursor.literal = false)
      (hsight : setting.sight cursor.command token = .command id) :
      Step setting cursor token (.command id)
        { cursor.record token (.command id) with
          command := id, slots := setting.slots id, taking := none }
  | option {id : SymbolId} (hliteral : cursor.literal = false)
      (hsight : setting.sight cursor.command token = .option id none) :
      Step setting cursor token (.option id [])
        { cursor.record token (.option id []) with taking := some (setting.taking id) }
  | inline {id : SymbolId} {value : String} (hliteral : cursor.literal = false)
      (hsight : setting.sight cursor.command token = .option id (some value)) :
      Step setting cursor token (.option id (setting.inlineValues id value))
        { cursor.record token (.option id (setting.inlineValues id value)) with taking := none }
  | optionValue {taking : Taking} (hliteral : cursor.literal = false)
      (hplain : cursor.PassesBy setting token) (htaking : cursor.taking = some taking)
      (haccepts : taking.accepts token = true) :
      Step setting cursor token (.optionValue taking.option)
        { cursor.record token (.optionValue taking.option) with
          taking := some { taking with room := taking.room - 1 } }
  | positional {argument : SymbolId} {room : ℕ} {slots : List (SymbolId × ℕ)}
      (hplain : cursor.PassesBy setting token)
      (htaking : cursor.literal = true ∨ cursor.taking.filter (·.accepts token) = none)
      (hslots : cursor.slots.dropWhile (·.2 == 0) = (argument, room) :: slots) :
      Step setting cursor token (.positional argument)
        { cursor.record token (.positional argument) with
          slots := (argument, room - 1) :: slots, taking := none }
  | unmatched (hplain : cursor.PassesBy setting token)
      (htaking : cursor.literal = true ∨ cursor.taking.filter (·.accepts token) = none)
      (hslots : cursor.slots.dropWhile (·.2 == 0) = []) :
      Step setting cursor token .unmatched
        { cursor.record token .unmatched with slots := [], taking := none }

variable {setting : Setting β} {cursor next : Cursor} {token : String} {meaning : Meaning}

/-- A token that no option takes goes to the first slot with room, or is unmatched. -/
theorem step_place (hplain : cursor.PassesBy setting token)
    (htaking : cursor.literal = true ∨ cursor.taking.filter (·.accepts token) = none) :
    ∃ meaning, Step setting cursor token meaning (cursor.place token) := by
  unfold place
  cases hslots : cursor.slots.dropWhile (·.2 == 0) with
  | nil => exact ⟨_, .unmatched hplain htaking hslots⟩
  | cons slot slots => exact ⟨_, .positional hplain htaking hslots⟩

/-- A token that is not recognized goes to the option that takes it, or to the positionals. -/
theorem step_plain (hliteral : cursor.literal = false) (hplain : cursor.PassesBy setting token) :
    ∃ meaning, Step setting cursor token meaning (cursor.stepPlain token) := by
  unfold stepPlain
  cases htaking : cursor.taking.filter (·.accepts token) with
  | none => exact step_place hplain (Or.inr htaking)
  | some taking =>
    obtain ⟨hsome, haccepts⟩ := Option.filter_eq_some_iff.mp htaking
    exact ⟨_, .optionValue hliteral hplain hsome haccepts⟩

/-- Every token is read in one of the listed ways. -/
theorem step_cases (setting : Setting β) (cursor : Cursor) (token : String) :
    ∃ meaning, Step setting cursor token meaning (cursor.step setting token) := by
  unfold step
  split
  · exact step_place (Or.inl ‹_›) (Or.inl ‹_›)
  · have hliteral : cursor.literal = false := by simpa using ‹¬cursor.literal = true›
    split
    · exact ⟨_, .doubleDash hliteral ‹_›⟩
    · exact ⟨_, .command hliteral ‹_›⟩
    · exact ⟨_, .option hliteral ‹_›⟩
    · exact ⟨_, .inline hliteral ‹_›⟩
    · exact step_plain hliteral (Or.inr (Or.inl ‹_›))
    · exact step_plain hliteral (Or.inr (Or.inr ‹_›))

/-- A token that is not recognized goes to the option that takes it. -/
theorem step_optionValue {taking : Taking} (hliteral : cursor.literal = false)
    (hsight : setting.sight cursor.command token = .plain) (htaking : cursor.taking = some taking)
    (haccepts : taking.accepts token = true) :
    cursor.step setting token = { cursor.record token (.optionValue taking.option) with
      taking := some { taking with room := taking.room - 1 } } := by
  have hfilter : cursor.taking.filter (·.accepts token) = some taking := by
    rw [htaking, Option.filter_eq_some_iff]
    exact ⟨rfl, haccepts⟩
  rw [step, hliteral, hsight]
  simp only [stepPlain, hfilter]
  rfl

/-- An option without a value in its own token may take values from the tokens behind it. -/
theorem step_option {id : SymbolId} (hliteral : cursor.literal = false)
    (hsight : setting.sight cursor.command token = .option id none) :
    cursor.step setting token =
      { cursor.record token (.option id []) with taking := some (setting.taking id) } := by
  rw [step, hliteral, if_neg Bool.false_ne_true, hsight]

/-- An option with a value behind a delimiter is read at once, and takes nothing that follows. -/
theorem step_inline {id : SymbolId} {value : String} (hliteral : cursor.literal = false)
    (hsight : setting.sight cursor.command token = .option id (some value)) :
    cursor.step setting token =
      { cursor.record token (.option id (setting.inlineValues id value)) with taking := none } := by
  rw [step, hliteral, if_neg Bool.false_ne_true, hsight]

namespace Step

/-- A step adds the reading of its token. -/
theorem readings (h : Step setting cursor token meaning next) :
    next.readings = cursor.readings ++ [⟨token, cursor.readings.length, cursor.command, meaning⟩] := by
  cases h <;> rfl

/-- A step leads to another command only when it reads the name of one. -/
theorem command_eq (h : Step setting cursor token meaning next) :
    next.command = match meaning with
      | .command id => id
      | _ => cursor.command := by
  cases h <;> rfl

/-- After a step everything is literal if it was before, or if the token was `--`. -/
theorem literal_eq (h : Step setting cursor token meaning next) :
    next.literal = (cursor.literal || decide (meaning = .doubleDash)) := by
  cases h <;> simp [record, *]

end Step

/-- Where reading does not stop, it has read all tokens. -/
theorem eq_foldl_of_read {tokens : List String} (h : cursor.read setting tokens = .ok next) :
    next = tokens.foldl (Cursor.step setting) cursor := by
  induction tokens generalizing cursor with
  | nil => exact (Except.ok.inj h).symm
  | cons token tokens ih =>
    rw [read] at h
    split at h
    · cases h
    · exact ih h

/-- After `--` reading does not stop, whatever the delimiters are. -/
theorem read_of_literal (hliteral : cursor.literal = true) (tokens : List String) :
    cursor.read setting tokens = .ok (tokens.foldl (Cursor.step setting) cursor) := by
  induction tokens generalizing cursor with
  | nil => rfl
  | cons token tokens ih =>
    obtain ⟨meaning, hstep⟩ := step_cases setting cursor token
    have hnext : (cursor.step setting token).literal = true := by
      rw [hstep.literal_eq, hliteral, Bool.true_or]
    have htears : cursor.tears setting token = false := by
      rw [tears, hliteral, Bool.not_true, Bool.false_and]
    rw [read, htears, if_neg Bool.false_ne_true, ih hnext, List.foldl_cons]

end CommandLine.Cursor
