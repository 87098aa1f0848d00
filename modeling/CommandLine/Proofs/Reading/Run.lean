import CommandLine.Proofs.Reading.Trace
import Mathlib.Order.Bounds.Defs

/-!
# Values behind an option

An option takes values from the tokens behind it while it has room for them, up to a token that does
not look plain or that it does not accept. `Setting.run` says this of the tokens alone, and it is a
beginning of them that ends at the first place where taking can end.

Reading takes the same values one token at a time. What a step owes to an option before and after it
differs by what its reading gives, so the values of an option are those in its own tokens and the
runs behind them, occurrence by occurrence.
-/

namespace CommandLine

variable {β : Type} {setting : Setting β}

/-! ## Runs of values -/

/-- The values that an option takes from the tokens behind it. -/
def Setting.run (setting : Setting β) (command : SymbolId) (taking : Taking) :
    List String → List String
  | [] => []
  | token :: tokens =>
      if setting.sight command token = .plain ∧ taking.accepts token = true then
        token :: setting.run command { taking with room := taking.room - 1 } tokens
      else []

/-- Taking values can end after a number of tokens: there are no more, there is no room for more, or
the next one does not look plain or is no truth value where only these are taken. -/
def Setting.Halts (setting : Setting β) (command : SymbolId) (taking : Taking)
    (tokens : List String) (count : ℕ) : Prop :=
  tokens[count]? = none ∨ taking.room ≤ count ∨ ∃ token, tokens[count]? = some token ∧
    (setting.sight command token ≠ .plain ∨ taking.boolOnly = true ∧ readBool token = none)

namespace Setting

variable {command : SymbolId} {taking : Taking} {token : String} {tokens : List String}

/-- Taking does not end in front of a token that is taken. -/
theorem halts_zero_iff : setting.Halts command taking (token :: tokens) 0 ↔
    ¬ (setting.sight command token = .plain ∧ taking.accepts token = true) := by
  rw [Halts, Taking.accepts]
  simp only [List.getElem?_cons_zero, Option.some.injEq, exists_eq_left']
  by_cases hsight : setting.sight command token = .plain
  · cases taking.boolOnly <;> cases readBool token <;> simp [hsight]
  · simp [hsight]

/-- Behind a token that is taken there is room for one less. -/
theorem halts_succ_iff (count : ℕ) :
    setting.Halts command taking (token :: tokens) (count + 1) ↔
      setting.Halts command { taking with room := taking.room - 1 } tokens count := by
  rw [Halts, Halts, List.getElem?_cons_succ]
  have hle : taking.room ≤ count + 1 ↔ taking.room - 1 ≤ count := by omega
  rw [hle]

/-- A run is a beginning of the tokens, and it ends where taking can end first. -/
theorem run_spec (setting : Setting β) (command : SymbolId) (taking : Taking)
    (tokens : List String) :
    setting.run command taking tokens = tokens.take (setting.run command taking tokens).length ∧
      IsLeast {count | setting.Halts command taking tokens count}
        (setting.run command taking tokens).length := by
  induction tokens generalizing taking with
  | nil => exact ⟨rfl, .inl rfl, fun _ _ => Nat.zero_le _⟩
  | cons token tokens ih =>
    rw [run]
    split
    · rename_i htakes
      obtain ⟨htake, hhalts, hleast⟩ := ih { taking with room := taking.room - 1 }
      refine ⟨?_, ?_, ?_⟩
      · rw [List.length_cons, List.take_succ_cons, ← htake]
      · exact (halts_succ_iff _).mpr hhalts
      · rintro (_ | count) hcount
        · exact absurd htakes (halts_zero_iff.mp hcount)
        · exact Nat.succ_le_succ (hleast ((halts_succ_iff _).mp hcount))
    · rename_i hstops
      exact ⟨rfl, halts_zero_iff.mpr hstops, fun _ _ => Nat.zero_le _⟩

/-- The values in an option's own token are at least one. -/
theorem inlineValues_ne_nil (setting : Setting β) (option : SymbolId) (value : String) :
    setting.inlineValues option value ≠ [] := by
  rw [inlineValues]
  split
  · simp
  · simp

/-- What an occurrence gives to its option: the values in its own token or, if there are none, the
run of the tokens behind it. -/
def taken (setting : Setting β) (texts : List String) (reading : Reading) : List String :=
  match reading.meaning with
  | .option option [] =>
      setting.run reading.command (setting.taking option) (texts.drop (reading.position + 1))
  | .option _ inline => inline
  | _ => []

/-- An occurrence with a value behind a delimiter gives the values in its own token. -/
theorem taken_inline (setting : Setting β) (texts : List String) (text : String) (position : ℕ)
    (command option : SymbolId) (value : String) :
    setting.taken texts ⟨text, position, command, .option option (setting.inlineValues option value)⟩
      = setting.inlineValues option value := by
  cases hvalues : setting.inlineValues option value with
  | nil => exact absurd hvalues (setting.inlineValues_ne_nil option value)
  | cons first rest => rfl

end Setting

/-! ## What is still owed -/

namespace Cursor

/-- What the tokens that follow still give to an option that takes values. -/
def owed (setting : Setting β) (cursor : Cursor) (option : SymbolId) (tokens : List String) :
    List String :=
  match cursor.taking with
  | some taking => if taking.option = option then setting.run cursor.command taking tokens else []
  | none => []

variable {cursor next : Cursor} {token : String} {meaning : Meaning} {option : SymbolId}
  {tokens : List String}

/-- After `--` no option takes values. -/
theorem Step.idle (h : Step setting cursor token meaning next) :
    next.literal = true → next.taking = none := by
  cases h with
  | optionValue hliteral => simp [record, hliteral]
  | option hliteral => simp [record, hliteral]
  | _ => simp

/-- A token that no option takes is owed to none, and neither is what follows it. -/
theorem owed_eq_nil (h : ∀ taking, cursor.taking = some taking →
      ¬ (setting.sight cursor.command token = .plain ∧ taking.accepts token = true)) :
    cursor.owed setting option (token :: tokens) = [] := by
  rw [owed]
  cases htaking : cursor.taking with
  | none => rfl
  | some taking => simp only [Setting.run, if_neg (h taking htaking), ite_self]

/-- Nothing is owed where a token is recognized. -/
theorem owed_eq_nil_of_sight {sighting : Sighting}
    (hsight : setting.sight cursor.command token = sighting) (hne : sighting ≠ .plain) :
    cursor.owed setting option (token :: tokens) = [] := by
  refine owed_eq_nil fun taking _ htakes => hne ?_
  rw [← hsight, htakes.1]

/-- Nothing is owed where a token goes past the options. -/
theorem owed_eq_nil_of_idle (hidle : cursor.literal = true → cursor.taking = none)
    (htaking : cursor.literal = true ∨ cursor.taking.filter (·.accepts token) = none) :
    cursor.owed setting option (token :: tokens) = [] := by
  refine owed_eq_nil fun taking hsome htakes => ?_
  rcases htaking with hliteral | hfilter
  · simp [hidle hliteral] at hsome
  · simp [hsome, htakes.2] at hfilter

/-- What a reading gives to an option and what is owed after it make up what was owed before, and
what the reading gives as an occurrence. -/
theorem Step.owed_eq (h : Step setting cursor token meaning next)
    (hdelimiters : ∀ d ∈ setting.config.inlineDelimiters, d.utf8Size = 1)
    (hidle : cursor.literal = true → cursor.taking = none) (option : SymbolId)
    {before : List String} (hbefore : before.length = cursor.readings.length)
    (tokens : List String) :
    let reading : Reading := ⟨token, cursor.readings.length, cursor.command, meaning⟩
    (reading.optionValues option).map (·.text) ++ next.owed setting option tokens =
      cursor.owed setting option (token :: tokens) ++
        if reading.option? = some option then
          setting.taken (before ++ token :: tokens) reading else [] := by
  cases h with
  | doubleDash hliteral hsight =>
    rw [owed_eq_nil_of_sight hsight nofun]
    rfl
  | command hliteral hsight =>
    rw [owed_eq_nil_of_sight hsight nofun]
    rfl
  | @option id hliteral hsight =>
    have hdrop : (before ++ token :: tokens).drop (cursor.readings.length + 1) = tokens := by
      rw [← hbefore, List.drop_append]
      simp
    rw [owed_eq_nil_of_sight hsight nofun]
    change (if id = option then [] else []).map _ ++
        (if id = option then setting.run cursor.command (setting.taking id) tokens else []) =
      if some id = some option then setting.run cursor.command (setting.taking id)
        ((before ++ token :: tokens).drop (cursor.readings.length + 1)) else []
    rw [hdrop]
    by_cases hid : id = option <;> simp [hid]
  | @inline id value hliteral hsight =>
    rw [owed_eq_nil_of_sight hsight nofun]
    simp only [Reading.option?, Setting.taken_inline, List.nil_append, Option.some.injEq]
    by_cases hid : id = option
    · simp [Reading.optionValues, owed, hid, Function.comp_def]
    · simp [Reading.optionValues, owed, hid]
  | @optionValue taking hliteral hpasses htaking haccepts =>
    have hsight : setting.sight cursor.command token = .plain := by
      rcases hpasses with hfalse | hsight | htorn
      · simp [hliteral] at hfalse
      · exact hsight
      · exact absurd htorn (Setting.sight_ne_torn hdelimiters _ _)
    have howed : cursor.owed setting option (token :: tokens) =
        if taking.option = option then
          token :: setting.run cursor.command { taking with room := taking.room - 1 } tokens
        else [] := by
      simp only [owed, htaking, Setting.run, hsight, haccepts, and_self, if_true]
    rw [howed]
    by_cases hid : taking.option = option
    · simp [Reading.optionValues, Reading.option?, owed, hid, record]
    · simp [Reading.optionValues, Reading.option?, owed, hid]
  | positional hpasses htaking hslots =>
    rw [owed_eq_nil_of_idle hidle htaking]
    rfl
  | unmatched hpasses htaking hslots =>
    rw [owed_eq_nil_of_idle hidle htaking]
    rfl

/-- The values that further tokens give to an option are what is owed to it, and what its further
occurrences give to it. -/
theorem optionValues_foldl_step
    (hdelimiters : ∀ d ∈ setting.config.inlineDelimiters, d.utf8Size = 1)
    (hidle : cursor.literal = true → cursor.taking = none) (option : SymbolId)
    {before : List String} (hbefore : before.length = cursor.readings.length)
    (tokens : List String) :
    ∃ tail, (tokens.foldl (Cursor.step setting) cursor).readings = cursor.readings ++ tail ∧
      (tail.flatMap (Reading.optionValues option)).map (·.text) =
        cursor.owed setting option tokens ++
          (tail.filter (·.option? = some option)).flatMap (setting.taken (before ++ tokens)) := by
  induction tokens generalizing cursor before with
  | nil =>
    refine ⟨[], (List.append_nil _).symm, ?_⟩
    rw [owed]
    cases cursor.taking <;> simp [Setting.run]
  | cons token tokens ih =>
    obtain ⟨meaning, hstep⟩ := step_cases setting cursor token
    have hlength : (before ++ [token]).length = (cursor.step setting token).readings.length := by
      rw [length_readings_step, List.length_append, hbefore, List.length_singleton]
    obtain ⟨tail, htail, hvalues⟩ := ih hstep.idle hlength
    rw [List.append_assoc, List.singleton_append] at hvalues
    have howed := hstep.owed_eq hdelimiters hidle option hbefore tokens
    generalize hreading :
      (⟨token, cursor.readings.length, cursor.command, meaning⟩ : Reading) = reading at howed
    refine ⟨reading :: tail, ?_, ?_⟩
    · rw [List.foldl_cons, htail, hstep.readings, List.append_assoc, hreading]
      rfl
    · rw [List.flatMap_cons, List.map_append, hvalues, ← List.append_assoc, howed,
        List.append_assoc]
      by_cases hoption : reading.option? = some option
      · simp [hoption]
      · simp [hoption]

end Cursor

end CommandLine
