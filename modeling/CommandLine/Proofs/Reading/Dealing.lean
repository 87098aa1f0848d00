import CommandLine.Proofs.CommandTree.WellFormed
import CommandLine.Proofs.Reading.Sighting
import CommandLine.Proofs.Reading.Trace
import Mathlib.Algebra.GroupWithZero.Nat

/-!
# Dealing tokens to positional arguments

The tokens of a command that no option takes go to its positional arguments. `deal` says how, for
the whole list of them at once: the first argument gets as many as it may have, the next one gets
the next tokens, and what is left goes to none.

A cursor does this one token at a time, with other tokens in between. What it has still to deal is a
matter of the slots that are left, so the readings under a command are what `deal` makes of the
tokens placed there, whatever else is read.
-/

namespace CommandLine

variable {β : Type}

/-! ## Dealing a list of tokens -/

/-- Deals tokens to slots in order: each slot gets the next tokens up to its room, and what is left
goes to none. -/
def deal : List (SymbolId × ℕ) → List Bound → List (Option SymbolId × Bound)
  | [], tokens => tokens.map fun token => (none, token)
  | (argument, room) :: slots, tokens =>
      ((tokens.take room).map fun token => (some argument, token)) ++ deal slots (tokens.drop room)

/-- The tokens that went to one owner. -/
def dealtTo (owner : Option SymbolId) (dealt : List (Option SymbolId × Bound)) : List Bound :=
  dealt.filterMap fun entry => if entry.1 = owner then some entry.2 else none

section Deal

variable {slots : List (SymbolId × ℕ)} {tokens : List Bound} {argument : SymbolId} {room : ℕ}

/-- Without tokens nothing is dealt. -/
@[simp]
theorem deal_nil (slots : List (SymbolId × ℕ)) : deal slots [] = [] := by
  induction slots with
  | nil => rfl
  | cons slot slots ih => simp [deal, ih]

/-- Slots without room get nothing. -/
theorem deal_dropWhile (slots : List (SymbolId × ℕ)) (tokens : List Bound) :
    deal (slots.dropWhile (·.2 == 0)) tokens = deal slots tokens := by
  induction slots with
  | nil => rfl
  | cons slot slots ih =>
    obtain ⟨argument, room⟩ := slot
    by_cases hroom : room = 0
    · simp [hroom, deal, ih]
    · simp [hroom]

/-- A token goes to the first slot, if this one has room. -/
theorem deal_cons (hroom : room ≠ 0) (token : Bound) :
    deal ((argument, room) :: slots) (token :: tokens) =
      (some argument, token) :: deal ((argument, room - 1) :: slots) tokens := by
  obtain ⟨rest, rfl⟩ := Nat.exists_eq_succ_of_ne_zero hroom
  simp [deal]

/-- Tokens only go to slots, or to none. -/
theorem mem_slots_of_mem_deal {entry : Option SymbolId × Bound} (h : entry ∈ deal slots tokens)
    (howner : entry.1 = some argument) : argument ∈ slots.map (·.1) := by
  induction slots generalizing tokens with
  | nil =>
    obtain ⟨token, -, rfl⟩ := List.mem_map.mp h
    cases howner
  | cons slot slots ih =>
    rw [deal, List.mem_append] at h
    rcases h with hfirst | hrest
    · obtain ⟨token, -, rfl⟩ := List.mem_map.mp hfirst
      obtain rfl := Option.some.inj howner
      exact List.mem_cons_self
    · exact List.mem_cons_of_mem _ (ih hrest)

/-- A slot that none is named after gets no token. -/
theorem dealtTo_eq_nil (h : argument ∉ slots.map (·.1)) :
    dealtTo (some argument) (deal slots tokens) = [] := by
  rw [dealtTo, List.filterMap_eq_nil_iff]
  intro entry hmem
  exact if_neg fun howner => h (mem_slots_of_mem_deal hmem howner)

/-- What a list of tokens gives to an owner, part by part. -/
theorem dealtTo_append (owner : Option SymbolId) (first second : List (Option SymbolId × Bound)) :
    dealtTo owner (first ++ second) = dealtTo owner first ++ dealtTo owner second :=
  List.filterMap_append

/-- Tokens that all go to one owner. -/
theorem dealtTo_map (owner other : Option SymbolId) (tokens : List Bound) :
    dealtTo owner (tokens.map fun token => (other, token)) = if other = owner then tokens else [] := by
  rw [dealtTo, List.filterMap_map]
  by_cases h : other = owner
  · simp [h]
  · simp [h]

/-- Every token is dealt once, in order. -/
theorem map_snd_deal (slots : List (SymbolId × ℕ)) (tokens : List Bound) :
    (deal slots tokens).map (·.2) = tokens := by
  induction slots generalizing tokens with
  | nil => simp [deal, Function.comp_def]
  | cons slot slots ih => simp [deal, ih, Function.comp_def]

/-- A slot gets the tokens behind those of the slots before it, up to its room. -/
theorem dealtTo_deal {before after : List (SymbolId × ℕ)} (hbefore : argument ∉ before.map (·.1))
    (hafter : argument ∉ after.map (·.1)) :
    dealtTo (some argument) (deal (before ++ (argument, room) :: after) tokens) =
      (tokens.drop (before.map (·.2)).sum).take room := by
  induction before generalizing tokens with
  | nil => rw [List.nil_append, deal, dealtTo_append, dealtTo_map, dealtTo_eq_nil hafter]; simp
  | cons slot before ih =>
    rw [List.map_cons, List.mem_cons, not_or] at hbefore
    rw [List.cons_append, deal, dealtTo_append, dealtTo_map, if_neg (by simpa using Ne.symm hbefore.1),
      ih hbefore.2, List.nil_append, List.drop_drop, List.map_cons, List.sum_cons]

/-- What is left is behind the tokens of all slots. -/
theorem dealtTo_none_deal (slots : List (SymbolId × ℕ)) (tokens : List Bound) :
    dealtTo none (deal slots tokens) = tokens.drop (slots.map (·.2)).sum := by
  induction slots generalizing tokens with
  | nil => rw [deal, dealtTo_map]; simp
  | cons slot slots ih =>
    rw [deal, dealtTo_append, dealtTo_map, if_neg (by simp), ih, List.nil_append, List.drop_drop,
      List.map_cons, List.sum_cons]

end Deal

/-! ## Dealing token by token -/

/-- To whom a reading under a command deals its token, if it is one of a positional argument or is
unmatched. -/
def Reading.dealt? (command : SymbolId) (reading : Reading) : Option (Option SymbolId × Bound) :=
  if reading.command = command then
    match reading.meaning with
    | .positional argument => some (some argument, ⟨reading.text, reading.position⟩)
    | .unmatched => some (none, ⟨reading.text, reading.position⟩)
    | _ => none
  else none

namespace Cursor

/-- The tokens that are placed while a command is current, among those that are still to be read. -/
def placed (setting : Setting β) (command : SymbolId) (cursor : Cursor) : List String → List Bound
  | [] => []
  | token :: tokens =>
      (if cursor.command = command ∧ cursor.step setting token = cursor.place token then
        [⟨token, cursor.readings.length⟩] else []) ++
        (cursor.step setting token).placed setting command tokens

/-- What is placed of a command line is what is placed of its beginning and of its rest. -/
theorem placed_append (setting : Setting β) (command : SymbolId) (cursor : Cursor)
    (before after : List String) :
    cursor.placed setting command (before ++ after) =
      cursor.placed setting command before ++
        (before.foldl (Cursor.step setting) cursor).placed setting command after := by
  induction before generalizing cursor with
  | nil => rfl
  | cons token before ih =>
    rw [List.cons_append, placed, placed, ih, List.append_assoc]
    rfl

/-- The slots that a command has for tokens that are still to be read: those that are left if it is
current, all of them before it is named, and none once it was left. -/
def slotsFor (setting : Setting β) (command : SymbolId) (cursor : Cursor) : List (SymbolId × ℕ) :=
  if cursor.command = command then cursor.slots
  else if cursor.command < command then setting.slots command
  else []

variable {setting : Setting β} {cursor next : Cursor} {token : String} {meaning : Meaning}
  {command : SymbolId}

/-- A token is placed if it goes to a positional argument or is unmatched. -/
theorem Step.eq_place_iff (h : Step setting cursor token meaning next) :
    next = cursor.place token ↔ (∃ argument, meaning = .positional argument) ∨ meaning = .unmatched := by
  constructor
  · intro hnext
    have hreadings := h.readings
    rw [hnext, place] at hreadings
    cases hslots : cursor.slots.dropWhile (·.2 == 0) with
    | nil =>
      rw [hslots] at hreadings
      simp [record] at hreadings
      exact .inr hreadings.symm
    | cons slot slots =>
      rw [hslots] at hreadings
      simp [record] at hreadings
      exact .inl ⟨_, hreadings.symm⟩
  · intro hmeaning
    cases h with
    | positional hpasses htaking hslots => rw [place, hslots]
    | unmatched hpasses htaking hslots => rw [place, hslots]
    | _ => simp at hmeaning

/-- In a well-formed tree the numbers of the commands that become current do not fall. -/
theorem Step.command_le (h : Step setting cursor token meaning next)
    (htree : setting.tree.WellFormed) : cursor.command ≤ next.command := by
  cases h with
  | command hliteral hsight =>
    exact Nat.le_of_lt (htree.lt_of_mem_commands (Setting.mem_commands_of_sight hsight))
  | _ => exact Nat.le_refl _

/-- Once a command was left, no token is placed under it. -/
theorem placed_eq_nil (htree : setting.tree.WellFormed) (hleft : command < cursor.command)
    (tokens : List String) : cursor.placed setting command tokens = [] := by
  induction tokens generalizing cursor with
  | nil => rfl
  | cons token tokens ih =>
    obtain ⟨meaning, hstep⟩ := step_cases setting cursor token
    rw [placed, if_neg fun hcurrent => Nat.ne_of_gt hleft hcurrent.1,
      ih (Nat.lt_of_lt_of_le hleft (hstep.command_le htree)), List.append_nil]

/-- The slots for the current command are those that are left. -/
theorem slotsFor_of_eq (hcurrent : cursor.command = command) :
    cursor.slotsFor setting command = cursor.slots := if_pos hcurrent

/-- The slots for a command are the same where the current command is the same and has the same slots
if it is this one. -/
theorem slotsFor_congr (hcommand : next.command = cursor.command)
    (hslots : cursor.command = command → next.slots = cursor.slots) :
    next.slotsFor setting command = cursor.slotsFor setting command := by
  rw [slotsFor, slotsFor, hcommand]
  by_cases hcurrent : cursor.command = command
  · rw [if_pos hcurrent, if_pos hcurrent, hslots hcurrent]
  · rw [if_neg hcurrent, if_neg hcurrent]

/-- A command that is not yet current, or just becomes so, has all its slots. -/
theorem slotsFor_of_le (hle : cursor.command ≤ command)
    (hslots : cursor.command = command → cursor.slots = setting.slots command) :
    cursor.slotsFor setting command = setting.slots command := by
  by_cases hcurrent : cursor.command = command
  · rw [slotsFor_of_eq hcurrent, hslots hcurrent]
  · rw [slotsFor, if_neg hcurrent, if_pos (Nat.lt_of_le_of_ne hle hcurrent)]

/-- What a step deals, and what is dealt with the slots after it, is what is dealt with the slots
before it. -/
theorem Step.deal_eq (h : Step setting cursor token meaning next)
    (htree : setting.tree.WellFormed) (command : SymbolId) {later : List Bound}
    (hlater : command < next.command → later = []) :
    (Reading.dealt? command ⟨token, cursor.readings.length, cursor.command, meaning⟩).toList ++
        deal (next.slotsFor setting command) later =
      deal (cursor.slotsFor setting command)
        ((if cursor.command = command ∧ next = cursor.place token then
          [⟨token, cursor.readings.length⟩] else []) ++ later) := by
  have hplaced := h.eq_place_iff
  have hkeeps := @slotsFor_congr β setting cursor next command
  have hleaves := @slotsFor_of_eq β setting next command
  cases h with
  | @command id hliteral hsight =>
    have hlt : cursor.command < id :=
      htree.lt_of_mem_commands (Setting.mem_commands_of_sight hsight)
    have hdealt : Reading.dealt? command
        ⟨token, cursor.readings.length, cursor.command, .command id⟩ = none := ite_self none
    rw [if_neg fun hboth => by simpa using hplaced.mp hboth.2, hdealt, Option.toList_none,
      List.nil_append, List.nil_append]
    by_cases hleft : command < id
    · rw [hlater hleft, deal_nil, deal_nil]
    · have hle : id ≤ command := Nat.le_of_not_lt hleft
      have hbefore : cursor.command < command := Nat.lt_of_lt_of_le hlt hle
      rw [slotsFor_of_le hle fun hid => congrArg setting.slots hid,
        slotsFor_of_le (Nat.le_of_lt hbefore) fun hid => absurd hid (Nat.ne_of_lt hbefore)]
  | positional hpasses htaking hslots =>
    by_cases hcurrent : cursor.command = command
    · have hroom := List.head?_dropWhile_not (fun slot : SymbolId × ℕ => slot.2 == 0) cursor.slots
      rw [hslots] at hroom
      rw [if_pos ⟨hcurrent, hplaced.mpr (.inl ⟨_, rfl⟩)⟩, hleaves hcurrent, slotsFor_of_eq hcurrent,
        ← deal_dropWhile cursor.slots, hslots, List.singleton_append,
        deal_cons (by simpa using hroom), Reading.dealt?, if_pos hcurrent]
      rfl
    · rw [if_neg fun hboth => hcurrent hboth.1, hkeeps rfl fun hsame => absurd hsame hcurrent,
        Reading.dealt?, if_neg hcurrent]
      rfl
  | unmatched hpasses htaking hslots =>
    by_cases hcurrent : cursor.command = command
    · rw [if_pos ⟨hcurrent, hplaced.mpr (.inr rfl)⟩, hleaves hcurrent, slotsFor_of_eq hcurrent,
        ← deal_dropWhile cursor.slots, hslots, Reading.dealt?, if_pos hcurrent]
      rfl
    · rw [if_neg fun hboth => hcurrent hboth.1, hkeeps rfl fun hsame => absurd hsame hcurrent,
        Reading.dealt?, if_neg hcurrent]
      rfl
  | _ =>
    rw [if_neg fun hboth => by simpa using hplaced.mp hboth.2, hkeeps rfl fun _ => rfl,
      Reading.dealt?, ite_self]
    rfl

/-- Further tokens under a command are dealt to the slots that it has for them. -/
theorem dealt_foldl_step (htree : setting.tree.WellFormed) (command : SymbolId)
    (tokens : List String) :
    ∃ tail, (tokens.foldl (Cursor.step setting) cursor).readings = cursor.readings ++ tail ∧
      tail.filterMap (Reading.dealt? command) =
        deal (cursor.slotsFor setting command) (cursor.placed setting command tokens) := by
  induction tokens generalizing cursor with
  | nil => exact ⟨[], (List.append_nil _).symm, by simp [placed]⟩
  | cons token tokens ih =>
    obtain ⟨meaning, hstep⟩ := step_cases setting cursor token
    obtain ⟨tail, htail, hdealt⟩ := @ih (cursor.step setting token)
    have hdeal := hstep.deal_eq htree command fun hleft => placed_eq_nil htree hleft tokens
    refine ⟨⟨token, cursor.readings.length, cursor.command, meaning⟩ :: tail, ?_, ?_⟩
    · rw [List.foldl_cons, htail, hstep.readings, List.append_assoc]
      rfl
    · rw [List.filterMap_cons, placed, ← hdeal, ← hdealt]
      cases Reading.dealt? command ⟨token, cursor.readings.length, cursor.command, meaning⟩ <;> rfl

/-! ## Where every token is placed -/

/-- Where no option takes values, a token that is not recognized is placed. -/
theorem step_eq_place (htaking : cursor.taking = none)
    (hpasses : cursor.literal = true ∨ setting.sight cursor.command token = .plain) :
    cursor.step setting token = cursor.place token := by
  rw [step]
  rcases hpasses with hliteral | hsight
  · rw [if_pos hliteral]
  · rw [hsight]
    simp only [stepPlain, htaking, Option.filter_none, ite_self]

/-- Placing a token leaves the command as it is, and no option takes values then. -/
theorem of_place (cursor : Cursor) (token : String) :
    (cursor.place token).command = cursor.command ∧ (cursor.place token).taking = none ∧
      (cursor.place token).literal = cursor.literal := by
  rw [place]
  cases cursor.slots.dropWhile (·.2 == 0) <;> exact ⟨rfl, rfl, rfl⟩

/-- Where no option takes values, tokens that are not recognized are placed one after another. -/
theorem foldl_step_of_passes {tokens : List String} (htaking : cursor.taking = none)
    (hpasses : ∀ token ∈ tokens, cursor.literal = true ∨
      setting.sight cursor.command token = .plain) :
    (cursor.placed setting cursor.command tokens).map (·.text) = tokens ∧
      ∃ tail, (tokens.foldl (Cursor.step setting) cursor).readings = cursor.readings ++ tail ∧
        ∀ reading ∈ tail, reading.command = cursor.command ∧
          ((∃ argument, reading.meaning = .positional argument) ∨ reading.meaning = .unmatched) := by
  induction tokens generalizing cursor with
  | nil => exact ⟨rfl, [], by simp⟩
  | cons token tokens ih =>
    rw [List.forall_mem_cons] at hpasses
    obtain ⟨hpass, hrest⟩ := hpasses
    have hstep := step_eq_place htaking hpass
    obtain ⟨meaning, hmeaning⟩ := step_cases setting cursor token
    obtain ⟨hcommand, hidle, hliteral⟩ := of_place cursor token
    rw [← hstep] at hcommand hidle hliteral
    obtain ⟨hplaced, tail, htail, hall⟩ :=
      @ih (cursor.step setting token) hidle (by rwa [hliteral, hcommand])
    rw [hcommand] at hplaced hall
    refine ⟨?_, ⟨token, cursor.readings.length, cursor.command, meaning⟩ :: tail, ?_, ?_⟩
    · rw [placed, if_pos ⟨rfl, hstep⟩, List.map_append, hplaced]
      rfl
    · rw [List.foldl_cons, htail, hmeaning.readings, List.append_assoc]
      rfl
    · rw [List.forall_mem_cons]
      exact ⟨⟨rfl, hmeaning.eq_place_iff.mp hstep⟩, hall⟩

end Cursor

end CommandLine
