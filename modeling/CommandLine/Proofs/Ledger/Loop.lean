import CommandLine.Proofs.Ledger.Faithful

/-!
# Keeping a ledger to the end

The loop takes the values of an option at once, while a cursor keeps the option that may still take
values. Behind such an option the loop goes on at a token which the option does not take. The loop
counts the values of a positional argument, while a cursor counts down its room.

Each round of the loop therefore leads from the ledger of one cursor to that of a later one, and by
induction over the tokens the ledger of a command line is that of the cursor behind it.
-/

namespace CommandLine

variable {β : Type}

/-- The next token is none that an option takes which may still take values. -/
def Cursor.Idle (setting : Setting β) (cursor : Cursor) (tokens : List String) : Prop :=
  ∀ text, tokens.head? = some text → cursor.literal = true ∨
    setting.sight cursor.command text ≠ .plain ∨ cursor.taking.filter (·.accepts text) = none

/-- The number of values that a positional argument of the current command has. -/
def Cursor.bound (setting : Setting β) (start : SymbolId) (cursor : Cursor)
    (argument : SymbolId) : ℕ :=
  (((cursor.report setting start).arguments cursor.command).find? (·.argument = argument)).elim 0
    (·.values.length)

/-- The slots of a cursor are the last arguments of its command, with the room that is left. -/
structure Cursor.Roomy (setting : Setting β) (start : SymbolId) (cursor : Cursor) : Prop where
  suffix : cursor.slots.map (·.1) <:+ setting.tree.arguments cursor.command
  room : ∀ slot ∈ cursor.slots, slot.2 =
    ((setting.tree.arity? slot.1).map (·.most)).getD 0 - cursor.bound setting start slot.1

/-- Where no option may take values, every token is one that no option takes. -/
theorem Cursor.idle_of_taking {setting : Setting β} {cursor : Cursor} {tokens : List String}
    (h : cursor.taking = none) : cursor.Idle setting tokens := by
  intro text _
  rw [h]
  exact .inr (.inr rfl)

/-- Behind a token that is placed no option takes values. -/
theorem Cursor.taking_place (cursor : Cursor) (text : String) : (cursor.place text).taking = none := by
  rw [place]
  cases cursor.slots.dropWhile (·.2 == 0) <;> rfl

/-- A full argument is passed over. -/
theorem Cursor.place_of_full {cursor : Cursor} {text : String} {argument : SymbolId}
    {slots : List (SymbolId × ℕ)} (hslots : cursor.slots = (argument, 0) :: slots) :
    cursor.place text = ({ cursor with slots := slots } : Cursor).place text := by
  rw [place, place, hslots, List.dropWhile_cons_of_pos rfl]
  cases slots.dropWhile (·.2 == 0) <;> rfl

/-- A cursor without its first slot is as consistent. -/
theorem Cursor.Consistent.tail {setting : Setting β} {start : SymbolId} {cursor : Cursor}
    {slot : SymbolId × ℕ} {slots : List (SymbolId × ℕ)} (h : cursor.Consistent setting start)
    (hslots : cursor.slots = slot :: slots) :
    ({ cursor with slots := slots } : Cursor).Consistent setting start where
  trace := h.trace
  command := h.command
  slots other hmem := h.slots other (hslots ▸ List.mem_cons_of_mem _ hmem)
  taking := h.taking

/-- Without its first slot, the slots of a cursor are still the last arguments. -/
theorem Cursor.Roomy.tail {setting : Setting β} {start : SymbolId} {cursor : Cursor}
    {slot : SymbolId × ℕ} {slots : List (SymbolId × ℕ)} (h : cursor.Roomy setting start)
    (hslots : cursor.slots = slot :: slots) :
    ({ cursor with slots := slots } : Cursor).Roomy setting start where
  suffix := by
    have hsuffix := h.suffix
    rw [hslots, List.map_cons] at hsuffix
    exact (List.suffix_cons _ _).trans hsuffix
  room other hmem := h.room other (hslots ▸ List.mem_cons_of_mem _ hmem)

namespace Ledger

variable {setting : Setting β} {start : SymbolId} {cursor next : Cursor} {text : String}
  {meaning : Meaning} {argument : SymbolId}

/-! ## Values behind an option -/

/-- A token that is recognized, or that the option does not accept, ends the taking of values. -/
theorem take_of_stop (h : setting.Proper) {taking : Taking}
    (hstop : setting.sight cursor.command text ≠ .plain ∨ taking.accepts text = false)
    (place position : ℕ) (rest : List String) :
    (of setting start cursor).take setting place taking.room taking.boolOnly position
        (text :: rest) =
      .ok (of setting start cursor, 0) := by
  rw [take, sight_of h, Sequence.ok_bind]
  by_cases hroom : taking.room = 0
  · rw [if_pos hroom]
    rfl
  rw [if_neg hroom]
  by_cases hsight : setting.sight cursor.command text = .plain
  · have hbool : taking.boolOnly = true ∧ (readBool text).isNone = true := by
      by_contra hno
      have haccepts := hstop.resolve_left (not_not.mpr hsight)
      exact Bool.eq_false_iff.mp haccepts (Taking.accepts_iff.mpr ⟨hroom, hno⟩)
    rw [if_neg (not_not.mpr hsight), if_pos hbool]
    rfl
  · rw [if_pos hsight]
    rfl

/-- A value that the option accepts is entered at its place, and taking goes on behind it. -/
theorem take_of_value (h : setting.Proper) {taking : Taking} {place : ℕ} {found : OptionMatch}
    (hliteral : cursor.literal = false) (hsight : setting.sight cursor.command text = .plain)
    (htaking : cursor.taking = some taking) (haccepts : taking.accepts text = true)
    (hfound : (of setting start cursor).options[place]? = some found)
    (hoption : found.option = taking.option) (rest : List String) :
    (of setting start cursor).take setting place taking.room taking.boolOnly
        cursor.readings.length (text :: rest) =
      (do
        let (ledger, taken) ← (of setting start (cursor.step setting text)).take setting place
          (taking.room - 1) taking.boolOnly (cursor.readings.length + 1) rest
        return (ledger, taken + 1)) ∧
      (of setting start (cursor.step setting text)).options[place]? =
        some (found.given ⟨text, cursor.readings.length⟩) := by
  obtain ⟨hroom, hbool⟩ := Taking.accepts_iff.mp haccepts
  have hput := @onOption_of β setting start cursor text place found hfound
    (some { taking with room := taking.room - 1 })
  have hnext := @of_optionValue β setting start cursor text place found hfound
    (some { taking with room := taking.room - 1 })
  rw [hoption, ← Cursor.step_optionValue hliteral hsight htaking haccepts] at hput hnext
  refine ⟨?_, ?_⟩
  · rw [take, sight_of h, Sequence.ok_bind, if_neg hroom, if_neg (not_not.mpr hsight),
      if_neg hbool, hput]
    rfl
  · rw [hnext, List.getElem?_modify_eq, hfound]
    rfl

/-- Behind an option the loop takes the values that the option takes, and goes on at a token that it
does not take. -/
theorem take_of (h : setting.Proper) {taking : Taking} {place : ℕ}
    (hcursor : cursor.Consistent setting start) (hliteral : cursor.literal = false)
    (htaking : cursor.taking = some taking)
    (hplace : ∃ found, (of setting start cursor).options[place]? = some found ∧
      found.option = taking.option) (tokens : List String) :
    ∃ taken left, tokens = taken ++ left ∧
      (of setting start cursor).take setting place taking.room taking.boolOnly
          cursor.readings.length tokens =
        .ok (of setting start (taken.foldl (Cursor.step setting) cursor), taken.length) ∧
      (taken.foldl (Cursor.step setting) cursor).Idle setting left := by
  induction tokens generalizing cursor taking with
  | nil => exact ⟨[], [], rfl, rfl, nofun⟩
  | cons text rest ih =>
    by_cases htakes : setting.sight cursor.command text = .plain ∧ taking.accepts text = true
    · obtain ⟨hsight, haccepts⟩ := htakes
      obtain ⟨found, hfound, hoption⟩ := hplace
      obtain ⟨hvalue, hentered⟩ :=
        take_of_value h hliteral hsight htaking haccepts hfound hoption rest
      have hstep := Cursor.step_optionValue hliteral hsight htaking haccepts
      have hnext : (cursor.step setting text).Consistent setting start := hcursor.foldl_step [text]
      obtain ⟨taken, left, rfl, htaken, hidle⟩ := @ih (cursor.step setting text)
        { taking with room := taking.room - 1 } hnext (by rw [hstep]; exact hliteral)
        (by rw [hstep]) ⟨_, hentered, hoption⟩
      rw [Cursor.length_readings_step] at htaken
      refine ⟨text :: taken, left, rfl, ?_, hidle⟩
      rw [hvalue, htaken]
      rfl
    · rw [not_and_or, Bool.not_eq_true] at htakes
      refine ⟨[], _, rfl, take_of_stop h htakes _ _ _, ?_⟩
      rintro _ ⟨⟩
      rcases htakes with hsight | haccepts
      · exact .inr (.inl hsight)
      · refine .inr (.inr ?_)
        rw [List.foldl_nil, htaking, Option.filter_some, haccepts]
        rfl

/-! ## Positional arguments -/

/-- A token goes to the first positional argument with room in the ledger as well. -/
theorem bind_of (h : setting.Proper) (hcursor : cursor.Consistent setting start)
    (hroomy : cursor.Roomy setting start) :
    (of setting start cursor).bind setting text cursor.readings.length
        (cursor.slots.map (·.1)) =
      .ok (of setting start (cursor.place text)) := by
  induction hslots : cursor.slots generalizing cursor with
  | nil =>
    rw [List.map_nil, bind, reject_of h hslots, Cursor.place, hslots]
    rfl
  | cons slot slots ih =>
    obtain ⟨argument, room⟩ := slot
    obtain ⟨found, hfound, harguments⟩ := getLast?_commands_of hcursor
    have hroom : room = ((setting.tree.arity? argument).map (·.most)).getD 0 -
        cursor.bound setting start argument :=
      hroomy.room (argument, room) (by rw [hslots]; exact List.mem_cons_self)
    have hsuffix := hroomy.suffix
    have hlength := hsuffix.length_le
    rw [hslots, List.map_cons] at hsuffix
    rw [List.length_map, hslots, List.length_cons] at hlength
    rw [List.map_cons, bind, hfound]
    simp only [harguments]
    change (if cursor.bound setting start argument < _ then _ else _) = _
    by_cases hzero : room = 0
    · subst hzero
      have hfull : (of setting start cursor).full + 1 =
          (of setting start { cursor with slots := slots }).full := by
        simp only [of, hslots, List.length_cons]
        omega
      rw [if_neg (by omega), hfull, Cursor.place_of_full hslots]
      exact ih (hcursor.tail hslots) (hroomy.tail hslots) rfl
    · have hargument : argument ∈ setting.tree.arguments cursor.command :=
        hsuffix.subset List.mem_cons_self
      rw [if_pos (by omega), Cursor.place, hslots, List.dropWhile_cons_of_neg (by simp [hzero])]
      have hentry := @of_positional β setting start cursor text argument h hcursor hargument
        ((argument, room - 1) :: slots) (by rw [hslots]; rfl)
      exact congrArg Except.ok hentry.symm

/-! ## Room -/

/-- The arity of a positional argument is that of the argument. -/
theorem arity?_of_mem_arguments (h : setting.Proper) {command : SymbolId}
    (hargument : argument ∈ setting.tree.arguments command) :
    setting.tree.arity? argument = (setting.tree.argument? argument).map (·.arity) := by
  obtain ⟨node, hnode⟩ := Option.isSome_iff_exists.mp (h.wellFormed.of_mem_arguments hargument).1
  rw [CommandTree.arity?, CommandTree.role?_of_argument? hnode, hnode]
  rfl

/-- The slots of a command have all their room where nothing is bound to its arguments. -/
theorem roomy_slots (h : setting.Proper) (hslots : cursor.slots = setting.slots cursor.command)
    (hnone : (cursor.report setting start).arguments cursor.command = []) :
    cursor.Roomy setting start := by
  refine ⟨?_, ?_⟩
  · have hids : (setting.slots cursor.command).map (·.1) = setting.tree.arguments cursor.command := by
      rw [Setting.slots, List.map_map]
      exact List.map_id' _
    rw [hslots, hids]
  · intro slot hslot
    rw [hslots] at hslot
    obtain ⟨argument, hargument, rfl⟩ := List.mem_map.mp hslot
    rw [Cursor.bound, hnone, arity?_of_mem_arguments h hargument, Option.map_map]
    rfl

/-- A token that is no value of a positional argument leaves their room as it is. -/
theorem roomy_of_other (hroomy : cursor.Roomy setting start)
    (hreadings : next.readings = cursor.readings ++ [cursor.reading text meaning])
    (hpositional : (cursor.reading text meaning).positional? = none)
    (hcommand : next.command = cursor.command) (hslots : next.slots = cursor.slots) :
    next.Roomy setting start := by
  have harguments : (next.report setting start).arguments next.command =
      (cursor.report setting start).arguments cursor.command := by
    have hreport : next.report setting start =
        (cursor.report setting start).extend [cursor.reading text meaning] := by
      rw [Cursor.report, hreadings]
      rfl
    rw [hcommand, hreport, Report.arguments_entry_of_other hpositional]
  refine ⟨?_, ?_⟩
  · rw [hslots, hcommand]
    exact hroomy.suffix
  · intro slot hslot
    rw [hslots] at hslot
    rw [Cursor.bound, harguments]
    exact hroomy.room slot hslot

/-- A value of a positional argument takes some of the room of this argument only. -/
theorem roomy_of_positional (h : setting.Proper) (hcursor : cursor.Consistent setting start)
    (hroomy : cursor.Roomy setting start) {room : ℕ} {slots : List (SymbolId × ℕ)}
    (hdrop : cursor.slots.dropWhile (·.2 == 0) = (argument, room) :: slots) :
    ({ cursor.record text (.positional argument) with
      slots := (argument, room - 1) :: slots, taking := none } : Cursor).Roomy setting start := by
  have hgenuine := hcursor.genuine h
  have hslots : (argument, room) :: slots <:+ cursor.slots :=
    hdrop ▸ List.dropWhile_suffix _
  have hsuffix := (hslots.map (·.1)).trans hroomy.suffix
  have hroom : room = ((setting.tree.arity? argument).map (·.most)).getD 0 -
      cursor.bound setting start argument :=
    hroomy.room (argument, room) (hslots.subset List.mem_cons_self)
  have harguments : (({ cursor.record text (.positional argument) with
        slots := (argument, room - 1) :: slots, taking := none } : Cursor).report setting
          start).arguments cursor.command =
      Binding.enter argument ⟨text, cursor.readings.length⟩
        ((cursor.report setting start).arguments cursor.command) :=
    hgenuine.arguments_entry_self (hsuffix.subset List.mem_cons_self) rfl
  have hnodup : (argument :: slots.map (·.1)).Nodup :=
    (h.wellFormed.nodup_arguments cursor.command).sublist hsuffix.sublist
  refine ⟨hsuffix, ?_⟩
  intro slot hslot
  rcases List.mem_cons.mp hslot with rfl | hrest
  · have hbound := Report.length_find?_enter argument ⟨text, cursor.readings.length⟩
      ((cursor.report setting start).arguments cursor.command)
    rw [← harguments] at hbound
    calc
      room - 1 = ((setting.tree.arity? argument).map (·.most)).getD 0 -
          (cursor.bound setting start argument + 1) := by rw [hroom, Nat.sub_sub]
      _ = _ := congrArg (((setting.tree.arity? argument).map (·.most)).getD 0 - ·) hbound.symm
  · have hne : slot.1 ≠ argument := by
      intro heq
      exact (List.nodup_cons.mp hnodup).1 (heq ▸ List.mem_map_of_mem hrest)
    have hbound := Report.find?_enter_of_ne hne ⟨text, cursor.readings.length⟩
      ((cursor.report setting start).arguments cursor.command)
    rw [← harguments] at hbound
    rw [hroomy.room slot (hslots.subset (List.mem_cons_of_mem _ hrest)), Cursor.bound,
      Cursor.bound, ← hbound]
    rfl

/-- A step leaves the slots with the room that is left. -/
theorem roomy_step (h : setting.Proper) (hcursor : cursor.Consistent setting start)
    (hroomy : cursor.Roomy setting start) (hstep : Cursor.Step setting cursor text meaning next) :
    next.Roomy setting start := by
  cases hstep with
  | doubleDash => exact roomy_of_other hroomy rfl rfl rfl rfl
  | option => exact roomy_of_other hroomy rfl rfl rfl rfl
  | inline => exact roomy_of_other hroomy rfl rfl rfl rfl
  | optionValue => exact roomy_of_other hroomy rfl rfl rfl rfl
  | unmatched => exact ⟨List.nil_suffix, nofun⟩
  | @command id hliteral hsight =>
    -- No reading before was made under the subcommand.
    have hnew := notMem_path h hcursor (Setting.mem_commands_of_sight hsight)
    refine roomy_slots h rfl ?_
    change ((cursor.report setting start).extend [cursor.reading text (.command id)]).arguments id
      = []
    rw [Report.arguments_entry_of_other rfl]
    exact (hcursor.genuine h).arguments_eq_nil hnew
  | positional _ _ hdrop => exact roomy_of_positional h hcursor hroomy hdrop

/-- A run leaves the slots with the room that is left. -/
theorem roomy_foldl_step (h : setting.Proper) (hcursor : cursor.Consistent setting start)
    (hroomy : cursor.Roomy setting start) (tokens : List String) :
    (tokens.foldl (Cursor.step setting) cursor).Roomy setting start := by
  induction tokens generalizing cursor with
  | nil => exact hroomy
  | cons token tokens ih =>
    obtain ⟨_, hstep⟩ := Cursor.step_cases setting cursor token
    exact ih (hstep.consistent hcursor) (roomy_step h hcursor hroomy hstep)

/-! ## The loop -/

/-- A token that is not recognized is placed as by the cursor. -/
theorem place_of (h : setting.Proper) (hcursor : cursor.Consistent setting start)
    (hroomy : cursor.Roomy setting start) :
    (of setting start cursor).place setting text cursor.readings.length =
      .ok (of setting start (cursor.place text)) := by
  have hdrop : (setting.tree.arguments cursor.command).drop (of setting start cursor).full =
      cursor.slots.map (·.1) := by
    obtain ⟨before, hbefore⟩ := hroomy.suffix
    have hfull : (of setting start cursor).full = before.length := by
      rw [of, ← hbefore, List.length_append, List.length_map, Nat.add_sub_cancel]
    rw [hfull, ← hbefore, List.drop_left]
  rw [place, show (of setting start cursor).command = cursor.command from rfl, hdrop]
  exact bind_of h hcursor hroomy

/-- A round of the loop leads to the ledger of the cursor behind a token and some of those behind
it, and ends in front of a token that no option takes. -/
def Advances (setting : Setting β) (start : SymbolId) (cursor : Cursor) (text : String)
    (rest : List String) (round : Except Mishap (Ledger × ℕ)) : Prop :=
  ∃ taken left, rest = taken ++ left ∧
    round = .ok (of setting start ((text :: taken).foldl (Cursor.step setting) cursor),
      taken.length) ∧
    ((text :: taken).foldl (Cursor.step setting) cursor).Idle setting left

/-- A round of the loop that reads one token, behind which no option takes values. -/
theorem advances_of_step {round : Except Mishap (Ledger × ℕ)} (rest : List String)
    (hstep : cursor.step setting text = next) (htaking : next.taking = none)
    (hround : round = .ok (of setting start next, 0)) :
    Advances setting start cursor text rest round := by
  subst hstep
  exact ⟨[], rest, rfl, hround, Cursor.idle_of_taking htaking⟩

/-- A round of the loop that reads an option, with the tokens behind it that the option takes. -/
theorem advances_of_option (h : setting.Proper) (hcursor : cursor.Consistent setting start)
    (hliteral : cursor.literal = false) (rest : List String) {option : SymbolId}
    {inline : Option String} (hsight : setting.sight cursor.command text = .option option inline) :
    Advances setting start cursor text rest ((of setting start cursor).matchOption setting option
      inline text cursor.readings.length rest) := by
  obtain ⟨name, hresolve⟩ := Setting.exists_resolve_of_sight hsight
  have hoption : (setting.tree.option? option).isSome :=
    h.wellFormed.isSome_of_resolve (h.scope ▸ hresolve)
  have hslot := (hcursor.genuine h).isSome_slot? hoption
  cases inline with
  | some value =>
    have hstep : cursor.step setting text = { cursor.record text
        (.option option (setting.inlineValues option value)) with taking := none } := by
      rw [Cursor.step, hliteral, hsight]
      rfl
    exact advances_of_step rest hstep rfl (matchOption_some h hcursor hoption hslot value rest)
  | none =>
    have hstep : cursor.step setting text = { cursor.record text (.option option []) with
        taking := some (setting.taking option) } := by
      rw [Cursor.step, hliteral, hsight]
      rfl
    have hnext : (cursor.step setting text).Consistent setting start := hcursor.foldl_step [text]
    obtain ⟨place, hmatch, hfound⟩ := matchOption_none h hcursor hoption hslot rest hstep
    obtain ⟨taken, left, hrest, htake, hidle⟩ :=
      take_of h hnext (by rw [hstep]; exact hliteral) (by rw [hstep]) hfound rest
    rw [Cursor.length_readings_step] at htake
    exact ⟨taken, left, hrest, hmatch.trans htake, hidle⟩

/-- One round of the loop reads a token, with those behind it that an option takes. -/
theorem advances_advance (h : setting.Proper) (hcursor : cursor.Consistent setting start)
    (hroomy : cursor.Roomy setting start) (rest : List String)
    (hidle : cursor.Idle setting (text :: rest)) :
    Advances setting start cursor text rest
      ((of setting start cursor).advance setting text cursor.readings.length rest) := by
  have hplace : (do return (← (of setting start cursor).place setting text cursor.readings.length, 0))
      = Except.ok (of setting start (cursor.place text), 0) := by
    rw [place_of h hcursor hroomy]
    rfl
  have htaking := cursor.taking_place text
  rw [advance, show (of setting start cursor).literal = cursor.literal from rfl]
  by_cases hliteral : cursor.literal = true
  · rw [if_pos hliteral]
    exact advances_of_step rest (by rw [Cursor.step, if_pos hliteral]) htaking hplace
  have hfalse : cursor.literal = false := Bool.eq_false_iff.mpr hliteral
  rw [if_neg hliteral, sight_of h, Sequence.ok_bind]
  cases hsight : setting.sight cursor.command text with
  | doubleDash =>
    have hstep : cursor.step setting text =
        { cursor.record text .doubleDash with taking := none, literal := true } := by
      rw [Cursor.step, if_neg hliteral, hsight]
    refine advances_of_step rest hstep rfl ?_
    exact congrArg (fun ledger => Except.ok (ledger, 0)) of_doubleDash.symm
  | command id =>
    have hstep : cursor.step setting text = { cursor.record text (.command id) with
        command := id, slots := setting.slots id, taking := none } := by
      rw [Cursor.step, if_neg hliteral, hsight]
    refine advances_of_step rest hstep rfl ?_
    simp only [descend_of h hcursor (Setting.mem_commands_of_sight hsight)]
    rfl
  | option option inline => exact advances_of_option h hcursor hfalse rest hsight
  | plain =>
    have hfilter : cursor.taking.filter (·.accepts text) = none := by
      rcases hidle text rfl with htrue | hother | hnone
      · exact absurd htrue hliteral
      · exact absurd hsight hother
      · exact hnone
    have hstep : cursor.step setting text = cursor.place text := by
      rw [Cursor.step, if_neg hliteral, hsight]
      simp only [Cursor.stepPlain, hfilter]
    exact advances_of_step rest hstep htaking hplace
  | torn => exact absurd hsight (Setting.sight_ne_torn h.delimiters cursor.command text)

/-- Several tokens add as many readings. -/
theorem length_readings_foldl_step (setting : Setting β) (cursor : Cursor) (tokens : List String) :
    (tokens.foldl (Cursor.step setting) cursor).readings.length =
      cursor.readings.length + tokens.length := by
  have htexts := congrArg List.length (Cursor.texts_foldl_step setting cursor tokens)
  rwa [List.length_map, List.length_append, List.length_map] at htexts

/-- The loop ends with the ledger of the cursor behind the last token. -/
theorem walk_of (h : setting.Proper) (hcursor : cursor.Consistent setting start)
    (hroomy : cursor.Roomy setting start) (tokens : List String)
    (hidle : cursor.Idle setting tokens) :
    walk setting cursor.readings.length tokens (of setting start cursor) =
      .ok (of setting start (tokens.foldl (Cursor.step setting) cursor)) := by
  -- A round leaves fewer tokens, however many it takes.
  induction hlength : tokens.length using Nat.strong_induction_on generalizing cursor tokens with
  | h length ih =>
    cases tokens with
    | nil =>
      rw [walk]
      rfl
    | cons text rest =>
      obtain ⟨taken, left, rfl, hadvance, hidle⟩ := advances_advance h hcursor hroomy rest hidle
      have hshorter : left.length < length := by
        rw [← hlength, List.length_cons, List.length_append]
        omega
      have hwalk := ih left.length hshorter (hcursor.foldl_step (text :: taken))
        (roomy_foldl_step h hcursor hroomy (text :: taken)) left hidle rfl
      rw [length_readings_foldl_step, List.length_cons, ← List.foldl_append] at hwalk
      rw [walk, hadvance, Sequence.ok_bind]
      simp only [List.drop_left]
      rw [Nat.add_assoc, Nat.add_comm 1]
      exact hwalk

/-- The loop starts with the ledger of the cursor in front of the first token. -/
theorem start_eq_ok (h : setting.Proper) (start : SymbolId) :
    Ledger.start setting.tree start = .ok (of setting start (Cursor.start setting start)) := by
  have hslots : (setting.slots start).length = (setting.tree.arguments start).length :=
    List.length_map _
  rw [Ledger.start, h.wellFormed.fetchScope_eq_ok, of, h.scope]
  simp only [Cursor.start, hslots, Nat.sub_self]
  rfl

/-- The loop reads any tokens without mishap, and ends with the ledger of their report. -/
theorem walk_start (h : setting.Proper) (start : SymbolId) (tokens : List String) :
    walk setting 0 tokens (of setting start (Cursor.start setting start)) =
      .ok (of setting start (tokens.foldl (Cursor.step setting) (Cursor.start setting start))) :=
  walk_of h (Cursor.consistent_start setting start) (roomy_slots h rfl rfl) tokens
    (Cursor.idle_of_taking rfl)

end Ledger

end CommandLine
