import CommandLine.Proofs.Ledger.Entry
import CommandLine.Proofs.Report.Symbols

/-!
# The ledger of a command line

At every point between two rounds of the loop, the ledger is what the report of the tokens read so
far says, and nothing is missing from it. This is shown here for
each kind of entry. What is written to, and what is looked up, is there because the report is
genuine and its tree well-formed.
-/

namespace CommandLine

variable {β : Type}

/-- A setting with the scopes of a well-formed tree and delimiters of one byte. -/
structure Setting.Proper (setting : Setting β) : Prop where
  wellFormed : setting.tree.WellFormed
  scope : setting.scope = setting.tree.scope
  delimiters : ∀ d ∈ setting.config.inlineDelimiters, d.utf8Size = 1

/-- The report of the tokens that a cursor has read. -/
def Cursor.report (setting : Setting β) (start : SymbolId) (cursor : Cursor) : Report β :=
  ⟨setting, start, cursor.readings⟩

/-- The reading that a cursor makes of a token. -/
def Cursor.reading (cursor : Cursor) (text : String) (meaning : Meaning) : Reading :=
  ⟨text, cursor.readings.length, cursor.command, meaning⟩

/-- The report of the tokens that a consistent cursor has read is genuine. -/
theorem Cursor.Consistent.genuine {setting : Setting β} {start : SymbolId} {cursor : Cursor}
    (hcursor : cursor.Consistent setting start) (h : setting.Proper) :
    (cursor.report setting start).Genuine := ⟨h.wellFormed, h.scope, hcursor.trace⟩

namespace Ledger

/-- The ledger of the tokens that a cursor has read. -/
def of (setting : Setting β) (start : SymbolId) (cursor : Cursor) : Ledger where
  command := cursor.command
  scope := setting.scope cursor.command
  full := (setting.tree.arguments cursor.command).length - cursor.slots.length
  literal := cursor.literal
  commands := (cursor.report setting start).path
  options := (cursor.report setting start).options
  places := (cursor.report setting start).optionIds.zipIdx
  tokens := (cursor.report setting start).tokens
  unmatched := (cursor.report setting start).unmatched
  errors := (cursor.report setting start).unrecognizedErrors

variable {setting : Setting β} {start : SymbolId} {cursor : Cursor} {text : String}

/-! ## Looking at a token -/

/-- A token looks the same in the ledger, and nothing is missed. -/
theorem sight_of (h : setting.Proper) :
    (of setting start cursor).sight setting text = .ok (setting.sight cursor.command text) := by
  rw [sight, Setting.sight]
  by_cases hdash : text = "--"
  · rw [if_pos hdash, if_pos hdash]
    rfl
  · rw [if_neg hdash, if_neg hdash, show (of setting start cursor).command = cursor.command from rfl,
      h.wellFormed.fetchSubcommand_eq_ok, Inline.fetchParts_eq_ok h.delimiters,
      show (of setting start cursor).scope = setting.scope cursor.command from rfl]
    have htorn := Inline.split_ne_torn h.delimiters text
    cases setting.tree.subcommand? cursor.command text with
    | some subcommand => rfl
    | none =>
      cases (setting.scope cursor.command).resolve text with
      | some option => rfl
      | none =>
        cases hsplit : Inline.split setting.config.inlineDelimiters text with
        | whole => rfl
        | torn => exact absurd hsplit htorn
        | parts name value =>
          simp only [Sequence.ok_bind]
          cases (setting.scope cursor.command).resolve name <;> rfl

/-! ## Entries -/

variable {next : Cursor} {meaning : Meaning}

/-- The entry of a reading that matches something. -/
theorem of_entry (hreadings : next.readings = cursor.readings ++ [cursor.reading text meaning])
    (hmeaning : meaning ≠ .unmatched) :
    of setting start next =
      { (of setting start cursor).record (cursor.reading text meaning).token with
        command := next.command
        scope := setting.scope next.command
        full := (setting.tree.arguments next.command).length - next.slots.length
        literal := next.literal
        commands := ((cursor.report setting start).extend [cursor.reading text meaning]).path
        options := ((cursor.report setting start).extend [cursor.reading text meaning]).options
        places := ((cursor.report setting start).extend
          [cursor.reading text meaning]).optionIds.zipIdx } := by
  have hreport : next.report setting start =
      (cursor.report setting start).extend [cursor.reading text meaning] := by
    rw [Cursor.report, hreadings]
    rfl
  obtain ⟨hunmatched, herrors⟩ := (cursor.report setting start).unmatched_entry_of_ne
    (show (cursor.reading text meaning).meaning ≠ .unmatched from hmeaning)
  rw [of, hreport, Report.tokens_entry, hunmatched, herrors]
  rfl

/-- The entry of `--`. -/
theorem of_doubleDash :
    of setting start { cursor.record text .doubleDash with taking := none, literal := true } =
      { (of setting start cursor).record ⟨text, .doubleDash, cursor.readings.length⟩ with
        literal := true } := by
  have hentry := @of_entry β setting start cursor text
    { cursor.record text .doubleDash with taking := none, literal := true } .doubleDash rfl nofun
  rw [hentry, Report.path_entry_of_inert rfl (by rintro _ ⟨⟩) rfl,
    Report.options_entry_of_other rfl fun _ => rfl, Report.optionIds_entry_of_mem (by rintro _ ⟨⟩)]
  rfl

/-- A subcommand of the current command has a greater number than all commands of the path. -/
theorem notMem_path (h : setting.Proper) (hcursor : cursor.Consistent setting start) {id : SymbolId}
    (hsub : id ∈ setting.tree.commands cursor.command) :
    id ∉ Reading.path start cursor.readings := by
  intro hmem
  have hpairwise := hcursor.trace.pairwise_path h.wellFormed
  have hlast := Reading.getLast?_path start cursor.readings
  have hlt := h.wellFormed.lt_of_mem_commands hsub
  rw [← hcursor.command] at hlast
  obtain ⟨before, hpath⟩ := List.getLast?_eq_some_iff.mp hlast
  rw [hpath] at hpairwise hmem
  rcases List.mem_append.mp hmem with hbefore | hsingle
  · have := (List.pairwise_append.mp hpairwise).2.2 id hbefore _ List.mem_cons_self
    exact Nat.lt_asymm hlt this
  · exact Nat.ne_of_gt hlt (List.mem_singleton.mp hsingle)

/-- The entry of a subcommand. -/
theorem descend_of (h : setting.Proper) (hcursor : cursor.Consistent setting start) {id : SymbolId}
    (hsub : id ∈ setting.tree.commands cursor.command) :
    (of setting start cursor).descend setting id text cursor.readings.length =
      .ok (of setting start { cursor.record text (.command id) with
        command := id, slots := setting.slots id, taking := none }) := by
  have hgenuine := hcursor.genuine h
  have hslots : (setting.slots id).length = (setting.tree.arguments id).length :=
    List.length_map _
  have hentry := @of_entry β setting start cursor text { cursor.record text (.command id) with
    command := id, slots := setting.slots id, taking := none } (.command id) rfl nofun
  rw [hentry, hgenuine.path_entry_of_descent rfl (notMem_path h hcursor hsub),
    Report.options_entry_of_other rfl fun _ => rfl, Report.optionIds_entry_of_mem (by rintro _ ⟨⟩),
    hslots, Nat.sub_self, descend,
    CommandTree.demand_eq_ok (h.wellFormed.isSome_of_mem_commands hsub),
    h.wellFormed.fetchScope_eq_ok, h.scope]
  rfl

/-! ## Options -/

variable {option : SymbolId} {inline : List String}

/-- A change at a place of the options that is there. -/
theorem onOption_eq_ok {ledger : Ledger} {place : ℕ} (hplace : place < ledger.options.length)
    (change : OptionMatch → OptionMatch) :
    ledger.onOption place change =
      .ok { ledger with options := ledger.options.modify place change } := by
  rw [onOption, if_pos hplace]
  rfl

/-- Several values for the option at a place that is there. -/
theorem foldlM_onOption {ledger : Ledger} {place : ℕ} (hplace : place < ledger.options.length)
    (parts : List String) (position : ℕ) :
    parts.foldlM (fun ledger part => ledger.onOption place (·.given ⟨part, position⟩)) ledger =
      .ok { ledger with options := ledger.options.modify place fun found =>
        (parts.map (⟨·, position⟩)).foldl OptionMatch.given found } := by
  induction parts generalizing ledger with
  | nil =>
    have hself : ledger.options.modify place (fun found => found) = ledger.options :=
      List.modify_id place ledger.options
    rw [List.map_nil]
    simp only [List.foldl_nil, hself]
    rfl
  | cons part parts ih =>
    have hlength : place < (ledger.options.modify place (·.given ⟨part, position⟩)).length := by
      rwa [List.length_modify]
    rw [List.foldlM_cons, onOption_eq_ok hplace]
    refine (ih hlength).trans ?_
    rw [List.modify_modify_eq]
    rfl

/-- An option that has a place keeps it. -/
theorem enlist_of_some {ledger : Ledger} {place : ℕ}
    (h : ledger.places.lookup option = some place) (argument : SymbolId) :
    ledger.enlist option argument = (ledger, place) := by
  rw [enlist, h]

/-- An option that has no place gets one at the end. -/
theorem enlist_of_none {ledger : Ledger} (h : ledger.places.lookup option = none)
    (argument : SymbolId) :
    ledger.enlist option argument =
      ({ ledger with
        options := ledger.options ++ [⟨option, ledger.command, [], ⟨argument, []⟩⟩]
        places := ledger.places ++ [(option, ledger.options.length)]
        commands := ledger.commands.modifyLast fun found =>
          { found with options := found.options ++ [option] } }, ledger.options.length) := by
  rw [enlist, h]
  rfl

/-- A reading that names an option is about this option only. -/
theorem absorbs_only (cursor : Cursor) (text : String) (option : SymbolId) (inline : List String) :
    ∀ other, other ≠ option →
      (cursor.reading text (.option option inline)).option? ≠ some other ∧
        (cursor.reading text (.option option inline)).optionValues other = [] := by
  intro other hne
  exact ⟨fun heq => hne (Option.some.inj heq).symm, if_neg (Ne.symm hne)⟩

/-- A ledger with a place for an option, and a target that it becomes when its options absorb a
reading. -/
structure Enlisted (option : SymbolId) (reading : Reading) (target : Ledger) (ledger : Ledger)
    (place : ℕ) : Prop where
  found : ∃ found, ledger.options[place]? = some found ∧ found.option = option
  keys : (ledger.options.map (·.option)).Nodup
  target : target = { ledger with options := ledger.options.map (OptionMatch.absorb reading) }

/-- A reading that names an option is absorbed at the place of this option. -/
theorem Enlisted.eq_modify {target ledger : Ledger} {place : ℕ}
    (h : Enlisted option (cursor.reading text (.option option inline)) target ledger place) :
    target = { ledger with
      options := ledger.options.modify place
        (OptionMatch.absorb (cursor.reading text (.option option inline))) } := by
  obtain ⟨found, hfound, hoption⟩ := h.found
  subst hoption
  rw [h.target, Report.map_absorb h.keys hfound (absorbs_only cursor text found.option inline)]

/-- An option that was matched before is found where it was entered. -/
theorem enlisted_of_mem
    (hreadings : next.readings = cursor.readings ++ [cursor.reading text (.option option inline)])
    (hcommand : next.command = cursor.command) (hslots : next.slots = cursor.slots)
    (hliteral : next.literal = cursor.literal)
    (hmem : option ∈ (cursor.report setting start).optionIds) (argument : SymbolId) :
    ∃ entered place, ((of setting start cursor).record
          ⟨text, .option, cursor.readings.length⟩).enlist option argument = (entered, place) ∧
      Enlisted option (cursor.reading text (.option option inline)) (of setting start next)
        entered place := by
  have hentry := @of_entry β setting start cursor text next (.option option inline) hreadings nofun
  have hkeys := (cursor.report setting start).nodup_optionIds
  rw [← Report.map_option_options] at hkeys
  obtain ⟨place, hlookup, hplace⟩ := Sequence.exists_lookup_zipIdx hmem 0
  rw [Nat.zero_add] at hlookup
  have hfound : (cursor.report setting start).options[place]? =
      some ((cursor.report setting start).optionMatch option) := by
    rw [Report.options, List.getElem?_map, hplace]
    rfl
  have hall : ∀ other, (cursor.reading text (.option option inline)).option? = some other →
      other ∈ (cursor.report setting start).optionIds := by
    rintro other ⟨⟩
    exact hmem
  refine ⟨_, place, enlist_of_some hlookup _, ⟨_, hfound, rfl⟩, hkeys, ?_⟩
  rw [hentry, hcommand, hslots, hliteral, Report.path_entry_of_inert rfl hall rfl,
    Report.options_entry_of_mem hall, Report.optionIds_entry_of_mem hall]
  rfl

/-- An option that is matched for the first time is put behind all others, and noted under the
current command. -/
theorem enlisted_of_notMem (h : setting.Proper) (hcursor : cursor.Consistent setting start)
    (hreadings : next.readings = cursor.readings ++ [cursor.reading text (.option option inline)])
    (hcommand : next.command = cursor.command) (hslots : next.slots = cursor.slots)
    (hliteral : next.literal = cursor.literal)
    (hnew : option ∉ (cursor.report setting start).optionIds) :
    ∃ entered place, ((of setting start cursor).record
          ⟨text, .option, cursor.readings.length⟩).enlist option
            ((cursor.report setting start).slotId option) = (entered, place) ∧
      Enlisted option (cursor.reading text (.option option inline)) (of setting start next)
        entered place := by
  have hgenuine := hcursor.genuine h
  have hentry := @of_entry β setting start cursor text next (.option option inline) hreadings nofun
  have hoption : (cursor.reading text (.option option inline)).option? = some option := rfl
  have hlookup := Sequence.lookup_zipIdx_of_notMem hnew 0
  have hids := Report.optionIds_entry_of_notMem hoption hnew
  have hlength : (cursor.report setting start).optionIds.length =
      (cursor.report setting start).options.length := (List.length_map _).symm
  refine ⟨_, _, enlist_of_none hlookup _, ⟨_, List.getElem?_concat_length, rfl⟩, ?_, ?_⟩
  · have hnodup := ((cursor.report setting start).extend
      [cursor.reading text (.option option inline)]).nodup_optionIds
    rw [hids, ← Report.map_option_options] at hnodup
    rw [List.map_append]
    exact hnodup
  · rw [hentry, hcommand, hslots, hliteral, hgenuine.path_entry_of_option hcursor.command rfl hnew,
      hgenuine.options_entry_of_notMem hoption hnew, hids, List.zipIdx_append, hlength,
      Nat.zero_add]
    rfl

/-- Whether it was matched before or not, an option has a place, where the next reading is
absorbed. -/
theorem exists_enlisted (h : setting.Proper) (hcursor : cursor.Consistent setting start)
    {node : OptionNode β} (hnode : setting.tree.option? option = some node)
    (hreadings : next.readings = cursor.readings ++ [cursor.reading text (.option option inline)])
    (hcommand : next.command = cursor.command) (hslots : next.slots = cursor.slots)
    (hliteral : next.literal = cursor.literal) :
    ∃ entered place, ((of setting start cursor).record
          ⟨text, .option, cursor.readings.length⟩).enlist option node.argument = (entered, place) ∧
      Enlisted option (cursor.reading text (.option option inline)) (of setting start next)
        entered place := by
  by_cases hmem : option ∈ (cursor.report setting start).optionIds
  · exact enlisted_of_mem hreadings hcommand hslots hliteral hmem node.argument
  · have hslot : (cursor.report setting start).slotId option = node.argument :=
      Report.slotId_of_option? hnode
    rw [← hslot]
    exact enlisted_of_notMem h hcursor hreadings hcommand hslots hliteral hmem

/-- Values are given to an option one after the other. -/
theorem foldl_given (values : List Bound) (found : OptionMatch) :
    values.foldl OptionMatch.given found =
      { found with binding := { found.binding with values := found.binding.values ++ values } } := by
  induction values generalizing found with
  | nil => simp
  | cons value values ih =>
    rw [List.foldl_cons, ih, OptionMatch.given, List.append_assoc, List.singleton_append]

/-- What a reading that names an option gives to it: the token, then the values in the token. -/
theorem absorb_option {found : OptionMatch} (hfound : found.option = option) :
    found.absorb (cursor.reading text (.option option inline)) =
      (inline.map (⟨·, cursor.readings.length⟩)).foldl OptionMatch.given
        (found.named ⟨text, .option, cursor.readings.length⟩) := by
  subst hfound
  rw [foldl_given]
  simp [OptionMatch.absorb, OptionMatch.named, Cursor.reading, Reading.option?,
    Reading.optionValues, Reading.token, Reading.kind]

/-- What a reading that is a value of an option gives to it. -/
theorem absorb_optionValue {found : OptionMatch} (hfound : found.option = option) :
    found.absorb (cursor.reading text (.optionValue option)) =
      found.given ⟨text, cursor.readings.length⟩ := by
  subst hfound
  simp [OptionMatch.absorb, OptionMatch.given, Cursor.reading, Reading.option?,
    Reading.optionValues]

/-- An occurrence of an option with values in its own token. -/
theorem matchOption_some (h : setting.Proper) (hcursor : cursor.Consistent setting start)
    (hnode : (setting.tree.option? option).isSome) (hslot : (setting.tree.slot? option).isSome)
    (value : String) (rest : List String) :
    (of setting start cursor).matchOption setting option (some value) text cursor.readings.length
        rest =
      .ok (of setting start { cursor.record text (.option option (setting.inlineValues option value))
        with taking := none }, 0) := by
  have hdemand := CommandTree.demand_eq_ok (CommandTree.isSome_symbol?_of_option? hnode)
  obtain ⟨node, hnode⟩ := Option.isSome_iff_exists.mp hnode
  obtain ⟨argument, hslot⟩ := Option.isSome_iff_exists.mp hslot
  obtain ⟨entered, place, henlist, henlisted⟩ :=
    @exists_enlisted β setting start cursor text { cursor.record text
      (.option option (setting.inlineValues option value)) with taking := none } option
      (setting.inlineValues option value) h hcursor node hnode rfl rfl rfl rfl
  obtain ⟨found, hfound, hoption⟩ := henlisted.found
  obtain ⟨hplace, -⟩ := List.getElem?_eq_some_iff.mp hfound
  rw [henlisted.eq_modify, matchOption, hnode, hslot, hdemand]
  have hchange : entered.options.modify place
      (OptionMatch.absorb (cursor.reading text (.option option (setting.inlineValues option value)))) =
      (entered.options.modify place (·.named ⟨text, .option, cursor.readings.length⟩)).modify place
        fun found => ((setting.inlineValues option value).map
          (⟨·, cursor.readings.length⟩)).foldl OptionMatch.given found := by
    rw [List.modify_modify_eq]
    apply Sequence.modify_congr
    intro other hother
    obtain rfl := Option.some.inj (hfound.symm.trans hother)
    exact absorb_option hoption
  simp only [henlist, Sequence.ok_bind, onOption_eq_ok hplace]
  rw [foldlM_onOption (by rwa [List.length_modify]), hchange]
  rfl

/-- An occurrence of an option that may take values from the tokens after it. -/
theorem matchOption_none (h : setting.Proper) (hcursor : cursor.Consistent setting start)
    (hnode : (setting.tree.option? option).isSome) (hslot : (setting.tree.slot? option).isSome)
    (rest : List String) (htaken : next = { cursor.record text (.option option []) with
      taking := some (setting.taking option) }) :
    ∃ place, (of setting start cursor).matchOption setting option none text cursor.readings.length
        rest =
      (of setting start next).take setting place (setting.taking option).room
        (setting.taking option).boolOnly (cursor.readings.length + 1) rest ∧
      ∃ found, (of setting start next).options[place]? = some found ∧ found.option = option := by
  have hdemand := CommandTree.demand_eq_ok (CommandTree.isSome_symbol?_of_option? hnode)
  obtain ⟨node, hnode⟩ := Option.isSome_iff_exists.mp hnode
  obtain ⟨argument, hslot⟩ := Option.isSome_iff_exists.mp hslot
  obtain ⟨entered, place, henlist, henlisted⟩ :=
    @exists_enlisted β setting start cursor text next option [] h hcursor node hnode
      (by rw [htaken]; rfl) (by rw [htaken]; rfl) (by rw [htaken]; rfl) (by rw [htaken]; rfl)
  obtain ⟨found, hfound, hoption⟩ := henlisted.found
  have hof := henlisted.eq_modify
  obtain ⟨hplace, -⟩ := List.getElem?_eq_some_iff.mp hfound
  have hchange : entered.options.modify place
      (OptionMatch.absorb (cursor.reading text (.option option []))) =
      entered.options.modify place (·.named ⟨text, .option, cursor.readings.length⟩) := by
    apply Sequence.modify_congr
    intro other hother
    obtain rfl := Option.some.inj (hfound.symm.trans hother)
    exact absorb_option hoption
  rw [hchange] at hof
  refine ⟨place, ?_, (found.named ⟨text, .option, cursor.readings.length⟩), ?_, hoption⟩
  · rw [hof, matchOption, hnode, hslot, hdemand]
    simp only [henlist, Sequence.ok_bind, onOption_eq_ok hplace]
  · rw [hof, List.getElem?_modify_eq, hfound]
    rfl

/-! ## Values behind an option -/

/-- The entry of a value of an option. -/
theorem of_optionValue {place : ℕ} {found : OptionMatch}
    (hfound : (of setting start cursor).options[place]? = some found) (left : Option Taking) :
    of setting start { cursor.record text (.optionValue found.option) with taking := left } =
      { (of setting start cursor).record ⟨text, .argument, cursor.readings.length⟩ with
        options := (of setting start cursor).options.modify place
          (·.given ⟨text, cursor.readings.length⟩) } := by
  have hkeys := (cursor.report setting start).nodup_optionIds
  rw [← Report.map_option_options] at hkeys
  have hentry := @of_entry β setting start cursor text { cursor.record text
    (.optionValue found.option) with taking := left } (.optionValue found.option) rfl nofun
  have honly : ∀ other, other ≠ found.option →
      (cursor.reading text (.optionValue found.option)).option? ≠ some other ∧
        (cursor.reading text (.optionValue found.option)).optionValues other = [] :=
    fun other hne => ⟨nofun, if_neg (Ne.symm hne)⟩
  have hchange : ((cursor.report setting start).options.modify place
      (OptionMatch.absorb (cursor.reading text (.optionValue found.option)))) =
      (cursor.report setting start).options.modify place
        (·.given ⟨text, cursor.readings.length⟩) := by
    apply Sequence.modify_congr
    intro other hother
    obtain rfl := Option.some.inj (hfound.symm.trans hother)
    exact absorb_optionValue rfl
  rw [hentry, Report.path_entry_of_inert rfl (by rintro _ ⟨⟩) rfl,
    Report.options_entry_of_mem (by rintro _ ⟨⟩), Report.optionIds_entry_of_mem (by rintro _ ⟨⟩),
    Report.map_absorb hkeys hfound honly, hchange]
  rfl

/-- A value of an option is entered at its place. -/
theorem onOption_of {place : ℕ} {found : OptionMatch}
    (hfound : (of setting start cursor).options[place]? = some found) (left : Option Taking) :
    ((of setting start cursor).record ⟨text, .argument, cursor.readings.length⟩).onOption place
        (·.given ⟨text, cursor.readings.length⟩) =
      .ok (of setting start { cursor.record text (.optionValue found.option) with
        taking := left }) := by
  obtain ⟨hplace, -⟩ := List.getElem?_eq_some_iff.mp hfound
  rw [of_optionValue hfound left]
  exact onOption_eq_ok (show place < ((of setting start cursor).record
    ⟨text, .argument, cursor.readings.length⟩).options.length from hplace) _

/-! ## Positional arguments -/

variable {argument : SymbolId}

/-- The entry of a token that matches nothing. -/
theorem of_unmatched (hslots : cursor.slots = []) :
    of setting start { cursor.record text .unmatched with slots := [], taking := none } =
      { (of setting start cursor).record ⟨text, .unparsed, cursor.readings.length⟩ with
        unmatched := (of setting start cursor).unmatched ++
          [⟨text, .unparsed, cursor.readings.length⟩]
        errors := (of setting start cursor).errors ++
          ((cursor.report setting start).unrecognized? (cursor.reading text .unmatched)).toList } := by
  obtain ⟨hunmatched, herrors⟩ := (cursor.report setting start).unmatched_entry
    (show (cursor.reading text .unmatched).meaning = .unmatched from rfl)
  have hfull : (of setting start cursor).full =
      (setting.tree.arguments cursor.command).length - 0 := by
    rw [of, hslots]
    rfl
  have hpath : ((cursor.report setting start).extend [cursor.reading text .unmatched]).path =
      (cursor.report setting start).path :=
    Report.path_entry_of_inert rfl (by rintro _ ⟨⟩) rfl
  have hoptions : ((cursor.report setting start).extend [cursor.reading text .unmatched]).options =
      (cursor.report setting start).options :=
    Report.options_entry_of_other rfl fun _ => rfl
  have hids : ((cursor.report setting start).extend [cursor.reading text .unmatched]).optionIds =
      (cursor.report setting start).optionIds :=
    Report.optionIds_entry_of_mem (by rintro _ ⟨⟩)
  exact Ledger.ext rfl rfl hfull.symm rfl hpath hoptions (congrArg List.zipIdx hids)
    ((cursor.report setting start).tokens_entry (cursor.reading text .unmatched)) hunmatched herrors

/-- A token that matches nothing is written down without mishap. -/
theorem reject_of (h : setting.Proper) (hslots : cursor.slots = []) :
    (of setting start cursor).reject setting text cursor.readings.length =
      .ok (of setting start { cursor.record text .unmatched with slots := [], taking := none }) := by
  have hcandidates :=
    h.wellFormed.fetchCandidates_eq_ok (setting.scope cursor.command) cursor.command
  have herror : (cursor.report setting start).unrecognized? (cursor.reading text .unmatched) =
      if (setting.tree.command? cursor.command).any (·.strict) then
        some ⟨.unrecognized text (if setting.config.suggestions then
          Suggestion.nearest text
            (setting.tree.candidates (setting.scope cursor.command) cursor.command)
          else none), some cursor.readings.length, none⟩
      else none := rfl
  rw [of_unmatched hslots, herror]
  simp only [reject, record, of, hcandidates]
  by_cases hstrict : (setting.tree.command? cursor.command).any (·.strict) = true
  · rw [if_pos hstrict, if_pos hstrict]
    cases setting.config.suggestions <;> rfl
  · rw [if_neg hstrict, if_neg hstrict, Option.toList_none, List.append_nil]
    rfl

/-- The last command of the ledger is the current one. -/
theorem getLast?_commands_of (hcursor : cursor.Consistent setting start) :
    ∃ found, (of setting start cursor).commands.getLast? = some found ∧
      found.arguments = (cursor.report setting start).arguments cursor.command := by
  have hlast := Reading.getLast?_path start cursor.readings
  have hpath := (cursor.report setting start).map_command_path
  rw [← hcursor.command] at hlast
  change _ = Reading.path start cursor.readings at hpath
  rw [← hpath, List.getLast?_map, Option.map_eq_some_iff] at hlast
  obtain ⟨found, hfound, hcommand⟩ := hlast
  refine ⟨found, hfound, ?_⟩
  rw [(cursor.report setting start).eq_commandMatch_of_mem_path (List.mem_of_getLast? hfound),
    hcommand]
  rfl

/-- The entry of a value of a positional argument. -/
theorem of_positional (h : setting.Proper) (hcursor : cursor.Consistent setting start)
    (hargument : argument ∈ setting.tree.arguments cursor.command) {slots : List (SymbolId × ℕ)}
    (hslots : slots.length = cursor.slots.length) :
    of setting start { cursor.record text (.positional argument) with
        slots := slots, taking := none } =
      ((of setting start cursor).record ⟨text, .argument, cursor.readings.length⟩).onCommand
        fun found => { found with
          arguments := Binding.enter argument ⟨text, cursor.readings.length⟩ found.arguments } := by
  have hgenuine := hcursor.genuine h
  have hentry := @of_entry β setting start cursor text { cursor.record text (.positional argument)
    with slots := slots, taking := none } (.positional argument) rfl nofun
  rw [hentry, hgenuine.path_entry_of_positional hcursor.command rfl hargument,
    Report.options_entry_of_other rfl fun _ => rfl, Report.optionIds_entry_of_mem (by rintro _ ⟨⟩),
    hslots]
  rfl

end Ledger

end CommandLine
