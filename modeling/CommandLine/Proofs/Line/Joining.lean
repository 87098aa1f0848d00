import CommandLine.Demo.Program
import CommandLine.Proofs.Line.Grammar

/-!
# Joining raw lines

A line with a gap between two parts is split like each of its parts, if no quote is open where they
meet; and only then, since the gap is a letter of the last token of the first part otherwise. So a
line that is joined from others with spaces between them is split like these one after another,
exactly if each of them but the last one has an even number of double quotes, escaped ones apart.
-/

namespace CommandLine.Line

/-- A line has an even number of double quotes, those behind a backslash apart. -/
def Balanced (line : String) : Prop := Even ((items line.toList).count .toggle)

instance (line : String) : Decidable (Balanced line) := inferInstanceAs (Decidable (Even _))

variable {quoted : Bool} {token : Option (List Char)} {c : Char} {before after : List Item}

/-- No quote is open behind a balanced line. -/
theorem isQuoted_items_eq_false_iff {line : String} :
    isQuoted (items line.toList) = false ↔ Balanced line := by
  simp [isQuoted, Balanced]

/-- An item does not depend on what stands behind a character that is no double quote. -/
theorem items_append (hquote : c ≠ '"') (first rest : List Char) :
    items (first ++ c :: rest) = items first ++ items (c :: rest) := by
  fun_induction items first with
  | case1 => rfl
  | case2 first ih => rw [List.cons_append, List.cons_append, items, ih, List.cons_append]
  | case3 d first hescape ih =>
    have hhead : d = '\\' → (first ++ c :: rest).head? ≠ some '"' := by
      intro hbackslash
      have hfirst := head?_ne_of_rest hescape hbackslash
      cases first with
      | nil => simpa using hquote
      | cons next first => exact hfirst
    rw [List.cons_append, items_cons hhead, ih, List.cons_append]

/-- A token that is being read is the beginning of the next one. -/
theorem exists_collect_eq_cons (quoted : Bool) (letters : List Char) (rest : List Item) :
    ∃ more tokens, collect quoted (some letters) rest =
      String.ofList (letters ++ more) :: tokens := by
  induction rest generalizing quoted letters with
  | nil => exact ⟨[], [], by simp [collect]⟩
  | cons item rest ih =>
    rw [collect]
    split
    · exact ⟨[], collect quoted none rest, by simp⟩
    · obtain ⟨more, tokens, hcollect⟩ :=
        ih (quoted ^^ decide (item = .toggle)) (letters ++ item.read?.toList)
      refine ⟨item.read?.toList ++ more, tokens, ?_⟩
      rw [Option.getD_some, hcollect, List.append_assoc]

/-- Items with a gap between them are read like those before it and then those behind it, exactly if
no quote is open at the gap. -/
theorem collect_append_gap_iff (hgap : isGap c = true) (htoken : quoted = true → token.isSome)
    {tokens : List String} :
    collect quoted token (before ++ .letter c :: after) = collect quoted token before ++ tokens ↔
      (quoted ^^ isQuoted before) = false ∧ collect false none after = tokens := by
  induction before generalizing quoted token with
  | nil =>
    cases quoted with
    | false => simp [collect, Item.isGap_letter, hgap, isQuoted]
    | true =>
      -- The gap is a letter of the token that is being read.
      obtain ⟨letters, rfl⟩ := Option.isSome_iff_exists.mp (htoken rfl)
      obtain ⟨more, rest, hcollect⟩ := exists_collect_eq_cons true (letters ++ [c]) after
      simp [collect, Item.isGap, Item.read?, hcollect, isQuoted]
  | cons item before ih =>
    rw [List.cons_append, collect, collect, ← List.singleton_append (l := before), isQuoted_append,
      isQuoted_singleton]
    by_cases hseparates : (item.isGap && !quoted) = true
    · have hquoted : quoted = false := by simpa using (Bool.and_eq_true_iff.mp hseparates).2
      rw [if_pos hseparates, if_pos hseparates, List.append_assoc, List.append_right_inj,
        ih (by simp [hquoted]), decide_eq_false (ne_toggle_of_gap hseparates), Bool.false_xor]
    · rw [if_neg hseparates, if_neg hseparates, ih fun _ => rfl, Bool.xor_assoc]

/-! ## Lines -/

/-- A line with a gap between two parts is split into the tokens of the first and then others
exactly if the first part is balanced and the others are the tokens of the second. -/
theorem split_eq_append_iff {line first second : String} (hgap : isGap c = true)
    (hline : line.toList = first.toList ++ c :: second.toList) {tokens : List String} :
    split line = split first ++ tokens ↔ Balanced first ∧ split second = tokens := by
  have hsplit : ∀ text : String, split text = collect false none (items text.toList) :=
    fun text => tokens_eq_collect false none text.toList
  obtain ⟨hquote, hbackslash⟩ := ne_of_isGap hgap
  have hitems : items line.toList =
      items first.toList ++ .letter c :: items second.toList := by
    rw [hline, items_append hquote, items_cons fun h => absurd h hbackslash, if_neg hquote]
  rw [hsplit, hsplit first, hsplit second, hitems, collect_append_gap_iff hgap (by simp),
    Bool.false_xor, isQuoted_items_eq_false_iff]

/-- Lines that are joined with spaces are split one after another exactly if all but the last one
are balanced. -/
theorem split_intercalate_iff (lines : List String) :
    split (" ".intercalate lines) = lines.flatMap split ↔
      ∀ line ∈ lines.dropLast, Balanced line := by
  induction lines with
  | nil => simp
  | cons first rest ih =>
    cases rest with
    | nil => simp
    | cons next rest =>
      have hjoined := toList_intercalate_cons_cons first next rest
      rw [List.flatMap_cons, split_eq_append_iff rfl hjoined, ih, List.dropLast_cons_cons,
        List.forall_mem_cons]

/-- Splitting distributes over joining: two lines with a space or a tab between them are split one
after the other exactly if the first is balanced, and any number of lines with spaces between them
exactly if all but the last are. So is the line that the demonstration program puts together. -/
theorem split_distributes (first second : String) (lines : List String) {β : Type}
    (report : Report β) (argument : SymbolId) :
    (split (first ++ " " ++ second) = split first ++ split second ↔ Balanced first) ∧
      (split (first ++ "\t" ++ second) = split first ++ split second ↔ Balanced first) ∧
      (split (" ".intercalate lines) = lines.flatMap split ↔
        ∀ line ∈ lines.dropLast, Balanced line) ∧
      (split (Demo.gatherLine report argument) =
          (Demo.gatherParts report argument).flatMap (fun part => split part.text) ↔
        ∀ part ∈ (Demo.gatherParts report argument).dropLast, Balanced part.text) := by
  have htwo : ∀ c gap, isGap c = true → gap = String.singleton c →
      (split (first ++ gap ++ second) = split first ++ split second ↔ Balanced first) := by
    rintro c _ hgap rfl
    have hjoined : (first ++ String.singleton c ++ second).toList =
        first.toList ++ c :: second.toList := by simp
    rw [split_eq_append_iff hgap hjoined, and_iff_left rfl]
  refine ⟨htwo ' ' _ rfl rfl, htwo '\t' _ rfl rfl, split_intercalate_iff lines, ?_⟩
  rw [Demo.gatherLine, ← List.flatMap_map, split_intercalate_iff, ← List.map_dropLast,
    List.forall_mem_map]

example : Balanced "c:\\" ∧ Balanced "\"a b\" \\\"" ∧ ¬ Balanced "a \"b" := by decide

end CommandLine.Line
