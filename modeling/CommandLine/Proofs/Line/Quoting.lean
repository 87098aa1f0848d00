import CommandLine.Line
import CommandLine.Report
import Mathlib.Data.List.DropRight

/-!
# Quoting texts on a line

Every text can be written on a line as one token: in double quotes, with a backslash in front of
each double quote of its own. A backslash stands for itself unless a double quote follows it, so
backslashes need no escape, except that those at the end of a text would escape the closing quote.
They are written behind it, where a gap or the end of the line follows.

Quoting each of a list of texts gives a line that splits into these texts again, whatever they
hold. So a command line given as a list of texts can always be given as a raw line.
-/

namespace CommandLine

namespace Line

/-- A character of a text as it is written in quotes. -/
def escape (c : Char) : List Char := if c = '"' then ['\\', '"'] else [c]

/-- A text as one token of a line. -/
def quote (text : String) : String :=
  let body := text.toList.rdropWhile (· == '\\')
  let backslashes := text.toList.rtakeWhile (· == '\\')
  String.ofList ('"' :: (body.flatMap escape ++ '"' :: backslashes))

variable {quoted : Bool} {token : Option (List Char)} {c : Char} {letters rest : List Char}

/-! ## Reading one character -/

/-- A double quote opens or closes a quoted stretch, and starts a token. -/
theorem tokens_toggle :
    tokens quoted token ('"' :: rest) = tokens (!quoted) (some (token.getD [])) rest := by
  simp [tokens]

/-- A backslash in front of a double quote makes it a letter. -/
theorem tokens_escaped :
    tokens quoted token ('\\' :: '"' :: rest) =
      tokens quoted (some ('"' :: token.getD [])) rest := by
  rw [tokens]

/-- Outside quotes a gap ends the token before it. -/
theorem tokens_gap (hgap : isGap c = true) :
    tokens false token (c :: rest) =
      (token.map fun letters => String.ofList letters.reverse).toList ++
        tokens false none rest := by
  obtain ⟨hquote, hbackslash⟩ := ne_of_isGap hgap
  simp [tokens, hquote, hbackslash, hgap]

/-- Any other character is a letter, and so is a backslash without a double quote behind it. -/
theorem tokens_letter (hquote : c ≠ '"') (hescape : c = '\\' → rest.head? ≠ some '"')
    (hgap : isGap c = true → quoted = true) :
    tokens quoted token (c :: rest) = tokens quoted (some (c :: token.getD [])) rest := by
  rw [tokens]
  · have hletter : ¬(isGap c && !quoted) = true := by
      cases quoted <;> simp_all
    rw [if_neg hquote, if_neg hletter]
  · rintro other hbackslash rfl
    exact hescape hbackslash rfl

/-! ## Reading a text in quotes -/

/-- What is written of a letter does not start with a double quote. -/
theorem head?_escape_append (c : Char) (rest : List Char) :
    (escape c ++ rest).head? ≠ some '"' := by
  rw [escape]
  by_cases hquote : c = '"' <;> simp [hquote]

/-- In quotes a text that does not end with a backslash is read up to the closing quote. -/
theorem tokens_flatMap_escape (hlast : letters.getLast? ≠ some '\\') :
    tokens true token (letters.flatMap escape ++ '"' :: rest) =
      tokens false (some (letters.reverse ++ token.getD [])) rest := by
  induction letters generalizing token with
  | nil => exact tokens_toggle
  | cons c letters ih =>
    rw [List.flatMap_cons, List.append_assoc, List.reverse_cons, List.append_assoc,
      List.singleton_append]
    have hrest : letters.getLast? ≠ some '\\' := by
      cases letters with
      | nil => simp
      | cons d letters => rwa [List.getLast?_cons_cons] at hlast
    -- A backslash is not the last letter, so what is written of another one follows it.
    have hescape : c = '\\' → (letters.flatMap escape ++ '"' :: rest).head? ≠ some '"' := by
      rintro rfl
      cases letters with
      | nil => simp at hlast
      | cons d letters =>
        rw [List.flatMap_cons, List.append_assoc]
        exact head?_escape_append d _
    by_cases hquote : c = '"'
    · subst hquote
      exact tokens_escaped.trans (ih hrest)
    · rw [escape, if_neg hquote, List.singleton_append,
        tokens_letter hquote hescape fun _ => rfl]
      exact ih hrest

/-- Backslashes without a double quote behind them are letters. -/
theorem tokens_backslashes {before : List Char} (hletters : ∀ letter ∈ letters, letter = '\\')
    (hrest : rest.head? ≠ some '"') :
    tokens quoted (some before) (letters ++ rest) =
      tokens quoted (some (letters.reverse ++ before)) rest := by
  induction letters generalizing before with
  | nil => rfl
  | cons c letters ih =>
    rw [List.forall_mem_cons] at hletters
    obtain ⟨rfl, hletters⟩ := hletters
    have hescape : (letters ++ rest).head? ≠ some '"' := by
      cases letters with
      | nil => exact hrest
      | cons d letters =>
        rw [hletters d List.mem_cons_self]
        simp
    have hgap : isGap '\\' = true → quoted = true := fun hgap => absurd hgap (by decide)
    rw [List.cons_append, tokens_letter (by decide) (fun _ => hescape) hgap, ih hletters]
    simp

/-- Between tokens, a quoted text starts a token with the letters of the text. -/
theorem tokens_toList_quote (text : String) (hrest : rest.head? ≠ some '"') :
    tokens false none ((quote text).toList ++ rest) =
      tokens false (some text.toList.reverse) rest := by
  have hbody : (text.toList.rdropWhile (· == '\\')).getLast? ≠ some '\\' := by
    by_cases hempty : text.toList.rdropWhile (· == '\\') = []
    · rw [hempty]
      simp
    · rw [List.getLast?_eq_some_getLast hempty]
      have hlast := List.rdropWhile_last_not _ _ hempty
      simpa using hlast
  have hbackslashes : ∀ letter ∈ text.toList.rtakeWhile (· == '\\'), letter = '\\' := by
    intro letter hmem
    rw [List.rtakeWhile, List.mem_reverse] at hmem
    simpa using List.mem_takeWhile_imp hmem
  have htext : (text.toList.rdropWhile (· == '\\')) ++ text.toList.rtakeWhile (· == '\\') =
      text.toList := List.rdropWhile_append_rtakeWhile
  rw [quote, String.toList_ofList, List.cons_append, List.append_assoc, List.cons_append,
    tokens_toggle, Bool.not_false, tokens_flatMap_escape hbody,
    tokens_backslashes hbackslashes hrest]
  rw [Option.getD_some, Option.getD_none, List.append_nil, ← List.reverse_append, htext]

/-! ## Lines of quoted texts -/

/-- Between tokens, a line of quoted texts is read as the texts. -/
theorem tokens_intercalate_quote (texts : List String) :
    tokens false none (" ".intercalate (texts.map quote)).toList = texts := by
  induction texts with
  | nil => rfl
  | cons text texts ih =>
    cases texts with
    | nil =>
      have hend : tokens false none ((quote text).toList ++ []) =
          tokens false (some text.toList.reverse) [] := tokens_toList_quote text (by simp)
      rw [List.append_nil] at hend
      rw [List.map_singleton, String.intercalate_singleton, hend]
      simp [tokens]
    | cons next texts =>
      rw [List.map_cons, List.map_cons, toList_intercalate_cons_cons, ← List.map_cons,
        tokens_toList_quote text (by simp), tokens_gap rfl, ih]
      simp

end Line

/-- Parses a raw line against a tree, from the root on. -/
def CommandTree.parseLine {β : Type} (tree : CommandTree β) (config : Config) (line : String) :
    Except Fault (Report β) :=
  tree.parse config CommandTree.root (Line.split line)

/-- A line of quoted texts, one space between two of them, splits into the texts; so whatever a
command line holds, there is a raw line that is parsed as it is. -/
theorem Line.split_intercalate_quote {β : Type} (texts : List String) :
    Line.split (" ".intercalate (texts.map Line.quote)) = texts ∧
      ∀ (tree : CommandTree β) (config : Config),
        tree.parseLine config (" ".intercalate (texts.map Line.quote)) =
          tree.parse config CommandTree.root texts := by
  have hsplit : Line.split (" ".intercalate (texts.map Line.quote)) = texts :=
    tokens_intercalate_quote texts
  refine ⟨hsplit, fun tree config => ?_⟩
  rw [CommandTree.parseLine, hsplit]

example : Line.quote "c:\\\"x\\\\" = "\"c:\\\\\"x\"\\\\" := by decide +kernel

end CommandLine
