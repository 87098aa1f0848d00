import CommandLine.Proofs.Reading.Sighting
import CommandLine.Reading
import Mathlib.Data.List.TakeWhile

/-!
# What is recognized

A token is recognized at a command if it is `--`, an alias of one of its subcommands, an alias that
stands for an option in its scope, or such an alias with a value behind a delimiter. This is said
here without the order in which the forms are looked for, and without the way in which a token is
cut: with delimiters of one byte, the tokens that look plain are those that are not recognized.
-/

namespace CommandLine

variable {β : Type}

/-! ## Cutting a token -/

namespace Inline

/-- A token that starts like an option, in two parts around the first of its delimiters. -/
structure Cuts (delimiters : List Char) (token text value : String) : Prop where
  joined : ∃ delimiter ∈ delimiters, token.toList = text.toList ++ delimiter :: value.toList
  first : ∀ c ∈ text.toList, c ∉ delimiters
  starts : text.toList.head?.any startsOption = true

variable {delimiters : List Char} {token text value : String}

/-- A token in two parts is cut at its first delimiter. -/
theorem cuts_of_split (h : split delimiters token = .parts text value) :
    Cuts delimiters token text value := by
  unfold split at h
  cases hrest : token.toList.dropWhile (fun c => !delimiters.contains c) with
  | nil =>
    simp only [hrest] at h
    simp at h
  | cons delimiter rest =>
    have hfirst := List.head?_dropWhile_not (fun c => !delimiters.contains c) token.toList
    have hwhole := @List.takeWhile_append_dropWhile _ (fun c => !delimiters.contains c) token.toList
    simp only [hrest] at h hfirst hwhole
    have hmem : delimiter ∈ delimiters := by simpa using hfirst
    split at h
    · rename_i hstarts
      split at h
      · obtain ⟨rfl, rfl⟩ := Inline.parts.inj h
        refine ⟨⟨delimiter, hmem, ?_⟩, ?_, ?_⟩
        · rw [String.toList_ofList, String.toList_ofList]
          exact hwhole.symm
        · intro c hc
          rw [String.toList_ofList] at hc
          simpa using List.mem_takeWhile_imp hc
        · rw [String.toList_ofList]
          exact hstarts
      · simp at h
    · simp at h

/-- A token that starts like an option is cut at its first delimiter if this one takes one byte, and
torn otherwise. -/
theorem split_of_toList {delimiter : Char} (hmem : delimiter ∈ delimiters)
    (htoken : token.toList = text.toList ++ delimiter :: value.toList)
    (hfirst : ∀ c ∈ text.toList, c ∉ delimiters)
    (hstarts : text.toList.head?.any startsOption = true) :
    split delimiters token = if delimiter.utf8Size = 1 then .parts text value else .torn := by
  have hkept : ∀ c ∈ text.toList, (!delimiters.contains c) = true := by
    intro c hc
    simpa using hfirst c hc
  have htake : token.toList.takeWhile (fun c => !delimiters.contains c) = text.toList := by
    rw [htoken, List.takeWhile_append_of_pos hkept, List.takeWhile_cons_of_neg (by simpa using hmem),
      List.append_nil]
  have hdrop : token.toList.dropWhile (fun c => !delimiters.contains c) =
      delimiter :: value.toList := by
    rw [htoken, List.dropWhile_append_of_pos hkept, List.dropWhile_cons_of_neg (by simpa using hmem)]
  rw [split]
  simp only [htake, hdrop, hstarts, if_true, String.ofList_toList]

/-- A token is cut at its first delimiter, if this one takes one byte. -/
theorem split_of_cuts (hdelimiters : ∀ d ∈ delimiters, d.utf8Size = 1)
    (h : Cuts delimiters token text value) : split delimiters token = .parts text value := by
  obtain ⟨⟨delimiter, hmem, htoken⟩, hfirst, hstarts⟩ := h
  rw [split_of_toList hmem htoken hfirst hstarts, if_pos (hdelimiters delimiter hmem)]

/-- A token in two parts is not `--`. -/
theorem Cuts.ne_doubleDash (h : Cuts delimiters token text value) : token ≠ "--" := by
  obtain ⟨⟨delimiter, hdelimiter, htoken⟩, hfree, hstarts⟩ := h
  obtain ⟨first, rest, htext⟩ : ∃ first rest, text.toList = first :: rest := by
    cases htext : text.toList with
    | nil => simp [htext] at hstarts
    | cons first rest => exact ⟨first, rest, rfl⟩
  rintro rfl
  rw [htext, show "--".toList = ['-', '-'] from rfl, List.cons_append, List.cons.injEq] at htoken
  obtain ⟨rfl, hrest⟩ := htoken
  -- The delimiter would be one of the dashes, and the first part has the other one.
  have hdash : delimiter = '-' := by
    cases rest with
    | nil => exact (List.cons.inj hrest).1.symm
    | cons second more => simp at hrest
  rw [hdash] at hdelimiter
  exact hfree '-' (by rw [htext]; exact List.mem_cons_self) hdelimiter

end Inline

/-! ## Recognized tokens -/

/-- A token that is recognized at a command. -/
inductive CommandTree.Recognizes (tree : CommandTree β) (delimiters : List Char)
    (command : SymbolId) (token : String) : Prop where
  | doubleDash (htoken : token = "--")
  | command {sub : SymbolId} (hsub : sub ∈ tree.commands command)
      (halias : tree.hasAlias sub token = true)
  | option {option : SymbolId} (hresolve : (tree.scope command).resolve token = some option)
  | inline {option : SymbolId} {text value : String}
      (hcuts : Inline.Cuts delimiters token text value)
      (hresolve : (tree.scope command).resolve text = some option)

namespace Setting

variable {setting : Setting β} {command : SymbolId} {token : String}

/-- What looks plain is not `--`, no subcommand answers to it, and neither it nor its part before the
first delimiter stands for an option. -/
theorem of_sight_eq_plain (h : setting.sight command token = .plain) :
    token ≠ "--" ∧ setting.tree.subcommand? command token = none ∧
      (setting.scope command).resolve token = none ∧
      ∀ text value, Inline.split setting.config.inlineDelimiters token = .parts text value →
        (setting.scope command).resolve text = none := by
  unfold sight at h
  repeat' split at h
  all_goals simp_all

/-- A recognized token does not look plain. -/
theorem sight_ne_plain (hscope : setting.scope = setting.tree.scope)
    (hdelimiters : ∀ d ∈ setting.config.inlineDelimiters, d.utf8Size = 1)
    (h : setting.tree.Recognizes setting.config.inlineDelimiters command token) :
    setting.sight command token ≠ .plain := by
  intro hplain
  obtain ⟨hdash, hsub, hresolve, hparts⟩ := of_sight_eq_plain hplain
  rw [hscope] at hresolve hparts
  cases h with
  | doubleDash htoken => exact hdash htoken
  | command hmem halias => exact List.find?_eq_none.mp hsub _ hmem halias
  | option hoption => simp [hresolve] at hoption
  | inline hcuts hoption => simp [hparts _ _ (Inline.split_of_cuts hdelimiters hcuts)] at hoption

/-- A token that does not look plain is recognized. -/
theorem recognizes_of_sight (hscope : setting.scope = setting.tree.scope)
    (hdelimiters : ∀ d ∈ setting.config.inlineDelimiters, d.utf8Size = 1)
    (h : setting.sight command token ≠ .plain) :
    setting.tree.Recognizes setting.config.inlineDelimiters command token := by
  cases hsight : setting.sight command token with
  | doubleDash => exact .doubleDash (sight_eq_doubleDash_iff.mp hsight)
  | command id =>
    have halias : setting.tree.hasAlias id token = true := by
      have hfound := subcommand?_of_sight hsight
      rw [CommandTree.subcommand?] at hfound
      simpa using List.find?_some hfound
    exact .command (mem_commands_of_sight hsight) halias
  | option id value =>
    cases value with
    | none => exact .option (hscope ▸ resolve_of_sight hsight)
    | some value =>
      obtain ⟨text, hsplit, hresolve⟩ := split_of_sight hsight
      exact .inline (Inline.cuts_of_split hsplit) (hscope ▸ hresolve)
  | plain => exact absurd hsight h
  | torn => exact absurd hsight (sight_ne_torn hdelimiters command token)

/-- The tokens that look plain are those that are not recognized. -/
theorem sight_eq_plain_iff (hscope : setting.scope = setting.tree.scope)
    (hdelimiters : ∀ d ∈ setting.config.inlineDelimiters, d.utf8Size = 1) :
    setting.sight command token = .plain ↔
      ¬ setting.tree.Recognizes setting.config.inlineDelimiters command token :=
  ⟨fun hplain hrecognized => sight_ne_plain hscope hdelimiters hrecognized hplain,
    fun hunknown => not_not.mp fun hsight => hunknown (recognizes_of_sight hscope hdelimiters hsight)⟩

end Setting

end CommandLine
