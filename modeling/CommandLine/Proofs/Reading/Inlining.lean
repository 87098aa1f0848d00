import CommandLine.Proofs.CommandTree.Editing
import CommandLine.Proofs.Ledger.Cutting
import CommandLine.Proofs.Reading.Recognition

/-!
# Writing a value behind a delimiter

A value may be written in the token of an option, behind any of the delimiters that a host has chosen.
If the option's text starts like an option and has no delimiter of its own, the first delimiter of the
token is the one that was written, whatever the value is made of. Cutting the token then gives the two
parts back, but only at a delimiter that takes one byte: at a wider one the token is torn.
-/

namespace CommandLine

namespace Inline

/-- A value behind a text and a delimiter. -/
def attach (text : String) (delimiter : Char) (value : String) : String :=
  text ++ String.singleton delimiter ++ value

/-- A text that a value can be written behind. -/
structure Leads (delimiters : List Char) (text : String) (delimiter : Char) : Prop where
  delimits : delimiter ∈ delimiters
  free : ∀ c ∈ text.toList, c ∉ delimiters
  starts : text.toList.head?.any startsOption = true

variable {delimiters : List Char} {token text value : String} {delimiter : Char}

/-- The characters of a text with a value are those of the text, the delimiter and those of the
value. -/
theorem toList_attach (text : String) (delimiter : Char) (value : String) :
    (attach text delimiter value).toList = text.toList ++ delimiter :: value.toList := by
  simp [attach]

/-- A text with a value is cut if the delimiter takes one byte, and torn otherwise. -/
theorem Leads.split_attach (h : Leads delimiters text delimiter) (value : String) :
    split delimiters (attach text delimiter value) =
      if delimiter.utf8Size = 1 then .parts text value else .torn :=
  split_of_toList h.delimits (toList_attach text delimiter value) h.free h.starts

/-- A token that is cut was written with one of the delimiters. -/
theorem exists_leads_of_split (h : split delimiters token = .parts text value) :
    ∃ delimiter, Leads delimiters text delimiter ∧ delimiter.utf8Size = 1 ∧
      token = attach text delimiter value := by
  obtain ⟨⟨delimiter, hmem, htoken⟩, hfree, hstarts⟩ := cuts_of_split h
  have hleads : Leads delimiters text delimiter := ⟨hmem, hfree, hstarts⟩
  obtain rfl : token = attach text delimiter value := by
    rw [← String.toList_inj, htoken, toList_attach]
  have hone : delimiter.utf8Size = 1 := by
    by_contra hwide
    rw [hleads.split_attach, if_neg hwide] at h
    cases h
  exact ⟨delimiter, hleads, hone, rfl⟩

/-- For all delimiters, cutting undoes writing at those that take one byte, and tears the token at any
other; what is cut was written in this way; and to be torn is to be cut at an offset that lies inside
of the delimiter. -/
theorem split_inverts_attach (delimiters : List Char) :
    (∀ text delimiter value, Leads delimiters text delimiter →
      split delimiters (attach text delimiter value) =
        if delimiter.utf8Size = 1 then .parts text value else .torn) ∧
    (∀ token text value, split delimiters token = .parts text value →
      ∃ delimiter, Leads delimiters text delimiter ∧ delimiter.utf8Size = 1 ∧
        token = attach text delimiter value) ∧
    ∀ token, fetchParts delimiters token =
      match split delimiters token with
      | .whole => .ok none
      | .parts text value => .ok (some (text, value))
      | .torn => .error (.noBoundary 1) :=
  ⟨fun _ _ value h => h.split_attach value, fun _ _ _ => exists_leads_of_split,
    fetchParts_eq delimiters⟩

/-- A value with a delimiter in it comes back from behind the first delimiter, an empty one behind a
delimiter of three bytes does not. -/
theorem split_inverts_attach_arrow :
    (Leads ['=', '→'] "--name" '=' ∧
      split ['=', '→'] (attach "--name" '=' "a→b") = .parts "--name" "a→b") ∧
    Leads ['=', '→'] "/n" '→' ∧ split ['=', '→'] (attach "/n" '→' "") = .torn := by
  obtain ⟨hwritten, -, -⟩ := split_inverts_attach ['=', '→']
  have hequals : Leads ['=', '→'] "--name" '=' := ⟨by decide, by simp, by decide⟩
  have harrow : Leads ['=', '→'] "/n" '→' := ⟨by decide, by simp, by decide⟩
  refine ⟨⟨hequals, ?_⟩, harrow, ?_⟩
  · rw [hwritten _ _ "a→b" hequals, if_pos (by decide)]
  · rw [hwritten _ _ "" harrow, if_neg (by decide)]

end Inline

namespace CommandTree

/-- A command line whose first token is torn is not read. -/
theorem parse_of_torn {β : Type} {tree : CommandTree β} {config : Config} {start : SymbolId}
    {token : String} (hstart : (tree.symbol? start).isSome)
    (h : (Setting.of tree config).sight start token = .torn) (after : List String) :
    tree.parse config start (token :: after) =
      .error (.tornToken (Cursor.start (Setting.of tree config) start)) := by
  obtain ⟨symbol, hsymbol⟩ := Option.isSome_iff_exists.mp hstart
  have hsymbol' : (Setting.of tree config).tree.symbol? start = some symbol := hsymbol
  have htears : (Cursor.start (Setting.of tree config) start).tears (Setting.of tree config) token =
      true := decide_eq_true h
  simp only [parse, Setting.parse, hsymbol', Cursor.read, htears, if_true]

/-- A program with an option that takes a text. -/
def named : CommandTree Unit :=
  (new { name := "app" }).editAll
    [.addOption root { aliases := ["--name"], argument := some { name := "name" } } false]

/-- A delimiter of three bytes tears the token of an option, and the command line is not read. -/
theorem named_arrow_torn :
    Inline.Leads ['→'] "--name" '→' ∧
      Inline.split ['→'] (Inline.attach "--name" '→' "value") ≠ .parts "--name" "value" ∧
      ∃ cursor, named.parse { inlineDelimiters := ['→'] } root
        [Inline.attach "--name" '→' "value"] = .error (.tornToken cursor) :=
  ⟨⟨by decide, by simp, by decide⟩, by decide +kernel, _,
    parse_of_torn (by decide +kernel) (by decide +kernel) []⟩

end CommandTree

end CommandLine
