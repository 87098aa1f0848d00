/-!
# Splitting a raw command line

A line is read once from left to right. Spaces and tabs outside double quotes end a
token, a double quote opens or closes a quoted stretch and is dropped, and a
backslash directly before a double quote stands for the quote itself. Every other
character, single quotes and lone backslashes included, belongs to its token as it is.
-/

namespace CommandLine.Line

/-- A space or a tab, the two characters that separate tokens outside quotes. -/
def isGap (c : Char) : Bool := c == ' ' || c == '\t'

/--
The tokens of the rest of a line. `quoted` says whether a quote is open, and `token` holds
the letters of the token being read, last letter first; it is `none` between tokens, so a
token that is only a pair of quotes is kept as an empty one.
-/
def tokens (quoted : Bool) (token : Option (List Char)) : List Char → List String
  | [] => (token.map fun letters => String.ofList letters.reverse).toList
  | '\\' :: '"' :: rest => tokens quoted (some ('"' :: token.getD [])) rest
  | c :: rest =>
      if c = '"' then
        tokens (!quoted) (some (token.getD [])) rest
      else if isGap c && !quoted then
        (token.map fun letters => String.ofList letters.reverse).toList ++ tokens quoted none rest
      else
        tokens quoted (some (c :: token.getD [])) rest

/-- The tokens of a raw line; a quote left open closes at the end of the line. -/
def split (line : String) : List String := tokens false none line.toList

/-- A gap is neither a double quote nor a backslash. -/
theorem ne_of_isGap {c : Char} (h : isGap c = true) : c ≠ '"' ∧ c ≠ '\\' := by
  constructor
  · rintro rfl
    simp [isGap] at h
  · rintro rfl
    simp [isGap] at h

/-- A line without characters has no tokens. -/
@[simp] theorem split_empty : split "" = [] := rfl

/-- A line of texts with spaces between them begins with the first text and a space. -/
theorem toList_intercalate_cons_cons (first next : String) (rest : List String) :
    (" ".intercalate (first :: next :: rest)).toList =
      first.toList ++ ' ' :: (" ".intercalate (next :: rest)).toList := by
  rw [String.intercalate_cons_cons, String.append_assoc, String.toList_append, String.toList_append]
  rfl

end CommandLine.Line
