/-!
# Values in the same token as their option

A token that starts like an option and holds a delimiter, not as its first character, is an alias
and a value in one. Only the first delimiter counts. A delimiter that takes more than one byte
cannot be cut out of a token: such a token is torn, and reading ends with it.
-/

namespace CommandLine

/-- What a token is when it is looked at for a value after an alias. -/
inductive Inline where
  | whole
  | parts (text value : String)
  | torn
  deriving DecidableEq, Repr

namespace Inline

/-- A character that an option may start with. -/
def startsOption (c : Char) : Bool := c == '-' || c == '/'

/-- A token cut at the first of the given delimiters. -/
def split (delimiters : List Char) (token : String) : Inline :=
  let text := token.toList.takeWhile fun c => !delimiters.contains c
  match token.toList.dropWhile fun c => !delimiters.contains c with
  | [] => .whole
  | delimiter :: value =>
      if text.head?.any startsOption then
        if delimiter.utf8Size = 1 then .parts (String.ofList text) (String.ofList value)
        else .torn
      else .whole

/-- A token is only torn by a delimiter of more than one byte. -/
theorem split_ne_torn {delimiters : List Char} (h : ∀ d ∈ delimiters, d.utf8Size = 1)
    (token : String) : split delimiters token ≠ .torn := by
  unfold split
  generalize hrest : token.toList.dropWhile (fun c => !delimiters.contains c) = rest
  cases rest with
  | nil => simp
  | cons delimiter value =>
    have hmem : delimiter ∈ delimiters := by
      have hfirst := List.head?_dropWhile_not (fun c => !delimiters.contains c) token.toList
      rw [hrest] at hfirst
      simpa using hfirst
    simp only [h delimiter hmem, if_true]
    split <;> simp

end CommandLine.Inline
