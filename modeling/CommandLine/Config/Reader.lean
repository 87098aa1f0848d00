import CommandLine.Config
import CommandLine.Json.Reader

/-!
# Configurations in JSON

A configuration is an object whose members may be missing, in which case the default holds, or
an array that gives the fields in order and may end early. Unknown members are passed over; a
known one given twice, or a value of the wrong kind, makes the whole text unreadable.
-/

namespace CommandLine.Config

/-- The fields of a configuration in their order, by the names of their members. -/
def fieldNames : List String := ["parse_error_exit_code", "suggestions", "inline_delimiters"]

/-- An exit code as a document: an integer of 32 bits. -/
def exitCode? (document : Json) : Option Int32 := do
  let code ← document.int?
  guard (Int32.minValue.toInt ≤ code ∧ code ≤ Int32.maxValue.toInt)
  return Int32.ofInt code

/-- Delimiters as a document: an array of texts with one character each. -/
def delimiters? (document : Json) : Option (List Char) := do
  (← document.items?).mapM Json.char?

/-- The configuration with one field set from a document. -/
def setField? (config : Config) (name : String) (document : Json) : Option Config :=
  if name = "parse_error_exit_code" then
    (exitCode? document).map fun code => { config with errorExitCode := code }
  else if name = "suggestions" then
    document.bool?.map fun suggestions => { config with suggestions }
  else if name = "inline_delimiters" then
    (delimiters? document).map fun delimiters => { config with inlineDelimiters := delimiters }
  else some config

/-- The configuration with the members of an object set, where `seen` were set before. -/
def setMembers? (seen : List String) (config : Config) :
    List (String × Json) → Option Config
  | [] => some config
  | (name, document) :: members =>
      if name ∈ fieldNames then
        if name ∈ seen then none
        else (config.setField? name document).bind (setMembers? (name :: seen) · members)
      else setMembers? seen config members

/-- The configuration with the items of an array set as the named fields. -/
def setItems? (config : Config) : (names : List String) → List Json → Option Config
  | _, [] => some config
  | [], _ :: _ => none
  | name :: names, document :: documents =>
      (config.setField? name document).bind (setItems? · names documents)

/-- The configuration that a document is. -/
def ofJson? : Json → Option Config
  | .object members => setMembers? [] {} members
  | .array items => setItems? {} fieldNames items
  | _ => none

/-- The configuration that a text spells. -/
def read? (text : String) : Option Config := do
  ofJson? (← Json.parse? text)

end CommandLine.Config
