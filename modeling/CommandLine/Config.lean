/-!
# Parser configuration

The three choices a host can make about parsing: the exit code that reports parse errors,
whether unrecognized tokens come with a suggestion, and which characters separate an option's
alias from a value in the same token.
-/

namespace CommandLine

/-- The configuration of a parser. -/
structure Config where
  errorExitCode : Int32 := 1
  suggestions : Bool := true
  inlineDelimiters : List Char := ['=', ':']
  deriving DecidableEq

end CommandLine
