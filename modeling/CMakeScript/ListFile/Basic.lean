import CMakeScript.Text.Basic
/-! List files: sequences of commands, each with the arguments as they were written. -/
namespace CMakeScript

inductive Delimiter where
  | unquoted
  | quoted
  | bracket
  deriving DecidableEq, Repr, Inhabited

structure Argument where
  value : String
  delimiter : Delimiter := .unquoted
  line : Nat := 0
  deriving DecidableEq, Repr, Inhabited

structure Command where
  name : String
  line : Nat
  lineEnd : Nat
  arguments : List Argument := []
  deriving DecidableEq, Repr, Inhabited

namespace Command

def lowerName (c : Command) : String := Text.lower c.name

end Command

structure ListFile where
  path : String
  commands : List Command
  deriving DecidableEq, Repr, Inhabited

end CMakeScript
