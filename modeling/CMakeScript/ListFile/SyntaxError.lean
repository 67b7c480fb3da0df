/-! Faults of a list file, with their place in bytes and lines. A reading that does not come to an
end is none of the text; it has no words. -/
namespace CMakeScript

inductive SyntaxFault where
  | unterminatedComment
  | missingName (got : String)
  | missingArguments (command got : String)
  | missingParenthesis
  | unterminatedString (text : String)
  | unterminatedBracket (text : String)
  | missingNewline (got : String)
  | outOfFuel
  deriving DecidableEq, Repr, Inhabited

namespace SyntaxFault

def unterminated (what text : String) : String :=
  "Parse error.  Function missing ending \")\".  Instead found unterminated " ++ what ++
    " with text \"" ++ text ++ "\"."

def message : SyntaxFault → String
  | unterminatedComment => "Parse error.  Unterminated bracket comment."
  | missingName got => "Parse error.  Expected a command name, got " ++ got ++ "."
  | missingArguments command got =>
    "Parse error.  Expected \"(\" after command \"" ++ command ++ "\", got " ++ got ++ "."
  | missingParenthesis =>
    "Parse error.  Function missing ending \")\".  End of file reached."
  | unterminatedString text => unterminated "string" text
  | unterminatedBracket text => unterminated "bracket" text
  | missingNewline got => "Parse error.  Expected a newline, got " ++ got ++ "."
  | outOfFuel => ""

def label : SyntaxFault → String
  | unterminatedComment => "comment starts here"
  | missingArguments _ _ => "missing argument list"
  | missingParenthesis => "command starts here"
  | unterminatedString _ => "string starts here"
  | unterminatedBracket _ => "bracket starts here"
  | _ => "here"

def help : SyntaxFault → Option String
  | missingName _ => some "each command must be written as `name(arguments)`"
  | _ => none

end SyntaxFault

structure SyntaxError where
  fault : SyntaxFault
  line : Nat
  start : Nat
  stop : Nat
  deriving DecidableEq, Repr, Inhabited

end CMakeScript
