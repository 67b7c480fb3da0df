import CMakeScript.Arithmetic
import CMakeScript.Engine.Messages
/-! The command that evaluates an integer expression into a variable. -/
namespace CMakeScript.Command

def mathExpression (output text : String) (format : Int64 → String) : Step Verdict :=
  match Arithmetic.evaluate text with
  | .ok value => do
    Step.define output (format value)
    Step.done
  | .error error => Step.fail (error.message text)

def math : List String → Step Verdict
  | [] => Step.fail "must be called with at least one argument."
  | kind :: arguments =>
    if kind ≠ "EXPR" then Step.fail ("does not recognize sub-command " ++ kind)
    else match arguments with
      | [output, text] => do
        Step.define output "ERROR"
        mathExpression output text Arithmetic.decimal
      | [output, text, option, format] => do
        Step.define output "ERROR"
        if option ≠ "OUTPUT_FORMAT" then
          Step.fail ("sub-command EXPR option \"" ++ option ++ "\" is unknown.")
        else if format = "DECIMAL" then mathExpression output text Arithmetic.decimal
        else if format = "HEXADECIMAL" then mathExpression output text Arithmetic.hexadecimal
        else
          Step.fail ("sub-command EXPR value \"" ++ format ++ "\" for option \"" ++ option ++
            "\" is invalid.")
      | _ => Step.fail "EXPR called with incorrect arguments."

end CMakeScript.Command
