import CMakeScript.Backtrace
import CMakeScript.Options
/-! Diagnostics: their kinds, what the warning options make of them, and their text. -/
namespace CMakeScript

inductive MessageKind where
  | authorWarning
  | authorError
  | fatalError
  | internalError
  | warning
  | log
  | deprecationError
  | deprecationWarning
  deriving DecidableEq, Repr, Inhabited

namespace MessageKind

def isError : MessageKind → Bool
  | fatalError | internalError | deprecationError | authorError => true
  | _ => false

def title : MessageKind → String
  | fatalError => "CMake Error"
  | internalError => "CMake Internal Error (please report a bug)"
  | log => "CMake Debug Log"
  | deprecationError => "CMake Deprecation Error"
  | deprecationWarning => "CMake Deprecation Warning"
  | authorWarning => "CMake Warning (dev)"
  | authorError => "CMake Error (dev)"
  | warning => "CMake Warning"

def convert (kind : MessageKind) (w : WarningOptions) : MessageKind :=
  match kind with
  | authorWarning => if w.devAsErrors then authorError else authorWarning
  | authorError => if w.devAsErrors then authorError else authorWarning
  | deprecationWarning => if w.deprecatedAsErrors then deprecationError else deprecationWarning
  | deprecationError => if w.deprecatedAsErrors then deprecationError else deprecationWarning
  | other => other

def isVisible (kind : MessageKind) (w : WarningOptions) : Bool :=
  match kind with
  | deprecationError => w.deprecatedAsErrors
  | deprecationWarning => !w.suppressDeprecated
  | authorWarning => !w.suppressDev
  | _ => true

def shown? (kind : MessageKind) (w : WarningOptions) : Option MessageKind :=
  let converted := kind.convert w
  if converted = kind ∧ !converted.isVisible w then none else some converted

def advice : MessageKind → String
  | authorWarning => "This warning is for project developers.  Use -Wno-dev to suppress it.\n"
  | authorError => "This error is for project developers. Use -Wno-error=dev to suppress it.\n"
  | _ => ""

end MessageKind

namespace Diagnostic

def indent (text : String) : String :=
  let body := Text.dropWhileEnd (· == '\n') text.toList
  Text.join "" ((Text.splitOn '\n' body).map fun line =>
    if line.isEmpty then "\n" else "  " ++ String.ofList line ++ "\n")

def callStackText : List String → String
  | [] => ""
  | lines =>
    "Call Stack (most recent call first):\n" ++
      Text.join "" (lines.map fun line => "  " ++ line ++ "\n")

def format (kind : MessageKind) (text : String) (trace : Backtrace) (top : Option String) :
    String :=
  let place := match trace.top? with
    | some frame => " at " ++ frame.render top
    | none => ""
  kind.title ++ place ++ ":\n" ++ indent text ++ callStackText (trace.callStack top) ++
    kind.advice ++ "\n"

end Diagnostic
end CMakeScript
