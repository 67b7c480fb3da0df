import CMakeScript.Text.Basic
/-! How a run is started: its mode, its verbosity and what becomes of its warnings. -/
namespace CMakeScript

inductive Mode where
  | project
  | script
  deriving DecidableEq, Repr, Inhabited

inductive LogLevel where
  | error
  | warning
  | notice
  | status
  | verbose
  | debug
  | trace
  deriving DecidableEq, Repr, Inhabited

namespace LogLevel

def ofText? (text : String) : Option LogLevel :=
  match Text.upper text with
  | "ERROR" => some error
  | "WARNING" => some warning
  | "NOTICE" => some notice
  | "STATUS" => some status
  | "VERBOSE" => some verbose
  | "DEBUG" => some debug
  | "TRACE" => some trace
  | _ => none

def name : LogLevel → String
  | error => "ERROR"
  | warning => "WARNING"
  | notice => "NOTICE"
  | status => "STATUS"
  | verbose => "VERBOSE"
  | debug => "DEBUG"
  | trace => "TRACE"

def rank : LogLevel → Nat
  | error => 0
  | warning => 1
  | notice => 2
  | status => 3
  | verbose => 4
  | debug => 5
  | trace => 6

end LogLevel

structure WarningOptions where
  suppressDev : Bool := false
  devAsErrors : Bool := false
  suppressDeprecated : Bool := false
  deprecatedAsErrors : Bool := false
  deriving DecidableEq, Repr, Inhabited

namespace WarningOptions

def withFlag? (w : WarningOptions) : String → Option WarningOptions
  | "-Wdev" => some { w with suppressDev := false }
  | "-Wno-dev" => some { w with suppressDev := true }
  | "-Werror=dev" => some { w with suppressDev := false, devAsErrors := true }
  | "-Wno-error=dev" => some { w with devAsErrors := false }
  | "-Wdeprecated" => some { w with suppressDeprecated := false }
  | "-Wno-deprecated" => some { w with suppressDeprecated := true }
  | "-Werror=deprecated" =>
    some { w with suppressDeprecated := false, deprecatedAsErrors := true }
  | "-Wno-error=deprecated" => some { w with deprecatedAsErrors := false }
  | _ => none

end WarningOptions

structure Options where
  recursionLimit : Nat := 1000
  mode : Mode := .project
  trace : Bool := false
  logLevel : Option LogLevel := none
  warnings : WarningOptions := {}
  cacheEntries : List String := []
  deriving DecidableEq, Repr, Inhabited

end CMakeScript
