import CMakeScript.ListFile.Basic
import CMakeScript.Path
import CMakeScript.Text.Numeral
/-! The chain of places that are being executed, shown in diagnostics. -/
namespace CMakeScript

inductive Place where
  | line (number : Nat)
  | deferred
  deriving DecidableEq, Repr, Inhabited

structure Frame where
  name : String := ""
  file : String := ""
  place : Place := .line 0
  deriving DecidableEq, Repr, Inhabited

namespace Frame

def ofFile (file : String) : Frame := ⟨"", file, .line 0⟩

def ofDeferred (file : String) : Frame := ⟨"", file, .deferred⟩

def ofCommand (command : Command) (file : String) : Frame :=
  ⟨command.name, file, .line command.line⟩

def isDeferred (f : Frame) : Bool := f.place == .deferred

def lineNumber (f : Frame) : Nat :=
  match f.place with
  | .line n => n
  | .deferred => Text.bitBound 64 - 1

def render (f : Frame) (top : Option String) : String :=
  let place := match f.place with
    | .deferred => ":DEFERRED"
    | .line 0 => ""
    | .line n => ":" ++ Text.decimal n
  let name := if f.name.isEmpty then "" else " (" ++ f.name ++ ")"
  Path.display f.file top ++ place ++ name

end Frame

structure Backtrace where
  frames : List Frame := []
  deriving DecidableEq, Repr, Inhabited

namespace Backtrace

def push (b : Backtrace) (frame : Frame) : Backtrace := ⟨frame :: b.frames⟩

def pop (b : Backtrace) : Backtrace := ⟨b.frames.tail⟩

def top? (b : Backtrace) : Option Frame := b.frames.head?

def callersFrom (top : Option String) (previous : String) : List Frame → List String
  | [] => []
  | frame :: rest =>
    if frame.name.isEmpty && !frame.isDeferred && frame.file == previous then
      callersFrom top previous rest
    else frame.render top :: callersFrom top frame.file rest

def callStack (b : Backtrace) (top : Option String) : List String :=
  match b.frames with
  | [] => []
  | innermost :: rest => callersFrom top innermost.file rest

end Backtrace
end CMakeScript
