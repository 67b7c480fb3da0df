import CMakeScript.Condition
import CMakeScript.Execution.Runner
/-! Running of a closed branch. The recorded commands are gone through once; branch commands that
belong to no inner branch select what is run. -/
namespace CMakeScript

structure BranchState where
  depth : Nat := 0
  active : Bool
  selected : Bool
  elseSeen : Bool := false
  deriving DecidableEq, Repr

namespace BranchState

def start (held : Bool) : BranchState := { active := held, selected := held }

def enter (s : BranchState) (name : String) : BranchState :=
  if name = "if" then { s with depth := s.depth + 1 }
  else if name = "endif" then { s with depth := s.depth - 1 }
  else s

def otherwise (s : BranchState) (trace : Backtrace) : Step (Option BranchState) := do
  if s.elseSeen then
    modify (·.fatalErrorAt "A duplicate ELSE command was found inside an IF block." trace)
    return none
  else return some { s with active := !s.selected, selected := true, elseSeen := true }

def alternative (s : BranchState) (arguments : List Argument) (trace : Backtrace) :
    Step (Option BranchState) := do
  if s.elseSeen then
    modify (·.fatalErrorAt "An ELSEIF command was found after an ELSE command." trace)
    return none
  else if s.selected then return some { s with active := false }
  else match ← Step.words arguments with
    | none => return none
    | some words =>
      match ← Condition.evaluate words trace with
      | .ok true => return some { s with active := true, selected := true }
      | .ok false => return some s
      | .error error =>
        modify (·.fatalErrorAt (Condition.describe words ++ error.message) trace)
        return none

end BranchState

namespace Runner

def branch (r : Runner) (file : String) : BranchState → List Command → Outcome → Run Outcome
  | _, [], o => pure o
  | s, c :: rest, o => do
    let name := c.lowerName
    let s := s.enter name
    if s.depth = 0 ∧ (name = "else" ∨ name = "elseif") then
      let trace := (← get).backtrace.push (Frame.ofCommand c file)
      let next ← (if name = "else" then s.otherwise trace
        else s.alternative c.arguments trace).lift
      match next with
      | some s => branch r file s rest o
      | none => return o
    else if s.active then
      let (_, inner) ← r.run c
      match inner.transfer? with
      | some t => return o.request t
      | none => branch r file s rest o
    else branch r file s rest o

end Runner
end CMakeScript
