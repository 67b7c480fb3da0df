import CMakeScript.Engine.Nesting
/-! Running of commands as seen from a command that runs others: bodies of loops, branches and
definitions are described over an arbitrary way of running one command. -/
namespace CMakeScript

structure Runner where
  execute : Command → Outcome → Run (Bool × Outcome)
  rounds : Nat

namespace Runner

def run (r : Runner) (c : Command) : Run (Bool × Outcome) := r.execute c {}

end Runner

inductive Pass where
  | next
  | left (t : Option Transfer)
  | fatal
  deriving DecidableEq, Repr

namespace Pass

def forward (p : Pass) (o : Outcome) : Outcome :=
  match p with
  | left (some t) => o.request t
  | _ => o

end Pass

namespace Runner

def pass (r : Runner) : List Command → Run Pass
  | [] => pure .next
  | c :: rest => do
    let (_, inner) ← r.run c
    match inner.transfer? with
    | some .continuing => return .next
    | some .breaking => return .left none
    | some t => return .left (some t)
    | none => if (← get).fatal then return .fatal else pass r rest

def passes {α : Type} (r : Runner) (prepare : α → Engine → Engine) (body : List Command) :
    List α → Run Pass
  | [] => pure .next
  | a :: rest => do
    modify (prepare a)
    match ← r.pass body with
    | .next => passes r prepare body rest
    | other => return other

def passesWhile (r : Runner) (holds : Step Bool) (body : List Command) (fuel : Nat) :
    Run Pass := do
  if ← holds.lift then
    match fuel with
    | 0 => Run.halt .outOfFuel
    | fuel + 1 =>
      match ← r.pass body with
      | .next => passesWhile r holds body fuel
      | other => return other
  else return .next

end Runner
end CMakeScript
