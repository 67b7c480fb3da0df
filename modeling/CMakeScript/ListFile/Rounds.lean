import CMakeScript.ListFile.Parser
/-! The loops of the parser one round at a time, without a bound on the number of rounds. -/
namespace CMakeScript

inductive Round (σ β : Type) where
  | again (next : σ)
  | done (result : β)
  deriving DecidableEq, Repr

/-- The loop comes to an end with the result, and every round but the last takes some of the text
that is left. -/
inductive Round.UsesUp {σ β : Type} (round : σ → Round σ β) (left : σ → List Char) :
    σ → β → Prop where
  | done {s b} (ends : round s = .done b) : UsesUp round left s b
  | again {s s' b taken} (goesOn : round s = .again s') (some : taken ≠ [])
    (split : left s = taken ++ left s') (further : UsesUp round left s' b) : UsesUp round left s b

namespace Cursor

def separationRound (newlines : Bool) (c : Cursor) : Round Cursor (Except SyntaxError Cursor) :=
  match c.rest with
  | [] => .done (.ok c)
  | d :: rest =>
    if Lexeme.isSpace d || (newlines && Lexeme.isLineEnd d) then .again (c.past [d] rest)
    else if d = '#' then
      match c.skipComment with
      | .ok c => .again c
      | .error error => .done (.error error)
    else .done (.ok c)

structure ArgumentState where
  depth : Nat
  found : List Argument
  cursor : Cursor
  deriving DecidableEq, Repr

namespace ArgumentState

def rest (s : ArgumentState) : List Char := s.cursor.rest

end ArgumentState

def argumentRound (start : Cursor) (s : ArgumentState) :
    Round ArgumentState (Except SyntaxError (List Argument × Cursor)) :=
  match s.cursor.skipSeparation true s.rest.length with
  | .error error => .done (.error error)
  | .ok c =>
    let paren := fun (text : String) => (⟨text, .unquoted, c.position.line⟩ : Argument)
    match c.rest with
    | [] => .done (.error (start.faultToEnd .missingParenthesis))
    | ')' :: rest =>
      if s.depth = 0 then .done (.ok (s.found.reverse, c.past [')'] rest))
      else .again ⟨s.depth - 1, paren ")" :: s.found, c.past [')'] rest⟩
    | '(' :: rest => .again ⟨s.depth + 1, paren "(" :: s.found, c.past ['('] rest⟩
    | _ =>
      match c.argument with
      | .ok (argument, c) => .again ⟨s.depth, argument :: s.found, c⟩
      | .error error => .done (.error error)

structure CommandState where
  found : List Command
  cursor : Cursor
  deriving DecidableEq, Repr

namespace CommandState

def rest (s : CommandState) : List Char := s.cursor.rest

end CommandState

def commandLine (c : Cursor) : Except SyntaxError (Command × Cursor) := do
  let (command, c) ← c.command
  return (command, ← c.lineEnd)

def commandRound (s : CommandState) : Round CommandState (Except SyntaxError (List Command)) :=
  match s.cursor.skipSeparation true s.rest.length with
  | .error error => .done (.error error)
  | .ok c =>
    match c.rest with
    | [] => .done (.ok s.found.reverse)
    | _ =>
      match c.commandLine with
      | .ok (command, c) => .again ⟨command :: s.found, c⟩
      | .error error => .done (.error error)

end Cursor
end CMakeScript
