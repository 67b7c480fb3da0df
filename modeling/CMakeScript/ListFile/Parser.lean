import CMakeScript.ListFile.Basic
import CMakeScript.ListFile.Lexeme
import CMakeScript.ListFile.SyntaxError
/-! From text to commands. A cursor holds the text still to be read and where it starts; the loops
run on a bound taken from the length of the text, of which every round uses at least one character.
Only a blank that does not separate arguments uses none: it is read as an empty argument again and
again, until the bound is reached. -/
namespace CMakeScript

structure Position where
  offset : Nat := 0
  line : Nat := 1
  deriving DecidableEq, Repr, Inhabited

def Position.after (p : Position) (cs : List Char) : Position :=
  ⟨p.offset + Text.byteLength cs, p.line + cs.count '\n'⟩

structure Cursor where
  rest : List Char
  position : Position := {}
  deriving DecidableEq, Repr, Inhabited

namespace Cursor

def past (c : Cursor) (taken rest : List Char) : Cursor := ⟨rest, c.position.after taken⟩

def total (c : Cursor) : Nat := c.position.offset + Text.byteLength c.rest

def faultToEnd (c : Cursor) (fault : SyntaxFault) : SyntaxError :=
  ⟨fault, c.position.line, c.position.offset, c.total⟩

def faultHere (c : Cursor) (fault : SyntaxFault) : SyntaxError :=
  ⟨fault, c.position.line, c.position.offset, min (c.position.offset + 1) c.total⟩

def excerpt (c : Cursor) : String := String.ofList (c.rest.take 40)

def skipComment (c : Cursor) : Except SyntaxError Cursor :=
  let body := c.rest.drop 1
  match Lexeme.bracketOpen? body with
  | some (level, inside) =>
    match Text.cutAt (Lexeme.bracketMark ']' level) inside with
    | some (content, rest) =>
      .ok (c.past ('#' :: Lexeme.bracketMark '[' level ++ content ++
        Lexeme.bracketMark ']' level) rest)
    | none => .error (c.faultToEnd .unterminatedComment)
  | none =>
    .ok (c.past ('#' :: body.takeWhile (!Lexeme.isLineEnd ·))
      (body.dropWhile (!Lexeme.isLineEnd ·)))

def skipSeparation (newlines : Bool) : Nat → Cursor → Except SyntaxError Cursor
  | 0, c => .ok c
  | fuel + 1, c =>
    match c.rest with
    | [] => .ok c
    | d :: rest =>
      if Lexeme.isSpace d || (newlines && Lexeme.isLineEnd d) then
        skipSeparation newlines fuel (c.past [d] rest)
      else if d = '#' then do skipSeparation newlines fuel (← c.skipComment)
      else .ok c

def argument (c : Cursor) : Except SyntaxError (Argument × Cursor) :=
  let line := c.position.line
  match c.rest with
  | '"' :: inside =>
    match Lexeme.quotedBody? inside with
    | some (body, rest) =>
      .ok (⟨String.ofList (Lexeme.joinLines body), .quoted, line⟩,
        c.past ('"' :: body ++ ['"']) rest)
    | none => .error (c.faultToEnd (.unterminatedString c.excerpt))
  | text =>
    match Lexeme.bracketOpen? text with
    | some (level, inside) =>
      match Text.cutAt (Lexeme.bracketMark ']' level) inside with
      | some (content, rest) =>
        .ok (⟨String.ofList (Lexeme.dropFirstNewline content), .bracket, line⟩,
          c.past (Lexeme.bracketMark '[' level ++ content ++ Lexeme.bracketMark ']' level) rest)
      | none => .error (c.faultToEnd (.unterminatedBracket c.excerpt))
    | none =>
      match Lexeme.unquoted? false text with
      | none => .error (c.faultToEnd (.unterminatedString c.excerpt))
      | some (body, rest) => .ok (⟨String.ofList body, .unquoted, line⟩, c.past body rest)

/-- The arguments of the command that starts at `start`, up to its closing parenthesis. `depth`
counts the parentheses open inside, and the arguments so far are kept last first. -/
def arguments (start : Cursor) :
    Nat → Nat → List Argument → Cursor → Except SyntaxError (List Argument × Cursor)
  | 0, _, _, _ => .error (start.faultToEnd .outOfFuel)
  | fuel + 1, depth, found, c => do
    let c ← c.skipSeparation true c.rest.length
    let paren := fun (text : String) => (⟨text, .unquoted, c.position.line⟩ : Argument)
    match c.rest with
    | [] => .error (start.faultToEnd .missingParenthesis)
    | ')' :: rest =>
      if depth = 0 then .ok (found.reverse, c.past [')'] rest)
      else arguments start fuel (depth - 1) (paren ")" :: found) (c.past [')'] rest)
    | '(' :: rest =>
      arguments start fuel (depth + 1) (paren "(" :: found) (c.past ['('] rest)
    | _ => do
      let (argument, c) ← c.argument
      arguments start fuel depth (argument :: found) c

def command (c : Cursor) : Except SyntaxError (Command × Cursor) :=
  match Lexeme.name? c.rest with
  | none => .error (c.faultHere (.missingName (Lexeme.describe c.rest)))
  | some (name, rest) =>
    let afterName := c.past name rest
    let afterSpaces := afterName.past (rest.takeWhile Lexeme.isSpace)
      (rest.dropWhile Lexeme.isSpace)
    match afterSpaces.rest with
    | '(' :: inside => do
      let (arguments, done) ←
        arguments c (inside.length + 1) 0 [] (afterSpaces.past ['('] inside)
      .ok (⟨String.ofList name, c.position.line, done.position.line, arguments⟩, done)
    | text =>
      .error (afterSpaces.faultHere
        (.missingArguments (String.ofList name) (Lexeme.describe text)))

def lineEnd (c : Cursor) : Except SyntaxError Cursor := do
  let c ← c.skipSeparation false c.rest.length
  match c.rest with
  | [] => .ok c
  | text =>
    match Lexeme.newline? text with
    | some (taken, rest) => .ok (c.past taken rest)
    | none => .error (c.faultHere (.missingNewline (Lexeme.describe text)))

def commands : Nat → List Command → Cursor → Except SyntaxError (List Command)
  | 0, _, c => .error (c.faultToEnd .outOfFuel)
  | fuel + 1, found, c => do
    let c ← c.skipSeparation true c.rest.length
    match c.rest with
    | [] => .ok found.reverse
    | _ => do
      let (command, c) ← c.command
      let c ← c.lineEnd
      commands fuel (command :: found) c

end Cursor

def dropByteOrderMark : List Char → List Char
  | [] => []
  | c :: cs => if c = '\uFEFF' then cs else c :: cs

namespace ListFile

def parse (path source : String) : Except SyntaxError ListFile := do
  let text := dropByteOrderMark source.toList
  let commands ← Cursor.commands (text.length + 1) [] ⟨text, {}⟩
  .ok ⟨path, commands⟩

end ListFile
end CMakeScript
