import CMakeScript.Text.Numeral
/-! Integer expressions in 64-bit two's complement. Binary operators are grouped to the left, and
bind more tightly in the order: or, exclusive or, and, shifts, sums, products. A text is cut into
tokens first; it is then evaluated as it is read, so that the first fault in reading order counts. -/
namespace CMakeScript.Arithmetic

inductive Operator where
  | plus
  | minus
  | times
  | divide
  | modulo
  | bitOr
  | bitXor
  | bitAnd
  | shiftLeft
  | shiftRight
  deriving DecidableEq, Repr

namespace Operator

def spelling : Operator → String
  | plus => "+"
  | minus => "-"
  | times => "*"
  | divide => "/"
  | modulo => "%"
  | bitOr => "|"
  | bitXor => "^"
  | bitAnd => "&"
  | shiftLeft => "<<"
  | shiftRight => ">>"

def level : Operator → Nat
  | bitOr => 0
  | bitXor => 1
  | bitAnd => 2
  | shiftLeft | shiftRight => 3
  | plus | minus => 4
  | times | divide | modulo => 5

end Operator

inductive Token where
  | number (value : Int64)
  | operator (op : Operator)
  | tilde
  | openParen
  | closeParen
  deriving DecidableEq, Repr

def Token.spelling : Token → String
  | number value => Text.signedDecimal value.toInt
  | operator op => op.spelling
  | tilde => "~"
  | openParen => "("
  | closeParen => ")"

inductive Error where
  | unexpectedChar (c : Char)
  | unexpectedToken (t : Token)
  | unexpectedEnd
  | outOfRange
  | divideByZero
  | moduloByZero
  deriving DecidableEq, Repr

namespace Error

def isSyntax : Error → Bool
  | unexpectedChar _ | unexpectedToken _ | unexpectedEnd => true
  | _ => false

def reason : Error → String
  | unexpectedChar c => "syntax error, unexpected '" ++ c.toString ++ "'"
  | unexpectedToken t => "syntax error, unexpected '" ++ t.spelling ++ "'"
  | unexpectedEnd => "syntax error, unexpected end of input"
  | outOfRange => "a numeric value is out of range"
  | divideByZero => "divide by zero"
  | moduloByZero => "modulo by zero"

def message (e : Error) (text : String) : String :=
  let verb := if e.isSyntax then "parse" else "evaluate"
  "cannot " ++ verb ++ " the expression: \"" ++ text ++ "\": " ++ e.reason ++ "."

end Error

def isBlank (c : Char) : Bool := c == ' ' || c == '\t' || c == '\n' || c == '\r'

def hexValue (c : Char) : Nat :=
  if Text.isDigit c then c.toNat - '0'.toNat
  else if 'a' ≤ c && c ≤ 'f' then c.toNat - 'a'.toNat + 10
  else c.toNat - 'A'.toNat + 10

def natOfHex (cs : List Char) : Nat := cs.foldl (fun n c => 16 * n + hexValue c) 0

def singleToken? : Char → Option Token
  | '+' => some (.operator .plus)
  | '-' => some (.operator .minus)
  | '*' => some (.operator .times)
  | '/' => some (.operator .divide)
  | '%' => some (.operator .modulo)
  | '|' => some (.operator .bitOr)
  | '^' => some (.operator .bitXor)
  | '&' => some (.operator .bitAnd)
  | '~' => some .tilde
  | '(' => some .openParen
  | ')' => some .closeParen
  | _ => none

def decimalToken (digits : List Char) : Except Error Token :=
  let n := Text.natOfDigits digits
  if n < Text.bitBound 63 then .ok (.number (Int64.ofNat n)) else .error .outOfRange

def hexToken (digits : List Char) : Except Error Token :=
  let n := natOfHex digits
  if n < Text.bitBound 64 then .ok (.number (Int64.ofNat n)) else .error .outOfRange

def nextToken (c : Char) (cs : List Char) : Except Error (Token × List Char) :=
  match c, cs with
  | '<', '<' :: rest => .ok (.operator .shiftLeft, rest)
  | '>', '>' :: rest => .ok (.operator .shiftRight, rest)
  | _, _ =>
    if Text.isDigit c then
      match c, cs with
      | '0', x :: d :: more =>
        if (x = 'x' ∨ x = 'X') ∧ Text.isHexDigit d then
          (hexToken ((d :: more).takeWhile Text.isHexDigit)).map
            (·, (d :: more).dropWhile Text.isHexDigit)
        else (decimalToken (c :: cs.takeWhile Text.isDigit)).map (·, cs.dropWhile Text.isDigit)
      | _, _ => (decimalToken (c :: cs.takeWhile Text.isDigit)).map (·, cs.dropWhile Text.isDigit)
    else match singleToken? c with
      | some token => .ok (token, cs)
      | none => .error (.unexpectedChar c)

def tokens : Nat → List Char → Except Error (List Token)
  | _, [] => .ok []
  | 0, _ => .ok []
  | fuel + 1, c :: cs =>
    if isBlank c then tokens fuel cs
    else do
      let (token, rest) ← nextToken c cs
      return token :: (← tokens fuel rest)

def apply (op : Operator) (x y : Int64) : Except Error Int64 :=
  match op with
  | .plus => .ok (x + y)
  | .minus => .ok (x - y)
  | .times => .ok (x * y)
  | .divide => if y = 0 then .error .divideByZero else .ok (x / y)
  | .modulo => if y = 0 then .error .moduloByZero else .ok (x % y)
  | .bitOr => .ok (x ||| y)
  | .bitXor => .ok (x ^^^ y)
  | .bitAnd => .ok (x &&& y)
  | .shiftLeft => .ok (x <<< y)
  | .shiftRight => .ok (x >>> y)

def unexpected : List Token → Error
  | [] => .unexpectedEnd
  | t :: _ => .unexpectedToken t

mutual

def expression : Nat → Nat → List Token → Except Error (Int64 × List Token)
  | 0, _, ts => .error (unexpected ts)
  | fuel + 1, level, ts =>
    if level < 6 then do
      let (value, rest) ← expression fuel (level + 1) ts
      chain fuel level value rest
    else operand fuel ts

def chain : Nat → Nat → Int64 → List Token → Except Error (Int64 × List Token)
  | 0, _, _, ts => .error (unexpected ts)
  | fuel + 1, level, value, ts =>
    match ts with
    | .operator op :: rest =>
      if op.level = level then do
        let (right, rest) ← expression fuel (level + 1) rest
        chain fuel level (← apply op value right) rest
      else .ok (value, ts)
    | _ => .ok (value, ts)

def operand : Nat → List Token → Except Error (Int64 × List Token)
  | 0, ts => .error (unexpected ts)
  | fuel + 1, ts =>
    match ts with
    | .operator .plus :: rest => operand fuel rest
    | .operator .minus :: rest => do
      let (value, rest) ← operand fuel rest
      .ok (-value, rest)
    | .tilde :: rest => do
      let (value, rest) ← operand fuel rest
      .ok (~~~value, rest)
    | .number value :: rest => .ok (value, rest)
    | .openParen :: rest => do
      let (value, rest) ← expression fuel 0 rest
      match rest with
      | .closeParen :: rest => .ok (value, rest)
      | _ => .error (unexpected rest)
    | _ => .error (unexpected ts)

end

def enough (count : Nat) : Nat := 10 * (count + 2)

def evaluateTokens (ts : List Token) : Except Error Int64 := do
  let (value, rest) ← expression (enough ts.length) 0 ts
  match rest with
  | [] => .ok value
  | _ => .error (unexpected rest)

def evaluate (text : String) : Except Error Int64 := do
  evaluateTokens (← tokens text.toList.length text.toList)

def hexadecimal (value : Int64) : String :=
  "0x" ++ String.ofList (Nat.toDigits 16 value.toUInt64.toNat)

def decimal (value : Int64) : String := Text.signedDecimal value.toInt

end CMakeScript.Arithmetic
