import CMakeScript.Text.Basic
/-! Reading of decimal numerals with a bound. A sign may stand before the digits; an empty text,
a stray character or a value outside the bounds is refused. -/
namespace CMakeScript.Text

def bitBound (bits : Nat) : Nat := Nat.pow 2 bits

def digitValue (c : Char) : Nat := c.toNat - '0'.toNat

def natOfDigits (cs : List Char) : Nat :=
  cs.foldl (fun n c => 10 * n + digitValue c) 0

def digits? (cs : List Char) : Option Nat :=
  if cs.isEmpty || !cs.all isDigit then none else some (natOfDigits cs)

def natBelow? (bound : Nat) (cs : List Char) : Option Nat := do
  let n ← match cs with
    | '+' :: rest => digits? rest
    | _ => digits? cs
  if n < bound then some n else none

def intOfWidth? (bits : Nat) (cs : List Char) : Option Int := do
  let half : Int := bitBound (bits - 1)
  let n ← match cs with
    | '+' :: rest => (digits? rest).map Int.ofNat
    | '-' :: rest => (digits? rest).map fun n => - Int.ofNat n
    | _ => (digits? cs).map Int.ofNat
  if -half ≤ n ∧ n < half then some n else none

def decimal (n : Nat) : String := String.ofList (Nat.toDigits 10 n)

def signedDecimal : Int → String
  | .ofNat n => decimal n
  | .negSucc n => "-" ++ decimal (n + 1)

end CMakeScript.Text
