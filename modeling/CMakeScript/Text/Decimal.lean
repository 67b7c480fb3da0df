import CMakeScript.Text.Numeral
/-! Floating-point numbers at the front of a text: an optional sign, then a word for infinity or for
no number, or digits with an optional point and exponent. -/
namespace CMakeScript.Text

def roundedDouble (digits : List Char) (exponent : Int) : Float :=
  let mantissa := natOfDigits digits
  let magnitude : Int := (decimal mantissa).length + exponent
  if mantissa = 0 ∨ magnitude < -400 then 0.0
  else if 400 < magnitude then 1.0 / 0.0
  else Float.ofScientific mantissa (exponent < 0) exponent.natAbs

def exponentPart (cs : List Char) : Int × List Char :=
  match cs with
  | c :: rest =>
    if c = 'e' ∨ c = 'E' then
      let (negative, unsigned) := match rest with
        | '-' :: more => (true, more)
        | '+' :: more => (false, more)
        | _ => (false, rest)
      let digits := unsigned.takeWhile isDigit
      if digits.isEmpty then (0, cs)
      else
        let n : Int := natOfDigits digits
        (if negative then -n else n, unsigned.drop digits.length)
    else (0, cs)
  | [] => (0, cs)

def unsignedDouble? (cs : List Char) : Option (Float × List Char) :=
  let lowered := cs.map Char.toLower
  if ['i', 'n', 'f', 'i', 'n', 'i', 't', 'y'].isPrefixOf lowered then
    some (1.0 / 0.0, cs.drop 8)
  else if ['i', 'n', 'f'].isPrefixOf lowered then some (1.0 / 0.0, cs.drop 3)
  else if ['n', 'a', 'n'].isPrefixOf lowered then some (0.0 / 0.0, cs.drop 3)
  else
    let whole := cs.takeWhile isDigit
    let afterWhole := cs.dropWhile isDigit
    let (fraction, afterMantissa) := match afterWhole with
      | '.' :: rest => (rest.takeWhile isDigit, rest.dropWhile isDigit)
      | _ => ([], afterWhole)
    let digits := whole ++ fraction
    if digits.isEmpty then none
    else
      let (exponent, rest) := exponentPart afterMantissa
      some (roundedDouble digits (exponent - fraction.length), rest)

def isAsciiBlank (c : Char) : Bool :=
  c == ' ' || c == '\t' || c == '\n' || c == '\r' || c == '\x0c'

def double? (cs : List Char) : Option (Float × List Char) :=
  match cs.dropWhile isAsciiBlank with
  | '-' :: rest => (unsignedDouble? rest).map fun (x, rest) => (-x, rest)
  | '+' :: rest => unsignedDouble? rest
  | rest => unsignedDouble? rest

def wholeDouble? (text : String) : Option Float :=
  match double? text.toList with
  | some (x, []) => some x
  | _ => none

def compareDoubles (x y : Float) : Option Ordering :=
  if x < y then some .lt
  else if x == y then some .eq
  else if y < x then some .gt
  else none

def leadingDouble (text : String) : Float :=
  let cs := text.toList
  let whole := cs.takeWhile isDigit
  let fraction := match cs.dropWhile isDigit with
    | '.' :: rest => rest.takeWhile isDigit
    | _ => []
  roundedDouble (whole ++ fraction) (-(fraction.length : Int))

def leadingInt? (text : String) : Option Int :=
  let cs := text.toList.dropWhile isBlank
  match cs with
  | '-' :: rest => intOfWidth? 64 ('-' :: rest.takeWhile isDigit)
  | '+' :: rest => intOfWidth? 64 (rest.takeWhile isDigit)
  | _ => intOfWidth? 64 (cs.takeWhile isDigit)

def trimmedInt? (text : String) : Option Int := intOfWidth? 64 (text.toList.dropWhile isBlank)

end CMakeScript.Text
