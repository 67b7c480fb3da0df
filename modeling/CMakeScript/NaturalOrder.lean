import CMakeScript.Text.Numeral
/-! Order of texts in which runs of digits count by their value and all other bytes one by one. -/
namespace CMakeScript.NaturalOrder

def isDigitByte (b : UInt8) : Bool := 48 ≤ b && b ≤ 57

def compareBytes : List UInt8 → List UInt8 → Ordering
  | [], [] => .eq
  | [], _ :: _ => .lt
  | _ :: _, [] => .gt
  | a :: as, b :: bs => (Ord.compare a b).then (compareBytes as bs)

def compareRuns (a b : List UInt8) : Ordering :=
  let x := a.dropWhile (· == 48)
  let y := b.dropWhile (· == 48)
  (Ord.compare x.length y.length).then (compareBytes x y)

def compareWithin : Nat → List UInt8 → List UInt8 → Ordering
  | _, [], [] => .eq
  | _, [], _ :: _ => .lt
  | _, _ :: _, [] => .gt
  | 0, _ :: _, _ :: _ => .eq
  | fuel + 1, a :: as, b :: bs =>
    if isDigitByte a && isDigitByte b then
      let order := compareRuns ((a :: as).takeWhile isDigitByte) ((b :: bs).takeWhile isDigitByte)
      order.then (compareWithin fuel (as.dropWhile isDigitByte) (bs.dropWhile isDigitByte))
    else (Ord.compare a b).then (compareWithin fuel as bs)

def compare (a b : String) : Ordering :=
  compareWithin a.toUTF8.size a.toUTF8.toList b.toUTF8.toList

end CMakeScript.NaturalOrder
