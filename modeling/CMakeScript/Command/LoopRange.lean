import CMakeScript.Command.Loop
/-! What the words of a range ask for, and its numbers computed in signed words of 64 bits. An
operation on words gives nothing if its result does not fit. -/
namespace CMakeScript

namespace Word64

def ofInt? (n : Int) : Option Int64 :=
  if -Text.bitBound 63 ≤ n ∧ n < Text.bitBound 63 then some (Int64.ofInt n) else none

def add? (x y : Int64) : Option Int64 := ofInt? (x.toInt + y.toInt)

def sub? (x y : Int64) : Option Int64 := ofInt? (x.toInt - y.toInt)

def mul? (x y : Int64) : Option Int64 := ofInt? (x.toInt * y.toInt)

def div? (x y : Int64) : Option Int64 :=
  if y = 0 then none else ofInt? (x.toInt.tdiv y.toInt)

end Word64

namespace Command

inductive RangeGiven : List String → Int → Int → Int → Prop where
  | stop {word : String} {stop : Int} : rangeBound word = .ok stop → RangeGiven [word] 0 stop 0
  | ends {first second : String} {start stop : Int} : rangeBound first = .ok start →
      rangeBound second = .ok stop → RangeGiven [first, second] start stop 0
  | steps {first second third : String} {start stop step : Int} : rangeBound first = .ok start →
      rangeBound second = .ok stop → rangeBound third = .ok step →
      RangeGiven [first, second, third] start stop step

def rangeStep (start stop step : Int) : Int :=
  if step = 0 then (if stop < start then -1 else 1) else step

def Between (start stop n : Int) : Prop := (start ≤ n ∧ n ≤ stop) ∨ (stop ≤ n ∧ n ≤ start)

def rangeCount? (start stop step : Int64) : Option Int64 := do
  let span ← Word64.sub? stop start
  let quotient ← Word64.div? span step
  Word64.add? quotient 1

def rangeItem? (start step : Int64) (i : Nat) : Option Int64 := do
  let place ← Word64.ofInt? i
  let passed ← Word64.mul? place step
  Word64.add? start passed

end Command
end CMakeScript
