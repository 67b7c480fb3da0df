import CMakeScript.Engine.Arguments
import CMakeScript.Engine.Nesting
import CMakeScript.Text.Decimal
/-! Commands that open a loop, and those that leave a loop, a round of it, a function or a file. -/
namespace CMakeScript.Command

def whileLoop (arguments : List Argument) : Step Verdict := do
  if arguments.isEmpty then Step.fail "called with incorrect number of arguments"
  else
    modify fun e => e.openLoop.openBlock (.whileLoop arguments) "while" "endwhile"
    Step.done

def openForeach (words : List String) (count : Nat) (zip : Bool) : Step Verdict := do
  modify fun e => e.openLoop.openBlock (.foreachLoop words count zip) "foreach" "endforeach"
  Step.done

def rangeBound (text : String) : Except String Int :=
  match Text.leadingInt? text with
  | some n =>
    if -Text.bitBound 31 ≤ n ∧ n < Text.bitBound 31 then .ok n
    else .error ("Integer out of range: '" ++ text ++ "'")
  | none => .error ("Invalid integer: '" ++ text ++ "'")

/-- The numbers from `start` to `stop`. A step of zero means one towards `stop`. -/
def rangeNumbers (start stop step : Int) : Except String (List Int) :=
  let step := if step = 0 then (if stop < start then -1 else 1) else step
  if (stop < start ∧ 0 < step) ∨ (start < stop ∧ step < 0) then
    .error ("called with incorrect range specification: start " ++ Text.signedDecimal start ++
      ", stop " ++ Text.signedDecimal stop ++ ", step " ++ Text.signedDecimal step)
  else
    let count := ((stop - start).tdiv step + 1).toNat
    .ok ((List.range count).map fun (i : Nat) => start + i * step)

/-- The numbers of a range given by its words. With no bound, or more than three, the range is the
single number zero. -/
def rangeOf (words : List String) : Except String (List Int) := do
  let bounds ← (words.take 3).mapM rangeBound
  match words.length, bounds with
  | 1, [stop] => rangeNumbers 0 stop 0
  | 2, [start, stop] => rangeNumbers start stop 0
  | 3, [start, stop, step] => rangeNumbers start stop step
  | _, _ => rangeNumbers 0 0 0

inductive LoopPart where
  | nothing
  | lists
  | items
  | zip
  deriving DecidableEq, Repr

def mixedZip : String := "ZIP_LISTS can not be used with LISTS or ITEMS"

def elements (e : Engine) (name : String) : List String :=
  let value := e.value name
  if value.isEmpty then [] else ListValue.splitAll value

def loopValues (e : Engine) : LoopPart → List String → Except String (List String × Bool)
  | part, [] => .ok ([], part == .zip)
  | part, word :: rest =>
    if word = "LISTS" ∨ word = "ITEMS" then
      if part = .zip then .error mixedZip
      else loopValues e (if word = "LISTS" then .lists else .items) rest
    else if word = "ZIP_LISTS" then
      if part = .nothing then loopValues e .zip rest else .error mixedZip
    else match part with
      | .nothing => .error ("Unknown argument:\n  " ++ word ++ "\n")
      | .lists => do
        let (more, zip) ← loopValues e part rest
        .ok (elements e word ++ more, zip)
      | _ => do
        let (more, zip) ← loopValues e part rest
        .ok (word :: more, zip)

def foreachIn (names words : List String) : Step Verdict := do
  match loopValues (← get) .nothing words with
  | .error reason => Step.fatal reason
  | .ok (values, zip) =>
    if 1 < names.length ∧ !zip then
      Step.fatal "Multiple loop variables are only allowed with ZIP_LISTS"
    else if 1 < names.length ∧ values.length ≠ names.length then
      Step.fatal ("Expected " ++ Text.decimal values.length ++ " list variables, but given " ++
        Text.decimal names.length)
    else openForeach (names ++ values) names.length zip

def foreachLoop (words : List String) : Step Verdict :=
  if words.contains "IN" then
    foreachIn (words.takeWhile (· != "IN")) (words.dropWhile (· != "IN")).tail
  else match words with
    | [] => Step.fail "called with incorrect number of arguments"
    | name :: "RANGE" :: bounds =>
      match rangeOf bounds with
      | .error reason => Step.failFatally reason
      | .ok numbers => openForeach (name :: numbers.map Text.signedDecimal) 1 false
    | _ => openForeach words 1 false

def complain (text : String) : Step Bool := do
  match (← get).policy .cmp0055 with
  | .old => return false
  | .warn =>
    modify (·.issue .authorWarning (Policy.cmp0055.warning ++ "\n" ++ text))
    return false
  | .new =>
    modify (·.issue .fatalError text)
    return true

def breakLoop (words : List String) : Step Verdict := do
  if !(← get).inLoop then
    if ← complain "A BREAK command was found outside of a proper FOREACH or WHILE loop scope." then
      return .refused
  if words.isEmpty then return .transferred .breaking true
  let failed ← complain "The BREAK command does not accept any arguments."
  return .transferred .breaking (!failed)

def continueLoop (words : List String) : Step Verdict := do
  if !(← get).inLoop then
    Step.fatal "A CONTINUE command was found outside of a proper FOREACH or WHILE loop scope."
  else
    if !words.isEmpty then
      modify (·.fatalError "The CONTINUE command does not accept any arguments.")
    return .transferred .continuing true

def returnCall (words : List String) : Step Verdict := do
  match words with
  | [] => return .transferred (.returning []) true
  | word :: names =>
    match (← get).policy .cmp0140 with
    | .old => return .transferred (.returning []) true
    | .warn =>
      modify (·.issue .authorWarning (Policy.cmp0140.warning ++
        "\nreturn() checks its arguments when the policy is set to NEW. Since the policy is " ++
        "not set the OLD behavior will be used so the arguments will be ignored."))
      return .transferred (.returning []) true
    | .new =>
      if word = "PROPAGATE" then return .transferred (.returning names) true
      else Step.failFatally ("called with unsupported argument \"" ++ word ++ "\"")

end CMakeScript.Command
