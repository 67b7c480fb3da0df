import CMakeScript.Version
/-! Policies: switches between an old and a new behaviour, each with the release that introduced
it. -/
namespace CMakeScript

inductive Policy where
  | cmp0011
  | cmp0036
  | cmp0054
  | cmp0055
  | cmp0057
  | cmp0124
  | cmp0126
  | cmp0140
  deriving DecidableEq, Repr

namespace Policy

def all : List Policy :=
  [cmp0011, cmp0036, cmp0054, cmp0055, cmp0057, cmp0124, cmp0126, cmp0140]

def name : Policy → String
  | cmp0011 => "CMP0011"
  | cmp0036 => "CMP0036"
  | cmp0054 => "CMP0054"
  | cmp0055 => "CMP0055"
  | cmp0057 => "CMP0057"
  | cmp0124 => "CMP0124"
  | cmp0126 => "CMP0126"
  | cmp0140 => "CMP0140"

def ofName? (text : String) : Option Policy := all.find? (·.name == text)

def isName (text : String) : Bool :=
  match text.toList with
  | 'C' :: 'M' :: 'P' :: digits => digits.length == 4 && digits.all Text.isDigit
  | _ => false

def introduced : Policy → Version
  | cmp0011 => ⟨2, 6, 3⟩
  | cmp0036 => ⟨3, 0, 0⟩
  | cmp0054 => ⟨3, 1, 0⟩
  | cmp0055 => ⟨3, 2, 0⟩
  | cmp0057 => ⟨3, 3, 0⟩
  | cmp0124 => ⟨3, 21, 0⟩
  | cmp0126 => ⟨3, 21, 0⟩
  | cmp0140 => ⟨3, 25, 0⟩

def summary : Policy → String
  | cmp0011 => "Included scripts do automatic cmake_policy PUSH and POP."
  | cmp0036 => "The build_name command should not be called."
  | cmp0054 => "Only interpret if() arguments as variables or keywords when unquoted."
  | cmp0055 => "Strict checking for break() command."
  | cmp0057 => "Support new if() IN_LIST operator."
  | cmp0124 => "foreach() loop variables are only available in the loop scope."
  | cmp0126 => "set(CACHE) does not remove a normal variable of the same name."
  | cmp0140 => "The return() command checks its parameters."

def warning (p : Policy) : String :=
  "Policy " ++ p.name ++ " is not set: " ++ p.summary ++ "  Run \"cmake --help-policy " ++
    p.name ++ "\" for policy details.  Use the cmake_policy command to set the policy and " ++
    "suppress this warning."

end Policy

inductive PolicyStatus where
  | old
  | warn
  | new
  deriving DecidableEq, Repr

namespace PolicyStatus

def text : PolicyStatus → String
  | old => "OLD"
  | warn => ""
  | new => "NEW"

def isOldOrWarn : PolicyStatus → Bool
  | new => false
  | _ => true

end PolicyStatus
end CMakeScript
