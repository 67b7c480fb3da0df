/-! What a command leaves behind beside its effects: the text of its failure and the transfers of
control it asked for. -/
namespace CMakeScript

structure Outcome where
  error : String := "unknown error"
  returning : Bool := false
  returned : List String := []
  breaking : Bool := false
  continuing : Bool := false
  nestedError : Bool := false
  exitCode : Option Int := none
  deriving DecidableEq, Repr, Inhabited

inductive Transfer where
  | returning (names : List String)
  | breaking
  | continuing
  | exiting (code : Int)
  deriving DecidableEq, Repr

def Transfer.names : Transfer → List String
  | returning names => names
  | _ => []

namespace Outcome

def withReturn (o : Outcome) (names : List String) : Outcome :=
  { o with returned := names, returning := true }

def transfer? (o : Outcome) : Option Transfer :=
  if o.returning then some (.returning o.returned)
  else if o.breaking then some .breaking
  else if o.continuing then some .continuing
  else o.exitCode.map .exiting

def request (o : Outcome) : Transfer → Outcome
  | .returning names => o.withReturn names
  | .breaking => { o with breaking := true }
  | .continuing => { o with continuing := true }
  | .exiting code => { o with exitCode := some code }

end Outcome
end CMakeScript
