import CMakeScript.Arena
import Std.Data.TreeMap
/-! Variable frames. A frame binds a name to a value or marks it as unset; a name without a binding
is looked up in the frames above, down to a bounding frame that is itself left out. -/
namespace CMakeScript

abbrev Bindings := Std.TreeMap String (Option String)

abbrev Variables := Arena Bindings

namespace Variables

def pushFrame (v : Variables) (parent : Nat) : Variables × Nat := v.push parent {}

def define (v : Variables) (frame : Nat) (name value : String) : Variables :=
  v.modify frame (·.insert name (some value))

/-- Marks the name as unset in the frame, which hides values further up. -/
def unset (v : Variables) (frame : Nat) (name : String) : Variables :=
  v.modify frame (·.insert name none)

def assign (v : Variables) (frame : Nat) (name : String) (value : Option String) : Variables :=
  v.modify frame (·.insert name value)

def undefine (v : Variables) (frame : Nat) (name : String) : Variables :=
  v.modify frame (·.erase name)

def hasLocal (v : Variables) (frame : Nat) (name : String) : Bool :=
  match v.get? frame with
  | some bindings => bindings.contains name
  | none => false

def chain (v : Variables) (frame root : Nat) : List (Nat × Bindings) :=
  (v.ancestors frame).takeWhile fun (id, _) => id != root

def binding? (v : Variables) (frame root : Nat) (name : String) : Option (Option String) :=
  (v.chain frame root).findSome? fun (_, bindings) => bindings[name]?

def lookup (v : Variables) (frame root : Nat) (name : String) : Option String :=
  (v.binding? frame root name).join

def localize (v : Variables) (frame root : Nat) (name : String) : Variables :=
  if v.hasLocal frame name then v
  else v.assign frame name ((v.binding? frame root name).join)

/-- Fixes the child's view of a name and gives the parent the same value. -/
def raise (v : Variables) (child parent root : Nat) (name : String) : Variables :=
  let v := v.localize child root name
  v.assign parent name (v.lookup child root name)

def overlay (nearer further : Bindings) : Bindings :=
  further.foldl (fun acc name value => acc.insertIfNew name value) nearer

def closure (v : Variables) (frame root : Nat) : Bindings :=
  let seen : Bindings := (v.chain frame root).foldl (fun acc node => overlay acc node.2) {}
  seen.filter fun _ value => value.isSome

def replace (v : Variables) (frame : Nat) (bindings : Bindings) : Variables :=
  v.set frame bindings

def visibleNames (v : Variables) (frame root : Nat) : List String :=
  (v.closure frame root).keys

end Variables
end CMakeScript
