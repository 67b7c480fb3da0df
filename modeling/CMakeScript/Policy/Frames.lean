import CMakeScript.Arena
import CMakeScript.Policy.Basic
/-! Frames of policy settings. A setting made in a weak frame is also made in the frames above it,
up to and including the first strong one. -/
namespace CMakeScript

structure PolicySettings where
  entries : List (Policy × PolicyStatus) := []
  deriving DecidableEq, Repr, Inhabited

namespace PolicySettings

def get? (m : PolicySettings) (p : Policy) : Option PolicyStatus :=
  (m.entries.find? fun entry => entry.1 == p).map Prod.snd

def set (m : PolicySettings) (p : Policy) (status : PolicyStatus) : PolicySettings :=
  ⟨(p, status) :: m.entries.filter fun entry => entry.1 != p⟩

def isEmpty (m : PolicySettings) : Bool := m.entries.isEmpty

def toList (m : PolicySettings) : List (Policy × PolicyStatus) :=
  Policy.all.filterMap fun p => (m.get? p).map (p, ·)

end PolicySettings

structure PolicyFrame where
  settings : PolicySettings := {}
  weak : Bool := false
  deriving DecidableEq, Repr, Inhabited

abbrev PolicyFrames := Arena PolicyFrame

namespace PolicyFrames

/-- The setting seen from a frame: the nearest one on the way to the root. -/
def setting? (a : PolicyFrames) (frame : Nat) (p : Policy) : Option PolicyStatus :=
  (a.ancestors frame).findSome? fun (_, f) => f.settings.get? p

def reach : List (Nat × PolicyFrame) → List Nat
  | [] => []
  | (id, f) :: rest => if f.weak then id :: reach rest else [id]

def write (a : PolicyFrames) (frame : Nat) (p : Policy) (status : PolicyStatus) : PolicyFrames :=
  (reach (a.ancestors frame)).foldl
    (fun acc id => acc.modify id fun f => { f with settings := f.settings.set p status }) a

def flatten (a : PolicyFrames) (frame : Nat) : PolicySettings :=
  Policy.all.foldl
    (fun acc p =>
      match a.setting? frame p with
      | some status => acc.set p status
      | none => acc) {}

end PolicyFrames
end CMakeScript
