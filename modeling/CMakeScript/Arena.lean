/-! Nodes that point at their parents. A node is named by its position, counted from one; zero is
the root above all nodes. A node is dropped only while it is the last one, so names given out
earlier keep their nodes. -/
namespace CMakeScript

structure Arena (α : Type) where
  nodes : Array (Nat × α) := #[]

namespace Arena

variable {α : Type}

def empty : Arena α := ⟨#[]⟩

instance : Inhabited (Arena α) := ⟨empty⟩

def size (a : Arena α) : Nat := a.nodes.size

def node? (a : Arena α) (id : Nat) : Option (Nat × α) :=
  if id = 0 then none else a.nodes[id - 1]?

def get? (a : Arena α) (id : Nat) : Option α := (a.node? id).map Prod.snd

def contains (a : Arena α) (id : Nat) : Bool := (a.node? id).isSome

def parent (a : Arena α) (id : Nat) : Nat := ((a.node? id).map Prod.fst).getD 0

def isLast (a : Arena α) (id : Nat) : Bool := id != 0 && id == a.size

def push (a : Arena α) (parent : Nat) (value : α) : Arena α × Nat :=
  let nodes := a.nodes.push (parent, value)
  (⟨nodes⟩, nodes.size)

def pop (a : Arena α) (id : Nat) : Arena α × Nat :=
  let up := a.parent id
  if a.isLast id then (⟨a.nodes.pop⟩, up) else (a, up)

def modify (a : Arena α) (id : Nat) (f : α → α) : Arena α :=
  if id = 0 then a else ⟨a.nodes.modify (id - 1) fun (up, value) => (up, f value)⟩

def set (a : Arena α) (id : Nat) (value : α) : Arena α := a.modify id fun _ => value

def ancestorsWithin (a : Arena α) : Nat → Nat → List (Nat × α)
  | 0, _ => []
  | fuel + 1, id =>
    match a.node? id with
    | none => []
    | some (up, value) => (id, value) :: a.ancestorsWithin fuel up

/-- The nodes from `id` towards the root, the root itself excluded. A way without repetition has
at most as many nodes as the arena. -/
def ancestors (a : Arena α) (id : Nat) : List (Nat × α) := a.ancestorsWithin a.size id

end Arena
end CMakeScript
