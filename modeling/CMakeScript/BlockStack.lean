import CMakeScript.Backtrace
/-! Blocks that are being recorded. The innermost open block takes every command until its closing
command arrives; commands that open a block of the same kind nest. Barriers separate the blocks of
nested executions. -/
namespace CMakeScript

structure OpenBlock (α : Type) where
  block : α
  opens : String
  closes : String
  opened : Frame
  depth : Nat := 1
  recorded : List Command := []
  deriving DecidableEq, Repr

namespace OpenBlock

def body {α : Type} (b : OpenBlock α) : List Command := b.recorded.reverse

end OpenBlock

structure BlockStack (α : Type) where
  /-- Open blocks, the innermost first. -/
  blocks : List (OpenBlock α) := []
  barriers : List Nat := []
  deriving DecidableEq, Repr

instance {α : Type} : Inhabited (BlockStack α) := ⟨{}⟩

inductive Capture (α : Type) where
  | notBlocked
  | recorded
  | closed (block : OpenBlock α)
  deriving DecidableEq, Repr

namespace BlockStack

variable {α : Type}

def push (s : BlockStack α) (block : α) (opens closes : String) (opened : Frame) :
    BlockStack α :=
  { s with blocks := ⟨block, opens, closes, opened, 1, []⟩ :: s.blocks }

def depthAfter (b : OpenBlock α) (name : String) : Nat :=
  if name = b.opens then b.depth + 1
  else if name = b.closes then b.depth - 1
  else b.depth

def offer (s : BlockStack α) (command : Command) : BlockStack α × Capture α :=
  match s.blocks with
  | [] => (s, .notBlocked)
  | top :: below =>
    let name := command.lowerName
    let depth := depthAfter top name
    if name ≠ top.opens ∧ name = top.closes ∧ depth = 0 then
      ({ s with blocks := below }, .closed { top with depth := 0 })
    else
      ({ s with blocks :=
          { top with depth := depth, recorded := command :: top.recorded } :: below },
        .recorded)

def pushBarrier (s : BlockStack α) : BlockStack α :=
  { s with barriers := s.blocks.length :: s.barriers }

def popBarrier (s : BlockStack α) : BlockStack α × List (OpenBlock α) :=
  let barrier := s.barriers.headD 0
  let unclosed := s.blocks.length - barrier
  (⟨s.blocks.drop unclosed, s.barriers.tail⟩, s.blocks.take unclosed)

end BlockStack
end CMakeScript
