import CMakeScript.BlockStack
import Mathlib.Data.List.Basic
/-! What an open block takes out of a sequence of commands. It is closed by the first closing
command that has no opening command of its own in front of it; until then every command is kept,
also those that open and close blocks of other kinds. -/
namespace CMakeScript

namespace Command

def countNamed (name : String) (commands : List Command) : Nat :=
  commands.countP (·.lowerName == name)

variable {name : String}

@[simp] theorem countNamedNil : countNamed name [] = 0 := rfl

@[simp] theorem countNamedCons (c : Command) (commands : List Command) :
    countNamed name (c :: commands) =
      countNamed name commands + if c.lowerName = name then 1 else 0 := by
  simp [countNamed, List.countP_cons]

@[simp] theorem countNamedAppend (front back : List Command) :
    countNamed name (front ++ back) = countNamed name front + countNamed name back :=
  List.countP_append

end Command

open Command

namespace OpenBlock

variable {α : Type}

def ClosedBy (b : OpenBlock α) (commands : List Command) : Prop :=
  countNamed b.opens commands < countNamed b.closes commands

instance (b : OpenBlock α) (commands : List Command) : Decidable (b.ClosedBy commands) :=
  Nat.decLt _ _

def closingPlace? (b : OpenBlock α) (commands : List Command) : Option Nat :=
  (List.range commands.length).find? fun place => b.ClosedBy (commands.take (place + 1))

def taking (b : OpenBlock α) (commands : List Command) : OpenBlock α :=
  { b with
    depth := b.depth + countNamed b.opens commands - countNamed b.closes commands
    recorded := commands.reverse ++ b.recorded }

@[simp] theorem takingBody (b : OpenBlock α) (commands : List Command) :
    (b.taking commands).body = b.body ++ commands := by
  simp [taking, body]

def Outlasts (b : OpenBlock α) (commands : List Command) : Prop :=
  ∀ front, front <+: commands → countNamed b.closes front < b.depth + countNamed b.opens front

variable {b : OpenBlock α} {c : Command} {commands : List Command}

theorem Outlasts.first (outlasts : b.Outlasts (c :: commands)) :
    (if c.lowerName = b.closes then 1 else 0) <
      b.depth + if c.lowerName = b.opens then 1 else 0 := by
  simpa using outlasts [c] ⟨commands, rfl⟩

theorem Outlasts.rest (outlasts : b.Outlasts (c :: commands)) :
    (b.taking [c]).Outlasts commands := by
  intro front starts
  have whole := outlasts (c :: front) (List.cons_prefix_cons.mpr ⟨rfl, starts⟩)
  have here := outlasts.first
  simp only [countNamedCons, taking, countNamedNil, Nat.zero_add] at whole ⊢
  omega

theorem takingCons (outlasts : b.Outlasts (c :: commands)) :
    (b.taking [c]).taking commands = b.taking (c :: commands) := by
  have here := outlasts.first
  have depth : b.depth + (if c.lowerName = b.opens then 1 else 0) -
      (if c.lowerName = b.closes then 1 else 0) + countNamed b.opens commands -
        countNamed b.closes commands =
      b.depth + (countNamed b.opens commands + if c.lowerName = b.opens then 1 else 0) -
        (countNamed b.closes commands + if c.lowerName = b.closes then 1 else 0) := by
    omega
  simp [taking, depth]

theorem outlastsTake (outermost : b.depth = 1) {place : Nat} (bound : place ≤ commands.length)
    (stays : ∀ earlier < place, ¬b.ClosedBy (commands.take (earlier + 1))) :
    b.Outlasts (commands.take place) := by
  intro front starts
  have short : front.length ≤ place := by
    simpa [List.length_take_of_le bound] using starts.length_le
  have same : front = commands.take front.length := by
    have cut := List.prefix_iff_eq_take.mp starts
    rwa [List.take_take, Nat.min_eq_left short] at cut
  cases length : front.length with
  | zero => simp [List.length_eq_zero_iff.mp length, outermost]
  | succ earlier =>
    have opened := stays earlier (by omega)
    rw [← length, ← same, ClosedBy] at opened
    omega

end OpenBlock

namespace BlockStack

variable {α : Type}

def offerAll (s : BlockStack α) : List Command → BlockStack α × List (Capture α)
  | [] => (s, [])
  | c :: rest =>
    let (s, capture) := s.offer c
    let (s, captures) := s.offerAll rest
    (s, capture :: captures)

theorem offerAllAppend (s : BlockStack α) (front back : List Command) :
    s.offerAll (front ++ back) =
      let (s', captures) := s.offerAll front
      let (s'', more) := s'.offerAll back
      (s'', captures ++ more) := by
  induction front generalizing s with
  | nil => rfl
  | cons c front ih => simp [offerAll, ih]

@[simp] theorem offerAllLength (s : BlockStack α) (commands : List Command) :
    (s.offerAll commands).2.length = commands.length := by
  induction commands generalizing s with
  | nil => rfl
  | cons c rest ih => simp [offerAll, ih]

variable {s : BlockStack α} {top : OpenBlock α} {below : List (OpenBlock α)} {c : Command}

theorem offerTaken (found : s.blocks = top :: below) (apart : top.opens ≠ top.closes)
    (stays : (if c.lowerName = top.closes then 1 else 0) <
      top.depth + if c.lowerName = top.opens then 1 else 0) :
    s.offer c = ({ s with blocks := top.taking [c] :: below }, .recorded) := by
  unfold offer
  rw [found]
  dsimp only [depthAfter]
  by_cases opening : c.lowerName = top.opens
  · have notClosing : c.lowerName ≠ top.closes := opening ▸ apart
    simp [opening, apart, OpenBlock.taking]
  · by_cases closing : c.lowerName = top.closes
    · simp only [if_pos closing, if_neg opening] at stays
      have deeper : top.depth - 1 ≠ 0 := by omega
      simp [closing, Ne.symm apart, deeper, OpenBlock.taking]
    · simp [opening, closing, OpenBlock.taking]

theorem offerClosing (found : s.blocks = top :: below) (apart : top.opens ≠ top.closes)
    (closing : c.lowerName = top.closes) (outermost : top.depth = 1) :
    s.offer c = ({ s with blocks := below }, .closed { top with depth := 0 }) := by
  simp [offer, found, depthAfter, closing, Ne.symm apart, outermost]

theorem offerAllTaken (found : s.blocks = top :: below) (apart : top.opens ≠ top.closes)
    {commands : List Command} (outlasts : top.Outlasts commands) :
    s.offerAll commands = ({ s with blocks := top.taking commands :: below },
      List.replicate commands.length .recorded) := by
  induction commands generalizing s top with
  | nil => simp [offerAll, OpenBlock.taking, ← found]
  | cons c rest ih =>
    have first := offerTaken found apart outlasts.first
    have later := ih (s := { s with blocks := top.taking [c] :: below }) rfl apart outlasts.rest
    rw [offerAll, first]
    dsimp only
    rw [later, OpenBlock.takingCons outlasts]
    rfl

end BlockStack

namespace OpenBlock

variable {α : Type} {b : OpenBlock α} {commands : List Command}

theorem closingPlaceSome {place : Nat} (first : b.closingPlace? commands = some place) :
    place < commands.length ∧ b.ClosedBy (commands.take (place + 1)) ∧
      ∀ earlier < place, ¬b.ClosedBy (commands.take (earlier + 1)) := by
  obtain ⟨closes, inside, before⟩ := List.find?_range_eq_some.mp first
  exact ⟨List.mem_range.mp inside, of_decide_eq_true closes, fun earlier bound => by
    simpa using before earlier bound⟩

theorem closingPlaceNone (never : b.closingPlace? commands = none) :
    ∀ place < commands.length, ¬b.ClosedBy (commands.take (place + 1)) := by
  simpa [closingPlace?] using never

theorem closedHere {front : List Command} {c : Command} (outermost : b.depth = 1)
    (apart : b.opens ≠ b.closes) (outlasts : b.Outlasts front)
    (closed : b.ClosedBy (front ++ [c])) :
    c.lowerName = b.closes ∧ countNamed b.closes front = countNamed b.opens front := by
  have opened := outlasts front List.prefix_rfl
  simp only [ClosedBy, countNamedAppend, countNamedCons, countNamedNil] at closed
  by_cases closing : c.lowerName = b.closes
  · simp only [closing, Ne.symm apart, if_true, if_false] at closed
    exact ⟨closing, by omega⟩
  · simp only [closing, if_false] at closed
    omega

end OpenBlock

namespace BlockStack

variable {α : Type}

/-- The commands in front of the place where the block is closed are in it, and nothing is done to
the blocks below it. -/
theorem capturesUpToClosing {s : BlockStack α} {top : OpenBlock α} {below : List (OpenBlock α)}
    (found : s.blocks = top :: below) (apart : top.opens ≠ top.closes) (outermost : top.depth = 1)
    (commands : List Command) :
    match top.closingPlace? commands with
    | some place =>
      ∃ closed, s.offerAll (commands.take (place + 1)) = ({ s with blocks := below },
        List.replicate place .recorded ++ [.closed closed]) ∧
      closed.block = top.block ∧ closed.opened = top.opened ∧
      closed.body = top.body ++ commands.take place
    | none =>
      ∃ still, s.offerAll commands = ({ s with blocks := still :: below },
        List.replicate commands.length .recorded) ∧
      still.block = top.block ∧ still.opened = top.opened ∧ still.body = top.body ++ commands := by
  cases first : top.closingPlace? commands with
  | none =>
    have never := OpenBlock.closingPlaceNone first
    have outlasts := OpenBlock.outlastsTake outermost (Nat.le_refl commands.length) never
    rw [List.take_length] at outlasts
    exact ⟨top.taking commands, offerAllTaken found apart outlasts, rfl, rfl, top.takingBody _⟩
  | some place =>
    obtain ⟨inside, closes, before⟩ := OpenBlock.closingPlaceSome first
    have outlasts := OpenBlock.outlastsTake outermost (Nat.le_of_lt inside) before
    dsimp only
    rw [List.take_succ_eq_append_getElem inside] at closes ⊢
    obtain ⟨closing, paired⟩ := OpenBlock.closedHere outermost apart outlasts closes
    have taken := offerAllTaken found apart outlasts
    have depth : (top.taking (commands.take place)).depth = 1 := by
      simp only [OpenBlock.taking, paired, outermost, Nat.add_sub_cancel]
    have last := offerClosing (s := { s with blocks := top.taking (commands.take place) :: below })
      rfl apart closing depth
    refine ⟨{ top.taking (commands.take place) with depth := 0 }, ?_, rfl, rfl, top.takingBody _⟩
    rw [offerAllAppend, taken]
    dsimp only [offerAll]
    rw [last, List.length_take_of_le (Nat.le_of_lt inside)]

theorem branchKeepsInnerBlocks :
    let names := ["set", "foreach", "IF", "endif", "endforeach", "EndIf", "set"]
    let commands : List Command := names.map fun name => { name, line := 1, lineEnd := 1 }
    let outer : OpenBlock Bool := ⟨true, "foreach", "endforeach", {}, 1, []⟩
    let inner : OpenBlock Bool := ⟨false, "if", "endif", {}, 1, []⟩
    let s : BlockStack Bool := ⟨[inner, outer], [1, 0]⟩
    inner.opens ≠ inner.closes ∧ ∃ closed,
      s.offerAll (commands.take 6) = (⟨[outer], [1, 0]⟩,
        [.recorded, .recorded, .recorded, .recorded, .recorded, .closed closed]) ∧
      closed.block = false ∧
      closed.body.map Command.name = ["set", "foreach", "IF", "endif", "endforeach"] := by
  intro names commands outer inner s
  have apart : inner.opens ≠ inner.closes := by decide
  have captured := capturesUpToClosing (s := s) rfl apart rfl commands
  have place : inner.closingPlace? commands = some 5 := by decide +kernel
  rw [place] at captured
  obtain ⟨closed, offered, block, -, body⟩ := captured
  refine ⟨apart, closed, offered, block, ?_⟩
  rw [body]
  rfl

end BlockStack
end CMakeScript
