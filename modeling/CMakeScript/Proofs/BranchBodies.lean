import CMakeScript.Execution.BranchBody
import CMakeScript.Proofs.BlockCapture
/-! Every block that is closed has as many closing commands in it as opening ones, and what a branch
takes up to its closing command falls into the parts of a branch. -/
namespace CMakeScript
open Command

namespace OpenBlock

variable {α : Type} {b : OpenBlock α} {c : Command} {commands : List Command}

theorem Outlasts.none (opened : 0 < b.depth) : b.Outlasts [] := by
  intro front starts
  rw [List.prefix_nil.mp starts]
  exact opened

theorem Outlasts.cons (opened : 0 < b.depth)
    (here : (if c.lowerName = b.closes then 1 else 0) <
      b.depth + if c.lowerName = b.opens then 1 else 0)
    (rest : (b.taking [c]).Outlasts commands) : b.Outlasts (c :: commands) := by
  intro front starts
  cases front with
  | nil => exact opened
  | cons d front =>
    obtain ⟨rfl, inner⟩ := List.cons_prefix_cons.mp starts
    have later := rest front inner
    simp only [countNamedCons, taking, countNamedNil, Nat.zero_add] at later ⊢
    omega

end OpenBlock

namespace BlockStack

variable {α : Type} {s : BlockStack α} {top b : OpenBlock α} {below : List (OpenBlock α)}
  {c : Command} {commands : List Command}

theorem offerOpenCases (found : s.blocks = top :: below) (apart : top.opens ≠ top.closes)
    (opened : 0 < top.depth) (c : Command) :
    ((if c.lowerName = top.closes then 1 else 0) <
        top.depth + (if c.lowerName = top.opens then 1 else 0) ∧
      s.offer c = ({ s with blocks := top.taking [c] :: below }, .recorded)) ∨
    (c.lowerName = top.closes ∧ top.depth = 1 ∧
      s.offer c = ({ s with blocks := below }, .closed { top with depth := 0 })) := by
  by_cases stays : (if c.lowerName = top.closes then 1 else 0) <
      top.depth + if c.lowerName = top.opens then 1 else 0
  · exact .inl ⟨stays, offerTaken found apart stays⟩
  · by_cases closing : c.lowerName = top.closes
    · simp only [closing, Ne.symm apart, if_true, if_false] at stays
      have outermost : top.depth = 1 := by omega
      exact .inr ⟨closing, outermost, offerClosing found apart closing outermost⟩
    · simp only [closing, if_false] at stays
      omega

theorem recordedOutlasts (found : s.blocks = top :: below) (apart : top.opens ≠ top.closes)
    (opened : 0 < top.depth)
    (recorded : (s.offerAll commands).2 = List.replicate commands.length .recorded) :
    top.Outlasts commands := by
  induction commands generalizing s top with
  | nil => exact .none opened
  | cons c rest ih =>
    rw [offerAll, List.length_cons, List.replicate_succ] at recorded
    obtain ⟨stays, offered⟩ | ⟨-, -, offered⟩ := offerOpenCases found apart opened c
    · rw [offered] at recorded
      have still : 0 < (top.taking [c]).depth := by
        simp only [OpenBlock.taking, countNamedCons, countNamedNil]
        omega
      have later := ih (s := { s with blocks := top.taking [c] :: below }) rfl apart still
        (List.cons.inj recorded).2
      exact .cons opened stays later
    · rw [offered] at recorded
      cases (List.cons.inj recorded).1

theorem closedAfter (found : s.blocks = top :: below) (apart : top.opens ≠ top.closes)
    (opened : 0 < top.depth) (captured : (s.offerAll (commands ++ [c])).2 =
      List.replicate commands.length .recorded ++ [.closed b]) :
    top.Outlasts commands ∧ (top.taking commands).depth = 1 ∧
      b = { top.taking commands with depth := 0 } := by
  rw [offerAllAppend] at captured
  obtain ⟨recorded, last⟩ := List.append_inj captured (by simp)
  have outlasts := recordedOutlasts found apart opened recorded
  rw [offerAllTaken found apart outlasts] at last
  have still : 0 < (top.taking commands).depth := by
    have whole := outlasts commands List.prefix_rfl
    simp only [OpenBlock.taking]
    omega
  obtain ⟨-, offered⟩ | ⟨-, outermost, offered⟩ := offerOpenCases
    (s := { s with blocks := top.taking commands :: below }) rfl apart still c
  · simp [offerAll, offered] at last
  · simp only [offerAll, offered, List.cons.injEq, Capture.closed.injEq, and_true] at last
    exact ⟨outlasts, outermost, last.symm⟩

end BlockStack

namespace Command

structure ClosesBranches (depth : Nat) (commands : List Command) : Prop where
  before : ∀ front, front <+: commands →
    countNamed "endif" front ≤ depth + countNamed "if" front
  whole : countNamed "endif" commands = depth + countNamed "if" commands

variable {depth : Nat} {c : Command} {commands : List Command}

theorem ClosesBranches.next (closes : ClosesBranches depth (c :: commands)) :
    ClosesBranches (depth + (if c.lowerName = "if" then 1 else 0) -
      if c.lowerName = "endif" then 1 else 0) commands := by
  have first : (if c.lowerName = "endif" then 1 else 0) ≤
      depth + if c.lowerName = "if" then 1 else 0 := by
    simpa using closes.before [c] ⟨commands, rfl⟩
  constructor
  · intro front starts
    have through := closes.before (c :: front) (List.cons_prefix_cons.mpr ⟨rfl, starts⟩)
    simp only [countNamedCons] at through
    omega
  · have through := closes.whole
    simp only [countNamedCons] at through
    omega

theorem ClosesBranches.cutsPart (closes : ClosesBranches depth commands) :
    ∃ part rest, commands = part ++ rest ∧ Inside depth part ∧
      (∀ c ∈ rest.head?, c.StartsPart) ∧ ClosesBranches 0 rest := by
  induction commands generalizing depth with
  | nil =>
    have none : depth = 0 := by simpa using closes.whole.symm
    subst none
    exact ⟨[], [], rfl, .nil, nofun, closes⟩
  | cons c commands ih =>
    have next := closes.next
    by_cases opening : c.lowerName = "if"
    · simp only [opening, if_true, String.reduceEq, if_false, Nat.sub_zero] at next
      obtain ⟨part, rest, rfl, inside, starts, later⟩ := ih next
      exact ⟨c :: part, rest, rfl, .opens opening inside, starts, later⟩
    · by_cases closing : c.lowerName = "endif"
      · have first := closes.before [c] ⟨commands, rfl⟩
        simp only [countNamedCons, countNamedNil, closing, if_true, String.reduceEq, if_false]
          at first
        obtain ⟨depth, rfl⟩ : ∃ outer, depth = outer + 1 := ⟨depth - 1, by omega⟩
        simp only [closing, if_true, String.reduceEq, if_false] at next
        obtain ⟨part, rest, rfl, inside, starts, later⟩ := ih next
        exact ⟨c :: part, rest, rfl, .closes closing inside, starts, later⟩
      · by_cases own : depth = 0 ∧ c.StartsPart
        · obtain ⟨rfl, starts⟩ := own
          exact ⟨[], c :: commands, rfl, .nil, by simpa using starts, closes⟩
        · simp only [opening, closing, if_false, Nat.sub_zero, Nat.add_zero] at next
          obtain ⟨part, rest, rfl, inside, starts, later⟩ := ih next
          have belongs : c.StartsPart → 0 < depth := fun starts =>
            Nat.pos_of_ne_zero fun none => own ⟨none, starts⟩
          exact ⟨c :: part, rest, rfl, .other ⟨opening, closing⟩ belongs inside, starts, later⟩

end Command

namespace BranchBody

theorem partsExist {n : Nat} {commands : List Command} (short : commands.length ≤ n)
    (starts : ∀ c ∈ commands.head?, c.StartsPart) (closes : ClosesBranches 0 commands) :
    ∃ (alternatives : List (BranchPart "elseif")) (otherwise : Option LastPart),
      alternatives.flatMap (·.all) ++ otherwise.elim [] (·.all) = commands := by
  induction n generalizing commands with
  | zero =>
    have empty := List.length_eq_zero_iff.mp (Nat.le_zero.mp short)
    exact ⟨[], none, by simp [empty]⟩
  | succ n ih =>
    cases commands with
    | nil => exact ⟨[], none, rfl⟩
    | cons c commands =>
      have own : c.StartsPart := starts c rfl
      have next := closes.next
      have apart : c.lowerName ≠ "if" ∧ c.lowerName ≠ "endif" := by
        obtain named | named := own <;> rw [named] <;> decide
      simp only [apart.1, apart.2, if_false, Nat.sub_zero, Nat.add_zero] at next
      obtain ⟨part, rest, rfl, inside, starts, later⟩ := next.cutsPart
      obtain named | named := own
      · exact ⟨[], some ⟨⟨c, named, part, inside⟩, rest, starts⟩, by
          simp [LastPart.all, BranchPart.all]⟩
      · simp only [List.length_cons, List.length_append] at short
        obtain ⟨alternatives, otherwise, same⟩ := ih (by omega) starts later
        exact ⟨⟨c, named, part, inside⟩ :: alternatives, otherwise, by
          simp [BranchPart.all, ← same]⟩

theorem bodyExists {commands : List Command} (closes : ClosesBranches 0 commands) :
    ∃ body : BranchBody, body.commands = commands := by
  obtain ⟨first, rest, rfl, inside, starts, later⟩ := closes.cutsPart
  obtain ⟨alternatives, otherwise, same⟩ := partsExist (Nat.le_refl _) starts later
  exact ⟨⟨first, inside, alternatives, otherwise⟩, by rw [BranchBody.commands, ending, same]⟩

theorem takenBodyExists {s : BlockStack Block} {block : Block} {opened : Frame}
    {commands : List Command} {closing : Command} {b : OpenBlock Block}
    (captured : ((s.push block "if" "endif" opened).offerAll (commands ++ [closing])).2 =
      List.replicate commands.length .recorded ++ [.closed b]) :
    b.block = block ∧ b.opened = opened ∧ b.body = commands ∧
      ∃ body : BranchBody, body.commands = commands := by
  have apart : "if" ≠ "endif" := by decide
  obtain ⟨outlasts, depth, rfl⟩ := BlockStack.closedAfter rfl apart Nat.one_pos captured
  refine ⟨rfl, rfl, by simp [OpenBlock.taking, OpenBlock.body],
    bodyExists ⟨fun front starts => ?_, ?_⟩⟩
  · have here := outlasts front starts
    dsimp only at here
    omega
  · have whole := outlasts commands List.prefix_rfl
    simp only [OpenBlock.taking] at depth whole
    omega

end BranchBody
end CMakeScript
