import CMakeScript.Proofs.ListFilePlaces
/-! What is read is well formed. Where nothing can be read of an argument the parser does not come
any further, and a text that ends inside of a command is refused. -/
namespace CMakeScript

open Lexeme

theorem Except.okOfBind {ε α β : Type} {m : Except ε α} {next : α → Except ε β} {b : β}
    (ran : m >>= next = .ok b) : ∃ a, m = .ok a ∧ next a = .ok b := by
  cases m with
  | error => cases ran
  | ok a => exact ⟨a, rfl, ran⟩

namespace Cursor

theorem skipSeparationAgain {newlines : Bool} {fuel : Nat} {c c' : Cursor}
    (enough : c.rest.length ≤ fuel) (skipped : c.skipSeparation newlines fuel = .ok c') :
    c'.skipSeparation newlines c'.rest.length = .ok c' := by
  induction fuel generalizing c with
  | zero =>
    have none : c.rest = [] := List.length_eq_zero_iff.mp (Nat.le_zero.mp enough)
    cases skipped
    rw [none]
    rfl
  | succ fuel ih =>
    rw [skipSeparation] at skipped
    split at skipped
    · rename_i none
      cases skipped
      rw [none]
      rfl
    · rename_i d rest here
      rw [here, List.length_cons] at enough
      split at skipped
      · exact ih (Nat.le_of_succ_le_succ enough) skipped
      · rename_i apart
        split at skipped
        · rename_i hash
          have comment := skipCommentPlaced (Reaches.refl c) (by rw [here, hash]; rfl)
          obtain ⟨c₁, passed, skipped⟩ := Except.okOfBind skipped
          rw [passed] at comment
          have shorter := Passes.shorter comment
          rw [here, List.length_cons] at shorter
          exact ih (by omega) skipped
        · rename_i notHash
          cases skipped
          rw [here, List.length_cons, skipSeparation, here]
          dsimp only
          rw [if_neg apart, if_neg notHash]

theorem argumentsStuck {start c : Cursor} {fuel depth : Nat} {found : List Argument} {a : Argument}
    {read : List Argument × Cursor} (stays : c.skipSeparation true c.rest.length = .ok c)
    (nothing : c.argument = .ok (a, c)) (notOpen : ∀ rest, c.rest ≠ '(' :: rest)
    (notClose : ∀ rest, c.rest ≠ ')' :: rest) :
    Cursor.arguments start fuel depth found c ≠ .ok read := by
  induction fuel generalizing found with
  | zero => simp [Cursor.arguments]
  | succ fuel ih =>
    rw [Cursor.arguments, stays]
    dsimp only [bind, Except.bind]
    split
    · exact fun same => by cases same
    · exact absurd ‹_› (notClose _)
    · exact absurd ‹_› (notOpen _)
    · rw [nothing]
      exact ih

theorem argumentReads {c c' : Cursor} {a : Argument} (read : c.argument = .ok (a, c'))
    (moves : c' ≠ c) (more : c'.rest ≠ []) (notOpen : c.rest.head? ≠ some '(')
    (notClose : c.rest.head? ≠ some ')') :
    a.WellFormed ∧ ¬a.IsMark "(" ∧ ¬a.IsMark ")" := by
  unfold argument at read
  dsimp only at read
  split at read
  · split at read
    · rename_i body rest quoted
      cases read
      refine ⟨?_, nofun, nofun⟩
      simpa [Argument.WellFormed] using joinLinesSpan (quotedBodyTakes quoted).1
    · cases read
  · rename_i notQuote
    split at read
    · split at read
      · cases read
        exact ⟨trivial, nofun, nofun⟩
      · cases read
    · rename_i closed
      split at read
      · cases read
      · rename_i body rest taken
        cases read
        have whole := unquotedSplits taken
        have occupied : body ≠ [] := by
          rintro rfl
          exact moves (by rw [past, ← show c.rest = rest from whole]; rfl)
        have opening {mark : Char} (same : String.ofList body = String.ofList [mark]) :
            c.rest.head? = some mark := by
          rw [whole, String.ofList_injective same]
          rfl
        refine ⟨.inr (.inr ?_), fun mark => notOpen (opening mark.2),
          fun mark => notClose (opening mark.2)⟩
        rw [String.toList_ofList]
        refine ⟨occupied, unquotedTakes taken more, fun quote => ?_, fun level mark => ?_⟩
        · obtain ⟨body, rfl⟩ := List.head?_eq_some_iff.mp quote
          exact notQuote _ whole
        · exact bracketOpenNone.mp closed level (whole ▸ mark.trans (List.prefix_append ..))

theorem argumentsAtEnd {start c : Cursor} {fuel depth : Nat} {found : List Argument}
    {read : List Argument × Cursor} (none : c.rest = []) :
    Cursor.arguments start fuel depth found c ≠ .ok read := by
  intro ran
  cases fuel with
  | zero => cases ran
  | succ fuel =>
    rw [Cursor.arguments, none] at ran
    obtain ⟨c₁, skipped, ran⟩ := Except.okOfBind ran
    cases skipped
    simp [none] at ran

theorem argumentsReads {start c done : Cursor} {fuel depth : Nat} {found arguments : List Argument}
    (read : Cursor.arguments start fuel depth found c = .ok (arguments, done)) :
    ∃ more, arguments = found.reverse ++ more ∧ (∀ a ∈ more, a.WellFormed) ∧
      Argument.Nested depth more := by
  induction fuel generalizing depth found c with
  | zero => cases read
  | succ fuel ih =>
    rw [Cursor.arguments] at read
    obtain ⟨c₁, skipped, read⟩ := Except.okOfBind read
    have joined {a : Argument} {more : List Argument} :
        (a :: found).reverse ++ more = found.reverse ++ a :: more := by simp
    dsimp only at read
    split at read
    · cases read
    · split at read
      · rename_i outermost
        cases read
        subst outermost
        exact ⟨[], by simp, List.forall_mem_nil _, .nil⟩
      · obtain ⟨more, rfl, wellFormed, nested⟩ := ih read
        refine ⟨_ :: more, joined, List.forall_mem_cons.mpr ⟨.inr (.inl rfl), wellFormed⟩, ?_⟩
        obtain ⟨depth, rfl⟩ := Nat.exists_eq_succ_of_ne_zero ‹depth ≠ 0›
        exact .closed ⟨rfl, rfl⟩ nested
    · obtain ⟨more, rfl, wellFormed, nested⟩ := ih read
      exact ⟨_ :: more, joined, List.forall_mem_cons.mpr ⟨.inl rfl, wellFormed⟩,
        .opened ⟨rfl, rfl⟩ nested⟩
    · rename_i occupied notClose notOpen
      obtain ⟨⟨a, c₂⟩, one, later⟩ := Except.okOfBind read
      have moves : c₂ ≠ c₁ := fun same => by
        subst same
        exact argumentsStuck (skipSeparationAgain (Nat.le_refl _) skipped) one notOpen notClose later
      obtain ⟨more, rfl, wellFormed, nested⟩ := ih later
      have ends : c₂.rest ≠ [] := fun none => argumentsAtEnd none later
      obtain ⟨valid, unopened, unclosed⟩ := argumentReads one moves ends
        (fun mark => (List.head?_eq_some_iff.mp mark).elim notOpen)
        (fun mark => (List.head?_eq_some_iff.mp mark).elim notClose)
      exact ⟨_ :: more, joined, List.forall_mem_cons.mpr ⟨valid, wellFormed⟩,
        .other unopened unclosed nested⟩

theorem commandReads {c c' : Cursor} {command : Command} (read : c.command = .ok (command, c')) :
    command.WellFormed := by
  unfold Cursor.command at read
  split at read
  · cases read
  · rename_i name rest named
    dsimp only at read
    split at read
    · rename_i inside opened
      obtain ⟨⟨arguments, done⟩, inner, same⟩ := Except.okOfBind read
      cases same
      obtain ⟨_, rfl, wellFormed, nested⟩ := argumentsReads inner
      exact ⟨by simpa using (nameTakes named).1, wellFormed, nested⟩
    · cases read

theorem commandsRead {fuel : Nat} {found commands : List Command} {c : Cursor}
    (read : Cursor.commands fuel found c = .ok commands)
    (before : ∀ command ∈ found, command.WellFormed) :
    ∀ command ∈ commands, command.WellFormed := by
  induction fuel generalizing found c with
  | zero => cases read
  | succ fuel ih =>
    rw [Cursor.commands] at read
    obtain ⟨c₁, -, read⟩ := Except.okOfBind read
    dsimp only at read
    split at read
    · cases read
      simpa using before
    · obtain ⟨⟨command, c₂⟩, one, read⟩ := Except.okOfBind read
      obtain ⟨c₃, -, read⟩ := Except.okOfBind read
      exact ih read (List.forall_mem_cons.mpr ⟨commandReads one, before⟩)

end Cursor
end CMakeScript
