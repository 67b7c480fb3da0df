import CMakeScript.ListFile.Rounds
import CMakeScript.Proofs.ListFilePlaces
import CMakeScript.Proofs.ListFileWriting
/-! Parsing comes to an end. Every round of its loops takes some of the text, unless an argument
starts with a blank that does not separate arguments; the bounds of the loops are never reached
where there is no such blank. -/
namespace CMakeScript

open Lexeme

theorem Round.UsesUp.last {σ β : Type} {round : σ → Round σ β} {left : σ → List Char} {s : σ}
    {b : β} (ended : UsesUp round left s b) : ∃ s', left s' <:+ left s ∧ round s' = .done b := by
  induction ended with
  | done ends => exact ⟨_, List.suffix_rfl, ends⟩
  | again _ _ split _ ih =>
    obtain ⟨s', inside, ends⟩ := ih
    exact ⟨s', split ▸ inside.trans (List.suffix_append _ _), ends⟩

/-- The blanks of the text are those that separate arguments. -/
def PlainBlanks (text : List Char) : Prop :=
  ∀ c ∈ text, Text.isBlank c = true → isSpace c = true ∨ isLineEnd c = true

instance (text : List Char) : Decidable (PlainBlanks text) := List.decidableBAll _ text

theorem PlainBlanks.suffix {text rest : List Char} (plain : PlainBlanks text)
    (ends : rest <:+ text) : PlainBlanks rest :=
  fun c member => plain c (ends.subset member)

theorem PlainBlanks.markDropped {text : List Char} (plain : PlainBlanks text) :
    PlainBlanks (dropByteOrderMark text) := by
  cases text with
  | nil => exact plain
  | cons c text =>
    rw [dropByteOrderMark]
    split
    · exact plain.suffix (List.suffix_cons c text)
    · exact plain

namespace Lexeme

theorem goesOn {c : Char} (blank : Text.isBlank c = true → isSpace c = true ∨ isLineEnd c = true)
    (apart : separates true c = false) (notOpen : c ≠ '(') (notClose : c ≠ ')') :
    endsUnquoted c = false := by
  simp only [separates, Bool.true_and, Bool.or_eq_false_iff, beq_eq_false_iff_ne] at apart
  have notBlank : Text.isBlank c = false := by
    cases found : Text.isBlank c with
    | false => rfl
    | true =>
      rcases blank found with space | line
      · rw [apart.1.1] at space
        cases space
      · rw [apart.1.2] at line
        cases line
  simp [endsUnquoted, notBlank, notOpen, notClose, apart.2]

theorem unquotedNothing {cs rest : List Char} (read : unquoted? false cs = some ([], rest)) :
    ∀ c ∈ cs.head?, endsUnquoted c = true := by
  unfold unquoted? at read
  split at read
  · nofun
  · simp at read
  · simp at read
  · split at read
    · simp at read
    · split at read
      · rename_i ends
        simpa using ends
      · simp at read

end Lexeme

namespace Cursor

variable {c : Cursor} {fuel : Nat}

theorem separationUsesUp (newlines : Bool) (enough : c.rest.length ≤ fuel) :
    Round.UsesUp (separationRound newlines) Cursor.rest c (c.skipSeparation newlines fuel) := by
  induction fuel generalizing c with
  | zero =>
    have none : c.rest = [] := List.length_eq_zero_iff.mp (Nat.le_zero.mp enough)
    exact .done (by rw [separationRound, none]; rfl)
  | succ fuel ih =>
    cases here : c.rest with
    | nil => exact .done (by rw [separationRound, skipSeparation, here])
    | cons d rest =>
      rw [here, List.length_cons] at enough
      rw [skipSeparation, here]
      dsimp only
      by_cases separator : (isSpace d || (newlines && isLineEnd d)) = true
      · have round : separationRound newlines c = .again (c.past [d] rest) := by
          simp [separationRound, here, separator]
        rw [if_pos separator]
        exact .again round (List.cons_ne_nil d []) here (ih (Nat.le_of_succ_le_succ enough))
      · rw [if_neg separator]
        by_cases hash : d = '#'
        · subst hash
          rw [if_pos rfl]
          have placed := skipCommentPlaced (Reaches.refl c) (by rw [here]; rfl)
          cases comment : c.skipComment with
          | error error =>
            exact .done (by simp [separationRound, here, separator, comment]; rfl)
          | ok c' =>
            rw [comment] at placed
            have passes : c.Passes c' := placed
            have shorter := passes.shorter
            rw [here, List.length_cons] at shorter
            have round : separationRound newlines c = .again c' := by
              simp [separationRound, here, separator, comment]
            obtain ⟨taken, some, split, -⟩ := passes
            exact .again round some split (ih (by omega))
        · rw [if_neg hash]
          exact .done (by simp [separationRound, here, separator, hash])

theorem separationStops {newlines : Bool} {c' : Cursor} (enough : c.rest.length ≤ fuel)
    (skipped : c.skipSeparation newlines fuel = .ok c') :
    ∀ d ∈ c'.rest.head?, separates newlines d = false := by
  have ended := separationUsesUp newlines enough
  rw [skipped] at ended
  obtain ⟨last, -, stops⟩ := ended.last
  unfold separationRound at stops
  split at stops
  · rename_i none
    cases stops
    rw [none]
    nofun
  · rename_i d rest here
    split at stops
    · cases stops
    · split at stops
      · split at stops
        · cases stops
        · cases stops
      · rename_i apart hash
        cases stops
        intro d member
        rw [here, List.head?_cons, Option.mem_some_iff] at member
        subst member
        simpa [separates, hash] using apart

theorem argumentPasses {a : Argument} {c' : Cursor} (read : c.argument = .ok (a, c'))
    (occupied : c.rest ≠ []) (goesOn : ∀ d ∈ c.rest.head?, endsUnquoted d = false) :
    c.Passes c' := by
  have placed := argumentPlaced (Reaches.refl c)
  rw [read] at placed
  obtain ⟨⟨taken, takes⟩, -⟩ := placed
  refine ⟨taken, ?_, takes⟩
  rintro rfl
  have stays : c'.rest = c.rest := takes.1.symm
  unfold argument at read
  dsimp only at read
  split at read
  · split at read
    · rename_i inside starts _ body rest quoted
      cases read
      have length := congrArg List.length (quotedBodyTakes quoted).2
      rw [show rest = c.rest from stays, starts] at length
      simp at length
      omega
    · cases read
  · split at read
    · split at read
      · rename_i level inside opened _ content rest cut
        cases read
        have length := congrArg List.length (bracketOpenTakes opened)
        rw [Text.cutAtSplits cut, show rest = c.rest from stays] at length
        simp [bracketMark] at length
        omega
      · cases read
    · split at read
      · cases read
      · rename_i body rest unquoted
        cases read
        have whole := unquotedSplits unquoted
        rw [show rest = c.rest from stays, List.self_eq_append_left] at whole
        subst whole
        obtain ⟨d, rest, here⟩ := List.exists_cons_of_ne_nil occupied
        have first : d ∈ c.rest.head? := by rw [here]; rfl
        have ends := unquotedNothing unquoted d first
        rw [goesOn d first] at ends
        cases ends

theorem argumentPlain {a : Argument} {c' : Cursor} (read : c.argument = .ok (a, c'))
    (plain : PlainBlanks c.rest) (apart : ∀ d ∈ c.rest.head?, separates true d = false)
    (occupied : c.rest ≠ []) (notOpen : ∀ rest, c.rest ≠ '(' :: rest)
    (notClose : ∀ rest, c.rest ≠ ')' :: rest) : c.Passes c' := by
  refine argumentPasses read occupied fun d first => ?_
  obtain ⟨rest, here⟩ := List.head?_eq_some_iff.mp first
  exact goesOn (plain d (List.mem_of_mem_head? first)) (apart d first)
    (fun same => notOpen rest (same ▸ here)) (fun same => notClose rest (same ▸ here))

theorem argumentsUsesUp {start : Cursor} {s : ArgumentState} (plain : PlainBlanks s.rest)
    (enough : s.rest.length < fuel) :
    Round.UsesUp (argumentRound start) ArgumentState.rest s
      (arguments start fuel s.depth s.found s.cursor) := by
  induction fuel generalizing s with
  | zero => exact absurd enough (Nat.not_lt_zero _)
  | succ fuel ih =>
    rw [arguments]
    have placed := skipSeparationPlaced true s.cursor.rest.length (Reaches.refl s.cursor)
    cases skip : s.cursor.skipSeparation true s.cursor.rest.length with
    | error error => exact .done (by simp [argumentRound, ArgumentState.rest, skip]; rfl)
    | ok c =>
      rw [skip] at placed
      have skipped : s.cursor.Reaches c := placed
      have apart := separationStops (Nat.le_refl _) skip
      have goesOn (s' : ArgumentState) (round : argumentRound start s = .again s')
          (passes : c.Passes s'.cursor) :
          Round.UsesUp (argumentRound start) ArgumentState.rest s
            (arguments start fuel s'.depth s'.found s'.cursor) := by
        have through := skipped.passes passes
        have shorter : s'.rest.length < s.rest.length := through.shorter
        have further := ih (plain.suffix through.reaches.suffix) (s := s') (by omega)
        obtain ⟨taken, some, split, -⟩ := through
        exact .again round some split further
      have taken {d : Char} {rest : List Char} (here : c.rest = d :: rest) :
          c.Passes (c.past [d] rest) := passesPast here (List.cons_ne_nil d [])
      dsimp only [bind, Except.bind]
      split
      · rename_i none
        exact .done (by simp [argumentRound, ArgumentState.rest, skip, none])
      · rename_i rest here
        split
        · rename_i outer
          exact .done (by simp [argumentRound, ArgumentState.rest, skip, here, outer])
        · rename_i inner
          exact goesOn ⟨_, _, c.past [')'] rest⟩
            (by simp [argumentRound, ArgumentState.rest, skip, here, inner]) (taken here)
      · rename_i rest here
        exact goesOn ⟨_, _, c.past ['('] rest⟩
          (by simp [argumentRound, ArgumentState.rest, skip, here]) (taken here)
      · rename_i occupied notClose notOpen
        cases found : c.argument with
        | error error => exact .done (by simp [argumentRound, ArgumentState.rest, skip, found])
        | ok read =>
          exact goesOn ⟨_, read.1 :: s.found, read.2⟩
            (by simp [argumentRound, ArgumentState.rest, skip, found])
            (argumentPlain found (plain.suffix skipped.suffix) apart occupied notOpen notClose)

theorem commandLinePasses (c : Cursor) : c.Yields (fun read => c.Passes read.2) c.commandLine := by
  refine (commandPlaced (Reaches.refl c)).bind fun read good => ?_
  exact (lineEndPlaced good.1.reaches).bind fun _ ended => good.1.later ended

theorem commandLineBind {β : Type} (c : Cursor) (next : Command → Cursor → Except SyntaxError β) :
    (do let (command, c) ← c.command; let c ← c.lineEnd; next command c) =
      c.commandLine >>= fun read => next read.1 read.2 := by
  simp [commandLine]

theorem commandsUsesUp {s : CommandState} (enough : s.rest.length < fuel) :
    Round.UsesUp commandRound CommandState.rest s (commands fuel s.found s.cursor) := by
  induction fuel generalizing s with
  | zero => exact absurd enough (Nat.not_lt_zero _)
  | succ fuel ih =>
    rw [commands]
    have placed := skipSeparationPlaced true s.cursor.rest.length (Reaches.refl s.cursor)
    cases skip : s.cursor.skipSeparation true s.cursor.rest.length with
    | error error => exact .done (by simp [commandRound, CommandState.rest, skip]; rfl)
    | ok c =>
      rw [skip] at placed
      have skipped : s.cursor.Reaches c := placed
      dsimp only [bind, Except.bind]
      split
      · rename_i none
        exact .done (by simp [commandRound, CommandState.rest, skip, none])
      · have passed := commandLinePasses c
        have whole := commandLineBind c fun command c => commands fuel (command :: s.found) c
        suffices further : Round.UsesUp commandRound CommandState.rest s
            (c.commandLine >>= fun read => commands fuel (read.1 :: s.found) read.2) by
          rw [← whole] at further
          exact further
        cases line : c.commandLine with
        | error error => exact .done (by simp [commandRound, CommandState.rest, skip, line]; rfl)
        | ok read =>
          rw [line] at passed
          have through : s.cursor.Passes read.2 := skipped.passes passed
          let s' : CommandState := ⟨read.1 :: s.found, read.2⟩
          have shorter : s'.rest.length < s.rest.length := through.shorter
          have round : commandRound s = .again s' := by
            simp [commandRound, CommandState.rest, skip, line, s']
          obtain ⟨taken, some, split, -⟩ := through
          exact .again round some split (ih (s := s') (by omega))

def Settled {α : Type} : Except SyntaxError α → Prop
  | .ok _ => True
  | .error error => error.fault ≠ .outOfFuel

theorem Settled.bind {α β : Type} {m : Except SyntaxError α} {next : α → Except SyntaxError β}
    (first : Settled m) (second : ∀ a, m = .ok a → Settled (next a)) : Settled (m >>= next) := by
  cases m with
  | error => exact first
  | ok a => exact second a rfl

theorem skipCommentSettled (c : Cursor) : Settled c.skipComment := by
  unfold skipComment
  dsimp only
  split
  · split
    · trivial
    · exact nofun
  · trivial

theorem skipSeparationSettled (newlines : Bool) (fuel : Nat) (c : Cursor) :
    Settled (c.skipSeparation newlines fuel) := by
  induction fuel generalizing c with
  | zero => trivial
  | succ fuel ih =>
    rw [skipSeparation]
    split
    · trivial
    · split
      · exact ih _
      · split
        · exact (skipCommentSettled c).bind fun c _ => ih c
        · trivial

theorem argumentSettled (c : Cursor) : Settled c.argument := by
  unfold argument
  dsimp only
  split
  · split
    · trivial
    · exact nofun
  · split
    · split
      · trivial
      · exact nofun
    · split
      · exact nofun
      · trivial

theorem argumentsSettled {start : Cursor} {depth : Nat} {found : List Argument}
    (plain : PlainBlanks c.rest) (enough : c.rest.length < fuel) :
    Settled (arguments start fuel depth found c) := by
  have ended : Round.UsesUp (argumentRound start) ArgumentState.rest ⟨depth, found, c⟩
      (arguments start fuel depth found c) := argumentsUsesUp plain enough
  obtain ⟨last, -, stops⟩ := ended.last
  have skipped := skipSeparationSettled true last.rest.length last.cursor
  unfold argumentRound at stops
  split at stops
  · rename_i error skip
    rw [skip] at skipped
    exact Round.done.inj stops ▸ skipped
  · rename_i c' _
    have read := argumentSettled c'
    dsimp only at stops
    split at stops
    · exact Round.done.inj stops ▸ nofun
    · split at stops
      · exact Round.done.inj stops ▸ trivial
      · cases stops
    · cases stops
    · split at stops
      · cases stops
      · rename_i error failed
        rw [failed] at read
        exact Round.done.inj stops ▸ read

theorem commandSettled (plain : PlainBlanks c.rest) : Settled c.command := by
  unfold Cursor.command
  split
  · exact nofun
  · rename_i name rest named
    dsimp only
    split
    · rename_i inside opened
      have split := (nameTakes named).2
      have inner : inside <:+ c.rest := by
        rw [split]
        have spaces : inside <:+ rest.dropWhile isSpace := ⟨['('], opened.symm⟩
        exact (spaces.trans (List.dropWhile_suffix _)).trans (List.suffix_append _ _)
      exact (argumentsSettled (plain.suffix inner) (Nat.lt_succ_self _)).bind fun _ _ => trivial
    · exact nofun

theorem lineEndSettled (c : Cursor) : Settled c.lineEnd := by
  refine (skipSeparationSettled false _ c).bind fun c _ => ?_
  split
  · trivial
  · split
    · trivial
    · exact nofun

theorem commandsSettled {found : List Command} (plain : PlainBlanks c.rest)
    (enough : c.rest.length < fuel) : Settled (commands fuel found c) := by
  obtain ⟨last, inside, stops⟩ := (commandsUsesUp (s := ⟨found, c⟩) enough).last
  have skipped := skipSeparationSettled true last.rest.length last.cursor
  have placed := skipSeparationPlaced true last.rest.length (Reaches.refl last.cursor)
  unfold commandRound at stops
  split at stops
  · rename_i error skip
    rw [skip] at skipped
    exact Round.done.inj stops ▸ skipped
  · rename_i c' skip
    rw [skip] at placed
    have reaches : last.cursor.Reaches c' := placed
    have plain := plain.suffix (reaches.suffix.trans inside)
    have read : Settled c'.commandLine :=
      (commandSettled plain).bind fun _ _ => (lineEndSettled _).bind fun _ _ => trivial
    split at stops
    · exact Round.done.inj stops ▸ trivial
    · split at stops
      · cases stops
      · rename_i error failed
        rw [failed] at read
        exact Round.done.inj stops ▸ read

end Cursor

namespace ListFile

open Cursor

theorem parseEnds (path source : String) (plain : PlainBlanks source.toList) :
    let text := dropByteOrderMark source.toList
    (∀ newlines (c : Cursor), Round.UsesUp (separationRound newlines) Cursor.rest c
      (c.skipSeparation newlines c.rest.length)) ∧
    (∀ start (s : ArgumentState), s.rest <:+ text →
      Round.UsesUp (argumentRound start) ArgumentState.rest s
        (arguments start (s.rest.length + 1) s.depth s.found s.cursor)) ∧
    ∃ read, Round.UsesUp commandRound CommandState.rest ⟨[], ⟨text, {}⟩⟩ read ∧
      parse path source = read.map (⟨path, ·⟩) ∧
      match read with
      | .ok commands =>
        commands.Pairwise (·.line ≤ ·.line) ∧ ∀ command ∈ commands, command.KeepsLines
      | .error error => error.fault ≠ .outOfFuel ∧ error.PlacedIn text := by
  intro text
  refine ⟨fun newlines c => separationUsesUp newlines (Nat.le_refl _),
    fun start s inside => argumentsUsesUp (plain.markDropped.suffix inside) (Nat.lt_succ_self _),
    Cursor.commands (text.length + 1) [] ⟨text, {}⟩,
    commandsUsesUp (s := ⟨[], ⟨text, {}⟩⟩) (Nat.lt_succ_self _), ?_, ?_⟩
  · unfold parse
    dsimp only
    change (Cursor.commands (text.length + 1) [] ⟨text, {}⟩ >>= _) = _
    cases Cursor.commands (text.length + 1) [] ⟨text, {}⟩ <;> rfl
  · have placed := commandsPlaced (text.length + 1) [] (Reaches.refl ⟨text, {}⟩)
    have settled : Settled (Cursor.commands (text.length + 1) [] ⟨text, {}⟩) :=
      commandsSettled plain.markDropped (Nat.lt_succ_self _)
    cases read : Cursor.commands (text.length + 1) [] ⟨text, {}⟩ with
    | error error =>
      rw [read] at placed settled
      exact ⟨settled, SyntaxError.Behind.placed placed⟩
    | ok commands =>
      rw [read] at placed
      obtain ⟨more, same, rising, later⟩ := placed
      rw [List.reverse_nil, List.nil_append] at same
      subst same
      exact ⟨rising, fun command member => (later command member).2⟩

theorem parseEndsInSecondCommand :
    let source := "set(a\n[[b\n]])\nfoo(\"\u00e9\"\n"
    let error : SyntaxError := ⟨.missingParenthesis, 4, 14, 23⟩
    PlainBlanks source.toList ∧ parse "CMakeLists.txt" source = .error error ∧
      error.PlacedIn (dropByteOrderMark source.toList) := by
  intro source error
  have plain : PlainBlanks source.toList := by decide +kernel
  have parsed : parse "CMakeLists.txt" source = .error error := by decide +kernel
  obtain ⟨-, -, read, -, same, good⟩ := parseEnds "CMakeLists.txt" source plain
  rw [parsed] at same
  cases read with
  | ok commands => cases same
  | error other =>
    cases same
    exact ⟨plain, parsed, good.2⟩

-- No separation takes a form feed, so the rounds of the parser do not use it up.
example : (parse "CMakeLists.txt" "f(a\x0cb)").mapError (·.fault) = .error .outOfFuel := by
  decide +kernel

end ListFile
end CMakeScript
