import CMakeScript.Proofs.ListFileReading
/-! Commands that were written down are read back: each argument is taken as a whole, since what
follows it cannot go on with it, and a blank before an argument does not count. -/
namespace CMakeScript

open Lexeme

namespace Lexeme

def separates (newlines : Bool) (c : Char) : Bool :=
  isSpace c || (newlines && isLineEnd c) || c == '#'

theorem separatesNone {newlines : Bool} {c : Char} {p : Char → Bool} (holds : p c = true)
    (apart : [' ', '\t', '\n', '\r', '#'].all (!p ·) = true) : separates newlines c = false := by
  have other : ∀ d ∈ [' ', '\t', '\n', '\r', '#'], c ≠ d := by
    rintro d member rfl
    have fails := List.all_eq_true.mp apart c member
    rw [holds] at fails
    cases fails
  simp only [List.forall_mem_cons] at other
  simp [separates, isSpace, isLineEnd, other]

theorem separatesEnds {newlines : Bool} {c : Char} (goesOn : endsUnquoted c = false) :
    separates newlines c = false :=
  separatesNone (p := fun c => !endsUnquoted c) (by simp [goesOn]) (by decide)

theorem separatesName {newlines : Bool} {c : Char} (starts : isNameStart c = true) :
    separates newlines c = false :=
  separatesNone starts (by decide)

theorem closesAfterFeed {level : Nat} {cs : List Char} (closes : ClosesAfter level cs)
    (rest : List Char) :
    Text.cutAt (bracketMark ']' level) ('\n' :: cs ++ bracketMark ']' level ++ rest) =
      some ('\n' :: cs, rest) := by
  refine Text.cutAtFirst rest (by simp [bracketMark]) ?_
  rw [show (bracketMark ']' level).dropLast = ']' :: List.replicate level '=' from
    List.dropLast_concat]
  intro inside
  rcases List.infix_cons_iff.mp inside with start | later
  · obtain ⟨left, same⟩ := start
    simp [bracketMark] at same
  · exact closes later

theorem closesAfterLong {cs : List Char} {level : Nat} (high : cs.length ≤ level) :
    ClosesAfter level cs := by
  rintro ⟨before, after, same⟩
  have reach : cs.length + 1 ≤ (before ++ ']' :: List.replicate level '=').length := by
    simp only [List.length_append, List.length_cons, List.length_replicate]
    omega
  have split : (before ++ ']' :: List.replicate level '=') ++ ']' :: after =
      cs ++ ']' :: List.replicate level '=' := by
    simpa [bracketMark] using same
  have tails := congrArg (List.drop (cs.length + 1)) split
  rw [List.drop_append_of_le_length reach, List.drop_length_add_append, List.drop_one,
    List.tail_cons] at tails
  have inside : ']' ∈ List.replicate level '=' := tails ▸ by simp
  simp at inside

theorem notBracketBefore {cs : List Char} (closed : ∀ level, ¬bracketMark '[' level <+: cs)
    {d : Char} (ends : endsUnquoted d = true) (rest : List Char) :
    bracketOpen? (cs ++ d :: rest) = none := by
  refine bracketOpenNone.mpr fun level opened => ?_
  rcases Nat.lt_or_ge cs.length (bracketMark '[' level).length with longer | shorter
  · have within : cs ++ [d] <+: bracketMark '[' level :=
      List.prefix_of_prefix_length_le ⟨rest, by simp⟩ opened
        (by rw [List.length_append]; exact longer)
    have member : d ∈ bracketMark '[' level := within.subset (by simp)
    obtain rfl | ⟨-, rfl⟩ : d = '[' ∨ level ≠ 0 ∧ d = '=' := by
      simpa [bracketMark, or_comm, or_assoc] using member
    · cases ends
    · cases ends
  · exact closed level (List.prefix_of_prefix_length_le opened (List.prefix_append ..) shorter)

end Lexeme

namespace Argument

theorem isWrittenAs (a : Argument) : ∃ cs, a.WrittenAs cs :=
  ⟨_, _, fun _ => closesAfterLong (Nat.le_refl _), rfl⟩

theorem markWrittenAs {a : Argument} {mark : String} {piece : List Char} (is : a.IsMark mark)
    (written : a.WrittenAs piece) : piece = mark.toList := by
  obtain ⟨level, -, rfl⟩ := written
  simp [text, is.1, is.2]

theorem wordValue {a : Argument} (valid : a.WellFormed) (unquoted : a.delimiter = .unquoted)
    (notOpen : ¬a.IsMark "(") (notClose : ¬a.IsMark ")") : IsUnquotedValue a.value.toList := by
  rw [WellFormed, unquoted] at valid
  rcases valid with mark | mark | valid
  · exact absurd ⟨unquoted, mark⟩ notOpen
  · exact absurd ⟨unquoted, mark⟩ notClose
  · exact valid

theorem startsApart {a : Argument} {piece : List Char} (valid : a.WellFormed)
    (notOpen : ¬a.IsMark "(") (notClose : ¬a.IsMark ")") (written : a.WrittenAs piece) :
    ∃ c cs, piece = c :: cs ∧ separates true c = false ∧ c ≠ '(' ∧ c ≠ ')' := by
  obtain ⟨level, -, rfl⟩ := written
  rw [text]
  cases delimiter : a.delimiter with
  | quoted => exact ⟨_, _, rfl, rfl, by decide, by decide⟩
  | bracket => exact ⟨_, _, rfl, rfl, by decide, by decide⟩
  | unquoted =>
    have word := wordValue valid delimiter notOpen notClose
    obtain ⟨c, cs, same⟩ := List.exists_cons_of_ne_nil word.occupied
    refine ⟨c, cs, same, ?_⟩
    have text := word.text
    rw [same] at text
    cases text with
    | plain inside =>
      refine ⟨separatesEnds inside, ?_, ?_⟩
      · rintro rfl
        cases inside
      · rintro rfl
        cases inside
    | pair => exact ⟨rfl, by decide, by decide⟩
    | span => exact ⟨rfl, by decide, by decide⟩

end Argument

namespace Cursor

theorem skipSeparationStays {newlines : Bool} {c : Cursor}
    (stays : ∀ d ∈ c.rest.head?, separates newlines d = false) (fuel : Nat) :
    c.skipSeparation newlines fuel = .ok c := by
  cases fuel with
  | zero => rfl
  | succ fuel =>
    rw [skipSeparation]
    split
    · rfl
    · rename_i d rest here
      have stop : separates newlines d = false := stays d (by simp [here])
      simp only [separates, Bool.or_eq_false_iff, beq_eq_false_iff_ne] at stop
      rw [stop.1.1, stop.1.2, if_neg stop.2]
      simp

theorem argumentQuoted {inside body rest : List Char} (read : quotedBody? inside = some (body, rest))
    (position : Position) :
    Cursor.argument ⟨'"' :: inside, position⟩ =
      .ok (⟨String.ofList (joinLines body), .quoted, position.line⟩,
        ⟨rest, position.after ('"' :: body ++ ['"'])⟩) := by
  simp [argument, read, past]

theorem argumentBracket {text inside content rest : List Char} {level : Nat}
    (opened : bracketOpen? text = some (level, inside))
    (cut : Text.cutAt (bracketMark ']' level) inside = some (content, rest)) (position : Position) :
    Cursor.argument ⟨text, position⟩ =
      .ok (⟨String.ofList (dropFirstNewline content), .bracket, position.line⟩,
        ⟨rest, position.after (bracketMark '[' level ++ content ++ bracketMark ']' level)⟩) := by
  unfold argument
  dsimp only
  split
  · cases opened
  · rw [opened]
    dsimp only
    rw [cut]
    rfl

theorem argumentUnquoted {text body rest : List Char} (notQuoted : text.head? ≠ some '"')
    (notBracket : bracketOpen? text = none) (taken : unquoted? false text = some (body, rest))
    (position : Position) :
    Cursor.argument ⟨text, position⟩ =
      .ok (⟨String.ofList body, .unquoted, position.line⟩, ⟨rest, position.after body⟩) := by
  unfold argument
  dsimp only
  split
  · exact absurd rfl notQuoted
  · rw [notBracket]
    dsimp only
    rw [taken]
    rfl

theorem argumentReadsBack {a : Argument} {piece : List Char} (valid : a.WellFormed)
    (notOpen : ¬a.IsMark "(") (notClose : ¬a.IsMark ")") (written : a.WrittenAs piece) {d : Char}
    (ends : endsUnquoted d = true) (rest : List Char) (position : Position) :
    ∃ position', Cursor.argument ⟨piece ++ d :: rest, position⟩ =
      .ok (⟨a.value, a.delimiter, position.line⟩, ⟨d :: rest, position'⟩) := by
  obtain ⟨value, delimiter, line⟩ := a
  obtain ⟨level, closes, rfl⟩ := written
  cases delimiter with
  | quoted =>
    have quoted : IsQuotedValue value.toList := valid
    have read := argumentQuoted (quotedBodyWhole quoted.span (d :: rest)) position
    rw [joinLinesQuoted quoted, String.ofList_toList] at read
    exact ⟨_, by simpa [Argument.text] using read⟩
  | bracket =>
    have read := argumentBracket (bracketOpenWhole level _)
      (closesAfterFeed (closes rfl) (d :: rest)) position
    rw [dropFirstNewline, String.ofList_toList] at read
    exact ⟨_, by simpa [Argument.text] using read⟩
  | unquoted =>
    have valid : IsUnquotedValue value.toList := Argument.wordValue valid rfl notOpen notClose
    have notQuoted : (value.toList ++ d :: rest).head? ≠ some '"' := by
      rw [List.head?_append_of_ne_nil _ valid.occupied]
      exact valid.notQuoted
    have read := argumentUnquoted notQuoted (notBracketBefore valid.notBracket ends rest)
      (unquotedWhole valid.text ends) position
    rw [String.ofList_toList] at read
    exact ⟨_, read⟩

section

variable (start : Cursor) (fuel depth : Nat) (found : List Argument)

theorem argumentsEnd (rest : List Char) (position : Position) :
    Cursor.arguments start (fuel + 1) 0 found ⟨')' :: rest, position⟩ =
      .ok (found.reverse, ⟨rest, position.after [')']⟩) :=
  rfl

theorem argumentsOpened (rest : List Char) (position : Position) :
    Cursor.arguments start (fuel + 1) depth found ⟨'(' :: rest, position⟩ =
      Cursor.arguments start fuel (depth + 1) (⟨"(", .unquoted, position.line⟩ :: found)
        ⟨rest, position.after ['(']⟩ :=
  rfl

theorem argumentsClosed (rest : List Char) (position : Position) :
    Cursor.arguments start (fuel + 1) (depth + 1) found ⟨')' :: rest, position⟩ =
      Cursor.arguments start fuel depth (⟨")", .unquoted, position.line⟩ :: found)
        ⟨rest, position.after [')']⟩ :=
  rfl

theorem argumentsOther {d : Char} {text cs : List Char} {position : Position} {a : Argument}
    {c : Cursor} (read : Cursor.argument ⟨text, position⟩ = .ok (a, c)) (starts : text = d :: cs)
    (apart : separates true d = false) (notOpen : d ≠ '(') (notClose : d ≠ ')') :
    Cursor.arguments start (fuel + 1) depth found ⟨text, position⟩ =
      Cursor.arguments start fuel depth (a :: found) c := by
  subst starts
  have stays : Cursor.skipSeparation true (d :: cs).length ⟨d :: cs, position⟩ =
      .ok ⟨d :: cs, position⟩ :=
    skipSeparationStays (by simpa using apart) _
  rw [Cursor.arguments, stays]
  simp only [bind, Except.bind]
  split
  · contradiction
  · exact absurd (List.cons.inj ‹_›).1 notClose
  · exact absurd (List.cons.inj ‹_›).1 notOpen
  · rw [read]

theorem blankSkipped (cs : List Char) (position : Position) :
    Cursor.arguments start fuel depth found ⟨' ' :: cs, position⟩ =
      Cursor.arguments start fuel depth found ⟨cs, position.after [' ']⟩ := by
  cases fuel <;> rfl

variable {fuel depth}

theorem argumentTaken {a : Argument} {more : List Argument} {piece : List Char}
    (valid : a.WellFormed) (written : a.WrittenAs piece) (nested : Argument.Nested depth (a :: more))
    {d : Char} (ends : endsUnquoted d = true) (rest : List Char) (position : Position) :
    ∃ depth' a' position', Argument.Nested depth' more ∧ a'.spelling = a.spelling ∧
      Cursor.arguments start (fuel + 1) depth found ⟨piece ++ d :: rest, position⟩ =
        Cursor.arguments start fuel depth' (a' :: found) ⟨d :: rest, position'⟩ := by
  cases nested with
  | opened mark inner =>
    obtain rfl := Argument.markWrittenAs mark written
    exact ⟨_, _, _, inner, by rw [Argument.spelling, Argument.spelling, mark.1, mark.2],
      argumentsOpened ..⟩
  | closed mark outer =>
    obtain rfl := Argument.markWrittenAs mark written
    exact ⟨_, _, _, outer, by rw [Argument.spelling, Argument.spelling, mark.1, mark.2],
      argumentsClosed ..⟩
  | other notOpen notClose tail =>
    obtain ⟨position', read⟩ := argumentReadsBack valid notOpen notClose written ends rest position
    obtain ⟨c, cs, starts, apart, unopened, unclosed⟩ :=
      Argument.startsApart valid notOpen notClose written
    exact ⟨depth, ⟨a.value, a.delimiter, position.line⟩, position', tail, rfl,
      argumentsOther start fuel depth found read (by rw [starts]; rfl) apart unopened unclosed⟩

theorem argumentsReadBack {arguments : List Argument} {pieces : List (List Char)}
    (written : List.Forall₂ Argument.WrittenAs arguments pieces)
    (valid : ∀ a ∈ arguments, a.WellFormed) (nested : Argument.Nested depth arguments)
    (rest : List Char) (position : Position) (enough : arguments.length < fuel) :
    ∃ read position', Cursor.arguments start fuel depth found
        ⟨[' '].intercalate pieces ++ ')' :: rest, position⟩ =
        .ok (found.reverse ++ read, ⟨rest, position'⟩) ∧
      read.map Argument.spelling = arguments.map Argument.spelling := by
  induction written generalizing depth found position fuel with
  | nil =>
    cases nested
    obtain ⟨fuel, rfl⟩ := Nat.exists_eq_succ_of_ne_zero (Nat.ne_of_gt enough)
    exact ⟨[], _, by simpa using argumentsEnd start fuel found rest position, rfl⟩
  | @cons a piece arguments pieces one more ih =>
    obtain ⟨first, others⟩ := List.forall_mem_cons.mp valid
    obtain ⟨fuel, rfl⟩ := Nat.exists_eq_succ_of_ne_zero (Nat.ne_of_gt (Nat.zero_lt_of_lt enough))
    have enough : arguments.length < fuel := by simpa using enough
    cases pieces with
    | nil =>
      obtain ⟨depth', a', position', nested, spelled, taken⟩ :=
        argumentTaken start found first one nested (d := ')') rfl rest position
      obtain ⟨read, position'', done, same⟩ := ih (a' :: found) others nested position' enough
      refine ⟨a' :: read, position'', ?_, by simp [spelled, same]⟩
      rw [List.intercalate_singleton, taken]
      simpa using done
    | cons next later =>
      obtain ⟨depth', a', position', nested, spelled, taken⟩ :=
        argumentTaken start found first one nested (d := ' ') rfl
          ([' '].intercalate (next :: later) ++ ')' :: rest) position
      obtain ⟨read, position'', done, same⟩ :=
        ih (a' :: found) others nested (position'.after [' ']) enough
      refine ⟨a' :: read, position'', ?_, by simp [spelled, same]⟩
      rw [← blankSkipped, ← taken] at done
      simpa [List.intercalate_cons_cons] using done

end

theorem wordsShort (words : List (List Char)) : words.length ≤ ([' '].intercalate words).length + 1 := by
  induction words with
  | nil => simp
  | cons word words ih =>
    cases words with
    | nil => simp
    | cons next later =>
      rw [List.intercalate_cons_cons]
      simp only [List.length_append, List.length_cons] at ih ⊢
      omega

theorem commandRead {text name inside : List Char} {position : Position} {arguments : List Argument}
    {done : Cursor} (named : name? text = some (name, '(' :: inside))
    (read : Cursor.arguments ⟨text, position⟩ (inside.length + 1) 0 []
      ⟨inside, ((position.after name).after []).after ['(']⟩ = .ok (arguments, done)) :
    Cursor.command ⟨text, position⟩ =
      .ok (⟨String.ofList name, position.line, done.position.line, arguments⟩, done) := by
  unfold Cursor.command
  rw [named]
  change (Cursor.arguments ⟨text, position⟩ (inside.length + 1) 0 []
    ⟨inside, ((position.after name).after []).after ['(']⟩ >>= _) = _
  rw [read]
  rfl

theorem commandReadsBack {command : Command} {line : List Char} (valid : command.WellFormed)
    (written : command.WrittenAs line) (rest : List Char) (position : Position) :
    ∃ command' position', Cursor.command ⟨line ++ rest, position⟩ =
        .ok (command', ⟨'\n' :: rest, position'⟩) ∧
      command'.spelling = command.spelling := by
  obtain ⟨words, arguments, rfl⟩ := written
  have ends : ∀ c ∈ ('(' :: ([' '].intercalate words ++ ')' :: '\n' :: rest)).head?,
      isNameRest c = false := by
    intro c first
    cases first
    rfl
  have named := nameWhole valid.name ends
  have enough : command.arguments.length <
      ([' '].intercalate words ++ ')' :: '\n' :: rest).length + 1 := by
    rw [arguments.length_eq, List.length_append, List.length_cons, List.length_cons]
    have short := wordsShort words
    omega
  rw [show command.name.toList ++ '(' :: [' '].intercalate words ++ [')', '\n'] ++ rest =
    command.name.toList ++ '(' :: ([' '].intercalate words ++ ')' :: '\n' :: rest) by simp]
  obtain ⟨read, position', taken, same⟩ := argumentsReadBack ⟨_, position⟩ [] arguments
    valid.arguments valid.nested ('\n' :: rest) _ enough
  refine ⟨_, position', commandRead named taken, ?_⟩
  rw [Command.spelling, String.ofList_toList]
  exact congrArg (command.name, ·) same

theorem commandStarts {command : Command} {line : List Char} (valid : command.WellFormed)
    (written : command.WrittenAs line) : ∃ c cs, line = c :: cs ∧ isNameStart c = true := by
  obtain ⟨words, -, rfl⟩ := written
  obtain ⟨c, cs, same, start, -⟩ := valid.name
  rw [same]
  exact ⟨c, _, rfl, start⟩

theorem lineEndFeed (rest : List Char) (position : Position) :
    Cursor.lineEnd ⟨'\n' :: rest, position⟩ = .ok ⟨rest, position.after ['\n']⟩ :=
  rfl

theorem commandsReadBack {commands : List Command} {lines : List (List Char)}
    (written : List.Forall₂ Command.WrittenAs commands lines)
    (valid : ∀ command ∈ commands, command.WellFormed) (found : List Command)
    (position : Position) {fuel : Nat} (enough : commands.length < fuel) :
    ∃ read, Cursor.commands fuel found ⟨lines.flatten, position⟩ = .ok (found.reverse ++ read) ∧
      read.map Command.spelling = commands.map Command.spelling := by
  induction written generalizing found position fuel with
  | nil =>
    obtain ⟨fuel, rfl⟩ := Nat.exists_eq_succ_of_ne_zero (Nat.ne_of_gt enough)
    refine ⟨[], ?_, rfl⟩
    rw [List.append_nil]
    rfl
  | @cons command line commands lines one more ih =>
    obtain ⟨first, others⟩ := List.forall_mem_cons.mp valid
    obtain ⟨fuel, rfl⟩ := Nat.exists_eq_succ_of_ne_zero (Nat.ne_of_gt (Nat.zero_lt_of_lt enough))
    have enough : commands.length < fuel := by simpa using enough
    obtain ⟨c, cs, starts, letter⟩ := commandStarts first one
    obtain ⟨command', position', taken, spelled⟩ :=
      commandReadsBack first one lines.flatten position
    obtain ⟨read, done, same⟩ := ih others (command' :: found) (position'.after ['\n']) enough
    refine ⟨command' :: read, ?_, by simp [spelled, same]⟩
    have stays : Cursor.skipSeparation true (line ++ lines.flatten).length
        ⟨line ++ lines.flatten, position⟩ = .ok ⟨line ++ lines.flatten, position⟩ :=
      skipSeparationStays (by simpa [starts] using separatesName letter) _
    rw [List.flatten_cons, Cursor.commands, stays]
    simp only [bind, Except.bind]
    rw [taken]
    split
    · simp_all
    · simp only [lineEndFeed]
      simpa using done

end Cursor

namespace Command

theorem isWrittenAs (c : Command) : ∃ cs, c.WrittenAs cs :=
  ⟨_, _, List.forall₂_map_right_iff.mpr (List.forall₂_same.mpr fun a _ =>
    a.isWrittenAs.choose_spec), rfl⟩

theorem areWrittenAs (commands : List Command) : ∃ cs, AllWrittenAs commands cs :=
  ⟨_, _, List.forall₂_map_right_iff.mpr (List.forall₂_same.mpr fun c _ =>
    c.isWrittenAs.choose_spec), rfl⟩

theorem writtenStarts {commands : List Command} {text : List Char}
    (valid : ∀ c ∈ commands, c.WellFormed) (written : AllWrittenAs commands text) :
    dropByteOrderMark text = text := by
  obtain ⟨lines, written, rfl⟩ := written
  cases written with
  | nil => rfl
  | cons one =>
    obtain ⟨c, cs, rfl, letter⟩ := Cursor.commandStarts (valid _ List.mem_cons_self) one
    refine if_neg ?_
    rintro rfl
    cases letter

theorem linesLong {commands : List Command} {lines : List (List Char)}
    (valid : ∀ c ∈ commands, c.WellFormed) (written : List.Forall₂ WrittenAs commands lines) :
    commands.length ≤ lines.flatten.length := by
  induction written with
  | nil => rfl
  | cons one _ ih =>
    obtain ⟨first, others⟩ := List.forall_mem_cons.mp valid
    obtain ⟨c, cs, rfl, -⟩ := Cursor.commandStarts first one
    have more := ih others
    rw [List.flatten_cons, List.length_append, List.length_cons, List.length_cons]
    omega

end Command

namespace ListFile

/-- What is read is well formed, and what is well formed is read back however it is written. -/
theorem parseReadsBack (path : String) :
    (∀ source file, parse path source = .ok file → ∀ c ∈ file.commands, c.WellFormed) ∧
    ∀ commands : List Command, (∀ c ∈ commands, c.WellFormed) →
      (∃ text, Command.AllWrittenAs commands text) ∧
      ∀ text, Command.AllWrittenAs commands text →
        ∃ read, parse path (String.ofList text) = .ok ⟨path, read⟩ ∧
          read.map Command.spelling = commands.map Command.spelling := by
  refine ⟨fun source file read => ?_, fun commands valid =>
    ⟨Command.areWrittenAs commands, fun text written => ?_⟩⟩
  · obtain ⟨commands, inside, same⟩ := Except.okOfBind read
    cases same
    exact Cursor.commandsRead inside nofun
  · have marked := Command.writtenStarts valid written
    obtain ⟨lines, written, rfl⟩ := written
    obtain ⟨read, ran, same⟩ := Cursor.commandsReadBack written valid [] {}
      (Nat.lt_succ_of_le (Command.linesLong valid written))
    refine ⟨read, ?_, same⟩
    unfold parse
    dsimp only
    rw [String.toList_ofList, marked, ran]
    rfl

theorem legacyReadsBack :
    let source := "f(-Da=\"b c\" \"x\\\ny\\\"\" [=[\n]]]=] (a\\;b))"
    ∃ file, parse "a.cmake" source = .ok file ∧ file.commands.map Command.spelling =
        [("f", [("-Da=\"b c\"", .unquoted), ("xy\\\"", .quoted), ("]]", .bracket),
          ("(", .unquoted), ("a\\;b", .unquoted), (")", .unquoted)])] ∧
      ∃ text, Command.AllWrittenAs file.commands text ∧
        ∃ read, parse "a.cmake" (String.ofList text) = .ok ⟨"a.cmake", read⟩ ∧
          read.map Command.spelling = file.commands.map Command.spelling := by
  intro source
  have spelled : (parse "a.cmake" source).toOption.map
      (fun file => file.commands.map Command.spelling) =
      some [("f", [("-Da=\"b c\"", .unquoted), ("xy\\\"", .quoted), ("]]", .bracket),
        ("(", .unquoted), ("a\\;b", .unquoted), (")", .unquoted)])] := by
    decide +kernel
  obtain ⟨file, parsed, spelled⟩ := Option.map_eq_some_iff.mp spelled
  have read : parse "a.cmake" source = .ok file := by
    cases ran : parse "a.cmake" source with
    | error fault => rw [ran] at parsed; cases parsed
    | ok found => rw [ran] at parsed; cases parsed; rfl
  have valid := (parseReadsBack "a.cmake").1 source file read
  obtain ⟨⟨text, written⟩, back⟩ := (parseReadsBack "a.cmake").2 file.commands valid
  exact ⟨file, read, spelled, text, written, back text written⟩

end ListFile
end CMakeScript
