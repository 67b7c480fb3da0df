import CMakeScript.Execution.Start
import CMakeScript.Proofs.ExpansionReading
import CMakeScript.Proofs.ListFileWriting
/-! A quoted text reads back as itself. What the quoting writes is the text of a template without
references; this is a quoted value that holds no continued line, so the parser takes it as it was
written, and the expansion drops the backslashes again. -/
namespace CMakeScript

namespace Expansion.Template

def quoting : List Char → Template
  | [] => done
  | c :: cs =>
    if c = '\\' ∨ c = '"' ∨ c = '$' then escape c (quoting cs) else literal c (quoting cs)

theorem quotingSpell (cs : List Char) : (quoting cs).spell =
    cs.flatMap fun c => if c = '\\' ∨ c = '"' ∨ c = '$' then ['\\', c] else [c] := by
  induction cs with
  | nil => rfl
  | cons c cs ih =>
    rw [quoting, List.flatMap_cons, ← ih]
    split <;> rfl

theorem quotingReadable (cs after : List Char) : (quoting cs).Readable false after := by
  induction cs with
  | nil => trivial
  | cons c cs ih =>
    rw [quoting]
    split
    · rename_i special
      refine ⟨?_, ih⟩
      rcases special with rfl | rfl | rfl <;> decide
    · rename_i ordinary
      simp only [not_or] at ordinary
      exact ⟨⟨ordinary.1, by simp [opening?, Ne.symm ordinary.2.2]⟩, ih⟩

theorem quotingValue (source : VariableSource) (cs : List Char) :
    (quoting cs).value source false = cs := by
  induction cs with
  | nil => rfl
  | cons c cs ih =>
    rw [quoting]
    split
    · rename_i special
      rw [value, ih]
      rcases special with rfl | rfl | rfl <;> rfl
    · rw [value, ih]

theorem quotingQuoted (cs : List Char) : Lexeme.IsQuotedValue (quoting cs).spell := by
  induction cs with
  | nil => exact .nil
  | cons c cs ih =>
    rw [quoting]
    split
    · rename_i special
      refine .pair ?_ ih
      rcases special with rfl | rfl | rfl <;> rfl
    · rename_i ordinary
      simp only [not_or] at ordinary
      exact .plain ordinary.2.1 ordinary.1 ih

end Expansion.Template

theorem Condition.quotedSpelled (v : String) : (Condition.quoted v).toList =
    '"' :: (Expansion.Template.quoting v.toList).spell ++ ['"'] := by
  simp [Condition.quoted, Expansion.Template.quotingSpell]

theorem Expansion.expandQuoting (source : VariableSource) (v : String) :
    expand source {} (String.ofList (Template.quoting v.toList).spell) = .ok v := by
  rw [templateExpands source _ (Template.quotingReadable v.toList []) (String.toList_ofList).symm,
    Template.quotingValue, String.ofList_toList]

namespace Cursor

theorem lastCommandReadsBack {name : List Char} (named : Lexeme.IsName name)
    {arguments : List Argument} {pieces : List (List Char)}
    (written : List.Forall₂ Argument.WrittenAs arguments pieces)
    (valid : ∀ a ∈ arguments, a.WellFormed) (nested : Argument.Nested 0 arguments)
    (fuel : Nat) (position : Position) :
    ∃ command, commands (fuel + 2) []
        ⟨name ++ '(' :: ([' '].intercalate pieces ++ [')']), position⟩ = .ok [command] ∧
      command.name = String.ofList name ∧
      command.arguments.map Argument.spelling = arguments.map Argument.spelling := by
  have ends : ∀ c ∈ ('(' :: ([' '].intercalate pieces ++ [')'])).head?,
      Lexeme.isNameRest c = false := by
    intro c first
    cases first
    rfl
  have whole := Lexeme.nameWhole named ends
  have enough : arguments.length < ([' '].intercalate pieces ++ [')']).length + 1 := by
    rw [written.length_eq, List.length_append, List.length_singleton]
    exact Nat.lt_succ_of_le (wordsShort pieces)
  obtain ⟨c, inner, rfl, letter, -⟩ := named
  obtain ⟨read, position', taken, same⟩ :=
    argumentsReadBack ⟨_, position⟩ [] written valid nested [] _ enough
  have stays := @skipSeparationStays true
    ⟨c :: inner ++ '(' :: ([' '].intercalate pieces ++ [')']), position⟩
    (by simpa using Lexeme.separatesName letter)
  refine ⟨⟨String.ofList (c :: inner), position.line, position'.line, read⟩, ?_, rfl, same⟩
  rw [commands, stays]
  simp only [bind, Except.bind]
  rw [commandRead whole taken]
  rfl

end Cursor

theorem dropByteOrderMarkName {name : List Char} (named : Lexeme.IsName name) (rest : List Char) :
    dropByteOrderMark (name ++ rest) = name ++ rest := by
  obtain ⟨c, inner, rfl, letter, -⟩ := named
  refine if_neg ?_
  rintro rfl
  cases letter

theorem Step.valuesQuoting (v : String) (line : Nat) {e : Engine} (running : e.fatal = false) :
    (Step.values [⟨String.ofList (Expansion.Template.quoting v.toList).spell, .quoted, line⟩]).run e =
      (some [v], e) := by
  have expanded := Expansion.expandQuoting e.source v
  have words : Step.words [⟨String.ofList (Expansion.Template.quoting v.toList).spell, .quoted,
      line⟩] e = (some [⟨v, true⟩], e) := by
    simp [Step.words, Engine.expandEach, Engine.expandArgument, Engine.expandText, expanded,
      running]
  rw [Step.values, StateT.run_bind, StateT.run, words]
  rfl

/-- A quoted text is one argument of a command, and its value is the text, whatever the
variables are. -/
theorem quotedReadsBack (path name v : String) (named : Lexeme.IsName name.toList) (e : Engine)
    (running : e.fatal = false) : ∃ command a,
    ListFile.parse path (name ++ "(" ++ Condition.quoted v ++ ")") = .ok ⟨path, [command]⟩ ∧
      command.name = name ∧ command.arguments = [a] ∧ a.delimiter = .quoted ∧
      (Step.values command.arguments).run e = (some [v], e) := by
  let body := (Expansion.Template.quoting v.toList).spell
  let written : Argument := ⟨String.ofList body, .quoted, 0⟩
  have valid : ∀ a ∈ [written], a.WellFormed := by
    simpa [written, Argument.WellFormed] using Expansion.Template.quotingQuoted v.toList
  have nested : Argument.Nested 0 [written] :=
    .other (by simp [written, Argument.IsMark]) (by simp [written, Argument.IsMark]) .nil
  have piece : written.WrittenAs (Condition.quoted v).toList :=
    ⟨0, by simp [written], by simp [written, Argument.text, Condition.quotedSpelled, body]⟩
  obtain ⟨command, read, same, spelled⟩ := Cursor.lastCommandReadsBack named
    (.cons piece .nil) valid nested (name.toList.length + (Condition.quoted v).toList.length + 1) {}
  obtain ⟨⟨text, delimiter, line⟩, single, one⟩ :
      ∃ a, command.arguments = [a] ∧ a.spelling = written.spelling := by
    simpa [List.map_eq_cons_iff] using spelled
  obtain ⟨rfl, rfl⟩ := Prod.mk.inj one
  rw [List.intercalate_singleton] at read
  refine ⟨command, _, ?_, by rw [same, String.ofList_toList], single, rfl, ?_⟩
  · have text : (name ++ "(" ++ Condition.quoted v ++ ")").toList =
        name.toList ++ '(' :: ((Condition.quoted v).toList ++ [')']) := by simp
    unfold ListFile.parse
    rw [text, dropByteOrderMarkName named]
    have long : (name.toList ++ '(' :: ((Condition.quoted v).toList ++ [')'])).length + 1 =
        name.toList.length + (Condition.quoted v).toList.length + 1 + 2 := by
      simp only [List.length_append, List.length_cons, List.length_nil]
      omega
    dsimp only
    rw [long, read]
    rfl
  · rw [single]
    exact Step.valuesQuoting v line running

theorem quotedReferenceReadsBack :
    let v := "a\\\n\\\\;\\n\"$\x7bx\x7d$\\"
    let e := (Engine.start {} {} []).define "x" "1"
    Lexeme.IsName "f".toList ∧ e.fatal = false ∧ e.definition? "x" = some "1" ∧ ∃ command a,
      ListFile.parse "" ("f" ++ "(" ++ Condition.quoted v ++ ")") = .ok ⟨"", [command]⟩ ∧
        command.name = "f" ∧ command.arguments = [a] ∧ a.delimiter = .quoted ∧
        (Step.values command.arguments).run e = (some [v], e) := by
  intro v e
  have named : Lexeme.IsName "f".toList := ⟨'f', [], rfl, rfl, List.forall_mem_nil _⟩
  have defined : e.definition? "x" = some "1" := by decide +kernel
  exact ⟨named, rfl, defined, quotedReadsBack "" "f" v named e rfl⟩

end CMakeScript
