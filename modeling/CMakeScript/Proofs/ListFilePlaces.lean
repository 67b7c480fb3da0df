import CMakeScript.ListFile.LineTable
import CMakeScript.ListFile.Parser
import CMakeScript.Proofs.Lexemes
/-! The places that the parser gives. A cursor stands behind the text that was read before, so an
error is placed inside of the text, and lines never go back. -/
namespace CMakeScript

open Lexeme

@[simp] theorem Position.afterAppend (p : Position) (front back : List Char) :
    p.after (front ++ back) = (p.after front).after back := by
  simp [after, Text.byteLengthAppend, Nat.add_assoc]

namespace Cursor

def Takes (c : Cursor) (taken : List Char) (c' : Cursor) : Prop :=
  c.rest = taken ++ c'.rest ∧ c'.position = c.position.after taken

def Reaches (c c' : Cursor) : Prop := ∃ taken, c.Takes taken c'

def Passes (c c' : Cursor) : Prop := ∃ taken, taken ≠ [] ∧ c.Takes taken c'

variable {c c' c'' : Cursor} {taken rest : List Char}

theorem Takes.trans {more : List Char} (first : c.Takes taken c') (second : c'.Takes more c'') :
    c.Takes (taken ++ more) c'' :=
  ⟨by rw [first.1, second.1, List.append_assoc],
    by rw [second.2, first.2, Position.afterAppend]⟩

theorem takesPast (split : c.rest = taken ++ rest) : c.Takes taken (c.past taken rest) :=
  ⟨split, rfl⟩

theorem passesPast (split : c.rest = taken ++ rest) (some : taken ≠ []) :
    c.Passes (c.past taken rest) :=
  ⟨taken, some, takesPast split⟩

theorem Reaches.refl (c : Cursor) : c.Reaches c := ⟨[], rfl, rfl⟩

theorem Reaches.trans (first : c.Reaches c') (second : c'.Reaches c'') : c.Reaches c'' := by
  obtain ⟨taken, first⟩ := first
  obtain ⟨more, second⟩ := second
  exact ⟨taken ++ more, first.trans second⟩

theorem Passes.reaches (passes : c.Passes c') : c.Reaches c' := by
  obtain ⟨taken, -, takes⟩ := passes
  exact ⟨taken, takes⟩

theorem Passes.later (passes : c.Passes c') (reaches : c'.Reaches c'') : c.Passes c'' := by
  obtain ⟨taken, some, takes⟩ := passes
  obtain ⟨more, further⟩ := reaches
  exact ⟨taken ++ more, by simp [some], takes.trans further⟩

theorem Reaches.passes (reaches : c.Reaches c') (passes : c'.Passes c'') : c.Passes c'' := by
  obtain ⟨taken, takes⟩ := reaches
  obtain ⟨more, some, further⟩ := passes
  exact ⟨taken ++ more, by simp [some], takes.trans further⟩

theorem Reaches.line (reaches : c.Reaches c') : c.position.line ≤ c'.position.line := by
  obtain ⟨taken, -, position⟩ := reaches
  rw [position]
  exact Nat.le_add_right _ _

theorem Reaches.total (reaches : c.Reaches c') : c'.total = c.total := by
  obtain ⟨taken, split, position⟩ := reaches
  rw [Cursor.total, Cursor.total, split, position, Text.byteLengthAppend]
  exact Nat.add_assoc ..

theorem Reaches.suffix (reaches : c.Reaches c') : c'.rest <:+ c.rest := by
  obtain ⟨taken, split, -⟩ := reaches
  exact ⟨taken, split.symm⟩

theorem Passes.shorter (passes : c.Passes c') : c'.rest.length < c.rest.length := by
  obtain ⟨taken, some, split, -⟩ := passes
  have length := List.length_pos_iff.mpr some
  rw [split, List.length_append]
  omega

end Cursor

structure SyntaxError.Behind (c : Cursor) (error : SyntaxError) : Prop where
  place : ∃ c', c.Reaches c' ∧ error.line = c'.position.line ∧ error.start = c'.position.offset
  ordered : error.start ≤ error.stop
  inside : error.stop ≤ c.total

def Cursor.Yields {α : Type} (c : Cursor) (good : α → Prop) : Except SyntaxError α → Prop
  | .ok a => good a
  | .error error => error.Behind c

namespace Cursor

variable {α β : Type} {base c c' : Cursor}

theorem Yields.bind {good : α → Prop} {better : β → Prop} {m : Except SyntaxError α}
    {next : α → Except SyntaxError β} (first : base.Yields good m)
    (second : ∀ a, good a → base.Yields better (next a)) : base.Yields better (m >>= next) := by
  cases m with
  | error => exact first
  | ok a => exact second a first

theorem Yields.imp {good better : α → Prop} {m : Except SyntaxError α} (yields : base.Yields good m)
    (more : ∀ a, good a → better a) : base.Yields better m := by
  cases m with
  | error => exact yields
  | ok a => exact more a yields

theorem offsetInside (c : Cursor) : c.position.offset ≤ c.total := Nat.le_add_right _ _

theorem faultToEndBehind (reaches : base.Reaches c) (fault : SyntaxFault) :
    (c.faultToEnd fault).Behind base where
  place := ⟨c, reaches, rfl, rfl⟩
  ordered := c.offsetInside
  inside := Nat.le_of_eq reaches.total

theorem faultHereBehind (reaches : base.Reaches c) (fault : SyntaxFault) :
    (c.faultHere fault).Behind base where
  place := ⟨c, reaches, rfl, rfl⟩
  ordered := Nat.le_min.mpr ⟨Nat.le_succ _, c.offsetInside⟩
  inside := Nat.le_trans (Nat.min_le_right _ _) (Nat.le_of_eq reaches.total)

theorem skipCommentPlaced (reaches : base.Reaches c) (hash : c.rest.head? = some '#') :
    base.Yields c.Passes c.skipComment := by
  obtain ⟨body, starts⟩ := List.head?_eq_some_iff.mp hash
  have inner : c.rest.drop 1 = body := by rw [starts, List.drop_one, List.tail_cons]
  unfold skipComment
  dsimp only
  rw [inner]
  split
  · rename_i level inside opened
    split
    · rename_i content rest cut
      refine passesPast ?_ (by simp)
      rw [starts, bracketOpenTakes opened, Text.cutAtSplits cut]
      simp
    · exact faultToEndBehind reaches _
  · refine passesPast ?_ (by simp)
    rw [starts, List.cons_append, List.takeWhile_append_dropWhile]

theorem skipSeparationPlaced (newlines : Bool) (fuel : Nat) (reaches : base.Reaches c) :
    base.Yields c.Reaches (c.skipSeparation newlines fuel) := by
  induction fuel generalizing c with
  | zero => exact Reaches.refl c
  | succ fuel ih =>
    rw [skipSeparation]
    split
    · exact Reaches.refl c
    · rename_i d rest here
      split
      · have step : c.Reaches (c.past [d] rest) := ⟨[d], takesPast here⟩
        exact (ih (reaches.trans step)).imp fun _ further => step.trans further
      · split
        · rename_i hash
          subst hash
          have comment := skipCommentPlaced reaches (c := c) (by rw [here]; rfl)
          refine comment.bind fun c₁ passes => ?_
          exact (ih (reaches.trans passes.reaches)).imp fun _ further =>
            passes.reaches.trans further
        · exact Reaches.refl c

theorem argumentPlaced (reaches : base.Reaches c) :
    base.Yields (fun read => c.Reaches read.2 ∧ read.1.line = c.position.line) c.argument := by
  unfold argument
  dsimp only
  split
  · rename_i inside starts
    split
    · rename_i body rest quoted
      refine ⟨⟨_, takesPast ?_⟩, rfl⟩
      rw [starts, (quotedBodyTakes quoted).2]
      simp
    · exact faultToEndBehind reaches _
  · split
    · rename_i level inside opened
      split
      · rename_i content rest cut
        refine ⟨⟨_, takesPast ?_⟩, rfl⟩
        rw [bracketOpenTakes opened, Text.cutAtSplits cut]
        simp
      · exact faultToEndBehind reaches _
    · split
      · exact faultToEndBehind reaches _
      · rename_i body rest taken
        exact ⟨⟨body, takesPast (unquotedSplits taken)⟩, rfl⟩

def Spans (c c' : Cursor) (arguments : List Argument) : Prop :=
  ∀ a ∈ arguments, c.position.line ≤ a.line ∧ a.line ≤ c'.position.line

theorem argumentsPlaced {start : Cursor} (starts : base.Reaches start) (fuel depth : Nat)
    (found : List Argument) (reaches : base.Reaches c) :
    base.Yields (fun read => c.Passes read.2 ∧
      ∃ more, read.1 = found.reverse ++ more ∧ c.Spans read.2 more)
      (arguments start fuel depth found c) := by
  induction fuel generalizing depth found c with
  | zero => exact faultToEndBehind starts _
  | succ fuel ih =>
    rw [arguments]
    refine (skipSeparationPlaced true _ reaches).bind fun c₁ skipped => ?_
    have reached := reaches.trans skipped
    have goesOn {a : Argument} {c₂ : Cursor} {depth : Nat} (reaches : c₁.Reaches c₂)
        (line : a.line = c₁.position.line) :
        base.Yields (fun read => c.Passes read.2 ∧
          ∃ more, read.1 = found.reverse ++ more ∧ c.Spans read.2 more)
          (arguments start fuel depth (a :: found) c₂) := by
      refine (ih depth (a :: found) (reached.trans reaches)).imp fun read good => ?_
      obtain ⟨further, more, same, spans⟩ := good
      have last := (reaches.trans further.reaches).line
      refine ⟨(skipped.trans reaches).passes further, a :: more, by simp [same], ?_⟩
      refine List.forall_mem_cons.mpr ⟨⟨line ▸ skipped.line, line ▸ last⟩, fun b member => ?_⟩
      have between := spans b member
      have first := (skipped.trans reaches).line
      omega
    dsimp only
    split
    · exact faultToEndBehind starts _
    · rename_i rest here
      have mark : c₁.Passes (c₁.past [')'] rest) := passesPast here (by simp)
      split
      · exact ⟨skipped.passes mark, [], by simp, nofun⟩
      · exact goesOn mark.reaches rfl
    · rename_i rest here
      exact goesOn ⟨_, takesPast here⟩ rfl
    · exact (argumentPlaced reached).bind fun read good => goesOn good.1 good.2

end Cursor

def Command.KeepsLines (command : Command) : Prop :=
  ∀ a ∈ command.arguments, command.line ≤ a.line ∧ a.line ≤ command.lineEnd

namespace Cursor

variable {base c : Cursor}

theorem commandPlaced (reaches : base.Reaches c) :
    base.Yields (fun read => c.Passes read.2 ∧ read.1.line = c.position.line ∧
      read.1.KeepsLines) c.command := by
  unfold Cursor.command
  split
  · exact faultHereBehind reaches _
  · rename_i name rest named
    obtain ⟨⟨first, inner, same, -, -⟩, split⟩ := nameTakes named
    have passed : c.Passes (c.past name rest) := passesPast split (by simp [same])
    have spaced : (c.past name rest).Reaches ((c.past name rest).past
        (rest.takeWhile isSpace) (rest.dropWhile isSpace)) :=
      ⟨_, takesPast (List.takeWhile_append_dropWhile).symm⟩
    dsimp only
    split
    · rename_i inside opened
      let behind := (c.past name rest).past (rest.takeWhile isSpace) (rest.dropWhile isSpace)
      have mark : behind.Takes ['('] (behind.past ['('] inside) := takesPast opened
      have through := (passed.later spaced).later ⟨_, mark⟩
      have reached := reaches.trans through.reaches
      refine (argumentsPlaced reaches _ 0 [] reached).bind fun read good => ?_
      obtain ⟨further, more, same, spans⟩ := good
      refine ⟨through.later further.reaches, rfl, fun a member => ?_⟩
      have between := spans a (by simpa [same] using member)
      exact ⟨Nat.le_trans through.reaches.line between.1, between.2⟩
    · exact faultHereBehind (reaches.trans (passed.later spaced).reaches) _

theorem lineEndPlaced (reaches : base.Reaches c) : base.Yields c.Reaches c.lineEnd := by
  unfold lineEnd
  refine (skipSeparationPlaced false _ reaches).bind fun c₁ skipped => ?_
  split
  · exact skipped
  · split
    · rename_i taken rest found
      exact skipped.trans ⟨taken, takesPast (newlineTakes found)⟩
    · exact faultHereBehind (reaches.trans skipped) _

theorem commandsPlaced (fuel : Nat) (found : List Command) (reaches : base.Reaches c) :
    base.Yields (fun read => ∃ more, read = found.reverse ++ more ∧
      more.Pairwise (·.line ≤ ·.line) ∧
      ∀ command ∈ more, c.position.line ≤ command.line ∧ command.KeepsLines)
      (commands fuel found c) := by
  induction fuel generalizing found c with
  | zero => exact faultToEndBehind reaches _
  | succ fuel ih =>
    rw [Cursor.commands]
    refine (skipSeparationPlaced true _ reaches).bind fun c₁ skipped => ?_
    have reached := reaches.trans skipped
    split
    · exact ⟨[], by simp, .nil, nofun⟩
    · refine (commandPlaced reached).bind fun read good => ?_
      obtain ⟨passes, line, keeps⟩ := good
      refine (lineEndPlaced (reached.trans passes.reaches)).bind fun c₃ ended => ?_
      have through := passes.reaches.trans ended
      refine (ih (read.1 :: found) (reached.trans through)).imp fun commands later => ?_
      obtain ⟨more, same, rising, behind⟩ := later
      refine ⟨read.1 :: more, by simp [same],
        List.pairwise_cons.mpr ⟨fun command member => ?_, rising⟩,
        List.forall_mem_cons.mpr ⟨⟨line ▸ skipped.line, keeps⟩, fun command member => ?_⟩⟩
      · rw [line]
        exact Nat.le_trans through.line (behind command member).1
      · have further := behind command member
        exact ⟨Nat.le_trans (skipped.trans through).line further.1, further.2⟩

theorem Reaches.splitsText {text : List Char} (reaches : (⟨text, {}⟩ : Cursor).Reaches c) :
    ∃ front, text = front ++ c.rest ∧ c.position.offset = Text.byteLength front ∧
      c.position.line = 1 + front.count '\n' := by
  obtain ⟨front, split, position⟩ := reaches
  exact ⟨front, split, by simp [position, Position.after], by simp [position, Position.after]⟩

end Cursor

/-- The place is in the text, and its line is the one that the line feeds before it make it. -/
structure SyntaxError.PlacedIn (text : List Char) (error : SyntaxError) : Prop where
  ordered : error.start ≤ error.stop
  inside : error.stop ≤ Text.byteLength text
  line : error.line = 1 + ((Text.bytes text).take error.start).count 10
  found : error.line = (LineTable.ofText text).lineAt error.start

theorem SyntaxError.Behind.placed {text : List Char} {error : SyntaxError}
    (behind : error.Behind ⟨text, {}⟩) : error.PlacedIn text := by
  obtain ⟨c, reaches, line, start⟩ := behind.place
  obtain ⟨front, split, offset, feeds⟩ := reaches.splitsText
  have before : (Text.bytes text).take error.start = Text.bytes front := by
    rw [start, offset, split, Text.bytesAppend, ← Text.bytesLength, List.take_left]
  have total : (⟨text, {}⟩ : Cursor).total = Text.byteLength text := Nat.zero_add _
  refine ⟨behind.ordered, total ▸ behind.inside, ?_, ?_⟩
  · rw [before, Text.feedsBytes, line, feeds]
  · rw [line, feeds, start, offset, split, LineTable.lineAtCut]

end CMakeScript
