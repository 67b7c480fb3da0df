import CMakeScript.Execution.Start
import CMakeScript.Proofs.BranchBodies
import CMakeScript.Proofs.OpenState
/-! Which commands of a branch are run. The flags and the depth that are kept while its commands are
gone through come to this: the conditions are evaluated up to the first one that holds, and the
commands of its part are run. -/
namespace CMakeScript

open BranchBody

theorem Step.bindOf {α β : Type} {first : Step α} {next : α → Step β} {a : α} {e e' : Engine}
    (ends : first e = (a, e')) : (first >>= next) e = next a e' := by
  change (next (first e).1) (first e).2 = next a e'
  rw [ends]

namespace BranchState

variable {s : BranchState} {arguments : List Argument} {trace : Backtrace} {e e' : Engine}

theorem otherwiseRefused (complete : s.elseSeen = true) : s.otherwise trace e =
    (none, e.fatalErrorAt "A duplicate ELSE command was found inside an IF block." trace) := by
  rw [otherwise, if_pos complete]
  rfl

theorem otherwiseEntered (awaited : s.elseSeen = false) : s.otherwise trace e =
    (some { s with active := !s.selected, selected := true, elseSeen := true }, e) := by
  rw [otherwise, awaited]
  rfl

theorem alternativeRefused (complete : s.elseSeen = true) : s.alternative arguments trace e =
    (none, e.fatalErrorAt "An ELSEIF command was found after an ELSE command." trace) := by
  rw [alternative, if_pos complete]
  rfl

theorem alternativePassed (awaited : s.elseSeen = false) (selected : s.selected = true) :
    s.alternative arguments trace e = (some { s with active := false }, e) := by
  rw [alternative, awaited, selected]
  rfl

theorem alternativeDecided {held : Bool} (decides : Condition.Decides arguments trace e held e') :
    (start false).alternative arguments trace e = (some (start held), e') := by
  obtain ⟨words, e₁, expanded, evaluated⟩ := decides
  rw [alternative, if_neg (by decide), if_neg (by decide), Step.bindOf expanded]
  dsimp only
  rw [Step.bindOf evaluated]
  cases held <;> rfl

end BranchState

theorem BranchPart.failOrHold {file : String} {parts : List (BranchPart "elseif")} {e : Engine}
    (evaluate : Evaluate file parts e) : (∃ e', Fail file parts e e') ∨
      ∃ before part after e₁ e₂, parts = before ++ part :: after ∧ Fail file before e e₁ ∧
        part.Decides file e₁ true e₂ := by
  induction parts generalizing e with
  | nil => exact .inl ⟨e, .none⟩
  | cons p rest ih =>
    obtain ⟨held, e₁, decides⟩ := evaluate [] p rest e rfl .none
    cases held with
    | true => exact .inr ⟨[], p, rest, e, e₁, rfl, .none, decides⟩
    | false =>
      have further : Evaluate file rest e₁ := fun before part after e₂ split fail =>
        evaluate (p :: before) part after e₂ (by rw [split, List.cons_append]) (.next decides fail)
      obtain ⟨e', fail⟩ | ⟨before, part, after, e₂, e₃, split, fail, holds⟩ := ih further
      · exact .inl ⟨e', .next decides fail⟩
      · exact .inr ⟨p :: before, part, after, e₂, e₃, by rw [split, List.cons_append],
          .next decides fail, holds⟩

theorem BranchBody.selectsSome {b : BranchBody} {file : String} {held : Bool} {e : Engine}
    (evaluate : held = false → BranchPart.Evaluate file b.alternatives e) :
    ∃ chosen e', b.Selects file held e chosen e' := by
  cases held with
  | true => exact ⟨_, _, .first⟩
  | false =>
    obtain ⟨e', fail⟩ | ⟨before, part, after, e₁, e₂, split, fail, holds⟩ :=
      BranchPart.failOrHold (evaluate rfl)
    · exact ⟨_, _, .otherwise fail⟩
    · exact ⟨_, _, .alternative split fail holds⟩

namespace Runner

variable {r : Runner} {file : String} {o : Outcome} {s : BranchState} {commands : List Command}

@[simp] theorem runThroughNil (next : Run Outcome) : r.runThrough [] o next = next := by
  simp [runThrough, untilTransfer]

theorem runThroughCons (c : Command) (next : Run Outcome) :
    r.runThrough (c :: commands) o next = (do
      let (_, inner) ← r.run c
      match inner.transfer? with
      | some t => return o.request t
      | none => r.runThrough commands o next) := by
  simp only [runThrough, untilTransfer, bind_assoc]
  refine bind_congr fun result => ?_
  cases result.2.transfer? <;> simp

theorem branchStep {c : Command} {depth : Nat} {rest : List Command} {next : Run Outcome}
    (entered : s.enter c.lowerName = { s with depth }) (ordinary : c.StartsPart → 0 < depth)
    (known : r.branch file { s with depth } rest o =
      r.runThrough (if s.active then commands else []) o next) :
    r.branch file s (c :: rest) o =
      r.runThrough (if s.active then c :: commands else []) o next := by
  have inner : ¬(depth = 0 ∧ (c.lowerName = "else" ∨ c.lowerName = "elseif")) := fun starts =>
    Nat.ne_of_gt (ordinary starts.2) starts.1
  rw [branch]
  dsimp only
  rw [entered, if_neg inner, known]
  cases s.active with
  | false => rfl
  | true =>
    simp only [if_true]
    refine Eq.trans (bind_congr fun result => ?_) (runThroughCons c next).symm
    cases ended : result.2.transfer? <;> simp [ended]

theorem branchInside {depth : Nat} (inside : Command.Inside depth commands)
    (behind : s.depth = depth) (rest : List Command) :
    r.branch file s (commands ++ rest) o =
      r.runThrough (if s.active then commands else []) o
        (r.branch file { s with depth := 0 } rest o) := by
  -- The depth of the state is the index all along.
  induction inside generalizing s with
  | nil => simp [← behind]
  | @opens depth c commands named further ih =>
    have entered : s.enter c.lowerName = { s with depth := depth + 1 } := by
      simp [BranchState.enter, named, behind]
    exact branchStep entered (fun _ => Nat.succ_pos depth) (ih rfl)
  | @closes depth c commands named further ih =>
    have entered : s.enter c.lowerName = { s with depth } := by
      simp [BranchState.enter, named, behind]
    have ordinary : ¬c.StartsPart := by
      rw [Command.StartsPart, named]
      decide
    exact branchStep entered (fun starts => absurd starts ordinary) (ih rfl)
  | @other depth c commands plain belongs further ih =>
    have entered : s.enter c.lowerName = { s with depth } := by
      simp [BranchState.enter, plain, ← behind]
    exact branchStep entered belongs (ih rfl)

theorem branchStarts {c : Command} (outermost : s.depth = 0) (starts : c.StartsPart)
    (rest : List Command) (e : Engine) :
    let trace := e.backtrace.push (Frame.ofCommand c file)
    r.branch file s (c :: rest) o e =
      match (if c.lowerName = "else" then s.otherwise trace
        else s.alternative c.arguments trace) e with
      | (some s, e) => r.branch file s rest o e
      | (none, e) => .ok (o, e) := by
  have entered : s.enter c.lowerName = s := by
    obtain named | named := starts <;> simp [BranchState.enter, named]
  rw [branch]
  dsimp only
  rw [entered, if_pos ⟨outermost, starts⟩]
  dsimp only [bind, StateT.bind, get, getThe, MonadStateOf.get, StateT.get, pure, Except.pure,
    Except.bind, Step.lift]
  generalize (if c.lowerName = "else" then s.otherwise (e.backtrace.push (Frame.ofCommand c file))
    else s.alternative c.arguments (e.backtrace.push (Frame.ofCommand c file))) e = answer
  rcases answer with ⟨- | s, e⟩ <;> rfl

theorem branchSurplus {surplus : List Command} (outermost : s.depth = 0)
    (complete : s.elseSeen = true) (starts : ∀ c ∈ surplus.head?, c.StartsPart) :
    r.branch file s surplus o = (do modify (refuse file surplus); return o) := by
  cases surplus with
  | nil => rfl
  | cons c rest =>
    funext e
    have refused : (do modify (refuse file (c :: rest)); return o : Run Outcome) e =
        .ok (o, e.fatalErrorAt (refusal c) (e.backtrace.push (Frame.ofCommand c file))) := rfl
    rw [branchStarts outermost (starts c rfl), refused, refusal]
    by_cases last : c.lowerName = "else"
    · rw [if_pos last, if_pos last, BranchState.otherwiseRefused complete]
    · rw [if_neg last, if_neg last, BranchState.alternativeRefused complete]

theorem branchLast (p : LastPart) (outermost : s.depth = 0) (awaited : s.elseSeen = false) :
    r.branch file s p.all o = r.runThrough (if s.selected then [] else p.commands) o
      (do modify (refuse file p.surplus); return o) := by
  let s' : BranchState := { s with active := !s.selected, selected := true, elseSeen := true }
  have entered : r.branch file s p.all o = r.branch file s' (p.commands ++ p.surplus) o := by
    funext e
    rw [LastPart.all, BranchPart.all, List.cons_append, branchStarts outermost (.inl p.named),
      if_pos p.named, BranchState.otherwiseEntered awaited]
  rw [entered, branchInside p.inside (s := s') outermost, branchSurplus rfl rfl p.starts]
  cases selected : s.selected <;> simp [s', selected]

theorem branchEnding (b : BranchBody) (outermost : s.depth = 0) (awaited : s.elseSeen = false) :
    r.branch file s b.ending o = r.runThrough (if s.selected then [] else b.fallback) o
      (do modify (refuse file b.surplus); return o) := by
  rw [ending, fallback, surplus]
  cases b.otherwise with
  | some p => exact branchLast p outermost awaited
  | none =>
    simp only [Option.elim_none, ite_self, runThroughNil]
    rfl

theorem notElse {p : BranchPart "elseif"} : p.command.lowerName ≠ "else" := by
  rw [p.named]
  decide

theorem branchPassed (b : BranchBody) (alternatives : List (BranchPart "elseif"))
    (outermost : s.depth = 0) (awaited : s.elseSeen = false) (selected : s.selected = true) :
    r.branch file s (alternatives.flatMap (·.all) ++ b.ending) o =
      (do modify (refuse file b.surplus); return o) := by
  induction alternatives generalizing s with
  | nil =>
    rw [List.flatMap_nil, List.nil_append, branchEnding b outermost awaited, if_pos selected,
      runThroughNil]
  | cons p rest ih =>
    let s' : BranchState := { s with active := false }
    have entered (more : List Command) :
        r.branch file s (p.command :: more) o = r.branch file s' more o := by
      funext e
      rw [branchStarts outermost (.inr p.named), if_neg notElse,
        BranchState.alternativePassed awaited selected]
    rw [List.flatMap_cons, BranchPart.all, List.append_assoc, List.cons_append, entered,
      branchInside p.inside (s := s') outermost]
    simp only [s', Bool.false_eq_true, if_false, runThroughNil]
    exact ih rfl awaited selected

theorem branchDecides {p : BranchPart "elseif"} {e e' : Engine} {held : Bool}
    (decides : p.Decides file e held e') (rest : List Command) :
    r.branch file (.start false) (p.command :: rest) o e =
      r.branch file (.start held) rest o e' := by
  rw [branchStarts rfl (.inr p.named), if_neg notElse, BranchState.alternativeDecided decides]

theorem branchFails {alternatives : List (BranchPart "elseif")} {e e' : Engine}
    (fail : BranchPart.Fail file alternatives e e') (rest : List Command) :
    r.branch file (.start false) (alternatives.flatMap (·.all) ++ rest) o e =
      r.branch file (.start false) rest o e' := by
  induction fail with
  | none => rfl
  | @next p alternatives e e₁ e₂ fails further ih =>
    rw [List.flatMap_cons, BranchPart.all, List.append_assoc, List.cons_append,
      branchDecides fails, branchInside p.inside (s := .start false) rfl]
    exact ih

theorem branchSelects {b : BranchBody} {held : Bool} {e e' : Engine} {chosen : List Command}
    (selects : b.Selects file held e chosen e') :
    r.branch file (.start held) b.commands o e = r.selected file chosen b.surplus o e' := by
  rw [BranchBody.commands, branchInside b.inside (s := .start held) rfl]
  cases selects with
  | first =>
    rw [branchPassed b _ rfl rfl rfl]
    rfl
  | @alternative before part after e e₁ e₂ split fail holds =>
    change r.runThrough [] o (r.branch file (.start false) _ o) e = _
    rw [runThroughNil, split, List.flatMap_append, List.append_assoc, branchFails fail,
      List.flatMap_cons, BranchPart.all, List.append_assoc, List.cons_append, branchDecides holds,
      branchInside part.inside (s := .start true) rfl, branchPassed b after rfl rfl rfl]
    rfl
  | otherwise fail =>
    change r.runThrough [] o (r.branch file (.start false) _ o) e = _
    rw [runThroughNil, branchFails fail, branchEnding b rfl rfl]
    rfl

end Runner

theorem Command.ifBlockOpensBranch {arguments : List Argument} {e e' : Engine} {held : Bool}
    (decides : Condition.Decides arguments e.backtrace e held e') :
    Command.ifBlock arguments e =
      (.done, e'.openBlock (.conditional arguments held) "if" "endif") := by
  obtain ⟨words, e₁, expanded, evaluated⟩ := decides
  have edited : e.SameOpen (Step.words arguments e).2 := .edits (Step.editsWords arguments e)
  rw [expanded] at edited
  have same : e₁.backtrace = e.backtrace := edited.backtrace
  unfold Command.ifBlock
  rw [Step.bindOf expanded]
  dsimp only
  have here : (get : Step Engine) e₁ = (e₁, e₁) := rfl
  rw [Step.bindOf here, same, Step.bindOf evaluated]
  rfl

namespace Runner

/-- The condition of a branch is evaluated where it is opened, and the others where it is closed. -/
theorem branchRunsSelection {arguments : List Argument} {e e₁ : Engine} {held : Bool}
    (decides : Condition.Decides arguments e.backtrace e held e₁) {commands : List Command}
    {closing : Command} {b : OpenBlock Block}
    (captured : ((e₁.openBlock (.conditional arguments held) "if" "endif").blocks.offerAll
      (commands ++ [closing])).2 =
        List.replicate commands.length .recorded ++ [.closed b]) :
    Command.ifBlock arguments e =
      (.done, e₁.openBlock (.conditional arguments held) "if" "endif") ∧
    (∃ body : BranchBody, body.commands = commands) ∧
    ∀ body : BranchBody, body.commands = commands →
      (∀ e₂, (held = false → BranchPart.Evaluate b.opened.file body.alternatives e₂) →
        ∃ chosen e₃, body.Selects b.opened.file held e₂ chosen e₃) ∧
      (∀ (r : Runner) (o : Outcome) {e₂ e₃ : Engine} {chosen : List Command},
        body.Selects b.opened.file held e₂ chosen e₃ →
        r.replay b o e₂ = (do
          return (true, ← r.selected b.opened.file chosen body.surplus o) : Run _) e₃) ∧
      ∀ e, body.surplus ≠ [] → (refuse b.opened.file body.surplus e).fatal = true := by
  obtain ⟨block, opened, taken, falls⟩ := takenBodyExists captured
  refine ⟨Command.ifBlockOpensBranch decides, falls, fun body same =>
    ⟨fun e₂ => BranchBody.selectsSome, ?_, ?_⟩⟩
  · intro r o e₂ e₃ chosen selects
    have run := branchSelects (r := r) (o := o) selects
    have replayed : r.replay b o = (do
        return (true, ← r.branch b.opened.file (.start held) body.commands o)) := by
      rw [replay, block, taken, same]
    rw [replayed]
    exact congrArg (Except.bind · fun ended => .ok ((true, ended.1), ended.2)) run
  · intro e surplus
    obtain ⟨c, rest, here⟩ := List.exists_cons_of_ne_nil surplus
    rw [here]
    rfl

theorem branchRunsAlternative :
    let c (name : String) : Command := ⟨name, 1, 1, []⟩
    let holding : Command := ⟨"elseif", 1, 1, [⟨"TRUE", .unquoted, 1⟩]⟩
    let chosen := [c "foreach", c "IF", c "Else", c "endif", c "endforeach"]
    let commands := [c "set", holding] ++ chosen ++ [c "elseif", c "ELSE", c "set", c "else"]
    let e := Engine.start {} {} []
    let e₁ := e.logged .tested
    let r := Runner.ofFuel 9
    ∃ b, ((e₁.openBlock (.conditional [] false) "if" "endif").blocks.offerAll
        (commands ++ [c "EndIf"])).2 = List.replicate commands.length .recorded ++ [.closed b] ∧
      Condition.Decides [] e.backtrace e false e₁ ∧
      ∃ body : BranchBody, body.commands = commands ∧ body.Selects b.opened.file false e chosen e₁ ∧
        r.replay b {} e = (do
          return (true, ← r.selected b.opened.file chosen [c "else"] {}) : Run _) e₁ ∧
        (refuse b.opened.file [c "else"] e₁).fatal = true := by
  intro c holding chosen commands e e₁ r
  let b : OpenBlock Block :=
    ⟨.conditional [] false, "if", "endif", e₁.place, 0, commands.reverse⟩
  have captured : ((e₁.openBlock (.conditional [] false) "if" "endif").blocks.offerAll
      (commands ++ [c "EndIf"])).2 = List.replicate commands.length .recorded ++ [.closed b] := by
    decide +kernel
  have decides : Condition.Decides [] e.backtrace e false e₁ := ⟨_, _, rfl, rfl⟩
  let part : BranchPart "elseif" :=
    ⟨holding, by decide +kernel, chosen, by decide +kernel⟩
  let body : BranchBody :=
    { first := [c "set"], inside := by decide +kernel
      alternatives := [part, ⟨c "elseif", by decide +kernel, [], .nil⟩]
      otherwise := some ⟨⟨c "ELSE", by decide +kernel, [c "set"], by decide +kernel⟩, [c "else"],
        by decide +kernel⟩ }
  have holds : part.Decides b.opened.file e true e₁ := ⟨_, _, rfl, rfl⟩
  have selects : body.Selects b.opened.file false e part.commands e₁ :=
    .alternative (show body.alternatives = [] ++ part :: _ from rfl) .none holds
  obtain ⟨-, runs, refused⟩ := (branchRunsSelection decides captured).2.2 body rfl
  exact ⟨b, captured, decides, body, rfl, selects, runs r {} selects, refused e₁ (by decide)⟩

end Runner
end CMakeScript
