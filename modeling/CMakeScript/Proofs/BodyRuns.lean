import CMakeScript.Proofs.Conduct
/-! Bodies of loops, branches, scopes and definitions keep what each of their commands keeps, and
hand on the return or the exit that one of them comes with. -/
namespace CMakeScript
open Conduct

def Pass.transfer? : Pass → Option Transfer
  | left t? => t?
  | _ => none

theorem Pass.forwardAsking (p : Pass) (o : Outcome) : p.forward o = o.asking p.transfer? := by
  rcases p with - | (- | t) | - <;> rfl

namespace Runner

variable {G : Type} {C : Conduct G} {r : Runner} {g : G} {e : Engine}

theorem passEnds (runs : C.Runs r) (body : List Command) (able : C.Able r e)
    (holds : C.Holds .going g e) :
    C.Ends (r.pass body) e fun p e' => C.Holds (.of false p.transfer?) g e' ∧ C.Able r e' := by
  induction body generalizing e with
  | nil => exact endsPure ⟨holds, able⟩
  | cons c rest ih =>
    refine endsBind (runs.run c able holds) fun result e₁ ⟨answer, rounds⟩ => ?_
    have holds := answer.holds
    have able : C.Able r e₁ := fun _ => rounds
    rcases result with ⟨succeeded, inner⟩
    rw [Status.after] at holds
    dsimp only
    split
    case h_1 continuing =>
      rw [continuing] at holds
      exact endsPure ⟨holds, able⟩
    case h_2 breaking =>
      rw [breaking] at holds
      exact endsPure ⟨holds, able⟩
    case h_3 t _ _ leaving =>
      rw [leaving] at holds
      exact endsPure ⟨holds.passedOn, able⟩
    case h_4 none =>
      rw [none] at holds
      refine endsGet ?_
      split
      · exact endsPure ⟨holds, able⟩
      · exact ih able holds

theorem passesEnds {α : Type} (runs : C.Runs r) {prepare : α → Engine → Engine}
    (moves : ∀ a e, Moves e (prepare a e)) (body : List Command) (things : List α)
    (holds : C.Holds .going g e) (able : C.Able r e := by exact False.elim) :
    C.Ends (r.passes prepare body things) e fun p => C.Holds (.of false p.transfer?) g := by
  induction things generalizing e with
  | nil => exact endsPure holds
  | cons a rest ih =>
    have prepared := able.steady (.edits (moves a e).edits)
    refine endsModify
      (endsBind (passEnds runs body prepared (holds.moves trivial (moves a e))) ?_)
    intro p e₁ ⟨holds, able⟩
    split
    · exact ih holds able
    · exact endsPure holds

/-- A condition that holds was found to do so while the run went on. -/
def Seen (condition : Step Bool) : Prop :=
  ∀ e, (condition e).1 = true → ∃ e₁, e₁.fatal = false ∧ Moves e e₁ ∧ Edits e₁ (condition e).2

theorem passesWhileEnds (runs : C.Runs r) {condition : Step Bool} (moves : condition.Moves)
    (seen : Seen condition) (body : List Command) (fuel : Nat) (able : C.Able r e)
    (holds : C.Holds .going g e) :
    C.Ends (r.passesWhile condition body fuel) e fun p => C.Holds (.of false p.transfer?) g := by
  have early {e : Engine} (holds : C.Holds .going g e) (held : (condition e).1 = true) :
      C.Early (condition e).2 := by
    obtain ⟨e₁, live, before, edits⟩ := seen e held
    exact ((holds.moves trivial before).early live).steady (.edits edits)
  induction fuel generalizing e with
  | zero =>
    unfold passesWhile
    refine endsLift ?_
    split
    case isTrue held => exact endsHalt (holds.moves trivial (moves e)).stop (early holds held) _
    case isFalse => exact endsPure (holds.moves trivial (moves e))
  | succ fuel ih =>
    unfold passesWhile
    refine endsLift ?_
    have able := able.steady (.edits (moves e).edits)
    have holds := holds.moves trivial (moves e)
    split
    · refine endsBind (passEnds runs body able holds) fun p e₁ ⟨holds, able⟩ => ?_
      split
      · exact ih able holds
      · exact endsPure holds
    · exact endsPure holds

theorem otherwiseMoves (s : BranchState) (trace : Backtrace) : (s.otherwise trace).Moves := by
  unfold BranchState.otherwise
  split
  · exact Step.movesBind (Step.movesModify fun e => .fatalErrorAt e _ _) fun _ => Step.movesPure _
  · exact Step.movesPure _

theorem alternativeMoves (s : BranchState) (arguments : List Argument) (trace : Backtrace) :
    (s.alternative arguments trace).Moves := by
  unfold BranchState.alternative
  split
  · exact Step.movesBind (Step.movesModify fun e => .fatalErrorAt e _ _) fun _ => Step.movesPure _
  · split
    · exact Step.movesPure _
    · refine Step.movesWordsBind arguments (Step.movesPure _) fun words => ?_
      refine Step.editsBind (Condition.evaluateEdits _ _) fun result => ?_
      split
      · exact Step.editsPure _
      · exact Step.editsPure _
      · exact Step.editsBind (Step.editsModify fun e => .fatalErrorAt e _ _) fun _ =>
          Step.editsPure _

def Hands (C : Conduct G) (g : G) (o o' : Outcome) (e : Engine) : Prop :=
  ∃ t?, o' = o.asking t? ∧ C.Holds (.of false t?) g e

theorem branchEnds (runs : C.Runs r) (file : String) (s : BranchState) (body : List Command)
    (o : Outcome) (able : C.Able r e) (holds : C.Holds .going g e) :
    C.Ends (r.branch file s body o) e (Hands C g o) := by
  induction body generalizing s e with
  | nil => exact endsPure ⟨none, rfl, holds⟩
  | cons c rest ih =>
    unfold branch
    dsimp only
    split
    · refine endsGet (endsLift ?_)
      have moves : Moves e ((if c.lowerName = "else" then
          (s.enter c.lowerName).otherwise (e.backtrace.push (Frame.ofCommand c file))
        else (s.enter c.lowerName).alternative c.arguments
          (e.backtrace.push (Frame.ofCommand c file))) e).2 := by
        split
        · exact otherwiseMoves _ _ e
        · exact alternativeMoves _ _ _ e
      have able := able.steady (.edits moves.edits)
      have holds := holds.moves trivial moves
      split
      · exact ih _ able holds
      · exact endsPure ⟨none, rfl, holds⟩
    · split
      · refine endsBind (runs.run c able holds) fun result e₁ ⟨answer, rounds⟩ => ?_
        have holds := answer.holds
        rcases result with ⟨succeeded, inner⟩
        rw [Status.after] at holds
        dsimp only
        split
        case h_1 t leaving =>
          rw [leaving] at holds
          exact endsPure ⟨some t, rfl, holds.passedOn⟩
        case h_2 none =>
          rw [none] at holds
          exact ih _ (fun _ => rounds) holds
      · exact ih _ able holds

theorem loopHoldsTests (arguments : List Argument) (trace : Backtrace) :
    ∃ test : Option (List Word) → Step Bool, loopHolds arguments trace =
      Step.words arguments >>= test ∧ test none = pure false ∧ ∀ words, (test (some words)).Edits := by
  refine ⟨_, rfl, rfl, fun words => ?_⟩
  refine Step.editsBind (Condition.evaluateEdits _ _) fun result => ?_
  split
  · exact Step.editsPure _
  · exact Step.editsBind (Step.editsModify fun e => .fatalErrorAt e _ _) fun _ => Step.editsPure _

theorem loopHoldsMoves (arguments : List Argument) (trace : Backtrace) :
    (loopHolds arguments trace).Moves := by
  obtain ⟨test, same, none, edits⟩ := loopHoldsTests arguments trace
  rw [same]
  exact Step.movesWordsBind arguments (none ▸ Step.movesPure _) edits

theorem loopHoldsSeen (arguments : List Argument) (trace : Backtrace) :
    Seen (loopHolds arguments trace) := by
  obtain ⟨test, same, none, edits⟩ := loopHoldsTests arguments trace
  rw [same]
  intro e held
  change (test (Step.words arguments e).1 (Step.words arguments e).2).1 = true at held
  cases found : (Step.words arguments e).1 with
  | none =>
    rw [found, none] at held
    cases held
  | some words =>
    refine ⟨_, Step.wordsLive found, Step.movesWords arguments e, ?_⟩
    change Edits _ (test (Step.words arguments e).1 (Step.words arguments e).2).2
    rw [found]
    exact edits words _

section Loops

variable {inside : G}

theorem whileLoopEnds (runs : C.Runs r) (arguments : List Argument) (b : OpenBlock Block)
    (o : Outcome) (able : C.Able r e) (entered : C.Holds .going inside (e.logged .loopEntered))
    (leave : ∀ {s e'}, s ≠ .finished → C.Holds s inside e' → C.Holds s g e'.endLoop) :
    C.Ends (r.whileLoop arguments b o) e (Hands C g o) := by
  refine endsGet (endsModify (endsBind (passesWhileEnds runs (loopHoldsMoves _ _)
    (loopHoldsSeen _ _) b.body r.rounds (able.logged nofun) entered) fun p e₁ holds => ?_))
  have left := leave (Status.ofNotFinished _ _) holds
  exact endsModify (endsPure ⟨p.transfer?, p.forwardAsking o, left⟩)

theorem foreachOverEnds {α : Type} (runs : C.Runs r) (names : List String)
    {prepare : α → Engine → Engine} (moves : ∀ a e, Moves e (prepare a e)) (things : List α)
    (body : List Command) (o : Outcome) (able : C.Able r e)
    (entered : C.Holds .going inside (e.logged .loopEntered))
    (leave : ∀ {s e'}, s ≠ .finished → C.Holds s inside e' → C.Holds s g e'.endLoop) :
    C.Ends (r.foreachOver names prepare things body o) e (Hands C g o) := by
  unfold foreachOver
  refine endsGet (endsModify (endsBind (passesEnds runs moves body things entered
    (able.logged nofun)) fun p e₁ holds => ?_))
  have going := Status.ofNotFinished false p.transfer?
  dsimp only
  split
  · have restored := holds.restored going (names.map fun name => (name, valueToRestore e name))
    rw [List.map_map, show Prod.fst ∘ (fun name => (name, valueToRestore e name)) = id from rfl,
      List.map_id] at restored
    exact endsModify (endsModify (endsPure ⟨_, p.forwardAsking o, leave going restored⟩))
  · exact endsModify (endsPure ⟨_, p.forwardAsking o, leave going holds⟩)

theorem foreachLoopEnds (runs : C.Runs r) (words : List String) (count : Nat) (zip : Bool)
    (body : List Command) (o : Outcome) (stopped : C.Stopped e) (early : C.Early e)
    (entered : C.Holds .going inside (e.logged .loopEntered))
    (leave : ∀ {s e'}, s ≠ .finished → C.Holds s inside e' → C.Holds s g e'.endLoop) :
    C.Ends (r.foreachLoop words count zip body o) e (Hands C g o) := by
  have able := early.able r
  unfold foreachLoop
  split
  · exact endsGet (foreachOverEnds runs _ (fun row e => .assignAll _ e) _ _ _ able entered leave)
  · split
    · exact endsHalt stopped early _
    · exact foreachOverEnds runs _ (fun value e => .define e _ value) _ _ _ able entered leave

end Loops

theorem scopeBodyEnds (runs : C.Runs r) (body : List Command) (o : Outcome) (able : C.Able r e)
    (holds : C.Holds .going g e) : C.Ends (r.scopeBody body o) e fun o' e' =>
      ∃ t? e₀, o' = o.asking t? ∧ C.Holds (.of false t?) g e₀ ∧
        e' = e₀.raiseAll (Status.of false t?).names := by
  induction body generalizing e with
  | nil => exact endsPure ⟨none, e, rfl, holds, rfl⟩
  | cons c rest ih =>
    refine endsBind (runs.run c able holds) fun result e₁ ⟨answer, rounds⟩ => ?_
    have holds := answer.holds
    rcases result with ⟨succeeded, inner⟩
    rw [Status.after] at holds
    dsimp only
    split
    case h_1 names returning =>
      rw [returning] at holds
      exact endsModify (endsPure ⟨some (.returning names), e₁, rfl, holds.passedOn, rfl⟩)
    case h_2 t other leaving =>
      rw [leaving] at holds
      refine endsPure ⟨some t, e₁, rfl, holds.passedOn, ?_⟩
      cases t with
      | returning names => exact absurd rfl (other names)
      | _ => rfl
    case h_3 none =>
      rw [none] at holds
      refine endsGet ?_
      split
      · exact endsPure ⟨Option.none, e₁, rfl, holds, rfl⟩
      · exact ih (fun _ => rounds) holds

theorem defineCommandReady (kind : DefinitionKind) (name : String) (parameters : List String)
    (b : OpenBlock Block) (ready : C.Ready .going g e) :
    C.Ready .going g (defineCommand kind name parameters b e).2 := by
  unfold defineCommand
  dsimp only [bind, StateT.bind, get, getThe, MonadStateOf.get, StateT.get, pure]
  generalize defined : e.registry.define? _ = registry?
  cases registry? with
  | none => exact ready.moves trivial (.fatalError e _)
  | some registry => exact ready.definition rfl defined

theorem replayEnds (runs : C.Runs r) (b : OpenBlock Block) (o : Outcome)
    (ordinary : b.block.isScope = false) (single : b.block.isLoop = false) (early : C.Early e)
    (ready : C.Ready .going g e) :
    C.Ends (r.replay b o) e fun result e' => Hands C g o result.2 e' ∧
      (result.1 = false → result.2 = o ∧ C.Ready .going g e') := by
  have handled {m : Run Outcome} (ends : C.Ends m e (Hands C g o)) :
      C.Ends (do return (true, ← m)) e fun result e' => Hands C g o result.2 e' ∧
        (result.1 = false → result.2 = o ∧ C.Ready .going g e') :=
    endsBind ends fun _ _ hands => endsPure ⟨hands, nofun⟩
  unfold replay
  split
  · exact handled (branchEnds runs _ _ _ _ (early.able r) ready.toHolds)
  case h_2 loop =>
    rw [loop] at single
    cases single
  case h_3 loop =>
    rw [loop] at single
    cases single
  case h_4 kind name parameters _ =>
    have ready := defineCommandReady kind name parameters b ready
    exact endsLift (endsPure ⟨⟨none, rfl, ready.toHolds⟩, fun _ => ⟨rfl, ready⟩⟩)
  case h_5 scope =>
    rw [scope] at ordinary
    cases ordinary

theorem replayLoopEnds (runs : C.Runs r) (b : OpenBlock Block) (o : Outcome) {inside : G}
    (repeats : b.block.isLoop = true) (stopped : C.Stopped e) (early : C.Early e)
    (entered : C.Holds .going inside (e.logged .loopEntered))
    (leave : ∀ {s e'}, s ≠ .finished → C.Holds s inside e' → C.Holds s g e'.endLoop) :
    C.Ends (r.replay b o) e fun result e' => result.1 = true ∧ Hands C g o result.2 e' := by
  have handled {m : Run Outcome} (ends : C.Ends m e (Hands C g o)) :
      C.Ends (do return (true, ← m)) e fun result e' =>
        result.1 = true ∧ Hands C g o result.2 e' :=
    endsBind ends fun _ _ hands => endsPure ⟨rfl, hands⟩
  unfold replay
  split
  case h_2 => exact handled (whileLoopEnds runs _ _ _ (early.able r) entered leave)
  case h_3 => exact handled (foreachLoopEnds runs _ _ _ _ _ stopped early entered leave)
  all_goals
    rename_i other
    rw [other] at repeats
    cases repeats

theorem replayScopeEnds (runs : C.Runs r) (b : OpenBlock Block) (o : Outcome)
    {policies bindings : Option ScopeHandle} {propagate : List String} {g' : G}
    (scope : b.block = .scope policies bindings propagate) (early : C.Early e)
    (holds : C.Holds .going g' e)
    (leave : ∀ {s e'}, s ≠ .finished → C.Holds s g' e' →
      C.Holds s g (((e'.raiseAll s.names).logged .bodyEnded).closeBlockScopes policies bindings
        propagate)) :
    C.Ends (r.replay b o) e fun result e' => result.1 = true ∧ Hands C g o result.2 e' := by
  unfold replay
  rw [scope]
  refine endsBind (scopeBodyEnds runs b.body o (early.able r) holds) fun o' e₁ ended => ?_
  obtain ⟨t?, e₀, asked, holds, rfl⟩ := ended
  have left := leave (Status.ofNotFinished false t?) holds
  exact endsModify (endsModify (endsPure ⟨rfl, t?, asked, left⟩))

end Runner
end CMakeScript
