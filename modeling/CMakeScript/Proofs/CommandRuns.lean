import CMakeScript.Proofs.FileRuns
import CMakeScript.Proofs.Steady
/-! Every command keeps what its parts keep. A command that can be called leaves no block open, and
one that asks for a transfer of control has done nothing else of note before. -/
namespace CMakeScript
open Conduct
namespace Runner

variable {G : Type} {C : Conduct G} {r : Runner} {g : G} {e e' : Engine}

/-! Built-in commands -/

structure Settles (C : Conduct G) (g : G) (e : Engine) (v : Verdict) (e' : Engine) : Prop where
  ready : ∃ e₁, C.Ready .finished g e₁ ∧ v.Stands e₁ e'
  edits : ∀ t succeeded, v = .transferred t succeeded → Edits e e'
  early : v = .halted → C.Early e'

theorem Plain.settles {v : Verdict} (plain : Plain C g v e') : Settles C g e v e' :=
  ⟨⟨e', plain.2, .inl rfl⟩, fun t succeeded asked => absurd asked (plain.1.2 t succeeded),
    fun halted => absurd halted plain.1.1⟩

theorem Settles.quiet (ready : C.Ready .finished g e') : Settles C g e .done e' :=
  Plain.settles ⟨⟨nofun, nofun⟩, ready⟩

theorem Settles.before {v : Verdict} {e₀ : Engine} (settles : Settles C g e v e')
    (edits : Edits e₀ e) : Settles C g e₀ v e' :=
  { settles with edits := fun t succeeded asked => edits.trans (settles.edits t succeeded asked) }

theorem Settles.made (ready : C.Ready .going g e) (live : e.fatal = false) {v : Verdict}
    (edits : Edits e e') : Settles C g e v e' :=
  ⟨⟨e', (ready.moves trivial (.live live edits)).ended, .inl rfl⟩, fun _ _ _ => edits,
    fun _ => (ready.toHolds.early live).steady (.edits edits)⟩

theorem Settles.acted (ready : C.Ready .going g e) (live : e.fatal = false) {v : Verdict}
    {e₁ : Engine} (edits : Edits e e₁) (stands : v.Stands e₁ e') : Settles C g e v e' := by
  have settled := (ready.moves trivial (.live live edits)).ended
  obtain rfl | ⟨⟨text, rfl⟩, stops⟩ := stands
  · exact .made ready live edits
  · exact ⟨⟨e₁, settled, .inr ⟨⟨text, rfl⟩, stops⟩⟩, nofun, nofun⟩

theorem liftSettles {s : Step Verdict} (acts : s.Acts) (live : e.fatal = false)
    (ready : C.Ready .going g e) : C.Ends s.lift e (Settles C g e) := by
  obtain ⟨e₁, edits, stands⟩ := acts e
  exact ⟨.acted ready live edits stands⟩

def Opens (C : Conduct G) (g : G) (e : Engine) (v : Verdict) (e' : Engine) : Prop :=
  Settles C g e v e' ∨ v = .done ∧ C.Holds .finished g e'

theorem liftOpens {s : Step Verdict} (opens : s.Opens) (live : e.fatal = false)
    (ready : C.Ready .going g e) : C.Ends s.lift e (Opens C g e) := by
  obtain ⟨e₁, edits, stands | ⟨done, opening⟩⟩ := opens e
  · exact ⟨.inl (.acted ready live edits stands)⟩
  · have early := (ready.toHolds.early live).steady (.edits edits)
    exact ⟨.inr ⟨done, ((ready.moves trivial (.live live edits)).opening early opening).ended⟩⟩

section Words

variable {command : List String → Step Verdict}

theorem onWordsSettles (acts : ∀ words, (command words).Acts) (arguments : List Argument)
    (ready : C.Ready .going g e) : C.Ends (onWords arguments command) e (Settles C g e) := by
  unfold onWords
  refine endsLift ?_
  have expanded := Step.movesValues arguments e
  have ready := ready.moves trivial expanded
  split
  case h_1 words known =>
    exact endsMono (liftSettles (acts _) (Step.valuesLive known) ready) fun _ _ settles =>
      settles.before expanded.edits
  case h_2 => exact endsPure (.quiet ready.ended)

theorem onWordsEdits (edits : ∀ words, (command words).Edits) (arguments : List Argument)
    (ready : C.Ready .going g e) : C.Ends (onWords arguments command) e (Settles C g e) :=
  onWordsSettles (fun words => Step.actsEdits (edits words)) arguments ready

theorem onWordsOpens (opens : ∀ words, (command words).Opens) (arguments : List Argument)
    (ready : C.Ready .going g e) : C.Ends (onWords arguments command) e (Opens C g e) := by
  unfold onWords
  refine endsLift ?_
  have expanded := Step.movesValues arguments e
  have ready := ready.moves trivial expanded
  split
  case h_1 words known =>
    exact endsMono (liftOpens (opens _) (Step.valuesLive known) ready) fun _ _ opened =>
      opened.imp_left fun settles => settles.before expanded.edits
  case h_2 => exact endsPure (.inl (.quiet ready.ended))

end Words

theorem onWordsRunSettles {command : List String → Run Verdict}
    (ends : ∀ {e} words, e.fatal = false → C.Ready .going g e →
      C.Ends (command words) e (Plain C g))
    (arguments : List Argument) (ready : C.Ready .going g e) :
    C.Ends (onWordsRun arguments command) e (Settles C g e) := by
  unfold onWordsRun
  refine endsLift ?_
  have ready := ready.moves trivial (Step.movesValues arguments e)
  split
  case h_1 words known =>
    exact endsMono (ends _ (Step.valuesLive known) ready) fun _ _ plain => plain.settles
  case h_2 => exact endsPure (.quiet ready.ended)

theorem gatedSettles {command : Run Verdict} (p : Policy) (text : String)
    (ends : ∀ {e}, C.Ready .going g e → C.Ends command e (Settles C g e))
    (ready : C.Ready .going g e) : C.Ends (gated p text command) e (Settles C g e) := by
  unfold gated
  refine endsGet ?_
  split
  · have refused := ready.moves trivial (.issue e .fatalError (by decide) text)
    exact endsModify (endsPure (.quiet refused.ended))
  · have warned := Moves.issue e .authorWarning (by decide) p.warning
    exact endsModify (endsMono (ends (ready.moves trivial warned)) fun _ _ settles =>
      settles.before warned.edits)
  · exact ends ready

theorem builtinSettles (runs : C.Runs r) (b : Builtin) (arguments : List Argument)
    (nests : b = .addSubdirectory → C.nests) (plain : b.opens = false) (live : e.fatal = false)
    (ready : C.Ready .going g e) : C.Ends (r.builtin b arguments) e (Settles C g e) := by
  cases b with
  | ifBlock | whileLoop | foreachLoop | functionDef | macroDef | scopeBlock => cases plain
  | breakLoop => exact onWordsEdits Command.breakLoopEdits arguments ready
  | continueLoop => exact onWordsEdits Command.continueLoopEdits arguments ready
  | returnCall => exact onWordsSettles Command.returnCallActs arguments ready
  | misplaced m => exact liftSettles (Step.actsEdits (Command.misplacedEdits m)) live ready
  | includeFile =>
    exact onWordsRunSettles (fun words live ready => includeCommandEnds runs words
      (ready.toHolds.early live) ready) arguments ready
  | minimumRequired => exact onWordsEdits Command.minimumRequiredEdits arguments ready
  | policy => exact onWordsEdits Command.policyEdits arguments ready
  | language => exact endsPure (.quiet ready.ended)
  | message => exact onWordsEdits Command.messageEdits arguments ready
  | set => exact onWordsEdits Command.setVariableEdits arguments ready
  | unset => exact onWordsEdits Command.unsetVariableEdits arguments ready
  | option => exact onWordsEdits Command.optionEdits arguments ready
  | math => exact onWordsEdits Command.mathEdits arguments ready
  | list => exact onWordsEdits Command.listEdits arguments ready
  | string => exact onWordsEdits Command.stringEdits arguments ready
  | setProperty => exact onWordsEdits Command.setPropertyEdits arguments ready
  | getProperty => exact onWordsEdits Command.getPropertyEdits arguments ready
  | defineProperty => exact onWordsEdits Command.definePropertyEdits arguments ready
  | getDirectoryProperty => exact onWordsEdits Command.getDirectoryPropertyEdits arguments ready
  | setDirectoryProperties =>
    exact onWordsEdits Command.setDirectoryPropertiesEdits arguments ready
  | getCMakeProperty => exact onWordsEdits Command.getCMakePropertyEdits arguments ready
  | buildName =>
    exact gatedSettles _ _ (fun ready => onWordsEdits Command.buildNameEdits arguments ready) ready
  | removed text => exact liftSettles (Step.actsEdits (Command.removedEdits text)) live ready
  | addSubdirectory =>
    exact onWordsRunSettles (fun words => subdirectoryCommandEnds runs (nests rfl) words)
      arguments ready
  | project => exact onWordsEdits Command.projectEdits arguments ready
  | addExecutable => exact onWordsEdits Command.addExecutableEdits arguments ready
  | addLibrary => exact onWordsEdits Command.addLibraryEdits arguments ready
  | addCustomTarget => exact onWordsEdits Command.addCustomTargetEdits arguments ready
  | setTargetProperties => exact onWordsEdits Command.setTargetPropertiesEdits arguments ready
  | getTargetProperty => exact onWordsEdits Command.getTargetPropertyEdits arguments ready
  | includeDirectories => exact onWordsEdits Command.includeDirectoriesEdits arguments ready
  | addCompileOptions =>
    exact onWordsEdits (Command.addSettingsEdits .compileOptions) arguments ready
  | addCompileDefinitions =>
    exact onWordsEdits (Command.addSettingsEdits .compileDefinitions) arguments ready
  | addDefinitions => exact onWordsEdits Command.addDefinitionsEdits arguments ready
  | addLinkOptions => exact onWordsEdits (Command.addSettingsEdits .linkOptions) arguments ready
  | linkDirectories => exact onWordsEdits Command.linkDirectoriesEdits arguments ready

theorem builtinOpens (b : Builtin) (arguments : List Argument) (opens : b.opens = true)
    (live : e.fatal = false) (ready : C.Ready .going g e) :
    C.Ends (r.builtin b arguments) e (Opens C g e) := by
  cases b with
  | ifBlock => exact liftOpens (Command.ifBlockOpens arguments) live ready
  | whileLoop => exact liftOpens (Command.whileLoopOpens arguments) live ready
  | foreachLoop => exact onWordsOpens Command.foreachLoopOpens arguments ready
  | functionDef => exact onWordsOpens (Command.defineOpens .function) arguments ready
  | macroDef => exact onWordsOpens (Command.defineOpens .macroCall) arguments ready
  | scopeBlock => exact onWordsOpens Command.scopeBlockOpens arguments ready
  | _ => cases opens

def Reached (C : Conduct G) (g : G) (closed : Prop) (result : Bool × Outcome) (e : Engine) : Prop :=
  ∃ e₁, C.Within g result.2 e₁ ∧ (closed → C.strict → e₁.Free) ∧
    (e = e₁ ∨ result.1 = false ∧ e = e₁.setFatal)

theorem Reached.within {o : Outcome} (within : C.Within g o e) (free : C.strict → e.Free)
    (closed : Prop) (succeeded : Bool) : Reached C g closed (succeeded, o) e :=
  ⟨e, within, fun _ => free, .inl rfl⟩

theorem settleEnds {e₀ : Engine} {o : Outcome} (fresh : C.follows → o = {})
    (ready : C.Ready .going g e₀) (live : e₀.fatal = false) {v : Verdict}
    (settles : Settles C g e₀ v e) (closed : Prop) :
    C.Ends (v.settle o) e (Reached C g closed) := by
  obtain ⟨⟨e₁, settled, stands⟩, edits, early⟩ := settles
  have within {o' : Outcome} (transfer : o'.transfer? = o.transfer?)
      (marks : o'.nestedError = o.nestedError) : C.Within g o' e₁ :=
    .unasked settled.toHolds fresh transfer marks
  unfold Verdict.settle
  split
  · obtain rfl | ⟨⟨text, none⟩, -⟩ := stands
    · exact endsPure (.within (within rfl rfl) settled.free closed true)
    · cases none
  · refine endsPure ⟨e₁, within rfl rfl, fun _ => settled.free, ?_⟩
    exact stands.imp_right fun failed => ⟨rfl, failed.2⟩
  · obtain rfl | ⟨⟨text, none⟩, -⟩ := stands
    · exact endsPure (.within (within rfl rfl) settled.free closed false)
    · cases none
  case h_4 t succeeded =>
    have asked := ready.asked live (edits t succeeded rfl) t
    exact endsModify (endsPure (.within (.asking asked.toHolds fresh) asked.free closed succeeded))
  · obtain rfl | ⟨⟨text, none⟩, -⟩ := stands
    · exact endsHalt settled.stop (early rfl) _
    · cases none

theorem settleOpens {e₀ : Engine} {o : Outcome} (fresh : C.follows → o = {})
    (ready : C.Ready .going g e₀) (live : e₀.fatal = false) {v : Verdict}
    (opens : Opens C g e₀ v e) : C.Ends (v.settle o) e (Reached C g False) := by
  obtain settles | ⟨rfl, holds⟩ := opens
  · exact settleEnds fresh ready live settles False
  · exact endsPure ⟨e, .unasked holds fresh rfl rfl, False.elim, .inl rfl⟩

theorem languageEnds (runs : C.Runs r) (arguments : List Argument) {o : Outcome}
    (fresh : C.follows → o = {}) (ready : C.Ready .going g e) (live : e.fatal = false)
    (closed : Prop) : C.Ends (r.language arguments o) e (Reached C g closed) := by
  unfold language
  refine endsLift ?_
  have read := Command.readLanguageEdits arguments e
  have named := Command.readLanguageNamed arguments e
  have reading := ready.moves trivial (.live live read)
  have early := (ready.toHolds.early live).steady (.edits read)
  have settled {s : Step Verdict} (edits : s.Edits) : C.Ends (do (← s.lift).settle o)
      ((Command.readLanguage arguments).run e).2 (Reached C g closed) :=
    endsLift (settleEnds fresh ready live (.made ready live (read.trans (edits _))) closed)
  split
  · exact settleEnds fresh ready live (.made ready live read) closed
  · exact settled (Command.askDeferredEdits _ _)
  case h_3 name arguments deferred found =>
    rw [found] at named
    split
    · exact settled (Step.editsFatal _)
    case isFalse free =>
      refine endsGet ?_
      have callable e : (Command.calledCommand e name arguments).IsCallable :=
        eq_false_of_ne_true free
      split
      · exact endsMono (runs.ready fresh (fun _ => callable _) (early.able r) reading) fun _ _ ended =>
          .within (.answer ended.1) ended.2 closed _
      · exact settled (Command.deferToEdits _ (callable _) named)
  · split
    · exact settled (Step.editsFatal _)
    · refine endsGet (endsBind (textEnds runs _ _ early reading) fun _ e' ready => endsPure ?_)
      exact .within (.unasked ready.toHolds fresh rfl rfl) ready.free closed true
  · exact settled (Command.exitRunEdits _)
  · exact settled (Command.showLogLevelEdits _)
  · exact settled (Step.editsFatal _)

/-! Commands that a name stands for -/

theorem noteSoughtCases (b : Builtin) (e : Engine) :
    noteSought b e = e ∨ noteSought b e = e.logged (.loopSought e.inLoop) := by
  cases b with
  | breakLoop | continueLoop => exact .inr rfl
  | _ => exact .inl rfl

theorem noteSoughtFatal (b : Builtin) (e : Engine) : (noteSought b e).fatal = e.fatal := by
  obtain same | same := noteSoughtCases b e <;> rw [same]
  rfl

theorem noteSoughtReady (b : Builtin) (ready : C.Ready .going g e) :
    C.Ready .going g (noteSought b e) := by
  obtain same | same := noteSoughtCases b e <;> rw [same]
  · exact ready
  · exact ready.sought

theorem callableEnds (runs : C.Runs r) (target : Callable) (arguments : List Argument)
    {o : Outcome} (fresh : C.follows → o = {})
    (nests : target = .builtin .addSubdirectory → C.nests)
    (known : ∀ d, target = .defined d → e.registry.Knows d) (ready : C.Ready .going g e)
    (live : e.fatal = false) :
    C.Ends (r.callable target arguments o) e (Reached C g (target.opens = false)) := by
  unfold callable
  split
  · exact languageEnds runs arguments fresh ready live _
  case h_2 b _ =>
    refine endsModify ?_
    have ready := noteSoughtReady b ready
    have live := (noteSoughtFatal b e).trans live
    cases opens : b.opens with
    | false =>
      have settles := builtinSettles runs b arguments (fun same => nests (by rw [same])) opens live
        ready
      exact endsBind settles fun v e₁ settles => settleEnds fresh ready live settles _
    | true =>
      refine endsMono (endsBind (builtinOpens b arguments opens live ready) fun v e₁ opened =>
        settleOpens fresh ready live opened) fun result e' reached => ?_
      obtain ⟨e₁, within, -, stands⟩ := reached
      refine ⟨e₁, within, fun plain => ?_, stands⟩
      rw [Callable.opens, opens] at plain
      cases plain
  · exact endsMono (callEnds runs _ arguments fresh ready (known _ rfl)) fun _ _ ended =>
      .within ended.1 ended.2 _ _

theorem answerQuiet {o : Outcome} (fresh : C.follows → o = {}) (succeeded : Bool)
    (told : succeeded = false → e.ErrorShown) (holds : C.Holds .going g e) :
    C.Answer g (succeeded, o) e where
  holds := holds.same fun follows => by
    rw [fresh follows]
    rfl
  exits code exits := holds.same fun follows => by
    rw [fresh follows] at exits
    cases exits.2
  told tells fails := by
    refine told ?_
    rw [Status.fails, fresh (C.tellsFollows tells)] at fails
    simpa using fails

/-! How a command ends -/

def outcomeOf (o : Outcome) (e : Engine) : Outcome :=
  { o with
    nestedError := o.nestedError || e.nested.headD false,
    exitCode := match e.options.mode with
      | .script => e.exitCode.orElse fun _ => o.exitCode
      | .project => o.exitCode }

def reportOf (c : Command) (o : Outcome) (e : Engine) : Engine :=
  if o.nestedError || e.nested.headD false then e
  else e.issue .fatalError (c.name ++ " " ++ o.error)

section Conclude

variable {c : Command} {succeeded : Bool} {o : Outcome}

theorem concludeClean (clean : (succeeded && !(o.nestedError || e.nested.headD false)) = true) :
    conclude c succeeded o e = ((true, outcomeOf o e), e) := by
  unfold conclude
  exact if_pos clean

theorem concludeFailed (failed : ¬(succeeded && !(o.nestedError || e.nested.headD false)) = true) :
    conclude c succeeded o e = ((false, outcomeOf o e), if e.options.mode = .script then
      (reportOf c o e).setFatal else reportOf c o e) := by
  have kept : (reportOf c o e).options = e.options := by
    unfold reportOf
    split
    · rfl
    · exact Engine.issueOptions ..
  rw [← kept]
  unfold conclude
  exact if_neg failed

theorem concludeOutcome (c : Command) (succeeded : Bool) (o : Outcome) (e : Engine) :
    (conclude c succeeded o e).1.2 = outcomeOf o e := by
  by_cases clean : (succeeded && !(o.nestedError || e.nested.headD false)) = true
  · rw [concludeClean clean]
  · rw [concludeFailed clean]

theorem reportMoves (c : Command) (o : Outcome) (e : Engine) : Moves e (reportOf c o e) := by
  unfold reportOf
  split
  · exact .refl e
  · exact .issue e .fatalError (by decide) _

theorem concludeStands (c : Command) (succeeded : Bool) (o : Outcome) (e : Engine) :
    ∃ e₁, Moves e e₁ ∧
      ((conclude c succeeded o e).2 = e₁ ∨ (conclude c succeeded o e).2 = e₁.setFatal) := by
  by_cases clean : (succeeded && !(o.nestedError || e.nested.headD false)) = true
  · rw [concludeClean clean]
    exact ⟨e, .refl e, .inl rfl⟩
  · rw [concludeFailed clean]
    refine ⟨reportOf c o e, reportMoves c o e, ?_⟩
    split
    · exact .inr rfl
    · exact .inl rfl

theorem concludeSame (c : Command) (succeeded : Bool) (o : Outcome) (e : Engine) :
    e.SameOpen (conclude c succeeded o e).2 := by
  obtain ⟨e₁, moves, same | same⟩ := concludeStands c succeeded o e <;> rw [same]
  · exact .edits moves.edits
  · exact (Engine.SameOpen.edits moves.edits).trans (.setFatal e₁)

theorem concludeSteady (c : Command) (succeeded : Bool) (o : Outcome) (e : Engine) :
    e.Steady (conclude c succeeded o e).2 := by
  obtain ⟨e₁, moves, same | same⟩ := concludeStands c succeeded o e <;> rw [same]
  · exact .edits moves.edits
  · exact (Engine.Steady.edits moves.edits).trans (.setFatal e₁)

theorem concludeTold (told : o.nestedError = true → e.ErrorShown)
    (marked : e.nested.headD false = true → e.ErrorShown)
    (fails : Status.fails (conclude c succeeded o e).1 = true) :
    (conclude c succeeded o e).2.ErrorShown := by
  by_cases clean : (succeeded && !(o.nestedError || e.nested.headD false)) = true
  · rw [concludeClean clean] at fails
    simp only [Bool.and_eq_true, Bool.not_eq_true'] at clean
    rw [Status.fails, outcomeOf, clean.2] at fails
    cases fails
  · rw [concludeFailed clean]
    have reported : (reportOf c o e).ErrorShown := by
      unfold reportOf
      split
      case isTrue nested =>
        obtain before | here := (Bool.or_eq_true _ _).mp nested
        · exact told before
        · exact marked here
      case isFalse => exact e.shownIssueAt (.inl rfl) _ _
    dsimp only
    split <;> exact reported

theorem concludeFatal (c : Command) (succeeded : Bool) (o : Outcome) (e : Engine) :
    conclude c succeeded o e.setFatal =
      ((conclude c succeeded o e).1, (conclude c succeeded o e).2.setFatal) := by
  by_cases clean : (succeeded && !(o.nestedError || e.nested.headD false)) = true
  · rw [concludeClean clean, concludeClean (e := e.setFatal) clean]
    rfl
  · have reported : reportOf c o e.setFatal = (reportOf c o e).setFatal := by
      unfold reportOf
      change (if o.nestedError || e.nested.headD false then _ else _) = _
      split
      · rfl
      · exact Engine.issueFatal ..
    rw [concludeFailed clean, concludeFailed (e := e.setFatal) clean, reported]
    change (_, if e.options.mode = .script then _ else _) = _
    dsimp only
    split <;> rfl

end Conclude

theorem concludeEnds (c : Command) {succeeded : Bool} {o : Outcome} {e₁ : Engine}
    (within : C.Within g o e₁) (stands : e = e₁ ∨ succeeded = false ∧ e = e₁.setFatal) :
    C.Ends (do
      let (succeeded, o) ← modifyGet (conclude c succeeded o)
      modify (·.logged (.concluded o.transfer?))
      return (succeeded, o)) e fun result e' => C.Answer g result e' ∧ e₁.SameOpen e' := by
  obtain ⟨concluded, exits⟩ := C.concluded c succeeded o within.holds.holds within.told
    fun code exits => (within.exits code exits).holds
  have same : e₁.SameOpen ((conclude c succeeded o e₁).2.logged
      (.concluded (conclude c succeeded o e₁).1.2.transfer?)) :=
    (concludeSame c succeeded o e₁).trans (.logged _ fun outside => outside)
  have tidy strict := (within.holds.tidy strict).sameOpen same
  have told (tells : C.tells) (fails : Status.fails (conclude c succeeded o e₁).1 = true) :
      (conclude c succeeded o e₁).2.ErrorShown :=
    concludeTold (within.told tells) (C.marked tells within.holds.holds) fails
  have answer : C.Answer g (conclude c succeeded o e₁).1 ((conclude c succeeded o e₁).2.logged
      (.concluded (conclude c succeeded o e₁).1.2.transfer?)) :=
    ⟨⟨concluded, tidy⟩, fun code found => ⟨exits code found, tidy⟩, told⟩
  obtain rfl | ⟨rfl, rfl⟩ := stands
  · exact ⟨answer, same⟩
  · have fails : Status.fails (conclude c false o e₁).1 = true := by
      unfold conclude Status.fails
      rfl
    have stopped := answer.failStops fails
    constructor
    change C.Answer g (conclude c false o e₁.setFatal).1 ((conclude c false o e₁.setFatal).2.logged
      (.concluded (conclude c false o e₁.setFatal).1.2.transfer?)) ∧ e₁.SameOpen
        ((conclude c false o e₁.setFatal).2.logged
          (.concluded (conclude c false o e₁.setFatal).1.2.transfer?))
    rw [concludeFatal]
    exact ⟨stopped, same.trans (.setFatal _)⟩

theorem dispatchedEnds (runs : C.Runs r) {c : Command} {o : Outcome} {target : Callable}
    (fresh : C.follows → o = {}) (found : e.registry.findLower? c.lowerName = some target)
    (live : e.fatal = false) (ready : C.Ready .going g (e.logged (.dispatched c))) :
    C.Ends (do
      let (succeeded, o) ← r.callable target c.arguments o
      modify (·.logged (.returned target))
      let (succeeded, o) ← modifyGet (conclude c succeeded o)
      modify (·.logged (.concluded o.transfer?))
      return (succeeded, o)) (e.logged (.dispatched c)) fun result e' =>
    C.Answer g result e' ∧ ((C.strict → c.IsCallable) → C.strict → e'.Free) := by
  have guarded (callable : c.IsCallable) (strict : C.strict) : target.opens = false := by
    cases opens : target.opens with
    | false => rfl
    | true =>
      obtain ⟨b, same⟩ := Callable.builtinOf opens
      rw [same] at found opens
      have listed := (ready.tidy strict).openers _ _ found opens
      rw [callable] at listed
      cases listed
  have nests (same : target = .builtin .addSubdirectory) : C.nests := by
    rw [same] at found
    exact C.reach ready.holds found
  have known d (same : target = .defined d) : e.registry.Knows d := ⟨_, same ▸ found⟩
  refine endsBind (callableEnds runs target c.arguments fresh nests known ready live) ?_
  rintro ⟨succeeded, o'⟩ e₂ ⟨e₁, within, free, stands⟩
  have returned : C.Within g o' (e₁.logged (.returned target)) :=
    ⟨within.holds.returned free, fun code exits => (within.exits code exits).returned free,
      within.told⟩
  have stands : e₂.logged (.returned target) = e₁.logged (.returned target) ∨
      succeeded = false ∧
        e₂.logged (.returned target) = (e₁.logged (.returned target)).setFatal := by
    obtain rfl | ⟨failed, rfl⟩ := stands
    · exact .inl rfl
    · exact .inr ⟨failed, rfl⟩
  refine endsModify (endsMono (concludeEnds c returned stands) fun result e₃ concluded => ?_)
  refine ⟨concluded.1, fun callable strict => ?_⟩
  have before : e₁.Free := free (guarded (callable strict) strict) strict
  exact before.sameOpen (e := e₁.logged (.returned target)) concluded.2

theorem invokeEnds (runs : C.Runs r) (c : Command) {o : Outcome} (fresh : C.follows → o = {})
    (ready : C.Ready .going g e) : C.Ends (r.invoke c o) e fun result e' =>
      C.Answer g result e' ∧ ((C.strict → c.IsCallable) → C.strict → e'.Free) := by
  have quiet {e' : Engine} (ready : C.Ready .going g e') :
      C.Answer g (true, o) e' ∧ ((C.strict → c.IsCallable) → C.strict → e'.Free) :=
    ⟨answerQuiet fresh true nofun ready.toHolds, fun _ => ready.free⟩
  have refused (text : String) : C.Answer g (false, o) (e.fatalError text) ∧
      ((C.strict → c.IsCallable) → C.strict → (e.fatalError text).Free) := by
    have ready := ready.moves trivial (.fatalError e text)
    have told : (e.fatalError text).ErrorShown := e.shownIssueAt (.inl rfl) text e.backtrace
    exact ⟨answerQuiet fresh false (fun _ => told) ready.toHolds, fun _ => ready.free⟩
  unfold invoke
  refine endsGet ?_
  dsimp only
  split
  · exact endsModify (endsPure (refused _))
  · split
    · exact endsIte (fun _ => endsPure (quiet ready)) fun _ => endsModify (endsPure (refused _))
    case h_2 target found =>
      refine endsIte (fun _ => endsPure (quiet ready)) fun live => ?_
      have live := eq_false_of_ne_true live
      split
      · have traced := ready.moves trivial (.errors e (traceLine e c))
        exact endsModify (endsModify (dispatchedEnds runs fresh found live
          (traced.dispatched live c)))
      · exact endsModify (dispatchedEnds runs fresh found live (ready.dispatched live c))

theorem performEnds (runs : C.Runs r) (c : Command) {o : Outcome} (fresh : C.follows → o = {})
    (ready : C.Ready .going g e) : C.Ends (r.perform c o) e fun result e' =>
      C.Answer g result e' ∧ ((C.strict → c.IsCallable) → C.strict → e'.Free) := by
  obtain ⟨g', inside, leave⟩ := ready.command c
  refine endsModify (endsBind (invokeEnds runs c fresh inside) fun result e₁ ended => ?_)
  have answer := ended.1
  refine endsModify (endsPure ⟨⟨?_, fun code exits => ?_, answer.told⟩, ended.2⟩)
  · exact leave (Status.ofNotFinished _ _) answer.holds
  · exact leave nofun (answer.exits code exits)

/-! Closing of blocks -/

section Closing

variable (stays : ∀ {e'}, Moves e e' → C.Stopped e') (early : C.Early e)
include stays early

theorem repeatsNameEnds (name : Option String) (arguments : List Argument) :
    C.Ends (repeatsName name arguments) e fun _ => Moves e := by
  unfold repeatsName
  refine endsLift ?_
  have moves := Step.movesValues arguments e
  split
  · exact endsPure moves
  · exact endsPure moves
  · split
    · exact endsPure moves
    · exact endsHalt (stays moves) (early.steady (.edits moves.edits)) _

theorem closesMatchingEnds (block : Block) (arguments : List Argument) :
    C.Ends (closesMatching block arguments) e fun _ => Moves e := by
  cases block with
  | conditional => exact endsPure (.refl e)
  | whileLoop => exact endsPure (.refl e)
  | foreachLoop => exact repeatsNameEnds stays early _ arguments
  | definition kind name parameters => exact repeatsNameEnds stays early (some name) arguments
  | scope => exact endsPure (.refl e)

theorem checkClosingEnds (b : OpenBlock Block) (c : Command) :
    C.Ends (checkClosing b c) e fun _ => Moves e := by
  unfold checkClosing
  refine endsGet ?_
  have warned {e₁ : Engine} (moves : Moves e e₁) (text : String) (trace : Backtrace) :
      C.Ends (modify (·.issueAt .authorWarning text trace)) e₁ fun _ => Moves e :=
    ⟨moves.trans (.issueAt e₁ .authorWarning (by decide) text trace)⟩
  dsimp only
  split
  · exact endsIte (fun _ => warned (.refl e) _ _) fun _ => endsPure (.refl e)
  · refine endsBind (closesMatchingEnds stays early _ _) fun same e₁ moves => ?_
    exact endsIte (fun _ => warned moves _ _) fun _ => endsPure moves

end Closing

theorem closingReady (b : OpenBlock Block) (c : Command) (early : C.Early e)
    (ready : C.Ready .going g e) :
    C.Ends (checkClosing b c) e fun _ e' => C.Early e' ∧ C.Ready .going g e' :=
  endsMono (checkClosingEnds (fun moves => (ready.moves trivial moves).stop) early b c)
    fun _ _ moves => ⟨early.steady (.edits moves.edits), ready.moves trivial moves⟩

/-! One command, offered to the open block first -/

section Step

variable {c : Command}

theorem markedEnds {run : Run (Bool × Outcome)} {P : Prop}
    (ends : C.Ends run e fun result e' => C.Answer g result e' ∧ (P → C.strict → e'.Free)) :
    C.Ends (marked run) e fun result e' => C.Answer g result e' ∧ (P → C.strict → e'.Free) :=
  endsBind ends fun _ e₁ ended => endsModify (endsPure ⟨ended.1.stopNoted, fun known strict =>
    (ended.2 known strict).sameOpen (.noteStop e₁)⟩)

theorem stepNotBlocked (offered : e.blocks.offer c = (e.blocks, .notBlocked)) (o : Outcome)
    {after : Bool × Outcome → Engine → Prop}
    (ends : C.Ends (marked (r.perform c o)) (e.logged (.offered c)) after) :
    C.Ends (r.step c o) e after := by
  refine endsGet ?_
  rw [offered]
  exact endsSet ends

theorem offerFree (empty : e.Free) (c : Command) :
    e.blocks.offer c = (e.blocks, .notBlocked) := by
  obtain ⟨-, offered⟩ | ⟨top, below, found, -⟩ | ⟨top, below, depth, found, -⟩ :=
    e.blocks.offerCases c
  · exact offered
  · rw [empty] at found
    cases found
  · rw [empty] at found
    cases found

theorem stepRecorded {blocks : BlockStack Block} (offered : e.blocks.offer c = (blocks, .recorded))
    (o : Outcome) {after : Bool × Outcome → Engine → Prop}
    (ended : after (true, o) (({ e with blocks } : Engine).logged (.offered c))) :
    C.Ends (r.step c o) e after := by
  refine endsGet ?_
  rw [offered]
  exact endsSet (endsPure ended)

theorem stepReady (runs : C.Runs r) (c : Command) {o : Outcome} (fresh : C.follows → o = {})
    (ready : C.Ready .going g e) (empty : e.Free) : C.Ends (r.step c o) e fun result e' =>
      C.Answer g result e' ∧ ((C.strict → c.IsCallable) → C.strict → e'.Free) :=
  stepNotBlocked (offerFree empty c) o (markedEnds (performEnds runs c fresh (ready.offered c)))

theorem answerHands {o o' : Outcome} (fresh : C.follows → o = {}) (hands : Hands C g o o' e) :
    C.Answer g (true, o') e := by
  obtain ⟨t?, rfl, holds⟩ := hands
  constructor
  case holds =>
    refine holds.same fun follows => ?_
    rw [fresh follows, Status.afterAsking]
  case exits =>
    intro code exits
    refine holds.same fun follows => ?_
    rw [fresh follows] at exits ⊢
    obtain ⟨returning, exit⟩ := exits
    rcases t? with - | (names | - | - | code')
    · cases exit
    · cases returning
    · cases exit
    · cases exit
    · cases exit
      rfl
  case told =>
    intro tells fails
    rw [fresh (C.tellsFollows tells), Status.fails, Outcome.nestedAsking] at fails
    cases fails

theorem stepHolds (runs : C.Runs r) (c : Command) {o : Outcome} (fresh : C.follows → o = {})
    (holds : C.Holds .going g e) : C.Ends (r.step c o) e (C.Answer g) := by
  have ended {run : Run (Bool × Outcome)} {e : Engine} (ends : C.Ends run e (C.Answer g)) :
      C.Ends (marked run) e (C.Answer g) :=
    endsBind ends fun _ _ answer => endsModify (endsPure answer.stopNoted)
  obtain ⟨empty, -⟩ | ⟨top, below, found, -, offered⟩ | ⟨top, below, depth, found, offered⟩ :=
    e.blocks.offerCases c
  · exact endsMono (stepReady runs c fresh ⟨holds, fun _ => empty⟩ empty) fun _ _ ended => ended.1
  · refine endsGet ?_
    rw [offered]
    refine endsSet ?_
    have early : C.Early (({ e with blocks := { e.blocks with blocks := below } } : Engine).logged
        (.offered c)) := Early.logged (e := { e with blocks := { e.blocks with blocks := below } })
      (holds.earlyIn found) nofun
    cases kind : top.block.isScope with
    | false =>
      cases repeats : top.block.isLoop with
      | false =>
        have ready := holds.closed c found kind repeats
        refine endsBind (closingReady _ c early ready) fun _ e₁ ⟨early, ready⟩ => ended ?_
        refine endsBind (replayEnds runs { top with depth := 0 } o kind repeats early ready) ?_
        rintro ⟨handled, o'⟩ e₂ ⟨hands, unhandled⟩
        cases handled with
        | true => exact endsPure (answerHands fresh hands)
        | false =>
          obtain ⟨rfl, ready⟩ := unhandled rfl
          exact endsMono (performEnds runs c fresh ready) fun _ _ ended => ended.1
      | true =>
        obtain ⟨inside, enter, leave⟩ := holds.loop c found repeats
        refine endsBind (checkClosingEnds (fun moves => (enter moves).1) early _ c)
          fun _ e₁ moves => ended ?_
        have early := early.steady (.edits moves.edits)
        obtain ⟨stopped, entered⟩ := enter moves
        refine endsBind (replayLoopEnds runs { top with depth := 0 } o repeats stopped early
          entered leave) ?_
        rintro ⟨handled, o'⟩ e₂ ⟨rfl, hands⟩
        exact endsPure (answerHands fresh hands)
    | true =>
      obtain ⟨policies, bindings, propagate, scope⟩ := Block.scopeOf kind
      obtain ⟨g', inside, leave⟩ := holds.scopeClosed c found scope
      refine endsBind (closingReady _ c early inside) fun _ e₁ ⟨early, inside⟩ => ended ?_
      refine endsBind
        (replayScopeEnds runs { top with depth := 0 } o scope early inside.toHolds leave) ?_
      rintro ⟨handled, o'⟩ e₂ ⟨rfl, hands⟩
      exact endsPure (answerHands fresh hands)
  · exact stepRecorded offered o (answerQuiet fresh true nofun (holds.recorded depth c found))

end Step

end Runner

theorem Conduct.Runs.next {G : Type} {C : Conduct G} {r : Runner} (runs : C.Runs r) (rounds : Nat) :
    C.Runs ⟨r.step, rounds + 1⟩ := by
  constructor
  case holds =>
    exact fun c fresh _ holds => endsMono (Runner.stepHolds runs c fresh holds)
      fun _ _ answer => ⟨answer, rounds.succ_pos⟩
  case recorded => exact fun o offered _ _ => Runner.stepRecorded offered o rfl
  case ready =>
    intro g e c o fresh callable _ ready
    by_cases free : e.Free
    · exact endsMono (Runner.stepReady runs c fresh ready free) fun _ _ ended =>
        ⟨ended.1, ended.2 callable⟩
    · exact endsMono (Runner.stepHolds runs c fresh ready.toHolds) fun _ _ answer =>
        ⟨answer, fun strict => absurd (ready.free strict) free⟩

theorem Conduct.runsNone {G : Type} (C : Conduct G) :
    C.Runs ⟨fun _ _ => Run.halt .outOfFuel, 0⟩ := by
  have early {e : Engine} (able : C.Able ⟨fun _ _ => Run.halt .outOfFuel, 0⟩ e) : C.Early e :=
    fun isOver => absurd (able isOver) (Nat.lt_irrefl 0)
  exact ⟨fun _ _ able holds => endsHalt holds.stop (early able) _,
    fun _ _ able ready => endsHalt ready.stop (early able) _,
    fun _ _ stopped able => endsHalt stopped (early able) _⟩

theorem Conduct.runs {G : Type} (C : Conduct G) (fuel : Nat) : C.Runs (Runner.ofFuel fuel) := by
  induction fuel with
  | zero => exact C.runsNone
  | succ fuel ih => exact ih.next fuel

end CMakeScript
