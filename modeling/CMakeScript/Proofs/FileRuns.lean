import CMakeScript.Proofs.BodyRuns
/-! Functions, macros and files: each is entered with a scope and a barrier, and left without an
open block. A return ends in the function or the file that it is asked for in. -/
namespace CMakeScript
open Conduct

namespace Runner

variable {G : Type} {C : Conduct G} {r : Runner} {g : G} {e : Engine}

def BodyEnd.Reached (C : Conduct G) (g : G) : BodyEnd → Engine → Prop
  | finished, e => C.Holds .going g e
  | transferred t, e => C.Holds (.of false (some t)) g e
  | failed, e => (∃ s : Status, s.mayFail ∧ C.Holds s g e) ∧ (C.tells → e.ErrorShown)

theorem failedReached {result : Bool × Outcome} (answer : C.Answer g result e)
    (fails : (!result.1 || result.2.nestedError) = true) : BodyEnd.failed.Reached C g e := by
  have holds := answer.holds
  refine ⟨?_, fun tells => answer.told tells fails⟩
  rw [Status.after, Status.fails, fails] at holds
  obtain same | ⟨t, -, same⟩ := Status.ofCases true result.2.transfer?
  · rw [same] at holds
    exact ⟨.going, trivial, holds⟩
  · rw [same] at holds
    exact ⟨.leaving t true, rfl, holds⟩

theorem bodyEnds (runs : C.Runs r) (body : List Command) (able : C.Able r e)
    (holds : C.Holds .going g e) : C.Ends (r.body body) e (BodyEnd.Reached C g) := by
  induction body generalizing e with
  | nil => exact endsPure holds
  | cons c rest ih =>
    refine endsBind (runs.run c able holds) fun result e₁ ⟨answer, rounds⟩ => ?_
    rcases result with ⟨succeeded, inner⟩
    dsimp only
    split
    case isTrue fails => exact endsPure (failedReached answer fails)
    case isFalse =>
      have holds := answer.holds
      rw [Status.after] at holds
      dsimp only at holds
      split
      case h_1 t leaving =>
        rw [leaving] at holds
        exact endsPure holds.passedOn
      case h_2 none =>
        rw [none] at holds
        exact ih (fun _ => rounds) holds

theorem functionBodyEnds (runs : C.Runs r) (body : List Command) (able : C.Able r e)
    (holds : C.Holds .going g e) : C.Ends (r.functionBody body) e (BodyEnd.Reached C g) := by
  induction body generalizing e with
  | nil => exact endsPure holds
  | cons c rest ih =>
    refine endsBind (runs.run c able holds) fun result e₁ ⟨answer, rounds⟩ => ?_
    rcases result with ⟨succeeded, inner⟩
    dsimp only
    split
    case isTrue fails => exact endsPure (failedReached answer fails)
    case isFalse =>
      have holds := answer.holds
      rw [Status.after, Outcome.transfer?] at holds
      dsimp only at holds
      split
      case isTrue returning =>
        rw [if_pos returning] at holds
        exact endsPure holds.passedOn
      case isFalse notReturning =>
        split
        case h_1 code exits =>
          exact endsPure (answer.exits code ⟨eq_false_of_ne_true notReturning, exits⟩).passed
        case h_2 none =>
          refine ih (fun _ => rounds) (holds.same fun _ => ?_)
          rw [if_neg notReturning, none]
          split_ifs <;> rfl

theorem callFunctionEnds (runs : C.Runs r) (d : Definition) (values : List String) {o : Outcome}
    (fresh : C.follows → o = {}) (ready : C.Ready .going g e) (live : e.fatal = false)
    (known : e.registry.Knows d) (kind : d.kind = .function) :
    C.Ends (r.callFunction d values o) e fun result e' =>
      C.Within g result.2 e' ∧ (C.strict → e'.Free) := by
  unfold callFunction
  obtain ⟨g', inside, leave⟩ := ready.functionCall live known kind values
  have quiet {e' : Engine} (ready : C.Ready .going g e') :
      C.Within g o e' ∧ (C.strict → e'.Free) :=
    ⟨.unasked ready.toHolds.ended fresh rfl rfl, ready.free⟩
  have entered := (ready.toHolds.early live).steady (.enterFunction d values e)
  refine endsGet (endsSet (endsBind (functionBodyEnds runs d.body (entered.able r)
    inside.toHolds) ?_))
  intro ending e₁ reached
  split
  · obtain ⟨⟨s, mayFail, holds⟩, told⟩ := reached
    have left := leave (s := .going) false nofun (holds.givenUp mayFail)
    have kept (told : e₁.ErrorShown) := Engine.ErrorShown.turns (e := e₁.logged .callGivenUp) told
      (.closeFunction _ (enterFunction d values e).1 false)
    exact endsModify (endsPure
      ⟨.failed left.toHolds.ended fresh fun tells => kept (told tells), left.free⟩)
  · exact endsModify (endsPure (quiet (leave (s := .going) true nofun reached)))
  case h_3 names =>
    have left := leave (s := .leaving (.returning names) false) true nofun reached
    exact endsModify (endsModify (endsPure (quiet left)))
  -- A function stops a return only; any other transfer of control is left to its caller.
  case h_4 t other =>
    have left := leave true (Status.ofNotFinished _ _) reached
    refine endsModify (endsPure ⟨.asking ?_ fresh, ?_⟩)
    all_goals
      cases t with
      | returning names => exact absurd rfl (other names)
      | breaking | continuing | exiting => first | exact left.toHolds | exact left.free

theorem callMacroEnds (runs : C.Runs r) (d : Definition) (values : List String) {o : Outcome}
    (fresh : C.follows → o = {}) (ready : C.Ready .going g e) (live : e.fatal = false)
    (known : e.registry.Knows d) (kind : d.kind = .macroCall) :
    C.Ends (r.callMacro d values o) e fun result e' =>
      C.Within g result.2 e' ∧ (C.strict → e'.Free) := by
  unfold callMacro
  obtain ⟨g', inside, leave⟩ := ready.macroCall live known kind
  have entered := (ready.toHolds.early live).steady (.enterMacro d e)
  refine endsGet (endsSet (endsBind (bodyEnds runs _ (entered.able r) inside.toHolds) ?_))
  intro ending e₁ reached
  split
  · obtain ⟨⟨s, mayFail, holds⟩, told⟩ := reached
    have left := leave (s := .going) false nofun (holds.givenUp mayFail)
    have kept (told : e₁.ErrorShown) := Engine.ErrorShown.turns (e := e₁.logged .callGivenUp) told
      (.closeMacro _ (enterMacro d e).1 false)
    exact endsModify (endsPure
      ⟨.failed left.toHolds.ended fresh fun tells => kept (told tells), left.free⟩)
  · have left := leave (s := .going) true nofun reached
    exact endsModify (endsPure ⟨.unasked left.toHolds.ended fresh rfl rfl, left.free⟩)
  · have left := leave true (Status.ofNotFinished _ _) reached
    exact endsModify (endsPure ⟨.asking left.toHolds fresh, left.free⟩)

theorem callEnds (runs : C.Runs r) (d : Definition) (arguments : List Argument) {o : Outcome}
    (fresh : C.follows → o = {}) (ready : C.Ready .going g e) (known : e.registry.Knows d) :
    C.Ends (r.call d arguments o) e fun result e' =>
      C.Within g result.2 e' ∧ (C.strict → e'.Free) := by
  unfold call
  refine endsLift ?_
  have expanded := Step.movesValues arguments e
  have ready := ready.moves trivial expanded
  have known : (Step.values arguments e).2.registry.Knows d :=
    (Engine.SameOpen.edits expanded.edits).registry ▸ known
  split
  · exact endsPure ⟨.unasked ready.toHolds.ended fresh rfl rfl, ready.free⟩
  case h_2 found =>
    have live := Step.valuesLive found
    split
    · exact endsPure ⟨.unasked ready.toHolds.ended fresh rfl rfl, ready.free⟩
    · split
      case h_1 kind => exact callFunctionEnds runs d _ fresh ready live known kind
      case h_2 kind => exact callMacroEnds runs d _ fresh ready live known kind

theorem takeDeferredTaken {i : Nat} {call : DeferredCall} {e' : Engine}
    (taken : takeDeferred i e = (some call, e')) :
    ∃ calls, e.deferredAt e.current = some calls ∧ calls[i]? = some call ∧
      (call.waits = false → e' = e) := by
  unfold takeDeferred at taken
  split at taken
  · cases taken
  case h_2 found =>
    cases taken
    obtain ⟨calls, queue, there⟩ := Option.bind_eq_some_iff.mp found
    exact ⟨calls, queue, there, fun settled => if_neg (Bool.eq_false_iff.mp settled)⟩

theorem takeDeferredHolds (holds : C.Holds .going g e) (hosts : C.hosts g) (i : Nat) :
    C.Holds .going g (takeDeferred i e).2 := by
  unfold takeDeferred
  split
  · exact holds
  · dsimp only
    split
    · exact holds.queue hosts _ rfl trivial
    · exact holds

theorem runDeferredCallEnds (runs : C.Runs r) (call : DeferredCall)
    (callable : C.strict → call.command.IsCallable) (able : C.Able r e)
    (holds : C.Holds .going g e) :
    C.Ends (r.runDeferredCall call) e fun _ => C.Holds .going g := by
  unfold runDeferredCall
  have able : C.Able r ((e.openScope (ScopeOpening.deferCall call.file).create).2.logged
      .deferredBegun) :=
    (able.steady (.turns (.openScope e (.deferCall call.file)))).logged nofun
  by_cases free : C.strict → e.Free
  · have ready : C.Ready .going g e := ⟨holds, free⟩
    obtain ⟨g', inside, leave⟩ := ready.deferredCall (.deferCall call.file)
    refine endsGet (endsSet (endsBind (runs.ready (fun _ => rfl) callable able inside) ?_))
    intro result e₁ ended
    have ready : C.Ready _ g' e₁ := ⟨ended.1.holds, ended.2⟩
    exact ⟨(leave (Status.ofNotFinished _ _) ready).toHolds⟩
  · obtain ⟨strict, busy⟩ := Classical.not_imp.mp free
    obtain ⟨blocks, offered, stopped, left⟩ :=
      holds.deferredTaken strict busy (.deferCall call.file) (callable strict)
    refine endsGet (endsSet (endsBind (runs.recorded {} offered stopped able) ?_))
    rintro result e₁ rfl
    exact ⟨left⟩

theorem takeDeferredSteady (i : Nat) (e : Engine) : e.Steady (takeDeferred i e).2 := by
  unfold takeDeferred
  split
  · exact .other rfl rfl id rfl
  · dsimp only
    split
    · exact .changeQueue ..
    · exact .other rfl rfl id rfl

theorem deferredFromEnds (runs : C.Runs r) (fuel i : Nat) (hosts : C.hosts g)
    (holds : C.Holds .going g e) (able : C.Able r e := by exact False.elim)
    (enough : C.isOver e.log → i ≤ e.queueLength ∧ e.queueLength < i + fuel := by
      exact False.elim) :
    C.Ends (r.deferredFrom fuel i) e fun _ => C.Holds .going g := by
  induction fuel generalizing i e with
  | zero =>
    refine endsHalt holds.stop (fun isOver => ?_) _
    have bounded := enough isOver
    omega
  | succ fuel ih =>
    unfold deferredFrom
    refine endsGet ?_
    have edited := takeDeferredHolds holds hosts i
    have steady := takeDeferredSteady i e
    rcases taken : takeDeferred i e with ⟨_ | call, e₁⟩
    · rw [taken] at edited
      exact endsSet (endsPure edited)
    · rw [taken] at edited steady
      obtain ⟨calls, queue, there, stays⟩ := takeDeferredTaken taken
      refine endsSet ?_
      dsimp only
      split
      case isTrue =>
        have callable (strict : C.strict) : call.command.IsCallable := by
          refine (holds.tidy strict).deferred (i := e.current) ?_
          rw [queue]
          exact List.mem_of_getElem? there
        refine endsBind (runDeferredCallEnds runs call callable (able.steady steady) edited)
          fun _ e₂ holds => ?_
        refine endsGet ?_
        split
        case isTrue => exact endsPure holds
        case isFalse live =>
          have early := holds.early (eq_false_of_ne_true live)
          exact ih _ holds (early.able r) fun isOver => absurd isOver early
      case isFalse settled =>
        obtain rfl := stays (eq_false_of_ne_true settled)
        have length : e₁.queueLength = calls.length := by rw [Engine.queueLength, queue]; rfl
        have inside := (List.getElem?_eq_some_iff.mp there).1
        refine ih _ edited able fun isOver => ?_
        have bounded := enough isOver
        omega

theorem deferredEnds (runs : C.Runs r) (path : String) (hosts : C.hosts g) (able : C.Able r e)
    (holds : C.Holds .going g e) : C.Ends (r.deferred path) e fun _ => C.Holds .going g := by
  have begun := holds.queue hosts .begun rfl trivial
  obtain ⟨g', hosting, inside, leave⟩ := begun.frame (.ofDeferred path)
  have framed : e.Steady ((e.changeQueue e.current .begun).pushFrame (.ofDeferred path)) :=
    (Engine.Steady.changeQueue e e.current .begun).trans (.other rfl rfl id rfl)
  have able := able.steady framed
  refine endsModify (endsGet (endsBind (deferredFromEnds runs _ _ (hosting hosts) inside able
    fun isOver => ?_) fun _ e₁ holds => ?_))
  · have rounds := able isOver
    omega
  · exact ⟨leave trivial holds⟩

theorem endFileAble {s : Status} (able : C.Able r e) : C.Able r (s.endFile e) := by
  unfold Status.endFile
  split
  · exact able
  · split
    · exact able
    · exact able.steady (.edits (.raiseAll e _))

theorem commandsEnds (runs : C.Runs r) (body : List Command) (holds : C.Holds .going g e)
    (able : C.Able r e := by exact False.elim) : C.Ends (r.commands body) e fun _ e' =>
      ∃ s e₀, s ≠ .finished ∧ C.Holds s g e₀ ∧ C.Able r e₀ ∧ e' = s.endFile e₀ := by
  induction body generalizing e with
  | nil =>
    refine endsPure ⟨.going, e, nofun, holds, able, ?_⟩
    unfold Status.endFile
    exact (ite_self e).symm
  | cons c rest ih =>
    refine endsBind (runs.run c able holds) fun result e₁ ⟨answer, rounds⟩ => ?_
    rcases result with ⟨succeeded, inner⟩
    have holds := answer.holds
    rw [Status.after, Outcome.transfer?] at holds
    dsimp only at holds ⊢
    refine endsGet ?_
    split
    case isTrue fatal =>
      refine endsPure ⟨_, e₁, Status.ofNotFinished _ _, holds, fun _ => rounds, ?_⟩
      unfold Status.endFile
      rw [if_pos fatal]
    case isFalse live =>
      split
      case isTrue returning =>
        rw [if_pos returning] at holds
        refine ⟨⟨.leaving (.returning inner.returned) false, e₁, Status.leavingStays,
          holds.passedOn, fun _ => rounds, ?_⟩⟩
        unfold Status.endFile
        rw [if_neg live]
        rfl
      case isFalse notReturning =>
        split
        case h_1 code exits =>
          have exiting := answer.exits code ⟨eq_false_of_ne_true notReturning, exits⟩
          refine ⟨⟨.leaving (.exiting code) _, e₁, Status.leavingStays, exiting, fun _ => rounds,
            ?_⟩⟩
          unfold Status.endFile
          rw [if_neg live]
        case h_2 none =>
          refine ih (holds.same fun _ => ?_) fun _ => rounds
          rw [if_neg notReturning, none]
          split_ifs <;> rfl

theorem restoredEnds (saved : List (String × Option String)) (holds : C.Holds .finished g e) :
    C.Ends (modify fun e => saved.foldl (fun e (name, value) => e.assign name value) e) e
      fun _ => C.Holds .finished g :=
  ⟨holds.moves trivial (.assignAll saved e)⟩

theorem fileEnds (runs : C.Runs r) (f : ListFile) (path : String) (withDeferred : Bool)
    (hosts : withDeferred = true → C.hosts g) (able : C.Able r e) (holds : C.Holds .going g e) :
    C.Ends (r.file f path withDeferred) e fun _ => C.Holds .finished g := by
  unfold file
  have named : Edits e ((e.define "CMAKE_CURRENT_LIST_FILE" path).define
      "CMAKE_CURRENT_LIST_DIR" (Path.parent path)) := (Edits.define ..).trans (.define ..)
  have entered := (holds.moves trivial (.define e "CMAKE_CURRENT_LIST_FILE" path)).moves trivial
    (.define _ "CMAKE_CURRENT_LIST_DIR" (Path.parent path))
  refine endsGet (endsModify (endsBind (commandsEnds runs f.commands entered
    (able.steady (.edits named))) ?_))
  rintro _ _ ⟨s, e₁, stays, holds, able, rfl⟩
  have left := holds.fileLeft stays
  have able : C.Able r ((s.endFile e₁).logged (.fileLeft (s.endFile e₁).fatal)) :=
    (endFileAble able).logged nofun
  refine endsModify ?_
  generalize (s.endFile e₁).logged (.fileLeft (s.endFile e₁).fatal) = e₂ at left able ⊢
  cases withDeferred with
  | false => exact restoredEnds _ left
  | true =>
    refine endsGet ?_
    split
    case isTrue none =>
      have going := left.resumed (by simpa using none)
      exact endsBind (deferredEnds runs path (hosts rfl) able going) fun _ e₃ holds =>
        restoredEnds _ holds.ended
    case isFalse => exact restoredEnds _ left

theorem readTextCases (path text : String) (e : Engine) :
    readText path text e = .ok (ListFile.parse path text, e) ∨
      readText path text e = .error (.outOfFuel, e) := by
  unfold readText
  cases ListFile.parse path text with
  | ok f => exact .inl rfl
  | error error =>
    obtain ⟨fault, line, start, stop⟩ := error
    cases fault with
    | outOfFuel => exact .inr rfl
    | _ => exact .inl rfl

theorem readTextOk {path text : String} {read : Except SyntaxError ListFile} {e' : Engine}
    (ran : readText path text e = .ok (read, e')) : ListFile.parse path text = read ∧ e = e' := by
  obtain same | halted := readTextCases path text e
  · cases same.symm.trans ran
    exact ⟨rfl, rfl⟩
  · cases halted.symm.trans ran

theorem readTextEnds (path text : String) (stopped : C.Stopped e) (early : C.Early e) :
    C.Ends (readText path text) e fun _ e' => e = e' := by
  constructor
  obtain same | halted := readTextCases path text e
  · rw [same]
  · rw [halted]
    exact ⟨stopped, early, nofun⟩

theorem parsedEnds (path text : String) (stopped : C.Stopped e) (early : C.Early e) :
    C.Ends (parse path text) e fun _ => Moves e := by
  unfold parse
  refine endsBind (readTextEnds path text stopped early) fun read _ same => ?_
  subst same
  split
  · exact endsPure (.refl e)
  · exact endsGet (endsModify (endsPure (.fatalErrorAt e _ _)))

theorem loadedEnds (path : String) (stopped : C.Stopped e) (early : C.Early e) :
    C.Ends (load path) e fun _ => Moves e := by
  unfold load
  refine endsGet ?_
  split
  · exact parsedEnds path _ stopped early
  · exact endsModify (endsPure (.fatalError e _))

theorem fileIfEnds (runs : C.Runs r) (f? : Option ListFile) (path : String) (able : C.Able r e)
    (holds : C.Holds .going g e) : C.Ends (r.fileIf f? path) e fun _ => C.Holds .finished g := by
  unfold fileIf
  split
  · exact endsBind (fileEnds runs _ path false nofun able holds) fun _ _ holds => endsPure holds
  · exact endsPure holds.ended

theorem scopeBarrierSteady (e : Engine) (o : ScopeOpening) :
    e.Steady (e.openScope o.create).2.openBarrier :=
  .turns ((Turns.openScope e o).trans (.openBarrier _))

theorem enterFile (ready : C.Ready .going g e) (path : String) (o : ScopeOpening) :
    ∃ g', (C.hosts g → C.hosts g') ∧
      C.Ready .going g' ((e.pushFrame (.ofFile path)).openScope o.create).2.openBarrier ∧
      ∀ {e'} (report : Bool), C.Holds .finished g' e' →
        C.Ready .finished g
          (closeFile ((e.pushFrame (.ofFile path)).openScope o.create).1 report e') := by
  obtain ⟨g₁, hosts, framed, unframe⟩ := ready.frame (.ofFile path)
  obtain ⟨g', hosts', inside, leave⟩ := framed.scopeBarrier o
  exact ⟨g', hosts' ∘ hosts, inside, fun {e'} report holds => unframe trivial (leave _ _ holds)⟩

theorem nameParentMoves (e : Engine) : Moves e (nameParent e) := by
  unfold nameParent
  split
  · exact .define ..
  · exact .refl e

theorem pushPolicyIf (own : Bool) (e : Engine) :
    Moves e (if own then e.pushPolicy false {} else e) := by
  split
  · exact .pushPolicy ..
  · exact .refl e

theorem includeFileEnds (runs : C.Runs r) (name : String) (keepPolicies : Bool)
    (early : C.Early e) (ready : C.Ready .going g e) :
    C.Ends (r.includeFile name keepPolicies) e fun _ => C.Ready .finished g := by
  unfold includeFile
  refine endsGet ?_
  generalize Path.full name e.sourceDir = path
  dsimp only
  split
  · exact endsPure ready.ended
  · have named := ready.moves trivial (nameParentMoves e)
    have early := early.steady (.edits (nameParentMoves e).edits)
    generalize nameParent e = e₁ at named early ⊢
    obtain ⟨g₁, -, framed, unframe⟩ := named.frame (.ofFile path)
    obtain ⟨g₂, inside, leave⟩ := framed.barrierScope (.includeFile path)
    have opened := (Turns.openBarrier (e₁.pushFrame (.ofFile path))).trans
      (.openScope _ (.includeFile path))
    generalize (!keepPolicies && _ : Bool) = ownPolicies
    have pushed := pushPolicyIf ownPolicies ((e₁.pushFrame (.ofFile path)).openBarrier.openScope
      (ScopeOpening.includeFile path).create).2
    have entered := inside.toHolds.moves trivial pushed
    have early := Early.steady (e := e₁.pushFrame (.ofFile path)) early
      ((Engine.Steady.turns opened).trans (.edits pushed.edits))
    refine endsSet (endsBind (loadedEnds path entered.stop early) fun f? e₃ moves =>
      endsBind (fileIfEnds runs f? path ((early.steady (.edits moves.edits)).able r)
        (entered.moves trivial moves)) fun loaded e₃ holds => ?_)
    · refine endsGet (endsModify (endsModify (endsPure (unframe trivial (leave _ _ ?_)))))
      split
      · exact holds.moves trivial (.popPolicy e₃)
      · exact holds

theorem textEnds (runs : C.Runs r) (content name : String) (early : C.Early e)
    (ready : C.Ready .going g e) : C.Ends (r.text content name) e fun _ => C.Ready .finished g := by
  unfold text
  refine endsGet ?_
  generalize Path.full name e.sourceDir = path
  obtain ⟨g', -, inside, leave⟩ := enterFile ready path (.inlineFile path)
  have early := Early.steady (e := e.pushFrame (.ofFile path)) early
    (scopeBarrierSteady _ (.inlineFile path))
  refine endsSet (endsBind (parsedEnds name content inside.stop early) fun f? e₁ moves =>
    endsBind (fileIfEnds runs f? path ((early.steady (.edits moves.edits)).able r)
      (inside.toHolds.moves trivial moves)) fun loaded e₂ holds => ?_)
  exact endsModify (endsPure (leave loaded holds))

theorem directoryFileEnds (runs : C.Runs r) (f : ListFile) (path : String) (hosts : C.hosts g)
    (early : C.Early e) (ready : C.Ready .going g e) :
    C.Ends (r.directoryFile f path) e fun _ => C.Ready .finished g := by
  unfold directoryFile
  refine endsGet ?_
  obtain ⟨g₁, hosting, framed, unframe⟩ := ready.frame (.ofFile path)
  have moves := (Moves.listFile (e.pushFrame (.ofFile path))
    (e.pushFrame (.ofFile path)).snapshot path).trans (.define _ "CMAKE_PARENT_LIST_FILE" path)
  have named := framed.moves trivial moves
  obtain ⟨g₂, hosting', inside, leave⟩ := named.scopeBarrier .policyScope
  have hosts := hosting' (hosting hosts)
  have queued := inside.toHolds.queue hosts .opened rfl trivial
  have early := Early.steady (e := e.pushFrame (.ofFile path)) early
    ((Engine.Steady.edits moves.edits).trans (scopeBarrierSteady _ .policyScope))
  refine endsSet (endsBind (fileEnds runs f path true (fun _ => hosts)
    ((early.steady (.changeQueue ..)).able r) queued) fun _ e₁ holds => ?_)
  exact endsModify ⟨unframe trivial (leave _ _ (holds.queue hosts .closed rfl trivial))⟩

theorem inDirectoryEnds {e' : Engine} {id : Nat} (runs : C.Runs r) (nests : C.nests) (path : String)
    (live : e.fatal = false) (ready : C.Ready .going g e) (created : e.Subdirectory id e') :
    C.Ends (r.inDirectory id path) e' fun _ => C.Ready .finished g := by
  unfold inDirectory
  refine endsGet ?_
  obtain ⟨g₁, hosts, inside, leave⟩ := ready.directory nests live created
  obtain ⟨g₂, -, framed, unframe⟩ := inside.frame (.ofFile path)
  have early := (ready.toHolds.early live).steady (.subdirectory created)
  refine endsSet (endsBind (loadedEnds path framed.stop early) fun f? e₁ moves => ?_)
  have loaded := framed.moves trivial moves
  have early := early.steady (e := (enterDirectory id e').pushFrame (.ofFile path))
    (.edits moves.edits)
  split
  · have entered := unframe (s := .going) trivial loaded
    exact endsModify (endsBind (directoryFileEnds runs _ path hosts early entered) fun _ e₂ ready =>
      ⟨leave trivial ready⟩)
  · have left := unframe (s := .going) trivial loaded
    exact ⟨(leave (s := .going) trivial left).ended⟩

theorem subdirectoryEnds (runs : C.Runs r) (nests : C.nests) (source binary : String)
    (marks : DirectoryMarks) (live : e.fatal = false) (ready : C.Ready .going g e) :
    C.Ends (r.subdirectory source binary marks) e fun _ => C.Ready .finished g := by
  unfold subdirectory
  refine endsGet ?_
  split
  · exact ⟨(ready.refusal nests _).ended⟩
  case h_2 scopes id new =>
    have created : e.Subdirectory id { e with
        scopes := (scopes.setLocations id source binary).updateDirectory id fun d =>
          { d with properties := marks.apply d.properties } } :=
      .created source binary new fun _ => ⟨rfl, rfl⟩
    dsimp only
    split
    · exact endsSet (inDirectoryEnds runs nests _ live ready created)
    · have ready := ready.created nests live created
      exact ⟨(ready.moves trivial (.issue _ .fatalError (by decide) _)).ended⟩

def Plain (C : Conduct G) (g : G) (v : Verdict) (e : Engine) : Prop :=
  (v ≠ .halted ∧ ∀ t succeeded, v ≠ .transferred t succeeded) ∧ C.Ready .finished g e

theorem includeRequestedEnds (runs : C.Runs r) (name : String) (request : IncludeRequest)
    (early : C.Early e) (ready : C.Ready .going g e) :
    C.Ends (r.includeRequested name request) e (Plain C g) := by
  unfold includeRequested
  refine endsGet (endsBind (includeFileEnds runs _ _ early ready) fun found e₁ ready => ?_)
  split
  · refine endsModify (endsGet (endsIte (fun _ => endsPure ⟨⟨nofun, nofun⟩, ?_⟩) fun _ =>
      endsPure ⟨⟨nofun, nofun⟩, ?_⟩))
    · exact ready.moves trivial (.define e₁ _ _)
    · exact ready.moves trivial (.define e₁ _ _)
  · refine endsGet ?_
    split
    · exact endsPure ⟨⟨nofun, nofun⟩, ready⟩
    · exact endsPure ⟨⟨nofun, nofun⟩, ready⟩

theorem includeCommandEnds (runs : C.Runs r) (words : List String) (early : C.Early e)
    (ready : C.Ready .going g e) : C.Ends (r.includeCommand words) e (Plain C g) := by
  unfold includeCommand
  split
  · exact endsPure ⟨⟨nofun, nofun⟩, ready.ended⟩
  · split
    · exact endsPure ⟨⟨nofun, nofun⟩, ready.ended⟩
    · split
      · exact endsPure ⟨⟨nofun, nofun⟩, ready.ended⟩
      · split
        · have warned := ready.moves trivial (.issue e .authorWarning (by decide)
            "include() given empty file name (ignored).")
          exact endsModify (endsPure ⟨⟨nofun, nofun⟩, warned.ended⟩)
        · exact includeRequestedEnds runs _ _ early ready

theorem subdirectoryCommandEnds (runs : C.Runs r) (nests : C.nests) (words : List String)
    (live : e.fatal = false) (ready : C.Ready .going g e) :
    C.Ends (r.subdirectoryCommand words) e (Plain C g) := by
  unfold subdirectoryCommand
  cases words with
  | nil => exact endsPure ⟨⟨nofun, nofun⟩, ready.ended⟩
  | cons word options =>
    dsimp only
    generalize SubdirectoryRequest.read? {} options = request?
    cases request? with
    | none => exact endsPure ⟨⟨nofun, nofun⟩, ready.ended⟩
    | some request =>
      refine endsGet ?_
      generalize (if Command.isFullPath word then word else e.sourceDir ++ "/" ++ word) = written
      split
      · exact endsPure ⟨⟨nofun, nofun⟩, ready.ended⟩
      · have ends (source binary : String) (marks : DirectoryMarks) : C.Ends (do
            r.subdirectory source binary marks
            return Verdict.done) e (Plain C g) :=
          endsBind (subdirectoryEnds runs nests source binary marks live ready) fun _ _ ready =>
            endsPure ⟨⟨nofun, nofun⟩, ready⟩
        cases request.binary with
        | some path => exact ends ..
        | none =>
          dsimp only
          split
          · exact endsPure ⟨⟨nofun, nofun⟩, ready.ended⟩
          · exact ends ..

end Runner
end CMakeScript
