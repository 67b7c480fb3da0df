import CMakeScript.Proofs.ScriptExit
/-! The answer of a script that does not exit by itself: it tells exactly whether an error was shown.
Every error that is noted somewhere, by a command, by a call or by the run as a whole, was shown. -/
namespace CMakeScript
namespace Engine

structure Honest (e : Engine) : Prop where
  marked : true ∈ e.nested → e.ErrorShown
  occurred : e.errorOccurred = true ↔ e.ErrorShown
  fatal : e.fatal = true → e.ErrorShown

variable {e e' : Engine}

theorem shownPush {w : Written} (plain : w.isError = false) {written : Array Written} :
    (∃ w' ∈ written.push w, w'.isError = true) ↔ ∃ w' ∈ written, w'.isError = true := by
  constructor
  · rintro ⟨w', member, error⟩
    obtain inside | rfl := Array.mem_push.mp member
    · exact ⟨w', inside, error⟩
    · rw [plain] at error
      cases error
  · rintro ⟨w', inside, error⟩
    exact ⟨w', Array.mem_push_of_mem _ inside, error⟩

namespace Honest

theorem shown (shown : e.ErrorShown) (occurred : e.errorOccurred = true) : e.Honest :=
  ⟨fun _ => shown, ⟨fun _ => shown, fun _ => occurred⟩, fun _ => shown⟩

theorem other (honest : e.Honest) (nested : true ∈ e'.nested → true ∈ e.nested)
    (errorOccurred : e'.errorOccurred = e.errorOccurred) (fatal : e'.fatal = e.fatal)
    (shown : e'.ErrorShown ↔ e.ErrorShown) : e'.Honest where
  marked known := shown.mpr (honest.marked (nested known))
  occurred := by rw [errorOccurred, shown, honest.occurred]
  fatal stops := shown.mpr (honest.fatal (fatal.symm.trans stops))

theorem marksCommand (honest : e.Honest) (marked : e.nested.headD false = true) :
    e.ErrorShown := by
  refine honest.marked ?_
  cases nested : e.nested with
  | nil =>
    rw [nested] at marked
    cases marked
  | cons mark rest =>
    rw [nested] at marked
    exact marked ▸ List.mem_cons_self ..

theorem setFatal (told : e.ErrorShown) : e.setFatal.Honest := shown told rfl

theorem showAs (honest : e.Honest) (text : MessageKind → String) (shown? : Option MessageKind) :
    (e.showAs text shown?).Honest := by
  cases shown? with
  | none => exact honest
  | some kind =>
    unfold Engine.showAs
    dsimp only
    split
    case isTrue error => exact shown (shownDiagnostic e error _) rfl
    case isFalse plain =>
      refine honest.other id rfl rfl (shownPush ?_)
      simpa [Written.isError] using plain

theorem issueAt (honest : e.Honest) (kind : MessageKind) (text : String) (trace : Backtrace) :
    (e.issueAt kind text trace).Honest := by
  by_cases error : kind = .fatalError ∨ kind = .internalError
  · refine shown (shownIssueAt e error text trace) ?_
    rw [issueAtShows e _ _ _ _ rfl]
    rcases error with rfl | rfl <;> rfl
  · rw [issueAtShows e _ _ _ _ rfl, if_neg error]
    exact honest.showAs _ _

theorem display (honest : e.Honest) (kind : MessageKind) (text : String) :
    (e.display kind text).Honest :=
  honest.showAs (fun kind => Diagnostic.format kind text e.backtrace e.topSource) (some kind)

theorem internalError (e : Engine) (error : ScopeError) : (e.internalError error).Honest :=
  setFatal (shownIssueAt e (.inr rfl) error.message e.backtrace)

theorem changeQueue (honest : e.Honest) (i : Nat) (change : QueueChange) :
    (e.changeQueue i change).Honest := by
  unfold Engine.changeQueue
  split
  · exact honest.other id rfl rfl .rfl
  · exact honest

theorem noteStop (honest : e.Honest) : e.noteStop.Honest := by
  unfold Engine.noteStop
  split
  · exact honest.other id rfl rfl .rfl
  · exact honest

theorem edit (honest : e.Honest) (edit : Edit e e') : e'.Honest := by
  cases edit with
  | output text => exact honest.other id rfl rfl (shownPush rfl)
  | errors text => exact honest.other id rfl rfl (shownPush rfl)
  | issue _ text trace => exact honest.issueAt ..
  | display _ text => exact honest.display ..
  | lost _ error => exact internalError ..
  | setFatal told => exact setFatal told
  | queue => exact honest.changeQueue ..
  | _ => exact honest.other id rfl rfl .rfl

theorem edits (honest : e.Honest) (edits : Edits e e') : e'.Honest := by
  induction edits with
  | refl => exact honest
  | tail _ last ih => exact ih.edit last

theorem turns (honest : e.Honest) (turns : Turns e e') : e'.Honest := by
  refine turns.carry (P := fun e e' => e.Honest → e'.Honest) (fun _ honest => honest)
    (fun first second honest => second (first honest)) (fun {e e'} turn honest => ?_) honest
  cases turn with
  | upkeep edits => exact honest.edits edits
  | counts counts =>
    cases counts
    exact honest.other id rfl rfl .rfl
  | scope => exact honest.other id rfl rfl .rfl
  | blocks => exact honest.other id rfl rfl .rfl
  | refused => exact internalError ..

theorem conclude {c : Command} {succeeded : Bool} {o : Outcome} (honest : e.Honest)
    (told : o.nestedError = true → e.ErrorShown) :
    (Runner.conclude c succeeded o e).2.Honest := by
  by_cases clean : (succeeded && !(o.nestedError || e.nested.headD false)) = true
  · rw [Runner.concludeClean clean]
    exact honest
  · have shown : (Runner.conclude c succeeded o e).2.ErrorShown := by
      refine Runner.concludeTold told honest.marksCommand ?_
      rw [Runner.concludeFailed clean]
      rfl
    rw [Runner.concludeFailed clean] at shown ⊢
    dsimp only at shown ⊢
    split
    case isTrue script =>
      rw [if_pos script] at shown
      exact setFatal shown
    case isFalse => exact honest.edits (Runner.reportMoves c o e).edits

end Honest

end Engine

def Event.asksExit : Event → Bool
  | asked (.exiting _) _ => true
  | _ => false

/-- The script asked for its end. -/
def ExitAsked (log : List LogEntry) : Prop := ∃ entry ∈ log, entry.event.asksExit = true

instance (log : List LogEntry) : Decidable (ExitAsked log) := by
  unfold ExitAsked
  infer_instance

namespace Engine

variable {e e' : Engine}

structure Candid (sound : Prop) (s : Status) (e : Engine) : Prop where
  honest : sound → e.Honest
  exits : ¬ExitAsked e.log → e.exitCode = none ∧ s.exit? = none

namespace Candid

variable {sound : Prop} {s s' : Status}

theorem moved (candid : e.Candid sound s) (honest : sound → e'.Honest) (log : e.log <:+ e'.log)
    (exitCode : e'.exitCode = e.exitCode) (exit : s'.exit? = s.exit?) : e'.Candid sound s' := by
  refine ⟨honest, fun none => ?_⟩
  rw [exitCode, exit]
  refine candid.exits fun ⟨entry, member, asked⟩ => none ⟨entry, log.subset member, asked⟩

theorem turn (candid : e.Candid sound s) (exit : s'.exit? = s.exit?) : e.Candid sound s' :=
  candid.moved candid.honest (List.suffix_refl _) rfl exit

theorem settled (candid : e.Candid sound s) (exit : s'.exit? = none) : e.Candid sound s' :=
  ⟨candid.honest, fun none => ⟨(candid.exits none).1, exit⟩⟩

theorem steady (candid : e.Candid sound s) (steady : e.Steady e') (honest : sound → e'.Honest) :
    e'.Candid sound s := by
  obtain ⟨entries, -, log⟩ := steady.log
  exact candid.moved honest ⟨entries, log.symm⟩ steady.exitCode rfl

theorem turns (candid : e.Candid sound s) (turns : Turns e e') : e'.Candid sound s :=
  candid.steady (.turns turns) fun known => (candid.honest known).turns turns

theorem edits (candid : e.Candid sound s) (edits : Edits e e') : e'.Candid sound s :=
  candid.steady (.edits edits) fun known => (candid.honest known).edits edits

theorem other (candid : e.Candid sound s) (nested : true ∈ e'.nested → true ∈ e.nested)
    (errorOccurred : e'.errorOccurred = e.errorOccurred) (fatal : e'.fatal = e.fatal)
    (written : e'.written = e.written) (log : e.log <:+ e'.log)
    (exitCode : e'.exitCode = e.exitCode) : e'.Candid sound s := by
  refine candid.moved (fun known => (candid.honest known).other nested errorOccurred fatal ?_) log
    exitCode rfl
  rw [ErrorShown, written, ErrorShown]

theorem logged (candid : e.Candid sound s) (event : Event) : (e.logged event).Candid sound s :=
  candid.other id rfl rfl rfl (List.suffix_cons ..) rfl

theorem blocks (candid : e.Candid sound s) (blocks : BlockStack Block) (event : Event) :
    ({ e with blocks }.logged event).Candid sound s :=
  candid.other id rfl rfl rfl (List.suffix_cons ..) rfl

theorem subdirectory {id : Nat} (candid : e.Candid sound s) (created : e.Subdirectory id e') :
    e'.Candid sound s := by
  cases created
  exact candid.other (fun known => known) rfl rfl rfl (List.suffix_refl _) rfl

theorem asked (candid : e.Candid sound .going) (edits : Edits e e') (t : Transfer)
    (values : List (String × Option String)) :
    (e'.logged (.asked t values)).Candid sound (.of false (some t)) := by
  have edited := candid.steady (.edits edits) fun known => (candid.honest known).edits edits
  cases t with
  | exiting code =>
    have known : ExitAsked (e'.logged (.asked (.exiting code) values)).log :=
      ⟨_, List.mem_cons_self .., rfl⟩
    exact ⟨(edited.logged _).honest, fun none => absurd known none⟩
  | _ => exact (edited.logged _).turn rfl

theorem leaveFunction (candid : e.Candid sound s) (handle : ScopeHandle) (report : Bool) :
    (s.leaveFunction handle report e).Candid sound s.inCaller := by
  obtain ⟨seen, same⟩ := s.leaveFunctionCases handle report e
  have turned := candid.turn s.exitInCaller
  rw [same]
  exact (turned.turns ((Turns.raiseAll e s.names).trans (.closeFunction ..))).logged _

theorem fileLeft (candid : e.Candid sound s) (event : Event) :
    ((s.endFile e).logged event).Candid sound .finished := by
  refine Candid.logged ?_ event
  cases fatal : e.fatal with
  | true =>
    rw [Status.endFileStops s fatal]
    exact candid.settled rfl
  | false =>
    cases exit : s.exit? with
    | none =>
      rw [Status.endFileStays fatal exit]
      exact (candid.turns (.raiseAll e s.names)).settled rfl
    | some code =>
      rw [Status.endFileExits fatal exit]
      refine ⟨fun known => (candid.honest known).other id rfl rfl .rfl, fun none => ?_⟩
      have unknown := (candid.exits none).2
      rw [exit] at unknown
      cases unknown

theorem concluded {c : Command} {succeeded : Bool} {o : Outcome} {result : Bool × Outcome}
    (candid : e.Candid sound (.within o)) (told : sound → o.nestedError = true → e.ErrorShown)
    (exits : ∀ code, o.Exits code → e.Candid sound (.leaving (.exiting code) false))
    (ended : Runner.conclude c succeeded o e = (result, e')) :
    (e'.logged (.concluded result.2.transfer?)).Candid sound (.after result) ∧
      ∀ code, result.2.Exits code → (e'.logged (.concluded result.2.transfer?)).Candid sound
        (.leaving (.exiting code) (Status.fails result)) := by
  have honest known : (Runner.conclude c succeeded o e).2.Honest :=
    (candid.honest known).conclude (told known)
  have steady := Runner.concludeSteady c succeeded o e
  have answer := Runner.concludeOutcome c succeeded o e
  rw [ended] at honest steady answer
  have going : (e'.logged (.concluded result.2.transfer?)).Candid sound .going :=
    ((candid.steady steady honest).settled rfl).logged _
  have before (none : ¬ExitAsked (e'.logged (.concluded result.2.transfer?)).log) :
      ¬ExitAsked e.log := fun ⟨entry, member, asked⟩ => by
    obtain ⟨entries, -, log⟩ := steady.log
    refine none ⟨entry, List.mem_cons_of_mem _ ?_, asked⟩
    rw [log]
    exact List.mem_append_right _ member
  have kept (none : ¬ExitAsked e.log) : ∃ nestedError, result.2 = { o with nestedError } := by
    refine ⟨o.nestedError || e.nested.headD false, ?_⟩
    rw [answer, Runner.outcomeOf, (candid.exits none).1]
    cases e.options.mode <;> rfl
  refine ⟨⟨going.honest, fun none => ⟨(going.exits none).1, ?_⟩⟩, fun code leaves =>
    ⟨going.honest, fun none => ?_⟩⟩
  · obtain ⟨nestedError, same⟩ := kept (before none)
    rw [Status.after, Status.exitOf, same, ← (candid.exits (before none)).2]
    exact (Status.exitWithin o).symm
  · obtain ⟨nestedError, same⟩ := kept (before none)
    rw [same] at leaves
    cases ((exits code leaves).exits (before none)).2

end Candid
end Engine
open Engine

def errorAnswer (sound : Prop) : Conduct Unit where
  holds s _ := Candid sound s
  stopped _ := True
  strict := False
  nests := True
  follows := True
  tells := sound
  stop _ := trivial
  blind unfollowed _ := absurd trivial unfollowed
  ended candid := candid.turn rfl
  resumed candid _ := candid.turn rfl
  passed {t g e} candid := candid.turn (by cases t <;> rfl)
  edit _ candid moves := candid.edits moves.edits
  tellsFollows _ := trivial
  marked known candid := (candid.honest known).marksCommand
  failStops told candid :=
    candid.moved (fun known => .setFatal (told known)) (List.suffix_refl _) rfl rfl
  stopNoted _ candid := candid.steady (.noteStop _) fun known => (candid.honest known).noteStop
  offered c candid := candid.logged _
  recorded depth c candid _ := candid.blocks _ _
  closed c candid _ _ _ := candid.blocks _ _
  loop c candid _ _ _ := ⟨(), fun moves => ⟨trivial, ((candid.blocks _ _).edits moves.edits).logged _⟩,
    fun _ inside => (inside.logged _).turns (.counts (.closeLoop _))⟩
  scopeClosed {g e top below policies bindings propagate} c candid _ _ _ := by
    refine ⟨(), candid.blocks _ _, fun {s e'} _ ended _ => ?_⟩
    have raised := Turns.raiseAll e' s.names
    exact ended.turns ((raised.trans (.logged _ rfl)).trans (.closeBlockScopes ..))
  command c candid := by
    refine ⟨(), candid.other ?_ rfl rfl rfl (List.suffix_refl _) rfl, fun _ ended =>
      ended.other List.mem_of_mem_tail rfl rfl rfl (List.suffix_refl _) rfl⟩
    simp [Runner.enterCommand]
  dispatched c candid _ := candid.logged _
  sought candid _ := candid.logged _
  asked t candid _ _ edits := candid.asked edits t _
  returned target candid := candid.logged _
  concluded c succeeded o candid told exits := candid.concluded told exits rfl
  opening candid _ _ opening := candid.turns (.opening opening)
  definition {g e d registry} candid _ _ := by
    have defined : ({ e with registry } : Engine).Candid sound .going :=
      candid.other id rfl rfl rfl (List.suffix_refl _) rfl
    exact defined.logged _
  restored saved _ candid := (candid.turns (.upkeep (.assignAll saved _) (.assignAll saved _))).logged _
  givenUp _ candid := (candid.settled rfl).logged _
  functionCall {g e d} values candid _ _ _ _ := by
    have opened := (Turns.openFunction e d.file d.policies).trans
      (.defineAll (Runner.functionVariables d values) _)
    exact ⟨(), (candid.turns opened).logged _, fun report _ ended _ => ended.leaveFunction _ report⟩
  macroCall {g e d} candid _ _ _ _ :=
    ⟨(), (candid.turns (.openMacro e d.file d.policies)).logged _, fun report _ ended _ =>
      ended.turns (.closeMacro ..)⟩
  frame frame candid := ⟨(), id, candid.other id rfl rfl rfl (List.suffix_refl _) rfl,
    fun _ ended => ended.other id rfl rfl rfl (List.suffix_refl _) rfl⟩
  scopeBarrier o candid _ := by
    have opened := candid.turns ((Turns.openScope _ o).trans (.openBarrier _))
    exact ⟨(), id, opened, fun report reportScope ended _ => ended.turns (.closeBarrierScope ..)⟩
  barrierScope o candid _ := by
    have opened := candid.turns ((Turns.openBarrier _).trans (.openScope _ o))
    exact ⟨(), opened, fun report reportScope ended _ => ended.turns (.closeBarrierScope ..)⟩
  fileLeft _ candid := candid.fileLeft _
  deferredCall o candid _ := by
    refine ⟨(), (candid.turns (.openScope _ o)).logged _, fun _ ended _ => ?_⟩
    exact ((ended.settled rfl).logged _).turns (.closeScope ..)
  queue change _ _ _ candid := candid.steady (.changeQueue ..) fun known =>
    (candid.honest known).changeQueue ..
  deferredTaken {g e top below} o depth c candid _ := by
    have begun := (candid.turns (.openScope e o)).logged .deferredBegun
    refine ⟨trivial, ?_⟩
    exact ((begun.blocks _ (.offered c)).logged .deferredEnded).turns (.closeScope ..)
  reach _ _ := trivial
  created _ _ candid created := candid.subdirectory created
  refusal error _ candid := candid.turns (.one (.refused error))
  directory _ _ before _ created := by
    have candid := before.subdirectory created
    exact ⟨(), trivial, candid.other (fun known => known) rfl rfl rfl (List.suffix_refl _) rfl,
      fun _ ended _ => ended.other (fun known => known) rfl rfl rfl (List.suffix_refl _) rfl⟩

theorem Engine.cacheOptionsRead {texts : List String}
    (read : ∀ text ∈ texts, (cacheOption? text).isSome = true) (e : Engine) :
    (texts.foldl cacheOption e).errorOccurred = e.errorOccurred := by
  induction texts generalizing e with
  | nil => rfl
  | cons text rest ih =>
    obtain ⟨⟨name, type, value⟩, found⟩ :=
      Option.isSome_iff_exists.mp (read text (List.mem_cons_self ..))
    rw [List.foldl_cons, ih fun text member => read text (List.mem_cons_of_mem _ member)]
    unfold cacheOption
    rw [found]

theorem Engine.candidStart (options : Options) (platform : Platform)
    (environment : List (String × String)) :
    (start options platform environment).Candid (badCacheOptions options = []) .going := by
  have untroubled (wellFormed : badCacheOptions options = []) :
      (start options platform environment).errorOccurred = false := by
    unfold start
    refine cacheOptionsRead ?_ _
    simpa [badCacheOptions, Option.isSome_iff_ne_none] using wellFormed
  obtain ⟨environment', cache, errorOccurred, same⟩ := startCases options platform environment
  rw [same] at untroubled ⊢
  refine ⟨fun wellFormed => ⟨nofun, ?_, nofun⟩, fun _ => ⟨rfl, rfl⟩⟩
  change errorOccurred = true ↔ ∃ w ∈ #[], _
  rw [show errorOccurred = false from untroubled wellFormed]
  simp

theorem Runner.sourceCandid (options : Options) (platform : Platform)
    (environment : List (String × String)) (path source : String) (fuel : Nat) {code : Int}
    {e : Engine} (ended : (Runner.ofFuel fuel).runSource path source
      (Engine.start options platform environment) = .ok (.ok code, e)) :
    e.Candid (Engine.badCacheOptions options = []) .finished ∧ code = e.finalExitCode := by
  have candid := Engine.candidStart options platform environment
  have ready : (errorAnswer _).Ready .going () (Engine.start options platform environment) :=
    ⟨⟨candid, nofun⟩, nofun⟩
  obtain ⟨ready, answers⟩ :=
    (Runner.sourceEnds ((errorAnswer _).runs fuel) path source ready).ok ended
  exact ⟨ready.holds, answers code rfl⟩

/-- A script that comes to its end without having asked for an exit is answered with 1 if an error
was shown in its course, and with 0 if none was. -/
theorem answerTellsErrors {options : Options} (wellFormed : Engine.badCacheOptions options = [])
    (platform : Platform) (environment : List (String × String)) (path source : String) (fuel : Nat)
    (code : Int) (e : Engine)
    (ended : (Runner.ofFuel fuel).runSource path source
      (Engine.start options platform environment) = .ok (.ok code, e))
    (own : ¬ExitAsked e.log) : code = if e.written.any Written.isError then 1 else 0 := by
  obtain ⟨candid, answers⟩ := Runner.sourceCandid options platform environment path source fuel ended
  have honest := candid.honest wellFormed
  have shown : e.written.any Written.isError = true ↔ e.ErrorShown := Array.any_eq_true'
  rw [answers, Engine.finalExitCode, (candid.exits own).1]
  by_cases error : e.ErrorShown
  · rw [if_pos (shown.mpr error), honest.occurred.mpr error]
    rfl
  · have calm : e.fatal = false := eq_false_of_ne_true fun stops => error (honest.fatal stops)
    have quiet : e.errorOccurred = false :=
      eq_false_of_ne_true fun occurred => error (honest.occurred.mp occurred)
    rw [if_neg fun some => error (shown.mp some), calm, quiet]
    rfl

theorem warningAnswersOne :
    let options : Options := { mode := .script, warnings := { devAsErrors := true } }
    ∃ e, (Runner.ofFuel 9).runSource "a.cmake"
        "cmake_language(DEFER CALL message AUTHOR_WARNING stale)\nmessage(WARNING old)\n"
        (Engine.start options {} []) = .ok (.ok 1, e) ∧
      ¬ExitAsked e.log ∧ (1 : Int) = if e.written.any Written.isError then 1 else 0 := by
  intro options
  have wellFormed : Engine.badCacheOptions options = [] := rfl
  have checked : ((Runner.ofFuel 9).runSource "a.cmake"
      "cmake_language(DEFER CALL message AUTHOR_WARNING stale)\nmessage(WARNING old)\n"
      (Engine.start options {} [])).toOption.map (fun ended =>
        (ended.1.toOption, decide (ExitAsked ended.2.log))) = some (some 1, false) := by
    decide +kernel
  have answers := answerTellsErrors wellFormed {} [] "a.cmake"
    "cmake_language(DEFER CALL message AUTHOR_WARNING stale)\nmessage(WARNING old)\n" 9
  generalize (Runner.ofFuel 9).runSource "a.cmake" _ (Engine.start options {} []) = ran
    at checked answers ⊢
  obtain halted | ⟨_ | code, e⟩ := ran
  · cases checked
  · cases checked
  · obtain ⟨rfl, own⟩ : code = 1 ∧ ¬ExitAsked e.log := by
      simpa [Except.toOption] using checked
    exact ⟨e, rfl, own, answers 1 e rfl own⟩

example :
    let options : Options := { warnings := { suppressDev := true } }
    ((Runner.ofFuel 9).runSource "a.cmake" "message(AUTHOR_WARNING stale)\n"
      (Engine.start options {} []) matches .ok (.ok 0, _)) = true := by
  decide +kernel

end CMakeScript
