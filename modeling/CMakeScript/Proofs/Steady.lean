import CMakeScript.Proofs.Turns
/-! What goes on while scopes and blocks are opened and closed, and in a command by itself: the log
does not tell where control goes, the exit code and the commands stay, and a run that has to stop is
not taken up again. -/
namespace CMakeScript

def Event.isQuiet : Event → Bool
  | queue _ _ | tested | stopped => true
  | event => event.isScoping

def Event.isAside : Event → Bool
  | defined _ _ | called _ _ _ | loopEntered | loopEnded | loopSought _ => true
  | event => event.isQuiet

namespace Engine

structure Quiet (e e' : Engine) : Prop where
  options : e'.options = e.options
  exitCode : e'.exitCode = e.exitCode
  registry : e'.registry = e.registry
  current : e'.current = e.current
  processed : e'.runs.size = e.runs.size
  fatal : e.fatal = true → e'.fatal = true
  log : ∃ entries : List LogEntry, (∀ entry ∈ entries, entry.event.isQuiet = true) ∧
    e'.log = entries ++ e.log

namespace Quiet

variable {e e' e'' : Engine}

theorem refl (e : Engine) : e.Quiet e := ⟨rfl, rfl, rfl, rfl, rfl, id, [], nofun, rfl⟩

theorem trans (first : e.Quiet e') (second : e'.Quiet e'') : e.Quiet e'' where
  options := second.options.trans first.options
  exitCode := second.exitCode.trans first.exitCode
  registry := second.registry.trans first.registry
  current := second.current.trans first.current
  processed := second.processed.trans first.processed
  fatal stops := second.fatal (first.fatal stops)
  log := logJoined first.log second.log

theorem logged (e : Engine) {event : Event} (quiet : event.isQuiet = true) :
    e.Quiet (e.logged event) :=
  { refl e with log := ⟨[⟨event, e.blocks⟩], by simpa using quiet, rfl⟩ }

theorem setFatal (e : Engine) : e.Quiet e.setFatal := { refl e with fatal := fun _ => rfl }

theorem issueAt (e : Engine) (kind : MessageKind) (text : String) (trace : Backtrace) :
    e.Quiet (e.issueAt kind text trace) := by
  obtain ⟨nested, written, errorOccurred, issued, -⟩ := issueAtCases e kind text trace
  rw [issued]
  exact { refl e with }

theorem internalError (e : Engine) (error : ScopeError) : e.Quiet (e.internalError error) :=
  (issueAt ..).trans (setFatal _)

theorem changeQueue (e : Engine) (i : Nat) (change : QueueChange) :
    e.Quiet (e.changeQueue i change) := by
  unfold Engine.changeQueue
  split
  · have noted : e.Quiet (e.logged (.queue i change)) := logged e rfl
    exact { noted with processed := Array.size_modify }
  · exact refl e

theorem noteStop (e : Engine) : e.Quiet e.noteStop := by
  unfold Engine.noteStop
  split
  · have noted : e.Quiet (e.logged .stopped) := logged e rfl
    exact { noted with }
  · exact refl e

theorem edit (edit : Edit e e') : e.Quiet e' := by
  cases edit with
  | issue _ text trace => exact issueAt ..
  | @display kind _ text =>
    unfold Engine.display
    split <;> exact { refl e with }
  | lost _ error => exact internalError ..
  | setFatal => exact setFatal e
  | tested => exact logged e rfl
  | queue => exact changeQueue ..
  | _ => exact { refl e with }

theorem edits (edits : Edits e e') : e.Quiet e' := by
  induction edits with
  | refl => exact refl e
  | tail _ last ih => exact ih.trans (edit last)

theorem turns (turns : Turns e e') : e.Quiet e' := by
  refine turns.carry refl trans fun {e e'} turn => ?_
  have quiet {event : Event} (scoping : event.isScoping = true) : event.isQuiet = true := by
    cases event <;> first | rfl | cases scoping
  cases turn with
  | upkeep moves => exact edits moves
  | counts counts =>
    cases counts
    exact { refl e with }
  | @scope scopes _ id _ scoping =>
    have moved : e.Quiet (({ e with scopes } : Engine).setSnapshot id) :=
      { refl e with processed := Array.size_modify }
    exact moved.trans (logged _ (quiet scoping))
  | blocks blocks scoping =>
    have moved : e.Quiet { e with blocks } := { refl e with }
    exact moved.trans (logged _ (quiet scoping))
  | refused error => exact internalError ..

theorem subdirectory {id : Nat} (created : e.Subdirectory id e') : e.Quiet e' := by
  cases created
  exact { refl e with }

end Quiet

structure Steady (e e' : Engine) : Prop where
  options : e'.options = e.options
  exitCode : e'.exitCode = e.exitCode
  fatal : e.fatal = true → e'.fatal = true
  log : ∃ entries : List LogEntry, (∀ entry ∈ entries, entry.event.isAside = true) ∧
    e'.log = entries ++ e.log

namespace Steady

variable {e e' e'' : Engine}

theorem other (options : e'.options = e.options) (exitCode : e'.exitCode = e.exitCode)
    (fatal : e.fatal = true → e'.fatal = true) (log : e'.log = e.log) : e.Steady e' :=
  ⟨options, exitCode, fatal, [], nofun, log⟩

theorem trans (first : e.Steady e') (second : e'.Steady e'') : e.Steady e'' where
  options := second.options.trans first.options
  exitCode := second.exitCode.trans first.exitCode
  fatal stops := second.fatal (first.fatal stops)
  log := logJoined first.log second.log

theorem live (steady : e.Steady e') (live : e'.fatal = false) : e.fatal = false :=
  eq_false_of_ne_true fun stops => Bool.false_ne_true (live.symm.trans (steady.fatal stops))

theorem logged (e : Engine) {event : Event} (aside : event.isAside = true) :
    e.Steady (e.logged event) :=
  ⟨rfl, rfl, id, [⟨event, e.blocks⟩], by simpa using aside, rfl⟩

theorem quiet (quiet : e.Quiet e') : e.Steady e' := by
  obtain ⟨entries, ofKind, log⟩ := quiet.log
  refine ⟨quiet.options, quiet.exitCode, quiet.fatal, entries, fun entry member => ?_, log⟩
  have here := ofKind entry member
  generalize entry.event = event at here ⊢
  cases event <;> first | rfl | cases here

theorem setFatal (e : Engine) : e.Steady e.setFatal := quiet (.setFatal e)

theorem internalError (e : Engine) (error : ScopeError) : e.Steady (e.internalError error) :=
  quiet (.internalError e error)

theorem changeQueue (e : Engine) (i : Nat) (change : QueueChange) :
    e.Steady (e.changeQueue i change) :=
  quiet (.changeQueue e i change)

theorem noteStop (e : Engine) : e.Steady e.noteStop := quiet (.noteStop e)

theorem edits (edits : Edits e e') : e.Steady e' := quiet (.edits edits)

theorem turns (turns : Turns e e') : e.Steady e' := quiet (.turns turns)

theorem enterFunction (d : Definition) (values : List String) (e : Engine) :
    e.Steady (Runner.enterFunction d values e).2 := by
  have entered : e.Steady _ := (turns (.openFunction e d.file d.policies)).trans
    (edits (.defineAll (Runner.functionVariables d values) _))
  exact entered.trans (logged _ rfl)

theorem enterMacro (d : Definition) (e : Engine) : e.Steady (Runner.enterMacro d e).2 :=
  (turns (.openMacro e d.file d.policies)).trans (logged _ rfl)

theorem define (e : Engine) (d : Definition) (registry : Registry) :
    e.Steady (({ e with registry } : Engine).logged (.defined d e.statuses)) := by
  have added : e.Steady { e with registry } := other rfl rfl (fun stops => stops) rfl
  exact added.trans (logged _ rfl)

theorem subdirectory {id : Nat} (created : e.Subdirectory id e') : e.Steady e' :=
  quiet (.subdirectory created)

theorem endLoop (e : Engine) : e.Steady e.endLoop :=
  (logged e rfl).trans (turns (.counts (.closeLoop _)))

end Steady
end Engine
end CMakeScript
