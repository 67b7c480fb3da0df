import CMakeScript.Proofs.RecordedPolicies
import CMakeScript.Proofs.RequestRuns
/-! Invariants that do not depend on what is under way. They withstand every transfer of control if
they withstand the steps between which a run goes on. -/
namespace CMakeScript

def Event.isNote : Event → Bool
  | asked _ _ | concluded _ | functionLeft _ | callGivenUp | loopEntered | loopEnded | loopSought _
  | loopLeft _ | fileLeft _ | deferredBegun | deferredEnded => true
  | _ => false

structure Discipline (G : Type) where
  holds : G → Engine → Prop
  stopped : Engine → Prop
  strict : Prop
  nests : Prop
  hosts : G → Prop := fun _ => True
  stop {g e} : holds g e → stopped e
  edit {g e e'} : holds g e → Moves e e' → holds g e'
  counts {g e e'} : holds g e → e.Counts e' → holds g e'
  failStops {g e} : holds g e → holds g e.setFatal
  stopNoted {g e} : holds g e → holds g e.noteStop
  noted {g e} (event : Event) : event.isNote = true → holds g e → holds g (e.logged event)
  exitCode {g e} (code : Int) : holds g e → holds g { e with exitCode := some code }
  offered {g e} (c : Command) : holds g e → holds g (e.logged (.offered c))
  recorded {g e top below} (depth : Nat) (c : Command) : holds g e →
    e.blocks.blocks = top :: below →
    holds g (({ e with blocks := { e.blocks with
      blocks := { top with depth, recorded := c :: top.recorded } :: below } } : Engine).logged
        (.offered c))
  closed {g e top below} (c : Command) : holds g e → e.blocks.blocks = top :: below →
    top.block.isScope = false →
    holds g (({ e with blocks := { e.blocks with blocks := below } } : Engine).logged (.offered c))
  scopeClosed {g e top below policies bindings propagate} (c : Command) : holds g e →
    e.blocks.blocks = top :: below → (strict → below = []) →
    top.block = .scope policies bindings propagate →
    ∃ g', holds g' (({ e with blocks := { e.blocks with blocks := below } } : Engine).logged
        (.offered c)) ∧
      ∀ {e'}, holds g' e' →
        holds g ((e'.logged .bodyEnded).closeBlockScopes policies bindings propagate)
  command {g e} (c : Command) : holds g e → ∃ g', holds g' (Runner.enterCommand c e) ∧
    ∀ {e'}, holds g' e' → holds g (Runner.leaveCommand e')
  dispatched {g e} (c : Command) : holds g e → e.fatal = false →
    holds g (e.logged (.dispatched c))
  returned {g e} (target : Callable) : holds g e → holds g (e.logged (.returned target))
  opening {g e e'} : holds g e → (strict → e.Free) → Opening e e' → holds g e'
  definition {g e d registry} : holds g e → d.policies = e.recordPolicies →
    e.registry.define? d = some registry →
    holds g (({ e with registry } : Engine).logged (.defined d e.statuses))
  called {g g' e e' d} (o : ScopeOpening) : holds g e → e.fatal = false → e.registry.Knows d →
    e.Quiet e' → e'.statuses = ((e.openScope o.create).2.pushPolicy true d.policies).statuses → holds g' e' →
    holds g' (e'.logged (.called d e.statuses e'.statuses))
  frame {g e} (frame : Frame) : holds g e → ∃ g', (hosts g → hosts g') ∧
    holds g' (e.pushFrame frame) ∧ ∀ {e'}, holds g' e' → holds g e'.popFrame
  scope {g e} (o : ScopeOpening) : holds g e → (strict → e.Free) →
    ∃ g', holds g' (e.openScope o.create).2 ∧
      ∀ {e'} (report : Bool), holds g' e' → (strict → e'.Free) →
        holds g (e'.closeScope (e.openScope o.create).1 report)
  scopeBarrier {g e} (o : ScopeOpening) : holds g e → (strict → e.Free) →
    ∃ g', (hosts g → hosts g') ∧ holds g' (e.openScope o.create).2.openBarrier ∧
      ∀ {e'} (report reportScope : Bool), holds g' e' → (strict → e'.Tidy) →
        holds g ((e'.closeBarrier report).closeScope (e.openScope o.create).1 reportScope)
  barrierScope {g e} (o : ScopeOpening) : holds g e → (strict → e.Free) →
    ∃ g', holds g' (e.openBarrier.openScope o.create).2 ∧
      ∀ {e'} (report reportScope : Bool), holds g' e' → (strict → e'.Tidy) →
        holds g ((e'.closeBarrier report).closeScope (e.openBarrier.openScope o.create).1
          reportScope)
  queue {g e} (change : QueueChange) : hosts g → change.isHosted = true → holds g e →
    holds g (e.changeQueue e.current change)
  deferred {g e top below} (o : ScopeOpening) (depth : Nat) (c : Command) : holds g e →
    e.blocks.blocks = top :: below → stopped ((e.openScope o.create).2.logged .deferredBegun) ∧
      holds g ((((({ (e.openScope o.create).2.logged .deferredBegun with
        blocks := { e.blocks with
          blocks := { top with depth, recorded := c :: top.recorded } :: below } } : Engine).logged
          (.offered c))).logged .deferredEnded).closeScope (e.openScope o.create).1 true)
  reach {g e lower} : holds g e →
    e.registry.findLower? lower = some (.builtin .addSubdirectory) → nests
  created {g e e' id} : nests → e.fatal = false → holds g e → e.Subdirectory id e' → holds g e'
  refusal {g e} (error : ScopeError) : nests → holds g e → holds g (e.internalError error)
  directory {g e₀ e id} : nests → e₀.fatal = false → holds g e₀ → (strict → e₀.Free) →
    e₀.Subdirectory id e → ∃ g', hosts g' ∧ holds g' (Runner.enterDirectory id e) ∧
      ∀ {e'}, holds g' e' → (strict → e'.Free) → holds g (Runner.leaveDirectory e e')

namespace Discipline

variable {G : Type} (D : Discipline G) {g : G} {e e' : Engine}

theorem functionCall {d : Definition} (values : List String) (holds : D.holds g e)
    (live : e.fatal = false) (free : D.strict → e.Free) (known : e.registry.Knows d) :
    ∃ g', D.holds g' (Runner.enterFunction d values e).2 ∧
      ∀ {e'} (report : Bool), D.holds g' e' → (D.strict → e'.Tidy) →
        D.holds g (e'.closeFunction (Runner.enterFunction d values e).1 report) := by
  obtain ⟨g', -, inside, leave⟩ := D.scopeBarrier (.functionCall d.file) holds free
  have looped := D.edit (D.counts inside (.openLoopBarrier _)) (.pushPolicy _ true d.policies)
  have defined := D.edit looped (.defineAll (Runner.functionVariables d values) _)
  refine ⟨g', D.called (.functionCall d.file) holds live known ?_ ?_ defined,
    fun {e'} report holds tidy => ?_⟩
  · exact (Engine.Quiet.turns (.openFunction e d.file d.policies)).trans (.edits (.defineAll ..))
  · exact Engine.statusesFunction d values e
  · have popped strict := (tidy strict).sameOpen (.edits (.popPolicy e'))
    exact D.counts (leave report report (D.edit holds (.popPolicy e')) popped) (.closeLoopBarrier _)

theorem macroCall {d : Definition} (holds : D.holds g e) (live : e.fatal = false)
    (free : D.strict → e.Free) (known : e.registry.Knows d) :
    ∃ g', D.holds g' (Runner.enterMacro d e).2 ∧
      ∀ {e'} (report : Bool), D.holds g' e' → (D.strict → e'.Tidy) →
        D.holds g (e'.closeMacro (Runner.enterMacro d e).1 report) := by
  obtain ⟨g', -, inside, leave⟩ := D.scopeBarrier (.macroCall d.file) holds free
  have pushed := D.edit inside (.pushPolicy _ true d.policies)
  refine ⟨g', D.called (.macroCall d.file) holds live known ?_ ?_ pushed,
    fun {e'} report holds tidy => ?_⟩
  · exact .turns (.openMacro e d.file d.policies)
  · exact Engine.statusesMacro d e
  · have popped strict := (tidy strict).sameOpen (.edits (.popPolicy e'))
    exact leave report report (D.edit holds (.popPolicy e')) popped

theorem leaveFunction {handle : ScopeHandle} {g' : G} {report : Bool} (s : Status)
    (leave : ∀ {e'}, D.holds g' e' → (D.strict → e'.Tidy) →
      D.holds g (e'.closeFunction handle report))
    (holds : D.holds g' e) (tidy : D.strict → e.Tidy) :
    D.holds g (s.leaveFunction handle report e) := by
  obtain ⟨seen, same⟩ := s.leaveFunctionCases handle report e
  have raised := Moves.raiseAll e s.names
  rw [same]
  refine D.noted _ rfl (leave (D.edit holds raised) fun strict => ?_)
  exact (tidy strict).sameOpen (.edits raised.edits)

theorem fileLeft (s : Status) (holds : D.holds g e) :
    D.holds g ((s.endFile e).logged (.fileLeft (s.endFile e).fatal)) := by
  refine D.noted _ rfl ?_
  unfold Status.endFile
  split
  · exact holds
  · split
    · exact D.exitCode _ holds
    · exact D.edit holds (.raiseAll e _)

theorem concluded (c : Command) (succeeded : Bool) (o : Outcome) (holds : D.holds g e) :
    D.holds g (Runner.conclude c succeeded o e).2 := by
  obtain ⟨e₁, moves, same | same⟩ := Runner.concludeStands c succeeded o e <;> rw [same]
  · exact D.edit holds moves
  · exact D.failStops (D.edit holds moves)

def conduct : Conduct G where
  holds _ := D.holds
  stopped := D.stopped
  strict := D.strict
  nests := D.nests
  follows := False
  hosts := D.hosts
  stop := D.stop
  blind _ holds := holds
  ended holds := holds
  resumed holds _ := holds
  passed holds := holds
  edit _ := D.edit
  failStops _ := D.failStops
  stopNoted _ := D.stopNoted
  offered := D.offered
  recorded := D.recorded
  closed c holds found ordinary _ := D.closed c holds found ordinary
  loop {g e top below} c holds found _ repeats := by
    have closed := D.closed c holds found (Block.loopOrdinary repeats)
    refine ⟨g, fun {e'} moves => ?_, fun _ ended =>
      D.counts (D.noted .loopEnded rfl ended) (.closeLoop _)⟩
    have moved := D.edit closed moves
    exact ⟨D.stop moved, D.noted .loopEntered rfl moved⟩
  sought {g e} holds _ := D.noted (.loopSought e.inLoop) rfl holds
  scopeClosed c holds found empty scope := by
    obtain ⟨g', inside, leave⟩ := D.scopeClosed c holds found empty scope
    exact ⟨g', inside, fun {s e'} _ ended _ => leave (D.edit ended (.raiseAll e' s.names))⟩
  command c holds := by
    obtain ⟨g', inside, leave⟩ := D.command c holds
    exact ⟨g', inside, fun _ ended => leave ended⟩
  dispatched := D.dispatched
  asked _ holds live _ edits := D.noted _ rfl (D.edit holds (.live live edits))
  returned := D.returned
  concluded {g e} c succeeded o holds _ _ := by
    have ended := D.noted (.concluded (Runner.conclude c succeeded o e).1.2.transfer?) rfl
      (D.concluded c succeeded o holds)
    exact ⟨ended, fun _ _ => ended⟩
  opening holds free _ opening := D.opening holds free opening
  definition := D.definition
  restored saved _ holds := D.noted _ rfl (D.edit holds (.assignAll saved _))
  givenUp _ holds := D.noted _ rfl holds
  functionCall values holds live free known _ := by
    obtain ⟨g', inside, leave⟩ := D.functionCall values holds live free known
    exact ⟨g', inside, fun {s e'} report _ ended tidy =>
      D.leaveFunction s (fun holds tidy => leave report holds tidy) ended tidy⟩
  macroCall holds live free known _ := by
    obtain ⟨g', inside, leave⟩ := D.macroCall holds live free known
    exact ⟨g', inside, fun report _ ended tidy => leave report ended tidy⟩
  frame frame holds := by
    obtain ⟨g', hosts, inside, leave⟩ := D.frame frame holds
    exact ⟨g', hosts, inside, fun _ ended => leave ended⟩
  scopeBarrier := D.scopeBarrier
  barrierScope := D.barrierScope
  fileLeft {s g e} _ holds := D.fileLeft s holds
  deferredCall o holds free := by
    obtain ⟨g', inside, leave⟩ := D.scope o holds free
    exact ⟨g', D.noted _ rfl inside, fun _ ended free => leave true (D.noted _ rfl ended) free⟩
  queue change hosts hosted _ holds := D.queue change hosts hosted holds
  deferredTaken := D.deferred
  reach := D.reach
  created := D.created
  refusal := D.refusal
  directory nests live holds free created := by
    obtain ⟨g', hosts, inside, leave⟩ := D.directory nests live holds free created
    exact ⟨g', hosts, inside, fun _ ended free => leave ended free⟩

abbrev Holds (g : G) (e : Engine) : Prop := D.conduct.Holds .going g e

abbrev Ready (g : G) (e : Engine) : Prop := D.conduct.Ready .going g e

abbrev Ends {α : Type} (m : Run α) (e : Engine) (after : α → Engine → Prop) : Prop :=
  D.conduct.Ends m e after

structure Runs (r : Runner) : Prop where
  conduct : D.conduct.Runs r

variable {D}

theorem sameStatus {s s' : Status} (holds : D.conduct.Holds s g e) : D.conduct.Holds s' g e :=
  holds.same False.elim

theorem Runs.holds {r : Runner} (runs : D.Runs r) (c : Command) (o : Outcome)
    (holds : D.Holds g e) : D.Ends (r.execute c o) e fun _ => D.Holds g :=
  Conduct.endsMono (runs.conduct.holds c False.elim False.elim holds) fun _ _ ended =>
    sameStatus ended.1.holds

theorem runs (fuel : Nat) : D.Runs (Runner.ofFuel fuel) := ⟨D.conduct.runs fuel⟩

end Discipline
namespace Runner

variable {G : Type} {D : Discipline G} {r : Runner} {g : G} {e : Engine}

theorem runSourceEnds (runs : D.Runs r) (path source : String) (ready : D.Ready g e)
    (hosts : D.hosts g := by exact trivial) :
    D.Ends (r.runSource path source) e fun _ => D.Ready g :=
  Conduct.endsMono (sourceEnds runs.conduct path source ready hosts) fun _ _ answered =>
    ⟨Discipline.sameStatus answered.1.toHolds, answered.1.free⟩

theorem serveAllEnds (runs : D.Runs r) (requests : List Request) (ready : D.Ready g e)
    (hosts : D.hosts g := by exact trivial) :
    D.Ends (r.serveAll requests) e fun _ => D.Ready g :=
  serveEachEnds runs.conduct id requests ready hosts

end Runner
end CMakeScript
