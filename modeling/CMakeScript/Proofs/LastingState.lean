import CMakeScript.Proofs.Discipline
/-! What commands change for good. Scopes, blocks and files come and go without touching it, so that
a property of it holds throughout a run if edits and new directories keep it. -/
namespace CMakeScript

namespace Engine

theorem lastingNoteStop (e : Engine) : e.noteStop.lasting = e.lasting := by
  unfold noteStop
  split <;> rfl

theorem lastingChange (e : Engine) (i : Nat) (change : QueueChange) :
    (e.changeQueue i change).lasting = e.lasting := by
  unfold changeQueue
  split <;> rfl

end Engine

variable {G : Type} {D : Discipline G}

structure Discipline.Rider (D : Discipline G) where
  holds : Engine → Prop
  lasting {e e'} : holds e → e'.lasting = e.lasting → holds e'
  edits {g e e'} : D.holds g e → e.fatal = false → holds e → Edits e e' → holds e'
  created {g e e' id} : D.holds g e → holds e → e.Subdirectory id e' → holds e'

namespace Discipline.Rider

variable (R : D.Rider) {e e' : Engine}

theorem turns (holds : R.holds e) (turns : Turns e e') : R.holds e' :=
  R.lasting holds (Engine.Still.turns turns).lasting

def discipline (R : D.Rider) : Discipline G where
  holds g e := D.holds g e ∧ R.holds e
  stopped e := D.stopped e ∧ R.holds e
  strict := D.strict
  nests := D.nests
  hosts := D.hosts
  stop both := both.imp_left D.stop
  edit {g e e'} both moves := by
    refine ⟨D.edit both.1 moves, ?_⟩
    cases stops : e.fatal with
    | false => exact R.edits both.1 stops both.2 moves.edits
    | true => exact R.lasting both.2 (moves.still stops).lasting
  counts both counts := ⟨D.counts both.1 counts, R.turns both.2 (.counts counts)⟩
  failStops both := ⟨D.failStops both.1, R.lasting both.2 rfl⟩
  stopNoted {g e} both := ⟨D.stopNoted both.1, R.lasting both.2 (Engine.lastingNoteStop e)⟩
  noted event note both := ⟨D.noted event note both.1, R.lasting both.2 rfl⟩
  exitCode code both := ⟨D.exitCode code both.1, R.lasting both.2 rfl⟩
  offered c both := ⟨D.offered c both.1, R.lasting both.2 rfl⟩
  recorded depth c both found := ⟨D.recorded depth c both.1 found, R.lasting both.2 rfl⟩
  closed c both found ordinary := ⟨D.closed c both.1 found ordinary, R.lasting both.2 rfl⟩
  scopeClosed c both found empty scope := by
    obtain ⟨g', inside, leave⟩ := D.scopeClosed c both.1 found empty scope
    refine ⟨g', ⟨inside, R.lasting both.2 rfl⟩, fun {e'} ended => ⟨leave ended.1, ?_⟩⟩
    have noted : R.holds (e'.logged .bodyEnded) := R.lasting ended.2 rfl
    exact R.turns noted (.closeBlockScopes ..)
  command c both := by
    obtain ⟨g', inside, leave⟩ := D.command c both.1
    exact ⟨g', ⟨inside, R.lasting both.2 rfl⟩, fun ended =>
      ⟨leave ended.1, R.lasting ended.2 rfl⟩⟩
  dispatched c both live := ⟨D.dispatched c both.1 live, R.lasting both.2 rfl⟩
  returned target both := ⟨D.returned target both.1, R.lasting both.2 rfl⟩
  opening both free opening :=
    ⟨D.opening both.1 free opening, R.turns both.2 (.opening opening)⟩
  definition both recorded defined :=
    ⟨D.definition both.1 recorded defined, R.lasting both.2 rfl⟩
  called o both live knows quiet starts inside :=
    ⟨D.called o both.1 live knows quiet starts inside.1, R.lasting inside.2 rfl⟩
  frame frame both := by
    obtain ⟨g', hosts, inside, leave⟩ := D.frame frame both.1
    exact ⟨g', hosts, ⟨inside, R.lasting both.2 rfl⟩, fun ended =>
      ⟨leave ended.1, R.lasting ended.2 rfl⟩⟩
  scope o both free := by
    obtain ⟨g', inside, leave⟩ := D.scope o both.1 free
    exact ⟨g', ⟨inside, R.turns both.2 (.openScope _ o)⟩, fun report ended free =>
      ⟨leave report ended.1 free, R.turns ended.2 (.closeScope ..)⟩⟩
  scopeBarrier o both free := by
    obtain ⟨g', hosts, inside, leave⟩ := D.scopeBarrier o both.1 free
    exact ⟨g', hosts, ⟨inside, R.turns both.2 ((Turns.openScope _ o).trans (.openBarrier _))⟩,
      fun report reportScope ended tidy =>
        ⟨leave report reportScope ended.1 tidy, R.turns ended.2 (.closeBarrierScope ..)⟩⟩
  barrierScope o both free := by
    obtain ⟨g', inside, leave⟩ := D.barrierScope o both.1 free
    exact ⟨g', ⟨inside, R.turns both.2 ((Turns.openBarrier _).trans (.openScope _ o))⟩,
      fun report reportScope ended tidy =>
        ⟨leave report reportScope ended.1 tidy, R.turns ended.2 (.closeBarrierScope ..)⟩⟩
  queue {g e} change hosts hosted both :=
    ⟨D.queue change hosts hosted both.1, R.lasting both.2 (Engine.lastingChange e e.current change)⟩
  deferred o depth c both found := by
    obtain ⟨stopped, taken⟩ := D.deferred o depth c both.1 found
    have opened := R.turns both.2 (.openScope _ o)
    refine ⟨⟨stopped, R.lasting opened rfl⟩, taken, R.turns (R.lasting opened ?_) (.closeScope ..)⟩
    rfl
  reach both := D.reach both.1
  created nests live both created :=
    ⟨D.created nests live both.1 created, R.created both.1 both.2 created⟩
  refusal {g e} error nests both := ⟨D.refusal error nests both.1,
    R.lasting both.2 (Engine.Still.internalError e error).lasting⟩
  directory nests live both free created := by
    obtain ⟨g', hosts, inside, leave⟩ := D.directory nests live both.1 free created
    exact ⟨g', hosts, ⟨inside, R.lasting (R.created both.1 both.2 created) rfl⟩, fun ended free =>
      ⟨leave ended.1 free, R.lasting ended.2 rfl⟩⟩

end Discipline.Rider
end CMakeScript
