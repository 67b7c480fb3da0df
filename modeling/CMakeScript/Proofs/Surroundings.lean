import CMakeScript.Proofs.Discipline
/-! What a command leaves as it was for those that follow: the places in the trace, the depth, the
marks for errors, the barriers and the directory being processed. This is so in every state, no
matter what is open and how the command ends. -/
namespace CMakeScript

structure Surroundings where
  backtrace : Backtrace
  depth : Nat
  nested : Nat
  barriers : List Nat
  current : Nat

namespace Engine

def surroundings (e : Engine) : Surroundings :=
  ⟨e.backtrace, e.depth, e.nested.length, e.blocks.barriers, e.current⟩

variable {e e' : Engine} {s : Surroundings}

theorem SameOpen.surroundings (same : e.SameOpen e') : e'.surroundings = e.surroundings := by
  rw [Engine.surroundings, same.backtrace, same.depth, same.nested, same.blocks, same.current,
    Engine.surroundings]

theorem surroundingsLeaveCommand (e : Engine) : (Runner.leaveCommand e).surroundings =
    { e.surroundings with
      backtrace := e.surroundings.backtrace.pop,
      depth := e.surroundings.depth - 1,
      nested := e.surroundings.nested - 1 } := by
  simp [surroundings, Runner.leaveCommand, popFrame]

theorem surroundingsCloseBarrier (e : Engine) (report : Bool) :
    (e.closeBarrier report).surroundings =
      { e.surroundings with barriers := e.surroundings.barriers.tail } := by
  have same := SameOpen.abandonAll report
    ({ e with blocks := e.blocks.popBarrier.1 }.logged .barrierTaken) e.blocks.popBarrier.2
  exact same.surroundings

theorem surroundingsLeave {height : Nat} (handle : ScopeHandle) (report reportScope : Bool)
    (inside : e.surroundings = { s with barriers := height :: s.barriers }) :
    ((e.closeBarrier report).closeScope handle reportScope).surroundings = s := by
  rw [(SameOpen.closeScope ..).surroundings, surroundingsCloseBarrier, inside]
  rfl

theorem surroundingsOpenBarrier (e : Engine) : e.openBarrier.surroundings =
    { e.surroundings with barriers := e.blocks.blocks.length :: e.surroundings.barriers } := rfl

end Engine
open Engine

def Surroundings.discipline : Discipline Surroundings where
  holds s e := e.surroundings = s
  stopped _ := True
  strict := False
  nests := True
  stop _ := trivial
  edit holds moves := (SameOpen.edits moves.edits).surroundings.trans holds
  counts holds counts := (SameOpen.counts counts).surroundings.trans holds
  failStops holds := holds
  stopNoted holds := (SameOpen.noteStop _).surroundings.trans holds
  noted _ _ holds := holds
  exitCode _ holds := holds
  offered _ holds := holds
  recorded _ _ holds _ := holds
  closed _ holds _ _ := holds
  scopeClosed {s e top below policies bindings propagate} _ holds _ _ _ := by
    refine ⟨s, holds, fun {e'} inside => ?_⟩
    have ended : e'.SameOpen (e'.logged .bodyEnded) := .logged e' fun outside => outside
    have same := ended.trans (.closeBlockScopes _ policies bindings propagate)
    exact same.surroundings.trans inside
  command {s e} c holds := by
    refine ⟨(Runner.enterCommand c e).surroundings, rfl, fun {e'} inside => ?_⟩
    rw [surroundingsLeaveCommand, inside, ← holds]
    rfl
  dispatched _ holds _ := holds
  returned _ holds := holds
  opening {s e e'} holds _ opening := by
    cases opening with
    | plain => exact holds
    | loop => exact (SameOpen.counts (.openLoop e)).surroundings.trans holds
    | @scopes kinds propagated some =>
      obtain ⟨policies, bindings, e₁, same, opened⟩ := Command.openScopesBlock kinds propagated e
      rw [opened]
      exact same.surroundings.trans holds
  definition holds _ _ := holds
  called _ _ _ _ _ _ holds := holds
  frame {s e} frame holds := by
    refine ⟨(e.pushFrame frame).surroundings, id, rfl, fun {e'} inside => ?_⟩
    have popped : e'.popFrame.surroundings =
      { e'.surroundings with backtrace := e'.surroundings.backtrace.pop } := rfl
    rw [popped, inside, ← holds]
    rfl
  scope {s e} o holds _ :=
    ⟨s, (SameOpen.openScope ..).surroundings.trans holds, fun report inside _ =>
      (SameOpen.closeScope ..).surroundings.trans inside⟩
  scopeBarrier {s e} o holds _ := by
    have same := (SameOpen.openScope e o.create).surroundings.trans holds
    refine ⟨_, id, rfl, fun {e'} report reportScope inside _ => ?_⟩
    rw [surroundingsOpenBarrier, same] at inside
    exact surroundingsLeave _ report reportScope inside
  barrierScope {s e} o holds _ := by
    have same := (SameOpen.openScope e.openBarrier o.create).surroundings
    refine ⟨_, rfl, fun {e'} report reportScope inside _ => ?_⟩
    rw [same, surroundingsOpenBarrier, holds] at inside
    exact surroundingsLeave _ report reportScope inside
  queue _ _ hosted holds := (SameOpen.hosted _ _ hosted).surroundings.trans holds
  deferred {s e top below} o depth c holds _ := by
    refine ⟨trivial, ?_⟩
    have same := SameOpen.openScope e o.create
    have taken : (((({ (e.openScope o.create).2.logged .deferredBegun with
        blocks := { e.blocks with
          blocks := { top with depth, recorded := c :: top.recorded } :: below } } : Engine).logged
          (.offered c))).logged .deferredEnded).surroundings =
        (e.openScope o.create).2.surroundings := by
      rw [surroundings, surroundings, same.blocks]
      rfl
    rw [(SameOpen.closeScope ..).surroundings, taken, same.surroundings, holds]
  reach _ _ := trivial
  created _ _ holds created := (SameOpen.subdirectory created).surroundings.trans holds
  refusal _ _ holds := (SameOpen.internalError ..).surroundings.trans holds
  directory {s e₀ e id} _ _ holds _ created := by
    have holds := (SameOpen.subdirectory created).surroundings.trans holds
    refine ⟨(Runner.enterDirectory id e).surroundings, trivial, rfl, fun {e'} inside _ => ?_⟩
    have left : (Runner.leaveDirectory e e').surroundings =
      { e'.surroundings with backtrace := e.backtrace, current := e.current } := rfl
    rw [left, inside, ← holds]
    rfl

/-- Whatever a command runs, and however it ends, it undoes what it pushed. -/
theorem executeKeepsSurroundings (fuel : Nat) (c : Command) (o : Outcome) (e : Engine) :
    match execute fuel c o e with
    | .ok (_, e') => e'.backtrace = e.backtrace ∧ e'.depth = e.depth ∧
        e'.nested.length = e.nested.length ∧ e'.blocks.barriers = e.blocks.barriers ∧
        e'.current = e.current
    | .error _ => True := by
  have ends := (Surroundings.discipline.runs fuel).holds (e := e) c o ⟨rfl, nofun⟩
  cases run : execute fuel c o e with
  | error => trivial
  | ok ended =>
    have same := (ends.ok run).holds
    obtain ⟨backtrace, depth, nested, barriers, current⟩ := Surroundings.mk.inj same
    exact ⟨backtrace, depth, nested, barriers, current⟩

end CMakeScript
