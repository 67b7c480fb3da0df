import CMakeScript.Proofs.DefinitionPolicies
import CMakeScript.Proofs.LoopRounds
/-! Runs that are stopped where a command comes up. What holds all through a run holds there, and so
where a loop is gone through or a file is included. -/
namespace CMakeScript

/-- A command that an open block takes comes up when the block is run. -/
def executeUntil (stops : Command → Engine → Bool) : Nat → Command → Outcome → Run (Bool × Outcome)
  | 0, _, _ => Run.halt .outOfFuel
  | fuel + 1, c, o => do
    let e ← get
    if (e.blocks.offer c).2 ≠ .recorded ∧ stops c e then Run.halt (.interrupted c)
    else Runner.step ⟨executeUntil stops fuel, fuel⟩ c o

def Runner.upTo (stops : Command → Engine → Bool) (fuel : Nat) : Runner :=
  ⟨executeUntil stops fuel, fuel⟩

def Engine.Meets (start : Engine) (fuel : Nat) (requests : List Request) (c : Command)
    (e : Engine) : Prop :=
  ∃ stops, (Runner.upTo stops fuel).serveAll requests start = .error (.interrupted c, e)

theorem Runner.upToNever (fuel : Nat) : upTo (fun _ _ => false) fuel = ofFuel fuel := by
  have same (fuel : Nat) : executeUntil (fun _ _ => false) fuel = CMakeScript.execute fuel := by
    induction fuel with
    | zero => rfl
    | succ fuel ih =>
      funext c o e
      rw [CMakeScript.execute, ← ih]
      exact congrFun (if_neg fun met => nomatch met.2) e
  rw [upTo, ofFuel, same]

theorem Conduct.runsUntil {G : Type} (C : Conduct G) (never : ∀ e, C.Early e)
    (stops : Command → Engine → Bool) (fuel : Nat) : C.Runs (Runner.upTo stops fuel) := by
  induction fuel with
  | zero => exact C.runsNone
  | succ fuel ih =>
    have next := ih.next fuel
    constructor
    case holds =>
      exact fun c fresh able holds => endsGet (endsIte
        (fun _ => endsInterrupted holds (never _) c) fun _ => next.holds c fresh able holds)
    case ready =>
      exact fun fresh callable able ready => endsGet (endsIte
        (fun _ => endsInterrupted ready.toHolds (never _) _) fun _ =>
          next.ready fresh callable able ready)
    case recorded =>
      exact fun o offered stopped able => endsGet (endsIte
        (fun met => absurd (congrArg Prod.snd offered) met.1) fun _ =>
          next.recorded o offered stopped able)

namespace Discipline

variable {G : Type} {D : Discipline G} {g : G} {start e e₁ : Engine} {fuel : Nat}
  {requests : List Request} {c : Command} {b : OpenBlock Block} {blocks : BlockStack Block}

theorem metHolds (ready : D.Ready g start) (met : start.Meets fuel requests c e)
    (hosts : D.hosts g := by exact trivial) : ∃ g, D.Holds g e := by
  obtain ⟨stops, run⟩ := met
  have runs : D.Runs (Runner.upTo stops fuel) := ⟨D.conduct.runsUntil (fun _ => id) stops fuel⟩
  exact ((Runner.serveAllEnds runs requests ready hosts).error run).interrupted c rfl

theorem closedReady (holds : D.Holds g e) (offered : e.blocks.offer c = (blocks, .closed b))
    (ordinary : b.block.isScope = false)
    (checked : Runner.checkClosing b c (({ e with blocks } : Engine).logged (.offered c)) =
      .ok ((), e₁)) : D.Ready g e₁ := by
  obtain ⟨-, free⟩ | ⟨top, below, found, -, closed⟩ | ⟨top, below, depth, -, taken⟩ :=
    e.blocks.offerCases c
  · cases free.symm.trans offered
  · cases closed.symm.trans offered
    have tidy strict := (holds.tidy strict).blocks
    have ready : D.Ready g (({ e with blocks := { e.blocks with blocks := below } } :
        Engine).logged (.offered c)) :=
      ⟨⟨D.closed c holds.holds found ordinary, fun strict =>
        (holds.tidy strict).move ((tidy strict).closed found) fun outside => outside.elim⟩,
        fun strict => (tidy strict).below found⟩
    exact ((Runner.closingReady (C := D.conduct) _ c id ready).ok checked).2
  · cases taken.symm.trans offered

end Discipline

namespace Runner

variable {r : Runner} {g : Engine.Departure} {e e₁ : Engine} {c : Command} {b : OpenBlock Block}
  {blocks : BlockStack Block} {fuel : Nat} {options : Options} {platform : Platform}
  {environment : List (String × String)} {requests : List Request}

def closeWith (r : Runner) (b : OpenBlock Block) (c : Command) (o : Outcome) :
    Run (Bool × Outcome) :=
  marked do
    let (handled, o) ← r.replay b o
    if handled then return (true, o) else r.perform c o

/-- A loop is gone through in the state that its closing command has led to. -/
theorem foreachReady {words : List String} {count : Nat} {zip : Bool}
    (met : (Engine.start options platform environment).Meets fuel requests c e)
    (offered : e.blocks.offer c = (blocks, .closed b))
    (loop : b.block = .foreachLoop words count zip)
    (checked : checkClosing b c (({ e with blocks } : Engine).logged (.offered c)) =
      .ok ((), e₁)) :
    (∃ g, scopeReturn.Ready g e₁) ∧ ∀ (r : Runner) o, r.step c o e = r.closeWith b c o e₁ := by
  obtain ⟨g, holds⟩ := Discipline.metHolds (Engine.homeboundStart ..) met
  refine ⟨⟨g, Discipline.closedReady holds offered (by rw [loop]; rfl) checked⟩, fun r o => ?_⟩
  have here : (get : Run Engine) e = .ok (e, e) := rfl
  rw [step, Run.okBind here, offered]
  exact (Run.okBind checked : (checkClosing b c >>= fun _ => r.closeWith b c o) _ = _)

example : (match (upTo (fun c _ => c.name == "endforeach") 9).serveAll
    [.source "/s.cmake" "foreach(x a)\nmessage(b)\nendforeach()\n"]
    (Engine.start { mode := .script } {} []) with
  | .error (.interrupted c, e) => some (c.line, e.blocks.blocks.length)
  | _ => none) = some (3, 1) := by
  decide +kernel

def calling (c : Command) (e : Engine) : Engine :=
  (if e.options.trace then e.writeErrors (traceLine e c) else e).logged (.dispatched c)

def concluding (target : Callable) (c : Command) (call : Run (Bool × Outcome)) :
    Run (Bool × Outcome) := do
  let (succeeded, o) ← call
  modify (·.logged (.returned target))
  let (succeeded, o) ← modifyGet (conclude c succeeded o)
  modify (·.logged (.concluded o.transfer?))
  return (succeeded, o)

theorem invokeCalls {target : Callable} (known : e.registry.findLower? c.lowerName = some target)
    (live : e.fatal = false) (within : ¬recursionLimit e < e.depth) (r : Runner) (o : Outcome) :
    r.invoke c o e = concluding target c (r.callable target c.arguments o) (calling c e) := by
  have here : (get : Run Engine) e = .ok (e, e) := rfl
  rw [invoke, Run.okBind here]
  dsimp only
  rw [if_neg within, known]
  dsimp only
  rw [if_neg (Bool.eq_false_iff.mp live)]
  unfold calling
  split <;> rfl

def performing (c : Command) (e : Engine) : Engine :=
  calling c (enterCommand c (e.logged (.offered c)))

theorem performingReady {G : Type} {D : Discipline G} {g : G} (ready : D.Ready g e)
    (live : e.fatal = false) : ∃ g, D.Ready g (performing c e) := by
  obtain ⟨g', inside, -⟩ := (ready.offered c).command c
  refine ⟨g', ?_⟩
  unfold performing calling
  split
  · exact (inside.moves trivial (.errors _ _)).dispatched live c
  · exact inside.dispatched live c

theorem stepCalls {target : Callable} (free : e.Free)
    (known : e.registry.findLower? c.lowerName = some target) (live : e.fatal = false)
    (within : ¬recursionLimit (enterCommand c (e.logged (.offered c))) < e.depth + 1)
    (r : Runner) (o : Outcome) :
    r.step c o e = marked (do
      let result ← concluding target c (r.callable target c.arguments o)
      modify leaveCommand
      return result) (performing c e) := by
  have here : (get : Run Engine) e = .ok (e, e) := rfl
  rw [step, Run.okBind here, offerFree free]
  change ((r.invoke c o (enterCommand c (e.logged (.offered c)))).bind _).bind _ = _
  rw [invokeCalls (e := enterCommand c (e.logged (.offered c))) known live within]
  rfl

/-- An include is carried out in the state that the reading of its words has led to. -/
theorem includeReady {words : List String}
    (met : (Engine.start options platform environment).Meets fuel requests c e) (free : e.Free)
    (known : e.registry.findLower? c.lowerName = some (.builtin .includeFile))
    (live : e.fatal = false)
    (within : ¬recursionLimit (enterCommand c (e.logged (.offered c))) < e.depth + 1)
    (given : Step.values c.arguments (performing c e) = (some words, e₁)) :
    (∃ g, definitionMemory.Ready g e₁) ∧ ∀ (r : Runner) o, r.step c o e = marked (do
      let result ← concluding (.builtin .includeFile) c do (← r.includeCommand words).settle o
      modify leaveCommand
      return result) e₁ := by
  have began : definitionMemory.Ready ⟨[], 0⟩ (Engine.start options platform environment) :=
    ⟨⟨Engine.remembersStart .., fun _ => Engine.tidyStart ..⟩, fun _ => Engine.freeStart ..⟩
  obtain ⟨g, holds⟩ := Discipline.metHolds began met
  obtain ⟨g', ready⟩ := performingReady (c := c) ⟨holds, fun _ => free⟩ live
  have moves : Moves (performing c e) e₁ := by
    simpa only [given] using Step.movesValues c.arguments (performing c e)
  refine ⟨⟨g', ready.moves trivial moves⟩, fun r o => ?_⟩
  have read : (Step.values c.arguments).lift (performing c e) = .ok (some words, e₁) :=
    congrArg Except.ok given
  have called : r.callable (.builtin .includeFile) c.arguments o (performing c e) =
      (do (← r.includeCommand words).settle o : Run (Bool × Outcome)) e₁ := by
    change ((onWordsRun c.arguments r.includeCommand) (performing c e)).bind _ = _
    rw [onWordsRun, Run.okBind read]
    rfl
  rw [stepCalls free known live within]
  change (((r.callable (.builtin .includeFile) c.arguments o (performing c e)).bind _).bind _).bind
    _ = _
  rw [called]
  rfl

end Runner
end CMakeScript
