import CMakeScript.Proofs.Discipline
/-! An engine that is asked from outside starts without an open block. From then on at most one
block is open, and none while a command is run. -/
namespace CMakeScript

def blockOrder : Discipline Unit where
  holds _ _ := True
  stopped _ := True
  strict := True
  nests := True
  stop _ := trivial
  edit _ _ := trivial
  counts _ _ := trivial
  failStops _ := trivial
  stopNoted _ := trivial
  noted _ _ _ := trivial
  exitCode _ _ := trivial
  offered _ _ := trivial
  recorded _ _ _ _ := trivial
  closed _ _ _ _ := trivial
  scopeClosed _ _ _ _ _ := ⟨(), trivial, fun _ => trivial⟩
  command _ _ := ⟨(), trivial, fun _ => trivial⟩
  dispatched _ _ _ := trivial
  returned _ _ := trivial
  opening _ _ _ := trivial
  definition _ _ _ := trivial
  called _ _ _ _ _ _ _ := trivial
  frame _ _ := ⟨(), id, trivial, fun _ => trivial⟩
  scope _ _ _ := ⟨(), trivial, fun _ _ _ => trivial⟩
  scopeBarrier _ _ _ := ⟨(), id, trivial, fun _ _ _ _ => trivial⟩
  barrierScope _ _ _ := ⟨(), trivial, fun _ _ _ _ => trivial⟩
  queue _ _ _ _ := trivial
  deferred _ _ _ _ _ := ⟨trivial, trivial⟩
  reach _ _ := trivial
  created _ _ _ _ := trivial
  refusal _ _ _ := trivial
  directory _ _ _ _ _ := ⟨(), trivial, trivial, fun _ _ => trivial⟩

/-- Whatever is run, and wherever it has come to: the stack of blocks is what the log says, and it
never held more. The log has an entry for every change of the stack, for every command that is run
and for every return from one. -/
theorem oneBlockAtATime (options : Options) (platform : Platform)
    (environment : List (String × String)) (requests : List Request) (fuel : Nat) :
    let e := ((Runner.ofFuel fuel).serveAll requests).state
      (Engine.start options platform environment)
    (∀ entry, e.log.head? = some entry → entry.blocks = e.blocks) ∧
    (e.blocks.blocks.length ≤ 1 ∧ ∀ height ∈ e.blocks.barriers, height = 0) ∧
    ∀ entry ∈ e.log,
      (entry.blocks.blocks.length ≤ 1 ∧ ∀ height ∈ entry.blocks.barriers, height = 0) ∧
      (∀ c, entry.event = .dispatched c → entry.blocks.blocks = []) ∧
      (∀ target, entry.event = .returned target → target.opens = false →
        entry.blocks.blocks = []) ∧
      (entry.event = .barrierTaken → entry.blocks.blocks = []) := by
  intro e
  have start := Engine.tidyStart options platform environment
  have ready : blockOrder.Ready () (Engine.start options platform environment) := by
    refine ⟨⟨trivial, fun _ => start⟩, fun _ => ?_⟩
    obtain ⟨environment', cache, errorOccurred, same⟩ := Engine.startCases options platform environment
    rw [same]
    rfl
  have ends := Runner.serveAllEnds (blockOrder.runs fuel) requests ready
  have tidy : e.Tidy := ends.state (fun _ _ ready => ready.tidy trivial)
    fun _ stopped => stopped.tidy trivial
  refine ⟨tidy.latest, ⟨tidy.blocks.single, tidy.blocks.barriers⟩, fun entry member => ?_⟩
  obtain ⟨blocks, outside⟩ := tidy.log entry member
  refine ⟨⟨blocks.single, blocks.barriers⟩, fun c event => ?_, fun target event plain => ?_,
    fun event => ?_⟩
  · exact outside (event ▸ trivial)
  · exact outside (event ▸ plain)
  · exact outside (event ▸ trivial)

end CMakeScript
