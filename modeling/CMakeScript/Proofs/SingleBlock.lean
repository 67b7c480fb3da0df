import CMakeScript.Execution.Start
import CMakeScript.Proofs.CommandNames
import CMakeScript.Proofs.OpenState
/-! At most one block is recorded at a time, and no barrier stands above one. A command is run only
while no block is open, so the next block is opened after the one before was taken away. -/
namespace CMakeScript

namespace BlockStack

structure Tidy (s : BlockStack Block) : Prop where
  single : s.blocks.length ≤ 1
  barriers : ∀ height ∈ s.barriers, height = 0
  closers : ∀ b ∈ s.blocks, Command.notCallable.contains b.closes = true

variable {s : BlockStack Block}

theorem tidyEmpty (barriers : ∀ height ∈ s.barriers, height = 0) (empty : s.blocks = []) :
    s.Tidy where
  single := by simp [empty]
  barriers := barriers
  closers := by simp [empty]

theorem offerCases (s : BlockStack Block) (c : Command) :
    (s.blocks = [] ∧ s.offer c = (s, .notBlocked)) ∨
    (∃ top below, s.blocks = top :: below ∧ c.lowerName = top.closes ∧
      s.offer c = ({ s with blocks := below }, .closed { top with depth := 0 })) ∨
    (∃ top below depth, s.blocks = top :: below ∧
      s.offer c =
        ({ s with blocks := { top with depth, recorded := c :: top.recorded } :: below },
          .recorded)) := by
  unfold offer
  cases found : s.blocks with
  | nil => exact .inl ⟨rfl, rfl⟩
  | cons top below =>
    dsimp only
    split
    case isTrue closes => exact .inr (.inl ⟨top, below, rfl, closes.2.1, rfl⟩)
    case isFalse => exact .inr (.inr ⟨top, below, _, rfl, rfl⟩)

namespace Tidy

theorem below {top : OpenBlock Block} {below : List (OpenBlock Block)} (tidy : s.Tidy)
    (found : s.blocks = top :: below) : below = [] := by
  have single := tidy.single
  rw [found, List.length_cons] at single
  exact List.length_eq_zero_iff.mp (by omega)

theorem closed {top : OpenBlock Block} {below : List (OpenBlock Block)} (tidy : s.Tidy)
    (found : s.blocks = top :: below) : ({ s with blocks := below } : BlockStack Block).Tidy :=
  tidyEmpty tidy.barriers (tidy.below found)

theorem recorded {top : OpenBlock Block} {below : List (OpenBlock Block)} (tidy : s.Tidy)
    (found : s.blocks = top :: below) (depth : Nat) (c : Command) :
    ({ s with blocks := { top with depth, recorded := c :: top.recorded } :: below } :
      BlockStack Block).Tidy := by
  obtain ⟨single, barriers, closers⟩ := tidy
  rw [found] at single closers
  exact ⟨single, barriers, by simpa using closers⟩

theorem push (tidy : s.Tidy) (empty : s.blocks = []) {block : Block} {opens closes : String}
    (closer : Command.notCallable.contains closes = true) (opened : Frame) :
    (s.push block opens closes opened).Tidy where
  single := by simp [BlockStack.push, empty]
  barriers := tidy.barriers
  closers := by simpa [BlockStack.push, empty] using closer

theorem pushBarrier (tidy : s.Tidy) (empty : s.blocks = []) : s.pushBarrier.Tidy where
  single := tidy.single
  barriers := by simpa [BlockStack.pushBarrier, empty] using tidy.barriers
  closers := tidy.closers

theorem popBarrier (tidy : s.Tidy) : s.popBarrier = (⟨[], s.barriers.tail⟩, s.blocks) := by
  have bottom : s.barriers.headD 0 = 0 := by
    cases found : s.barriers with
    | nil => rfl
    | cons height rest => exact tidy.barriers height (by simp [found])
  simp only [BlockStack.popBarrier, bottom, Nat.sub_zero, List.drop_length, List.take_length]

end Tidy
end BlockStack

namespace Registry

def GuardsOpeners (r : Registry) : Prop :=
  ∀ lower b, r.findLower? lower = some (.builtin b) → b.opens = true →
    Command.notCallable.contains lower = true

theorem notCallableReserved (r : Registry) {lower : String}
    (listed : Command.notCallable.contains lower = true) : r.isReserved lower = true := by
  have listed : lower ∈ Command.notCallable := by simpa using listed
  have reserved : ∀ name ∈ Command.notCallable, (Builtin.reserved r.mode).contains name = true := by
    cases r.mode <;> decide
  exact reserved lower listed

theorem guardsOpenersStart (mode : Mode) : ({ mode } : Registry).GuardsOpeners := by
  have listed : ∀ entry ∈ Builtin.table mode, entry.2.opens = true →
      Command.notCallable.contains entry.1 = true := by
    cases mode <;> decide
  intro lower b found opens
  exact listed _ (findStart found) opens

theorem findDefined {r r' : Registry} {d : Definition} {lower : String} {c : Callable}
    (defined : r.define? d = some r') (found : r'.findLower? lower = some c) :
    c = .defined d ∨ r.findLower? lower = some c ∨
      ∃ before, r.isReserved before = false ∧ r.findLower? before = some c := by
  rw [defineFinds defined] at found
  split at found
  · exact .inl (Option.some.inj found).symm
  split at found
  · cases known : r.find? d.name with
    | none =>
      rw [known, Option.none_or] at found
      exact .inr (.inl found)
    | some before =>
      rw [known, Option.some_or] at found
      cases found
      exact .inr (.inr ⟨_, defineFree defined, known⟩)
  · exact .inr (.inl found)

theorem GuardsOpeners.define {r r' : Registry} (guards : r.GuardsOpeners) {d : Definition}
    (defined : r.define? d = some r') : r'.GuardsOpeners := by
  intro lower b found opens
  obtain known | ⟨before, free, known⟩ := (findDefined defined found).resolve_left nofun
  · exact guards _ _ known opens
  · rw [r.notCallableReserved (guards _ _ known opens)] at free
    cases free

end Registry

structure LogEntry.Tidy (entry : LogEntry) : Prop where
  blocks : entry.blocks.Tidy
  outside : entry.event.OutsideBlocks → entry.blocks.blocks = []

namespace Engine

def Free (e : Engine) : Prop := e.blocks.blocks = []

theorem Free.sameOpen {e e' : Engine} (free : e.Free) (same : e.SameOpen e') : e'.Free := by
  rw [Free, same.blocks, free]

theorem Free.openFunction {e : Engine} (free : e.Free) (file : String) (policies : PolicySettings) :
    (e.openFunction file policies).2.Free := by
  have opened := SameOpen.openScope e fun s origin => s.createFunctionCall origin file
  have inside := free.sameOpen (opened.trans (.counts (.openLoopBarrier _)))
  have pushed : SameOpen _ (e.openFunction file policies).2 := .edits (.pushPolicy _ true policies)
  exact Free.sameOpen (e := Engine.openBarrier _) inside pushed

theorem Free.openMacro {e : Engine} (free : e.Free) (file : String) (policies : PolicySettings) :
    (e.openMacro file policies).2.Free := by
  have inside := free.sameOpen (.openScope e fun s origin => s.createMacroCall origin file)
  have pushed : SameOpen _ (e.openMacro file policies).2 := .edits (.pushPolicy _ true policies)
  exact Free.sameOpen (e := Engine.openBarrier _) inside pushed

theorem SameOpen.enterFunction (d : Definition) (values : List String) (e : Engine) :
    (e.openFunction d.file d.policies).2.SameOpen (Runner.enterFunction d values e).2 := by
  have defined := SameOpen.edits (.defineAll (Runner.functionVariables d values)
    (e.openFunction d.file d.policies).2)
  exact defined.trans (.logged _ fun outside => outside)

theorem SameOpen.enterMacro (d : Definition) (e : Engine) :
    (e.openMacro d.file d.policies).2.SameOpen (Runner.enterMacro d e).2 :=
  .logged _ fun outside => outside

structure Tidy (e : Engine) : Prop where
  blocks : e.blocks.Tidy
  log : ∀ entry ∈ e.log, entry.Tidy
  latest : ∀ entry, e.log.head? = some entry → entry.blocks = e.blocks
  openers : e.registry.GuardsOpeners
  deferred : ∀ {i call}, call ∈ (e.deferredAt i).getD [] → call.command.IsCallable

namespace Tidy

variable {e e' : Engine}

theorem sameOpen (tidy : e.Tidy) (same : e.SameOpen e') : e'.Tidy := by
  obtain ⟨events, quiet, log⟩ := same.log
  constructor
  case blocks => exact same.blocks ▸ tidy.blocks
  case log =>
    intro entry member
    rw [log] at member
    obtain new | old := List.mem_append.mp member
    · obtain ⟨event, inside, rfl⟩ := List.mem_map.mp new
      exact ⟨tidy.blocks, fun outside => absurd outside (quiet event inside)⟩
    · exact tidy.log entry old
  case latest =>
    intro entry first
    rw [log] at first
    rw [same.blocks]
    cases events with
    | nil => exact tidy.latest entry first
    | cons event rest =>
      cases first
      rfl
  case openers => exact same.registry ▸ tidy.openers
  case deferred =>
    intro i call member
    obtain callable | ⟨before, inside, known⟩ := same.deferred member
    · exact callable
    · rw [← known]
      exact tidy.deferred inside

theorem move (tidy : e.Tidy) {blocks : BlockStack Block} {event : Event} (kept : blocks.Tidy)
    (outside : event.OutsideBlocks → blocks.blocks = []) :
    ({ e with blocks }.logged event).Tidy where
  blocks := kept
  log entry member := by
    obtain rfl | old := List.mem_cons.mp member
    · exact ⟨kept, outside⟩
    · exact tidy.log entry old
  latest entry first := by
    cases first
    rfl
  openers := tidy.openers
  deferred := tidy.deferred

theorem openBlock (tidy : e.Tidy) (free : e.Free) {block : Block} {opens closes : String}
    (closer : Command.notCallable.contains closes = true) :
    (e.openBlock block opens closes).Tidy :=
  tidy.move (tidy.blocks.push free closer e.place) fun outside => outside.elim

theorem openBarrier (tidy : e.Tidy) (free : e.Free) : e.openBarrier.Tidy :=
  tidy.move (tidy.blocks.pushBarrier free) fun outside => outside.elim

theorem closeBarrier (tidy : e.Tidy) (report : Bool) :
    (e.closeBarrier report).Tidy ∧ (e.closeBarrier report).Free := by
  unfold Engine.closeBarrier
  rw [tidy.blocks.popBarrier]
  have emptied : (⟨[], e.blocks.barriers.tail⟩ : BlockStack Block).Tidy :=
    BlockStack.tidyEmpty (fun height member =>
      tidy.blocks.barriers height (List.mem_of_mem_tail member)) rfl
  have free : (({ e with blocks := ⟨[], e.blocks.barriers.tail⟩ } : Engine).logged
    .barrierTaken).Free := rfl
  have same := SameOpen.abandonAll report
    (({ e with blocks := ⟨[], e.blocks.barriers.tail⟩ } : Engine).logged .barrierTaken)
    e.blocks.blocks
  exact ⟨(tidy.move emptied fun _ => rfl).sameOpen same, free.sameOpen same⟩

theorem closeMacro (tidy : e.Tidy) (handle : ScopeHandle) (report : Bool) :
    (e.closeMacro handle report).Tidy ∧ (e.closeMacro handle report).Free := by
  have popped := tidy.sameOpen (.edits (.popPolicy e))
  obtain ⟨taken, free⟩ := popped.closeBarrier report
  have same := SameOpen.closeScope (e.popPolicy.2.closeBarrier report) handle report
  exact ⟨taken.sameOpen same, free.sameOpen same⟩

theorem closeFunction (tidy : e.Tidy) (handle : ScopeHandle) (report : Bool) :
    (e.closeFunction handle report).Tidy ∧ (e.closeFunction handle report).Free := by
  obtain ⟨closed, free⟩ := tidy.closeMacro handle report
  have same : (e.closeMacro handle report).SameOpen (e.closeFunction handle report) :=
    .counts (.closeLoopBarrier _)
  exact ⟨closed.sameOpen same, free.sameOpen same⟩

theorem openFunction (tidy : e.Tidy) (free : e.Free) (file : String) (policies : PolicySettings) :
    (e.openFunction file policies).2.Tidy := by
  have opened := SameOpen.openScope e fun s origin => s.createFunctionCall origin file
  have looped := opened.trans (.counts (.openLoopBarrier _))
  have pushed : SameOpen _ (e.openFunction file policies).2 := .edits (.pushPolicy _ true policies)
  exact ((tidy.sameOpen looped).openBarrier (free.sameOpen looped)).sameOpen pushed

theorem openMacro (tidy : e.Tidy) (free : e.Free) (file : String) (policies : PolicySettings) :
    (e.openMacro file policies).2.Tidy := by
  have opened := SameOpen.openScope e fun s origin => s.createMacroCall origin file
  have pushed : SameOpen _ (e.openMacro file policies).2 := .edits (.pushPolicy _ true policies)
  exact ((tidy.sameOpen opened).openBarrier (free.sameOpen opened)).sameOpen pushed

theorem define (tidy : e.Tidy) {d : Definition} {registry : Registry}
    (defined : e.registry.define? d = some registry) : ({ e with registry } : Engine).Tidy :=
  { tidy with openers := tidy.openers.define defined }

theorem enterCommand (tidy : e.Tidy) (c : Command) : (Runner.enterCommand c e).Tidy :=
  ⟨tidy.blocks, tidy.log, tidy.latest, tidy.openers, tidy.deferred⟩

theorem leaveCommand (tidy : e.Tidy) : (Runner.leaveCommand e).Tidy :=
  ⟨tidy.blocks, tidy.log, tidy.latest, tidy.openers, tidy.deferred⟩

theorem pushFrame (tidy : e.Tidy) (frame : Frame) : (e.pushFrame frame).Tidy :=
  ⟨tidy.blocks, tidy.log, tidy.latest, tidy.openers, tidy.deferred⟩

theorem popFrame (tidy : e.Tidy) : e.popFrame.Tidy :=
  ⟨tidy.blocks, tidy.log, tidy.latest, tidy.openers, tidy.deferred⟩

theorem enterDirectory (tidy : e.Tidy) (id : Nat) : (Runner.enterDirectory id e).Tidy :=
  { blocks := tidy.blocks, log := tidy.log, latest := tidy.latest, openers := tidy.openers,
    deferred := fun {i call} member => by
      simp only [deferredAt, Runner.enterDirectory, Array.getElem?_push] at member
      split at member
      · simp at member
      · exact tidy.deferred member }

theorem leaveDirectory (tidy : e.Tidy) (outer : Engine) :
    (Runner.leaveDirectory outer e).Tidy :=
  ⟨tidy.blocks, tidy.log, tidy.latest, tidy.openers, tidy.deferred⟩

end Tidy
end Engine
end CMakeScript
