import CMakeScript.Proofs.Discipline
/-! Runs that have to stop. From the first command on that ends in such a run no command is run
and no condition is evaluated any more, and what commands change for good stays as it was by then. -/
namespace CMakeScript

def Stood : List LogEntry → Prop
  | [] => True
  | entry :: earlier =>
    (entry.event.acts = true → ∀ before ∈ earlier, before.event ≠ .stopped) ∧ Stood earlier

namespace Stood

theorem append {entries log : List LogEntry} (stood : Stood log)
    (idle : ∀ entry ∈ entries, entry.event.acts = false) : Stood (entries ++ log) := by
  induction entries with
  | nil => exact stood
  | cons entry entries ih =>
    refine ⟨fun acts => ?_, ih fun entry member => idle entry (List.mem_cons_of_mem _ member)⟩
    rw [idle entry (List.mem_cons_self ..)] at acts
    cases acts

theorem unmarked {log : List LogEntry} (none : ∀ entry ∈ log, entry.event ≠ .stopped) :
    Stood log := by
  induction log with
  | nil => trivial
  | cons entry log ih =>
    have earlier : ∀ entry ∈ log, entry.event ≠ .stopped :=
      fun entry member => none entry (List.mem_cons_of_mem _ member)
    exact ⟨fun _ => earlier, ih earlier⟩

theorem since {later earlier : List LogEntry} {stop : LogEntry}
    (stood : Stood (later ++ stop :: earlier)) (stops : stop.event = .stopped) :
    ∀ entry ∈ later, entry.event.acts = false := by
  induction later with
  | nil =>
    intro entry member
    cases member
  | cons first later ih =>
    intro entry member
    obtain rfl | inside := List.mem_cons.mp member
    · refine eq_false_of_ne_true fun acts => ?_
      exact stood.1 acts stop (List.mem_append_right _ (List.mem_cons_self ..)) stops
    · exact ih stood.2 entry inside

end Stood
namespace Engine

structure Unmarked (e e' : Engine) : Prop where
  stops : e'.stops = e.stops
  log : ∃ entries : List LogEntry, (∀ entry ∈ entries, entry.event ≠ .stopped) ∧
    e'.log = entries ++ e.log

namespace Unmarked

variable {e e' e'' : Engine}

theorem other (stops : e'.stops = e.stops) (log : e'.log = e.log) : e.Unmarked e' :=
  ⟨stops, [], nofun, log⟩

theorem refl (e : Engine) : e.Unmarked e := other rfl rfl

theorem trans (first : e.Unmarked e') (second : e'.Unmarked e'') : e.Unmarked e'' where
  stops := second.stops.trans first.stops
  log := logJoined first.log second.log

theorem logged (e : Engine) {event : Event} (unmarked : event ≠ .stopped) :
    e.Unmarked (e.logged event) :=
  ⟨rfl, [⟨event, e.blocks⟩], by simpa using unmarked, rfl⟩

theorem issueAt (e : Engine) (kind : MessageKind) (text : String) (trace : Backtrace) :
    e.Unmarked (e.issueAt kind text trace) := by
  obtain ⟨nested, written, errorOccurred, issued, -⟩ := issueAtCases e kind text trace
  rw [issued]
  exact other rfl rfl

theorem internalError (e : Engine) (error : ScopeError) : e.Unmarked (e.internalError error) :=
  (issueAt ..).trans (other rfl rfl)

theorem changeQueue (e : Engine) (i : Nat) (change : QueueChange) :
    e.Unmarked (e.changeQueue i change) := by
  unfold Engine.changeQueue
  split
  · exact ⟨rfl, [⟨.queue i change, e.blocks⟩], by simp, rfl⟩
  · exact refl e

theorem edit (edit : Edit e e') : e.Unmarked e' := by
  cases edit with
  | issue _ text trace => exact issueAt ..
  | @display kind _ text =>
    unfold Engine.display
    split <;> exact other rfl rfl
  | lost _ error => exact internalError ..
  | tested => exact logged e nofun
  | queue => exact changeQueue ..
  | _ => exact other rfl rfl

theorem edits (edits : Edits e e') : e.Unmarked e' := by
  induction edits with
  | refl => exact refl e
  | tail _ last ih => exact ih.trans (edit last)

end Unmarked

structure Passes (e e' : Engine) : Prop extends e.Unmarked e' where
  still : e.fatal = true → e.Still e'

namespace Passes

variable {e e' e'' : Engine}

theorem live (live : e.fatal = false) (unmarked : e.Unmarked e') : e.Passes e' :=
  ⟨unmarked, fun stops => by rw [live] at stops; cases stops⟩

theorem other (lasting : e'.lasting = e.lasting) (stops : e'.stops = e.stops)
    (fatal : e.fatal = true → e'.fatal = true) (log : e'.log = e.log) : e.Passes e' :=
  ⟨.other stops log, fun _ => .other lasting stops fatal log⟩

theorem trans (first : e.Passes e') (second : e'.Passes e'') : e.Passes e'' :=
  ⟨first.toUnmarked.trans second.toUnmarked, fun stops =>
    (first.still stops).trans (second.still ((first.still stops).fatal stops))⟩

theorem logged (e : Engine) {event : Event} (idle : event.acts = false)
    (unmarked : event ≠ .stopped) : e.Passes (e.logged event) :=
  ⟨.logged e unmarked, fun _ => .logged e idle⟩

theorem blocks (e : Engine) (blocks : BlockStack Block) {event : Event}
    (idle : event.acts = false) (unmarked : event ≠ .stopped) :
    e.Passes ({ e with blocks }.logged event) := by
  have moved : e.Passes { e with blocks } := other rfl rfl id rfl
  exact moved.trans (logged _ idle unmarked)

theorem changeQueue (e : Engine) (i : Nat) (change : QueueChange) :
    e.Passes (e.changeQueue i change) := by
  refine ⟨.changeQueue e i change, fun _ => ?_⟩
  unfold Engine.changeQueue
  split
  · exact ⟨rfl, rfl, id, [⟨.queue i change, e.blocks⟩], by simp [Event.acts], rfl⟩
  · exact .refl e

theorem moves (moves : Moves e e') : e.Passes e' := ⟨.edits moves.edits, moves.still⟩

theorem turns (turns : Turns e e') : e.Passes e' := by
  refine turns.carry (fun e => other rfl rfl id rfl) trans fun {e e'} turn => ?_
  have idle {event : Event} (scoping : event.isScoping = true) :
      event.acts = false ∧ event ≠ .stopped := by
    constructor
    · cases event <;> first | rfl | cases scoping
    · rintro rfl
      cases scoping
  cases turn with
  | upkeep edits still => exact ⟨.edits edits, fun _ => still⟩
  | counts counts =>
    cases counts
    exact other rfl rfl (fun stops => stops) rfl
  | @scope scopes kept id _ scoping =>
    have moved : e.Passes (({ e with scopes } : Engine).setSnapshot id) := by
      refine other ?_ rfl (fun stops => stops) rfl
      exact (Still.scopes e kept).lasting
    exact moved.trans (logged _ (idle scoping).1 (idle scoping).2)
  | blocks open' scoping => exact blocks e open' (idle scoping).1 (idle scoping).2
  | refused error => exact ⟨.internalError e error, fun _ => .internalError e error⟩

end Passes

/-- Nothing has changed for good since the first command that ended in a run that has to stop. -/
structure Inert (e : Engine) : Prop where
  live : e.fatal = false → e.stops = [] ∧ ∀ entry ∈ e.log, entry.event ≠ .stopped
  kept : ∀ lasting ∈ e.stops, lasting = e.lasting
  stood : Stood e.log

namespace Inert

variable {e e' : Engine}

theorem passes (inert : e.Inert) (passes : e.Passes e') : e'.Inert := by
  obtain ⟨⟨stops, entries, unmarked, log⟩, still⟩ := passes
  cases fatal : e.fatal with
  | false =>
    obtain ⟨none, fresh⟩ := inert.live fatal
    have fresh : ∀ entry ∈ e'.log, entry.event ≠ .stopped := by
      rw [log]
      intro entry member
      obtain inside | before := List.mem_append.mp member
      · exact unmarked entry inside
      · exact fresh entry before
    rw [none] at stops
    exact ⟨fun _ => ⟨stops, fresh⟩, by rw [stops]; nofun, .unmarked fresh⟩
  | true =>
    obtain ⟨lasting, -, fatal', entries', idle, log'⟩ := still fatal
    constructor
    case live =>
      rw [fatal' fatal]
      nofun
    case kept =>
      rw [stops, lasting]
      exact inert.kept
    case stood =>
      rw [log']
      exact inert.stood.append idle

theorem noteStop (inert : e.Inert) : e.noteStop.Inert := by
  unfold Engine.noteStop
  split
  case isTrue fatal =>
    constructor
    case live =>
      intro live
      change e.fatal = false at live
      rw [fatal] at live
      cases live
    case kept =>
      intro lasting member
      obtain here | before := List.mem_cons.mp member
      · exact here
      · exact inert.kept lasting before
    case stood => exact ⟨nofun, inert.stood⟩
  case isFalse => exact inert

end Inert

structure Follows (e e' : Engine) : Prop where
  log : e.log <:+ e'.log
  stops : e.stops <:+ e'.stops
  inert : e.Inert → e'.Inert

namespace Follows

variable {e e' e'' : Engine}

theorem passes (follows : e.Follows e') (passes : e'.Passes e'') : e.Follows e'' where
  log := by
    obtain ⟨entries, -, log⟩ := passes.log
    exact follows.log.trans ⟨entries, log.symm⟩
  stops := passes.stops ▸ follows.stops
  inert inert := (follows.inert inert).passes passes

theorem noteStop (follows : e.Follows e') : e.Follows e'.noteStop := by
  refine ⟨?_, ?_, fun inert => (follows.inert inert).noteStop⟩
  · unfold Engine.noteStop
    split
    · exact follows.log.trans (List.suffix_cons ..)
    · exact follows.log
  · unfold Engine.noteStop
    split
    · exact follows.stops.trans (List.suffix_cons ..)
    · exact follows.stops

end Follows
end Engine
open Engine

def standstill (base : Engine) : Discipline Unit where
  holds _ := base.Follows
  stopped := base.Follows
  strict := False
  nests := True
  stop follows := follows
  edit follows moves := follows.passes (.moves moves)
  counts follows counts := follows.passes (.turns (.counts counts))
  failStops follows := follows.passes ⟨.other rfl rfl, fun _ => .setFatal _⟩
  stopNoted follows := follows.noteStop
  noted event note follows := by
    refine follows.passes (.logged _ ?_ ?_)
    · cases event <;> first | rfl | cases note
    · rintro rfl
      cases note
  exitCode _ follows := follows.passes (.other rfl rfl id rfl)
  offered c follows := follows.passes (.logged _ rfl nofun)
  recorded depth c follows _ := follows.passes (.blocks _ _ rfl nofun)
  closed c follows _ _ := follows.passes (.blocks _ _ rfl nofun)
  scopeClosed c follows _ _ _ := by
    refine ⟨(), follows.passes (.blocks _ _ rfl nofun), fun {e'} ended => ?_⟩
    exact ended.passes (.turns ((Turns.logged e' rfl).trans (.closeBlockScopes ..)))
  command c follows := ⟨(), follows.passes (.other rfl rfl id rfl), fun ended =>
    ended.passes (.other rfl rfl id rfl)⟩
  dispatched c follows live := follows.passes (.live live (.logged _ nofun))
  returned target follows := follows.passes (.logged _ rfl nofun)
  opening follows _ opening := follows.passes (.turns (.opening opening))
  definition {_ e d registry} follows _ _ := by
    have defined : e.Passes { e with registry } := .other rfl rfl id rfl
    exact follows.passes (defined.trans (.logged _ rfl nofun))
  called _ _ _ _ _ _ follows := follows.passes (.logged _ rfl nofun)
  frame frame follows := ⟨(), id, follows.passes (.other rfl rfl id rfl),
    fun ended => ended.passes (.other rfl rfl id rfl)⟩
  scope o follows _ := ⟨(), follows.passes (.turns (.openScope _ o)), fun report ended _ =>
    ended.passes (.turns (.closeScope ..))⟩
  scopeBarrier o follows _ := by
    have opened := follows.passes (.turns ((Turns.openScope _ o).trans (.openBarrier _)))
    exact ⟨(), id, opened, fun report reportScope ended _ =>
      ended.passes (.turns (.closeBarrierScope ..))⟩
  barrierScope o follows _ := by
    have opened := follows.passes (.turns ((Turns.openBarrier _).trans (.openScope _ o)))
    exact ⟨(), opened, fun report reportScope ended _ =>
      ended.passes (.turns (.closeBarrierScope ..))⟩
  queue change _ _ follows := follows.passes (.changeQueue ..)
  deferred {_ e top below} o depth c follows _ := by
    have begun : base.Follows ((e.openScope o.create).2.logged .deferredBegun) :=
      (follows.passes (.turns (.openScope e o))).passes (.logged _ rfl nofun)
    refine ⟨begun, ?_⟩
    have taken : base.Follows (Engine.logged _ (.offered c)) :=
      begun.passes (.blocks _ { e.blocks with
        blocks := { top with depth, recorded := c :: top.recorded } :: below } rfl nofun)
    have ended : base.Follows (Engine.logged _ .deferredEnded) := taken.passes (.logged _ rfl nofun)
    exact ended.passes (.turns (.closeScope ..))
  reach _ _ := trivial
  created _ live follows created := by
    cases created
    exact follows.passes (.live live (.other rfl rfl))
  refusal error _ follows := follows.passes (.turns (.one (.refused error)))
  directory _ live follows _ created := by
    cases created
    exact ⟨(), trivial, follows.passes (.live live (.other rfl rfl)),
      fun ended _ => ended.passes (.other rfl rfl (fun stops => stops) rfl)⟩

theorem Engine.markedStop {e : Engine} (stops : e.noteStop.fatal = true) :
    (∃ blocks, e.noteStop.log.head? = some ⟨.stopped, blocks⟩) ∧
      e.noteStop.stops.head? = some e.noteStop.lasting := by
  unfold Engine.noteStop at stops ⊢
  split
  case isTrue => exact ⟨⟨e.blocks, rfl⟩, rfl⟩
  case isFalse live =>
    rw [if_neg live] at stops
    exact absurd stops live

namespace Runner

variable {result : Bool × Outcome} {e e' : Engine}

theorem markedMarks {run : Run (Bool × Outcome)} (ended : marked run e = .ok (result, e'))
    (stops : e'.fatal = true) : (∃ blocks, e'.log.head? = some ⟨.stopped, blocks⟩) ∧
      e'.stops.head? = some e'.lasting := by
  obtain ⟨_, _, -, ended⟩ := Run.okOfBind ended
  cases ended
  exact markedStop stops

end Runner

theorem executeMarks {fuel : Nat} {c : Command} {o : Outcome} {result : Bool × Outcome}
    {e e' : Engine} (ended : execute fuel c o e = .ok (result, e')) (live : e.fatal = false)
    (stops : e'.fatal = true) : (∃ blocks, e'.log.head? = some ⟨.stopped, blocks⟩) ∧
      e'.stops.head? = some e'.lasting := by
  cases fuel with
  | zero => cases ended
  | succ fuel =>
    obtain ⟨e₁, _, here, ended⟩ := Run.okOfBind ended
    cases here
    rcases offered : e.blocks.offer c with ⟨blocks, capture⟩
    rw [offered] at ended
    obtain ⟨_, _, here, ended⟩ := Run.okOfBind ended
    cases here
    cases capture with
    | notBlocked => exact Runner.markedMarks ended stops
    | recorded =>
      cases ended
      change e.fatal = true at stops
      rw [live] at stops
      cases stops
    | closed b =>
      obtain ⟨_, _, -, ended⟩ := Run.okOfBind ended
      exact Runner.markedMarks ended stops

/-- Once a command has ended in a run that has to stop, no command is run and no condition is
evaluated any more, and what commands change for good is to the end what it was then. -/
theorem stopIsFinal (options : Options) (platform : Platform) (environment : List (String × String))
    (requests : List Request) (fuel : Nat) :
    let e := ((Runner.ofFuel fuel).serveAll requests).state
      (Engine.start options platform environment)
    (∀ (n : Nat) (c : Command) (o : Outcome) (e₁ e₂ : Engine) (result : Bool × Outcome),
      execute n c o e₁ = .ok (result, e₂) → e₁.log <:+ e₂.log ∧ e₁.stops <:+ e₂.stops ∧
        (e₁.fatal = false → e₂.fatal = true →
          (∃ blocks, e₂.log.head? = some ⟨.stopped, blocks⟩) ∧
            e₂.stops.head? = some e₂.lasting)) ∧
    (∀ later blocks earlier, e.log = later ++ ⟨.stopped, blocks⟩ :: earlier →
      ∀ entry ∈ later, entry.event ≠ .tested ∧ ∀ c, entry.event ≠ .dispatched c) ∧
    ∀ lasting ∈ e.stops, lasting = e.lasting := by
  intro e
  have inert : e.Inert := by
    have fresh : (Engine.start options platform environment).Inert := by
      obtain ⟨environment', cache, errorOccurred, same⟩ :=
        Engine.startCases options platform environment
      rw [same]
      exact ⟨fun _ => ⟨rfl, nofun⟩, nofun, trivial⟩
    have base : (standstill (Engine.start options platform environment)).Ready ()
        (Engine.start options platform environment) :=
      ⟨⟨⟨List.suffix_refl _, List.suffix_refl _, id⟩, nofun⟩, nofun⟩
    have ends := Runner.serveAllEnds ((standstill _).runs fuel) requests base
    have follows : (Engine.start options platform environment).Follows e :=
      ends.state (fun _ _ ready => ready.holds) fun _ stopped => stopped.stopped
    exact follows.inert fresh
  refine ⟨fun n c o e₁ e₂ result ended => ?_, fun later blocks earlier log entry member => ?_,
    inert.kept⟩
  · have base : (standstill e₁).Holds () e₁ :=
      ⟨⟨List.suffix_refl _, List.suffix_refl _, id⟩, nofun⟩
    have follows : e₁.Follows e₂ := ((((standstill e₁).runs n).holds c o base).ok ended).holds
    exact ⟨follows.log, follows.stops, executeMarks ended⟩
  · have idle : entry.event.acts = false := (log ▸ inert.stood).since rfl entry member
    constructor
    · intro tested
      rw [tested] at idle
      cases idle
    · intro c dispatched
      rw [dispatched] at idle
      cases idle

theorem stopInMacro :
    let source := "cmake_language(DEFER CALL message late)\nmacro(m)\nif(TRUE)\n" ++
      "message(FATAL_ERROR stop)\nendif()\nmessage(on)\nendmacro()\nm()\n"
    let start := Engine.start { mode := .script } {} []
    let e := ((Runner.ofFuel 9).serveAll [.source "a.cmake" source]).state start
    (∃ result e₁, execute 9 ⟨"message", 1, 1, [⟨"FATAL_ERROR", .bracket, 1⟩]⟩ {} start =
        .ok (result, e₁) ∧ start.log <:+ e₁.log ∧
      (∃ blocks, e₁.log.head? = some ⟨.stopped, blocks⟩) ∧
      e₁.stops.head? = some e₁.lasting) ∧
    (∃ later blocks earlier, e.log = later ++ ⟨.stopped, blocks⟩ :: earlier ∧
      (∃ entry ∈ later, entry.event = .deferredBegun) ∧
      ∀ entry ∈ later, entry.event ≠ .tested ∧ ∀ c, entry.event ≠ .dispatched c) ∧
    ∃ lasting ∈ e.stops, lasting = e.lasting := by
  intro source start
  have facts := stopIsFinal { mode := .script } {} [] [.source "a.cmake" source] 9
  have stops : (execute 9 ⟨"message", 1, 1, [⟨"FATAL_ERROR", .bracket, 1⟩]⟩ {} start).toOption.map
      (·.2.fatal) = some true := by decide +kernel
  have checked :
      let e := ((Runner.ofFuel 9).serveAll [.source "a.cmake" source]).state start
      let before := e.log.reverse.takeWhile (·.event != .stopped)
      let later := (e.log.reverse.drop (before.length + 1)).reverse
      (e.log = later ++ ⟨.stopped, ⟨[], [0, 0]⟩⟩ :: before.reverse ∧
        ∃ entry ∈ later, entry.event = .deferredBegun) ∧ e.stops.isEmpty = false := by
    decide +kernel
  generalize ((Runner.ofFuel 9).serveAll [.source "a.cmake" source]).state start = e
    at facts checked ⊢
  obtain ⟨marks, idle, kept⟩ := facts
  obtain ⟨⟨log, late⟩, some⟩ := checked
  refine ⟨?_, ⟨_, _, _, log, late, idle _ _ _ log⟩, ?_⟩
  · cases run : execute 9 ⟨"message", 1, 1, [⟨"FATAL_ERROR", .bracket, 1⟩]⟩ {} start with
    | error =>
      rw [run] at stops
      cases stops
    | ok ended =>
      obtain ⟨result, e₁⟩ := ended
      rw [run] at stops
      obtain ⟨log, -, marked⟩ := marks _ _ _ _ _ _ run
      have live : start.fatal = false := rfl
      obtain ⟨stop, lasting⟩ := marked live (Option.some.inj stops)
      exact ⟨result, e₁, rfl, log, stop, lasting⟩
  · obtain ⟨lasting, member⟩ := List.isEmpty_eq_false_iff_exists_mem.mp some
    exact ⟨lasting, member, kept lasting member⟩

end CMakeScript
