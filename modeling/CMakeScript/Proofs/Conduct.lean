import CMakeScript.Proofs.Steady
/-! What an invariant of runs has to withstand: the steps between which a run goes on, and what is
made of a return or an exit that is under way. Each step that is undone later on gives the invariant
that holds in between. -/
namespace CMakeScript

namespace Outcome

def asking (o : Outcome) : Option Transfer → Outcome
  | none => o
  | some t => o.request t

@[simp] theorem transferAsking (t? : Option Transfer) :
    (({} : Outcome).asking t?).transfer? = t? := by
  rcases t? with - | (- | - | - | -) <;> rfl

@[simp] theorem nestedAsking (o : Outcome) (t? : Option Transfer) :
    (o.asking t?).nestedError = o.nestedError := by
  rcases t? with - | (- | - | - | -) <;> rfl

end Outcome

inductive Status where
  | going
  | leaving (t : Transfer) (failed : Bool)
  | finished
  deriving DecidableEq, Repr

namespace Status

def of (failed : Bool) : Option Transfer → Status
  | some (.returning names) => leaving (.returning names) failed
  | some (.exiting code) => leaving (.exiting code) failed
  | _ => going

def fails (result : Bool × Outcome) : Bool := !result.1 || result.2.nestedError

def after (result : Bool × Outcome) : Status := of (fails result) result.2.transfer?

def within (o : Outcome) : Status :=
  match o.transfer? with
  | none => finished
  | t => of false t

def plain : Status → Prop
  | leaving _ _ => False
  | _ => True

def mayFail : Status → Prop
  | going => True
  | leaving _ failed => failed = true
  | finished => False

def names : Status → List String
  | leaving t _ => t.names
  | _ => []

def inCaller : Status → Status
  | leaving (.exiting code) _ => leaving (.exiting code) false
  | _ => going

def leaveFunction (handle : ScopeHandle) (report : Bool) (e : Engine) : Status → Engine
  | leaving (.returning names) _ =>
    let e := (e.raiseAll names).closeFunction handle report
    e.logged (.functionLeft (some (e.valuesOf names)))
  | _ => (e.closeFunction handle report).logged (.functionLeft none)

theorem leaveFunctionCases (s : Status) (handle : ScopeHandle) (report : Bool) (e : Engine) :
    ∃ seen, s.leaveFunction handle report e =
      ((e.raiseAll s.names).closeFunction handle report).logged (.functionLeft seen) := by
  rcases s with _ | ⟨_ | _ | _ | _, _⟩ | _ <;> exact ⟨_, rfl⟩

def endFile (e : Engine) (s : Status) : Engine :=
  if e.fatal then e
  else match s with
    | leaving (.exiting code) _ => { e with exitCode := some code }
    | s => e.raiseAll s.names

@[simp] theorem afterAsking (t? : Option Transfer) :
    after (true, ({} : Outcome).asking t?) = of false t? := by
  rw [after, fails, Outcome.transferAsking, Outcome.nestedAsking]
  rfl

@[simp] theorem withinAsking (t : Transfer) :
    within (({} : Outcome).asking (some t)) = of false (some t) := by
  rw [within, Outcome.transferAsking]

theorem ofCases (failed : Bool) (t? : Option Transfer) :
    of failed t? = going ∨ ∃ t, t? = some t ∧ of failed t? = leaving t failed := by
  rcases t? with - | (names | - | - | code)
  · exact .inl rfl
  · exact .inr ⟨_, rfl, rfl⟩
  · exact .inl rfl
  · exact .inl rfl
  · exact .inr ⟨_, rfl, rfl⟩

theorem leavingStays {t : Transfer} {failed : Bool} : leaving t failed ≠ finished := nofun

theorem ofNotFinished (failed : Bool) (t? : Option Transfer) : of failed t? ≠ finished := by
  obtain same | ⟨t, -, same⟩ := ofCases failed t? <;> rw [same] <;> nofun

end Status

def Outcome.Exits (o : Outcome) (code : Int) : Prop := o.returning = false ∧ o.exitCode = some code

def QueueChange.isHosted : QueueChange → Bool
  | opened | begun | taken _ | closed => true
  | _ => false

theorem Engine.SameOpen.hosted (e : Engine) (i : Nat) {change : QueueChange}
    (hosted : change.isHosted = true) : e.SameOpen (e.changeQueue i change) := by
  refine changeQueue e i ?_
  rintro call rfl
  cases hosted

def Registry.Knows (r : Registry) (d : Definition) : Prop :=
  ∃ lower, r.findLower? lower = some (.defined d)

theorem LogEntry.neverOver {entry : LogEntry} (never : False) :
    False ∨ ∃ code values, entry.event = .asked (.exiting code) values := .inl never

/-- An invariant over what was the case when a command came up. `G` tells of that. -/
structure Conduct (G : Type) where
  holds : Status → G → Engine → Prop
  /-- What is left of it when a run stops without an answer. -/
  stopped : Engine → Prop
  /-- The run started without an open block. -/
  strict : Prop
  nests : Prop
  follows : Prop
  tells : Prop := False
  hosts : G → Prop := fun _ => True
  /-- A run with this log comes to its end. -/
  isOver : List LogEntry → Prop := fun _ => False
  stop {s g e} : holds s g e → stopped e
  blind {s s' g e} : ¬follows → holds s g e → holds s' g e
  ended {g e} : holds .going g e → holds .finished g e
  resumed {g e} : holds .finished g e → e.exitCode = none → holds .going g e
  passed {t g e} : holds (.leaving t true) g e → holds (.leaving t false) g e
  edit {s g e e'} : s.plain → holds s g e → Moves e e' → holds s g e'
  tellsFollows : tells → follows := by exact False.elim
  marked {s g e} : tells → holds s g e → e.nested.headD false = true → e.ErrorShown := by
    exact False.elim
  overStops {g e} : holds .going g e → isOver e.log → e.fatal = true := by exact fun _ => False.elim
  overFree {s g e} : holds s g e → isOver e.log → e.Free := by exact fun _ => False.elim
  overAsked {entry log} : isOver (entry :: log) →
    isOver log ∨ ∃ code values, entry.event = .asked (.exiting code) values := by
      exact LogEntry.neverOver
  failStops {s g e} : (tells → e.ErrorShown) → holds s g e → holds s g e.setFatal
  stopNoted {s g e} : s ≠ .finished → holds s g e → holds s g e.noteStop
  offered {g e} (c : Command) : holds .going g e → holds .going g (e.logged (.offered c))
  recorded {g e top below} (depth : Nat) (c : Command) : holds .going g e →
    e.blocks.blocks = top :: below →
    holds .going g (({ e with blocks := { e.blocks with
      blocks := { top with depth, recorded := c :: top.recorded } :: below } } : Engine).logged
        (.offered c))
  closed {g e top below} (c : Command) : holds .going g e → e.blocks.blocks = top :: below →
    top.block.isScope = false → top.block.isLoop = false →
    holds .going g (({ e with blocks := { e.blocks with blocks := below } } : Engine).logged
      (.offered c))
  loop {g e top below} (c : Command) : holds .going g e → e.blocks.blocks = top :: below →
    (strict → below = []) → top.block.isLoop = true → ∃ inside,
      (∀ {e'}, Moves (({ e with blocks := { e.blocks with blocks := below } } : Engine).logged
          (.offered c)) e' → stopped e' ∧ holds .going inside (e'.logged .loopEntered)) ∧
      ∀ {s e'}, s ≠ .finished → holds s inside e' → holds s g e'.endLoop
  scopeClosed {g e top below policies bindings propagate} (c : Command) : holds .going g e →
    e.blocks.blocks = top :: below → (strict → below = []) →
    top.block = .scope policies bindings propagate →
    ∃ g', holds .going g' (({ e with blocks := { e.blocks with blocks := below } } : Engine).logged
        (.offered c)) ∧
      ∀ {s e'}, s ≠ .finished → holds s g' e' → (strict → e'.Tidy) →
        holds s g (((e'.raiseAll s.names).logged .bodyEnded).closeBlockScopes policies bindings
          propagate)
  command {g e} (c : Command) : holds .going g e → ∃ g', holds .going g' (Runner.enterCommand c e) ∧
    ∀ {s e'}, s ≠ .finished → holds s g' e' → holds s g (Runner.leaveCommand e')
  dispatched {g e} (c : Command) : holds .going g e → e.fatal = false →
    holds .going g (e.logged (.dispatched c))
  sought {g e} : holds .going g e → (strict → e.Free) →
    holds .going g (e.logged (.loopSought e.inLoop))
  asked {g e e'} (t : Transfer) : holds .going g e → e.fatal = false → (strict → e.Free) →
    Edits e e' → holds (.of false (some t)) g (e'.logged (.asked t (e'.valuesOf t.names)))
  returned {s g e} (target : Callable) : holds s g e → holds s g (e.logged (.returned target))
  concluded {g e} (c : Command) (succeeded : Bool) (o : Outcome) : holds (.within o) g e →
    (tells → o.nestedError = true → e.ErrorShown) →
    (∀ code, o.Exits code → holds (.leaving (.exiting code) false) g e) →
    let (result, e') := Runner.conclude c succeeded o e
    holds (.after result) g (e'.logged (.concluded result.2.transfer?)) ∧
      ∀ code, result.2.Exits code → holds (.leaving (.exiting code) (Status.fails result)) g
        (e'.logged (.concluded result.2.transfer?))
  opening {g e e'} : holds .going g e → (strict → e.Free) → ¬isOver e.log → Opening e e' →
    holds .going g e'
  definition {g e d registry} : holds .going g e → d.policies = e.recordPolicies →
    e.registry.define? d = some registry →
    holds .going g (({ e with registry } : Engine).logged (.defined d e.statuses))
  restored {s g e} (saved : List (String × Option String)) : s ≠ .finished → holds s g e →
    holds s g ((saved.foldl (fun e (name, value) => e.assign name value) e).logged
      (.loopLeft (saved.map Prod.fst)))
  givenUp {s g e} : s.mayFail → holds s g e → holds .going g (e.logged .callGivenUp)
  functionCall {g e d} (values : List String) : holds .going g e → e.fatal = false →
    (strict → e.Free) → e.registry.Knows d → d.kind = .function →
    ∃ g', holds .going g' (Runner.enterFunction d values e).2 ∧
      ∀ {s e'} (report : Bool), s ≠ .finished → holds s g' e' → (strict → e'.Tidy) →
        holds s.inCaller g (s.leaveFunction (Runner.enterFunction d values e).1 report e')
  macroCall {g e d} : holds .going g e → e.fatal = false → (strict → e.Free) →
    e.registry.Knows d → d.kind = .macroCall → ∃ g', holds .going g' (Runner.enterMacro d e).2 ∧
      ∀ {s e'} (report : Bool), s ≠ .finished → holds s g' e' → (strict → e'.Tidy) →
        holds s g (e'.closeMacro (Runner.enterMacro d e).1 report)
  frame {g e} (frame : Frame) : holds .going g e → ∃ g', (hosts g → hosts g') ∧
    holds .going g' (e.pushFrame frame) ∧
      ∀ {s e'}, s.plain → holds s g' e' → holds s g e'.popFrame
  scopeBarrier {g e} (o : ScopeOpening) : holds .going g e → (strict → e.Free) →
    ∃ g', (hosts g → hosts g') ∧ holds .going g' (e.openScope o.create).2.openBarrier ∧
      ∀ {e'} (report reportScope : Bool), holds .finished g' e' → (strict → e'.Tidy) →
        holds .finished g ((e'.closeBarrier report).closeScope (e.openScope o.create).1 reportScope)
  barrierScope {g e} (o : ScopeOpening) : holds .going g e → (strict → e.Free) →
    ∃ g', holds .going g' (e.openBarrier.openScope o.create).2 ∧
      ∀ {e'} (report reportScope : Bool), holds .finished g' e' → (strict → e'.Tidy) →
        holds .finished g ((e'.closeBarrier report).closeScope (e.openBarrier.openScope o.create).1
          reportScope)
  fileLeft {s g e} : s ≠ .finished → holds s g e →
    holds .finished g ((s.endFile e).logged (.fileLeft (s.endFile e).fatal))
  deferredCall {g e} (o : ScopeOpening) : holds .going g e → (strict → e.Free) →
    ∃ g', holds .going g' ((e.openScope o.create).2.logged .deferredBegun) ∧
      ∀ {s e'}, s ≠ .finished → holds s g' e' → (strict → e'.Free) →
        holds .going g ((e'.logged .deferredEnded).closeScope (e.openScope o.create).1 true)
  queue {s g e} (change : QueueChange) : hosts g → change.isHosted = true → s.plain →
    holds s g e → holds s g (e.changeQueue e.current change)
  deferredTaken {g e top below} (o : ScopeOpening) (depth : Nat) (c : Command) : holds .going g e →
    e.blocks.blocks = top :: below → stopped ((e.openScope o.create).2.logged .deferredBegun) ∧
      holds .going g ((((({ (e.openScope o.create).2.logged .deferredBegun with
        blocks := { e.blocks with
          blocks := { top with depth, recorded := c :: top.recorded } :: below } } : Engine).logged
          (.offered c))).logged .deferredEnded).closeScope (e.openScope o.create).1 true)
  reach {g e lower} : holds .going g e →
    e.registry.findLower? lower = some (.builtin .addSubdirectory) → nests
  created {g e e' id} : nests → e.fatal = false → holds .going g e → e.Subdirectory id e' →
    holds .going g e'
  refusal {g e} (error : ScopeError) : nests → holds .going g e →
    holds .going g (e.internalError error)
  directory {g e₀ e id} : nests → e₀.fatal = false → holds .going g e₀ → (strict → e₀.Free) →
    e₀.Subdirectory id e → ∃ g', hosts g' ∧ holds .going g' (Runner.enterDirectory id e) ∧
      ∀ {s e'}, s.plain → holds s g' e' → (strict → e'.Free) →
        holds s g (Runner.leaveDirectory e e')

namespace Conduct

variable {G : Type} (C : Conduct G) {s s' : Status} {g : G} {e e' : Engine}

structure Holds (s : Status) (g : G) (e : Engine) : Prop where
  holds : C.holds s g e
  tidy : C.strict → e.Tidy

structure Answer (g : G) (result : Bool × Outcome) (e : Engine) : Prop where
  holds : C.Holds (.after result) g e
  exits : ∀ code, result.2.Exits code → C.Holds (.leaving (.exiting code) (Status.fails result)) g e
  told : C.tells → Status.fails result = true → e.ErrorShown

structure Within (g : G) (o : Outcome) (e : Engine) : Prop where
  holds : C.Holds (.within o) g e
  exits : ∀ code, o.Exits code → C.Holds (.leaving (.exiting code) false) g e
  told : C.tells → o.nestedError = true → e.ErrorShown

structure Ready (s : Status) (g : G) (e : Engine) : Prop extends C.Holds s g e where
  free : C.strict → e.Free

structure Stopped (e : Engine) : Prop where
  stopped : C.stopped e
  tidy : C.strict → e.Tidy

def Early (e : Engine) : Prop := ¬C.isOver e.log

/-- A run that comes to its end has rounds to spare. -/
def Able (r : Runner) (e : Engine) : Prop := C.isOver e.log → 0 < r.rounds

structure Halted (h : Halt) (e : Engine) : Prop extends C.Stopped e where
  early : C.Early e
  interrupted : ∀ c, h = .interrupted c → ∃ g, C.Holds .going g e

variable {C}

theorem overSince {entries log : List LogEntry}
    (plain : ∀ entry ∈ entries, entry.event.isAside = true) (isOver : C.isOver (entries ++ log)) :
    C.isOver log := by
  induction entries with
  | nil => exact isOver
  | cons entry entries ih =>
    obtain earlier | ⟨code, values, asked⟩ := C.overAsked isOver
    · exact ih (fun entry member => plain entry (List.mem_cons_of_mem _ member)) earlier
    · have aside := plain entry (List.mem_cons_self ..)
      rw [asked] at aside
      cases aside

namespace Early

theorem steady (early : C.Early e) (steady : e.Steady e') : C.Early e' := fun isOver => by
  obtain ⟨entries, aside, log⟩ := steady.log
  exact early (overSince aside (log ▸ isOver))

theorem logged (early : C.Early e) {event : Event}
    (plain : ∀ code values, event ≠ .asked (.exiting code) values) : C.Early (e.logged event) :=
  fun isOver => (C.overAsked isOver).elim early fun ⟨code, values, asked⟩ => plain code values asked

theorem able (early : C.Early e) (r : Runner) : C.Able r e := fun isOver => absurd isOver early

end Early

namespace Able

variable {r : Runner}

theorem steady (able : C.Able r e) (steady : e.Steady e') : C.Able r e' := fun isOver => by
  obtain ⟨entries, aside, log⟩ := steady.log
  exact able (overSince aside (log ▸ isOver))

theorem logged (able : C.Able r e) {event : Event}
    (plain : ∀ code values, event ≠ .asked (.exiting code) values) : C.Able r (e.logged event) :=
  fun isOver => (C.overAsked isOver).elim able fun ⟨code, values, asked⟩ =>
    absurd asked (plain code values)

end Able

/-! What the invariant withstands, together with the order of the blocks -/

namespace Holds

theorem stop (holds : C.Holds s g e) : C.Stopped e := ⟨C.stop holds.holds, holds.tidy⟩

theorem early (holds : C.Holds .going g e) (live : e.fatal = false) : C.Early e := fun isOver =>
  Bool.false_ne_true (live.symm.trans (C.overStops holds.holds isOver))

theorem earlyIn (holds : C.Holds s g e) {top : OpenBlock Block} {below : List (OpenBlock Block)}
    (found : e.blocks.blocks = top :: below) : C.Early e := fun isOver => by
  cases found.symm.trans (C.overFree holds.holds isOver)

theorem same (holds : C.Holds s g e) (same : C.follows → s' = s) : C.Holds s' g e := by
  refine ⟨?_, holds.tidy⟩
  by_cases follows : C.follows
  · rw [same follows]
    exact holds.holds
  · exact C.blind follows holds.holds

theorem ended (holds : C.Holds .going g e) : C.Holds .finished g e :=
  ⟨C.ended holds.holds, holds.tidy⟩

theorem resumed (holds : C.Holds .finished g e) (none : e.exitCode = none) : C.Holds .going g e :=
  ⟨C.resumed holds.holds none, holds.tidy⟩

theorem passed {failed : Bool} {t : Transfer} (holds : C.Holds (.leaving t failed) g e) :
    C.Holds (.leaving t false) g e := by
  cases failed with
  | false => exact holds
  | true => exact ⟨C.passed holds.holds, holds.tidy⟩

theorem passedOn {failed : Bool} {t? : Option Transfer} (holds : C.Holds (.of failed t?) g e) :
    C.Holds (.of false t?) g e := by
  rcases t? with - | (names | - | - | code)
  · exact holds
  · exact holds.passed
  · exact holds
  · exact holds
  · exact holds.passed

theorem moves (holds : C.Holds s g e) (plain : s.plain) (moves : Moves e e') : C.Holds s g e' :=
  ⟨C.edit plain holds.holds moves, fun strict => (holds.tidy strict).sameOpen (.edits moves.edits)⟩

theorem failStops (holds : C.Holds s g e) (told : C.tells → e.ErrorShown) :
    C.Holds s g e.setFatal :=
  ⟨C.failStops told holds.holds, fun strict => (holds.tidy strict).sameOpen (.setFatal e)⟩

theorem stopNoted (holds : C.Holds s g e) (stays : s ≠ .finished) : C.Holds s g e.noteStop :=
  ⟨C.stopNoted stays holds.holds, fun strict => (holds.tidy strict).sameOpen (.noteStop e)⟩

theorem queue (holds : C.Holds s g e) (hosts : C.hosts g) (change : QueueChange)
    (hosted : change.isHosted = true) (plain : s.plain) :
    C.Holds s g (e.changeQueue e.current change) :=
  ⟨C.queue change hosts hosted plain holds.holds, fun strict =>
    (holds.tidy strict).sameOpen (.hosted e e.current hosted)⟩

theorem recorded {top : OpenBlock Block} {below : List (OpenBlock Block)}
    (holds : C.Holds .going g e) (depth : Nat) (c : Command)
    (found : e.blocks.blocks = top :: below) :
    C.Holds .going g (({ e with blocks := { e.blocks with
      blocks := { top with depth, recorded := c :: top.recorded } :: below } } : Engine).logged
        (.offered c)) where
  holds := C.recorded depth c holds.holds found
  tidy strict := (holds.tidy strict).move ((holds.tidy strict).blocks.recorded found depth c)
    fun outside => outside.elim

theorem closed {top : OpenBlock Block} {below : List (OpenBlock Block)}
    (holds : C.Holds .going g e) (c : Command) (found : e.blocks.blocks = top :: below)
    (ordinary : top.block.isScope = false) (single : top.block.isLoop = false) :
    C.Ready .going g (({ e with blocks := { e.blocks with blocks := below } } : Engine).logged
      (.offered c)) where
  holds := C.closed c holds.holds found ordinary single
  tidy strict := (holds.tidy strict).move ((holds.tidy strict).blocks.closed found)
    fun outside => outside.elim
  free strict := (holds.tidy strict).blocks.below found

theorem loop {top : OpenBlock Block} {below : List (OpenBlock Block)}
    (holds : C.Holds .going g e) (c : Command) (found : e.blocks.blocks = top :: below)
    (repeats : top.block.isLoop = true) : ∃ inside,
      (∀ {e'}, Moves (({ e with blocks := { e.blocks with blocks := below } } : Engine).logged
          (.offered c)) e' → C.Stopped e' ∧ C.Holds .going inside (e'.logged .loopEntered)) ∧
      ∀ {s e'}, s ≠ .finished → C.Holds s inside e' → C.Holds s g e'.endLoop := by
  have empty strict := (holds.tidy strict).blocks.below found
  obtain ⟨inside, enter, leave⟩ := C.loop c holds.holds found empty repeats
  refine ⟨inside, fun {e'} moves => ?_, fun {s e'} stays ended =>
    ⟨leave stays ended.holds, fun strict => (ended.tidy strict).sameOpen (.endLoop e')⟩⟩
  have tidy (strict : C.strict) : e'.Tidy := by
    have taken := (holds.tidy strict).blocks.closed found
    have closed : (({ e with blocks := { e.blocks with blocks := below } } : Engine).logged
        (.offered c)).Tidy := (holds.tidy strict).move taken fun outside => outside.elim
    exact closed.sameOpen (.edits moves.edits)
  obtain ⟨stopped, entered⟩ := enter moves
  exact ⟨⟨stopped, tidy⟩, entered, fun strict =>
    (tidy strict).sameOpen (.logged e' fun outside => outside)⟩

theorem scopeClosed {top : OpenBlock Block} {below : List (OpenBlock Block)}
    {policies bindings : Option ScopeHandle} {propagate : List String}
    (holds : C.Holds .going g e) (c : Command) (found : e.blocks.blocks = top :: below)
    (scope : top.block = .scope policies bindings propagate) :
    ∃ g', C.Ready .going g' (({ e with blocks := { e.blocks with blocks := below } } :
        Engine).logged (.offered c)) ∧
      ∀ {s e'}, s ≠ .finished → C.Holds s g' e' →
        C.Holds s g (((e'.raiseAll s.names).logged .bodyEnded).closeBlockScopes policies bindings
          propagate) := by
  have empty strict := (holds.tidy strict).blocks.below found
  obtain ⟨g', inside, leave⟩ := C.scopeClosed c holds.holds found empty scope
  refine ⟨g', ⟨⟨inside, fun strict => ?_⟩, empty⟩,
    fun {s e'} stays ended => ⟨leave stays ended.holds ended.tidy, ?_⟩⟩
  · exact (holds.tidy strict).move ((holds.tidy strict).blocks.closed found)
      fun outside => outside.elim
  · intro strict
    have raised : e'.SameOpen (e'.raiseAll s.names) := .edits (.raiseAll e' s.names)
    have logged : (e'.raiseAll s.names).SameOpen ((e'.raiseAll s.names).logged .bodyEnded) :=
      .logged _ fun outside => outside
    exact (ended.tidy strict).sameOpen ((raised.trans logged).trans (.closeBlockScopes ..))

theorem returned {target : Callable} (holds : C.Holds s g e)
    (free : target.opens = false → C.strict → e.Free) :
    C.Holds s g (e.logged (.returned target)) where
  holds := C.returned target holds.holds
  tidy strict := (holds.tidy strict).move (holds.tidy strict).blocks fun plain => free plain strict

theorem restored (holds : C.Holds s g e) (stays : s ≠ .finished)
    (saved : List (String × Option String)) :
    C.Holds s g ((saved.foldl (fun e (name, value) => e.assign name value) e).logged
      (.loopLeft (saved.map Prod.fst))) where
  holds := C.restored saved stays holds.holds
  tidy strict := by
    have assigned : e.SameOpen (saved.foldl (fun e (name, value) => e.assign name value) e) :=
      .edits (.assignAll saved e)
    exact (holds.tidy strict).sameOpen (assigned.trans (.logged _ fun outside => outside))

theorem givenUp (holds : C.Holds s g e) (mayFail : s.mayFail) :
    C.Holds .going g (e.logged .callGivenUp) where
  holds := C.givenUp mayFail holds.holds
  tidy strict := (holds.tidy strict).sameOpen (.logged e fun outside => outside)

theorem fileLeft (holds : C.Holds s g e) (stays : s ≠ .finished) :
    C.Holds .finished g ((s.endFile e).logged (.fileLeft (s.endFile e).fatal)) where
  holds := C.fileLeft stays holds.holds
  tidy strict := by
    have same : e.SameOpen (s.endFile e) := by
      unfold Status.endFile
      split
      · exact .refl e
      · split
        · exact .other rfl rfl rfl rfl rfl rfl rfl rfl fun _ kept => kept
        · exact .edits (.raiseAll e _)
    exact (holds.tidy strict).sameOpen (same.trans (.logged _ fun outside => outside))

theorem frame (holds : C.Holds .going g e) (frame : Frame) :
    ∃ g', (C.hosts g → C.hosts g') ∧ C.Holds .going g' (e.pushFrame frame) ∧
      ∀ {s e'}, s.plain → C.Holds s g' e' → C.Holds s g e'.popFrame := by
  obtain ⟨g', hosts, inside, leave⟩ := C.frame frame holds.holds
  exact ⟨g', hosts, ⟨inside, fun strict => (holds.tidy strict).pushFrame frame⟩,
    fun plain ended => ⟨leave plain ended.holds, fun strict => (ended.tidy strict).popFrame⟩⟩

theorem deferredTaken (holds : C.Holds .going g e) (strict : C.strict) (busy : ¬e.Free)
    (o : ScopeOpening) {c : Command} (callable : c.IsCallable) : ∃ blocks,
      ((e.openScope o.create).2.logged .deferredBegun).blocks.offer c = (blocks, .recorded) ∧
      C.Stopped ((e.openScope o.create).2.logged .deferredBegun) ∧
      C.Holds .going g
        ((((({ (e.openScope o.create).2.logged .deferredBegun with blocks } : Engine).logged
          (.offered c))).logged .deferredEnded).closeScope (e.openScope o.create).1 true) := by
  have begun : e.SameOpen ((e.openScope o.create).2.logged .deferredBegun) :=
    (Engine.SameOpen.openScope e o.create).trans (.logged _ fun outside => outside)
  have tidy := holds.tidy strict
  rw [begun.blocks]
  rcases e.blocks.offerCases c with ⟨empty, -⟩ | ⟨top, below, found, closes, -⟩ |
    ⟨top, below, depth, found, offered⟩
  · exact absurd empty busy
  · have closer := tidy.blocks.closers top (by simp [found])
    rw [← closes, callable] at closer
    cases closer
  · obtain ⟨stopped, left⟩ := C.deferredTaken o depth c holds.holds found
    refine ⟨_, offered, ⟨stopped, fun _ => tidy.sameOpen begun⟩, left, fun _ => ?_⟩
    have taken := (tidy.sameOpen begun).move (tidy.blocks.recorded found depth c)
      (by nofun : Event.OutsideBlocks (.offered c) → _)
    have ended (e₁ : Engine) : e₁.SameOpen (e₁.logged .deferredEnded) :=
      .logged e₁ fun outside => outside
    exact taken.sameOpen ((ended _).trans (.closeScope ..))

end Holds

namespace Answer

variable {result : Bool × Outcome}

theorem failStops (answer : C.Answer g result e) (fails : Status.fails result = true) :
    C.Answer g result e.setFatal where
  holds := answer.holds.failStops fun tells => answer.told tells fails
  exits code exits := (answer.exits code exits).failStops fun tells => answer.told tells fails
  told := answer.told

theorem stopNoted (answer : C.Answer g result e) : C.Answer g result e.noteStop where
  holds := answer.holds.stopNoted (Status.ofNotFinished _ _)
  exits code exits := (answer.exits code exits).stopNoted nofun
  told tells fails := (answer.told tells fails).sameOpen (.noteStop e)

end Answer

namespace Within

variable {o : Outcome}

theorem quiet (holds : C.Holds .finished g e) (quiet : C.follows → o.transfer? = none)
    (told : C.tells → o.nestedError = true → e.ErrorShown) : C.Within g o e where
  holds := holds.same fun follows => by rw [Status.within, quiet follows]
  exits code exits := holds.same fun follows => by
    have none := quiet follows
    obtain ⟨returning, exit⟩ := exits
    rw [Outcome.transfer?, returning, exit] at none
    split_ifs at none <;> cases none
  told := told

theorem unasked {o' : Outcome} (holds : C.Holds .finished g e) (fresh : C.follows → o = {})
    (transfer : o'.transfer? = o.transfer?) (marks : o'.nestedError = o.nestedError) :
    C.Within g o' e := by
  refine quiet holds (fun follows => by rw [transfer, fresh follows]; rfl) fun tells nested => ?_
  rw [marks, fresh (C.tellsFollows tells)] at nested
  cases nested

theorem failed (holds : C.Holds .finished g e) (fresh : C.follows → o = {})
    (told : C.tells → e.ErrorShown) : C.Within g { o with nestedError := true } e :=
  quiet holds (fun follows => by rw [fresh follows]; rfl) fun tells _ => told tells

theorem asking {t : Transfer} (holds : C.Holds (.of false (some t)) g e)
    (fresh : C.follows → o = {}) : C.Within g (o.request t) e where
  holds := holds.same fun follows => by
    rw [fresh follows]
    exact Status.withinAsking t
  exits code exits := holds.same fun follows => by
    rw [fresh follows] at exits
    obtain ⟨returning, exit⟩ := exits
    cases t with
    | exiting code' =>
      cases exit
      rfl
    | _ => cases exit
  told tells nested := by
    rw [fresh (C.tellsFollows tells)] at nested
    cases t <;> cases nested

theorem answer {result : Bool × Outcome} (answer : C.Answer g result e) :
    C.Within g result.2 e where
  holds := by
    have holds := answer.holds
    unfold Status.within
    rw [Status.after] at holds
    cases asked : result.2.transfer? with
    | none =>
      rw [asked] at holds
      exact holds.ended
    | some t =>
      rw [asked] at holds
      exact holds.passedOn
  exits code exits := (answer.exits code exits).passed
  told tells nested := answer.told tells (by rw [Status.fails, nested, Bool.or_true])

end Within

namespace Ready

theorem moves (ready : C.Ready s g e) (plain : s.plain) (moves : Moves e e') : C.Ready s g e' :=
  ⟨ready.toHolds.moves plain moves,
    fun strict => (ready.free strict).sameOpen (.edits moves.edits)⟩

theorem queue (ready : C.Ready s g e) (hosts : C.hosts g) (change : QueueChange)
    (hosted : change.isHosted = true) (plain : s.plain) :
    C.Ready s g (e.changeQueue e.current change) :=
  ⟨ready.toHolds.queue hosts change hosted plain, fun strict =>
    (ready.free strict).sameOpen (.hosted e e.current hosted)⟩

theorem ended (ready : C.Ready .going g e) : C.Ready .finished g e :=
  ⟨ready.toHolds.ended, ready.free⟩

theorem offered (ready : C.Ready .going g e) (c : Command) :
    C.Ready .going g (e.logged (.offered c)) where
  holds := C.offered c ready.holds
  tidy strict := (ready.tidy strict).sameOpen (.logged e fun outside => outside)
  free := ready.free

theorem dispatched (ready : C.Ready .going g e) (live : e.fatal = false) (c : Command) :
    C.Ready .going g (e.logged (.dispatched c)) where
  holds := C.dispatched c ready.holds live
  tidy strict := (ready.tidy strict).move (ready.tidy strict).blocks fun _ => ready.free strict
  free := ready.free

theorem asked (ready : C.Ready .going g e) (live : e.fatal = false) (edits : Edits e e')
    (t : Transfer) :
    C.Ready (.of false (some t)) g (e'.logged (.asked t (e'.valuesOf t.names))) where
  holds := C.asked t ready.holds live ready.free edits
  tidy strict := by
    have edited : e.SameOpen e' := .edits edits
    exact (ready.tidy strict).sameOpen (edited.trans (.logged _ fun outside => outside))
  free strict := show e'.Free from (ready.free strict).sameOpen (.edits edits)

theorem command (ready : C.Ready .going g e) (c : Command) :
    ∃ g', C.Ready .going g' (Runner.enterCommand c e) ∧
      ∀ {s e'}, s ≠ .finished → C.Holds s g' e' → C.Holds s g (Runner.leaveCommand e') := by
  obtain ⟨g', inside, leave⟩ := C.command c ready.holds
  exact ⟨g', ⟨⟨inside, fun strict => (ready.tidy strict).enterCommand c⟩, ready.free⟩,
    fun stays ended => ⟨leave stays ended.holds, fun strict => (ended.tidy strict).leaveCommand⟩⟩

theorem opening (ready : C.Ready .going g e) (early : C.Early e) (opening : Opening e e') :
    C.Holds .going g e' := by
  refine ⟨C.opening ready.holds ready.free early opening, fun strict => ?_⟩
  have tidy := ready.tidy strict
  have free := ready.free strict
  cases opening with
  | plain _ _ closer => exact tidy.openBlock free closer
  | loop _ closer =>
    have same : e.SameOpen e.openLoop := .counts (.openLoop e)
    exact (tidy.sameOpen same).openBlock (free.sameOpen same) closer
  | @scopes kinds propagated some =>
    obtain ⟨policies, bindings, e₁, same, opened⟩ := Command.openScopesBlock kinds propagated e
    rw [opened]
    exact (tidy.sameOpen same).openBlock (free.sameOpen same) (by decide)

theorem sought (ready : C.Ready .going g e) : C.Ready .going g (e.logged (.loopSought e.inLoop)) where
  holds := C.sought ready.holds ready.free
  tidy strict := (ready.tidy strict).sameOpen (.logged e fun outside => outside)
  free := ready.free

theorem definition {d : Definition} {registry : Registry} (ready : C.Ready .going g e)
    (recorded : d.policies = e.recordPolicies) (defined : e.registry.define? d = some registry) :
    C.Ready .going g (({ e with registry } : Engine).logged (.defined d e.statuses)) where
  holds := C.definition ready.holds recorded defined
  tidy strict := ((ready.tidy strict).define defined).sameOpen (.logged _ fun outside => outside)
  free := ready.free

theorem frame (ready : C.Ready .going g e) (frame : Frame) :
    ∃ g', (C.hosts g → C.hosts g') ∧ C.Ready .going g' (e.pushFrame frame) ∧
      ∀ {s e'}, s.plain → C.Ready s g' e' → C.Ready s g e'.popFrame := by
  obtain ⟨g', hosts, inside, leave⟩ := ready.toHolds.frame frame
  exact ⟨g', hosts, ⟨inside, ready.free⟩, fun plain ended =>
    ⟨leave plain ended.toHolds, ended.free⟩⟩

theorem leave {handle : ScopeHandle} {report reportScope : Bool} (tidy : C.strict → e.Tidy)
    (holds : C.holds s g ((e.closeBarrier report).closeScope handle reportScope)) :
    C.Ready s g ((e.closeBarrier report).closeScope handle reportScope) := by
  have same := Engine.SameOpen.closeScope (e.closeBarrier report) handle reportScope
  exact ⟨⟨holds, fun strict => ((tidy strict).closeBarrier report).1.sameOpen same⟩,
    fun strict => ((tidy strict).closeBarrier report).2.sameOpen same⟩

theorem scopeBarrier (ready : C.Ready .going g e) (o : ScopeOpening) :
    ∃ g', (C.hosts g → C.hosts g') ∧ C.Ready .going g' (e.openScope o.create).2.openBarrier ∧
      ∀ {e'} (report reportScope : Bool), C.Holds .finished g' e' →
        C.Ready .finished g ((e'.closeBarrier report).closeScope (e.openScope o.create).1
          reportScope) := by
  obtain ⟨g', hosts, inside, leave⟩ := C.scopeBarrier o ready.holds ready.free
  have same := Engine.SameOpen.openScope e o.create
  have free strict := (ready.free strict).sameOpen same
  exact ⟨g', hosts, ⟨⟨inside, fun strict =>
      ((ready.tidy strict).sameOpen same).openBarrier (free strict)⟩, free⟩,
    fun report reportScope ended =>
      .leave ended.tidy (leave report reportScope ended.holds ended.tidy)⟩

theorem barrierScope (ready : C.Ready .going g e) (o : ScopeOpening) :
    ∃ g', C.Ready .going g' (e.openBarrier.openScope o.create).2 ∧
      ∀ {e'} (report reportScope : Bool), C.Holds .finished g' e' →
        C.Ready .finished g ((e'.closeBarrier report).closeScope
          (e.openBarrier.openScope o.create).1 reportScope) := by
  obtain ⟨g', inside, leave⟩ := C.barrierScope o ready.holds ready.free
  have same := Engine.SameOpen.openScope e.openBarrier o.create
  exact ⟨g', ⟨⟨inside, fun strict =>
      ((ready.tidy strict).openBarrier (ready.free strict)).sameOpen same⟩,
      fun strict => Engine.Free.sameOpen (e := e.openBarrier) (ready.free strict) same⟩,
    fun report reportScope ended =>
      .leave ended.tidy (leave report reportScope ended.holds ended.tidy)⟩

theorem functionCall {d : Definition} (ready : C.Ready .going g e) (live : e.fatal = false)
    (known : e.registry.Knows d) (kind : d.kind = .function) (values : List String) :
    ∃ g', C.Ready .going g' (Runner.enterFunction d values e).2 ∧
      ∀ {s e'} (report : Bool), s ≠ .finished → C.Holds s g' e' →
        C.Ready s.inCaller g (s.leaveFunction (Runner.enterFunction d values e).1 report e') := by
  obtain ⟨g', inside, leave⟩ := C.functionCall values ready.holds live ready.free known kind
  have entered := Engine.SameOpen.enterFunction d values e
  refine ⟨g', ⟨⟨inside, fun strict =>
      ((ready.tidy strict).openFunction (ready.free strict) d.file d.policies).sameOpen entered⟩,
    fun strict => ((ready.free strict).openFunction d.file d.policies).sameOpen entered⟩,
    fun {s e'} report stays ended => ?_⟩
  have left (strict : C.strict) :
      (s.leaveFunction (Runner.enterFunction d values e).1 report e').Tidy ∧
        (s.leaveFunction (Runner.enterFunction d values e).1 report e').Free := by
    obtain ⟨seen, same⟩ := s.leaveFunctionCases (Runner.enterFunction d values e).1 report e'
    have raised := (ended.tidy strict).sameOpen (.edits (.raiseAll e' s.names))
    obtain ⟨closed, free⟩ := raised.closeFunction (Runner.enterFunction d values e).1 report
    rw [same]
    exact ⟨closed.sameOpen (.logged _ fun outside => outside), free⟩
  exact ⟨⟨leave report stays ended.holds ended.tidy, fun strict => (left strict).1⟩,
    fun strict => (left strict).2⟩

theorem macroCall {d : Definition} (ready : C.Ready .going g e) (live : e.fatal = false)
    (known : e.registry.Knows d) (kind : d.kind = .macroCall) :
    ∃ g', C.Ready .going g' (Runner.enterMacro d e).2 ∧
      ∀ {s e'} (report : Bool), s ≠ .finished → C.Holds s g' e' →
        C.Ready s g (e'.closeMacro (Runner.enterMacro d e).1 report) := by
  obtain ⟨g', inside, leave⟩ := C.macroCall ready.holds live ready.free known kind
  have entered := Engine.SameOpen.enterMacro d e
  exact ⟨g', ⟨⟨inside, fun strict =>
      ((ready.tidy strict).openMacro (ready.free strict) d.file d.policies).sameOpen entered⟩,
      fun strict => ((ready.free strict).openMacro d.file d.policies).sameOpen entered⟩,
    fun report stays ended => ⟨⟨leave report stays ended.holds ended.tidy, fun strict =>
      ((ended.tidy strict).closeMacro _ report).1⟩, fun strict =>
      ((ended.tidy strict).closeMacro _ report).2⟩⟩

theorem deferredCall (ready : C.Ready .going g e) (o : ScopeOpening) :
    ∃ g', C.Ready .going g' ((e.openScope o.create).2.logged .deferredBegun) ∧
      ∀ {s e'}, s ≠ .finished → C.Ready s g' e' →
        C.Ready .going g ((e'.logged .deferredEnded).closeScope (e.openScope o.create).1 true) := by
  obtain ⟨g', inside, leave⟩ := C.deferredCall o ready.holds ready.free
  have begun : e.SameOpen ((e.openScope o.create).2.logged .deferredBegun) :=
    (Engine.SameOpen.openScope e o.create).trans (.logged _ fun outside => outside)
  refine ⟨g', ⟨⟨inside, fun strict => (ready.tidy strict).sameOpen begun⟩,
    fun strict => (ready.free strict).sameOpen begun⟩, fun {s e'} stays ended => ?_⟩
  have logged : e'.SameOpen (e'.logged .deferredEnded) := .logged e' fun outside => outside
  have same := logged.trans (.closeScope _ (e.openScope o.create).1 true)
  exact ⟨⟨leave stays ended.holds ended.free, fun strict => (ended.tidy strict).sameOpen same⟩,
    fun strict => (ended.free strict).sameOpen same⟩

theorem created {id : Nat} (ready : C.Ready .going g e) (nests : C.nests) (live : e.fatal = false)
    (created : e.Subdirectory id e') : C.Ready .going g e' where
  holds := C.created nests live ready.holds created
  tidy strict := (ready.tidy strict).sameOpen (.subdirectory created)
  free strict := (ready.free strict).sameOpen (.subdirectory created)

theorem refusal (ready : C.Ready .going g e) (nests : C.nests) (error : ScopeError) :
    C.Ready .going g (e.internalError error) where
  holds := C.refusal error nests ready.holds
  tidy strict := (ready.tidy strict).sameOpen (.internalError e error)
  free strict := (ready.free strict).sameOpen (.internalError e error)

theorem directory {id : Nat} (ready : C.Ready .going g e) (nests : C.nests)
    (live : e.fatal = false) (created : e.Subdirectory id e') :
    ∃ g', C.hosts g' ∧ C.Ready .going g' (Runner.enterDirectory id e') ∧
      ∀ {s e''}, s.plain → C.Ready s g' e'' → C.Ready s g (Runner.leaveDirectory e' e'') := by
  obtain ⟨g', hosts, inside, leave⟩ := C.directory nests live ready.holds ready.free created
  have same := Engine.SameOpen.subdirectory created
  exact ⟨g', hosts, ⟨⟨inside, fun strict => ((ready.tidy strict).sameOpen same).enterDirectory id⟩,
      fun strict => show e'.Free from (ready.free strict).sameOpen same⟩,
    fun plain ended => ⟨⟨leave plain ended.holds ended.free, fun strict =>
      (ended.tidy strict).leaveDirectory e'⟩, ended.free⟩⟩

end Ready

/-! Runs -/

variable {α β : Type} (C)

structure Ends (m : Run α) (e : Engine) (after : α → Engine → Prop) : Prop where
  outcome : match m e with
    | .ok (a, e') => after a e'
    | .error (h, e') => C.Halted h e'

variable {C} {m : Run α} {after : α → Engine → Prop}

theorem Ends.ok (ends : C.Ends m e after) {a : α} (run : m e = .ok (a, e')) : after a e' := by
  have outcome := ends.outcome
  rw [run] at outcome
  exact outcome

theorem Ends.error (ends : C.Ends m e after) {h : Halt} (run : m e = .error (h, e')) :
    C.Halted h e' := by
  have outcome := ends.outcome
  rw [run] at outcome
  exact outcome

theorem endsMono {wider : α → Engine → Prop} (ends : C.Ends m e after)
    (widen : ∀ a e', after a e' → wider a e') : C.Ends m e wider := by
  constructor
  cases run : m e with
  | error halted => exact ends.error run
  | ok ended => exact widen _ _ (ends.ok run)

theorem endsBind {k : α → Run β} {after : β → Engine → Prop} {between : α → Engine → Prop}
    (first : C.Ends m e between) (rest : ∀ a e', between a e' → C.Ends (k a) e' after) :
    C.Ends (m >>= k) e after := by
  constructor
  change match (m e).bind fun ended => k ended.1 ended.2 with
    | .ok (a, e') => after a e'
    | .error (h, e') => C.Halted h e'
  cases run : m e with
  | error halted => exact first.error run
  | ok ended => exact (rest _ _ (first.ok run)).outcome

theorem endsPure {a : α} (ended : after a e) : C.Ends (pure a) e after := ⟨ended⟩

theorem endsHalt (stopped : C.Stopped e) (early : C.Early e) (h : Halt)
    (ends : ∀ c, h ≠ .interrupted c := by nofun) : C.Ends (Run.halt h : Run α) e after :=
  ⟨stopped, early, fun c same => absurd same (ends c)⟩

theorem endsInterrupted (holds : C.Holds .going g e) (early : C.Early e) (c : Command) :
    C.Ends (Run.halt (.interrupted c) : Run α) e after :=
  ⟨holds.stop, early, fun _ _ => ⟨g, holds⟩⟩

theorem endsGet {k : Engine → Run α} (rest : C.Ends (k e) e after) : C.Ends (get >>= k) e after :=
  ⟨rest.outcome⟩

theorem endsSet {k : PUnit → Run α} (rest : C.Ends (k ⟨⟩) e' after) :
    C.Ends (set e' >>= k) e after := ⟨rest.outcome⟩

theorem endsModify {f : Engine → Engine} {k : PUnit → Run α} (rest : C.Ends (k ⟨⟩) (f e) after) :
    C.Ends (modify f >>= k) e after := ⟨rest.outcome⟩

theorem endsLift {s : Step β} {k : β → Run α} (rest : C.Ends (k (s e).1) (s e).2 after) :
    C.Ends (s.lift >>= k) e after := ⟨rest.outcome⟩

theorem endsIte {condition : Prop} [Decidable condition] {m' : Run α}
    (whenTrue : condition → C.Ends m e after) (whenFalse : ¬condition → C.Ends m' e after) :
    C.Ends (if condition then m else m') e after := by
  split
  case isTrue holds => exact whenTrue holds
  case isFalse fails => exact whenFalse fails

/-- The outcome that a command starts from counts only where the invariant follows what is under
way; a command that is run from a list starts from an empty one. -/
structure Runs (C : Conduct G) (r : Runner) : Prop where
  holds : ∀ {g e o} (c : Command), (C.follows → o = {}) → C.Able r e → C.Holds .going g e →
    C.Ends (r.execute c o) e fun result e' => C.Answer g result e' ∧ 0 < r.rounds
  ready : ∀ {g e c o}, (C.follows → o = {}) → (C.strict → c.IsCallable) → C.Able r e →
    C.Ready .going g e →
    C.Ends (r.execute c o) e fun result e' => C.Answer g result e' ∧ (C.strict → e'.Free)
  recorded : ∀ {e c blocks} (o : Outcome), e.blocks.offer c = (blocks, .recorded) →
    C.Stopped e → C.Able r e →
    C.Ends (r.execute c o) e fun _ e' => e' = ({ e with blocks } : Engine).logged (.offered c)

theorem Runs.run {r : Runner} (runs : C.Runs r) (c : Command) (able : C.Able r e)
    (holds : C.Holds .going g e) :
    C.Ends (r.run c) e fun result e' => C.Answer g result e' ∧ 0 < r.rounds :=
  runs.holds c (fun _ => rfl) able holds

end Conduct
end CMakeScript
