import CMakeScript.Proofs.LoopCounts
import CMakeScript.Proofs.RequestRuns
/-! Runs, as far as their loops go. When a run has come to its end every loop is off the counts
again, and a command outside of every loop never sees one, unless a loop ended while a block with
variables that its commands had opened was still open: the loop is then taken off the count of that
block, and stays on the one it was opened in. -/
namespace CMakeScript
open LoopCounts

def Event.levels (event : Event) (levels : List Nat) : List Nat :=
  match event with
  | loopEntered => (levels.headD 0 + 1) :: levels.tail
  | loopEnded => (levels.headD 0 - 1) :: levels.tail
  | called d _ _ => if d.kind = .function then 0 :: levels else levels
  | functionLeft _ => levels.tail
  | _ => levels

/-- How many loops have their commands run, in each of the functions that are being run, the
innermost first, and outside of them. -/
def loopLevels : List LogEntry → List Nat
  | [] => [0]
  | entry :: earlier => entry.event.levels (loopLevels earlier)

/-- A loop ended within a block with variables of its own that was still open. -/
def LoopCrossed (log : List LogEntry) : Prop :=
  ∃ entry ∈ log, entry.event = .loopEnded ∧
    ∃ b ∈ entry.blocks.blocks, b.block.hidesLoops = true

instance (log : List LogEntry) : Decidable (LoopCrossed log) := by
  unfold LoopCrossed
  infer_instance

/-- A command that needs a loop has found one only where one was being run. -/
def SoughtWithin : List LogEntry → Prop
  | [] => True
  | entry :: earlier => (entry.event = .loopSought true → ¬LoopCrossed earlier →
      0 < (loopLevels earlier).headD 0) ∧ SoughtWithin earlier

theorem SoughtWithin.split {later earlier : List LogEntry} {entry : LogEntry}
    (sought : SoughtWithin (later ++ entry :: earlier)) (found : entry.event = .loopSought true)
    (straight : ¬LoopCrossed earlier) : 0 < (loopLevels earlier).headD 0 := by
  induction later with
  | nil => exact sought.1 found straight
  | cons _ _ ih => exact ih sought.2

theorem LoopCrossed.later {log : List LogEntry} (crossed : LoopCrossed log)
    (entries : List LogEntry) : LoopCrossed (entries ++ log) := by
  obtain ⟨entry, member, ended⟩ := crossed
  exact ⟨entry, List.mem_append_right _ member, ended⟩

theorem Event.levelsSilent {event : Event} (silent : event.tellsLoops = false)
    (levels : List Nat) : event.levels levels = levels := by
  cases event with
  | loopEntered | loopEnded | loopSought | called | functionLeft => cases silent
  | _ => rfl

theorem loopLevelsSilent {entries : List LogEntry}
    (silent : ∀ entry ∈ entries, entry.event.tellsLoops = false) (log : List LogEntry) :
    loopLevels (entries ++ log) = loopLevels log ∧
      (SoughtWithin log → SoughtWithin (entries ++ log)) := by
  refine logIdle (fun _ here => ⟨Event.levelsSilent here _, fun before =>
    ⟨fun found => ?_, before⟩⟩) silent log
  rw [found] at here
  cases here

structure LoopPlace where
  here : Nat
  outer : List Nat
  level : Nat
  levels : List Nat
  bounded : here ≤ level

namespace LoopPlace

def start : LoopPlace := ⟨0, [], 0, [], Nat.le_refl 0⟩

def around (g : LoopPlace) : List Nat := g.here :: g.outer

def running (g : LoopPlace) : List Nat := g.level :: g.levels

def inLoop (g : LoopPlace) : LoopPlace :=
  { g with here := g.here + 1, level := g.level + 1, bounded := Nat.succ_le_succ g.bounded }

def covered (g : LoopPlace) : LoopPlace :=
  { g with here := 0, outer := g.around, bounded := Nat.zero_le _ }

def inBlock (g : LoopPlace) : Option ScopeHandle → LoopPlace
  | none => g
  | some _ => g.covered

def inFunction (g : LoopPlace) : LoopPlace := ⟨0, g.around, 0, g.running, Nat.le_refl 0⟩

theorem aroundInBlock (g : LoopPlace) (policies bindings : Option ScopeHandle)
    (propagate : List String) :
    (g.inBlock bindings).around = (Block.scope policies bindings propagate).counted g.around := by
  cases bindings <;> rfl

theorem runningInBlock (g : LoopPlace) (bindings : Option ScopeHandle) :
    (g.inBlock bindings).running = g.running := by
  cases bindings <;> rfl

end LoopPlace
namespace Engine

structure Balanced (g : LoopPlace) (e : Engine) : Prop where
  levels : loopLevels e.log = g.running
  sought : SoughtWithin e.log
  counts : LoopCrossed e.log ∨ e.Within g.around

namespace Balanced

variable {g g' : LoopPlace} {e e' : Engine}

theorem moved (balanced : e.Balanced g) (unlooped : e.Unlooped e')
    (running : g'.running = g.running) (counts : e.Within g.around → e'.Within g'.around) :
    e'.Balanced g' := by
  obtain ⟨entries, silent, log⟩ := unlooped
  obtain ⟨levels, sought⟩ := loopLevelsSilent silent e.log
  rw [← log] at levels sought
  refine ⟨levels.trans (balanced.levels.trans running.symm), sought balanced.sought, ?_⟩
  exact balanced.counts.imp (fun crossed => log ▸ crossed.later entries) counts

theorem kept (balanced : e.Balanced g) (unlooped : e.Unlooped e') (loops : e'.loops = e.loops)
    (blocks : e'.blocks = e.blocks) : e'.Balanced g :=
  balanced.moved unlooped rfl fun within => by
    rw [Within, loops, blocks]
    exact within

theorem other (balanced : e.Balanced g) (loops : e'.loops = e.loops) (log : e'.log = e.log)
    (blocks : e'.blocks = e.blocks) : e'.Balanced g :=
  balanced.kept (.same log) loops blocks

theorem edits (balanced : e.Balanced g) (edits : Edits e e') : e'.Balanced g :=
  balanced.kept (.quiet (.edits edits)) (loopsEdits edits) (SameOpen.edits edits).blocks

theorem noted (balanced : e.Balanced g) {event : Event} (silent : event.tellsLoops = false) :
    (e.logged event).Balanced g :=
  balanced.kept (.logged e silent) rfl rfl

theorem internalError (balanced : e.Balanced g) (error : ScopeError) :
    (e.internalError error).Balanced g :=
  balanced.kept (.quiet (.internalError e error)) (loopsIssueAt ..) (SameOpen.internalError e error).blocks

theorem offered (balanced : e.Balanced g) {blocks : BlockStack Block} (c : Command)
    (running : g'.running = g.running)
    (counts : e.Within g.around → AtMost e.loops (countedBy blocks.blocks g'.around)) :
    (({ e with blocks } : Engine).logged (.offered c)).Balanced g' :=
  balanced.moved ⟨[⟨.offered c, blocks⟩], by simp [Event.tellsLoops], rfl⟩ running counts

theorem opening (balanced : e.Balanced g) (opening : Opening e e') : e'.Balanced g :=
  balanced.moved (.turns (.opening opening)) rfl fun within => within.opening opening

theorem loopEntered {blocks : BlockStack Block} (balanced : e.Balanced g) (c : Command)
    (counts : e.Within g.around → AtMost e.loops (countedBy blocks.blocks g.inLoop.around))
    (moves : Moves (({ e with blocks } : Engine).logged (.offered c)) e') :
    SoughtWithin e'.log ∧ (e'.logged .loopEntered).Balanced g.inLoop := by
  have offered : (({ e with blocks } : Engine).logged (.offered c)).Unlooped e' :=
    .quiet (.edits moves.edits)
  have unlooped : e.Unlooped e' := .trans ⟨[⟨.offered c, blocks⟩], by simp [Event.tellsLoops], rfl⟩
    offered
  obtain ⟨entries, silent, log⟩ := unlooped
  obtain ⟨levels, sought⟩ := loopLevelsSilent silent e.log
  rw [← log, balanced.levels] at levels
  rw [← log] at sought
  refine ⟨sought balanced.sought, ?_, ⟨nofun, sought balanced.sought⟩, ?_⟩
  · change ((loopLevels e'.log).headD 0 + 1) :: (loopLevels e'.log).tail = g.inLoop.running
    rw [levels]
    rfl
  · refine balanced.counts.imp (fun crossed => ?_) fun within => ?_
    · have crossedLater : LoopCrossed e'.log := log ▸ crossed.later entries
      exact crossedLater.later [_]
    · change AtMost e'.loops (countedBy e'.blocks.blocks g.inLoop.around)
      rw [loopsEdits moves.edits, (SameOpen.edits moves.edits).blocks]
      exact counts within

theorem endLoop (balanced : e.Balanced g.inLoop) : e.endLoop.Balanced g := by
  have log : e.endLoop.log = ⟨.loopEnded, e.blocks⟩ :: e.log := by
    unfold Engine.endLoop Engine.closeLoop
    split <;> rfl
  constructor
  case levels =>
    rw [log]
    change ((loopLevels e.log).headD 0 - 1) :: (loopLevels e.log).tail = g.running
    rw [balanced.levels]
    rfl
  case sought =>
    rw [log]
    exact ⟨nofun, balanced.sought⟩
  case counts =>
    rw [log]
    by_cases crossed : ∃ b ∈ e.blocks.blocks, b.block.hidesLoops = true
    · exact .inl ⟨_, List.mem_cons_self .., rfl, crossed⟩
    · have shows : ∀ b ∈ e.blocks.blocks, b.block.hidesLoops = false := fun b member =>
        eq_false_of_ne_true fun hides => crossed ⟨b, member, hides⟩
      exact balanced.counts.imp (·.later [_]) fun within => Within.endLoop within shows

theorem loopSought (balanced : e.Balanced g) (free : e.Free) :
    (e.logged (.loopSought e.inLoop)).Balanced g := by
  refine ⟨balanced.levels, ⟨fun found straight => ?_, balanced.sought⟩, ?_⟩
  · have seen : 0 < e.loops.headD 0 := of_decide_eq_true (Event.loopSought.inj found)
    rw [balanced.levels]
    obtain crossed | within := balanced.counts
    · exact absurd crossed straight
    · rw [Within, free] at within
      have most : e.loops.headD 0 ≤ g.here := AtMost.head within
      exact Nat.lt_of_lt_of_le seen (Nat.le_trans most g.bounded)
  · exact balanced.counts.imp (fun crossed => crossed.later [_]) fun within => within

theorem openScope (balanced : e.Balanced g) (o : ScopeOpening) :
    (e.openScope o.create).2.Balanced g :=
  balanced.kept (.turns (.openScope e o)) (loopsOpenScope ..) (SameOpen.openScope e _).blocks

theorem closeScope (balanced : e.Balanced g) (handle : ScopeHandle) (report : Bool) :
    (e.closeScope handle report).Balanced g :=
  balanced.kept (.turns (.closeScope e handle report)) (loopsCloseScope ..)
    (SameOpen.closeScope e handle report).blocks

theorem openBarrier (balanced : e.Balanced g) : e.openBarrier.Balanced g :=
  balanced.moved (.turns (.openBarrier e)) rfl id

theorem closeBarrier (balanced : e.Balanced g) (tidy : e.Tidy) (report : Bool) :
    (e.closeBarrier report).Balanced g :=
  balanced.moved (.turns (.closeBarrier e report)) rfl fun within =>
    within.closeBarrier nofun tidy report

theorem blockEnded {bindings : Option ScopeHandle} (balanced : e.Balanced (g.inBlock bindings))
    (tidy : e.Tidy) (names : List String) (policies : Option ScopeHandle)
    (propagate : List String) :
    (((e.raiseAll names).logged .bodyEnded).closeBlockScopes policies bindings propagate).Balanced
      g := by
  have raised := balanced.edits (.raiseAll e names)
  have ended : ((e.raiseAll names).logged .bodyEnded).Balanced (g.inBlock bindings) :=
    raised.noted rfl
  have tidy : ((e.raiseAll names).logged .bodyEnded).Tidy :=
    (tidy.sameOpen (.edits (.raiseAll e names))).sameOpen (.logged _ fun outside => outside)
  refine ended.moved (.turns (.closeBlockScopes ..)) (g.runningInBlock bindings).symm ?_
  rw [g.aroundInBlock none bindings []]
  exact fun within => within.closeBlockScopes tidy policies propagate

theorem enterMacro {d : Definition} (balanced : e.Balanced g) (kind : d.kind = .macroCall) :
    (Runner.enterMacro d e).2.Balanced g := by
  have opened : (e.openMacro d.file d.policies).2.Balanced g :=
    (balanced.openScope (.macroCall d.file)).openBarrier.edits (.pushPolicy _ true d.policies)
  refine ⟨?_, ⟨nofun, opened.sought⟩, opened.counts.imp (·.later [_]) fun within => within⟩
  change (if d.kind = .function then _ else loopLevels _) = _
  rw [kind]
  exact opened.levels

theorem closeMacro (balanced : e.Balanced g) (tidy : e.Tidy) (handle : ScopeHandle)
    (report : Bool) : (e.closeMacro handle report).Balanced g := by
  have popped := Edits.popPolicy e
  exact ((balanced.edits popped).closeBarrier (tidy.sameOpen (.edits popped)) report).closeScope
    handle report

theorem enterFunction {d : Definition} (balanced : e.Balanced g) (free : e.Free)
    (kind : d.kind = .function) (values : List String) :
    (Runner.enterFunction d values e).2.Balanced g.inFunction := by
  have opened := free.openFunction d.file d.policies
  have entered : (Runner.enterFunction d values e).2.Free := opened.sameOpen (.enterFunction ..)
  have defined := Edits.defineAll (Runner.functionVariables d values)
    (e.openFunction d.file d.policies).2
  have unlooped := Unlooped.turns ((Turns.openFunction e d.file d.policies).trans
    (.defineAll (Runner.functionVariables d values) _))
  obtain ⟨entries, silent, log⟩ := unlooped
  obtain ⟨levels, sought⟩ := loopLevelsSilent silent e.log
  rw [← log] at levels sought
  refine ⟨?_, ⟨nofun, sought balanced.sought⟩, ?_⟩
  · change (if d.kind = .function then 0 :: loopLevels _ else _) = _
    rw [if_pos kind]
    exact congrArg (0 :: ·) (levels.trans balanced.levels)
  · refine balanced.counts.imp (fun crossed => ?_) fun within => ?_
    · exact LoopCrossed.later (log ▸ crossed.later entries) [_]
    · have loops : (Runner.enterFunction d values e).2.loops = 0 :: e.loops :=
        (loopsLogged _ _).trans
          ((loopsEdits defined).trans (loopsOpenFunction e d.file d.policies))
      rw [Within, entered, loops]
      rw [Within, free] at within
      exact AtMost.begun within

theorem closeFunction (balanced : e.Balanced g.inFunction) (tidy : e.Tidy) (handle : ScopeHandle)
    (report : Bool) (values : Option (List (String × Option String))) :
    ((e.closeFunction handle report).logged (.functionLeft values)).Balanced g := by
  have closed := balanced.closeMacro tidy handle report
  obtain ⟨-, free⟩ := tidy.closeMacro handle report
  have log : (e.closeFunction handle report).log = (e.closeMacro handle report).log :=
    Counts.log (.closeLoopBarrier _)
  refine ⟨?_, ⟨nofun, ?_⟩, ?_⟩
  · change (loopLevels (e.closeFunction handle report).log).tail = g.running
    rw [log, closed.levels]
    rfl
  · exact log ▸ closed.sought
  · refine closed.counts.imp (fun crossed => ?_) fun within => ?_
    · exact LoopCrossed.later (log ▸ crossed) [_]
    · change AtMost (e.closeMacro handle report).closeLoopBarrier.loops (countedBy
        (e.closeMacro handle report).closeLoopBarrier.blocks.blocks g.around)
      rw [loopsCloseBarrier, (SameOpen.counts (.closeLoopBarrier _)).blocks, free]
      rw [Within, free] at within
      exact AtMost.ended within (List.cons_ne_nil _ _)

theorem leaveFunction (s : Status) (balanced : e.Balanced g.inFunction) (tidy : e.Tidy)
    (handle : ScopeHandle) (report : Bool) : (s.leaveFunction handle report e).Balanced g := by
  obtain ⟨seen, same⟩ := s.leaveFunctionCases handle report e
  have raised := Edits.raiseAll e s.names
  rw [same]
  exact (balanced.edits raised).closeFunction (tidy.sameOpen (.edits raised)) handle report seen

theorem enterDirectory (balanced : e.Balanced g) (free : e.Free) (id : Nat) :
    (Runner.enterDirectory id e).Balanced g.covered :=
  balanced.moved (.same rfl) rfl fun within => by
    rw [Within, free] at within
    rw [Within, show (Runner.enterDirectory id e).blocks.blocks = [] from free]
    exact AtMost.begun within

theorem leaveDirectory (balanced : e.Balanced g.covered) (free : e.Free) (outer : Engine) :
    (Runner.leaveDirectory outer e).Balanced g :=
  balanced.moved (.same rfl) rfl fun within => by
    rw [Within, free] at within
    rw [Within, show (Runner.leaveDirectory outer e).blocks.blocks = [] from free]
    exact AtMost.tail within

theorem concluded (balanced : e.Balanced g) (c : Command) (succeeded : Bool) (o : Outcome) :
    (Runner.conclude c succeeded o e).2.Balanced g := by
  obtain ⟨e₁, moves, same | same⟩ := Runner.concludeStands c succeeded o e <;> rw [same]
  · exact balanced.edits moves.edits
  · exact (balanced.edits moves.edits).other rfl rfl rfl

theorem fileLeft (balanced : e.Balanced g) (s : Status) :
    ((s.endFile e).logged (.fileLeft (s.endFile e).fatal)).Balanced g := by
  have ended : (s.endFile e).Balanced g := by
    unfold Status.endFile
    split
    · exact balanced
    · split
      · exact balanced.other rfl rfl rfl
      · exact balanced.edits (.raiseAll e _)
  exact ended.noted rfl

end Balanced
end Engine
open Engine

def loopBalance : Conduct LoopPlace where
  holds _ := Balanced
  stopped e := SoughtWithin e.log
  strict := True
  nests := True
  follows := False
  stop balanced := balanced.sought
  blind _ balanced := balanced
  ended balanced := balanced
  resumed balanced _ := balanced
  passed balanced := balanced
  edit _ balanced moves := balanced.edits moves.edits
  failStops _ balanced := balanced.other rfl rfl rfl
  stopNoted {s g e} _ balanced :=
    balanced.kept (.quiet (.noteStop e)) (loopsNoteStop e) (SameOpen.noteStop e).blocks
  offered c balanced := balanced.noted rfl
  recorded {g e top below} depth c balanced found := balanced.offered c rfl fun within => by
    rw [Within, found] at within
    exact within
  closed {g e top below} c balanced found ordinary single := balanced.offered c rfl fun within => by
    rw [Within, found] at within
    have same := Block.countedOther single (Block.ordinaryShows ordinary)
      (countedBy below g.around)
    exact same ▸ within
  loop {g e top below} c balanced found empty repeats := by
    obtain rfl := empty trivial
    refine ⟨g.inLoop, fun {e'} moves => balanced.loopEntered c (fun within => ?_) moves,
      fun _ ended => ended.endLoop⟩
    rw [Within, found] at within
    change AtMost e.loops (top.block.counted g.around) at within
    rw [Block.countedLoop repeats] at within
    exact within
  scopeClosed {g e top below policies bindings propagate} c balanced found empty scope := by
    obtain rfl := empty trivial
    refine ⟨g.inBlock bindings, ?_, fun {s e'} _ ended tidy =>
      ended.blockEnded (tidy trivial) s.names policies propagate⟩
    refine balanced.offered c (g.runningInBlock bindings) fun within => ?_
    rw [Within, found] at within
    rw [g.aroundInBlock policies bindings propagate, ← scope]
    exact within
  command c balanced := ⟨_, balanced.other rfl rfl rfl, fun _ ended => ended.other rfl rfl rfl⟩
  dispatched c balanced _ := balanced.noted rfl
  sought balanced free := balanced.loopSought (free trivial)
  asked t balanced _ _ edits := (balanced.edits edits).noted rfl
  returned target balanced := balanced.noted rfl
  concluded {g e} c succeeded o balanced _ _ := by
    have ended : ((Runner.conclude c succeeded o e).2.logged
        (.concluded (Runner.conclude c succeeded o e).1.2.transfer?)).Balanced g :=
      (balanced.concluded c succeeded o).noted rfl
    exact ⟨ended, fun _ _ => ended⟩
  opening balanced _ _ opening := balanced.opening opening
  definition {g e d registry} balanced _ _ := by
    have defined : ({ e with registry } : Engine).Balanced g := balanced.other rfl rfl rfl
    exact defined.noted rfl
  restored saved _ balanced := (balanced.edits (.assignAll saved _)).noted rfl
  givenUp _ balanced := balanced.noted rfl
  functionCall values balanced _ free _ kind :=
    ⟨_, balanced.enterFunction (free trivial) kind values, fun {s e'} report _ ended tidy =>
      ended.leaveFunction s (tidy trivial) _ report⟩
  macroCall balanced _ _ _ kind := ⟨_, balanced.enterMacro kind, fun report _ ended tidy =>
    ended.closeMacro (tidy trivial) _ report⟩
  frame frame balanced :=
    ⟨_, id, balanced.other rfl rfl rfl, fun _ ended => ended.other rfl rfl rfl⟩
  scopeBarrier o balanced _ := ⟨_, id, (balanced.openScope o).openBarrier,
    fun report reportScope ended tidy =>
      (ended.closeBarrier (tidy trivial) report).closeScope _ reportScope⟩
  barrierScope o balanced _ := ⟨_, balanced.openBarrier.openScope o,
    fun report reportScope ended tidy =>
      (ended.closeBarrier (tidy trivial) report).closeScope _ reportScope⟩
  fileLeft {s g e} _ balanced := balanced.fileLeft s
  deferredCall o balanced _ := ⟨_, (balanced.openScope o).noted rfl, fun _ ended _ =>
    (ended.noted rfl).closeScope _ true⟩
  queue {s g e} change _ hosted _ balanced := balanced.kept (.quiet (.changeQueue ..))
    (loopsChangeQueue ..) (SameOpen.hosted e e.current hosted).blocks
  deferredTaken {g e top below} o depth c balanced found := by
    have begun : ((e.openScope o.create).2.logged .deferredBegun).Balanced g :=
      (balanced.openScope o).noted rfl
    have same : (e.openScope o.create).2.blocks = e.blocks := (SameOpen.openScope e _).blocks
    refine ⟨begun.sought, Balanced.closeScope (Balanced.noted (begun.offered c rfl fun within => ?_)
      rfl) _ true⟩
    have within : AtMost _ (countedBy (e.openScope o.create).2.blocks.blocks g.around) := within
    rw [same, found] at within
    exact within
  reach _ _ := trivial
  created {g e e' id} _ _ balanced created := by
    cases created
    exact balanced.other rfl rfl rfl
  refusal error _ balanced := balanced.internalError error
  directory {g e₀ e id} _ _ balanced free created := by
    have free : e.Free := (free trivial).sameOpen (.subdirectory created)
    have before : e.Balanced g := by
      cases created
      exact balanced.other rfl rfl rfl
    exact ⟨_, trivial, before.enterDirectory free id, fun _ ended free =>
      ended.leaveDirectory (free trivial) e⟩

theorem Engine.balancedStart (options : Options) (platform : Platform)
    (environment : List (String × String)) :
    (start options platform environment).Balanced .start ∧ (start options platform environment).Free := by
  obtain ⟨environment', cache, errorOccurred, same⟩ := startCases options platform environment
  rw [same]
  exact ⟨⟨rfl, trivial, .inr (AtMost.refl [0])⟩, rfl⟩

theorem Runner.soughtSeen {b : Builtin} (needs : b = .breakLoop ∨ b = .continueLoop)
    {arguments : List Argument} {words : Option (List String)} {e e' : Engine}
    (read : Step.values arguments (noteSought b e) = (words, e')) : e'.inLoop = e.inLoop ∧
      ∃ later, e'.log = later ++ ⟨.loopSought e.inLoop, e.blocks⟩ :: e.log := by
  have noted : noteSought b e = e.logged (.loopSought e.inLoop) := by
    rcases needs with rfl | rfl <;> rfl
  have edits := Step.editsValues arguments (noteSought b e)
  rw [Step.EditsAt, read, noted] at edits
  constructor
  · rw [inLoop, loopsEdits edits, loopsLogged, inLoop]
  · obtain ⟨entries, -, log⟩ := (Quiet.edits edits).log
    exact ⟨entries, log⟩

/-- Once a run has come to its end every loop is off the counts, and a command that needs a loop sees
none where none has its commands run, in the function that it is in. Both can fail from then on that
a loop ends while a block with variables is open that its commands opened. -/
theorem loopsEndUnlessCrossed (options : Options) (platform : Platform)
    (environment : List (String × String)) (path source : String) (fuel : Nat) :
    let start := Engine.start options platform environment
    let run := (Runner.ofFuel fuel).runSource path source
    (∀ answer e, run start = .ok (answer, e) → ¬LoopCrossed e.log → e.loops = [0]) ∧
    (∀ b arguments words e e', b = .breakLoop ∨ b = .continueLoop →
      Step.values arguments (Runner.noteSought b e) = (words, e') →
      e'.inLoop = e.inLoop ∧
        ∃ later, e'.log = later ++ ⟨.loopSought e.inLoop, e.blocks⟩ :: e.log) ∧
    ∀ found blocks earlier later,
      (run.state start).log = later ++ ⟨.loopSought found, blocks⟩ :: earlier →
      ¬LoopCrossed earlier → (loopLevels earlier).headD 0 = 0 → found = false := by
  intro start run
  obtain ⟨balanced, free⟩ := Engine.balancedStart options platform environment
  have ready : loopBalance.Ready .going .start start :=
    ⟨⟨balanced, fun _ => Engine.tidyStart ..⟩, fun _ => free⟩
  have ends := Runner.sourceEnds (loopBalance.runs fuel) path source ready
  refine ⟨fun answer e ended straight => ?_, fun _ _ _ _ _ needs read =>
    Runner.soughtSeen needs read, fun found blocks earlier later log straight outside => ?_⟩
  · have ready := (ends.ok ended).1
    obtain crossed | within := ready.holds.counts
    · exact absurd crossed straight
    · rw [Within, ready.free trivial] at within
      exact AtMost.zero within
  · have sought : SoughtWithin (run.state start).log :=
      ends.state (fun _ _ answered => answered.1.holds.sought) fun _ stopped => stopped.stopped
    rw [log] at sought
    cases found with
    | false => rfl
    | true =>
      have inside := sought.split rfl straight
      rw [outside] at inside
      cases inside

theorem functionOutsideLoop :
    let source := "function(f)\nbreak()\nendfunction()\nforeach(x a b)\nf()\nendforeach()\n"
    let start := Engine.start { mode := .script } {} []
    let run := (Runner.ofFuel 9).runSource "a.cmake" source
    let before := start.openLoop
    (∃ e, run start = .ok (.ok 0, e) ∧ ¬LoopCrossed e.log ∧ e.loops = [0]) ∧
    (∃ later, (Runner.noteSought .breakLoop before).log =
      later ++ ⟨.loopSought true, {}⟩ :: before.log) ∧
    ∃ found blocks earlier later,
      (run.state start).log = later ++ ⟨.loopSought found, blocks⟩ :: earlier ∧
      ¬LoopCrossed earlier ∧ loopLevels earlier = [0, 1] ∧ found = false := by
  intro source start run before
  obtain ⟨ends, seen, outside⟩ := loopsEndUnlessCrossed { mode := .script } {} [] "a.cmake" source 9
  have checked :
      let e := run.state start
      let sought := e.log.span (·.event != .loopSought false)
      ((run start).toOption.map (·.1.toOption) = some (some 0) ∧ ¬LoopCrossed e.log) ∧
      e.log = sought.1 ++ ⟨.loopSought false, ⟨[], [0, 0]⟩⟩ :: sought.2.tail ∧
      ¬LoopCrossed sought.2.tail ∧ loopLevels sought.2.tail = [0, 1] := by
    decide +kernel
  obtain ⟨⟨answered, straight⟩, log, before, levels⟩ := checked
  refine ⟨?_, (seen .breakLoop [] _ _ _ (.inl rfl) rfl).2, false, _, _, _, log, before, levels,
    outside _ _ _ _ log before (by rw [levels]; rfl)⟩
  have ended := Run.answers answered
  exact ⟨_, ended, straight, ends _ _ ended straight⟩

example :
    let e := ((Runner.ofFuel 9).runSource "a.cmake"
      "foreach(x a)\nblock()\nendforeach()\nendblock()\n").state (Engine.start {} {} [])
    LoopCrossed e.log ∧ e.loops = [1] ∧ e.written = #[] := by
  decide +kernel

end CMakeScript
