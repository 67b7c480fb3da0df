import CMakeScript.Proofs.Propagation
import CMakeScript.Proofs.Discipline
/-! The policies that the commands of a function or macro start from. Where the definition was closed
with an entry of a policy in sight, that entry holds, whatever was set since and wherever the call is
made. A policy without one is as it is at the place of the call. -/
namespace CMakeScript

theorem PolicyFrames.settingPush {a : PolicyFrames} (falling : a.Falling) {top : Nat}
    (known : top ≤ a.size) (f : PolicyFrame) (p : Policy) :
    PolicyFrames.setting? (a.push top f).1 (a.size + 1) p =
      (f.settings.get? p).or (a.setting? top p) := by
  have pushed := Arena.fallingPush falling known f
  have older : Arena.ancestors (a.push top f).1 top = a.ancestors top :=
    Arena.ancestorsAgree falling pushed fun i below => Arena.nodePushOld (by omega)
  unfold setting?
  rw [Arena.ancestorsOfNode pushed (Arena.nodePushNew ..), older, List.findSome?_cons]
  dsimp only
  cases f.settings.get? p with
  | some status => rfl
  | none => rw [Option.none_or]

theorem Scopes.policyCall {s t : Scopes} {origin id : Nat} {o : ScopeOpening} {parent : Snapshot}
    (falling : s.policies.Falling) (found : s.snapshots.get? origin = some parent)
    (known : parent.policies ≤ s.policies.size) (created : o.create s origin = .ok (t, id))
    (settings : PolicySettings) (weak : Bool) :
    ∃ t', t.pushPolicy id settings weak = .ok t' ∧
      ∀ p, t'.policy id p = (settings.get? p).getD (s.policy origin p) := by
  rw [ScopeOpening.createNested, createNestedOf found] at created
  cases created
  have there := s.innerScopesNew origin parent o.kind o.keeps o.file? o.ownFrame
  refine ⟨_, by simp only [pushPolicy, snapshot, there, bind, Except.bind]; rfl,
    fun p => ?_⟩
  simp only [policy, found, modifySnapshot, Arena.getModify, if_true, there, Option.map_some,
    Option.bind_some, Arena.pushName]
  refine (congrArg (·.getD .warn) (PolicyFrames.settingPush falling known ⟨settings, weak⟩ p)).trans ?_
  dsimp only
  cases settings.get? p with
  | some status => rfl
  | none => rw [Option.none_or, Option.getD_none]

namespace Engine

theorem Grounded.policyCall {e : Engine} (grounded : e.Grounded) (placed : e.current < e.runs.size)
    (o : ScopeOpening) (settings : PolicySettings) (p : Policy) :
    ((e.openScope o.create).2.pushPolicy true settings).policy p =
      (settings.get? p).getD (e.policy p) := by
  obtain ⟨parent, d, found, -⟩ := Scopes.isCurrentIff.mp
    (Scopes.isCurrentTree.mpr (grounded.here placed))
  obtain ⟨t, id, created, -⟩ := Scopes.createCurrent grounded.scopes.sound
    (Scopes.isCurrentTree.mpr (grounded.here placed)) o
  obtain ⟨_, _, -, there⟩ := grounded.here placed
  have known := (grounded.scopes.openStand (.current there) (Scopes.standOf found)).2.2
  obtain ⟨t', pushed, policies⟩ :=
    Scopes.policyCall grounded.scopes.policiesFalling found known created settings true
  have opened : (e.openScope o.create).2 =
      (({ e with scopes := t } : Engine).setSnapshot id).logged (.scopeOpened id) := by
    unfold Engine.openScope
    rw [created]
  have here := snapshotMoved placed t id (.scopeOpened id)
  rw [opened, pushPolicy, here, show ((({ e with scopes := t } : Engine).setSnapshot id).logged
    (.scopeOpened id)).scopes = t from rfl, pushed]
  exact (congrArg (t'.policy · p) here).trans (policies p)

end Engine

/-- The statuses in a body, from those where its definition was closed and those around the call. An
entry that could be seen where it was closed counts, also one that warns; a policy without an entry
there has the status that it has around the call. -/
def Definition.StartsFrom (d : Definition) (closing outside inside : List (Policy × PolicyStatus)) :
    Prop :=
  ∀ p, match d.policies.get? p with
    | some status => closing.lookup p = some status ∧ inside.lookup p = some status
    | none => closing.lookup p = some .warn ∧ inside.lookup p = outside.lookup p

def DefinedBefore (log : List LogEntry) (d : Definition) : Prop :=
  ∃ closing blocks, ⟨.defined d closing, blocks⟩ ∈ log

def Event.Recalls (event : Event) (earlier : List LogEntry) : Prop :=
  match event with
  | defined d closing => ∀ p, closing.lookup p = some ((d.policies.get? p).getD .warn)
  | called d outside inside => DefinedBefore earlier d ∧
      ∀ p, inside.lookup p = (d.policies.get? p).or (outside.lookup p)
  | _ => True

def Recalled : List LogEntry → Prop
  | [] => True
  | entry :: earlier => entry.event.Recalls earlier ∧ Recalled earlier

namespace Recalled

variable {log later earlier entries : List LogEntry}

theorem split {entry : LogEntry} (recalled : Recalled (later ++ entry :: earlier)) :
    entry.event.Recalls earlier ∧ Recalled earlier := by
  induction later with
  | nil => exact recalled
  | cons _ _ ih => exact ih recalled.2

theorem closing (recalled : Recalled log) {d : Definition}
    {closing : List (Policy × PolicyStatus)} {blocks : BlockStack Block}
    (member : ⟨.defined d closing, blocks⟩ ∈ log) (p : Policy) :
    closing.lookup p = some ((d.policies.get? p).getD .warn) := by
  obtain ⟨later, earlier, rfl⟩ := List.append_of_mem member
  exact recalled.split.1 p

theorem startsFrom {d : Definition} {outside inside : List (Policy × PolicyStatus)}
    {blocks : BlockStack Block}
    (recalled : Recalled (later ++ ⟨.called d outside inside, blocks⟩ :: earlier)) :
    ∃ closing blocks', ⟨.defined d closing, blocks'⟩ ∈ earlier ∧
      d.StartsFrom closing outside inside := by
  obtain ⟨⟨⟨closing, blocks', member⟩, starts⟩, before⟩ := recalled.split
  refine ⟨closing, blocks', member, fun p => ?_⟩
  have closed := before.closing member p
  have started := starts p
  cases found : d.policies.get? p with
  | some status =>
    rw [found] at closed started
    exact ⟨closed, started⟩
  | none =>
    rw [found] at closed started
    exact ⟨closed, started⟩

end Recalled

def Event.tellsCalls : Event → Bool
  | defined _ _ | called _ _ _ => true
  | _ => false

theorem Event.quietCalls {event : Event} (quiet : event.isQuiet = true) :
    event.tellsCalls = false := by
  cases event <;> first | rfl | cases quiet

theorem Event.recallsOther {event : Event} (other : event.tellsCalls = false)
    (earlier : List LogEntry) : event.Recalls earlier := by
  cases event with
  | defined | called => cases other
  | _ => trivial

theorem Recalled.others {log entries : List LogEntry} (recalled : Recalled log)
    (others : ∀ entry ∈ entries, entry.event.tellsCalls = false) : Recalled (entries ++ log) := by
  induction entries with
  | nil => exact recalled
  | cons entry entries ih =>
    exact ⟨Event.recallsOther (others entry (List.mem_cons_self ..)) _,
      ih fun entry member => others entry (List.mem_cons_of_mem _ member)⟩

structure CallPlace where
  handles : List (Nat × Bool)
  current : Nat

namespace Engine

structure Remembers (g : CallPlace) (e : Engine) : Prop where
  kept : e.Kept (e.blocks.handles ++ g.handles) []
  current : e.current = g.current
  placed : g.current < e.runs.size
  known : ∀ {d}, e.registry.Knows d → DefinedBefore e.log d
  recalled : Recalled e.log

namespace Remembers

variable {g : CallPlace} {handles : List (Nat × Bool)} {e e' : Engine}

theorem moved (remembers : e.Remembers g) {g' : CallPlace}
    (kept : e'.Kept (e'.blocks.handles ++ g'.handles) []) (current : e'.current = g'.current)
    (placed : g'.current < e'.runs.size) (registry : e'.registry = e.registry)
    (entries : List LogEntry) (others : ∀ entry ∈ entries, entry.event.tellsCalls = false)
    (log : e'.log = entries ++ e.log) : e'.Remembers g' where
  kept := kept
  current := current
  placed := placed
  known {d} knows := by
    rw [registry] at knows
    obtain ⟨closing, blocks, member⟩ := remembers.known knows
    exact ⟨closing, blocks, log ▸ List.mem_append_right _ member⟩
  recalled := log ▸ remembers.recalled.others others

theorem quiet (remembers : e.Remembers g) (quiet : e.Quiet e')
    (kept : e'.Kept (e'.blocks.handles ++ handles) []) : e'.Remembers { g with handles } := by
  obtain ⟨entries, ofKind, log⟩ := quiet.log
  refine remembers.moved kept (quiet.current.trans remembers.current)
    (quiet.processed ▸ remembers.placed) quiet.registry entries (fun entry member => ?_) log
  exact Event.quietCalls (ofKind entry member)

theorem other (remembers : e.Remembers g) (views : e.SameViews e') (blocks : e'.blocks = e.blocks)
    (current : e'.current = e.current) (processed : e'.runs.size = e.runs.size)
    (registry : e'.registry = e.registry) (log : e'.log = e.log) : e'.Remembers g := by
  refine remembers.moved ?_ (current.trans remembers.current) (processed ▸ remembers.placed)
    registry [] (List.forall_mem_nil _) log
  rw [blocks]
  exact remembers.kept.same views

theorem edits (remembers : e.Remembers g) (edits : Edits e e') : e'.Remembers g := by
  refine remembers.quiet (.edits edits) ?_
  rw [(SameOpen.edits edits).blocks]
  exact remembers.kept.edits edits

theorem same (remembers : e.Remembers g) (views : e.SameViews e') (quiet : e.Quiet e')
    (blocks : e'.blocks = e.blocks) : e'.Remembers g := by
  refine remembers.quiet quiet ?_
  rw [blocks]
  exact remembers.kept.same views

theorem noted (remembers : e.Remembers g) {event : Event} (other : event.tellsCalls = false) :
    (e.logged event).Remembers g :=
  remembers.moved (remembers.kept.same (.other rfl rfl rfl id)) remembers.current remembers.placed
    rfl [⟨event, e.blocks⟩] (by simpa using other) rfl

theorem offered (remembers : e.Remembers g) {blocks : BlockStack Block} (c : Command)
    (kept : e.Kept (blocks.handles ++ handles) []) :
    (({ e with blocks } : Engine).logged (.offered c)).Remembers { g with handles } :=
  remembers.moved (kept.same (.other rfl rfl rfl id)) remembers.current remembers.placed rfl
    [⟨.offered c, blocks⟩] (by simp [Event.tellsCalls]) rfl

theorem openScope (remembers : e.Remembers g) (o : ScopeOpening) :
    (e.openScope o.create).2.Remembers
      { g with handles := held (e.openScope o.create).1 o.ownFrame ++ g.handles } := by
  refine remembers.quiet (.turns (.openScope e o)) ?_
  rw [(SameOpen.openScope e o.create).blocks]
  exact (remembers.kept.openScope o).reordered (List.perm_append_comm_assoc ..)

theorem closeScope {handle : ScopeHandle} {own : Bool}
    (remembers : e.Remembers { g with handles := held handle own ++ g.handles }) (report : Bool) :
    (e.closeScope handle report).Remembers g := by
  refine remembers.quiet (.turns (.closeScope e handle report)) ?_
  rw [(SameOpen.closeScope e handle report).blocks]
  exact (remembers.kept.reordered (List.perm_append_comm_assoc ..)).closeScope
    (fun _ => .none e) report

theorem openBarrier (remembers : e.Remembers g) : e.openBarrier.Remembers g :=
  remembers.quiet (.turns (.openBarrier e)) remembers.kept.openBarrier

theorem closeBarrier {handle : ScopeHandle} {own : Bool}
    (remembers : e.Remembers { g with handles := held handle own ++ g.handles }) (tidy : e.Tidy)
    (report reportScope : Bool) :
    ((e.closeBarrier report).closeScope handle reportScope).Remembers g := by
  have free := (tidy.closeBarrier report).2
  have taken : (e.closeBarrier report).Remembers
      { g with handles := held handle own ++ g.handles } := by
    refine remembers.quiet (.turns (.closeBarrier e report)) ?_
    rw [BlockStack.handlesEmpty free]
    exact remembers.kept.closeBarrier tidy (fun some => absurd rfl some) report
  exact taken.closeScope reportScope

theorem closeBlockScopes {policies bindings : Option ScopeHandle} {propagate : List String}
    (remembers : e.Remembers
      { g with handles := (Block.scope policies bindings propagate).handles ++ g.handles }) :
    (e.closeBlockScopes policies bindings propagate).Remembers g := by
  refine remembers.quiet (.turns (.closeBlockScopes ..)) ?_
  rw [(SameOpen.closeBlockScopes e policies bindings propagate).blocks]
  exact (remembers.kept.reordered (List.perm_append_comm_assoc ..)).closeBlockScopes (.none e)

theorem opening (remembers : e.Remembers g) (opening : Opening e e') : e'.Remembers g :=
  remembers.quiet (.turns (.opening opening)) (remembers.kept.opening opening)

theorem subdirectory {id : Nat} (remembers : e.Remembers g) (created : e.Subdirectory id e') :
    e'.Remembers g := by
  refine remembers.quiet (.subdirectory created) ?_
  rw [(SameOpen.subdirectory created).blocks]
  exact remembers.kept.subdirectory created

theorem enterDirectory {id : Nat} (remembers : e.Remembers g) (created : e.Subdirectory id e') :
    (Runner.enterDirectory id e').Remembers { g with current := e'.runs.size } := by
  have kept := remembers.kept.enterDirectory created
  rw [← (SameOpen.subdirectory created).blocks] at kept
  refine (remembers.subdirectory created).moved kept rfl ?_ rfl [] (List.forall_mem_nil _) rfl
  simp [Runner.enterDirectory]

theorem leaveDirectory {current : Nat} (remembers : e.Remembers { g with current })
    {outer : Engine} (there : outer.current = g.current) (earlier : g.current < current) :
    (Runner.leaveDirectory outer e).Remembers g :=
  remembers.moved (remembers.kept.leaveDirectory outer) there
    (Nat.lt_trans earlier remembers.placed) rfl [] (List.forall_mem_nil _) rfl

theorem define (remembers : e.Remembers g) {d : Definition} {registry : Registry}
    (recorded : d.policies = e.recordPolicies) (defined : e.registry.define? d = some registry) :
    (({ e with registry } : Engine).logged (.defined d e.statuses)).Remembers g := by
  constructor
  case kept => exact remembers.kept.same (.other rfl rfl rfl id)
  case current => exact remembers.current
  case placed => exact remembers.placed
  case known =>
    rintro d' ⟨lower, found⟩
    have before {lower : String} (known : e.registry.findLower? lower = some (.defined d')) :
        DefinedBefore (⟨.defined d e.statuses, e.blocks⟩ :: e.log) d' := by
      obtain ⟨closing, blocks, member⟩ := remembers.known ⟨lower, known⟩
      exact ⟨closing, blocks, List.mem_cons_of_mem _ member⟩
    obtain new | known | ⟨_, -, known⟩ := Registry.findDefined defined found
    · cases new
      exact ⟨_, _, List.mem_cons_self ..⟩
    · exact before known
    · exact before known
  case recalled =>
    refine ⟨fun p => ?_, remembers.recalled⟩
    rw [lookupStatuses, policyRecorded, recorded]

theorem call (remembers : e.Remembers g) (live : e.fatal = false) {d : Definition}
    (knows : e.registry.Knows d) (quiet : e.Quiet e') (o : ScopeOpening)
    (starts : e'.statuses = ((e.openScope o.create).2.pushPolicy true d.policies).statuses)
    {g' : CallPlace} (inside : e'.Remembers g') :
    (e'.logged (.called d e.statuses e'.statuses)).Remembers g' := by
  obtain stops | housed := remembers.kept
  · rw [live] at stops
    cases stops
  have placed : e.current < e.runs.size := remembers.current ▸ remembers.placed
  constructor
  case kept => exact inside.kept.same (.other rfl rfl rfl id)
  case current => exact inside.current
  case placed => exact inside.placed
  case known =>
    intro d' known
    obtain ⟨closing, blocks, member⟩ := inside.known known
    exact ⟨closing, blocks, List.mem_cons_of_mem _ member⟩
  case recalled =>
    refine ⟨⟨inside.known ?_, fun p => ?_⟩, inside.recalled⟩
    · rw [quiet.registry]
      exact knows
    · rw [starts, lookupStatuses, housed.grounded.policyCall placed, lookupStatuses]
      cases d.policies.get? p <;> rfl

end Remembers
end Engine
open Engine

def definitionMemory : Discipline CallPlace where
  holds := Remembers
  stopped e := Recalled e.log
  strict := True
  nests := True
  stop remembers := remembers.recalled
  edit remembers moves := remembers.edits moves.edits
  counts remembers counts :=
    remembers.same (.counts counts) (.turns (.counts counts)) (SameOpen.counts counts).blocks
  failStops {g e} remembers :=
    remembers.same (.other rfl rfl rfl fun _ => rfl) (.setFatal e) rfl
  stopNoted {g e} remembers :=
    remembers.same (.noteStop e) (.noteStop e) (SameOpen.noteStop e).blocks
  noted event note remembers := by
    refine remembers.noted ?_
    cases event <;> first | rfl | cases note
  exitCode code remembers := remembers.other (.other rfl rfl rfl id) rfl rfl rfl rfl rfl
  offered c remembers := remembers.offered c remembers.kept
  recorded {g e top below} depth c remembers found := by
    refine remembers.offered c ?_
    rw [BlockStack.handlesRecorded found]
    exact remembers.kept
  closed {g e top below} c remembers found ordinary := by
    have kept := remembers.kept
    rw [BlockStack.handlesTop found, Block.handlesPlain ordinary] at kept
    exact remembers.offered c kept
  scopeClosed {g e top below policies bindings propagate} c remembers found empty scope := by
    obtain rfl := empty trivial
    have kept := remembers.kept
    rw [BlockStack.handlesTop found, scope, BlockStack.handlesEmpty rfl, List.append_nil] at kept
    exact ⟨_, remembers.offered c kept, fun ended => (ended.noted rfl).closeBlockScopes⟩
  command {g e} c remembers :=
    ⟨g, remembers.other (.other rfl rfl rfl id) rfl rfl rfl rfl rfl,
      fun ended => ended.other (.other rfl rfl rfl id) rfl rfl rfl rfl rfl⟩
  dispatched c remembers _ := remembers.noted rfl
  returned target remembers := remembers.noted rfl
  opening remembers _ opening := remembers.opening opening
  definition remembers recorded defined := remembers.define recorded defined
  called o remembers live knows quiet starts inside :=
    remembers.call live knows quiet o starts inside
  frame {g e} frame remembers :=
    ⟨g, id, remembers.other (.other rfl rfl rfl id) rfl rfl rfl rfl rfl,
      fun ended => ended.other (.other rfl rfl rfl id) rfl rfl rfl rfl rfl⟩
  scope o remembers _ := ⟨_, remembers.openScope o, fun report ended _ => ended.closeScope report⟩
  scopeBarrier o remembers _ := ⟨_, fun _ => trivial, (remembers.openScope o).openBarrier,
    fun report reportScope ended tidy => ended.closeBarrier (tidy trivial) report reportScope⟩
  barrierScope o remembers _ := ⟨_, remembers.openBarrier.openScope o,
    fun report reportScope ended tidy => ended.closeBarrier (tidy trivial) report reportScope⟩
  queue {g e} change _ hosted remembers :=
    remembers.same (.changeQueue e e.current change) (.changeQueue ..)
      (SameOpen.hosted e e.current hosted).blocks
  deferred {g e top below} o depth c remembers found := by
    have begun : ((e.openScope o.create).2.logged .deferredBegun).Remembers _ :=
      (remembers.openScope o).noted rfl
    have kept := begun.kept
    rw [show ((e.openScope o.create).2.logged .deferredBegun).blocks = e.blocks from
      (SameOpen.openScope e o.create).blocks, ← BlockStack.handlesRecorded found depth c] at kept
    have taken : Remembers _ (Engine.logged _ .deferredEnded) := (begun.offered c kept).noted rfl
    exact ⟨begun.recalled, taken.closeScope true⟩
  reach _ _ := trivial
  created _ _ remembers created := remembers.subdirectory created
  refusal {g e} error _ remembers :=
    remembers.same (.internalError e error) (.internalError e error)
      (SameOpen.internalError e error).blocks
  directory {g e₀ e id} _ _ remembers _ created := by
    have there := remembers.subdirectory created
    exact ⟨_, trivial, remembers.enterDirectory created, fun ended _ =>
      ended.leaveDirectory there.current there.placed⟩

theorem Engine.remembersStart (options : Options) (platform : Platform)
    (environment : List (String × String)) :
    (start options platform environment).Remembers ⟨[], 0⟩ := by
  obtain ⟨environment', cache, errorOccurred, same⟩ := startCases options platform environment
  rw [same]
  refine ⟨.inr ⟨.first rfl rfl, Scopes.rootedInitial, nofun, .nil, nofun⟩, rfl, Nat.one_pos, ?_,
    trivial⟩
  rintro d ⟨lower, found⟩
  simp [Registry.findLower?] at found

theorem Registry.findAdded {r r' : Registry} {d : Definition} (defined : r.define? d = some r') :
    r'.find? d.name = some (.defined d) := by
  rw [find?, defineFinds defined, if_pos rfl]

namespace Runner

theorem defineRecords {kind : DefinitionKind} {name : String} {parameters : List String}
    {b : OpenBlock Block} {e e' : Engine}
    (defined : defineCommand kind name parameters b e = (true, e')) :
    ∃ d : Definition, (d.kind = kind ∧ d.name = name ∧ d.body = b.body) ∧
      (∀ p, d.policies.get? p = e.setting? p) ∧
      e'.registry.find? name = some (.defined d) ∧
      e'.log = ⟨.defined d e.statuses, e.blocks⟩ :: e.log := by
  unfold defineCommand at defined
  dsimp only [bind, StateT.bind, get, getThe, MonadStateOf.get, StateT.get, pure] at defined
  generalize added : e.registry.define? _ = registry? at defined
  cases registry? with
  | none => cases defined
  | some registry =>
    cases defined
    have there := Registry.findAdded added
    let d : Definition :=
      { kind, name, parameters, body := b.body, policies := e.recordPolicies,
        file := b.opened.file, line := b.opened.lineNumber }
    exact ⟨d, ⟨rfl, rfl, rfl⟩, recordedSetting e, there, rfl⟩

theorem calledTells (d : Definition) (e inner : Engine) :
    (inner.logged (.called d e.statuses inner.statuses)).log.head?.map (·.event) =
      some (.called d e.statuses (inner.logged (.called d e.statuses inner.statuses)).statuses) := by
  have same : (inner.logged (.called d e.statuses inner.statuses)).statuses = inner.statuses :=
    statusesOf rfl rfl
  rw [same]
  rfl

end Runner

/-- The commands of a function or macro start from the entries that could be seen where its
definition was closed, explicit warnings among them, whatever is set until it is called and wherever
it is called. A policy without an entry there has the status that it has where the call is made. -/
theorem callsRecallPolicies (options : Options) (platform : Platform)
    (environment : List (String × String)) (requests : List Request) (fuel : Nat) :
    let e := ((Runner.ofFuel fuel).serveAll requests).state (Engine.start options platform environment)
    (∀ (e₁ : Engine) p, e₁.statuses.lookup p = some (e₁.policy p) ∧
      e₁.policy p = (e₁.setting? p).getD .warn) ∧
    (∀ kind name parameters b e₁ e₂, Runner.defineCommand kind name parameters b e₁ = (true, e₂) →
      ∃ d : Definition, (d.kind = kind ∧ d.name = name ∧ d.body = b.body) ∧
        (∀ p, d.policies.get? p = e₁.setting? p) ∧
        e₂.registry.find? name = some (.defined d) ∧
        e₂.log = ⟨.defined d e₁.statuses, e₁.blocks⟩ :: e₁.log) ∧
    (∀ d values e₁, (Runner.enterFunction d values e₁).2.log.head?.map (·.event) =
        some (.called d e₁.statuses (Runner.enterFunction d values e₁).2.statuses) ∧
      (Runner.enterMacro d e₁).2.log.head?.map (·.event) =
        some (.called d e₁.statuses (Runner.enterMacro d e₁).2.statuses)) ∧
    ∀ d outside inside blocks earlier later,
      e.log = later ++ ⟨.called d outside inside, blocks⟩ :: earlier →
      ∃ closing blocks', ⟨.defined d closing, blocks'⟩ ∈ earlier ∧
        d.StartsFrom closing outside inside := by
  intro e
  have ready : definitionMemory.Ready ⟨[], 0⟩ (Engine.start options platform environment) :=
    ⟨⟨Engine.remembersStart options platform environment, fun _ => Engine.tidyStart ..⟩,
      fun _ => Engine.freeStart ..⟩
  have ends := Runner.serveAllEnds (definitionMemory.runs fuel) requests ready
  have recalled : Recalled e.log := ends.state (fun _ _ ready => ready.holds.recalled)
    fun _ stopped => stopped.stopped
  refine ⟨fun e₁ p => ⟨e₁.lookupStatuses p, ?_⟩, fun _ _ _ _ _ _ => Runner.defineRecords,
    fun d values e₁ => ⟨Runner.calledTells .., Runner.calledTells ..⟩,
    fun d outside inside blocks earlier later log => ?_⟩
  · rw [policyRecorded, recordedSetting]
  · rw [log] at recalled
    exact recalled.startsFrom

theorem settingOutlivesPop :
    let r := Runner.ofFuel 9
    let source := "cmake_policy(PUSH)\ncmake_policy(VERSION 3.0)\ncmake_policy(SET CMP0054 OLD)\nfunction(f)\nendfunction()\ncmake_policy(POP)\ncmake_policy(SET CMP0054 NEW)\ncmake_policy(SET CMP0057 NEW)\nf()\n"
    let start := Engine.start { mode := .script } {} []
    let e := (r.serveAll [.source "a.cmake" source]).state start
    let b : OpenBlock Block :=
      { block := .definition .function "f" [], opens := "function", closes := "endfunction",
        opened := {} }
    let recorded (p : Policy) : PolicyStatus :=
      if p = .cmp0054 then .old else start.statusFor ⟨3, 0, 0⟩ p
    let d : Definition :=
      ⟨.function, "f", [], [], ⟨(Policy.all.map fun p => (p, recorded p)).reverse⟩, "a.cmake", 4⟩
    let outside := Policy.all.map fun p =>
      (p, if p = .cmp0054 ∨ p = .cmp0057 then PolicyStatus.new else .warn)
    let inside := Policy.all.map fun p => (p, recorded p)
    (∃ e₁ d₁, Runner.defineCommand .function "f" [] b start = (true, e₁) ∧
      e₁.registry.find? "f" = some (.defined d₁)) ∧
    ∃ closing blocks blocks' earlier later,
      e.log = later ++ ⟨.called d outside inside, blocks⟩ :: earlier ∧
      ⟨.defined d closing, blocks'⟩ ∈ earlier ∧
      (closing.lookup .cmp0054 = some .old ∧ inside.lookup .cmp0054 = some .old) ∧
      closing.lookup .cmp0057 = some .warn ∧ inside.lookup .cmp0057 = some .warn := by
  intro r source start e b recorded d outside inside
  obtain ⟨-, defines, -, calls⟩ :=
    callsRecallPolicies { mode := .script } {} [] [.source "a.cmake" source] 9
  constructor
  · have answers : (Runner.defineCommand .function "f" [] b start).1 = true := by decide +kernel
    obtain ⟨d₁, -, -, found, -⟩ := defines .function "f" [] b start _ (Prod.ext answers rfl)
    exact ⟨_, d₁, Prod.ext answers rfl, found⟩
  · let parts := e.log.span (·.event != .called d outside inside)
    have log : e.log = parts.1 ++ ⟨.called d outside inside, ⟨[], [0, 0]⟩⟩ :: parts.2.tail := by
      decide +kernel
    obtain ⟨closing, blocks', member, starts⟩ := calls _ _ _ _ _ _ log
    have entries : d.policies.get? .cmp0054 = some .old ∧ d.policies.get? .cmp0057 = some .warn := by
      decide +kernel
    have old := starts .cmp0054
    have warns := starts .cmp0057
    rw [entries.1] at old
    rw [entries.2] at warns
    exact ⟨closing, _, blocks', _, _, log, member, old, warns⟩

/-- A policy without an entry where a function was defined is not left unset within its call. -/
theorem unsetFollowsCaller :
    let source := "function(f)\ncmake_policy(GET CMP0054 x)\nmessage(STATUS \"[$\x7bx\x7d]\")\nendfunction()\ncmake_policy(SET CMP0054 NEW)\nf()\n"
    let e := ((Runner.ofFuel 9).serveAll [.source "a.cmake" source]).state
      (Engine.start { mode := .script } {} [])
    e.written = #[{ stream := .output, text := "-- [NEW]\n" }] ∧
    ∃ d closing outside inside blocks blocks', ⟨.defined d closing, blocks⟩ ∈ e.log ∧
      ⟨.called d outside inside, blocks'⟩ ∈ e.log ∧
      closing.lookup .cmp0054 = some .warn ∧ inside.lookup .cmp0054 = some .new := by
  intro source e
  have checked : e.written = #[{ stream := .output, text := "-- [NEW]\n" }] ∧
      ∃ first ∈ e.log, ∃ second ∈ e.log, (match first.event, second.event with
        | .defined d closing, .called d' _ inside => decide (d = d' ∧
            closing.lookup .cmp0054 = some .warn ∧ inside.lookup .cmp0054 = some .new)
        | _, _ => false) = true := by
    decide +kernel
  obtain ⟨written, ⟨event, blocks⟩, first, ⟨event', blocks'⟩, second, found⟩ := checked
  refine ⟨written, ?_⟩
  dsimp only at found
  split at found
  case h_1 d closing d' outside inside =>
    obtain ⟨rfl, unset, set⟩ := of_decide_eq_true found
    exact ⟨d, closing, outside, inside, blocks, blocks', first, second, unset, set⟩
  case h_2 => cases found

end CMakeScript
