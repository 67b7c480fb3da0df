import CMakeScript.Proofs.ScopeOrder
/-! Runs of scripts, as far as the order of their scopes goes: all is in order until the commands of
a scope end inside of another one. -/
namespace CMakeScript

def inside (ids : List Nat) (outer : Option (List Nat)) : Option (List Nat) := outer.map (ids ++ ·)

theorem insideNil (outer : Option (List Nat)) : inside [] outer = outer := by
  cases outer <;> rfl

theorem insideAppend (inner ids : List Nat) (outer : Option (List Nat)) :
    inside (inner ++ ids) outer = inside inner (inside ids outer) := by
  cases outer <;> simp [inside]

theorem Block.scopesPlain {b : Block} (ordinary : b.isScope = false) : b.scopes = [] := by
  cases b with
  | scope => cases ordinary
  | _ => rfl

namespace BlockStack

variable {s : BlockStack Block} {top : OpenBlock Block} {below : List (OpenBlock Block)}

theorem scopesEmpty (empty : s.blocks = []) : s.scopes = [] := by
  rw [scopes, empty, List.flatMap_nil]

theorem scopesPlain (plain : ∀ b ∈ s.blocks, b.block.isScope = false) : s.scopes = [] :=
  List.flatMap_eq_nil_iff.mpr fun b member => Block.scopesPlain (plain b member)

theorem scopesTop (found : s.blocks = top :: below) :
    s.scopes = top.block.scopes ++ ({ s with blocks := below } : BlockStack Block).scopes := by
  rw [scopes, found, List.flatMap_cons, scopes]

theorem scopesRecorded (found : s.blocks = top :: below) (depth : Nat) (c : Command) :
    ({ s with blocks := { top with depth, recorded := c :: top.recorded } :: below } :
      BlockStack Block).scopes = s.scopes := by
  rw [scopesTop found]
  rfl

end BlockStack
namespace Engine

def Orderly (g : Option (List Nat)) (e : Engine) : Prop :=
  (∃ ids, g = some ids ∧ e.Fine ids) ∨ e.Broken

namespace Orderly

variable {e e' : Engine} {g : Option (List Nat)}

theorem edits (orderly : e.Orderly g) (edits : Edits e e') : e'.Orderly g := by
  obtain ⟨ids, known, fine⟩ | broken := orderly
  · exact .inl ⟨ids, known, fine.edits edits⟩
  · exact .inr (broken.sameOpen (.edits edits))

theorem counts (orderly : e.Orderly g) (counts : e.Counts e') : e'.Orderly g := by
  obtain ⟨ids, known, fine⟩ | broken := orderly
  · exact .inl ⟨ids, known, fine.counts counts⟩
  · exact .inr (broken.sameOpen (.counts counts))

theorem changeQueue (orderly : e.Orderly g) (i : Nat) {change : QueueChange}
    (hosted : change.isHosted = true) : (e.changeQueue i change).Orderly g := by
  obtain ⟨ids, known, fine⟩ | broken := orderly
  · exact .inl ⟨ids, known, fine.changeQueue i change⟩
  · exact .inr (broken.sameOpen (.hosted e i hosted))

theorem noteStop (orderly : e.Orderly g) : e.noteStop.Orderly g := by
  obtain ⟨ids, known, fine⟩ | broken := orderly
  · exact .inl ⟨ids, known, fine.noteStop⟩
  · exact .inr (broken.sameOpen (.noteStop e))

theorem other (orderly : e.Orderly g) (log : e'.log = e.log) (scopes : e'.scopes = e.scopes)
    (snapshot : e'.snapshot = e.snapshot) (written : e'.written = e.written)
    (blocks : e'.blocks = e.blocks) : e'.Orderly g := by
  have fails (fails : e'.Fails ↔ e.Fails) : e'.Orderly g := by
    obtain ⟨ids, known, fine⟩ | broken := orderly
    · refine .inl ⟨ids, known, ?_, ?_, ?_, ?_, ?_⟩
      · rw [log, fine.log]
      · rw [scopes, snapshot]
        exact fine.stands
      · rw [fails]
        exact fine.quiet
      · rw [log]
        exact fine.straight
      · rw [blocks]
        exact fine.held
    · exact .inr ⟨fails.mpr broken.fails, log ▸ broken.crossed⟩
  exact fails (by rw [Fails, written, Fails])

theorem move (orderly : e.Orderly g) {blocks : BlockStack Block} {event : Event}
    (held : (∀ b ∈ e.blocks.blocks, b.block.Held) → ∀ b ∈ blocks.blocks, b.block.Held)
    (still : event.movesScope = false) (going : event ≠ .bodyEnded) :
    (({ e with blocks } : Engine).logged event).Orderly g := by
  obtain ⟨ids, known, fine⟩ | broken := orderly
  · have moved : ({ e with blocks } : Engine).Fine ids :=
      ⟨fine.log, fine.stands, fine.quiet, fine.straight, held fine.held⟩
    exact .inl ⟨ids, known, moved.logged still fun ended => absurd ended going⟩
  · exact .inr (broken.move blocks event)

theorem logged (orderly : e.Orderly g) {event : Event} (still : event.movesScope = false)
    (going : event ≠ .bodyEnded) : (e.logged event).Orderly g := by
  have moved : (({ e with blocks := e.blocks } : Engine).logged event).Orderly g :=
    orderly.move id still going
  exact moved

theorem recorded (orderly : e.Orderly g) {top : OpenBlock Block} {below : List (OpenBlock Block)}
    (depth : Nat) (c : Command) (found : e.blocks.blocks = top :: below) :
    (({ e with blocks := { e.blocks with
      blocks := { top with depth, recorded := c :: top.recorded } :: below } } : Engine).logged
        (.offered c)).Orderly g := by
  refine orderly.move (fun held b member => ?_) rfl nofun
  rw [found] at held
  obtain rfl | inside := List.mem_cons.mp member
  · exact held top (List.mem_cons_self ..)
  · exact held b (List.mem_cons_of_mem _ inside)

theorem openScope (orderly : e.Orderly g) (o : ScopeOpening) :
    (e.openScope o.create).2.Orderly (inside (e.openScope o.create).1.toList g) := by
  obtain ⟨ids, rfl, fine⟩ | broken := orderly
  · obtain ⟨id, handle, fine⟩ := fine.openScope o
    rw [handle]
    exact .inl ⟨id :: ids, rfl, fine⟩
  · exact .inr (broken.sameOpen (.openScope ..))

theorem closeScope {handle : ScopeHandle} (orderly : e.Orderly (inside handle.toList g))
    (report : Bool) : (e.closeScope handle report).Orderly g := by
  obtain ⟨ids, known, fine⟩ | broken := orderly
  · obtain ⟨outer, rfl, rfl⟩ := Option.map_eq_some_iff.mp known
    cases handle with
    | none => exact .inl ⟨outer, rfl, fine⟩
    | some id => exact .inl ⟨outer, rfl, fine.closeScope report⟩
  · exact .inr (broken.sameOpen (.closeScope ..))

theorem closeBlockScopes {policies bindings : Option ScopeHandle} {propagate : List String}
    (orderly : e.Orderly (inside (Block.scope policies bindings propagate).scopes g)) :
    (e.closeBlockScopes policies bindings propagate).Orderly g := by
  have inner : (e.closeBlockScopes none bindings propagate).Orderly
      (inside policies.join.toList g) := by
    rw [Block.scopes, insideAppend] at orderly
    cases bindings with
    | none => rwa [Option.join_none, Option.toList_none, insideNil] at orderly
    | some handle =>
      have raised := orderly.edits (.raiseAll e propagate)
      exact (raised.counts (.closeLoopBarrier _)).closeScope true
  cases policies with
  | none => rwa [Option.join_none, Option.toList_none, insideNil] at inner
  | some handle => exact (inner.edits (.popPolicy _)).closeScope true

theorem abandon {b : Block} (orderly : e.Orderly (inside b.scopes g)) :
    (e.abandon b).Orderly g := by
  cases b with
  | scope => exact closeBlockScopes orderly
  | conditional => rwa [Block.scopesPlain rfl, insideNil] at orderly
  | definition => rwa [Block.scopesPlain rfl, insideNil] at orderly
  | whileLoop =>
    rw [Block.scopesPlain rfl, insideNil] at orderly
    exact orderly.counts (.closeLoop e)
  | foreachLoop =>
    rw [Block.scopesPlain rfl, insideNil] at orderly
    exact orderly.counts (.closeLoop e)

theorem abandonAll {blocks : List (OpenBlock Block)} (report : Bool)
    (orderly : e.Orderly (inside (blocks.flatMap (·.block.scopes)) g)) :
    (e.abandonAll report blocks).Orderly g := by
  induction blocks generalizing report e with
  | nil => rwa [List.flatMap_nil, insideNil] at orderly
  | cons b rest ih =>
    rw [List.flatMap_cons, insideAppend] at orderly
    rw [Engine.abandonAll]
    split
    · exact ih false (orderly.edits (.issue e .fatalError (by decide) _)).abandon
    · exact ih report orderly.abandon

theorem openBarrier (orderly : e.Orderly g) : e.openBarrier.Orderly g :=
  orderly.move id rfl nofun

theorem closeBarrier (orderly : e.Orderly (inside e.blocks.scopes g)) (tidy : e.Tidy)
    (report : Bool) : (e.closeBarrier report).Orderly g := by
  unfold Engine.closeBarrier
  rw [tidy.blocks.popBarrier]
  exact abandonAll report (orderly.move (fun _ => nofun) rfl nofun)

theorem openBlock (orderly : e.Orderly g) {block : Block} (held : block.Held)
    (opens closes : String) : (e.openBlock block opens closes).Orderly g := by
  refine orderly.move (fun earlier b member => ?_) rfl nofun
  obtain rfl | below := List.mem_cons.mp member
  · exact held
  · exact earlier b below

theorem openOrdinary {block : Block} (orderly : e.Orderly (inside e.blocks.scopes g))
    (ordinary : block.isScope = false) (opens closes : String) :
    (e.openBlock block opens closes).Orderly
      (inside (e.openBlock block opens closes).blocks.scopes g) := by
  have same : (e.openBlock block opens closes).blocks.scopes = e.blocks.scopes := by
    rw [BlockStack.scopesTop rfl, Block.scopesPlain ordinary]
    rfl
  rw [same]
  refine orderly.openBlock (fun scope => ?_) opens closes
  rw [ordinary] at scope
  cases scope

theorem opening (orderly : e.Orderly (inside e.blocks.scopes g)) (opening : Opening e e') :
    e'.Orderly (inside e'.blocks.scopes g) := by
  cases opening with
  | plain ordinary => exact orderly.openOrdinary ordinary ..
  | loop repeats =>
    have counted := orderly.counts (.openLoop e)
    rw [← (SameOpen.counts (.openLoop e)).blocks] at counted
    exact counted.openOrdinary (Block.loopOrdinary repeats) ..
  | @scopes kinds propagated some =>
    obtain ⟨ids, known, fine⟩ | broken := orderly
    · obtain ⟨outer, rfl, rfl⟩ := Option.map_eq_some_iff.mp known
      obtain ⟨policies, bindings, e₁, blocks, fine, held, opened⟩ :=
        fine.openScopesBlock propagated some
      have orderly : e₁.Orderly (Option.some
        ((Block.scope policies bindings propagated).scopes ++ (e.blocks.scopes ++ outer))) :=
        .inl ⟨_, rfl, fine⟩
      rw [opened, BlockStack.scopesTop rfl]
      rw [← blocks, ← List.append_assoc] at orderly
      exact orderly.openBlock held _ _
    · obtain ⟨policies, bindings, e₁, same, opened⟩ := Command.openScopesBlock kinds propagated e
      rw [opened]
      exact .inr ((broken.sameOpen same).move _ .blockOpened)

theorem bodyEnded {policies bindings : Option ScopeHandle} {propagate : List String}
    (held : (Block.scope policies bindings propagate).scopes ≠ [])
    (orderly : e.Orderly (inside e.blocks.scopes
      (inside (Block.scope policies bindings propagate).scopes g))) :
    ((e.logged .bodyEnded).closeBlockScopes policies bindings propagate).Orderly
      (inside e.blocks.scopes g) := by
  obtain ⟨ids, known, fine⟩ | broken := orderly
  · cases g with
    | none => cases known
    | some outer =>
      cases known
      by_cases plain : ∀ b ∈ e.blocks.blocks, b.block.isScope = false
      · have empty := BlockStack.scopesPlain plain
        rw [empty] at fine ⊢
        have ended : (e.logged .bodyEnded).Fine _ := fine.logged rfl fun _ => plain
        rw [insideNil]
        exact closeBlockScopes (.inl ⟨_, rfl, ended⟩)
      · obtain ⟨b, open'⟩ := Classical.not_forall.mp plain
        obtain ⟨member, scope⟩ := Classical.not_imp.mp open'
        exact .inr (fine.crossed held member (by simpa using scope))
  · have same : e.SameOpen (e.logged .bodyEnded) := .logged e fun outside => outside
    exact .inr (broken.sameOpen (same.trans (.closeBlockScopes ..)))

end Orderly
end Engine

def Registry.KeepsDirectory (r : Registry) : Prop :=
  ∀ lower, r.findLower? lower ≠ some (.builtin .addSubdirectory)

theorem Registry.keepsDirectoryStart : ({ mode := .script } : Registry).KeepsDirectory := by
  have absent : ∀ entry ∈ Builtin.table .script, entry.2 ≠ .addSubdirectory := by decide
  intro lower found
  exact absent _ (findStart found) rfl

theorem Registry.KeepsDirectory.define {r r' : Registry} {d : Definition}
    (keeps : r.KeepsDirectory) (defined : r.define? d = some r') : r'.KeepsDirectory := by
  intro lower found
  obtain known | ⟨before, -, known⟩ := (findDefined defined found).resolve_left nofun
  · exact keeps _ known
  · exact keeps _ known

theorem Opening.registry {e e' : Engine} (opening : Opening e e') : e'.registry = e.registry := by
  cases opening with
  | plain => rfl
  | loop => exact (Engine.SameOpen.counts (.openLoop e)).registry
  | @scopes kinds propagated =>
    obtain ⟨policies, bindings, e₁, same, opened⟩ := Command.openScopesBlock kinds propagated e
    rw [opened, ← same.registry]
    rfl

namespace Engine

structure InOrder (g : Option (List Nat)) (e : Engine) : Prop where
  keeps : e.registry.KeepsDirectory
  orderly : e.Orderly (inside e.blocks.scopes g)

variable {e e' : Engine} {g : Option (List Nat)}

theorem InOrder.free (inOrder : e.InOrder g) (free : e.Free) : e.Orderly g := by
  have orderly := inOrder.orderly
  rwa [BlockStack.scopesEmpty free, insideNil] at orderly

theorem Orderly.inOrder (orderly : e.Orderly g) (keeps : e.registry.KeepsDirectory)
    (free : e.Free) : e.InOrder g :=
  ⟨keeps, by rwa [BlockStack.scopesEmpty free, insideNil]⟩

theorem InOrder.other (inOrder : e.InOrder g) (keeps : e'.registry.KeepsDirectory)
    (log : e'.log = e.log) (scopes : e'.scopes = e.scopes) (snapshot : e'.snapshot = e.snapshot)
    (written : e'.written = e.written) (blocks : e'.blocks = e.blocks) : e'.InOrder g :=
  ⟨keeps, by rw [blocks]; exact inOrder.orderly.other log scopes snapshot written blocks⟩

theorem InOrder.leave {handle : ScopeHandle} (inOrder : e.InOrder (inside handle.toList g))
    (tidy : e.Tidy) (report reportScope : Bool) :
    ((e.closeBarrier report).closeScope handle reportScope).InOrder g := by
  have same := SameOpen.closeScope (e.closeBarrier report) handle reportScope
  have taken : (e.closeBarrier report).registry = e.registry :=
    (SameOpen.abandonAll report _ _).registry
  have orderly := inOrder.orderly.closeBarrier tidy report
  refine (orderly.closeScope reportScope).inOrder ?_ ((tidy.closeBarrier report).2.sameOpen same)
  rw [same.registry, taken]
  exact inOrder.keeps

end Engine
open Engine

def scopeOrder : Discipline (Option (List Nat)) where
  holds := InOrder
  stopped e := ∃ g, e.Orderly g
  strict := True
  nests := False
  stop inOrder := ⟨_, inOrder.orderly⟩
  edit {g e e'} inOrder moves := by
    have same := SameOpen.edits moves.edits
    constructor
    case keeps => exact same.registry ▸ inOrder.keeps
    case orderly =>
      rw [same.blocks]
      exact inOrder.orderly.edits moves.edits
  counts {g e e'} inOrder counts := by
    have same := SameOpen.counts counts
    constructor
    case keeps => exact same.registry ▸ inOrder.keeps
    case orderly =>
      rw [same.blocks]
      exact inOrder.orderly.counts counts
  failStops inOrder := inOrder.other inOrder.keeps rfl rfl rfl rfl rfl
  stopNoted {g e} inOrder := by
    have same := SameOpen.noteStop e
    exact ⟨same.registry ▸ inOrder.keeps, same.blocks ▸ inOrder.orderly.noteStop⟩
  noted {g e} event note inOrder := by
    refine ⟨inOrder.keeps, inOrder.orderly.logged ?_ ?_⟩
    · cases event with
      | scopeOpened | scopeClosed => cases note
      | _ => rfl
    · rintro rfl
      cases note
  exitCode code inOrder := inOrder.other inOrder.keeps rfl rfl rfl rfl rfl
  offered c inOrder := ⟨inOrder.keeps, inOrder.orderly.logged rfl nofun⟩
  recorded {g e top below} depth c inOrder found := by
    refine ⟨inOrder.keeps, ?_⟩
    have taken := inOrder.orderly.recorded depth c found
    rwa [← BlockStack.scopesRecorded found depth c] at taken
  closed {g e top below} c inOrder found ordinary := by
    refine ⟨inOrder.keeps, ?_⟩
    have orderly := inOrder.orderly
    rw [BlockStack.scopesTop found, Block.scopesPlain ordinary, List.nil_append] at orderly
    refine orderly.move (fun held b member => held b ?_) rfl nofun
    rw [found]
    exact List.mem_cons_of_mem _ member
  scopeClosed {g e top below policies bindings propagate} c inOrder found empty scope := by
    obtain rfl := empty trivial
    obtain ⟨keeps, orderly⟩ := inOrder
    rw [BlockStack.scopesTop found, scope, BlockStack.scopesEmpty rfl, List.append_nil] at orderly
    have same (e' : Engine) :
        e'.SameOpen ((e'.logged .bodyEnded).closeBlockScopes policies bindings propagate) := by
      have ended : e'.SameOpen (e'.logged .bodyEnded) := .logged e' fun outside => outside
      exact ended.trans (.closeBlockScopes ..)
    obtain ⟨ids, known, fine⟩ | broken := orderly
    · have held := fine.held top (by simp [found])
      rw [scope] at held
      have begun : e.Orderly (inside (Block.scope policies bindings propagate).scopes g) :=
        .inl ⟨ids, known, fine⟩
      have taken : (({ e with blocks := { e.blocks with blocks := [] } } : Engine).logged
          (.offered c)).Orderly (inside (Block.scope policies bindings propagate).scopes g) :=
        begun.move (fun _ => nofun) rfl nofun
      refine ⟨_, taken.inOrder keeps rfl, fun {e'} ended => ?_⟩
      refine ⟨(same e').registry ▸ ended.keeps, ?_⟩
      rw [(same e').blocks]
      exact ended.orderly.bodyEnded (held rfl)
    · refine ⟨none, ⟨keeps, .inr (broken.move ..)⟩, fun {e'} ended => ?_⟩
      refine ⟨(same e').registry ▸ ended.keeps, ?_⟩
      obtain ⟨ids, known, -⟩ | broken := ended.orderly
      · cases known
      · exact .inr (broken.sameOpen (same e'))
  command {g e} c inOrder := ⟨g, inOrder.other inOrder.keeps rfl rfl rfl rfl rfl,
    fun ended => ended.other ended.keeps rfl rfl rfl rfl rfl⟩
  dispatched c inOrder _ := ⟨inOrder.keeps, inOrder.orderly.logged rfl nofun⟩
  returned target inOrder := ⟨inOrder.keeps, inOrder.orderly.logged rfl nofun⟩
  opening {g e e'} inOrder _ opening :=
    ⟨opening.registry ▸ inOrder.keeps, inOrder.orderly.opening opening⟩
  definition {g e d registry} inOrder _ defined := by
    have known : ({ e with registry } : Engine).InOrder g :=
      inOrder.other (inOrder.keeps.define defined) rfl rfl rfl rfl rfl
    exact ⟨known.keeps, known.orderly.logged rfl nofun⟩
  called _ _ _ _ _ _ inOrder := ⟨inOrder.keeps, inOrder.orderly.logged rfl nofun⟩
  frame {g e} frame inOrder := ⟨g, id, inOrder.other inOrder.keeps rfl rfl rfl rfl rfl,
    fun ended => ended.other ended.keeps rfl rfl rfl rfl rfl⟩
  scope {g e} o inOrder free := by
    have same := SameOpen.openScope e o.create
    have free := free trivial
    refine ⟨_, ((inOrder.free free).openScope o).inOrder (same.registry ▸ inOrder.keeps)
      (free.sameOpen same), fun {e'} report ended free => ?_⟩
    have same := SameOpen.closeScope e' (e.openScope o.create).1 report
    exact ((ended.free (free trivial)).closeScope report).inOrder (same.registry ▸ ended.keeps)
      ((free trivial).sameOpen same)
  scopeBarrier {g e} o inOrder free := by
    have same := SameOpen.openScope e o.create
    have opened := (inOrder.free (free trivial)).openScope o
    refine ⟨_, id, opened.openBarrier.inOrder (same.registry ▸ inOrder.keeps) ?_,
      fun report reportScope ended tidy => ended.leave (tidy trivial) report reportScope⟩
    have inner : (e.openScope o.create).2.Free := (free trivial).sameOpen same
    exact inner
  barrierScope {g e} o inOrder free := by
    have same := SameOpen.openScope e.openBarrier o.create
    have opened := (inOrder.free (free trivial)).openBarrier.openScope o
    refine ⟨_, opened.inOrder (same.registry ▸ inOrder.keeps) ?_,
      fun report reportScope ended tidy => ended.leave (tidy trivial) report reportScope⟩
    have inner : e.openBarrier.Free := free trivial
    exact inner.sameOpen same
  queue {g e} change _ hosted inOrder := by
    have same := SameOpen.hosted e e.current hosted
    exact ⟨same.registry ▸ inOrder.keeps, same.blocks ▸ inOrder.orderly.changeQueue _ hosted⟩
  deferred {g e top below} o depth c inOrder found := by
    have same := SameOpen.openScope e o.create
    have begun : ((e.openScope o.create).2.logged .deferredBegun).Orderly _ :=
      (inOrder.orderly.openScope o).logged rfl nofun
    have taken := begun.recorded depth c (same.blocks ▸ found)
    have ended : Orderly _ ((({ (e.openScope o.create).2.logged .deferredBegun with
      blocks := { (e.openScope o.create).2.blocks with
        blocks := { top with depth, recorded := c :: top.recorded } :: below } } :
      Engine).logged (.offered c)).logged .deferredEnded) := taken.logged rfl nofun
    rw [same.blocks] at ended
    refine ⟨⟨_, begun⟩, ?_⟩
    have left := SameOpen.closeScope (((({ (e.openScope o.create).2.logged .deferredBegun with
      blocks := { e.blocks with
        blocks := { top with depth, recorded := c :: top.recorded } :: below } } : Engine).logged
        (.offered c))).logged .deferredEnded) (e.openScope o.create).1 true
    refine ⟨?_, ?_⟩
    · rw [left.registry]
      exact same.registry ▸ inOrder.keeps
    · rw [left.blocks]
      have closed := ended.closeScope true
      rwa [← BlockStack.scopesRecorded found depth c] at closed
  reach inOrder found := inOrder.keeps _ found
  created nests := nests.elim
  refusal _ nests := nests.elim
  directory nests := nests.elim

theorem Engine.inOrderStart (options : Options) (platform : Platform)
    (environment : List (String × String)) :
    (start { options with mode := .script } platform environment).InOrder (some []) := by
  obtain ⟨environment', cache, errorOccurred, same⟩ :=
    startCases { options with mode := .script } platform environment
  rw [same]
  refine ⟨Registry.keepsDirectoryStart, .inl ⟨[], rfl, ?_⟩⟩
  exact ⟨rfl, Scopes.standsInitial, nofun, nofun, nofun⟩

theorem Engine.Orderly.failsIff {g : Option (List Nat)} {e : Engine} (orderly : e.Orderly g) :
    e.Fails ↔ Crossed e.log := by
  obtain ⟨ids, -, fine⟩ | broken := orderly
  · exact ⟨fun fails => absurd fails fine.quiet, fun crossed => absurd crossed fine.straight⟩
  · exact ⟨fun _ => broken.crossed, fun _ => broken.fails⟩

theorem Engine.Orderly.closed {e : Engine} (orderly : e.Orderly (some []))
    (straight : ¬Crossed e.log) : openScopes e.log = some [] ∧ e.snapshot = 1 := by
  obtain ⟨ids, known, fine⟩ | broken := orderly
  · cases known
    obtain ⟨d, children, -, back, -⟩ := fine.stands
    exact ⟨fine.log, back⟩
  · exact absurd broken.crossed straight

/-- A script that parses closes every scope that it opens, each in its turn, and comes back to where
it was. An internal error is issued exactly when the commands of a `block` end while a `block` is
open that they opened, whether or not the run comes to its end. -/
theorem scopesCloseUnlessCrossed (options : Options) (platform : Platform)
    (environment : List (String × String)) (path source : String) (fuel : Nat) :
    let start := Engine.start { options with mode := .script } platform environment
    match (Runner.ofFuel fuel).runSource path source start with
    | .ok (.ok _, e) => (e.Fails ↔ Crossed e.log) ∧
        (¬Crossed e.log → openScopes e.log = some [] ∧ e.snapshot = start.snapshot)
    | .ok (.error _, e) => e = start ∧ ∃ error, ListFile.parse path source = .error error
    | .error (_, e) => e.Fails ↔ Crossed e.log := by
  intro start
  have inOrder := Engine.inOrderStart options platform environment
  have fresh : start.Free ∧ start.snapshot = 1 := by
    obtain ⟨environment', cache, errorOccurred, same⟩ :=
      Engine.startCases { options with mode := .script } platform environment
    rw [show start = _ from same]
    exact ⟨rfl, rfl⟩
  have ready : scopeOrder.Ready (some []) start :=
    ⟨⟨inOrder, fun _ => Engine.tidyStart ..⟩, fun _ => fresh.1⟩
  have ends := Runner.runSourceEnds (scopeOrder.runs fuel) path source ready
  cases run : (Runner.ofFuel fuel).runSource path source start with
  | error halted =>
    obtain ⟨g, orderly⟩ := (ends.error run).stopped
    exact orderly.failsIff
  | ok ended =>
    obtain ⟨answer, e⟩ := ended
    cases answer with
    | error error => exact Runner.refusedSource run
    | ok code =>
      have ready := ends.ok run
      have orderly := ready.holds.free (ready.free trivial)
      refine ⟨orderly.failsIff, fun straight => ?_⟩
      rw [fresh.2]
      exact orderly.closed straight

example : Crossed ((((Runner.ofFuel 9).runSource "a.cmake"
    "block()\nif(TRUE)\nblock()\nelse()\nendblock()\nendif()\nendblock()\n").state
      (Engine.start { mode := .script } {} [])).log) := by decide +kernel

end CMakeScript
