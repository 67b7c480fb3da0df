import CMakeScript.Proofs.Propagation
import CMakeScript.Proofs.RequestRuns
/-! Returns on their way out. From the command that asks for a return on no command comes up until
the function or file is left, and the values that go along show in the caller; a call that fails
drops the return. -/
namespace CMakeScript

def Event.carries (event : Event) (under : Option (List (String × Option String))) :
    Option (List (String × Option String)) :=
  match event with
  | asked (.returning _) values => some values
  | functionLeft _ | fileLeft _ | deferredEnded | callGivenUp => none
  | loopLeft names => under.map (·.filter fun entry => !names.contains entry.1)
  | _ => under

/-- The return that is under way after a log, with the values that go along: those that the names
had when it was asked for, but for the variables of loops that were left since. -/
def returnUnderWay : List LogEntry → Option (List (String × Option String))
  | [] => none
  | entry :: earlier => entry.event.carries (returnUnderWay earlier)

def Event.Agrees (event : Event) (under : Option (List (String × Option String))) : Prop :=
  match event with
  | offered _ => under = none
  | concluded t => (∃ names, t = some (.returning names)) ↔ under.isSome
  | functionLeft none => under = none
  | functionLeft (some seen) => ∃ carried, under = some carried ∧ ∀ entry ∈ carried, entry ∈ seen
  | _ => True

def Accounted : List LogEntry → Prop
  | [] => True
  | entry :: earlier => entry.event.Agrees (returnUnderWay earlier) ∧ Accounted earlier

theorem Accounted.split {later earlier : List LogEntry} {entry : LogEntry}
    (accounted : Accounted (later ++ entry :: earlier)) :
    entry.event.Agrees (returnUnderWay earlier) := by
  induction later with
  | nil => exact accounted.1
  | cons _ _ ih => exact ih accounted.2

def Event.isIdle : Event → Bool
  | dispatched _ | returned _ | deferredBegun => true
  | asked (.returning _) _ => false
  | asked _ _ => true
  | event => event.isAside

theorem Event.idle {event : Event} (idle : event.isIdle = true)
    (under : Option (List (String × Option String))) :
    event.carries under = under ∧ event.Agrees under := by
  cases event with
  | offered | concluded | functionLeft | callGivenUp | loopLeft | fileLeft | deferredEnded =>
    cases idle
  | asked t =>
    cases t with
    | returning => cases idle
    | _ => exact ⟨rfl, trivial⟩
  | _ => exact ⟨rfl, trivial⟩

theorem returnUnderWayAside {entries : List LogEntry}
    (aside : ∀ entry ∈ entries, entry.event.isAside = true) (log : List LogEntry) :
    returnUnderWay (entries ++ log) = returnUnderWay log ∧
      (Accounted log → Accounted (entries ++ log)) := by
  refine logIdle (fun {entry} log here => ?_) aside log
  have idle : entry.event.isIdle = true := by
    cases event : entry.event <;> rw [event] at here <;> first | rfl | cases here
  obtain ⟨carries, agrees⟩ := Event.idle idle (returnUnderWay log)
  exact ⟨carries, fun before => ⟨agrees, before⟩⟩

/-! What the status tells of a return -/

namespace Status

def returns : Status → Bool
  | leaving (.returning _) _ => true
  | _ => false

variable {s : Status}

theorem namesIdle (idle : s.returns = false) : s.names = [] := by
  rcases s with _ | ⟨_ | _ | _ | _, _⟩ | _
  case leaving.returning => cases idle
  all_goals rfl

theorem returnsCases (s : Status) :
    s.returns = false ∨ ∃ names failed, s = leaving (.returning names) failed := by
  rcases s with - | ⟨names | - | - | -, failed⟩ | -
  case leaving.returning => exact .inr ⟨names, failed, rfl⟩
  all_goals exact .inl rfl

theorem plainReturns (plain : s.plain) : s.returns = false := by
  cases s with
  | leaving => exact plain.elim
  | _ => rfl

theorem leaveFunctionIdle (idle : s.returns = false) (handle : ScopeHandle) (report : Bool)
    (e : Engine) : s.leaveFunction handle report e =
      (e.closeFunction handle report).logged (.functionLeft none) := by
  rcases s with _ | ⟨_ | _ | _ | _, _⟩ | _
  case leaving.returning => cases idle
  all_goals rfl

theorem inCallerReturns (s : Status) : s.inCaller.returns = false := by
  rcases s with - | ⟨- | - | - | -, -⟩ | - <;> rfl

theorem ofReturns (failed : Bool) (o : Outcome) :
    (of failed o.transfer?).returns = o.returning ∧
      (of failed o.transfer?).names = if o.returning then o.returned else [] := by
  obtain ⟨error, returning, returned, breaking, continuing, nestedError, exitCode⟩ := o
  cases returning <;> cases breaking <;> cases continuing <;> cases exitCode <;> exact ⟨rfl, rfl⟩

theorem withinReturns (o : Outcome) :
    (within o).returns = o.returning ∧
      (within o).names = if o.returning then o.returned else [] := by
  have same := ofReturns false o
  unfold within
  split
  case h_1 none =>
    rw [none] at same
    exact same
  case h_2 => exact same

theorem transferReturns (o : Outcome) :
    (∃ names, o.transfer? = some (.returning names)) ↔ o.returning = true := by
  obtain ⟨error, returning, returned, breaking, continuing, nestedError, exitCode⟩ := o
  cases returning <;> cases breaking <;> cases continuing <;> cases exitCode <;>
    simp [Outcome.transfer?]

end Status

theorem Runner.concludeReturns (c : Command) (succeeded : Bool) (o : Outcome) (e : Engine) :
    (conclude c succeeded o e).1.2.returning = o.returning ∧
      (conclude c succeeded o e).1.2.returned = o.returned := by
  unfold conclude
  dsimp only
  split <;> exact ⟨rfl, rfl⟩

theorem Engine.SameViews.conclude (c : Command) (succeeded : Bool) (o : Outcome) (e : Engine) :
    e.SameViews (Runner.conclude c succeeded o e).2 := by
  unfold Runner.conclude
  dsimp only
  split
  · exact refl e
  · have reported : e.SameViews (if o.nestedError || e.nested.headD false then e
        else e.issue .fatalError (c.name ++ " " ++ o.error)) := by
      split
      · exact refl e
      · exact issueAt e .fatalError _ e.backtrace
    generalize (if o.nestedError || e.nested.headD false then e
      else e.issue .fatalError (c.name ++ " " ++ o.error)) = e₁ at reported ⊢
    refine reported.trans ?_
    dsimp only
    split
    · exact other rfl rfl rfl fun _ => rfl
    · exact refl e₁

namespace Engine

def carried (e : Engine) : List (String × Option String) := (returnUnderWay e.log).getD []

structure Told (s : Status) (e : Engine) : Prop where
  accounted : Accounted e.log
  pending : (returnUnderWay e.log).isSome = s.returns
  named : ∀ entry ∈ e.carried, entry.1 ∈ s.names ∧ entry.1 ≠ ""
  free : s.returns = true → e.Free

structure Tracks (s : Status) (g : List (Nat × Bool)) (e : Engine) : Prop where
  kept : e.Kept (e.blocks.handles ++ g) e.carried
  told : e.fatal = true ∨ e.Told s

variable {s s' : Status} {g g' : List (Nat × Bool)} {e e' : Engine}

theorem carriedSteady (steady : e.Steady e') : returnUnderWay e'.log = returnUnderWay e.log := by
  obtain ⟨entries, aside, log⟩ := steady.log
  rw [log]
  exact (returnUnderWayAside aside e.log).1

namespace Told

theorem nothing (told : e.Told s) (idle : s.returns = false) : returnUnderWay e.log = none :=
  Option.isNone_iff_eq_none.mp (by rw [← Option.not_isSome, told.pending, idle]; rfl)

theorem carried (told : e.Told s) (idle : s.returns = false) : e.carried = [] := by
  rw [Engine.carried, told.nothing idle]
  rfl

theorem freeCarried (told : e.Told s) (some : e.carried ≠ []) : e.Free := by
  cases returns : s.returns with
  | true => exact told.free returns
  | false => exact absurd (told.carried returns) some

theorem turn (told : e.Told s) (returns : s'.returns = s.returns) (names : s'.names = s.names) :
    e.Told s' :=
  ⟨told.accounted, told.pending.trans returns.symm, names ▸ told.named, returns ▸ told.free⟩

theorem steady (told : e.Told s) (steady : e.Steady e')
    (free : s.returns = true → e.Free → e'.Free) : e'.Told s where
  accounted := by
    obtain ⟨entries, aside, log⟩ := steady.log
    rw [log]
    exact (returnUnderWayAside aside e.log).2 told.accounted
  pending := carriedSteady steady ▸ told.pending
  named := by
    rw [Engine.carried, carriedSteady steady]
    exact told.named
  free returns := free returns (told.free returns)

theorem ends (accounted : Accounted e.log) {event : Event} (idle : s.returns = false)
    (none : event.carries (returnUnderWay e.log) = none)
    (agrees : event.Agrees (returnUnderWay e.log)) : (e.logged event).Told s where
  accounted := ⟨agrees, accounted⟩
  pending := by
    change (event.carries (returnUnderWay e.log)).isSome = _
    rw [none, idle]
    rfl
  named := by
    change ∀ entry ∈ (event.carries (returnUnderWay e.log)).getD [], _
    rw [none]
    nofun
  free returns := by
    rw [idle] at returns
    cases returns

end Told

theorem memValuesOf {names : List String} {entry : String × Option String} :
    entry ∈ e.valuesOf names ↔
      entry.1 ∈ names ∧ entry.1 ≠ "" ∧ e.normal? entry.1 = entry.2 := by
  obtain ⟨name, value⟩ := entry
  simp only [valuesOf, List.mem_map, List.mem_filter, Prod.mk.injEq]
  constructor
  · rintro ⟨_, ⟨member, some⟩, rfl, rfl⟩
    exact ⟨member, by simpa using some, rfl⟩
  · rintro ⟨member, some, rfl⟩
    exact ⟨name, ⟨member, by simpa using some⟩, rfl, rfl⟩

namespace Tracks

theorem tells (tracks : e.Tracks s g) : e.fatal = true ∨ Accounted e.log :=
  tracks.told.imp_right fun told => told.accounted

theorem scopes (tracks : e.Tracks s g) : e.Kept (e.blocks.handles ++ g) [] :=
  tracks.kept.retained rfl id id

theorem turn (tracks : e.Tracks s g) (returns : s'.returns = s.returns)
    (names : s'.names = s.names) : e.Tracks s' g :=
  ⟨tracks.kept, tracks.told.imp_right fun told => told.turn returns names⟩

theorem idleTurn (tracks : e.Tracks s g) (idle : s.returns = false) (idle' : s'.returns = false) :
    e.Tracks s' g :=
  tracks.turn (idle'.trans idle.symm) ((Status.namesIdle idle').trans (Status.namesIdle idle).symm)

theorem ofScopes (scopes : e.Kept (e.blocks.handles ++ g) []) (told : e.fatal = true ∨ e.Told s)
    (idle : s.returns = false) : e.Tracks s g := by
  refine ⟨?_, told⟩
  obtain stops | told := told
  · exact .inl stops
  · rwa [told.carried idle]

theorem moved (tracks : e.Tracks s g) (idle : s.returns = false) (steady : e.Steady e')
    (scopes : e'.Kept (e'.blocks.handles ++ g') []) : e'.Tracks s g' := by
  refine ofScopes scopes (tracks.told.imp steady.fatal fun told => told.steady steady ?_) idle
  intro returns
  rw [idle] at returns
  cases returns

theorem same (tracks : e.Tracks s g) (views : e.SameViews e') (steady : e.Steady e')
    (blocks : e'.blocks = e.blocks) : e'.Tracks s g where
  kept := by
    rw [carried, carriedSteady steady, blocks]
    exact tracks.kept.same views
  told := tracks.told.imp steady.fatal fun told => told.steady steady fun _ free => by
    rwa [Free, blocks]

theorem other (tracks : e.Tracks s g) (snapshot : e'.snapshot = e.snapshot)
    (seats : e'.seat? = e.seat?) (scopes : e'.scopes = e.scopes) (blocks : e'.blocks = e.blocks)
    (log : e'.log = e.log) (fatal : e'.fatal = e.fatal) : e'.Tracks s g where
  kept := by
    rw [carried, log, blocks]
    exact tracks.kept.same (.other snapshot seats scopes fun stops => fatal.trans stops)
  told := by
    rw [fatal]
    refine tracks.told.imp_right fun told => ⟨log ▸ told.accounted, log ▸ told.pending, ?_, ?_⟩
    · rw [carried, log]
      exact told.named
    · rw [Free, blocks]
      exact told.free

theorem edits (tracks : e.Tracks s g) (plain : s.plain) (edits : Edits e e') : e'.Tracks s g := by
  refine tracks.moved (Status.plainReturns plain) (.edits edits) ?_
  rw [(SameOpen.edits edits).blocks]
  exact tracks.scopes.edits edits

/-! Entries of the log -/

theorem noted (tracks : e.Tracks s g) {event : Event} (idle : event.isIdle = true) :
    (e.logged event).Tracks s g := by
  obtain ⟨carries, agrees⟩ := Event.idle idle (returnUnderWay e.log)
  have same : returnUnderWay (e.logged event).log = returnUnderWay e.log := carries
  refine ⟨?_, tracks.told.imp_right fun told => ⟨⟨agrees, told.accounted⟩, ?_, ?_, told.free⟩⟩
  · rw [carried, same]
    exact Kept.same tracks.kept (.other rfl rfl rfl id)
  · rw [same]
    exact told.pending
  · rw [carried, same]
    exact told.named

theorem offered (tracks : e.Tracks .going g) {blocks : BlockStack Block} (c : Command)
    (scopes : e.Kept (blocks.handles ++ g') []) :
    (({ e with blocks } : Engine).logged (.offered c)).Tracks .going g' := by
  refine ofScopes (Kept.same scopes (.other rfl rfl rfl id)) (tracks.told.imp_right fun told => ?_) rfl
  have none := told.nothing rfl
  exact Told.ends (e := { e with blocks }) told.accounted rfl none none

theorem ended (tracks : e.Tracks s g) {event : Event}
    (none : event.carries (returnUnderWay e.log) = none)
    (agrees : e.Told s → event.Agrees (returnUnderWay e.log)) (idle : s'.returns = false) :
    (e.logged event).Tracks s' g :=
  ofScopes (Kept.same tracks.scopes (.other rfl rfl rfl id))
    (tracks.told.imp_right fun told => .ends told.accounted idle none (agrees told)) idle

theorem counts (tracks : e.Tracks s g) (counts : e.Counts e') : e'.Tracks s g :=
  tracks.same (.counts counts) (.turns (.counts counts)) (SameOpen.counts counts).blocks

theorem closed (tracks : e.Tracks .going g) {top : OpenBlock Block} {below : List (OpenBlock Block)}
    (c : Command) (found : e.blocks.blocks = top :: below) (ordinary : top.block.isScope = false) :
    (({ e with blocks := { e.blocks with blocks := below } } : Engine).logged
      (.offered c)).Tracks .going g := by
  have scopes := tracks.scopes
  rw [BlockStack.handlesTop found, Block.handlesPlain ordinary] at scopes
  exact tracks.offered c scopes

theorem asked (tracks : e.Tracks .going g) (free : e.Free) (edits : Edits e e') (t : Transfer) :
    (e'.logged (.asked t (e'.valuesOf t.names))).Tracks (.of false (some t)) g := by
  have blocks := (SameOpen.edits edits).blocks
  have edited : e'.Tracks .going g := by
    refine tracks.moved rfl (.edits edits) ?_
    rw [blocks]
    exact tracks.scopes.edits edits
  cases t with
  | returning names =>
    have shows : e'.Kept (e'.blocks.handles ++ g) (e'.valuesOf names) :=
      edited.kept.imp_right fun housed =>
        housed.retained rfl housed.grounded fun entry member => (memValuesOf.mp member).2.2
    refine ⟨Kept.same shows (.other rfl rfl rfl id), edited.told.imp_right fun told => ?_⟩
    refine ⟨⟨trivial, told.accounted⟩, rfl, ?_, ?_⟩
    · intro entry member
      obtain ⟨named, some, -⟩ := memValuesOf.mp member
      exact ⟨named, some⟩
    · intro _
      rw [Free] at free ⊢
      exact (congrArg BlockStack.blocks blocks).trans free
  | breaking => exact edited.noted rfl
  | continuing => exact edited.noted rfl
  | exiting => exact (edited.noted rfl).idleTurn rfl rfl

theorem concluded {c : Command} {succeeded : Bool} {o : Outcome} {result : Bool × Outcome}
    (tracks : e.Tracks (.within o) g) (ends : Runner.conclude c succeeded o e = (result, e')) :
    (e'.logged (.concluded result.2.transfer?)).Tracks (.after result) g ∧
      ∀ code, result.2.Exits code →
        (e'.logged (.concluded result.2.transfer?)).Tracks
          (.leaving (.exiting code) (Status.fails result)) g := by
  have views := SameViews.conclude c succeeded o e
  have steady := Runner.concludeSteady c succeeded o e
  have blocks := (Runner.concludeSame c succeeded o e).blocks
  obtain ⟨returning, returned⟩ := Runner.concludeReturns c succeeded o e
  rw [ends] at views steady blocks returning returned
  have same := tracks.same views steady blocks
  obtain ⟨within, names⟩ := Status.withinReturns o
  obtain ⟨after, names'⟩ := Status.ofReturns (Status.fails result) result.2
  rw [returning] at after names'
  rw [returned] at names'
  have turned : e'.Tracks (.after result) g :=
    same.turn (after.trans within.symm) (names'.trans names.symm)
  have noted : (e'.logged (.concluded result.2.transfer?)).Tracks (.after result) g := by
    have kept : (e'.logged (.concluded result.2.transfer?)).Kept (e'.blocks.handles ++ g)
        e'.carried := Kept.same turned.kept (.other rfl rfl rfl id)
    refine ⟨kept, turned.told.imp_right fun told => ?_⟩
    refine ⟨⟨?_, told.accounted⟩, told.pending, told.named, told.free⟩
    change (∃ names, result.2.transfer? = some (.returning names)) ↔ _
    rw [Status.transferReturns, returning, told.pending, ← after]
    rfl
  refine ⟨noted, fun code exits => noted.idleTurn ?_ rfl⟩
  exact after.trans (returning.symm.trans exits.1)

/-! Scopes -/

theorem stopping (stops : e.fatal = true) : e.Tracks s g := ⟨.inl stops, .inl stops⟩

theorem openScope (tracks : e.Tracks .going g) (o : ScopeOpening) :
    (e.openScope o.create).2.Tracks .going (held (e.openScope o.create).1 o.ownFrame ++ g) := by
  refine tracks.moved rfl (.turns (.openScope e o)) ?_
  rw [(SameOpen.openScope e o.create).blocks]
  exact (tracks.scopes.openScope o).reordered (List.perm_append_comm_assoc ..)

theorem openBarrier (tracks : e.Tracks .going g) : e.openBarrier.Tracks .going g :=
  tracks.moved rfl (.turns (.openBarrier e)) tracks.scopes.openBarrier

theorem closeScope {handle : ScopeHandle} {own : Bool} (tracks : e.Tracks s (held handle own ++ g))
    (idle : s.returns = false) (report : Bool) : (e.closeScope handle report).Tracks s g := by
  refine tracks.moved idle (.turns (.closeScope e handle report)) ?_
  rw [(SameOpen.closeScope e handle report).blocks]
  exact (tracks.scopes.reordered (List.perm_append_comm_assoc ..)).closeScope
    (fun _ => .none e) report

theorem closeBarrier {handle : ScopeHandle} {own : Bool}
    (tracks : e.Tracks s (held handle own ++ g)) (idle : s.returns = false) (tidy : e.Tidy)
    (report reportScope : Bool) :
    ((e.closeBarrier report).closeScope handle reportScope).Tracks s g := by
  have free := (tidy.closeBarrier report).2
  have taken : (e.closeBarrier report).Tracks s (held handle own ++ g) := by
    refine tracks.moved idle (.turns (.closeBarrier e report)) ?_
    rw [BlockStack.handlesEmpty free]
    exact tracks.scopes.closeBarrier tidy (fun some => absurd rfl some) report
  exact taken.closeScope idle reportScope

theorem enterFunction (tracks : e.Tracks .going g) (free : e.Free) (d : Definition)
    (values : List String) : (Runner.enterFunction d values e).2.Tracks .going
      (held (Runner.enterFunction d values e).1 true ++ g) := by
  have scopes := tracks.scopes
  rw [BlockStack.handlesEmpty free] at scopes
  have opened : (e.openFunction d.file d.policies).2.Tracks .going
      (held (e.openFunction d.file d.policies).1 true ++ g) := by
    refine tracks.moved rfl (.turns (.openFunction e d.file d.policies)) ?_
    rw [BlockStack.handlesEmpty (free.openFunction d.file d.policies)]
    exact scopes.openFunction d.file d.policies
  exact (opened.edits trivial (.defineAll (Runner.functionVariables d values) _)).noted rfl

theorem enterMacro (tracks : e.Tracks .going g) (free : e.Free) (d : Definition) :
    (Runner.enterMacro d e).2.Tracks .going (held (Runner.enterMacro d e).1 false ++ g) := by
  have scopes := tracks.scopes
  rw [BlockStack.handlesEmpty free] at scopes
  have opened : (e.openMacro d.file d.policies).2.Tracks .going
      (held (e.openMacro d.file d.policies).1 false ++ g) := by
    refine tracks.moved rfl (.turns (.openMacro e d.file d.policies)) ?_
    rw [BlockStack.handlesEmpty (free.openMacro d.file d.policies)]
    exact scopes.openMacro d.file d.policies
  exact opened.noted rfl

theorem subdirectory {id : Nat} (tracks : e.Tracks .going g) (created : e.Subdirectory id e') :
    e'.Tracks .going g := by
  refine tracks.moved rfl (.subdirectory created) ?_
  rw [(SameOpen.subdirectory created).blocks]
  exact tracks.scopes.subdirectory created

theorem enterDirectory {id : Nat} (tracks : e.Tracks .going g) (created : e.Subdirectory id e') :
    (Runner.enterDirectory id e').Tracks .going g := by
  have scopes := tracks.scopes.enterDirectory created
  rw [← (SameOpen.subdirectory created).blocks] at scopes
  exact (tracks.subdirectory created).moved rfl (.other rfl rfl (fun stops => stops) rfl) scopes

theorem leaveDirectory (tracks : e.Tracks s g) (plain : s.plain) (outer : Engine) :
    (Runner.leaveDirectory outer e).Tracks s g :=
  tracks.moved (Status.plainReturns plain) (.other rfl rfl (fun stops => stops) rfl)
    (tracks.scopes.leaveDirectory outer)

theorem closeBlockScopes {policies bindings : Option ScopeHandle} {propagate : List String}
    (tracks : e.Tracks s ((Block.scope policies bindings propagate).handles ++ g)) :
    (((e.raiseAll s.names).logged .bodyEnded).closeBlockScopes policies bindings
      propagate).Tracks s g := by
  have edits := Edits.raiseAll e s.names
  have ended : (e.raiseAll s.names).SameOpen ((e.raiseAll s.names).logged .bodyEnded) :=
    .logged _ fun outside => outside
  have closed := SameOpen.closeBlockScopes ((e.raiseAll s.names).logged .bodyEnded) policies
    bindings propagate
  have blocks := (((SameOpen.edits edits).trans ended).trans closed).blocks
  have note : (e.raiseAll s.names).Steady ((e.raiseAll s.names).logged .bodyEnded) := .logged _ rfl
  have steady := ((Steady.edits edits).trans note).trans
    (.turns (.closeBlockScopes ((e.raiseAll s.names).logged .bodyEnded) policies bindings
      propagate))
  obtain stops | told := tracks.told
  · exact stopping (steady.fatal stops)
  refine ⟨?_, .inr (told.steady steady fun _ free => ?_)⟩
  · rw [carried, carriedSteady steady, blocks]
    obtain stops | housed := tracks.kept
    · exact .inl (steady.fatal stops)
    have raised : (e.raiseAll s.names).Kept _ e.carried := .inr (housed.raiseAll s.names).1
    have above := Raised.raiseNamed housed told.named
    have noted : (e.raiseAll s.names).SameViews ((e.raiseAll s.names).logged .bodyEnded) :=
      .other rfl rfl rfl id
    exact ((raised.same noted).reordered (List.perm_append_comm_assoc ..)).closeBlockScopes
      (above.same noted)
  · rwa [Free, blocks]

theorem macroLeft {handle : ScopeHandle} (tracks : e.Tracks s (held handle false ++ g))
    (tidy : e.Tidy) (report : Bool) : (e.closeMacro handle report).Tracks s g := by
  have steady := Steady.turns (.closeMacro e handle report)
  have free := (tidy.closeMacro handle report).2
  obtain stops | told := tracks.told
  · exact stopping (steady.fatal stops)
  refine ⟨?_, .inr (told.steady steady fun _ _ => free)⟩
  rw [carried, carriedSteady steady, BlockStack.handlesEmpty free]
  exact tracks.kept.closeMacro tidy told.freeCarried report

theorem functionEnded {handle : ScopeHandle} (tracks : e.Tracks s (held handle true ++ g))
    (idle : s.returns = false) (tidy : e.Tidy) (report : Bool) :
    ((e.closeFunction handle report).logged (.functionLeft none)).Tracks s.inCaller g := by
  have closed : (e.closeFunction handle report).Tracks s g := by
    refine tracks.moved idle (.turns (.closeFunction e handle report)) ?_
    rw [BlockStack.handlesEmpty (tidy.closeFunction handle report).2]
    exact tracks.scopes.closeFunction (.none e) tidy (fun some => absurd rfl some) report
  exact closed.ended rfl (fun told => told.nothing idle) s.inCallerReturns

theorem functionReturned {handle : ScopeHandle} {names : List String} {failed : Bool}
    (tracks : e.Tracks (.leaving (.returning names) failed) (held handle true ++ g))
    (tidy : e.Tidy) (report : Bool) :
    let e' := (e.raiseAll names).closeFunction handle report
    (e'.logged (.functionLeft (some (e'.valuesOf names)))).Tracks .going g := by
  intro e'
  have edits := Edits.raiseAll e names
  have same := SameOpen.edits edits
  have steady : e.Steady e' := (Steady.edits edits).trans (.turns (.closeFunction ..))
  have free : e'.Free := ((tidy.sameOpen same).closeFunction handle report).2
  obtain stops | told := tracks.told
  · exact stopping (steady.fatal stops)
  obtain stops | housed := tracks.kept
  · exact stopping (steady.fatal stops)
  have raised : (e.raiseAll names).Kept ((e.raiseAll names).blocks.handles ++
      (held handle true ++ g)) e.carried := by
    rw [same.blocks]
    exact .inr (housed.raiseAll names).1
  have left : e'.Kept g e.carried :=
    raised.closeFunction (.raiseNamed housed told.named) (tidy.sameOpen same)
      (fun some => (told.freeCarried some).sameOpen same) report
  obtain stops | shown := left
  · exact stopping stops
  have accounted : Accounted e'.log := (told.steady steady fun _ _ => free).accounted
  have underWay : returnUnderWay e'.log = some e.carried := by
    obtain ⟨values, pending⟩ := Option.isSome_iff_exists.mp told.pending
    rw [carriedSteady steady, carried, pending]
    rfl
  refine ofScopes ?_ (.inr (.ends accounted rfl rfl ⟨e.carried, underWay, ?_⟩)) rfl
  · have scopes : e'.Kept (e'.blocks.handles ++ g) [] := by
      rw [BlockStack.handlesEmpty free]
      exact Kept.retained (.inr shown) rfl id id
    exact Kept.same scopes (.other rfl rfl rfl id)
  · intro entry member
    obtain ⟨named, some⟩ := told.named entry member
    exact memValuesOf.mpr ⟨named, some, shown.shows entry member⟩

theorem functionLeft {handle : ScopeHandle} (tracks : e.Tracks s (held handle true ++ g))
    (tidy : e.Tidy) (report : Bool) : (s.leaveFunction handle report e).Tracks s.inCaller g := by
  obtain idle | ⟨names, failed, rfl⟩ := s.returnsCases
  · rw [Status.leaveFunctionIdle idle]
    exact tracks.functionEnded idle tidy report
  · exact tracks.functionReturned tidy report

/-! Loops and files -/

theorem raiseAll (tracks : e.Tracks s g) (names : List String) :
    (e.raiseAll names).Tracks s g := by
  have edits := Edits.raiseAll e names
  have steady := Steady.edits edits
  have blocks := (SameOpen.edits edits).blocks
  refine ⟨?_, tracks.told.imp steady.fatal fun told => told.steady steady fun _ free => ?_⟩
  · rw [carried, carriedSteady steady, blocks]
    exact tracks.kept.imp steady.fatal fun housed => (housed.raiseAll names).1
  · rwa [Free, blocks]

theorem fileLeft (tracks : e.Tracks s g) :
    ((s.endFile e).logged (.fileLeft (s.endFile e).fatal)).Tracks .finished g := by
  have ended : (s.endFile e).Tracks s g := by
    unfold Status.endFile
    split
    · exact tracks
    · split
      · exact tracks.other rfl rfl rfl rfl rfl rfl
      · exact tracks.raiseAll s.names
  exact ended.ended rfl (fun _ => trivial) rfl

theorem carriedOut (e : Engine) (names : List String) :
    (e.logged (.loopLeft names)).carried = e.carried.filter fun entry => !names.contains entry.1 := by
  change ((returnUnderWay e.log).map _).getD [] = ((returnUnderWay e.log).getD []).filter _
  cases returnUnderWay e.log <;> rfl

theorem restored (tracks : e.Tracks s g) (saved : List (String × Option String)) :
    ((saved.foldl (fun e (name, value) => e.assign name value) e).logged
      (.loopLeft (saved.map Prod.fst))).Tracks s g := by
  have edits := Edits.assignAll saved e
  have steady := Steady.edits edits
  have blocks := (SameOpen.edits edits).blocks
  have same : Engine.carried _ = e.carried := congrArg (·.getD []) (carriedSteady steady)
  constructor
  case kept =>
    rw [carriedOut, same]
    refine tracks.kept.imp steady.fatal fun housed => ?_
    have fewer : ∀ entry ∈ e.carried.filter fun entry => !(saved.map Prod.fst).contains entry.1,
        entry ∈ e.carried ∧ entry.1 ∉ saved.map Prod.fst := by
      intro entry member
      obtain ⟨known, apart⟩ := List.mem_filter.mp member
      exact ⟨known, by simpa using apart⟩
    have assigned := housed.assignAll saved fewer
    rw [← blocks] at assigned
    exact assigned.same (.other rfl rfl rfl id)
  case told =>
    refine tracks.told.imp steady.fatal fun told => ?_
    have told := told.steady steady fun _ free => by rwa [Free, blocks]
    refine ⟨⟨trivial, told.accounted⟩, ?_, fun entry member => told.named entry ?_, told.free⟩
    · exact (Option.isSome_map ..).trans told.pending
    · rw [carriedOut] at member
      exact (List.mem_filter.mp member).1

end Tracks
end Engine
open Engine

def returnCourse : Conduct (List (Nat × Bool)) where
  holds := Tracks
  stopped e := e.fatal = true ∨ Accounted e.log
  strict := True
  nests := True
  follows := True
  stop tracks := tracks.tells
  blind unfollowed _ := absurd trivial unfollowed
  ended tracks := tracks.idleTurn rfl rfl
  resumed tracks _ := tracks.idleTurn rfl rfl
  passed {t g e} tracks := by
    cases t <;> exact tracks.turn rfl rfl
  edit plain tracks moves := tracks.edits plain moves.edits
  failStops _ _ := .stopping rfl
  stopNoted {s g e} _ tracks := tracks.same (.noteStop e) (.noteStop e) (SameOpen.noteStop e).blocks
  offered c tracks := tracks.offered c tracks.scopes
  recorded {g e top below} depth c tracks found := by
    refine tracks.offered c ?_
    rw [BlockStack.handlesRecorded found]
    exact tracks.scopes
  closed c tracks found ordinary _ := tracks.closed c found ordinary
  loop {g e top below} c tracks found _ repeats := by
    have closed := tracks.closed c found (Block.loopOrdinary repeats)
    refine ⟨g, fun {e'} moves => ?_, fun _ inside => (inside.noted rfl).counts (.closeLoop _)⟩
    have moved : e'.Tracks .going g := closed.edits trivial moves.edits
    exact ⟨moved.tells, moved.noted rfl⟩
  scopeClosed {g e top below policies bindings propagate} c tracks found empty scope := by
    obtain rfl := empty trivial
    have scopes := tracks.scopes
    rw [BlockStack.handlesTop found, scope, BlockStack.handlesEmpty rfl, List.append_nil] at scopes
    exact ⟨_, tracks.offered c scopes, fun _ ended _ => ended.closeBlockScopes⟩
  command {g e} c tracks := ⟨g, tracks.other rfl rfl rfl rfl rfl rfl,
    fun _ ended => ended.other rfl rfl rfl rfl rfl rfl⟩
  dispatched c tracks _ := tracks.noted rfl
  sought tracks _ := tracks.noted rfl
  asked t tracks _ free edits := tracks.asked (free trivial) edits t
  returned target tracks := tracks.noted rfl
  concluded c succeeded o tracks _ _ := tracks.concluded rfl
  opening {g e e'} tracks _ _ opening :=
    tracks.moved rfl (.turns (.opening opening)) (tracks.scopes.opening opening)
  definition {g e d registry} tracks _ _ := by
    have defined : ({ e with registry } : Engine).Tracks .going g := tracks.other rfl rfl rfl rfl rfl rfl
    exact defined.noted rfl
  restored saved _ tracks := tracks.restored saved
  givenUp _ tracks := tracks.ended rfl (fun _ => trivial) rfl
  functionCall values tracks _ free _ _ :=
    ⟨_, tracks.enterFunction (free trivial) _ values,
      fun report _ ended tidy => ended.functionLeft (tidy trivial) report⟩
  macroCall tracks _ free _ _ :=
    ⟨_, tracks.enterMacro (free trivial) _,
      fun report _ ended tidy => ended.macroLeft (tidy trivial) report⟩
  frame {g e} frame tracks := ⟨g, id, tracks.other rfl rfl rfl rfl rfl rfl,
    fun _ ended => ended.other rfl rfl rfl rfl rfl rfl⟩
  scopeBarrier {g e} o tracks _ := ⟨_, fun _ => trivial, (tracks.openScope o).openBarrier,
    fun report reportScope ended tidy => ended.closeBarrier rfl (tidy trivial) report reportScope⟩
  barrierScope {g e} o tracks _ := ⟨_, tracks.openBarrier.openScope o,
    fun report reportScope ended tidy => ended.closeBarrier rfl (tidy trivial) report reportScope⟩
  fileLeft _ tracks := tracks.fileLeft
  deferredCall {g e} o tracks _ := by
    refine ⟨_, (tracks.openScope o).noted rfl, fun {s e'} _ ended _ => ?_⟩
    have left : (e'.logged .deferredEnded).Tracks .going _ := ended.ended rfl (fun _ => trivial) rfl
    exact left.closeScope rfl true
  queue {s g e} change _ hosted _ tracks :=
    tracks.same (.changeQueue e e.current change) (.changeQueue ..)
      (SameOpen.hosted e e.current hosted).blocks
  deferredTaken {g e top below} o depth c tracks found := by
    have begun : ((e.openScope o.create).2.logged .deferredBegun).Tracks .going _ :=
      (tracks.openScope o).noted rfl
    have scopes := begun.scopes
    rw [show ((e.openScope o.create).2.logged .deferredBegun).blocks = e.blocks from
      (SameOpen.openScope e o.create).blocks, ← BlockStack.handlesRecorded found depth c] at scopes
    have taken : Tracks .going _ (Engine.logged _ .deferredEnded) :=
      (begun.offered c scopes).ended rfl (fun _ => trivial) rfl
    exact ⟨begun.tells, taken.closeScope rfl true⟩
  reach _ _ := trivial
  created _ _ tracks created := tracks.subdirectory created
  refusal error _ _ := .stopping rfl
  directory {g e₀ e id} _ _ tracks _ created :=
    ⟨g, trivial, tracks.enterDirectory created, fun plain ended _ => ended.leaveDirectory plain e⟩

/-! The commands themselves -/

theorem Command.returnCallPropagating (names : List String) {e : Engine}
    (new : e.policy .cmp0140 = .new) :
    returnCall ("PROPAGATE" :: names) e = (.transferred (.returning names) true, e) := by
  simp only [returnCall, bind, StateT.bind, get, getThe, MonadStateOf.get, StateT.get, pure, new]
  rfl

namespace Runner

variable {r : Runner} {o : Outcome} {e e' : Engine}

theorem returnAsks (r : Runner) {arguments : List Argument} {words : List String} (o : Outcome)
    (read : Step.values arguments e = (some words, e')) {names : List String}
    (asks : words = [] ∧ names = [] ∨ words = "PROPAGATE" :: names ∧ e'.policy .cmp0140 = .new) :
    r.callable (.builtin .returnCall) arguments o e = .ok ((true, o.withReturn names),
      e'.logged (.asked (.returning names) (e'.valuesOf names))) := by
  have reading {k : Option (List String) → Run (Bool × Outcome)} :
      ((Step.values arguments).lift >>= k) e = k (some words) e' := by
    change k (Step.values arguments e).1 (Step.values arguments e).2 = _
    rw [read]
  have transferred : Command.returnCall words e' = (.transferred (.returning names) true, e') := by
    obtain ⟨rfl, rfl⟩ | ⟨rfl, new⟩ := asks
    · rfl
    · exact Command.returnCallPropagating names new
  change ((onWords arguments Command.returnCall >>= fun v => v.settle o) : Run (Bool × Outcome)) e = _
  unfold onWords
  rw [bind_assoc]
  refine reading.trans ?_
  change Verdict.settle (Command.returnCall words e').1 o (Command.returnCall words e').2 = _
  rw [transferred]
  rfl

theorem functionAnswers {d : Definition} {values : List String} {result : Bool × Outcome}
    (called : r.callFunction d values o e = .ok (result, e'))
    {seen : List (String × Option String)}
    (returned : (e'.log.head?.map (·.event)) = some (.functionLeft (some seen))) :
    result = (true, o) := by
  unfold callFunction at called
  obtain ⟨_, _, -, called⟩ := Run.okOfBind called
  obtain ⟨_, _, -, called⟩ := Run.okOfBind called
  obtain ⟨bodyEnd, e₁, -, called⟩ := Run.okOfBind called
  rcases bodyEnd with _ | ⟨_ | _ | _ | _⟩ | _
  case transferred.returning =>
    cases called
    rfl
  all_goals
    cases called
    cases returned

end Runner

theorem Engine.tracksStart (options : Options) (platform : Platform)
    (environment : List (String × String)) :
    (start options platform environment).Tracks .going [] := by
  obtain ⟨environment', cache, errorOccurred, same⟩ := startCases options platform environment
  rw [same]
  refine .ofScopes (.inr ?_) (.inr ⟨trivial, rfl, nofun, nofun⟩) rfl
  exact ⟨.first rfl rfl, Scopes.rootedInitial, nofun, .nil, nofun⟩

/-- A return, with the values of the names that it propagates, ends the function or file that it is
asked for in: no command comes up in between, and the caller goes on as if the function had come to
its end, with these values. A return is dropped only where a call fails on its way. -/
theorem returnsReachCaller (options : Options) (platform : Platform)
    (environment : List (String × String)) (requests : List Request) (fuel : Nat) :
    let r := Runner.ofFuel fuel
    let e := (r.serveAll requests).state (Engine.start options platform environment)
    (∀ (arguments : List Argument) (words names : List String) (o : Outcome) (e₁ e₂ : Engine),
      Step.values arguments e₁ = (some words, e₂) →
      words = [] ∧ names = [] ∨ words = "PROPAGATE" :: names ∧ e₂.policy .cmp0140 = .new →
      r.callable (.builtin .returnCall) arguments o e₁ = .ok ((true, o.withReturn names),
        e₂.logged (.asked (.returning names) (e₂.valuesOf names)))) ∧
    (∀ (d : Definition) (values : List String) (o : Outcome) (e₁ e₂ : Engine)
      (result : Bool × Outcome) (seen : List (String × Option String)),
      r.callFunction d values o e₁ = .ok (result, e₂) →
      e₂.log.head?.map (·.event) = some (.functionLeft (some seen)) → result = (true, o)) ∧
    (e.fatal = false → ∀ later entry earlier, e.log = later ++ entry :: earlier →
      (∀ c, entry.event = .offered c → returnUnderWay earlier = none) ∧
      (∀ t, entry.event = .concluded t →
        ((∃ names, t = some (.returning names)) ↔ (returnUnderWay earlier).isSome)) ∧
      (entry.event = .functionLeft none → returnUnderWay earlier = none) ∧
      ∀ seen, entry.event = .functionLeft (some seen) →
        ∃ carried, returnUnderWay earlier = some carried ∧ ∀ entry ∈ carried, entry ∈ seen) := by
  intro r e
  refine ⟨fun _ _ _ o _ _ read asks => r.returnAsks o read asks,
    fun _ _ _ _ _ _ _ called returned => Runner.functionAnswers called returned, ?_⟩
  intro live later entry earlier log
  have ready : returnCourse.Ready .going [] (Engine.start options platform environment) :=
    ⟨⟨Engine.tracksStart options platform environment, fun _ => Engine.tidyStart ..⟩,
      fun _ => Engine.freeStart ..⟩
  have ends := Runner.serveEachEnds (returnCourse.runs fuel)
    (fun ended => ended.idleTurn rfl rfl) requests ready
  have told : e.fatal = true ∨ Accounted e.log :=
    ends.state (fun _ _ ready => ready.holds.tells) fun _ stopped => stopped.stopped
  have agrees : entry.event.Agrees (returnUnderWay earlier) := by
    obtain stops | accounted := told
    · rw [live] at stops
      cases stops
    · exact (log ▸ accounted).split
  exact ⟨fun c event => by rwa [event] at agrees, fun t event => by rwa [event] at agrees,
    fun event => by rwa [event] at agrees, fun seen event => by rwa [event] at agrees⟩

theorem returnFromBlock :
    let r := Runner.ofFuel 9
    let source := "cmake_policy(SET CMP0140 NEW)\nfunction(f)\nset(x 1)\nblock()\nreturn(PROPAGATE x)\nset(x 2)\nendblock()\nendfunction()\nf()\n"
    let start := Engine.start { mode := .script } {} []
    let allowing := start.setPolicy .cmp0140 .new
    let e := (r.serveAll [.source "a.cmake" source]).state start
    r.callable (.builtin .returnCall) [⟨"PROPAGATE", .bracket, 1⟩, ⟨"x", .bracket, 1⟩] {} allowing =
      .ok ((true, { returning := true, returned := ["x"] }),
        allowing.logged (.asked (.returning ["x"]) [("x", none)])) ∧
    (∃ e₁, r.callFunction ⟨.function, "f", [], [⟨"return", 1, 1, []⟩], {}, "a.cmake", 1⟩ [] {}
      start = .ok ((true, {}), e₁)) ∧
    e.fatal = false ∧
    ∃ later blocks earlier carried,
      e.log = later ++ ⟨.functionLeft (some [("x", some "1")]), blocks⟩ :: earlier ∧
      returnUnderWay earlier = some carried ∧ ∀ entry ∈ carried, entry ∈ [("x", some "1")] := by
  intro r source start allowing e
  obtain ⟨asks, answers, course⟩ :=
    returnsReachCaller { mode := .script } {} [] [.source "a.cmake" source] 9
  refine ⟨?_, ?_, ?_⟩
  · have new : allowing.policy .cmp0140 = .new := by decide +kernel
    exact asks _ ["PROPAGATE", "x"] ["x"] {} allowing allowing rfl (.inr ⟨rfl, new⟩)
  · let call := r.callFunction ⟨.function, "f", [], [⟨"return", 1, 1, []⟩], {}, "a.cmake", 1⟩ [] {}
      start
    have checked : call.toOption.bind (·.2.log.head?.map (·.event)) =
        some (.functionLeft (some [])) := by decide +kernel
    cases run : call with
    | error =>
      rw [run] at checked
      cases checked
    | ok ended =>
      obtain ⟨result, e₁⟩ := ended
      rw [run] at checked
      obtain rfl := answers _ _ _ _ _ _ _ run checked
      exact ⟨e₁, run⟩
  · let parts := e.log.span (·.event != .functionLeft (some [("x", some "1")]))
    have checked : e.fatal = false ∧ e.log = parts.1 ++
        ⟨.functionLeft (some [("x", some "1")]), ⟨[], [0]⟩⟩ :: parts.2.tail := by decide +kernel
    obtain ⟨live, log⟩ := checked
    obtain ⟨-, -, -, left⟩ := course live _ _ _ log
    obtain ⟨carried, underWay, seen⟩ := left _ rfl
    exact ⟨live, _, _, _, carried, log, underWay, seen⟩

example :
    let e := ((Runner.ofFuel 9).serveAll [.source "a.cmake"
      "macro(m)\ncmake_policy(PUSH)\nreturn()\nendmacro()\nmacro(n)\nm()\nendmacro()\nn()\n"]).state
      (Engine.start {} {} [])
    e.fatal = false ∧
      returnUnderWay (e.log.dropWhile (·.event != .callGivenUp)).tail = some [] := by
  decide +kernel

end CMakeScript
