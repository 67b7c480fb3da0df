import CMakeScript.Proofs.DeferredLedger
import CMakeScript.Proofs.ErrorAnswer
import CMakeScript.Proofs.Stopping
/-! The calls deferred to the end of a script: each of them is run once, in the order in which they
were registered, unless it was cancelled before its turn. -/
namespace CMakeScript
open Conduct Engine
namespace Runner

variable {r : Runner} {q : Nat} {past : List RegisteredCall} {e e' : Engine}

theorem startsEnds {c : Command} (runs : (deferredOrder q (some past)).Runs r)
    (callable : c.IsCallable) (ready : (deferredOrder q none).Ready q e)
    (begins : ∀ e₁, e.Unqueued e₁ → (e₁.logged (.dispatched c)).Ledgered q (some past) q) :
    (deferredOrder q (some past)).Ends (r.step c {}) e fun _ e' =>
      e'.fatal = true ∨ (deferredOrder q (some past)).Ready q e' := by
  let D := deferredOrder q (some past)
  obtain ⟨place, entered, -⟩ := (ready.offered c).command c
  have same : e.Unqueued (enterCommand c (e.logged (.offered c))) :=
    (Unqueued.logged e e.blocks rfl).trans (.other rfl rfl rfl)
  have dispatched {e₁ : Engine} {target : Callable} (same : e.Unqueued e₁)
      (ready : (deferredOrder q none).Ready place e₁) (live : e₁.fatal = false)
      (found : e₁.registry.findLower? c.lowerName = some target) :
      D.Ends (do
        let answer ← r.callable target c.arguments {}
        modify (·.logged (.returned target))
        let answer ← modifyGet (conclude c answer.1 answer.2)
        modify (·.logged (.concluded answer.2.transfer?))
        return answer) (e₁.logged (.dispatched c)) fun _ e' =>
      e'.fatal = true ∨ D.Ready q e' := by
    have ready := ready.dispatched live c
    have begun : D.Ready q (e₁.logged (.dispatched c)) :=
      ⟨⟨begins e₁ same, ready.tidy⟩, ready.free⟩
    refine endsMono (dispatchedEnds runs.conduct False.elim found live begun) fun _ _ ended =>
      .inr ?_
    exact ⟨Discipline.sameStatus ended.1.holds, ended.2 fun _ => callable⟩
  have invoked : D.Ends (r.invoke c {}) (enterCommand c (e.logged (.offered c))) fun _ e' =>
      e'.fatal = true ∨ D.Ready q e' := by
    generalize enterCommand c (e.logged (.offered c)) = e₁ at entered same
    unfold invoke
    refine endsGet ?_
    dsimp only
    split
    · exact endsModify (endsPure (.inl rfl))
    · split
      · exact endsIte (fun stops => endsPure (.inl stops)) fun _ => endsModify (endsPure (.inl rfl))
      case h_2 target found =>
        refine endsIte (fun stops => endsPure (.inl stops)) fun live => ?_
        have live := eq_false_of_ne_true live
        split
        · have traced := entered.moves trivial (.errors e₁ (traceLine e₁ c))
          have same : e.Unqueued (e₁.writeErrors (traceLine e₁ c)) :=
            same.trans (.other rfl rfl rfl)
          exact endsModify (endsModify (dispatched same traced live found))
        · exact endsModify (dispatched same entered live found)
  refine stepNotBlocked (offerFree (ready.free trivial) c) {} ?_
  have performed : D.Ends (r.perform c {}) (e.logged (.offered c)) fun _ e' =>
      e'.fatal = true ∨ D.Ready q e' := by
    refine endsModify (endsBind invoked fun _ e₁ ended => endsModify (endsPure ?_))
    exact ended.imp_right fun ready => ⟨⟨ready.holds.unqueued (.other rfl rfl rfl),
      fun strict => (ready.tidy strict).leaveCommand⟩, ready.free⟩
  refine endsBind performed fun _ e₁ ended => endsModify (endsPure ?_)
  exact ended.imp (Steady.noteStop e₁).fatal fun ready =>
    ⟨ready.toHolds.stopNoted (by rintro ⟨⟩), fun strict => (ready.free strict).sameOpen (.noteStop e₁)⟩

theorem nextCall (ledgered : e.Ledgered q (some past) q) (i : Nat) :
    (e.deferredAt e.current).bind (·[i]?) =
      (Ledger.of q e.log).calls[i]?.map RegisteredCall.entry := by
  obtain ⟨isOpen, -⟩ := ledgered.past past rfl
  obtain ⟨calls, queue⟩ := Option.isSome_iff_exists.mp isOpen
  rw [ledgered.current, queue, ledgered.tells.entries calls queue]
  exact List.getElem?_map ..

theorem callableNext (ready : (deferredOrder q (some past)).Ready q e) {r : RegisteredCall}
    (there : (Ledger.of q e.log).calls[past.length]? = some r) : r.call.command.IsCallable := by
  have ledgered : e.Ledgered q (some past) q := ready.holds
  have next := nextCall ledgered past.length
  rw [there] at next
  obtain ⟨calls, queue, there⟩ := Option.bind_eq_some_iff.mp next
  rw [← RegisteredCall.commandEntry]
  refine (ready.tidy trivial).deferred (i := e.current) ?_
  rw [queue]
  exact List.mem_of_getElem? there

theorem runDeferredCallOrder {n : Nat} {r : RegisteredCall}
    (ready : (deferredOrder q (some past)).Ready q e)
    (there : (Ledger.of q e.log).calls[past.length]? = some r) (waits : r.state = .waiting)
    (run : (Runner.ofFuel n).runDeferredCall r.call (e.changeQueue q (.taken past.length)) =
      .ok ((), e')) :
    e'.fatal = true ∨
      (deferredOrder q (some (past ++ [r.settle .executed]))).Ready q e' := by
  have ledgered : e.Ledgered q (some past) q := ready.holds
  have callable := callableNext ready there
  obtain ⟨isOpen, before⟩ := ledgered.past past rfl
  have taken : (e.changeQueue q (.taken past.length)).Ledgered q none q :=
    ledgered.forget.changeQueue nofun nofun nofun
  have ledger := ledgerChange e (.taken past.length) (ledgered.placed rfl)
  have queue : ((e.changeQueue q (.taken past.length)).deferredAt q).isSome = true := by
    rw [deferredAtChange, if_pos ⟨rfl, ledgered.placed rfl⟩]
    obtain ⟨calls, queue⟩ := Option.isSome_iff_exists.mp isOpen
    rw [queue]
    rfl
  have same : e.SameOpen (e.changeQueue q (.taken past.length)) := .hosted e q rfl
  have tidy := (ready.tidy trivial).sameOpen same
  have free := (ready.free trivial).sameOpen same
  generalize e.changeQueue q (.taken past.length) = e₁ at taken ledger queue tidy free run
  let opened := e₁.openScope (ScopeOpening.deferCall r.call.file).create
  change (do
    let _ ← (Runner.ofFuel n).run r.call.command
    modify fun e => (e.logged .deferredEnded).closeScope opened.1 true : Run Unit)
    (opened.2.logged .deferredBegun) = .ok ((), e') at run
  obtain ⟨result, e₂, executed, left⟩ := Run.okOfBind run
  cases left
  have begun : e₁.Unqueued (opened.2.logged .deferredBegun) :=
    (Unqueued.openScope ..).trans (.logged _ _ rfl)
  have same : e₁.SameOpen (opened.2.logged .deferredBegun) :=
    (SameOpen.openScope ..).trans (.logged _ fun outside => outside)
  have ended : e₂.fatal = true ∨
      (deferredOrder q (some (past ++ [r.settle .executed]))).Ready q e₂ := by
    cases n with
    | zero => cases executed
    | succ n =>
      have ready : (deferredOrder q none).Ready q (opened.2.logged .deferredBegun) :=
        ⟨⟨taken.unqueued begun, fun _ => tidy.sameOpen same⟩, fun _ => free.sameOpen same⟩
      refine (startsEnds (Discipline.runs n) callable ready fun e₃ same => ?_).ok executed
      have same := begun.trans same
      refine (taken.unqueued same).logCommand _ fun past' known => ?_
      cases known
      rw [same.deferred, same.ledger, ledger]
      exact ⟨queue, before.run there waits q⟩
  have turns : Turns (e₂.logged .deferredEnded)
      ((e₂.logged .deferredEnded).closeScope opened.1 true) := .closeScope ..
  refine ended.imp (Steady.turns turns).fatal fun ready => ?_
  have logged : e₂.SameOpen (e₂.logged .deferredEnded) := .logged e₂ fun outside => outside
  have same := logged.trans (.closeScope _ opened.1 true)
  exact ⟨⟨(ready.holds.logged e₂.blocks rfl).turns turns, fun strict =>
    (ready.tidy strict).sameOpen same⟩, fun strict => (ready.free strict).sameOpen same⟩

theorem deferredFromOrder {n fuel : Nat} (ready : (deferredOrder q (some past)).Ready q e)
    (run : (Runner.ofFuel n).deferredFrom fuel past.length e = .ok ((), e')) :
    e'.fatal = true ∨ ∃ past, (deferredOrder q (some past)).Ready q e' ∧
      (Ledger.of q e'.log).calls[past.length]? = none := by
  -- On the turns that are left: `past` grows by the call whose turn it was, run or cancelled.
  induction fuel generalizing past e with
  | zero => cases run
  | succ fuel ih =>
    have ledgered : e.Ledgered q (some past) q := ready.holds
    have next := nextCall ledgered past.length
    unfold deferredFrom at run
    obtain ⟨_, _, loaded, run⟩ := Run.okOfBind run
    cases loaded
    unfold takeDeferred at run
    rw [next] at run
    cases there : (Ledger.of q e.log).calls[past.length]? with
    | none =>
      rw [there] at run
      cases run
      exact .inr ⟨past, ready, there⟩
    | some r =>
      rw [there] at run
      dsimp only [Option.map_some] at run
      obtain ⟨_, _, stored, run⟩ := Run.okOfBind run
      cases stored
      have named := ledgered.tells.named r (List.mem_of_getElem? there)
      rw [RegisteredCall.entryWaits named, ledgered.current] at run
      by_cases waits : r.state = .waiting
      · have here : r.entry = r.call := if_pos waits
        simp only [here, waits, beq_self_eq_true, if_true] at run
        obtain ⟨_, e₁, called, rest⟩ := Run.okOfBind run
        change (if e₁.fatal then return
          else deferredFrom (Runner.ofFuel n) fuel (past.length + 1)) e₁ = .ok ((), e') at rest
        cases stops : e₁.fatal with
        | true =>
          rw [stops] at rest
          cases rest
          exact .inl stops
        | false =>
          rw [stops] at rest
          have ended := runDeferredCallOrder ready there waits called
          refine ih (ended.resolve_left (by simp [stops])) ?_
          rw [List.length_append]
          exact rest
      · rw [beq_eq_false_iff_ne.mpr waits] at run
        have skipped : (deferredOrder q (some (past ++ [r]))).Ready q e := by
          refine ⟨⟨{ ledgered with past := fun past' known => ?_ }, ready.tidy⟩, ready.free⟩
          cases known
          obtain ⟨isOpen, before⟩ := ledgered.past past rfl
          exact ⟨isOpen, before.skip there waits⟩
        refine ih skipped ?_
        rw [List.length_append]
        exact run

structure AllTurned (q : Nat) (past : List RegisteredCall) (e : Engine) : Prop where
  ready : (deferredOrder q (some past)).Ready q e
  all : (Ledger.of q e.log).calls[past.length]? = none

theorem AllTurned.unqueued (turned : AllTurned q past e) (same : e.Unqueued e')
    (sameOpen : e.SameOpen e') : AllTurned q past e' where
  ready := ⟨⟨turned.ready.holds.unqueued same, fun strict =>
    (turned.ready.tidy strict).sameOpen sameOpen⟩, fun strict =>
      (turned.ready.free strict).sameOpen sameOpen⟩
  all := same.ledger q ▸ turned.all

theorem callsOrder {n : Nat} {path : String} (holds : (deferredOrder q (some [])).Holds q e)
    (run : (Runner.ofFuel n).deferred path e = .ok ((), e'))
    (free : ∀ entry ∈ e'.log, entry.event = .queue q .begun → entry.blocks.blocks = []) :
    e'.fatal = true ∨ ∃ past, AllTurned q past e' := by
  have ledgered : e.Ledgered q (some []) q := holds.holds
  let entered := (e.changeQueue e.current .begun).pushFrame (.ofDeferred path)
  change (do
    (Runner.ofFuel n).deferredFrom ((Runner.ofFuel n).rounds + entered.queueLength) 0
    modify (·.popFrame) : Run Unit) entered = .ok ((), e') at run
  obtain ⟨_, e₁, flushed, left⟩ := Run.okOfBind run
  cases left
  have log : entered.log = ⟨.queue q .begun, e.blocks⟩ :: e.log := by
    change (e.changeQueue e.current .begun).log = _
    rw [ledgered.current, logChange e .begun (ledgered.placed rfl)]
  have grown : entered.log <:+ e₁.log := by
    have base : (standstill entered).Holds () entered :=
      ⟨⟨List.suffix_refl _, List.suffix_refl _, id⟩, nofun⟩
    have runs := ((standstill entered).runs n).conduct
    exact ((deferredFromEnds runs _ 0 trivial base).ok flushed).holds.log
  have empty : e.Free := by
    refine free ⟨.queue q .begun, e.blocks⟩ ?_ rfl
    exact grown.subset (log ▸ List.mem_cons_self ..)
  have same : e.SameOpen (e.changeQueue e.current .begun) := .hosted e e.current rfl
  have begun : (e.changeQueue e.current .begun).Ledgered q (some []) q :=
    ledgered.changeQueue nofun nofun fun _ _ => .inr rfl
  have ready : (deferredOrder q (some [])).Ready q entered :=
    ⟨⟨begun.unqueued (.other rfl rfl rfl), fun strict =>
      ((holds.tidy strict).sameOpen same).pushFrame _⟩, fun _ =>
        show (e.changeQueue e.current .begun).Free from empty.sameOpen same⟩
  refine (deferredFromOrder ready flushed).imp_right fun ⟨past, ready, all⟩ => ⟨past, ?_, all⟩
  have left : e₁.popFrame.Ledgered q (some past) q := ready.holds.unqueued (.other rfl rfl rfl)
  exact ⟨⟨left, fun strict => (ready.tidy strict).popFrame⟩, ready.free⟩

theorem fileOrder {n : Nat} {f : ListFile} {path : String}
    (ready : (deferredOrder q (some [])).Ready q e)
    (run : (Runner.ofFuel n).file f path true e = .ok ((), e')) (live : e'.fatal = false)
    (free : ∀ entry ∈ e'.log, entry.event = .queue q .begun → entry.blocks.blocks = []) :
    (∃ past, AllTurned q past e') ∨ e'.Ledgered q (some []) q ∧ e'.exitCode ≠ none := by
  have runs : (deferredOrder q (some [])).Runs (Runner.ofFuel n) := Discipline.runs n
  let saved := fileVariables.map fun name => (name, e.definition? name)
  let restore : Run Unit :=
    modify fun e => saved.foldl (fun e entry => e.assign entry.1 entry.2) e
  let entered := (e.define "CMAKE_CURRENT_LIST_FILE" path).define "CMAKE_CURRENT_LIST_DIR"
    (Path.parent path)
  change (do
    (Runner.ofFuel n).commands f.commands
    modify fun e => e.logged (.fileLeft e.fatal)
    if true && (← get).exitCode.isNone then (Runner.ofFuel n).deferred path
    restore : Run Unit) entered = .ok ((), e') at run
  have ready : (deferredOrder q (some [])).Ready q entered :=
    (ready.moves trivial (.define ..)).moves trivial (.define ..)
  obtain ⟨_, e₁, commands, rest⟩ := Run.okOfBind run
  obtain ⟨s, e₀, stays, holds, -, rfl⟩ :=
    (commandsEnds runs.conduct f.commands ready.toHolds).ok commands
  have left : (deferredOrder q (some [])).Holds q
      ((s.endFile e₀).logged (.fileLeft (s.endFile e₀).fatal)) :=
    Discipline.sameStatus (holds.fileLeft stays)
  replace rest : (if (true && ((s.endFile e₀).logged
      (.fileLeft (s.endFile e₀).fatal)).exitCode.isNone) = true then do
        (Runner.ofFuel n).deferred path
        restore
      else restore) ((s.endFile e₀).logged (.fileLeft (s.endFile e₀).fatal)) =
    .ok ((), e') := rest
  generalize (s.endFile e₀).logged (.fileLeft (s.endFile e₀).fatal) = e₁ at left rest
  have restored (e : Engine) : Edits e
      (saved.foldl (fun e entry => e.assign entry.1 entry.2) e) := .assignAll saved e
  cases exit : e₁.exitCode with
  | some code =>
    rw [exit] at rest
    cases rest
    have known := (Steady.edits (restored e₁)).exitCode.trans exit
    exact .inr ⟨left.holds.edits (restored e₁), by simp [known]⟩
  | none =>
    rw [exit] at rest
    obtain ⟨_, e₂, flushed, last⟩ := Run.okOfBind rest
    cases last
    have steady := Steady.edits (restored e₂)
    obtain ⟨entries, -, log⟩ := steady.log
    obtain stops | ⟨past, turned⟩ := callsOrder left flushed fun entry member =>
      free entry (log ▸ List.mem_append_right _ member)
    · rw [steady.fatal stops] at live
      cases live
    · exact .inl ⟨past, turned.unqueued (.assignAll saved e₂) (.edits (restored e₂))⟩

theorem closeUnqueued (turned : AllTurned q past e) (handle : ScopeHandle) (report : Bool) :
    e.Unqueued (closeFile handle report e) := by
  have barrier (report : Bool) : e.Unqueued (e.closeBarrier report) := by
    unfold Engine.closeBarrier
    rw [(turned.ready.tidy trivial).blocks.popBarrier, turned.ready.free trivial]
    exact .logged e _ rfl
  exact ((barrier _).trans (.closeScope ..)).trans (.other rfl rfl rfl)

theorem closeSteady {handle : ScopeHandle} {report : Bool}
    (closed : (closeFile handle report e).changeQueue
      (closeFile handle report e).current .closed = e') : e.Steady e' := by
  have left : e.Steady (closeFile handle report e) :=
    (Steady.turns (.closeBarrierScope ..)).trans (.other rfl rfl id rfl)
  exact closed ▸ left.trans (.changeQueue ..)

theorem closeOrder (handle : ScopeHandle) (report : Bool)
    (ended : (∃ past, AllTurned q past e) ∨ e.Ledgered q (some []) q ∧ e.exitCode ≠ none)
    (closed : (closeFile handle report e).changeQueue
      (closeFile handle report e).current .closed = e')
    (flushed : e'.exitCode = none ∨ (Ledger.of q e'.log).ran ≠ []) :
    (∀ r ∈ (Ledger.of q e'.log).calls, r.state = .executed ∨ r.state = .cancelled) ∧
      (Ledger.of q e'.log).ran = executedCommands (Ledger.of q e'.log).calls := by
  have steady := closeSteady closed
  have ledger {past : List RegisteredCall} (ledgered : e.Ledgered q (some past) q) :
      (closeFile handle report e).Ledgered q (some past) q ∧
        Ledger.of q e'.log = (Ledger.of q (closeFile handle report e).log).change .closed := by
    have left : (closeFile handle report e).Ledgered q (some past) q :=
      (ledgered.turns (.closeBarrierScope ..)).unqueued (.other rfl rfl rfl)
    rw [← closed, left.current]
    exact ⟨left, ledgerChange _ .closed (left.placed rfl)⟩
  obtain ⟨past, turned⟩ | ⟨ledgered, exits⟩ := ended
  · obtain ⟨-, closed⟩ := ledger turned.ready.holds
    rw [(closeUnqueued turned handle report).ledger] at closed
    obtain ⟨settled, ran⟩ := ((turned.ready.holds.past past rfl).2).all turned.all
    rw [closed, Ledger.closeSettled settled]
    exact ⟨settled, ran⟩
  · obtain ⟨left, closed⟩ := ledger ledgered
    obtain none | some := flushed
    · exact absurd (steady.exitCode.symm.trans none) exits
    · rw [closed] at some
      exact absurd (left.past [] rfl).2.ran some

theorem scriptOrder {n : Nat} {f : ListFile} {path : String}
    (ready : (deferredOrder q none).Ready q e) (inside : q < e.runs.size)
    (run : (Runner.ofFuel n).script f path e = .ok ((), e')) (live : e'.fatal = false)
    (free : ∀ entry ∈ e'.log, entry.event = .queue q .begun → entry.blocks.blocks = [])
    (flushed : e'.exitCode = none ∨ (Ledger.of q e'.log).ran ≠ []) :
    (∀ r ∈ (Ledger.of q e'.log).calls, r.state = .executed ∨ r.state = .cancelled) ∧
      (Ledger.of q e'.log).ran = executedCommands (Ledger.of q e'.log).calls := by
  let placed := e.placeTop e.platform.currentDirectory e.platform.currentDirectory
  let named := if placed.options.mode = .script then placed.define "CMAKE_SCRIPT_MODE_FILE" path
    else placed
  let begun := (named.changeQueue named.current .opened).pushFrame (.ofFile path)
  let opened := begun.openScope (ScopeOpening.inlineFile path).create
  change (do
    (Runner.ofFuel n).file f path true
    modify (closeFile opened.1 true)
    modify fun e => e.changeQueue e.current .closed : Run Unit) opened.2.openBarrier =
      .ok ((), e') at run
  have ready : (deferredOrder q none).Ready q named := by
    have placed := ready.moves trivial (placeTopMoves e e.platform.currentDirectory e.platform.currentDirectory)
    unfold named
    split
    · exact placed.moves trivial (.define ..)
    · exact placed
  have inside : q < named.runs.size := by
    unfold named
    split <;> exact inside
  clear_value named
  have begins : begun.Ledgered q (some []) q := by
    have current : named.current = q := ready.holds.current
    have opens : (named.changeQueue named.current .opened).Ledgered q (some []) q := by
      rw [current]
      exact ready.holds.opened inside
    exact opens.unqueued (.other rfl rfl rfl)
  have ready : (deferredOrder q (some [])).Ready q opened.2.openBarrier := by
    have queued := ready.queue nofun .opened rfl trivial
    obtain ⟨place, -, entered, -⟩ := enterFile queued path (.inlineFile path)
    exact ⟨⟨begins.turns ((Turns.openScope ..).trans (.openBarrier _)), entered.tidy⟩, entered.free⟩
  generalize opened.1 = handle at run
  generalize opened.2.openBarrier = e₀ at run ready
  obtain ⟨_, e₁, filed, left⟩ := Run.okOfBind run
  have closed : (closeFile handle true e₁).changeQueue (closeFile handle true e₁).current .closed =
      e' := (Prod.mk.inj (Except.ok.inj left)).2
  have steady := closeSteady closed
  obtain ⟨entries, -, log⟩ := steady.log
  have live₁ : e₁.fatal = false := eq_false_of_ne_true fun stops => by
    rw [steady.fatal stops] at live
    cases live
  have ended := fileOrder ready filed live₁ fun entry member =>
    free entry (log ▸ List.mem_append_right _ member)
  exact closeOrder handle true ended closed flushed

end Runner
namespace Engine

variable {e e' : Engine} {directory : Option String}

theorem ledgeredStart (options : Options) (platform : Platform)
    (environment : List (String × String)) (q : Nat) :
    (deferredOrder q none).Ready 0 (start options platform environment) ∧
      (start options platform environment).runs.size = 1 := by
  have tidy := tidyStart options platform environment
  obtain ⟨environment', cache, errorOccurred, same⟩ := startCases options platform environment
  rw [same] at tidy ⊢
  refine ⟨⟨⟨⟨rfl, trivial, ⟨fun calls known => ?_, nofun, nofun⟩, nofun⟩, fun _ => tidy⟩,
    fun _ => rfl⟩, rfl⟩
  obtain ⟨run, there, queue⟩ := Option.bind_eq_some_iff.mp known
  obtain ⟨inside, rfl⟩ := Array.getElem?_eq_some_iff.mp there
  obtain rfl : q = 0 := Nat.lt_one_iff.mp inside
  cases queue

theorem deferCallLogs {id : Option String} {command : Command} {name : String}
    (queued : e.deferCall directory id command = .ok (name, e')) :
    ∃ q, e.deferTarget directory = .ok q ∧
      e'.log = ⟨.queue q (.deferred ⟨name, e.listFile, command⟩), e.blocks⟩ :: e.log := by
  obtain ⟨q, target, queued⟩ := okOfBind queued
  split at queued
  · cases queued
  case h_2 calls found =>
    cases queued
    obtain ⟨run, there, -⟩ := Option.bind_eq_some_iff.mp found
    exact ⟨q, target, logChange e _ (Array.getElem?_eq_some_iff.mp there).1⟩

theorem deferCancelLogs {ids : List String} (cancelled : e.deferCancel directory ids = .ok e') :
    ∃ q, e.deferTarget directory = .ok q ∧ (q < e.runs.size →
      e'.log = ⟨.queue q (.cancelled ids), e.blocks⟩ :: e.log) := by
  obtain ⟨q, target, cancelled⟩ := okOfBind cancelled
  cases cancelled
  exact ⟨q, target, logChange e _⟩

theorem deferIdsLogs {ids : List String} (listed : e.deferIds directory = .ok (ids, e')) :
    ∃ q, e.deferTarget directory = .ok q ∧ (q < e.runs.size →
      e'.log = ⟨.queue q (.listed ids), e.blocks⟩ :: e.log) := by
  obtain ⟨q, target, listed⟩ := okOfBind listed
  cases listed
  exact ⟨q, target, logChange e _⟩

end Engine

theorem Runner.sourceOrder (options : Options) (platform : Platform)
    (environment : List (String × String)) (path source : String) (fuel : Nat) {code : Int}
    {e : Engine} (ended : (Runner.ofFuel fuel).runSource path source
      (Engine.start options platform environment) = .ok (.ok code, e)) (live : e.fatal = false)
    (free : ∀ entry ∈ e.log, entry.event = .queue 0 .begun → entry.blocks.blocks = [])
    (flushed : e.exitCode = none ∨ (Ledger.of 0 e.log).ran ≠ []) :
    (∀ r ∈ (Ledger.of 0 e.log).calls, r.state = .executed ∨ r.state = .cancelled) ∧
      (Ledger.of 0 e.log).ran = executedCommands (Ledger.of 0 e.log).calls := by
  obtain ⟨ready, size⟩ := Engine.ledgeredStart options platform environment 0
  unfold runSource at ended
  obtain ⟨read, _, text, ended⟩ := Run.okOfBind ended
  obtain ⟨-, rfl⟩ := readTextOk text
  cases read with
  | error faulty => cases ended
  | ok f =>
    obtain ⟨_, e₁, run, rest⟩ := Run.okOfBind ended
    cases rest
    exact scriptOrder ready (size ▸ Nat.one_pos) run live free flushed

/-- The log tells of every call that is registered and of every cancellation. Whenever the names of
the calls are asked for, they are those of the calls neither executed nor cancelled by then, in the
order of registration. In a script that leaves no block open, that asks for no exit, and that does
not have to stop, in the end every call was executed or had been cancelled before its turn, and
the commands that were run are those of the calls executed, each once and in this order. -/
theorem deferredRunInOrder (options : Options) (platform : Platform)
    (environment : List (String × String)) (path source : String) (fuel : Nat) :
    let start := Engine.start options platform environment
    let run := (Runner.ofFuel fuel).runSource path source
    ((∀ (e e' : Engine) directory id command name,
        e.deferCall directory id command = .ok (name, e') → ∃ q, e.deferTarget directory = .ok q ∧
          e'.log = ⟨.queue q (.deferred ⟨name, e.listFile, command⟩), e.blocks⟩ :: e.log) ∧
      (∀ (e e' : Engine) directory ids, e.deferCancel directory ids = .ok e' →
        ∃ q, e.deferTarget directory = .ok q ∧ (q < e.runs.size →
          e'.log = ⟨.queue q (.cancelled ids), e.blocks⟩ :: e.log)) ∧
      (∀ (e e' : Engine) directory ids, e.deferIds directory = .ok (ids, e') →
        ∃ q, e.deferTarget directory = .ok q ∧ (q < e.runs.size →
          e'.log = ⟨.queue q (.listed ids), e.blocks⟩ :: e.log))) ∧
    (∀ q ids blocks later earlier,
      (run.state start).log = later ++ ⟨.queue q (.listed ids), blocks⟩ :: earlier →
      ids = (Ledger.of q earlier).waitingIds) ∧
    ∀ code e, run start = .ok (.ok code, e) → e.fatal = false → ¬ExitAsked e.log →
      (∀ entry ∈ e.log, entry.event = .queue 0 .begun → entry.blocks.blocks = []) →
      let ledger := Ledger.of 0 e.log
      (∀ r ∈ ledger.calls, r.state = .executed ∨ r.state = .cancelled) ∧
        ledger.ran = executedCommands ledger.calls := by
  intro start run
  refine ⟨⟨fun _ _ _ _ _ _ => Engine.deferCallLogs, fun _ _ _ _ => Engine.deferCancelLogs,
    fun _ _ _ _ => Engine.deferIdsLogs⟩, fun q ids blocks later earlier log => ?_,
    fun code e ended live own free => ?_⟩
  · obtain ⟨ready, -⟩ := Engine.ledgeredStart options platform environment q
    have ends := Runner.runSourceEnds ((deferredOrder q none).runs fuel) path source ready nofun
    have answers : Ledger.Answers q (run.state start).log :=
      ends.state (fun _ _ ready => ready.holds.answers) fun _ stopped => stopped.stopped
    rw [log] at answers
    exact answers.listed rfl
  · obtain ⟨candid, -⟩ := Runner.sourceCandid options platform environment path source fuel ended
    exact Runner.sourceOrder options platform environment path source fuel ended live free
      (.inl (candid.exits own).1)

theorem callsCancelCalls :
    let source := "cmake_language(DEFER CALL cmake_language DEFER CANCEL_CALL b)\n" ++
      "cmake_language(DEFER ID b CALL message x)\n" ++
      "cmake_language(DEFER CALL cmake_language DEFER GET_CALL_IDS v)\n" ++
      "cmake_language(DEFER ID c CALL message y)\n"
    let start := Engine.start { mode := .script } {} []
    let run := (Runner.ofFuel 9).runSource "a.cmake" source
    (∃ e', (start.changeQueue 0 .opened).deferCall none none ⟨"message", 1, 1, []⟩ =
        .ok ("__0", e') ∧
      ∃ q file, e'.log = ⟨.queue q (.deferred ⟨"__0", file, ⟨"message", 1, 1, []⟩⟩), ⟨[], []⟩⟩ ::
        (start.changeQueue 0 .opened).log) ∧
    (∃ blocks later earlier,
      (run.state start).log = later ++ ⟨.queue 0 (.listed ["c"]), blocks⟩ :: earlier ∧
      ["c"] = (Ledger.of 0 earlier).waitingIds) ∧
    ∃ e, run start = .ok (.ok 0, e) ∧
      (Ledger.of 0 e.log).calls.map (·.state) = [.executed, .cancelled, .executed, .executed] ∧
      (Ledger.of 0 e.log).ran = executedCommands (Ledger.of 0 e.log).calls := by
  intro source start run
  obtain ⟨⟨registers, -⟩, lists, order⟩ :=
    deferredRunInOrder { mode := .script } {} [] "a.cmake" source 9
  have checked :
      let e := run.state start
      let later := e.log.takeWhile (·.event != .queue 0 (.listed ["c"]))
      (e.log = later ++ ⟨.queue 0 (.listed ["c"]), ⟨[], [0]⟩⟩ :: e.log.drop (later.length + 1) ∧
        e.fatal = false ∧ ¬ExitAsked e.log ∧
        (∀ entry ∈ e.log, entry.event = .queue 0 .begun → entry.blocks.blocks = []) ∧
        (Ledger.of 0 e.log).calls.map (·.state) =
          [.executed, .cancelled, .executed, .executed]) ∧
      (run start).toOption.map (·.1.toOption) = some (some 0) := by
    decide +kernel
  obtain ⟨⟨log, live, own, free, states⟩, answered⟩ := checked
  have listed := lists _ _ _ _ _ log
  refine ⟨?_, ⟨_, _, _, log, listed⟩, ?_⟩
  · obtain ⟨q, -, logged⟩ := registers (start.changeQueue 0 .opened) _ none none
      ⟨"message", 1, 1, []⟩ "__0" rfl
    exact ⟨_, rfl, q, _, logged⟩
  · have ended := Run.answers answered
    exact ⟨_, ended, states, (order 0 _ ended live own free).2⟩

end CMakeScript
