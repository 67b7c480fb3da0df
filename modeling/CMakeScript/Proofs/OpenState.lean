import CMakeScript.Execution.Dispatch
import CMakeScript.Proofs.Edits
/-! What is open in a run: the block that is being recorded, the barriers, the commands and files
that are being executed. Edits and scopes leave all of it alone. -/
namespace CMakeScript

def Builtin.opens : Builtin → Bool
  | ifBlock | whileLoop | foreachLoop | functionDef | macroDef | scopeBlock => true
  | _ => false

def Callable.opens : Callable → Bool
  | builtin b => b.opens
  | defined _ => false

theorem Callable.builtinOf {target : Callable} (opens : target.opens = true) :
    ∃ b, target = .builtin b := by
  cases target with
  | builtin b => exact ⟨b, rfl⟩
  | defined d => cases opens

def Event.OutsideBlocks : Event → Prop
  | .dispatched _ | .barrierTaken => True
  | .returned target => target.opens = false
  | _ => False

theorem memModify {α : Type} {f : α → α} {a : α} {place : Nat} {items : List α}
    (member : a ∈ items.modify place f) : ∃ before ∈ items, a = before ∨ a = f before := by
  obtain ⟨i, there, rfl⟩ := List.mem_iff_getElem.mp member
  have inside : i < items.length := List.length_modify f items place ▸ there
  refine ⟨items[i], List.getElem_mem inside, ?_⟩
  rw [List.getElem_modify]
  split
  · exact .inr rfl
  · exact .inl rfl

theorem logJoined {kind : LogEntry → Prop} {log log' log'' : List LogEntry}
    (first : ∃ entries, (∀ entry ∈ entries, kind entry) ∧ log' = entries ++ log)
    (second : ∃ entries, (∀ entry ∈ entries, kind entry) ∧ log'' = entries ++ log') :
    ∃ entries, (∀ entry ∈ entries, kind entry) ∧ log'' = entries ++ log := by
  obtain ⟨entries, ofKind, rfl⟩ := first
  obtain ⟨entries', ofKind', rfl⟩ := second
  refine ⟨entries' ++ entries, fun entry member => ?_, (List.append_assoc ..).symm⟩
  exact (List.mem_append.mp member).elim (ofKind' entry) (ofKind entry)

theorem logIdle {α : Type} {read : List LogEntry → α} {P : List LogEntry → Prop}
    {idle : LogEntry → Prop} {entries : List LogEntry}
    (each : ∀ {entry} log, idle entry →
      read (entry :: log) = read log ∧ (P log → P (entry :: log)))
    (ofKind : ∀ entry ∈ entries, idle entry) (log : List LogEntry) :
    read (entries ++ log) = read log ∧ (P log → P (entries ++ log)) := by
  induction entries with
  | nil => exact ⟨rfl, id⟩
  | cons entry entries ih =>
    obtain ⟨same, kept⟩ := ih fun entry member => ofKind entry (List.mem_cons_of_mem _ member)
    obtain ⟨last, more⟩ := each (entries ++ log) (ofKind entry (List.mem_cons_self ..))
    exact ⟨last.trans same, fun before => more (kept before)⟩

theorem QueueChange.applyKnown {change : QueueChange} {queue : Option (List DeferredCall)}
    (callable : ∀ call, change = .deferred call → call.command.IsCallable) {call : DeferredCall}
    (member : call ∈ (change.apply queue).getD []) :
    call.command.IsCallable ∨ ∃ before ∈ queue.getD [], before.command = call.command := by
  cases queue with
  | none => cases change <;> cases member
  | some calls =>
    cases change with
    | opened => cases member
    | closed => cases member
    | listed => exact .inr ⟨call, member, rfl⟩
    | begun => exact .inr ⟨call, member, rfl⟩
    | deferred new =>
      obtain before | here := List.mem_append.mp member
      · exact .inr ⟨call, before, rfl⟩
      · rw [List.mem_singleton.mp here]
        exact .inl (callable new rfl)
    | cancelled ids =>
      obtain ⟨before, inside, rfl⟩ := List.mem_map.mp member
      refine .inr ⟨before, inside, ?_⟩
      split <;> rfl
    | taken place =>
      obtain ⟨before, inside, rfl | rfl⟩ := memModify member
      · exact .inr ⟨call, inside, rfl⟩
      · exact .inr ⟨before, inside, rfl⟩

namespace Engine

theorem deferredAtChange (e : Engine) (i j : Nat) (change : QueueChange) :
    (e.changeQueue i change).deferredAt j =
      if i = j ∧ j < e.runs.size then change.apply (e.deferredAt j) else e.deferredAt j := by
  unfold changeQueue
  split
  case isTrue inside =>
    simp only [deferredAt, logged, Array.getElem?_modify]
    split
    case isTrue here =>
      subst here
      rw [if_pos ⟨rfl, inside⟩, Array.getElem?_eq_getElem inside]
      rfl
    case isFalse other => rw [if_neg fun here => other here.1]
  case isFalse outside =>
    rw [if_neg]
    rintro ⟨rfl, inside⟩
    exact outside inside

theorem scopesChange (e : Engine) (i : Nat) (change : QueueChange) :
    (e.changeQueue i change).scopes = e.scopes := by
  unfold changeQueue
  split <;> rfl

theorem snapshotChange (e : Engine) (i : Nat) (change : QueueChange) :
    (e.changeQueue i change).snapshot = e.snapshot := by
  unfold changeQueue
  split
  · simp only [snapshot, logged, Array.getElem?_modify]
    split <;> cases e.runs[e.current]? <;> rfl
  · rfl

theorem issueAtCases (e : Engine) (kind : MessageKind) (text : String) (trace : Backtrace) :
    ∃ nested written errorOccurred,
      e.issueAt kind text trace = { e with nested, written, errorOccurred } ∧
      nested.length = e.nested.length ∧
      ((kind.shown? e.warnings = none ∧ written = e.written) ∨
        ∃ shown text', kind.shown? e.warnings = some shown ∧
          written = e.written.push { stream := .errors, text := text', kind := some shown }) := by
  have marked : ∃ nested, nested.length = e.nested.length ∧
      (if kind = .fatalError ∨ kind = .internalError then e.markNested else e) =
        { e with nested } := by
    split_ifs
    · unfold markNested
      split
      case h_1 => exact ⟨e.nested, rfl, rfl⟩
      case h_2 mark rest same => exact ⟨true :: rest, by simp [same], rfl⟩
    · exact ⟨e.nested, rfl, rfl⟩
  obtain ⟨nested, length, marked⟩ := marked
  unfold issueAt
  rw [marked]
  dsimp only
  split
  case h_1 hidden => exact ⟨nested, e.written, e.errorOccurred, rfl, length, .inl ⟨hidden, rfl⟩⟩
  case h_2 shown visible =>
    split <;> exact ⟨nested, _, _, rfl, length, .inr ⟨shown, _, visible, rfl⟩⟩

theorem issueOptions (e : Engine) (kind : MessageKind) (text : String) :
    (e.issue kind text).options = e.options := by
  obtain ⟨nested, written, errorOccurred, issued, -⟩ := issueAtCases e kind text e.backtrace
  rw [issue, issued]

def showAs (e : Engine) (text : MessageKind → String) : Option MessageKind → Engine
  | none => e
  | some shown =>
    let e := e.writeDiagnostic shown (text shown)
    if shown.isError then { e with errorOccurred := true } else e

theorem showAsFatal (e : Engine) (text : MessageKind → String) (shown? : Option MessageKind) :
    e.setFatal.showAs text shown? = (e.showAs text shown?).setFatal := by
  cases shown? with
  | none => rfl
  | some shown =>
    unfold showAs
    dsimp only
    split <;> rfl

theorem issueAtShows (e : Engine) (kind : MessageKind) (text : String) (trace : Backtrace) :
    ∀ e₁, e₁ = (if kind = .fatalError ∨ kind = .internalError then e.markNested else e) →
      e.issueAt kind text trace = e₁.showAs (fun shown =>
        Diagnostic.format shown (fullText kind text) trace e₁.topSource)
          (kind.shown? e₁.warnings) := by
  rintro _ rfl
  unfold issueAt
  generalize (if kind = .fatalError ∨ kind = .internalError then e.markNested else e) = e₁
  dsimp only
  cases kind.shown? e₁.warnings <;> rfl

theorem issueFatal (e : Engine) (kind : MessageKind) (text : String) :
    e.setFatal.issue kind text = (e.issue kind text).setFatal := by
  have marked : e.setFatal.markNested = e.markNested.setFatal := by
    unfold markNested
    cases nested : e.nested <;> simp [setFatal, nested]
  unfold issue
  rw [issueAtShows e.setFatal _ _ _ _ rfl, issueAtShows e _ _ _ _ rfl]
  split
  · rw [marked]
    exact showAsFatal e.markNested _ _
  · exact showAsFatal e _ _

structure SameOpen (e e' : Engine) : Prop where
  registry : e'.registry = e.registry
  backtrace : e'.backtrace = e.backtrace
  depth : e'.depth = e.depth
  nested : e'.nested.length = e.nested.length
  blocks : e'.blocks = e.blocks
  current : e'.current = e.current
  deferred : ∀ {i call}, call ∈ (e'.deferredAt i).getD [] → call.command.IsCallable ∨
    ∃ before ∈ (e.deferredAt i).getD [], before.command = call.command
  log : ∃ events : List Event, (∀ event ∈ events, ¬event.OutsideBlocks) ∧
    e'.log = events.map (⟨·, e.blocks⟩) ++ e.log
  written : ∀ w ∈ e.written, w ∈ e'.written

namespace SameOpen

variable {e e' e'' : Engine}

theorem other (registry : e'.registry = e.registry) (backtrace : e'.backtrace = e.backtrace)
    (depth : e'.depth = e.depth) (nested : e'.nested.length = e.nested.length)
    (blocks : e'.blocks = e.blocks) (current : e'.current = e.current) (runs : e'.runs = e.runs)
    (log : e'.log = e.log) (written : ∀ w ∈ e.written, w ∈ e'.written) : e.SameOpen e' :=
  { registry, backtrace, depth, nested, blocks, current, written,
    deferred := fun {i call} member => .inr ⟨call, by rwa [deferredAt, ← runs], rfl⟩,
    log := ⟨[], by simp, by simp [log]⟩ }

theorem refl (e : Engine) : e.SameOpen e :=
  other rfl rfl rfl rfl rfl rfl rfl rfl fun _ kept => kept

theorem trans (first : e.SameOpen e') (second : e'.SameOpen e'') : e.SameOpen e'' where
  registry := second.registry.trans first.registry
  backtrace := second.backtrace.trans first.backtrace
  depth := second.depth.trans first.depth
  nested := second.nested.trans first.nested
  blocks := second.blocks.trans first.blocks
  current := second.current.trans first.current
  deferred member := by
    obtain callable | ⟨before, inside, same⟩ := second.deferred member
    · exact .inl callable
    · rw [← same]
      exact first.deferred inside
  log := by
    obtain ⟨events, quiet, log⟩ := first.log
    obtain ⟨events', quiet', log'⟩ := second.log
    refine ⟨events' ++ events, ?_, ?_⟩
    · intro event member
      obtain inside | inside := List.mem_append.mp member
      · exact quiet' event inside
      · exact quiet event inside
    · rw [log', log, first.blocks, List.map_append, List.append_assoc]
  written w kept := second.written w (first.written w kept)

theorem logged (e : Engine) {event : Event} (quiet : ¬event.OutsideBlocks) :
    e.SameOpen (e.logged event) :=
  { refl e with
    log := ⟨[event], by simpa using quiet, rfl⟩ }

theorem counts (counts : e.Counts e') : e.SameOpen e' := by
  cases counts
  exact other rfl rfl rfl rfl rfl rfl rfl rfl fun _ kept => kept

theorem endLoop (e : Engine) : e.SameOpen e.endLoop := by
  have ended : e.SameOpen (e.logged .loopEnded) := logged e fun outside => outside
  exact ended.trans (counts (.closeLoop _))

theorem write (e : Engine) (w : Written) (errorOccurred : Bool) :
    e.SameOpen { e with written := e.written.push w, errorOccurred } :=
  other rfl rfl rfl rfl rfl rfl rfl rfl fun _ kept => Array.mem_push_of_mem w kept

theorem display (e : Engine) (kind : MessageKind) (text : String) :
    e.SameOpen (e.display kind text) := by
  unfold Engine.display
  split <;> exact write ..

theorem issueAt (e : Engine) (kind : MessageKind) (text : String) (trace : Backtrace) :
    e.SameOpen (e.issueAt kind text trace) := by
  obtain ⟨nested, written, errorOccurred, issued, length, shown⟩ := issueAtCases e kind text trace
  rw [issued]
  refine other rfl rfl rfl length rfl rfl rfl rfl fun w kept => ?_
  obtain ⟨-, rfl⟩ | ⟨shown, text', -, rfl⟩ := shown
  · exact kept
  · exact Array.mem_push_of_mem _ kept

theorem setFatal (e : Engine) : e.SameOpen e.setFatal :=
  other rfl rfl rfl rfl rfl rfl rfl rfl fun _ kept => kept

theorem noteStop (e : Engine) : e.SameOpen e.noteStop := by
  unfold Engine.noteStop
  split
  · have noted : e.SameOpen (e.logged .stopped) := logged e id
    exact { noted with }
  · exact refl e

theorem internalError (e : Engine) (error : ScopeError) : e.SameOpen (e.internalError error) :=
  (issueAt ..).trans (setFatal _)

theorem scopes (e : Engine) (scopes : Scopes) : e.SameOpen { e with scopes } :=
  other rfl rfl rfl rfl rfl rfl rfl rfl fun _ kept => kept

theorem setSnapshot (e : Engine) (id : Nat) : e.SameOpen (e.setSnapshot id) :=
  { refl e with
    deferred := fun {i call} member => by
      refine .inr ⟨call, ?_, rfl⟩
      have same : (e.setSnapshot id).deferredAt i = e.deferredAt i := by
        simp only [deferredAt, Engine.setSnapshot, Array.getElem?_modify]
        split <;> cases e.runs[i]? <;> rfl
      rwa [← same] }

theorem changeQueue (e : Engine) (i : Nat) {change : QueueChange}
    (callable : ∀ call, change = .deferred call → call.command.IsCallable) :
    e.SameOpen (e.changeQueue i change) := by
  have deferred {j : Nat} {call : DeferredCall}
      (member : call ∈ ((e.changeQueue i change).deferredAt j).getD []) :
      call.command.IsCallable ∨
        ∃ before ∈ (e.deferredAt j).getD [], before.command = call.command := by
    rw [deferredAtChange] at member
    split at member
    · exact QueueChange.applyKnown callable member
    · exact .inr ⟨call, member, rfl⟩
  unfold Engine.changeQueue at deferred ⊢
  split
  case isTrue inside =>
    simp only [if_pos inside] at deferred
    have noted : e.SameOpen (e.logged (.queue i change)) := logged e id
    exact { noted with deferred }
  case isFalse => exact refl e

theorem edit (edit : Edit e e') : e.SameOpen e' := by
  cases edit with
  | issue _ text trace => exact issueAt ..
  | display _ text => exact display ..
  | lost _ error => exact internalError ..
  | tested => exact logged e id
  | queue free => exact changeQueue e _ free.callable
  | output text => exact write ..
  | errors text => exact write ..
  | _ => exact other rfl rfl rfl rfl rfl rfl rfl rfl fun _ kept => kept

theorem edits (edits : Edits e e') : e.SameOpen e' := by
  induction edits with
  | refl => exact refl e
  | tail _ last ih => exact ih.trans (edit last)

end SameOpen

theorem placedSnapshot {e : Engine} (named : 0 < e.snapshot) : e.current < e.runs.size := by
  rcases Nat.lt_or_ge e.current e.runs.size with placed | outside
  · exact placed
  · have nowhere : e.snapshot = 0 := by
      rw [snapshot, Array.getElem?_eq_none outside]
      rfl
    omega

theorem snapshotMoved {e : Engine} (placed : e.current < e.runs.size) (scopes : Scopes) (id : Nat)
    (event : Event) :
    ((({ e with scopes } : Engine).setSnapshot id).logged event).snapshot = id := by
  simp only [snapshot, setSnapshot, Engine.logged, Array.getElem?_modify, if_true,
    Array.getElem?_eq_getElem placed, Option.map_some, Option.getD_some]

theorem snapshotIssueAt (e : Engine) (kind : MessageKind) (text : String) (trace : Backtrace) :
    (e.issueAt kind text trace).snapshot = e.snapshot := by
  obtain ⟨nested, written, errorOccurred, issued, -⟩ := issueAtCases e kind text trace
  rw [issued]
  rfl

end Engine
namespace Edits

theorem snapshot {e e' : Engine} (edits : Edits e e') : e'.snapshot = e.snapshot := by
  induction edits with
  | refl => rfl
  | tail _ last ih =>
    rw [← ih]
    cases last with
    | issue => exact Engine.snapshotIssueAt ..
    | display kind text =>
      unfold Engine.display
      split <;> rfl
    | lost => exact Engine.snapshotIssueAt ..
    | queue => exact Engine.snapshotChange ..
    | _ => rfl

theorem dropPolicies {e : Engine} {id : Nat} (fuel : Nat) (report : Bool)
    (here : e.snapshot = id) : Edits e (Engine.dropPolicies id fuel report e) := by
  induction fuel generalizing report e with
  | zero => exact .refl e
  | succ fuel ih =>
    rw [Engine.dropPolicies]
    split
    · exact .refl e
    · have reported : Edits e
          (if report then e.issue .fatalError "cmake_policy PUSH without matching POP" else e) := by
        split
        · exact .issue e .fatalError (by decide) _
        · exact .refl e
      generalize (if report then e.issue .fatalError "cmake_policy PUSH without matching POP"
        else e) = e₁ at reported ⊢
      have still : e₁.snapshot = id := reported.snapshot.trans here
      have popped := Edits.popPolicy e₁
      unfold Engine.popPolicy at popped
      rw [still] at popped
      refine reported.trans ?_
      dsimp only
      split
      case h_1 scopes found =>
        rw [found] at popped
        exact popped.trans (ih false (popped.snapshot.trans still))
      case h_2 found => exact .refl e₁
      case h_3 error found =>
        rw [found] at popped
        exact popped

end Edits
namespace Engine

section Carry

variable {P : Engine → Engine → Prop} (same : ∀ e, P e e)
  (join : ∀ {e e' e''}, P e e' → P e' e'' → P e e'')

include same in
theorem abandonCarry (loops : ∀ e, P e e.closeLoop)
    (scopes : ∀ e policies bindings propagate, P e (e.closeBlockScopes policies bindings propagate))
    (e : Engine) (block : Block) : P e (e.abandon block) := by
  cases block with
  | conditional => exact same e
  | whileLoop => exact loops e
  | foreachLoop => exact loops e
  | definition => exact same e
  | scope => exact scopes ..

include same join

theorem closeBlockScopesCarry (raised : ∀ e names, P e (e.raiseAll names))
    (counted : ∀ e, P e e.closeLoopBarrier)
    (closed : ∀ e handle report, P e (e.closeScope handle report))
    (popped : ∀ e handle, P e (e.closePolicyScope handle)) (e : Engine)
    (policies bindings : Option ScopeHandle) (propagate : List String) :
    P e (e.closeBlockScopes policies bindings propagate) := by
  have inner : P e (e.closeBlockScopes none bindings propagate) := by
    cases bindings with
    | none => exact same e
    | some handle => exact join (join (raised ..) (counted _)) (closed ..)
  cases policies with
  | none => exact inner
  | some handle => exact join inner (popped _ handle)

theorem abandonAllCarry (reported : ∀ e text, P e (e.issue .fatalError text))
    (given : ∀ e block, P e (e.abandon block)) (report : Bool) (e : Engine)
    (blocks : List (OpenBlock Block)) : P e (e.abandonAll report blocks) := by
  induction blocks generalizing report e with
  | nil => exact same e
  | cons b rest ih =>
    rw [abandonAll]
    split
    · exact join (reported ..) (join (given ..) (ih ..))
    · exact join (given ..) (ih ..)

end Carry

namespace SameOpen

theorem openScope (e : Engine) (create : Scopes → Nat → Except ScopeError (Scopes × Nat)) :
    e.SameOpen (e.openScope create).2 := by
  unfold Engine.openScope
  split
  · exact ((scopes e _).trans (setSnapshot ..)).trans (logged _ id)
  · exact internalError ..

theorem closeScope (e : Engine) (handle : ScopeHandle) (report : Bool) :
    e.SameOpen (e.closeScope handle report) := by
  unfold Engine.closeScope
  cases handle with
  | none => exact refl e
  | some id =>
    dsimp only
    split
    · exact internalError ..
    case isFalse here =>
      have current := Decidable.not_not.mp here
      have dropped := Edits.dropPolicies (e.scopes.policies.size + 1) report current
      generalize Engine.dropPolicies id (e.scopes.policies.size + 1) report e = e₁ at dropped ⊢
      refine (edits dropped).trans ?_
      split
      · exact ((scopes _ _).trans (setSnapshot ..)).trans (logged _ fun outside => outside)
      · exact internalError ..

theorem closePolicyScope (e : Engine) (handle : ScopeHandle) :
    e.SameOpen (e.closePolicyScope handle) :=
  (edits (.popPolicy e)).trans (closeScope ..)

theorem raiseAll (e : Engine) (names : List String) : e.SameOpen (e.raiseAll names) :=
  edits (.raiseAll e names)

theorem closeBlockScopes (e : Engine) (policies bindings : Option ScopeHandle)
    (propagate : List String) : e.SameOpen (e.closeBlockScopes policies bindings propagate) :=
  closeBlockScopesCarry refl .trans raiseAll (fun e => counts (.closeLoopBarrier e)) closeScope
    closePolicyScope e policies bindings propagate

theorem abandon (e : Engine) (block : Block) : e.SameOpen (e.abandon block) :=
  abandonCarry refl (fun e => counts (.closeLoop e)) closeBlockScopes e block

theorem abandonAll (report : Bool) (e : Engine) (blocks : List (OpenBlock Block)) :
    e.SameOpen (e.abandonAll report blocks) :=
  abandonAllCarry refl .trans (fun e text => issueAt e .fatalError text e.backtrace) abandon report
    e blocks

end SameOpen
end Engine
end CMakeScript
