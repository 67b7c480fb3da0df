import CMakeScript.Proofs.Discipline
/-! What a log tells of the calls deferred to a directory: which of them were registered, in which
order, and what became of each. The queue of the directory agrees with it at any time. -/
namespace CMakeScript

inductive CallState where
  | waiting
  | executed
  | cancelled
  | dropped
  deriving DecidableEq, Repr

structure RegisteredCall where
  call : DeferredCall
  state : CallState := .waiting
  deriving DecidableEq, Repr

namespace RegisteredCall

def settle (state : CallState) (r : RegisteredCall) : RegisteredCall :=
  if r.state = .waiting then { r with state } else r

def cancel (ids : List String) (r : RegisteredCall) : RegisteredCall :=
  if ids.contains r.call.id then r.settle .cancelled else r

def entry (r : RegisteredCall) : DeferredCall :=
  if r.state = .waiting then r.call else r.call.settled

variable {r : RegisteredCall}

@[simp] theorem callSettle (state : CallState) (r : RegisteredCall) :
    (r.settle state).call = r.call := by
  unfold settle
  split <;> rfl

theorem callCancel (ids : List String) (r : RegisteredCall) : (r.cancel ids).call = r.call := by
  unfold cancel
  split
  · exact callSettle ..
  · rfl

theorem notWaiting (settled : r.state = .executed ∨ r.state = .cancelled) : r.state ≠ .waiting := by
  obtain executed | cancelled := settled
  · rw [executed]
    decide
  · rw [cancelled]
    decide

theorem settleSettled (state : CallState) (settled : r.state ≠ .waiting) : r.settle state = r :=
  if_neg settled

theorem settledOnce {state : CallState} (settles : state ≠ .waiting) (r : RegisteredCall) :
    (r.settle state).state ≠ .waiting := by
  unfold settle
  split
  case isTrue => exact settles
  case isFalse settled => exact settled

theorem cancelSettled (ids : List String) (settled : r.state ≠ .waiting) : r.cancel ids = r := by
  unfold cancel
  rw [settleSettled _ settled, ite_self]

theorem cancelState (ids : List String) (r : RegisteredCall) :
    (r.cancel ids).state = r.state ∨ (r.cancel ids).state = .cancelled := by
  unfold cancel settle
  split_ifs
  · exact .inr rfl
  · exact .inl rfl
  · exact .inl rfl

theorem entrySettle {state : CallState} (settles : state ≠ .waiting) (r : RegisteredCall) :
    (r.settle state).entry = r.entry.settled := by
  unfold settle entry
  by_cases waits : r.state = .waiting
  · rw [if_pos waits, if_pos waits]
    exact if_neg settles
  · rw [if_neg waits, if_neg waits]
    rfl

theorem entryCancel (ids : List String) (r : RegisteredCall) : (r.cancel ids).entry =
    if ids.contains r.entry.id then r.entry.settled else r.entry := by
  by_cases waits : r.state = .waiting
  · have here : r.entry = r.call := if_pos waits
    rw [here, cancel]
    split
    · rw [entrySettle (by decide), here]
    · exact here
  · have here : r.entry = r.call.settled := if_neg waits
    rw [cancelSettled ids waits, here]
    exact (ite_self _).symm

theorem commandEntry (r : RegisteredCall) : r.entry.command = r.call.command := by
  unfold entry
  split <;> rfl

theorem entryWaits (named : r.call.waits = true) : r.entry.waits = (r.state == .waiting) := by
  unfold entry
  split
  case isTrue waits =>
    rw [waits, named]
    rfl
  case isFalse settled =>
    rw [beq_eq_false_iff_ne.mpr settled]
    rfl

end RegisteredCall

structure Ledger where
  calls : List RegisteredCall := []
  due : Bool := false
  ran : List Command := []
  deriving DecidableEq, Repr

/-- The commands of the calls that were executed, in the order of registration. -/
def executedCommands (calls : List RegisteredCall) : List Command :=
  (calls.filter (·.state == .executed)).map (·.call.command)

namespace Ledger

def change (l : Ledger) : QueueChange → Ledger
  | .opened => {}
  | .deferred call => { l with calls := l.calls ++ [{ call }] }
  | .cancelled ids => { l with calls := l.calls.map (·.cancel ids) }
  | .taken place => { l with calls := l.calls.modify place (·.settle .executed), due := true }
  | .closed => { l with calls := l.calls.map (·.settle .dropped) }
  | .listed _ | .begun => l

def next (q : Nat) (l : Ledger) : Event → Ledger
  | .queue i change => if i = q then l.change change else l
  | .dispatched c => if l.due then { l with due := false, ran := l.ran ++ [c] } else l
  | _ => l

def of (q : Nat) : List LogEntry → Ledger
  | [] => {}
  | entry :: before => (of q before).next q entry.event

def waitingIds (l : Ledger) : List String :=
  (l.calls.filter (·.state == .waiting)).map (·.call.id)

/-- Whenever the names of the calls were asked for, the answer was that of the ledger. -/
def Answers (q : Nat) : List LogEntry → Prop
  | [] => True
  | entry :: before =>
    (∀ ids, entry.event = .queue q (.listed ids) → ids = (of q before).waitingIds) ∧
      Answers q before

theorem closeSettled {l : Ledger}
    (settled : ∀ r ∈ l.calls, r.state = .executed ∨ r.state = .cancelled) :
    l.change .closed = l := by
  have kept : l.calls.map (·.settle .dropped) = l.calls := by
    refine (List.map_congr_left fun r member => ?_).trans (List.map_id l.calls)
    exact RegisteredCall.settleSettled _ (RegisteredCall.notWaiting (settled r member))
  rw [Ledger.change, kept]

theorem Answers.listed {q : Nat} {later earlier : List LogEntry} {entry : LogEntry}
    {ids : List String} (answers : Answers q (later ++ entry :: earlier))
    (listed : entry.event = .queue q (.listed ids)) : ids = (of q earlier).waitingIds := by
  induction later with
  | nil => exact answers.1 ids listed
  | cons _ _ ih => exact ih answers.2

structure Tells (l : Ledger) (queue : Option (List DeferredCall)) : Prop where
  entries : ∀ calls, queue = some calls → calls = l.calls.map RegisteredCall.entry
  closed : queue = none → ∀ r ∈ l.calls, r.state ≠ .waiting
  named : ∀ r ∈ l.calls, r.call.waits = true

namespace Tells

variable {l l' : Ledger} {queue : Option (List DeferredCall)}

theorem same (tells : l.Tells queue) (calls : l'.calls = l.calls) : l'.Tells queue where
  entries := calls ▸ tells.entries
  closed := calls ▸ tells.closed
  named := calls ▸ tells.named

theorem waiting (tells : l.Tells queue) :
    ((queue.getD []).filter (·.waits)).map (·.id) = l.waitingIds := by
  unfold waitingIds
  cases queue with
  | none =>
    have none : l.calls.filter (·.state == .waiting) = [] :=
      List.filter_eq_nil_iff.mpr fun r member => by simpa using tells.closed rfl r member
    rw [none]
    rfl
  | some calls =>
    rw [tells.entries calls rfl, Option.getD_some, List.filter_map, List.map_map]
    have waits : ∀ r ∈ l.calls, (DeferredCall.waits ∘ RegisteredCall.entry) r =
        (r.state == .waiting) :=
      fun r member => RegisteredCall.entryWaits (tells.named r member)
    rw [List.filter_congr waits]
    refine List.map_congr_left fun r member => ?_
    have waiting : r.state = .waiting := by simpa using (List.mem_filter.mp member).2
    exact congrArg DeferredCall.id (if_pos waiting)

theorem cancelled (tells : l.Tells queue) (ids : List String) :
    ({ l with calls := l.calls.map (·.cancel ids) } : Ledger).Tells
      (queue.map (·.map fun call => if ids.contains call.id then call.settled else call)) where
  entries calls known := by
    obtain ⟨before, rfl, rfl⟩ := Option.map_eq_some_iff.mp known
    rw [tells.entries before rfl, List.map_map, List.map_map]
    exact List.map_congr_left fun r _ => (RegisteredCall.entryCancel ids r).symm
  closed known r member := by
    obtain ⟨before, inside, rfl⟩ := List.mem_map.mp member
    have here := tells.closed (Option.map_eq_none_iff.mp known) before inside
    rwa [RegisteredCall.cancelSettled ids here]
  named r member := by
    obtain ⟨before, inside, rfl⟩ := List.mem_map.mp member
    rw [RegisteredCall.callCancel]
    exact tells.named before inside

theorem taken (tells : l.Tells queue) (place : Nat) :
    ({ l with calls := l.calls.modify place (·.settle .executed) } : Ledger).Tells
      (queue.map (·.modify place DeferredCall.settled)) where
  entries calls known := by
    obtain ⟨before, rfl, rfl⟩ := Option.map_eq_some_iff.mp known
    rw [tells.entries before rfl]
    refine List.ext_getElem? fun i => ?_
    rw [List.getElem?_modify, List.getElem?_map, List.getElem?_map, List.getElem?_modify]
    cases l.calls[i]? with
    | none => rfl
    | some r =>
      refine congrArg some ?_
      split
      · exact (RegisteredCall.entrySettle (by decide) r).symm
      · rfl
  closed known r member := by
    obtain ⟨before, inside, same⟩ := memModify member
    have here := tells.closed (Option.map_eq_none_iff.mp known) before inside
    obtain rfl | rfl := same
    · exact here
    · exact RegisteredCall.settledOnce (by decide) before
  named r member := by
    obtain ⟨before, inside, rfl | rfl⟩ := memModify member
    · exact tells.named r inside
    · exact RegisteredCall.callSettle .executed before ▸ tells.named before inside

theorem change (tells : l.Tells queue) {change : QueueChange}
    (deferred : ∀ call, change = .deferred call → call.waits = true ∧ queue.isSome = true) :
    (l.change change).Tells (change.apply queue) := by
  cases change with
  | opened => exact ⟨fun calls known => (Option.some.inj known).symm, nofun, nofun⟩
  | deferred call =>
    obtain ⟨waits, known⟩ := deferred call rfl
    obtain ⟨calls, rfl⟩ := Option.isSome_iff_exists.mp known
    refine ⟨fun _ same => ?_, nofun, fun r member => ?_⟩
    · obtain rfl := Option.some.inj same
      rw [tells.entries calls rfl, Ledger.change, List.map_append]
      rfl
    · obtain inside | here := List.mem_append.mp member
      · exact tells.named r inside
      · rw [List.mem_singleton.mp here]
        exact waits
  | cancelled ids => exact tells.cancelled ids
  | listed => exact tells
  | begun => exact tells
  | taken place => exact (tells.taken place).same rfl
  | closed =>
    refine ⟨nofun, fun _ r member => ?_, fun r member => ?_⟩
    · obtain ⟨before, -, rfl⟩ := List.mem_map.mp member
      exact RegisteredCall.settledOnce (by decide) before
    · obtain ⟨before, inside, rfl⟩ := List.mem_map.mp member
      rw [RegisteredCall.callSettle]
      exact tells.named before inside

end Tells

/-! A run of the calls, up to a place in the ledger -/

structure Past (past : List RegisteredCall) (l : Ledger) : Prop where
  idle : l.due = false
  ran : l.ran = executedCommands past
  settled : ∀ r ∈ past, r.state = .executed ∨ r.state = .cancelled
  ahead : ∃ ahead, l.calls = past ++ ahead ∧ ∀ r ∈ ahead, r.state = .waiting ∨ r.state = .cancelled

namespace Past

variable {l : Ledger} {past : List RegisteredCall}

theorem start : Past [] {} := ⟨rfl, rfl, nofun, [], rfl, nofun⟩

theorem change (before : l.Past past) {change : QueueChange}
    (own : change.isHosted = false ∨ change = .begun) : (l.change change).Past past := by
  obtain ⟨ahead, calls, unsettled⟩ := before.ahead
  cases change with
  | deferred call =>
    refine { before with ahead := ⟨ahead ++ [{ call }], ?_, fun r member => ?_⟩ }
    · rw [Ledger.change, calls, List.append_assoc]
    · obtain inside | here := List.mem_append.mp member
      · exact unsettled r inside
      · rw [List.mem_singleton.mp here]
        exact .inl rfl
  | cancelled ids =>
    refine { before with ahead := ⟨ahead.map (·.cancel ids), ?_, fun r member => ?_⟩ }
    · have kept : past.map (·.cancel ids) = past := by
        refine (List.map_congr_left fun r member => ?_).trans (List.map_id past)
        exact RegisteredCall.cancelSettled ids (RegisteredCall.notWaiting (before.settled r member))
      rw [Ledger.change, calls, List.map_append, kept]
    · obtain ⟨earlier, inside, rfl⟩ := List.mem_map.mp member
      obtain same | cancelled := RegisteredCall.cancelState ids earlier
      · rw [same]
        exact unsettled earlier inside
      · exact .inr cancelled
  | listed => exact before
  | begun => exact before
  | _ => obtain own | own := own <;> cases own

theorem here (before : l.Past past) {r : RegisteredCall} (there : l.calls[past.length]? = some r) :
    ∃ rest, l.calls = past ++ r :: rest ∧
      ∀ r' ∈ r :: rest, r'.state = .waiting ∨ r'.state = .cancelled := by
  obtain ⟨ahead, calls, unsettled⟩ := before.ahead
  rw [calls, List.getElem?_append_right (Nat.le_refl _), Nat.sub_self] at there
  cases ahead with
  | nil => cases there
  | cons first rest =>
    obtain rfl : first = r := Option.some.inj there
    exact ⟨rest, calls, unsettled⟩

theorem executedLast {r : RegisteredCall} (executed : r.state = .executed) :
    executedCommands (past ++ [r]) = executedCommands past ++ [r.call.command] := by
  simp [executedCommands, executed]

theorem cancelledLast {r : RegisteredCall} (cancelled : r.state = .cancelled) :
    executedCommands (past ++ [r]) = executedCommands past := by
  simp [executedCommands, cancelled]

theorem settledLast {r : RegisteredCall} (before : l.Past past)
    (settled : r.state = .executed ∨ r.state = .cancelled) :
    ∀ r' ∈ past ++ [r], r'.state = .executed ∨ r'.state = .cancelled := by
  intro r' member
  obtain inside | here := List.mem_append.mp member
  · exact before.settled r' inside
  · rwa [List.mem_singleton.mp here]

theorem skip (before : l.Past past) {r : RegisteredCall} (there : l.calls[past.length]? = some r)
    (settled : r.state ≠ .waiting) : l.Past (past ++ [r]) := by
  obtain ⟨rest, calls, unsettled⟩ := before.here there
  have cancelled := (unsettled r (List.mem_cons_self ..)).resolve_left settled
  refine ⟨before.idle, ?_, before.settledLast (.inr cancelled), rest, ?_, ?_⟩
  · rw [cancelledLast cancelled, before.ran]
  · rw [calls, List.append_assoc]
    rfl
  · exact fun r' member => unsettled r' (List.mem_cons_of_mem _ member)

theorem run (before : l.Past past) {r : RegisteredCall} (there : l.calls[past.length]? = some r)
    (waits : r.state = .waiting) (q : Nat) :
    ((l.change (.taken past.length)).next q (.dispatched r.call.command)).Past
      (past ++ [r.settle .executed]) := by
  obtain ⟨rest, calls, unsettled⟩ := before.here there
  have executed : (r.settle .executed).state = .executed := by
    unfold RegisteredCall.settle
    rw [if_pos waits]
  refine ⟨rfl, ?_, before.settledLast (.inl executed), rest, ?_, ?_⟩
  · rw [executedLast executed, RegisteredCall.callSettle, ← before.ran]
    rfl
  · have modified : (past ++ r :: rest).modify past.length (·.settle .executed) =
        past ++ r.settle .executed :: rest := by
      clear before there calls unsettled
      induction past with
      | nil => rfl
      | cons first past ih => exact congrArg (first :: ·) ih
    change l.calls.modify past.length _ = _
    rw [calls, modified, List.append_assoc]
    rfl
  · exact fun r' member => unsettled r' (List.mem_cons_of_mem _ member)

theorem all (before : l.Past past) (none : l.calls[past.length]? = none) :
    (∀ r ∈ l.calls, r.state = .executed ∨ r.state = .cancelled) ∧
      l.ran = executedCommands l.calls := by
  obtain ⟨ahead, calls, -⟩ := before.ahead
  obtain rfl : ahead = [] := by
    rw [calls, List.getElem?_append_right (Nat.le_refl _), Nat.sub_self] at none
    cases ahead with
    | nil => rfl
    | cons => cases none
  rw [calls, List.append_nil]
  exact ⟨before.settled, before.ran⟩

end Past
end Ledger

def Event.isUnqueued : Event → Bool
  | queue _ _ | dispatched _ => false
  | _ => true

namespace Ledger

theorem nextUnqueued {event : Event} (idle : event.isUnqueued = true) (q : Nat) (l : Ledger) :
    l.next q event = l := by
  cases event <;> first | rfl | cases idle

theorem ofUnqueued {entries : List LogEntry} (idle : ∀ entry ∈ entries, entry.event.isUnqueued = true)
    (q : Nat) (log : List LogEntry) :
    of q (entries ++ log) = of q log ∧ (Answers q log → Answers q (entries ++ log)) := by
  refine logIdle (fun _ here => ⟨nextUnqueued here q _, fun before =>
    ⟨fun ids listed => ?_, before⟩⟩) idle log
  rw [listed] at here
  cases here

end Ledger
namespace Engine

structure Unqueued (e e' : Engine) : Prop where
  current : e'.current = e.current
  deferred : ∀ q, e'.deferredAt q = e.deferredAt q
  log : ∃ entries : List LogEntry, (∀ entry ∈ entries, entry.event.isUnqueued = true) ∧
    e'.log = entries ++ e.log

namespace Unqueued

variable {e e' e'' : Engine}

theorem other (current : e'.current = e.current) (runs : e'.runs = e.runs)
    (log : e'.log = e.log) : e.Unqueued e' :=
  ⟨current, fun q => by rw [deferredAt, runs, deferredAt], [], nofun, log⟩

theorem logged (e : Engine) (blocks : BlockStack Block) {event : Event}
    (idle : event.isUnqueued = true) : e.Unqueued ({ e with blocks }.logged event) :=
  ⟨rfl, fun _ => rfl, [⟨event, blocks⟩], by simpa using idle, rfl⟩

theorem issueAt (e : Engine) (kind : MessageKind) (text : String) (trace : Backtrace) :
    e.Unqueued (e.issueAt kind text trace) := by
  obtain ⟨nested, written, errorOccurred, issued, -⟩ := issueAtCases e kind text trace
  rw [issued]
  exact other rfl rfl rfl

theorem internalError (e : Engine) (error : ScopeError) :
    e.Unqueued (e.internalError error) := by
  obtain ⟨current, deferred, log⟩ := issueAt e .internalError error.message e.backtrace
  exact ⟨current, deferred, log⟩

theorem noteStop (e : Engine) : e.Unqueued e.noteStop := by
  unfold Engine.noteStop
  split
  · exact ⟨rfl, fun _ => rfl, [⟨.stopped, e.blocks⟩], by simp [Event.isUnqueued], rfl⟩
  · exact other rfl rfl rfl

theorem scope (e : Engine) (scopes : Scopes) (id : Nat) {event : Event}
    (idle : event.isUnqueued = true) :
    e.Unqueued ((({ e with scopes } : Engine).setSnapshot id).logged event) := by
  refine ⟨rfl, fun q => ?_, [⟨event, e.blocks⟩], by simpa using idle, rfl⟩
  simp only [deferredAt, setSnapshot, Engine.logged, Array.getElem?_modify]
  split <;> cases e.runs[q]? <;> rfl

theorem trans (first : e.Unqueued e') (second : e'.Unqueued e'') : e.Unqueued e'' where
  current := second.current.trans first.current
  deferred q := (second.deferred q).trans (first.deferred q)
  log := logJoined first.log second.log

theorem ledger (same : e.Unqueued e') (q : Nat) : Ledger.of q e'.log = Ledger.of q e.log := by
  obtain ⟨entries, idle, log⟩ := same.log
  rw [log, (Ledger.ofUnqueued idle q e.log).1]

theorem openScope (e : Engine) (o : ScopeOpening) : e.Unqueued (e.openScope o.create).2 := by
  unfold Engine.openScope
  split
  · exact scope e _ _ rfl
  · exact internalError ..

theorem assignAll (saved : List (String × Option String)) (e : Engine) :
    e.Unqueued (saved.foldl (fun e (name, value) => e.assign name value) e) := by
  induction saved generalizing e with
  | nil => exact other rfl rfl rfl
  | cons first rest ih =>
    obtain ⟨name, _ | value⟩ := first
    · exact (other rfl rfl rfl : e.Unqueued (e.undefine name)).trans (ih _)
    · exact (other rfl rfl rfl : e.Unqueued (e.define name value)).trans (ih _)

theorem dropPolicies (id fuel : Nat) (report : Bool) (e : Engine) :
    e.Unqueued (Engine.dropPolicies id fuel report e) :=
  Turns.dropPoliciesCarry (fun _ => other rfl rfl rfl) trans
    (fun e text => issueAt e .fatalError text e.backtrace) (fun _ => other rfl rfl rfl)
    internalError fuel report e

theorem closeScope (e : Engine) (handle : ScopeHandle) (report : Bool) :
    e.Unqueued (e.closeScope handle report) := by
  unfold Engine.closeScope
  cases handle with
  | none => exact other rfl rfl rfl
  | some id =>
    dsimp only
    split
    · exact internalError ..
    · refine (dropPolicies id (e.scopes.policies.size + 1) report e).trans ?_
      split
      · exact scope _ _ _ rfl
      · exact internalError ..

end Unqueued

theorem logChange (e : Engine) {i : Nat} (change : QueueChange) (inside : i < e.runs.size) :
    (e.changeQueue i change).log = ⟨.queue i change, e.blocks⟩ :: e.log := by
  unfold changeQueue
  rw [if_pos inside]
  rfl

theorem ledgerChange (e : Engine) {q : Nat} (change : QueueChange) (inside : q < e.runs.size) :
    Ledger.of q (e.changeQueue q change).log = (Ledger.of q e.log).change change := by
  rw [logChange e change inside]
  exact if_pos rfl

/-- The ledger of the directory at a place agrees with its queue. If `past?` tells of calls, these
are the ones that have had their turn. -/
structure Ledgered (q : Nat) (past? : Option (List RegisteredCall)) (place : Nat) (e : Engine) :
    Prop where
  current : e.current = place
  answers : Ledger.Answers q e.log
  tells : (Ledger.of q e.log).Tells (e.deferredAt q)
  past : ∀ past, past? = some past → (e.deferredAt q).isSome = true ∧ (Ledger.of q e.log).Past past

namespace Ledgered

variable {q place : Nat} {past? : Option (List RegisteredCall)} {e e' : Engine}

theorem moved {place' : Nat} (ledgered : e.Ledgered q past? place) (current : e'.current = place')
    (deferred : e'.deferredAt q = e.deferredAt q)
    (log : ∃ entries : List LogEntry, (∀ entry ∈ entries, entry.event.isUnqueued = true) ∧
      e'.log = entries ++ e.log) : e'.Ledgered q past? place' := by
  obtain ⟨entries, idle, log⟩ := log
  obtain ⟨same, answers⟩ := Ledger.ofUnqueued idle q e.log
  rw [← log] at same answers
  exact ⟨current, answers ledgered.answers, by rw [same, deferred]; exact ledgered.tells,
    by rw [same, deferred]; exact ledgered.past⟩

theorem unqueued (ledgered : e.Ledgered q past? place) (same : e.Unqueued e') :
    e'.Ledgered q past? place :=
  ledgered.moved (same.current.trans ledgered.current) (same.deferred q) same.log

theorem changeHere (ledgered : e.Ledgered q past? place) {change : QueueChange}
    (queue : e'.deferredAt q = change.apply (e.deferredAt q)) (current : e'.current = e.current)
    (log : e'.log = ⟨.queue q change, e.blocks⟩ :: e.log)
    (deferred : ∀ call, change = .deferred call →
      call.waits = true ∧ (e.deferredAt q).isSome = true)
    (listed : ∀ ids, change = .listed ids → ids = e.waitingIds q)
    (own : past?.isSome = true → change.isHosted = false ∨ change = .begun) :
    e'.Ledgered q past? place := by
  have next : Ledger.of q e'.log = (Ledger.of q e.log).change change := by
    rw [log]
    exact if_pos rfl
  constructor
  case current => exact current.trans ledgered.current
  case answers =>
    rw [log]
    refine ⟨fun ids asked => ?_, ledgered.answers⟩
    rw [← ledgered.tells.waiting]
    exact listed ids (Event.queue.inj asked).2
  case tells =>
    rw [next, queue]
    exact ledgered.tells.change deferred
  case past =>
    intro past known
    obtain ⟨isOpen, before⟩ := ledgered.past past known
    have own := own (known ▸ rfl)
    rw [next, queue]
    refine ⟨?_, before.change own⟩
    obtain ⟨calls, queue⟩ := Option.isSome_iff_exists.mp isOpen
    rw [queue]
    cases change with
    | opened | deferred | cancelled | listed | begun | taken => rfl
    | closed => obtain own | own := own <;> cases own

theorem changeElsewhere (ledgered : e.Ledgered q past? place) {i : Nat} {change : QueueChange}
    (elsewhere : i ≠ q) (queue : e'.deferredAt q = e.deferredAt q)
    (current : e'.current = e.current) (log : e'.log = ⟨.queue i change, e.blocks⟩ :: e.log) :
    e'.Ledgered q past? place := by
  have next : Ledger.of q e'.log = Ledger.of q e.log := by
    rw [log]
    exact if_neg elsewhere
  constructor
  case current => exact current.trans ledgered.current
  case answers =>
    rw [log]
    exact ⟨fun ids asked => absurd (Event.queue.inj asked).1 elsewhere, ledgered.answers⟩
  case tells =>
    rw [next, queue]
    exact ledgered.tells
  case past =>
    rw [next, queue]
    exact ledgered.past

theorem changeQueue (ledgered : e.Ledgered q past? place) {i : Nat} {change : QueueChange}
    (deferred : ∀ call, change = .deferred call →
      call.waits = true ∧ (e.deferredAt i).isSome = true)
    (listed : ∀ ids, change = .listed ids → ids = e.waitingIds i)
    (own : past?.isSome = true → i = q → change.isHosted = false ∨ change = .begun) :
    (e.changeQueue i change).Ledgered q past? place := by
  by_cases inside : i < e.runs.size
  · have queue := deferredAtChange e i q change
    unfold Engine.changeQueue at queue ⊢
    simp only [if_pos inside] at queue ⊢
    by_cases here : i = q
    · subst here
      rw [if_pos ⟨rfl, inside⟩] at queue
      exact ledgered.changeHere queue rfl rfl deferred listed fun some => own some rfl
    · rw [if_neg fun same => here same.1] at queue
      exact ledgered.changeElsewhere here queue rfl rfl
  · unfold Engine.changeQueue
    rw [if_neg inside]
    exact ledgered

theorem edit (ledgered : e.Ledgered q past? place) (edit : Edit e e') :
    e'.Ledgered q past? place := by
  cases edit with
  | issue _ text trace => exact ledgered.unqueued (.issueAt ..)
  | @display kind _ text =>
    refine ledgered.unqueued ?_
    unfold Engine.display
    split <;> exact .other rfl rfl rfl
  | lost _ error => exact ledgered.unqueued (.internalError ..)
  | tested => exact ledgered.unqueued (.logged e e.blocks rfl)
  | @queue i change free =>
    cases free with
    | deferred _ waits isOpen =>
      refine ledgered.changeQueue (fun call same => ?_) nofun fun _ _ => .inl rfl
      cases same
      exact ⟨waits, isOpen⟩
    | cancelled => exact ledgered.changeQueue nofun nofun fun _ _ => .inl rfl
    | listed =>
      refine ledgered.changeQueue nofun (fun ids same => ?_) fun _ _ => .inl rfl
      exact (QueueChange.listed.inj same).symm
  | _ => exact ledgered.unqueued (.other rfl rfl rfl)

theorem edits (ledgered : e.Ledgered q past? place) (edits : Edits e e') :
    e'.Ledgered q past? place := by
  induction edits with
  | refl => exact ledgered
  | tail _ last ih => exact ih.edit last

theorem turns (ledgered : e.Ledgered q past? place) (turns : Turns e e') :
    e'.Ledgered q past? place := by
  have idle {event : Event} (scoping : event.isScoping = true) : event.isUnqueued = true := by
    cases event <;> first | rfl | cases scoping
  refine turns.carry (P := fun e e' => e.Ledgered q past? place → e'.Ledgered q past? place)
    (fun _ ledgered => ledgered) (fun first second ledgered => second (first ledgered))
    (fun {e e'} turn ledgered => ?_) ledgered
  cases turn with
  | upkeep edits => exact ledgered.edits edits
  | counts counts =>
    cases counts
    exact ledgered.unqueued (.other rfl rfl rfl)
  | scope _ id scoping => exact ledgered.unqueued (.scope e _ id (idle scoping))
  | blocks blocks scoping => exact ledgered.unqueued (.logged e blocks (idle scoping))
  | refused error => exact ledgered.unqueued (.internalError e error)

theorem logged (ledgered : e.Ledgered q past? place) (blocks : BlockStack Block) {event : Event}
    (idle : event.isUnqueued = true) : ({ e with blocks }.logged event).Ledgered q past? place :=
  ledgered.unqueued (.logged e blocks idle)

theorem forget (ledgered : e.Ledgered q past? place) : e.Ledgered q none place :=
  { ledgered with past := nofun }

theorem logCommand (ledgered : e.Ledgered q past? place) {past'? : Option (List RegisteredCall)}
    (c : Command) (past : ∀ past, past'? = some past → (e.deferredAt q).isSome = true ∧
      ((Ledger.of q e.log).next q (.dispatched c)).Past past) :
    (e.logged (.dispatched c)).Ledgered q past'? place := by
  have calls : ((Ledger.of q e.log).next q (.dispatched c)).calls = (Ledger.of q e.log).calls := by
    unfold Ledger.next
    dsimp only
    split <;> rfl
  exact ⟨ledgered.current, ⟨nofun, ledgered.answers⟩, ledgered.tells.same calls, past⟩

theorem dispatched (ledgered : e.Ledgered q past? place) (c : Command) :
    (e.logged (.dispatched c)).Ledgered q past? place := by
  refine ledgered.logCommand c fun past known => ?_
  obtain ⟨isOpen, before⟩ := ledgered.past past known
  refine ⟨isOpen, ?_⟩
  unfold Ledger.next
  dsimp only
  rw [before.idle]
  exact before

theorem opened (ledgered : e.Ledgered q past? place) (inside : q < e.runs.size) :
    (e.changeQueue q .opened).Ledgered q (some []) place := by
  have kept : (e.changeQueue q .opened).Ledgered q none place :=
    ledgered.forget.changeQueue nofun nofun nofun
  refine { kept with past := fun past known => ?_ }
  cases known
  rw [ledgerChange e .opened inside, deferredAtChange, if_pos ⟨rfl, inside⟩]
  exact ⟨rfl, .start⟩

theorem enterDirectory (ledgered : e.Ledgered q past? place) (id : Nat) :
    (Runner.enterDirectory id e).Ledgered q past? e.runs.size := by
  refine ledgered.moved rfl ?_ ⟨[], nofun, rfl⟩
  simp only [deferredAt, Runner.enterDirectory, Array.getElem?_push]
  split
  case isTrue outside =>
    rw [outside, Array.getElem?_eq_none (Nat.le_refl _)]
    rfl
  case isFalse => rfl

theorem placed (ledgered : e.Ledgered q past? place) (some : past?.isSome = true) :
    q < e.runs.size := by
  obtain ⟨past, known⟩ := Option.isSome_iff_exists.mp some
  obtain ⟨calls, queue⟩ := Option.isSome_iff_exists.mp (ledgered.past past known).1
  obtain ⟨run, there, -⟩ := Option.bind_eq_some_iff.mp queue
  exact (Array.getElem?_eq_some_iff.mp there).1

end Ledgered
end Engine
open Engine

def deferredOrder (q : Nat) (past? : Option (List RegisteredCall)) : Discipline Nat where
  holds := Ledgered q past?
  stopped e := Ledger.Answers q e.log
  strict := True
  nests := True
  hosts place := past?.isSome = true → place ≠ q
  stop ledgered := ledgered.answers
  edit ledgered moves := ledgered.edits moves.edits
  counts ledgered counts := ledgered.turns (.counts counts)
  failStops ledgered := ledgered.unqueued (.other rfl rfl rfl)
  stopNoted ledgered := ledgered.unqueued (.noteStop _)
  noted event note ledgered := ledgered.logged _ (by cases event <;> first | rfl | cases note)
  exitCode code ledgered := ledgered.unqueued (.other rfl rfl rfl)
  offered c ledgered := ledgered.logged _ rfl
  recorded depth c ledgered _ := ledgered.logged _ rfl
  closed c ledgered _ _ := ledgered.logged _ rfl
  scopeClosed {g e top below policies bindings propagate} c ledgered _ _ _ := by
    refine ⟨g, ledgered.logged _ rfl, fun ended => ?_⟩
    exact (ended.logged _ rfl).turns (.closeBlockScopes ..)
  command c ledgered :=
    ⟨_, ledgered.unqueued (.other rfl rfl rfl), fun ended => ended.unqueued (.other rfl rfl rfl)⟩
  dispatched c ledgered _ := ledgered.dispatched c
  returned target ledgered := ledgered.logged _ rfl
  opening ledgered _ opening := ledgered.turns (.opening opening)
  definition {g e d registry} ledgered _ _ := by
    have defined : ({ e with registry } : Engine).Ledgered q past? g :=
      ledgered.unqueued (.other rfl rfl rfl)
    exact defined.logged e.blocks rfl
  called _ _ _ _ _ _ ledgered := ledgered.logged _ rfl
  frame frame ledgered := ⟨_, id, ledgered.unqueued (.other rfl rfl rfl), fun ended =>
    ended.unqueued (.other rfl rfl rfl)⟩
  scope o ledgered _ :=
    ⟨_, ledgered.turns (.openScope _ o), fun report ended _ => ended.turns (.closeScope ..)⟩
  scopeBarrier o ledgered _ := by
    have opened := ledgered.turns ((Turns.openScope _ o).trans (.openBarrier _))
    exact ⟨_, id, opened, fun report reportScope ended _ => ended.turns (.closeBarrierScope ..)⟩
  barrierScope o ledgered _ := by
    have opened := ledgered.turns ((Turns.openBarrier _).trans (.openScope _ o))
    exact ⟨_, opened, fun report reportScope ended _ => ended.turns (.closeBarrierScope ..)⟩
  queue {g e} change hosts hosted ledgered := by
    refine ledgered.changeQueue ?_ ?_ fun some here => ?_
    · rintro call rfl
      cases hosted
    · rintro ids rfl
      cases hosted
    · exact absurd (ledgered.current.symm.trans here) (hosts some)
  deferred {g e top below} o depth c ledgered _ := by
    have begun : ((e.openScope o.create).2.logged .deferredBegun).Ledgered q past? g :=
      (ledgered.turns (.openScope e o)).logged _ rfl
    have offered blocks : ((({ (e.openScope o.create).2.logged .deferredBegun with
        blocks } : Engine).logged (.offered c)).logged .deferredEnded).Ledgered q past? g :=
      (begun.logged blocks rfl).logged blocks rfl
    exact ⟨begun.answers, (offered _).turns (.closeScope ..)⟩
  reach _ _ := trivial
  created _ _ ledgered created := by
    cases created
    exact ledgered.unqueued (.other rfl rfl rfl)
  refusal error _ ledgered := ledgered.unqueued (.internalError ..)
  directory {g e₀ e d} _ _ ledgered _ created := by
    have same : e₀.Unqueued e := by
      cases created
      exact .other rfl rfl rfl
    have ledgered := ledgered.unqueued same
    refine ⟨e.runs.size, fun some => ?_, ledgered.enterDirectory d, fun {e'} ended _ => ?_⟩
    · exact (Nat.ne_of_lt (ledgered.placed some)).symm
    · exact ended.moved ledgered.current rfl ⟨[], nofun, rfl⟩

end CMakeScript
