import CMakeScript.Proofs.OpenState
/-! What goes on between commands. Once the run has to stop it is edits that leave alone whatever
commands change for good, and no condition is evaluated any more. -/
namespace CMakeScript

def Event.acts : Event → Bool
  | dispatched _ | tested => true
  | _ => false

namespace Scopes

variable {s s' : Scopes} {id : Nat}

theorem recordsDefine (s : Scopes) (id : Nat) (name value : String) :
    (s.define id name value).records = s.records := by
  unfold define
  split <;> rfl

theorem recordsUndefine (s : Scopes) (id : Nat) (name : String) :
    (s.undefine id name).records = s.records := by
  unfold undefine
  split <;> rfl

theorem recordsRaise {name : String} {value : Option String}
    (raised : s.raise? id name value = some s') : s'.records = s.records := by
  obtain ⟨frames, rfl⟩ := raiseFrames raised
  rfl

theorem recordsPopPolicy (popped : s.popPolicy id = .ok (some s')) : s'.records = s.records := by
  obtain ⟨here, -, -, rfl⟩ := popPolicyCases popped
  rfl

theorem recordsSetListFile (s : Scopes) (id : Nat) (path : String) :
    (s.setListFile id path).records = s.records := by
  unfold setListFile
  split <;> rfl

theorem recordsModify (s : Scopes) (place : Nat) {f : Directory → Directory}
    (hidden : ∀ d, (f d).record = d.record) : (s.modifyDirectory place f).records = s.records := by
  funext id
  unfold records modifyDirectory
  rw [← Arena.getMap, Arena.mapModify hidden, Arena.getMap]

theorem recordsOpened {o : ScopeOpening} {origin : Nat}
    (opened : o.create s origin = .ok (s', id)) : s'.records = s.records := by
  rw [ScopeOpening.createNested] at opened
  obtain ⟨parent, -, -, rfl⟩ := createNestedCases opened
  exact recordsModify _ _ fun _ => rfl

theorem recordsPopped {up : Nat} (popped : s.pop id = .ok (s', up)) : s'.records = s.records := by
  obtain ⟨inner, outer, d, -, -, -, -, rfl⟩ := popCases popped
  have resumed : (s.resume up outer).records = s.records :=
    recordsModify (s.modifySnapshot up _) outer.directory fun _ => rfl
  rw [← resumed]
  unfold reclaim
  split <;> rfl

end Scopes

namespace Engine

structure Still (e e' : Engine) : Prop where
  lasting : e'.lasting = e.lasting
  stops : e'.stops = e.stops
  fatal : e.fatal = true → e'.fatal = true
  log : ∃ entries : List LogEntry, (∀ entry ∈ entries, entry.event.acts = false) ∧
    e'.log = entries ++ e.log

namespace Still

variable {e e' e'' : Engine}

theorem other (lasting : e'.lasting = e.lasting) (stops : e'.stops = e.stops)
    (fatal : e.fatal = true → e'.fatal = true) (log : e'.log = e.log) : e.Still e' :=
  ⟨lasting, stops, fatal, [], nofun, log⟩

theorem refl (e : Engine) : e.Still e := other rfl rfl id rfl

theorem trans (first : e.Still e') (second : e'.Still e'') : e.Still e'' where
  lasting := second.lasting.trans first.lasting
  stops := second.stops.trans first.stops
  fatal stops := second.fatal (first.fatal stops)
  log := logJoined first.log second.log

theorem logged (e : Engine) {event : Event} (idle : event.acts = false) :
    e.Still (e.logged event) :=
  ⟨rfl, rfl, id, [⟨event, e.blocks⟩], by simpa using idle, rfl⟩

theorem scopes (e : Engine) {scopes : Scopes} (kept : scopes.records = e.scopes.records) :
    e.Still { e with scopes } := by
  refine other ?_ rfl id rfl
  simp only [Engine.lasting, kept]

theorem written (e : Engine) (nested : List Bool) (errorOccurred : Bool) {w : Written}
    (error : w.stream = .errors) :
    e.Still { e with nested, written := e.written.push w, errorOccurred } := by
  refine other ?_ rfl id rfl
  simp [Engine.lasting, error]

theorem issueAt (e : Engine) (kind : MessageKind) (text : String) (trace : Backtrace) :
    e.Still (e.issueAt kind text trace) := by
  obtain ⟨nested, written, errorOccurred, issued, -, hidden | shown⟩ :=
    issueAtCases e kind text trace
  · rw [issued, hidden.2]
    exact other rfl rfl id rfl
  · obtain ⟨kind, text, -, rfl⟩ := shown
    rw [issued]
    exact Still.written e nested errorOccurred rfl

theorem setFatal (e : Engine) : e.Still e.setFatal := other rfl rfl (fun _ => rfl) rfl

theorem fatalErrorAt (e : Engine) (text : String) (trace : Backtrace) :
    e.Still (e.fatalErrorAt text trace) :=
  (issueAt ..).trans (setFatal _)

theorem internalError (e : Engine) (error : ScopeError) : e.Still (e.internalError error) :=
  (issueAt ..).trans (setFatal _)

theorem foldl {α : Type} {f : Engine → α → Engine} (each : ∀ (e : Engine) a, e.Still (f e a))
    (items : List α) (e : Engine) : e.Still (items.foldl f e) := by
  induction items generalizing e with
  | nil => exact refl e
  | cons item items ih => exact (each e item).trans (ih (f e item))

theorem define (e : Engine) (name value : String) : e.Still (e.define name value) :=
  scopes e (Scopes.recordsDefine ..)

theorem assign (e : Engine) (name : String) (value : Option String) :
    e.Still (e.assign name value) := by
  cases value with
  | none => exact scopes e (Scopes.recordsUndefine ..)
  | some value => exact define e name value

theorem defineAll (entries : List (String × String)) (e : Engine) :
    e.Still (entries.foldl (fun e (name, value) => e.define name value) e) :=
  foldl (fun e entry => define e entry.1 entry.2) entries e

theorem assignAll (entries : List (String × Option String)) (e : Engine) :
    e.Still (entries.foldl (fun e (name, value) => e.assign name value) e) :=
  foldl (fun e entry => assign e entry.1 entry.2) entries e

theorem raise (e : Engine) (name : String) (value : Option String) :
    e.Still (e.raise name value) := by
  unfold Engine.raise
  split
  · exact refl e
  · split
    case h_1 raised => exact scopes e (Scopes.recordsRaise raised)
    case h_2 => exact issueAt ..

theorem raiseAll (e : Engine) (names : List String) : e.Still (e.raiseAll names) :=
  foldl (fun e name => raise e name (e.normal? name)) names e

theorem pushPolicy (e : Engine) (weak : Bool) (settings : PolicySettings) :
    e.Still (e.pushPolicy weak settings) := by
  unfold Engine.pushPolicy
  split
  case h_1 pushed =>
    obtain ⟨here, -, pushed⟩ := okOfBind pushed
    cases pushed
    exact scopes e rfl
  case h_2 => exact internalError ..

theorem popPolicy (e : Engine) : e.Still e.popPolicy.2 := by
  unfold Engine.popPolicy
  split
  case h_1 popped => exact scopes e (Scopes.recordsPopPolicy popped)
  case h_2 => exact issueAt e .fatalError _ e.backtrace
  case h_3 => exact internalError ..

end Still
end Engine

/-- Edits, and once the run has to stop nothing that lasts. -/
structure Moves (e e' : Engine) : Prop where
  edits : Edits e e'
  still : e.fatal = true → e.Still e'

namespace Moves

variable {e e' e'' : Engine}

theorem live (live : e.fatal = false) (edits : Edits e e') : Moves e e' :=
  ⟨edits, fun stops => by rw [live] at stops; cases stops⟩

theorem always (edits : Edits e e') (still : e.Still e') : Moves e e' := ⟨edits, fun _ => still⟩

theorem refl (e : Engine) : Moves e e := always (.refl e) (.refl e)

theorem trans (first : Moves e e') (second : Moves e' e'') : Moves e e'' :=
  ⟨first.edits.trans second.edits, fun stops =>
    (first.still stops).trans (second.still ((first.still stops).fatal stops))⟩

theorem define (e : Engine) (name value : String) : Moves e (e.define name value) :=
  always (.define ..) (.define ..)

theorem defineAll (entries : List (String × String)) (e : Engine) :
    Moves e (entries.foldl (fun e (name, value) => e.define name value) e) :=
  always (.defineAll ..) (.defineAll ..)

theorem assignAll (entries : List (String × Option String)) (e : Engine) :
    Moves e (entries.foldl (fun e (name, value) => e.assign name value) e) :=
  always (.assignAll ..) (.assignAll ..)

theorem issueAt (e : Engine) (kind : MessageKind) (ordinary : kind ≠ .internalError)
    (text : String) (trace : Backtrace) : Moves e (e.issueAt kind text trace) :=
  always (.issueAt e kind ordinary text trace) (.issueAt ..)

theorem issue (e : Engine) (kind : MessageKind) (ordinary : kind ≠ .internalError)
    (text : String) : Moves e (e.issue kind text) :=
  issueAt e kind ordinary text e.backtrace

theorem fatalErrorAt (e : Engine) (text : String) (trace : Backtrace) :
    Moves e (e.fatalErrorAt text trace) :=
  always (.fatalErrorAt e text trace) (.fatalErrorAt ..)

theorem fatalError (e : Engine) (text : String) : Moves e (e.fatalError text) :=
  fatalErrorAt e text e.backtrace

theorem raiseAll (e : Engine) (names : List String) : Moves e (e.raiseAll names) :=
  always (.raiseAll ..) (.raiseAll ..)

theorem pushPolicy (e : Engine) (weak : Bool) (settings : PolicySettings) :
    Moves e (e.pushPolicy weak settings) :=
  always (.pushPolicy ..) (.pushPolicy ..)

theorem popPolicy (e : Engine) : Moves e e.popPolicy.2 := always (.popPolicy e) (.popPolicy e)

theorem listFile (e : Engine) (id : Nat) (path : String) :
    Moves e { e with scopes := e.scopes.setListFile id path } :=
  always (.one (.listFile id path)) (.scopes e (Scopes.recordsSetListFile ..))

theorem errors (e : Engine) (text : String) : Moves e (e.writeErrors text) :=
  always (.one (.errors text)) (.written e e.nested e.errorOccurred rfl)

theorem expandText (e : Engine) (text : String) (line : Nat) (options : ExpandOptions) :
    Moves e (e.expandText text line options).2 := by
  unfold Engine.expandText
  split
  · exact refl e
  · exact fatalError ..

theorem expandArgument (e : Engine) (a : Argument) : Moves e (e.expandArgument a).2 := by
  unfold Engine.expandArgument
  split
  · exact refl e
  all_goals
    have expanded := expandText e a.value a.line {}
    split <;> simp_all

theorem expandEach (e : Engine) (arguments : List Argument) :
    Moves e (e.expandEach arguments).2 := by
  induction arguments generalizing e with
  | nil => exact refl e
  | cons a rest ih => exact (expandArgument e a).trans (ih _)

end Moves

namespace Step

variable {α β : Type} {e : Engine}

def Moves (s : Step α) : Prop := ∀ e, CMakeScript.Moves e (s e).2

theorem movesPure (a : α) : Moves (pure a) := fun e => .refl e

theorem movesBind {s : Step α} {k : α → Step β} (first : Moves s) (rest : ∀ a, Moves (k a)) :
    Moves (s >>= k) :=
  fun e => (first e).trans (rest _ _)

theorem movesModify {f : Engine → Engine} (each : ∀ e, CMakeScript.Moves e (f e)) :
    Moves (modify f) := each

theorem movesWords (arguments : List Argument) : Moves (words arguments) :=
  fun e => .expandEach e arguments

theorem movesValues (arguments : List Argument) : Moves (values arguments) :=
  movesBind (movesWords arguments) fun _ => movesPure _

theorem wordsLive {arguments : List Argument} {found : List Word}
    (known : (words arguments e).1 = some found) : ((words arguments e).2).fatal = false := by
  unfold words at known ⊢
  dsimp only at known ⊢
  split at known
  · cases known
  case isFalse live => exact eq_false_of_ne_true live

theorem valuesLive {arguments : List Argument} {found : List String}
    (known : (values arguments e).1 = some found) : ((values arguments e).2).fatal = false := by
  obtain ⟨found', known, -⟩ := Option.map_eq_some_iff.mp known
  exact wordsLive known

theorem movesWordsBind (arguments : List Argument) {k : Option (List Word) → Step α}
    (unknown : Moves (k none)) (known : ∀ found, Edits (k (some found))) :
    Moves (words arguments >>= k) := by
  intro e
  have expanded := movesWords arguments e
  change CMakeScript.Moves e (k (words arguments e).1 (words arguments e).2).2
  cases found : (words arguments e).1 with
  | none => exact expanded.trans (unknown _)
  | some found' => exact expanded.trans (.live (wordsLive found) (known found' _))

end Step
end CMakeScript
