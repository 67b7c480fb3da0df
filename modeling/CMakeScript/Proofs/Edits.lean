import CMakeScript.Command.Language
import CMakeScript.Engine.Nesting
import CMakeScript.Engine.Properties
import CMakeScript.Proofs.ScopeUse
import CMakeScript.Proofs.TargetRoster
import Mathlib.Logic.Relation
/-! What a command can do to the engine without running another command. Edits leave alone what is
open: the places in the trace, the blocks, the scopes and the directories being processed. -/
namespace CMakeScript

theorem okOfBind {ε α β : Type} {x : Except ε α} {f : α → Except ε β} {b : β}
    (whole : (x >>= f) = .ok b) : ∃ a, x = .ok a ∧ f a = .ok b := by
  cases x with
  | error error => cases whole
  | ok a => exact ⟨a, rfl, whole⟩

def Command.IsCallable (c : Command) : Prop := Command.notCallable.contains c.lowerName = false

def Written.isError (w : Written) : Bool := w.stream == .errors && w.kind.any MessageKind.isError

namespace Engine

def ErrorShown (e : Engine) : Prop := ∃ w ∈ e.written, w.isError = true

theorem shownDiagnostic (e : Engine) {kind : MessageKind} (error : kind.isError = true)
    (text : String) : (e.writeDiagnostic kind text).ErrorShown :=
  ⟨_, Array.mem_push_self, by simpa [Written.isError] using error⟩

theorem shownDisplay (e : Engine) {kind : MessageKind} (error : kind.isError = true)
    (text : String) : (e.display kind text).ErrorShown := by
  unfold display
  rw [if_pos error]
  exact shownDiagnostic e error _

theorem shownIssueAt (e : Engine) {kind : MessageKind}
    (error : kind = .fatalError ∨ kind = .internalError) (text : String) (trace : Backtrace) :
    (e.issueAt kind text trace).ErrorShown := by
  unfold issueAt
  rw [if_pos error]
  generalize e.markNested = e₁
  have shown : kind.shown? e₁.warnings = some kind := by rcases error with rfl | rfl <;> rfl
  have counts : kind.isError = true := by rcases error with rfl | rfl <;> rfl
  simp only [shown, counts, if_true]
  exact shownDiagnostic e₁ counts _

end Engine

inductive Engine.Counts (e : Engine) : Engine → Prop where
  | loops (loops : List Nat) : e.Counts { e with loops }

namespace Engine.Counts

theorem openLoop (e : Engine) : e.Counts e.openLoop := by
  unfold Engine.openLoop
  split
  · exact .loops e.loops
  · exact .loops _

theorem closeLoop (e : Engine) : e.Counts e.closeLoop := by
  unfold Engine.closeLoop
  split
  · exact .loops e.loops
  · exact .loops _

theorem openLoopBarrier (e : Engine) : e.Counts e.openLoopBarrier := .loops _

theorem closeLoopBarrier (e : Engine) : e.Counts e.closeLoopBarrier := by
  unfold Engine.closeLoopBarrier
  split
  · exact .loops _
  · exact .loops e.loops

theorem snapshot {e e' : Engine} (counts : e.Counts e') : e'.snapshot = e.snapshot := by
  cases counts
  rfl

theorem log {e e' : Engine} (counts : e.Counts e') : e'.log = e.log := by
  cases counts
  rfl

end Engine.Counts

inductive QueueChange.Free (e : Engine) (i : Nat) : QueueChange → Prop where
  | deferred {call : DeferredCall} (callable : call.command.IsCallable) (waits : call.waits = true)
    (isOpen : (e.deferredAt i).isSome = true) : Free e i (.deferred call)
  | cancelled (ids : List String) : Free e i (.cancelled ids)
  | listed : Free e i (.listed (e.waitingIds i))

theorem QueueChange.Free.callable {e : Engine} {i : Nat} {change : QueueChange}
    (free : change.Free e i) : ∀ call, change = .deferred call → call.command.IsCallable := by
  rintro call rfl
  cases free
  assumption

inductive Edit (e : Engine) : Engine → Prop where
  | scope {id : Nat} {u : ScopeEdit} (own : u.movesFrames = true → id = e.snapshot) :
    Edit e { e with scopes := u.apply e.scopes id }
  | directory (id : Nat) {f : Directory → Directory}
    (hidden : ∀ d, (f d).current = d.current ∧ (f d).children = d.children)
    (unlisted : ∀ d, (f d).targetNames = d.targetNames := by exact fun _ => rfl) :
    Edit e { e with scopes := e.scopes.updateDirectory id f }
  | listFile (id : Nat) (path : String) : Edit e { e with scopes := e.scopes.setListFile id path }
  | cache (cache : Cache) : Edit e { e with cache }
  | globals (globals : Properties) : Edit e { e with globals }
  | declarations (declarations : PropertyDeclarations) : Edit e { e with declarations }
  | targets {targets : Targets} (change : e.targets.Change targets) : Edit e { e with targets }
  | declared {t : Target} (builds : t.imported = false) (unknown : e.targets.get? t.name = none) :
    Edit e { e with
      targets := { e.targets with targets := e.targets.targets.insert t.name t },
      scopes := e.scopes.updateDirectory e.snapshot fun d =>
        { d with targetNames := d.targetNames ++ [t.name] } }
  | environment (environment : Std.TreeMap String String) : Edit e { e with environment }
  | topSource (topSource : Option String) : Edit e { e with topSource }
  | checks (checks : List String) : Edit e { e with checks }
  | quoteWarnings (quoteWarnings : List (String × Nat)) : Edit e { e with quoteWarnings }
  | output (text : String) : Edit e (e.writeOutput text)
  | errors (text : String) : Edit e (e.writeErrors text)
  | issue {kind : MessageKind} (ordinary : kind ≠ .internalError) (text : String)
    (trace : Backtrace) : Edit e (e.issueAt kind text trace)
  | display {kind : MessageKind} (ordinary : kind ≠ .internalError) (text : String) :
    Edit e (e.display kind text)
  | lost (absent : e.scopes.snapshots.get? e.snapshot = none) (error : ScopeError) :
    Edit e (e.internalError error)
  | setFatal (told : e.ErrorShown) : Edit e e.setFatal
  | tested : Edit e (e.logged .tested)
  | queue {i : Nat} {change : QueueChange} (free : change.Free e i) :
    Edit e (e.changeQueue i change)

def Edits : Engine → Engine → Prop := Relation.ReflTransGen Edit

namespace Edits

variable {e e' : Engine}

theorem refl (e : Engine) : Edits e e := Relation.ReflTransGen.refl

theorem trans {e'' : Engine} (first : Edits e e') (second : Edits e' e'') : Edits e e'' :=
  Relation.ReflTransGen.trans first second

theorem one (edit : Edit e e') : Edits e e' := Relation.ReflTransGen.single edit

theorem foldl {α : Type} {f : Engine → α → Engine} (each : ∀ e a, Edits e (f e a))
    (items : List α) (e : Engine) : Edits e (items.foldl f e) := by
  induction items generalizing e with
  | nil => exact refl e
  | cons item items ih => exact (each e item).trans (ih (f e item))

theorem foldlWith {α β : Type} {f : Engine × β → α → Engine × β}
    (each : ∀ s a, Edits s.1 (f s a).1) (items : List α) (s : Engine × β) :
    Edits s.1 (items.foldl f s).1 := by
  induction items generalizing s with
  | nil => exact refl s.1
  | cons item items ih => exact (each s item).trans (ih (f s item))

theorem define (e : Engine) (name value : String) : Edits e (e.define name value) :=
  one (.scope (u := .define name value) nofun)

theorem undefine (e : Engine) (name : String) : Edits e (e.undefine name) :=
  one (.scope (u := .undefine name) nofun)

theorem assign (e : Engine) (name : String) (value : Option String) :
    Edits e (e.assign name value) := by
  cases value with
  | none => exact undefine e name
  | some value => exact define e name value

theorem defineAll (entries : List (String × String)) (e : Engine) :
    Edits e (entries.foldl (fun e (name, value) => e.define name value) e) :=
  foldl (fun e entry => define e entry.1 entry.2) entries e

theorem assignAll (entries : List (String × Option String)) (e : Engine) :
    Edits e (entries.foldl (fun e (name, value) => e.assign name value) e) :=
  foldl (fun e entry => assign e entry.1 entry.2) entries e

theorem issueAt (e : Engine) (kind : MessageKind) (ordinary : kind ≠ .internalError)
    (text : String) (trace : Backtrace) : Edits e (e.issueAt kind text trace) :=
  one (.issue ordinary text trace)

theorem issue (e : Engine) (kind : MessageKind) (ordinary : kind ≠ .internalError)
    (text : String) : Edits e (e.issue kind text) :=
  issueAt e kind ordinary text e.backtrace

theorem fatalErrorAt (e : Engine) (text : String) (trace : Backtrace) :
    Edits e (e.fatalErrorAt text trace) :=
  (issueAt e .fatalError (by decide) text trace).trans
    (one (.setFatal (e.shownIssueAt (.inl rfl) text trace)))

theorem fatalError (e : Engine) (text : String) : Edits e (e.fatalError text) :=
  fatalErrorAt e text e.backtrace

theorem raise (e : Engine) (name : String) (value : Option String) :
    Edits e (e.raise name value) := by
  unfold Engine.raise
  split
  · exact refl e
  · split
    case h_1 scopes raised =>
      have edit := Edit.scope (e := e) (u := .raise name value) fun _ => rfl
      rw [ScopeEdit.apply, raised] at edit
      exact one edit
    case h_2 => exact issue e .authorWarning (by decide) _

theorem raiseAll (e : Engine) (names : List String) : Edits e (e.raiseAll names) :=
  foldl (fun e name => raise e name (e.normal? name)) names e

theorem setPolicy (e : Engine) (p : Policy) (status : PolicyStatus) :
    Edits e (e.setPolicy p status) :=
  one (.scope (u := .setPolicy p status) nofun)

theorem setPolicyByName (e : Engine) (name : String) (status : PolicyStatus) :
    Edits e (e.setPolicyByName name status).2 := by
  unfold Engine.setPolicyByName
  split
  · exact setPolicy ..
  · exact issue e .fatalError (by decide) _

theorem setPolicyVersion (e : Engine) (least : String) (most : Option String) :
    Edits e (e.setPolicyVersion least most).2 := by
  unfold Engine.setPolicyVersion
  split
  · exact issue e .fatalError (by decide) _
  · split_ifs
    · exact fatalError ..
    · exact fatalError ..
    · split
      · exact issue e .fatalError (by decide) _
      · exact foldl (fun e p => setPolicy e p _) _ e

theorem pushPolicy (e : Engine) (weak : Bool) (settings : PolicySettings) :
    Edits e (e.pushPolicy weak settings) := by
  unfold Engine.pushPolicy
  split
  case h_1 scopes pushed =>
    have edit := Edit.scope (e := e) (u := .pushPolicy settings weak) fun _ => rfl
    rw [ScopeEdit.apply, pushed] at edit
    exact one edit
  case h_2 error failed =>
    refine one (.lost ?_ error)
    cases found : e.scopes.snapshots.get? e.snapshot with
    | none => rfl
    | some here => simp [Scopes.pushPolicy, Scopes.snapshot, found, bind, Except.bind] at failed

theorem popPolicy (e : Engine) : Edits e e.popPolicy.2 := by
  unfold Engine.popPolicy
  split
  case h_1 scopes popped =>
    have edit := Edit.scope (e := e) (u := .popPolicy) fun _ => rfl
    rw [ScopeEdit.apply, popped] at edit
    exact one edit
  case h_2 => exact issue e .fatalError (by decide) _
  case h_3 error failed =>
    refine one (.lost ?_ error)
    cases found : e.scopes.snapshots.get? e.snapshot with
    | none => rfl
    | some here =>
      simp only [Scopes.popPolicy, Scopes.snapshot, found, bind, Except.bind] at failed
      split at failed <;> cases failed

theorem directory (e : Engine) (id : Nat) {f : Directory → Directory}
    (hidden : ∀ d, (f d).current = d.current ∧ (f d).children = d.children)
    (unlisted : ∀ d, (f d).targetNames = d.targetNames := by exact fun _ => rfl) :
    Edits e { e with scopes := e.scopes.updateDirectory id f } :=
  one (.directory id hidden unlisted)

theorem modifyTarget (e : Engine) (name : String) {f : Target → Target}
    (kept : ∀ t, (f t).imported = t.imported := by exact fun _ => rfl) :
    Edits e { e with targets := e.targets.modify name f } :=
  one (.targets (.modified name kept))

theorem editDirectory (e : Engine) (id : Nat) (name : String) (edit : PropertyEdit) :
    Edits e (e.editDirectory id name edit) := by
  unfold Engine.editDirectory
  split
  case h_1 kind _ =>
    cases edit with
    | assign value => exact one (.scope (u := .setContent kind value) nofun)
    | append value raw => exact one (.scope (u := .appendContent kind value) nofun)
    | remove => exact one (.scope (u := .clearContent kind) nofun)
  case h_2 => exact directory e id fun _ => ⟨rfl, rfl⟩

theorem cache (e : Engine) (cache : Cache) : Edits e { e with cache } := one (.cache _)

theorem uncover (e : Engine) (name : String) : Edits e (e.uncover name) := by
  unfold Engine.uncover
  split
  · exact refl e
  · exact undefine e name
  · dsimp only
    split
    · exact (issue e .authorWarning (by decide) _).trans (undefine _ name)
    · exact undefine e name

theorem cacheDefine (e : Engine) (name value help : String) (type : CacheType)
    (force : Bool) : Edits e (e.cacheDefine name value help type force) :=
  (cache e _).trans (uncover _ name)

theorem clearMatches (e : Engine) : Edits e e.clearMatches := by
  unfold Engine.clearMatches
  split
  · exact refl e
  · refine (foldl (fun e i => ?_) _ e).trans (define _ _ _)
    split
    · exact define ..
    · exact refl e

theorem storeGroups (e : Engine) (group? : Nat → Option String) :
    Edits e (e.storeGroups group?) := by
  unfold Engine.storeGroups
  generalize walked : List.foldl _ (e, 0) (List.range 10) = s
  have stored : Edits e s.1 := by
    rw [← walked]
    refine foldlWith (fun s i => ?_) (List.range 10) (e, 0)
    dsimp only
    split
    · split
      · exact refl s.1
      · exact define ..
    · exact refl s.1
  exact stored.trans (define ..)

theorem storeMatch (e : Engine) (m : Regex.Match) : Edits e (e.storeMatch m) :=
  storeGroups e _

theorem editTarget (e : Engine) (target name : String) (edit : PropertyEdit) :
    Edits e (e.editTarget target name edit).2 := by
  unfold Engine.editTarget
  split
  · exact fatalError ..
  · exact modifyTarget e target

theorem expandText (e : Engine) (text : String) (line : Nat) (options : ExpandOptions) :
    Edits e (e.expandText text line options).2 := by
  unfold Engine.expandText
  split
  · exact refl e
  · exact fatalError ..

theorem expandArgument (e : Engine) (a : Argument) : Edits e (e.expandArgument a).2 := by
  unfold Engine.expandArgument
  split
  · exact refl e
  all_goals
    have expanded := expandText e a.value a.line {}
    split <;> simp_all

theorem expandEach (e : Engine) (arguments : List Argument) :
    Edits e (e.expandEach arguments).2 := by
  induction arguments generalizing e with
  | nil => exact refl e
  | cons a rest ih => exact (expandArgument e a).trans (ih _)

theorem deferCall {e e' : Engine} {directory id : Option String} {command : Command} {name : String}
    (callable : command.IsCallable) (named : ∀ given, id = some given → given ≠ "")
    (queued : e.deferCall directory id command = .ok (name, e')) : Edits e e' := by
  unfold Engine.deferCall at queued
  obtain ⟨i, target, queued⟩ := okOfBind queued
  split at queued
  · cases queued
  case h_2 calls found =>
    cases queued
    refine one (.queue (.deferred callable ?_ (Option.isSome_of_eq_some found)))
    cases id with
    | none => simp [DeferredCall.waits]
    | some given => simpa [DeferredCall.waits] using named given rfl

theorem deferCancel {e e' : Engine} {directory : Option String} {ids : List String}
    (cancelled : e.deferCancel directory ids = .ok e') : Edits e e' := by
  unfold Engine.deferCancel at cancelled
  obtain ⟨i, target, cancelled⟩ := okOfBind cancelled
  cases cancelled
  exact one (.queue (.cancelled ids))

theorem deferIds {e e' : Engine} {directory : Option String} {ids : List String}
    (listed : e.deferIds directory = .ok (ids, e')) : Edits e e' := by
  unfold Engine.deferIds at listed
  obtain ⟨i, target, listed⟩ := okOfBind listed
  cases listed
  exact one (.queue .listed)

end Edits
namespace Step

variable {α β ε : Type}

def EditsAt (s : Step α) (e : Engine) : Prop := CMakeScript.Edits e (s e).2

def Edits (s : Step α) : Prop := ∀ e, s.EditsAt e

theorem editsPure (a : α) : Edits (pure a) := fun e => .refl e

theorem editsBind {s : Step α} {k : α → Step β} (first : Edits s)
    (rest : ∀ a, Edits (k a)) : Edits (s >>= k) :=
  fun e => (first e).trans (rest _ _)

theorem editsGet : Edits (get : Step Engine) := fun e => .refl e

theorem editsModify {f : Engine → Engine} (each : ∀ e, CMakeScript.Edits e (f e)) :
    Edits (modify f) := each

theorem editsGetBind {k : Engine → Step β} (rest : ∀ e, EditsAt (k e) e) : Edits (get >>= k) :=
  fun e => rest e

theorem editsTested : Edits (modify (·.logged .tested)) := editsModify fun _ => .one .tested

theorem atSetBind {e e' : Engine} {k : PUnit → Step β} (change : CMakeScript.Edits e e')
    (rest : Edits (k ⟨⟩)) : EditsAt (set e' >>= k) e :=
  change.trans (rest e')

theorem editsDone : Edits done := editsPure _

theorem editsFail (text : String) : Edits (fail text) := editsPure _

theorem editsFatal (text : String) : Edits (fatal text) :=
  editsBind (editsModify fun e => .fatalError e text) fun _ => editsPure _

theorem editsDefine (name value : String) : Edits (define name value) :=
  editsModify fun e => .define e name value

theorem editsWords (arguments : List Argument) : Edits (words arguments) :=
  fun e => .expandEach e arguments

theorem editsValues (arguments : List Argument) : Edits (values arguments) :=
  editsBind (editsWords arguments) fun _ => editsPure _

end Step

def Verdict.Stands (v : Verdict) (e e' : Engine) : Prop :=
  e' = e ∨ (∃ text, v = .failed text) ∧ e' = e.setFatal

namespace Step

def Acts (s : Step Verdict) : Prop :=
  ∀ e, ∃ e₁, CMakeScript.Edits e e₁ ∧ (s e).1.Stands e₁ (s e).2

theorem actsEdits {s : Step Verdict} (edits : s.Edits) : s.Acts :=
  fun e => ⟨(s e).2, edits e, .inl rfl⟩

theorem actsBind {s : Step α} {k : α → Step Verdict} (edits : s.Edits)
    (rest : ∀ a, (k a).Acts) : (s >>= k).Acts := by
  intro e
  obtain ⟨e₁, more, stands⟩ := rest (s e).1 (s e).2
  exact ⟨e₁, (edits e).trans more, stands⟩

theorem actsFailFatally (text : String) : (failFatally text).Acts :=
  fun e => ⟨e, .refl e, .inr ⟨⟨text, rfl⟩, rfl⟩⟩

def EditsOrFails (x : ExceptT ε Step α) : Prop := Edits x.run

theorem tryPure (a : α) : EditsOrFails (pure a : ExceptT ε Step α) := editsPure _

theorem tryThrow (error : ε) : EditsOrFails (throw error : ExceptT ε Step α) :=
  editsPure _

theorem tryLift {s : Step α} (edits : Edits s) :
    EditsOrFails (liftM s : ExceptT ε Step α) :=
  editsBind edits fun _ => editsPure _

theorem tryGet : EditsOrFails (get : ExceptT ε Step Engine) :=
  fun e => .refl e

theorem tryModify {f : Engine → Engine} (each : ∀ e, CMakeScript.Edits e (f e)) :
    EditsOrFails (modify f : ExceptT ε Step PUnit) := each

theorem tryBind {x : ExceptT ε Step α} {k : α → ExceptT ε Step β}
    (first : EditsOrFails x) (rest : ∀ a, EditsOrFails (k a)) : EditsOrFails (x >>= k) := by
  rw [EditsOrFails, ExceptT.run_bind]
  refine editsBind first fun a => ?_
  cases a with
  | ok a => exact rest a
  | error error => exact editsPure _

end Step
end CMakeScript
