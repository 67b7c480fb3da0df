import CMakeScript.Proofs.CommandRuns
/-! What is asked of an engine from outside, one request after the other: to run a text or a file as
a script, or to configure a source tree. -/
namespace CMakeScript
open Conduct

def Run.state {α : Type} (m : Run α) (e : Engine) : Engine :=
  match m e with
  | .ok (_, e') => e'
  | .error (_, e') => e'

theorem Run.answers {ε α : Type} {m : Run (Except ε α)} {e : Engine} {value : α}
    (answered : (m e).toOption.map (·.1.toOption) = some (some value)) :
    m e = .ok (.ok value, m.state e) := by
  unfold Run.state
  cases ended : m e with
  | error halted =>
    rw [ended] at answered
    cases answered
  | ok result =>
    obtain ⟨answer, e'⟩ := result
    rw [ended] at answered
    cases answer <;> cases answered
    rfl

theorem Conduct.Ends.state {G α : Type} {C : Conduct G} {m : Run α} {e : Engine}
    {after : α → Engine → Prop} {P : Engine → Prop} (ends : C.Ends m e after)
    (ended : ∀ a e', after a e' → P e') (stopped : ∀ e', C.Stopped e' → P e') : P (m.state e) := by
  unfold Run.state
  cases run : m e with
  | ok result => exact ended _ _ (ends.ok run)
  | error halted => exact stopped _ (ends.error run).toStopped

theorem Run.okOfBind {α β : Type} {m : Run α} {k : α → Run β} {e : Engine} {result : β × Engine}
    (whole : (m >>= k) e = .ok result) : ∃ a e', m e = .ok (a, e') ∧ k a e' = .ok result := by
  obtain ⟨ended, first, rest⟩ := CMakeScript.okOfBind whole
  exact ⟨ended.1, ended.2, first, rest⟩

inductive Request where
  | source (path text : String)
  | script (name : String)
  | configure (source binary : String)

theorem Engine.cacheOptions (texts : List String) (e : Engine) :
    ∃ cache errorOccurred, texts.foldl cacheOption e = { e with cache, errorOccurred } := by
  induction texts generalizing e with
  | nil => exact ⟨e.cache, e.errorOccurred, rfl⟩
  | cons text rest ih =>
    have option : ∃ cache errorOccurred, e.cacheOption text = { e with cache, errorOccurred } := by
      unfold cacheOption
      split
      · exact ⟨_, e.errorOccurred, rfl⟩
      · exact ⟨e.cache, true, rfl⟩
    obtain ⟨cache, errorOccurred, option⟩ := option
    rw [List.foldl_cons, option]
    exact ih _

theorem Engine.startCases (options : Options) (platform : Platform)
    (environment : List (String × String)) : ∃ environment' cache errorOccurred,
      start options platform environment =
        { options, platform, scopes := .initial, registry := { mode := options.mode },
          runs := #[{ snapshot := 1 }], environment := environment', cache, errorOccurred } := by
  unfold start
  obtain ⟨cache, errorOccurred, same⟩ := cacheOptions options.cacheEntries _
  exact ⟨_, cache, errorOccurred, same⟩

theorem Engine.tidyStart (options : Options) (platform : Platform)
    (environment : List (String × String)) : (start options platform environment).Tidy := by
  obtain ⟨environment', cache, errorOccurred, same⟩ := startCases options platform environment
  rw [same]
  constructor
  case blocks => exact BlockStack.tidyEmpty nofun rfl
  case log => nofun
  case latest => nofun
  case openers => exact Registry.guardsOpenersStart options.mode
  case deferred =>
    rintro (_ | i) call member
    · cases member
    · cases member

theorem Engine.freeStart (options : Options) (platform : Platform)
    (environment : List (String × String)) : (start options platform environment).Free := by
  obtain ⟨environment', cache, errorOccurred, same⟩ := startCases options platform environment
  rw [same]
  rfl

namespace Runner

def serve (r : Runner) : Request → Run (Except StartError Int)
  | .source path text => r.runSource path text
  | .script name => r.runScript name
  | .configure source binary => r.configure source binary

/-- A request that cannot be served is passed over. -/
def serveAll (r : Runner) : List Request → Run Unit
  | [] => pure ()
  | request :: rest => do
    let _ ← r.serve request
    serveAll r rest

variable {G : Type} {C : Conduct G} {r : Runner} {g : G} {e : Engine}

theorem placeTopMoves (e : Engine) (source binary : String) :
    Moves e (e.placeTop source binary) := by
  unfold Engine.placeTop
  dsimp only
  have placed : Moves e { e with scopes := e.scopes.setLocations e.snapshot source binary } := by
    refine .always ?_ (.scopes e ?_)
    · have located : Edits e { e with scopes := e.scopes.updateDirectory e.snapshot fun d =>
        { d with source, binary } } := .directory e e.snapshot fun _ => ⟨rfl, rfl⟩
      exact (located.trans
        (.one (.scope (u := .define "CMAKE_CURRENT_SOURCE_DIR" source) nofun))).trans
        (.one (.scope (u := .define "CMAKE_CURRENT_BINARY_DIR" binary) nofun))
    · unfold Scopes.setLocations
      rw [Scopes.recordsDefine, Scopes.recordsDefine]
      unfold Scopes.updateDirectory
      split
      · exact Scopes.recordsModify _ _ fun _ => rfl
      · rfl
  have defined := (placed.trans (.define _ "CMAKE_SOURCE_DIR" source)).trans
    (.define _ "CMAKE_BINARY_DIR" binary)
  exact defined.trans (.always (.one (.topSource (some source))) (.other rfl rfl id rfl))

theorem scriptEnds (runs : C.Runs r) (f : ListFile) (path : String) (ready : C.Ready .going g e)
    (hosts : C.hosts g) (early : C.Early e) :
    C.Ends (r.script f path) e fun _ => C.Ready .finished g := by
  unfold script
  refine endsGet ?_
  dsimp only
  have placed := placeTopMoves e e.platform.currentDirectory e.platform.currentDirectory
  generalize e.placeTop e.platform.currentDirectory e.platform.currentDirectory = e₁ at placed ⊢
  have named : Moves e₁ (if e₁.options.mode = .script then
      e₁.define "CMAKE_SCRIPT_MODE_FILE" path else e₁) := by
    split
    · exact .define ..
    · exact .refl e₁
  generalize (if e₁.options.mode = .script then
    e₁.define "CMAKE_SCRIPT_MODE_FILE" path else e₁) = e₂ at named ⊢
  have moves := placed.trans named
  have queued := (ready.moves trivial moves).queue hosts .opened rfl trivial
  have early := early.steady ((Engine.Steady.edits moves.edits).trans
    (.changeQueue e₂ e₂.current .opened))
  obtain ⟨g', hosting, inside, leave⟩ := enterFile queued path (.inlineFile path)
  have entered := Early.steady (e := (e₂.changeQueue e₂.current .opened).pushFrame (.ofFile path))
    early (scopeBarrierSteady _ (.inlineFile path))
  refine endsSet (endsBind (fileEnds runs f path true (fun _ => hosting hosts) (entered.able r)
    inside.toHolds) fun _ e₃ holds => ?_)
  exact endsModify ⟨(leave _ holds).queue hosts .closed rfl trivial⟩

def Answered (C : Conduct G) (g : G) (answer : Except StartError Int) (e : Engine) : Prop :=
  C.Ready .finished g e ∧ ∀ code, answer = .ok code → code = e.finalExitCode

theorem Answered.refused {error : StartError} (ready : C.Ready .going g e) :
    Answered C g (.error error) e := ⟨ready.ended, nofun⟩

theorem Answered.served (ready : C.Ready .finished g e) : Answered C g (.ok e.finalExitCode) e :=
  ⟨ready, fun _ same => (Except.ok.inj same).symm⟩

theorem sourceEnds (runs : C.Runs r) (path source : String) (ready : C.Ready .going g e)
    (hosts : C.hosts g := by exact trivial) (early : C.Early e := by exact id) :
    C.Ends (r.runSource path source) e (Answered C g) := by
  unfold runSource
  refine endsBind (readTextEnds path source ready.stop early) fun read _ same => ?_
  subst same
  split
  · exact endsPure (.refused ready)
  · exact endsBind (scriptEnds runs _ path ready hosts early) fun _ _ ready =>
      endsGet (endsPure (.served ready))

theorem refusedSource {path source : String} {e' : Engine} {error : StartError}
    (run : r.runSource path source e = .ok (.error error, e')) :
    e' = e ∧ ∃ error, ListFile.parse path source = .error error := by
  unfold runSource at run
  obtain ⟨read, _, text, run⟩ := Run.okOfBind run
  obtain ⟨parsed, rfl⟩ := readTextOk text
  split at run
  · rename_i faulty
    cases run
    exact ⟨rfl, faulty, parsed⟩
  · obtain ⟨_, e₁, -, run⟩ := Run.okOfBind run
    obtain ⟨_, _, here, run⟩ := Run.okOfBind run
    cases here
    cases run

theorem scriptFileEnds (runs : C.Runs r) (name : String) (ready : C.Ready .going g e)
    (hosts : C.hosts g) (early : C.Early e) : C.Ends (r.runScript name) e (Answered C g) := by
  unfold runScript
  refine endsGet ?_
  dsimp only
  split
  · exact endsPure (.refused ready)
  · exact sourceEnds runs _ _ ready hosts early

theorem configureEnds (runs : C.Runs r) (source binary : String) (ready : C.Ready .going g e)
    (hosts : C.hosts g) (early : C.Early e) :
    C.Ends (r.configure source binary) e (Answered C g) := by
  unfold configure
  refine endsGet ?_
  dsimp only
  split
  · exact endsPure (.refused ready)
  · refine endsBind (readTextEnds _ _ ready.stop early) fun read _ same => ?_
    subst same
    split
    · exact endsPure (.refused ready)
    · have placed := placeTopMoves e (Path.full source e.platform.currentDirectory)
        (Path.full binary e.platform.currentDirectory)
      exact endsSet (endsBind (directoryFileEnds runs _ _ hosts
        (early.steady (.edits placed.edits)) (ready.moves trivial placed)) fun _ _ ready =>
          endsGet (endsPure (.served ready)))

theorem serveEnds (runs : C.Runs r) (request : Request) (ready : C.Ready .going g e)
    (hosts : C.hosts g) (early : C.Early e) : C.Ends (r.serve request) e (Answered C g) := by
  cases request with
  | source path text => exact sourceEnds runs path text ready hosts early
  | script name => exact scriptFileEnds runs name ready hosts early
  | configure source binary => exact configureEnds runs source binary ready hosts early

theorem serveEachEnds (runs : C.Runs r)
    (resumes : ∀ {e}, C.holds .finished g e → C.holds .going g e) (requests : List Request)
    (ready : C.Ready .going g e) (hosts : C.hosts g := by exact trivial)
    (never : ∀ e, C.Early e := by exact fun _ => id) :
    C.Ends (r.serveAll requests) e fun _ => C.Ready .going g := by
  induction requests generalizing e with
  | nil => exact endsPure ready
  | cons request rest ih =>
    refine endsBind (serveEnds runs request ready hosts (never e)) fun _ e₁ answered => ih ?_
    have ready := answered.1
    exact ⟨⟨resumes ready.holds, ready.tidy⟩, ready.free⟩

end Runner
end CMakeScript
