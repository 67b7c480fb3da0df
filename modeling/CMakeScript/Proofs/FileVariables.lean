import CMakeScript.Proofs.DefinitionPolicies
/-! The variables that name the file being run. An include of a file that leaves no block open gives
them the values back that they had when the file was begun. For the parent this is the file with the
include, since that was written before the values were saved. -/
namespace CMakeScript

namespace Scopes

theorem definitionShared {s t : Scopes} {origin id : Nat} {o : ScopeOpening}
    (shares : o.ownFrame = false) (created : o.create s origin = .ok (t, id)) (name : String) :
    t.definition? id name = s.definition? origin name := by
  rw [ScopeOpening.createNested] at created
  obtain ⟨parent, found, rfl, rfl⟩ := createNestedCases created
  rw [definitionOf found, definitionOf (innerScopesNew ..), shares]
  rfl

end Scopes
namespace Engine

variable {e e' : Engine} {name : String}

theorem definitionNormalOr (e : Engine) (name : String) :
    e.definition? name = (e.normal? name).or (e.cache.value? name) := by
  unfold definition?
  cases e.normal? name <;> rfl

theorem definitionOfNormal {value : Option String} (shows : e.normal? name = value) :
    e.definition? name = value.or (e.cache.value? name) := by
  rw [definitionNormalOr, shows]

theorem definitionDefineOther (e : Engine) {name other : String} (different : name ≠ other)
    (value : String) : (e.define name value).definition? other = e.definition? other := by
  rw [definitionNormalOr e]
  exact definitionOfNormal (Scopes.definitionDefine _ _ _ different value)

theorem definitionOrCache (e : Engine) (name : String) :
    (e.definition? name).or (e.cache.value? name) = e.definition? name := by
  rw [definitionNormalOr, Option.or_assoc, Option.or_self]

theorem SameViews.definition (same : e.SameViews e') (still : e.Still e') (name : String) :
    e'.definition? name = e.definition? name := by
  have cache : e'.cache = e.cache := congrArg Lasting.cache still.lasting
  unfold definition?
  rw [same.normal, cache]

theorem definitionOpenScope (placed : e.current < e.runs.size) {o : ScopeOpening}
    (shares : o.ownFrame = false) (name : String) :
    (e.openScope o.create).2.definition? name = e.definition? name := by
  unfold openScope
  split
  case h_1 scopes id created =>
    rw [definitionNormalOr e]
    refine definitionOfNormal (?_ : normal? _ name = e.normal? name)
    unfold normal?
    rw [snapshotMoved placed]
    exact Scopes.definitionShared shares created name
  case h_2 error _ =>
    exact SameViews.definition (.internalError e error) (.internalError e error) name

end Engine

/-- The blocks that were open where the latest file ended. -/
def leftOpen : List LogEntry → List (OpenBlock Block)
  | [] => []
  | entry :: before =>
    match entry.event with
    | .fileLeft _ => entry.blocks.blocks
    | _ => leftOpen before

theorem leftOpenSteady {e e' : Engine} (steady : e.Steady e') : leftOpen e'.log = leftOpen e.log := by
  obtain ⟨entries, aside, log⟩ := steady.log
  rw [log]
  refine (logIdle (P := fun _ => True) (fun {entry} log here => ⟨?_, id⟩) aside e.log).1
  rw [leftOpen]
  cases event : entry.event with
  | fileLeft =>
    rw [event] at here
    cases here
  | _ => rfl

namespace Runner

open Engine

variable {g : CallPlace} {e e' : Engine} {fuel : Nat} {path : String}

theorem parseCases {text : String} {f? : Option ListFile}
    (ran : parse path text e = .ok (f?, e')) : f?.isSome ∧ e' = e ∨ f? = none ∧ e'.fatal = true := by
  unfold parse at ran
  obtain ⟨read, _, here, ran⟩ := Run.okOfBind ran
  obtain ⟨-, rfl⟩ := readTextOk here
  cases read with
  | ok f =>
    cases ran
    exact .inl ⟨rfl, rfl⟩
  | error error =>
    cases ran
    exact .inr ⟨rfl, rfl⟩

theorem loadCases {f? : Option ListFile} (ran : load path e = .ok (f?, e')) :
    f?.isSome ∧ e' = e ∨ f? = none ∧ e'.fatal = true := by
  unfold load at ran
  obtain ⟨_, _, here, ran⟩ := Run.okOfBind ran
  cases here
  cases there : e.platform.read path with
  | ok text =>
    rw [there] at ran
    exact parseCases ran
  | error reason =>
    rw [there] at ran
    cases ran
    exact .inr ⟨rfl, rfl⟩

def giveBack (saved : List (String × Option String)) (e : Engine) : Engine :=
  saved.foldl (fun e entry => e.assign entry.1 entry.2) e

def savedVariables (e : Engine) : List (String × Option String) :=
  fileVariables.map fun name => (name, e.definition? name)

theorem savedDistinct (e : Engine) : ((savedVariables e).map Prod.fst).Nodup := by
  have names : (savedVariables e).map Prod.fst = fileVariables := rfl
  rw [names]
  decide

theorem fileSaves {f : ListFile} (holds : definitionMemory.Holds g e)
    (ran : (Runner.ofFuel fuel).file f path false e = .ok ((), e')) :
    ∃ e₁, definitionMemory.conduct.Holds .finished g e₁ ∧ leftOpen e₁.log = e₁.blocks.blocks ∧
      e' = giveBack (savedVariables e) e₁ := by
  have entered : definitionMemory.Holds g ((e.define "CMAKE_CURRENT_LIST_FILE" path).define
      "CMAKE_CURRENT_LIST_DIR" (Path.parent path)) :=
    (holds.moves trivial (.define ..)).moves trivial (.define ..)
  unfold file at ran
  obtain ⟨_, _, here, ran⟩ := Run.okOfBind ran
  cases here
  obtain ⟨_, _, here, ran⟩ := Run.okOfBind ran
  cases here
  obtain ⟨_, e₁, commands, rest⟩ := Run.okOfBind ran
  obtain ⟨s, e₀, stays, holds, -, rfl⟩ :=
    (commandsEnds (definitionMemory.runs fuel).conduct f.commands entered).ok commands
  cases rest
  exact ⟨_, holds.fileLeft stays, rfl, rfl⟩

theorem closeKeeps {handle : ScopeHandle} {handles : List (Nat × Bool)}
    {saved : List (String × Option String)} (tidy : e.Tidy) (free : e.Free)
    (kept : e.Kept (e.blocks.handles ++ (held handle false ++ handles)) saved)
    (live : ((e.closeBarrier true).closeScope handle true).fatal = false) :
    ∀ entry ∈ saved, ((e.closeBarrier true).closeScope handle true).normal? entry.1 = entry.2 := by
  obtain stops | housed := kept.closeBarrierScope tidy (fun _ => free) true true
  · rw [stops] at live
    cases live
  · exact housed.shows

theorem includeEntered (ready : definitionMemory.Ready g e) (path : String) (ownPolicies : Bool) :
    let opened := (e.pushFrame (.ofFile path)).openBarrier.openScope
      (ScopeOpening.includeFile path).create
    let inside := if ownPolicies then opened.2.pushPolicy false {} else opened.2
    definitionMemory.Holds { g with handles := held opened.1 false ++ g.handles } inside ∧
      ∀ name, inside.definition? name = e.definition? name := by
  have framed : definitionMemory.Ready g (e.pushFrame (.ofFile path)) :=
    ⟨⟨ready.holds.other (.other rfl rfl rfl id) rfl rfl rfl rfl rfl,
      fun strict => (ready.tidy strict).pushFrame _⟩, ready.free⟩
  obtain ⟨_, entered, -⟩ := framed.barrierScope (.includeFile path)
  have remembers := framed.holds.openBarrier.openScope (.includeFile path)
  have placed : e.current < e.runs.size := ready.holds.current ▸ ready.holds.placed
  have shared := definitionOpenScope (e := (e.pushFrame (.ofFile path)).openBarrier)
    (o := .includeFile path) placed rfl
  intro opened inside
  have holds : definitionMemory.Holds { g with handles := held opened.1 false ++ g.handles }
      opened.2 := ⟨remembers, entered.tidy⟩
  cases ownPolicies with
  | false => exact ⟨holds, shared⟩
  | true =>
    refine ⟨holds.moves trivial (.pushPolicy ..), fun name => ?_⟩
    exact (SameViews.definition (.pushPolicy ..) (.pushPolicy ..) name).trans (shared name)

theorem leftPolicies (ownPolicies : Bool) (e : Engine) :
    e.SameViews (if ownPolicies then e.popPolicy.2 else e) ∧
      Edits e (if ownPolicies then e.popPolicy.2 else e) := by
  cases ownPolicies with
  | false => exact ⟨.refl e, .refl e⟩
  | true => exact ⟨.popPolicy e, .popPolicy e⟩

theorem closesSteady (ownPolicies : Bool) (handle : ScopeHandle) (report : Bool) (e : Engine) :
    e.Steady (((if ownPolicies then e.popPolicy.2 else e).closeBarrier report).closeScope handle
      report) :=
  (Steady.edits (leftPolicies ownPolicies e).2).trans (.turns (.closeBarrierScope ..))

theorem includedEnds {handle : ScopeHandle} {f : ListFile} (ownPolicies : Bool)
    (holds : definitionMemory.Holds { g with handles := held handle false ++ g.handles } e)
    (ran : (Runner.ofFuel fuel).file f path false e = .ok ((), e')) :
    let left := if ownPolicies then e'.popPolicy.2 else e'
    let closed := (left.closeBarrier (!e'.fatal)).closeScope handle (!e'.fatal)
    leftOpen closed.log = [] → closed.fatal = false →
      ∀ name ∈ fileVariables, closed.normal? name = e.definition? name := by
  obtain ⟨e₁, ended, open₁, rfl⟩ := fileSaves holds ran
  have given : Edits e₁ (giveBack (savedVariables e) e₁) := .assignAll ..
  have restored : (giveBack (savedVariables e) e₁).Kept
      (e₁.blocks.handles ++ (held handle false ++ g.handles)) (savedVariables e) :=
    ended.holds.kept.imp (Steady.edits given).fatal fun housed =>
      housed.restored (ended.holds.current ▸ ended.holds.placed) _ (savedDistinct e)
  generalize giveBack (savedVariables e) e₁ = e₂ at given restored ⊢
  intro left closed none live name member
  have popped := leftPolicies ownPolicies e₂
  have closing := closesSteady ownPolicies handle (!e₂.fatal) e₂
  have running : e₂.fatal = false := closing.live live
  have same : e₁.SameOpen left := .edits (given.trans popped.2)
  have free : e₁.Free := by
    rw [leftOpenSteady ((Steady.edits given).trans closing), open₁] at none
    exact none
  have kept := restored.same popped.1
  rw [← same.blocks] at kept
  have reports : closed = (left.closeBarrier true).closeScope handle true := by
    simp only [closed, running, Bool.not_false]
  rw [reports] at live ⊢
  exact closeKeeps ((ended.tidy trivial).sameOpen same) (free.sameOpen same) kept live _
    (List.mem_map_of_mem member)

theorem includeFileRestores {name : String} {keepPolicies found : Bool}
    (ready : definitionMemory.Ready g e)
    (ran : (Runner.ofFuel fuel).includeFile name keepPolicies e = .ok (found, e'))
    (live : e'.fatal = false)
    (closed : e.platform.isFile (Path.full name e.sourceDir) = true → leftOpen e'.log = []) :
    found = e.platform.isFile (Path.full name e.sourceDir) ∧ (found = false → e' = e) ∧
      (found = true → ∀ v ∈ fileVariables,
        e'.definition? v = ((nameParent e).definition? v).or (e'.cache.value? v)) := by
  unfold includeFile at ran
  obtain ⟨_, _, here, ran⟩ := Run.okOfBind ran
  cases here
  generalize Path.full name e.sourceDir = path at ran closed ⊢
  dsimp only at ran
  cases there : e.platform.isFile path with
  | false =>
    rw [there] at ran
    cases ran
    exact ⟨rfl, fun _ => rfl, nofun⟩
  | true =>
    rw [there] at ran
    simp only [Bool.not_true, Bool.false_eq_true, if_false] at ran
    obtain ⟨_, _, here, ran⟩ := Run.okOfBind ran
    cases here
    obtain ⟨f?, e₁, loaded, ran⟩ := Run.okOfBind ran
    obtain ⟨_, e₂, filed, ran⟩ := Run.okOfBind ran
    cases ran
    have named : definitionMemory.Ready g (nameParent e) := ready.moves trivial (nameParentMoves e)
    generalize (!keepPolicies && _ : Bool) = ownPolicies at loaded live closed ⊢
    obtain ⟨holds, views⟩ := includeEntered named path ownPolicies
    obtain ⟨found, rfl⟩ | ⟨rfl, stops⟩ := loadCases loaded
    · obtain ⟨f, rfl⟩ := Option.isSome_iff_exists.mp found
      obtain ⟨_, e₃, ran, done⟩ := Run.okOfBind filed
      cases done
      have shows := includedEnds ownPolicies holds ran (closed there) live
      refine ⟨rfl, nofun, fun _ v member => ?_⟩
      rw [← views v]
      exact definitionOfNormal (shows v member)
    · cases filed
      have running : e₁.fatal = false := (closesSteady ownPolicies _ _ e₁).live live
      exact absurd (stops.symm.trans running) (by decide)

theorem nameParentOther (e : Engine) {name : String} (other : name ≠ "CMAKE_PARENT_LIST_FILE") :
    (nameParent e).definition? name = e.definition? name := by
  unfold nameParent
  split
  case h_1 current _ => exact definitionDefineOther e other.symm current
  case h_2 => rfl

theorem nameParentShows (ready : definitionMemory.Ready g e) (live : e.fatal = false) :
    (nameParent e).definition? "CMAKE_PARENT_LIST_FILE" =
      (e.definition? "CMAKE_CURRENT_LIST_FILE").or (e.definition? "CMAKE_PARENT_LIST_FILE") := by
  unfold nameParent
  split
  case h_1 current known =>
    obtain stops | housed := ready.holds.kept
    · rw [live] at stops
      cases stops
    · have placed : e.current < e.runs.size := ready.holds.current ▸ ready.holds.placed
      rw [known]
      exact definitionOfNormal (housed.assigned placed "CMAKE_PARENT_LIST_FILE" (some current))
  case h_2 none => rw [none, Option.none_or]

theorem requestedKeeps {name : String} {request : IncludeRequest} {v : Verdict}
    (ran : (Runner.ofFuel fuel).includeRequested name request e = .ok (v, e')) :
    ∃ found e₁, (Runner.ofFuel fuel).includeFile (Path.full (includedName e name) e.sourceDir)
        request.keepPolicies e = .ok (found, e₁) ∧
      e'.fatal = e₁.fatal ∧ e'.log = e₁.log ∧ e'.cache = e₁.cache ∧
      ∀ other, request.output ≠ some other → e'.definition? other = e₁.definition? other := by
  unfold includeRequested at ran
  obtain ⟨_, _, here, ran⟩ := Run.okOfBind ran
  cases here
  obtain ⟨found, e₁, file, ran⟩ := Run.okOfBind ran
  refine ⟨found, e₁, file, ?_⟩
  have answered {e₂ : Engine} (ran : (do
      if !request.isOptional && !found && !(← get).fatal then
        return .failed ("could not find requested file:\n  " ++ includedName e name)
      else return Verdict.done : Run Verdict) e₂ = .ok (v, e')) : e' = e₂ := by
    obtain ⟨_, _, here, ran⟩ := Run.okOfBind ran
    cases here
    split at ran <;> cases ran <;> rfl
  cases output : request.output with
  | none =>
    rw [output] at ran
    obtain rfl := answered ran
    exact ⟨rfl, rfl, rfl, fun _ _ => rfl⟩
  | some result =>
    rw [output] at ran
    obtain ⟨_, _, here, ran⟩ := Run.okOfBind ran
    cases here
    obtain rfl := answered ran
    exact ⟨rfl, rfl, rfl, fun other apart =>
      definitionDefineOther e₁ (fun same => apart (congrArg some same)) _⟩

def includedFile (e : Engine) (name : String) : String :=
  Path.full (Path.full (includedName e name) e.sourceDir) e.sourceDir

/-- After an include of a file that leaves no block open, the file and the directory that are run are
named as before, and the parent is the file with the include. A variable that was undefined before
shows what the cache has for it by then. -/
theorem includesRestoreAllButParent {name : String} {request : IncludeRequest} {v : Verdict}
    (ready : definitionMemory.Ready g e) (running : e.fatal = false)
    (ran : (Runner.ofFuel fuel).includeRequested name request e = .ok (v, e'))
    (live : e'.fatal = false)
    (closed : e.platform.isFile (includedFile e name) = true → leftOpen e'.log = []) :
    let current := e.definition? "CMAKE_CURRENT_LIST_FILE"
    let parent := e.definition? "CMAKE_PARENT_LIST_FILE"
    let found := e.platform.isFile (includedFile e name)
    ∀ entry ∈ [("CMAKE_CURRENT_LIST_FILE", current),
        ("CMAKE_CURRENT_LIST_DIR", e.definition? "CMAKE_CURRENT_LIST_DIR"),
        ("CMAKE_PARENT_LIST_FILE", if found then current.or parent else parent)],
      request.output ≠ some entry.1 →
        e'.definition? entry.1 = entry.2.or (e'.cache.value? entry.1) := by
  intro current parent found entry member apart
  obtain ⟨loaded, e₁, file, fatal, log, cache, kept⟩ := requestedKeeps ran
  rw [fatal] at live
  rw [log] at closed
  obtain ⟨there, missing, restores⟩ := includeFileRestores ready file live closed
  rw [kept _ apart, cache]
  have isThere : found = loaded := there.symm
  rw [isThere] at member
  clear apart
  simp only [List.mem_cons, List.not_mem_nil, or_false] at member
  cases loaded with
  | false =>
    obtain rfl := missing rfl
    obtain rfl | rfl | rfl := member <;> exact (definitionOrCache ..).symm
  | true =>
    have named := nameParentShows ready running
    obtain rfl | rfl | rfl := member
    · rw [restores rfl _ (by simp [fileVariables]), nameParentOther e (by simp)]
    · rw [restores rfl _ (by simp [fileVariables]), nameParentOther e (by simp)]
    · rw [restores rfl _ (by simp [fileVariables]), named, if_pos rfl]

theorem includerIsParent :
    let files := FileTree.ofEntries "/"
      [("/a.cmake", "include(b.cmake)\n"), ("/b.cmake", "set(x 1)\n")] [] [] []
    let e := enterCommand ⟨"include", 1, 1, []⟩
      ((Engine.start { mode := .script } files []).define "CMAKE_CURRENT_LIST_FILE" "/s.cmake")
    ∃ v e', (Runner.ofFuel 9).includeRequested "/a.cmake" {} e = .ok (v, e') ∧
      e'.definition? "CMAKE_CURRENT_LIST_FILE" = some "/s.cmake" ∧
      e'.definition? "CMAKE_CURRENT_LIST_DIR" = none ∧
      e.definition? "CMAKE_PARENT_LIST_FILE" = none ∧
      e'.definition? "CMAKE_PARENT_LIST_FILE" = some "/s.cmake" := by
  intro files e
  have start : definitionMemory.Ready ⟨[], 0⟩
      ((Engine.start { mode := .script } files []).define "CMAKE_CURRENT_LIST_FILE" "/s.cmake") :=
    Conduct.Ready.moves ⟨⟨remembersStart .., fun _ => tidyStart ..⟩, fun _ => freeStart ..⟩
      trivial (.define ..)
  obtain ⟨g, ready, -⟩ := start.command ⟨"include", 1, 1, []⟩
  have checked : (((Runner.ofFuel 9).includeRequested "/a.cmake" {} e).toOption.map fun r =>
      (r.2.fatal, leftOpen r.2.log, r.2.cache.value? "CMAKE_CURRENT_LIST_DIR")) =
        some (false, [], none) := by
    decide +kernel
  have before : e.platform.isFile (includedFile e "/a.cmake") = true ∧ e.fatal = false ∧
      e.definition? "CMAKE_CURRENT_LIST_FILE" = some "/s.cmake" ∧
      e.definition? "CMAKE_CURRENT_LIST_DIR" = none ∧
      e.definition? "CMAKE_PARENT_LIST_FILE" = none := by
    decide +kernel
  obtain ⟨there, running, current, directory, parent⟩ := before
  obtain ⟨⟨v, e'⟩, ended, same⟩ := Option.map_eq_some_iff.mp checked
  simp only [Prod.mk.injEq] at same
  obtain ⟨live, closed, cache⟩ := same
  have ran : (Runner.ofFuel 9).includeRequested "/a.cmake" {} e = .ok (v, e') := by
    cases run : (Runner.ofFuel 9).includeRequested "/a.cmake" {} e with
    | ok result =>
      rw [run] at ended
      cases ended
      rfl
    | error halted =>
      rw [run] at ended
      cases ended
  have restores := includesRestoreAllButParent ready running ran live fun _ => closed
  dsimp only at restores
  rw [there, current, directory, parent, if_pos rfl] at restores
  simp only [List.forall_mem_cons] at restores
  obtain ⟨file, place, above, -⟩ := restores
  refine ⟨v, e', ran, file nofun, ?_, parent, above nofun⟩
  rw [place nofun, cache, Option.none_or]

end Runner
end CMakeScript
