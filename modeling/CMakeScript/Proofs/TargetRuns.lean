import CMakeScript.Proofs.DefinitionPolicies
import CMakeScript.Proofs.LastingState
/-! Targets in a run. A command that declares one changes nothing if it fails, and after every run the
targets, the aliases and what the directories list agree. -/
namespace CMakeScript

namespace Scopes

variable {s s' : Scopes} {id : Nat}

def listed (s : Scopes) (place : Nat) : List String :=
  ((s.directories.get? place).map (·.targetNames)).getD []

theorem listedRecords (same : s'.records = s.records) : s'.listed = s.listed := by
  have byRecord (s : Scopes) : s.listed = fun place =>
      ((s.records place).map (·.targetNames)).getD [] := by
    funext place
    rw [listed, records, Option.map_map]
    rfl
  rw [byRecord, byRecord, same]

theorem listedModify (s : Scopes) (d : Nat) (f : Directory → Directory) (place : Nat) :
    (s.modifyDirectory d f).listed place =
      if place = d then ((s.directories.get? d).map fun x => (f x).targetNames).getD []
      else s.listed place := by
  unfold listed modifyDirectory
  rw [Arena.getModify]
  split
  case isTrue same =>
    rw [same, Option.map_map]
    rfl
  case isFalse => rfl

theorem listedKept (s : Scopes) (d : Nat) {f : Directory → Directory}
    (unlisted : ∀ x, (f x).targetNames = x.targetNames) :
    (s.modifyDirectory d f).listed = s.listed := by
  funext place
  rw [listedModify]
  split
  case isTrue same => simp only [same, unlisted, listed]
  case isFalse => rfl

theorem listedUpdate (s : Scopes) (id : Nat) {f : Directory → Directory}
    (unlisted : ∀ x, (f x).targetNames = x.targetNames) :
    (s.updateDirectory id f).listed = s.listed := by
  unfold updateDirectory
  split
  · exact listedKept _ _ unlisted
  · rfl

theorem listedLogContent (s : Scopes) (id : Nat) (kind : ContentKind) (entries : ContentLog) :
    (s.logContent id kind entries).listed = s.listed := by
  unfold logContent
  split
  · split
    · exact listedKept s _ fun _ => rfl
    · rfl
  · rfl

theorem recordsSetPolicy (s : Scopes) (id : Nat) (p : Policy) (status : PolicyStatus) :
    (s.setPolicy id p status).records = s.records := by
  unfold setPolicy
  split <;> rfl

theorem listedEdit (s : Scopes) (id : Nat) (u : ScopeEdit) : (u.apply s id).listed = s.listed := by
  cases u with
  | define => exact listedRecords (recordsDefine ..)
  | undefine => exact listedRecords (recordsUndefine ..)
  | raise name value =>
    rw [ScopeEdit.apply]
    cases raised : s.raise? id name value with
    | none => rfl
    | some => exact listedRecords (recordsRaise raised)
  | setPolicy => exact listedRecords (recordsSetPolicy ..)
  | pushPolicy settings weak =>
    simp only [ScopeEdit.apply]
    split
    case h_1 pushed =>
      obtain ⟨here, -, pushed⟩ := okOfBind pushed
      cases pushed
      rfl
    case h_2 => rfl
  | popPolicy =>
    simp only [ScopeEdit.apply]
    split
    case h_1 popped => exact listedRecords (recordsPopPolicy popped)
    case h_2 => rfl
  | markPolicyScope =>
    simp only [ScopeEdit.apply]
    split
    case h_1 marked =>
      obtain ⟨here, -, marked⟩ := okOfBind marked
      cases marked
      rfl
    case h_2 => rfl
  | appendContent kind value =>
    rw [ScopeEdit.apply, appendContent]
    split
    · rfl
    · exact listedLogContent ..
  | setContent => exact listedLogContent ..
  | clearContent => exact listedLogContent ..

theorem recordsDefineDefaults (s : Scopes) (id : Nat) :
    (s.defineDefaults id).records = s.records :=
  defineDefaultsKept recordsDefine s id

theorem listedSetLocations (s : Scopes) (id : Nat) (source binary : String) :
    (s.setLocations id source binary).listed = s.listed := by
  unfold setLocations
  rw [listedRecords (recordsDefine ..), listedRecords (recordsDefine ..)]
  exact listedUpdate _ _ fun _ => rfl

theorem listedPush {up : Nat} (pushed : s'.directories = (s.directories.push up {}).1) :
    s'.listed = s.listed := by
  funext place
  unfold listed
  rw [pushed, Arena.getPush]
  split
  case isTrue new =>
    cases found : s.directories.get? place with
    | none => rfl
    | some d =>
      have := (Arena.getBounds found).2
      omega
  case isFalse => rfl

theorem listedCreateDirectory {origin : Nat} (created : s.createDirectory origin = .ok (s', id)) :
    s'.listed = s.listed := by
  obtain ⟨parent, -, created⟩ := okOfBind created
  cases created
  rw [listedRecords (recordsDefineDefaults _ _), listedKept, listedKept]
  · exact listedPush rfl
  · exact fun _ => rfl
  · exact fun _ => rfl

theorem listedInitial : initial.listed = fun _ => [] := by
  rw [initial, createBase, listedRecords (recordsDefineDefaults _ _), listedKept]
  · refine (listedPush (s := {}) rfl).trans ?_
    funext place
    simp [listed, Arena.empty, Arena.get?, Arena.node?]
  · exact fun _ => rfl

theorem listedAdded {p : Snapshot} {d : Directory} (found : s.snapshots.get? id = some p)
    (there : s.directories.get? p.directory = some d) (name : String) (place : Nat) :
    (s.updateDirectory id fun d => { d with targetNames := d.targetNames ++ [name] }).listed place =
      if place = p.directory then s.listed place ++ [name] else s.listed place := by
  simp only [updateDirectory, found, listedModify]
  split
  case isTrue same => simp [same, there, listed]
  case isFalse => rfl

end Scopes

namespace Engine

variable {e e' : Engine}

def roster (e : Engine) : Roster := ⟨e.targets, e.scopes.listed⟩

theorem rosterLasting (same : e'.lasting = e.lasting) : e'.roster = e.roster := by
  have targets : e'.targets = e.targets := congrArg Lasting.targets same
  have records : e'.scopes.records = e.scopes.records := congrArg Lasting.directories same
  rw [roster, targets, Scopes.listedRecords records, roster]

end Engine

theorem Edit.consistent {e e' : Engine} (edit : Edit e e') (grounded : e.Grounded)
    (placed : e.current < e.runs.size) (consistent : e.roster.Consistent) :
    e'.roster.Consistent := by
  have same (targets : e'.targets = e.targets) (listed : e'.scopes.listed = e.scopes.listed) :
      e'.roster.Consistent := by
    rw [Engine.roster, targets, listed]
    exact consistent
  have still (still : e.Still e') : e'.roster.Consistent :=
    Engine.rosterLasting still.lasting ▸ consistent
  cases edit with
  | scope => exact same rfl (Scopes.listedEdit ..)
  | directory id _ unlisted => exact same rfl (Scopes.listedUpdate _ _ unlisted)
  | listFile => exact same rfl (Scopes.listedRecords (Scopes.recordsSetListFile ..))
  | targets change => exact consistent.targets change
  | declared builds unknown =>
    obtain ⟨p, d, found, there, -⟩ :=
      Scopes.isCurrentIff.mp (Scopes.isCurrentTree.mpr (grounded.here placed))
    refine consistent.declared builds unknown p.directory ?_ fun other different => ?_
    · rw [Scopes.listedAdded found there, if_pos rfl]
      rfl
    · rw [Scopes.listedAdded found there, if_neg different]
      rfl
  | issue => exact still (.issueAt ..)
  | @display kind =>
    unfold Engine.display
    split <;> exact consistent
  | lost _ error => exact still (.internalError ..)
  | @queue i change _ => exact Engine.rosterLasting (Engine.lastingChange e i change) ▸ consistent
  | _ => exact consistent

theorem Edits.consistent {e e' : Engine} (edits : Edits e e') (grounded : e.Grounded)
    (placed : e.current < e.runs.size) (consistent : e.roster.Consistent) :
    e'.roster.Consistent := by
  induction edits with
  | refl => exact consistent
  | tail first last ih =>
    refine last.consistent (grounded.edits first) ?_ ih
    have quiet := Engine.Quiet.edits first
    rw [quiet.current, quiet.processed]
    exact placed

theorem Engine.Subdirectory.roster {e e' : Engine} {id : Nat} (created : e.Subdirectory id e') :
    e'.roster = e.roster := by
  cases created with
  | created source binary opened _ unlisted =>
    rw [Engine.roster, Scopes.listedUpdate _ _ unlisted, Scopes.listedSetLocations,
      Scopes.listedCreateDirectory opened, Engine.roster]

def targetKeeping : definitionMemory.Rider where
  holds e := e.roster.Consistent
  lasting consistent same := Engine.rosterLasting same ▸ consistent
  edits {g e e'} remembers live consistent edits := by
    have remembers : e.Remembers g := remembers
    obtain stops | housed := remembers.kept
    · rw [live] at stops
      cases stops
    · exact edits.consistent housed.grounded (remembers.current ▸ remembers.placed) consistent
  created _ consistent created := created.roster ▸ consistent

namespace Step

/-- The step declares a target or an alias under a name that was free, or it fails and changes
neither the targets nor what the directories list. -/
def DeclaresAt (name : String) (s : Step Verdict) (e : Engine) : Prop :=
  ((s e).1 = .done ∧ (s e).2.fatal = e.fatal ∧ e.targets.get? name = none ∧
    (s e).2.targets.contains name = true) ∨
  (((s e).1 ≠ .done ∨ (s e).2.fatal = true) ∧ (s e).2.targets = e.targets ∧
    (s e).2.scopes = e.scopes)

def Declares (name : String) (s : Step Verdict) : Prop := ∀ e, s.DeclaresAt name e

variable {name : String}

theorem declaresFail (text : String) : (fail text).Declares name :=
  fun e => .inr ⟨.inl (show Verdict.failed text ≠ .done by simp), rfl, rfl⟩

theorem declaresFatal (text : String) : (fatal text).Declares name := by
  intro e
  obtain ⟨nested, written, errorOccurred, issued, -⟩ :=
    Engine.issueAtCases e .fatalError text e.backtrace
  have stopped : (fatal text e).2 = (e.issueAt .fatalError text e.backtrace).setFatal := rfl
  rw [DeclaresAt, stopped, issued]
  exact .inr ⟨.inr rfl, rfl, rfl⟩

theorem declaresGetBind {k : Engine → Step Verdict} (rest : ∀ e, (k e).DeclaresAt name e) :
    (get >>= k).Declares name :=
  rest

theorem declaresSet {e e' : Engine} (fatal : e'.fatal = e.fatal)
    (unknown : e.targets.get? name = none) (there : e'.targets.contains name = true) :
    (do set e'; done : Step Verdict).DeclaresAt name e :=
  .inl ⟨rfl, fatal, unknown, there⟩

end Step

theorem Targets.unknown {r : Targets} {name : String} (fresh : r.contains name = false) :
    r.get? name = none := by
  obtain ⟨free, unaliased⟩ := Bool.or_eq_false_iff.mp fresh
  rw [get?, resolve, Std.TreeMap.getD_eq_fallback_of_contains_eq_false unaliased]
  exact Std.TreeMap.getElem?_eq_none_of_contains_eq_false free

namespace Command
open Step

theorem createTargetDeclares (name : String) (type : TargetType) (sources : List String)
    (excluded : Bool) (extra : List (String × String)) :
    (createTarget name type sources excluded extra).Declares name := by
  unfold createTarget
  refine declaresGetBind fun e => ?_
  dsimp only
  split
  · exact declaresFail _ e
  case h_2 added =>
    obtain ⟨unknown, rfl⟩ := Targets.addCases added
    refine declaresSet rfl unknown ?_
    rw [Targets.contains, Targets.containsModified, Std.TreeMap.contains_insert_self, Bool.true_or]

theorem createImportedDeclares (name : String) (type : TargetType) (isGlobal : Bool) :
    (createImported name type isGlobal).Declares name := by
  unfold createImported
  refine declaresGetBind fun e => ?_
  dsimp only
  split
  · exact declaresFail _ e
  split
  · exact declaresFail _ e
  case h_2 added =>
    obtain ⟨unknown, rfl⟩ := Targets.addCases added
    refine declaresSet rfl unknown ?_
    rw [Targets.contains, Std.TreeMap.contains_insert_self, Bool.true_or]

theorem createAliasDeclares (name : String) (words rest : List String) (accepts : Target → Bool)
    (kind : String) : (createAlias name words rest accepts kind).Declares name := by
  unfold createAlias
  refine declaresGetBind fun e => ?_
  split
  · dsimp only
    split
    · exact declaresFail _ e
    split
    · exact declaresFail _ e
    split
    · exact declaresFail _ e
    split
    · exact declaresFail _ e
    case h_2 added =>
      obtain ⟨fresh, -, rfl⟩ := Targets.addAliasCases added
      refine declaresSet rfl (Targets.unknown fresh) ?_
      rw [Targets.contains, Std.TreeMap.contains_insert_self, Bool.or_true]
  · exact declaresFail _ e

theorem withTargetNameDeclares {name : String} {step : Step Verdict}
    (declares : step.Declares name) : (withTargetName name step).Declares name := by
  unfold withTargetName
  split
  · exact declares
  · exact declaresFatal _

theorem declareAliasDeclares (d : Declaration) (name : String) (words : List String)
    (accepts : Target → Bool) (kind : String) :
    (declareAlias d name words accepts kind).Declares name := by
  unfold declareAlias
  split
  · exact declaresFail _
  · exact createAliasDeclares _ _ _ _ _

theorem addExecutableDeclares (name : String) (words : List String) :
    (addExecutable (name :: words)).Declares name := by
  refine withTargetNameDeclares ?_
  split
  · exact declaresFail _
  split
  · exact declareAliasDeclares _ _ _ _ _
  split
  · exact createImportedDeclares _ _ _
  · exact createTargetDeclares _ _ _ _ _

theorem declareLibraryDeclares (d : Declaration) (name : String) :
    (declareLibrary d name).Declares name := by
  unfold declareLibrary
  split_ifs
  · exact declaresFail _
  · exact declaresFail _
  · exact createImportedDeclares _ _ _
  · exact declaresFail _
  · exact declaresFail _
  · exact createTargetDeclares _ _ _ _ _

theorem addLibraryDeclares (name : String) (words : List String) :
    (addLibrary (name :: words)).Declares name := by
  refine declaresGetBind fun e => ?_
  dsimp only
  split
  · exact declaresFail _ e
  · refine withTargetNameDeclares ?_ e
    split
    · exact declareAliasDeclares _ _ _ _ _
    · exact declareLibraryDeclares _ _

theorem addCustomTargetDeclares (name : String) (words : List String) :
    (addCustomTarget (name :: words)).Declares name := by
  rw [addCustomTarget]
  split
  · exact declaresFail _
  dsimp only
  split
  · exact declaresFail _
  split
  · exact declaresFail _
  · refine withTargetNameDeclares ?_
    split
    · exact declaresFail _
    · exact createTargetDeclares _ _ _ _ _

def declaring : List (List String → Step Verdict) := [addExecutable, addLibrary, addCustomTarget]

theorem declaringDeclares {command : List String → Step Verdict} (member : command ∈ declaring) :
    command [] = fail wrongCount ∧
      ∀ name words, (command (name :: words)).Declares name := by
  simp only [declaring, List.mem_cons, List.not_mem_nil, or_false] at member
  obtain rfl | rfl | rfl := member
  · exact ⟨rfl, addExecutableDeclares⟩
  · exact ⟨rfl, addLibraryDeclares⟩
  · exact ⟨rfl, addCustomTargetDeclares⟩

theorem declaringAnswers {command : List String → Step Verdict} (member : command ∈ declaring)
    (words : List String) {e : Engine} (live : e.fatal = false) :
    ((command words e).1 = .done ∧ (command words e).2.fatal = false →
      ∃ name ∈ words.head?, e.targets.get? name = none ∧
        (command words e).2.targets.contains name = true) ∧
    ((command words e).1 ≠ .done ∨ (command words e).2.fatal = true →
      (command words e).2.targets = e.targets ∧
        (command words e).2.scopes.listed = e.scopes.listed) := by
  obtain ⟨refused, declares⟩ := declaringDeclares member
  cases words with
  | nil =>
    rw [refused]
    refine ⟨fun answered => ?_, fun _ => ⟨rfl, rfl⟩⟩
    cases answered.1
  | cons name words =>
    obtain ⟨done, fatal, unknown, there⟩ | ⟨failed, targets, scopes⟩ := declares name words e
    · refine ⟨fun _ => ⟨name, rfl, unknown, there⟩, fun failed => ?_⟩
      rw [done, fatal, live] at failed
      simp at failed
    · refine ⟨fun answered => ?_, fun _ => ⟨targets, congrArg Scopes.listed scopes⟩⟩
      rw [answered.1, answered.2] at failed
      simp at failed

end Command
open Command Engine

theorem Engine.consistentStart (options : Options) (platform : Platform)
    (environment : List (String × String)) :
    (start options platform environment).roster.Consistent := by
  obtain ⟨environment', cache, errorOccurred, same⟩ := startCases options platform environment
  rw [same, roster, Scopes.listedInitial]
  exact .empty

/-- Whatever is run, no name stands for a target and an alias, every alias stands for a target, and
the targets that are built are each listed once, by one directory. A command that is to declare a
target or an alias does so under a free name, or it fails and leaves it at that. -/
theorem targetsStayConsistent (options : Options) (platform : Platform)
    (environment : List (String × String)) (requests : List Request) (fuel : Nat) :
    let e := ((Runner.ofFuel fuel).serveAll requests).state (start options platform environment)
    (∀ name, ¬(e.targets.targets.contains name = true ∧ e.targets.aliases.contains name = true)) ∧
    (∀ name target, e.targets.aliased? name = some target →
      e.targets.targets.contains target = true ∧ e.targets.aliases.contains target = false) ∧
    (∀ (name : String) t, e.targets.targets[name]? = some t → t.imported = false →
      ∃ place, (e.scopes.listed place).count name = 1 ∧
        ∀ other ≠ place, name ∉ e.scopes.listed other) ∧
    (∀ (name : String) t, e.targets.targets[name]? = some t → t.imported = true →
      ∀ place, name ∉ e.scopes.listed place) ∧
    (∀ name, e.targets.aliases.contains name = true → ∀ place, name ∉ e.scopes.listed place) ∧
    ∀ command ∈ declaring, ∀ words e₁, e₁.fatal = false →
      ((command words e₁).1 = .done ∧ (command words e₁).2.fatal = false →
        ∃ name ∈ words.head?, e₁.targets.get? name = none ∧
          (command words e₁).2.targets.contains name = true) ∧
      ((command words e₁).1 ≠ .done ∨ (command words e₁).2.fatal = true →
        (command words e₁).2.targets = e₁.targets ∧
          (command words e₁).2.scopes.listed = e₁.scopes.listed) := by
  intro e
  have ready : targetKeeping.discipline.Ready ⟨[], 0⟩ (start options platform environment) :=
    ⟨⟨⟨remembersStart options platform environment, consistentStart options platform environment⟩,
      fun _ => tidyStart ..⟩, fun _ => freeStart ..⟩
  have ends := Runner.serveAllEnds (targetKeeping.discipline.runs fuel) requests ready
  have consistent : e.roster.Consistent := ends.state (fun _ _ ready => ready.holds.2)
    fun _ stopped => stopped.stopped.2
  refine ⟨fun name both => ?_, fun name target found => ?_, fun name t found builds => ?_,
    fun name t found imported => consistent.unlistedImported found imported,
    fun name aliased => consistent.unlistedAlias aliased,
    fun command member words e₁ live => declaringAnswers member words live⟩
  · have unaliased : e.targets.isAlias name = false := consistent.apart both.1
    exact Bool.false_ne_true (unaliased.symm.trans both.2)
  · exact ⟨consistent.real found, consistent.apart (consistent.real found)⟩
  · exact consistent.once ⟨t, found, builds⟩

theorem aliasKeepsItsName :
    let files := FileTree.ofEntries "/"
      [("/s/CMakeLists.txt", "add_subdirectory(lib)\nadd_library(zlib SHARED IMPORTED)\nadd_executable(app a.c)\n"),
        ("/s/lib/CMakeLists.txt", "add_library(core STATIC c.c)\nadd_library(ns::core ALIAS core)\n")]
      [] [] []
    let e := ((Runner.ofFuel 9).serveAll [.configure "/s" "/b"]).state (start {} files [])
    (e.targets.aliased? "ns::core" = some "core" ∧ e.targets.targets.contains "core" = true) ∧
    ((∃ place, (e.scopes.listed place).count "app" = 1 ∧
        ∀ other ≠ place, "app" ∉ e.scopes.listed other) ∧
      ∃ place, (e.scopes.listed place).count "core" = 1 ∧
        ∀ other ≠ place, "core" ∉ e.scopes.listed other) ∧
    (∀ place, "zlib" ∉ e.scopes.listed place) ∧ (∀ place, "ns::core" ∉ e.scopes.listed place) ∧
    (addLibrary ["ns::core", "OBJECT", "d.c"] e).1 ≠ .done ∧
    (addLibrary ["ns::core", "OBJECT", "d.c"] e).2.targets = e.targets := by
  intro files e
  have all := targetsStayConsistent {} files [] [.configure "/s" "/b"] 9
  dsimp only at all
  rw [show ((Runner.ofFuel 9).serveAll [.configure "/s" "/b"]).state (start {} files []) = e from rfl]
    at all
  obtain ⟨-, real, once, imported, aliased, declaring⟩ := all
  have checked : e.fatal = false ∧ e.targets.aliased? "ns::core" = some "core" ∧
      (["app", "core", "zlib"].map fun name => (e.targets.targets[name]?).map (·.imported)) =
        [some false, some false, some true] ∧
      (addLibrary ["ns::core", "OBJECT", "d.c"] e).1 ≠ .done := by
    decide +kernel
  obtain ⟨live, known, kinds, failed⟩ := checked
  simp only [List.map_cons, List.map_nil, List.cons.injEq, Option.map_eq_some_iff] at kinds
  obtain ⟨⟨app, foundApp, builds⟩, ⟨core, foundCore, builds'⟩, ⟨zlib, foundZlib, foreign⟩, -⟩ := kinds
  have taken : e.targets.aliases.contains "ns::core" = true := by
    rw [Std.TreeMap.contains_eq_isSome_getElem?]
    exact Option.isSome_of_eq_some known
  refine ⟨⟨known, ?_⟩, ⟨?_, ?_⟩, ?_, ?_, failed, ?_⟩
  · exact (real _ _ known).1
  · exact once _ _ foundApp builds
  · exact once _ _ foundCore builds'
  · exact imported _ _ foundZlib foreign
  · exact aliased _ taken
  · exact ((declaring addLibrary (by simp [Command.declaring]) _ e live).2 (.inl failed)).1

end CMakeScript
