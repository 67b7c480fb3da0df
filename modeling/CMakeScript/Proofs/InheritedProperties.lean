import CMakeScript.Proofs.PropertyPlaces
import CMakeScript.Proofs.RaisedValues
import Mathlib.Data.Fintype.Card
/-! Properties that a directory takes from the directories above. The way up goes from a directory to
the scope that is current in the one around it, whatever scope the directory was added from. Each
directory on the way is met once, so that the way ends, and the first one that has the property
answers. -/
namespace CMakeScript

namespace ScopeTree

theorem Sound.directoriesFew {t : ScopeTree} (sound : t.Sound) :
    t.directories.size ≤ t.snapshots.size := by
  have live (d : Fin t.directories.size) : ∃ id p, t.snapshots.get? id = some p ∧
      p.directory = d + 1 := by
    have known : t.directories.contains (d + 1) = true :=
      Arena.containsIff.mpr ⟨Nat.succ_pos _, d.2⟩
    obtain ⟨⟨up, id, children⟩, found⟩ := Option.isSome_iff_exists.mp known
    obtain ⟨p, there, inside⟩ := sound.current (Arena.getOfNode found)
    exact ⟨id, p, there, inside⟩
  choose id p there inside using live
  have bounds d := Arena.getBounds (there d)
  have distinct : Function.Injective fun d => (⟨id d - 1, by have := bounds d; omega⟩ :
      Fin t.snapshots.size) := by
    intro d d' same
    have equal : id d = id d' := by
      have := bounds d
      have := bounds d'
      have := Fin.mk.inj same
      omega
    have one := there d
    rw [equal, there d'] at one
    have directories := (congrArg Snapshot.directory (Option.some.inj one)).symm
    rw [inside, inside] at directories
    omega
  simpa using Fintype.card_le_of_injective _ distinct

end ScopeTree
namespace Engine

variable {e : Engine} {name : String} {id : Nat} {here : Snapshot} {value other : Option String}

def consult (e : Engine) (name : String) (id : Nat) : Option String ⊕ Nat :=
  match e.scopes.directory? id with
  | none => .inl none
  | some d =>
    match e.ownProperty? id d name with
    | some value => .inl (some value)
    | none =>
      if e.declarations.isInherited .directory name then
        match e.scopes.parentDirectory? id with
        | some above => .inr above
        | none => .inl (e.globalProperty? name)
      else .inl none

/-- The way up that ends with the answer. Nothing limits its length. -/
inductive Reads (e : Engine) (name : String) : Nat → Option String → Prop where
  | answered {id : Nat} {value : Option String} (answer : e.consult name id = .inl value) :
      Reads e name id value
  | above {id up : Nat} {value : Option String} (passes : e.consult name id = .inr up)
      (rest : Reads e name up value) : Reads e name id value

theorem Reads.unique (reads : e.Reads name id value) (again : e.Reads name id other) :
    value = other := by
  induction reads with
  | answered answer =>
    cases again with
    | answered answer' => exact Sum.inl.inj (answer.symm.trans answer')
    | above passes => cases answer.symm.trans passes
  | above passes _ ih =>
    cases again with
    | answered answer => cases passes.symm.trans answer
    | above passes' rest =>
      cases passes.symm.trans passes'
      exact ih rest

theorem withinConsults (e : Engine) (name : String) (fuel id : Nat) :
    e.propertyWithin name (fuel + 1) id =
      (e.consult name id).elim (fun value => value) (e.propertyWithin name fuel) := by
  unfold propertyWithin consult
  cases e.scopes.directory? id with
  | none => rfl
  | some d =>
    simp only [Option.bind_eq_bind, Option.bind_some]
    cases e.ownProperty? id d name with
    | some value => rfl
    | none =>
      cases e.declarations.isInherited .directory name with
      | false => rfl
      | true => cases e.scopes.parentDirectory? id <;> rfl

section Way

variable (reachable : e.scopes.Reachable) (live : e.scopes.snapshots.get? id = some here)
include reachable live

theorem directoryNode : ∃ d,
    e.scopes.directories.node? here.directory =
        some (e.scopes.directories.parent here.directory, d) ∧
      e.scopes.directory? id = some d := by
  have known := (reachable.names live).directory
  obtain ⟨⟨up, d⟩, found⟩ := Option.isSome_iff_exists.mp known
  refine ⟨d, ?_, ?_⟩
  · rw [Arena.parentOfNode found, found]
  · rw [Scopes.directory?, live]
    exact Arena.getOfNode found

theorem consultCases (name : String) :
    (∃ value, e.consult name id = .inl value) ∨
    ∃ up outer, e.consult name id = .inr up ∧ e.scopes.snapshots.get? up = some outer ∧
      outer.directory = e.scopes.directories.parent here.directory ∧
      outer.directory < here.directory := by
  cases asked : e.consult name id with
  | inl value => exact .inl ⟨value, rfl⟩
  | inr up =>
    have receiver : e.scopes.parentDirectory? id = some up := by
      unfold consult at asked
      split at asked
      · cases asked
      · split at asked
        · cases asked
        · split_ifs at asked
          split at asked
          case h_1 above found =>
            cases asked
            exact found
          case h_2 => cases asked
    obtain ⟨outer, there, same⟩ :=
      Scopes.parentDirectoryCases reachable.sound reachable.rooted live receiver
    obtain ⟨d, found, -⟩ := directoryNode reachable live
    have older := Arena.fallingMap.mp reachable.rooted.directories found
    exact .inr ⟨up, outer, rfl, there, same, same ▸ older⟩

theorem readsWithin {fuel : Nat} (enough : here.directory ≤ fuel) :
    e.Reads name id (e.propertyWithin name fuel id) := by
  induction fuel generalizing id here with
  | zero =>
    obtain ⟨d, found, -⟩ := directoryNode reachable live
    have positive := (Arena.nodeBounds found).1
    omega
  | succ fuel ih =>
    rw [withinConsults]
    obtain ⟨value, answer⟩ | ⟨up, outer, passes, there, -, older⟩ :=
      consultCases reachable live name
    · rw [answer]
      exact .answered answer
    · rw [passes]
      exact .above passes (ih there (by omega))

theorem readsProperty (name : String) : e.Reads name id (e.directoryProperty? id name) := by
  have few := reachable.sound.directoriesFew
  have known := (Arena.containsIff.mp (reachable.sound.placed (Scopes.liveTree live)).directory).2
  rw [Scopes.sizeTreeSnapshots] at few
  exact readsWithin reachable live (Nat.le_succ_of_le (Nat.le_trans known few))

end Way

structure Given (name : String) : Prop where
  given : name ∉ ["SOURCE_DIR", "BINARY_DIR", "PARENT_DIRECTORY", "LISTFILE_STACK", "VARIABLES",
    "MACROS", "SUBDIRECTORIES", "BUILDSYSTEM_TARGETS"]
  apart : ContentKind.ofProperty? name = none

/-- What the nearest directory has that has the property, on the way to the top. -/
def nearest? (e : Engine) (name : String) (d : Nat) : Option String :=
  (e.scopes.directories.ancestors d).findSome? fun (_, directory) => directory.properties[name]?

theorem consultGiven (given : Given name) {d : Directory}
    (there : e.scopes.directory? id = some d) :
    e.consult name id =
      if e.declarations.isInherited .directory name = true ∧ d.properties[name]? = none then
        match e.scopes.parentDirectory? id with
        | some above => .inr above
        | none => .inl (e.globalProperty? name)
      else .inl d.properties[name]? := by
  unfold consult
  rw [there]
  dsimp only
  rw [ownGiven given.given given.apart]
  cases d.properties[name]? <;> cases e.declarations.isInherited .directory name <;> rfl

section Nearest

variable (reachable : e.scopes.Reachable) (live : e.scopes.snapshots.get? id = some here)
include reachable live

theorem nearestHere {d : Directory} (there : e.scopes.directory? id = some d) (name : String) :
    e.nearest? name here.directory =
      d.properties[name]?.or (e.nearest? name (e.scopes.directories.parent here.directory)) := by
  obtain ⟨d', found, there'⟩ := directoryNode reachable live
  cases there.symm.trans there'
  unfold nearest?
  rw [Arena.ancestorsOfNode (Arena.fallingMap.mp reachable.rooted.directories) found,
    List.findSome?_cons]
  dsimp only
  cases d.properties[name]? <;> rfl

theorem nearestTop (outmost : e.scopes.parentDirectory? id = none) (name : String) :
    e.nearest? name (e.scopes.directories.parent here.directory) = none := by
  rw [Scopes.parentDirectoryOf reachable live, Option.map_eq_none_iff] at outmost
  unfold nearest?
  rw [Arena.ancestorsNone (Option.map_eq_none_iff.mp outmost)]
  rfl

end Nearest

theorem Reads.nearest (reads : e.Reads name id value) (given : Given name)
    (inherits : e.declarations.isInherited .directory name = true)
    (reachable : e.scopes.Reachable) (live : e.scopes.snapshots.get? id = some here) :
    value = (e.nearest? name here.directory).or (e.globalProperty? name) := by
  induction reads generalizing here with
  | @answered id value answer =>
    obtain ⟨d, -, there⟩ := directoryNode reachable live
    rw [consultGiven given there] at answer
    rw [nearestHere reachable live there]
    split at answer
    case isTrue passes =>
      rw [passes.2, Option.none_or]
      split at answer
      case h_1 => cases answer
      case h_2 outmost =>
        rw [nearestTop reachable live outmost, Option.none_or]
        exact (Sum.inl.inj answer).symm
    case isFalse stays =>
      cases own : d.properties[name]? with
      | none => exact absurd ⟨inherits, own⟩ stays
      | some text =>
        rw [own] at answer
        exact (Sum.inl.inj answer).symm
  | @above id up value passes _ ih =>
    obtain ⟨d, -, there⟩ := directoryNode reachable live
    obtain ⟨value', answer⟩ | ⟨up', outer, passes', atUp, same, -⟩ :=
      consultCases reachable live name
    · cases passes.symm.trans answer
    · cases passes.symm.trans passes'
      rw [consultGiven given there] at passes
      split at passes
      case isTrue unset =>
        rw [ih atUp, same, nearestHere reachable live there, unset.2, Option.none_or]
      case isFalse => cases passes

/-- Reading a property of a directory comes to an end, with one answer, in whatever scope of the
directory it is read. If the property is inherited, that is the value of the nearest directory on
the way to the top that has one, or else that of the run; if not, the directory's own. -/
theorem inheritedFromNearest (reachable : e.scopes.Reachable)
    (live : e.scopes.snapshots.get? id = some here) (name : String) :
    (∀ value, e.Reads name id value ↔ value = e.directoryProperty? id name) ∧
    (Given name → e.directoryProperty? id name =
      if e.declarations.isInherited .directory name then
        (e.nearest? name here.directory).or (e.globalProperty? name)
      else (e.scopes.directories.get? here.directory).bind (·.properties[name]?)) := by
  have reads := readsProperty reachable live name
  refine ⟨fun value => ⟨fun other => other.unique reads, fun same => same ▸ reads⟩,
    fun given => ?_⟩
  split
  case isTrue inherits => exact reads.nearest given inherits reachable live
  case isFalse alone =>
    obtain ⟨d, found, there⟩ := directoryNode reachable live
    have answer : e.consult name id = .inl d.properties[name]? := by
      rw [consultGiven given there, if_neg fun passes => alone passes.1]
    rw [reads.unique (.answered answer), Arena.getOfNode found]
    rfl

def directoriesInCalls : Scopes :=
  Scopes.initial.uses [.enter 1 (.functionCall "f"), .enterDirectory 2, .enter 3 (.macroCall "m"),
    .enterDirectory 4, .describeDirectory 2 (Std.TreeMap.ofList [("P", "first")]) [] "",
    .enter 5 .variableScope]

theorem callsInherit :
    let e : Engine := { Engine.start { mode := .script } {} [] with
      scopes := directoriesInCalls,
      declarations := (PropertyDeclarations.declare {} .directory "P" { inherited := true }).declare
        .directory "Q" { inherited := true },
      globals := Std.TreeMap.ofList [("Q", "run"), ("R", "run")] }
    directoriesInCalls.Reachable ∧
      (directoriesInCalls.snapshots.get? 6).map (·.directory) = some 3 ∧
      Given "P" ∧ Given "Q" ∧ Given "R" ∧
      (∀ value, e.Reads "P" 6 value ↔ value = some "first") ∧
      e.directoryProperty? 6 "Q" = some "run" ∧ e.directoryProperty? 6 "R" = none := by
  intro e
  have reachable : directoriesInCalls.Reachable := Scopes.Reachable.initial.uses _
  have third : (directoriesInCalls.snapshots.get? 6).map (·.directory) = some 3 := by decide +kernel
  have givenP : Given "P" := ⟨by decide +kernel, by decide +kernel⟩
  have givenQ : Given "Q" := ⟨by decide +kernel, by decide +kernel⟩
  have givenR : Given "R" := ⟨by decide +kernel, by decide +kernel⟩
  obtain ⟨here, live, inThird⟩ := Option.map_eq_some_iff.mp third
  have scopes : e.scopes = directoriesInCalls := by simp only [e]
  rw [← scopes] at live
  have inherits := inheritedFromNearest (scopes ▸ reachable : e.scopes.Reachable) live
  have reads := (inherits "P").1
  have first := (inherits "P").2 givenP
  have ofRun := (inherits "Q").2 givenQ
  have nothing := (inherits "R").2 givenR
  rw [inThird] at first ofRun nothing
  have shown : e.directoryProperty? 6 "P" = some "first" := first.trans (by decide +kernel)
  rw [shown] at reads
  exact ⟨reachable, third, givenP, givenQ, givenR, reads, ofRun.trans (by decide +kernel),
    nothing.trans (by decide +kernel)⟩

end Engine
end CMakeScript
