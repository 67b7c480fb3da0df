import CMakeScript.Proofs.ContentHistory
import CMakeScript.Proofs.IncludeTexts
import CMakeScript.Proofs.Propagation
import CMakeScript.Proofs.TargetStarts
/-! What `include_directories` makes of the settings of a directory and of the targets that it lists.
The paths of one command go to the log of the directory as one entry, or with all that was there, and
to each of the targets. What was the same text before is the same afterwards. -/
namespace CMakeScript

open ListValue (Clear Plain Spells)

theorem Edits.directoryOf {e e' : Engine} (edits : Edits e e') :
    e'.scopes.directoryOf = e.scopes.directoryOf := by
  have byTree (s : Scopes) : s.directoryOf = fun id =>
      (s.tree.snapshots.get? id).map (·.directory) := by
    funext id
    rw [Scopes.getTree, Option.map_map, Scopes.directoryOf]
    rfl
  rw [byTree, byTree, edits.tree]

theorem Edits.directoryCurrent {e e' : Engine} (edits : Edits e e') {d : Nat} {directory : Directory}
    (there : e.scopes.directories.get? d = some directory) :
    ∃ directory', e'.scopes.directories.get? d = some directory' ∧
      directory'.current = directory.current := by
  have same := e'.scopes.directoryTree d
  rw [edits.tree, Scopes.directoryTree, there, Option.map_some] at same
  obtain ⟨directory', there', kept⟩ := Option.map_eq_some_iff.mp same.symm
  exact ⟨directory', there', (Prod.mk.inj kept).1⟩

namespace Scopes

variable {s : Scopes} {id d : Nat} {kind : ContentKind} {entries : List String}

theorem contentCurrent (current : s.isCurrent id = true) (here : s.directoryOf id = some d)
    (kind : ContentKind) : s.content id kind = (s.contentView.contents d kind).seen := by
  obtain ⟨p, directory, found, there, rfl⟩ := isCurrentIff.mp current
  rw [directoryOf, found] at here
  cases here
  have ledger : s.contentView.directories.get? p.directory =
      some (directory.current, directory.contents) := by
    rw [getLedger, there]
    rfl
  rw [contentSeen, ContentView.contentsOf ledger]

theorem listedOf (here : s.directoryOf id = some d) :
    ((s.directory? id).map (·.targetNames)).getD [] = s.listed d := by
  obtain ⟨p, found, rfl⟩ := Option.map_eq_some_iff.mp here
  simp [directory?, found, listed]

theorem contentsHere (sound : s.tree.Sound) (measured : s.contentView.Measured)
    (current : s.isCurrent id = true) (here : s.directoryOf id = some d)
    (same : s.contentView.contents d kind = ⟨entries, entries⟩) (u : ScopeEdit) :
    (u.apply s id).contentView.contents d kind =
      match u.change? kind with
      | some change => ⟨change entries, change entries⟩
      | none => ⟨entries, entries⟩ := by
  rw [(contentsEdit (placedContents sound) measured id u).2, same, Contents.after]
  cases u.change? kind <;> simp [here, current]

theorem contentsElsewhere (sound : s.tree.Sound) (measured : s.contentView.Measured)
    (u : ScopeEdit) (sparing : s.directoryOf id = some d → u.change? kind = none) :
    (u.apply s id).contentView.contents d kind = s.contentView.contents d kind := by
  rw [(contentsEdit (placedContents sound) measured id u).2, Contents.after]
  cases changed : u.change? kind with
  | none => rfl
  | some change =>
    have other : s.directoryOf id ≠ some d := by simp_all
    simp only [if_neg other]

end Scopes

namespace Targets

variable {r : Targets}

theorem findModifiedEach {names : List String} (distinct : names.Nodup)
    (real : ∀ name ∈ names, r.isAlias name = false) (f : Target → Target) (other : String) :
    (names.foldl (fun targets name => targets.modify name f) r).targets[other]? =
      if other ∈ names then r.targets[other]?.map f else r.targets[other]? := by
  induction names generalizing r with
  | nil => rfl
  | cons name names ih =>
    obtain ⟨fresh, distinct⟩ := List.nodup_cons.mp distinct
    obtain ⟨first, others⟩ := List.forall_mem_cons.mp real
    have real' : ∀ x ∈ names, (r.modify name f).isAlias x = false := fun x member => by
      rw [isAlias, aliasesModified]
      exact others x member
    rw [List.foldl_cons, ih distinct real', findModified, resolveReal first]
    by_cases same : name = other
    · subst same
      simp [fresh]
    · simp [same, Ne.symm same]

end Targets

namespace Engine

variable {e e' : Engine} {d : Nat}

/-- What was written of include directories in a directory shows there and comes to these elements,
which stand for themselves, and all targets that the directory lists have the same. -/
def Including (e : Engine) (d : Nat) (items : List String) : Prop :=
  ∃ entries,
    e.scopes.contentView.contents d .includeDirectories = ⟨entries, entries⟩ ∧
    Spells entries items ∧
    ∀ name ∈ e.scopes.listed d, e.included? name = some (ListValue.join items)

def InStep (e : Engine) (d : Nat) : Prop := ∃ items, e.Including d items

theorem InStep.same (inStep : e.InStep d)
    (contents : e'.scopes.contentView.contents d .includeDirectories =
      e.scopes.contentView.contents d .includeDirectories)
    (listed : e'.scopes.listed d = e.scopes.listed d)
    (included : ∀ name ∈ e.scopes.listed d, e'.included? name = e.included? name) :
    e'.InStep d := by
  obtain ⟨items, entries, written, spells, all⟩ := inStep
  refine ⟨items, entries, contents.trans written, spells, fun name member => ?_⟩
  rw [listed] at member
  rw [included name member, all name member]

theorem inStepUnlisted {entries items : List String}
    (contents : e.scopes.contentView.contents d .includeDirectories = ⟨entries, entries⟩)
    (spells : Spells entries items) (listed : e.scopes.listed d = []) : e.InStep d := by
  refine ⟨items, entries, contents, spells, fun name member => ?_⟩
  rw [listed] at member
  cases member

structure Charted (e : Engine) : Prop where
  grounded : e.Grounded
  rooted : e.scopes.tree.Rooted
  measured : e.scopes.contentView.Measured
  consistent : e.roster.Consistent
  placed : e.current < e.runs.size

namespace Charted

theorem sound (charted : e.Charted) : e.scopes.tree.Sound := charted.grounded.scopes.sound

theorem current (charted : e.Charted) : e.scopes.isCurrent e.snapshot = true :=
  Scopes.isCurrentTree.mpr (charted.grounded.here charted.placed)

theorem edits (charted : e.Charted) (edits : Edits e e')
    (measured : e'.scopes.contentView.Measured) : e'.Charted where
  grounded := charted.grounded.edits edits
  rooted := edits.tree ▸ charted.rooted
  measured := measured
  consistent := edits.consistent charted.grounded charted.placed charted.consistent
  placed := by
    have quiet := Quiet.edits edits
    rw [quiet.current, quiet.processed]
    exact charted.placed

theorem wrote (charted : e.Charted) (id : Nat) {u : ScopeEdit}
    (own : u.movesFrames = true → id = e.snapshot) :
    ({ e with scopes := u.apply e.scopes id } : Engine).Charted :=
  charted.edits (.one (.scope own))
    (Scopes.contentsEdit (Scopes.placedContents charted.sound) charted.measured id u).1

theorem within (charted : e.Charted) : ∃ p directory,
    e.scopes.snapshots.get? e.snapshot = some p ∧
      e.scopes.directories.get? p.directory = some directory ∧
      directory.current = e.snapshot ∧ e.scopes.directoryOf e.snapshot = some p.directory := by
  obtain ⟨p, directory, found, there, current⟩ := Scopes.isCurrentIff.mp charted.current
  refine ⟨p, directory, found, there, current, ?_⟩
  rw [Scopes.directoryOf, found]
  rfl

theorem real (charted : e.Charted) {name : String} (listed : name ∈ e.scopes.listed d) :
    e.targets.isAlias name = false :=
  charted.consistent.apart (charted.consistent.built listed).contains

end Charted
end Engine

namespace Command

variable {e : Engine} {kind : ContentKind} {d : Nat} {entries : List String}

theorem appendCharted (charted : e.Charted) (value : String) :
    (appendSetting kind value e).Charted :=
  charted.wrote e.snapshot (u := .appendContent kind value) nofun

theorem prependCharted (charted : e.Charted) (value : String) :
    (prependSetting kind value e).Charted := by
  unfold prependSetting
  split
  · exact charted
  · exact charted.wrote e.snapshot (u := .setContent kind _) nofun

theorem appendHere (charted : e.Charted) (here : e.scopes.directoryOf e.snapshot = some d)
    (same : e.scopes.contentView.contents d kind = ⟨entries, entries⟩) (value : String) :
    (appendSetting kind value e).scopes.contentView.contents d kind =
      ⟨entries ++ ListValue.entry value, entries ++ ListValue.entry value⟩ := by
  refine (Scopes.contentsHere charted.sound charted.measured charted.current here same
    (.appendContent kind value)).trans ?_
  by_cases empty : value = "" <;> simp [ScopeEdit.change?, ListValue.entry, empty]

theorem prependHere (charted : e.Charted) (here : e.scopes.directoryOf e.snapshot = some d)
    (same : e.scopes.contentView.contents d kind = ⟨entries, entries⟩) {value : String}
    (some : value ≠ "") :
    (prependSetting kind value e).scopes.contentView.contents d kind =
      ⟨ListValue.entry (ListValue.join (value :: entries)),
        ListValue.entry (ListValue.join (value :: entries))⟩ := by
  have seen : e.scopes.content e.snapshot kind = entries := by
    rw [Scopes.contentCurrent charted.current here, same]
  rw [prependSetting, if_neg (by simpa using some), seen]
  refine (Scopes.contentsHere charted.sound charted.measured charted.current here same
    (.setContent kind _)).trans ?_
  simp [ScopeEdit.change?, ListValue.entry]

def settle (front back : List String) (e : Engine) : Engine :=
  prependSetting .includeDirectories (ListValue.join front)
    (appendSetting .includeDirectories (ListValue.join back) e)

def extendTarget (front back : List String) (t : Target) : Target :=
  { t with properties := extendIncludes (ListValue.join front) (ListValue.join back) t.properties }

section Settle

variable {items front back : List String}

theorem listedSettle (front back : List String) (e : Engine) :
    (settle front back e).scopes.listed = e.scopes.listed := by
  have appended : (appendSetting .includeDirectories (ListValue.join back) e).scopes.listed =
      e.scopes.listed :=
    Scopes.listedEdit e.scopes e.snapshot (.appendContent _ _)
  unfold settle prependSetting
  split
  · exact appended
  · exact (Scopes.listedEdit _ _ (.setContent _ _)).trans appended

theorem settleEdits (front back : List String) (e : Engine) : Edits e (settle front back e) :=
  (appendSettingEdits ..).trans (prependSettingEdits ..)

theorem settleBeside (front back : List String) (e : Engine) :
    (settle front back e).targets = e.targets ∧ (settle front back e).snapshot = e.snapshot := by
  unfold settle prependSetting
  split <;> exact ⟨rfl, rfl⟩

theorem settleElsewhere (charted : e.Charted) (elsewhere : e.scopes.directoryOf e.snapshot ≠ some d)
    (front back : List String) :
    (settle front back e).scopes.contentView.contents d kind =
      e.scopes.contentView.contents d kind := by
  have appended : (appendSetting .includeDirectories
      (ListValue.join back) e).scopes.contentView.contents d kind =
        e.scopes.contentView.contents d kind :=
    Scopes.contentsElsewhere charted.sound charted.measured (.appendContent _ _)
      fun here => absurd here elsewhere
  have charted' : (appendSetting .includeDirectories (ListValue.join back) e).Charted :=
    appendCharted charted _
  unfold settle prependSetting
  split
  · exact appended
  · refine (Scopes.contentsElsewhere charted'.sound charted'.measured (.setContent _ _)
      fun here => ?_).trans appended
    rw [(appendSettingEdits ..).directoryOf] at here
    exact absurd here elsewhere

theorem settleSpells (charted : e.Charted) (here : e.scopes.directoryOf e.snapshot = some d)
    (same : e.scopes.contentView.contents d .includeDirectories = ⟨entries, entries⟩)
    (spells : Spells entries items) (before : ∀ item ∈ front, Plain item)
    (behind : ∀ item ∈ back, Plain item) : ∃ entries',
      (settle front back e).scopes.contentView.contents d .includeDirectories =
        ⟨entries', entries'⟩ ∧
      Spells entries' (front ++ (items ++ back)) := by
  have appended := appendHere charted here same (ListValue.join back)
  have longer := spells.append (.joined behind)
  unfold settle
  by_cases none : ListValue.join front = ""
  · have nothing := (ListValue.joinEmpty fun item member => (before item member).1).mp none
    rw [prependSetting, if_pos (by simp [none]), nothing]
    exact ⟨_, appended, longer⟩
  · have here' : (appendSetting .includeDirectories (ListValue.join back) e).scopes.directoryOf
        e.snapshot = some d := by
      rw [(appendSettingEdits ..).directoryOf, here]
    exact ⟨_, prependHere (appendCharted charted _) here' appended none,
      longer.prepend before none⟩

structure Extended (front back : List String) (e e' : Engine) : Prop where
  view : e'.scopes.contentView = (settle front back e).scopes.contentView
  listed : e'.scopes.listed = e.scopes.listed
  targets : e'.targets =
    ((((settle front back e).scopes.directory? (settle front back e).snapshot).map
        (·.targetNames)).getD []).foldl
      (fun targets name => targets.modify name (extendTarget front back))
      (settle front back e).targets

theorem addIncludesExtends (before : Bool) (includes : Includes) (e : Engine) :
    Extended (if before then includes.paths.reverse else []) (if before then [] else includes.paths)
      e (addIncludes before includes e) := by
  have extended (front back : List String)
      (front' : (if before then ListValue.join includes.paths.reverse else "") =
        ListValue.join front)
      (back' : (if before then "" else ListValue.join includes.paths) = ListValue.join back) :
      Extended front back e (addIncludes before includes e) := by
    have listed := listedSettle front back e
    unfold addIncludes
    dsimp only
    rw [front', back', ← settle]
    split
    · exact ⟨rfl, listed, rfl⟩
    · refine ⟨Scopes.sightUpdateDirectory _ _ fun _ => rfl, ?_, rfl⟩
      rw [← listed]
      exact Scopes.listedUpdate (settle front back e).scopes _ fun _ => rfl
  cases before with
  | true => exact extended _ _ rfl rfl
  | false => exact extended _ _ rfl rfl

namespace Extended

variable {e' : Engine}

theorem found (extended : Extended front back e e') (charted : e.Charted)
    (here : e.scopes.directoryOf e.snapshot = some d) (name : String) :
    e'.targets.targets[name]? =
      if name ∈ e.scopes.listed d then e.targets.targets[name]?.map (extendTarget front back)
      else e.targets.targets[name]? := by
  obtain ⟨targets, snapshot⟩ := settleBeside front back e
  have settledHere : (settle front back e).scopes.directoryOf e.snapshot = some d := by
    rw [(settleEdits front back e).directoryOf, here]
  rw [extended.targets, targets, snapshot, Scopes.listedOf settledHere, listedSettle]
  exact Targets.findModifiedEach (charted.consistent.listedNodup _)
    (fun name member => charted.real member) _ _

theorem including (extended : Extended front back e e') (charted : e.Charted)
    (here : e.scopes.directoryOf e.snapshot = some d) (before : ∀ path ∈ front, Plain path)
    (behind : ∀ path ∈ back, Plain path) (including : e.Including d items) :
    e'.Including d (front ++ (items ++ back)) := by
  obtain ⟨entries, written, spells, all⟩ := including
  obtain ⟨entries', written', spells'⟩ := settleSpells charted here written spells before behind
  refine ⟨entries', extended.view ▸ written', spells', fun name member => ?_⟩
  rw [extended.listed] at member
  obtain ⟨t, known, text⟩ := Option.map_eq_some_iff.mp (all name member)
  rw [Engine.included?, extended.found charted here, if_pos member, known, Option.map_some,
    Option.map_some]
  exact congrArg some (extendSpells spells.plain before behind text)

theorem elsewhere (extended : Extended front back e e') (charted : e.Charted)
    (elsewhere : e.scopes.directoryOf e.snapshot ≠ some d) (inStep : e.InStep d) :
    e'.InStep d := by
  obtain ⟨p, -, -, -, -, here⟩ := charted.within
  refine inStep.same ?_ (congrFun extended.listed d) fun name member => ?_
  · rw [extended.view]
    exact settleElsewhere charted elsewhere front back
  · have unlisted : name ∉ e.scopes.listed p.directory := fun listed =>
      elsewhere (charted.consistent.listedApart member listed ▸ here)
    rw [Engine.included?, extended.found charted here, if_neg unlisted, Engine.included?]

end Extended
end Settle

def TidyIn (d : Nat) (words : List String) (e : Engine) : Prop :=
  e.scopes.directoryOf e.snapshot = some d → Clear e.sourceDir ∧ ∀ word ∈ words, Tidy word

def withIncludes (words : List String) (e : Engine) (items : List String) : List String :=
  let (before, words) := readOrder (e.isOn "CMAKE_INCLUDE_DIRECTORIES_BEFORE") words
  let paths := includePaths e.sourceDir words
  if before then paths.reverse ++ items else items ++ paths

theorem includeDirectoriesRan (words : List String) (e : Engine) :
    (includeDirectories words e).2 =
      match Includes.read? e.sourceDir false
        (readOrder (e.isOn "CMAKE_INCLUDE_DIRECTORIES_BEFORE") words).2 with
      | none => e
      | some includes =>
        addIncludes (readOrder (e.isOn "CMAKE_INCLUDE_DIRECTORIES_BEFORE") words).1 includes e := by
  have reads (k : Engine → Step Verdict) : (get >>= k) e = k e e := rfl
  rw [includeDirectories, reads]
  dsimp only
  generalize Includes.read? e.sourceDir false _ = read
  cases read <;> rfl

theorem includeDirectoriesAdds (charted : e.Charted) {words items : List String}
    (here : e.scopes.directoryOf e.snapshot = some d) (tidy : TidyIn d words e)
    (including : e.Including d items) :
    (includeDirectories words e).2.Including d (withIncludes words e items) := by
  obtain ⟨clear, tidy⟩ := tidy here
  have ordered : ∀ word ∈ (readOrder (e.isOn "CMAKE_INCLUDE_DIRECTORIES_BEFORE") words).2,
      Tidy word := readOrderTidy tidy
  rw [includeDirectoriesRan, withIncludes]
  generalize readOrder (e.isOn "CMAKE_INCLUDE_DIRECTORIES_BEFORE") words = order at ordered ⊢
  obtain ⟨before, words'⟩ := order
  have plain := includePathsPlain ordered clear
  obtain ⟨includes, read, same⟩ := readTidy e.sourceDir ordered false
  have extended := addIncludesExtends before includes e
  rw [same] at extended
  rw [read]
  cases before with
  | true =>
    have front : ∀ path ∈ (includePaths e.sourceDir words').reverse, Plain path := by
      simpa using plain
    simpa using extended.including charted here front nofun including
  | false => exact extended.including charted here nofun plain including

theorem includeDirectoriesInStep (charted : e.Charted) (words : List String) :
    (includeDirectories words e).2.Charted ∧
      ∀ d, e.InStep d → TidyIn d words e → (includeDirectories words e).2.InStep d := by
  have edits : Edits e (includeDirectories words e).2 := includeDirectoriesEdits words e
  have ran := includeDirectoriesRan words e
  split at ran
  case h_1 =>
    rw [ran]
    exact ⟨charted, fun d inStep _ => inStep⟩
  case h_2 includes read =>
    have extended := addIncludesExtends
      (readOrder (e.isOn "CMAKE_INCLUDE_DIRECTORIES_BEFORE") words).1 includes e
    refine ⟨charted.edits edits ?_, fun d inStep tidy => ?_⟩
    · rw [ran, extended.view]
      exact (prependCharted (appendCharted charted _) _).measured
    · by_cases here : e.scopes.directoryOf e.snapshot = some d
      · obtain ⟨items, including⟩ := inStep
        exact ⟨_, includeDirectoriesAdds charted here tidy including⟩
      · exact ran ▸ extended.elsewhere charted here inStep

end Command
end CMakeScript
