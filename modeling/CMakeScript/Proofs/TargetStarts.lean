import CMakeScript.Proofs.CommandEdits
import CMakeScript.Proofs.TargetRuns
/-! What new targets start with. A command that declares one leaves the targets that are there as
they are, and a target that the current directory is to list gets the include directories that show
there, unless a variable is defined that they start from. -/
namespace CMakeScript

theorem Targets.resolveReal {r : Targets} {name : String} (real : r.isAlias name = false) :
    r.resolve name = name :=
  Std.TreeMap.getD_eq_fallback_of_contains_eq_false real

namespace Engine

variable {e e' : Engine}

def included? (e : Engine) (name : String) : Option String :=
  (e.targets.targets[name]?).map fun t => t.properties.getD "INCLUDE_DIRECTORIES" ""

def Uninitialized (e : Engine) : Prop :=
  ∀ source, ("INCLUDE_DIRECTORIES", source) ∈ e.declarations.initializers .target →
    e.definition? source = none

structure Adds (e e' : Engine) : Prop where
  kept : ∀ name, e.targets.targets.contains name = true →
    e'.targets.targets[name]? = e.targets.targets[name]?
  listed : e'.scopes = e.scopes ∨ ∃ name,
    e'.scopes = e.scopes.updateDirectory e.snapshot
      (fun d => { d with targetNames := d.targetNames ++ [name] }) ∧
    (e.Uninitialized → e'.included? name =
      some (ListValue.join (e.scopes.content e.snapshot .includeDirectories)))

theorem Adds.inserted {t : Target} {aliases : Std.TreeMap String String}
    (unknown : e.targets.targets.contains t.name = false)
    (targets : e'.targets = ⟨e.targets.targets.insert t.name t, aliases⟩)
    (scopes : e'.scopes = e.scopes) : e.Adds e' := by
  refine ⟨fun name known => ?_, .inl scopes⟩
  rw [targets, Std.TreeMap.getElem?_insert]
  split
  case isTrue same =>
    rw [Std.LawfulEqCmp.compare_eq_iff_eq.mp same, known] at unknown
    cases unknown
  case isFalse => rfl

end Engine

namespace Step

def AddsAt (s : Step Verdict) (e : Engine) : Prop := e.Adds (s e).2

def Adds (s : Step Verdict) : Prop := ∀ e, e.roster.Consistent → s.AddsAt e

theorem addsFail (text : String) : (fail text).Adds := fun _ _ => ⟨fun _ _ => rfl, .inl rfl⟩

theorem addsFatal (text : String) : (fatal text).Adds := by
  intro e _
  obtain ⟨nested, written, errorOccurred, issued, -⟩ :=
    Engine.issueAtCases e .fatalError text e.backtrace
  have stopped : (fatal text e).2 = (e.issueAt .fatalError text e.backtrace).setFatal := rfl
  rw [AddsAt, stopped, issued]
  exact ⟨fun _ _ => rfl, .inl rfl⟩

theorem addsGetBind {k : Engine → Step Verdict}
    (rest : ∀ e, e.roster.Consistent → (k e).AddsAt e) : (get >>= k).Adds :=
  rest

end Step

namespace Command
open Step

section Starting

variable {m : Properties} {name : String}

theorem insertElsewhere (m : Properties) {other : String} (apart : other ≠ name) (value : String) :
    (m.insert other value).getD name "" = m.getD name "" := by
  rw [Std.TreeMap.getD_insert, if_neg fun same => apart (Std.LawfulEqCmp.compare_eq_iff_eq.mp same)]

theorem foldElsewhere {α : Type} {f : Properties → α → Properties} {items : List α}
    (elsewhere : ∀ item ∈ items, ∀ m, (f m item).getD name "" = m.getD name "") :
    (items.foldl f m).getD name "" = m.getD name "" := by
  induction items generalizing m with
  | nil => rfl
  | cons item rest ih =>
    obtain ⟨first, others⟩ := List.forall_mem_cons.mp elsewhere
    rw [List.foldl_cons, ih others, first]

end Starting

theorem contentsStart (e : Engine) : (setContents e {}).getD "INCLUDE_DIRECTORIES" "" =
    ListValue.join (e.scopes.content e.snapshot .includeDirectories) := by
  have kinds : ContentKind.all.filter (· != .compileDefinitions) =
      .includeDirectories :: [.compileOptions, .linkOptions, .linkDirectories] := by decide
  have others : ∀ kind ∈ [ContentKind.compileOptions, .linkOptions, .linkDirectories],
      kind.property ≠ "INCLUDE_DIRECTORIES" := by decide
  rw [setContents, kinds, List.foldl_cons, foldElsewhere]
  · dsimp only
    split
    case isTrue none =>
      rw [List.isEmpty_iff.mp none]
      rfl
    case isFalse => exact Std.TreeMap.getD_insert_self
  · intro kind member m
    dsimp only
    split
    · rfl
    · exact insertElsewhere m (others kind member) _

theorem startingIncludes {e : Engine} (free : e.Uninitialized) (sources : List String)
    (excluded : Bool) : (startingProperties e sources excluded).getD "INCLUDE_DIRECTORIES" "" =
      ListValue.join (e.scopes.content e.snapshot .includeDirectories) := by
  have told : ∀ m : Properties,
      (if excluded then m.insert "EXCLUDE_FROM_ALL" "TRUE" else m).getD "INCLUDE_DIRECTORIES" "" =
        m.getD "INCLUDE_DIRECTORIES" "" := by
    intro m
    split
    · exact insertElsewhere m (by decide) _
    · rfl
  have listed : ∀ m : Properties,
      (if sources.isEmpty then m else m.insert "SOURCES" (ListValue.join sources)).getD
        "INCLUDE_DIRECTORIES" "" = m.getD "INCLUDE_DIRECTORIES" "" := by
    intro m
    split
    · rfl
    · exact insertElsewhere m (by decide) _
  unfold startingProperties
  dsimp only
  rw [foldElsewhere, told, listed, contentsStart]
  rintro ⟨property, source⟩ member m
  dsimp only
  by_cases same : property = "INCLUDE_DIRECTORIES"
  · subst same
    rw [free source member]
  · split
    · exact insertElsewhere m same _
    · rfl

theorem createTargetAdds (name : String) (type : TargetType) (sources : List String)
    (excluded : Bool) {extra : List (String × String)}
    (other : ∀ entry ∈ extra, entry.1 ≠ "INCLUDE_DIRECTORIES") :
    (createTarget name type sources excluded extra).Adds := by
  unfold createTarget
  refine addsGetBind fun e consistent => ?_
  dsimp only
  split
  · exact addsFail _ e consistent
  case h_2 added =>
    obtain ⟨unknown, rfl⟩ := Targets.addCases added
    obtain ⟨free, real⟩ : e.targets.targets.contains name = false ∧
        e.targets.isAlias name = false :=
      Bool.or_eq_false_iff.mp (consistent.fresh unknown)
    have resolved := Targets.resolveReal real
    constructor
    case kept =>
      intro known there
      have apart : name ≠ known := by
        rintro rfl
        rw [free] at there
        cases there
      refine (Targets.findModified _ _ _ _).trans ?_
      rw [if_neg]
      · rw [Std.TreeMap.getElem?_insert, if_neg fun same =>
          apart (Std.LawfulEqCmp.compare_eq_iff_eq.mp same)]
      · exact fun same => apart (resolved.symm.trans same)
    case listed =>
      refine .inr ⟨name, rfl, fun uninitialized => ?_⟩
      refine (congrArg (Option.map _) (Targets.findModified _ _ _ _)).trans ?_
      rw [if_pos]
      · rw [Std.TreeMap.getElem?_insert_self]
        refine congrArg some ((foldElsewhere fun entry member m => ?_).trans
          (startingIncludes uninitialized sources excluded))
        exact insertElsewhere m (other entry member) _
      · exact resolved

theorem createImportedAdds (name : String) (type : TargetType) (isGlobal : Bool) :
    (createImported name type isGlobal).Adds := by
  unfold createImported
  refine addsGetBind fun e consistent => ?_
  dsimp only
  split
  · exact addsFail _ e consistent
  case isFalse fresh =>
    split
    · exact addsFail _ e consistent
    case h_2 added =>
      obtain ⟨-, rfl⟩ := Targets.addCases added
      obtain ⟨free, -⟩ := Bool.or_eq_false_iff.mp (eq_false_of_ne_true fresh)
      exact .inserted free rfl rfl

theorem createAliasAdds (name : String) (words rest : List String) (accepts : Target → Bool)
    (kind : String) : (createAlias name words rest accepts kind).Adds := by
  unfold createAlias
  refine addsGetBind fun e consistent => ?_
  split
  · dsimp only
    split
    · exact addsFail _ e consistent
    split
    · exact addsFail _ e consistent
    split
    · exact addsFail _ e consistent
    split
    · exact addsFail _ e consistent
    case h_2 added =>
      obtain ⟨-, -, rfl⟩ := Targets.addAliasCases added
      exact ⟨fun _ _ => rfl, .inl rfl⟩
  · exact addsFail _ e consistent

theorem withTargetNameAdds {step : Step Verdict} (adds : step.Adds) (name : String) :
    (withTargetName name step).Adds := by
  unfold withTargetName
  split
  · exact adds
  · exact addsFatal _

theorem declareAliasAdds (d : Declaration) (name : String) (words : List String)
    (accepts : Target → Bool) (kind : String) : (declareAlias d name words accepts kind).Adds := by
  unfold declareAlias
  split
  · exact addsFail _
  · exact createAliasAdds _ _ _ _ _

theorem addExecutableAdds (words : List String) : (addExecutable words).Adds := by
  unfold addExecutable
  split
  · exact addsFail _
  · refine withTargetNameAdds ?_ _
    split
    · exact addsFail _
    split
    · exact declareAliasAdds _ _ _ _ _
    split
    · exact createImportedAdds _ _ _
    · refine createTargetAdds _ _ _ _ (List.forall_mem_append.mpr ⟨?_, ?_⟩)
      · split <;> simp
      · split <;> simp

theorem declareLibraryAdds (d : Declaration) (name : String) : (declareLibrary d name).Adds := by
  unfold declareLibrary
  split_ifs
  · exact addsFail _
  · exact addsFail _
  · exact createImportedAdds _ _ _
  · exact addsFail _
  · exact addsFail _
  · exact createTargetAdds _ _ _ _ nofun

theorem addLibraryAdds (words : List String) : (addLibrary words).Adds := by
  unfold addLibrary
  split
  · exact addsFail _
  · refine addsGetBind fun e consistent => ?_
    dsimp only
    split
    · exact addsFail _ e consistent
    · refine withTargetNameAdds ?_ _ e consistent
      split
      · exact declareAliasAdds _ _ _ _ _
      · exact declareLibraryAdds _ _

theorem addCustomTargetAdds (words : List String) : (addCustomTarget words).Adds := by
  unfold addCustomTarget
  split
  · exact addsFail _
  split
  · exact addsFail _
  dsimp only
  split
  · exact addsFail _
  split
  · exact addsFail _
  · refine withTargetNameAdds ?_ _
    split
    · exact addsFail _
    · exact createTargetAdds _ _ _ _ nofun

theorem declaringAdds {command : List String → Step Verdict} (member : command ∈ declaring)
    (words : List String) : (command words).Edits ∧ (command words).Adds := by
  simp only [declaring, List.mem_cons, List.not_mem_nil, or_false] at member
  obtain rfl | rfl | rfl := member
  · exact ⟨addExecutableEdits words, addExecutableAdds words⟩
  · exact ⟨addLibraryEdits words, addLibraryAdds words⟩
  · exact ⟨addCustomTargetEdits words, addCustomTargetAdds words⟩

end Command
end CMakeScript
