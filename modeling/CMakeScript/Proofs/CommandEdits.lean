import CMakeScript.Execution.Dispatch
import CMakeScript.Proofs.ConditionEdits
/-! Every command that opens no block and runs no other command makes edits only. -/
namespace CMakeScript
open Step
namespace Command

/-! Messages -/

theorem showStatusEdits (text : String) : (showStatus text).Edits :=
  editsModify fun _ => .one (.output _)

theorem concludeCheckEdits (keyword text : String) :
    (concludeCheck keyword text).Edits := by
  unfold concludeCheck
  refine editsBind editsGet fun e => ?_
  cases e.checks with
  | nil => exact editsModify fun _ => .one (.display (by decide) _)
  | cons started rest =>
    exact editsBind (editsModify fun _ => .one (.checks rest)) fun _ => showStatusEdits _

def MessageMode.IsOrdinary : MessageMode → Prop
  | .diagnostic kind _ fatal => kind ≠ .internalError ∧ (fatal = true → kind.isError = true)
  | _ => True

theorem readOrdinary {e : Engine} {word : String} {mode : MessageMode}
    (read : MessageMode.read e word = .mode mode) : mode.IsOrdinary := by
  unfold MessageMode.read MessageMode.authorWarning MessageMode.deprecation at read
  split at read <;> first
    | (cases read <;> simp [MessageMode.IsOrdinary, MessageKind.isError])
    | (split_ifs at read <;> cases read <;> simp [MessageMode.IsOrdinary, MessageKind.isError])

theorem showMessageEdits {mode : MessageMode} (ordinary : mode.IsOrdinary) (text : String) :
    (showMessage mode text).Edits := by
  unfold showMessage
  cases mode with
  | diagnostic kind level fatal =>
    obtain ⟨ordinary, error⟩ := ordinary
    cases fatal with
    | false => exact editsModify fun _ => .one (.display ordinary text)
    | true =>
      refine fun e => (Edits.one (.display ordinary text)).trans (.one (.setFatal ?_))
      exact e.shownDisplay (error rfl) text
  | notice => exact editsModify fun _ => .one (.errors _)
  | status level => exact showStatusEdits text
  | check c =>
    cases c with
    | start =>
      exact editsBind (showStatusEdits text) fun _ => editsModify fun _ => .one (.checks _)
    | pass => exact concludeCheckEdits _ text
    | fail => exact concludeCheckEdits _ text

theorem showAtLevelEdits {mode : MessageMode} (ordinary : mode.IsOrdinary) (parts : List String) :
    (showAtLevel mode parts).Edits := by
  unfold showAtLevel
  refine editsBind editsGet fun e => ?_
  split
  · exact editsBind (showMessageEdits ordinary _) fun _ => editsDone
  · exact editsDone

theorem messageEdits (words : List String) : (message words).Edits := by
  unfold message
  cases words with
  | nil => exact editsFail _
  | cons first rest =>
    refine editsBind editsGet fun e => ?_
    split
    case h_1 mode read => exact showAtLevelEdits (readOrdinary read) rest
    case h_2 => exact editsDone
    case h_3 => exact @showAtLevelEdits .notice trivial _

/-! Build settings -/

theorem appendSettingEdits (kind : ContentKind) (value : String) (e : Engine) :
    Edits e (appendSetting kind value e) :=
  .one (.scope (u := .appendContent kind value) nofun)

theorem prependSettingEdits (kind : ContentKind) (value : String) (e : Engine) :
    Edits e (prependSetting kind value e) := by
  unfold prependSetting
  split
  · exact .refl e
  · exact .one (.scope (u := .setContent kind _) nofun)

theorem addIncludesEdits (before : Bool) (includes : Includes) (e : Engine) :
    Edits e (addIncludes before includes e) := by
  unfold addIncludes
  dsimp only
  generalize (if before then ListValue.join includes.paths.reverse else "") = front
  generalize (if before then "" else ListValue.join includes.paths) = back
  have extended {names : List String} (e : Engine) : Edits e { e with
      targets := names.foldl (fun targets name => targets.modify name fun t =>
        { t with properties := extendIncludes front back t.properties }) e.targets } := by
    induction names generalizing e with
    | nil => exact .refl e
    | cons name names ih => exact (Edits.modifyTarget e name).trans (ih _)
  have settled : Edits e (prependSetting .includeDirectories front
      (appendSetting .includeDirectories back e)) :=
    (appendSettingEdits ..).trans (prependSettingEdits ..)
  generalize prependSetting .includeDirectories front
    (appendSetting .includeDirectories back e) = e₁
    at settled ⊢
  split
  · exact settled.trans (extended e₁)
  · exact settled.trans ((extended e₁).trans (.directory _ e₁.snapshot fun _ => ⟨rfl, rfl⟩))

theorem includeDirectoriesEdits (words : List String) :
    (includeDirectories words).Edits := by
  unfold includeDirectories
  refine editsBind editsGet fun e => ?_
  split
  split
  · exact editsFail _
  · exact editsBind (editsModify (addIncludesEdits _ _)) fun _ => editsDone

theorem linkDirectoriesEdits (words : List String) : (linkDirectories words).Edits := by
  unfold linkDirectories
  refine editsBind editsGet fun e => ?_
  split
  refine editsBind (editsModify fun e => ?_) fun _ => editsDone
  split
  · exact prependSettingEdits ..
  · exact appendSettingEdits ..

theorem addSettingsEdits (kind : ContentKind) (words : List String) :
    (addSettings kind words).Edits :=
  editsBind (editsModify (Edits.foldl (fun e word => appendSettingEdits kind word e) words))
    fun _ => editsDone

theorem addFlagEdits (e : Engine) (flag : String) : Edits e (addFlag e flag) := by
  unfold addFlag
  split
  · exact .refl e
  · dsimp only
    split
    · exact (Edits.directory e e.snapshot (by simp)).trans (appendSettingEdits ..)
    · exact (Edits.directory e e.snapshot (by simp)).trans (appendSettingEdits ..)

theorem addDefinitionsEdits (flags : List String) : (addDefinitions flags).Edits :=
  editsBind (editsModify (Edits.foldl addFlagEdits flags)) fun _ => editsDone

/-! Projects -/

theorem defineAllEdits (entries : List (String × String)) : (defineAll entries).Edits :=
  editsModify (Edits.defineAll entries)

theorem cacheAllEdits (entries : List (String × String)) : (cacheAll entries).Edits :=
  editsModify (Edits.foldl (fun e entry => .cacheDefine e entry.1 entry.2 _ _ _) entries)

theorem placeProjectEdits (name : String) (isTop : Bool) : (placeProject name isTop).Edits := by
  unfold placeProject
  refine editsBind editsGet fun e => ?_
  refine editsBind (editsModify fun e => .directory e _ (by simp)) fun _ => ?_
  refine editsBind (cacheAllEdits _) fun _ => editsBind (defineAllEdits _) fun _ => ?_
  split
  · exact editsDefine _ _
  · exact editsPure _

theorem projectEdits (words : List String) : (project words).Edits := by
  unfold project
  cases words with
  | nil => exact editsFail _
  | cons name words =>
    dsimp only
    split
    · exact editsFail _
    split
    · exact editsFail _
    refine editsBind editsGet fun e => editsBind (placeProjectEdits _ _) fun _ => ?_
    split
    · exact editsFail _
    · refine editsBind (defineAllEdits _) fun _ => ?_
      split
      · exact editsBind (defineAllEdits _) fun _ => editsDone
      · exact editsDone

/-! Variables -/

theorem environmentEdits (f : Engine → Std.TreeMap String String) :
    Step.Edits (modify fun e => { e with environment := f e }) :=
  editsModify fun _ => .one (.environment _)

theorem setEnvironmentEdits (name value : String) (rest : List String) :
    (setEnvironment name value rest).Edits := by
  unfold setEnvironment
  split
  · exact editsBind (environmentEdits _) fun _ => editsDone
  · refine editsBind (environmentEdits _) fun _ => ?_
    cases rest with
    | nil => exact editsDone
    | cons extra rest =>
      exact editsBind (editsModify fun e => .issue e .authorWarning (by decide) _) fun _ =>
        editsDone

theorem setCacheEdits (name value type help : String) (force : Bool) :
    (setCache name value type help force).Edits := by
  unfold setCache
  refine editsBind ?_ fun type => editsBind editsGet fun e => ?_
  · cases CacheType.ofKeyword? type with
    | some type => exact editsPure type
    | none =>
      exact editsBind (editsModify fun e => .issue e .authorWarning (by decide) _) fun _ =>
        editsPure _
  · dsimp only
    split
    · exact editsDone
    · exact editsBind (editsModify fun e => .cacheDefine e ..) fun _ => editsDone

theorem undefineEdits (name : String) : Step.Edits (modify (·.undefine name)) :=
  editsModify fun e => .undefine e name

theorem raiseEdits (name : String) (value : Option String) :
    Step.Edits (modify (·.raise name value)) :=
  editsModify fun e => .raise e name value

theorem setVariableEdits (words : List String) : (setVariable words).Edits := by
  unfold setVariable
  split
  · exact editsFail _
  · exact editsBind (undefineEdits _) fun _ => editsDone
  case h_3 name value rest =>
    split
    · exact editsBind (raiseEdits _ _) fun _ => editsDone
    split
    · exact editsPure _
    · exact setEnvironmentEdits _ _ _
    · dsimp only
      split
      · exact editsBind (raiseEdits _ _) fun _ => editsDone
      split
      · exact editsFail _
      split
      · exact setCacheEdits _ _ _ _ _
      · exact editsBind (editsDefine _ _) fun _ => editsDone

theorem unsetVariableEdits (words : List String) : (unsetVariable words).Edits := by
  unfold unsetVariable
  split
  · exact editsFail _
  · split
    · exact editsPure _
    · exact editsBind (environmentEdits _) fun _ => editsDone
    · exact editsBind (undefineEdits _) fun _ => editsDone
  · split
    · exact editsPure _
    · exact editsBind (environmentEdits _) fun _ => editsDone
    · split
      · exact editsBind (editsModify fun _ => .one (.cache _)) fun _ => editsDone
      · split
        · exact editsBind (raiseEdits _ _) fun _ => editsDone
        · exact editsFail _
  · exact editsFail _

theorem declareOptionEdits (name help : String) (initial : Option String) :
    (declareOption name help initial).Edits := by
  unfold declareOption
  refine editsBind editsGet fun e => ?_
  have define (value : String) : Step.Edits (modify (·.cacheDefine name value help .bool false)) :=
    editsModify fun e => .cacheDefine e ..
  split
  · exact editsDone
  split
  · split
    · exact editsBind (define _) fun _ => editsDone
    · exact editsBind (editsModify fun _ => .one (.cache _)) fun _ => editsDone
  · exact editsBind (define _) fun _ => editsDone

theorem optionEdits (words : List String) : (option words).Edits := by
  unfold option
  split
  · exact declareOptionEdits _ _ _
  · exact declareOptionEdits _ _ _
  · exact editsFail _

/-! Numbers, lists and names -/

theorem mathExpressionEdits (output text : String) (format : Int64 → String) :
    (mathExpression output text format).Edits := by
  unfold mathExpression
  split
  · exact editsBind (editsDefine _ _) fun _ => editsDone
  · exact editsFail _

theorem mathEdits (words : List String) : (math words).Edits := by
  unfold math
  cases words with
  | nil => exact editsFail _
  | cons kind arguments =>
    dsimp only
    split
    · exact editsFail _
    split
    · exact editsBind (editsDefine _ _) fun _ => mathExpressionEdits _ _ _
    · refine editsBind (editsDefine _ _) fun _ => ?_
      split_ifs
      · exact editsFail _
      · exact mathExpressionEdits _ _ _
      · exact mathExpressionEdits _ _ _
      · exact editsFail _
    · exact editsFail _

theorem listEdits (words : List String) : (list words).Edits := by
  unfold list
  split
  · refine editsBind editsGet fun e => ?_
    split
    · exact editsBind (editsModify (Edits.foldl (fun e (w : ListOperation.Write) =>
        .assign e w.name w.value) _)) fun _ =>
        editsDone
    · exact editsFail _
  · exact editsFail _

theorem cacheBuildNameEdits (name text : String) : (cacheBuildName name text).Edits :=
  editsModify fun e => .cacheDefine e ..

theorem buildNameEdits (words : List String) : (buildName words).Edits := by
  unfold buildName
  cases words with
  | nil => exact editsFail _
  | cons name words =>
    refine editsBind editsGet fun e => ?_
    split
    · split
      · exact editsBind (cacheBuildNameEdits _ _) fun _ => editsDone
      · exact editsDone
    · exact editsBind (cacheBuildNameEdits _ _) fun _ => editsDone

/-! Text -/

namespace StringOperation

theorem storeMatchEdits (m : Regex.Match) : Step.Edits (modify (·.storeMatch m)) :=
  editsModify fun e => .storeMatch e m

theorem clearMatchesEdits : Step.Edits (modify Engine.clearMatches) := editsModify .clearMatches

theorem replaceMatchesEdits (r : Regex) (replacement : List Piece) (text : Array Char)
    (fuel place : Nat) : Step.Edits (replaceMatches r replacement text fuel place) := by
  induction fuel generalizing place with
  | zero => exact editsPure _
  | succ fuel ih =>
    unfold replaceMatches
    split
    · exact editsPure _
    split
    · exact editsPure _
    · refine editsBind (storeMatchEdits _) fun _ => editsBind (ih _) fun rest => ?_
      cases rest <;> exact editsPure _

theorem storeMatchesEdits (found : List Regex.Match) : Step.Edits (storeMatches found) := by
  induction found with
  | nil => exact editsPure true
  | cons m rest ih =>
    unfold storeMatches
    split
    · exact editsPure false
    · exact editsBind (storeMatchEdits m) fun _ => ih

theorem matchRegexEdits (mode : String) (words : List String) : (matchRegex mode words).Edits := by
  unfold matchRegex
  split
  · refine editsBind editsGet fun e => ?_
    split
    · exact editsFail _
    refine editsBind clearMatchesEdits fun _ => ?_
    split
    · split
      · exact editsBind (storeMatchEdits _) fun _ =>
          editsBind (editsDefine _ _) fun _ => editsDone
      · exact editsBind (editsDefine _ _) fun _ => editsDone
    · refine editsBind (storeMatchesEdits _) fun whole => ?_
      split
      · exact editsBind (editsDefine _ _) fun _ => editsDone
      · exact editsFail _
  · exact editsFail _

theorem replaceRegexEdits (words : List String) : (replaceRegex words).Edits := by
  unfold replaceRegex
  split
  · split
    · exact editsFail _
    refine editsBind editsGet fun e => ?_
    split
    · exact editsFail _
    refine editsBind clearMatchesEdits fun _ =>
      editsBind (replaceMatchesEdits _ _ _ _ _) fun result => ?_
    cases result with
    | some result => exact editsBind (editsDefine _ _) fun _ => editsDone
    | none => exact editsFail _
  · exact editsFail _

theorem regexEdits (words : List String) : (regex words).Edits := by
  unfold regex
  split
  · exact editsFail _
  · split_ifs
    · exact matchRegexEdits _ _
    · exact replaceRegexEdits _
    · exact editsFail _

theorem extendEdits (word : String) (words : List String) : (extend word words).Edits := by
  unfold extend
  split
  · exact editsFail _
  · exact editsDone
  · exact editsBind editsGet fun e => editsBind (editsDefine _ _) fun _ => editsDone

theorem configureEdits (words : List String) : (configure words).Edits := by
  unfold configure
  split
  · exact editsFail _
  · exact editsFail _
  · split
    · exact editsFail _
    refine editsGetBind fun e => ?_
    refine atSetBind (.expandText e ..) ?_
    split
    · exact editsBind (editsDefine _ _) fun _ => editsDone
    · exact editsDone

end StringOperation

theorem stringEdits (words : List String) : (string words).Edits := by
  unfold string
  split
  · exact editsFail _
  · exact StringOperation.regexEdits _
  · exact StringOperation.extendEdits _ _
  · exact StringOperation.extendEdits _ _
  · exact StringOperation.configureEdits _
  · split
    · exact editsBind (editsDefine _ _) fun _ => editsDone
    · exact editsFail _

/-! Policies -/

theorem setPolicyVersionEdits (least : String) (most : Option String) :
    Step.Edits (modify fun e => (e.setPolicyVersion least most).2) :=
  editsModify fun e => .setPolicyVersion e least most

theorem requireVersionEdits (r : MinimumRequest) (least : String) (most : Option String) :
    (requireVersion r least most).Edits := by
  unfold requireVersion
  refine editsBind (editsDefine _ _) fun _ => ?_
  split
  · exact editsFail _
  split
  · exact editsFatal _
  split
  · exact editsFail _
  split
  · refine editsBind (editsModify fun e => .issue e .authorWarning (by decide) _) fun _ => ?_
    exact editsBind (setPolicyVersionEdits _ _) fun _ => editsDone
  · exact editsBind (setPolicyVersionEdits _ _) fun _ => editsDone

theorem minimumRequiredEdits (words : List String) : (minimumRequired words).Edits := by
  unfold minimumRequired
  split
  · exact editsFail _
  split
  · split
    · exact editsFail _
    · exact editsDone
  · split
    · exact editsFail _
    · exact requireVersionEdits _ _ _

theorem givePolicyEdits (name : String) (status : PolicyStatus) : Step.Edits (do
    let (known, e) := (← get).setPolicyByName name status
    set e
    if known then Step.done else Step.fail "SET failed to set policy.") := by
  refine editsGetBind fun e => atSetBind (.setPolicyByName e name status) ?_
  split
  · exact editsDone
  · exact editsFail _

theorem setPolicyEdits (words : List String) : (setPolicy words).Edits := by
  unfold setPolicy
  split
  case h_1 name word =>
    dsimp only
    split_ifs
    · exact givePolicyEdits name .old
    · exact givePolicyEdits name .new
    · exact editsFail _
  case h_2 => exact editsFail _

theorem askPolicyEdits (word : String) (answer : Engine → CMakeScript.Policy → String)
    (words : List String) : (askPolicy word answer words).Edits := by
  unfold askPolicy
  split
  · split
    · exact editsFail _
    · exact editsBind editsGet fun e => editsBind (editsDefine _ _) fun _ => editsDone
  · exact editsFail _

theorem policyVersionEdits (words : List String) : (policyVersion words).Edits := by
  unfold policyVersion
  split
  · exact editsFail _
  · split
    · exact editsFail _
    · exact editsBind (setPolicyVersionEdits _ _) fun _ => editsDone
  · exact editsFail _

theorem policyEdits (words : List String) : (policy words).Edits := by
  unfold policy
  split
  · exact editsFail _
  · exact setPolicyEdits _
  · exact askPolicyEdits _ _ _
  · exact askPolicyEdits _ _ _
  · split
    · exact editsBind (editsModify fun e => .pushPolicy e ..) fun _ => editsDone
    · exact editsFail _
  · split
    · exact editsBind (editsModify .popPolicy) fun _ => editsDone
    · exact editsFail _
  · exact policyVersionEdits _
  · exact editsFail _

/-! Targets and properties -/

theorem targetsEdits {e : Engine} {targets : Targets} (change : e.targets.Change targets)
    (v : Verdict) : EditsAt (do set { e with targets }; pure v) e :=
  atSetBind (.one (.targets change)) (editsPure v)

theorem createTargetEdits (name : String) (type : TargetType) (sources : List String)
    (excluded : Bool) (extra : List (String × String)) :
    (createTarget name type sources excluded extra).Edits := by
  unfold createTarget
  refine editsGetBind fun e => ?_
  dsimp only
  split
  · exact editsFail _ e
  case h_2 added =>
    obtain ⟨unknown, rfl⟩ := Targets.addCases added
    exact atSetBind ((Edits.one (.declared rfl unknown)).trans (.modifyTarget _ name)) editsDone

theorem createImportedEdits (name : String) (type : TargetType) (isGlobal : Bool) :
    (createImported name type isGlobal).Edits := by
  unfold createImported
  refine editsGetBind fun e => ?_
  dsimp only
  split
  · exact editsFail _ e
  case isFalse fresh =>
    split
    · exact editsFail _ e
    case h_2 added =>
      obtain ⟨-, rfl⟩ := Targets.addCases added
      exact targetsEdits (.imported rfl (eq_false_of_ne_true fresh)) .done

theorem createAliasEdits (name : String) (words rest : List String) (accepts : Target → Bool)
    (kind : String) : (createAlias name words rest accepts kind).Edits := by
  unfold createAlias
  refine editsGetBind fun e => ?_
  split
  · dsimp only
    split
    · exact editsFail _ e
    split
    · exact editsFail _ e
    split
    · exact editsFail _ e
    split
    · exact editsFail _ e
    case h_2 added =>
      obtain ⟨fresh, known, rfl⟩ := Targets.addAliasCases added
      exact targetsEdits (.aliased fresh known) .done
  · exact editsFail _ e

theorem withTargetNameEdits {step : Step Verdict} (edits : step.Edits) (name : String) :
    (withTargetName name step).Edits := by
  unfold withTargetName
  split
  · exact edits
  · exact editsFatal _

theorem declareAliasEdits (d : Declaration) (name : String) (words : List String)
    (accepts : Target → Bool) (kind : String) : (declareAlias d name words accepts kind).Edits := by
  unfold declareAlias
  split
  · exact editsFail _
  · exact createAliasEdits _ _ _ _ _

theorem addExecutableEdits (words : List String) : (addExecutable words).Edits := by
  unfold addExecutable
  split
  · exact editsFail _
  · refine withTargetNameEdits ?_ _
    split
    · exact editsFail _
    split
    · exact declareAliasEdits _ _ _ _ _
    split
    · exact createImportedEdits _ _ _
    · exact createTargetEdits _ _ _ _ _

theorem declareLibraryEdits (d : Declaration) (name : String) : (declareLibrary d name).Edits := by
  unfold declareLibrary
  split_ifs
  · exact editsFail _
  · exact editsFail _
  · exact createImportedEdits _ _ _
  · exact editsFail _
  · exact editsFail _
  · exact createTargetEdits _ _ _ _ _

theorem addLibraryEdits (words : List String) : (addLibrary words).Edits := by
  unfold addLibrary
  split
  · exact editsFail _
  · refine editsBind editsGet fun e => ?_
    dsimp only
    split
    · exact editsFail _
    · refine withTargetNameEdits ?_ _
      split
      · exact declareAliasEdits _ _ _ _ _
      · exact declareLibraryEdits _ _

theorem addCustomTargetEdits (words : List String) : (addCustomTarget words).Edits := by
  unfold addCustomTarget
  split
  · exact editsFail _
  split
  · exact editsFail _
  dsimp only
  split
  · exact editsFail _
  split
  · exact editsFail _
  · refine withTargetNameEdits ?_ _
    split
    · exact editsFail _
    · exact createTargetEdits _ _ _ _ _

theorem editTargetPairsEdits (target : String) (words : List String) :
    (editTargetPairs target words).Edits := by
  induction words using editTargetPairs.induct with
  | case1 name value rest ih =>
    unfold editTargetPairs
    refine editsGetBind fun e => atSetBind (.editTarget e ..) ?_
    split
    · exact ih
    · exact editsPure false
  | case2 words short =>
    unfold editTargetPairs
    split
    · exact absurd rfl (short _ _ _)
    · exact editsPure true

theorem editTargetsEdits (pairs names : List String) : (editTargets pairs names).Edits := by
  induction names with
  | nil => exact editsDone
  | cons name rest ih =>
    unfold editTargets
    refine editsBind editsGet fun e => ?_
    split
    · exact editsFail _
    split
    · exact editsFail _
    · refine editsBind (editTargetPairsEdits _ _) fun edited => ?_
      split
      · exact ih
      · exact editsDone

theorem setTargetPropertiesEdits (words : List String) :
    (setTargetProperties words).Edits := by
  unfold setTargetProperties
  dsimp only
  split_ifs
  · exact editsFail _
  · exact editsFail _
  · exact editsFail _
  · exact editTargetsEdits _ _

theorem getTargetPropertyEdits (words : List String) :
    (getTargetProperty words).Edits := by
  unfold getTargetProperty
  split
  · refine editsBind editsGet fun e => ?_
    split
    · exact editsFatal _
    · exact editsBind (editsDefine _ _) fun _ => editsDone
  · exact editsFail _

theorem setTargetsEdits (r : SetPropertyRequest) (names : List String) :
    (setTargets r names).Edits := by
  induction names with
  | nil => exact editsDone
  | cons name rest ih =>
    unfold setTargets
    refine editsGetBind fun e => ?_
    split
    · exact editsFail _ e
    split
    · exact editsFail _ e
    · refine atSetBind (.editTarget e ..) ?_
      split
      · exact ih
      · exact editsDone

theorem setCacheEntriesEdits (r : SetPropertyRequest) (names : List String) :
    (setCacheEntries r names).Edits := by
  induction names with
  | nil => exact editsDone
  | cons name rest ih =>
    unfold setCacheEntries
    refine editsGetBind fun e => ?_
    split
    · exact editsFail _ e
    split
    · exact editsFail _ e
    · exact atSetBind (.cache e _) ih

theorem applyRequestEdits (r : SetPropertyRequest) (scope : PropertyScope) :
    (applyRequest r scope).Edits := by
  unfold applyRequest
  dsimp only
  split
  · split
    · exact editsFail _
    · exact editsBind (editsModify fun _ => .one (.globals _)) fun _ => editsDone
  · split
    · exact editsFail _
    · refine editsBind editsGet fun e => ?_
      split
      · exact editsFail _
      · exact editsBind (editsModify fun e => .editDirectory e _ _ _) fun _ => editsDone
  · exact setTargetsEdits _ _
  · exact setCacheEntriesEdits _ _

theorem setPropertyEdits (words : List String) : (setProperty words).Edits := by
  unfold setProperty
  split
  · exact editsFail _
  split
  · exact editsFail _
  split
  · exact editsFail _
  split
  · exact editsFail _
  · exact applyRequestEdits _ _

theorem answerQuestionEdits (output : String) (scope : PropertyScope) (r : GetPropertyRequest) :
    (answerQuestion output scope r).Edits := by
  unfold answerQuestion
  refine editsBind editsGet fun e => ?_
  dsimp only
  cases r.question with
  | value =>
    dsimp only
    split
    · exact editsFail _
    · exact editsBind (editsModify fun e => .assign e _ _) fun _ => editsDone
  | isSet =>
    dsimp only
    split
    · exact editsFail _
    · exact editsBind (editsDefine _ _) fun _ => editsDone
  | isDeclared => exact editsBind (editsDefine _ _) fun _ => editsDone
  | brief => exact editsBind (editsDefine _ _) fun _ => editsDone
  | full => exact editsBind (editsDefine _ _) fun _ => editsDone

theorem getPropertyEdits (words : List String) : (getProperty words).Edits := by
  unfold getProperty
  split
  · split
    · exact editsFail _
    split
    · exact editsFail _
    split
    · exact editsFail _
    · exact answerQuestionEdits _ _ _
  · exact editsFail _

theorem definePropertyEdits (words : List String) : (defineProperty words).Edits := by
  unfold defineProperty
  split
  · exact editsFail _
  split
  · exact editsFail _
  split
  · exact editsFail _
  split
  · exact editsFail _
  split
  · exact editsFail _
  · exact editsBind (editsModify fun _ => .one (.declarations _)) fun _ => editsDone

theorem readDirectoryEdits (output : String) (id : Nat) (words : List String) :
    (readDirectory output id words).Edits := by
  unfold readDirectory
  split
  · exact editsFail _
  · exact editsFail _
  · exact editsBind editsGet fun e => editsBind (editsDefine _ _) fun _ => editsDone
  · split
    · exact editsFail _
    · exact editsBind editsGet fun e => editsBind (editsDefine _ _) fun _ => editsDone

theorem getDirectoryPropertyEdits (words : List String) :
    (getDirectoryProperty words).Edits := by
  unfold getDirectoryProperty
  split
  · exact editsFail _
  · exact editsFail _
  · exact editsFail _
  · refine editsBind editsGet fun e => ?_
    split
    · exact editsFail _
    · exact readDirectoryEdits _ _ _
  · exact editsBind editsGet fun e => readDirectoryEdits _ _ _

theorem setDirectoryPairsEdits (id : Nat) (words : List String) :
    (setDirectoryPairs id words).Edits := by
  induction words using setDirectoryPairs.induct with
  | case1 value rest => exact editsFail _
  | case2 value rest => exact editsFail _
  | case3 name value rest ordinary known ih =>
    unfold setDirectoryPairs
    rw [if_neg ordinary, if_neg known]
    exact editsBind (editsModify fun e => .editDirectory e _ _ _) fun _ => ih
  | case4 words short =>
    unfold setDirectoryPairs
    split
    · exact absurd rfl (short _ _ _)
    · exact editsDone

theorem setDirectoryPropertiesEdits (words : List String) :
    (setDirectoryProperties words).Edits := by
  unfold setDirectoryProperties
  split
  · exact editsFail _
  split
  · exact editsFail _
  · exact editsBind editsGet fun e => setDirectoryPairsEdits _ _

theorem getCMakePropertyEdits (words : List String) : (getCMakeProperty words).Edits := by
  unfold getCMakeProperty
  split
  · exact editsBind editsGet fun e => editsBind (editsDefine _ _) fun _ => editsDone
  · exact editsFail _

/-! Commands that steer the run -/

theorem misplacedEdits (m : Misplaced) : (misplaced m).Edits := by
  unfold misplaced
  refine editsBind editsGet fun e => ?_
  dsimp only
  split
  · split
    · exact editsDone
    · exact editsFail _
  · split
    · exact editsDone
    · exact editsFail _

theorem removedEdits (text : String) : (removed text).Edits :=
  editsBind (editsModify fun e => .issue e .fatalError (by decide) text) fun _ => editsDone

theorem complainEdits (text : String) : (complain text).Edits := by
  unfold complain
  refine editsBind editsGet fun e => ?_
  split
  · exact editsPure false
  · exact editsBind (editsModify fun e => .issue e .authorWarning (by decide) _) fun _ =>
      editsPure false
  · exact editsBind (editsModify fun e => .issue e .fatalError (by decide) _) fun _ =>
      editsPure true

theorem breakLoopEdits (words : List String) : (breakLoop words).Edits := by
  unfold breakLoop
  have left : Step.Edits (do
      if words.isEmpty then return .transferred .breaking true
      let failed ← complain "The BREAK command does not accept any arguments."
      return .transferred .breaking (!failed) : Step Verdict) := by
    split
    · exact editsPure _
    · exact editsBind (complainEdits _) fun _ => editsPure _
  refine editsBind editsGet fun e => ?_
  dsimp only
  split
  · refine editsBind (complainEdits _) fun failed => ?_
    split
    · exact editsPure _
    · exact left
  · exact left

theorem continueLoopEdits (words : List String) : (continueLoop words).Edits := by
  unfold continueLoop
  refine editsBind editsGet fun e => ?_
  split
  · exact editsFatal _
  split
  · exact editsBind (editsModify fun e => .fatalError e _) fun _ => editsPure _
  · exact editsPure _

theorem returnCallActs (words : List String) : (returnCall words).Acts := by
  unfold returnCall
  split
  · exact actsEdits (editsPure _)
  refine actsBind editsGet fun e => ?_
  split
  · exact actsEdits (editsPure _)
  · exact actsEdits (editsBind (editsModify fun e => .issue e .authorWarning (by decide) _) fun _ =>
      editsPure _)
  · split
    · exact actsEdits (editsPure _)
    · exact actsFailFatally _

theorem exitRunEdits (words : List String) : (exitRun words).Edits := by
  unfold exitRun
  split
  · refine editsBind editsGet fun e => ?_
    split
    · exact editsFatal _
    split
    · exact editsPure _
    · exact editsFatal _
  · exact editsFatal _

theorem showLogLevelEdits (words : List String) : (showLogLevel words).Edits := by
  unfold showLogLevel
  split
  · exact editsBind editsGet fun e => editsBind (editsDefine _ _) fun _ => editsDone
  · exact editsFatal _

/-! Calls put off -/

def DeferOptions.IsNamed (o : DeferOptions) : Prop := ∀ id, o.id = some id → id ≠ ""

theorem deferToEdits (o : DeferOptions) {command : Command} (callable : command.IsCallable)
    (named : o.IsNamed) : (deferTo o command).Edits := by
  unfold deferTo
  refine editsGetBind fun e => ?_
  split
  · exact editsFatal _ e
  case h_2 id e' queued =>
    refine atSetBind (.deferCall callable named queued) ?_
    split
    · exact editsBind (editsDefine _ _) fun _ => editsDone
    · exact editsDone

theorem cancelDeferredEdits (directory : Option String) (ids : List String) :
    (cancelDeferred directory ids).Edits := by
  unfold cancelDeferred
  split
  · exact editsFatal _
  refine editsGetBind fun e => ?_
  split
  · exact editsFatal _ e
  case h_2 e' cancelled => exact atSetBind (.deferCancel cancelled) editsDone

theorem listDeferredEdits (directory : Option String) (words : List String) :
    (listDeferred directory words).Edits := by
  unfold listDeferred
  split
  · exact editsFatal _
  · refine editsGetBind fun e => ?_
    split
    · exact editsFatal _ e
    case h_2 listed =>
      exact atSetBind (.deferIds listed) (editsBind (editsDefine _ _) fun _ => editsDone)
  · exact editsFatal _

theorem showDeferredEdits (directory : Option String) (words : List String) :
    (showDeferred directory words).Edits := by
  unfold showDeferred
  split
  · exact editsFatal _
  · exact editsFatal _
  · split
    · exact editsFatal _
    split
    · exact editsFatal _
    refine editsBind editsGet fun e => ?_
    split
    · exact editsFatal _
    · exact editsBind (editsDefine _ _) fun _ => editsDone
  · exact editsFatal _

theorem askDeferredEdits (directory : Option String) (words : List String) :
    (askDeferred directory words).Edits := by
  unfold askDeferred
  split
  · exact cancelDeferredEdits _ _
  · exact listDeferredEdits _ _
  · exact showDeferredEdits _ _
  · exact editsDone

/-! Reading of the arguments of the language command -/

theorem refuseEdits {α : Type} (text : String) : EditsOrFails (Reading.refuse text : Reading α) :=
  tryBind (tryModify fun e => .fatalError e text) fun _ => tryThrow _

theorem expandEdits (arguments : List Argument) : EditsOrFails (Reading.expand arguments) := by
  unfold Reading.expand
  refine tryBind (tryLift (editsValues arguments)) fun found => ?_
  cases found with
  | some values => exact tryPure values
  | none => exact tryThrow _

theorem fromRawEdits (arguments : List Argument) :
    EditsOrFails (PendingWords.fromRaw arguments) := by
  induction arguments with
  | nil => exact tryPure none
  | cons a rest ih =>
    unfold PendingWords.fromRaw
    refine tryBind (expandEdits [a]) fun words => ?_
    cases words with
    | nil => exact ih
    | cons word ready => exact tryPure _

theorem nextEdits (p : PendingWords) : EditsOrFails p.next := by
  unfold PendingWords.next
  split
  · exact tryPure _
  · exact fromRawEdits _

theorem finishEdits (p : PendingWords) : EditsOrFails p.finish :=
  tryBind (expandEdits p.raw) fun _ => tryPure _

theorem deferValueEdits (option missing : String) (given : Bool) (p : PendingWords) :
    EditsOrFails (deferValue option missing given p) := by
  unfold deferValue
  split
  · exact refuseEdits _
  refine tryBind (nextEdits p) fun found => ?_
  split
  · exact refuseEdits _
  split
  · exact refuseEdits _
  · exact tryPure _

theorem deferOptionsEdits (fuel : Nat) (o : DeferOptions) (p : PendingWords) :
    EditsOrFails (deferOptions fuel o p) := by
  induction fuel generalizing o p with
  | zero => exact refuseEdits _
  | succ fuel ih =>
    unfold deferOptions
    refine tryBind (nextEdits p) fun found => ?_
    split
    · exact refuseEdits _
    split_ifs
    · exact tryPure _
    · exact refuseEdits _
    · exact tryBind (finishEdits _) fun _ => tryPure _
    · refine tryBind (deferValueEdits _ _ _ _) fun found => tryBind tryGet fun e => ih _ _
    · refine tryBind (deferValueEdits _ _ _ _) fun found => ?_
      split
      split
      · exact refuseEdits _
      · exact ih _ _
    · exact tryBind (deferValueEdits _ _ _ _) fun found => ih _ _
    · exact refuseEdits _

theorem readCallEdits (p : PendingWords) (deferred : Option DeferOptions) :
    EditsOrFails (readCall p deferred) := by
  unfold readCall
  refine tryBind (nextEdits p) fun found => ?_
  split
  · exact refuseEdits _
  split
  · exact tryPure _
  · exact refuseEdits _

theorem readLanguageEdits (arguments : List Argument) :
    EditsOrFails (readLanguage arguments) := by
  unfold readLanguage
  refine tryBind (nextEdits _) fun found => ?_
  split
  · exact tryThrow _
  split_ifs
  · exact readCallEdits _ _
  · refine tryBind (nextEdits _) fun found => ?_
    split
    · exact refuseEdits _
    refine tryBind (deferOptionsEdits _ _ _) fun found => ?_
    split
    split
    · exact readCallEdits _ _
    · exact tryPure _
  · exact tryBind (finishEdits _) fun _ => tryPure _

/-! What is read -/

def Reading.Yields {α : Type} (x : Reading α) (P : α → Prop) : Prop :=
  ∀ e, match (x.run e).1 with
    | .ok a => P a
    | .error _ => True

namespace Reading

variable {α β : Type} {P : α → Prop}

theorem yieldsPure {a : α} (good : P a) : Yields (pure a) P := fun _ => good

theorem yieldsBind {x : Reading β} {k : β → Reading α} {Q : β → Prop} (first : Yields x Q)
    (rest : ∀ b, Q b → Yields (k b) P) : Yields (x >>= k) P := by
  intro e
  have known := first e
  have run {f : Except Verdict β → Step (Except Verdict α)} :
      (x.run >>= f) e = f (x.run e).1 (x.run e).2 := rfl
  rw [ExceptT.run_bind, run]
  cases found : (x.run e).1 with
  | ok b =>
    rw [found] at known
    exact rest b known _
  | error => trivial

theorem yieldsAny (x : Reading α) : Yields x fun _ => True := by
  intro e
  split <;> trivial

theorem yieldsRefuse (text : String) : Yields (refuse text : Reading α) P := fun _ => trivial

end Reading
open Reading

theorem deferValueNamed (option missing : String) (given : Bool) (p : PendingWords) :
    Yields (deferValue option missing given p) fun found => found.1 ≠ "" := by
  unfold deferValue
  split
  · exact yieldsRefuse _
  refine yieldsBind (yieldsAny _) fun found _ => ?_
  split
  · exact yieldsRefuse _
  split
  · exact yieldsRefuse _
  case h_2.isFalse named => exact yieldsPure (by simpa using named)

theorem deferOptionsNamed (fuel : Nat) {o : DeferOptions} (named : o.IsNamed) (p : PendingWords) :
    Yields (deferOptions fuel o p) fun found => found.1.IsNamed := by
  induction fuel generalizing o p with
  | zero => exact yieldsRefuse _
  | succ fuel ih =>
    unfold deferOptions
    refine yieldsBind (yieldsAny _) fun found _ => ?_
    split
    · exact yieldsRefuse _
    split_ifs
    · exact yieldsPure named
    · exact yieldsRefuse _
    · exact yieldsBind (yieldsAny _) fun _ _ => yieldsPure named
    · exact yieldsBind (yieldsAny _) fun _ _ => yieldsBind (yieldsAny _) fun _ _ =>
        ih (by exact named) _
    · refine yieldsBind (deferValueNamed _ _ _ _) fun found given => ?_
      dsimp only
      split
      · exact yieldsRefuse _
      · refine ih (fun id same => ?_) _
        rw [← Option.some.inj same]
        exact given
    · exact yieldsBind (yieldsAny _) fun _ _ => ih (by exact named) _
    · exact yieldsRefuse _

def LanguageRequest.IsNamed : LanguageRequest → Prop
  | .call _ _ (some options) => options.IsNamed
  | _ => True

theorem readCallNamed (p : PendingWords) {deferred : Option DeferOptions}
    (named : ∀ options, deferred = some options → options.IsNamed) :
    Yields (readCall p deferred) LanguageRequest.IsNamed := by
  unfold readCall
  refine yieldsBind (yieldsAny _) fun found _ => ?_
  split
  · exact yieldsRefuse _
  split
  · refine yieldsPure ?_
    cases deferred with
    | none => trivial
    | some options => exact named options rfl
  · exact yieldsRefuse _

theorem readLanguageNamed (arguments : List Argument) :
    Yields (readLanguage arguments) LanguageRequest.IsNamed := by
  unfold readLanguage
  refine yieldsBind (yieldsAny _) fun found _ => ?_
  split
  · exact fun _ => trivial
  split_ifs
  · exact readCallNamed _ nofun
  · refine yieldsBind (yieldsAny _) fun found _ => ?_
    split
    · exact yieldsRefuse _
    refine yieldsBind (deferOptionsNamed 4 (o := {}) nofun _) fun found named => ?_
    split
    split
    · exact readCallNamed _ fun _ same => Option.some.inj same ▸ named
    · exact yieldsPure trivial
  · exact yieldsBind (yieldsAny _) fun _ _ => yieldsPure trivial

end Command
end CMakeScript
