import CMakeScript.Execution.LoopRounds
import CMakeScript.Proofs.OpenState
/-! Words of loops over things. A loop that is given by its words is opened for them, and each one
that is opened is given so, unless it has no variable. -/
namespace CMakeScript

namespace Loop.Part

def ofWords : Command.LoopPart → List String → Part
  | .lists, words => .lists words
  | _, words => .items words

theorem valuesCons (e : Engine) (part : Command.LoopPart) (word : String) (words : List String) :
    (ofWords part (word :: words)).values e =
      (ofWords part [word]).values e ++ (ofWords part words).values e := by
  cases part <;> simp [ofWords, values]

end Loop.Part
namespace Command

variable {e : Engine} {part : LoopPart} {word : String} {rest : List String}

theorem loopValuesPlain (plain : word ∉ Loop.keywords) (named : part ≠ .nothing)
    (rest : List String) : loopValues e part (word :: rest) = (loopValues e part rest).map
      fun found => ((Loop.Part.ofWords part [word]).values e ++ found.1, found.2) := by
  simp only [Loop.keywords, List.mem_cons, List.not_mem_nil, or_false, not_or] at plain
  cases further : loopValues e part rest <;> cases part <;>
    simp_all [loopValues, bind, Except.bind, Except.map, Loop.Part.ofWords, Loop.Part.values]

theorem loopValuesGiven (named : part ≠ .nothing) {words : List String}
    (plain : ∀ word ∈ words, word ∉ Loop.keywords) {found : List String × Bool}
    (behind : loopValues e part rest = .ok found) : loopValues e part (words ++ rest) =
      .ok ((Loop.Part.ofWords part words).values e ++ found.1, found.2) := by
  induction words with
  | nil =>
    rw [List.nil_append, behind]
    cases part <;> rfl
  | cons word words ih =>
    rw [List.cons_append, loopValuesPlain (plain word (List.mem_cons_self ..)) named,
      ih fun word member => plain word (List.mem_cons_of_mem _ member),
      Loop.Part.valuesCons e part word words]
    simp [Except.map]

theorem loopValuesParts (unzipped : part ≠ .zip) {parts : List Loop.Part}
    (plain : ∀ part ∈ parts, ∀ word ∈ part.given, word ∉ Loop.keywords) :
    loopValues e part (parts.flatMap Loop.Part.words) =
      .ok (parts.flatMap (Loop.Part.values e), false) := by
  induction parts generalizing part with
  | nil => cases part <;> first | rfl | exact absurd rfl unzipped
  | cons first parts ih =>
    obtain ⟨here, later⟩ := List.forall_mem_cons.mp plain
    rw [List.flatMap_cons, List.flatMap_cons]
    cases first with
    | lists names =>
      exact (if_pos (.inl rfl)).trans ((if_neg unzipped).trans
        (loopValuesGiven (by decide : LoopPart.lists ≠ .nothing) here (ih nofun later)))
    | items words =>
      exact (if_pos (.inr rfl)).trans ((if_neg unzipped).trans
        (loopValuesGiven (by decide : LoopPart.items ≠ .nothing) here (ih nofun later)))

theorem loopValuesZipped {lists : List String} (plain : ∀ list ∈ lists, list ∉ Loop.keywords) :
    loopValues e .nothing ("ZIP_LISTS" :: lists) = .ok (lists, true) := by
  have ended : loopValues e .zip [] = .ok ([], true) := rfl
  have given := loopValuesGiven (by decide) plain ended
  simpa [loopValues, Loop.Part.ofWords, Loop.Part.values] using given

theorem foreachLoopIn {names : List String} (others : "IN" ∉ names) (words : List String) :
    foreachLoop (names ++ "IN" :: words) = foreachIn names words := by
  have found : (names ++ "IN" :: words).contains "IN" = true := by simp
  have apart : ∀ name ∈ names, (name != "IN") = true := fun name member => by
    have other : name ≠ "IN" := by
      rintro rfl
      exact others member
    simpa using other
  have before : (names ++ "IN" :: words).takeWhile (· != "IN") = names := by
    rw [List.takeWhile_append_of_pos apart]
    simp
  have behind : (names ++ "IN" :: words).dropWhile (· != "IN") = "IN" :: words := by
    rw [List.dropWhile_append_of_pos apart]
    simp
  unfold foreachLoop
  rw [if_pos found, before, behind, List.tail_cons]

theorem foreachInGiven {names words values : List String} {zip : Bool} (others : "IN" ∉ names)
    (known : loopValues e .nothing words = .ok (values, zip))
    (single : 1 < names.length → zip = true ∧ values.length = names.length) :
    foreachLoop (names ++ "IN" :: words) e =
      (.done, e.openLoop.openBlock (.foreachLoop (names ++ values) names.length zip) "foreach"
        "endforeach") := by
  rw [foreachLoopIn others]
  unfold foreachIn
  dsimp only [bind, StateT.bind, get, getThe, MonadStateOf.get, StateT.get, pure]
  rw [known]
  dsimp only
  by_cases several : 1 < names.length
  · obtain ⟨rfl, paired⟩ := single several
    rw [if_neg (by simp), if_neg (by omega)]
    rfl
  · rw [if_neg fun both => several both.1, if_neg fun both => several both.1]
    rfl

theorem givenOpens {words : List String} {loop : Loop} {block : Block}
    (given : Loop.Given e words loop block) :
    foreachLoop words e = (.done, e.openLoop.openBlock block "foreach" "endforeach") := by
  cases given with
  | @plain name items others unranged =>
    suffices opens : foreachLoop (name :: items) = openForeach (name :: items) 1 false from
      congrFun opens e
    unfold foreachLoop
    rw [if_neg (by simpa using others)]
    split
    case h_1 none => cases none
    case h_2 ranged =>
      cases ranged
      exact absurd rfl unranged
    case h_3 => rfl
  | @range name bounds numbers others range =>
    unfold foreachLoop
    rw [if_neg (by simpa using others)]
    simp only [range]
    rfl
  | @named name parts other plain =>
    have others : "IN" ∉ [name] := by simpa using other.symm
    have known := loopValuesParts (e := e) (by decide : LoopPart.nothing ≠ .zip) plain
    exact foreachInGiven others known fun several => absurd several (by simp)
  | @unnamed name items parts plain values =>
    have known := loopValuesParts (e := e) (by decide : LoopPart.nothing ≠ .zip) plain
    rw [values] at known
    exact foreachInGiven List.not_mem_nil known nofun
  | @zipped names lists others plain paired =>
    exact foreachInGiven others (loopValuesZipped plain) fun several => ⟨rfl, paired several⟩

theorem loopValuesCons {values : List String} {zip : Bool}
    (known : loopValues e part (word :: rest) = .ok (values, zip)) :
    (part ≠ .zip ∧ (word = "LISTS" ∧ loopValues e .lists rest = .ok (values, zip) ∨
      word = "ITEMS" ∧ loopValues e .items rest = .ok (values, zip))) ∨
    (part = .nothing ∧ word = "ZIP_LISTS" ∧ loopValues e .zip rest = .ok (values, zip)) ∨
    (part ≠ .nothing ∧ word ∉ Loop.keywords ∧ ∃ more, loopValues e part rest = .ok (more, zip) ∧
      values = (Loop.Part.ofWords part [word]).values e ++ more) := by
  by_cases plain : word ∈ Loop.keywords
  · simp only [Loop.keywords, List.mem_cons, List.not_mem_nil, or_false] at plain
    unfold loopValues at known
    obtain rfl | rfl | rfl := plain
    · rw [if_pos (.inl rfl), if_pos rfl] at known
      split at known
      case isTrue => cases known
      case isFalse unzipped => exact .inl ⟨unzipped, .inl ⟨rfl, known⟩⟩
    · rw [if_pos (.inr rfl), if_neg (by decide : ¬"ITEMS" = "LISTS")] at known
      split at known
      case isTrue => cases known
      case isFalse unzipped => exact .inl ⟨unzipped, .inr ⟨rfl, known⟩⟩
    · rw [if_neg (by decide), if_pos rfl] at known
      split at known
      case isTrue first => exact .inr (.inl ⟨first, rfl, known⟩)
      case isFalse => cases known
  · by_cases named : part = .nothing
    · simp only [Loop.keywords, List.mem_cons, List.not_mem_nil, or_false, not_or] at plain
      simp [loopValues, plain, named] at known
    · rw [loopValuesPlain plain named] at known
      cases further : loopValues e part rest with
      | error reason =>
        rw [further] at known
        cases known
      | ok found =>
        rw [further] at known
        cases known
        exact .inr (.inr ⟨named, plain, _, rfl, rfl⟩)

theorem loopValuesZip {words values : List String}
    (known : loopValues e part words = .ok (values, true)) :
    (∀ value ∈ values, value ∉ Loop.keywords) ∧
      (part = .zip ∧ words = values ∨ part = .nothing ∧ words = "ZIP_LISTS" :: values) := by
  induction words generalizing part values with
  | nil =>
    cases part <;> cases known
    exact ⟨nofun, .inl ⟨rfl, rfl⟩⟩
  | cons word rest ih =>
    obtain ⟨-, ⟨-, read⟩ | ⟨-, read⟩⟩ | ⟨rfl, rfl, read⟩ | ⟨named, here, more, read, rfl⟩ :=
      loopValuesCons known
    · obtain ⟨-, wrong | wrong⟩ := ih read <;> cases wrong.1
    · obtain ⟨-, wrong | wrong⟩ := ih read <;> cases wrong.1
    · obtain ⟨plain, zipped | wrong⟩ := ih read
      · exact ⟨plain, .inr ⟨rfl, congrArg _ zipped.2⟩⟩
      · cases wrong.1
    · obtain ⟨plain, ⟨rfl, rfl⟩ | wrong⟩ := ih read
      · exact ⟨List.forall_mem_cons.mpr ⟨here, plain⟩, .inl ⟨rfl, rfl⟩⟩
      · exact absurd wrong.1 named

theorem loopValuesUnzipped {words values : List String}
    (known : loopValues e part words = .ok (values, false)) :
    part ≠ .zip ∧ ∃ (lead : List String) (parts : List Loop.Part),
      words = lead ++ parts.flatMap Loop.Part.words ∧ (part = .nothing → lead = []) ∧
      values = (Loop.Part.ofWords part lead).values e ++ parts.flatMap (Loop.Part.values e) ∧
      (∀ word ∈ lead, word ∉ Loop.keywords) ∧
      ∀ part ∈ parts, ∀ word ∈ part.given, word ∉ Loop.keywords := by
  induction words generalizing part values with
  | nil =>
    cases part <;> cases known <;>
      exact ⟨nofun, [], [], rfl, fun _ => rfl, rfl, nofun, nofun⟩
  | cons word rest ih =>
    have none : (Loop.Part.ofWords part []).values e = [] := by cases part <;> rfl
    obtain ⟨unzipped, ⟨rfl, read⟩ | ⟨rfl, read⟩⟩ | ⟨-, -, read⟩ |
      ⟨named, here, more, read, rfl⟩ := loopValuesCons known
    · obtain ⟨-, lead, parts, rfl, -, rfl, plain, plains⟩ := ih read
      refine ⟨unzipped, [], .lists lead :: parts, rfl, fun _ => rfl, ?_, nofun,
        List.forall_mem_cons.mpr ⟨plain, plains⟩⟩
      rw [none]
      rfl
    · obtain ⟨-, lead, parts, rfl, -, rfl, plain, plains⟩ := ih read
      refine ⟨unzipped, [], .items lead :: parts, rfl, fun _ => rfl, ?_, nofun,
        List.forall_mem_cons.mpr ⟨plain, plains⟩⟩
      rw [none]
      rfl
    · exact absurd rfl (ih read).1
    · obtain ⟨unzipped, lead, parts, rfl, -, rfl, plain, plains⟩ := ih read
      refine ⟨unzipped, word :: lead, parts, rfl, fun none => absurd none named, ?_,
        List.forall_mem_cons.mpr ⟨here, plain⟩, plains⟩
      rw [Loop.Part.valuesCons e part word lead, List.append_assoc]

theorem fatalOpensNone (reason : String) : (Step.fatal reason e).2.blocks = e.blocks :=
  (Engine.SameOpen.edits (.fatalError e reason)).blocks

theorem foreachInOpened {names words : List String} (others : "IN" ∉ names)
    (opened : (foreachIn names words e).2.blocks ≠ e.blocks) : ∃ block,
      (block = .foreachLoop [] 0 false ∨ ∃ loop, Loop.Given e (names ++ "IN" :: words) loop block) ∧
      foreachIn names words e = (.done, e.openLoop.openBlock block "foreach" "endforeach") := by
  unfold foreachIn at opened ⊢
  dsimp only [bind, StateT.bind, get, getThe, MonadStateOf.get, StateT.get, pure] at opened ⊢
  cases known : loopValues e .nothing words with
  | error reason =>
    rw [known] at opened
    exact absurd (fatalOpensNone reason) opened
  | ok found =>
    obtain ⟨values, zip⟩ := found
    rw [known] at opened
    dsimp only at opened ⊢
    by_cases mixed : 1 < names.length ∧ !zip
    · rw [if_pos mixed] at opened
      exact absurd (fatalOpensNone _) opened
    rw [if_neg mixed] at opened ⊢
    by_cases unpaired : 1 < names.length ∧ values.length ≠ names.length
    · rw [if_pos unpaired] at opened
      exact absurd (fatalOpensNone _) opened
    rw [if_neg unpaired]
    refine ⟨_, ?_, rfl⟩
    cases zip with
    | true =>
      obtain ⟨plain, wrong | ⟨-, rfl⟩⟩ := loopValuesZip known
      · cases wrong.1
      · exact .inr ⟨_, .zipped others plain fun several => by tauto⟩
    | false =>
      obtain ⟨-, lead, parts, rfl, none, rfl, -, plain⟩ := loopValuesUnzipped known
      obtain rfl := none rfl
      have values : (Loop.Part.ofWords .nothing []).values e ++ parts.flatMap (Loop.Part.values e) =
          parts.flatMap (Loop.Part.values e) := rfl
      rw [values]
      match names with
      | [] =>
        cases same : parts.flatMap (Loop.Part.values e) with
        | nil => exact .inl rfl
        | cons name items => exact .inr ⟨_, .unnamed plain same⟩
      | [name] => exact .inr ⟨_, .named (by rintro rfl; exact others List.mem_cons_self) plain⟩
      | first :: second :: more => exact absurd ⟨by simp, rfl⟩ mixed

theorem openedGiven {words : List String} (opened : (foreachLoop words e).2.blocks ≠ e.blocks) :
    ∃ block, (block = .foreachLoop [] 0 false ∨ ∃ loop, Loop.Given e words loop block) ∧
      foreachLoop words e = (.done, e.openLoop.openBlock block "foreach" "endforeach") := by
  by_cases inside : "IN" ∈ words
  · obtain ⟨names, behind, rfl, others⟩ := List.eq_append_cons_of_mem inside
    rw [foreachLoopIn others] at opened ⊢
    exact foreachInOpened others opened
  · match words with
    | [] => exact absurd rfl opened
    | [name] =>
      have given : Loop.Given e [name] _ _ := .plain inside nofun
      exact ⟨_, .inr ⟨_, given⟩, givenOpens given⟩
    | name :: first :: rest =>
      by_cases ranged : first = "RANGE"
      · subst ranged
        cases range : rangeOf rest with
        | error reason =>
          unfold foreachLoop at opened
          rw [if_neg (by simpa using inside)] at opened
          simp only [range] at opened
          exact absurd rfl opened
        | ok numbers =>
          have given : Loop.Given e (name :: "RANGE" :: rest) _ _ := .range (by simp_all) range
          exact ⟨_, .inr ⟨_, given⟩, givenOpens given⟩
      · have given : Loop.Given e (name :: first :: rest) _ _ :=
          .plain inside (by simpa using ranged)
        exact ⟨_, .inr ⟨_, given⟩, givenOpens given⟩

end Command
end CMakeScript
