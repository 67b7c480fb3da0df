import CMakeScript.Proofs.ConditionEdits
import CMakeScript.Proofs.CurrentScope
import Mathlib.Data.List.Induction
/-! The variables of the last match. An operation empties them as far as their count goes, and then
stores its matches one after the other. Groups of the last match are right after it. One that is not
in it stays as an earlier match of the same operation left it. -/
namespace CMakeScript

abbrev Captures := Nat → Option String

namespace Captures

variable {g : Captures} {found : List Captures} {i n : Nat} {text : String}

/-- What a group holds, unless it has no part in the match or is empty. -/
def text? (g : Captures) (i : Nat) : Option String := (g i).filter (!·.isEmpty)

theorem textSome (holds : g.text? i = some text) : g i = some text ∧ text ≠ "" := by
  obtain ⟨same, filled⟩ := Option.filter_eq_some_iff.mp holds
  exact ⟨same, by simpa using filled⟩

theorem textNone (blank : g.text? i = none) : (g i).getD "" = "" := by
  cases same : g i with
  | none => rfl
  | some text => simpa [text?, same, Option.filter] using blank

def highest (g : Captures) : Nat → Nat
  | 0 => 0
  | n + 1 => if (g.text? n).isSome then n else g.highest n

theorem highestBelow (g : Captures) (n : Nat) : g.highest (n + 1) ≤ n := by
  induction n with
  | zero => simp [highest]
  | succ n ih =>
    rw [highest]
    split
    case isTrue => exact Nat.le_refl _
    case isFalse => exact Nat.le_succ_of_le ih

theorem highestReaches (inside : i < n) (holds : (g.text? i).isSome) : i ≤ g.highest n := by
  induction n with
  | zero => cases inside
  | succ n ih =>
    rw [highest]
    split
    case isTrue => exact Nat.le_of_lt_succ inside
    case isFalse none =>
      refine ih (Nat.lt_of_le_of_ne (Nat.le_of_lt_succ inside) ?_)
      rintro rfl
      exact none holds

/-- What a group holds in the last of the matches in which it holds a text. -/
def last? (found : List Captures) (i : Nat) : Option String := found.reverse.findSome? (·.text? i)

theorem lastAppend (found : List Captures) (g : Captures) (i : Nat) :
    last? (found ++ [g]) i = (g.text? i).or (last? found i) := by
  cases holds : g.text? i <;> simp [last?, holds]

theorem lastNone : last? found i = none ↔ ∀ g ∈ found, g.text? i = none := by
  simp [last?]

theorem lastFilled (holds : last? found i = some text) : text ≠ "" := by
  obtain ⟨g, -, here⟩ := List.exists_of_findSome?_eq_some holds
  exact (textSome here).2

/-- A group that holds a text in any of the matches holds one in the last of them. -/
def Covers (found : List Captures) (i : Nat) : Prop :=
  ∀ g ∈ found, (g.text? i).isSome → ∃ last ∈ found.getLast?, (last.text? i).isSome

theorem coversFew (few : found.length ≤ 1) (i : Nat) : Covers found i := by
  intro g member holds
  obtain rfl : found = [g] := by
    match found, few, member with
    | [_], _, member => rw [List.mem_singleton.mp member]
  exact ⟨g, rfl, holds⟩

theorem coversAll (all : ∀ g ∈ found, (g.text? i).isSome) : Covers found i := by
  intro g member holds
  cases last : found.getLast? with
  | none =>
    rw [List.getLast?_eq_none_iff.mp last] at member
    cases member
  | some last' => exact ⟨last', rfl, all last' (List.mem_of_getLast? last)⟩

theorem lastShows :
    (last? found i).getD "" = (found.getLast?.bind (· i)).getD "" ↔ Covers found i := by
  induction found using List.reverseRecOn with
  | nil => exact iff_of_true rfl nofun
  | append_singleton found g _ =>
    rw [lastAppend, List.getLast?_concat, Option.bind_some]
    cases here : g.text? i with
    | some text =>
      refine iff_of_true ?_ fun _ _ _ => ⟨g, List.getLast?_concat, by simp [here]⟩
      rw [(textSome here).1]
      rfl
    | none =>
      have blank : (last? found i).getD "" = "" ↔ ∀ g ∈ found, g.text? i = none := by
        rw [← lastNone]
        cases before : last? found i with
        | none => exact iff_of_true rfl rfl
        | some text => exact iff_of_false (lastFilled before) (Option.some_ne_none text)
      rw [Option.none_or, textNone here, blank]
      simp [Covers, here, or_imp, forall_and]

end Captures
namespace Engine

variable {e e' : Engine} {i n reach : Nat} {texts : Nat → String}

def matchVariables : List String := "CMAKE_MATCH_COUNT" :: (List.range 10).map matchName

theorem matchNamesApart : ∀ i < 10, ∀ j < 10, matchName i = matchName j → i = j := by
  decide +kernel

theorem matchCountApart : ∀ i < 10, matchName i ≠ "CMAKE_MATCH_COUNT" := by decide +kernel

theorem matchCountRead :
    ∀ h < 10, (Text.natBelow? (Text.bitBound 64) (Text.decimal h).toList).getD 0 = h := by
  decide +kernel

def matchReach (e : Engine) : Nat :=
  match e.definition? "CMAKE_MATCH_COUNT" with
  | none => 0
  | some text => min ((Text.natBelow? (Text.bitBound 64) text.toList).getD 0) 9 + 1

structure Groups (e : Engine) (texts : Nat → String) (reach : Nat) : Prop where
  writable : e.Writable
  texts : ∀ i < 10, e.value (matchName i) = texts i
  reach : e.matchReach = reach

def clearGroup (e : Engine) (i : Nat) : Engine :=
  if (e.definition? (matchName i)).any (!·.isEmpty) then e.define (matchName i) "" else e

def storeGroup (g : Captures) (s : Engine × Nat) (i : Nat) : Engine × Nat :=
  match g.text? i with
  | some text => (s.1.define (matchName i) text, i)
  | none => s

theorem storeGroupsEach (e : Engine) (g : Captures) :
    e.storeGroups g =
      let s := (List.range 10).foldl (storeGroup g) (e, 0)
      s.1.define "CMAKE_MATCH_COUNT" (Text.decimal s.2) := by
  have each : (fun (s : Engine × Nat) i =>
      match g i with
      | some text => if text.isEmpty then s else (s.1.define (matchName i) text, i)
      | none => s) = storeGroup g := by
    funext s i
    unfold storeGroup Captures.text?
    cases g i with
    | none => rfl
    | some text => by_cases blank : text.isEmpty <;> simp [Option.filter, blank]
  rw [← each]
  rfl

namespace Groups

theorem of (writable : e.Writable) : e.Groups (fun i => e.value (matchName i)) e.matchReach :=
  ⟨writable, fun _ _ => rfl, rfl⟩

theorem congr (groups : e.Groups texts reach) {texts' : Nat → String}
    (same : ∀ i < 10, texts' i = texts i) : e.Groups texts' reach :=
  ⟨groups.writable, fun i inside => (groups.texts i inside).trans (same i inside).symm,
    groups.reach⟩

theorem define (groups : e.Groups texts reach) (inside : i < 10) (text : String) :
    (e.define (matchName i) text).Groups (fun j => if j = i then text else texts j) reach where
  writable := groups.writable.define ..
  texts j there := by
    split
    case isTrue same => rw [same, value, groups.writable.shows, Option.getD_some]
    case isFalse different =>
      rw [value, definitionDefineOther e fun same =>
        different (matchNamesApart i inside j there same).symm]
      exact groups.texts j there
  reach := by
    rw [matchReach, definitionDefineOther e (matchCountApart i inside)]
    exact groups.reach

theorem count (groups : e.Groups texts reach) {h : Nat} (few : h < 10) :
    (e.define "CMAKE_MATCH_COUNT" (Text.decimal h)).Groups texts (h + 1) where
  writable := groups.writable.define ..
  texts i inside := by
    rw [value, definitionDefineOther e (matchCountApart i inside).symm]
    exact groups.texts i inside
  reach := by
    rw [matchReach, groups.writable.shows]
    dsimp only
    rw [matchCountRead h few, Nat.min_eq_left (Nat.le_of_lt_succ few)]

theorem clearGroup (groups : e.Groups texts reach) (inside : i < 10) :
    (e.clearGroup i).Groups (fun j => if j = i then "" else texts j) reach := by
  unfold Engine.clearGroup
  split
  case isTrue => exact groups.define inside ""
  case isFalse blank =>
    refine groups.congr fun j _ => ?_
    split
    case isTrue same =>
      rw [same, ← groups.texts i inside, value]
      cases found : e.definition? (matchName i) with
      | none => rfl
      | some text =>
        rw [found, Option.any_some] at blank
        simpa using blank
    case isFalse => rfl

theorem clearGroups (groups : e.Groups texts reach) (few : n ≤ 10) :
    ((List.range n).foldl Engine.clearGroup e).Groups (fun i => if i < n then "" else texts i)
      reach := by
  induction n with
  | zero => exact groups
  | succ n ih =>
    rw [List.range_succ, List.foldl_append]
    refine ((ih (Nat.le_of_succ_le few)).clearGroup few).congr fun i _ => ?_
    by_cases last : i = n
    · simp [last]
    · simp only [Nat.lt_succ_iff_lt_or_eq, last, or_false, if_false]

theorem clearMatches (groups : e.Groups texts reach) :
    e.clearMatches.Groups (fun i => if i < reach then "" else texts i) (min reach 1) := by
  have known := groups.reach
  unfold Engine.clearMatches
  unfold matchReach at known
  cases counted : e.definition? "CMAKE_MATCH_COUNT" with
  | none =>
    rw [counted] at known
    cases known
    exact groups
  | some text =>
    rw [counted] at known
    cases known
    have few : min ((Text.natBelow? (Text.bitBound 64) text.toList).getD 0) 9 + 1 ≤ 10 :=
      Nat.succ_le_succ (Nat.min_le_right ..)
    rw [Nat.min_eq_right (Nat.succ_pos _), show "0" = Text.decimal 0 from rfl]
    exact (groups.clearGroups few).count (Nat.succ_pos 9)

theorem storeEach (groups : e.Groups texts reach) (g : Captures) (few : n ≤ 10) :
    ((List.range n).foldl (storeGroup g) (e, 0)).1.Groups
        (fun i => if i < n then (g.text? i).getD (texts i) else texts i) reach ∧
      ((List.range n).foldl (storeGroup g) (e, 0)).2 = g.highest n := by
  induction n with
  | zero => exact ⟨groups, rfl⟩
  | succ n ih =>
    obtain ⟨stored, highest⟩ := ih (Nat.le_of_succ_le few)
    rw [List.range_succ, List.foldl_append, List.foldl_cons, List.foldl_nil, storeGroup,
      Captures.highest]
    cases here : g.text? n with
    | none =>
      refine ⟨stored.congr fun i _ => ?_, highest⟩
      by_cases last : i = n
      · subst last
        simp [here]
      · simp only [Nat.lt_succ_iff_lt_or_eq, last, or_false]
    | some text =>
      refine ⟨(stored.define few text).congr fun i _ => ?_, rfl⟩
      by_cases last : i = n
      · subst last
        simp [here]
      · simp only [Nat.lt_succ_iff_lt_or_eq, last, or_false, if_false]

theorem storeGroups (groups : e.Groups texts reach) (g : Captures) :
    (e.storeGroups g).Groups (fun i => (g.text? i).getD (texts i)) (g.highest 10 + 1) := by
  obtain ⟨stored, highest⟩ := groups.storeEach g (Nat.le_refl 10)
  rw [storeGroupsEach]
  dsimp only
  rw [highest]
  exact (stored.count (Nat.lt_succ_of_le (g.highestBelow 9))).congr fun i inside =>
    (if_pos inside).symm

theorem storeAll (groups : e.Groups texts reach) (found : List Captures) :
    (found.foldl Engine.storeGroups e).Groups
      (fun i => (Captures.last? found i).getD (texts i))
      (found.getLast?.elim reach fun g => g.highest 10 + 1) := by
  induction found using List.reverseRecOn with
  | nil => exact groups
  | append_singleton found g ih =>
    rw [List.foldl_append, List.getLast?_concat]
    refine (ih.storeGroups g).congr fun i _ => ?_
    rw [Captures.lastAppend]
    cases g.text? i <;> rfl

end Groups

def matched (e : Engine) (found : List Captures) : Engine :=
  found.foldl storeGroups e.clearMatches

/-- A run from a state without variables of a match, and the matches of its operations, the last one
first. Nothing else in it writes these variables. -/
inductive MatchRun : Engine → List (List Captures) → Prop
  | start {e : Engine} (writable : e.Writable)
      (absent : ∀ name ∈ matchVariables, e.definition? name = none) : MatchRun e []
  | aside {e e' : Engine} {ops : List (List Captures)} (run : MatchRun e ops)
      (writable : e'.Writable)
      (same : ∀ name ∈ matchVariables, e'.definition? name = e.definition? name) : MatchRun e' ops
  | operation {e : Engine} {ops : List (List Captures)} (run : MatchRun e ops)
      (found : List Captures) (whole : ∀ g ∈ found, (g.text? 0).isSome) :
      MatchRun (e.matched found) (found :: ops)

theorem matchedGroups (writable : e.Writable) (found : List Captures) :
    (e.matched found).Groups
      (fun i => (Captures.last? found i).getD
        (if i < e.matchReach then "" else e.value (matchName i)))
      (found.getLast?.elim (min e.matchReach 1) fun g => g.highest 10 + 1) :=
  (Groups.of writable).clearMatches.storeAll found

theorem matchNameVariable (inside : i < 10) : matchName i ∈ matchVariables :=
  List.mem_cons_of_mem _ (List.mem_map_of_mem (List.mem_range.mpr inside))

structure GroupFollows (e : Engine) (ops : List (List Captures)) (i : Nat) : Prop where
  cleared : (∀ found ∈ ops, Captures.Covers found i) → e.matchReach ≤ i →
    e.value (matchName i) = ""
  present : ∀ found ∈ ops.head?, ∀ last ∈ found.getLast?, ∀ text ∈ last.text? i,
    e.value (matchName i) = text
  shows : (∀ found ∈ ops.tail, Captures.Covers found i) →
    e.value (matchName i) = (Captures.last? (ops.headD []) i).getD ""

namespace GroupFollows

variable {ops : List (List Captures)}

theorem same (follows : e.GroupFollows ops i)
    (value : e'.value (matchName i) = e.value (matchName i))
    (reach : e'.matchReach = e.matchReach) : e'.GroupFollows ops i where
  cleared := by
    rw [value, reach]
    exact follows.cleared
  present := by
    rw [value]
    exact follows.present
  shows := by
    rw [value]
    exact follows.shows

theorem matched (follows : e.GroupFollows ops i) (writable : e.Writable) (inside : i < 10)
    (found : List Captures) : (e.matched found).GroupFollows (found :: ops) i := by
  have groups := matchedGroups writable found
  have value := groups.texts i inside
  have shows (covered : ∀ earlier ∈ ops, Captures.Covers earlier i) :
      (e.matched found).value (matchName i) = (Captures.last? found i).getD "" := by
    rw [value]
    split
    case isTrue => rfl
    case isFalse beyond => rw [follows.cleared covered (Nat.le_of_not_lt beyond)]
  refine ⟨fun covered beyond => ?cleared, ?present, shows⟩
  case cleared =>
    obtain ⟨here, before⟩ := List.forall_mem_cons.mp covered
    rw [shows before]
    cases holds : Captures.last? found i with
    | none => rfl
    | some text =>
      obtain ⟨g, member, has⟩ := List.exists_of_findSome?_eq_some holds
      obtain ⟨last, isLast, partakes⟩ := here g (List.mem_reverse.mp member) (by simp [has])
      have reach := groups.reach
      rw [isLast, Option.elim_some] at reach
      have reaches := last.highestReaches inside partakes
      omega
  case present =>
    rintro _ ⟨⟩ last isLast text has
    obtain ⟨before, rfl⟩ := List.getLast?_eq_some_iff.mp isLast
    rw [value, Captures.lastAppend, has]
    rfl

end GroupFollows

namespace MatchRun

variable {ops : List (List Captures)} {found : List Captures}

theorem writable (run : MatchRun e ops) : e.Writable := by
  induction run with
  | start writable | aside _ writable => exact writable
  | operation _ found _ ih => exact (matchedGroups ih found).writable

theorem follows (run : MatchRun e ops) (inside : i < 10) : e.GroupFollows ops i := by
  induction run with
  | @start e writable absent =>
    have blank : e.value (matchName i) = "" := by
      rw [value, absent _ (matchNameVariable inside)]
      rfl
    exact ⟨fun _ _ => blank, nofun, fun _ => blank⟩
  | @aside e e' ops run writable same ih =>
    refine ih.same ?_ ?_
    · rw [value, same _ (matchNameVariable inside)]
      rfl
    · rw [matchReach, same _ List.mem_cons_self]
      rfl
  | operation run found whole ih => exact ih.matched run.writable inside found

theorem whole (run : MatchRun e ops) : ∀ found ∈ ops, ∀ g ∈ found, (g.text? 0).isSome := by
  induction run with
  | start => nofun
  | aside _ _ _ ih => exact ih
  | operation _ found whole ih => exact List.forall_mem_cons.mpr ⟨whole, ih⟩

theorem define (run : MatchRun e ops) {name : String} (other : name ∉ matchVariables)
    (value : String) : MatchRun (e.define name value) ops := by
  refine run.aside (run.writable.define name value) fun variable' member => ?_
  refine definitionDefineOther e ?_ value
  rintro rfl
  exact other member

end MatchRun

theorem textOfSpares (s : Condition.Setting) (w : Word) (e : Engine) (name : String) :
    (Condition.textOf s w e).2.definition? name = e.definition? name := by
  have warned (detail : String) :
      (Condition.warnQuoted s detail e).2.definition? name = e.definition? name := by
    unfold Condition.warnQuoted
    rw [Step.bindRan (s := get) (e := e) rfl]
    split
    case isTrue => exact SameViews.definition (.issueAt _ _ _ _) (.issueAt _ _ _ _) name
    case isFalse => rfl
  have defined : (Condition.definitionOf s w e).2.definition? name = e.definition? name := by
    unfold Condition.definitionOf
    split
    case isTrue => rfl
    case isFalse =>
      rw [Step.bindRan (s := get) (e := e) rfl]
      dsimp only
      split
      case isTrue => exact warned _
      case isFalse => rfl
  exact defined

end Engine

namespace Regex

theorem Match.wholeSome {m : Match} (some : m.whole ≠ "") :
    m.isEmpty = false ∧ (Captures.text? m.group? 0).isSome := by
  unfold whole at some
  refine ⟨?_, ?_⟩
  · cases bounds : m.bounds? 0 with
    | none => simp [group?, bounds] at some
    | some both =>
      rw [isEmpty, start, stop, bounds, beq_eq_false_iff_ne]
      intro same
      simp [group?, bounds, show both.1 = both.2 from same] at some
  · cases here : m.group? 0 with
    | none => simp [here] at some
    | some text => simpa [Captures.text?, here, Option.filter] using some

/-- The matches that a replacement goes through. -/
def successive (r : Regex) (text : Array Char) : Nat → Nat → List Match
  | 0, _ => []
  | fuel + 1, place =>
    match r.firstFrom text place with
    | none => []
    | some m => m :: r.successive text fuel m.stop

end Regex
namespace Command.StringOperation

theorem storeMatchesAll {found : List Regex.Match} (whole : ∀ m ∈ found, m.whole ≠ "")
    (e : Engine) :
    storeMatches found e =
      (true, (found.map fun m => m.group?).foldl Engine.storeGroups e) := by
  induction found generalizing e with
  | nil => rfl
  | cons m found ih =>
    obtain ⟨here, later⟩ := List.forall_mem_cons.mp whole
    rw [storeMatches, if_neg (by simp [(Regex.Match.wholeSome here).1])]
    exact ih later (e.storeMatch m)

theorem replaceMatchesAll (r : Regex) (replacement : List Piece) (text : Array Char)
    {fuel place : Nat} (whole : ∀ m ∈ r.successive text fuel place, m.whole ≠ "") (e : Engine) :
    ∃ rest, replaceMatches r replacement text fuel place e =
      (some rest,
        ((r.successive text fuel place).map fun m => m.group?).foldl Engine.storeGroups e) := by
  induction fuel generalizing place e with
  | zero => exact ⟨_, rfl⟩
  | succ fuel ih =>
    unfold replaceMatches
    rw [Regex.successive] at whole ⊢
    cases first : r.firstFrom text place with
    | none => exact ⟨_, rfl⟩
    | some m =>
      rw [first] at whole
      obtain ⟨here, later⟩ := List.forall_mem_cons.mp whole
      obtain ⟨rest, ran⟩ := ih later (e.storeMatch m)
      dsimp only
      rw [if_neg (by simp [(Regex.Match.wholeSome here).1])]
      refine ⟨(text.extract place m.start).toList ++ replacement.flatMap (Piece.fill m) ++ rest, ?_⟩
      rw [Step.bindRan (s := modify (·.storeMatch m)) (e := e) rfl]
      exact Step.bindRan ran

inductive Searches (regex? : String → Option Regex) :
    List String → String → List Regex.Match → Prop
  | first {pattern output input : String} {more : List String} {r : Regex}
      (compiled : regex? pattern = some r) :
      Searches regex? ("MATCH" :: pattern :: output :: input :: more) output
        (r.first (Text.join "" (input :: more))).toList
  | every {pattern output input : String} {more : List String} {r : Regex}
      (compiled : regex? pattern = some r) :
      Searches regex? ("MATCHALL" :: pattern :: output :: input :: more) output
        (r.allMatches (Text.join "" (input :: more)))
  | replaced {pattern replacement output input : String} {more : List String} {r : Regex}
      {filling : List Piece} (read : pieces replacement.toList = .ok filling)
      (compiled : regex? pattern = some r) :
      Searches regex? ("REPLACE" :: pattern :: replacement :: output :: input :: more) output
        (let text := (Text.join "" (input :: more)).toList.toArray
        r.successive text (text.size + 1) 0)

theorem Searches.ran {e : Engine} {words : List String} {output : String}
    {found : List Regex.Match} (searches : Searches e.platform.regex? words output found)
    (whole : ∀ m ∈ found, m.whole ≠ "") :
    ∃ value, Command.string ("REGEX" :: words) e =
      (.done, (e.matched (found.map fun m => m.group?)).define output value) := by
  change ∃ value, regex words e = _
  cases searches with
  | @first pattern output input more r compiled =>
    rw [regex, if_pos (.inl rfl), matchRegex, Step.bindRan (s := get) (e := e) rfl, compiled]
    dsimp only
    rw [Step.bindRan (s := modify (·.clearMatches)) (e := e) rfl, if_pos rfl]
    cases r.first (Text.join "" (input :: more)) with
    | none => exact ⟨"", rfl⟩
    | some m => exact ⟨m.whole, rfl⟩
  | @every pattern output input more r compiled =>
    rw [regex, if_pos (.inr rfl), matchRegex, Step.bindRan (s := get) (e := e) rfl, compiled]
    dsimp only
    rw [Step.bindRan (s := modify (·.clearMatches)) (e := e) rfl, if_neg (by decide),
      Step.bindRan (storeMatchesAll whole e.clearMatches), if_pos rfl]
    generalize r.allMatches (Text.join "" (input :: more)) = found
    exact ⟨ListValue.join (found.map (·.whole)), rfl⟩
  | @replaced pattern replacement output input more r filling read compiled =>
    rw [regex, if_neg (by decide), if_pos rfl, replaceRegex, read]
    dsimp only
    rw [Step.bindRan (s := get) (e := e) rfl, compiled]
    dsimp only
    rw [Step.bindRan (s := modify (·.clearMatches)) (e := e) rfl]
    obtain ⟨result, ran⟩ := replaceMatchesAll r filling _ whole e.clearMatches
    rw [Step.bindRan ran]
    generalize r.successive _ _ _ = found
    exact ⟨String.ofList result, rfl⟩

end Command.StringOperation

theorem Condition.matchPatternRan {s : Setting} {subject : Word} {pattern text : String}
    {e e' : Engine} (looked : textOf s subject e = (text, e')) {found : Option Regex.Match}
    (search : (e.platform.regex? pattern).bind (·.first text) = found) :
    matchPattern s subject pattern e =
      (if (e.platform.regex? pattern).isSome then .ok found.isSome else .error (.badPattern pattern),
        e'.matched (found.toList.map fun m => m.group?)) := by
  unfold matchPattern
  rw [Step.getRan]
  rw [Step.liftRan looked]
  subst search
  cases e.platform.regex? pattern with
  | none => rfl
  | some r =>
    dsimp only
    rw [Option.bind_some, Step.modifyRan]
    cases r.first text <;> rfl

namespace Engine

namespace MatchRun

variable {e : Engine} {ops : List (List Captures)}

theorem searched (run : MatchRun e ops) {found : List Regex.Match}
    (whole : ∀ m ∈ found, m.whole ≠ "") :
    MatchRun (e.matched (found.map fun m => m.group?)) ((found.map fun m => m.group?) :: ops) := by
  refine run.operation _ fun g member => ?_
  obtain ⟨m, inside, rfl⟩ := List.mem_map.mp member
  exact (Regex.Match.wholeSome (whole m inside)).2

theorem string (run : MatchRun e ops) {words : List String} {output : String}
    {found : List Regex.Match}
    (searches : Command.StringOperation.Searches e.platform.regex? words output found)
    (other : output ∉ matchVariables) (whole : ∀ m ∈ found, m.whole ≠ "") :
    (Command.string ("REGEX" :: words) e).1 = .done ∧
      MatchRun (Command.string ("REGEX" :: words) e).2 ((found.map fun m => m.group?) :: ops) := by
  obtain ⟨value, ran⟩ := searches.ran whole
  rw [ran]
  exact ⟨rfl, (run.searched whole).define other value⟩

theorem condition (run : MatchRun e ops) (s : Condition.Setting) (subject : Word)
    (pattern : String) {found : Option Regex.Match}
    (search : (e.platform.regex? pattern).bind (·.first (Condition.textOf s subject e).1) = found)
    (whole : ∀ m ∈ found, m.whole ≠ "") :
    (Condition.matchPattern s subject pattern e).1 =
        (if (e.platform.regex? pattern).isSome then .ok found.isSome
        else .error (.badPattern pattern)) ∧
      MatchRun (Condition.matchPattern s subject pattern e).2
        ((found.toList.map fun m => m.group?) :: ops) := by
  have looked : MatchRun (Condition.textOf s subject e).2 ops :=
    run.aside (run.writable.edits (Condition.textOfEdits s subject e)) fun name _ =>
      textOfSpares s subject e name
  rw [Condition.matchPatternRan (Prod.eta _).symm search]
  exact ⟨rfl, looked.searched (by simpa using whole)⟩

end MatchRun

/-- After an operation the groups of its last match are in their variables. As long as all
operations before covered a group, its variable holds what the last match with a text for it had, so
that it shows the last match just if this operation covers it too. Every operation covers the whole
match, and one with a single match covers all groups. Each search of a condition or of a command is
such an operation. -/
theorem groupsFollowLastMatch {e : Engine} {ops : List (List Captures)} (run : MatchRun e ops) :
    (∀ {found : List Captures} {before : List (List Captures)}, ops = found :: before →
      (∀ i < 10,
        (∀ last ∈ found.getLast?, ∀ text ∈ last.text? i, e.value (matchName i) = text) ∧
        ((∀ earlier ∈ before, Captures.Covers earlier i) →
          e.value (matchName i) = (Captures.last? found i).getD "" ∧
          (e.value (matchName i) = (found.getLast?.bind (· i)).getD "" ↔
            Captures.Covers found i))) ∧
      e.value (matchName 0) = (found.getLast?.bind (· 0)).getD "") ∧
    (∀ found ∈ ops, Captures.Covers found 0 ∧
      (found.length ≤ 1 → ∀ i, Captures.Covers found i)) ∧
    (∀ (s : Condition.Setting) (subject : Word) (pattern : String),
      let text := (Condition.textOf s subject e).1
      let found := (e.platform.regex? pattern).bind (·.first text)
      (∀ m ∈ found, m.whole ≠ "") →
      (Condition.matchPattern s subject pattern e).1 =
          (if (e.platform.regex? pattern).isSome then .ok found.isSome
          else .error (.badPattern pattern)) ∧
        MatchRun (Condition.matchPattern s subject pattern e).2
          ((found.toList.map fun m => m.group?) :: ops)) ∧
    ∀ {words : List String} {output : String} {found : List Regex.Match},
      Command.StringOperation.Searches e.platform.regex? words output found → output ∉ matchVariables →
      (∀ m ∈ found, m.whole ≠ "") →
      (Command.string ("REGEX" :: words) e).1 = .done ∧
        MatchRun (Command.string ("REGEX" :: words) e).2
          ((found.map fun m => m.group?) :: ops) := by
  have covers : ∀ found ∈ ops, Captures.Covers found 0 :=
    fun found member => Captures.coversAll (run.whole found member)
  refine ⟨fun {found before} same => ?shown, fun found member => ⟨covers found member,
      Captures.coversFew⟩, fun s subject pattern => run.condition s subject pattern rfl, run.string⟩
  subst same
  have shows (i : Nat) (inside : i < 10)
      (covered : ∀ earlier ∈ before, Captures.Covers earlier i) :
      e.value (matchName i) = (Captures.last? found i).getD "" :=
    (run.follows inside).shows covered
  refine ⟨fun i inside => ⟨(run.follows inside).present _ rfl, fun covered => ?_⟩, ?_⟩
  · rw [shows i inside covered]
    exact ⟨rfl, Captures.lastShows⟩
  · obtain ⟨here, earlier⟩ := List.forall_mem_cons.mp covers
    rw [shows 0 (Nat.succ_pos 9) earlier]
    exact Captures.lastShows.mpr here

open Regex Automaton in
theorem missingGroupStays :
    let e := Engine.start { mode := .script } { regex? := Regex.compile? } []
    let e' := (Command.string ["REGEX", "MATCHALL", "(a)|b", "out", "ab"] e).2
    ∃ first last : Regex.Match, first.group? 1 = some "a" ∧ last.group? 1 = none ∧
      MatchRun e' [[first.group?, last.group?]] ∧
      e'.value (matchName 0) = "b" ∧ e'.value (matchName 1) = "a" ∧
      ¬Captures.Covers [first.group?, last.group?] 1 := by
  intro e e'
  let first : Regex.Match := ⟨#['a', 'b'], #[some 0, some 1, some 0, some 1]⟩
  let last : Regex.Match := ⟨#['a', 'b'], #[some 1, some 2, none, none]⟩
  obtain ⟨r, compiled, found⟩ : ∃ r, Regex.compile? "(a)|b" = some r ∧
      r.allMatches (Text.join "" ["ab"]) = [first, last] := by
    refine ⟨Program.regex ⟨#[.accept, .save 1 0, .one false (.single 'b') 1, .save 3 1,
      .one false (.single 'a') 3, .save 2 4, .choose 5 2, .save 0 6], 7, 1⟩, rfl, ?_⟩
    simp +decide [first, last, Text.join, Program.regex, Program.allMatches, Program.matchesFrom,
      Program.firstFrom, searchFrom, enough, run, CharSet.single, Match.stop, Match.bounds?]
  have homebound := homeboundStart { mode := .script } { regex? := Regex.compile? } []
  have start : MatchRun e [] := .start (writableReady homebound rfl) (by decide +kernel)
  have whole : ∀ m ∈ r.allMatches (Text.join "" ["ab"]), m.whole ≠ "" := by
    rw [found]
    decide +kernel
  have searches : Command.StringOperation.Searches e.platform.regex?
      ["MATCHALL", "(a)|b", "out", "ab"] "out"
      (r.allMatches (Text.join "" ["ab"])) := .every compiled
  obtain ⟨-, ran⟩ := (groupsFollowLastMatch start).2.2.2 searches (by decide +kernel) whole
  rw [found, List.map_cons, List.map_singleton] at ran
  obtain ⟨groups, here⟩ := (groupsFollowLastMatch ran).1 rfl
  obtain ⟨shown, covers⟩ := (groups 1 (by decide)).2 nofun
  have uncovered : ¬Captures.Covers [first.group?, last.group?] 1 := by
    rw [← covers, shown]
    decide +kernel
  exact ⟨first, last, by decide +kernel, by decide +kernel, ran, here.trans (by decide +kernel),
    shown.trans (by decide +kernel), uncovered⟩

end Engine
end CMakeScript
