import CMakeScript.Path
import CMakeScript.Proofs.VersionOrder
import Mathlib.Data.List.DropRight
import Mathlib.Data.List.Induction
/-! Paths without detours. A path is read component by component onto a stack, and the stack always
holds names above some steps up, of which an absolute path has none. The text that a stack spells
leads back to the same stack, so that it is read again as it is, and what follows it goes on from
there. -/
namespace CMakeScript.Path

variable {absolute : Bool} {stack : List (List Char)} {part : List Char}

def IsName (part : List Char) : Prop :=
  part ≠ [] ∧ part ≠ ['.'] ∧ part ≠ ['.', '.'] ∧ '/' ∉ part

inductive Settled (absolute : Bool) : List (List Char) → Prop where
  | up (count : Nat) (relative : absolute = true → count = 0) :
    Settled absolute (List.replicate count ['.', '.'])
  | name {part : List Char} {stack : List (List Char)} (named : IsName part)
    (below : Settled absolute stack) : Settled absolute (part :: stack)

def walk (absolute : Bool) (stack : List (List Char)) (text : List Char) : List (List Char) :=
  (Text.splitOn '/' text).foldl (pushComponent absolute) stack

def spell (absolute : Bool) (stack : List (List Char)) : List Char :=
  let body := joinComponents stack.reverse
  if absolute then '/' :: body else if body.isEmpty then ['.'] else body

theorem normalizeSpells (path : List Char) :
    normalize path = spell (isAbsolute path) (walk (isAbsolute path) [] path) := rfl

theorem pushSilent (absolute : Bool) (stack : List (List Char)) (silent : part = [] ∨ part = ['.']) :
    pushComponent absolute stack part = stack := if_pos silent

theorem pushName (absolute : Bool) (stack : List (List Char)) (named : IsName part) :
    pushComponent absolute stack part = part :: stack := by
  obtain ⟨some, moves, down, -⟩ := named
  simp [pushComponent, some, moves, down]

theorem pushUp (count : Nat) : pushComponent false (List.replicate count ['.', '.']) ['.', '.'] =
    List.replicate (count + 1) ['.', '.'] := by
  cases count <;> simp [pushComponent, List.replicate_succ]

namespace Settled

theorem push (settled : Settled absolute stack) (whole : '/' ∉ part) :
    Settled absolute (pushComponent absolute stack part) := by
  by_cases silent : part = [] ∨ part = ['.']
  · rwa [pushSilent absolute stack silent]
  obtain ⟨some, moves⟩ := not_or.mp silent
  by_cases up : part = ['.', '.']
  case neg =>
    have named : IsName part := ⟨some, moves, up, whole⟩
    rw [pushName absolute stack named]
    exact .name named settled
  subst up
  cases settled with
  | up count relative =>
    cases absolute with
    | false =>
      rw [pushUp]
      exact .up _ nofun
    | true =>
      obtain rfl := relative rfl
      exact .up 0 fun _ => rfl
  | name named below => simpa [pushComponent, named.2.2.1] using below

theorem pushAll {parts : List (List Char)} (settled : Settled absolute stack)
    (whole : ∀ part ∈ parts, '/' ∉ part) :
    Settled absolute (parts.foldl (pushComponent absolute) stack) := by
  induction parts generalizing stack with
  | nil => exact settled
  | cons part parts ih =>
    obtain ⟨here, later⟩ := List.forall_mem_cons.mp whole
    exact ih (settled.push here) later

theorem replays (settled : Settled absolute stack) :
    stack.reverse.foldl (pushComponent absolute) [] = stack := by
  rw [List.foldl_reverse]
  induction settled with
  | up count relative =>
    induction count with
    | zero => rfl
    | succ count ih =>
      obtain rfl : absolute = false := by
        by_contra rooted
        cases relative (by simpa using rooted)
      rw [List.replicate_succ, List.foldr_cons, ih nofun, pushUp, List.replicate_succ]
  | name named below ih => rw [List.foldr_cons, ih, pushName absolute _ named]

theorem parts (settled : Settled absolute stack) : ∀ part ∈ stack, part ≠ [] ∧ '/' ∉ part := by
  induction settled with
  | up count =>
    intro part member
    rw [List.eq_of_mem_replicate member]
    decide
  | name named below ih => exact List.forall_mem_cons.mpr ⟨⟨named.1, named.2.2.2⟩, ih⟩

theorem names (settled : Settled true stack) : ∀ part ∈ stack, IsName part := by
  generalize rooted : true = absolute at settled
  induction settled with
  | up count relative => simp [relative rooted.symm]
  | name named below ih => exact List.forall_mem_cons.mpr ⟨named, ih⟩

theorem layers (settled : Settled absolute stack) : ∃ (count : Nat) (names : List (List Char)),
    stack.reverse = List.replicate count ['.', '.'] ++ names ∧ ∀ name ∈ names, IsName name := by
  induction settled with
  | up count => exact ⟨count, [], by simp, nofun⟩
  | name named below ih =>
    obtain ⟨count, names, same, all⟩ := ih
    refine ⟨count, names ++ [_], by rw [List.reverse_cons, same, List.append_assoc], ?_⟩
    simpa [or_imp, forall_and] using ⟨all, named⟩

end Settled

theorem splitWhole (text : List Char) : ∀ part ∈ Text.splitOn '/' text, '/' ∉ part := by
  induction text with
  | nil => simp [Text.splitOn]
  | cons c text ih =>
    rw [Text.splitOn]
    split
    case isTrue => simpa using ih
    case isFalse other =>
      split
      case h_1 => simpa using Ne.symm other
      case h_2 same =>
        rw [same] at ih
        simpa [Ne.symm other] using ih

theorem settledEmpty (absolute : Bool) : Settled absolute [] := .up 0 fun _ => rfl

theorem walkSettled (settled : Settled absolute stack) (text : List Char) :
    Settled absolute (walk absolute stack text) :=
  settled.pushAll (splitWhole text)

theorem walkSlash (absolute : Bool) (stack : List (List Char)) (first more : List Char) :
    walk absolute stack (first ++ '/' :: more) =
      walk absolute (walk absolute stack first) more := by
  simp [walk, Text.splitOnList, List.splitOn_append_cons_self]

theorem walkNothing (absolute : Bool) (stack : List (List Char)) : walk absolute stack [] = stack :=
  pushSilent absolute stack (.inl rfl)

theorem walkRooted (absolute : Bool) (stack : List (List Char)) (text : List Char) :
    walk absolute stack ('/' :: text) = walk absolute stack text := by
  have apart := walkSlash absolute stack [] text
  rwa [walkNothing] at apart

theorem walkUnslashed (absolute : Bool) (stack : List (List Char)) (text : List Char) :
    walk absolute stack (Text.dropWhileEnd (· == '/') text) = walk absolute stack text := by
  induction text using List.reverseRecOn with
  | nil => rfl
  | append_singleton text c ih =>
    by_cases slash : c = '/'
    · subst slash
      rw [walkSlash, walkNothing, ← ih]
      simp [Text.dropWhileEnd]
    · simp [Text.dropWhileEnd, slash]

namespace Settled

variable (settled : Settled absolute stack)

include settled

theorem splitJoined (some : stack ≠ []) :
    Text.splitOn '/' (joinComponents stack.reverse) = stack.reverse := by
  rw [Text.splitOnList, joinComponents]
  refine List.splitOn_intercalate '/' (fun part member => ?_) (by simpa using some)
  exact (settled.parts part (List.mem_reverse.mp member)).2

theorem joinedStarts (some : stack ≠ []) :
    joinComponents stack.reverse ≠ [] ∧ isAbsolute (joinComponents stack.reverse) = false := by
  have split := settled.splitJoined some
  have filled : [] ∉ Text.splitOn '/' (joinComponents stack.reverse) := by
    rw [split]
    exact fun member => (settled.parts _ (List.mem_reverse.mp member)).1 rfl
  cases same : joinComponents stack.reverse with
  | nil => simp [same, Text.splitOn] at filled
  | cons c text =>
    refine ⟨List.cons_ne_nil c text, ?_⟩
    by_contra slash
    obtain rfl : c = '/' := by simpa [isAbsolute] using slash
    simp [same, Text.splitOn] at filled

theorem spellRelative (relative : absolute = false) :
    spell absolute stack = if stack = [] then ['.'] else joinComponents stack.reverse := by
  subst relative
  by_cases none : stack = []
  · subst none
    rfl
  · simp [spell, (settled.joinedStarts none).1, none]

theorem spellAbsolute : isAbsolute (spell absolute stack) = absolute := by
  cases absolute with
  | true => rfl
  | false =>
    rw [settled.spellRelative rfl]
    split
    · rfl
    · next some => exact (settled.joinedStarts some).2

theorem walkJoined : walk absolute [] (joinComponents stack.reverse) = stack := by
  by_cases none : stack = []
  · subst none
    exact walkNothing absolute []
  · rw [walk, settled.splitJoined none, settled.replays]

theorem walkSpelled : walk absolute [] (spell absolute stack) = stack := by
  cases absolute with
  | true => exact (walkRooted ..).trans settled.walkJoined
  | false =>
    rw [settled.spellRelative rfl]
    split
    · next none => exact none ▸ rfl
    · exact settled.walkJoined

theorem normalizeSpelled : normalize (spell absolute stack) = spell absolute stack := by
  rw [normalizeSpells, settled.spellAbsolute, settled.walkSpelled]

end Settled

def origin (path base : List Char) : List (List Char) :=
  if isAbsolute path then [] else walk true [] base

theorem originSettled (path base : List Char) : Settled true (origin path base) := by
  unfold origin
  split
  · exact settledEmpty true
  · exact walkSettled (settledEmpty true) base

theorem absoluteUnslashed {base : List Char} (rooted : isAbsolute base = true) (rest : List Char) :
    isAbsolute (Text.dropWhileEnd (· == '/') base ++ '/' :: rest) = true := by
  have front : Text.dropWhileEnd (· == '/') base <+: base := List.rdropWhile_prefix _ base
  cases same : Text.dropWhileEnd (· == '/') base with
  | nil => rfl
  | cons c text =>
    rw [same] at front
    obtain ⟨rest, rfl⟩ := front
    exact rooted

theorem resolveWalks (path : List Char) {base : List Char} (rooted : isAbsolute base = true) :
    isAbsolute (resolve path base) = true ∧
      walk true [] (resolve path base) = walk true (origin path base) path := by
  unfold resolve origin
  cases above : isAbsolute path with
  | true => simp [above]
  | false =>
    have some : base.isEmpty = false := by
      cases base with
      | nil => cases rooted
      | cons => rfl
    simp [some, absoluteUnslashed rooted, walkSlash, walkUnslashed]

theorem fullSpells (path : String) {base : String} (rooted : isAbsolute base.toList = true) :
    full path base = String.ofList (spell true
      (walk true (origin path.toList base.toList) path.toList)) := by
  obtain ⟨above, walked⟩ := resolveWalks path.toList rooted
  rw [full, normalizeSpells, above, walked]

theorem fullAlone (path : String) : full path "" = String.ofList (normalize path.toList) := by
  simp [full, resolve]

structure Direct (path : List Char) : Prop where
  rooted : isAbsolute path = true
  down : path = ['/'] ∨ ∀ part ∈ (Text.splitOn '/' path).tail, IsName part
  unslashed : path = ['/'] ∨ path.getLast? ≠ some '/'

structure DirectFromHere (path : List Char) : Prop where
  relative : isAbsolute path = false
  down : path = ['.'] ∨ ∃ (count : Nat) (names : List (List Char)),
    Text.splitOn '/' path = List.replicate count ['.', '.'] ++ names ∧ ∀ name ∈ names, IsName name

theorem endsUnslashed {path : List Char}
    (down : ∀ part ∈ (Text.splitOn '/' path).tail, IsName part) : path.getLast? ≠ some '/' := by
  intro slash
  obtain ⟨text, rfl⟩ := List.getLast?_eq_some_iff.mp slash
  rw [Text.splitOnList, List.splitOn_append_cons_self, List.splitOn_nil,
    List.tail_append_of_ne_nil (List.splitOn_ne_nil '/' text)] at down
  exact (down [] (by simp)).1 rfl

theorem Settled.direct (settled : Settled true stack) : Direct (spell true stack) := by
  by_cases none : stack = []
  · subst none
    exact ⟨rfl, .inl rfl, .inl rfl⟩
  have down : ∀ part ∈ (Text.splitOn '/' (spell true stack)).tail, IsName part := by
    have split : Text.splitOn '/' (spell true stack) = [] :: stack.reverse :=
      congrArg ([] :: ·) (settled.splitJoined none)
    rw [split]
    exact fun part member => settled.names part (List.mem_reverse.mp member)
  exact ⟨rfl, .inr down, .inr (endsUnslashed down)⟩

theorem Settled.directFromHere (settled : Settled false stack) :
    DirectFromHere (spell false stack) := by
  refine ⟨settled.spellAbsolute, ?_⟩
  rw [settled.spellRelative rfl]
  split
  · exact .inl rfl
  · next some =>
    rw [settled.splitJoined some]
    exact .inr settled.layers

theorem fullFollows {path base more : String} (rooted : isAbsolute base.toList = true)
    (some : path ≠ "") (relative : isAbsolute more.toList = false) :
    full (path ++ "/" ++ more) base = full more (full path base) := by
  have settled := walkSettled (originSettled path.toList base.toList) path.toList
  have spelled : (full path base).toList =
      spell true (walk true (origin path.toList base.toList) path.toList) := by
    rw [fullSpells path rooted, String.toList_ofList]
  have above : isAbsolute (full path base).toList = true := by
    rw [spelled]
    exact settled.spellAbsolute
  have onward : origin more.toList (full path base).toList =
      walk true (origin path.toList base.toList) path.toList := by
    rw [origin, relative, if_neg Bool.false_ne_true, spelled, settled.walkSpelled]
  have text : (path ++ "/" ++ more).toList = path.toList ++ '/' :: more.toList := by simp
  have start : origin (path ++ "/" ++ more).toList base.toList =
      origin path.toList base.toList := by
    rw [text]
    cases same : path.toList with
    | nil => exact absurd (String.toList_eq_nil_iff.mp same) some
    | cons c text => rfl
  rw [fullSpells _ rooted, fullSpells more above, onward, start, text, walkSlash]

/-- A full path is direct and is not changed any more, and what follows a path goes on from its
full path. Without a base the same is true of a relative path, but for steps up at its front. -/
theorem fullPathsAgree (path base : String) :
    (isAbsolute base.toList = true →
      Direct (full path base).toList ∧
      (∀ other, full (full path base) other = full path base) ∧
      ∀ more, path ≠ "" → isAbsolute more.toList = false →
        full (path ++ "/" ++ more) base = full more (full path base)) ∧
    (isAbsolute path.toList = false →
      DirectFromHere (full path "").toList ∧ full (full path "") "" = full path "") := by
  refine ⟨fun rooted => ⟨?_, fun other => ?_, fun more => fullFollows rooted⟩, fun relative => ?_⟩
  · rw [fullSpells path rooted, String.toList_ofList]
    exact (walkSettled (originSettled ..) _).direct
  · have settled := walkSettled (originSettled path.toList base.toList) path.toList
    rw [fullSpells path rooted, full, String.toList_ofList, resolve, settled.spellAbsolute]
    exact congrArg String.ofList settled.normalizeSpelled
  · have settled := walkSettled (settledEmpty (isAbsolute path.toList)) path.toList
    rw [fullAlone, fullAlone, String.toList_ofList, normalizeSpells, settled.normalizeSpelled]
    rw [relative] at settled ⊢
    exact ⟨settled.directFromHere, rfl⟩

theorem stepsUpAgree :
    isAbsolute "/src/./x/".toList = true ∧ isAbsolute "../a".toList = false ∧
      full ("b/.." ++ "/" ++ "../a") "/src/./x/" = full "../a" (full "b/.." "/src/./x/") ∧
      full "../a" (full "b/.." "/src/./x/") = "/src/a" ∧
      isAbsolute "b/../../a".toList = false ∧ full (full "b/../../a" "") "" = full "b/../../a" "" ∧
      full "b/../../a" "" = "../a" := by
  obtain ⟨rooted, relative⟩ := fullPathsAgree "b/.." "/src/./x/"
  obtain ⟨-, stays⟩ := (fullPathsAgree "b/../../a" "").2 (by decide +kernel)
  have joined := (rooted (by decide +kernel)).2.2 "../a" (by decide) (by decide)
  refine ⟨?_, ?_, joined, ?_, ?_, stays, ?_⟩ <;> decide +kernel

end CMakeScript.Path
