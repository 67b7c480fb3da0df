import CMakeScript.Version
import Mathlib.Data.List.TakeWhile
import Mathlib.Order.Compare
import Mathlib.Order.PiLex
/-! The two orders of versions. Texts are in the order of their components, a sequence that goes on
with zeros. Parsed versions are in the same order, but for a plus sign before a component: the
parser passes over it, and to the order of texts such a component is zero. -/
namespace CMakeScript

theorem Text.splitOnList (sep : Char) (cs : List Char) : splitOn sep cs = cs.splitOn sep := by
  induction cs with
  | nil => rfl
  | cons c cs ih =>
    rw [List.splitOn_cons_eq_if_modifyHead, splitOn, ih]
    obtain ⟨piece, pieces, same⟩ := List.exists_cons_of_ne_nil (List.splitOn_ne_nil sep cs)
    simp [same]

namespace Version

/-- The number at a place of a version text: the digits with which the part there begins, if they
fit into 64 bits. -/
def componentAt (text : String) (place : Nat) : Nat :=
  match (Text.splitOn '.' text.toList)[place]? with
  | none => 0
  | some part =>
    let n := Text.natOfDigits (part.takeWhile Text.isDigit)
    if n < Text.bitBound 64 then n else 0

theorem digitsWhole {ds : List Char} (digits : ∀ d ∈ ds, Text.isDigit d = true) (some : ds ≠ []) :
    Text.digits? ds = .some (Text.natOfDigits ds) := by
  simpa [Text.digits?, some] using digits

theorem natBelowDigits {ds : List Char} (digits : ∀ d ∈ ds, Text.isDigit d = true) (some : ds ≠ [])
    (bound : Nat) :
    Text.natBelow? bound ds =
      if Text.natOfDigits ds < bound then .some (Text.natOfDigits ds) else none := by
  unfold Text.natBelow?
  split
  case h_1 rest =>
    exact absurd (digits '+' List.mem_cons_self) (by decide)
  case h_2 =>
    rw [digitsWhole digits some]
    rfl

theorem looseComponentDigits (part : List Char) :
    looseComponent part =
      let n := Text.natOfDigits (part.takeWhile Text.isDigit)
      if n < Text.bitBound 64 then n else 0 := by
  have digits : ∀ d ∈ part.takeWhile Text.isDigit, Text.isDigit d = true :=
    fun d => List.mem_takeWhile_imp
  unfold looseComponent
  by_cases none : part.takeWhile Text.isDigit = []
  · rw [none]
    rfl
  · rw [natBelowDigits digits none]
    exact apply_ite (Option.getD · 0) ..

theorem componentAtLoose (text : String) :
    componentAt text = ((looseComponents text).getD · 0) := by
  funext place
  unfold componentAt looseComponents
  cases found : (Text.splitOn '.' text.toList)[place]? with
  | none => simp [found]
  | some part => simp [found, looseComponentDigits]

theorem firstDecides {x y : Nat → Nat} {later : Ordering}
    (decides : later.Compares (toLex (x ∘ Nat.succ)) (toLex (y ∘ Nat.succ))) :
    ((Ord.compare (x 0) (y 0)).then later).Compares (toLex x) (toLex y) := by
  have behind {x y : Nat → Nat} (same : x 0 = y 0)
      (less : toLex (x ∘ Nat.succ) < toLex (y ∘ Nat.succ)) : toLex x < toLex y := by
    obtain ⟨place, before, here⟩ := less
    refine ⟨place + 1, fun j inside => ?_, here⟩
    cases j with
    | zero => exact same
    | succ j => exact before j (Nat.lt_of_succ_lt_succ inside)
  cases first : Ord.compare (x 0) (y 0) with
  | lt => exact ⟨0, fun j inside => absurd inside (Nat.not_lt_zero j), Nat.compare_eq_lt.mp first⟩
  | gt => exact ⟨0, fun j inside => absurd inside (Nat.not_lt_zero j), Nat.compare_eq_gt.mp first⟩
  | eq =>
    have same := Nat.compare_eq_eq.mp first
    cases later with
    | lt => exact behind same decides
    | gt => exact behind same.symm decides
    | eq =>
      refine congrArg toLex (funext fun place => ?_)
      cases place with
      | zero => exact same
      | succ place => exact congrFun (toLex.injective decides) place

theorem paddedCompares (as bs : List Nat) :
    (comparePadded as bs).Compares (toLex (as.getD · 0)) (toLex (bs.getD · 0)) := by
  fun_induction comparePadded as bs with
  | case1 => rfl
  | case2 a as ih => exact firstDecides (x := ((a :: as).getD · 0)) (y := ([].getD · 0)) ih
  | case3 b bs ih => exact firstDecides (x := ([].getD · 0)) (y := ((b :: bs).getD · 0)) ih
  | case4 a as b bs ih =>
    exact firstDecides (x := ((a :: as).getD · 0)) (y := ((b :: bs).getD · 0)) ih

theorem textsCompare (a b : String) :
    (compareTexts a b).Compares (toLex (componentAt a)) (toLex (componentAt b)) := by
  rw [componentAtLoose, componentAtLoose]
  exact paddedCompares ..

theorem compareTextsCongr {a a' b b' : String} (left : componentAt a' = componentAt a)
    (right : componentAt b' = componentAt b) : compareTexts a' b' = compareTexts a b := by
  refine (textsCompare a' b').inj ?_
  rw [left, right]
  exact textsCompare a b

theorem textsLE {a b : String} :
    (compareTexts a b).isLE ↔ toLex (componentAt a) ≤ toLex (componentAt b) := by
  rw [← (textsCompare a b).ne_gt]
  cases compareTexts a b <;> simp

theorem zerosBehind (components : List Nat) (count : Nat) :
    ((components ++ List.replicate count 0).getD · 0) = (components.getD · 0) := by
  funext place
  simp only [List.getD_eq_getElem?_getD, List.getElem?_append]
  split
  case isTrue => rfl
  case isFalse behind =>
    rw [List.getElem?_eq_none (Nat.le_of_not_lt behind), List.getElem?_replicate]
    split <;> rfl

theorem componentAtZero (text : String) : componentAt (text ++ ".0") = componentAt text := by
  have parts : looseComponents (text ++ ".0") = looseComponents text ++ List.replicate 1 0 := by
    have ends : (text ++ ".0").toList = text.toList ++ '.' :: ['0'] := by simp
    rw [looseComponents, ends, Text.splitOnList, List.splitOn_append_cons_self, ← Text.splitOnList,
      ← Text.splitOnList, List.map_append]
    rfl
  rw [componentAtLoose, componentAtLoose, parts, zerosBehind]

/-- The order of texts is the lexicographic order of their components, so it is a total preorder,
and zeros at the end make no difference. -/
theorem textsFollowComponents :
    (∀ a b, compareTexts b a = (compareTexts a b).swap) ∧
    (∀ a b c, (compareTexts a b).isLE → (compareTexts b c).isLE → (compareTexts a c).isLE) ∧
    (∀ a b, (compareTexts a b).Compares (toLex (componentAt a)) (toLex (componentAt b))) ∧
    ∀ a b m n, compareTexts ((· ++ ".0")^[m] a) ((· ++ ".0")^[n] b) = compareTexts a b := by
  have zeros (text : String) (n : Nat) : componentAt ((· ++ ".0")^[n] text) = componentAt text := by
    induction n with
    | zero => rfl
    | succ n ih => rw [Function.iterate_succ_apply', componentAtZero, ih]
  refine ⟨fun a b => ?_, fun a b c first second => ?_, textsCompare, fun a b m n => ?_⟩
  · exact (textsCompare b a).inj (Ordering.compares_swap.mpr (textsCompare a b))
  · exact textsLE.mpr ((textsLE.mp first).trans (textsLE.mp second))
  · exact compareTextsCongr (zeros a m) (zeros b n)

theorem tenAfterNine :
    (compareTexts "3.9" "3.09.0rc1").isLE ∧ (compareTexts "3.09.0rc1" "3.10").isLE ∧
      (compareTexts "3.9" "3.10").isLE := by
  have nine : looseComponents "3.9" = [3, 9] := by decide +kernel
  have candidate : looseComponents "3.09.0rc1" = [3, 9, 0] := by decide +kernel
  have ten : looseComponents "3.10" = [3, 10] := by decide +kernel
  have same : (compareTexts "3.9" "3.09.0rc1").isLE := by
    simp [compareTexts, nine, candidate, comparePadded]
  have less : (compareTexts "3.09.0rc1" "3.10").isLE := by
    simp [compareTexts, candidate, ten, comparePadded, Nat.compare_eq_ite_lt]
  exact ⟨same, less, textsFollowComponents.2.1 _ _ _ same less⟩

/-- The text without the signs that may stand before its components. -/
def withoutSigns (text : String) : String := String.ofList (text.toList.filter (· != '+'))

theorem filterSignNone {cs : List Char} (none : '+' ∉ cs) : cs.filter (· != '+') = cs :=
  List.filter_eq_self.mpr fun c member => by
    rw [bne_iff_ne]
    rintro rfl
    exact none member

theorem withoutSignsNone {text : String} (none : '+' ∉ text.toList) : withoutSigns text = text := by
  rw [withoutSigns, filterSignNone none, String.ofList_toList]

theorem partsWithoutSigns (cs : List Char) :
    Text.splitOn '.' (cs.filter (· != '+')) =
      (Text.splitOn '.' cs).map (List.filter (· != '+')) := by
  induction cs with
  | nil => rfl
  | cons c cs ih =>
    simp only [Text.splitOnList] at ih ⊢
    obtain ⟨piece, pieces, same⟩ := List.exists_cons_of_ne_nil (List.splitOn_ne_nil '.' cs)
    by_cases sign : c = '+'
    · subst sign
      simp [List.splitOn_cons_eq_if_modifyHead, ih, same]
    · by_cases point : c = '.' <;>
        simp [List.splitOn_cons_eq_if_modifyHead, ih, same, sign, point]

theorem digitsOf {ds : List Char} {n : Nat} (read : Text.digits? ds = some n) :
    (∀ d ∈ ds, Text.isDigit d = true) ∧ Text.natOfDigits ds = n := by
  unfold Text.digits? at read
  split at read
  case isTrue => cases read
  case isFalse digits =>
    simp only [Bool.or_eq_true, not_or, Bool.not_eq_true', Bool.not_eq_false] at digits
    exact ⟨List.all_eq_true.mp digits.2, Option.some.inj read⟩

theorem componentWithoutSign {part : List Char} {n : Nat} (read : component? part = some n) :
    looseComponent (part.filter (· != '+')) = n := by
  have plain {ds : List Char} (read : (do
      let m ← Text.digits? ds
      if m < Text.bitBound 32 then some m else none) = some n) :
      looseComponent (ds.filter (· != '+')) = n := by
    obtain ⟨m, whole, small⟩ := Option.bind_eq_some_iff.mp read
    obtain ⟨below, same⟩ := Option.ite_none_right_eq_some.mp small
    cases same
    obtain ⟨digits, value⟩ := digitsOf whole
    have kept : ds.filter (· != '+') = ds :=
      filterSignNone fun sign => absurd (digits '+' sign) (by decide)
    rw [kept, looseComponentDigits, List.takeWhile_eq_self_iff.mpr digits, value]
    exact if_pos (Nat.lt_trans below (by decide))
  unfold component? Text.natBelow? at read
  split at read
  case h_1 rest =>
    rw [List.filter_cons_of_neg (by decide)]
    exact plain read
  case h_2 => exact plain read

def components (v : Version) : List Nat := [v.major, v.minor, v.patch]

theorem comparePaddedComponents (v w : Version) :
    comparePadded v.components w.components = v.compare w := by
  simp [components, comparePadded, Version.compare]

theorem componentsParsed {text : String} {v : Version} (read : parse? text = some v)
    (few : (Text.splitOn '.' text.toList).length ≤ 3) :
    componentAt (withoutSigns text) = (v.components.getD · 0) := by
  have parts : looseComponents (withoutSigns text) =
      (Text.splitOn '.' text.toList).map fun part => looseComponent (part.filter (· != '+')) := by
    rw [looseComponents, withoutSigns, String.toList_ofList, partsWithoutSigns, List.map_map]
    rfl
  rw [componentAtLoose, parts]
  unfold parse? at read
  generalize Text.splitOn '.' text.toList = split at read few
  split at read
  case h_1 a =>
    obtain ⟨major, isMajor, same⟩ := Option.bind_eq_some_iff.mp read
    cases same
    rw [List.map_singleton, componentWithoutSign isMajor]
    exact (zerosBehind [major] 2).symm
  case h_2 a b =>
    obtain ⟨major, isMajor, read⟩ := Option.bind_eq_some_iff.mp read
    obtain ⟨minor, isMinor, same⟩ := Option.bind_eq_some_iff.mp read
    cases same
    simp only [List.map_cons, List.map_nil, componentWithoutSign isMajor,
      componentWithoutSign isMinor]
    exact (zerosBehind [major, minor] 1).symm
  case h_3 a b c =>
    obtain ⟨major, isMajor, read⟩ := Option.bind_eq_some_iff.mp read
    obtain ⟨minor, isMinor, read⟩ := Option.bind_eq_some_iff.mp read
    obtain ⟨patch, isPatch, same⟩ := Option.bind_eq_some_iff.mp read
    cases same
    simp only [List.map_cons, List.map_nil, componentWithoutSign isMajor,
      componentWithoutSign isMinor, componentWithoutSign isPatch, components]
  case h_4 => simp at few
  case h_5 => cases read

/-- Parsed versions of up to three components are in the order of their texts without signs. -/
theorem parsedFollowTexts {a b : String} {v w : Version} (readLeft : parse? a = some v)
    (readRight : parse? b = some w) (fewLeft : (Text.splitOn '.' a.toList).length ≤ 3)
    (fewRight : (Text.splitOn '.' b.toList).length ≤ 3) :
    compareTexts (withoutSigns a) (withoutSigns b) = v.compare w ∧
      ('+' ∉ a.toList → '+' ∉ b.toList → compareTexts a b = v.compare w) := by
  have follows : compareTexts (withoutSigns a) (withoutSigns b) = v.compare w := by
    refine (textsCompare ..).inj ?_
    rw [componentsParsed readLeft fewLeft, componentsParsed readRight fewRight,
      ← comparePaddedComponents]
    exact paddedCompares ..
  refine ⟨follows, fun plainLeft plainRight => ?_⟩
  rwa [withoutSignsNone plainLeft, withoutSignsNone plainRight] at follows

theorem spellingsOrdered :
    parse? "3.05" = some ⟨3, 5, 0⟩ ∧ parse? "3.010.4294967295" = some ⟨3, 10, 4294967295⟩ ∧
      compareTexts "3.05" "3.010.4294967295" = .lt ∧
      parse? "+3" = some ⟨3, 0, 0⟩ ∧
      compareTexts (withoutSigns "+3") (withoutSigns "3.05") = .lt := by
  have left : parse? "3.05" = some ⟨3, 5, 0⟩ := by decide +kernel
  have right : parse? "3.010.4294967295" = some ⟨3, 10, 4294967295⟩ := by decide +kernel
  have signed : parse? "+3" = some ⟨3, 0, 0⟩ := by decide +kernel
  have plain := parsedFollowTexts left right (by decide +kernel) (by decide +kernel)
  have follows := parsedFollowTexts signed left (by decide +kernel) (by decide +kernel)
  exact ⟨left, right, plain.2 (by decide +kernel) (by decide +kernel), signed, follows.1⟩

example : parse? "+1" = some ⟨1, 0, 0⟩ ∧ looseComponents "+1" = [0] := by decide +kernel

end Version
end CMakeScript
