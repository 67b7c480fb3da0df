import CMakeScript.NaturalOrder
import CMakeScript.Text.Bytes
import Mathlib.Data.List.TakeWhile
import Mathlib.Order.Compare
import Mathlib.Tactic.Ring
/-! The natural order of texts. A text is cut into whole runs of digits and single other bytes, and
texts are in the lexicographic order of these pieces. -/
namespace CMakeScript.NaturalOrder

inductive Piece where
  | number (value : Nat)
  | other (byte : UInt8)
  deriving DecidableEq, Repr

namespace Piece

def place : Piece → UInt8
  | number _ => 48
  | other byte => byte

def value : Piece → Nat
  | number value => value
  | other _ => 0

def compare : Piece → Piece → Ordering := compareLex (compareOn place) (compareOn value)

end Piece

def valueOf (digits : List UInt8) : Nat :=
  digits.foldl (fun n d => 10 * n + (d.toNat - 48)) 0

def pieces : List UInt8 → List Piece
  | [] => []
  | b :: bs =>
    if isDigitByte b then
      .number (valueOf ((b :: bs).takeWhile isDigitByte)) :: pieces (bs.dropWhile isDigitByte)
    else .other b :: pieces bs
termination_by bs => bs.length
decreasing_by
  · exact Nat.lt_succ_of_le (List.dropWhile_sublist _).length_le
  · exact Nat.lt_succ_self _

theorem digitByteIff {b : UInt8} : isDigitByte b = true ↔ 48 ≤ b.toNat ∧ b.toNat ≤ 57 := by
  simp [isDigitByte, UInt8.le_iff_toNat_le]

theorem valueFrom (digits : List UInt8) (n : Nat) :
    digits.foldl (fun n d => 10 * n + (d.toNat - 48)) n =
      n * 10 ^ digits.length + valueOf digits := by
  induction digits generalizing n with
  | nil => simp [valueOf]
  | cons d ds ih =>
    rw [valueOf, List.foldl_cons, List.foldl_cons, ih, ih, List.length_cons]
    ring

theorem valueCons (d : UInt8) (ds : List UInt8) :
    valueOf (d :: ds) = (d.toNat - 48) * 10 ^ ds.length + valueOf ds := by
  rw [valueOf, List.foldl_cons, valueFrom]
  simp

theorem valueBelowNext (d : UInt8) {ds : List UInt8} (later : valueOf ds < 10 ^ ds.length) :
    valueOf (d :: ds) < (d.toNat - 48 + 1) * 10 ^ ds.length := by
  calc valueOf (d :: ds) = (d.toNat - 48) * 10 ^ ds.length + valueOf ds := valueCons d ds
    _ < (d.toNat - 48) * 10 ^ ds.length + 10 ^ ds.length := Nat.add_lt_add_left later _
    _ = (d.toNat - 48 + 1) * 10 ^ ds.length := by ring

theorem valueBelow {digits : List UInt8} (all : ∀ d ∈ digits, isDigitByte d = true) :
    valueOf digits < 10 ^ digits.length := by
  induction digits with
  | nil => exact Nat.one_pos
  | cons d ds ih =>
    obtain ⟨here, later⟩ := List.forall_mem_cons.mp all
    have digit := (digitByteIff.mp here).2
    calc valueOf (d :: ds) < (d.toNat - 48 + 1) * 10 ^ ds.length := valueBelowNext d (ih later)
      _ ≤ 10 * 10 ^ ds.length := Nat.mul_le_mul_right _ (by omega)
      _ = 10 ^ (d :: ds).length := by rw [List.length_cons]; ring

theorem valueTrimmed (digits : List UInt8) :
    valueOf (digits.dropWhile (· == 48)) = valueOf digits := by
  induction digits with
  | nil => rfl
  | cons d ds ih =>
    rw [List.dropWhile_cons]
    split
    case isTrue zero =>
      have nothing : valueOf (d :: ds) = 0 * 10 ^ ds.length + valueOf ds := by
        rw [valueCons, beq_iff_eq.mp zero]
        rfl
      rw [ih, nothing, Nat.zero_mul, Nat.zero_add]
    case isFalse => rfl

theorem valueLonger {x y : List UInt8} (all : ∀ d ∈ y, isDigitByte d = true)
    (trimmed : ∀ d ∈ y.head?, d ≠ 48) (digits : ∀ d ∈ x, isDigitByte d = true)
    (longer : x.length < y.length) : valueOf x < valueOf y := by
  cases y with
  | nil => simp at longer
  | cons d ds =>
    have digit := (digitByteIff.mp (all d List.mem_cons_self)).1
    have nonzero : d.toNat ≠ 48 := fun same => trimmed d rfl (UInt8.toNat_inj.mp same)
    calc valueOf x < 10 ^ x.length := valueBelow digits
      _ ≤ 10 ^ ds.length := Nat.pow_le_pow_right (by decide) (Nat.le_of_lt_succ longer)
      _ = 1 * 10 ^ ds.length := (Nat.one_mul _).symm
      _ ≤ (d.toNat - 48) * 10 ^ ds.length := Nat.mul_le_mul_right _ (by omega)
      _ ≤ valueOf (d :: ds) := valueCons d ds ▸ Nat.le_add_right ..

theorem bytesCompare (a b : UInt8) : (Ord.compare a b).Compares a.toNat b.toNat := by
  simp only [Ord.compare, compareOfLessAndEq, UInt8.lt_iff_toNat_lt]
  split
  case isTrue less => exact less
  case isFalse kept =>
    split
    case isTrue same => exact congrArg UInt8.toNat same
    case isFalse apart =>
      have different : a.toNat ≠ b.toNat := fun same => apart (UInt8.toNat_inj.mp same)
      exact show b.toNat < a.toNat by omega

theorem valueGreaterDigit {a b : UInt8} {as bs : List UInt8} (less : a.toNat < b.toNat)
    (digits : ∀ d ∈ a :: as, isDigitByte d = true) (same : as.length = bs.length) :
    valueOf (a :: as) < valueOf (b :: bs) := by
  obtain ⟨here, later⟩ := List.forall_mem_cons.mp digits
  have digit := (digitByteIff.mp here).1
  calc valueOf (a :: as) < (a.toNat - 48 + 1) * 10 ^ as.length :=
        valueBelowNext a (valueBelow later)
    _ = (a.toNat - 48 + 1) * 10 ^ bs.length := by rw [same]
    _ ≤ (b.toNat - 48) * 10 ^ bs.length := Nat.mul_le_mul_right _ (by omega)
    _ ≤ valueOf (b :: bs) := valueCons b bs ▸ Nat.le_add_right ..

theorem sameLengthCompares {x y : List UInt8} (left : ∀ d ∈ x, isDigitByte d = true)
    (right : ∀ d ∈ y, isDigitByte d = true) (same : x.length = y.length) :
    (compareBytes x y).Compares (valueOf x) (valueOf y) := by
  fun_induction compareBytes x y with
  | case1 => rfl
  | case2 => simp at same
  | case3 => simp at same
  | case4 a as b bs ih =>
    have behind : as.length = bs.length := Nat.succ.inj same
    have decides := bytesCompare a b
    cases first : Ord.compare a b with
    | lt => exact valueGreaterDigit (decides.eq_lt.mp first) left behind
    | gt => exact valueGreaterDigit (decides.eq_gt.mp first) right behind.symm
    | eq =>
      obtain rfl : a = b := UInt8.toNat_inj.mp (decides.eq_eq.mp first)
      have later := ih (List.forall_mem_cons.mp left).2 (List.forall_mem_cons.mp right).2 behind
      rw [valueCons, valueCons, behind]
      cases order : compareBytes as bs with
      | lt => exact Nat.add_lt_add_left (later.eq_lt.mp order) _
      | gt => exact Nat.add_lt_add_left (later.eq_gt.mp order) _
      | eq => exact congrArg _ (later.eq_eq.mp order)

theorem trimmedDigits {x : List UInt8} (digits : ∀ d ∈ x, isDigitByte d = true) :
    ∀ d ∈ x.dropWhile (· == 48), isDigitByte d = true :=
  fun d member => digits d ((List.dropWhile_sublist _).subset member)

theorem trimmedHead (x : List UInt8) : ∀ d ∈ (x.dropWhile (· == 48)).head?, d ≠ 48 := by
  intro d isHead same
  have stays := List.head?_dropWhile_not (· == 48) x
  rw [Option.mem_def.mp isHead, same] at stays
  simp at stays

theorem runsCompare {x y : List UInt8} (left : ∀ d ∈ x, isDigitByte d = true)
    (right : ∀ d ∈ y, isDigitByte d = true) :
    compareRuns x y = Ord.compare (valueOf x) (valueOf y) := by
  refine ((compare_iff _ _).mpr ?_).symm
  rw [← valueTrimmed x, ← valueTrimmed y]
  dsimp only [compareRuns]
  cases sizes : Ord.compare (x.dropWhile (· == 48)).length (y.dropWhile (· == 48)).length with
  | lt =>
    exact valueLonger (trimmedDigits right) (trimmedHead y) (trimmedDigits left)
      (Nat.compare_eq_lt.mp sizes)
  | gt =>
    exact valueLonger (trimmedDigits left) (trimmedHead x) (trimmedDigits right)
      (Nat.compare_eq_gt.mp sizes)
  | eq =>
    exact sameLengthCompares (trimmedDigits left) (trimmedDigits right)
      (Nat.compare_eq_eq.mp sizes)

instance : Std.TransCmp Piece.compare :=
  inferInstanceAs (Std.TransCmp (compareLex (compareOn Piece.place) (compareOn Piece.value)))

theorem digitAgainst {d b : UInt8} (digit : isDigitByte d = true) (other : isDigitByte b = false)
    (later : Ordering) :
    (Ord.compare d b).then later = Ord.compare 48 b ∧
      (Ord.compare b d).then later = Ord.compare b 48 := by
  obtain ⟨least, most⟩ := digitByteIff.mp digit
  have zero : (48 : UInt8).toNat = 48 := rfl
  have outside : ¬(48 ≤ b.toNat ∧ b.toNat ≤ 57) := by
    rw [← digitByteIff, other]
    exact Bool.false_ne_true
  rcases Nat.lt_or_ge b.toNat 48 with below | above
  · rw [(bytesCompare d b).eq_gt.mpr (by omega), (bytesCompare b d).eq_lt.mpr (by omega),
      (bytesCompare 48 b).eq_gt.mpr (by omega), (bytesCompare b 48).eq_lt.mpr (by omega)]
    exact ⟨rfl, rfl⟩
  · rw [(bytesCompare d b).eq_lt.mpr (by omega), (bytesCompare b d).eq_gt.mpr (by omega),
      (bytesCompare 48 b).eq_lt.mpr (by omega), (bytesCompare b 48).eq_gt.mpr (by omega)]
    exact ⟨rfl, rfl⟩

theorem piecesNone : pieces [] = [] := by rw [pieces]

theorem piecesDigit {b : UInt8} (digit : isDigitByte b = true) (bs : List UInt8) :
    pieces (b :: bs) = .number (valueOf ((b :: bs).takeWhile isDigitByte)) ::
      pieces (bs.dropWhile isDigitByte) := by
  rw [pieces, if_pos digit]

theorem piecesOther {b : UInt8} (other : isDigitByte b = false) (bs : List UInt8) :
    pieces (b :: bs) = .other b :: pieces bs := by
  rw [pieces, if_neg (Bool.not_eq_true _ ▸ other)]

theorem piecesSome (b : UInt8) (bs : List UInt8) : ∃ p ps, pieces (b :: bs) = p :: ps := by
  cases digit : isDigitByte b with
  | true => exact ⟨_, _, piecesDigit digit bs⟩
  | false => exact ⟨_, _, piecesOther digit bs⟩

theorem numberAgainst {b : UInt8} (other : isDigitByte b = false) (n : Nat) :
    Piece.compare (.number n) (.other b) = Ord.compare 48 b := (digitAgainst rfl other _).1

theorem againstNumber {b : UInt8} (other : isDigitByte b = false) (n : Nat) :
    Piece.compare (.other b) (.number n) = Ord.compare b 48 := (digitAgainst rfl other _).2

theorem withinPieces {fuel : Nat} {a : List UInt8} (enough : a.length ≤ fuel) (b : List UInt8) :
    compareWithin fuel a b = List.compareLex Piece.compare (pieces a) (pieces b) := by
  fun_induction compareWithin fuel a b with
  | case1 =>
    rw [piecesNone]
    rfl
  | case2 fuel b bs =>
    obtain ⟨p, ps, cut⟩ := piecesSome b bs
    rw [piecesNone, cut]
    rfl
  | case3 fuel a as =>
    obtain ⟨p, ps, cut⟩ := piecesSome a as
    rw [piecesNone, cut]
    rfl
  | case4 => simp at enough
  | case5 fuel a as b bs digits order ih =>
    obtain ⟨left, right⟩ := Bool.and_eq_true_iff.mp digits
    have behind := (List.dropWhile_sublist (l := as) isDigitByte).length_le
    rw [List.length_cons] at enough
    rw [piecesDigit left, piecesDigit right, List.compareLex_cons_cons, ih (by omega)]
    congr 1
    exact runsCompare (fun _ => List.mem_takeWhile_imp) (fun _ => List.mem_takeWhile_imp)
  | case6 fuel a as b bs other ih =>
    rw [List.length_cons] at enough
    cases left : isDigitByte a with
    | true =>
      have right : isDigitByte b = false := by simpa [left] using other
      rw [piecesDigit left, piecesOther right, List.compareLex_cons_cons,
        (digitAgainst left right _).1, numberAgainst right, (digitAgainst rfl right _).1]
    | false =>
      cases right : isDigitByte b with
      | true =>
        rw [piecesOther left, piecesDigit right, List.compareLex_cons_cons,
          (digitAgainst right left _).2, againstNumber left, (digitAgainst rfl left _).2]
      | false =>
        rw [piecesOther left, piecesOther right, List.compareLex_cons_cons, ih (by omega)]
        exact congrArg (Ordering.then · _) Ordering.then_eq.symm

theorem byteArrayList (b : ByteArray) : b.toList = b.data.toList := by
  have loop (i : Nat) (before : List UInt8) :
      ByteArray.toList.loop b i before = before.reverse ++ b.data.toList.drop i := by
    induction i, before using ByteArray.toList.loop.induct b with
    | case1 i before inside ih =>
      have here : i < b.data.toList.length := inside
      have read : b.get! i = b.data.toList[i] := getElem!_pos b.data i inside
      rw [ByteArray.toList.loop, if_pos inside, ih, List.drop_eq_getElem_cons here, read]
      simp
    | case2 i before outside =>
      have passed : b.data.toList.length ≤ i := Nat.le_of_not_lt outside
      rw [ByteArray.toList.loop, if_neg outside, List.drop_eq_nil_of_le passed, List.append_nil]
  exact loop 0 []

theorem utf8Bytes (text : String) : text.toUTF8.toList = Text.bytes text.toList := by
  rw [byteArrayList, String.toUTF8, ← String.utf8Encode_toList]
  exact congrArg Array.toList List.data_toByteArray

theorem comparePieces (a b : String) :
    compare a b = List.compareLex Piece.compare (pieces (Text.bytes a.toList))
      (pieces (Text.bytes b.toList)) := by
  have enough : a.toUTF8.toList.length ≤ a.toUTF8.size := by
    rw [byteArrayList]
    exact Nat.le_refl _
  rw [← utf8Bytes, ← utf8Bytes]
  exact withinPieces enough _

instance : Std.TransCmp compare where
  eq_swap {a b} := by
    rw [comparePieces, comparePieces]
    exact Std.OrientedCmp.eq_swap
  isLE_trans {a b c} first second := by
    rw [comparePieces] at first second ⊢
    exact Std.TransCmp.isLE_trans first second

end CMakeScript.NaturalOrder
