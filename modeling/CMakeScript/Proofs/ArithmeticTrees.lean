import CMakeScript.Proofs.ArithmeticTokens
import Mathlib.Data.Nat.Init
/-! Expressions evaluated as they are read. Whatever text spells a tree, the value read off it is
that of the tree, and the only faults are those of the tree. -/
namespace CMakeScript.Arithmetic

variable {fuel level : Nat} {ts us rest : List Token} {a b : Except Error Int64}

theorem Operator.levelBound (op : Operator) : op.level < 6 := by
  cases op <;> decide

theorem expressionDescends (inside : level < 6) :
    expression (fuel + 1) level ts = (do
      let (value, rest) ← expression fuel (level + 1) ts
      chain fuel level value rest) :=
  if_pos inside

theorem expressionOperand : expression (fuel + 1) 6 ts = operand fuel ts :=
  if_neg (Nat.lt_irrefl 6)

def EndsAt (level : Nat) (rest : List Token) : Prop :=
  ∀ op, Token.operator op ∈ rest.head? → op.level < level

theorem EndsAt.higher (ends : EndsAt level rest) : EndsAt (level + 1) rest :=
  fun op first => Nat.lt_succ_of_lt (ends op first)

theorem chainEnds (ends : EndsAt level rest) (value : Int64) :
    chain (fuel + 1) level value rest = .ok (value, rest) := by
  unfold chain
  split
  case h_1 op rest =>
    have apart := Nat.ne_of_lt (ends op rfl)
    exact if_neg apart
  case h_2 => rfl

theorem chainGoesOn (op : Operator) (value : Int64) :
    chain (fuel + 1) op.level value (.operator op :: rest) = (do
      let (right, rest) ← expression fuel (op.level + 1) rest
      chain fuel op.level (← apply op value right) rest) :=
  if_pos rfl

def ReadsOperand (a : Except Error Int64) (ts : List Token) : Prop :=
  ∀ rest fuel, 10 * ts.length ≤ fuel → operand fuel (ts ++ rest) = a.map (·, rest)

def Reads (level : Nat) (a : Except Error Int64) (ts : List Token) : Prop :=
  ∀ rest fuel, EndsAt level rest → 10 * ts.length + 7 ≤ fuel + level →
    expression fuel level (ts ++ rest) = a.map (·, rest)

def ReadsChain (level : Nat) (a : Except Error Int64) (ts : List Token) : Prop :=
  ∃ links ≤ ts.length + 1, ∀ rest fuel, EndsAt (level + 1) rest →
    10 * ts.length + 7 ≤ fuel + level →
    expression fuel level (ts ++ rest) = a.bind fun value => chain (fuel - links) level value rest

theorem ReadsOperand.reads (read : ReadsOperand a ts) : Reads 6 a ts := by
  intro rest fuel _ enough
  obtain ⟨fuel, rfl⟩ : ∃ less, fuel = less + 1 := ⟨fuel - 1, by omega⟩
  rw [expressionOperand]
  exact read rest fuel (by omega)

theorem ReadsChain.reads (inside : level < 6) (read : ReadsChain level a ts) :
    Reads level a ts := by
  obtain ⟨links, few, read⟩ := read
  intro rest fuel ends enough
  obtain ⟨left, isLeft⟩ : ∃ less, fuel - links = less + 1 := ⟨fuel - links - 1, by omega⟩
  rw [read rest fuel ends.higher enough, isLeft]
  cases a with
  | error => rfl
  | ok value => exact chainEnds ends value

theorem Reads.chain (inside : level < 6) (read : Reads (level + 1) a ts) :
    ReadsChain level a ts := by
  refine ⟨1, Nat.le_add_left .., fun rest fuel ends enough => ?_⟩
  obtain ⟨fuel, rfl⟩ : ∃ less, fuel = less + 1 := ⟨fuel - 1, by omega⟩
  rw [expressionDescends inside, read rest fuel ends (by omega)]
  cases a <;> rfl

theorem readsNumber (w : Int64) : ReadsOperand (.ok w) [.number w] := by
  intro rest fuel enough
  rw [List.length_singleton] at enough
  obtain ⟨fuel, rfl⟩ : ∃ less, fuel = less + 1 := ⟨fuel - 1, by omega⟩
  rfl

theorem ReadsOperand.signed (sign : Sign) (read : ReadsOperand a ts) :
    ReadsOperand (a.map sign.apply) (sign.token :: ts) := by
  intro rest fuel enough
  rw [List.length_cons] at enough
  obtain ⟨fuel, rfl⟩ : ∃ less, fuel = less + 1 := ⟨fuel - 1, by omega⟩
  have inner := read rest fuel (by omega)
  cases sign <;>
    simp only [Sign.token, List.cons_append, operand, inner] <;> cases a <;> rfl

theorem Reads.grouped (read : Reads 0 a ts) :
    ReadsOperand a (.openParen :: (ts ++ [.closeParen])) := by
  intro rest fuel enough
  simp only [List.length_cons, List.length_append, List.length_nil] at enough
  obtain ⟨fuel, rfl⟩ : ∃ less, fuel = less + 1 := ⟨fuel - 1, by omega⟩
  have inner := read (.closeParen :: rest) fuel (by rintro op ⟨⟩) (by omega)
  simp only [List.cons_append, List.append_assoc, List.nil_append, operand, inner]
  cases a <;> rfl

theorem ReadsChain.joined (op : Operator) (left : ReadsChain op.level a ts)
    (right : Reads (op.level + 1) b us) :
    ReadsChain op.level (a.bind fun x => b.bind fun y => apply op x y)
      (ts ++ .operator op :: us) := by
  obtain ⟨links, few, read⟩ := left
  have inside := op.levelBound
  refine ⟨links + 1, ?_, fun rest fuel ends enough => ?_⟩
  · simp only [List.length_append, List.length_cons]
    omega
  · simp only [List.length_append, List.length_cons] at enough
    have below : EndsAt (op.level + 1) (.operator op :: (us ++ rest)) := by
      rintro _ ⟨⟩
      exact Nat.lt_succ_self _
    obtain ⟨left, isLeft⟩ : ∃ less, fuel - links = less + 1 := ⟨fuel - links - 1, by omega⟩
    have passed : fuel - (links + 1) = left := by omega
    rw [List.append_assoc, List.cons_append, read _ fuel below (by omega), isLeft, passed]
    cases a with
    | error => rfl
    | ok x =>
      refine (chainGoesOn op x).trans ?_
      rw [right rest left ends (by omega)]
      cases b with
      | error => rfl
      | ok y => rfl

theorem apartEnd : Apart [] := nofun

theorem apartBlank {blanks cs : List Char} (blank : Blank blanks) (apart : Apart cs) :
    Apart (blanks ++ cs) := by
  cases blanks with
  | nil => exact apart
  | cons c blanks =>
    rintro _ ⟨⟩
    have here := blank c List.mem_cons_self
    simp only [isBlank, Bool.or_eq_true, beq_iff_eq] at here
    rcases here with ((rfl | rfl) | rfl) | rfl <;> decide

theorem apartOperator (op : Operator) (cs : List Char) : Apart (op.spelling.toList ++ cs) := by
  cases op <;> rintro _ ⟨⟩ <;> decide

theorem apartClose (cs : List Char) : Apart (')' :: cs) := by
  rintro _ ⟨⟩
  decide

theorem digitsLower (n : Nat) : (Nat.toDigits 16 n).map Char.toLower = Nat.toDigits 16 n := by
  have lower : ∀ c ∈ Nat.toDigits 16 n, c.toLower = c := by
    intro c member
    obtain ⟨d, inside, rfl⟩ := digitsMember (by decide) member
    exact (by decide : ∀ d < 16, (Nat.digitChar d).toLower = Nat.digitChar d) d inside
  exact (List.map_congr_left lower).trans (List.map_id' _)

theorem Literal.spelledSome (l : Literal) : ∃ cs, l.Spelled cs := by
  cases l with
  | decimal n small => exact ⟨_, .decimal n small 0⟩
  | hexadecimal n small => exact ⟨_, .hexadecimal n small (.inl rfl) 0 (digitsLower n)⟩

namespace Expression

def Legible (level : Nat) (e : Expression) (cs : List Char) : Prop :=
  ∃ ts, CutInto Apart cs ts ∧ level ≤ 6 ∧
    (level = 6 → ReadsOperand e.outcome ts) ∧ (level < 6 → ReadsChain level e.outcome ts)

theorem Legible.reads {e : Expression} {cs : List Char} (legible : Legible level e cs) :
    ∃ ts, CutInto Apart cs ts ∧ Reads level e.outcome ts := by
  obtain ⟨ts, cut, inside, operand, chain⟩ := legible
  refine ⟨ts, cut, ?_⟩
  rcases Nat.lt_or_eq_of_le inside with below | rfl
  · exact (chain below).reads below
  · exact (operand rfl).reads

theorem legibleOperand {e : Expression} {cs : List Char} (cut : CutInto Apart cs ts)
    (read : ReadsOperand e.outcome ts) : Legible 6 e cs :=
  ⟨ts, cut, Nat.le_refl 6, fun _ => read, fun below => absurd below (Nat.lt_irrefl 6)⟩

theorem legibleChain {e : Expression} {cs : List Char} (cut : CutInto Apart cs ts)
    (inside : level < 6) (read : ReadsChain level e.outcome ts) : Legible level e cs :=
  ⟨ts, cut, Nat.le_of_lt inside, fun top => absurd inside (top ▸ Nat.lt_irrefl 6), fun _ => read⟩

theorem Spelled.legible {e : Expression} {cs : List Char} (spelled : Spelled level e cs) :
    Legible level e cs := by
  induction spelled with
  | @literal l cs spelled =>
    exact legibleOperand spelled.cutInto (readsNumber l.word)
  | @unary e cs blanks sign blank _ ih =>
    obtain ⟨ts, cut, -, operand, -⟩ := ih
    exact legibleOperand ((CutInto.sign sign).behind ((CutInto.blank blank).behind cut))
      ((operand rfl).signed sign)
  | @group e cs before after blank blankAfter _ ih =>
    obtain ⟨ts, cut, reads⟩ := ih.reads
    have closes : CutInto Apart (after ++ [')']) [.closeParen] :=
      (CutInto.blank blankAfter).behind .closeParen
    have inner := cut.append closes fun rest _ => by
      rw [List.append_assoc]
      exact apartBlank blankAfter (apartClose rest)
    exact legibleOperand (CutInto.openParen.behind ((CutInto.blank blank).behind inner))
      reads.grouped
  | @binary op left right cs ds before after blank blankAfter _ _ leftIh rightIh =>
    obtain ⟨ts, cut, -, -, chain⟩ := leftIh
    obtain ⟨us, cutRight, reads⟩ := rightIh.reads
    have later := (CutInto.blank blank).behind
      ((CutInto.operator op).behind ((CutInto.blank blankAfter).behind cutRight))
    have whole := cut.append later fun rest _ => by
      rw [List.append_assoc, List.append_assoc]
      exact apartBlank blank (apartOperator op _)
    exact legibleChain whole op.levelBound ((chain op.levelBound).joined op reads)
  | @above level e cs inside _ ih =>
    obtain ⟨ts, cut, reads⟩ := ih.reads
    exact legibleChain cut inside (reads.chain inside)

theorem SpelledBy.evaluates {e : Expression} {text : String} (spelled : e.SpelledBy text) :
    evaluate text = e.outcome := by
  obtain ⟨before, cs, after, blank, blankAfter, spelled, same⟩ := spelled
  obtain ⟨ts, cutTree, reads⟩ := spelled.legible.reads
  have cutBlank : CutInto Apart after [] := .blank blankAfter
  have inner := cutTree.append cutBlank fun rest apart => apartBlank blankAfter apart
  have whole := ((CutInto.blank blank).behind inner) [] apartEnd
  rw [List.append_nil, ← same] at whole
  have cutText : tokens text.toList.length text.toList = .ok ts :=
    whole.trans (congrArg Except.ok (by simp))
  have read := reads [] (enough ts.length) nofun (by unfold enough; omega)
  rw [List.append_nil] at read
  unfold evaluate evaluateTokens
  rw [cutText]
  change (expression (enough ts.length) 0 ts).bind _ = _
  rw [read]
  cases e.outcome <;> rfl

theorem Spelled.lower {e : Expression} {cs : List Char} {top : Nat} (spelled : Spelled top e cs)
    (inside : level ≤ top) (most : top ≤ 6) : Spelled level e cs := by
  induction inside using Nat.decreasingInduction with
  | self => exact spelled
  | of_succ level inside ih => exact .above (Nat.lt_of_lt_of_le inside most) ih

theorem spelledSome (e : Expression) (inside : level ≤ 6) : ∃ cs, Spelled level e cs := by
  have none : Blank [] := nofun
  induction e generalizing level with
  | literal l =>
    obtain ⟨cs, spelled⟩ := l.spelledSome
    exact ⟨cs, (Spelled.literal spelled).lower inside (Nat.le_refl 6)⟩
  | unary sign e ih =>
    obtain ⟨cs, spelled⟩ := ih (Nat.le_refl 6)
    exact ⟨_, (Spelled.unary sign none spelled).lower inside (Nat.le_refl 6)⟩
  | binary op left right leftIh rightIh =>
    obtain ⟨cs, first⟩ := leftIh (Nat.le_of_lt op.levelBound)
    obtain ⟨ds, second⟩ := rightIh op.levelBound
    have whole := (Spelled.binary none none first second).lower (Nat.zero_le _)
      (Nat.le_of_lt op.levelBound)
    exact ⟨_, (Spelled.group none none whole).lower inside (Nat.le_refl 6)⟩

/-- Each text that spells the tree has its value, unless the tree divides by zero. -/
theorem spelledTreesEvaluate (e : Expression) :
    (∃ text, e.SpelledBy text) ∧ ∀ text, e.SpelledBy text →
      (¬e.DividesByZero → ∃ w, evaluate text = .ok w ∧ e.value = some w.toInt) ∧
      (e.DividesByZero → ∃ error, evaluate text = .error error ∧ error.isSyntax = false) := by
  refine ⟨?_, fun text spelled => ?_⟩
  · obtain ⟨cs, spelled⟩ := spelledSome e (Nat.zero_le 6)
    exact ⟨String.ofList cs, [], cs, [], nofun, nofun, spelled, by simp⟩
  · rw [spelled.evaluates, ← e.valueNone, ← e.outcomeValue]
    cases run : e.outcome with
    | ok w => exact ⟨fun _ => ⟨w, rfl, rfl⟩, nofun⟩
    | error error => exact ⟨fun some => absurd rfl some, fun _ => ⟨error, rfl, outcomeFault run⟩⟩

theorem remainderLessShift :
    let one : Expression := .literal (.decimal 1 (by decide))
    let seven : Expression := .literal (.decimal 7 (by decide))
    let three : Expression := .literal (.decimal 3 (by decide))
    let places : Expression := .literal (.hexadecimal 64 (by decide))
    let e : Expression := .binary .minus (.binary .modulo (.unary .minus seven) three)
      (.binary .shiftLeft one places)
    let quotient : Expression := .binary .divide one (.binary .minus one one)
    e.SpelledBy "- 7%03 -(1<<0X40)" ∧ ¬e.DividesByZero ∧
      evaluate "- 7%03 -(1<<0X40)" = .ok (-2) ∧
      quotient.SpelledBy "1/(1-1)" ∧ quotient.DividesByZero ∧
      ∃ error, evaluate "1/(1-1)" = .error error ∧ error.isSyntax = false := by
  intro one seven three places e quotient
  have none : Blank [] := nofun
  have blank : Blank [' '] := List.forall_mem_singleton.mpr rfl
  have spelledOne {level : Nat} (inside : level ≤ 6) : Spelled level one ['1'] :=
    (Spelled.literal (.decimal 1 (by decide) 0)).lower inside (Nat.le_refl 6)
  have hexadecimal : Spelled 6 places ("0X40".toList) :=
    .literal (.hexadecimal 64 (by decide) (.inr rfl) 0
      (show ['4', '0'].map Char.toLower = Nat.toDigits 16 64 from rfl))
  have negated : Spelled 6 (.unary .minus seven) ("- 7".toList) :=
    .unary .minus blank (.literal (.decimal 7 (by decide) 0))
  have remainder : Spelled Operator.modulo.level (.binary .modulo (.unary .minus seven) three)
      ("- 7%03".toList) :=
    .binary none none (negated.lower (by decide) (by decide)) (.literal (.decimal 3 (by decide) 1))
  have shift : Spelled Operator.shiftLeft.level (.binary .shiftLeft one places)
      ("1<<0X40".toList) :=
    .binary none none (spelledOne (by decide)) (hexadecimal.lower (by decide) (by decide))
  have grouped : Spelled 6 (.binary .shiftLeft one places) ("(1<<0X40)".toList) :=
    .group none none (shift.lower (by decide) (by decide))
  have difference : Spelled Operator.minus.level e ("- 7%03 -(1<<0X40)".toList) :=
    .binary blank none (remainder.lower (by decide) (by decide))
      (grouped.lower (by decide) (by decide))
  have zeroth : Spelled Operator.minus.level (.binary .minus one one) ("1-1".toList) :=
    .binary none none (spelledOne (by decide)) (spelledOne (by decide))
  have fraction : Spelled Operator.divide.level quotient ("1/(1-1)".toList) :=
    .binary none none (spelledOne (by decide))
      (.group none none (zeroth.lower (by decide) (by decide)))
  have spelled : e.SpelledBy "- 7%03 -(1<<0X40)" :=
    ⟨[], _, [], none, none, difference.lower (by decide) (by decide), rfl⟩
  have divides : quotient.SpelledBy "1/(1-1)" :=
    ⟨[], _, [], none, none, fraction.lower (by decide) (by decide), rfl⟩
  have safe : ¬e.DividesByZero := by
    rw [← e.valueNone]
    decide
  have zero : quotient.DividesByZero := .inr (.inr ⟨.inl rfl, by decide⟩)
  obtain ⟨w, answer, value⟩ := ((spelledTreesEvaluate e).2 _ spelled).1 safe
  have two : w = -2 := Int64.toInt_inj.mp (Option.some.inj (value.symm.trans (by decide)))
  exact ⟨spelled, safe, two ▸ answer, divides, zero,
    ((spelledTreesEvaluate quotient).2 _ divides).2 zero⟩

end Expression

end CMakeScript.Arithmetic
