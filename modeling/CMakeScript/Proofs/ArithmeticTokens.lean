import CMakeScript.Proofs.ArithmeticWords
import Mathlib.Data.List.Basic
/-! Texts cut into tokens. A part of a text is cut on its own if what follows it cannot go on with
its last token. -/
namespace CMakeScript.Arithmetic

variable {c : Char} {cs rest : List Char} {t : Token}

theorem nextTokenShort (next : nextToken c cs = .ok (t, rest)) : rest.length ≤ cs.length := by
  have short (p : Char → Bool) (cs : List Char) : (cs.dropWhile p).length ≤ cs.length :=
    (List.dropWhile_sublist p).length_le
  have mapped {first : Except Error Token} {behind : List Char}
      (same : first.map (·, behind) = .ok (t, rest)) : rest = behind := by
    cases first <;> cases same
    rfl
  unfold nextToken at next
  split at next
  case h_1 | h_2 =>
    cases next
    exact Nat.le_succ _
  case h_3 =>
    split at next
    · split at next
      · split at next
        · rw [mapped next]
          exact Nat.le_succ_of_le (short ..)
        · rw [mapped next]
          exact short ..
      · rw [mapped next]
        exact short ..
    · split at next <;> cases next
      exact Nat.le_refl _

theorem tokensEnough {fuel more : Nat} (enough : cs.length ≤ fuel) (much : cs.length ≤ more) :
    tokens fuel cs = tokens more cs := by
  induction fuel generalizing cs more with
  | zero =>
    rw [List.length_eq_zero_iff.mp (Nat.le_zero.mp enough)]
    cases more <;> rfl
  | succ fuel ih =>
    rcases cs with _ | ⟨c, cs⟩
    · cases more <;> rfl
    · obtain ⟨more, rfl⟩ := Nat.exists_eq_succ_of_ne_zero
        (Nat.ne_of_gt (Nat.zero_lt_of_lt much))
      simp only [tokens]
      have enough := Nat.le_of_succ_le_succ enough
      have much := Nat.le_of_succ_le_succ much
      split
      · exact ih enough much
      · cases next : nextToken c cs with
        | error => rfl
        | ok answer =>
          have short := nextTokenShort next
          have same := ih (Nat.le_trans short enough) (Nat.le_trans short much)
          simp only [bind, Except.bind, same]

def cut (cs : List Char) : Except Error (List Token) := tokens cs.length cs

theorem cutBlank (blank : isBlank c = true) : cut (c :: cs) = cut cs := by
  unfold cut
  simp only [List.length_cons, tokens, blank, if_true]

theorem cutNext (visible : isBlank c = false) (next : nextToken c cs = .ok (t, rest)) :
    cut (c :: cs) = (cut rest).map (t :: ·) := by
  have same := tokensEnough (nextTokenShort next) (Nat.le_refl _)
  simp only [cut, List.length_cons, tokens, visible, Bool.false_eq_true, if_false, next, bind,
    Except.bind, same]
  cases tokens rest.length rest <;> rfl

def Apart (cs : List Char) : Prop :=
  ∀ c ∈ cs.head?, Text.isHexDigit c = false ∧ c ≠ 'x' ∧ c ≠ 'X'

def CutInto (suits : List Char → Prop) (part : List Char) (ts : List Token) : Prop :=
  ∀ rest, suits rest → cut (part ++ rest) = (cut rest).map (ts ++ ·)

theorem mapMap {α : Type} (answer : Except Error (List α)) (xs ys : List α) :
    (answer.map (ys ++ ·)).map (xs ++ ·) = answer.map ((xs ++ ys) ++ ·) := by
  cases answer with
  | error => rfl
  | ok zs => exact congrArg Except.ok (List.append_assoc xs ys zs).symm

theorem mapNothing {α : Type} (answer : Except Error (List α)) :
    answer.map (([] : List α) ++ ·) = answer := by
  cases answer <;> rfl

namespace CutInto

variable {suits also : List Char → Prop} {part next : List Char} {ts us : List Token}

theorem append (first : CutInto also part ts) (second : CutInto suits next us)
    (fits : ∀ rest, suits rest → also (next ++ rest)) :
    CutInto suits (part ++ next) (ts ++ us) := by
  intro rest suitable
  rw [List.append_assoc, first _ (fits rest suitable), second rest suitable, mapMap]

theorem behind (first : CutInto (fun _ => True) part ts) (second : CutInto suits next us) :
    CutInto suits (part ++ next) (ts ++ us) :=
  first.append second fun _ _ => trivial

theorem blank (blank : Blank part) : CutInto suits part [] := by
  intro rest _
  rw [mapNothing]
  induction part with
  | nil => rfl
  | cons c cs ih =>
    obtain ⟨here, later⟩ := List.forall_mem_cons.mp blank
    rw [List.cons_append, cutBlank here, ih later]

theorem operator (op : Operator) : CutInto suits op.spelling.toList [.operator op] := by
  cases op <;> exact fun _ _ => cutNext rfl rfl

theorem openParen : CutInto suits ['('] [.openParen] := fun _ _ => cutNext rfl rfl

theorem closeParen : CutInto suits [')'] [.closeParen] := fun _ _ => cutNext rfl rfl

end CutInto

def Sign.token : Sign → Token
  | plus => .operator .plus
  | minus => .operator .minus
  | complement => .tilde

theorem CutInto.sign {suits : List Char → Prop} (sign : Sign) :
    CutInto suits [sign.spelling] [sign.token] := by
  cases sign <;> exact fun _ _ => cutNext rfl rfl

theorem nextTokenDecimal (digit : Text.isDigit c = true)
    (apart : ∀ x ∈ cs.head?, x ≠ 'x' ∧ x ≠ 'X') :
    nextToken c cs =
      (decimalToken (c :: cs.takeWhile Text.isDigit)).map (·, cs.dropWhile Text.isDigit) := by
  unfold nextToken
  split
  case h_1 | h_2 => cases digit
  case h_3 =>
    rw [if_pos digit]
    split
    case h_1 =>
      obtain ⟨lower, upper⟩ := apart _ rfl
      rw [if_neg fun marked => marked.1.elim lower upper]
    case h_2 => rfl

theorem nextTokenHexadecimal {x d : Char} (marks : x = 'x' ∨ x = 'X')
    (digit : Text.isHexDigit d = true) :
    nextToken '0' (x :: d :: cs) =
      (hexToken (d :: cs.takeWhile Text.isHexDigit)).map (·, cs.dropWhile Text.isHexDigit) := by
  change (if (x = 'x' ∨ x = 'X') ∧ Text.isHexDigit d then _ else _) = _
  rw [if_pos ⟨marks, digit⟩, List.takeWhile_cons_of_pos digit, List.dropWhile_cons_of_pos digit]

theorem decimalTokenSmall (small : Text.natOfDigits cs < 2 ^ 63) :
    decimalToken cs = .ok (.number (Int64.ofNat (Text.natOfDigits cs))) :=
  if_pos small

theorem hexTokenSmall (small : natOfHex cs < 2 ^ 64) :
    hexToken cs = .ok (.number (Int64.ofNat (natOfHex cs))) :=
  if_pos small

theorem foldDigits {base : Nat} {digit : Char → Nat} (wide : 1 < base)
    (reads : ∀ d < base, digit (Nat.digitChar d) = d) (n : Nat) :
    (Nat.toDigits base n).foldl (fun n c => base * n + digit c) 0 = n := by
  induction n using Nat.strongRecOn with
  | ind n ih =>
    rw [Nat.toDigits_eq_if wide]
    split
    case isTrue small => simp [reads n small]
    case isFalse large =>
      have positive : 0 < n := by omega
      rw [List.foldl_append, ih _ (Nat.div_lt_self positive wide)]
      simp [reads _ (Nat.mod_lt n (by omega)), Nat.div_add_mod]

theorem foldZeros {base zeros : Nat} {digit : Char → Nat} (zero : digit '0' = 0)
    (digits : List Char) :
    (List.replicate zeros '0' ++ digits).foldl (fun n c => base * n + digit c) 0 =
      digits.foldl (fun n c => base * n + digit c) 0 := by
  induction zeros with
  | zero => rfl
  | succ zeros ih => simpa [List.replicate_succ, zero] using ih

theorem digitsMember {base n : Nat} (wide : 1 < base) (member : c ∈ Nat.toDigits base n) :
    ∃ d < base, c = Nat.digitChar d := by
  induction n using Nat.strongRecOn with
  | ind n ih =>
    rw [Nat.toDigits_eq_if wide] at member
    split at member
    case isTrue small => exact ⟨n, small, List.mem_singleton.mp member⟩
    case isFalse large =>
      have positive : 0 < n := by omega
      rcases List.mem_append.mp member with front | last
      · exact ih _ (Nat.div_lt_self positive wide) front
      · exact ⟨n % base, Nat.mod_lt n (by omega), List.mem_singleton.mp last⟩

theorem takeBefore {p : Char → Bool} (all : ∀ c ∈ cs, p c = true)
    (stops : ∀ c ∈ rest.head?, p c = false) :
    (cs ++ rest).takeWhile p = cs ∧ (cs ++ rest).dropWhile p = rest := by
  rw [List.takeWhile_append_of_pos all, List.dropWhile_append_of_pos all]
  cases rest with
  | nil => simp
  | cons c rest => simp [stops c rfl]

theorem digitPlain (digit : Text.isDigit c = true) :
    Text.isHexDigit c = true ∧ isBlank c = false ∧ c ≠ 'x' ∧ c ≠ 'X' := by
  refine ⟨by simp [Text.isHexDigit, digit], ?_, ?_, ?_⟩
  · by_contra blank
    simp only [Bool.not_eq_false, isBlank, Bool.or_eq_true, beq_iff_eq] at blank
    rcases blank with ((rfl | rfl) | rfl) | rfl <;> cases digit
  · rintro rfl
    cases digit
  · rintro rfl
    cases digit

namespace CutInto

theorem decimal (some : cs ≠ []) (digits : ∀ c ∈ cs, Text.isDigit c = true)
    (small : Text.natOfDigits cs < 2 ^ 63) :
    CutInto Apart cs [.number (Int64.ofNat (Text.natOfDigits cs))] := by
  intro rest apart
  obtain ⟨c, cs, rfl⟩ := List.exists_cons_of_ne_nil some
  obtain ⟨digit, digits⟩ := List.forall_mem_cons.mp digits
  have stops : ∀ c ∈ rest.head?, Text.isDigit c = false := by
    intro c first
    by_contra digit
    have none := (apart c first).1
    cases none.symm.trans (digitPlain (Bool.not_eq_false _ ▸ digit)).1
  have plain : ∀ x ∈ (cs ++ rest).head?, x ≠ 'x' ∧ x ≠ 'X' := by
    cases cs with
    | nil => exact fun x first => (apart x first).2
    | cons d cs =>
      rintro x ⟨⟩
      exact (digitPlain (digits d List.mem_cons_self)).2.2
  obtain ⟨taken, dropped⟩ := takeBefore digits stops
  have next := nextTokenDecimal digit plain
  rw [taken, dropped, decimalTokenSmall small] at next
  exact cutNext (digitPlain digit).2.1 next

theorem hexadecimal {x : Char} (marks : x = 'x' ∨ x = 'X') (some : cs ≠ [])
    (digits : ∀ c ∈ cs, Text.isHexDigit c = true) (small : natOfHex cs < 2 ^ 64) :
    CutInto Apart ('0' :: x :: cs) [.number (Int64.ofNat (natOfHex cs))] := by
  intro rest apart
  obtain ⟨d, cs, rfl⟩ := List.exists_cons_of_ne_nil some
  obtain ⟨digit, digits⟩ := List.forall_mem_cons.mp digits
  obtain ⟨taken, dropped⟩ := takeBefore digits fun c first => (apart c first).1
  have next : nextToken '0' (x :: d :: (cs ++ rest)) = _ := nextTokenHexadecimal marks digit
  rw [taken, dropped, hexTokenSmall small] at next
  exact cutNext rfl next

end CutInto

theorem hexValueLower (digit : Text.isHexDigit c.toLower = true) :
    Text.isHexDigit c = true ∧ hexValue c = hexValue c.toLower := by
  by_cases capital : 'A' ≤ c ∧ c ≤ 'Z'
  · have all : ∀ n < 128, Text.isHexDigit (Char.ofNat n).toLower = true →
        Text.isHexDigit (Char.ofNat n) = true ∧
          hexValue (Char.ofNat n) = hexValue (Char.ofNat n).toLower := by
      decide +kernel
    have small : c.toNat < 128 := Nat.lt_of_le_of_lt capital.2 (by decide)
    have here := all c.toNat small
    rw [Char.ofNat_toNat] at here
    exact here digit
  · have same : c.toLower = c := dif_neg capital
    rw [same] at digit ⊢
    exact ⟨digit, rfl⟩

theorem digitCharMember {base : Nat} {p : Char → Bool} (wide : 1 < base)
    (all : ∀ d < base, p (Nat.digitChar d) = true) (n : Nat) :
    ∀ c ∈ Nat.toDigits base n, p c = true := by
  intro c member
  obtain ⟨d, inside, rfl⟩ := digitsMember wide member
  exact all d inside

theorem zerosMember {p : Char → Bool} {zeros : Nat} (zero : p '0' = true)
    (digits : ∀ c ∈ cs, p c = true) : ∀ c ∈ List.replicate zeros '0' ++ cs, p c = true := by
  intro c member
  rcases List.mem_append.mp member with front | later
  · rw [List.eq_of_mem_replicate front]
    exact zero
  · exact digits c later

theorem Literal.Spelled.cutInto {l : Literal} (spelled : l.Spelled cs) :
    CutInto Apart cs [.number l.word] := by
  cases spelled with
  | decimal n small zeros =>
    have value : Text.natOfDigits (List.replicate zeros '0' ++ Nat.toDigits 10 n) = n :=
      (foldZeros rfl _).trans (foldDigits (by decide) (by decide) n)
    have digits : ∀ c ∈ List.replicate zeros '0' ++ Nat.toDigits 10 n, Text.isDigit c = true :=
      zerosMember rfl (digitCharMember (by decide) (by decide) n)
    have whole := CutInto.decimal (by simp) digits (value.symm ▸ small)
    rw [value] at whole
    exact whole
  | @hexadecimal n small x marks zeros digits same =>
    have lower : ∀ c ∈ digits, Text.isHexDigit c.toLower = true := by
      intro c member
      have inside := List.mem_map_of_mem (f := Char.toLower) member
      rw [same] at inside
      exact digitCharMember (by decide) (by decide) n _ inside
    have plain : natOfHex digits = n := by
      calc natOfHex digits
        _ = natOfHex (digits.map Char.toLower) := by
          rw [natOfHex, natOfHex, List.foldl_map]
          exact List.foldl_ext _ _ _ fun n c member => by rw [(hexValueLower (lower c member)).2]
        _ = n := by
          rw [same]
          exact foldDigits (by decide) (by decide) n
    have value : natOfHex (List.replicate zeros '0' ++ digits) = n := (foldZeros rfl _).trans plain
    have some : digits ≠ [] := by
      rintro rfl
      simp at same
    have all : ∀ c ∈ List.replicate zeros '0' ++ digits, Text.isHexDigit c = true :=
      zerosMember rfl fun c member => (hexValueLower (lower c member)).1
    have whole := CutInto.hexadecimal marks (by simp [some]) all (value.symm ▸ small)
    rw [value] at whole
    exact whole

end CMakeScript.Arithmetic
