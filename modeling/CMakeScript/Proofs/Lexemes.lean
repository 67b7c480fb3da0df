import CMakeScript.ListFile.Grammar
import Mathlib.Data.List.TakeWhile
/-! The pieces that the scanners cut off are those of the grammar: what a scanner takes has the form
that its name says, and a text of that form is taken as a whole if what follows cannot go on
with it. -/
namespace CMakeScript

namespace Text

theorem cutAtSplits {mark cs before after : List Char}
    (found : cutAt mark cs = some (before, after)) : cs = before ++ mark ++ after := by
  induction cs generalizing before with
  | nil =>
    rw [cutAt] at found
    split at found
    · rename_i empty
      cases found
      rw [List.isEmpty_iff.mp empty]
      rfl
    · cases found
  | cons c cs ih =>
    rw [cutAt] at found
    split at found
    · rename_i starts
      obtain ⟨rest, same⟩ := List.isPrefixOf_iff_prefix.mp starts
      cases found
      rw [← same, List.drop_left, List.nil_append]
    · obtain ⟨⟨inner, rest⟩, cut, same⟩ := Option.map_eq_some_iff.mp found
      cases same
      rw [ih cut]
      rfl

theorem cutAtFirst {mark before : List Char} (after : List Char) (occupied : mark ≠ [])
    (first : ¬mark <:+: before ++ mark.dropLast) :
    cutAt mark (before ++ mark ++ after) = some (before, after) := by
  induction before with
  | nil =>
    obtain ⟨m, rest, rfl⟩ := List.exists_cons_of_ne_nil occupied
    have here : (m :: rest).isPrefixOf (m :: (rest ++ after)) = true :=
      List.isPrefixOf_iff_prefix.mpr ⟨after, rfl⟩
    rw [List.nil_append, List.cons_append, cutAt, if_pos here]
    simp
  | cons c before ih =>
    have here : ¬mark.isPrefixOf (c :: (before ++ mark ++ after)) = true := by
      intro starts
      have short : mark <+: c :: before ++ mark.dropLast := by
        refine List.prefix_of_prefix_length_le (List.isPrefixOf_iff_prefix.mp starts)
          ⟨mark.drop (mark.length - 1) ++ after, ?_⟩ ?_
        · rw [List.dropLast_eq_take, ← List.append_assoc, List.append_assoc (c :: before),
            List.take_append_drop]
          simp
        · simp
          omega
      exact first short.isInfix
    have later := ih fun inside => first (inside.trans ⟨[c], [], by simp⟩)
    rw [List.cons_append, List.cons_append, cutAt, if_neg here, later]
    rfl

end Text

namespace Lexeme

theorem nameTakes {cs name rest : List Char} (found : name? cs = some (name, rest)) :
    IsName name ∧ cs = name ++ rest := by
  cases cs with
  | nil => cases found
  | cons c cs =>
    rw [name?] at found
    split at found
    · rename_i start
      obtain ⟨rfl, rfl⟩ : c :: cs.takeWhile isNameRest = name ∧ cs.dropWhile isNameRest = rest := by
        simpa using found
      exact ⟨⟨c, _, rfl, start, fun d member => List.mem_takeWhile_imp member⟩, by simp⟩
    · cases found

theorem nameWhole {name rest : List Char} (valid : IsName name)
    (ends : ∀ c ∈ rest.head?, isNameRest c = false) : name? (name ++ rest) = some (name, rest) := by
  obtain ⟨c, inner, rfl, start, more⟩ := valid
  have stop : rest.takeWhile isNameRest = [] ∧ rest.dropWhile isNameRest = rest := by
    cases rest with
    | nil => exact ⟨rfl, rfl⟩
    | cons d rest => simp [ends d rfl]
  rw [List.cons_append, name?, if_pos start, List.takeWhile_append_of_pos more,
    List.dropWhile_append_of_pos more, stop.1, stop.2, List.append_nil]

theorem newlineTakes {cs taken rest : List Char} (found : newline? cs = some (taken, rest)) :
    cs = taken ++ rest := by
  unfold newline? at found
  split at found
  · cases found
    rfl
  · cases found
    rfl
  · cases found
    rfl
  · cases found

theorem bracketOpenTakes {cs inside : List Char} {level : Nat}
    (found : bracketOpen? cs = some (level, inside)) : cs = bracketMark '[' level ++ inside := by
  unfold bracketOpen? at found
  split at found
  · rename_i cs
    split at found
    · rename_i rest opened
      obtain ⟨rfl, rfl⟩ := Prod.mk.inj (Option.some.inj found)
      have equals : cs.takeWhile (· == '=') =
          List.replicate (cs.takeWhile (· == '=')).length '=' :=
        List.eq_replicate_of_mem fun c member => by simpa using List.mem_takeWhile_imp member
      rw [bracketMark, ← equals, List.cons_append, List.cons_append, List.append_assoc,
        List.singleton_append, ← opened, List.takeWhile_append_dropWhile]
    · cases found
  · cases found

theorem bracketOpenWhole (level : Nat) (inside : List Char) :
    bracketOpen? (bracketMark '[' level ++ inside) = some (level, inside) := by
  have equals : ∀ c ∈ List.replicate level '=', (c == '=') = true := by simp
  simp [bracketMark, bracketOpen?, List.takeWhile_append_of_pos equals,
    List.dropWhile_append_of_pos equals]

theorem bracketOpenNone {cs : List Char} :
    bracketOpen? cs = none ↔ ∀ level, ¬bracketMark '[' level <+: cs := by
  constructor
  · rintro closed level ⟨inside, rfl⟩
    rw [bracketOpenWhole] at closed
    cases closed
  · intro closed
    cases found : bracketOpen? cs with
    | none => rfl
    | some opened => exact absurd ⟨_, (bracketOpenTakes found).symm⟩ (closed opened.1)

theorem quotedBodyTakes {cs body rest : List Char} (found : quotedBody? cs = some (body, rest)) :
    IsSpan body ∧ cs = body ++ '"' :: rest := by
  fun_induction quotedBody? cs generalizing body with
  | case1 => cases found
  | case2 cs =>
    obtain ⟨rfl, rfl⟩ := Prod.mk.inj (Option.some.inj found)
    exact ⟨.nil, rfl⟩
  | case3 c cs ih =>
    obtain ⟨⟨inner, more⟩, read, same⟩ := Option.map_eq_some_iff.mp found
    obtain ⟨rfl, rfl⟩ := Prod.mk.inj same
    obtain ⟨span, rfl⟩ := ih read
    exact ⟨.pair span, rfl⟩
  | case4 => cases found
  | case5 c cs notQuote notPair notSlash ih =>
    obtain ⟨⟨inner, more⟩, read, same⟩ := Option.map_eq_some_iff.mp found
    obtain ⟨rfl, rfl⟩ := Prod.mk.inj same
    obtain ⟨span, rfl⟩ := ih read
    refine ⟨.plain notQuote (fun slash => ?_) span, rfl⟩
    cases inner with
    | nil => exact notPair _ _ slash rfl
    | cons => exact notPair _ _ slash rfl

theorem quotedBodyWhole {body : List Char} (span : IsSpan body) (rest : List Char) :
    quotedBody? (body ++ '"' :: rest) = some (body, rest) := by
  induction span with
  | nil => rfl
  | plain quote slash _ ih => simp [quotedBody?, slash, ih]
  | pair _ ih => simp [quotedBody?, ih]

theorem joinLinesSpan {cs : List Char} (span : IsSpan cs) : IsQuotedValue (joinLines cs) := by
  fun_induction joinLines cs with
  | case1 cs ih =>
    cases span with
    | plain _ slash => exact absurd rfl slash
    | pair rest =>
      cases rest with
      | plain _ _ rest => exact ih rest
  | case2 cs more ih =>
    cases span with
    | plain _ slash => exact absurd rfl slash
    | pair rest => exact ih rest
  | case3 cs ih =>
    cases span with
    | plain _ slash => exact absurd rfl slash
    | pair rest => exact ih rest
  | case4 c cs notBoth notReturn notFeed ih =>
    cases span with
    | plain _ slash => exact absurd rfl slash
    | pair rest =>
      have inLine : isLineEnd c = false := by
        rw [isLineEnd, Bool.or_eq_false_iff, beq_eq_false_iff_ne, beq_eq_false_iff_ne]
        exact ⟨fun feed => notFeed feed, fun ends => notReturn ends⟩
      exact .pair inLine (ih rest)
  | case5 c cs _ _ _ notPair ih =>
    cases span with
    | plain quote slash rest => exact .plain quote slash (ih rest)
    | pair => exact (notPair _ _ rfl rfl).elim
  | case6 => exact .nil

theorem joinLinesQuoted {cs : List Char} (value : IsQuotedValue cs) : joinLines cs = cs := by
  induction value with
  | nil => rfl
  | plain _ slash _ ih => simp [joinLines, slash, ih]
  | @pair c cs sameLine _ ih =>
    obtain ⟨notFeed, notReturn⟩ : c ≠ '\n' ∧ c ≠ '\r' := by simpa [isLineEnd] using sameLine
    simp [joinLines, notReturn, ih]

theorem IsQuotedValue.span {cs : List Char} (value : IsQuotedValue cs) : IsSpan cs := by
  induction value with
  | nil => exact .nil
  | plain quote slash _ ih => exact .plain quote slash ih
  | pair _ _ ih => exact .pair ih

theorem unquotedSpan {inside : List Char} (span : IsSpan inside) (cs : List Char) :
    unquoted? true (inside ++ '"' :: cs) =
      (unquoted? false cs).map fun (body, rest) => (inside ++ '"' :: body, rest) := by
  induction span with
  | nil => simp [unquoted?]
  | plain quote slash _ ih => simp [unquoted?, quote, slash, ih]; rfl
  | pair _ ih => simp [unquoted?, ih]; rfl

theorem unquotedWhole {value rest : List Char} (text : IsUnquotedText value) {c : Char}
    (ends : endsUnquoted c = true) : unquoted? false (value ++ c :: rest) = some (value, c :: rest) := by
  induction text with
  | nil =>
    have notSlash : c ≠ '\\' := by rintro rfl; cases ends
    have notQuote : c ≠ '"' := by rintro rfl; cases ends
    simp [unquoted?, notSlash, notQuote, ends]
  | plain inside quote slash _ ih => simp [unquoted?, inside, quote, slash, ih]
  | pair _ ih => simp [unquoted?, ih]
  | span quoted _ ih =>
    simp [unquoted?, unquotedSpan quoted, ih]

theorem unquotedSplits {inQuote : Bool} {cs body rest : List Char}
    (found : unquoted? inQuote cs = some (body, rest)) : cs = body ++ rest := by
  fun_induction unquoted? inQuote cs generalizing body with
  | case1 | case3 => cases found
  | case2 | case4 | case7 =>
    obtain ⟨rfl, rfl⟩ := Prod.mk.inj (Option.some.inj found)
    rfl
  | case5 _ _ _ ih | case6 _ _ _ _ ih | case8 _ _ _ _ _ _ _ ih =>
    obtain ⟨⟨inner, left⟩, read, same⟩ := Option.map_eq_some_iff.mp found
    obtain ⟨rfl, rfl⟩ := Prod.mk.inj same
    rw [ih read]
    rfl

def IsUnquotedRest : Bool → List Char → Prop
  | false, cs => IsUnquotedText cs
  | true, cs => ∃ inside value, cs = inside ++ '"' :: value ∧ IsSpan inside ∧ IsUnquotedText value

namespace IsUnquotedRest

variable {inQuote : Bool} {c : Char} {cs : List Char}

theorem pair (rest : IsUnquotedRest inQuote cs) : IsUnquotedRest inQuote ('\\' :: c :: cs) := by
  cases inQuote with
  | false => exact IsUnquotedText.pair rest
  | true =>
    obtain ⟨inside, value, rfl, span, text⟩ := rest
    exact ⟨'\\' :: c :: inside, value, rfl, .pair span, text⟩

theorem quote (rest : IsUnquotedRest (!inQuote) cs) : IsUnquotedRest inQuote ('"' :: cs) := by
  cases inQuote with
  | false =>
    obtain ⟨inside, value, rfl, span, text⟩ := rest
    exact IsUnquotedText.span span text
  | true => exact ⟨[], cs, rfl, .nil, rest⟩

theorem plain (goesOn : inQuote = false → endsUnquoted c = false) (quote : c ≠ '"')
    (slash : c ≠ '\\') (rest : IsUnquotedRest inQuote cs) :
    IsUnquotedRest inQuote (c :: cs) := by
  cases inQuote with
  | false => exact IsUnquotedText.plain (goesOn rfl) quote slash rest
  | true =>
    obtain ⟨inside, value, rfl, span, text⟩ := rest
    exact ⟨c :: inside, value, rfl, .plain quote slash span, text⟩

end IsUnquotedRest

theorem unquotedTakes {inQuote : Bool} {cs body rest : List Char}
    (found : unquoted? inQuote cs = some (body, rest)) (more : rest ≠ []) :
    IsUnquotedRest inQuote body := by
  fun_induction unquoted? inQuote cs generalizing body with
  | case1 | case3 => cases found
  | case2 | case4 => exact absurd (Prod.mk.inj (Option.some.inj found)).2.symm more
  | case5 inQuote c cs ih =>
    obtain ⟨⟨inner, left⟩, read, same⟩ := Option.map_eq_some_iff.mp found
    obtain ⟨rfl, rfl⟩ := Prod.mk.inj same
    exact (ih read).pair
  | case6 inQuote cs _ _ ih =>
    obtain ⟨⟨inner, left⟩, read, same⟩ := Option.map_eq_some_iff.mp found
    obtain ⟨rfl, rfl⟩ := Prod.mk.inj same
    exact (ih read).quote
  | case7 inQuote c cs _ _ _ ends =>
    obtain ⟨rfl, rfl⟩ := Prod.mk.inj (Option.some.inj found)
    obtain ⟨rfl, -⟩ : inQuote = false ∧ endsUnquoted c = true := by simpa using ends
    exact IsUnquotedText.nil
  | case8 inQuote c cs atEnd notPair notQuote goesOn ih =>
    obtain ⟨⟨inner, left⟩, read, same⟩ := Option.map_eq_some_iff.mp found
    obtain ⟨rfl, rfl⟩ := Prod.mk.inj same
    refine (ih read).plain (fun outside => ?_) notQuote fun slash => ?_
    · simpa [outside] using goesOn
    · cases cs with
      | nil => exact atEnd slash rfl
      | cons d cs => exact notPair d cs slash rfl

end Lexeme
end CMakeScript
