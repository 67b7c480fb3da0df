import CMakeScript.Expansion.ByteScan
import CMakeScript.Proofs.ExpansionReading
/-! The scan over bytes gives the expansion. All its offsets stand between two characters, except
behind an escaped character that is longer than one byte: the scan goes on inside of it, and the
bytes that are left of it stand for themselves. -/
namespace CMakeScript.Expansion

theorem byteInside (front : List Char) (c : Char) (cs : List Char) {k : Nat}
    (short : k < c.utf8Size) :
    (Text.bytes (front ++ c :: cs))[Text.byteLength front + k]? =
      (String.utf8EncodeChar c)[k]? := by
  have size : (String.utf8EncodeChar c).length = c.utf8Size := String.length_utf8EncodeChar c
  rw [Text.bytesAppend, List.getElem?_append_right (by simp), Text.bytesLength,
    Nat.add_sub_cancel_left, Text.bytes, List.flatMap_cons, List.getElem?_append_left (by omega)]

theorem byteAscii {c : Char} (ascii : Text.isAscii c = true) (front cs : List Char) :
    (Text.bytes (front ++ c :: cs))[Text.byteLength front]?.map Char.ofUInt8 = some c := by
  obtain ⟨b, encoded, back⟩ := Text.asciiBytes ascii
  have here := byteInside front c cs c.utf8Size_pos
  rw [Nat.add_zero, encoded] at here
  rw [here]
  exact congrArg some back

theorem byteOther {c : Char} (other : Text.isAscii c = false) (front cs : List Char) {k : Nat}
    (short : k < c.utf8Size) : ∃ b, (Text.bytes (front ++ c :: cs))[Text.byteLength front + k]? =
      some b ∧ Text.isAscii (Char.ofUInt8 b) = false := by
  have size : (String.utf8EncodeChar c).length = c.utf8Size := String.length_utf8EncodeChar c
  have inside : k < (String.utf8EncodeChar c).length := by omega
  refine ⟨(String.utf8EncodeChar c)[k], ?_, Text.otherBytes other _ (List.getElem_mem inside)⟩
  rw [byteInside front c cs short, List.getElem?_eq_getElem inside]

def before : List OpenReference → List Char
  | [] => []
  | ref :: outer => before outer ++ ref.before.reverse

def offsets : List OpenReference → List (ReferenceKind × Nat)
  | [] => []
  | ref :: outer => (ref.kind, Text.byteLength (before (ref :: outer))) :: offsets outer

@[simp] theorem offsetsEmpty (refs : List OpenReference) :
    (offsets refs).isEmpty = refs.isEmpty := by
  cases refs <;> rfl

structure Follows (text : List Char) (refs : List OpenReference) (done cs : List Char)
    (index last : Nat) (result : List Char) (opened : List (ReferenceKind × Nat))
    (front pending name : List Char) : Prop where
  text : text = front ++ (pending ++ cs)
  last : last = Text.byteLength front
  index : index = Text.byteLength front + Text.byteLength pending
  done : done.reverse = name ++ pending
  result : result = before refs ++ name
  opened : opened = offsets refs

namespace Follows

variable {text : List Char} {refs : List OpenReference} {done cs : List Char} {index last : Nat}
  {result : List Char} {opened : List (ReferenceKind × Nat)} {front pending name : List Char}

theorem pendingSlice (f : Follows text refs done cs index last result opened front pending name) :
    Text.slice? text last index = some pending := by
  rw [f.text, f.last, f.index, Text.sliceMiddle]

theorem resultPending
    (f : Follows text refs done cs index last result opened front pending name) :
    result ++ pending = before refs ++ done.reverse := by
  rw [f.result, f.done, List.append_assoc]

theorem restSplit (f : Follows text refs done cs index last result opened front pending name) :
    Text.splitBytes? index text = some (front ++ pending, cs) := by
  rw [f.text, f.index, ← List.append_assoc, ← Text.byteLengthAppend, Text.splitBytesAppend]

theorem replaced (piece : List Char) {ds : List Char}
    (f : Follows text refs done (piece ++ ds) index last result opened front pending name)
    {size : Nat} (measured : size = Text.byteLength piece) {refs' : List OpenReference}
    {done' result' : List Char} (copied : result' = before refs' ++ done'.reverse) :
    Follows text refs' done' ds (index + size) (index + size) result' (offsets refs')
      (front ++ (pending ++ piece)) [] done'.reverse := by
  have place : index + size = Text.byteLength (front ++ (pending ++ piece)) := by
    simp [f.index, measured, Nat.add_assoc]
  refine ⟨?_, place, place, (List.append_nil _).symm, copied, rfl⟩
  rw [f.text]
  simp

theorem passes {c : Char}
    (f : Follows text refs done (c :: cs) index last result opened front pending name) :
    Follows text refs (c :: done) cs (index + c.utf8Size) last result opened front
      (pending ++ [c]) name := by
  refine ⟨?_, f.last, ?_, ?_, f.result, f.opened⟩
  · rw [f.text]
    simp
  · rw [f.index]
    simp [Text.byteLength, Nat.add_assoc]
  · simp [f.done]

theorem passesByte {c : Char} (ascii : Text.isAscii c = true)
    (f : Follows text refs done (c :: cs) index last result opened front pending name) :
    Follows text refs (c :: done) cs (index + 1) last result opened front
      (pending ++ [c]) name :=
  Text.asciiSize ascii ▸ f.passes

theorem byte {c : Char} (ascii : Text.isAscii c = true)
    (f : Follows text refs done (c :: cs) index last result opened front pending name) :
    ∃ b, (Text.bytes text)[index]? = some b ∧ Char.ofUInt8 b = c := by
  have here := byteAscii ascii (front ++ pending) cs
  rw [List.append_assoc, ← f.text, Text.byteLengthAppend, ← f.index] at here
  exact Option.map_eq_some_iff.mp here

theorem bytes {c : Char} (other : Text.isAscii c = false)
    (f : Follows text refs done (c :: cs) index last result opened front pending name) {k : Nat}
    (short : k < c.utf8Size) : ∃ b, (Text.bytes text)[index + k]? = some b ∧
      Text.isAscii (Char.ofUInt8 b) = false := by
  have here := byteOther other (front ++ pending) cs short
  rwa [List.append_assoc, ← f.text, Text.byteLengthAppend, ← f.index] at here

theorem bytesBehind
    (f : Follows text refs done cs index last result opened front pending name) :
    (Text.bytes text).drop index = Text.bytes cs := by
  rw [f.text, f.index, ← List.append_assoc, Text.bytesAppend, ← Text.byteLengthAppend,
    ← Text.bytesLength, List.drop_left]

theorem error (f : Follows text refs done cs index last result opened front pending name)
    (inside : refs.isEmpty = false) (c : Char) :
    invalidName text index last result opened c =
      some (.error (.invalidNameChar c done.reverse)) := by
  cases refs with
  | nil => cases inside
  | cons ref outer =>
    rw [invalidName, f.pendingSlice, f.opened, f.result, f.done]
    simp [offsets]

end Follows

theorem quoteFound (escape : Bool) (found : Option String) :
    (found.map (quoteValue escape)).getD [] = quoteValue escape (found.getD "") := by
  cases found <;> simp [quoteValue, Text.replaceChar]

theorem otherSpecial {c : Char} (other : Text.isAscii c = false) :
    c ∉ ['}', '$', '\\', '@'] := by
  intro member
  simp only [List.mem_cons, List.not_mem_nil, or_false] at member
  rcases member with rfl | rfl | rfl | rfl <;> cases other

theorem alphanumericAscii {c : Char} (known : Text.isAlphanumeric c = true) :
    Text.isAscii c = true := by
  have below {last : Char} (before : c ≤ last) (small : last.toNat < 128) :
      Text.isAscii c = true := decide_eq_true (Nat.lt_of_le_of_lt before small)
  simp only [Text.isAlphanumeric, Text.isLetter, Text.isDigit, Bool.or_eq_true, Bool.and_eq_true,
    decide_eq_true_eq] at known
  rcases known with (⟨-, before⟩ | ⟨-, before⟩) | ⟨-, before⟩
  · exact below before (by decide)
  · exact below before (by decide)
  · exact below before (by decide)

theorem otherEscape {c : Char} (other : Text.isAscii c = false) :
    controlEscape? c = none ∧ c ≠ ';' ∧ Text.isAlphanumeric c = false := by
  refine ⟨?_, ?_, ?_⟩
  · unfold controlEscape?
    split
    · cases other
    · cases other
    · cases other
    · rfl
  · rintro rfl
    cases other
  · refine eq_false_of_ne_true fun known => ?_
    cases other.symm.trans (alphanumericAscii known)

theorem nameAscii {c : Char} (name : isNameChar c = true) : Text.isAscii c = true := by
  simp only [isNameChar, Bool.or_eq_true, beq_iff_eq] at name
  rcases name with ((((known | rfl) | rfl) | rfl) | rfl) | rfl
  · exact alphanumericAscii known
  all_goals rfl

theorem nameBytesSplit (cs : List Char) :
    (nameBytes (Text.bytes cs)).length = Text.byteLength (cs.takeWhile isNameChar) ∧
      (Text.bytes cs).drop (nameBytes (Text.bytes cs)).length =
        Text.bytes (cs.dropWhile isNameChar) := by
  induction cs with
  | nil => exact ⟨rfl, rfl⟩
  | cons c cs ih =>
    cases name : isNameChar c with
    | true =>
      obtain ⟨b, encoded, back⟩ := Text.asciiBytes (nameAscii name)
      have bytes : Text.bytes (c :: cs) = b :: Text.bytes cs := by
        rw [Text.bytes, List.flatMap_cons, encoded]
        rfl
      rw [nameBytes] at ih
      simpa [nameBytes, bytes, back, name, Text.byteLength, Text.asciiSize (nameAscii name),
        Nat.add_comm 1] using ih
    | false =>
      obtain ⟨b, more, encoded⟩ := List.exists_cons_of_ne_nil (@String.utf8EncodeChar_ne_nil c)
      have other : isNameChar (Char.ofUInt8 b) = false := by
        cases ascii : Text.isAscii c with
        | true =>
          obtain ⟨b', encoded', back⟩ := Text.asciiBytes ascii
          cases encoded.symm.trans encoded'
          rwa [back]
        | false =>
          have long := Text.otherBytes ascii b (by simp [encoded])
          refine eq_false_of_ne_true fun name => ?_
          cases long.symm.trans (nameAscii name)
      simp [nameBytes, Text.bytes, encoded, other, name, Text.byteLength]

theorem firstAt (cs : List Char) :
    (Text.bytes cs)[0]?.map Char.ofUInt8 = some '@' ↔ ∃ rest, cs = '@' :: rest := by
  cases cs with
  | nil => simp [Text.bytes]
  | cons c cs =>
    cases ascii : Text.isAscii c with
    | true =>
      have first := byteAscii ascii [] cs
      rw [Text.byteLength, List.nil_append] at first
      simp [first]
    | false =>
      obtain ⟨b, first, long⟩ := byteOther ascii [] cs c.utf8Size_pos
      rw [Text.byteLength, List.nil_append, Nat.zero_add] at first
      rw [first]
      constructor
      · intro same
        rw [Option.some.inj same] at long
        cases long
      · rintro ⟨rest, ⟨⟩⟩
        cases ascii

theorem atNameBytes (cs : List Char) :
    atNameLength? (Text.bytes cs) = (atName? cs).map fun found => Text.byteLength found.1 := by
  obtain ⟨length, behind⟩ := nameBytesSplit cs
  have next := firstAt (cs.dropWhile isNameChar)
  rw [← behind, List.getElem?_drop, Nat.add_zero] at next
  have occupied : 0 < (nameBytes (Text.bytes cs)).length ↔ cs.takeWhile isNameChar ≠ [] := by
    rw [length]
    cases cs.takeWhile isNameChar with
    | nil => simp [Text.byteLength]
    | cons c name =>
      have size := c.utf8Size_pos
      simp only [Text.byteLength, ne_eq, reduceCtorEq, not_false_eq_true, iff_true]
      omega
  rw [atNameLength?]
  cases found : atName? cs with
  | some entry =>
    obtain ⟨name, rest⟩ := entry
    obtain ⟨named, front, behind⟩ := atNameIff.mp found
    rw [if_pos ⟨occupied.mpr (front ▸ named), next.mpr ⟨rest, behind⟩⟩, length, front]
    rfl
  | none =>
    refine if_neg fun marked => ?_
    obtain ⟨named, mark⟩ := marked
    obtain ⟨rest, behind⟩ := next.mp mark
    cases found.symm.trans (atNameIff.mpr ⟨occupied.mp named, rfl, behind⟩)

section

variable (source : VariableSource) (options : ExpandOptions) {text : List Char}

theorem scanSkips (count : Nat) {index : Nat} (others : ∀ k < count, ∃ b,
      (Text.bytes text)[index + k]? = some b ∧ Text.isAscii (Char.ofUInt8 b) = false)
    (last : Nat) (result : List Char) (opened : List (ReferenceKind × Nat)) :
    scan source options text index last result opened =
      scan source options text (index + count) last result opened := by
  induction count generalizing index with
  | zero => rfl
  | succ count ih =>
    obtain ⟨b, here, other⟩ := others 0 (Nat.zero_lt_succ _)
    have special := otherSpecial other
    simp only [List.mem_cons, List.not_mem_nil, or_false, not_or] at special
    have later : ∀ k < count, ∃ b, (Text.bytes text)[index + 1 + k]? = some b ∧
        Text.isAscii (Char.ofUInt8 b) = false := by
      intro k short
      rw [Nat.add_right_comm]
      exact others (k + 1) (Nat.succ_lt_succ short)
    have next := ih later
    rw [Nat.add_right_comm] at next
    rw [Nat.add_zero] at here
    rw [← Nat.add_assoc, ← next, scanTurn source options here]
    simp [byteTurn, special, other]

theorem Follows.asciiTurn {refs : List OpenReference} {done cs : List Char} {index last : Nat}
    {result : List Char} {opened : List (ReferenceKind × Nat)} {front pending name : List Char}
    {c : Char} (ascii : Text.isAscii c = true)
    (f : Follows text refs done (c :: cs) index last result opened front pending name) :
    scan source options text index last result opened =
      byteTurn source options text index (fun next _ => scan source options text next) last result
        opened c := by
  obtain ⟨b, here, back⟩ := f.byte ascii
  rw [scanTurn source options here, back]

theorem Follows.skips {refs : List OpenReference} {done cs : List Char} {index last : Nat}
    {result : List Char} {opened : List (ReferenceKind × Nat)} {front pending name : List Char}
    {c : Char} (other : Text.isAscii c = false)
    (f : Follows text refs done (c :: cs) index last result opened front pending name) :
    scan source options text (index + 1) last result opened =
      scan source options text (index + c.utf8Size) last result opened := by
  have one := scanSkips source options 1
    (fun k short => f.bytes other (Nat.lt_of_lt_of_le short c.utf8Size_pos)) last result opened
  exact one.symm.trans
    (scanSkips source options c.utf8Size (fun k short => f.bytes other short) _ _ _)

def Agrees (text : List Char) (refs : List OpenReference) (done cs : List Char) : Prop :=
  ∀ ⦃index last : Nat⦄ ⦃result : List Char⦄ ⦃opened : List (ReferenceKind × Nat)⦄
    ⦃front pending name : List Char⦄,
    Follows text refs done cs index last result opened front pending name →
    scan source options text index last result opened = some (walk source options refs done cs)

theorem endAgrees (refs : List OpenReference) (done : List Char) :
    Agrees source options text refs done [] := by
  intro index last result opened front pending name f
  have size : index = (Text.bytes text).length := by
    rw [f.index, f.text]
    simp
  have outside : (Text.bytes text)[index]? = none := by simp [size]
  have short : last ≤ Text.byteLength text := by
    rw [f.last, f.text, Text.byteLengthAppend]
    exact Nat.le_add_right _ _
  have rest := f.pendingSlice
  rw [size, Text.bytesLength] at rest
  rw [scanEnd source options outside, f.opened, walkEnd]
  cases refs with
  | nil => simp [offsets, Nat.min_eq_left short, rest, f.resultPending, before]
  | cons ref outer => rfl

variable {refs : List OpenReference} {done cs : List Char} {index last : Nat}
  {result : List Char} {opened : List (ReferenceKind × Nat)} {front pending name : List Char}

section

variable {rest : List Char} (after : ∀ refs done, Agrees source options text refs done rest)

include after

theorem openingAgrees {kind : ReferenceKind} (split : '$' :: cs = kind.opening ++ rest)
    (atOnly : options.atOnly = false)
    (f : Follows text refs done ('$' :: cs) index last result opened front pending name) :
    scan source options text index last result opened =
      some (turn source options (walk source options) refs done '$' cs) := by
  have opens : opening? ('$' :: cs) = some (kind, kind.opening.length) := by
    rw [split, openingSpelled]
  have size : kind.opening.length = Text.byteLength kind.opening := by cases kind <;> rfl
  have copied : before refs ++ done.reverse = before (⟨kind, done⟩ :: refs) ++ [].reverse :=
    (List.append_nil _).symm
  have next := after (⟨kind, done⟩ :: refs) [] ((split ▸ f).replaced kind.opening size copied)
  have behind : ('$' :: cs).drop kind.opening.length = rest := by rw [split, List.drop_left]
  rw [f.asciiTurn source options (by decide), turn.eq_def, f.opened]
  simpa [byteTurn, atOnly, f.restSplit, opens, f.pendingSlice, f.resultPending, behind, offsets,
    before, -Text.byteLengthAppend] using next

theorem longEscapeAgrees {d : Char} (other : Text.isAscii d = false)
    (escapes : options.noEscapes = false)
    (f : Follows text refs done ('\\' :: d :: rest) index last result opened front pending name) :
    scan source options text index last result opened =
      some (turn source options (walk source options) refs done '\\' (d :: rest)) := by
  obtain ⟨b, here, other'⟩ := (f.passesByte (by decide)).bytes other d.utf8Size_pos
  obtain ⟨control, separator, alphanumeric⟩ := otherEscape other
  obtain ⟨control', separator', alphanumeric'⟩ := otherEscape other'
  have behind := f.replaced ['\\'] (Eq.refl 1) f.resultPending
  have escaped := after refs (d :: done) behind.passes
  rw [← behind.skips source options other] at escaped
  rw [Nat.add_zero] at here
  rw [f.asciiTurn source options (by decide), f.opened]
  simpa [byteTurn, escapes, here, control, separator, alphanumeric, f.pendingSlice, turn, control',
    separator', alphanumeric'] using escaped

theorem byteEscapeAgrees {d : Char} (ascii : Text.isAscii d = true)
    (escapes : options.noEscapes = false)
    (f : Follows text refs done ('\\' :: d :: rest) index last result opened front pending name) :
    scan source options text index last result opened =
      some (turn source options (walk source options) refs done '\\' (d :: rest)) := by
  have next := f.passesByte (by decide)
  obtain ⟨b, here, back⟩ := next.byte ascii
  rw [f.asciiTurn source options (by decide)]
  have place := f.opened
  subst place
  cases control : controlEscape? d with
  | some mark =>
    have copied : result ++ (pending ++ [mark]) = before refs ++ (mark :: done).reverse := by
      rw [← List.append_assoc, f.resultPending]
      simp
    have size : 2 = Text.byteLength ['\\', d] := by
      rw [Text.byteLength, Text.byteLength, Text.asciiSize ascii]
      rfl
    have escaped := after refs (mark :: done) (f.replaced ['\\', d] size copied)
    simpa [byteTurn, escapes, here, back, control, f.pendingSlice, turn] using escaped
  | none =>
    by_cases separator : d = ';' ∧ refs = []
    · obtain ⟨rfl, rfl⟩ := separator
      have kept := after [] (';' :: '\\' :: done) (next.passesByte ascii)
      simpa [byteTurn, escapes, here, back, control, offsets, turn] using kept
    · cases alphanumeric : Text.isAlphanumeric d with
      | true => simp [byteTurn, escapes, here, back, control, separator, alphanumeric, turn]
      | false =>
        have behind := f.replaced ['\\'] (Eq.refl 1) f.resultPending
        have escaped := after refs (d :: done) (behind.passesByte ascii)
        simpa [byteTurn, escapes, here, back, control, separator, alphanumeric, f.pendingSlice,
          turn] using escaped

theorem namedAgrees {found : List Char} (named : atName? cs = some (found, rest))
    (replaces : options.replaceAt = true ∨ options.atOnly = true)
    (f : Follows text [] done ('@' :: cs) index last result opened front pending name) :
    scan source options text index last result opened =
      some (turn source options (walk source options) [] done '@' cs) := by
  have next := f.passesByte (by decide)
  have split := atNameRest named
  have piece : '@' :: cs = '@' :: (found ++ ['@']) ++ rest := by simp [split]
  have length := atNameBytes cs
  rw [← next.bytesBehind, named] at length
  have slice : Text.slice? text (index + 1) (index + 1 + Text.byteLength found) = some found := by
    rw [next.text, next.index, split, ← List.append_assoc, ← Text.byteLengthAppend,
      Text.sliceMiddle]
  have size : Text.byteLength found + 2 = Text.byteLength ('@' :: (found ++ ['@'])) := by
    have mark : '@'.utf8Size = 1 := rfl
    simp only [Text.byteLength, Text.byteLengthAppend, mark]
    omega
  obtain ⟨value, known⟩ : ∃ value, value = quoteValue options.escapeQuotes
    ((source.normal (String.ofList found)).getD "") := ⟨_, rfl⟩
  have copied : result ++ (pending ++ value) = before [] ++ (value.reverse ++ done).reverse := by
    rw [← List.append_assoc, f.resultPending]
    simp
  have replaced := after [] _ ((piece ▸ f).replaced ('@' :: (found ++ ['@'])) size copied)
  rw [f.asciiTurn source options (by decide), f.opened]
  simpa [byteTurn, replaces, length, f.pendingSlice, slice, quoteFound, known, offsets, turn, named]
    using replaced

end

variable (ih : ∀ refs done ds, ds.length ≤ cs.length → Agrees source options text refs done ds)

include ih

theorem longCharAgrees {c : Char} (other : Text.isAscii c = false)
    (f : Follows text refs done (c :: cs) index last result opened front pending name) :
    scan source options text index last result opened =
      some (turn source options (walk source options) refs done c cs) := by
  have special := otherSpecial other
  simp only [List.mem_cons, List.not_mem_nil, or_false, not_or] at special
  have passed : turn source options (walk source options) refs done c cs =
      walk source options refs (c :: done) cs := by
    simp [turn, special, other]
  rw [passed, scanSkips source options c.utf8Size fun k short => f.bytes other short]
  exact ih refs (c :: done) cs (Nat.le_refl _) f.passes

theorem plainAgrees {c : Char} (ascii : Text.isAscii c = true)
    (f : Follows text refs done (c :: cs) index last result opened front pending name) :
    (if !opened.isEmpty && Text.isAscii c && !isNameChar c then
      invalidName text index last result opened c
    else scan source options text (index + 1) last result opened) =
      some (if !refs.isEmpty && Text.isAscii c && !isNameChar c then
        .error (.invalidNameChar c done.reverse)
      else walk source options refs (c :: done) cs) := by
  have place : opened.isEmpty = refs.isEmpty := by rw [f.opened, offsetsEmpty]
  rw [place]
  split
  · next invalid =>
    have inside : refs.isEmpty = false := by
      cases empty : refs.isEmpty with
      | true => simp [empty] at invalid
      | false => rfl
    exact f.error inside c
  · exact ih refs (c :: done) cs (Nat.le_refl _) (f.passesByte ascii)

theorem closingAgrees
    (f : Follows text refs done ('}' :: cs) index last result opened front pending name) :
    scan source options text index last result opened =
      some (turn source options (walk source options) refs done '}' cs) := by
  rw [f.asciiTurn source options (by decide)]
  cases refs with
  | nil =>
    have plain := plainAgrees source options ih (by decide) f
    simpa [byteTurn, f.opened, offsets, turn] using plain
  | cons ref outer =>
    have name := Text.splitBytesAppend (before (ref :: outer)) done.reverse
    obtain ⟨value, known⟩ : ∃ value, value = quoteValue (options.escapeQuotes && outer.isEmpty)
      ((source.lookup ref.kind (String.ofList done.reverse)).getD "") := ⟨_, rfl⟩
    have copied : before (ref :: outer) ++ value =
        before outer ++ (value.reverse ++ ref.before).reverse := by simp [before]
    have next := ih outer _ cs (Nat.le_refl _) (f.replaced ['}'] (Eq.refl 1) copied)
    simpa [byteTurn, f.opened, f.pendingSlice, f.resultPending, offsets, name, quoteFound, turn,
      known] using next

theorem dollarAgrees
    (f : Follows text refs done ('$' :: cs) index last result opened front pending name) :
    scan source options text index last result opened =
      some (turn source options (walk source options) refs done '$' cs) := by
  have place := f.opened
  subst place
  cases atOnly : options.atOnly with
  | true =>
    have plain := plainAgrees source options ih (by decide) f
    rw [f.asciiTurn source options (by decide)]
    simpa [byteTurn, atOnly, turn] using plain
  | false =>
    cases opens : opening? ('$' :: cs) with
    | some opening =>
      obtain ⟨-, rest, split⟩ := openingOnly opens
      have shorter : rest.length ≤ cs.length := by
        have sizes := congrArg List.length split
        have opening := opening.1.openingPositive
        rw [List.length_cons, List.length_append] at sizes
        omega
      have after (refs : List OpenReference) (done : List Char) := ih refs done rest shorter
      exact openingAgrees source options after split atOnly f
    | none =>
      rw [f.asciiTurn source options (by decide)]
      cases inside : refs.isEmpty with
      | true =>
        have passed := ih refs ('$' :: done) cs (Nat.le_refl _) (f.passesByte (by decide))
        simpa [byteTurn, atOnly, f.restSplit, inside, opens, turn] using passed
      | false => simp [byteTurn, atOnly, f.restSplit, inside, opens, turn, f.error inside]

theorem escapeAgrees
    (f : Follows text refs done ('\\' :: cs) index last result opened front pending name) :
    scan source options text index last result opened =
      some (turn source options (walk source options) refs done '\\' cs) := by
  cases escapes : options.noEscapes with
  | true =>
    have plain := plainAgrees source options ih (by decide) f
    rw [f.asciiTurn source options (by decide)]
    simpa [byteTurn, escapes, turn] using plain
  | false =>
    cases cs with
    | nil =>
      have next := f.passesByte (by decide)
      have outside : (Text.bytes text)[index + 1]? = none := by
        rw [next.text, next.index]
        simp
      rw [f.asciiTurn source options (by decide)]
      simp [byteTurn, escapes, outside, turn]
    | cons d rest =>
      have after (refs : List OpenReference) (done : List Char) :=
        ih refs done rest (Nat.le_succ _)
      cases ascii : Text.isAscii d with
      | true => exact byteEscapeAgrees source options after ascii escapes f
      | false => exact longEscapeAgrees source options after ascii escapes f

theorem atAgrees
    (f : Follows text refs done ('@' :: cs) index last result opened front pending name) :
    scan source options text index last result opened =
      some (turn source options (walk source options) refs done '@' cs) := by
  by_cases replaces : (options.replaceAt = true ∨ options.atOnly = true) ∧ refs = []
  · obtain ⟨replaces, rfl⟩ := replaces
    cases named : atName? cs with
    | none =>
      have next := f.passesByte (by decide)
      have length := atNameBytes cs
      rw [← next.bytesBehind, named] at length
      have passed := ih [] ('@' :: done) cs (Nat.le_refl _) next
      rw [f.asciiTurn source options (by decide)]
      simpa [byteTurn, replaces, length, f.opened, offsets, turn, named] using passed
    | some entry =>
      obtain ⟨found, rest⟩ := entry
      have shorter : rest.length ≤ cs.length := by
        rw [atNameRest named, List.length_append, List.length_cons]
        omega
      have after (refs : List OpenReference) (done : List Char) := ih refs done rest shorter
      exact namedAgrees source options after named replaces f
  · have plain := plainAgrees source options ih (by decide) f
    have place := f.opened
    subst place
    rw [f.asciiTurn source options (by decide)]
    simpa [byteTurn, replaces, turn] using plain

theorem asciiAgrees {c : Char} (ascii : Text.isAscii c = true)
    (f : Follows text refs done (c :: cs) index last result opened front pending name) :
    scan source options text index last result opened =
      some (turn source options (walk source options) refs done c cs) := by
  by_cases closing : c = '}'
  · subst closing
    exact closingAgrees source options ih f
  · by_cases dollar : c = '$'
    · subst dollar
      exact dollarAgrees source options ih f
    · by_cases escape : c = '\\'
      · subst escape
        exact escapeAgrees source options ih f
      · by_cases at' : c = '@'
        · subst at'
          exact atAgrees source options ih f
        · have plain := plainAgrees source options ih ascii f
          rw [f.asciiTurn source options ascii, turn.eq_def]
          simpa [byteTurn, closing, dollar, escape, at'] using plain

end

theorem scanAgrees (source : VariableSource) (options : ExpandOptions) (text : List Char)
    (refs : List OpenReference) (done cs : List Char) :
    Agrees source options text refs done cs := by
  intro index last result opened front pending name f
  match cs with
  | [] => exact endAgrees source options refs done f
  | c :: cs =>
    have ih (refs : List OpenReference) (done ds : List Char) (_ : ds.length ≤ cs.length) :=
      scanAgrees source options text refs done ds
    rw [walkTurn]
    cases ascii : Text.isAscii c with
    | true => exact asciiAgrees source options ih ascii f
    | false => exact longCharAgrees source options ih ascii f
termination_by cs.length

theorem scanExpands (source : VariableSource) (options : ExpandOptions) (text : String) :
    (scan source options text.toList 0 0 [] []).map (Except.map String.ofList) =
      some (expand source options text) := by
  have start : Follows text.toList [] [] text.toList 0 0 [] [] [] [] [] :=
    ⟨rfl, rfl, rfl, rfl, rfl, rfl⟩
  rw [scanAgrees source options text.toList [] [] text.toList start, expandWalk]
  rfl

/-- A text expands to the value of its template; a text without one fails at its first fault. The
scan over its bytes finds the same and cuts the text between characters only. -/
theorem expansionFollowsGrammar (source : VariableSource) (text : String) :
    (∀ value, expand source {} text = .ok value ↔
      ∃ t : Template, t.Readable false [] ∧ t.spell = text.toList ∧
        value = String.ofList (t.value source false)) ∧
    (∀ error, expand source {} text = .error error ↔
      ∃ (r : Reading) (after : List Char), r.Readable after ∧ r.spell ++ after = text.toList ∧
        Fault r.inside (r.latest source) after error) ∧
    (scan source {} text.toList 0 0 [] []).map (Except.map String.ofList) =
      some (expand source {} text) :=
  ⟨expandsIff source text, failsIff source text, scanExpands source {} text⟩

end CMakeScript.Expansion
