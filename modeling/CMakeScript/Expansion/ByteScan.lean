import CMakeScript.Expansion.Template
import CMakeScript.Text.Bytes
/-! The expansion as one scan over the bytes of a text. What is known of the text is a number of
offsets: `index` is read next, the text from `last` up to there is still to be copied, and an open
reference is kept by the offset in the result where its name starts. Texts are cut at offsets; a cut
inside of a character leaves the scan without any answer. -/
namespace CMakeScript.Expansion

abbrev Scanned := Option (Except ExpandError (List Char))

def nameBytes (bytes : List UInt8) : List UInt8 :=
  bytes.takeWhile fun byte => isNameChar (Char.ofUInt8 byte)

def atNameLength? (bytes : List UInt8) : Option Nat :=
  let length := (nameBytes bytes).length
  if 0 < length ∧ bytes[length]?.map Char.ofUInt8 = some '@' then some length else none

def invalidName (text : List Char) (index last : Nat) (result : List Char)
    (opened : List (ReferenceKind × Nat)) (c : Char) : Scanned := do
  let pending ← Text.slice? text last index
  let name ← match opened with
    | [] => some []
    | (_, start) :: _ => (Text.splitBytes? start result).map Prod.snd
  return .error (.invalidNameChar c (name ++ pending))

def byteTurn (source : VariableSource) (options : ExpandOptions) (text : List Char) (index : Nat)
    (step : (next : Nat) → index < next → Nat → List Char → List (ReferenceKind × Nat) → Scanned)
    (last : Nat) (result : List Char) (opened : List (ReferenceKind × Nat)) (c : Char) : Scanned :=
  let pass := step (index + 1) (Nat.lt_succ_self _) last result opened
  if c = '}' ∧ !opened.isEmpty then do
    let pending ← Text.slice? text last index
    match opened with
    | [] => none
    | (kind, start) :: outer => do
      let (before, name) ← Text.splitBytes? start (result ++ pending)
      let found := source.lookup kind (String.ofList name)
      let value := found.map (quoteValue (options.escapeQuotes && outer.isEmpty))
      step (index + 1) (Nat.lt_succ_self _) (index + 1) (before ++ value.getD []) outer
  else if c = '$' ∧ !options.atOnly then do
    let (_, rest) ← Text.splitBytes? index text
    match opening? rest with
    | some (kind, _) => do
      let pending ← Text.slice? text last index
      let result := result ++ pending
      let next := index + kind.opening.length
      step next (Nat.lt_add_of_pos_right kind.openingPositive) next result
        ((kind, Text.byteLength result) :: opened)
    | none => if opened.isEmpty then pass else invalidName text index last result opened c
  else if c = '\\' ∧ !options.noEscapes then
    match (Text.bytes text)[index + 1]? with
    | none => some (.error (.invalidEscape none))
    | some next =>
      let d := Char.ofUInt8 next
      match controlEscape? d with
      | some control => do
        let pending ← Text.slice? text last index
        step (index + 2) (by omega) (index + 2) (result ++ pending ++ [control]) opened
      | none =>
        if d = ';' ∧ opened.isEmpty then step (index + 2) (by omega) last result opened
        else if Text.isAlphanumeric d then some (.error (.invalidEscape (some d)))
        else do
          let pending ← Text.slice? text last index
          step (index + 2) (by omega) (index + 1) (result ++ pending) opened
  else if c = '@' ∧ (options.replaceAt || options.atOnly) ∧ opened.isEmpty then
    match atNameLength? ((Text.bytes text).drop (index + 1)) with
    | some length => do
      let pending ← Text.slice? text last index
      let name ← Text.slice? text (index + 1) (index + 1 + length)
      let value := (source.normal (String.ofList name)).map (quoteValue options.escapeQuotes)
      step (index + (length + 2)) (by omega) (index + (length + 2))
        (result ++ pending ++ value.getD []) opened
    | none => pass
  else if !opened.isEmpty && Text.isAscii c && !isNameChar c then
    invalidName text index last result opened c
  else pass

def scan (source : VariableSource) (options : ExpandOptions) (text : List Char)
    (index last : Nat) (result : List Char) (opened : List (ReferenceKind × Nat)) : Scanned :=
  match _ : (Text.bytes text)[index]? with
  | none =>
    if opened.isEmpty then do
      let size := Text.byteLength text
      let rest ← Text.slice? text (min last size) size
      return .ok (result ++ rest)
    else some (.error .unterminated)
  | some byte =>
    byteTurn source options text index (fun next _ => scan source options text next) last result
      opened (Char.ofUInt8 byte)
termination_by (Text.bytes text).length - index
decreasing_by
  have inside : index < (Text.bytes text).length := by
    obtain ⟨inside, -⟩ := List.getElem?_eq_some_iff.mp ‹_›
    exact inside
  omega

theorem scanEnd (source : VariableSource) (options : ExpandOptions) {text : List Char}
    {index : Nat} (outside : (Text.bytes text)[index]? = none) (last : Nat) (result : List Char)
    (opened : List (ReferenceKind × Nat)) :
    scan source options text index last result opened =
      if opened.isEmpty then do
        let size := Text.byteLength text
        let rest ← Text.slice? text (min last size) size
        return .ok (result ++ rest)
      else some (.error .unterminated) := by
  rw [scan]
  split
  · rfl
  · next found => cases outside.symm.trans found

theorem scanTurn (source : VariableSource) (options : ExpandOptions) {text : List Char}
    {index : Nat} {byte : UInt8} (here : (Text.bytes text)[index]? = some byte) (last : Nat)
    (result : List Char) (opened : List (ReferenceKind × Nat)) :
    scan source options text index last result opened =
      byteTurn source options text index (fun next _ => scan source options text next) last result
        opened (Char.ofUInt8 byte) := by
  rw [scan]
  split
  · next none => cases here.symm.trans none
  · next found =>
    cases here.symm.trans found
    rfl

end CMakeScript.Expansion
