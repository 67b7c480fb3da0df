import CMakeScript.Regex.Pattern
import CMakeScript.Text.Numeral
/-! Reading of patterns. A reader gives `none` for a pattern that does not compile: unbalanced
brackets, an operator without operand, a bad range or count, an unknown escape or flag,
look-around, a reference back to a group, or nesting that is too deep. -/
namespace CMakeScript.Regex

structure Flags where
  fold : Bool := false
  multiLine : Bool := false
  dotAll : Bool := false
  swapGreed : Bool := false
  spaced : Bool := false
  paired : Bool := false
  deriving DecidableEq, Repr, Inhabited

namespace Reader

def isMeta (c : Char) : Bool :=
  ['\\', '.', '+', '*', '?', '(', ')', '|', '[', ']', '{', '}', '^', '$', '#', '&', '-', '~'].contains
    c

def isEscapable (c : Char) : Bool :=
  isMeta c || (Text.isAscii c && !Text.isAlphanumeric c && c != '<' && c != '>')

inductive Escape where
  | literal (c : Char)
  | set (s : CharSet)
  | check (a : Assertion)
  deriving DecidableEq, Repr

def hexValue (c : Char) : Nat :=
  if Text.isDigit c then c.toNat - '0'.toNat
  else if 'a' ≤ c && c ≤ 'f' then c.toNat - 'a'.toNat + 10
  else c.toNat - 'A'.toNat + 10

def charOfHex? (digits : List Char) : Option Char :=
  if digits.isEmpty || !digits.all Text.isHexDigit then none
  else
    let n := digits.foldl (fun n c => 16 * n + hexValue c) 0
    if n < 0x110000 && !(0xD800 ≤ n && n ≤ 0xDFFF) then some (Char.ofNat n) else none

def hexEscape? (width : Nat) (cs : List Char) : Option (Char × List Char) :=
  match cs with
  | '\x7b' :: inside =>
    match inside.dropWhile (· != '\x7d') with
    | _ :: rest => (charOfHex? (inside.takeWhile (· != '\x7d'))).map (·, rest)
    | [] => none
  | _ =>
    if cs.length < width then none
    else (charOfHex? (cs.take width)).map (·, cs.drop width)

def namedBoundary? (cs : List Char) : Option (Escape × List Char) := do
  let name := cs.takeWhile fun c => Text.isLetter c || c == '-'
  let a ← match String.ofList name with
    | "start" => some Assertion.wordStart
    | "end" => some .wordEnd
    | "start-half" => some .wordStartHalf
    | "end-half" => some .wordEndHalf
    | _ => none
  match cs.drop name.length with
  | '\x7d' :: rest => some (.check a, rest)
  | _ => none

def boundary? (cs : List Char) : Option (Escape × List Char) :=
  match cs with
  | '\x7b' :: c :: rest =>
    if Text.isLetter c || c == '-' then namedBoundary? (c :: rest)
    else some (.check .wordBoundary, cs)
  | _ => some (.check .wordBoundary, cs)

def escape? : List Char → Option (Escape × List Char)
  | [] => none
  | c :: cs =>
    match c with
    | 'd' => some (.set .digit, cs)
    | 'D' => some (.set (.complement .digit), cs)
    | 's' => some (.set .space, cs)
    | 'S' => some (.set (.complement .space), cs)
    | 'w' => some (.set .word, cs)
    | 'W' => some (.set (.complement .word), cs)
    | 'a' => some (.literal '\x07', cs)
    | 'f' => some (.literal '\x0c', cs)
    | 't' => some (.literal '\t', cs)
    | 'n' => some (.literal '\n', cs)
    | 'r' => some (.literal '\r', cs)
    | 'v' => some (.literal '\x0b', cs)
    | 'A' => some (.check .textStart, cs)
    | 'z' => some (.check .textEnd, cs)
    | 'b' => boundary? cs
    | 'B' => some (.check .noWordBoundary, cs)
    | '<' => some (.check .wordStart, cs)
    | '>' => some (.check .wordEnd, cs)
    | 'x' => (hexEscape? 2 cs).map fun (d, rest) => (.literal d, rest)
    | 'u' => (hexEscape? 4 cs).map fun (d, rest) => (.literal d, rest)
    | 'U' => (hexEscape? 8 cs).map fun (d, rest) => (.literal d, rest)
    | _ => if isEscapable c then some (.literal c, cs) else none

def posixClass? (cs : List Char) : Option (CharSet × List Char) := do
  let inside ← match cs with
    | ':' :: rest => some rest
    | _ => none
  let (negated, inside) := match inside with
    | '^' :: rest => (true, rest)
    | _ => (false, inside)
  let name := inside.takeWhile (· != ':')
  let k ← PosixClass.ofName? name
  match inside.drop name.length with
  | ':' :: ']' :: rest => some (if negated then .complement (.posix k) else .posix k, rest)
  | _ => none

def classItem? : List Char → Option ((Char ⊕ CharSet) × List Char)
  | [] => none
  | '\\' :: cs =>
    match escape? cs with
    | some (.literal c, rest) => some (.inl c, rest)
    | some (.set s, rest) => some (.inr s, rest)
    | _ => none
  | c :: cs => some (.inl c, cs)

def itemSet : Char ⊕ CharSet → CharSet
  | .inl c => .single c
  | .inr s => s

def classRange? (cs : List Char) : Option (CharSet × List Char) := do
  let (first, rest) ← classItem? cs
  match rest with
  | [] => none
  | '-' :: ']' :: _ => some (itemSet first, rest)
  | '-' :: '-' :: _ => some (itemSet first, rest)
  | '-' :: more =>
    let (last, rest) ← classItem? more
    match first, last with
    | .inl a, .inl b => if a ≤ b then some (.range a b, rest) else none
    | _, _ => none
  | _ => some (itemSet first, rest)

inductive SetOperator where
  | inter
  | difference
  | symmetric
  deriving DecidableEq, Repr

def SetOperator.apply : SetOperator → CharSet → CharSet → CharSet
  | inter => .inter
  | difference => .difference
  | symmetric => .symmetric

def closePart (left : Option (CharSet × SetOperator)) (part : CharSet) : CharSet :=
  match left with
  | none => part
  | some (before, op) => op.apply before part

def classOpening (cs : List Char) : Bool × CharSet × List Char :=
  let (negated, cs) := match cs with
    | '^' :: rest => (true, rest)
    | _ => (false, cs)
  let rest := cs.dropWhile (· == '-')
  if rest.length < cs.length then (negated, .single '-', rest)
  else match rest with
    | ']' :: more => (negated, .single ']', more)
    | _ => (negated, .none, rest)

structure ReadClass where
  set : CharSet
  depth : Nat
  rest : List Char

def classBody? : Nat → Option (CharSet × SetOperator) → CharSet → Nat → List Char →
    Option ReadClass
  | 0, _, _, _, _ => none
  | _ + 1, _, _, _, [] => none
  | fuel + 1, left, part, depth, c :: cs =>
    let operator (op : SetOperator) (rest : List Char) :=
      classBody? fuel (some (closePart left part, op)) .none depth rest
    if c = '[' then
      match posixClass? cs with
      | some (s, rest) => classBody? fuel left (.union part s) depth rest
      | none => do
        let (negated, first, rest) := classOpening cs
        let inner ← classBody? fuel none first 0 rest
        let s := if negated then .complement inner.set else inner.set
        classBody? fuel left (.union part s) (max depth (inner.depth + 1)) inner.rest
    else if c = ']' then some ⟨closePart left part, depth, cs⟩
    else
      match c, cs with
      | '&', '&' :: rest => operator .inter rest
      | '-', '-' :: rest => operator .difference rest
      | '~', '~' :: rest => operator .symmetric rest
      | _, _ => do
        let (s, rest) ← classRange? (c :: cs)
        classBody? fuel left (.union part s) depth rest

def class? (cs : List Char) : Option ReadClass := do
  let (negated, first, rest) := classOpening cs
  let read ← classBody? (cs.length + 1) none first 0 rest
  some { read with
    set := if negated then .complement read.set else read.set, depth := read.depth + 1 }

def count? (cs : List Char) : Option Nat × List Char :=
  let cs := cs.dropWhile Text.isBlank
  let digits := cs.takeWhile Text.isDigit
  let rest := (cs.dropWhile Text.isDigit).dropWhile Text.isBlank
  (Text.natBelow? (Text.bitBound 32) digits, rest)

def counts? (cs : List Char) : Option (Nat × Option Nat × List Char) := do
  let (least, rest) := count? cs
  let least ← least
  match rest with
  | '\x7d' :: rest => some (least, some least, rest)
  | ',' :: '\x7d' :: rest => some (least, none, rest)
  | ',' :: rest =>
    let (most, rest) := count? rest
    let most ← most
    match rest with
    | '\x7d' :: rest => if least ≤ most then some (least, some most, rest) else none
    | _ => none
  | _ => none

def flags? (on started : Bool) (seen : List Char) (f : Flags) :
    List Char → Option (Flags × Char × List Char)
  | [] => none
  | c :: cs =>
    let next (g : Flags) := flags? on true (c :: seen) g cs
    if (c = ':' ∨ c = ')') ∧ (on ∨ started) then some (f, c, cs)
    else if c = '-' ∧ on then flags? false false seen f cs
    else if seen.contains c then none
    else
      match c with
      | 'i' => next { f with fold := on }
      | 'm' => next { f with multiLine := on }
      | 's' => next { f with dotAll := on }
      | 'U' => next { f with swapGreed := on }
      | 'x' => next { f with spaced := on }
      | 'u' => next f
      | 'R' => next { f with paired := on }
      | _ => none

def isNameStart (c : Char) : Bool := c == '_' || Text.isAlphabetic c

def isNameRest (c : Char) : Bool :=
  c == '_' || c == '.' || c == '[' || c == ']' || Text.isLetterOrNumber c

def groupName? (cs : List Char) : Option (List Char × List Char) :=
  let name := cs.takeWhile (· != '>')
  match cs.dropWhile (· != '>'), name with
  | _ :: rest, c :: more =>
    if isNameStart c && more.all isNameRest then some (name, rest) else none
  | _, _ => none

structure State where
  rest : List Char
  groups : Nat := 0
  names : List (List Char) := []

inductive Opening where
  | capture (s : State)
  | plain (flags : Flags) (s : State)
  | setFlags (flags : Flags) (s : State)

def opening? (f : Flags) (s : State) (cs : List Char) : Option Opening :=
  let named (rest : List Char) : Option Opening := do
    let (name, rest) ← groupName? rest
    if s.names.contains name then none
    else some (.capture ⟨rest, s.groups + 1, name :: s.names⟩)
  match cs with
  | '?' :: '=' :: _ => none
  | '?' :: '!' :: _ => none
  | '?' :: '<' :: '=' :: _ => none
  | '?' :: '<' :: '!' :: _ => none
  | '?' :: 'P' :: '<' :: rest => named rest
  | '?' :: '<' :: rest => named rest
  | '?' :: rest => do
    let (f, last, after) ← flags? true false [] f rest
    if last = ':' then some (.plain f { s with rest := after })
    else if rest.head? = some ')' then none
    else some (.setFlags f { s with rest := after })
  | _ => some (.capture { s with rest := cs, groups := s.groups + 1 })

structure Item where
  pattern : Option Pattern
  depth : Nat := 0

def joinedDepth : List Nat → Nat
  | [] => 0
  | [depth] => depth
  | depths => depths.foldl max 0 + 1

def closeBranch (items : List Item) : Pattern × Nat :=
  (Pattern.ofList (items.filterMap Item.pattern).reverse, joinedDepth (items.map Item.depth))

def closeGroup (branches : List (Pattern × Nat)) (items : List Item) : Pattern × Nat :=
  let all := closeBranch items :: branches
  (Pattern.choice (all.map Prod.fst).reverse, joinedDepth (all.map Prod.snd))

def atLineStart (f : Flags) : Assertion :=
  if !f.multiLine then .textStart else if f.paired then .lineStartPaired else .lineStart

def atLineEnd (f : Flags) : Assertion :=
  if !f.multiLine then .textEnd else if f.paired then .lineEndPaired else .lineEnd

def dot (f : Flags) : CharSet :=
  if f.dotAll then .any
  else if f.paired then .complement (.union (.single '\n') (.single '\r'))
  else .complement (.single '\n')

def group? : Nat → Bool → Flags → List (Pattern × Nat) → List Item → State →
    Option ((Pattern × Nat) × State)
  | 0, _, _, _, _, _ => none
  | fuel + 1, inside, f, branches, items, s =>
    let add (item : Item) (s : State) := group? fuel inside f branches (item :: items) s
    let push (p : Pattern) (rest : List Char) := add ⟨some p, 0⟩ { s with rest }
    let literal (c : Char) (rest : List Char) := push (.one f.fold (.single c)) rest
    let repeated (least : Nat) (most : Option Nat) (rest : List Char) :=
      match items with
      | ⟨some p, depth⟩ :: before =>
        let (lazy, rest) := match rest with
          | '?' :: more => (true, more)
          | _ => (false, rest)
        let copies := Pattern.copies p least most (lazy == f.swapGreed)
        group? fuel inside f branches (⟨some copies, depth + 1⟩ :: before) { s with rest }
      | _ => none
    match s.rest with
    | [] => if inside then none else some (closeGroup branches items, s)
    | c :: cs =>
      if f.spaced && Text.isBlank c then
        group? fuel inside f branches items { s with rest := cs }
      else if f.spaced && c = '#' then
        group? fuel inside f branches items { s with rest := cs.dropWhile (· != '\n') }
      else
        match c with
        | ')' => if inside then some (closeGroup branches items, { s with rest := cs }) else none
        | '|' => group? fuel inside f (closeBranch items :: branches) [] { s with rest := cs }
        | '(' =>
          match opening? f s cs with
          | none => none
          | some (.setFlags f s) => group? fuel inside f branches (⟨none, 0⟩ :: items) s
          | some (.plain inner s) => do
            let ((p, depth), s) ← group? fuel true inner [] [] s
            add ⟨some p, depth + 1⟩ s
          | some (.capture opened) => do
            let ((p, depth), s) ← group? fuel true f [] [] opened
            add ⟨some (.group opened.groups p), depth + 1⟩ s
        | '[' => do
          let read ← class? cs
          add ⟨some (.one f.fold read.set), read.depth⟩ { s with rest := read.rest }
        | '\\' =>
          match escape? cs with
          | some (.literal d, rest) => literal d rest
          | some (.set set, rest) => push (.one f.fold set) rest
          | some (.check a, rest) => push (.check a) rest
          | none => none
        | '*' => repeated 0 none cs
        | '+' => repeated 1 none cs
        | '?' => repeated 0 (some 1) cs
        | '\x7b' =>
          match counts? cs with
          | some (least, most, rest) => repeated least most rest
          | none => none
        | '.' => push (.one false (dot f)) cs
        | '^' => push (.check (atLineStart f)) cs
        | '$' => push (.check (atLineEnd f)) cs
        | _ => literal c cs

def deepest : Nat := 250

end Reader

def Pattern.ofText? (text : String) : Option (Pattern × Nat) := do
  let cs := text.toList
  let ((p, depth), s) ← Reader.group? (cs.length + 1) false {} [] [] { rest := cs }
  if depth ≤ Reader.deepest then some (p, s.groups) else none

end CMakeScript.Regex
