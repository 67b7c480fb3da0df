import CMakeScript.Expansion
/-! The grammar of texts with references. A template is the tree of a text: literal characters,
escapes, and references whose names are templates again. Inside a name fewer characters stand for
themselves. A text that is no template is read up to its first fault, with some references open. -/
namespace CMakeScript

def ReferenceKind.opening : ReferenceKind → List Char
  | normal => ['$', '{']
  | environment => ['$', 'E', 'N', 'V', '{']
  | cache => ['$', 'C', 'A', 'C', 'H', 'E', '{']

theorem ReferenceKind.openingPositive (kind : ReferenceKind) : 0 < kind.opening.length := by
  cases kind <;> decide

namespace Expansion

theorem openingSpelled (kind : ReferenceKind) (cs : List Char) :
    opening? (kind.opening ++ cs) = some (kind, kind.opening.length) := by
  cases kind <;> simp [opening?, ReferenceKind.opening]

theorem openingOnly {cs : List Char} {kind : ReferenceKind} {length : Nat}
    (opens : opening? cs = some (kind, length)) :
    length = kind.opening.length ∧ ∃ rest, cs = kind.opening ++ rest := by
  unfold opening? at opens
  have split {mark : List Char} (found : mark.isPrefixOf cs = true) : ∃ rest, cs = mark ++ rest :=
    (List.isPrefixOf_iff_prefix.mp found).imp fun _ same => same.symm
  split at opens
  · next found =>
    cases opens
    exact ⟨rfl, split found⟩
  · split at opens
    · next found =>
      cases opens
      exact ⟨rfl, split found⟩
    · split at opens
      · next found =>
        cases opens
        exact ⟨rfl, split found⟩
      · cases opens

inductive Template where
  | done
  | literal (c : Char) (rest : Template)
  | escape (c : Char) (rest : Template)
  | reference (kind : ReferenceKind) (name rest : Template)
  deriving DecidableEq, Repr

def escaped (inside : Bool) (c : Char) : List Char :=
  match controlEscape? c with
  | some control => [control]
  | none => if c = ';' ∧ inside = false then ['\\', ';'] else [c]

def CanEscape (c : Char) : Prop := (controlEscape? c).isSome ∨ Text.isAlphanumeric c = false

def Plain (inside : Bool) (c : Char) (after : List Char) : Prop :=
  if inside then isNameChar c ∨ Text.isAscii c = false
  else c ≠ '\\' ∧ opening? (c :: after) = none

instance (c) : Decidable (CanEscape c) := by unfold CanEscape; infer_instance
instance (inside c after) : Decidable (Plain inside c after) := by unfold Plain; infer_instance

namespace Template

def spell : Template → List Char
  | done => []
  | literal c rest => c :: rest.spell
  | escape c rest => '\\' :: c :: rest.spell
  | reference kind name rest => kind.opening ++ (name.spell ++ '}' :: rest.spell)

def value (source : VariableSource) (inside : Bool) : Template → List Char
  | done => []
  | literal c rest => c :: rest.value source inside
  | escape c rest => escaped inside c ++ rest.value source inside
  | reference kind name rest =>
    ((source.lookup kind (String.ofList (name.value source true))).getD "").toList ++
      rest.value source inside

/-- The text of the template is read as this template where `after` follows it. -/
def Readable (inside : Bool) (after : List Char) : Template → Prop
  | done => True
  | literal c rest => Plain inside c (rest.spell ++ after) ∧ rest.Readable inside after
  | escape c rest => CanEscape c ∧ rest.Readable inside after
  | reference _ name rest =>
    name.Readable true ('}' :: (rest.spell ++ after)) ∧ rest.Readable inside after

def append : Template → Template → Template
  | done, more => more
  | literal c rest, more => literal c (rest.append more)
  | escape c rest, more => escape c (rest.append more)
  | reference kind name rest, more => reference kind name (rest.append more)

section

variable (first more : Template)

@[simp] theorem appendSpell : (first.append more).spell = first.spell ++ more.spell := by
  induction first with
  | done => rfl
  | literal c rest ih => simp [append, spell, ih]
  | escape c rest ih => simp [append, spell, ih]
  | reference kind name rest _ ih => simp [append, spell, ih]

theorem appendReadable (inside : Bool) (after : List Char) :
    (first.append more).Readable inside after ↔
      first.Readable inside (more.spell ++ after) ∧ more.Readable inside after := by
  induction first with
  | done => simp [append, Readable]
  | literal c rest ih => simp [append, Readable, ih, and_assoc]
  | escape c rest ih => simp [append, Readable, ih, and_assoc]
  | reference kind name rest _ ih => simp [append, Readable, ih, and_assoc]

end

end Template

inductive Reading where
  | top (text : Template)
  | within (outer : Reading) (kind : ReferenceKind) (name : Template)
  deriving DecidableEq, Repr

namespace Reading

def inside : Reading → Bool
  | top _ => false
  | within _ _ _ => true

def spell : Reading → List Char
  | top text => text.spell
  | within outer kind name => outer.spell ++ (kind.opening ++ name.spell)

def latest (source : VariableSource) : Reading → List Char
  | top text => text.value source false
  | within _ _ name => name.value source true

def Readable (after : List Char) : Reading → Prop
  | top text => text.Readable false after
  | within outer kind name =>
    outer.Readable (kind.opening ++ (name.spell ++ after)) ∧ name.Readable true after

end Reading

/-- Why nothing can be read at the front of the text, behind `name` in the innermost name. -/
inductive Fault (inside : Bool) (name : List Char) : List Char → ExpandError → Prop where
  | unterminated (within : inside = true) : Fault inside name [] .unterminated
  | nameChar (within : inside = true) {c : Char} (ascii : Text.isAscii c = true)
    (other : isNameChar c = false) (special : c ∉ ['}', '$', '\\']) (rest : List Char) :
    Fault inside name (c :: rest) (.invalidNameChar c name)
  | dollar (within : inside = true) {rest : List Char} (closed : opening? ('$' :: rest) = none) :
    Fault inside name ('$' :: rest) (.invalidNameChar '$' name)
  | escape {c : Char} (other : ¬CanEscape c) (rest : List Char) :
    Fault inside name ('\\' :: c :: rest) (.invalidEscape (some c))
  | escapeEnd : Fault inside name ['\\'] (.invalidEscape none)

end Expansion
end CMakeScript
