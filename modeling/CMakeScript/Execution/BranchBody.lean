import CMakeScript.Condition
import CMakeScript.Execution.Branch
/-! What stands between the command that opens a branch and the one that closes it: the commands
that the first condition selects, alternatives with conditions of their own, and a last part for
the case that no condition holds. The parts may have whole branches in them. -/
namespace CMakeScript

namespace Command

def StartsPart (c : Command) : Prop := c.lowerName = "else" ∨ c.lowerName = "elseif"

instance (c : Command) : Decidable c.StartsPart :=
  inferInstanceAs (Decidable (c.lowerName = "else" ∨ c.lowerName = "elseif"))

/-- Commands behind so many open branches, all of which they close again. No part starts in them but
in one of these branches, or in one that they open themselves. -/
inductive Inside : Nat → List Command → Prop where
  | nil : Inside 0 []
  | opens {depth c rest} (named : c.lowerName = "if") (further : Inside (depth + 1) rest) :
      Inside depth (c :: rest)
  | closes {depth c rest} (named : c.lowerName = "endif") (further : Inside depth rest) :
      Inside (depth + 1) (c :: rest)
  | other {depth c rest} (plain : c.lowerName ≠ "if" ∧ c.lowerName ≠ "endif")
      (belongs : c.StartsPart → 0 < depth) (further : Inside depth rest) : Inside depth (c :: rest)

namespace Inside

variable {depth : Nat} {c : Command} {rest : List Command}

theorem opensIff (named : c.lowerName = "if") :
    Inside depth (c :: rest) ↔ Inside (depth + 1) rest := by
  refine ⟨fun inside => ?_, .opens named⟩
  cases inside with
  | opens _ further => exact further
  | closes other => exact absurd (named.symm.trans other) (by decide)
  | other plain => exact absurd named plain.1

theorem closesIff (named : c.lowerName = "endif") :
    Inside depth (c :: rest) ↔ ∃ outer, depth = outer + 1 ∧ Inside outer rest := by
  refine ⟨fun inside => ?_, fun ⟨outer, same, further⟩ => same ▸ .closes named further⟩
  cases inside with
  | opens other => exact absurd (named.symm.trans other) (by decide)
  | closes _ further => exact ⟨_, rfl, further⟩
  | other plain => exact absurd named plain.2

theorem otherIff (plain : c.lowerName ≠ "if" ∧ c.lowerName ≠ "endif") :
    Inside depth (c :: rest) ↔ (c.StartsPart → 0 < depth) ∧ Inside depth rest := by
  refine ⟨fun inside => ?_, fun ⟨belongs, further⟩ => .other plain belongs further⟩
  cases inside with
  | opens named => exact absurd named plain.1
  | closes named => exact absurd named plain.2
  | other _ belongs further => exact ⟨belongs, further⟩

instance decidable : (depth : Nat) → (commands : List Command) → Decidable (Inside depth commands)
  | 0, [] => .isTrue .nil
  | _ + 1, [] => .isFalse nofun
  | depth, c :: rest =>
    if opening : c.lowerName = "if" then
      @decidable_of_iff' _ _ (opensIff opening) (decidable (depth + 1) rest)
    else if closing : c.lowerName = "endif" then
      match depth with
      | 0 => .isFalse fun inside => by simpa using (closesIff closing).mp inside
      | outer + 1 => @decidable_of_iff' _ (Inside outer rest) (by simp [closesIff closing])
          (decidable outer rest)
    else
      have := decidable depth rest
      decidable_of_iff' _ (otherIff ⟨opening, closing⟩)

end Inside

end Command

structure BranchPart (name : String) where
  command : Command
  named : command.lowerName = name
  commands : List Command
  inside : Command.Inside 0 commands

namespace BranchPart

def all {name : String} (p : BranchPart name) : List Command := p.command :: p.commands

end BranchPart

structure LastPart extends BranchPart "else" where
  surplus : List Command
  starts : ∀ c ∈ surplus.head?, c.StartsPart

structure BranchBody where
  first : List Command
  inside : Command.Inside 0 first
  alternatives : List (BranchPart "elseif")
  otherwise : Option LastPart

namespace LastPart

def all (p : LastPart) : List Command := p.toBranchPart.all ++ p.surplus

end LastPart

namespace BranchBody

def ending (b : BranchBody) : List Command := b.otherwise.elim [] (·.all)

def commands (b : BranchBody) : List Command :=
  b.first ++ (b.alternatives.flatMap (·.all) ++ b.ending)

def surplus (b : BranchBody) : List Command := b.otherwise.elim [] (·.surplus)

def fallback (b : BranchBody) : List Command := b.otherwise.elim [] (·.commands)

def refusal (c : Command) : String :=
  if c.lowerName = "else" then "A duplicate ELSE command was found inside an IF block."
  else "An ELSEIF command was found after an ELSE command."

def refuse (file : String) (surplus : List Command) (e : Engine) : Engine :=
  match surplus with
  | [] => e
  | c :: _ => e.fatalErrorAt (refusal c) (e.backtrace.push (Frame.ofCommand c file))

end BranchBody

def Condition.Decides (arguments : List Argument) (trace : Backtrace) (e : Engine) (held : Bool)
    (e' : Engine) : Prop :=
  ∃ words e₁, Step.words arguments e = (some words, e₁) ∧
    Condition.evaluate words trace e₁ = (.ok held, e')

def BranchPart.Decides {name : String} (p : BranchPart name) (file : String) (e : Engine)
    (held : Bool) (e' : Engine) : Prop :=
  let trace := e.backtrace.push (Frame.ofCommand p.command file)
  Condition.Decides p.command.arguments trace e held e'

inductive BranchPart.Fail (file : String) :
    List (BranchPart "elseif") → Engine → Engine → Prop where
  | none {e} : Fail file [] e e
  | next {part rest e e₁ e₂} (fails : part.Decides file e false e₁)
      (further : Fail file rest e₁ e₂) : Fail file (part :: rest) e e₂

def BranchPart.Evaluate (file : String) (parts : List (BranchPart "elseif")) (e : Engine) : Prop :=
  ∀ before part after e₁, parts = before ++ part :: after → Fail file before e e₁ →
    ∃ held e₂, part.Decides file e₁ held e₂

/-- The commands that are run after the conditions were evaluated, up to the first one that holds.
The value of the condition of the branch itself is known. -/
inductive BranchBody.Selects (b : BranchBody) (file : String) :
    Bool → Engine → List Command → Engine → Prop where
  | first {e} : Selects b file true e b.first e
  | alternative {before part after e e₁ e₂} (split : b.alternatives = before ++ part :: after)
      (fail : BranchPart.Fail file before e e₁) (holds : part.Decides file e₁ true e₂) :
      Selects b file false e part.commands e₂
  | otherwise {e e₁} (fail : BranchPart.Fail file b.alternatives e e₁) :
      Selects b file false e b.fallback e₁

namespace Runner

def untilTransfer (r : Runner) : List Command → Run (Option Transfer)
  | [] => pure none
  | c :: rest => do
    let (_, inner) ← r.run c
    match inner.transfer? with
    | some t => return some t
    | none => untilTransfer r rest

def runThrough (r : Runner) (commands : List Command) (o : Outcome) (next : Run Outcome) :
    Run Outcome := do
  match ← r.untilTransfer commands with
  | some t => return o.request t
  | none => next

def selected (r : Runner) (file : String) (chosen surplus : List Command) (o : Outcome) :
    Run Outcome :=
  r.runThrough chosen o do
    modify (BranchBody.refuse file surplus)
    return o

end Runner
end CMakeScript
