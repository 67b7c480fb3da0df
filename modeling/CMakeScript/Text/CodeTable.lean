import CMakeScript.Text.Basic
/-! Tables of code points: ranges in rising order, searched by halving. -/
namespace CMakeScript.Text

abbrev CodeTable := Array (Nat × Nat)

namespace CodeTable

def search (table : CodeTable) (n : Nat) : Nat → Nat → Nat → Bool
  | 0, _, _ => false
  | fuel + 1, low, high =>
    if high ≤ low then false
    else
      let middle := (low + high) / 2
      match table[middle]? with
      | none => false
      | some (first, last) =>
        if n < first then search table n fuel low middle
        else if last < n then search table n fuel (middle + 1) high
        else true

def contains (table : CodeTable) (c : Char) : Bool :=
  search table c.toNat table.size 0 table.size

end CodeTable
end CMakeScript.Text
