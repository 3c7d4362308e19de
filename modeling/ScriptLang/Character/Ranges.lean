/-!
# Sets of characters as sorted ranges

A property of characters that the Unicode standard gives by a table is kept as the
table's ranges of code points, in increasing order.  `Ranges.mem` stops at the first
range that begins above the code point it looks for.
-/

namespace ScriptLang

/-- Ranges of code points, both ends included, in increasing order. -/
abbrev Ranges := List (Nat × Nat)

namespace Ranges

/-- Whether a code point lies in one of the ranges. -/
def mem : Ranges → Nat → Bool
  | [], _ => false
  | (low, high) :: rest, n =>
      if n < low then false else if n ≤ high then true else mem rest n

end Ranges

end ScriptLang
