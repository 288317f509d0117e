/-!
# Sorted intervals of code points

A character class of the Unicode standard is a few hundred intervals.  They are kept as a list of
closed intervals in increasing order, so that a look-up may stop at the first interval that begins
beyond the code point it asks for: ASCII text never walks far into a table.
-/

namespace Ipld.Text

/-- Closed intervals of code points, lowest first. -/
abbrev Intervals := List (Nat × Nat)

/-- Whether a code point lies in one of the intervals.  The search gives up at the first interval
that begins beyond `c`, which is right because the intervals increase. -/
def Intervals.contains : Intervals → Nat → Bool
  | [], _ => false
  | (low, high) :: rest, c =>
    if c < low then false else if c ≤ high then true else Intervals.contains rest c

end Ipld.Text
