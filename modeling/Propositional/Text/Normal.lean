import Propositional.Text

namespace Propositional.Text

/-!
# Normal texts

Before a formula is read, its blanks are removed and then the neighbouring
pairs of negation signs, which cancel.  Because pairs are taken from the left
in one pass, a run of negation signs keeps one sign if its length is odd and
none if it is even.
-/

/-- Remove disjoint neighbouring pairs of a byte, from the left. -/
def cancelPairs (byte : Byte) : Text → Text
  | [] =>
      []
  | [last] =>
      [last]
  | first :: second :: rest =>
      if first = byte ∧ second = byte then
        cancelPairs byte rest
      else
        first :: cancelPairs byte (second :: rest)

/-- Remove every blank, and then every pair of negation signs. -/
def normalize (text : Text) : Text :=
  cancelPairs (Byte.ofChar '!') (text.filter fun byte => !Byte.isSpace byte)

end Propositional.Text
