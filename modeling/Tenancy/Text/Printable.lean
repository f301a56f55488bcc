import Tenancy.Text.Blank
import Tenancy.Text.Combining
import Tenancy.Text.Hidden

/-!
# Printable characters

A character is printable when it shows as itself wherever it stands: it is the space or a code that is
not hidden, and it is no mark that combines with its neighbour.
-/

namespace Tenancy.Text

/-- A character that shows as itself wherever it stands. -/
def isPrintable (c : Char) : Bool :=
  if c.toNat < 0x7F then 0x20 ≤ c.toNat
  else !(inRanges hiddenRanges c || inRanges combiningRanges c)

end Tenancy.Text
