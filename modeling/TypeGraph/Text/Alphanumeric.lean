import TypeGraph.Text.Alphabetic
import TypeGraph.Text.Numeric

/-!
# Letters and numbers of all scripts
-/

namespace TypeGraph.Text

/-- A letter or number of any script. -/
def isAlphanumeric (c : Char) : Bool := isAlphabetic c || isNumeric c

end TypeGraph.Text
