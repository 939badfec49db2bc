import TypeGraph.Text.Fields

/-!
# Lines of a text

A line ends with a line feed. A carriage return directly before the line feed belongs to the end of
the line; anywhere else it is a character like others.
-/

namespace TypeGraph.Text

/-- A line without the carriage return at its end. -/
def withoutReturn (line : List Char) : List Char :=
  if line.getLast? = some '\r' then line.dropLast else line

/-- The lines of a text whose last line feed is left off. -/
def lines (cs : List Char) : List (List Char) := (fields '\n' cs).map withoutReturn

end TypeGraph.Text
