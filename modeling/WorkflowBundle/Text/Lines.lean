/-! Lines of a text. A line ends at a line feed, with a carriage return before it or not. -/
namespace WorkflowBundle

/-- A line without a carriage return at its end. -/
def withoutReturn (line : List Char) : List Char :=
  if line.getLast? = some '\r' then line.dropLast else line

/-- The lines of a text, where what was read of the first one is given in reverse. A line
without an end counts when there is something on it. -/
def linesFrom : (front : List Char) → List Char → List (List Char)
  | [], [] => []
  | front, [] => [front.reverse]
  | front, '\n' :: rest => withoutReturn front.reverse :: linesFrom [] rest
  | front, c :: rest => linesFrom (c :: front) rest

def lines (text : String) : List String := (linesFrom [] text.toList).map String.ofList

end WorkflowBundle
