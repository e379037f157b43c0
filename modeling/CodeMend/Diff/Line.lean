/-!
# Lines of a text

A line ends with a line feed, a carriage return and a line feed, or a lone carriage return, and keeps
its ending.  The last line may have none.
-/

namespace CodeMend.Diff

/-- Cuts a text into lines; `line` holds the characters of the current one, last first. -/
def cut : List Char → List Char → List (List Char)
  | [], [] => []
  | line, [] => [line.reverse]
  | line, '\r' :: '\n' :: cs => ('\n' :: '\r' :: line).reverse :: cut [] cs
  | line, c :: cs =>
    if c == '\n' || c == '\r' then (c :: line).reverse :: cut [] cs else cut (c :: line) cs

/-- The lines of a text, with their endings. -/
def lines (text : String) : List String := (cut [] text.toList).map String.ofList

/-- Does the line have an ending? -/
def isEnded (line : String) : Bool :=
  match line.toList.getLast? with
  | some c => c == '\n' || c == '\r'
  | none => false

end CodeMend.Diff
