import DspPatch.Text.Blank

/-!
Lines of code text. A line ends at a line feed, and a carriage return directly before that line feed belongs to the
line's end. Code is kept in a normal form: no line is blank and none begins or ends with a blank character.
-/
namespace DspPatch.Text

/-- A line without the carriage return that stands directly before its line feed. -/
def dropReturn (line : List Char) : List Char :=
  if line.getLast? = some '\r' then line.dropLast else line

/-- The lines of `cs`, where `line` holds, in reverse, what was read of the first one. A text that ends with a line
    feed has no further line after it. -/
def linesFrom (line : List Char) : List Char → List (List Char)
  | [] => if line.isEmpty then [] else [line.reverse]
  | c :: rest => if c = '\n' then dropReturn line.reverse :: linesFrom [] rest else linesFrom (c :: line) rest

/-- The lines of a text, without their ends. -/
def lines (cs : List Char) : List (List Char) := linesFrom [] cs

/-- The trimmed lines of a text that are not empty. -/
def codeLines (cs : List Char) : List (List Char) := ((lines cs).map trim).filter (fun line => !line.isEmpty)

/-- Lines joined by line feeds, with none after the last. -/
def joinLines : List (List Char) → List Char
  | [] => []
  | [line] => line
  | line :: rest => line ++ '\n' :: joinLines rest

/-- Code text in normal form: trimmed lines, none of them empty. -/
def normalCode (text : String) : String := String.ofList (joinLines (codeLines text.toList))

end DspPatch.Text
