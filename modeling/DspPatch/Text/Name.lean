/-!
Fragments of variable names and whole names inside code. Generated names consist of ASCII letters, digits and
underscores; a name inside code is a maximal run of such characters.
-/
namespace DspPatch.Text

/-- The characters a generated name may hold: ASCII letters, ASCII digits and the underscore. -/
def isNameChar (c : Char) : Bool := c.isAlphanum || c == '_'

/-- A non-empty run of name characters. -/
def isNamePart (part : String) : Bool := !part.isEmpty && part.toList.all isNameChar

/-- The name characters of a text, in order. -/
def nameChars (text : String) : String := String.ofList (text.toList.filter isNameChar)

/-- There is no name character next to a name that ends or begins here. -/
def isBoundary : Option Char → Bool
  | none => true
  | some c => !isNameChar c

/-- Scan for `name`, with `last` the last character written so far and `skip` the number of characters of an
    occurrence that are still to be passed over. An occurrence is replaced when no name character touches it. -/
def replaceNameFrom (name replacement : List Char) (last : Option Char) (skip : Nat) : List Char → List Char
  | [] => []
  | c :: rest =>
    match skip with
    | skip + 1 => replaceNameFrom name replacement last skip rest
    | 0 =>
      if name.isPrefixOf (c :: rest) then
        let next := (rest.drop (name.length - 1)).head?
        let written := if isBoundary last && isBoundary next then replacement else name
        written ++ replaceNameFrom name replacement (written.getLast?.or last) (name.length - 1) rest
      else c :: replaceNameFrom name replacement (some c) 0 rest

/-- The text with every whole occurrence of `name` replaced. Occurrences are taken from left to right without
    overlap, and what was inserted is not scanned again. -/
def replaceName (text name replacement : String) : String :=
  String.ofList (replaceNameFrom name.toList replacement.toList none 0 text.toList)

end DspPatch.Text
