import DspPatch.Sequence.Basic

/-!
The pseudo-code listing of a sequence: one line for each declaration, code line by line, and bodies four spaces deeper.
The value of a declaration is its own listing without the blanks at the end, so it may span lines.
-/
namespace DspPatch

/-- One level of nesting in a listing. -/
def nesting : String := "    "

/-- Lines written one below the other, each with its line feed. -/
def terminated (lines : List String) : String := String.join (lines.map (fun line => line ++ "\n"))

mutual

/-- The lines of a sequence at the given indentation. -/
def Sequence.lines (indent : String) : Sequence → List String
  | ⟨content⟩ => Sequence.contentLines indent content

/-- The lines of the elements, in order. -/
def Sequence.contentLines (indent : String) : List Element → List String
  | [] => []
  | element :: rest => element.lines indent ++ Sequence.contentLines indent rest

/-- The lines of one element. -/
def Element.lines (indent : String) : Element → List String
  | .code text => (Text.lines text.toList).map (fun line => indent ++ String.ofList line)
  | .variable declaration => [indent ++ "let " ++ declaration.listing]
  | .constant declaration => [indent ++ "const " ++ declaration.listing]
  | .function function => function.lines indent
  | .record record => record.lines indent
  | .frameLoop loop => loop.lines indent

/-- A head line with the arguments, the body one level deeper, and the closing brace. -/
def Func.lines (indent : String) : Func → List String
  | ⟨name, args, returnType, body⟩ =>
    [indent ++ "func " ++ name.getD "" ++ "(" ++ ", ".intercalate (Var.listings args) ++ ") -> " ++ returnType ++ " \x7b"]
      ++ body.lines (indent ++ nesting) ++ [indent ++ "\x7d"]

/-- A head line, one line for each member, and the closing brace. -/
def Class.lines (indent : String) : Class → List String
  | ⟨name, members⟩ =>
    [indent ++ "class " ++ name ++ " \x7b"] ++ (Var.listings members).map (fun member => indent ++ nesting ++ member)
      ++ [indent ++ "\x7d"]

/-- A head line, the call of the frame hook, the body, the frame counter, and the closing brace. -/
def FrameLoop.lines (indent : String) : FrameLoop → List String
  | ⟨iter, blockSize, frame, frameHook, body⟩ =>
    [indent ++ "for (" ++ iter ++ " = 0; " ++ iter ++ " < " ++ blockSize ++ "; " ++ iter ++ "++) \x7b",
      indent ++ nesting ++ frameHook ++ "(" ++ frame ++ ")"]
      ++ body.lines (indent ++ nesting) ++ [indent ++ nesting ++ frame ++ "++", indent ++ "\x7d"]

/-- The declarations as `name: type`, each followed by its value if it has one. -/
def Var.listings : List Var → List String
  | [] => []
  | declaration :: rest => declaration.listing :: Var.listings rest

/-- A declaration as `name: type`, followed by its value if it has one. -/
def Var.listing : Var → String
  | ⟨type, name, value⟩ => name ++ ": " ++ type ++ Sequence.assignment value

/-- The part of a declaration that gives its value. -/
def Sequence.assignment : Option Sequence → String
  | none => ""
  | some value => " = " ++ String.ofList (Text.trimEnd (terminated (value.lines "")).toList)

end

/-- The pseudo-code listing of a sequence. -/
def Sequence.listing (s : Sequence) : String := terminated (s.lines "")

end DspPatch
