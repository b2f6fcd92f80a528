import DspPatch.Text.Lines

/-!
Output code as sequences of elements. Code fragments are opaque text; variables, functions, classes and the frame loop
give structure. A sequence is built by pushing elements: code is brought to its normal form, empty code is dropped, and
code that follows code is merged with it line by line.
-/
namespace DspPatch

mutual

/-- One element of an output sequence. -/
inductive Element where
  /-- Opaque code, one statement or expression a line. -/
  | code (text : String)
  | variable (declaration : Var)
  | constant (declaration : Var)
  | function (function : Func)
  | record (record : Class)
  | frameLoop (loop : FrameLoop)

/-- A variable declaration, with its initial value if it has one. -/
structure Var where
  type : String
  name : String
  value : Option Sequence

/-- A function, anonymous when it has no name. -/
structure Func where
  name : Option String
  args : List Var
  returnType : String
  body : Sequence

/-- A class with its members. -/
structure Class where
  name : String
  members : List Var

/-- The loop over the frames of a block: `iter` counts to `blockSize`, `frameHook` is called with `frame` at the start
    of every frame, and `frame` is increased at its end. -/
structure FrameLoop where
  iter : String
  blockSize : String
  frame : String
  frameHook : String
  body : Sequence

/-- Elements in order. -/
structure Sequence where
  content : List Element

end

namespace Sequence

/-- The sequence without elements. -/
def empty : Sequence := ⟨[]⟩

instance : EmptyCollection Sequence := ⟨empty⟩
instance : Inhabited Sequence := ⟨empty⟩

def isEmpty (s : Sequence) : Bool := s.content.isEmpty

/-- `code`, which is in normal form, put at the end of `content`: merged with code that stands there. -/
def appendCode (content : List Element) (code : String) : List Element :=
  match content.getLast? with
  | some (.code last) => content.dropLast ++ [.code (last ++ "\n" ++ code)]
  | _ => content ++ [.code code]

/-- Push code text. Its lines are trimmed, blank lines are dropped, and nothing is pushed if none is left. -/
def pushCode (s : Sequence) (text : String) : Sequence :=
  let code := Text.normalCode text
  if code.isEmpty then s else ⟨appendCode s.content code⟩

/-- Push one element; code is pushed as text. -/
def push (s : Sequence) : Element → Sequence
  | .code text => s.pushCode text
  | element => ⟨s.content ++ [element]⟩

/-- Push elements in order. -/
def pushAll (s : Sequence) (elements : List Element) : Sequence := elements.foldl push s

/-- Push every element of a second sequence. -/
def append (s t : Sequence) : Sequence := s.pushAll t.content

instance : Append Sequence := ⟨append⟩

/-- The sequence of one piece of code. -/
def ofCode (text : String) : Sequence := empty.pushCode text

/-- The sequence of the given elements. -/
def ofElements (elements : List Element) : Sequence := empty.pushAll elements

/-- The expression a sequence consists of: one line of code that does not end with a semicolon. -/
def expression? (s : Sequence) : Option String :=
  match s.content with
  | [.code text] => if text.toList.contains '\n' || text.toList.getLast? == some ';' then none else some text
  | _ => none

end Sequence

/-- A declaration without a value. -/
def Var.plain (type name : String) : Var := ⟨type, name, none⟩

/-- A declaration whose value is code. -/
def Var.withCode (type name code : String) : Var := ⟨type, name, some (.ofCode code)⟩

/-- A function with a name. -/
def Func.named (name : String) (args : List Var) (returnType : String) (body : Sequence) : Func :=
  ⟨some name, args, returnType, body⟩

end DspPatch
