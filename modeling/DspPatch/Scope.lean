import DspPatch.Settings.Basic
import DspPatch.Symbols.Basic

/-!
What generated code can refer to, and what the placeholders of a template stand for there. The code of a node sees its
own portlets, state and arguments; every code sees the symbols of the engine, of its own tag and of other tags.
-/
namespace DspPatch

/-- What the code of one node sees. -/
structure NodeContext where
  node : Node
  symbols : Symbols
  settings : Settings
  /-- The expressions that feed the signal inlets. -/
  signalIns : Table String

/-- What the code shared by all nodes of a type sees. -/
structure TypeContext where
  type : String
  symbols : Symbols
  settings : Settings

/-- What the code of a shared definition sees. -/
structure DefinitionContext where
  tag : String
  symbols : Symbols
  settings : Settings

namespace Scope

/-- The key of a placeholder that cannot do without one. -/
def needKey (scope : String) (key : Option String) : Except CompileError String :=
  match key with
  | some key => .ok key
  | none => .error (.template ("$\x7b" ++ scope ++ "\x7d") .missingKey)

/-- The scopes that all code has: the engine, its own tag if it has one, and every other tag. -/
def common (symbols : Symbols) (ownTag : Option String) (scope : String) (key : Option String) :
    Except CompileError String := do
  let key ← needKey scope key
  if scope = "globs" then Engine.get key
  else if scope = "ns" then
    match ownTag with
    | some tag => symbols.global tag key
    | none => throw (.unassigned "ns" key)
  else symbols.global scope key

/-- The text of an argument: a text itself, and anything else as JSON. -/
def argText : Json.Value → String
  | .string text => text
  | value => value.compact

end Scope

namespace NodeContext

/-- The expression that feeds a signal inlet. -/
def ins (c : NodeContext) (inlet : String) : Except CompileError String :=
  match c.signalIns.get? inlet with
  | some expression => .ok expression
  | none => .error (.unassigned s!"n_{c.node.id}_ins" inlet)

def state (c : NodeContext) : Except CompileError String := do
  return (← c.symbols.node c.node.id).state

def arg (c : NodeContext) (key : String) : Except CompileError String :=
  match c.node.args.get? key with
  | some value => .ok (Scope.argText value)
  | none => .error (.unassigned s!"n_{c.node.id}_args" key)

/-- The symbol of a local name of the node's type. -/
def localSymbol (c : NodeContext) (name : String) : Except CompileError String := do
  c.symbols.global (← c.symbols.typeTag c.node.type) name

/-- What a placeholder in the code of a node stands for. -/
def lookup (c : NodeContext) (scope : String) (key : Option String) : Except CompileError String := do
  if scope = "state" && key.isNone then c.state
  else if scope = "ins" then c.ins (← Scope.needKey scope key)
  else if scope = "outs" then c.symbols.portlet .outs c.node.id (← Scope.needKey scope key)
  else if scope = "snds" then c.symbols.portlet .snds c.node.id (← Scope.needKey scope key)
  else if scope = "rcvs" then c.symbols.portlet .rcvs c.node.id (← Scope.needKey scope key)
  else if scope = "args" then c.arg (← Scope.needKey scope key)
  else Scope.common c.symbols (c.symbols.typeTags.get? c.node.type) scope key

end NodeContext

namespace TypeContext

/-- The symbol of a local name of the type. -/
def localSymbol (c : TypeContext) (name : String) : Except CompileError String := do
  c.symbols.global (← c.symbols.typeTag c.type) name

/-- What a placeholder in the shared code of a type stands for. -/
def lookup (c : TypeContext) : String → Option String → Except CompileError String :=
  Scope.common c.symbols (c.symbols.typeTags.get? c.type)

end TypeContext

namespace DefinitionContext

/-- The symbol of a local name of the definition. -/
def localSymbol (c : DefinitionContext) (name : String) : Except CompileError String := c.symbols.global c.tag name

/-- What a placeholder in the code of a definition stands for. -/
def lookup (c : DefinitionContext) : String → Option String → Except CompileError String :=
  Scope.common c.symbols (some c.tag)

end DefinitionContext
end DspPatch
