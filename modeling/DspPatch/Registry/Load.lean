import DspPatch.Registry.File
import DspPatch.Search
import DspPatch.Template

/-!
Loading a registry file. Every template is parsed and every name of a definition is resolved, so that a registry that
was loaded has no unknown definition and no cycle of dependencies. A name is resolved once: the definition that is made
for it is found again for all who refer to it by the name.
-/
namespace DspPatch
open RegistryFile

namespace RegistryFile

def Import.spec (i : Import) : ImportSpec := ⟨i.name, i.args.map (fun arg => .plain arg.type arg.name), i.returnType⟩

/-- The definition that renders `code`. -/
def Global.definition (g : Global) (id : Nat) (code : Template) (dependencies : List Definition) : Definition where
  id
  tag := g.tag
  locals := g.locals
  dependencies
  imports := g.imports.map Import.spec
  exports := g.exports
  code := fun context => code.renderCode context.lookup

/-- Where errors place a definition. -/
def globalOrigin (name : String) : String := s!"globals.{name}"

/-- The identity that the next definition gets, and the definitions that are resolved, by name. -/
structure Resolver where
  next : Nat
  resolved : Table Definition

namespace Resolver

/-- The standard definitions are made first and are resolved. -/
def start (first : Nat) : Resolver := ⟨first + Library.Standard.names.length, .ofList (Library.Standard.definitions first)⟩

/-- An identity is drawn. -/
def draw (s : Resolver) : Resolver := { s with next := s.next + 1 }

/-- A name is resolved. -/
def keep (s : Resolver) (name : String) (d : Definition) : Resolver := { s with resolved := s.resolved.insert name d }

end Resolver

/-- What a step makes of every item, in turn, each from the state that the one before has left. -/
def inTurn {ε α β σ : Type} (step : α → σ → Except ε (β × σ)) : List α → σ → Except ε (List β × σ)
  | [], s => .ok ([], s)
  | item :: rest, s => do
    let (made, s) ← step item s
    let (others, s) ← inTurn step rest s
    return (made :: others, s)

/-- Resolve a definition. `path` holds the definitions that are being resolved. A definition has its identity before those
    that it depends on get theirs. -/
def resolve (globals : Table Global) (path : List String) (name : String) (s : Resolver) :
    Except CompileError (Definition × Resolver) :=
  match s.resolved.get? name with
  | some d => .ok (d, s)
  | none =>
    if _fresh : name ∈ path then .error (.template (globalOrigin name) (.cycle (path ++ [name])))
    else
      match _found : globals.get? name with
      | none => .error (.template (globalOrigin name) .unknownDefinition)
      | some g =>
        match Template.parse (globalOrigin name) g.code with
        | .error e => .error e
        | .ok code => do
          let (dependencies, after) ←
            inTurn (fun dependency s => resolve globals (path ++ [name]) dependency s) g.dependencies s.draw
          let d := g.definition s.next code dependencies
          return (d, after.keep name d)
termination_by Search.unseen globals.keys path
decreasing_by exact Search.unseen_append_lt (Table.mem_keys_of_get? ‹_›) ‹_›

/-- Resolve all definitions of a file. The names of the standard definitions are reserved. -/
def resolveGlobals (globals : Table Global) (first : Nat) : Except CompileError Resolver :=
  match Library.Standard.names.find? globals.contains with
  | some name => .error (.template (globalOrigin name) .reservedName)
  | none => (inTurn (resolve globals []) globals.keys (.start first)).map Prod.snd

/-- Templates by key, each parsed with an origin made of its key. -/
def parseAll {α : Type} (origin : String → String) (source : α → String) (t : Table α) :
    Except CompileError (List (String × α × Template)) :=
  t.entries.mapM (fun (key, value) => do return (key, value, ← Template.parse (origin key) (source value)))

def parseOptional (origin : String) : Option String → Except CompileError (Option Template)
  | none => .ok none
  | some source => (Template.parse origin source).map some

/-- The code of an optional template. -/
def renderOptional (lookup : String → Option String → Except CompileError String) :
    Option Template → Except CompileError (Option Sequence)
  | none => .ok none
  | some t => (t.renderCode lookup).map some

/-- The implementation of a node type. Its state comes first, then inlets, receivers and dependencies, and last the
    code of the type, the declarations and the loop. -/
def NodeType.implementation (globals : Table Global) (type : String) (t : NodeType) (s : Resolver) :
    Except CompileError (Implementation × Resolver) := do
  let origin := fun field => s!"nodes.{type}.{field}"
  let state ← t.state.mapM (fun member => do
    return (member, ← Template.parse (origin s!"state.{member.name}") member.value))
  let inletDsp ← parseAll (fun inlet => origin s!"inletDsp.{inlet}") (fun source => source) t.inletDsp
  let receivers ← parseAll (fun inlet => origin s!"messageReceivers.{inlet}") ReceiverCode.body t.receivers
  let (dependencies, s) ← inTurn (resolve globals []) t.dependencies s
  let core ← parseOptional (origin "core") t.core
  let declarations ← parseOptional (origin "declarations") t.declarations
  let loop ← parseOptional (origin "loop") t.loop
  return ({
    flags := t.flags
    locals := t.locals
    core := fun context => renderOptional context.lookup core
    state := fun context => state.mapM (fun (member, value) => do
      return ⟨member.name, member.type, ← value.render context.lookup⟩)
    declarations := fun context => renderOptional context.lookup declarations
    loop := fun context => renderOptional context.lookup loop
    inletDsp := fun context => do
      return .ofList (← inletDsp.mapM (fun (inlet, _, t) => do return (inlet, ← t.renderCode context.lookup)))
    receivers := fun context => do
      return .ofList (← receivers.mapM (fun (inlet, code, t) => do
        return (inlet, ⟨← t.renderCode context.lookup, code.exhaustive⟩)))
    dependencies }, s)

/-- A node type of the file with its implementation. -/
def implement (globals : Table Global) (entry : String × NodeType) (s : Resolver) :
    Except CompileError ((String × Implementation) × Resolver) := do
  let (i, s) ← entry.2.implementation globals entry.1 s
  return ((entry.1, i), s)

/-- The registry of a file, whose definitions get the identities from `first` on. Definitions are resolved before node
    types. -/
def registry (file : RegistryFile) (first : Nat) : Except CompileError Registry := do
  let s ← resolveGlobals file.globals first
  let (types, _) ← inTurn (implement file.globals) file.nodes.entries s
  return ⟨first, .ofList types⟩

end RegistryFile

/-- The registry that a text spells. The counter of identities is shared by all that are read, and stands at `first`. -/
def Registry.read (first : Nat) (text : String) : Except CompileError Registry :=
  match RegistryFile.decode.run text with
  | some file => file.registry first
  | none => .error (.template "registry" .unreadable)

end DspPatch
