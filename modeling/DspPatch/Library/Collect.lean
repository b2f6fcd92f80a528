import DspPatch.Library.Basic
import DspPatch.Sequence.Listing

/-!
Collecting shared code. All definitions that are needed get their symbols first; then every definition is turned into
code, in the order of flattening. Code with the same listing is kept once, and so are imports and exports with the same
symbol.
-/
namespace DspPatch

/-- Shared code with the imports and exports of its definitions. -/
structure SharedCode where
  code : Sequence
  /-- The listings of the definitions whose code is kept. -/
  listings : List String
  imports : List Func
  exports : List String

namespace SharedCode

/-- No shared code. -/
def empty : SharedCode := ⟨.empty, [], [], []⟩

/-- Add code unless it is empty or listed already. -/
def addCode (s : SharedCode) (code : Sequence) : SharedCode :=
  if code.isEmpty || s.listings.contains code.listing then s
  else { s with code := s.code ++ code, listings := s.listings ++ [code.listing] }

/-- Add an imported function unless its symbol is imported already. -/
def addImport (s : SharedCode) (symbol : String) (spec : ImportSpec) : SharedCode :=
  if s.imports.any (fun f => f.name == some symbol) then s
  else { s with imports := s.imports ++ [.named symbol spec.args spec.returnType .empty] }

/-- Add an exported symbol unless it is exported already. -/
def addExport (s : SharedCode) (symbol : String) : SharedCode :=
  if s.exports.contains symbol then s else { s with exports := s.exports ++ [symbol] }

/-- Add one definition: its code, its imports, its exports. -/
def addDefinition (symbols : Symbols) (settings : Settings) (s : SharedCode) (d : Definition) :
    Except CompileError SharedCode := do
  let context : DefinitionContext := ⟨d.tag, symbols, settings⟩
  let s := s.addCode (← d.code context)
  let s ← d.imports.foldlM (fun s spec => do return s.addImport (← context.localSymbol spec.name) spec) s
  d.exports.foldlM (fun s name => do return s.addExport (← context.localSymbol name)) s

end SharedCode

/-- Give symbols to local names, each under its tag, up to the first one that cannot have one. -/
def Symbols.attachGlobals (s : Symbols) : List (String × String) → Except CompileError Unit × Symbols
  | [] => (.ok (), s)
  | (tag, name) :: rest =>
    match s.attachGlobal tag name with
    | .error e => (.error e, s)
    | .ok (_, s) => s.attachGlobals rest

/-- The shared code that the roots need. Symbols that were given are kept even when the code fails. -/
def SharedCode.collect (roots : List Definition) (settings : Settings) (symbols : Symbols) :
    Except CompileError SharedCode × Symbols :=
  let definitions := Definition.flatten roots
  let (attached, symbols) := symbols.attachGlobals (definitions.flatMap (fun d => d.names.map (fun n => (d.tag, n))))
  (attached.bind (fun _ => definitions.foldlM (addDefinition symbols settings) .empty), symbols)

end DspPatch
