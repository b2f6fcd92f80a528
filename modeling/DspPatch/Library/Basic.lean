import DspPatch.Scope
import DspPatch.Sequence.Basic

/-!
Shared definitions: units of helper code under a tag, which may depend on other definitions, import functions of the
host and export functions to it. A definition is known by the identity that it was made with, whatever its tag and its
code. Flattening lists what some definitions need, each identity once and after those that it depends on.
-/
namespace DspPatch

/-- A function of the host. -/
structure ImportSpec where
  name : String
  args : List Var
  returnType : String

structure Definition where
  /-- Drawn from a counter when the definition is made. -/
  id : Nat
  tag : String
  /-- Local names that get symbols under the tag before the code is made. -/
  locals : List String
  /-- The definitions that have to come before. -/
  dependencies : List Definition
  imports : List ImportSpec
  /-- The local names that the host may call. -/
  exports : List String
  code : DefinitionContext → Except CompileError Sequence

namespace Definition

/-- All names that get symbols: locals, imports and exports. -/
def names (d : Definition) : List String := d.locals ++ d.imports.map ImportSpec.name ++ d.exports

/-- One of the definitions has the identity. -/
def isListed (id : Nat) (done : List Definition) : Bool := done.any (fun d => d.id == id)

/-- The definitions `done` and then `d`, unless its identity is among them. -/
def list (d : Definition) (done : List Definition) : List Definition :=
  if isListed d.id done then done else done ++ [d]

mutual

/-- List a definition after all that it needs. If its identity is listed, so is what it needs. -/
def flattenInto : Definition → List Definition → List Definition
  | d@⟨id, _, _, dependencies, _, _, _⟩, done =>
    if isListed id done then done else d.list (flattenEach dependencies done)

/-- List definitions one after another, each after all that it needs. -/
def flattenEach : List Definition → List Definition → List Definition
  | [], done => done
  | d :: rest, done => flattenEach rest (d.flattenInto done)

end

/-- The roots and all they need, each once, dependencies before dependents. -/
def flatten (roots : List Definition) : List Definition := flattenEach roots []

end Definition
end DspPatch
