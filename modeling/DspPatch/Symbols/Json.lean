import DspPatch.Symbols.Basic

/-!
The index of symbols as a JSON value.
-/
namespace DspPatch
open Json

def Namespace.toJson (ns : Namespace) : Value := Value.ofTable .string ns.entries

def NodeSymbols.toJson (s : NodeSymbols) : Value :=
  .object [("prefix", .string s.stem), ("state", .string s.state), ("outs", s.outs.toJson), ("snds", s.snds.toJson),
    ("rcvs", s.rcvs.toJson)]

def Symbols.toJson (s : Symbols) : Value :=
  .object [("nodes", Value.ofTable NodeSymbols.toJson s.nodes),
    ("globs", .object (Engine.symbols.map (fun entry => (entry.1, .string entry.2)))),
    ("globals", Value.ofTable Namespace.toJson s.globals),
    ("typeTags", Value.ofTable .string s.typeTags),
    ("coldDspGroups", s.coldGroups.toJson),
    ("outletListeners", Value.ofTable Namespace.toJson s.outletListeners),
    ("inletCallers", Value.ofTable Namespace.toJson s.inletCallers)]

end DspPatch
