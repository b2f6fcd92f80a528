import DspPatch.Pipeline
import DspPatch.Registry.Load
import DspPatch.Sequence.Json
import DspPatch.Settings.Json
import DspPatch.Symbols.Json

/-!
The command line: which files are compiled, with which options, and what is written. Arguments are looked at from left to
right, and the first that is out of place decides.
-/
namespace DspPatch

/-- Why there is no text to read at a path. -/
inductive ReadError where
  /-- A name on the way is the name of nothing. -/
  | missing
  /-- The path goes on behind a file. -/
  | notFolder
  /-- The path ends at a folder. -/
  | isFolder
  /-- The path, or a name in it, is longer than the system takes. -/
  | nameTooLong
  /-- Any other cause, in the system's words. -/
  | other (reason : String)
deriving DecidableEq, Repr

/-- The cause in the system's words, with its number. -/
def ReadError.message : ReadError → String
  | missing => "No such file or directory (os error 2)"
  | notFolder => "Not a directory (os error 20)"
  | isFolder => "Is a directory (os error 21)"
  | nameTooLong => "File name too long (os error 36)"
  | other reason => reason

namespace CommandLine

/-- What a compilation writes. -/
inductive Emit where
  /-- The listing of the program. -/
  | ir
  /-- The program as JSON. -/
  | json
  /-- The ids of the nodes that run, one a line. -/
  | traversal
  /-- The index of symbols as JSON. -/
  | names
deriving DecidableEq, Repr

namespace Emit

/-- The value of the option. -/
def option : Emit → String
  | ir => "ir"
  | json => "json"
  | traversal => "traversal"
  | names => "names"

/-- The word in progress reports. -/
def title : Emit → String
  | ir => "Ir"
  | json => "Json"
  | traversal => "Traversal"
  | names => "Names"

def ofOption? (text : String) : Option Emit := [ir, json, traversal, names].find? (fun e => e.option == text)

/-- The last pass that is needed. -/
def terminal : Emit → Pass
  | traversal => .buildTraversal
  | _ => .assemble

end Emit

/-- The options of a compilation. -/
structure Options where
  graph : String
  nodes : String
  settings : Option String
  emit : Emit
  debug : Bool
  verbose : Bool
deriving DecidableEq, Repr

/-- What the arguments ask for. -/
inductive Command where
  | compile (options : Options)
  | version
  | help
  /-- The arguments make no sense. -/
  | misuse
deriving DecidableEq, Repr

/-- The options given so far. -/
structure Given where
  graph : Option String := none
  nodes : Option String := none
  settings : Option String := none
  emit : Option Emit := none
  debug : Bool := false
  verbose : Bool := false

namespace Given

/-- All arguments are seen; a graph and a registry are needed. -/
def finish (g : Given) : Command :=
  match g.graph, g.nodes with
  | some graph, some nodes => .compile ⟨graph, nodes, g.settings, g.emit.getD .ir, g.debug, g.verbose⟩
  | _, _ => .misuse

/-- Take an argument that is no option: the graph, once, and not the empty path. -/
def takePath (g : Given) (path : String) : Option Given :=
  if g.graph.isSome || path.isEmpty then none else some { g with graph := some path }

/-- Take an option without value, once. -/
def takeFlag (g : Given) (name : String) : Option Given :=
  match name with
  | "--debug" => if g.debug then none else some { g with debug := true }
  | "--verbose" => if g.verbose then none else some { g with verbose := true }
  | _ => none

/-- Take an option with its value, once. -/
def takeValue (g : Given) (name value : String) : Option Given :=
  match name with
  | "--nodes" => if g.nodes.isSome || value.isEmpty then none else some { g with nodes := some value }
  | "--settings" => if g.settings.isSome || value.isEmpty then none else some { g with settings := some value }
  | "--emit" => if g.emit.isSome then none else (Emit.ofOption? value).map (fun e => { g with emit := some e })
  | _ => none

end Given

/-- An argument that is read as an option: it begins with a dash and has more than that. -/
def isOption (arg : String) : Bool := arg.startsWith "-" && arg != "-"

/-- The name of a long option and the value behind its equals sign. -/
def splitOption (arg : String) : String × Option String :=
  let name := arg.toList.takeWhile (· != '=')
  let rest := arg.toList.dropWhile (· != '=')
  (String.ofList name, rest.tail?.map String.ofList)

/-- The options that need a value. -/
def valued : List String := ["--nodes", "--settings", "--emit"]

/-- Arguments that are all paths. -/
def scanPaths (g : Given) : List String → Command
  | [] => g.finish
  | arg :: rest =>
    match g.takePath arg with
    | some g => scanPaths g rest
    | none => .misuse

/-- Short options; the first one decides. -/
def shortOption (arg : String) : Command :=
  match arg.toList with
  | '-' :: 'V' :: _ => .version
  | '-' :: 'h' :: _ => .help
  | _ => .misuse

/-- Look at the arguments from left to right. -/
def scan (g : Given) : List String → Command
  | [] => g.finish
  | arg :: rest =>
    if arg = "--" then scanPaths g rest
    else if !isOption arg then
      match g.takePath arg with
      | some g => scan g rest
      | none => .misuse
    else if !arg.startsWith "--" then shortOption arg
    else
      match splitOption arg with
      | (name, some value) =>
        match g.takeValue name value with
        | some g => scan g rest
        | none => .misuse
      | ("--version", none) => .version
      | ("--help", none) => .help
      | (name, none) =>
        if valued.contains name then
          match rest with
          | [] => .misuse
          | value :: others =>
            match if isOption value then none else g.takeValue name value with
            | some g => scan g others
            | none => .misuse
        else
          match g.takeFlag name with
          | some g => scan g rest
          | none => .misuse

/-- What the arguments ask for. -/
def parse (args : List String) : Command := scan {} args

/-- What a command writes and the code it exits with. -/
structure Report where
  exit : Nat
  stdout : String := ""
  /-- Each followed by a line break. -/
  stderr : List String := []

/-- What can be read at a path. -/
abbrev Files := String → Except ReadError String

/-- The text of a file and what it spells; failures are lines for the user. -/
def load {α : Type} (files : Files) (path : String) (read : String → Except CompileError α) : Except String α :=
  match files path with
  | .error e => .error s!"dspc: error: {path}: {e.message}"
  | .ok text => (read text).mapError (fun e => "dspc: " ++ e.render)

/-- What is compiled: graph, registry and settings, in this order. -/
def loadInputs (files : Files) (o : Options) : Except String Compilation := do
  let graph ← load files o.graph Graph.read
  let registry ← load files o.nodes (Registry.read 0)
  let request ← match o.settings with
    | some path => load files path SettingsRequest.read
    | none => pure {}
  return { graph, registry, request := if o.debug then { request with debug := some true } else request }

def provenanceJson (p : Provenance) : Json.Value :=
  .object [("graph_hash", .string p.graphHash), ("registry_fingerprint", .string p.registryFingerprint),
    ("compiler_version", .string p.compilerVersion)]

/-- The text of what was asked for. -/
def output? (c : Compilation) : Emit → Option String
  | .ir => c.program.map Sequence.listing
  | .json => c.program.map (fun p => p.toJson.pretty "")
  | .traversal => c.traversal.map (fun ids => "\n".intercalate ids ++ "\n")
  | .names => c.symbols.map (fun s => s.toJson.pretty "")

/-- Compile the files and report. -/
def compileFiles (files : Files) (o : Options) : Report :=
  let say := fun (lines : List String) => if o.verbose then lines else []
  let opening := say [s!"dspc: graph = {o.graph}", s!"dspc: nodes = {o.nodes}", s!"dspc: emit  = {o.emit.title}"]
  match loadInputs files o with
  | .error line => ⟨2, "", opening ++ [line]⟩
  | .ok c =>
    let sizes := say [s!"dspc: {c.graph.size} nodes, {c.registry.types.size} node types registered"]
    let (run, c) := c.run o.emit.terminal
    let progress := opening ++ sizes ++ say (run.passes.map (fun pass => s!"dspc: {pass.name} complete"))
    match run.failure with
    | some (_, e) => ⟨1, "", progress ++ ["dspc: " ++ e.render]⟩
    | none =>
      let closing := say ((c.provenance.map (fun p => (provenanceJson p).pretty "")).toList)
      match output? c o.emit with
      | some text => ⟨0, text, progress ++ closing⟩
      | none => ⟨1, "", progress ++ closing ++ [s!"dspc: nothing to emit for {o.emit.title}"]⟩

/-- How the command is called. -/
def usage : String :=
  "usage: dspc GRAPH --nodes FILE [--settings FILE] [--emit ir|json|traversal|names] [--debug] [--verbose]"

/-- Carry out a command. -/
def Command.run (files : Files) : Command → Report
  | compile options => compileFiles files options
  | version => ⟨0, s!"dspc {DspPatch.version}\n", []⟩
  | help => ⟨0, usage ++ "\n", []⟩
  | misuse => ⟨2, "", [usage]⟩

end CommandLine
end DspPatch
