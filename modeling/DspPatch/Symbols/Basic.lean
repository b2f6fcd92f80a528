import DspPatch.Graph.Basic
import DspPatch.Text.Name

/-!
Variable names of generated code. Every node has a state symbol and three namespaces for its portlets; helper code,
node types, cold groups, outlet listeners and inlet callers have symbols too. A symbol that was given once never
changes: giving it again yields the one that is stored.
-/
namespace DspPatch

/-- Symbols by key. The label names the namespace in errors. -/
structure Namespace where
  label : String
  entries : Table String

namespace Namespace

/-- A namespace without symbols. -/
def empty (label : String) : Namespace := ⟨label, ∅⟩

def get (ns : Namespace) (key : String) : Except CompileError String :=
  match ns.entries.get? key with
  | some symbol => .ok symbol
  | none => .error (.unassigned ns.label key)

/-- Give `symbol` to `key` unless it has one, and yield the symbol it has then. -/
def assign (ns : Namespace) (key symbol : String) : String × Namespace :=
  match ns.entries.get? key with
  | some known => (known, ns)
  | none => (symbol, { ns with entries := ns.entries.insert key symbol })

end Namespace

/-- The three namespaces of a node: variables of signal outlets, senders of message outlets, receivers of message
    inlets. -/
inductive PortletSlot where
  | outs
  | snds
  | rcvs
deriving DecidableEq, Repr

namespace PortletSlot

def name : PortletSlot → String
  | outs => "outs"
  | snds => "snds"
  | rcvs => "rcvs"

/-- The part of a symbol that shows the slot. -/
def mark : PortletSlot → String
  | outs => "OUTS"
  | snds => "SNDS"
  | rcvs => "RCVS"

def ofName? (text : String) : Option PortletSlot := [outs, snds, rcvs].find? (fun slot => slot.name == text)

end PortletSlot

/-- The symbols of one node; all of them begin with its stem. -/
structure NodeSymbols where
  stem : String
  state : String
  outs : Namespace
  snds : Namespace
  rcvs : Namespace

namespace NodeSymbols

def slot (s : NodeSymbols) : PortletSlot → Namespace
  | .outs => s.outs
  | .snds => s.snds
  | .rcvs => s.rcvs

def withSlot (s : NodeSymbols) (slot : PortletSlot) (ns : Namespace) : NodeSymbols :=
  match slot with
  | .outs => { s with outs := ns }
  | .snds => { s with snds := ns }
  | .rcvs => { s with rcvs := ns }

end NodeSymbols

/-! The symbols of the engine, the same in every program. -/
namespace Engine

def iterFrame : String := "F"
def frame : String := "FRAME"
def blockSize : String := "BLOCK_SIZE"
def sampleRate : String := "SAMPLE_RATE"
def output : String := "OUTPUT"
def input : String := "INPUT"
/-- The receiver that drops every message. -/
def nullReceiver : String := "SND_TO_NULL"
/-- The expression of a signal inlet without source. -/
def nullSignal : String := "NULL_SIGNAL"
def emptyMessage : String := "EMPTY_MESSAGE"

/-- The symbols under the keys that templates use. -/
def symbols : List (String × String) :=
  [("iterFrame", iterFrame), ("frame", frame), ("blockSize", blockSize), ("sampleRate", sampleRate),
   ("output", output), ("input", input), ("nullReceiver", nullReceiver), ("nullSignal", nullSignal),
   ("emptyMessage", emptyMessage)]

def get (key : String) : Except CompileError String :=
  match symbols.lookup key with
  | some symbol => .ok symbol
  | none => .error (.unassigned "globs" key)

end Engine

/-- All symbols given so far. -/
structure Symbols where
  nodes : Table NodeSymbols
  /-- Symbols of helper code, by tag and local name. -/
  globals : Table Namespace
  /-- The tag under which a node type has its helper code. -/
  typeTags : Table String
  coldGroups : Namespace
  outletListeners : Table Namespace
  inletCallers : Table Namespace

namespace Symbols

/-- The fragments that generated names are made of are checked before they are used. -/
def checkPart (part : String) : Except CompileError Unit :=
  if Text.isNamePart part then .ok () else .error (.name part)

/-- The stem of a node's symbols: its id, behind its type for debugging. -/
def stem (debug : Bool) (n : Node) : String := if debug then Text.nameChars n.type ++ "_" ++ n.id else n.id

/-- The symbols of a node, no portlet named yet. -/
def nodeSymbols (debug : Bool) (n : Node) : NodeSymbols where
  stem := stem debug n
  state := stem debug n ++ "_STATE"
  outs := .empty s!"n_{n.id}_outs"
  snds := .empty s!"n_{n.id}_snds"
  rcvs := .empty s!"n_{n.id}_rcvs"

/-- The symbols of the nodes of a graph. Node ids have to be name fragments. -/
def ofGraph (g : Graph) (debug : Bool) : Except CompileError Symbols := do
  g.nodes.values.forM (fun n => checkPart n.id)
  return {
    nodes := .ofList (g.nodes.values.map (fun n => (n.id, nodeSymbols debug n)))
    globals := ∅
    typeTags := ∅
    coldGroups := .empty "coldDspGroups"
    outletListeners := ∅
    inletCallers := ∅ }

def node (s : Symbols) (id : String) : Except CompileError NodeSymbols :=
  match s.nodes.get? id with
  | some symbols => .ok symbols
  | none => .error (.unassigned "nodes" id)

/-- Give a portlet of a node the symbol that `choose` makes of the node's symbols, unless it has one. -/
def assignPortlet (s : Symbols) (slot : PortletSlot) (id portlet : String) (choose : NodeSymbols → String) :
    Except CompileError (String × Symbols) := do
  let symbols ← s.node id
  let (symbol, ns) := (symbols.slot slot).assign portlet (choose symbols)
  return (symbol, { s with nodes := s.nodes.insert id (symbols.withSlot slot ns) })

/-- Give a portlet its own symbol. -/
def attachPortlet (s : Symbols) (slot : PortletSlot) (id portlet : String) :
    Except CompileError (String × Symbols) := do
  checkPart portlet
  s.assignPortlet slot id portlet (fun symbols => s!"{symbols.stem}_{slot.mark}_{portlet}")

/-- Give a portlet a symbol that belongs to something else. -/
def aliasPortlet (s : Symbols) (slot : PortletSlot) (id portlet symbol : String) :
    Except CompileError (String × Symbols) :=
  s.assignPortlet slot id portlet (fun _ => symbol)

def portlet (s : Symbols) (slot : PortletSlot) (id portlet : String) : Except CompileError String := do
  ((← s.node id).slot slot).get portlet

/-- Give `symbol` to `key` in the namespace under `group`, which is made with the given label if it is not there. -/
def assignIn (groups : Table Namespace) (group label key symbol : String) : String × Table Namespace :=
  let (symbol, ns) := ((groups.get? group).getD (.empty label)).assign key symbol
  (symbol, groups.insert group ns)

/-- Give an outlet the symbol under which the host listens to it. -/
def attachListener (s : Symbols) (id outlet : String) : Except CompileError (String × Symbols) := do
  checkPart id
  checkPart outlet
  let label := s!"outletListeners_{id}"
  let (symbol, listeners) := assignIn s.outletListeners id label outlet s!"{label}_{outlet}"
  return (symbol, { s with outletListeners := listeners })

def listener? (s : Symbols) (id outlet : String) : Option String :=
  (s.outletListeners.get? id).bind (fun ns => ns.entries.get? outlet)

/-- Give an inlet the symbol under which the host calls it. -/
def attachCaller (s : Symbols) (id inlet : String) : Except CompileError (String × Symbols) := do
  checkPart id
  checkPart inlet
  let label := s!"inletCallers_{id}"
  let (symbol, callers) := assignIn s.inletCallers id label inlet s!"{label}_{inlet}"
  return (symbol, { s with inletCallers := callers })

def caller? (s : Symbols) (id inlet : String) : Option String :=
  (s.inletCallers.get? id).bind (fun ns => ns.entries.get? inlet)

/-- Give a cold group the name of its trigger function. -/
def attachColdGroup (s : Symbols) (group : Nat) : String × Symbols :=
  let (symbol, ns) := s.coldGroups.assign (toString group) s!"COLD_{group}"
  (symbol, { s with coldGroups := ns })

/-- Give a local name of helper code its symbol. -/
def attachGlobal (s : Symbols) (tag name : String) : Except CompileError (String × Symbols) := do
  checkPart tag
  checkPart name
  let (symbol, globals) := assignIn s.globals tag tag name s!"{tag}_{name}"
  return (symbol, { s with globals })

def global (s : Symbols) (tag name : String) : Except CompileError String :=
  match s.globals.get? tag with
  | some ns => ns.get name
  | none => .error (.unassigned "globals" tag)

/-- The tag that a type gets when `taken` others with the same base are taken. -/
def typeTagCandidate (base : String) (taken : Nat) : String :=
  if taken = 0 then s!"n_{base}" else s!"n_{base}_{taken + 1}"

/-- The first candidate that no other type has. As many candidates as there are types, and one more, are enough. -/
def freeTypeTag (s : Symbols) (type : String) : String :=
  let chars := Text.nameChars type
  let base := if chars.isEmpty then "t" else chars
  let candidates := (List.range (s.typeTags.size + 1)).map (typeTagCandidate base)
  (candidates.find? (fun tag => !s.typeTags.values.contains tag)).getD (typeTagCandidate base 0)

/-- Give a node type a tag of its own. -/
def attachTypeTag (s : Symbols) (type : String) : String × Symbols :=
  match s.typeTags.get? type with
  | some tag => (tag, s)
  | none => (s.freeTypeTag type, { s with typeTags := s.typeTags.insert type (s.freeTypeTag type) })

def typeTag (s : Symbols) (type : String) : Except CompileError String :=
  match s.typeTags.get? type with
  | some tag => .ok tag
  | none => .error (.unassigned "typeTags" type)

end Symbols
end DspPatch
