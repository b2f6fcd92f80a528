import DspPatch.Stage

/-!
What can go wrong in a compilation. An error is a cause with the names it speaks of; its wording is made in one place
(`CompileError.message`), and every kind of error has a stable code. All errors end the compilation.
-/
namespace DspPatch

/-- The node and the portlet an error speaks of, as far as they are known. -/
structure Place where
  node : Option String
  portlet : Option String
deriving DecidableEq, Repr

namespace Place

/-- No place. -/
def nowhere : Place := ⟨none, none⟩

def atNode (node : String) : Place := ⟨some node, none⟩

def atPortlet (node portlet : String) : Place := ⟨some node, some portlet⟩

end Place

/-- What is wrong with a graph. -/
inductive GraphFault where
  /-- The document is not a graph. -/
  | unreadable
  | missingNode (id : String)
  /-- A node stands under a key that is not its id. -/
  | misplacedNode (key id : String)
  | undeclaredInlet
  | undeclaredOutlet
  | missingSink (id : String)
  | missingSource (id : String)
  /-- A sink whose inlet does not list this outlet. -/
  | unmatchedSink (node portlet : String)
  /-- A source whose outlet does not list this inlet. -/
  | unmatchedSource (node portlet : String)
  /-- A signal inlet whose source is a message outlet. -/
  | messageSource (node portlet : String)
  /-- A message outlet whose sink is a signal inlet. -/
  | signalSink (node portlet : String)
  /-- A walk that keeps entering nodes whose keys are not their ids. -/
  | endlessWalk
  | noted (text : String)
deriving DecidableEq, Repr

def GraphFault.message : GraphFault → String
  | unreadable => "invalid graph JSON"
  | missingNode id => s!"node \"{id}\" not found in graph"
  | misplacedNode key id => s!"node is keyed \"{key}\" but declares id \"{id}\""
  | undeclaredInlet => "inlet is not declared"
  | undeclaredOutlet => "outlet is not declared"
  | missingSink id => s!"sink node \"{id}\" not found"
  | missingSource id => s!"source node \"{id}\" not found"
  | unmatchedSink node portlet => s!"sink \"{node}:{portlet}\" has no matching source entry"
  | unmatchedSource node portlet => s!"source \"{node}:{portlet}\" has no matching sink entry"
  | messageSource node portlet => s!"signal inlet fed by message outlet \"{portlet}\" of node \"{node}\""
  | signalSink node portlet => s!"message outlet connected to signal inlet \"{portlet}\" of node \"{node}\""
  | endlessWalk => "walk does not end"
  | noted text => text

/-- The two fields of the settings that name portlets. -/
inductive PortletSpec where
  | inletCallers
  | outletListeners
deriving DecidableEq, Repr

/-- The name of the field in the settings. -/
def PortletSpec.field : PortletSpec → String
  | inletCallers => "inletCallerSpecs"
  | outletListeners => "outletListenerSpecs"

/-- The kind of portlet the field names. -/
def PortletSpec.portletWord : PortletSpec → String
  | inletCallers => "inlet"
  | outletListeners => "outlet"

/-- What is wrong with settings. -/
inductive SettingsFault where
  /-- The document is not a settings record. -/
  | unreadable
  | bitDepth
  | arrayName (name : String)
  | unknownNode (spec : PortletSpec) (node : String)
  | signalPortlet (spec : PortletSpec) (node portlet : String)
  | missingPortlet (spec : PortletSpec) (node portlet : String)
  | noted (text : String)
deriving DecidableEq, Repr

def SettingsFault.message : SettingsFault → String
  | unreadable => "malformed settings"
  | bitDepth => "\"bitDepth\" can be only 32 or 64"
  | arrayName name => s!"invalid array name \"{name}\""
  | unknownNode spec node => s!"{spec.field}: unknown node \"{node}\""
  | signalPortlet spec node portlet =>
    s!"{spec.field}: {spec.portletWord} \"{portlet}\" of node \"{node}\" is a signal {spec.portletWord}"
  | missingPortlet spec node portlet => s!"{spec.field}: node \"{node}\" has no {spec.portletWord} \"{portlet}\""
  | noted text => text

/-- What is missing for a node type. -/
inductive ImplementationFault where
  | unknownType
  | missingReceiver
  | noted (text : String)
deriving DecidableEq, Repr

def ImplementationFault.message : ImplementationFault → String
  | unknownType => "unknown node type"
  | missingReceiver => "no implementation for message receiver"
  | noted text => text

/-- What is wrong with a template or with a registry file. -/
inductive TemplateFault where
  /-- The document is not a registry file. -/
  | unreadable
  /-- A `$` with an opening brace that starts no placeholder, at a byte offset. -/
  | placeholder (offset : Nat)
  /-- A placeholder without the key it needs. -/
  | missingKey
  | reservedName
  | unknownDefinition
  /-- A chain of definitions that comes back to its first one. -/
  | cycle (path : List String)
  | noted (text : String)
deriving DecidableEq, Repr

def TemplateFault.message : TemplateFault → String
  | unreadable => "invalid JSON"
  | placeholder offset => s!"malformed placeholder at byte {offset}"
  | missingKey => "placeholder needs a key"
  | reservedName => "name is reserved for a built-in helper namespace"
  | unknownDefinition => "unknown global definition"
  | cycle path => "dependency cycle: " ++ " -> ".intercalate path
  | noted text => text

/-- What a finished draft fails to satisfy. -/
inductive VerificationFault where
  /-- A node whose state members differ from those of other nodes of its type. -/
  | stateLayout (node type : String)
  /-- The obligations of the certificate that do not hold. -/
  | obligations (names : List String)
  | noted (text : String)
deriving DecidableEq, Repr

def VerificationFault.message : VerificationFault → String
  | stateLayout node type => s!"node \"{node}\" declares a state layout different from other [{type}] nodes"
  | obligations names => ", ".intercalate names
  | noted text => text

/-- Any failure of a compilation. -/
inductive CompileError where
  | graph (place : Place) (fault : GraphFault)
  | settings (fault : SettingsFault)
  /-- A fragment that may not stand in a variable name. -/
  | name (part : String)
  /-- A read of a slot to which no symbol was given. -/
  | unassigned (label key : String)
  | implementation (type : String) (place : Place) (fault : ImplementationFault)
  | template (origin : String) (fault : TemplateFault)
  /-- A pass that found a node at another stage than the one it expects. -/
  | passOrder (node : String) (expected found : Stage)
  | verification (fault : VerificationFault)
deriving DecidableEq, Repr

namespace CompileError

/-- A graph error without a place. -/
def missingNode (id : String) : CompileError := .graph .nowhere (.missingNode id)

/-- The known parts of a place, in parentheses after the message. -/
def location (type : Option String) (place : Place) : String :=
  let parts := (type.map (fun t => s!"type [{t}]")).toList ++ (place.node.map (fun n => s!"node \"{n}\"")).toList ++
    (place.portlet.map (fun p => s!"portlet \"{p}\"")).toList
  if parts.isEmpty then "" else " (" ++ ", ".intercalate parts ++ ")"

/-- The wording of an error. -/
def message : CompileError → String
  | graph place fault => fault.message ++ location none place
  | settings fault => "invalid settings: " ++ fault.message
  | name part => s!"invalid variable name for code generation \"{part}\""
  | unassigned label key => s!"namespace \"{label}\" has no key \"{key}\""
  | implementation type place fault => fault.message ++ location (some type) place
  | template origin fault => s!"template error in {origin}: " ++ fault.message
  | passOrder node expected found => s!"node \"{node}\" is {found.name}, pass expected {expected.name}"
  | verification fault => "precompile verification failed: " ++ fault.message

/-- The stable code of an error. -/
def code : CompileError → String
  | graph .. => "E0100"
  | settings .. => "E0200"
  | name .. => "E0300"
  | unassigned .. => "E0400"
  | implementation _ place _ => if place.portlet.isSome then "E0501" else "E0500"
  | template .. => "E0600"
  | passOrder .. => "E0700"
  | verification .. => "E0701"

/-- An error as it is reported to the user. -/
def render (error : CompileError) : String := s!"error[{error.code}]: " ++ error.message

end CompileError
end DspPatch
