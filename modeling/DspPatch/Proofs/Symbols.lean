import DspPatch.Proofs.Names
import DspPatch.Proofs.Outcome
import DspPatch.Proofs.Table
import DspPatch.Symbols.Basic

/-!
Symbols as a partial map from slots. Giving a symbol changes one slot at most, keeps a symbol that is there, and makes a
new one of the shape that belongs to the slot. So symbols only grow, and every symbol that was read stays readable.
-/
namespace DspPatch

/-- A place where a symbol is stored. -/
inductive SymbolSlot where
  | state (id : String)
  | portlet (slot : PortletSlot) (id portlet : String)
  | global (tag name : String)
  | typeTag (type : String)
  | coldGroup (key : String)
  | listener (id outlet : String)
  | caller (id inlet : String)
deriving DecidableEq

/-- The form of a symbol that is made for a slot, where `stem?` tells the stems of the nodes. Senders may have any symbol,
    and tags of types are searched for. -/
def SymbolSlot.Shape (stem? : String → Option String) : SymbolSlot → String → Prop
  | .state id, symbol => ∃ stem, stem? id = some stem ∧ symbol = stem ++ "_STATE"
  | .portlet .snds _ _, _ => True
  | .portlet slot id own, symbol =>
      Text.isNamePart own = true ∧ ∃ stem, stem? id = some stem ∧ symbol = s!"{stem}_{slot.mark}_{own}"
  | .global tag name, symbol => symbol = s!"{tag}_{name}"
  | .coldGroup key, symbol => symbol = s!"COLD_{key}"
  | .listener id outlet, symbol => symbol = s!"outletListeners_{id}_{outlet}"
  | .caller id inlet, symbol => symbol = s!"inletCallers_{id}_{inlet}"
  | .typeTag _, _ => True

/-- A fragment that may not stand in a name. -/
def CompileError.IsName (e : CompileError) : Prop := ∃ part, e = .name part

namespace Symbols
variable {s t u : Symbols}

/-- The symbol in a slot. -/
def at? (s : Symbols) : SymbolSlot → Option String
  | .state id => (s.nodes.get? id).map NodeSymbols.state
  | .portlet slot id portlet => (s.nodes.get? id).bind (fun n => (n.slot slot).entries.get? portlet)
  | .global tag name => (s.globals.get? tag).bind (fun ns => ns.entries.get? name)
  | .typeTag type => s.typeTags.get? type
  | .coldGroup key => s.coldGroups.entries.get? key
  | .listener id outlet => s.listener? id outlet
  | .caller id inlet => s.caller? id inlet

/-- The stem of the symbols of a node. -/
def stem? (s : Symbols) (id : String) : Option String := (s.nodes.get? id).map NodeSymbols.stem

theorem portlet_eq_ok_iff {slot : PortletSlot} {id portlet symbol : String} :
    s.portlet slot id portlet = .ok symbol ↔ s.at? (.portlet slot id portlet) = some symbol := by
  simp only [Symbols.portlet, Symbols.node, at?]
  cases s.nodes.get? id with
  | none => simp [bind, Except.bind]
  | some n =>
    simp only [Option.bind_some, Namespace.get, bind, Except.bind]
    cases (n.slot slot).entries.get? portlet <;> simp

theorem global_eq_ok_iff {tag name symbol : String} :
    s.global tag name = .ok symbol ↔ s.at? (.global tag name) = some symbol := by
  simp only [Symbols.global, at?]
  cases s.globals.get? tag with
  | none => simp
  | some ns =>
    simp only [Option.bind_some, Namespace.get]
    cases ns.entries.get? name <;> simp

theorem typeTag_eq_ok_iff {type tag : String} : s.typeTag type = .ok tag ↔ s.at? (.typeTag type) = some tag := by
  simp only [Symbols.typeTag, at?]
  cases s.typeTags.get? type <;> simp

/-- `t` is `s` with `symbol` in `slot`, where a symbol that was there is kept. -/
structure Assigns (s : Symbols) (slot : SymbolSlot) (symbol : String) (t : Symbols) : Prop where
  read : ∀ other, t.at? other = if other = slot then some symbol else s.at? other
  known : ∀ old, s.at? slot = some old → old = symbol
  shaped : s.at? slot = none → slot.Shape s.stem? symbol
  stems : t.stem? = s.stem?

/-- Every symbol is kept, and new ones have the shapes of their slots. -/
structure Grows (s t : Symbols) : Prop where
  kept : ∀ {slot symbol}, s.at? slot = some symbol → t.at? slot = some symbol
  shaped : ∀ {slot symbol}, t.at? slot = some symbol → s.at? slot = some symbol ∨ slot.Shape s.stem? symbol
  stems : t.stem? = s.stem?

theorem Grows.refl (s : Symbols) : s.Grows s := ⟨fun found => found, .inl, rfl⟩

theorem Grows.trans (first : s.Grows t) (second : t.Grows u) : s.Grows u := by
  refine ⟨fun found => second.kept (first.kept found), fun found => ?_, second.stems.trans first.stems⟩
  rcases second.shaped found with old | new
  · exact first.shaped old
  · exact .inr (first.stems ▸ new)

theorem Assigns.at?_eq {slot : SymbolSlot} {symbol : String} (assigns : s.Assigns slot symbol t) :
    t.at? slot = some symbol := by
  rw [assigns.read, if_pos rfl]

theorem Assigns.grows {slot : SymbolSlot} {symbol : String} (assigns : s.Assigns slot symbol t) : s.Grows t := by
  refine ⟨?_, ?_, assigns.stems⟩
  · intro other old found
    rw [assigns.read]
    split
    next same => rw [assigns.known old (same ▸ found)]
    next => exact found
  · intro other new found
    rw [assigns.read] at found
    split at found
    next same =>
      cases found
      cases stored : s.at? slot with
      | none => exact .inr (same ▸ assigns.shaped stored)
      | some old => exact .inl (by rw [same, stored, assigns.known old stored])
    next => exact .inl found

theorem Grows.present (grows : s.Grows t) {slot : SymbolSlot} (stored : s.at? slot ≠ none) : t.at? slot ≠ none := by
  obtain ⟨symbol, found⟩ := Option.ne_none_iff_exists'.mp stored
  rw [grows.kept found]
  exact Option.some_ne_none symbol

/-- Every symbol has the shape of its slot. -/
def Shaped (s : Symbols) : Prop := ∀ slot symbol, s.at? slot = some symbol → slot.Shape s.stem? symbol

theorem Shaped.mono (shaped : s.Shaped) (grows : s.Grows t) : t.Shaped := by
  intro slot symbol found
  rw [grows.stems]
  rcases grows.shaped found with old | new
  · exact shaped slot symbol old
  · exact new

/-- Slots that get a symbol between `s` and `t` are among the given ones. -/
def Within (new : SymbolSlot → Prop) (s t : Symbols) : Prop := ∀ slot, t.at? slot ≠ none → s.at? slot ≠ none ∨ new slot

variable {new : SymbolSlot → Prop}

theorem Within.refl (s : Symbols) : Within new s s := fun _ => .inl

theorem Within.trans (first : Within new s t) (second : Within new t u) : Within new s u := by
  intro slot given
  rcases second slot given with old | isNew
  · exact first slot old
  · exact .inr isNew

theorem Assigns.within {slot : SymbolSlot} {symbol : String} (assigns : s.Assigns slot symbol t) (isNew : new slot) :
    Within new s t := by
  intro other given
  by_cases same : other = slot
  · exact .inr (same ▸ isNew)
  · rw [assigns.read, if_neg same] at given
    exact .inl given

theorem checkPart_yields (part : String) :
    Yields (checkPart part) (fun _ => Text.isNamePart part = true) CompileError.IsName := by
  unfold checkPart
  by_cases valid : Text.isNamePart part = true
  · rw [if_pos valid]
    exact valid
  · rw [if_neg valid]
    exact ⟨part, rfl⟩

end Symbols

/-- What a namespace holds after a symbol was given to `key`. -/
theorem Namespace.get?_assign (ns : Namespace) (key symbol other : String) :
    (ns.assign key symbol).2.entries.get? other =
      if other = key then some (ns.assign key symbol).1 else ns.entries.get? other := by
  unfold assign
  cases known : ns.entries.get? key with
  | none => exact Table.get?_insert _ _ _ _
  | some old =>
    by_cases same : other = key
    · simp [same, known]
    · simp [same]

theorem Namespace.assign_known {ns : Namespace} {key symbol old : String} (known : ns.entries.get? key = some old) :
    (ns.assign key symbol).1 = old := by
  simp [assign, known]

theorem Namespace.assign_new {ns : Namespace} {key symbol : String} (new : ns.entries.get? key = none) :
    (ns.assign key symbol).1 = symbol := by
  simp [assign, new]

namespace Symbols
variable {s : Symbols}

@[simp] theorem slot_withSlot (n : NodeSymbols) (slot other : PortletSlot) (ns : Namespace) :
    (n.withSlot slot ns).slot other = if other = slot then ns else n.slot other := by
  cases slot <;> cases other <;> rfl

@[simp] theorem state_withSlot (n : NodeSymbols) (slot : PortletSlot) (ns : Namespace) :
    (n.withSlot slot ns).state = n.state := by
  cases slot <;> rfl

@[simp] theorem stem_withSlot (n : NodeSymbols) (slot : PortletSlot) (ns : Namespace) :
    (n.withSlot slot ns).stem = n.stem := by
  cases slot <;> rfl

/-- The symbols of a node after one of its portlets was given a symbol. -/
def afterAssign (s : Symbols) (slot : PortletSlot) (id portlet symbol : String) (n : NodeSymbols) : Symbols :=
  { s with nodes := s.nodes.insert id (n.withSlot slot ((n.slot slot).assign portlet symbol).2) }

theorem at?_afterAssign {id : String} {n : NodeSymbols} (found : s.nodes.get? id = some n) (slot : PortletSlot)
    (portlet symbol : String) (other : SymbolSlot) : (s.afterAssign slot id portlet symbol n).at? other =
      if other = .portlet slot id portlet then some ((n.slot slot).assign portlet symbol).1 else s.at? other := by
  cases other with
  | state other =>
    simp only [afterAssign, at?, Table.get?_insert]
    by_cases same : other = id <;> simp [same, found]
  | portlet kind other name =>
    simp only [afterAssign, at?, Table.get?_insert, SymbolSlot.portlet.injEq]
    by_cases sameNode : other = id
    · by_cases sameSlot : kind = slot
      · simp [sameNode, sameSlot, Namespace.get?_assign, found]
      · simp [sameNode, sameSlot, found]
    · simp [sameNode]
  | _ => rfl

/-- Giving a symbol to a portlet fails only if the node has no symbols. -/
theorem assignPortlet_yields (s : Symbols) (slot : PortletSlot) (id portlet : String) (choose : NodeSymbols → String)
    (shape : ∀ n, s.nodes.get? id = some n → (SymbolSlot.portlet slot id portlet).Shape s.stem? (choose n)) :
    Yields (s.assignPortlet slot id portlet choose)
      (fun named => s.Assigns (.portlet slot id portlet) named.1 named.2) (fun _ => s.at? (.state id) = none) := by
  unfold assignPortlet Symbols.node
  cases found : s.nodes.get? id with
  | none => simp [Yields, bind, Except.bind, at?, found]
  | some n =>
    show s.Assigns _ ((n.slot slot).assign portlet (choose n)).1 (s.afterAssign slot id portlet (choose n) n)
    refine ⟨at?_afterAssign found slot portlet (choose n), fun old stored => ?_, fun stored => ?_, ?_⟩
    · simp only [at?, found, Option.bind_some] at stored
      exact (Namespace.assign_known stored).symm
    · simp only [at?, found, Option.bind_some] at stored
      rw [Namespace.assign_new stored]
      exact shape n found
    · funext other
      simp only [stem?, afterAssign, Table.get?_insert]
      by_cases same : other = id <;> simp [same, found]

/-- A portlet without symbol gets the one that is chosen for it. -/
theorem assignPortlet_new {slot : PortletSlot} {id portlet stem : String} {choose : NodeSymbols → String}
    {named : String × Symbols} (stems : s.stem? id = some stem) (new : s.at? (.portlet slot id portlet) = none)
    (given : s.assignPortlet slot id portlet choose = .ok named) : ∃ n, n.stem = stem ∧ named.1 = choose n := by
  obtain ⟨n, found, same⟩ := Option.map_eq_some_iff.mp stems
  simp only [at?, found, Option.bind_some] at new
  rw [assignPortlet, Symbols.node, found] at given
  cases given
  exact ⟨n, same, Namespace.assign_new new⟩

theorem attachPortlet_yields (s : Symbols) (slot : PortletSlot) (id portlet : String) :
    Yields (s.attachPortlet slot id portlet) (fun named => s.Assigns (.portlet slot id portlet) named.1 named.2)
      (fun e => s.at? (.state id) ≠ none → e.IsName) := by
  refine Yields.bind ((checkPart_yields portlet).mono (fun _ post => post) (fun _ bad _ => bad)) (fun _ named => ?_)
  refine (assignPortlet_yields s slot id portlet _ (fun n found => ?_)).mono (fun _ post => post)
    (fun _ missing present => absurd missing present)
  have stem : s.stem? id = some n.stem := by rw [stem?, found, Option.map_some]
  cases slot with
  | snds => trivial
  | outs => exact ⟨named, n.stem, stem, rfl⟩
  | rcvs => exact ⟨named, n.stem, stem, rfl⟩

theorem aliasSender_yields (s : Symbols) (id portlet symbol : String) :
    Yields (s.aliasPortlet .snds id portlet symbol) (fun named => s.Assigns (.portlet .snds id portlet) named.1 named.2)
      (fun _ => s.at? (.state id) = none) :=
  assignPortlet_yields s .snds id portlet _ (fun _ _ => trivial)

/-- The symbols of one group of namespaces after a symbol was given. -/
theorem get?_assignIn (groups : Table Namespace) (group label key symbol other name : String) :
    ((assignIn groups group label key symbol).2.get? other).bind (fun ns => ns.entries.get? name) =
      if other = group ∧ name = key then some (assignIn groups group label key symbol).1
      else (groups.get? other).bind (fun ns => ns.entries.get? name) := by
  simp only [assignIn, Table.get?_insert]
  by_cases sameGroup : other = group
  · by_cases sameKey : name = key
    · simp [sameGroup, sameKey, Namespace.get?_assign]
    · cases stored : groups.get? group with
      | none => simp [sameGroup, sameKey, Namespace.get?_assign, stored, Namespace.empty]
      | some ns => simp [sameGroup, sameKey, Namespace.get?_assign, stored]
  · simp [sameGroup]

theorem assignIn_known {groups : Table Namespace} {group label key symbol old : String}
    (known : (groups.get? group).bind (fun ns => ns.entries.get? key) = some old) :
    (assignIn groups group label key symbol).1 = old := by
  obtain ⟨ns, stored, found⟩ := Option.bind_eq_some_iff.mp known
  simp only [assignIn, stored, Option.getD_some]
  exact Namespace.assign_known found

theorem assignIn_new {groups : Table Namespace} {group label key symbol : String}
    (new : (groups.get? group).bind (fun ns => ns.entries.get? key) = none) :
    (assignIn groups group label key symbol).1 = symbol := by
  cases stored : groups.get? group with
  | none => simp [assignIn, stored, Namespace.empty, Namespace.assign]
  | some ns =>
    simp only [stored, Option.bind_some] at new
    simp only [assignIn, stored, Option.getD_some]
    exact Namespace.assign_new new

/-- Giving a symbol in one group of namespaces changes one slot of that family at most. -/
theorem assigns_of_assignIn {t : Symbols} {groups : Table Namespace} {family : String → String → SymbolSlot}
    {group label key symbol : String} (distinct : ∀ a b c d, family a b = family c d ↔ a = c ∧ b = d)
    (before : ∀ a b, s.at? (family a b) = (groups.get? a).bind (fun ns => ns.entries.get? b))
    (after : ∀ a b, t.at? (family a b) =
      ((assignIn groups group label key symbol).2.get? a).bind (fun ns => ns.entries.get? b))
    (others : ∀ other, (∀ a b, other ≠ family a b) → t.at? other = s.at? other)
    (shape : (family group key).Shape s.stem? symbol) (nodes : t.nodes = s.nodes) :
    s.Assigns (family group key) (assignIn groups group label key symbol).1 t := by
  refine ⟨fun other => ?_, fun old stored => ?_, fun stored => ?_, by unfold stem?; rw [nodes]⟩
  · by_cases inside : ∃ a b, other = family a b
    · obtain ⟨a, b, rfl⟩ := inside
      rw [after, get?_assignIn, before]
      simp only [distinct]
    · push Not at inside
      rw [others other inside, if_neg (inside group key)]
  · exact (assignIn_known ((before group key).symm.trans stored)).symm
  · rw [assignIn_new ((before group key).symm.trans stored)]
    exact shape

theorem attachListener_yields (s : Symbols) (id outlet : String) :
    Yields (s.attachListener id outlet) (fun named => s.Assigns (.listener id outlet) named.1 named.2)
      CompileError.IsName := by
  refine Yields.bind (checkPart_yields id) (fun _ _ => Yields.bind (checkPart_yields outlet) (fun _ _ => ?_))
  refine assigns_of_assignIn (fun _ _ _ _ => by simp) (fun _ _ => rfl) (fun _ _ => rfl) (fun other away => ?_) rfl rfl
  cases other with
  | listener a b => exact absurd rfl (away a b)
  | _ => rfl

theorem attachCaller_yields (s : Symbols) (id inlet : String) :
    Yields (s.attachCaller id inlet) (fun named => s.Assigns (.caller id inlet) named.1 named.2)
      CompileError.IsName := by
  refine Yields.bind (checkPart_yields id) (fun _ _ => Yields.bind (checkPart_yields inlet) (fun _ _ => ?_))
  refine assigns_of_assignIn (fun _ _ _ _ => by simp) (fun _ _ => rfl) (fun _ _ => rfl) (fun other away => ?_) rfl rfl
  cases other with
  | caller a b => exact absurd rfl (away a b)
  | _ => rfl

theorem attachGlobal_yields (s : Symbols) (tag name : String) :
    Yields (s.attachGlobal tag name) (fun named => s.Assigns (.global tag name) named.1 named.2)
      CompileError.IsName := by
  refine Yields.bind (checkPart_yields tag) (fun _ _ => Yields.bind (checkPart_yields name) (fun _ _ => ?_))
  refine assigns_of_assignIn (fun _ _ _ _ => by simp) (fun _ _ => rfl) (fun _ _ => rfl) (fun other away => ?_) rfl rfl
  cases other with
  | global a b => exact absurd rfl (away a b)
  | _ => rfl

theorem attachColdGroup_assigns (s : Symbols) (group : Nat) :
    s.Assigns (.coldGroup (toString group)) (s.attachColdGroup group).1 (s.attachColdGroup group).2 := by
  refine ⟨fun other => ?_, fun old stored => (Namespace.assign_known stored).symm,
    fun stored => Namespace.assign_new stored, rfl⟩
  cases other with
  | coldGroup key =>
    simp only [SymbolSlot.coldGroup.injEq]
    exact Namespace.get?_assign _ _ _ _
  | _ => rfl

theorem attachTypeTag_assigns (s : Symbols) (type : String) :
    s.Assigns (.typeTag type) (s.attachTypeTag type).1 (s.attachTypeTag type).2 := by
  unfold attachTypeTag
  cases known : s.typeTags.get? type with
  | none =>
    refine ⟨fun other => ?_, fun old stored => ?_, fun _ => trivial, rfl⟩
    · cases other with
      | typeTag other =>
        simp only [SymbolSlot.typeTag.injEq]
        exact Table.get?_insert _ _ _ _
      | _ => rfl
    · simp [at?, known] at stored
  | some tag =>
    refine ⟨fun other => ?_, fun old stored => ?_, fun _ => trivial, rfl⟩
    · by_cases same : other = .typeTag type
      · rw [if_pos same, same]
        exact known
      · rw [if_neg same]
    · exact Option.some.inj (stored.symm.trans known)

theorem isNamePart_stem {n : Node} (named : Text.isNamePart n.id = true) (debug : Bool) :
    Text.isNamePart (stem debug n) = true := by
  unfold stem
  cases debug with
  | false => exact named
  | true =>
    rw [if_pos rfl, String.append_assoc]
    have marked : Text.isNamePart ("_" ++ n.id) = true :=
      Text.isNamePart_append (Text.isNamePart_iff.mp (by decide)).2 named
    refine Text.isNamePart_append (fun c inType => ?_) marked
    rw [Text.nameChars, String.toList_ofList] at inType
    exact (List.mem_filter.mp inType).2

/-- The symbols that a compilation starts with. -/
structure Initial (g : Graph) (debug : Bool) (s : Symbols) : Prop where
  shaped : s.Shaped
  covers : ∀ id n, g.get? id = some n → n.id = id → s.at? (.state id) ≠ none
  only : ∀ slot, s.at? slot ≠ none → ∃ id, slot = .state id
  stems : (∀ {id n}, g.get? id = some n → n.id = id) → ∀ id, s.stem? id = (g.get? id).map (stem debug)
  names : ∀ id stem, s.stem? id = some stem → Text.isNamePart stem = true

/-- At first there are state symbols for the nodes of a graph, and no others. -/
theorem ofGraph_yields (g : Graph) (debug : Bool) : Yields (ofGraph g debug) (Initial g debug) CompileError.IsName := by
  refine Yields.bind (Yields.forM (fun n _ => checkPart_yields n.id)) (fun _ named => ?_)
  have own : ∀ id ns, (Table.ofList (g.nodes.values.map (fun n => (n.id, nodeSymbols debug n)))).get? id = some ns →
      ∃ n ∈ g.nodes.values, n.id = id ∧ ns = nodeSymbols debug n := by
    intro id ns stored
    obtain ⟨n, listed, same⟩ := List.mem_map.mp (Table.mem_of_get?_ofList stored)
    cases same
    exact ⟨n, listed, rfl, rfl⟩
  have covers : ∀ id n, g.get? id = some n → n.id = id → ∃ ns,
      (Table.ofList (g.nodes.values.map (fun n => (n.id, nodeSymbols debug n)))).get? id = some ns := by
    intro id n found same
    rw [← Table.mem_keys_iff, Table.mem_keys_ofList, List.map_map]
    exact List.mem_map.mpr ⟨n, Table.mem_values_iff.mpr ⟨id, found⟩, same⟩
  have only : ∀ slot symbol, at? ⟨.ofList (g.nodes.values.map (fun n => (n.id, nodeSymbols debug n))), ∅, ∅,
      .empty "coldDspGroups", ∅, ∅⟩ slot = some symbol → ∃ id, slot = .state id := by
    intro slot symbol found
    cases slot with
    | state id => exact ⟨id, rfl⟩
    | portlet slot id portlet =>
      obtain ⟨ns, stored, named⟩ := Option.bind_eq_some_iff.mp found
      obtain ⟨n, _, _, rfl⟩ := own id ns stored
      cases slot <;> cases named
    | typeTag | global | coldGroup | listener | caller => cases found
  refine ⟨fun slot symbol found => ?_, fun id n found same => ?_, fun slot given => ?_, fun keyed id => ?_,
    fun id stem given => ?_⟩
  · obtain ⟨id, rfl⟩ := only slot symbol found
    obtain ⟨ns, stored, named⟩ := Option.map_eq_some_iff.mp found
    obtain ⟨n, _, _, rfl⟩ := own id ns stored
    exact ⟨stem debug n, by rw [stem?, stored]; rfl, named.symm⟩
  · obtain ⟨ns, stored⟩ := covers id n found same
    simp [at?, stored]
  · obtain ⟨symbol, found⟩ := Option.ne_none_iff_exists'.mp given
    exact only slot symbol found
  · have found : ∀ n ∈ g.nodes.values, n.id = id → g.get? id = some n := by
      intro n listed same
      obtain ⟨key, found⟩ := Table.mem_values_iff.mp listed
      exact (keyed found).symm.trans same ▸ found
    cases stored : (Table.ofList (g.nodes.values.map (fun n => (n.id, nodeSymbols debug n)))).get? id with
    | some ns =>
      obtain ⟨n, listed, same, rfl⟩ := own id ns stored
      rw [stem?, stored, found n listed same]
      rfl
    | none =>
      cases present : g.get? id with
      | none => simp [stem?, stored]
      | some n => simpa [stored] using covers id n present (keyed present)
  · obtain ⟨ns, stored, rfl⟩ := Option.map_eq_some_iff.mp given
    obtain ⟨n, listed, _, rfl⟩ := own id ns stored
    exact isNamePart_stem (named n listed) debug

/-- The variables of signal outlets are names, and none of them is the silent signal. -/
theorem Initial.outs_named {g : Graph} {debug : Bool} {s t : Symbols} (initial : Initial g debug s) (grows : s.Grows t)
    {id outlet symbol : String} (given : t.at? (.portlet .outs id outlet) = some symbol) :
    Text.isNamePart symbol = true ∧ symbol ≠ Engine.nullSignal := by
  obtain ⟨named, stem, stems, rfl⟩ := initial.shaped.mono grows _ _ given
  rw [grows.stems] at stems
  have stemNamed : Text.isNamePart stem = true := initial.names id stem stems
  have tailNamed : Text.isNamePart ("_OUTS_" ++ outlet) = true :=
    Text.isNamePart_append (Text.isNamePart_iff.mp (by decide)).2 named
  have shape : s!"{stem}_{PortletSlot.outs.mark}_{outlet}" = stem ++ ("_OUTS_" ++ outlet) := by
    show stem ++ "_" ++ "OUTS" ++ "_" ++ outlet = stem ++ (("_" ++ "OUTS" ++ "_") ++ outlet)
    simp only [String.append_assoc]
  rw [shape]
  refine ⟨Text.isNamePart_append (Text.isNamePart_iff.mp stemNamed).2 tailNamed, fun same => ?_⟩
  have marked : 'T' ∈ Engine.nullSignal.toList := by
    rw [← same]
    simp
  exact absurd marked (by decide)

end Symbols
end DspPatch
