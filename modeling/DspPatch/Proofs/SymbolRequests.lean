import DspPatch.Proofs.Symbols
import Mathlib.Data.List.Nodup
import Mathlib.Data.List.Perm.Subperm

/-!
Requests for symbols. A request for a symbol that is there is answered with it and changes nothing
(`SymbolRequest.give_of_known`). Any other request that is answered puts one entry behind those of its namespace
(`SymbolRequest.answered`), so every slot keeps its symbol and its position. What is new is made of checked fragments, or is
copied from the request. The tag of a type is searched for: candidates are all different, and there is one more of them than
there are tags, so the search stops (`Symbols.freeTypeTag_searchStops`).
-/
namespace DspPatch

namespace Table
variable {α : Type} {t : Table α} {key : String}

/-- The position of a key. -/
def place? (t : Table α) (key : String) : Option Nat := t.keys.idxOf? key

/-- A key that comes in takes no other key's position. -/
theorem place?_insert (key : String) (value : α) {other : String} (present : other ∈ t.keys) :
    (t.insert key value).place? other = t.place? other := by
  unfold place?
  by_cases member : key ∈ t.keys
  · rw [keys_insert_of_mem value member]
  · obtain ⟨i, found⟩ := Option.isSome_iff_exists.mp (List.isSome_idxOf?.mpr present)
    rw [keys_insert_of_not_mem value member]
    unfold List.idxOf? at found ⊢
    rw [List.findIdx?_append, found, Option.some_or]

end Table

theorem Namespace.place?_assign (ns : Namespace) (key symbol : String) {other : String}
    (present : other ∈ ns.entries.keys) : (ns.assign key symbol).2.entries.place? other = ns.entries.place? other := by
  unfold assign
  split
  · rfl
  · exact Table.place?_insert key symbol present

namespace Text

/-- A text of name characters only. -/
def IsLetters (text : String) : Prop := ∀ c ∈ text.toList, isNameChar c = true

theorem IsLetters.append {a b : String} (left : IsLetters a) (right : IsLetters b) : IsLetters (a ++ b) := by
  intro c member
  rw [String.toList_append, List.mem_append] at member
  exact member.elim (left c) (right c)

theorem isLetters_of_isNamePart {part : String} (named : isNamePart part = true) : IsLetters part :=
  (isNamePart_iff.mp named).2

theorem isNamePart_toString (n : Nat) : isNamePart (toString n) = true := by
  refine isNamePart_iff.mpr ⟨by simp [toString], fun c member => ?_⟩
  have isDigit : c ∈ Nat.toDigits 10 n := by simpa [toString] using member
  have digit := Nat.isDigit_of_mem_toDigits (by decide) (by decide) isDigit
  simp [isNameChar, Char.isAlphanum, digit]

/-- Two names behind letters, with an underscore between them. -/
theorem isNamePart_joined {head first second : String} (headed : IsLetters head) (named : isNamePart first = true)
    (last : isNamePart second = true) : isNamePart (head ++ first ++ "_" ++ second) = true :=
  isNamePart_append ((headed.append (isLetters_of_isNamePart named)).append (isLetters_of_isNamePart (by decide))) last

theorem isLetters_nameChars (text : String) : IsLetters (nameChars text) := by
  intro c member
  rw [nameChars, String.toList_ofList] at member
  exact (List.mem_filter.mp member).2

end Text

namespace Symbols
variable {s t u : Symbols}

/-- The position of a slot's group among the groups of its kind, and the position of the slot in its group. -/
def place? (s : Symbols) : SymbolSlot → Option Nat × Option Nat
  | .state id => (s.nodes.place? id, none)
  | .portlet slot id portlet => (s.nodes.place? id, (s.nodes.get? id).bind (fun n => (n.slot slot).entries.place? portlet))
  | .global tag name => (s.globals.place? tag, (s.globals.get? tag).bind (fun ns => ns.entries.place? name))
  | .typeTag type => (none, s.typeTags.place? type)
  | .coldGroup key => (none, s.coldGroups.entries.place? key)
  | .listener id outlet =>
      (s.outletListeners.place? id, (s.outletListeners.get? id).bind (fun ns => ns.entries.place? outlet))
  | .caller id inlet => (s.inletCallers.place? id, (s.inletCallers.get? id).bind (fun ns => ns.entries.place? inlet))

/-- Every slot that holds a symbol keeps the symbol and its position. -/
structure Keeps (s t : Symbols) : Prop where
  symbol : ∀ slot symbol, s.at? slot = some symbol → t.at? slot = some symbol
  place : ∀ slot symbol, s.at? slot = some symbol → t.place? slot = s.place? slot

theorem Keeps.refl (s : Symbols) : s.Keeps s := ⟨fun _ _ held => held, fun _ _ _ => rfl⟩

theorem Keeps.trans (first : s.Keeps t) (second : t.Keeps u) : s.Keeps u := by
  refine ⟨fun slot symbol held => second.symbol slot symbol (first.symbol slot symbol held), fun slot symbol held => ?_⟩
  rw [second.place slot symbol (first.symbol slot symbol held), first.place slot symbol held]

/-- Symbols and stems are names. -/
structure AllNames (s : Symbols) : Prop where
  symbols : ∀ slot symbol, s.at? slot = some symbol → Text.isNamePart symbol = true
  stems : ∀ id stem, s.stem? id = some stem → Text.isNamePart stem = true

/-- Giving a portlet a symbol that it has changes nothing. -/
theorem assignPortlet_of_known {slot : PortletSlot} {id portlet symbol : String} (choose : NodeSymbols → String)
    (held : s.at? (.portlet slot id portlet) = some symbol) :
    s.assignPortlet slot id portlet choose = .ok (symbol, s) := by
  obtain ⟨n, found, stored⟩ := Option.bind_eq_some_iff.mp held
  have same : n.withSlot slot (n.slot slot) = n := by cases slot <;> rfl
  have assigned : (n.slot slot).assign portlet (choose n) = (symbol, n.slot slot) := by rw [Namespace.assign, stored]
  rw [assignPortlet, Symbols.node, found]
  show Except.ok (((n.slot slot).assign portlet (choose n)).1, { s with
    nodes := s.nodes.insert id (n.withSlot slot ((n.slot slot).assign portlet (choose n)).2) }) = _
  rw [assigned, same, Table.insert_of_get? found]

theorem place?_afterAssign {id : String} {n : NodeSymbols} (found : s.nodes.get? id = some n) (slot : PortletSlot)
    (portlet symbol : String) {other : SymbolSlot} {old : String} (held : s.at? other = some old) :
    (s.afterAssign slot id portlet symbol n).place? other = s.place? other := by
  have present : id ∈ s.nodes.keys := Table.mem_keys_of_get? found
  cases other with
  | state other =>
    obtain ⟨m, stored, _⟩ := Option.map_eq_some_iff.mp held
    simp only [place?, afterAssign, Table.place?_insert id _ (Table.mem_keys_of_get? stored)]
  | portlet kind other name =>
    obtain ⟨m, stored, named⟩ := Option.bind_eq_some_iff.mp held
    simp only [place?, afterAssign, Table.place?_insert id _ (Table.mem_keys_of_get? stored), Table.get?_insert]
    by_cases sameNode : other = id
    · subst sameNode
      cases found.symm.trans stored
      by_cases sameSlot : kind = slot
      · subst sameSlot
        simp [found, Namespace.place?_assign _ _ _ (Table.mem_keys_of_get? named)]
      · simp [sameSlot, found]
    · simp [sameNode]
  | _ => rfl

theorem assignIn_of_known {groups : Table Namespace} {group label key symbol old : String}
    (known : (groups.get? group).bind (fun ns => ns.entries.get? key) = some old) :
    assignIn groups group label key symbol = (old, groups) := by
  obtain ⟨ns, stored, found⟩ := Option.bind_eq_some_iff.mp known
  simp only [assignIn, stored, Option.getD_some, Namespace.assign, found, Table.insert_of_get? stored]

/-- Positions in a family of namespaces after a symbol was given in one of them. -/
theorem place?_assignIn {groups : Table Namespace} (group label key symbol : String) {other name old : String}
    (held : (groups.get? other).bind (fun ns => ns.entries.get? name) = some old) :
    (assignIn groups group label key symbol).2.place? other = groups.place? other ∧
    ((assignIn groups group label key symbol).2.get? other).bind (fun ns => ns.entries.place? name) =
      (groups.get? other).bind (fun ns => ns.entries.place? name) := by
  obtain ⟨ns, stored, named⟩ := Option.bind_eq_some_iff.mp held
  refine ⟨Table.place?_insert group _ (Table.mem_keys_of_get? stored), ?_⟩
  simp only [assignIn, Table.get?_insert]
  by_cases same : other = group
  · subst same
    simp [stored, Namespace.place?_assign _ _ _ (Table.mem_keys_of_get? named)]
  · simp [same]

/-! ## The search for a tag -/

theorem toList_typeTagCandidate (base : String) (taken : Nat) :
    (typeTagCandidate base taken).toList = "n_".toList ++ (base.toList ++
      if taken = 0 then [] else '_' :: Nat.toDigits 10 (taken + 1)) := by
  unfold typeTagCandidate
  split <;> simp [toString]

theorem typeTagCandidate_injective (base : String) : Function.Injective (typeTagCandidate base) := by
  intro m n same
  have lists := congrArg String.toList same
  rw [toList_typeTagCandidate, toList_typeTagCandidate] at lists
  have numbers := List.append_cancel_left (List.append_cancel_left lists)
  by_cases first : m = 0 <;> by_cases second : n = 0
  · rw [first, second]
  · simp [first, second] at numbers
  · simp [first, second] at numbers
  · rw [if_neg first, if_neg second] at numbers
    exact Nat.succ.inj (Text.toDigits_injective (List.cons.inj numbers).2)

/-- What the candidates for a type are made of. -/
def tagBase (type : String) : String := if (Text.nameChars type).isEmpty then "t" else Text.nameChars type

/-- The search for the tag of a type stops: `tag` is the first candidate that no type has, and no more candidates are passed
    over than there are tags. -/
def SearchStops (s : Symbols) (type tag : String) : Prop :=
  ∃ taken ≤ s.typeTags.size, tag = typeTagCandidate (tagBase type) taken ∧ tag ∉ s.typeTags.values ∧
    ∀ earlier < taken, typeTagCandidate (tagBase type) earlier ∈ s.typeTags.values

/-- There is always a candidate that no type has. -/
theorem freeTypeTag_searchStops (s : Symbols) (type : String) : s.SearchStops type (s.freeTypeTag type) := by
  unfold freeTypeTag
  dsimp only
  rw [← tagBase, List.find?_map]
  cases found : (List.range (s.typeTags.size + 1)).find?
      ((fun tag => !s.typeTags.values.contains tag) ∘ typeTagCandidate (tagBase type)) with
  | some taken =>
    obtain ⟨free, inside, passed⟩ := List.find?_range_eq_some.mp found
    refine ⟨taken, Nat.le_of_lt_succ (List.mem_range.mp inside), rfl, by simpa using free, fun earlier before => ?_⟩
    simpa using passed earlier before
  | none =>
    have taken : (List.range (s.typeTags.size + 1)).map (typeTagCandidate (tagBase type)) ⊆ s.typeTags.values := by
      intro tag member
      obtain ⟨k, listed, rfl⟩ := List.mem_map.mp member
      simpa using List.find?_eq_none.mp found k listed
    have nodup : ((List.range (s.typeTags.size + 1)).map (typeTagCandidate (tagBase type))).Nodup :=
      List.nodup_range.map (typeTagCandidate_injective (tagBase type))
    have few := (nodup.subperm taken).length_le
    simp only [List.length_map, List.length_range, Table.values, Table.size] at few
    omega

theorem freeTypeTag_not_mem (s : Symbols) (type : String) : s.freeTypeTag type ∉ s.typeTags.values := by
  obtain ⟨_, _, _, free, _⟩ := s.freeTypeTag_searchStops type
  exact free

end Symbols

/-- A request for a symbol. -/
inductive SymbolRequest where
  | attachPortlet (slot : PortletSlot) (id portlet : String)
  | aliasPortlet (slot : PortletSlot) (id portlet symbol : String)
  | attachListener (id outlet : String)
  | attachCaller (id inlet : String)
  | attachColdGroup (group : Nat)
  | attachGlobal (tag name : String)
  | attachTypeTag (type : String)

namespace SymbolRequest
variable {s t : Symbols} {symbol : String}

/-- Answer a request. -/
def give : SymbolRequest → Symbols → Except CompileError (String × Symbols)
  | attachPortlet slot id portlet, s => s.attachPortlet slot id portlet
  | aliasPortlet slot id portlet symbol, s => s.aliasPortlet slot id portlet symbol
  | attachListener id outlet, s => s.attachListener id outlet
  | attachCaller id inlet, s => s.attachCaller id inlet
  | attachColdGroup group, s => .ok (s.attachColdGroup group)
  | attachGlobal tag name, s => s.attachGlobal tag name
  | attachTypeTag type, s => .ok (s.attachTypeTag type)

/-- The slot that a request is about. -/
def slot : SymbolRequest → SymbolSlot
  | attachPortlet slot id portlet => .portlet slot id portlet
  | aliasPortlet slot id portlet _ => .portlet slot id portlet
  | attachListener id outlet => .listener id outlet
  | attachCaller id inlet => .caller id inlet
  | attachColdGroup group => .coldGroup (toString group)
  | attachGlobal tag name => .global tag name
  | attachTypeTag type => .typeTag type

/-- The fragments that a request has checked. -/
def parts : SymbolRequest → List String
  | attachPortlet _ _ portlet => [portlet]
  | aliasPortlet _ _ _ _ => []
  | attachListener id outlet => [id, outlet]
  | attachCaller id inlet => [id, inlet]
  | attachColdGroup _ => []
  | attachGlobal tag name => [tag, name]
  | attachTypeTag _ => []

/-- A request for a symbol that is there is answered with it and changes nothing. -/
theorem give_of_known (request : SymbolRequest) (valid : ∀ part ∈ request.parts, Text.isNamePart part = true)
    (held : s.at? request.slot = some symbol) : request.give s = .ok (symbol, s) := by
  have checked : ∀ part ∈ request.parts, Symbols.checkPart part = .ok () := fun part listed => if_pos (valid part listed)
  cases request with
  | attachPortlet slot id portlet =>
    rw [give, Symbols.attachPortlet, checked portlet (by simp [parts])]
    exact Symbols.assignPortlet_of_known _ held
  | aliasPortlet slot id portlet other => exact Symbols.assignPortlet_of_known _ held
  | attachListener id outlet =>
    rw [give, Symbols.attachListener, checked id (by simp [parts]), checked outlet (by simp [parts])]
    simp only [bind, Except.bind]
    rw [Symbols.assignIn_of_known held]
    rfl
  | attachCaller id inlet =>
    rw [give, Symbols.attachCaller, checked id (by simp [parts]), checked inlet (by simp [parts])]
    simp only [bind, Except.bind]
    rw [Symbols.assignIn_of_known held]
    rfl
  | attachColdGroup group =>
    rw [give, Symbols.attachColdGroup, Namespace.assign, show s.coldGroups.entries.get? (toString group) = _ from held]
  | attachGlobal tag name =>
    rw [give, Symbols.attachGlobal, checked tag (by simp [parts]), checked name (by simp [parts])]
    simp only [bind, Except.bind]
    rw [Symbols.assignIn_of_known held]
    rfl
  | attachTypeTag type => rw [give, Symbols.attachTypeTag, show s.typeTags.get? type = _ from held]

/-- A symbol that is copied has to be a name. -/
def Clean : SymbolRequest → Prop
  | aliasPortlet _ _ _ symbol => Text.isNamePart symbol = true
  | _ => True

/-- What it means that a request is answered with `symbol` and leaves `t`: its slot holds the symbol now, and where it was
    there before nothing has changed. -/
structure Answered (request : SymbolRequest) (s : Symbols) (symbol : String) (t : Symbols) : Prop where
  read : ∀ other, t.at? other = if other = request.slot then some symbol else s.at? other
  known : ∀ old, s.at? request.slot = some old → old = symbol
  place : ∀ other old, s.at? other = some old → t.place? other = s.place? other
  stems : t.stem? = s.stem?
  named : s.AllNames → request.Clean → Text.isNamePart symbol = true

theorem parts_of_give (request : SymbolRequest) (given : request.give s = .ok (symbol, t)) :
    ∀ part ∈ request.parts, Text.isNamePart part = true := by
  have checks {part : String} (checked : Symbols.checkPart part = .ok ()) : Text.isNamePart part = true :=
    (Symbols.checkPart_yields part).of_eq_ok checked
  cases request with
  | attachPortlet slot id portlet =>
    obtain ⟨checked, _⟩ := then_eq_ok_iff.mp given
    simpa [parts] using checks checked
  | attachListener | attachCaller | attachGlobal =>
    obtain ⟨first, rest⟩ := then_eq_ok_iff.mp given
    obtain ⟨second, _⟩ := then_eq_ok_iff.mp rest
    simpa [parts] using ⟨checks first, checks second⟩
  | aliasPortlet | attachColdGroup | attachTypeTag => simp [parts]

/-- A portlet that is given a symbol. -/
theorem answered_assignPortlet {request : SymbolRequest} {slot : PortletSlot} {id portlet : String}
    {choose : NodeSymbols → String} (same : request.slot = .portlet slot id portlet)
    (given : s.assignPortlet slot id portlet choose = .ok (symbol, t))
    (named : ∀ n, Text.isNamePart n.stem = true → request.Clean → Text.isNamePart (choose n) = true) :
    request.Answered s symbol t := by
  unfold Symbols.assignPortlet Symbols.node at given
  cases found : s.nodes.get? id with
  | none => simp [found, bind, Except.bind] at given
  | some n =>
    rw [found] at given
    cases given
    have stored : s.at? (.portlet slot id portlet) = (n.slot slot).entries.get? portlet := by
      simp only [Symbols.at?, found, Option.bind_some]
    refine ⟨fun other => ?_, fun old held => ?_, fun other old held => ?_, ?_, fun names clean => ?_⟩
    · rw [same]
      exact Symbols.at?_afterAssign found slot portlet (choose n) other
    · rw [same, stored] at held
      exact (Namespace.assign_known held).symm
    · exact Symbols.place?_afterAssign found slot portlet (choose n) held
    · funext other
      simp only [Symbols.stem?, Table.get?_insert]
      by_cases own : other = id <;> simp [own, found]
    · cases held : (n.slot slot).entries.get? portlet with
      | some old => exact names.symbols _ old (stored.trans held)
      | none =>
        refine named n (names.stems id n.stem ?_) clean
        rw [Symbols.stem?, found, Option.map_some]

/-- A slot outside the nodes that is given a symbol. -/
theorem answered_of_assigns {request : SymbolRequest} (assigns : s.Assigns request.slot symbol t)
    (place : ∀ other old, s.at? other = some old → t.place? other = s.place? other)
    (named : s.at? request.slot = none → request.slot.Shape s.stem? symbol → Text.isNamePart symbol = true) :
    request.Answered s symbol t := by
  refine ⟨assigns.read, assigns.known, place, assigns.stems, fun names _ => ?_⟩
  cases held : s.at? request.slot with
  | none => exact named held (assigns.shaped held)
  | some old => exact assigns.known old held ▸ names.symbols _ old held

theorem isNamePart_freeTypeTag (s : Symbols) (type : String) : Text.isNamePart (s.freeTypeTag type) = true := by
  have base : Text.isNamePart (Symbols.tagBase type) = true := by
    unfold Symbols.tagBase
    split
    next => decide
    next some =>
      refine Text.isNamePart_iff.mpr ⟨fun empty => some ?_, Text.isLetters_nameChars type⟩
      rw [String.toList_eq_nil_iff.mp empty]
      rfl
  have head : Text.isNamePart ("n_" ++ Symbols.tagBase type) = true :=
    Text.isNamePart_append (Text.isLetters_of_isNamePart (by decide)) base
  obtain ⟨taken, _, candidate, _⟩ := s.freeTypeTag_searchStops type
  rw [candidate, Symbols.typeTagCandidate]
  split
  · exact head
  · refine Text.isNamePart_append ((Text.isLetters_of_isNamePart head).append ?_) (Text.isNamePart_toString (taken + 1))
    exact Text.isLetters_of_isNamePart (by decide)

theorem isNamePart_portletSymbol (slot : PortletSlot) {stem portlet : String} (stemNamed : Text.isNamePart stem = true)
    (named : Text.isNamePart portlet = true) : Text.isNamePart s!"{stem}_{slot.mark}_{portlet}" = true := by
  have marked : Text.isNamePart slot.mark = true := by cases slot <;> decide
  have headed : Text.IsLetters (stem ++ "_") :=
    (Text.isLetters_of_isNamePart stemNamed).append (Text.isLetters_of_isNamePart (by decide))
  exact Text.isNamePart_joined headed marked named

/-- Every answer is one of these. -/
theorem answered (request : SymbolRequest) (given : request.give s = .ok (symbol, t)) : request.Answered s symbol t := by
  have valid := request.parts_of_give given
  cases request with
  | attachPortlet slot id portlet =>
    obtain ⟨_, assigned⟩ := then_eq_ok_iff.mp given
    refine answered_assignPortlet rfl assigned (fun n stem _ => ?_)
    exact isNamePart_portletSymbol slot stem (valid portlet (by simp [parts]))
  | aliasPortlet slot id portlet other => exact answered_assignPortlet rfl given (fun _ _ clean => clean)
  | attachListener id outlet =>
    have assigns := (s.attachListener_yields id outlet).of_eq_ok given
    refine answered_of_assigns assigns (fun other old held => ?_) (fun _ shape => ?_)
    · obtain ⟨_, rest⟩ := then_eq_ok_iff.mp given
      obtain ⟨_, assigned⟩ := then_eq_ok_iff.mp rest
      cases assigned
      cases other with
      | listener a b => exact Prod.ext_iff.mpr (Symbols.place?_assignIn _ _ _ _ held)
      | _ => rfl
    · rw [show symbol = "outletListeners_" ++ id ++ "_" ++ outlet from shape]
      exact Text.isNamePart_joined (Text.isLetters_of_isNamePart (by decide)) (valid id (by simp [parts]))
        (valid outlet (by simp [parts]))
  | attachCaller id inlet =>
    have assigns := (s.attachCaller_yields id inlet).of_eq_ok given
    refine answered_of_assigns assigns (fun other old held => ?_) (fun _ shape => ?_)
    · obtain ⟨_, rest⟩ := then_eq_ok_iff.mp given
      obtain ⟨_, assigned⟩ := then_eq_ok_iff.mp rest
      cases assigned
      cases other with
      | caller a b => exact Prod.ext_iff.mpr (Symbols.place?_assignIn _ _ _ _ held)
      | _ => rfl
    · rw [show symbol = "inletCallers_" ++ id ++ "_" ++ inlet from shape]
      exact Text.isNamePart_joined (Text.isLetters_of_isNamePart (by decide)) (valid id (by simp [parts]))
        (valid inlet (by simp [parts]))
  | attachGlobal tag name =>
    have assigns := (s.attachGlobal_yields tag name).of_eq_ok given
    refine answered_of_assigns assigns (fun other old held => ?_) (fun _ shape => ?_)
    · obtain ⟨_, rest⟩ := then_eq_ok_iff.mp given
      obtain ⟨_, assigned⟩ := then_eq_ok_iff.mp rest
      cases assigned
      cases other with
      | global a b => exact Prod.ext_iff.mpr (Symbols.place?_assignIn _ _ _ _ held)
      | _ => rfl
    · rw [show symbol = "" ++ tag ++ "_" ++ name by rw [String.empty_append]; exact shape]
      exact Text.isNamePart_joined (fun _ none => nomatch none) (valid tag (by simp [parts])) (valid name (by simp [parts]))
  | attachColdGroup group =>
    cases given
    refine answered_of_assigns (s.attachColdGroup_assigns group) (fun other old held => ?_) (fun _ shape => ?_)
    · cases other with
      | coldGroup key => exact Prod.ext_iff.mpr ⟨rfl, Namespace.place?_assign _ _ _ (Table.mem_keys_of_get? held)⟩
      | _ => rfl
    · rw [shape]
      exact Text.isNamePart_append (Text.isLetters_of_isNamePart (by decide)) (Text.isNamePart_toString group)
  | attachTypeTag type =>
    have assigns := s.attachTypeTag_assigns type
    rw [Except.ok.inj given] at assigns
    refine answered_of_assigns assigns (fun other old held => ?_) (fun new _ => ?_)
    · rw [give, Symbols.attachTypeTag] at given
      split at given
      · cases given
        rfl
      · cases given
        cases other with
        | typeTag key => exact Prod.ext_iff.mpr ⟨rfl, Table.place?_insert type _ (Table.mem_keys_of_get? held)⟩
        | _ => rfl
    · rw [give, Symbols.attachTypeTag, show s.typeTags.get? type = none from new] at given
      cases given
      exact isNamePart_freeTypeTag s type

namespace Answered
variable {request : SymbolRequest}

theorem keeps (answered : request.Answered s symbol t) : s.Keeps t := by
  refine ⟨fun other old held => ?_, answered.place⟩
  rw [answered.read]
  split
  next same => rw [answered.known old (same ▸ held)]
  next => exact held

theorem allNames (answered : request.Answered s symbol t) (names : s.AllNames) (clean : request.Clean) : t.AllNames := by
  refine ⟨fun other new held => ?_, fun id stem stored => names.stems id stem (answered.stems ▸ stored)⟩
  rw [answered.read] at held
  split at held
  next =>
    cases held
    exact answered.named names clean
  next => exact names.symbols other new held

end Answered
end SymbolRequest

end DspPatch
