import DspPatch.Proofs.Draft.FusionMeaning
import DspPatch.Proofs.Names

/-!
Expressions by recursive substitution. The expression of an inlet is the sum of the terms of its sources: the loop
expression of a source that is inlined, made for its own inlets in the same way and put into parentheses, or the variable
of any other source. This is the reading of inlined nodes on the spot (`readInlined`) with texts as values, so there is
exactly one such family of expressions. None of them mentions the variable of an inlined node, if the generated loop
expressions mention only what their inlets do.
-/
namespace DspPatch.Draft
open Build Text
variable {input : BuildInput} {symbols : Symbols} {inlined order : List String}

/-- The variable of an outlet. -/
def outletSymbol (symbols : Symbols) (e : Endpoint) : String := (symbols.at? (.portlet .outs e.node e.portlet)).getD ""

/-- The equations of recursive substitution: `term` tells the terms of outlets and `inlets` the expressions of the signal
    inlets of a node, in their order. -/
structure Substitutes (input : BuildInput) (symbols : Symbols) (inlined : List String) (term : Endpoint → String)
    (inlets : String → List (String × String)) : Prop where
  inline : ∀ e, e.node ∈ inlined → term e = "(" ++ (loopExpression? input symbols e.node (inlets e.node)).getD "" ++ ")"
  other : ∀ e, e.node ∉ inlined → term e = outletSymbol symbols e
  sums : ∀ v n, input.graph.get? v = some n →
    inlets v = (n.inletsOf .signal).map (fun i => (i.id, sumExpression ((n.sourcesOf i.id).map term)))

/-- Texts as values. -/
def textual (input : BuildInput) (symbols : Symbols) : Interpretation String Unit where
  mix := sumExpression
  step id inlets _ := (fun _ => "(" ++ (loopExpression? input symbols id inlets).getD "" ++ ")", ())

def outletStore (symbols : Symbols) : Store String Unit := ⟨outletSymbol symbols, fun _ => ()⟩

/-- The term of an outlet by recursive substitution. -/
def term (input : BuildInput) (symbols : Symbols) (inlined : List String) (e : Endpoint) : String :=
  (textual input symbols).readInlined input.graph (outletStore symbols) inlined e

/-- The expressions of the signal inlets of a node by recursive substitution. -/
def inletTexts (input : BuildInput) (symbols : Symbols) (inlined : List String) (id : String) : List (String × String) :=
  (textual input symbols).inletValues input.graph (term input symbols inlined) id

theorem term_of_inlined (fits : input.graph.Inlinable order inlined) {e : Endpoint} (own : e.node ∈ inlined) :
    term input symbols inlined e =
      "(" ++ (loopExpression? input symbols e.node (inletTexts input symbols inlined e.node)).getD "" ++ ")" := by
  refine (Interpretation.onTheSpot_readInlined fits (outletStore symbols) e).trans ?_
  rw [if_pos own]
  rfl

theorem term_of_not_inlined {e : Endpoint} (kept : e.node ∉ inlined) :
    term input symbols inlined e = outletSymbol symbols e :=
  Interpretation.readInlined_of_not_mem kept

theorem inletTexts_eq {v : String} {n : Node} (found : input.graph.get? v = some n) :
    inletTexts input symbols inlined v = (n.inletsOf .signal).map (fun i =>
      (i.id, sumExpression ((n.sourcesOf i.id).map (term input symbols inlined)))) := by
  rw [inletTexts, Interpretation.inletValues, found]
  rfl

theorem substitutes_inletTexts (fits : input.graph.Inlinable order inlined) :
    Substitutes input symbols inlined (term input symbols inlined) (inletTexts input symbols inlined) :=
  ⟨fun _ own => term_of_inlined fits own, fun _ kept => term_of_not_inlined kept, fun _ _ found => inletTexts_eq found⟩

/-- The equations have one solution. -/
theorem Substitutes.unique (fits : input.graph.Inlinable order inlined)
    (present : ∀ u ∈ inlined, ∃ n, input.graph.get? u = some n) {other : Endpoint → String}
    {inlets : String → List (String × String)} (substitutes : Substitutes input symbols inlined other inlets) :
    other = term input symbols inlined ∧
      ∀ v n, input.graph.get? v = some n → inlets v = inletTexts input symbols inlined v := by
  have sums : ∀ v n, input.graph.get? v = some n →
      inlets v = (textual input symbols).inletValues input.graph other v := by
    intro v n found
    rw [substitutes.sums v n found, Interpretation.inletValues, found]
    rfl
  have spot : (textual input symbols).OnTheSpot input.graph (outletStore symbols) inlined other := by
    intro e
    by_cases own : e.node ∈ inlined
    · obtain ⟨n, found⟩ := present e.node own
      rw [if_pos own, substitutes.inline e own, sums e.node n found]
      rfl
    · rw [if_neg own, substitutes.other e own]
      rfl
  have same : other = term input symbols inlined :=
    spot.unique fits (Interpretation.onTheSpot_readInlined fits (outletStore symbols))
  refine ⟨same, fun v n found => ?_⟩
  rw [sums v n found, same]
  rfl

/-- No two outlets share a variable. -/
def OutletsDistinct (symbols : Symbols) : Prop := ∀ u o u' o' symbol, symbols.at? (.portlet .outs u o) = some symbol →
  symbols.at? (.portlet .outs u' o') = some symbol → u = u' ∧ o = o'

/-- The loop expressions of inline nodes mention the variables of outlets only where their inlets do. -/
def MentionsInletsOnly (input : BuildInput) (symbols : Symbols) (inlined : List String) : Prop :=
  ∀ v, IsInline input v → ∀ text, loopExpression? input symbols v (inletTexts input symbols inlined v) = some text →
    ∀ u o symbol, symbols.at? (.portlet .outs u o) = some symbol → Mentions text symbol →
      ∃ entry ∈ inletTexts input symbols inlined v, Mentions entry.2 symbol

/-! Whether the variables of a draft are like that can be computed. -/

def outletEntries (symbols : Symbols) : List (Endpoint × String) :=
  symbols.nodes.entries.flatMap (fun node => node.2.outs.entries.entries.map (fun own => (⟨node.1, own.1⟩, own.2)))

theorem mem_outletEntries_iff {u o symbol : String} :
    (⟨u, o⟩, symbol) ∈ outletEntries symbols ↔ symbols.at? (.portlet .outs u o) = some symbol := by
  simp only [outletEntries, Symbols.at?, List.mem_flatMap, List.mem_map, Option.bind_eq_some_iff, Table.get?_eq_some_iff]
  constructor
  · rintro ⟨⟨id, n⟩, node, ⟨outlet, own⟩, entry, same⟩
    cases same
    exact ⟨n, node, entry⟩
  · rintro ⟨n, node, entry⟩
    exact ⟨(u, n), node, (o, symbol), entry, rfl⟩

instance (input : BuildInput) (id : String) : Decidable (IsInline input id) :=
  decidable_of_iff (((input.graph.get? id).bind (fun n => input.registry.types.get? n.type)).any
    (fun i => i.flags.isInline) = true) (by
      simp only [IsInline, Option.any_eq_true, Option.bind_eq_some_iff]
      constructor
      · rintro ⟨i, ⟨n, found, type⟩, inline⟩
        exact ⟨n, i, found, type, inline⟩
      · rintro ⟨n, i, found, type, inline⟩
        exact ⟨i, ⟨n, found, type⟩, inline⟩)

instance (symbols : Symbols) : Decidable (OutletsDistinct symbols) :=
  decidable_of_iff (∀ a ∈ outletEntries symbols, ∀ b ∈ outletEntries symbols, a.2 = b.2 → a.1 = b.1) (by
    constructor
    · intro distinct u o u' o' symbol given given'
      have same := distinct _ (mem_outletEntries_iff.mpr given) _ (mem_outletEntries_iff.mpr given') rfl
      exact ⟨congrArg Endpoint.node same, congrArg Endpoint.portlet same⟩
    · rintro distinct ⟨⟨u, o⟩, symbol⟩ listed ⟨⟨u', o'⟩, symbol'⟩ listed' rfl
      obtain ⟨rfl, rfl⟩ := distinct u o u' o' symbol (mem_outletEntries_iff.mp listed) (mem_outletEntries_iff.mp listed')
      rfl)

instance (input : BuildInput) (symbols : Symbols) (inlined : List String) :
    Decidable (MentionsInletsOnly input symbols inlined) :=
  decidable_of_iff (∀ v ∈ input.graph.nodes.keys, IsInline input v →
    ∀ text ∈ loopExpression? input symbols v (inletTexts input symbols inlined v), ∀ own ∈ outletEntries symbols,
      Mentions text own.2 → ∃ entry ∈ inletTexts input symbols inlined v, Mentions entry.2 own.2) (by
    constructor
    · intro clean v isInline text made u o symbol given mentions
      have known : v ∈ input.graph.nodes.keys := Table.mem_keys_of_get? isInline.choose_spec.choose_spec.1
      exact clean v known isInline text made _ (mem_outletEntries_iff.mpr given) mentions
    · rintro clean v _ isInline text made ⟨⟨u, o⟩, symbol⟩ listed mentions
      exact clean v isInline text made u o symbol (mem_outletEntries_iff.mp listed) mentions)

/-- Substituting texts is substituting expressions: the variables of outlets are names, all different, and loop
    expressions bring in no others. -/
structure Substitutable (input : BuildInput) (symbols : Symbols) (order inlined : List String) : Prop where
  fits : input.graph.Inlinable order inlined
  inline : ∀ u ∈ inlined, IsInline input u
  given : ∀ u n, input.graph.get? u = some n → ∀ o ∈ n.outletsOf .signal, symbols.at? (.portlet .outs u o.id) ≠ none
  named : ∀ u o symbol, symbols.at? (.portlet .outs u o) = some symbol →
    isNamePart symbol = true ∧ symbol ≠ Engine.nullSignal
  distinct : OutletsDistinct symbols
  clean : MentionsInletsOnly input symbols inlined

namespace Substitutable
variable (substitutable : Substitutable input symbols order inlined)
include substitutable

/-- A variable stands for itself. -/
theorem mentions_outletSymbol_iff {u o symbol : String} (given : symbols.at? (.portlet .outs u o) = some symbol)
    (e : Endpoint) : Mentions (outletSymbol symbols e) symbol ↔ e = ⟨u, o⟩ := by
  obtain ⟨named, _⟩ := substitutable.named u o symbol given
  unfold outletSymbol
  cases stored : symbols.at? (.portlet .outs e.node e.portlet) with
  | none =>
    refine ⟨fun mentions => absurd mentions (not_mentions_empty named), ?_⟩
    rintro rfl
    simp [stored] at given
  | some own =>
    have letters := (isNamePart_iff.mp (substitutable.named _ _ own stored).1).2
    rw [Option.getD_some, mentions_of_letters letters]
    constructor
    · rintro rfl
      obtain ⟨sameNode, sameOutlet⟩ := substitutable.distinct _ _ _ _ _ stored given
      cases e
      cases sameNode
      cases sameOutlet
      rfl
    · rintro rfl
      exact Option.some.inj (stored.symm.trans given)

/-- A term mentions the variable of an inlined node only if it is an inlined node itself and one of its inlets does. -/
theorem mentioned_at_inlet {u o symbol : String} (own : u ∈ inlined)
    (given : symbols.at? (.portlet .outs u o) = some symbol) {e : Endpoint}
    (mentions : Mentions (term input symbols inlined e) symbol) :
    e.node ∈ inlined ∧ ∃ entry ∈ inletTexts input symbols inlined e.node, Mentions entry.2 symbol := by
  obtain ⟨named, _⟩ := substitutable.named u o symbol given
  by_cases inner : e.node ∈ inlined
  · rw [term_of_inlined substitutable.fits inner, mentions_parens named] at mentions
    cases made : loopExpression? input symbols e.node (inletTexts input symbols inlined e.node) with
    | none =>
      rw [made] at mentions
      exact absurd mentions (not_mentions_empty named)
    | some text =>
      rw [made] at mentions
      exact ⟨inner, substitutable.clean e.node (substitutable.inline e.node inner) text made u o symbol given mentions⟩
  · rw [term_of_not_inlined inner, substitutable.mentions_outletSymbol_iff given] at mentions
    subst mentions
    exact absurd own inner

/-- The variables of inlined nodes are not mentioned at inlets. -/
theorem not_mentions_inletTexts {u o symbol : String} (own : u ∈ inlined)
    (given : symbols.at? (.portlet .outs u o) = some symbol) {v : String} {entry : String × String}
    (member : entry ∈ inletTexts input symbols inlined v) : ¬Mentions entry.2 symbol := by
  obtain ⟨named, isVariable⟩ := substitutable.named u o symbol given
  have fits := substitutable.fits
  -- Sources that are inlined come before the node, so the induction is on its place.
  generalize place : order.idxOf v = k
  induction k using Nat.strongRecOn generalizing v entry with
  | ind k ih =>
    intro mentions
    cases found : input.graph.get? v with
    | none => simp [inletTexts, Interpretation.inletValues, found] at member
    | some n =>
      rw [inletTexts_eq found] at member
      obtain ⟨i, inlet, rfl⟩ := List.mem_map.mp member
      obtain ⟨_, listed, inTerm⟩ := (mentions_sumExpression named isVariable _).mp mentions
      obtain ⟨e, source, rfl⟩ := List.mem_map.mp listed
      obtain ⟨inner, entry, member, mentions⟩ := substitutable.mentioned_at_inlet own given inTerm
      obtain ⟨declared, kind⟩ := (Graph.mem_inletsOf_iff fits.wf found).mp inlet
      have feeds : input.graph.Feeds .signal e.node v :=
        ⟨e.portlet, i.id, (Graph.connects_iff_source fits.wf).mpr ⟨n, i, found, declared, kind, source⟩⟩
      have less := ((pair_sublist_iff_idxOf_lt fits.ordered.nodup).mp (fits.before inner feeds)).2
      exact ih _ (place ▸ less) member rfl mentions

theorem not_mentions_term {u o symbol : String} (own : u ∈ inlined)
    (given : symbols.at? (.portlet .outs u o) = some symbol) (e : Endpoint) :
    ¬Mentions (term input symbols inlined e) symbol := by
  intro mentions
  obtain ⟨_, entry, member, inEntry⟩ := substitutable.mentioned_at_inlet own given mentions
  exact substitutable.not_mentions_inletTexts own given member inEntry

end Substitutable
end DspPatch.Draft
