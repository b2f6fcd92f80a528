import DspPatch.Proofs.Draft.Dependencies
import DspPatch.Proofs.StableSymbols
import DspPatch.Proofs.UniformRegistry

/-!
Passes side by side. Two compilations of one graph whose settings differ in the debug flag run the same passes over alike
workspaces: each pass fails with the same error in both, or leaves alike workspaces again. What is decided from text is
whether loop code is an expression, and how many functions an outlet calls; neither depends on names.
-/
namespace DspPatch

/-- The same work with other names. -/
def BuildInput.withDebug (input : BuildInput) (debug : Bool) : BuildInput :=
  { input with settings := { input.settings with debug } }

namespace Workspace.Alike
open Build
variable {w v : Workspace}

theorem name {rel : String → String → Prop} {give give' : Symbols → Except CompileError (String × Symbols)}
    (alike : w.Alike v) (given : Agree (fun a b => rel a.1 b.1 ∧ a.2.Alike b.2) (give w.symbols) (give' v.symbols)) :
    Together (Build.name give) (Build.name give') w v (fun a b w v => rel a b ∧ w.Alike v) :=
  .name (given.mono (fun _ _ _ _ holds => ⟨holds.1, holds.2, alike.draft⟩))

theorem modifyDraft (alike : w.Alike v) {f g : Draft → Draft} (changed : (f w.draft).Alike (g v.draft)) :
    Together (Build.modifyDraft f) (Build.modifyDraft g) w v (fun _ _ => Workspace.Alike) :=
  .modifyDraft ⟨alike.symbols, changed⟩

theorem modifyNode (alike : w.Alike v) (id : String) {f g : NodeDraft → NodeDraft}
    (changes : ∀ n m, NodeDraft.Alike n m → (f n).Alike (g m)) :
    Together (Build.modifyNode id f) (Build.modifyNode id g) w v (fun _ _ => Workspace.Alike) :=
  alike.modifyDraft (alike.draft.modifyNode id changes)

theorem pass {expected next : Stage} {work work' : Build Unit} (alike : w.Alike v)
    (together : Together work work' w v (fun _ _ => Workspace.Alike)) :
    Together (Build.pass expected next work) (Build.pass expected next work') w v (fun _ _ => Workspace.Alike) := by
  refine .draft_bind ?_
  rw [alike.draft.expectStage_eq]
  exact .lift_bind_same (fun _ _ => .bind together (fun _ _ _ _ alike => alike.modifyDraft (alike.draft.atStage next)))

end Workspace.Alike

/-- The function that displays a message has a symbol. -/
def Workspace.Displays (w : Workspace) : Prop := ∃ symbol, w.symbols.global "msg" "display" = .ok symbol

theorem Workspace.Keeps.displays {w v : Workspace} (keeps : Workspace.Keeps w v) (displays : w.Displays) : v.Displays := by
  obtain ⟨symbol, known⟩ := displays
  exact ⟨symbol, Symbols.global_eq_ok_iff.mpr (keeps.symbols.symbol _ _ (Symbols.global_eq_ok_iff.mp known))⟩

section Shared
variable {s t : Symbols} {settings settings' : Settings}

theorem SharedCode.addDefinition_eq {d : Definition} (uniform : d.Uniform) (alike : s.Alike t)
    (audio : settings.audio = settings'.audio) (shared : SharedCode) :
    shared.addDefinition s settings d = shared.addDefinition t settings' d := by
  have code : d.code ⟨d.tag, s, settings⟩ = d.code ⟨d.tag, t, settings'⟩ := uniform rfl alike audio
  have localSymbol : DefinitionContext.localSymbol ⟨d.tag, s, settings⟩ = DefinitionContext.localSymbol ⟨d.tag, t, settings'⟩ :=
    DefinitionContext.localSymbol_eq rfl alike
  simp only [addDefinition, code, localSymbol]

theorem SharedCode.addDefinitions_eq {definitions : List Definition} (uniform : ∀ d ∈ definitions, d.Uniform)
    (alike : s.Alike t) (audio : settings.audio = settings'.audio) (shared : SharedCode) :
    definitions.foldlM (addDefinition s settings) shared = definitions.foldlM (addDefinition t settings') shared := by
  induction definitions generalizing shared with
  | nil => rfl
  | cons d rest ih =>
    rw [List.forall_mem_cons] at uniform
    rw [List.foldlM_cons, List.foldlM_cons, addDefinition_eq uniform.1 alike audio]
    congr 1
    funext shared
    exact ih uniform.2 shared

theorem SharedCode.collect_alike {roots : List Definition} (uniform : ∀ d, Definition.Reaches roots d → d.Uniform)
    (alike : s.Alike t) (audio : settings.audio = settings'.audio) :
    (collect roots settings s).1 = (collect roots settings' t).1 ∧
      (collect roots settings s).2.Alike (collect roots settings' t).2 := by
  obtain ⟨same, later⟩ :=
    alike.attachGlobals ((Definition.flatten roots).flatMap (fun d => d.names.map (fun n => (d.tag, n))))
  refine ⟨?_, later⟩
  unfold collect
  dsimp only
  rw [same]
  congr 1
  funext _
  exact addDefinitions_eq (fun d listed => uniform d (Definition.reaches_of_mem_flatten listed)) later audio .empty

end Shared

namespace Draft
open Build
variable {input : BuildInput} {debug : Bool} {w v : Workspace} {s t : Symbols} {d e : Draft}

theorem namePortlets_together (alike : w.Alike v) (id : String) :
    Together (namePortlets input id) (namePortlets (input.withDebug debug) id) w v (fun _ _ => Workspace.Alike) := by
  refine .lift_bind_same (fun n _ => .bind (.forM alike (fun outlet _ w v alike => ?_)) (fun _ _ w v alike =>
    .bind (.forM alike (fun inlet _ w v alike => ?_)) (fun _ _ w v alike =>
    .bind (.forM alike (fun outlet _ w v alike => ?_)) (fun _ _ w v alike => .forM alike (fun inlet _ w v alike => ?_)))))
  · refine .bind (alike.name (alike.symbols.attachPortlet .outs id outlet.id)) ?_
    rintro a b w v ⟨named, alike⟩
    exact alike.modifyNode id (fun n m pair => { pair with signalOuts := pair.signalOuts.insert outlet.id named })
  · exact .discard ((alike.name (alike.symbols.attachPortlet .rcvs id inlet.id)).mono (fun _ _ _ _ holds => holds.2))
  · exact .discard ((alike.name (alike.symbols.attachListener id outlet)).mono (fun _ _ _ _ holds => holds.2))
  · exact .discard ((alike.name (alike.symbols.attachCaller id inlet)).mono (fun _ _ _ _ holds => holds.2))

theorem inletExpression_agree (alike : s.Alike t) (g : Graph) (n : Node) (inlet : String) :
    Agree BothSolid (inletExpression g s n inlet) (inletExpression g t n inlet) := by
  refine Agree.bind (Agree.mapM BothNames (fun source _ => ?_)) (fun as bs terms => .ok ⟨?_, ?_⟩)
  · refine Agree.bind (.same rfl) (fun _ _ same => Agree.bind (.same (by rw [same])) (fun outlet _ same => ?_))
    rw [← same]
    split
    · exact alike.portlet .outs source.node source.portlet
    · exact .error _
  · refine Text.solid_sumExpression (fun a member => ?_)
    obtain ⟨b, _, named⟩ := exists_right_of_forall₂ terms member
    exact named.solid.1
  · refine Text.solid_sumExpression (fun b member => ?_)
    obtain ⟨a, _, named⟩ := exists_left_of_forall₂ terms member
    exact named.solid.2

theorem senderPlan_agree (alike : s.Alike t) (g : Graph) (n : Node) (outlet : String) :
    Agree (List.Forall₂ SameCallee) (senderPlan g s n outlet) (senderPlan g t n outlet) := by
  refine Agree.bind (Agree.mapM SameCallee (fun sink _ => ?_)) (fun as bs receivers => .ok ?_)
  · refine Agree.bind (.same rfl) (fun _ _ same => Agree.bind (.same (by rw [same])) (fun inlet _ same => ?_))
    rw [← same]
    split
    · exact alike.portlet .rcvs sink.node sink.portlet
    · exact .error _
  · obtain ⟨nodes, rfl, _, _⟩ := alike
    exact List.rel_append (List.forall₂_same.mpr (fun _ _ => .inl rfl)) receivers

theorem wirePortlets_together (alike : w.Alike v) (id : String) :
    Together (wirePortlets input id) (wirePortlets (input.withDebug debug) id) w v (fun _ _ => Workspace.Alike) := by
  refine .lift_bind_same (fun n _ => .bind (.forM alike (fun inlet _ w v alike => ?_)) (fun _ _ w v alike =>
    .forM alike (fun outlet _ w v alike => ?_)))
  · refine .symbols_bind (.lift_bind ((inletExpression_agree alike.symbols input.graph n inlet.id).mono ?_))
    intro a b _ _ solid
    exact alike.modifyNode id (fun n m pair => { pair with signalIns := pair.signalIns.insert inlet.id solid })
  · refine .symbols_bind (.lift_bind ((senderPlan_agree alike.symbols input.graph n outlet.id).mono ?_))
    intro a b _ _ plans
    exact alike.modifyNode id (fun n m pair => { pair with senderPlans := pair.senderPlans.insert outlet.id plans })

theorem resolvePortlets_together (alike : w.Alike v) :
    Together (resolvePortlets input) (resolvePortlets (input.withDebug debug)) w v (fun _ _ => Workspace.Alike) := by
  refine alike.pass (.nodeIds_bind ?_)
  rw [alike.draft.nodes.keys_eq]
  refine .bind (.forM alike (fun id _ w v alike => namePortlets_together alike id)) (fun _ _ w v alike => .nodeIds_bind ?_)
  rw [alike.draft.nodes.keys_eq]
  exact .forM alike (fun id _ w v alike => wirePortlets_together alike id)

theorem nameType_together (alike : w.Alike v) (type : String) (i : Implementation) :
    Together (nameType type i) (nameType type i) w v (fun _ _ => Workspace.Alike) := by
  refine .bind (alike.name (.ok (alike.symbols.attachTypeTag type))) ?_
  rintro tag _ w v ⟨rfl, alike⟩
  refine .forM alike (fun name _ w v alike => ?_)
  exact .discard ((alike.name (alike.symbols.attachGlobal tag name)).mono (fun _ _ _ _ holds => holds.2))

theorem collectShared_together (uniform : input.registry.Uniform) (alike : w.Alike v) {ds : List Definition}
    (held : ∀ d ∈ ds, input.registry.Holds d) :
    Together (collectShared input ds) (collectShared (input.withDebug debug) ds) w v (fun _ _ => Workspace.Alike) := by
  have audio : input.settings.audio = (input.withDebug debug).settings.audio := rfl
  obtain ⟨same, later⟩ := SharedCode.collect_alike
    (fun d reached => uniform.definitions d (Registry.holds_of_reaches held reached)) alike.symbols audio
  refine .symbols_bind ?_
  show Together (modify _ >>= fun _ => liftM _) (modify _ >>= fun _ => liftM _) w v _
  refine .bind (show Together _ _ w v (fun _ _ => Workspace.Alike) from .ok ⟨later, alike.draft⟩) (fun _ _ w v alike => ?_)
  exact .lift ((Agree.same same).mono (fun _ _ _ _ _ => alike))

theorem makeCore_together {type : String} {i : Implementation} (uniform : i.Uniform) (alike : w.Alike v) :
    Together (makeCore input type i) (makeCore (input.withDebug debug) type i) w v (fun _ _ => Workspace.Alike) := by
  have same : i.core ⟨type, w.symbols, input.settings⟩ = i.core ⟨type, v.symbols, (input.withDebug debug).settings⟩ :=
    uniform.core rfl alike.symbols
  refine .symbols_bind (.lift_bind ((Agree.same same).mono ?_))
  rintro core _ _ _ rfl
  refine alike.modifyDraft ⟨alike.draft.nodes, ?_, alike.draft.partition, alike.draft.cold⟩
  rw [alike.draft.types]

theorem collectDependencies_together (uniform : input.registry.Uniform) (alike : w.Alike v) :
    Together (collectDependencies input) (collectDependencies (input.withDebug debug)) w v (fun _ _ => Workspace.Alike) := by
  refine alike.pass (.nodeIds_bind ?_)
  rw [alike.draft.nodes.keys_eq]
  refine .lift_bind_same (fun types made => ?_)
  have known := (implementations_yields input _).of_eq_ok made
  refine .bind (.forM alike (fun entry _ w v alike => ?_)) (fun _ _ w v alike =>
    .bind (collectShared_together uniform alike (fun _ => known.holds)) (fun _ _ w v alike => .bind (alike.modifyDraft ?_)
      (fun _ _ w v alike => .forM alike (fun entry member w v alike => ?_))))
  · exact nameType_together alike entry.1 entry.2
  · exact ⟨alike.draft.nodes, alike.draft.types, alike.draft.partition, alike.draft.cold⟩
  · exact makeCore_together (uniform.types _ _ (known.registered _ _ (Table.get?_eq_some_iff.mpr member))) alike

/-- The standard definitions are collected whatever else is, so messages can be displayed afterwards. -/
theorem collectDependencies_displays (w : Workspace) :
    Ends (collectDependencies input) w (fun _ after => after.Displays) (fun _ => True) := by
  have later {work : Build Unit} {now : Workspace} (displays : now.Displays) (leaves : Leaves (Changes input.graph) work now) :
      Ends work now (fun _ after => after.Displays) (fun _ => True) :=
    leaves.ends.mono (fun _ _ changes => (changes.minimal (fun _ _ => Change.keeps)).displays displays) (fun _ _ => trivial)
  refine .draft_bind (.lift_bind ((Yields.any _).mono (fun _ _ => ?_) (fun _ _ => trivial)))
  refine .bind ?_ (fun _ _ displays => later displays (.modifyDraft (.single (.stage _))))
  refine .nodeIds_bind (.lift_bind ((Yields.any _).mono (fun types _ => ?_) (fun _ _ => trivial)))
  refine .bind ((Ends.self _ _).mono (fun _ _ _ => trivial) (fun _ _ => trivial)) (fun _ now _ => ?_)
  refine .bind ((collectShared_ends _).mono (fun _ _ post => post) (fun _ _ => trivial)) ?_
  rintro shared now ⟨_, _, once, globals⟩
  have listed := (input.registry.standard_isPrefix_flatten (types.values.flatMap Implementation.dependencies)).subset
    (Registry.mem_standard.mpr (.inr (.inl rfl)))
  have given := globals _ listed "display"
    (show _ ∈ (Library.Standard.msg 1 (Library.Standard.core 0)).names by decide)
  obtain ⟨symbol, held⟩ := Option.ne_none_iff_exists'.mp given
  have displays : now.Displays := ⟨symbol, Symbols.global_eq_ok_iff.mpr held⟩
  refine later displays (.bind (.modifyDraft (.single (.shared rfl rfl (fun _ => once)))) (fun _ _ => .forM (fun entry _ _ => ?_)))
  exact makeCore_changes entry.1 entry.2

theorem splitGroups_together (alike : w.Alike v) (full signal : List String) :
    Together (splitGroups input full signal) (splitGroups (input.withDebug debug) full signal) w v
      (fun p q w v => (p = q ∧ ∀ c ∈ p.cold, IsColdName c.function) ∧ w.Alike v) := by
  refine .lift_bind_same (fun eligible _ => .bind (.mapM (fun c c' => c = c' ∧ IsColdName c.function) alike ?_) ?_)
  · rintro ⟨⟨group, connections⟩, i⟩ _ w v alike
    refine .bind (alike.name (.ok (alike.symbols.attachColdGroup i))) ?_
    rintro a _ w v ⟨⟨rfl, isCold⟩, alike⟩
    exact .pure ⟨⟨rfl, isCold⟩, alike⟩
  · rintro cold cold' w v ⟨pairs, alike⟩
    have same : cold = cold' := List.forall₂_eq_eq_eq ▸ pairs.imp (fun _ _ both => both.1)
    refine .pure ⟨⟨by rw [same]; rfl, fun c member => ?_⟩, alike⟩
    obtain ⟨_, _, _, isCold⟩ := exists_right_of_forall₂ pairs member
    exact isCold

theorem context_agree (symbols : s.Alike t) (alike : d.Alike e) (id : String) :
    Agree NodeContext.Alike (input.context s d id) ((input.withDebug debug).context t e id) :=
  Agree.bind (.same rfl) (fun _ _ same => (alike.node id).bind (fun _ _ pair => .ok ⟨same, symbols, pair.signalIns⟩))

theorem resolveLoop_alike (alike : d.Alike e) (id : String) (loop loop' : Option Sequence) :
    (d.resolveLoop id loop).Alike (e.resolveLoop id loop') :=
  alike.modifyNode id (fun _ _ pair => { pair with loopResolved := rfl })

theorem inlineInto_alike (alike : d.Alike e) (id sink : String) {symbol symbol' expression expression' : String}
    (names : BothNames symbol symbol') (oneLine : '\n' ∉ expression.toList) (oneLine' : '\n' ∉ expression'.toList) :
    (d.inlineInto id sink symbol expression).Alike (e.inlineInto id sink symbol' expression') := by
  refine Alike.modifyNode (alike.modifyNode sink (fun n m pair => ?_)) id (fun n m pair => ?_)
  · refine { pair with signalIns := pair.signalIns.map (fun a b solid => ⟨?_, ?_⟩) }
    · exact solid.1.replaceName names.1 (Text.solid_parenthesized oneLine)
    · exact solid.2.replaceName names.2 (Text.solid_parenthesized oneLine')
  · exact { pair with inlined := rfl, signalOuts := .empty, loopResolved := rfl }

/-- Fusion decides alike: loop code is an expression in both drafts or in neither, and goes to the same sink. -/
theorem fuseNode_agree (uniform : input.registry.Uniform) (symbols : s.Alike t) (alike : d.Alike e) (p : Partition)
    (id : String) : Agree Draft.Alike (fuseNode input s p d id) (fuseNode (input.withDebug debug) t p e id) := by
  refine Agree.bind (.same rfl) (fun n _ same => ?_)
  cases same
  refine Agree.bind (.of_yields (Yields.self (input.registry.implementation n))) ?_
  rintro i _ ⟨rfl, found⟩
  have own := uniform.types _ _ (Registry.implementation_eq_ok_iff.mp found)
  show Agree _ (if _ then _ else _) (if _ then _ else _)
  split
  · exact .ok alike
  refine (context_agree symbols alike id).bind (fun c c' contexts => (own.loop contexts).bind (fun loop loop' shape => ?_))
  dsimp only
  -- The texts of the loops differ, but both are expressions or neither is.
  rcases made : loop.bind Sequence.expression? with _ | expression
  · rcases made' : loop'.bind Sequence.expression? with _ | expression'
    · exact .ok (resolveLoop_alike alike id loop loop')
    · simp [made, made'] at shape
  · rcases made' : loop'.bind Sequence.expression? with _ | expression'
    · simp [made, made'] at shape
    · obtain ⟨_, _, isExpression⟩ := Option.bind_eq_some_iff.mp made
      obtain ⟨_, _, isExpression'⟩ := Option.bind_eq_some_iff.mp made'
      refine (alike.node id).bind (fun m m' pair => ?_)
      have values := pair.signalOuts.values
      rw [pair.signalOuts.keys_eq, show (input.withDebug debug).graph = input.graph from rfl]
      generalize fusionTarget? input.graph p id m'.signalOuts.keys = target
      generalize m.signalOuts.values = outs at values
      generalize m'.signalOuts.values = outs' at values
      cases values with
      | nil => cases target <;> exact .ok (resolveLoop_alike alike id _ _)
      | cons names rest =>
        cases target with
        | some sink => exact .ok (inlineInto_alike alike id sink names (Text.newline_not_mem_expression? isExpression)
            (Text.newline_not_mem_expression? isExpression'))
        | none => cases rest <;> exact .ok (resolveLoop_alike alike id _ _)

theorem partitionDsp_together (uniform : input.registry.Uniform) (alike : w.Alike v) :
    Together (partitionDsp input) (partitionDsp (input.withDebug debug)) w v (fun _ _ => Workspace.Alike) := by
  refine alike.pass (.draft_bind ?_)
  rw [alike.draft.partition]
  refine .lift_bind_same (fun signal _ => .bind (splitGroups_together alike v.draft.partition.full signal) ?_)
  rintro p _ w v ⟨⟨rfl, cold⟩, alike⟩
  refine .bind (alike.modifyDraft ⟨alike.draft.nodes, alike.draft.types, rfl, cold⟩) (fun _ _ w v alike =>
    .bind (.forM alike (fun id _ w v alike => ?_)) (fun _ _ w v alike => alike.modifyDraft alike.draft.dropInlined))
  refine .symbols_bind (.draft_bind (.lift_bind ((fuseNode_agree uniform alike.symbols alike.draft p id).mono ?_)))
  exact fun _ _ _ _ changed => alike.modifyDraft changed

end Draft
end DspPatch
