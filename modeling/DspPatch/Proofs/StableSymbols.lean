import DspPatch.Proofs.Draft.Changes
import DspPatch.Proofs.Draft.Triggers

/-!
Symbols that stay. Every change of a workspace keeps symbols and positions (`Change.keeps`), so whatever is requested and
whatever passes are run, every slot keeps its symbol and its position. The symbols that a pass copies are those of
listeners, receivers and cold groups, which are in the index themselves; so symbols that are names stay names.
-/
namespace DspPatch

/-- A plan that calls names only. -/
def NodeDraft.CallsNames (n : NodeDraft) : Prop :=
  ∀ outlet plan, n.senderPlans.get? outlet = some plan → ∀ callee ∈ plan, Text.isNamePart callee = true

/-- What a draft may copy into the symbols is made of names: those whom its nodes call, and the functions of cold groups. -/
structure Draft.CallsNames (d : Draft) : Prop where
  plans : ∀ id n, d.nodes.get? id = some n → n.CallsNames
  triggers : ∀ c ∈ d.partition.cold, Text.isNamePart c.function = true

namespace Workspace

structure AllNames (w : Workspace) : Prop where
  symbols : w.symbols.AllNames
  calls : w.draft.CallsNames

/-- Symbols and positions are kept, and names stay names. -/
structure Keeps (before after : Workspace) : Prop where
  symbols : before.symbols.Keeps after.symbols
  names : before.AllNames → after.AllNames

instance : IsPreorder Workspace Keeps where
  refl w := ⟨.refl w.symbols, fun names => names⟩
  trans _ _ _ first second := ⟨first.symbols.trans second.symbols, fun names => second.names (first.names names)⟩

end Workspace

namespace Draft
open Build
variable {d : Draft}

theorem CallsNames.modifyNode (calls : d.CallsNames) (id : String) {f : NodeDraft → NodeDraft}
    (keeps : ∀ n, n.CallsNames → (f n).CallsNames) : (d.modifyNode id f).CallsNames := by
  refine ⟨fun other n stored => ?_, calls.triggers⟩
  rw [Draft.modifyNode, Table.get?_modify] at stored
  split at stored
  next =>
    obtain ⟨m, found, rfl⟩ := Option.map_eq_some_iff.mp stored
    exact keeps m (calls.plans other m found)
  next => exact calls.plans other n stored

theorem CallsNames.atStage (calls : d.CallsNames) (stage : Stage) : (d.atStage stage).CallsNames := by
  refine ⟨fun id n stored => ?_, calls.triggers⟩
  rw [Draft.atStage, Table.get?_map] at stored
  obtain ⟨m, found, rfl⟩ := Option.map_eq_some_iff.mp stored
  exact calls.plans id m found

theorem isNamePart_of_senderPlan {g : Graph} {s : Symbols} {n : Node} {outlet : String} {plan : List String}
    (planned : senderPlan g s n outlet = .ok plan) (names : s.AllNames) :
    ∀ callee ∈ plan, Text.isNamePart callee = true := by
  obtain ⟨receivers, found, same⟩ := bind_eq_ok_iff.mp planned
  cases same
  intro callee member
  rcases List.mem_append.mp member with isListener | isReceiver
  · exact names.symbols (.listener n.id outlet) callee (Option.mem_toList.mp isListener)
  · obtain ⟨sink, _, made⟩ := exists_left_of_forall₂ (mapM_eq_ok_iff.mp found) isReceiver
    obtain ⟨target, _, rest⟩ := bind_eq_ok_iff.mp made
    obtain ⟨inlet, _, rest⟩ := bind_eq_ok_iff.mp rest
    split at rest
    · exact names.symbols _ callee (Symbols.portlet_eq_ok_iff.mp rest)
    · cases rest

theorem CallsNames.dropInlined (calls : d.CallsNames) : d.dropInlined.CallsNames := by
  refine ⟨calls.plans, fun c member => ?_⟩
  obtain ⟨whole, listed, rfl⟩ := List.mem_map.mp member
  exact calls.triggers whole listed

theorem CallsNames.calls (names : d.CallsNames) {callee : String} (calls : d.Calls callee) :
    Text.isNamePart callee = true := by
  rcases calls with ⟨id, n, outlet, plan, stored, planned, member⟩ | ⟨c, member, rfl⟩
  · exact names.plans id n stored outlet plan planned callee member
  · exact names.triggers c member

theorem clean_of_allows {request : SymbolRequest} (allowed : d.Allows request) (names : d.CallsNames) : request.Clean := by
  cases request with
  | aliasPortlet slot id portlet symbol =>
    rcases allowed.2 with rfl | calls
    · show Text.isNamePart Engine.nullReceiver = true
      decide
    · exact names.calls calls
  | _ => trivial

theorem Change.keeps {g : Graph} {w v : Workspace} (change : Change g w v) : Workspace.Keeps w v := by
  cases change with
  | request request allowed given =>
    have answered := request.answered given
    exact ⟨answered.keeps, fun names =>
      ⟨answered.allNames names.symbols (clean_of_allows allowed names.calls), names.calls⟩⟩
  | plan id made =>
    refine ⟨.refl _, fun names => ⟨names.symbols, names.calls.modifyNode id (fun n calls other stored => ?_)⟩⟩
    simp only [Table.get?_insert]
    split
    · rintro ⟨⟩
      exact isNamePart_of_senderPlan made names.symbols
    · exact calls other stored
  | outlet id _ => exact ⟨.refl _, fun names => ⟨names.symbols, names.calls.modifyNode id (fun _ calls => calls)⟩⟩
  | inlet id _ => exact ⟨.refl _, fun names => ⟨names.symbols, names.calls.modifyNode id (fun _ calls => calls)⟩⟩
  | @code id f _ _ plans =>
    have kept : ∀ n, NodeDraft.CallsNames n → NodeDraft.CallsNames (f n) := fun n calls => by
      unfold NodeDraft.CallsNames
      rw [plans n]
      exact calls
    exact ⟨.refl _, fun names => ⟨names.symbols, names.calls.modifyNode id kept⟩⟩
  | inline id sink _ _ _ =>
    refine ⟨.refl _, fun names => ⟨names.symbols, CallsNames.modifyNode (names.calls.modifyNode sink ?_) id ?_⟩⟩
    · exact fun _ calls => calls
    · exact fun _ calls => calls
  | split numbered =>
    refine ⟨.refl _, fun names => ⟨names.symbols, names.calls.plans, fun c member => ?_⟩⟩
    exact names.symbols.symbols _ _ (numbered.named c member)
  | drop => exact ⟨.refl _, fun names => ⟨names.symbols, names.calls.dropInlined⟩⟩
  | shared nodes partition _ =>
    exact ⟨.refl _, fun names => ⟨names.symbols, nodes ▸ names.calls.plans, partition ▸ names.calls.triggers⟩⟩
  | stage next => exact ⟨.refl _, fun names => ⟨names.symbols, names.calls.atStage next⟩⟩

/-- Every step keeps symbols, positions and names, also if it fails. -/
theorem Step.keeps (step : Step) (input : BuildInput) (w : Workspace) :
    Leaves Workspace.Keeps (step.work input) w :=
  (step.changes input w).minimal (fun _ _ => Change.keeps)

theorem callsNames_start {g : Graph} {full : List String} (started : Draft.start g full = .ok d) : d.CallsNames := by
  have fresh := (start_yields g full).of_eq_ok started
  refine ⟨fun id n stored outlet plan planned => ?_, fun c member => ?_⟩
  · obtain ⟨_, _, rfl⟩ := fresh.nodes id n stored
    cases planned
  · rw [fresh.partition] at member
    cases member

end Draft

/-- Answer a request; one that fails leaves the symbols as they are. -/
def SymbolRequest.run (request : SymbolRequest) (w : Workspace) : Except CompileError String × Workspace :=
  (Build.name request.give).run.run w

theorem SymbolRequest.run_eq (request : SymbolRequest) (w : Workspace) : request.run w =
    match request.give w.symbols with
    | .ok (symbol, symbols) => (.ok symbol, { w with symbols })
    | .error e => (.error e, w) := by
  have opened : request.run w = (liftM (request.give w.symbols) >>= fun named => do
      modify (fun w => { w with symbols := named.2 })
      return named.1 : Build String).run.run w := rfl
  rw [opened]
  cases request.give w.symbols <;> rfl

theorem SymbolRequest.run_of_known {request : SymbolRequest} {w : Workspace} {symbol : String}
    (valid : ∀ part ∈ request.parts, Text.isNamePart part = true) (held : w.symbols.at? request.slot = some symbol) :
    request.run w = (.ok symbol, w) := by
  rw [request.run_eq, request.give_of_known valid held]

/-- A text in the index: in a slot, as the stem of a node, or among the symbols of the engine. -/
def Symbols.Holds (s : Symbols) (text : String) : Prop :=
  (∃ slot, s.at? slot = some text) ∨ (∃ id, s.stem? id = some text) ∨ text ∈ Engine.symbols.map Prod.snd

theorem Symbols.AllNames.of_holds {s : Symbols} (names : s.AllNames) {text : String} (holds : s.Holds text) :
    Text.isNamePart text = true := by
  rcases holds with ⟨slot, held⟩ | ⟨id, stored⟩ | engine
  · exact names.symbols slot text held
  · exact names.stems id text stored
  · have all : ∀ symbol ∈ Engine.symbols.map Prod.snd, Text.isNamePart symbol = true := by decide
    exact all text engine

theorem Symbols.allNames_ofGraph {g : Graph} {debug : Bool} {s : Symbols} (made : Symbols.ofGraph g debug = .ok s) :
    s.AllNames := by
  have initial := (Symbols.ofGraph_yields g debug).of_eq_ok made
  refine ⟨fun slot symbol held => ?_, initial.names⟩
  obtain ⟨id, rfl⟩ := initial.only slot (by rw [held]; exact Option.some_ne_none symbol)
  obtain ⟨stem, stored, rfl⟩ := initial.shaped _ symbol held
  exact Text.isNamePart_append (Text.isLetters_of_isNamePart (initial.names id stem stored)) (by decide)

/-- All symbols of a compilation are names, and so is whatever is called. -/
theorem Passes.allNames {input : BuildInput} {full : List String} (passes : Passes input full) : passes.finished.AllNames := by
  have keeps : Workspace.Keeps ⟨passes.allocated, passes.started⟩ passes.finished :=
    passes.changes.minimal (fun _ _ => Draft.Change.keeps)
  exact keeps.names ⟨Symbols.allNames_ofGraph passes.allocates, Draft.callsNames_start passes.starts⟩

theorem Passes.isNamePart_trigger {input : BuildInput} {full : List String} (passes : Passes input full)
    {id function : String} (runs : passes.finished.draft.partition.trigger? id = some function) :
    Text.isNamePart function = true := by
  obtain ⟨c, listed, rfl⟩ := Draft.exists_of_trigger? runs
  exact passes.allNames.calls.triggers c listed

/-- What may be done with symbols and a draft: ask for a symbol, make a step, or begin with a fresh draft. -/
inductive Action where
  | ask (request : SymbolRequest)
  | make (call : Draft.Call)
  | start (g : Graph) (traversal : List String)

namespace Action
variable {w : Workspace}

/-- What is left of the workspace, whether the action succeeds or fails. -/
def after (w : Workspace) : Action → Workspace
  | ask request => (request.run w).2
  | make call => (call.run w).2
  | start g traversal =>
    match Draft.start g traversal with
    | .ok draft => { w with draft }
    | .error _ => w

/-- What is left after all actions, those that fail included. -/
def afterAll (w : Workspace) (actions : List Action) : Workspace := actions.foldl after w

/-- A symbol that is to be copied is a name. -/
def Clean : Action → Prop
  | ask request => request.Clean
  | _ => True

theorem keeps_after (w : Workspace) (action : Action) :
    w.symbols.Keeps (action.after w).symbols ∧ (action.Clean → w.AllNames → (action.after w).AllNames) := by
  cases action with
  | ask request =>
    rw [after, request.run_eq]
    split
    next symbol symbols given =>
      have answered := request.answered given
      exact ⟨answered.keeps, fun clean names => ⟨answered.allNames names.symbols clean, names.calls⟩⟩
    next => exact ⟨.refl _, fun _ names => names⟩
  | make call =>
    have keeps := call.step.keeps call.input w
    exact ⟨keeps.symbols, fun _ => keeps.names⟩
  | start g traversal =>
    cases started : Draft.start g traversal with
    | ok draft =>
      simp only [after, started]
      exact ⟨.refl _, fun _ names => ⟨names.symbols, Draft.callsNames_start started⟩⟩
    | error e =>
      simp only [after, started]
      exact ⟨.refl _, fun _ names => names⟩

/-- Whatever is done, slots keep their symbols and positions. -/
theorem keeps_afterAll (w : Workspace) (actions : List Action) : w.symbols.Keeps (afterAll w actions).symbols := by
  induction actions generalizing w with
  | nil => exact .refl _
  | cons action rest ih => exact (keeps_after w action).1.trans (ih (action.after w))

theorem allNames_afterAll (names : w.AllNames) (actions : List Action) (clean : ∀ action ∈ actions, action.Clean) :
    (afterAll w actions).AllNames := by
  induction actions generalizing w with
  | nil => exact names
  | cons action rest ih =>
    rw [List.forall_mem_cons] at clean
    exact ih ((keeps_after w action).2 clean.1 names) clean.2

/-- A request that was answered is answered alike ever after, and changes nothing any more. -/
theorem run_afterAll {request : SymbolRequest} {symbol : String} {next : Workspace}
    (answered : request.run w = (.ok symbol, next)) (actions : List Action) :
    request.run (afterAll next actions) = (.ok symbol, afterAll next actions) := by
  rw [request.run_eq] at answered
  split at answered
  next symbols given =>
    cases answered
    have held := (request.answered given).read request.slot
    rw [if_pos rfl] at held
    have later := (keeps_afterAll ⟨symbols, w.draft⟩ actions).symbol _ _ held
    exact SymbolRequest.run_of_known (request.parts_of_give given) later
  next => cases answered

theorem eq_of_run_error {request : SymbolRequest} {e : CompileError} {next : Workspace}
    (failed : request.run w = (.error e, next)) : next = w := by
  rw [request.run_eq] at failed
  split at failed
  · cases failed
  · cases failed
    rfl

/-- From the symbols of a graph and a fresh draft, whatever symbols are asked for and whatever steps are made, failing ones
    included: every slot that holds a symbol keeps it and its position; a request that is answered is answered with the same
    symbol ever after and changes nothing then, and one that fails changes nothing; and if nothing but names is asked to be
    copied, as in all steps, the index consists of names. -/
theorem symbols_stable {g : Graph} {debug : Bool} {s : Symbols} (made : Symbols.ofGraph g debug = .ok s)
    {patch : Graph} {traversal : List String} {d : Draft} (started : Draft.start patch traversal = .ok d)
    (earlier later : List Action) :
    (∀ slot symbol, (afterAll ⟨s, d⟩ earlier).symbols.at? slot = some symbol →
      (afterAll ⟨s, d⟩ (earlier ++ later)).symbols.at? slot = some symbol ∧
      (afterAll ⟨s, d⟩ (earlier ++ later)).symbols.place? slot = (afterAll ⟨s, d⟩ earlier).symbols.place? slot) ∧
    (∀ (request : SymbolRequest) symbol next, request.run (afterAll ⟨s, d⟩ earlier) = (.ok symbol, next) →
      request.run next = (.ok symbol, next) ∧
      request.run (afterAll next later) = (.ok symbol, afterAll next later)) ∧
    (∀ (request : SymbolRequest) e next, request.run (afterAll ⟨s, d⟩ earlier) = (.error e, next) →
      next = afterAll ⟨s, d⟩ earlier) ∧
    ((∀ action ∈ earlier, action.Clean) → ∀ text, (afterAll ⟨s, d⟩ earlier).symbols.Holds text →
      text ≠ "" ∧ ∀ c ∈ text.toList, c.isAlphanum = true ∨ c = '_') := by
  refine ⟨fun slot symbol held => ?_, fun request symbol next answered => ?_, fun request e next => eq_of_run_error,
    fun clean text holds => ?_⟩
  · rw [show afterAll ⟨s, d⟩ (earlier ++ later) = afterAll (afterAll ⟨s, d⟩ earlier) later from List.foldl_append]
    have keeps := keeps_afterAll (afterAll ⟨s, d⟩ earlier) later
    exact ⟨keeps.symbol slot symbol held, keeps.place slot symbol held⟩
  · exact ⟨run_afterAll answered [], run_afterAll answered later⟩
  · have names : Workspace.AllNames ⟨s, d⟩ := ⟨Symbols.allNames_ofGraph made, Draft.callsNames_start started⟩
    obtain ⟨some, letters⟩ := Text.isNamePart_iff.mp ((allNames_afterAll names earlier clean).symbols.of_holds holds)
    refine ⟨fun empty => some (String.toList_eq_nil_iff.mpr empty), fun c member => ?_⟩
    simpa [Text.isNameChar] using letters c member

/-- The calls for the sample patch, after a sender was given the variable of another node. -/
def sampleActions : List Action :=
  ask (.aliasPortlet .snds "osc" "0" "half_OUTS_0") :: Draft.sampleCalls.map make

/-- What the sample patch got stays when it is begun again; the sender keeps what it was given, and a request with a blank
    changes nothing. -/
theorem symbols_stable_sample :
    (afterAll Draft.sampleStart sampleActions).symbols.at? (.coldGroup "0") = some "COLD_0" ∧
    (afterAll Draft.sampleStart (sampleActions ++ [start Draft.sampleInput.graph Draft.sampleFull])).symbols.at?
      (.coldGroup "0") = some "COLD_0" ∧
    (SymbolRequest.attachPortlet .snds "osc" "0").run (afterAll Draft.sampleStart sampleActions) =
      (.ok "half_OUTS_0", afterAll Draft.sampleStart sampleActions) ∧
    ((SymbolRequest.attachListener "o s c" "0").run (afterAll Draft.sampleStart sampleActions)).2 =
      afterAll Draft.sampleStart sampleActions ∧
    ("COLD_0" ≠ "" ∧ ∀ c ∈ "COLD_0".toList, c.isAlphanum = true ∨ c = '_') := by
  have made : Symbols.ofGraph Draft.sampleInput.graph false = .ok Draft.sampleStart.symbols :=
    eq_ok_getD (by decide +kernel) ⟨∅, ∅, ∅, .empty "", ∅, ∅⟩
  have started : Draft.start Draft.sampleInput.graph Draft.sampleFull = .ok Draft.sampleStart.draft :=
    eq_ok_getD (by decide +kernel) ⟨∅, ∅, .empty, .start [], []⟩
  have held : (afterAll Draft.sampleStart sampleActions).symbols.at? (.coldGroup "0") = some "COLD_0" := by decide +kernel
  have aliased : (afterAll Draft.sampleStart sampleActions).symbols.at? (.portlet .snds "osc" "0") = some "half_OUTS_0" := by
    decide +kernel
  have answers : (SymbolRequest.attachPortlet .snds "osc" "0").run (afterAll Draft.sampleStart sampleActions) =
      (.ok "half_OUTS_0", afterAll Draft.sampleStart sampleActions) :=
    SymbolRequest.run_of_known (by simp [SymbolRequest.parts]; decide) aliased
  have refuses (w : Workspace) : (SymbolRequest.attachListener "o s c" "0").run w = (.error (.name "o s c"), w) := by
    rw [SymbolRequest.run_eq]
    rfl
  have clean : ∀ action ∈ sampleActions, action.Clean := by
    refine List.forall_mem_cons.mpr ⟨?_, List.forall_mem_map.mpr (fun _ _ => trivial)⟩
    show Text.isNamePart "half_OUTS_0" = true
    decide
  obtain ⟨kept, answered, failed, named⟩ :=
    symbols_stable made started sampleActions [start Draft.sampleInput.graph Draft.sampleFull]
  refine ⟨held, (kept _ _ held).1, (answered _ _ _ answers).1, ?_, named clean _ (.inl ⟨_, held⟩)⟩
  rcases result : (SymbolRequest.attachListener "o s c" "0").run (afterAll Draft.sampleStart sampleActions) with
    ⟨e | symbol, next⟩
  · exact failed _ _ _ result
  · rw [refuses] at result
    cases result

end Action
end DspPatch
