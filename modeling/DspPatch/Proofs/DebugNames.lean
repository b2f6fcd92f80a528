import DspPatch.Proofs.Draft.AlikeCode
import DspPatch.Proofs.Pipeline

/-!
The debug flag changes names only. A compilation is written as one computation whose errors name their pass (`course`); with
and without the flag these computations agree, because every pass does. So both fail in the same pass with the same error,
or both succeed with the same partition, the same inlined nodes and the same calls.
-/
namespace DspPatch
open Build

/-- An error that belongs to a pass. -/
def Pass.charge {α : Type} (pass : Pass) (x : Except CompileError α) : Except (Pass × CompileError) α :=
  x.mapError (fun e => (pass, e))

theorem Agree.charge {α β : Type} {rel : α → β → Prop} {x : Except CompileError α} {y : Except CompileError β}
    (agree : Agree rel x y) (pass : Pass) : Agree rel (pass.charge x) (pass.charge y) := by
  cases agree with
  | error e => exact .error (pass, e)
  | ok related => exact .ok related

/-- A fresh draft is like itself. -/
theorem Draft.start_agree (g : Graph) (full : List String) : Agree Draft.Alike (Draft.start g full) (Draft.start g full) := by
  have fresh : ∀ id ∈ full, Agree (fun a b => a.1 = b.1 ∧ NodeDraft.Alike a.2 b.2)
      (do return (id, ({ type := (← g.node id).type } : NodeDraft)))
      (do return (id, ({ type := (← g.node id).type } : NodeDraft))) := by
    intro id _
    exact Agree.bind (.same rfl) (fun n m _ => .ok ⟨rfl, rfl, .empty, .empty, .empty, .empty, rfl, rfl⟩)
  exact Agree.bind (.mapM _ fresh) (fun _ _ pairs => .ok ⟨.ofList pairs, rfl, rfl, List.forall_mem_nil _⟩)

namespace Compilation
variable {g : Graph} {r : Registry} {request : SettingsRequest}

/-- The passes as one computation, each from what the ones before have made. -/
def course (g : Graph) (r : Registry) (request : SettingsRequest) : Except (Pass × CompileError) Compilation := do
  let s ← Pass.validateSettings.charge (checkedSettings g request)
  let full ← Pass.buildTraversal.charge (g.fullTraversal s.inletCallers.keys)
  let symbols ← Pass.allocateNames.charge (Symbols.ofGraph (g.trim full) s.debug)
  let draft ← Pass.resolvePortlets.charge (Draft.start (g.trim full) full)
  let resolved ← Pass.resolvePortlets.charge (outcome (Draft.resolvePortlets ⟨g.trim full, r, s⟩) ⟨symbols, draft⟩)
  let collected ← Pass.collectDependencies.charge (outcome (Draft.collectDependencies ⟨g.trim full, r, s⟩) resolved.2)
  let divided ← Pass.partitionDsp.charge (outcome (Draft.partitionDsp ⟨g.trim full, r, s⟩) collected.2)
  let spoken ← Pass.synthesizeMessages.charge (outcome (Draft.synthesizeMessages ⟨g.trim full, r, s⟩) divided.2)
  let finished ← Pass.generateNodeCode.charge (outcome (Draft.finish ⟨g.trim full, r, s⟩) spoken.2)
  let program ← Pass.assemble.charge (finished.2.draft.program finished.2.symbols)
  return completed g r request s full finished.2 finished.1 program

/-- An error of a step is the error of the whole; otherwise the whole is what follows. -/
theorem yields_of_charge {α β : Type} {whole : Except (Pass × CompileError) β} {pass : Pass} {x : Except CompileError α}
    {f : α → Except (Pass × CompileError) β} {post : α → Prop} (split : whole = pass.charge x >>= f)
    (rest : ∀ a, whole = f a → post a) : Yields x post (fun e => whole = .error (pass, e)) := by
  cases x with
  | error e => exact split
  | ok a => exact rest a split

/-- A compilation goes its course. -/
theorem compile_course (g : Graph) (r : Registry) (request : SettingsRequest) :
    Yields (compile g r request) (fun result => ∃ c, course g r request = .ok c ∧ c.result = .ok result ∧
      (Compilation.run { graph := g, registry := r, request } .assemble).2 = c)
      (fun failure => course g r request = .error failure) := by
  refine compile_yields (fun pass e => course g r request = .error (pass, e)) ?_
  refine runs_all (yields_of_charge rfl (fun s split => ?_))
  refine yields_of_charge split (fun full split => ?_)
  refine yields_of_charge split (fun symbols split => ?_)
  refine yields_of_charge split (fun draft split => ?_)
  refine ends_of_outcome (yields_of_charge split (fun resolved split => ?_))
  refine ends_of_outcome (yields_of_charge split (fun collected split => ?_))
  refine ends_of_outcome (yields_of_charge split (fun divided split => ?_))
  refine ends_of_outcome (yields_of_charge split (fun spoken split => ?_))
  refine ends_of_outcome (yields_of_charge split (fun finished split => ?_))
  exact yields_of_charge split (fun program split run => ⟨_, rfl, _, split, rfl, run⟩)

/-- With the flag set either way a request is checked alike. -/
theorem checkedSettings_debug (g : Graph) (request : SettingsRequest) (debug : Bool) :
    checkedSettings g { request with debug := some debug } =
      (checkedSettings g request).map (fun s => { s with debug }) := by
  have validated : SettingsRequest.validate { request with debug := some debug } =
      request.validate.map (fun s => { s with debug }) := by
    unfold SettingsRequest.validate
    cases request.audio with
    | none =>
      simp only [pure_bind]
      split <;> rfl
    | some audio =>
      dsimp only
      cases audio.validate with
      | error e => rfl
      | ok valid =>
        simp only [bind, Except.bind]
        split <;> rfl
  unfold checkedSettings
  rw [validated]
  cases request.validate with
  | error e => rfl
  | ok s =>
    have checked : Settings.checkPortlets { s with debug } g = s.checkPortlets g := rfl
    simp only [Except.map, bind, Except.bind, checked]
    cases s.checkPortlets g <;> rfl

theorem checkedSettings_agree (g : Graph) (request : SettingsRequest) (debug debug' : Bool) :
    Agree (fun s t => t = { s with debug := debug' }) (checkedSettings g { request with debug := some debug })
      (checkedSettings g { request with debug := some debug' }) := by
  rw [checkedSettings_debug, checkedSettings_debug]
  exact Agree.map (.same rfl) (fun _ _ same => same ▸ rfl)

/-- Compilations that end with the same traversal and like drafts. -/
def EndAlike (a b : Compilation) : Prop :=
  ∃ program other d e, a.result = .ok program ∧ b.result = .ok other ∧ program.traversal = other.traversal ∧
    a.draft = some d ∧ b.draft = some e ∧ d.Alike e

theorem course_agree (uniform : r.Uniform) (g : Graph) (request : SettingsRequest)
    (debug debug' : Bool) :
    Agree EndAlike (course g r { request with debug := some debug }) (course g r { request with debug := some debug' }) := by
  refine Agree.bind ((checkedSettings_agree g request debug debug').charge _) ?_
  rintro s _ rfl
  refine Agree.bind (.same rfl) ?_
  rintro full _ rfl
  refine Agree.bind ((Symbols.ofGraph_agree (g.trim full) s.debug debug').charge _) (fun symbols symbols' alike => ?_)
  refine Agree.bind ((Draft.start_agree (g.trim full) full).charge _) (fun draft draft' begun => ?_)
  have start : Workspace.Alike ⟨symbols, draft⟩ ⟨symbols', draft'⟩ := ⟨alike, begun⟩
  refine Agree.bind ((Draft.resolvePortlets_together start).charge _) (fun _ _ alike => ?_)
  -- Messages need the symbol of `display`, which the dependencies bring and the partition keeps.
  refine Agree.bind (((Draft.collectDependencies_together uniform alike).with_ends
    (Draft.collectDependencies_displays _)).charge _) ?_
  rintro _ _ ⟨alike, displays⟩
  refine Agree.bind (((Draft.partitionDsp_together uniform alike).with_leaves
    (Draft.Step.keeps .partitionDsp _ _)).charge _) ?_
  rintro _ _ ⟨alike, keeps⟩
  refine Agree.bind ((Draft.synthesizeMessages_together uniform alike (keeps.displays displays)).charge _)
    (fun _ _ alike => ?_)
  refine Agree.bind ((Draft.finish_together uniform alike).charge _) ?_
  rintro _ _ ⟨_, alike⟩
  refine Agree.bind ((Draft.program_agree alike.symbols alike.draft).charge _) (fun _ _ _ => ?_)
  exact .ok ⟨_, _, _, _, rfl, rfl, rfl, rfl, rfl, alike.draft⟩

end Compilation

/-- The number of functions that a message of an outlet goes to, and whether they are called by one that has to be
    written. -/
def Draft.calls? (d : Draft) (id outlet : String) : Option (Nat × Bool) :=
  (d.nodes.get? id).bind (fun n => (n.senders.get? outlet).map (fun s => (s.callees.length, s.needsFunction)))

theorem Draft.Alike.calls?_eq {d e : Draft} (alike : d.Alike e) (id outlet : String) :
    d.calls? id outlet = e.calls? id outlet := by
  unfold Draft.calls?
  rcases alike.nodes.get? id with ⟨left, right⟩ | ⟨n, m, left, right, pair⟩
  · rw [left, right]
  · rw [left, right, Option.bind_some, Option.bind_some]
    rcases pair.senders.get? outlet with ⟨left, right⟩ | ⟨s, t, left, right, callees, needed⟩
    · rw [left, right]
    · rw [left, right, Option.map_some, Option.map_some, callees, needed]

/-- The draft that a compilation leaves. -/
def finalDraft? (g : Graph) (r : Registry) (request : SettingsRequest) : Option Draft :=
  (Compilation.run { graph := g, registry := r, request } .assemble).2.draft

/-- With and without the flag a compilation fails in the same pass with the same error, or it succeeds with the same
    traversal, groups, inlined nodes and calls. -/
theorem debug_changes_names_only {first : Nat} {text : String} {r : Registry} (read : Registry.read first text = .ok r)
    (g : Graph) (request : SettingsRequest) :
    Agree (fun loud quiet => loud.traversal = quiet.traversal ∧ ∃ d e,
        finalDraft? g r { request with debug := some true } = some d ∧
        finalDraft? g r { request with debug := some false } = some e ∧
        d.partition = e.partition ∧ d.inlinedIds = e.inlinedIds ∧ ∀ id outlet, d.calls? id outlet = e.calls? id outlet)
      (compile g r { request with debug := some true }) (compile g r { request with debug := some false }) := by
  have courses := Compilation.course_agree (Registry.uniform_of_read read) g request true false
  refine (courses.follow (Compilation.compile_course g r _) (Compilation.compile_course g r _)).mono ?_
  rintro loud quiet _ _ ⟨a, b, ⟨_, _, d, e, made, made', traversal, drafted, drafted', alike⟩, ⟨result, run⟩, result', run'⟩
  cases result.symm.trans made
  cases result'.symm.trans made'
  refine ⟨traversal, d, e, ?_, ?_, alike.partition, alike.inlinedIds_eq, alike.calls?_eq⟩
  · rw [finalDraft?, run, drafted]
  · rw [finalDraft?, run', drafted']

/-! A bang goes to two inlets of an oscillator, whose signal is halved inline on its way to the output. -/

def halvedText : String :=
  "\x7b\"nodes\":\x7b\"bang\":\x7b\x7d,\"osc~\":\x7b\"messageReceivers\":\x7b\"0\":\"\",\"1\":\"\"\x7d\x7d," ++
    "\"half~\":\x7b\"flags\":\x7b\"isLoopInline\":true\x7d,\"loop\":\"$\x7bins.0\x7d / 2\"\x7d,\"dac~\":\x7b\x7d\x7d\x7d"

def halvedPatch : Graph := [
  { (Node.bare "bang" "bang").withOutlet "0" .message with
    sinks := .ofList [("0", [⟨"osc", "0"⟩, ⟨"osc", "1"⟩])], isPushingMessages := true },
  { (((Node.bare "osc" "osc~").withInlet "0" .message).withInlet "1" .message).withOutlet "0" .signal with
    sources := .ofList [("0", [⟨"bang", "0"⟩]), ("1", [⟨"bang", "0"⟩])], sinks := .ofList [("0", [⟨"half", "0"⟩])] },
  { ((Node.bare "half" "half~").withInlet "0" .signal).withOutlet "0" .signal with
    sources := .ofList [("0", [⟨"osc", "0"⟩])], sinks := .ofList [("0", [⟨"dac", "0"⟩])] },
  { (Node.bare "dac" "dac~").withInlet "0" .signal with
    sources := .ofList [("0", [⟨"half", "0"⟩])], isPullingSignal := true }].foldl Graph.insert .empty

/-- With the flag the oscillator's variable has another name, but the same node is inlined and the bang has the same two
    callees. -/
theorem debug_changes_names_only_halved : ∃ r loud quiet d e, Registry.read 0 halvedText = .ok r ∧
    compile halvedPatch r { debug := some true } = .ok loud ∧ compile halvedPatch r { debug := some false } = .ok quiet ∧
    loud.symbols.at? (.portlet .outs "osc" "0") = some "osc_osc_OUTS_0" ∧
    quiet.symbols.at? (.portlet .outs "osc" "0") = some "osc_OUTS_0" ∧
    loud.traversal = quiet.traversal ∧ finalDraft? halvedPatch r { debug := some true } = some d ∧
    finalDraft? halvedPatch r { debug := some false } = some e ∧ d.partition = e.partition ∧
    d.inlinedIds = ["half"] ∧ e.inlinedIds = ["half"] ∧
    d.calls? "bang" "0" = some (2, true) ∧ e.calls? "bang" "0" = some (2, true) := by
  have shown : (Registry.read 0 halvedText).toOption.any (fun r =>
      (compile halvedPatch r { debug := some true }).toOption.bind (fun p => p.symbols.at? (.portlet .outs "osc" "0")) =
        some "osc_osc_OUTS_0" &&
      (compile halvedPatch r { debug := some false }).toOption.bind (fun p => p.symbols.at? (.portlet .outs "osc" "0")) =
        some "osc_OUTS_0" &&
      (finalDraft? halvedPatch r { debug := some true }).map (fun d => (d.inlinedIds, d.calls? "bang" "0")) =
        some (["half"], some (2, true))) = true := by
    decide +kernel
  cases read : Registry.read 0 halvedText with
  | error e =>
    rw [read] at shown
    cases shown
  | ok r =>
  rw [read] at shown
  obtain ⟨names, drawn⟩ := Bool.and_eq_true_iff.mp shown
  obtain ⟨name, name'⟩ := Bool.and_eq_true_iff.mp names
  replace name := of_decide_eq_true name
  replace name' := of_decide_eq_true name'
  replace drawn := of_decide_eq_true drawn
  have agree := debug_changes_names_only read halvedPatch {}
  cases compiled : compile halvedPatch r { debug := some true } with
  | error e =>
    rw [compiled] at name
    cases name
  | ok loud =>
  cases compiled' : compile halvedPatch r { debug := some false } with
  | error e =>
    rw [compiled'] at name'
    cases name'
  | ok quiet =>
  rw [compiled] at agree name
  rw [compiled'] at agree name'
  cases agree with
  | ok same =>
    obtain ⟨traversal, d, e, drafted, drafted', partition, inlined, calls⟩ := same
    rw [drafted] at drawn
    injection drawn with parts
    injection parts with own twice
    exact ⟨r, loud, quiet, d, e, rfl, compiled, compiled', name, name', traversal, drafted,
      drafted', partition, own, inlined ▸ own, twice, calls "bang" "0" ▸ twice⟩

end DspPatch
