import DspPatch.Draft.Build
import DspPatch.Proofs.Symbols
import Mathlib.Order.Defs.Unbundled

/-!
Outcomes of work on a draft. `Ends x w post fault` says what holds of the result and of the workspace that `x` leaves when
it is run from `w`, and what is known of the error if it fails. There is one rule for each step that passes are made of,
and a loop keeps an invariant that speaks of the items it has gone through. `Leaves rel x w` speaks of the workspace in
both cases: work that fails halfway has left it as `rel` says, too. `Decides x w p` says of work that only adds symbols
exactly when it succeeds.
-/
namespace DspPatch
namespace Build
variable {α β : Type}

/-- From `w` the work ends with a result and a workspace that satisfy `post`, or with an error that satisfies `fault`. -/
def Ends (x : Build α) (w : Workspace) (post : α → Workspace → Prop) (fault : CompileError → Prop) : Prop :=
  match x.run.run w with
  | (.ok a, after) => post a after
  | (.error e, _) => fault e

namespace Ends
variable {w : Workspace} {post : α → Workspace → Prop} {fault : CompileError → Prop}

theorem of_run {x : Build α} (ends : Ends x w post fault) {a : α} {after : Workspace}
    (result : x.run.run w = (.ok a, after)) : post a after := by
  rw [Ends, result] at ends
  exact ends

theorem of_run_error {x : Build α} (ends : Ends x w post fault) {e : CompileError} {after : Workspace}
    (result : x.run.run w = (.error e, after)) : fault e := by
  rw [Ends, result] at ends
  exact ends

theorem of_run_eq {x : Build α} {a : α} {after : Workspace} (result : x.run.run w = (.ok a, after))
    (holds : post a after) : Ends x w post fault := by
  rw [Ends, result]
  exact holds

/-- What a run comes to holds of it. -/
theorem self (x : Build α) (w : Workspace) :
    Ends x w (fun a after => x.run.run w = (.ok a, after)) (fun _ => True) := by
  unfold Ends
  split
  next result => exact result
  next => trivial

theorem mono {x : Build α} (ends : Ends x w post fault) {post' : α → Workspace → Prop} {fault' : CompileError → Prop}
    (weaker : ∀ a after, post a after → post' a after) (fewer : ∀ e, fault e → fault' e) : Ends x w post' fault' := by
  unfold Ends at ends ⊢
  split
  next a after result =>
    rw [result] at ends
    exact weaker a after ends
  next e after result =>
    rw [result] at ends
    exact fewer e ends

/-- What is known of a run may also speak of the run itself. -/
theorem with_run {x : Build α} (ends : Ends x w post fault) :
    Ends x w (fun a after => x.run.run w = (.ok a, after) ∧ post a after) fault := by
  unfold Ends at ends ⊢
  split
  next a after result =>
    rw [result] at ends
    exact ⟨result, ends⟩
  next e after result =>
    rw [result] at ends
    exact ends

theorem pure {a : α} (holds : post a w) : Ends (Pure.pure a) w post fault := holds

theorem bind {x : Build α} {f : α → Build β} {goal : β → Workspace → Prop} (first : Ends x w post fault)
    (rest : ∀ a between, post a between → Ends (f a) between goal fault) : Ends (x >>= f) w goal fault := by
  unfold Ends at first
  unfold Ends
  rw [ExceptT.run_bind, StateT.run_bind]
  rcases result : x.run.run w with ⟨e | a, between⟩
  · rw [result] at first
    exact first
  · rw [result] at first
    exact rest a between first

theorem lift {x : Except CompileError α} (outcome : Yields x (fun a => post a w) fault) :
    Ends (liftM x : Build α) w post fault := by
  cases x with
  | ok a => exact outcome
  | error e => exact outcome

theorem lift_bind {x : Except CompileError α} {f : α → Build β} {goal : β → Workspace → Prop}
    (outcome : Yields x (fun a => Ends (f a) w goal fault) fault) : Ends (liftM x >>= f) w goal fault := by
  cases x with
  | ok a => exact outcome
  | error e => exact outcome

theorem draft_bind {f : Draft → Build β} {goal : β → Workspace → Prop} (rest : Ends (f w.draft) w goal fault) :
    Ends (Build.draft >>= f) w goal fault := rest

theorem symbols_bind {f : Symbols → Build β} {goal : β → Workspace → Prop} (rest : Ends (f w.symbols) w goal fault) :
    Ends (Build.symbols >>= f) w goal fault := rest

theorem nodeIds_bind {f : List String → Build β} {goal : β → Workspace → Prop}
    (rest : Ends (f w.draft.nodes.keys) w goal fault) : Ends (Build.nodeIds >>= f) w goal fault := rest

theorem modifyDraft {post : Unit → Workspace → Prop} {f : Draft → Draft} (holds : post () { w with draft := f w.draft }) :
    Ends (Build.modifyDraft f) w post fault := holds

theorem modifyDraft_bind {change : Draft → Draft} {f : Unit → Build β} {goal : β → Workspace → Prop}
    (rest : Ends (f ()) { w with draft := change w.draft } goal fault) :
    Ends (Build.modifyDraft change >>= f) w goal fault := rest

theorem modifyNode {post : Unit → Workspace → Prop} {id : String} {f : NodeDraft → NodeDraft}
    (holds : post () { w with draft := w.draft.modifyNode id f }) : Ends (Build.modifyNode id f) w post fault := holds

theorem name {post : String → Workspace → Prop} {give : Symbols → Except CompileError (String × Symbols)}
    (given : Yields (give w.symbols) (fun named => post named.1 { w with symbols := named.2 }) fault) :
    Ends (Build.name give) w post fault := by
  refine symbols_bind (lift_bind ?_)
  exact given.mono (fun _ holds => holds) (fun _ bad => bad)

theorem name_bind {give : Symbols → Except CompileError (String × Symbols)} {f : String → Build β}
    {goal : β → Workspace → Prop}
    (given : Yields (give w.symbols) (fun named => Ends (f named.1) { w with symbols := named.2 } goal fault) fault) :
    Ends (Build.name give >>= f) w goal fault :=
  bind (name given) (fun _ _ rest => rest)

theorem discard {x : Build α} {post : Unit → Workspace → Prop} (ends : Ends x w (fun _ => post ()) fault) :
    Ends (Functor.discard x) w post fault := by
  refine bind ends (fun _ _ holds => holds)

theorem forM {f : α → Build Unit} {items : List α} (inv : List α → Workspace → Prop) (start : inv [] w)
    (step : ∀ done a rest w, items = done ++ a :: rest → inv done w → Ends (f a) w (fun _ => inv (done ++ [a])) fault) :
    Ends (items.forM f) w (fun _ => inv items) fault := by
  suffices general : ∀ (rest done : List α) (w : Workspace), items = done ++ rest → inv done w →
      Ends (rest.forM f) w (fun _ => inv items) fault from general items [] w rfl start
  intro rest
  induction rest with
  | nil =>
    intro done w split holds
    rw [List.append_nil] at split
    exact split ▸ holds
  | cons a rest ih =>
    intro done w split holds
    rw [List.forM_eq_forM, List.forM_cons]
    refine bind (step done a rest w split holds) (fun _ between holdsNext => ?_)
    exact ih (done ++ [a]) between (by rw [split, List.append_assoc, List.singleton_append]) holdsNext

theorem mapM {f : α → Build β} {items : List α} (inv : List α → List β → Workspace → Prop) (start : inv [] [] w)
    (step : ∀ done a rest results w, items = done ++ a :: rest → inv done results w →
      Ends (f a) w (fun b => inv (done ++ [a]) (results ++ [b])) fault) :
    Ends (items.mapM f) w (fun results => inv items results) fault := by
  suffices general : ∀ (rest done : List α) (results : List β) (w : Workspace), items = done ++ rest →
      inv done results w → Ends (rest.mapM f) w (fun more => inv items (results ++ more)) fault from
    general items [] [] w rfl start
  intro rest
  induction rest with
  | nil =>
    intro done results w split holds
    rw [List.append_nil] at split
    rw [List.mapM_nil]
    refine pure ?_
    rw [List.append_nil]
    exact split ▸ holds
  | cons a rest ih =>
    intro done results w split holds
    rw [List.mapM_cons]
    refine bind (step done a rest results w split holds) (fun b between holdsNext => ?_)
    refine bind (ih (done ++ [a]) (results ++ [b]) between (by rw [split, List.append_assoc, List.singleton_append])
      holdsNext) (fun more after holdsAfter => ?_)
    refine pure ?_
    rwa [List.append_assoc, List.singleton_append] at holdsAfter

end Ends

/-- A run that succeeds, with the workspace it leaves. -/
theorem run_eq_of_ok {x : Build Unit} {w : Workspace} (succeeds : (x.run.run w).1 = .ok ()) :
    x.run.run w = (.ok (), (x.run.run w).2) :=
  Prod.ext succeeds rfl

end Build

theorem Draft.expectStage_eq_ok_iff {d : Draft} {stage : Stage} :
    d.expectStage stage = .ok () ↔ ∀ n ∈ d.nodes.values, n.stage = stage := by
  simp only [Draft.expectStage, forM_eq_ok_iff, Table.values, List.forall_mem_map]
  refine forall₂_congr fun entry _ => ?_
  by_cases reached : entry.2.stage = stage <;> simp [reached]

/-- A pass begins if all nodes are at its stage, and puts them at the next one. -/
theorem Build.Ends.pass {w : Workspace} {expected next : Stage} {work : Build Unit} {post : Unit → Workspace → Prop}
    {fault : CompileError → Prop} (staged : ∀ n ∈ w.draft.nodes.values, n.stage = expected)
    (ends : Build.Ends work w (fun _ after => post () { after with draft := after.draft.atStage next }) fault) :
    Build.Ends (Build.pass expected next work) w post fault := by
  refine draft_bind (lift_bind ?_)
  rw [Draft.expectStage_eq_ok_iff.mpr staged]
  exact bind ends (fun _ _ holds => holds)

namespace Draft

/-- The nodes in `ids` are changed as `rel` says, and no others. -/
structure NodesChanged (ids : List String) (rel : String → NodeDraft → NodeDraft → Prop) (before after : Draft) :
    Prop where
  keys : after.nodes.keys = before.nodes.keys
  same : ∀ id, id ∉ ids → after.nodes.get? id = before.nodes.get? id
  changed : ∀ id ∈ ids, ∀ n, before.nodes.get? id = some n → ∃ m, after.nodes.get? id = some m ∧ rel id n m

/-- Nothing but nodes is changed. -/
def OnlyNodes (before after : Draft) : Prop := after = { before with nodes := after.nodes }

variable {rel : String → NodeDraft → NodeDraft → Prop} {a b c : Draft}

theorem OnlyNodes.refl (a : Draft) : OnlyNodes a a := rfl

theorem OnlyNodes.trans (first : OnlyNodes a b) (second : OnlyNodes b c) : OnlyNodes a c := by
  unfold OnlyNodes at first second ⊢
  rw [second, first]

theorem NodesChanged.none (a : Draft) : NodesChanged [] rel a a :=
  ⟨rfl, fun _ _ => rfl, List.forall_mem_nil _⟩

theorem NodesChanged.mono {ids : List String} {rel' : String → NodeDraft → NodeDraft → Prop}
    (changed : NodesChanged ids rel a b) (weaker : ∀ id ∈ ids, ∀ n m, rel id n m → rel' id n m) :
    NodesChanged ids rel' a b := by
  refine ⟨changed.keys, changed.same, fun id member n found => ?_⟩
  obtain ⟨m, mFound, related⟩ := changed.changed id member n found
  exact ⟨m, mFound, weaker id member n m related⟩

theorem NodesChanged.modifyNode (d : Draft) (id : String) (f : NodeDraft → NodeDraft) :
    NodesChanged [id] (fun _ n m => m = f n) d (d.modifyNode id f) := by
  refine ⟨Table.keys_modify _ _ _, fun other outside => ?_, fun other member n found => ?_⟩
  · rw [Draft.modifyNode, Table.get?_modify, if_neg (by simpa using outside)]
  · rw [List.mem_singleton.mp member] at found ⊢
    exact ⟨f n, by rw [Draft.modifyNode, Table.get?_modify, if_pos rfl, found]; rfl, rfl⟩

/-- A node that is changed twice is related by both changes. -/
theorem NodesChanged.twice {id : String} {rel₁ rel₂ rel₃ : String → NodeDraft → NodeDraft → Prop}
    (first : NodesChanged [id] rel₁ a b) (second : NodesChanged [id] rel₂ b c)
    (joined : ∀ x y z, rel₁ id x y → rel₂ id y z → rel₃ id x z) : NodesChanged [id] rel₃ a c := by
  refine ⟨second.keys.trans first.keys, fun other outside => (second.same other outside).trans (first.same other outside),
    fun other member n found => ?_⟩
  obtain ⟨m, mFound, nm⟩ := first.changed other member n found
  obtain ⟨k, kFound, mk⟩ := second.changed other member m mFound
  rw [List.mem_singleton.mp member] at kFound nm mk ⊢
  exact ⟨k, kFound, joined n m k nm mk⟩

/-- Changes of different nodes add up. -/
theorem NodesChanged.add {ids : List String} {id : String} (first : NodesChanged ids rel a b)
    (second : NodesChanged [id] rel b c) (fresh : id ∉ ids) : NodesChanged (ids ++ [id]) rel a c := by
  refine ⟨second.keys.trans first.keys, fun other outside => ?_, fun other member n found => ?_⟩
  · rw [List.mem_append, not_or] at outside
    exact (second.same other outside.2).trans (first.same other outside.1)
  · by_cases last : other ∈ [id]
    · have unchanged := first.same other (List.mem_singleton.mp last ▸ fresh)
      exact second.changed other last n (unchanged.trans found)
    · have earlier := (List.mem_append.mp member).resolve_right last
      obtain ⟨m, mFound, related⟩ := first.changed other earlier n found
      exact ⟨m, (second.same other last).trans mFound, related⟩

end Draft

/-- A loop that changes each node of a list by its own step. How a node is changed may rest on symbols that are given by
    then. -/
theorem Build.Ends.eachNode {w : Workspace} {f : String → Build Unit} {ids : List String} {fault : CompileError → Prop}
    (nodup : ids.Nodup) (rel : Symbols → String → NodeDraft → NodeDraft → Prop)
    (lasts : ∀ {s t id a b}, s.Grows t → rel s id a b → rel t id a b) (inv : List String → Workspace → Prop)
    (start : inv [] w)
    (step : ∀ done id rest now, ids = done ++ id :: rest → inv done now → w.symbols.Grows now.symbols →
      now.draft.nodes.get? id = w.draft.nodes.get? id → now.draft.nodes.keys = w.draft.nodes.keys →
      Build.Ends (f id) now (fun _ after => now.symbols.Grows after.symbols ∧ inv (done ++ [id]) after ∧
        Draft.NodesChanged [id] (rel after.symbols) now.draft after.draft) fault) :
    Build.Ends (ids.forM f) w (fun _ after => w.symbols.Grows after.symbols ∧ inv ids after ∧
      Draft.NodesChanged ids (rel after.symbols) w.draft after.draft) fault := by
  refine forM (fun done now => w.symbols.Grows now.symbols ∧ inv done now ∧
    Draft.NodesChanged done (rel now.symbols) w.draft now.draft) ⟨.refl _, start, .none _⟩ ?_
  rintro done id rest now split ⟨grows, holds, changed⟩
  have fresh : id ∉ done := by
    rw [split, List.nodup_append] at nodup
    exact fun member => nodup.2.2 id member id List.mem_cons_self rfl
  refine (step done id rest now split holds grows (changed.same id fresh) changed.keys).mono ?_ (fun _ bad => bad)
  rintro _ after ⟨growsNext, holdsNext, changedNext⟩
  exact ⟨grows.trans growsNext, holdsNext, (changed.mono (fun _ _ _ _ => lasts growsNext)).add changedNext fresh⟩

namespace Build
variable {α β : Type} {w : Workspace} {fault : CompileError → Prop}

/-- Names that are given one after the other are all there afterwards. -/
theorem nameEach_ends {items : List α} {give : α → Symbols → Except CompileError (String × Symbols)}
    (slotOf : α → SymbolSlot)
    (each : ∀ a ∈ items, ∀ s, w.symbols.Grows s →
      Yields (give a s) (fun named => s.Assigns (slotOf a) named.1 named.2) fault) :
    Ends (items.forM (fun a => discard (Build.name (give a)))) w
      (fun _ after => after.draft = w.draft ∧ w.symbols.Grows after.symbols ∧
        ∀ a ∈ items, after.symbols.at? (slotOf a) ≠ none) fault := by
  refine Ends.forM (fun done now => now.draft = w.draft ∧ w.symbols.Grows now.symbols ∧
    ∀ a ∈ done, now.symbols.at? (slotOf a) ≠ none) ⟨rfl, .refl _, List.forall_mem_nil _⟩ ?_
  rintro done a rest now split ⟨unchanged, grows, named⟩
  refine Ends.discard (Ends.name ((each a (by simp [split]) now.symbols grows).mono ?_ (fun _ bad => bad)))
  rintro ⟨symbol, s⟩ assigns
  refine ⟨unchanged, grows.trans assigns.grows, fun b member => ?_⟩
  rcases List.mem_append.mp member with earlier | last
  · exact assigns.grows.present (named b earlier)
  · rw [List.mem_singleton.mp last, assigns.at?_eq]
    exact Option.some_ne_none symbol

/-- A table of a node draft that is read by `get` and replaced by `set`. -/
structure Field (get : NodeDraft → Table β) (set : Table β → NodeDraft → NodeDraft) : Prop where
  get_set : ∀ table n, get (set table n) = table
  set_set : ∀ table old n, set table (set old n) = set table n
  set_get : ∀ n, set (get n) n = n

/-- Values for some items were put into a table. -/
def Filled (get : NodeDraft → Table β) (set : Table β → NodeDraft → NodeDraft) (key : α → String) (items : List α)
    (good : String → β → Prop) (before after : NodeDraft) : Prop :=
  ∃ table, after = set table before ∧ (∀ a ∈ items, ∃ b, table.get? (key a) = some b ∧ good (key a) b) ∧
    ((items.map key).Nodup → get before = ∅ → table.keys = items.map key)

/-- A loop that fills a table of one node. What is `good` about a value may rest on symbols that are given by then. -/
theorem fillEach_ends {items : List α} {body : α → Build Unit} {get : NodeDraft → Table β}
    {set : Table β → NodeDraft → NodeDraft} (field : Field get set) (key : α → String) (id : String)
    (good : Symbols → String → β → Prop) (lasts : ∀ {s t k b}, s.Grows t → good s k b → good t k b)
    (inv : List α → Symbols → Prop) (start : inv [] w.symbols)
    (each : ∀ done a rest now, items = done ++ a :: rest → inv done now.symbols → w.symbols.Grows now.symbols →
      w.draft.OnlyNodes now.draft → Draft.NodesChanged [id] (fun _ n m => ∃ table, m = set table n) w.draft now.draft →
      Ends (body a) now (fun _ after => now.symbols.Grows after.symbols ∧ inv (done ++ [a]) after.symbols ∧
        ∃ b, good after.symbols (key a) b ∧ after.draft = now.draft.modifyNode id (fun n => set ((get n).insert (key a) b) n)) fault) :
    Ends (items.forM body) w
      (fun _ after => w.symbols.Grows after.symbols ∧ w.draft.OnlyNodes after.draft ∧ inv items after.symbols ∧
        Draft.NodesChanged [id] (fun _ => Filled get set key items (good after.symbols)) w.draft after.draft) fault := by
  refine Ends.forM (fun done now => w.symbols.Grows now.symbols ∧ w.draft.OnlyNodes now.draft ∧ inv done now.symbols ∧
    Draft.NodesChanged [id] (fun _ => Filled get set key done (good now.symbols)) w.draft now.draft) ?_ ?_
  · refine ⟨.refl _, .refl _, start, rfl, fun _ _ => rfl, fun other _ n stored => ⟨n, stored, get n, ?_, ?_, ?_⟩⟩
    · exact (field.set_get n).symm
    · exact List.forall_mem_nil _
    · exact fun _ empty => by rw [empty]; rfl
  rintro done a rest now split ⟨grows, only, holds, changed⟩
  have shape : Draft.NodesChanged [id] (fun _ n m => ∃ table, m = set table n) w.draft now.draft := by
    refine ⟨changed.keys, changed.same, fun other member n stored => ?_⟩
    obtain ⟨m, mStored, table, same, _⟩ := changed.changed other member n stored
    exact ⟨m, mStored, table, same⟩
  refine (each done a rest now split holds grows only shape).mono ?_ (fun _ bad => bad)
  rintro _ after ⟨growsNext, holdsNext, b, isGood, written⟩
  rw [written]
  refine ⟨grows.trans growsNext, only.trans rfl, holdsNext, changed.twice (.modifyNode _ id _) ?_⟩
  rintro x y z ⟨table, rfl, values, keys⟩ rfl
  refine ⟨table.insert (key a) b, by rw [field.get_set, field.set_set], fun c member => ?_, fun distinct empty => ?_⟩
  · by_cases same : key c = key a
    · rw [same]
      exact ⟨b, Table.get?_insert_self _ _ _, isGood⟩
    · have earlier : c ∈ done := (List.mem_append.mp member).resolve_right
        (fun last => same (List.mem_singleton.mp last ▸ rfl))
      obtain ⟨value, stored, valueGood⟩ := values c earlier
      exact ⟨value, by rw [Table.get?_insert_of_ne _ _ same, stored], lasts growsNext valueGood⟩
  · rw [List.map_append, List.nodup_append] at distinct
    have fresh : key a ∉ done.map key := fun member => distinct.2.2 _ member _ (by simp) rfl
    rw [Table.keys_insert_of_not_mem b (keys distinct.1 empty ▸ fresh), keys distinct.1 empty, List.map_append]
    rfl

/-- The same for values that are read off the symbols. -/
theorem readEach_ends {items : List α} {read : Symbols → String → Except CompileError β} {get : NodeDraft → Table β}
    {set : Table β → NodeDraft → NodeDraft} (field : Field get set) (key : α → String) (id : String)
    (each : ∀ a ∈ items, Yields (read w.symbols (key a)) (fun _ => True) fault) :
    Ends (items.forM (fun a => do
      let b ← read (← Build.symbols) (key a)
      Build.modifyNode id (fun n => set ((get n).insert (key a) b) n))) w
      (fun _ after => after.symbols = w.symbols ∧ w.draft.OnlyNodes after.draft ∧
        Draft.NodesChanged [id] (fun _ => Filled get set key items (fun k b => read w.symbols k = .ok b)) w.draft
          after.draft) fault := by
  refine (fillEach_ends field key id (fun _ k b => read w.symbols k = .ok b) (fun _ isGood => isGood)
    (fun _ s => s = w.symbols) rfl ?_).mono ?_ (fun _ bad => bad)
  · intro done a rest now split same _ _ _
    refine Ends.symbols_bind (Ends.lift_bind ?_)
    have outcome := each a (by simp [split])
    rw [← same] at outcome
    cases result : read now.symbols (key a) with
    | ok b => exact ⟨.refl _, same, b, same ▸ result, rfl⟩
    | error e => exact outcome.of_eq_error result
  · rintro _ after ⟨_, only, same, changed⟩
    exact ⟨same, only, changed⟩

/-- From `w` the work succeeds exactly if `p` holds, and then symbols were only added. -/
def Decides (x : Build Unit) (w : Workspace) (p : Prop) : Prop :=
  Ends x w (fun _ after => w.symbols.Grows after.symbols ∧ p) (fun _ => ¬p)

namespace Decides
variable {p q : Prop}

theorem run_ok_iff {x : Build Unit} (decides : Decides x w p) : (x.run.run w).1 = .ok () ↔ p := by
  rcases result : x.run.run w with ⟨e | a, after⟩
  · exact iff_of_false nofun (Ends.of_run_error decides result)
  · exact iff_of_true rfl (Ends.of_run decides result).2

theorem congr {x : Build Unit} (decides : Decides x w p) (same : p ↔ q) : Decides x w q :=
  propext same ▸ decides

/-- Work that goes on with what is known of its beginning. -/
theorem bind_ends {x : Build Unit} {f : Unit → Build Unit} {post : Unit → Workspace → Prop} (first : Decides x w p)
    (known : Ends x w post (fun _ => True))
    (rest : ∀ between, w.symbols.Grows between.symbols → post () between → Decides (f ()) between q) :
    Decides (x >>= f) w (p ∧ q) := by
  have both : Ends x w (fun _ between => w.symbols.Grows between.symbols ∧ p ∧ post () between) (fun _ => ¬(p ∧ q)) := by
    refine first.with_run.mono (fun _ between ended => ?_) (fun _ fails holds => fails holds.1)
    exact ⟨ended.2.1, ended.2.2, known.of_run ended.1⟩
  refine Ends.bind both (fun _ between ended => ?_)
  obtain ⟨grows, holds, post⟩ := ended
  refine (rest between grows post).mono (fun _ after later => ?_) (fun _ fails holds => fails holds.2)
  exact ⟨grows.trans later.1, holds, later.2⟩

theorem bind {x : Build Unit} {f : Unit → Build Unit} (first : Decides x w p)
    (rest : ∀ between, w.symbols.Grows between.symbols → Decides (f ()) between q) : Decides (x >>= f) w (p ∧ q) :=
  bind_ends first (Ends.self x w) (fun between grows _ => rest between grows)

theorem name {give : Symbols → Except CompileError (String × Symbols)}
    (given : Yields (give w.symbols) (fun named => w.symbols.Grows named.2 ∧ p) (fun _ => ¬p)) :
    Decides (discard (Build.name give)) w p :=
  Ends.discard (Ends.name given)

/-- A loop over items succeeds exactly if its body succeeds for each of them. -/
theorem forM {f : α → Build Unit} {items : List α} (holds : α → Prop)
    (each : ∀ a ∈ items, ∀ now, w.symbols.Grows now.symbols → Decides (f a) now (holds a)) :
    Decides (items.forM f) w (∀ a ∈ items, holds a) := by
  refine Ends.forM (fun done now => w.symbols.Grows now.symbols ∧ ∀ a ∈ done, holds a)
    ⟨.refl _, List.forall_mem_nil _⟩ ?_
  rintro done a rest now split ⟨grows, earlier⟩
  have member : a ∈ items := split ▸ List.mem_append_right done List.mem_cons_self
  refine (each a member now grows).mono (fun _ after later => ?_) (fun _ fails all => fails (all a member))
  refine ⟨grows.trans later.1, fun b inside => ?_⟩
  rcases List.mem_append.mp inside with before | last
  · exact earlier b before
  · exact List.mem_singleton.mp last ▸ later.2

theorem pass {expected next : Stage} {work : Build Unit} (staged : ∀ n ∈ w.draft.nodes.values, n.stage = expected)
    (decides : Decides work w p) : Decides (Build.pass expected next work) w p :=
  Ends.pass staged (decides.mono (fun _ _ ended => ended) (fun _ fails => fails))

end Decides

/-- From `w` the work leaves a workspace that `rel` relates to it, whether it succeeds or fails. -/
def Leaves (rel : Workspace → Workspace → Prop) (x : Build α) (w : Workspace) : Prop := rel w (x.run.run w).2

namespace Leaves
variable {rel : Workspace → Workspace → Prop}

theorem ends {x : Build α} (leaves : Leaves rel x w) : Ends x w (fun _ after => rel w after) (fun _ => True) :=
  (Ends.self x w).mono (fun _ _ result => by rwa [Leaves, result] at leaves) (fun _ _ => trivial)

theorem draft_bind {f : Draft → Build β} (rest : Leaves rel (f w.draft) w) : Leaves rel (Build.draft >>= f) w := rest

theorem symbols_bind {f : Symbols → Build β} (rest : Leaves rel (f w.symbols) w) :
    Leaves rel (Build.symbols >>= f) w := rest

theorem nodeIds_bind {f : List String → Build β} (rest : Leaves rel (f w.draft.nodes.keys) w) :
    Leaves rel (Build.nodeIds >>= f) w := rest

theorem modifyDraft {f : Draft → Draft} (holds : rel w { w with draft := f w.draft }) :
    Leaves rel (Build.modifyDraft f) w := holds

variable [IsPreorder Workspace rel]

theorem pure (a : α) : Leaves rel (Pure.pure a) w := Std.Refl.refl w

/-- Work that goes on with what is known of its beginning. -/
theorem bind_ends {x : Build α} {f : α → Build β} {post : α → Workspace → Prop} (first : Leaves rel x w)
    (known : Ends x w post (fun _ => True)) (rest : ∀ a between, post a between → Leaves rel (f a) between) :
    Leaves rel (x >>= f) w := by
  unfold Leaves at first ⊢
  rw [ExceptT.run_bind, StateT.run_bind]
  rcases result : x.run.run w with ⟨e | a, between⟩
  · rw [result] at first
    exact first
  · rw [result] at first
    exact IsTrans.trans w between _ first (rest a between (known.of_run result))

theorem bind {x : Build α} {f : α → Build β} (first : Leaves rel x w) (rest : ∀ a between, Leaves rel (f a) between) :
    Leaves rel (x >>= f) w :=
  bind_ends first (Ends.self x w) (fun a between _ => rest a between)

theorem lift (x : Except CompileError α) : Leaves rel (liftM x : Build α) w := by
  cases x with
  | ok a => exact Std.Refl.refl w
  | error e => exact Std.Refl.refl w

theorem lift_bind {x : Except CompileError α} {f : α → Build β} (rest : ∀ a, x = .ok a → Leaves rel (f a) w) :
    Leaves rel (liftM x >>= f) w := by
  cases x with
  | ok a => exact rest a rfl
  | error e => exact Std.Refl.refl w

theorem name {give : Symbols → Except CompileError (String × Symbols)}
    (given : ∀ named, give w.symbols = .ok named → rel w { w with symbols := named.2 }) :
    Leaves rel (Build.name give) w :=
  symbols_bind (lift_bind given)

theorem discard {x : Build α} (leaves : Leaves rel x w) : Leaves rel (Functor.discard x) w :=
  bind leaves (fun _ _ => pure ())

theorem forM {f : α → Build Unit} {items : List α} (each : ∀ a ∈ items, ∀ w, Leaves rel (f a) w) :
    Leaves rel (items.forM f) w := by
  induction items generalizing w with
  | nil => exact pure ()
  | cons a rest ih =>
    rw [List.forM_eq_forM, List.forM_cons]
    refine bind (each a List.mem_cons_self w) (fun _ _ => ih ?_)
    exact fun b member => each b (List.mem_cons_of_mem a member)

theorem mapM {f : α → Build β} {items : List α} (each : ∀ a ∈ items, ∀ w, Leaves rel (f a) w) :
    Leaves rel (items.mapM f) w := by
  induction items generalizing w with
  | nil => exact pure []
  | cons a rest ih =>
    rw [List.mapM_cons]
    refine bind (each a List.mem_cons_self w) (fun _ _ => bind (ih ?_) (fun _ _ => pure _))
    exact fun b member => each b (List.mem_cons_of_mem a member)

end Leaves

end Build
end DspPatch
