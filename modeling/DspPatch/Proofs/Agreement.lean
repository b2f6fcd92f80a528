import DspPatch.Proofs.Build

/-!
Two runs side by side. `Agree rel x y` says that two computations fail with the same error or succeed with results that
`rel` relates; `Build.Together` says the same of work on two workspaces, with a relation that also speaks of the
workspaces that are left. There is one rule for each step that passes are made of. Tables are `Related` if they have the
same keys in the same order and related values.
-/
namespace DspPatch
variable {ε α β γ δ : Type}

/-- Both fail with the same error, or both succeed with related results. -/
inductive Agree (rel : α → β → Prop) : Except ε α → Except ε β → Prop where
  | error (e : ε) : Agree rel (.error e) (.error e)
  | ok {a : α} {b : β} (related : rel a b) : Agree rel (.ok a) (.ok b)

namespace Agree
variable {rel : α → β → Prop} {goal : γ → δ → Prop} {x : Except ε α} {y : Except ε β}

/-- One computation agrees with itself, and what is known of its result is known of both. -/
theorem of_yields {x : Except ε α} {post : α → Prop} {fault : ε → Prop} (outcome : Yields x post fault) :
    Agree (fun a b => a = b ∧ post a) x x := by
  cases x with
  | error e => exact .error e
  | ok a => exact .ok ⟨rfl, outcome⟩

theorem same {x y : Except ε α} (equal : x = y) : Agree Eq x y := by
  rw [equal]
  cases y with
  | error e => exact .error e
  | ok a => exact .ok rfl

theorem mono {rel' : α → β → Prop} (agree : Agree rel x y) (weaker : ∀ a b, x = .ok a → y = .ok b → rel a b → rel' a b) :
    Agree rel' x y := by
  cases agree with
  | error e => exact .error e
  | ok related => exact .ok (weaker _ _ rfl rfl related)

theorem bind {f : α → Except ε γ} {g : β → Except ε δ} (first : Agree rel x y)
    (rest : ∀ a b, rel a b → Agree goal (f a) (g b)) : Agree goal (x >>= f) (y >>= g) := by
  cases first with
  | error e => exact .error e
  | ok related => exact rest _ _ related

theorem map {f : α → γ} {g : β → δ} (agree : Agree rel x y) (step : ∀ a b, rel a b → goal (f a) (g b)) :
    Agree goal (x.map f) (y.map g) := by
  cases agree with
  | error e => exact .error e
  | ok related => exact .ok (step _ _ related)

/-- Computations that follow others which agree, and fail where these fail, agree too. -/
theorem follow {x' : Except ε γ} {y' : Except ε δ} {left : α → γ → Prop} {right : β → δ → Prop} (agree : Agree rel x y)
    (first : Yields x' (fun c => ∃ a, x = .ok a ∧ left a c) (fun e => x = .error e))
    (second : Yields y' (fun d => ∃ b, y = .ok b ∧ right b d) (fun e => y = .error e)) :
    Agree (fun c d => ∃ a b, rel a b ∧ left a c ∧ right b d) x' y' := by
  cases x' with
  | error e =>
    have failed : x = .error e := first
    cases y' with
    | error e' =>
      have failed' : y = .error e' := second
      rw [failed, failed'] at agree
      cases agree
      exact .error _
    | ok d =>
      obtain ⟨b, done, _⟩ := second
      rw [failed, done] at agree
      cases agree
  | ok c =>
    obtain ⟨a, done, holds⟩ := first
    cases y' with
    | error e =>
      have failed : y = .error e := second
      rw [done, failed] at agree
      cases agree
    | ok d =>
      obtain ⟨b, done', holds'⟩ := second
      rw [done, done'] at agree
      cases agree with
      | ok related => exact .ok ⟨a, b, related, holds, holds'⟩

/-- The results of one list of items agree item by item. -/
theorem mapM (goal : γ → δ → Prop) {f : α → Except ε γ} {g : α → Except ε δ} {items : List α}
    (each : ∀ a ∈ items, Agree goal (f a) (g a)) :
    Agree (List.Forall₂ goal) (items.mapM f) (items.mapM g) := by
  induction items with
  | nil => exact .ok .nil
  | cons a rest ih =>
    rw [List.forall_mem_cons] at each
    rw [List.mapM_cons, List.mapM_cons]
    exact bind each.1 (fun _ _ first => bind (ih each.2) (fun _ _ later => .ok (.cons first later)))

end Agree

namespace Table

/-- The same keys in the same order, and related values. -/
def Related (rel : α → β → Prop) (t : Table α) (u : Table β) : Prop :=
  List.Forall₂ (fun a b => a.1 = b.1 ∧ rel a.2 b.2) t.entries u.entries

namespace Related
variable {rel : α → β → Prop} {t : Table α} {u : Table β}

theorem empty : Related rel ∅ ∅ := .nil

theorem keys_eq (related : t.Related rel u) : t.keys = u.keys :=
  map_eq_map_of_forall₂ _ _ (List.Forall₂.imp (fun _ _ entry => entry.1) related)

theorem values (related : t.Related rel u) : List.Forall₂ rel t.values u.values :=
  List.forall₂_map_left_iff.mpr (List.forall₂_map_right_iff.mpr (List.Forall₂.imp (fun _ _ entry => entry.2) related))

/-- Under a key both tables have nothing, or related values. -/
theorem get? (related : t.Related rel u) (key : String) : (t.get? key = none ∧ u.get? key = none) ∨
    ∃ a b, t.get? key = some a ∧ u.get? key = some b ∧ rel a b := by
  obtain ⟨entries, nodup⟩ := t
  obtain ⟨others, otherNodup⟩ := u
  show (entries.lookup key = none ∧ others.lookup key = none) ∨ ∃ a b, entries.lookup key = some a ∧
    others.lookup key = some b ∧ rel a b
  have pairs : List.Forall₂ (fun a b => a.1 = b.1 ∧ rel a.2 b.2) entries others := related
  clear related nodup otherNodup
  induction pairs with
  | nil => exact .inl ⟨rfl, rfl⟩
  | @cons a b _ _ first _ ih =>
    obtain ⟨k, x⟩ := a
    obtain ⟨l, y⟩ := b
    obtain ⟨rfl, values⟩ := first
    rw [List.lookup_cons, List.lookup_cons]
    cases key == k with
    | true => exact .inr ⟨x, y, rfl, rfl, values⟩
    | false => exact ih

theorem contains_eq (related : t.Related rel u) (key : String) : t.contains key = u.contains key := by
  unfold contains
  rcases related.get? key with ⟨left, right⟩ | ⟨a, b, left, right, _⟩
  · rw [left, right]
    rfl
  · rw [left, right]
    rfl

theorem isEmpty_eq (related : t.Related rel u) : t.isEmpty = u.isEmpty := by
  have size : t.entries.length = u.entries.length := List.Forall₂.length_eq related
  rw [isEmpty, isEmpty, Bool.eq_iff_iff, List.isEmpty_iff_length_eq_zero, List.isEmpty_iff_length_eq_zero, size]

theorem insert (related : t.Related rel u) (key : String) {a : α} {b : β} (values : rel a b) :
    (t.insert key a).Related rel (u.insert key b) := by
  obtain ⟨entries, nodup⟩ := t
  obtain ⟨others, otherNodup⟩ := u
  show List.Forall₂ _ (putEntry key a entries) (putEntry key b others)
  have pairs : List.Forall₂ (fun a b => a.1 = b.1 ∧ rel a.2 b.2) entries others := related
  clear related nodup otherNodup
  induction pairs with
  | nil => exact .cons ⟨rfl, values⟩ .nil
  | @cons x y _ _ first rest ih =>
    rw [putEntry, putEntry, ← first.1]
    split
    · exact .cons ⟨rfl, values⟩ rest
    · exact .cons ⟨rfl, first.2⟩ ih

theorem modify (related : t.Related rel u) (key : String) {f : α → α} {g : β → β}
    (changes : ∀ a b, rel a b → rel (f a) (g b)) : (t.modify key f).Related rel (u.modify key g) := by
  refine List.forall₂_map_left_iff.mpr (List.forall₂_map_right_iff.mpr
    (List.Forall₂.imp (fun a b entry => ⟨entry.1, ?_⟩) related))
  rw [entry.1]
  split
  · exact changes a.2 b.2 entry.2
  · exact entry.2

theorem map {rel' : γ → δ → Prop} {f : α → γ} {g : β → δ} (related : t.Related rel u)
    (changes : ∀ a b, rel a b → rel' (f a) (g b)) : (t.map f).Related rel' (u.map g) :=
  List.forall₂_map_left_iff.mpr (List.forall₂_map_right_iff.mpr
    (List.Forall₂.imp (fun a b entry => ⟨entry.1, changes a.2 b.2 entry.2⟩) related))

theorem ofList {xs : List (String × α)} {ys : List (String × β)}
    (pairs : List.Forall₂ (fun a b => a.1 = b.1 ∧ rel a.2 b.2) xs ys) : (Table.ofList xs).Related rel (Table.ofList ys) := by
  suffices general : ∀ (t : Table α) (u : Table β), t.Related rel u →
      Related rel (xs.foldl (fun t entry => t.insert entry.1 entry.2) t)
        (ys.foldl (fun t entry => t.insert entry.1 entry.2) u) from general .empty .empty .nil
  induction pairs with
  | nil => exact fun _ _ related => related
  | @cons x y _ _ first _ ih =>
    intro t u related
    have inserted := related.insert x.1 first.2
    exact ih (t.insert x.1 x.2) (u.insert y.1 y.2) (first.1 ▸ inserted)

end Related
end Table

namespace Build
variable {w v : Workspace}

/-- The result of work that succeeds, with the workspace it leaves. -/
def outcome (x : Build α) (w : Workspace) : Except CompileError (α × Workspace) :=
  match x.run.run w with
  | (.ok a, after) => .ok (a, after)
  | (.error e, _) => .error e

theorem outcome_bind (x : Build α) (f : α → Build β) (w : Workspace) :
    outcome (x >>= f) w = outcome x w >>= fun (a, after) => outcome (f a) after := by
  unfold outcome
  rw [ExceptT.run_bind, StateT.run_bind]
  rcases x.run.run w with ⟨e | a, after⟩
  · rfl
  · rfl

theorem outcome_eq_ok_iff {x : Build α} {a : α} {after : Workspace} :
    outcome x w = .ok (a, after) ↔ x.run.run w = (.ok a, after) := by
  unfold outcome
  rcases x.run.run w with ⟨e | b, last⟩
  · constructor <;> intro same <;> cases same
  · constructor <;> intro same <;> cases same <;> rfl

theorem ends_of_outcome {x : Build α} {post : α → Workspace → Prop} {fault : CompileError → Prop}
    (known : Yields (outcome x w) (fun a => post a.1 a.2) fault) : Ends x w post fault := by
  unfold Ends
  unfold outcome at known
  rcases result : x.run.run w with ⟨e | a, after⟩
  · rw [result] at known
    exact known
  · rw [result] at known
    exact known

/-- Both works fail with the same error, or both succeed and `post` relates their results and what they leave. -/
def Together (x : Build α) (y : Build β) (w v : Workspace) (post : α → β → Workspace → Workspace → Prop) : Prop :=
  Agree (fun a b => post a.1 b.1 a.2 b.2) (outcome x w) (outcome y v)

namespace Together
variable {post : α → β → Workspace → Workspace → Prop} {goal : γ → δ → Workspace → Workspace → Prop}

theorem mono {x : Build α} {y : Build β} {post' : α → β → Workspace → Workspace → Prop} (together : Together x y w v post)
    (weaker : ∀ a b w v, post a b w v → post' a b w v) : Together x y w v post' :=
  Agree.mono together (fun _ _ _ _ => weaker _ _ _ _)

theorem pure {a : α} {b : β} (holds : post a b w v) : Together (Pure.pure a) (Pure.pure b) w v post := .ok holds

theorem bind {x : Build α} {y : Build β} {f : α → Build γ} {g : β → Build δ} (first : Together x y w v post)
    (rest : ∀ a b w v, post a b w v → Together (f a) (g b) w v goal) : Together (x >>= f) (y >>= g) w v goal := by
  unfold Together
  rw [outcome_bind, outcome_bind]
  exact Agree.bind first (fun _ _ holds => rest _ _ _ _ holds)

theorem lift {x : Except CompileError α} {y : Except CompileError β} (agree : Agree (fun a b => post a b w v) x y) :
    Together (liftM x : Build α) (liftM y : Build β) w v post := by
  cases agree with
  | error e => exact .error e
  | ok holds => exact .ok holds

theorem lift_bind {x : Except CompileError α} {y : Except CompileError β} {f : α → Build γ} {g : β → Build δ}
    (agree : Agree (fun a b => Together (f a) (g b) w v goal) x y) : Together (liftM x >>= f) (liftM y >>= g) w v goal := by
  cases agree with
  | error e => exact .error e
  | ok holds => exact holds

theorem lift_bind_same {x : Except CompileError α} {f : α → Build γ} {g : α → Build δ}
    (rest : ∀ a, x = .ok a → Together (f a) (g a) w v goal) : Together (liftM x >>= f) (liftM x >>= g) w v goal := by
  cases x with
  | error e => exact .error e
  | ok a => exact rest a rfl

theorem draft_bind {f : Draft → Build γ} {g : Draft → Build δ} (rest : Together (f w.draft) (g v.draft) w v goal) :
    Together (Build.draft >>= f) (Build.draft >>= g) w v goal := rest

theorem symbols_bind {f : Symbols → Build γ} {g : Symbols → Build δ}
    (rest : Together (f w.symbols) (g v.symbols) w v goal) : Together (Build.symbols >>= f) (Build.symbols >>= g) w v goal :=
  rest

theorem nodeIds_bind {f : List String → Build γ} {g : List String → Build δ}
    (rest : Together (f w.draft.nodes.keys) (g v.draft.nodes.keys) w v goal) :
    Together (Build.nodeIds >>= f) (Build.nodeIds >>= g) w v goal := rest

theorem modifyDraft {post : Unit → Unit → Workspace → Workspace → Prop} {f g : Draft → Draft}
    (holds : post () () { w with draft := f w.draft } { v with draft := g v.draft }) :
    Together (Build.modifyDraft f) (Build.modifyDraft g) w v post := .ok holds

theorem name {post : String → String → Workspace → Workspace → Prop}
    {give give' : Symbols → Except CompileError (String × Symbols)}
    (given : Agree (fun a b => post a.1 b.1 { w with symbols := a.2 } { v with symbols := b.2 }) (give w.symbols)
      (give' v.symbols)) : Together (Build.name give) (Build.name give') w v post :=
  symbols_bind (lift_bind (given.mono (fun _ _ _ _ holds => .ok holds)))

theorem discard {x : Build α} {y : Build β} {post : Unit → Unit → Workspace → Workspace → Prop}
    (together : Together x y w v (fun _ _ => post () ())) : Together (Functor.discard x) (Functor.discard y) w v post :=
  bind together (fun _ _ _ _ holds => .ok holds)

/-- Loops over one list keep a relation that every step keeps. -/
theorem forM {f g : α → Build Unit} {items : List α} {sim : Workspace → Workspace → Prop} (start : sim w v)
    (step : ∀ a ∈ items, ∀ w v, sim w v → Together (f a) (g a) w v (fun _ _ => sim)) :
    Together (items.forM f) (items.forM g) w v (fun _ _ => sim) := by
  induction items generalizing w v with
  | nil => exact .ok start
  | cons a rest ih =>
    rw [List.forall_mem_cons] at step
    simp only [List.forM_eq_forM, List.forM_cons]
    exact bind (step.1 w v start) (fun _ _ _ _ holds => ih holds step.2)

theorem mapM (rel : β → β → Prop) {f g : α → Build β} {items : List α} {sim : Workspace → Workspace → Prop} (start : sim w v)
    (step : ∀ a ∈ items, ∀ w v, sim w v → Together (f a) (g a) w v (fun b c w v => rel b c ∧ sim w v)) :
    Together (items.mapM f) (items.mapM g) w v (fun bs cs w v => List.Forall₂ rel bs cs ∧ sim w v) := by
  induction items generalizing w v with
  | nil => exact .ok ⟨.nil, start⟩
  | cons a rest ih =>
    rw [List.forall_mem_cons] at step
    rw [List.mapM_cons, List.mapM_cons]
    refine bind (step.1 w v start) ?_
    rintro b c w v ⟨first, holds⟩
    refine bind (ih holds step.2) ?_
    rintro bs cs w v ⟨later, holds⟩
    exact .ok ⟨.cons first later, holds⟩

/-- What is known of the first work alone is known here. -/
theorem with_ends {x : Build α} {y : Build β} {known : α → Workspace → Prop} {fault : CompileError → Prop}
    (together : Together x y w v post) (ends : Ends x w known fault) :
    Together x y w v (fun a b after last => post a b after last ∧ known a after) :=
  Agree.mono together (fun a _ left _ holds =>
    ⟨holds, ends.of_run (outcome_eq_ok_iff.mp (show outcome x w = .ok (a.1, a.2) from left))⟩)

theorem with_leaves {x : Build α} {y : Build β} {rel : Workspace → Workspace → Prop} (together : Together x y w v post)
    (leaves : Leaves rel x w) : Together x y w v (fun a b after last => post a b after last ∧ rel w after) :=
  together.with_ends leaves.ends

end Together
end Build
end DspPatch
