import Mathlib.Data.List.Forall2

/-!
Outcomes of computations that may fail. `Yields x post fault` says of a computation both what it has computed when it
succeeds and what is known of the error when it fails, so that one statement about a function serves those who know that
it succeeds and those who have to bound its errors.
-/
namespace DspPatch
variable {ε α β : Type}

theorem exists_right_of_forall₂ {rel : α → β → Prop} {xs : List α} {ys : List β} (related : List.Forall₂ rel xs ys)
    {x : α} (member : x ∈ xs) : ∃ y ∈ ys, rel x y := by
  induction related with
  | nil => cases member
  | @cons a b xs ys first _ ih =>
    rcases List.mem_cons.mp member with rfl | later
    · exact ⟨b, List.mem_cons_self, first⟩
    · obtain ⟨y, listed, holds⟩ := ih later
      exact ⟨y, List.mem_cons_of_mem b listed, holds⟩

theorem exists_left_of_forall₂ {rel : α → β → Prop} {xs : List α} {ys : List β} (related : List.Forall₂ rel xs ys)
    {y : β} (member : y ∈ ys) : ∃ x ∈ xs, rel x y :=
  exists_right_of_forall₂ related.flip member

/-- What follows from the relation of two members of the lists relates the lists. -/
theorem forall₂_of_mem {rel rel' : α → β → Prop} {xs : List α} {ys : List β} (related : List.Forall₂ rel xs ys)
    (step : ∀ x ∈ xs, ∀ y ∈ ys, rel x y → rel' x y) : List.Forall₂ rel' xs ys := by
  induction related with
  | nil => exact .nil
  | @cons a b xs ys first _ ih =>
    refine .cons (step a List.mem_cons_self b List.mem_cons_self first) (ih ?_)
    intro x left y right holds
    exact step x (List.mem_cons_of_mem a left) y (List.mem_cons_of_mem b right) holds

theorem map_eq_map_of_forall₂ {γ : Type} (f : α → γ) (h : β → γ) {xs : List α} {ys : List β}
    (related : List.Forall₂ (fun a b => f a = h b) xs ys) : xs.map f = ys.map h := by
  induction related with
  | nil => rfl
  | cons first _ ih => rw [List.map_cons, List.map_cons, first, ih]

/-- Related lists are pairwise related alike. -/
theorem pairwise_of_forall₂ {rel : α → β → Prop} {xs : List α} {ys : List β} (related : List.Forall₂ rel xs ys)
    {p : α → α → Prop} {q : β → β → Prop} (pairwise : xs.Pairwise p)
    (step : ∀ a b c d, rel a c → rel b d → p a b → q c d) : ys.Pairwise q := by
  induction related with
  | nil => exact .nil
  | @cons a c xs ys first rest ih =>
    rw [List.pairwise_cons] at pairwise
    refine List.pairwise_cons.mpr ⟨fun d member => ?_, ih pairwise.2⟩
    obtain ⟨b, listed, holds⟩ := exists_left_of_forall₂ rest member
    exact step a b c d first holds (pairwise.1 b listed)

/-- The value satisfies `post`, or the error satisfies `fault`. -/
def Yields (x : Except ε α) (post : α → Prop) (fault : ε → Prop) : Prop :=
  match x with
  | .ok a => post a
  | .error e => fault e

namespace Yields
variable {post : α → Prop} {fault : ε → Prop}

theorem of_eq_ok {x : Except ε α} (outcome : Yields x post fault) {a : α} (result : x = .ok a) : post a := by
  rw [result] at outcome
  exact outcome

theorem of_eq_error {x : Except ε α} (outcome : Yields x post fault) {e : ε} (result : x = .error e) : fault e := by
  rw [result] at outcome
  exact outcome

theorem of_ok {x : Except ε α} {a : α} (result : x = .ok a) (holds : post a) : Yields x post fault := by
  rw [result]
  exact holds

/-- A computation whose errors are excluded succeeds. -/
theorem exists_ok {x : Except ε α} (outcome : Yields x post (fun _ => False)) : ∃ a, x = .ok a ∧ post a := by
  cases x with
  | ok a => exact ⟨a, rfl, outcome⟩
  | error e => exact outcome.elim

theorem mono {x : Except ε α} (outcome : Yields x post fault) {post' : α → Prop} {fault' : ε → Prop}
    (weaker : ∀ a, post a → post' a) (fewer : ∀ e, fault e → fault' e) : Yields x post' fault' := by
  cases x with
  | ok a => exact weaker a outcome
  | error e => exact fewer e outcome

/-- What is known of a result holds of it, and what is known of an error too. -/
theorem self (x : Except ε α) : Yields x (fun a => x = .ok a) (fun e => x = .error e) := by
  cases x <;> rfl

theorem any (x : Except ε α) : Yields x (fun _ => True) (fun _ => True) := by
  cases x <;> trivial

/-- What is known of a computation may also speak of its result. -/
theorem with_eq {x : Except ε α} (outcome : Yields x post fault) : Yields x (fun a => x = .ok a ∧ post a) fault := by
  cases x with
  | ok a => exact ⟨rfl, outcome⟩
  | error e => exact outcome

theorem and {x : Except ε α} {post' : α → Prop} {fault' : ε → Prop} (outcome : Yields x post fault)
    (outcome' : Yields x post' fault') : Yields x (fun a => post a ∧ post' a) (fun e => fault e ∧ fault' e) := by
  cases x with
  | ok a => exact ⟨outcome, outcome'⟩
  | error e => exact ⟨outcome, outcome'⟩

theorem bind {x : Except ε α} {f : α → Except ε β} {goal : β → Prop} (first : Yields x post fault)
    (rest : ∀ a, post a → Yields (f a) goal fault) : Yields (x >>= f) goal fault := by
  cases x with
  | ok a => exact rest a first
  | error e => exact first

theorem map {x : Except ε α} {f : α → β} {goal : β → Prop} (first : Yields x post fault)
    (rest : ∀ a, post a → goal (f a)) : Yields (x.map f) goal fault := by
  cases x with
  | ok a => exact rest a first
  | error e => exact first

/-- A fold keeps an invariant that speaks of the items it has gone through. -/
theorem foldlM {f : β → α → Except ε β} {items : List α} {b : β} (inv : List α → β → Prop) (start : inv [] b)
    (step : ∀ done a rest b, items = done ++ a :: rest → inv done b → Yields (f b a) (inv (done ++ [a])) fault) :
    Yields (items.foldlM f b) (inv items) fault := by
  suffices general : ∀ (rest done : List α) (b : β), items = done ++ rest → inv done b →
      Yields (rest.foldlM f b) (inv items) fault from general items [] b rfl start
  intro rest
  induction rest with
  | nil =>
    intro done b split holds
    rw [List.append_nil] at split
    exact split ▸ holds
  | cons a rest ih =>
    intro done b split holds
    rw [List.foldlM_cons]
    refine Yields.bind (step done a rest b split holds) (fun next holdsNext => ?_)
    exact ih (done ++ [a]) next (by rw [split, List.append_assoc, List.singleton_append]) holdsNext

/-- Every result of a list belongs to its item. -/
theorem mapM {f : α → Except ε β} {items : List α} {rel : α → β → Prop}
    (each : ∀ a ∈ items, Yields (f a) (rel a) fault) : Yields (items.mapM f) (List.Forall₂ rel items) fault := by
  induction items with
  | nil => exact List.Forall₂.nil
  | cons a rest ih =>
    rw [List.mapM_cons]
    refine Yields.bind (each a List.mem_cons_self) (fun b first => ?_)
    refine Yields.bind (ih (fun a member => each a (List.mem_cons_of_mem _ member))) (fun bs later => ?_)
    exact List.Forall₂.cons first later

theorem forM {f : α → Except ε Unit} {items : List α} {good : α → Prop}
    (each : ∀ a ∈ items, Yields (f a) (fun _ => good a) fault) :
    Yields (items.forM f) (fun _ => ∀ a ∈ items, good a) fault := by
  rw [List.forM_eq_forM]
  induction items with
  | nil =>
    intro a member
    cases member
  | cons a rest ih =>
    rw [List.forM_cons]
    refine Yields.bind (each a List.mem_cons_self) (fun _ first => ?_)
    refine mono (ih (fun a member => each a (List.mem_cons_of_mem _ member))) (fun _ later => ?_) (fun _ bad => bad)
    exact List.forall_mem_cons.mpr ⟨first, later⟩

end Yields

theorem eq_ok_getD {x : Except ε α} (succeeds : x.isOk = true) (a : α) : x = .ok (x.toOption.getD a) := by
  cases x with
  | ok b => rfl
  | error e => cases succeeds

theorem toOption_eq_some_iff {x : Except ε α} {a : α} : x.toOption = some a ↔ x = .ok a := by
  cases x <;> simp [Except.toOption]

theorem bind_eq_ok_iff {x : Except ε α} {f : α → Except ε β} {b : β} :
    (x >>= f) = .ok b ↔ ∃ a, x = .ok a ∧ f a = .ok b := by
  cases x with
  | ok a =>
    constructor
    · intro result
      exact ⟨a, rfl, result⟩
    · rintro ⟨_, same, result⟩
      cases same
      exact result
  | error e =>
    constructor
    · intro result
      cases result
    · rintro ⟨_, same, _⟩
      cases same

theorem map_eq_ok_iff {x : Except ε α} {f : α → β} {b : β} : x.map f = .ok b ↔ ∃ a, x = .ok a ∧ f a = b := by
  cases x with
  | error e => simp [Except.map]
  | ok a => simp [Except.map]

theorem then_eq_ok_iff {x : Except ε Unit} {y : Except ε β} {b : β} :
    (x >>= fun _ => y) = .ok b ↔ x = .ok () ∧ y = .ok b := by
  rw [bind_eq_ok_iff]
  constructor
  · rintro ⟨_, first, later⟩
    exact ⟨first, later⟩
  · rintro ⟨first, later⟩
    exact ⟨(), first, later⟩

theorem forM_eq_ok_iff {items : List α} {f : α → Except ε Unit} :
    items.forM f = .ok () ↔ ∀ a ∈ items, f a = .ok () := by
  rw [List.forM_eq_forM]
  induction items with
  | nil => simp [pure, Except.pure]
  | cons a rest ih =>
    rw [List.forM_cons, then_eq_ok_iff, List.forall_mem_cons, ← ih]

theorem mapM_eq_ok_iff {items : List α} {f : α → Except ε β} {results : List β} :
    items.mapM f = .ok results ↔ List.Forall₂ (fun a b => f a = .ok b) items results := by
  induction items generalizing results with
  | nil =>
    rw [List.mapM_nil, List.forall₂_nil_left_iff]
    constructor
    · intro result
      cases result
      rfl
    · rintro rfl
      rfl
  | cons a rest ih =>
    rw [List.mapM_cons, bind_eq_ok_iff]
    constructor
    · rintro ⟨b, first, result⟩
      obtain ⟨bs, later, same⟩ := bind_eq_ok_iff.mp result
      cases same
      exact .cons first (ih.mp later)
    · intro all
      cases all with
      | @cons _ b _ bs first later => exact ⟨b, first, bind_eq_ok_iff.mpr ⟨bs, ih.mpr later, rfl⟩⟩

theorem exists_mapM_ok {items : List α} {f : α → Except ε β} (each : ∀ a ∈ items, ∃ b, f a = .ok b) :
    ∃ results, items.mapM f = .ok results := by
  have outcome : Yields (items.mapM f) (List.Forall₂ (fun _ _ => True) items) (fun _ => False) := by
    refine Yields.mapM (fun a member => ?_)
    obtain ⟨b, result⟩ := each a member
    rw [result]
    trivial
  obtain ⟨results, result, _⟩ := outcome.exists_ok
  exact ⟨results, result⟩

/-- Two computations in sequence succeed if both do, provided that the second one does so for all results of the first. -/
theorem exists_bind_ok_iff {x : Except ε α} {f : α → Except ε β} {p q : Prop} (first : (∃ a, x = .ok a) ↔ p)
    (rest : ∀ a, (∃ b, f a = .ok b) ↔ q) : (∃ b, (x >>= f) = .ok b) ↔ p ∧ q := by
  constructor
  · rintro ⟨b, result⟩
    obtain ⟨a, made, last⟩ := bind_eq_ok_iff.mp result
    exact ⟨first.mp ⟨a, made⟩, (rest a).mp ⟨b, last⟩⟩
  · rintro ⟨holds, holdsRest⟩
    obtain ⟨a, made⟩ := first.mpr holds
    obtain ⟨b, last⟩ := (rest a).mpr holdsRest
    exact ⟨b, bind_eq_ok_iff.mpr ⟨a, made, last⟩⟩

theorem exists_mapM_ok_iff {f : α → Except ε β} {items : List α} :
    (∃ results, items.mapM f = .ok results) ↔ ∀ a ∈ items, ∃ b, f a = .ok b := by
  constructor
  · rintro ⟨results, made⟩ a member
    obtain ⟨b, _, result⟩ := exists_right_of_forall₂ (mapM_eq_ok_iff.mp made) member
    exact ⟨b, result⟩
  · exact exists_mapM_ok

end DspPatch
