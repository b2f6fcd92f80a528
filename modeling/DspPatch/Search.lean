/-!
Breadth-first search over labelled items. The labels come from a finite universe, and every label is found at most
once, so the search ends. The next items of an item may be unknown, and then the search fails.
-/
namespace DspPatch.Search
variable {ε α : Type}

/-- The number of labels that have not been seen. -/
def unseen (labels seen : List String) : Nat := (labels.filter (fun label => !seen.contains label)).length

theorem unseen_append_le (labels seen : List String) (label : String) :
    unseen labels (seen ++ [label]) ≤ unseen labels seen := by
  unfold unseen
  induction labels with
  | nil => simp
  | cons l labels ih =>
    by_cases old : l ∈ seen <;> by_cases same : l = label <;> simp_all
    omega

/-- Seeing a new label leaves one label less to be seen. -/
theorem unseen_append_lt {labels seen : List String} {label : String} (inside : label ∈ labels)
    (fresh : label ∉ seen) : unseen labels (seen ++ [label]) < unseen labels seen := by
  unfold unseen
  induction labels with
  | nil => simp at inside
  | cons l labels ih =>
    have tail := unseen_append_le labels seen label
    unfold unseen at tail
    by_cases same : l = label
    · subst same
      simp [fresh] at tail ⊢
      omega
    · have rest : label ∈ labels := by simpa [Ne.symm same] using inside
      have less := ih rest
      by_cases old : l ∈ seen <;> simp_all

/-- Put the found items whose labels are new at the end of the queue, and their labels at the end of the seen ones. -/
def discover (labels : List String) (label : α → String) (seen : List String) (queue : List α) :
    List α → List String × List α
  | [] => (seen, queue)
  | item :: rest =>
    if label item ∈ labels ∧ label item ∉ seen then
      discover labels label (seen ++ [label item]) (queue ++ [item]) rest
    else discover labels label seen queue rest

theorem discover_le (labels : List String) (label : α → String) (seen : List String) (queue found : List α) :
    unseen labels (discover labels label seen queue found).1 + (discover labels label seen queue found).2.length ≤
      unseen labels seen + queue.length := by
  induction found generalizing seen queue with
  | nil => simp [discover]
  | cons item rest ih =>
    by_cases new : label item ∈ labels ∧ label item ∉ seen
    · have less := unseen_append_lt new.1 new.2
      have step := ih (seen ++ [label item]) (queue ++ [item])
      simp only [discover, new, not_false_eq_true, and_self, if_true, List.length_append, List.length_singleton] at step ⊢
      omega
    · simp only [discover, new, if_false]
      exact ih seen queue

/-- The items of the queue and all that is found behind them, in the order in which they are found. -/
def visit (labels : List String) (label : α → String) (next : α → Except ε (List α)) (seen : List String)
    (queue : List α) : Except ε (List α) :=
  match queue with
  | [] => .ok []
  | item :: rest =>
    match next item with
    | .error e => .error e
    | .ok found =>
      (visit labels label next (discover labels label seen rest found).1
        (discover labels label seen rest found).2).map (item :: ·)
termination_by unseen labels seen + queue.length
decreasing_by
  have := discover_le labels label seen rest found
  simp only [List.length_cons]
  omega

/-- All items found from the roots, nearest first. -/
def breadthFirst (labels : List String) (label : α → String) (next : α → Except ε (List α)) (roots : List α) :
    Except ε (List α) :=
  visit labels label next (discover labels label [] [] roots).1 (discover labels label [] [] roots).2

/-- All items found from the roots when the next items are always known. -/
def reach (labels : List String) (label : α → String) (next : α → List α) (roots : List α) : List α :=
  match breadthFirst labels label (fun item => (.ok (next item) : Except Empty (List α))) roots with
  | .ok found => found

end DspPatch.Search
