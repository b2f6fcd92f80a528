import DspPatch.Proofs.Library
import DspPatch.Proofs.Order

/-!
Flattening definitions. What a definition needs can be listed by plain recursion: all that its dependencies need, in their
order, and then the definition itself (`Definition.plain`). Such a list repeats a shared definition for every way that
leads to it. Flattening gives the plain list of the roots without later repetitions of an identity, and the same list is
what a walk with a stack of its own ends with (`Definition.Walk`), which lists a definition when it leaves it
(`Definition.flatten_exact`).
-/
namespace DspPatch.Definition
open Relation
variable {roots done : List Definition} {d e : Definition}

mutual

/-- What a definition needs by plain recursion: its dependencies in their order, each after all that it needs itself, and
    then the definition. -/
def plain : Definition → List Definition
  | d@⟨_, _, _, dependencies, _, _, _⟩ => plainEach dependencies ++ [d]

/-- The plain lists of definitions one after another. -/
def plainEach : List Definition → List Definition
  | [] => []
  | d :: rest => d.plain ++ plainEach rest

end

theorem plainEach_eq (roots : List Definition) : plainEach roots = roots.flatMap plain := by
  induction roots with
  | nil => rw [plainEach, List.flatMap_nil]
  | cons root roots ih => rw [plainEach, ih, List.flatMap_cons]

theorem plain_eq (d : Definition) : d.plain = d.dependencies.flatMap plain ++ [d] := by
  rw [← plainEach_eq]
  cases d
  rw [plain]

/-- The plain list has what can be reached along dependencies. -/
theorem mem_plain_iff : e ∈ d.plain ↔ ReflTransGen Needs d e := by
  induction d using Definition.induction with
  | step d ih =>
    rw [plain_eq, List.mem_append, List.mem_flatMap, List.mem_singleton, ReflTransGen.cases_head_iff]
    constructor
    · rintro (⟨dependency, needed, member⟩ | rfl)
      · exact .inr ⟨dependency, needed, (ih dependency needed).mp member⟩
      · exact .inl rfl
    · rintro (rfl | ⟨dependency, needed, chain⟩)
      · exact .inr rfl
      · exact .inl ⟨dependency, needed, (ih dependency needed).mpr chain⟩

section Repetitions

theorem foldl_list_of_listed {ds : List Definition} (listed : ∀ d ∈ ds, isListed d.id done) :
    ds.foldl (fun done d => d.list done) done = done := by
  induction ds with
  | nil => rfl
  | cons d ds ih =>
    rw [List.forall_mem_cons] at listed
    rw [List.foldl_cons, list, if_pos listed.1, ih listed.2]

/-- Listing one definition after another leaves out those whose identity has come before. -/
theorem foldl_list (ds done : List Definition) : ds.foldl (fun done d => d.list done) done =
    done ++ (ds.filter (fun d => !isListed d.id done)).eraseDupsBy (fun d e => d.id == e.id) := by
  induction ds generalizing done with
  | nil => rw [List.foldl_nil, List.filter_nil, List.eraseDupsBy_nil, List.append_nil]
  | cons d ds ih =>
    rw [List.foldl_cons, ih]
    by_cases listed : isListed d.id done
    · rw [list, if_pos listed, List.filter_cons_of_neg (by simp [listed])]
    · have others : ds.filter (fun e => !isListed e.id (done ++ [d])) =
          (ds.filter (fun e => !isListed e.id done)).filter (fun e => decide ((e.id == d.id) = false)) := by
        rw [List.filter_filter]
        refine List.filter_congr (fun e _ => ?_)
        by_cases same : d.id = e.id
        · simp [isListed, same]
        · simp [isListed, same, Ne.symm same]
      rw [list, if_neg listed, List.filter_cons_of_pos (by simp [listed]), List.eraseDupsBy_cons, others, List.append_assoc,
        List.singleton_append]

end Repetitions

/-- Among the roots and all that they need, an identity stands for one definition. -/
def Unambiguous (roots : List Definition) : Prop := ∀ d e, Reaches roots d → Reaches roots e → d.id = e.id → d = e

/-- All that is reached is in a list that holds the roots and the dependencies of its members. -/
theorem unambiguous_of_closed {ds : List Definition} (inside : roots ⊆ ds) (closed : ∀ d ∈ ds, d.dependencies ⊆ ds)
    (once : (ds.map Definition.id).Nodup) : Unambiguous roots := by
  have reached : ∀ d, Reaches roots d → d ∈ ds := by
    rintro d ⟨root, member, chain⟩
    induction chain with
    | refl => exact inside member
    | tail _ needs ih => exact closed _ ih needs
  intro d e reachedD reachedE same
  exact List.inj_on_of_nodup_map once (reached d reachedD) (reached e reachedE) same

/-- A list of definitions that are reached, each identity once and each definition after its dependencies. -/
structure Settled (roots done : List Definition) : Prop where
  reached : ∀ d ∈ done, Reaches roots d
  nodup : (done.map Definition.id).Nodup
  before : ∀ d ∈ done, ∀ dependency ∈ d.dependencies, [dependency, d].Sublist done

namespace Settled
variable (unambiguous : Unambiguous roots)

theorem nil : Settled roots [] := ⟨List.forall_mem_nil _, .nil, List.forall_mem_nil _⟩

include unambiguous in
theorem mem_of_isListed (settled : Settled roots done) (reached : Reaches roots d) (listed : isListed d.id done) :
    d ∈ done := by
  obtain ⟨e, member, same⟩ := isListed_iff.mp listed
  exact unambiguous e d (settled.reached e member) reached same ▸ member

include unambiguous in
/-- A definition may follow when its dependencies are listed. -/
theorem list (settled : Settled roots done) (reached : Reaches roots d)
    (ready : ∀ dependency ∈ d.dependencies, isListed dependency.id done) : Settled roots (d.list done) := by
  by_cases listed : isListed d.id done
  · rwa [Definition.list, if_pos listed]
  rw [Definition.list, if_neg listed]
  refine ⟨fun e member => ?_, ?_, fun e member dependency needed => ?_⟩
  · rcases List.mem_append.mp member with earlier | last
    · exact settled.reached e earlier
    · exact List.mem_singleton.mp last ▸ reached
  · rw [List.map_append, List.map_singleton, ← List.concat_eq_append, List.nodup_concat]
    refine ⟨fun member => listed ?_, settled.nodup⟩
    exact isListed_iff.mpr (List.mem_map.mp member)
  · rw [pair_sublist_concat_iff]
    rcases List.mem_append.mp member with earlier | last
    · exact .inl (settled.before e earlier dependency needed)
    · cases List.mem_singleton.mp last
      obtain ⟨root, isRoot, chain⟩ := reached
      exact .inr ⟨settled.mem_of_isListed unambiguous ⟨root, isRoot, chain.tail needed⟩ (ready dependency needed), rfl⟩

/-- All that a listed definition needs is listed. -/
theorem mem_of_reflTransGen (settled : Settled roots done) (member : d ∈ done) (chain : ReflTransGen Needs d e) :
    e ∈ done := by
  induction chain with
  | refl => exact member
  | tail _ needs ih => exact (settled.before _ ih _ needs).subset List.mem_cons_self

include unambiguous in
theorem flattenInto (settled : Settled roots done) (reached : Reaches roots d) : Settled roots (d.flattenInto done) := by
  obtain ⟨root, member, chain⟩ := reached
  exact (flattenInto_spec (Settled roots)
    (fun e done more ready settled => settled.list unambiguous ⟨root, member, chain.trans more⟩ ready) settled).1

include unambiguous in
theorem flattenEach_eq_foldl {ds : List Definition} (settled : Settled roots done) (reached : ∀ d ∈ ds, Reaches roots d)
    (each : ∀ d ∈ ds, ∀ done, Settled roots done → d.flattenInto done = d.plain.foldl (fun done e => e.list done) done) :
    flattenEach ds done = (ds.flatMap plain).foldl (fun done e => e.list done) done := by
  induction ds generalizing done with
  | nil => rw [flattenEach, List.flatMap_nil, List.foldl_nil]
  | cons d ds ih =>
    rw [List.forall_mem_cons] at reached each
    rw [flattenEach, ih (settled.flattenInto unambiguous reached.1) reached.2 each.2, each.1 done settled, List.flatMap_cons,
      List.foldl_append]

include unambiguous in
/-- Flattening lists the definitions of the plain list one after another. -/
theorem flattenInto_eq_foldl (settled : Settled roots done) (reached : Reaches roots d) :
    d.flattenInto done = d.plain.foldl (fun done e => e.list done) done := by
  induction d using Definition.induction generalizing done with
  | step d ih =>
    rw [flattenInto_eq]
    by_cases listed : isListed d.id done
    · rw [if_pos listed, foldl_list_of_listed]
      intro e member
      have known := settled.mem_of_isListed unambiguous reached listed
      exact isListed_iff.mpr ⟨e, settled.mem_of_reflTransGen known (mem_plain_iff.mp member), rfl⟩
    · have next : ∀ dependency ∈ d.dependencies, Reaches roots dependency := by
        intro dependency needed
        obtain ⟨root, member, chain⟩ := reached
        exact ⟨root, member, chain.tail needed⟩
      rw [if_neg listed, plain_eq, List.foldl_append, List.foldl_cons, List.foldl_nil,
        settled.flattenEach_eq_foldl unambiguous next (fun dependency needed _ settled =>
          ih dependency needed settled (next dependency needed))]

end Settled

section Flatten
variable (unambiguous : Unambiguous roots)
include unambiguous

theorem settled_flatten : Settled roots (flatten roots) :=
  flatten_keeps (Settled roots) (fun _ _ reached ready settled => settled.list unambiguous reached ready) .nil

theorem mem_flatten_iff : d ∈ flatten roots ↔ Reaches roots d := by
  refine ⟨reaches_of_mem_flatten, ?_⟩
  rintro ⟨root, member, chain⟩
  have settled := settled_flatten unambiguous
  have listed : isListed root.id (flatten roots) := (flattenEach_grows roots []).2 root member
  exact settled.mem_of_reflTransGen (settled.mem_of_isListed unambiguous ⟨root, member, .refl⟩ listed) chain

/-- The plain list of the roots, without later repetitions of an identity. -/
theorem flatten_eq_eraseDupsBy : flatten roots = (roots.flatMap plain).eraseDupsBy (fun d e => d.id == e.id) := by
  have reached : ∀ root ∈ roots, Reaches roots root := fun root member => ⟨root, member, .refl⟩
  rw [flatten, Settled.nil.flattenEach_eq_foldl unambiguous reached (fun root member _ settled =>
    settled.flattenInto_eq_foldl unambiguous (reached root member)), foldl_list, List.nil_append]
  simp [isListed]

end Flatten

/-- A walk in progress: the definitions that are open, each with the dependencies that are still to be looked at, the
    roots that are still to be walked, and the definitions that are listed. -/
structure Walk where
  stack : List (Definition × List Definition)
  roots : List Definition
  done : List Definition

namespace Walk
variable {stack : List (Definition × List Definition)} {ds : List Definition}

/-- Nothing is listed and all roots are to be walked. -/
def start (roots : List Definition) : Walk := ⟨[], roots, []⟩

/-- Open a definition unless its identity is listed. -/
def enter (d : Definition) (w : Walk) : Walk :=
  if isListed d.id w.done then w else { w with stack := (d, d.dependencies) :: w.stack }

/-- Look at the next dependency of the definition that was opened last. If it has none left, it is closed and listed, unless
    its identity is listed already. When no definition is open, the next root is looked at. -/
def step : Walk → Option Walk
  | ⟨(d, dependency :: rest) :: stack, roots, done⟩ => some (enter dependency ⟨(d, rest) :: stack, roots, done⟩)
  | ⟨(d, []) :: stack, roots, done⟩ => some ⟨stack, roots, d.list done⟩
  | ⟨[], root :: roots, done⟩ => some (enter root ⟨[], roots, done⟩)
  | ⟨[], [], _⟩ => none

/-- Steps of the walk lead from one state to another. -/
def Runs : Walk → Walk → Prop := ReflTransGen (fun w next => w.step = some next)

/-- An open definition is ready to be closed when the walk has come back from each of its dependencies. -/
theorem dependencies_run (each : ∀ dependency ∈ ds, ∀ stack done,
      Runs (enter dependency ⟨stack, roots, done⟩) ⟨stack, roots, dependency.flattenInto done⟩) :
    Runs ⟨(d, ds) :: stack, roots, done⟩ ⟨(d, []) :: stack, roots, flattenEach ds done⟩ := by
  induction ds generalizing done with
  | nil =>
    rw [flattenEach]
    exact .refl
  | cons dependency ds ih =>
    rw [List.forall_mem_cons] at each
    rw [flattenEach]
    exact .head rfl ((each.1 _ done).trans (ih each.2))

/-- The walk comes back from a definition with all listed that it needs. -/
theorem enter_runs (d : Definition) :
    Runs (enter d ⟨stack, roots, done⟩) ⟨stack, roots, d.flattenInto done⟩ := by
  induction d using Definition.induction generalizing stack done with
  | step d ih =>
    rw [enter, flattenInto_eq]
    by_cases listed : isListed d.id done
    · rw [if_pos listed, if_pos listed]
      exact .refl
    · rw [if_neg listed, if_neg listed]
      exact (dependencies_run (fun dependency needed _ _ => ih dependency needed)).tail rfl

theorem roots_run (roots done : List Definition) : Runs ⟨[], roots, done⟩ ⟨[], [], flattenEach roots done⟩ := by
  induction roots generalizing done with
  | nil =>
    rw [flattenEach]
    exact .refl
  | cons root roots ih =>
    rw [flattenEach]
    exact .head rfl ((enter_runs root).trans (ih _))

end Walk

/-- Where an identity stands for one definition, the walk ends, with what flattening gives: the plain list of the roots
    without later repetitions of an identity. It has what the roots need, each identity once and each definition after its
    dependencies. That no definition needs itself is not asked: a definition is made of its dependencies. -/
theorem flatten_exact (unambiguous : Unambiguous roots) :
    Walk.Runs (.start roots) ⟨[], [], flatten roots⟩ ∧ Walk.step ⟨[], [], flatten roots⟩ = none ∧
    ((flatten roots).map Definition.id).Nodup ∧
    (∀ d, d ∈ flatten roots ↔ ∃ root ∈ roots, ReflTransGen Needs root d) ∧
    (∀ d ∈ flatten roots, ∀ dependency ∈ d.dependencies, [dependency, d].Sublist (flatten roots)) ∧
    flatten roots = (roots.flatMap plain).eraseDupsBy (fun d e => d.id == e.id) := by
  have settled := settled_flatten unambiguous
  exact ⟨Walk.roots_run roots [], rfl, settled.nodup, fun d => mem_flatten_iff unambiguous, settled.before,
    flatten_eq_eraseDupsBy unambiguous⟩

/-- A definition without code. All of them have the same tag. -/
def unit (id : Nat) (dependencies : List Definition) : Definition := ⟨id, "unit", [], dependencies, [], [], fun _ => .ok .empty⟩

def shared : Definition := unit 0 []

/-- Needs what is shared. -/
def user : Definition := unit 1 [shared]

/-- Needs what is shared and the other user. -/
def topUser : Definition := unit 2 [shared, user]

/-- What is shared stands three times in the plain list and once in the flattened one. -/
theorem flatten_exact_sharing : Unambiguous [topUser, user] ∧
    ([topUser, user].flatMap plain).map Definition.id = [0, 0, 1, 2, 0, 1] ∧ flatten [topUser, user] = [shared, user, topUser] ∧
    Walk.Runs (.start [topUser, user]) ⟨[], [], [shared, user, topUser]⟩ := by
  have unambiguous : Unambiguous [topUser, user] := by
    refine unambiguous_of_closed (show _ ⊆ [shared, user, topUser] from ?_) ?_ (by decide)
    · simp
    · simp [topUser, user, shared, unit]
  exact ⟨unambiguous, by decide, rfl, (flatten_exact unambiguous).1⟩

end DspPatch.Definition
