import DspPatch.Draft.Portlets

/-!
Names inside text. A text mentions its maximal runs of name characters, and replacing a name touches nothing else
(`replaceName_of_not_mentions`). Other characters divide a text into parts that can be looked at one by one, so replacing
a name in a sum replaces it in the terms.
-/
namespace DspPatch.Text

/-- The name stands in the text as a whole. -/
def Mentions (text name : String) : Prop := name.toList ∈ text.toList.splitOnP (fun c => !isNameChar c)

instance (text name : String) : Decidable (Mentions text name) := inferInstanceAs (Decidable (_ ∈ _))

theorem isNamePart_iff {name : String} :
    isNamePart name = true ↔ name.toList ≠ [] ∧ ∀ c ∈ name.toList, isNameChar c = true := by
  simp [isNamePart, ← String.toList_eq_nil_iff]

theorem isNamePart_append {text part : String} (letters : ∀ c ∈ text.toList, isNameChar c = true)
    (named : isNamePart part = true) : isNamePart (text ++ part) = true := by
  obtain ⟨nonempty, partLetters⟩ := isNamePart_iff.mp named
  rw [isNamePart_iff, String.toList_append]
  refine ⟨List.append_ne_nil_of_right_ne_nil _ nonempty, fun c member => ?_⟩
  exact (List.mem_append.mp member).elim (letters c) (partLetters c)

/-- Digits can be read back. -/
theorem toDigits_injective {m n : Nat} (same : Nat.toDigits 10 m = Nat.toDigits 10 n) : m = n := by
  have value : ∀ k, Nat.ofDigitChars 10 (Nat.toDigits 10 k) 0 = k := fun k =>
    Nat.ofDigitChars_toDigits (by decide) (by decide)
  rw [← value m, same, value]

section Scan
variable {name replacement : List Char}

/-- Of the last character it counts only whether it is a name character. -/
theorem replaceNameFrom_last {last last' : Option Char} (same : isBoundary last = isBoundary last') (skip : Nat)
    (cs : List Char) :
    replaceNameFrom name replacement last skip cs = replaceNameFrom name replacement last' skip cs := by
  induction cs generalizing last last' skip with
  | nil => rfl
  | cons c rest ih =>
    cases skip with
    | succ skip => exact ih same skip
    | zero =>
      simp only [replaceNameFrom]
      by_cases here : name.isPrefixOf (c :: rest) = true
      · rw [if_pos here, if_pos here, same]
        refine congrArg _ (ih ?_ _)
        generalize (if isBoundary last' && _ then replacement else name).getLast? = written
        cases written with
        | none => exact same
        | some c => rfl
      · rw [if_neg here, if_neg here]

/-- An occurrence that reaches to the end leaves nothing to scan. -/
theorem replaceNameFrom_skip_all {last : Option Char} {skip : Nat} {cs : List Char} (all : cs.length ≤ skip) :
    replaceNameFrom name replacement last skip cs = [] := by
  induction cs generalizing skip with
  | nil => rfl
  | cons c rest ih =>
    cases skip with
    | zero => simp at all
    | succ skip => exact ih (by simpa using all)

/-- What follows an occurrence. -/
theorem drop_of_isPrefixOf (some_name : name ≠ []) {c : Char} {rest : List Char}
    (here : name.isPrefixOf (c :: rest) = true) :
    name ++ rest.drop (name.length - 1) = c :: rest ∧ name.length - 1 ≤ rest.length := by
  obtain ⟨follows, same⟩ := List.isPrefixOf_iff_prefix.mp here
  cases name with
  | nil => exact absurd rfl some_name
  | cons x name =>
    obtain ⟨rfl, rfl⟩ := List.cons.inj same
    simp

/-- A prefix without the character `c` ends before it. -/
theorem prefix_of_not_mem {c : Char} {before after : List Char} (absent : c ∉ name) :
    name <+: before ++ c :: after ↔ name <+: before := by
  constructor
  · intro start
    rcases List.prefix_or_prefix_of_prefix start (List.prefix_append before (c :: after)) with shorter | ⟨rest, rfl⟩
    · exact shorter
    · cases rest with
      | nil => simp
      | cons x rest =>
        obtain ⟨rfl, _⟩ := List.cons_prefix_cons.mp ((List.prefix_append_right_inj before).mp start)
        simp at absent
  · exact fun shorter => shorter.trans (List.prefix_append _ _)

variable (some_name : name ≠ []) (letters : ∀ c ∈ name, isNameChar c = true)
include some_name letters

/-- What stands before a character that is in no name is scanned on its own. -/
theorem replaceNameFrom_append_cons {c : Char} (other : isNameChar c = false) {last : Option Char} {skip : Nat}
    {before : List Char} (inside : skip ≤ before.length) (after : List Char) :
    replaceNameFrom name replacement last skip (before ++ c :: after) =
      replaceNameFrom name replacement last skip before ++ c :: replaceNameFrom name replacement none 0 after := by
  have absent : c ∉ name := fun member => Bool.false_ne_true (other.symm.trans (letters c member))
  induction before generalizing last skip with
  | nil =>
    obtain rfl : skip = 0 := by simpa using inside
    have away : ¬name.isPrefixOf (c :: after) = true := by
      rw [List.isPrefixOf_iff_prefix, ← List.nil_append (c :: after), prefix_of_not_mem absent, List.prefix_nil]
      exact some_name
    simp only [List.nil_append, replaceNameFrom, if_neg away]
    exact congrArg _ (replaceNameFrom_last (by simp [isBoundary, other]) 0 after)
  | cons x before ih =>
    cases skip with
    | succ skip => exact ih (by simpa using inside)
    | zero =>
      have same : name.isPrefixOf (x :: (before ++ c :: after)) = name.isPrefixOf (x :: before) := by
        rw [Bool.eq_iff_iff, List.isPrefixOf_iff_prefix, List.isPrefixOf_iff_prefix, ← List.cons_append,
          prefix_of_not_mem absent]
      simp only [List.cons_append, replaceNameFrom, same]
      by_cases here : name.isPrefixOf (x :: before) = true
      · obtain ⟨_, fits⟩ := drop_of_isPrefixOf some_name here
        -- The character `c` is a boundary as good as the end of the text.
        have next : isBoundary ((before ++ c :: after).drop (name.length - 1)).head? =
            isBoundary (before.drop (name.length - 1)).head? := by
          rw [List.drop_append_of_le_length fits]
          cases before.drop (name.length - 1) with
          | nil => simp [isBoundary, other]
          | cons y rest => rfl
        rw [if_pos here, if_pos here, next, ih fits, List.append_assoc]
      · rw [if_neg here, if_neg here, ih (Nat.zero_le _), List.cons_append]

theorem not_isBoundary_end (last : Option Char) : isBoundary (name.getLast?.or last) = false := by
  rw [List.getLast?_eq_some_getLast some_name, Option.some_or, isBoundary, letters _ (List.getLast_mem some_name)]
  rfl

/-- Inside a run of name characters nothing is replaced. -/
theorem replaceNameFrom_inside {last : Option Char} (inner : isBoundary last = false) (skip : Nat) {cs : List Char}
    (run : ∀ c ∈ cs, isNameChar c = true) : replaceNameFrom name replacement last skip cs = cs.drop skip := by
  induction cs generalizing last skip with
  | nil => simp [replaceNameFrom]
  | cons c rest ih =>
    obtain ⟨letter, run⟩ := List.forall_mem_cons.mp run
    cases skip with
    | succ skip => exact ih inner skip run
    | zero =>
      simp only [replaceNameFrom, inner, Bool.false_and, Bool.false_eq_true, if_false, List.drop_zero]
      by_cases here : name.isPrefixOf (c :: rest) = true
      · rw [if_pos here, ih (not_isBoundary_end some_name letters last) _ run]
        exact (drop_of_isPrefixOf some_name here).1
      · rw [if_neg here, ih (by simp [isBoundary, letter]) 0 run, List.drop_zero]

/-- A run of name characters is replaced if it is the name. -/
theorem replaceNameFrom_run {cs : List Char} (run : ∀ c ∈ cs, isNameChar c = true) :
    replaceNameFrom name replacement none 0 cs = if cs = name then replacement else cs := by
  cases cs with
  | nil => rw [if_neg (Ne.symm some_name), replaceNameFrom]
  | cons c rest =>
    simp only [replaceNameFrom]
    by_cases here : name.isPrefixOf (c :: rest) = true
    · obtain ⟨whole, fits⟩ := drop_of_isPrefixOf some_name here
      rw [if_pos here]
      cases follows : rest.drop (name.length - 1) with
      | nil =>
        -- The occurrence is the whole run.
        rw [follows, List.append_nil] at whole
        rw [if_pos whole.symm]
        simp only [isBoundary, List.head?_nil, Bool.and_self, if_true]
        rw [replaceNameFrom_skip_all (List.drop_eq_nil_iff.mp follows), List.append_nil]
      | cons next more =>
        -- The run goes on, so neither this occurrence nor a later one is whole.
        have letter : isNameChar next = true := by
          have inRest : next ∈ rest.drop (name.length - 1) := by simp [follows]
          exact run next (List.mem_cons_of_mem _ (List.mem_of_mem_drop inRest))
        have longer : c :: rest ≠ name := by
          intro same
          rw [follows, same] at whole
          simp at whole
        rw [if_neg longer]
        simp only [isBoundary, List.head?_cons, letter, Bool.not_true, Bool.and_false, Bool.false_eq_true, if_false]
        rw [replaceNameFrom_inside some_name letters (not_isBoundary_end some_name letters none) _
          (fun x member => run x (List.mem_cons_of_mem _ member))]
        exact whole
    · have different : c :: rest ≠ name := by
        rintro rfl
        exact here (by simp)
      rw [if_neg here, if_neg different, replaceNameFrom_inside some_name letters _ 0, List.drop_zero]
      · exact fun x member => run x (List.mem_cons_of_mem _ member)
      · simp [isBoundary, run c List.mem_cons_self]

/-- What is no whole run is not replaced; `run` is what has been seen of the first run. -/
theorem replaceNameFrom_of_not_mem (run : List Char) {cs : List Char} (isRun : ∀ c ∈ run, isNameChar c = true)
    (absent : name ∉ (run ++ cs).splitOnP (fun c => !isNameChar c)) :
    replaceNameFrom name replacement none 0 (run ++ cs) = run ++ cs := by
  have whole : ∀ run : List Char, (∀ c ∈ run, isNameChar c = true) → name ≠ run →
      replaceNameFrom name replacement none 0 run = run := by
    intro run isRun different
    rw [replaceNameFrom_run some_name letters isRun, if_neg different.symm]
  induction cs generalizing run with
  | nil =>
    rw [List.append_nil] at absent ⊢
    rw [List.splitOnP_eq_singleton (by simpa using isRun), List.mem_singleton] at absent
    exact whole run isRun absent
  | cons c cs ih =>
    by_cases letter : isNameChar c = true
    · rw [List.append_cons] at absent ⊢
      refine ih (run ++ [c]) (fun d member => ?_) absent
      rcases List.mem_append.mp member with seen | last
      · exact isRun d seen
      · exact List.mem_singleton.mp last ▸ letter
    · have other : isNameChar c = false := by simpa using letter
      rw [List.splitOnP_append_cons _ _ (by simp [other]), List.splitOnP_eq_singleton (by simpa using isRun),
        List.mem_append, List.mem_singleton, not_or] at absent
      have rest := ih [] (List.forall_mem_nil _) absent.2
      rw [List.nil_append] at rest
      rw [replaceNameFrom_append_cons some_name letters other (Nat.zero_le _), whole run isRun absent.1, rest]

end Scan

variable {name replacement : String}

/-- Characters that are in no name, at least one: names end there. -/
structure Separates (sep : String) : Prop where
  nonempty : sep.toList ≠ []
  others : sep.toList.all (fun c => !isNameChar c) = true

/-- Text on the two sides of a separator is scanned on its own. -/
theorem replaceName_separated (named : isNamePart name = true) {sep : String} (separates : Separates sep)
    (before after : String) : replaceName (before ++ sep ++ after) name replacement =
      replaceName before name replacement ++ sep ++ replaceName after name replacement := by
  obtain ⟨some_name, letters⟩ := isNamePart_iff.mp named
  obtain ⟨nonempty, others⟩ := separates
  simp only [List.all_eq_true, Bool.not_eq_true'] at others
  apply String.toList_inj.mp
  simp only [replaceName, String.toList_append, String.toList_ofList, List.append_assoc]
  generalize before.toList = before
  generalize sep.toList = sep at nonempty others
  induction sep generalizing before with
  | nil => exact absurd rfl nonempty
  | cons c sep ih =>
    obtain ⟨other, others⟩ := List.forall_mem_cons.mp others
    rw [List.cons_append, replaceNameFrom_append_cons some_name letters other (Nat.zero_le _)]
    cases sep with
    | nil => rfl
    | cons d sep =>
      have rest := ih [] (List.cons_ne_nil d sep) others
      rw [List.nil_append] at rest
      rw [rest]
      rfl

theorem mentions_separated (named : isNamePart name = true) {sep : String} (separates : Separates sep)
    (before after : String) : Mentions (before ++ sep ++ after) name ↔ Mentions before name ∨ Mentions after name := by
  obtain ⟨some_name, _⟩ := isNamePart_iff.mp named
  obtain ⟨nonempty, others⟩ := separates
  simp only [List.all_eq_true, Bool.not_eq_true'] at others
  simp only [Mentions, String.toList_append, List.append_assoc]
  generalize before.toList = before
  generalize sep.toList = sep at nonempty others
  induction sep generalizing before with
  | nil => exact absurd rfl nonempty
  | cons c sep ih =>
    obtain ⟨other, others⟩ := List.forall_mem_cons.mp others
    rw [List.cons_append, List.splitOnP_append_cons _ _ (by simp [other]), List.mem_append]
    cases sep with
    | nil => rfl
    | cons d sep =>
      have rest := ih [] (List.cons_ne_nil d sep) others
      rw [List.nil_append] at rest
      rw [rest, List.splitOnP_nil, List.mem_singleton]
      simp [some_name]

/-- A text of name characters mentions itself and nothing else. -/
theorem mentions_of_letters {text : String} (letters : ∀ c ∈ text.toList, isNameChar c = true) :
    Mentions text name ↔ text = name := by
  rw [Mentions, List.splitOnP_eq_singleton (by simpa using letters), List.mem_singleton, String.toList_inj]
  exact eq_comm

theorem replaceName_of_letters (named : isNamePart name = true) {text : String}
    (letters : ∀ c ∈ text.toList, isNameChar c = true) :
    replaceName text name replacement = if text = name then replacement else text := by
  obtain ⟨some_name, nameLetters⟩ := isNamePart_iff.mp named
  rw [replaceName, replaceNameFrom_run some_name nameLetters letters]
  by_cases same : text = name
  · rw [if_pos (congrArg _ same), if_pos same, String.ofList_toList]
  · rw [if_neg (fun lists => same (String.toList_inj.mp lists)), if_neg same, String.ofList_toList]

/-- A name that is not mentioned is not replaced. -/
theorem replaceName_of_not_mentions (named : isNamePart name = true) {text : String} (absent : ¬Mentions text name) :
    replaceName text name replacement = text := by
  obtain ⟨some_name, letters⟩ := isNamePart_iff.mp named
  have scan : replaceNameFrom name.toList replacement.toList none 0 ([] ++ text.toList) = [] ++ text.toList :=
    replaceNameFrom_of_not_mem some_name letters [] (List.forall_mem_nil _) absent
  rw [List.nil_append] at scan
  rw [replaceName, scan, String.ofList_toList]

theorem replaceName_empty : replaceName "" name replacement = "" := rfl

theorem not_mentions_empty (named : isNamePart name = true) : ¬Mentions "" name := by
  rw [mentions_of_letters (by simp)]
  rintro rfl
  exact absurd named (by decide)

private theorem parens_eq (text : String) : "(" ++ text ++ ")" = "" ++ "(" ++ text ++ ")" ++ "" := by
  simp

private theorem separates_open : Separates "(" := ⟨by decide, by decide⟩

private theorem separates_close : Separates ")" := ⟨by decide, by decide⟩

private theorem separates_plus : Separates " + " := ⟨by decide, by decide⟩

theorem replaceName_parens (named : isNamePart name = true) (text : String) :
    replaceName ("(" ++ text ++ ")") name replacement = "(" ++ replaceName text name replacement ++ ")" := by
  rw [parens_eq, replaceName_separated named separates_close, replaceName_separated named separates_open,
    replaceName_empty, ← parens_eq]

theorem mentions_parens (named : isNamePart name = true) (text : String) :
    Mentions ("(" ++ text ++ ")") name ↔ Mentions text name := by
  rw [parens_eq, mentions_separated named separates_close, mentions_separated named separates_open]
  simp [not_mentions_empty named]

theorem replaceName_plus (named : isNamePart name = true) (terms : List String) :
    replaceName (" + ".intercalate terms) name replacement =
      " + ".intercalate (terms.map (fun term => replaceName term name replacement)) := by
  induction terms with
  | nil => rfl
  | cons first rest ih =>
    cases rest with
    | nil => simp
    | cons second rest =>
      rw [String.intercalate_cons_cons, replaceName_separated named separates_plus, ih]
      simp only [List.map_cons, String.intercalate_cons_cons]

theorem mentions_plus (named : isNamePart name = true) (terms : List String) :
    Mentions (" + ".intercalate terms) name ↔ ∃ term ∈ terms, Mentions term name := by
  induction terms with
  | nil => simpa using not_mentions_empty named
  | cons first rest ih =>
    cases rest with
    | nil => simp
    | cons second rest =>
      rw [String.intercalate_cons_cons, mentions_separated named separates_plus, ih]
      simp

end DspPatch.Text

namespace DspPatch.Draft
open Text
variable {name replacement : String} (named : isNamePart name = true) (isVariable : name ≠ Engine.nullSignal)
include named isVariable

/-- A sum is replaced term by term. -/
theorem replaceName_sumExpression (terms : List String) : replaceName (sumExpression terms) name replacement =
    sumExpression (terms.map (fun term => replaceName term name replacement)) := by
  match terms with
  | [] =>
    show replaceName Engine.nullSignal name replacement = Engine.nullSignal
    rw [replaceName_of_letters named (isNamePart_iff.mp (by decide)).2, if_neg (Ne.symm isVariable)]
  | [term] => rfl
  | first :: second :: rest =>
    show replaceName ("(" ++ " + ".intercalate (first :: second :: rest) ++ ")") name replacement = _
    rw [replaceName_parens named, replaceName_plus named]
    rfl

theorem mentions_sumExpression (terms : List String) :
    Mentions (sumExpression terms) name ↔ ∃ term ∈ terms, Mentions term name := by
  match terms with
  | [] =>
    show Mentions Engine.nullSignal name ↔ _
    rw [mentions_of_letters (isNamePart_iff.mp (by decide)).2]
    simp [Ne.symm isVariable]
  | [term] => simp [sumExpression]
  | first :: second :: rest =>
    show Mentions ("(" ++ " + ".intercalate (first :: second :: rest) ++ ")") name ↔ _
    rw [mentions_parens named, mentions_plus named]

end DspPatch.Draft
