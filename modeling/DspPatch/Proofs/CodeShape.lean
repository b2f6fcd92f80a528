import DspPatch.Draft.Portlets
import DspPatch.Proofs.Names
import Mathlib.Data.List.Forall2

/-!
The shape of code: which of its lines end with a semicolon, blank lines left out. Whether code is an expression depends on
its shape alone (`isSome_expression?_ofCode`). A text is `Solid` if it stands on one line, is not blank and does not end
with a semicolon; in code, solid texts may stand for each other without changing the shape (`endings_join`). Names are
solid, and so are sums of names, which stay so when an expression is put into the place of a name.
-/
namespace DspPatch.Text

/-- Whether the last character that is not blank is a semicolon, if there is one. -/
def ending (cs : List Char) : Option Bool := (cs.reverse.find? (fun c => !isBlank c)).map (· == ';')

theorem ending_append (a b : List Char) : ending (a ++ b) = (ending b).or (ending a) := by
  rw [ending, List.reverse_append, List.find?_append, Option.map_or]
  rfl

theorem ending_cons (c : Char) (cs : List Char) : ending (c :: cs) = (ending cs).or (ending [c]) := ending_append [c] cs

theorem ending_of_blank {cs : List Char} (blank : ∀ c ∈ cs, isBlank c = true) : ending cs = none := by
  rw [ending, Option.map_eq_none_iff, List.find?_eq_none]
  intro c member
  rw [blank c (List.mem_reverse.mp member)]
  decide

theorem ending_trimStart (cs : List Char) : ending (trimStart cs) = ending cs := by
  have split : cs.takeWhile isBlank ++ trimStart cs = cs := List.takeWhile_append_dropWhile
  have front : ending (cs.takeWhile isBlank) = none := ending_of_blank (List.all_eq_true.mp List.all_takeWhile)
  nth_rewrite 2 [← split]
  rw [ending_append, front, Option.or_none]

private theorem head?_dropWhile {α : Type} (p : α → Bool) (items : List α) :
    (items.dropWhile p).head? = items.find? (fun a => !p a) := by
  induction items with
  | nil => rfl
  | cons a rest ih =>
    rw [List.dropWhile_cons, List.find?_cons]
    cases p a with
    | true => exact ih
    | false => rfl

/-- A line keeps its last character that is not blank when it is trimmed, and has none if nothing is left. -/
theorem map_getLast?_trim (cs : List Char) : (trim cs).getLast?.map (· == ';') = ending cs := by
  rw [← ending_trimStart, trim, trimEnd, List.getLast?_reverse, head?_dropWhile]
  rfl

theorem ending_dropReturn (line : List Char) : ending (dropReturn line) = ending line := by
  unfold dropReturn
  split
  next last =>
    obtain ⟨front, rfl⟩ := List.getLast?_eq_some_iff.mp last
    have blank : ending ['\r'] = none := by decide
    rw [List.dropLast_concat, ending_append, blank, Option.none_or]
  next => rfl

/-- The endings of the lines that are not blank. -/
def endings (cs : List Char) : List Bool := (lines cs).filterMap ending

theorem map_codeLines (cs : List Char) : (codeLines cs).map (fun line => line.getLast? == some ';') = endings cs := by
  rw [codeLines, endings]
  induction lines cs with
  | nil => rfl
  | cons line rest ih =>
    rw [List.map_cons, List.filterMap_cons, ← map_getLast?_trim]
    cases last : (trim line).getLast? with
    | none =>
      rw [List.getLast?_eq_none_iff.mp last, List.filter_cons_of_neg (by decide)]
      exact ih
    | some c =>
      have nonempty : trim line ≠ [] := fun empty => by simp [empty] at last
      rw [List.filter_cons_of_pos (by simpa using nonempty), List.map_cons, ih, last]
      rfl

theorem newline_not_mem_linesFrom {line cs : List Char} (before : '\n' ∉ line) :
    ∀ found ∈ linesFrom line cs, '\n' ∉ found := by
  induction cs generalizing line with
  | nil =>
    intro found member
    rw [linesFrom] at member
    split at member
    · cases member
    · rw [List.mem_singleton.mp member, List.mem_reverse]
      exact before
  | cons c rest ih =>
    rw [linesFrom]
    split
    next =>
      refine List.forall_mem_cons.mpr ⟨fun member => before ?_, ih List.not_mem_nil⟩
      unfold dropReturn at member
      split at member
      · exact List.mem_reverse.mp (List.dropLast_subset _ member)
      · exact List.mem_reverse.mp member
    next other => exact ih (List.not_mem_cons_of_ne_of_not_mem (Ne.symm other) before)

theorem newline_not_mem_codeLines {cs line : List Char} (member : line ∈ codeLines cs) : '\n' ∉ line := by
  obtain ⟨whole, listed, rfl⟩ := List.mem_map.mp (List.mem_of_mem_filter member)
  refine fun inside => newline_not_mem_linesFrom List.not_mem_nil whole listed ?_
  rw [trim, trimEnd, List.mem_reverse] at inside
  have start := List.mem_reverse.mp ((List.dropWhile_sublist isBlank).subset inside)
  exact (List.dropWhile_sublist isBlank).subset start

/-- Code is an expression exactly if it has one line that is not blank, which does not end with a semicolon. -/
theorem isSome_expression?_ofCode (text : String) :
    (Sequence.ofCode text).expression?.isSome = (endings text.toList == [false]) := by
  rw [← map_codeLines]
  have oneLine : ∀ line ∈ codeLines text.toList, '\n' ∉ line := fun _ => newline_not_mem_codeLines
  have someLine : ∀ line ∈ codeLines text.toList, line ≠ [] := fun line member => by
    simpa using (List.mem_filter.mp member).2
  rw [Sequence.ofCode, Sequence.pushCode, normalCode]
  generalize codeLines text.toList = found at oneLine someLine
  match found with
  | [] => rfl
  | [line] =>
    have nonempty : (String.ofList line).isEmpty = false := by
      simpa using someLine line List.mem_cons_self
    have unbroken : line.contains '\n' = false := by
      simpa using oneLine line List.mem_cons_self
    rw [joinLines, nonempty]
    simp only [Bool.false_eq_true, if_false, Sequence.expression?, Sequence.appendCode, Sequence.empty, List.getLast?_nil,
      List.nil_append, String.toList_ofList, unbroken, Bool.false_or, List.map_cons, List.map_nil]
    cases line.getLast? == some ';' <;> rfl
  | first :: second :: rest =>
    have nonempty : (String.ofList (first ++ '\n' :: joinLines (second :: rest))).isEmpty = false := by simp
    have broken : (first ++ '\n' :: joinLines (second :: rest)).contains '\n' = true := by simp
    rw [joinLines, nonempty]
    · simp only [Bool.false_eq_true, if_false, Sequence.expression?, Sequence.appendCode, Sequence.empty, List.getLast?_nil,
        List.nil_append, String.toList_ofList, broken, Bool.true_or, if_true, List.map_cons]
      simp
    · simp

/-- An expression stands on one line. -/
theorem newline_not_mem_expression? {s : Sequence} {text : String} (isExpression : s.expression? = some text) :
    '\n' ∉ text.toList := by
  unfold Sequence.expression? at isExpression
  split at isExpression
  next code _ =>
    split at isExpression
    · cases isExpression
    next fits =>
      cases isExpression
      simp only [Bool.or_eq_true, not_or, List.contains_iff_mem] at fits
      exact fits.1
  next => cases isExpression

/-- One line, not blank and without a semicolon at its end. -/
def Solid (text : String) : Prop := '\n' ∉ text.toList ∧ ending text.toList = some false

/-- One may stand for the other in code. -/
def Fits (a b : String) : Prop := a = b ∨ Solid a ∧ Solid b

theorem linesFrom_append {a : List Char} (unbroken : '\n' ∉ a) (line x : List Char) :
    linesFrom line (a ++ x) = linesFrom (a.reverse ++ line) x := by
  induction a generalizing line with
  | nil => rfl
  | cons c rest ih =>
    rw [List.mem_cons, not_or] at unbroken
    rw [List.cons_append, linesFrom, if_neg (Ne.symm unbroken.1), ih unbroken.2, List.reverse_cons, List.append_assoc,
      List.singleton_append]

/-- Texts with the same endings, whatever with the same ending stands before them on their first lines. -/
def Aligned (x y : List Char) : Prop := ∀ line line' : List Char, ending line.reverse = ending line'.reverse →
  (linesFrom line x).filterMap ending = (linesFrom line' y).filterMap ending

theorem Aligned.nil : Aligned [] [] := by
  intro line line' same
  have last : ∀ line : List Char, (linesFrom line []).filterMap ending = (ending line.reverse).toList := by
    intro line
    cases line with
    | nil => rfl
    | cons c rest =>
      rw [linesFrom, if_neg (by simp), List.filterMap_cons]
      cases ending (c :: rest).reverse <;> rfl
  rw [last, last, same]

theorem Aligned.cons {x y : List Char} (aligned : Aligned x y) (c : Char) : Aligned (c :: x) (c :: y) := by
  intro line line' same
  rw [linesFrom, linesFrom]
  split
  · rw [List.filterMap_cons, List.filterMap_cons, ending_dropReturn, ending_dropReturn, same, aligned [] [] rfl]
  · refine aligned (c :: line) (c :: line') ?_
    rw [List.reverse_cons, List.reverse_cons, ending_append, ending_append, same]

theorem Aligned.append {a b : String} (fits : Fits a b) {x y : List Char} (aligned : Aligned x y) :
    Aligned (a.toList ++ x) (b.toList ++ y) := by
  rcases fits with rfl | ⟨left, right⟩
  · induction a.toList with
    | nil => exact aligned
    | cons c rest ih => exact ih.cons c
  · -- A solid text decides the ending of the line so far, whatever stands before it.
    intro line line' _
    rw [linesFrom_append left.1, linesFrom_append right.1]
    refine aligned _ _ ?_
    rw [List.reverse_append, List.reverse_append, List.reverse_reverse, List.reverse_reverse, ending_append, ending_append,
      left.2, right.2, Option.some_or, Option.some_or]

/-- Text joined of parts that may stand for each other has one shape. -/
theorem endings_join {as bs : List String} (parts : List.Forall₂ Fits as bs) :
    endings (String.join as).toList = endings (String.join bs).toList := by
  have aligned : Aligned (String.join as).toList (String.join bs).toList := by
    induction parts with
    | nil => exact .nil
    | cons first _ ih =>
      rw [String.join_cons, String.join_cons, String.toList_append, String.toList_append]
      exact ih.append first
  exact aligned [] [] rfl

theorem isBlank_of_isNameChar {c : Char} (letter : isNameChar c = true) : isBlank c = false := by
  change (((decide (c.val ≥ 65 ∧ c.val ≤ 90) || (c.val ≥ 97 && c.val ≤ 122)) || (c.val ≥ 48 && c.val ≤ 57)) || c == '_') =
    true at letter
  simp only [Bool.or_eq_true, Bool.and_eq_true, decide_eq_true_eq, beq_iff_eq, UInt32.le_iff_toNat_le, ge_iff_le,
    Char.ext_iff] at letter
  simp only [isBlank, Char.toNat]
  simp [← UInt32.toNat_inj] at letter ⊢
  omega

theorem ending_of_getLast {cs : List Char} {c : Char} (last : cs.getLast? = some c) (visible : isBlank c = false) :
    ending cs = some (c == ';') := by
  obtain ⟨front, rfl⟩ := List.getLast?_eq_some_iff.mp last
  rw [ending, List.reverse_concat, List.find?_cons, visible]
  rfl

theorem solid_of_isNamePart {name : String} (named : isNamePart name = true) : Solid name := by
  obtain ⟨nonempty, letters⟩ := isNamePart_iff.mp named
  refine ⟨fun member => absurd (letters _ member) (by decide), ?_⟩
  have letter := letters _ (List.getLast_mem nonempty)
  rw [ending_of_getLast (List.getLast?_eq_some_getLast nonempty) (isBlank_of_isNameChar letter)]
  have other : name.toList.getLast nonempty ≠ ';' := fun same => absurd (same ▸ letter) (by decide)
  rw [beq_eq_false_iff_ne.mpr other]

theorem solid_parenthesized {text : String} (unbroken : '\n' ∉ text.toList) : Solid ("(" ++ text ++ ")") := by
  constructor
  · simpa using unbroken
  · rw [String.toList_append]
    exact ending_of_getLast List.getLast?_concat (by decide)

theorem solid_sumExpression {terms : List String} (solid : ∀ term ∈ terms, Solid term) :
    Solid (Draft.sumExpression terms) := by
  match terms with
  | [] =>
    show Solid Engine.nullSignal
    exact solid_of_isNamePart (by decide)
  | [term] => exact solid term List.mem_cons_self
  | first :: second :: rest =>
    refine solid_parenthesized ?_
    have unbroken : ∀ terms : List String, (∀ term ∈ terms, Solid term) → '\n' ∉ (" + ".intercalate terms).toList := by
      intro terms
      induction terms with
      | nil => simp
      | cons term rest ih =>
        intro solid
        rw [List.forall_mem_cons] at solid
        cases rest with
        | nil => simpa using solid.1.1
        | cons next rest =>
          rw [String.intercalate_cons_cons, String.toList_append, String.toList_append, List.mem_append, List.mem_append,
            not_or, not_or]
          exact ⟨⟨solid.1.1, by decide⟩, ih solid.2⟩
    exact unbroken _ solid

/-- What is written for a name has the ending of a name, so the text keeps its own. -/
theorem ending_replaceNameFrom {name replacement : List Char} (some_name : name ≠ []) (nameEnd : ending name = some false)
    (replacementEnd : ending replacement = some false) (last : Option Char) (skip : Nat) (cs : List Char) :
    ending (replaceNameFrom name replacement last skip cs) = ending (cs.drop skip) := by
  induction cs generalizing last skip with
  | nil => rw [replaceNameFrom, List.drop_nil]
  | cons c rest ih =>
    cases skip with
    | succ skip =>
      rw [replaceNameFrom, List.drop_succ_cons]
      exact ih last skip
    | zero =>
      rw [replaceNameFrom, List.drop_zero]
      split
      next here =>
        obtain ⟨whole, _⟩ := drop_of_isPrefixOf some_name here
        dsimp only
        rw [← whole, ending_append, ending_append, ih, nameEnd]
        split
        · rw [replacementEnd]
        · rw [nameEnd]
      next =>
        rw [ending_cons, ih, List.drop_zero, ← ending_cons]

theorem newline_not_mem_replaceNameFrom {name replacement : List Char} (inName : '\n' ∉ name)
    (inReplacement : '\n' ∉ replacement) (last : Option Char) (skip : Nat) {cs : List Char} (unbroken : '\n' ∉ cs) :
    '\n' ∉ replaceNameFrom name replacement last skip cs := by
  induction cs generalizing last skip with
  | nil => exact List.not_mem_nil
  | cons c rest ih =>
    rw [List.mem_cons, not_or] at unbroken
    cases skip with
    | succ skip => exact ih last skip unbroken.2
    | zero =>
      rw [replaceNameFrom]
      split
      next =>
        dsimp only
        rw [List.mem_append, not_or]
        refine ⟨?_, ih _ _ unbroken.2⟩
        split
        · exact inReplacement
        · exact inName
      next => exact List.not_mem_cons_of_ne_of_not_mem unbroken.1 (ih _ _ unbroken.2)

theorem Solid.replaceName {text name replacement : String} (solid : Solid text) (named : isNamePart name = true)
    (solidReplacement : Solid replacement) : Solid (replaceName text name replacement) := by
  obtain ⟨inName, nameEnd⟩ := solid_of_isNamePart named
  rw [Solid, Text.replaceName, String.toList_ofList]
  refine ⟨newline_not_mem_replaceNameFrom inName solidReplacement.1 none 0 solid.1, ?_⟩
  rw [ending_replaceNameFrom (isNamePart_iff.mp named).1 nameEnd solidReplacement.2, List.drop_zero]
  exact solid.2

end DspPatch.Text
